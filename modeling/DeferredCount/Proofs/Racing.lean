import DeferredCount.Proofs.Contention

/-!
# Writers that race for one object

Every action of every writer keeps the invariant of the race, whichever writer acts next. So what
was in a slot at the start is in a buffer before the first store to it.

Results:
1. `Race.Inv.stepAt`, `Race.Inv.runSchedule`: what every action of every writer keeps.
2. `racing_writers_log_once`: what has been pushed at any moment of any schedule.
-/

namespace DeferredCount

open Writer

namespace Race

variable {r : Race} {b b' : Books} {i k : Nat} {a : Activity} {h₀ h : Heap}
  {crew₀ crew : List Writer} {w₀ w : Writer} {wr : Write} {rest : List Write}

/-! ## A writer at a store -/

/-- Writer `k` acts, and the race goes on. -/
def GoesOn (r : Race) (h₀ : Heap) (crew₀ crew : List Writer) (k : Nat) (h : Heap) : Prop :=
  ∃ b' crew' h', stepAt crew k h = .ok crew' h' ∧ r.Inv h₀ crew₀ b' crew' h'

/-- In a race that is on, writer `k` has the store `wr` to make next. -/
structure Acting (r : Race) (h₀ : Heap) (crew₀ : List Writer) (b : Books) (crew : List Writer)
    (h : Heap) (k : Nat) (w₀ w : Writer) (wr : Write) (rest : List Write) : Prop where
  fair : r.Fair crew₀
  inv : r.Inv h₀ crew₀ b crew h
  at₀ : crew₀[k]? = some w₀
  at_k : crew[k]? = some w
  writes : w.writes = wr :: rest

namespace Acting

variable (t : r.Acting h₀ crew₀ b crew h k w₀ w wr rest)
include t

theorem plays : r.Plays b k w₀ w :=
  t.inv.plays k w₀ w t.at₀ t.at_k

theorem mem : w₀ ∈ crew₀ ∧ wr ∈ w₀.writes := by
  obtain ⟨made, eq, -⟩ := t.plays.made
  refine ⟨List.mem_of_getElem? t.at₀, ?_⟩
  rw [eq, t.writes]
  simp

theorem into : wr.Into r.object r.start.targets.length :=
  t.fair.into w₀ t.mem.1 wr t.mem.2

theorem placed : h.memory.Placed wr.src :=
  t.into.src ▸ t.inv.kept.placed

theorem length : h.memory.length wr.src = r.start.targets.length :=
  t.into.src ▸ t.inv.kept.length

theorem inside : wr.field.index < h.memory.length wr.src :=
  t.length ▸ t.into.inside

theorem view : h.view wr.src = h.memory.view r.object := by
  rw [t.into.src]
  rfl

theorem grain : Writer.grain w.mutator (h.memory.length wr.src) wr.field =
    if r.byField then .scalarField else .object := by
  rw [← t.fair.grain w₀ t.mem.1 wr t.mem.2, t.length]
  exact grain_congr t.plays.barrier ..

theorem field_eq (byField : r.byField = true) : wr.field = .scalar wr.field.index :=
  t.fair.field_eq byField t.mem.1 t.mem.2

/-- If writers log fields, then some writer was to store to the field that is logged. -/
theorem named {j : Nat} (same : r.byField = true → j = wr.field.index)
    (byField : r.byField = true) :
    ∃ w ∈ crew₀, ∃ wr ∈ w.writes, wr.field.index = j :=
  ⟨w₀, t.mem.1, wr, t.mem.2, (same byField).symm⟩

/-- An action that makes no store. -/
theorem act (at_a : w.activity = a) (stays : makesStore a = false) {d : Entries} {m : Memory}
    {a' : Activity} (does : Does w.mutator wr a h d m a') (moves : r.Moves crew₀ k b d b')
    (kept : r.Kept b' (Stored crew₀ crew) m)
    (status : if b'.holder = some k then r.Holds b' wr.field.index a'
      else r.Free b' wr.field.index a') : r.GoesOn h₀ crew₀ crew k h := by
  obtain ⟨m', h', run, adds, rfl⟩ := does
  obtain ⟨made, eq, safe⟩ := t.plays.made
  have step : w.step h = .ok { w with mutator := m', activity := a' } h' := by
    rw [step, t.writes]
    change (Writer.act w.mutator wr w.activity >>= _) h = _
    rw [at_a, HeapM.bind_of_ok run, stays]
    rfl
  refine ⟨b', crew.set k { w with mutator := m', activity := a' }, h', ?_,
    t.inv.turn t.at₀ t.at_k adds moves (kept.mono fun j => Stored.set t.at_k ⟨[], rfl⟩) {
      barrier := ?_
      made := ⟨made, eq, fun wr hwr => moves.safe _ (safe wr hwr)⟩
      idle := fun none => absurd (t.writes.symm.trans none) (List.cons_ne_nil _ _)
      status := fun wr' rest' eq' => ?_ }⟩
  · rw [Writer.stepAt, t.at_k]
    exact (HeapM.bind_of_ok step).trans rfl
  · rw [← t.plays.barrier, adds.same]
  · obtain ⟨rfl, -⟩ := List.cons.inj (t.writes.symm.trans eq')
    exact status

/-! ### Actions without the lock -/

/-- An action that only looks. -/
theorem look (free : b.holder ≠ some k) (at_a : w.activity = a) (stays : makesStore a = false)
    {a' : Activity} (does : Does w.mutator wr a h {} h.memory a')
    (status : r.Free b wr.field.index a') : r.GoesOn h₀ crew₀ crew k h :=
  t.act at_a stays does (.refl t.inv k) t.inv.kept (by rwa [if_neg free])

theorem choosing (free : b.holder ≠ some k) (at_a : w.activity = .choosing) :
    r.GoesOn h₀ crew₀ crew k h := by
  have same := t.grain
  cases byField : r.byField with
  | false =>
    rw [byField] at same
    refine t.look free at_a rfl (.choosing_object t.placed same) ?_
    exact r.check_object byField wr.field.index ▸ .checking
  | true =>
    rw [byField] at same
    refine t.look free at_a rfl (.choosing_scalar t.placed same) ?_
    have next := r.check_field byField wr.field.index
    rw [← t.field_eq byField, ← t.into.slot] at next
    exact next ▸ .checking

theorem checking (free : b.holder ≠ some k) (at_a : w.activity = r.check wr.field.index) :
    r.GoesOn h₀ crew₀ crew k h := by
  have kept := t.inv.kept
  cases byField : r.byField with
  | false =>
    rw [r.check_object byField] at at_a
    refine t.look free at_a rfl (.checkingHeader _ t.placed) ?_
    rw [t.view, kept.logRequired t.fair]
    cases logged : b.logged with
    | false => exact r.logs_object byField wr.field.index ▸ .locking
    | true => exact .storing ((safe_object byField _).2 logged)
  | true =>
    rw [r.check_field byField] at at_a
    refine t.look free at_a rfl (.checkingMark (f := .scalar wr.field.index) _ t.placed _
      t.inside) ?_
    rw [t.view]
    split
    · next marked =>
      exact .storing ((safe_field byField _).2 ((kept.marks _ t.into.inside).1 marked))
    · exact r.logs_field byField wr.field.index ▸ .locking

theorem locking (free : b.holder ≠ some k) (at_a : w.activity = .locking (r.logs wr.field.index)) :
    r.GoesOn h₀ crew₀ crew k h := by
  have kept := t.inv.kept
  refine t.look free at_a rfl (.locking _ t.placed _) ?_
  rw [t.view, kept.logRequired t.fair, kept.locked]
  cases logged : b.logged with
  | true =>
    -- only a race for a whole object sets the log bit
    have object : r.byField = false := by
      by_contra byField
      have := (t.inv.fields (Bool.not_eq_false _ ▸ byField)).2.1
      rw [logged] at this
      cases this
    exact .storing ((safe_object object _).2 logged)
  | false =>
    cases held : b.holder with
    | some j => exact .locking
    | none =>
      rw [kept.header_start t.fair logged held]
      exact .exchanging

/-- The lock is taken if the header is still the one that was loaded. -/
theorem exchanging (free : b.holder ≠ some k)
    (at_a : w.activity = .exchanging (r.logs wr.field.index) r.start.header) :
    r.GoesOn h₀ crew₀ crew k h := by
  have kept := t.inv.kept
  by_cases open_ : (h.view wr.src).header = r.start.header
  · obtain ⟨logged, none⟩ := kept.open_of_start t.fair (t.view ▸ open_)
    refine t.act at_a rfl (.exchanging_same _ t.placed _ open_) (.lock t.inv none k) ?_ ?_
    · rw [t.into.src]
      refine kept.putHeader { b with holder := some k } rfl ?_
      rw [logged]
      exact t.fair.locked_eq
    · rw [if_pos rfl]
      have even := t.inv.even none
      cases byField : r.byField with
      | false =>
        rw [r.logs_object byField]
        exact .pushingObject byField ⟨even.entered, even.objects, even.saved⟩ logged
      | true =>
        rw [r.logs_field byField]
        exact .checkingAgain byField ⟨even.entered, even.objects, even.saved⟩
  · exact t.look free at_a rfl (.exchanging_other _ t.placed _ open_) .locking

/-- A writer without the lock acts, short of its store. -/
theorem act_free (free : b.holder ≠ some k) (stays : makesStore w.activity = false) :
    r.GoesOn h₀ crew₀ crew k h := by
  have status := t.plays.status wr rest t.writes
  rw [if_neg free] at status
  obtain ⟨a, at_a⟩ : ∃ a, w.activity = a := ⟨_, rfl⟩
  rw [at_a] at status stays
  cases status with
  | choosing => exact t.choosing free at_a
  | checking => exact t.checking free at_a
  | locking => exact t.locking free at_a
  | exchanging => exact t.exchanging free at_a
  | storing => cases stays

/-! ### Actions with the lock -/

/-- The holder of the lock only looks. -/
theorem look_held (held : b.holder = some k) (at_a : w.activity = a)
    (stays : makesStore a = false) {a' : Activity} (does : Does w.mutator wr a h {} h.memory a')
    (status : r.Holds b wr.field.index a') : r.GoesOn h₀ crew₀ crew k h :=
  t.act at_a stays does (.refl t.inv k) t.inv.kept (by rwa [if_pos held])

theorem pushingObject (held : b.holder = some k) (at_a : w.activity = .pushingObject)
    (object : r.byField = false) (even : r.Even b) (logged : b.logged = false) :
    r.GoesOn h₀ crew₀ crew k h := by
  have does := Does.pushingObject w.mutator t.placed
  rw [t.into.src, t.inv.kept.length] at does
  refine t.act at_a rfl does (.pushObject t.inv held object) (t.inv.kept.congr rfl rfl rfl) ?_
  have saving := even.saving_object object logged (t.inv.whole object) wr.field.index
  rw [if_pos held, ← r.logs_object object wr.field.index]
  exact .loading saving

/-- Another writer may have logged the field before this one got the lock. -/
theorem checkingAgain (held : b.holder = some k)
    (at_a : w.activity =
      .checkingAgain (.scalar wr.field.index) (.field (r.object.slotAddr wr.field.index)))
    (byField : r.byField = true) (even : r.Even b) : r.GoesOn h₀ crew₀ crew k h := by
  obtain ⟨-, logged, -⟩ := t.inv.fields byField
  have marks := t.inv.kept.marks _ t.into.inside
  refine t.look_held held at_a rfl (.checkingAgain (f := .scalar wr.field.index) _ t.placed _
    t.inside) ?_
  rw [t.view]
  split
  · next marked => exact .unlocking byField even (marks.1 marked)
  · next unmarked =>
    have saving := even.saving_field byField logged t.inv.saved fun mem => unmarked (marks.2 mem)
    exact r.logs_field byField wr.field.index ▸ .loading saving

/-- All slots are saved. -/
theorem loaded {found : Nat} (held : b.holder = some k)
    (at_a : w.activity = .loading (r.logs wr.field.index) [] found)
    (saving : r.Saving b wr.field.index (r.part wr.field.index) []) :
    r.GoesOn h₀ crew₀ crew k h := by
  refine t.look_held held at_a rfl (.loading_nil _ _ _ _ _) ?_
  cases byField : r.byField with
  | false =>
    rw [r.logs_object byField]
    exact .completing byField saving
  | true =>
    rw [r.logs_field byField]
    exact .storingMark byField (r.part_field byField _ ▸ saving)

/-- The next slot is as it was at the start, since nobody may have stored to it yet. -/
theorem loading {done slots : List Nat} {j found : Nat} (held : b.holder = some k)
    (at_a : w.activity =
      .loading (r.logs wr.field.index) ((j :: slots).map r.object.slotAddr) found)
    (saving : r.Saving b wr.field.index done (j :: slots)) : r.GoesOn h₀ crew₀ crew k h := by
  have hj := saving.lt t.into.inside
  have target : (h.view wr.src).target j = r.start.target j := by
    rw [t.view]
    exact t.inv.kept.targets j hj fun s => saving.unsafe_next (t.inv.safe_of_stored s)
  have does := Does.loading_cons w.mutator t.placed (t.length ▸ hj) (r.logs wr.field.index)
    (slots.map r.object.slotAddr) found
  rw [target, t.into.src] at does
  cases old : r.start.target j with
  | none =>
    rw [old] at does
    have moves := Moves.save t.inv held saving.not_saved (t.named saving.eq_of_field)
    rw [old] at moves
    refine t.act at_a rfl does moves (t.inv.kept.congr rfl rfl rfl) ?_
    rw [if_pos held]
    exact .loading saving.next
  | some o =>
    rw [old] at does
    exact t.look_held held at_a rfl does (.pushingOld saving old)

theorem pushingOld {done slots : List Nat} {j found : Nat} {old : Ref} (held : b.holder = some k)
    (at_a : w.activity =
      .pushingOld (r.logs wr.field.index) old (slots.map r.object.slotAddr) found)
    (saving : r.Saving b wr.field.index done (j :: slots)) (target : r.start.target j = some old) :
    r.GoesOn h₀ crew₀ crew k h := by
  have moves := Moves.save t.inv held saving.not_saved (t.named saving.eq_of_field)
  rw [target] at moves
  refine t.act at_a rfl (.pushingOld _ _ _ _ _ _ _) moves (t.inv.kept.congr rfl rfl rfl) ?_
  rw [if_pos held]
  exact .loading saving.next

theorem completing {found : Nat} (held : b.holder = some k) (at_a : w.activity = .completing found)
    (object : r.byField = false) (saving : r.Saving b wr.field.index (r.part wr.field.index) []) :
    r.GoesOn h₀ crew₀ crew k h := by
  refine t.look_held held at_a rfl (.completing _ t.placed _) ?_
  rw [t.view, t.inv.kept.header_locked t.fair saving.logged held]
  exact .completed object saving

/-- The object counts as logged, and the lock is given back by the same exchange. -/
theorem completed {found : Nat} (held : b.holder = some k)
    (at_a : w.activity = .completed found { r.start.header with locked := true })
    (object : r.byField = false) (saving : r.Saving b wr.field.index (r.part wr.field.index) []) :
    r.GoesOn h₀ crew₀ crew k h := by
  have same : (h.view wr.src).header = { r.start.header with locked := true } := by
    rw [t.view, t.inv.kept.header_locked t.fair saving.logged held]
  refine t.act at_a rfl (.completed _ t.placed _ same rfl)
    (.release t.inv held true (fun _ => object) (fun _ => rfl) (saving.even_object object)) ?_ ?_
  · rw [t.into.src]
    exact t.inv.kept.putHeader { b with logged := true, holder := none } rfl rfl
  · rw [if_neg nofun]
    exact .storing ((safe_object object _).2 rfl)

theorem storingMark {found : Nat} (held : b.holder = some k)
    (at_a : w.activity =
      .storingMark (.scalar wr.field.index) (.field (r.object.slotAddr wr.field.index)) found)
    (byField : r.byField = true) (saving : r.Saving b wr.field.index [wr.field.index] []) :
    r.GoesOn h₀ crew₀ crew k h := by
  have does := Does.storingMark (f := .scalar wr.field.index) w.mutator t.placed t.inside
    (.field (r.object.slotAddr wr.field.index)) found
  rw [t.into.src, Memory.markAddr, t.inv.kept.length] at does
  refine t.act at_a rfl does (.mark t.inv held byField _) (t.inv.kept.putMark t.into.inside) ?_
  rw [if_pos held]
  exact .pushingField byField saving.saved (by rw [saving.entered]; rfl)

theorem pushingField {found : Nat} (held : b.holder = some k)
    (at_a : w.activity = .pushingField (.scalar wr.field.index)
      (.field (r.object.slotAddr wr.field.index)) (r.ticket wr.field.index).mark found)
    (byField : r.byField = true) (saved : b.saved = b.marked)
    (marked : b.marked = b.entered ++ [wr.field.index]) : r.GoesOn h₀ crew₀ crew k h := by
  obtain ⟨noObjects, logged, -⟩ := t.inv.fields byField
  refine t.act at_a rfl (.pushingField _ _ _ _ (r.ticket wr.field.index) _)
    (.enter t.inv held wr.field.index) (t.inv.kept.congr rfl rfl rfl) ?_
  rw [if_pos held]
  refine .unlocking byField (even_of_entered saved marked noObjects logged) ?_
  rw [marked]
  simp

theorem unlocking (held : b.holder = some k) (at_a : w.activity = .unlocking)
    (byField : r.byField = true) (even : r.Even b) (marked : wr.field.index ∈ b.marked) :
    r.GoesOn h₀ crew₀ crew k h := by
  refine t.look_held held at_a rfl (.unlocking _ t.placed) ?_
  rw [t.view, t.inv.kept.header_locked t.fair (t.inv.fields byField).2.1 held]
  exact .unlocked byField even marked

theorem unlocked (held : b.holder = some k)
    (at_a : w.activity = .unlocked { r.start.header with locked := true })
    (byField : r.byField = true) (even : r.Even b) (marked : wr.field.index ∈ b.marked) :
    r.GoesOn h₀ crew₀ crew k h := by
  obtain ⟨-, logged, -⟩ := t.inv.fields byField
  have same : (h.view wr.src).header = { r.start.header with locked := true } := by
    rw [t.view, t.inv.kept.header_locked t.fair logged held]
  refine t.act at_a rfl (.unlocked _ t.placed same rfl)
    (.release t.inv held false nofun (fun yes => logged.symm.trans yes) (even.release logged)) ?_ ?_
  · rw [t.into.src]
    exact t.inv.kept.putHeader { b with logged := false, holder := none } rfl t.fair.unlocked_eq
  · rw [if_neg nofun]
    exact .storing ((safe_field byField _).2 marked)

/-- The writer with the lock acts. -/
theorem act_held (held : b.holder = some k) : r.GoesOn h₀ crew₀ crew k h := by
  have status := t.plays.status wr rest t.writes
  rw [if_pos held] at status
  obtain ⟨a, at_a⟩ : ∃ a, w.activity = a := ⟨_, rfl⟩
  rw [at_a] at status
  cases status with
  | pushingObject object even logged => exact t.pushingObject held at_a object even logged
  | checkingAgain byField even => exact t.checkingAgain held at_a byField even
  | @loading done slots found saving =>
    cases slots with
    | nil =>
      have all : r.part wr.field.index = done := by rw [saving.part, List.append_nil]
      exact t.loaded held at_a (all ▸ saving)
    | cons j slots => exact t.loading held at_a saving
  | pushingOld saving target => exact t.pushingOld held at_a saving target
  | completing object saving => exact t.completing held at_a object saving
  | completed object saving => exact t.completed held at_a object saving
  | storingMark byField saving => exact t.storingMark held at_a byField saving
  | pushingField byField saved marked => exact t.pushingField held at_a byField saved marked
  | unlocking byField even marked => exact t.unlocking held at_a byField even marked
  | unlocked byField even marked => exact t.unlocked held at_a byField even marked

/-! ### The store -/

/-- A writer makes its store. -/
theorem act_store (free : b.holder ≠ some k) (stores : w.activity = .storing) :
    r.GoesOn h₀ crew₀ crew k h := by
  have safe : r.Safe b wr.field.index := by
    have status := t.plays.status wr rest t.writes
    rw [if_neg free, stores] at status
    exact status.safe
  obtain ⟨m', h', run, adds, memory⟩ := Does.storing w.mutator t.placed
    (t.into.src.symm ▸ t.into.slot) t.inside
  obtain ⟨made, eq, safe₀⟩ := t.plays.made
  obtain ⟨w', eq'⟩ : ∃ w' : Writer, w' = { mutator := m', activity := .choosing, writes := rest } :=
    ⟨_, rfl⟩
  have step : w.step h = .ok w' h' := by
    rw [step, t.writes]
    change (Writer.act w.mutator wr w.activity >>= _) h = _
    rw [stores, HeapM.bind_of_ok run, eq']
    rfl
  have made' : w₀.writes = (made ++ [wr]) ++ w'.writes := by
    rw [eq, t.writes, eq', List.append_assoc, List.singleton_append]
  have hk := (List.getElem?_eq_some_iff.1 t.at_k).1
  have now : Stored crew₀ (crew.set k w') wr.field.index :=
    ⟨k, w₀, w', made ++ [wr], t.at₀, List.getElem?_set_self hk, made', wr, by simp, rfl⟩
  have kept := t.inv.kept.putTarget t.into.inside wr.target
    (fun j => Stored.set t.at_k ⟨[wr], by rw [t.writes, eq', List.singleton_append]⟩) now
  refine ⟨b, crew.set k w', h', ?_, t.inv.turn t.at₀ t.at_k (eq' ▸ adds) (.refl t.inv k) ?_ {
    barrier := ?_
    made := ⟨made ++ [wr], made', fun v hv => ?_⟩
    idle := fun _ => free
    status := fun v rest' _ => ?_ }⟩
  · rw [Writer.stepAt, t.at_k]
    exact (HeapM.bind_of_ok step).trans rfl
  · rw [memory, t.into.src]
    exact kept
  · rw [eq', ← t.plays.barrier, adds.same]
  · rcases List.mem_append.1 hv with hv | hv
    · exact safe₀ v hv
    · rwa [List.mem_singleton.1 hv]
  · rw [if_neg free, eq']
    exact .choosing

end Acting

namespace Inv

/-- Every action of every writer succeeds, and the race goes on. -/
theorem stepAt (fair : r.Fair crew₀) (inv : r.Inv h₀ crew₀ b crew h) (k : Nat) :
    ∃ b' crew' h', Writer.stepAt crew k h = .ok crew' h' ∧ r.Inv h₀ crew₀ b' crew' h' := by
  cases at_k : crew[k]? with
  | none =>
    refine ⟨b, crew, h, ?_, inv⟩
    rw [Writer.stepAt, at_k]
    rfl
  | some w =>
    obtain ⟨hk, e⟩ := List.getElem?_eq_some_iff.1 at_k
    have hk₀ : k < crew₀.length := inv.length ▸ hk
    cases writes : w.writes with
    | nil =>
      have step : w.step h = .ok w h := by
        rw [Writer.step, writes]
        rfl
      refine ⟨b, crew, h, ?_, inv⟩
      rw [Writer.stepAt, at_k]
      refine (HeapM.bind_of_ok step).trans ?_
      rw [← e, List.set_getElem_self]
      rfl
    | cons wr rest =>
      have t : r.Acting h₀ crew₀ b crew h k crew₀[k] w wr rest :=
        ⟨fair, inv, List.getElem?_eq_getElem hk₀, at_k, writes⟩
      by_cases held : b.holder = some k
      · exact t.act_held held
      · cases stores : makesStore w.activity with
        | false => exact t.act_free held stores
        | true =>
          have : w.activity = .storing := by
            revert stores
            cases w.activity <;> simp [makesStore]
          exact t.act_store held this

/-- So does every schedule. -/
theorem runSchedule (fair : r.Fair crew₀) (inv : r.Inv h₀ crew₀ b crew h) (schedule : List Nat) :
    ∃ b' crew' h', Writer.runSchedule crew schedule h = .ok crew' h' ∧
      r.Inv h₀ crew₀ b' crew' h' := by
  induction schedule generalizing b crew h with
  | nil => exact ⟨b, crew, h, rfl, inv⟩
  | cons k schedule ih =>
    obtain ⟨b₁, crew₁, h₁, step, inv₁⟩ := inv.stepAt fair k
    obtain ⟨b', crew', h', run, inv'⟩ := ih inv₁
    refine ⟨b', crew', h', ?_, inv'⟩
    rw [Writer.runSchedule, List.foldlM_cons, HeapM.bind_of_ok step]
    exact run

/-! ### What the books say -/

/-- Either nobody logs, or a writer that has the lock does. -/
theorem even_or_holds (inv : r.Inv h₀ crew₀ b crew h) : r.Even b ∨ ∃ i a, r.Holds b i a := by
  cases held : b.holder with
  | none => exact .inl (inv.even held)
  | some k =>
    have hk := inv.holder_lt k held
    have hk₀ : k < crew₀.length := inv.length ▸ hk
    have plays := inv.plays k crew₀[k] crew[k] (List.getElem?_eq_getElem hk₀)
      (List.getElem?_eq_getElem hk)
    cases writes : crew[k].writes with
    | nil => exact absurd held (plays.idle writes)
    | cons wr rest =>
      have status := plays.status wr rest writes
      rw [if_pos held] at status
      exact .inr ⟨_, _, status⟩

end Inv

/-- A writer is about to store to field `i`. -/
def Storing (crew : List Writer) (i : Nat) : Prop :=
  ∃ w ∈ crew, w.activity = .storing ∧ ∃ wr, w.writes.head? = some wr ∧ wr.field.index = i

theorem Inv.safe_of_storing (inv : r.Inv h₀ crew₀ b crew h) (s : Storing crew i) : r.Safe b i := by
  obtain ⟨w, hw, stores, wr, head, rfl⟩ := s
  obtain ⟨k, hk, rfl⟩ := List.getElem_of_mem hw
  have hk₀ : k < crew₀.length := inv.length ▸ hk
  have status := (inv.plays k crew₀[k] crew[k] (List.getElem?_eq_getElem hk₀)
    (List.getElem?_eq_getElem hk)).status wr _ (List.eq_cons_of_mem_head? head)
  rw [stores] at status
  split at status
  · cases status
  · exact status.safe

theorem Holds.logged (holds : r.Holds b i a) (whole : r.byField = false) : b.logged = false := by
  cases holds with
  | pushingObject _ _ logged => exact logged
  | loading s => exact s.logged
  | pushingOld s _ => exact s.logged
  | completing _ s => exact s.logged
  | completed _ s => exact s.logged
  | checkingAgain f _ | storingMark f _ | pushingField f _ _ | unlocking f _ _ | unlocked f _ _ =>
    rw [whole] at f
    cases f

/-- No more is entered than is marked, and no more is marked than is saved. -/
theorem Inv.entered_saved (inv : r.Inv h₀ crew₀ b crew h) :
    b.entered <+: b.marked ∧ b.marked <+: b.saved := by
  have saving {i : Nat} {done rest : List Nat} (s : r.Saving b i done rest) :
      b.entered <+: b.marked ∧ b.marked <+: b.saved := by
    rw [s.entered, s.saved]
    exact ⟨List.prefix_refl _, List.prefix_append ..⟩
  have even (e : r.Even b) : b.entered <+: b.marked ∧ b.marked <+: b.saved := by
    rw [e.entered, e.saved]
    exact ⟨List.prefix_refl _, List.prefix_append ..⟩
  rcases inv.even_or_holds with e | ⟨i, a, holds⟩
  · exact even e
  · cases holds with
    | pushingObject _ e _ | checkingAgain _ e | unlocking _ e _ | unlocked _ e _ => exact even e
    | loading s | pushingOld s _ | completing _ s | completed _ s | storingMark _ s =>
      exact saving s
    | pushingField _ saved marked =>
      rw [saved, marked]
      exact ⟨List.prefix_append .., List.prefix_refl _⟩

/-- The object is pushed at most once. -/
theorem Inv.objects_once (inv : r.Inv h₀ crew₀ b crew h) :
    b.objects = [] ∨ b.objects = [r.object] := by
  have saving {i : Nat} {done rest : List Nat} (s : r.Saving b i done rest) :
      b.objects = [] ∨ b.objects = [r.object] := by
    rw [s.objects]
    split <;> simp
  have even (e : r.Even b) : b.objects = [] ∨ b.objects = [r.object] := by
    rw [e.objects]
    split <;> simp
  rcases inv.even_or_holds with e | ⟨i, a, holds⟩
  · exact even e
  · cases holds with
    | pushingObject _ e _ | checkingAgain _ e | unlocking _ e _ | unlocked _ e _ => exact even e
    | loading s | pushingOld s _ | completing _ s | completed _ s | storingMark _ s =>
      exact saving s
    | pushingField byField _ _ => exact .inl (inv.fields byField).1

/-- Before the race, nothing is pushed, and the lock is free. -/
theorem Inv.start (fair : r.Fair crew₀) (view : h.view r.object = r.start)
    (placed : h.memory.Placed r.object) (unmarked : ∀ j, r.start.isMarked j = false)
    (choosing : ∀ w ∈ crew₀, w.activity = .choosing) : r.Inv h crew₀ {} crew₀ h where
  length := rfl
  plays k w₀ w at₀ at_k := by
    obtain rfl : w₀ = w := Option.some.inj (at₀.symm.trans at_k)
    refine ⟨rfl, ⟨[], rfl, nofun⟩, fun _ => nofun, fun wr rest _ => ?_⟩
    rw [if_neg nofun, choosing w₀ (List.mem_of_getElem? at₀)]
    exact .choosing
  kept := {
    placed
    length := by
      rw [← view]
      exact (Memory.length_targets ..).symm
    header := by
      rw [← Heap.view, view]
      exact fair.header_eq
    marks := fun j _ => by
      rw [← Heap.view, view, unmarked j]
      simp
    targets := fun j _ _ => by rw [← Heap.view, view] }
  gathered := .refl h _
  even _ := ⟨rfl, rfl, rfl⟩
  holder_lt := nofun
  fields _ := ⟨rfl, rfl, nofun⟩
  whole _ := rfl
  saved := List.nodup_nil

end Race

/-! ## All races -/

/-- What was pushed by some moment of a race for an object that is logged as a whole: `objects`, and
what the slots `saved` referred to. -/
structure Race.LogsWhole (r : Race) (h : Heap) (crew : List Writer) (h' : Heap)
    (crew' : List Writer) (objects : List Ref) (saved : List Nat) : Prop where
  pushed : Gathered h (crew.map (·.mutator))
    { objects, decrements := saved.filterMap r.start.target } h' (crew'.map (·.mutator))
  objects_once : objects = [] ∨ objects = [r.object]
  saved_once : saved.Nodup
  before_store : ∀ i, Stored crew crew' i ∨ Race.Storing crew' i →
    objects = [r.object] ∧ saved = List.range r.start.targets.length

/-- What was pushed by some moment of a race for an object whose fields are logged one by one: the
entries of the fields `entered`, and what the slots `saved` referred to. -/
structure Race.LogsFields (r : Race) (h : Heap) (crew : List Writer) (h' : Heap)
    (crew' : List Writer) (entered saved : List Nat) : Prop where
  pushed : Gathered h (crew.map (·.mutator))
    { fields := entered.map r.ticket, decrements := saved.filterMap r.start.target }
    h' (crew'.map (·.mutator))
  entered_saved : entered <+: saved
  saved_once : saved.Nodup
  before_store : ∀ i, Stored crew crew' i ∨ Race.Storing crew' i → i ∈ saved
  written : ∀ i ∈ saved, ∃ w ∈ crew, ∃ wr ∈ w.writes, wr.field.index = i
  finished : (∀ w ∈ crew', w.isFinished = true) →
    entered = saved ∧ (∀ w ∈ crew, ∀ wr ∈ w.writes, wr.field.index ∈ saved) ∧
      (h'.view r.object).header = r.start.header ∧
      ∀ j < r.start.targets.length, (h'.view r.object).isMarked j = true ↔ j ∈ saved

namespace Race.Inv

variable {r : Race} {b : Books} {h₀ h : Heap} {crew₀ crew : List Writer}

theorem logsWhole (inv : r.Inv h₀ crew₀ b crew h) (whole : r.byField = false) :
    r.LogsWhole h₀ crew₀ h crew b.objects b.saved where
  pushed := by
    have none : b.entered = [] :=
      List.prefix_nil.1 (inv.whole whole ▸ inv.entered_saved.1)
    have := inv.gathered
    rwa [Race.entries, none] at this
  objects_once := inv.objects_once
  saved_once := inv.saved
  before_store i s := by
    have safe : r.Safe b i := s.elim inv.safe_of_stored inv.safe_of_storing
    have logged := (safe_object whole i).1 safe
    rcases inv.even_or_holds with even | ⟨i, a, holds⟩
    · rw [even.objects, even.saved, logged, inv.whole whole]
      exact ⟨rfl, rfl⟩
    · rw [holds.logged whole] at logged
      cases logged

theorem logsFields (fair : r.Fair crew₀) (inv : r.Inv h₀ crew₀ b crew h)
    (byField : r.byField = true) :
    r.LogsFields h₀ crew₀ h crew b.entered b.saved where
  pushed := by
    have := inv.gathered
    rwa [Race.entries, (inv.fields byField).1] at this
  entered_saved := inv.entered_saved.1.trans inv.entered_saved.2
  saved_once := inv.saved
  before_store i s := by
    have safe : r.Safe b i := s.elim inv.safe_of_stored inv.safe_of_storing
    exact inv.entered_saved.2.subset ((safe_field byField i).1 safe)
  written := (inv.fields byField).2.2
  finished done := by
    have free : b.holder = none := by
      by_contra held
      obtain ⟨k, held⟩ := Option.ne_none_iff_exists'.1 held
      have hk := inv.holder_lt k held
      have hk₀ : k < crew₀.length := inv.length ▸ hk
      have empty := List.isEmpty_iff.1 (done crew[k] (List.getElem_mem hk))
      exact (inv.plays k _ _ (List.getElem?_eq_getElem hk₀)
        (List.getElem?_eq_getElem hk)).idle empty held
    have even := inv.even free
    have logged := (inv.fields byField).2.1
    have saved : b.saved = b.marked := by
      rw [even.saved, logged]
      exact List.append_nil _
    refine ⟨even.entered.trans saved.symm, fun w hw wr hwr => ?_, ?_, fun j hj => ?_⟩
    · rw [saved]
      exact (safe_field byField _).1
        (inv.safe_of_stored (.of_finished inv.length done hw hwr))
    · exact inv.kept.header_start fair logged free
    · rw [saved]
      exact inv.kept.marks j hj

end Race.Inv

/-- Any number of writers store to an object that nobody has logged, in any order of their actions.
If they log it as a whole, then it is pushed once, together with all that it referred to at the
start, before the first store. If they log its fields one by one, then what a field referred to at
the start is pushed once, before the first store to the field, and in the end each field that was
stored to has one entry. -/
theorem racing_writers_log_once {h : Heap} {x : Ref} {crew : List Writer}
    (placed : h.memory.Placed x)
    (clean : (h.view x).header.logged = false ∧ (h.view x).header.locked = false ∧
      (h.view x).header.fresh = false)
    (unmarked : ∀ i, (h.view x).isMarked i = false)
    (choosing : ∀ w ∈ crew, w.activity = .choosing)
    (into : ∀ w ∈ crew, ∀ wr ∈ w.writes, wr.Into x (h.memory.length x)) (schedule : List Nat) :
    ((∀ w ∈ crew, ∀ wr ∈ w.writes, w.mutator.granularity x wr.field h = .ok .object h) →
      ∃ crew' h' objects saved, Writer.runSchedule crew schedule h = .ok crew' h' ∧
        Race.LogsWhole ⟨x, h.view x, false⟩ h crew h' crew' objects saved) ∧
    ((∀ w ∈ crew, ∀ wr ∈ w.writes, w.mutator.granularity x wr.field h = .ok .scalarField h) →
      ∃ crew' h' entered saved, Writer.runSchedule crew schedule h = .ok crew' h' ∧
        Race.LogsFields ⟨x, h.view x, true⟩ h crew h' crew' entered saved) := by
  have fair (byField : Bool)
      (all : ∀ w ∈ crew, ∀ wr ∈ w.writes, w.mutator.granularity x wr.field h =
        .ok (if byField then .scalarField else .object) h) :
      Race.Fair ⟨x, h.view x, byField⟩ crew := {
    into := fun w hw wr hwr => by
      rw [Heap.view, Memory.length_targets]
      exact into w hw wr hwr
    grain := fun w hw wr hwr => by
      have := all w hw wr hwr
      have src := (into w hw wr hwr).src
      rw [← src, granularity_eq_grain w.mutator (src ▸ placed) wr.field, src] at this
      rw [Heap.view, Memory.length_targets]
      injection this
    logged := clean.1
    locked := clean.2.1
    fresh := clean.2.2 }
  have start {byField : Bool} (f : Race.Fair ⟨x, h.view x, byField⟩ crew) :=
    Race.Inv.start f rfl placed unmarked choosing
  constructor
  · intro whole
    have f := fair false whole
    obtain ⟨b, crew', h', run, inv⟩ := (start f).runSchedule f schedule
    exact ⟨crew', h', _, _, run, inv.logsWhole rfl⟩
  · intro fields
    have f := fair true fields
    obtain ⟨b, crew', h', run, inv⟩ := (start f).runSchedule f schedule
    exact ⟨crew', h', _, _, run, inv.logsFields f rfl⟩

/-- An object of two slots. The first one refers to the object itself. -/
def Heap.twoSlots : Heap :=
  { Heap.ofSettings {} with
    memory :=
      [(0, 256), (1, 4), (2, 0x10000000)].foldl (fun m w => m.setWord w.1 w.2) Memory.empty }

/-- Two writers store to both slots of that object, in opposite orders. Buffers of one entry go to
the pools at once. -/
def Race.twoWriters (scalarFields : Bool) : List Writer :=
  let x : Ref := ⟨0x10000000⟩
  let mutator : Mutator := {
    flavor := .base
    barrier := .ofSettings { scalarFields }
    buffers := ⟨{ capacity := 1 }, { capacity := 1 }, { capacity := 1 }⟩ }
  let store (i : Nat) : Write := ⟨x, x.slotAddr i, none, .scalar i⟩
  [⟨mutator, [store 0, store 1], .choosing⟩, ⟨mutator, [store 1, store 0], .choosing⟩]

/-- They take turns until both are finished. -/
def Race.twoTurns : List Nat := (List.replicate 45 [0, 1]).flatten

theorem Race.twoWriters_finish (b : Bool) : ∀ crew h,
    Writer.runSchedule (twoWriters b) twoTurns Heap.twoSlots = .ok crew h →
      crew.length = 2 ∧ ∀ w ∈ crew, w.isFinished = true := by
  have all : (match Writer.runSchedule (twoWriters b) twoTurns Heap.twoSlots with
      | .ok crew _ => decide (crew.length = 2 ∧ ∀ w ∈ crew, w.isFinished = true)
      | .error _ _ => false) = true := by
    revert b
    decide +kernel
  intro crew h run
  rw [run] at all
  exact of_decide_eq_true all

/-- In either race, the object ends up in the decrements once. Both of its slots have an entry where
its fields are logged one by one. -/
theorem racing_writers_log_twoSlots :
    (∃ crew h, Writer.runSchedule (Race.twoWriters false) Race.twoTurns Heap.twoSlots = .ok crew h ∧
      (h.loggedObjects (crew.map (·.mutator))).Perm [⟨0x10000000⟩] ∧
      (h.owedDecrements (crew.map (·.mutator))).Perm [⟨0x10000000⟩]) ∧
    ∃ crew h, Writer.runSchedule (Race.twoWriters true) Race.twoTurns Heap.twoSlots = .ok crew h ∧
      (h.loggedFields (crew.map (·.mutator))).length = 2 ∧
      (h.owedDecrements (crew.map (·.mutator))).Perm [⟨0x10000000⟩] := by
  have race (b : Bool) := @racing_writers_log_once Heap.twoSlots ⟨0x10000000⟩
    (Race.twoWriters b) (by decide +kernel) (by decide +kernel)
    (fun i => by
      have marks : (Heap.twoSlots.view ⟨0x10000000⟩).marks = [false, false] := by decide +kernel
      rw [ObjectView.isMarked, marks]
      rcases i with _ | _ | i <;> rfl)
    (by
      intro w hw
      simp only [Race.twoWriters, List.mem_cons, List.not_mem_nil, or_false] at hw
      rcases hw with rfl | rfl <;> rfl)
    (by
      have length : Heap.twoSlots.memory.length ⟨0x10000000⟩ = 2 := by decide +kernel
      intro w hw wr hwr
      simp only [Race.twoWriters, List.mem_cons, List.not_mem_nil, or_false] at hw
      rcases hw with rfl | rfl <;>
      · simp only [List.mem_cons, List.not_mem_nil, or_false] at hwr
        rcases hwr with rfl | rfl <;> exact ⟨rfl, rfl, by rw [length]; decide⟩)
    Race.twoTurns
  have granularity (b : Bool) : ∀ w ∈ Race.twoWriters b, ∀ wr ∈ w.writes,
      w.mutator.granularity ⟨0x10000000⟩ wr.field Heap.twoSlots =
        .ok (if b then .scalarField else .object) Heap.twoSlots := by
    intro w hw wr hwr
    simp only [Race.twoWriters, List.mem_cons, List.not_mem_nil, or_false] at hw
    rcases hw with rfl | rfl <;>
    · simp only [List.mem_cons, List.not_mem_nil, or_false] at hwr
      rcases hwr with rfl | rfl <;> cases b <;> rfl
  constructor
  · obtain ⟨crew, h, objects, saved, run, logs⟩ := (race false).1 (granularity false)
    obtain ⟨length, finished⟩ := Race.twoWriters_finish false crew h run
    have asked : ∃ w ∈ Race.twoWriters false, ∃ wr ∈ w.writes, wr.field.index = 0 := by
      decide +kernel
    obtain ⟨w, hw, wr, hwr, -⟩ := asked
    have stored := Stored.of_finished (length : crew.length = (Race.twoWriters false).length)
      finished hw hwr
    obtain ⟨rfl, rfl⟩ := logs.before_store _ (.inl stored)
    refine ⟨crew, h, run, logs.pushed.objects.trans (.of_eq rfl),
      logs.pushed.decrements.trans (.of_eq ?_)⟩
    decide +kernel
  · obtain ⟨crew, h, entered, saved, run, logs⟩ := (race true).2 (granularity true)
    obtain ⟨rfl, asked, -, -⟩ := logs.finished (Race.twoWriters_finish true crew h run).2
    have both : entered.Perm [0, 1] := by
      refine (List.perm_ext_iff_of_nodup logs.saved_once (by decide)).2 fun i => ⟨fun hi => ?_, ?_⟩
      · obtain ⟨w, hw, wr, hwr, rfl⟩ := logs.written i hi
        have all : ∀ w ∈ Race.twoWriters true, ∀ wr ∈ w.writes, wr.field.index ∈ [0, 1] := by
          decide +kernel
        exact all w hw wr hwr
      · intro hi
        have : ∃ w ∈ Race.twoWriters true, ∃ wr ∈ w.writes, wr.field.index = i := by
          revert i
          decide +kernel
        obtain ⟨w, hw, wr, hwr, rfl⟩ := this
        exact asked w hw wr hwr
    refine ⟨crew, h, run, ?_, ?_⟩
    · have := logs.pushed.fields.length_eq
      rw [this, List.length_append, List.length_map, List.length_map, both.length_eq]
      rfl
    · refine logs.pushed.decrements.trans ?_
      refine ((both.filterMap _).append_left _).trans (.of_eq ?_)
      decide +kernel

end DeferredCount
