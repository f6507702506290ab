import DeferredCount.Proofs.Actions

/-!
# Writers that contend for the lock

Any number of writers store to one object, and all of them log it as a whole, or all of them log
the field that they store to. Whoever takes the lock of the object logs, and the others wait or see
that it is done.

The invariant names the writer that holds the lock, if there is one, and says for each of its
activities how much it has pushed so far (`Race.Holds`). The other writers are before the lock or
about to store, and the latter only where logging is done (`Race.Free`). As nobody pushes without
the lock, only the holder can make what was pushed differ from what the header and the marks say.

Results:
1. `Race.Inv.turn`: one writer becomes another one, and the rest of the crew goes on as before.
2. `Race.Moves.lock`, `Race.Moves.save`, `Race.Moves.release` and their kin: what the holder of the
   lock pushes.
3. `Race.Kept.putHeader`, `Race.Kept.putMark`, `Race.Kept.putTarget`: what the memory shows of it.
-/

namespace DeferredCount

open Writer

/-- What the writers of a race have in common: the object, what it was at the start, and whether
they log its fields one by one. -/
structure Race where
  object : Ref
  start : ObjectView
  byField : Bool

/-- How far logging is.

* `objects`: the object, once it is pushed.
* `saved`: the slots whose contents at the start were pushed, unless they were null.
* `marked`, `entered`: the fields whose mark is set, and those whose entry is pushed.
* `logged`: is the object logged as a whole?
* `holder`: the number of the writer that holds the lock. -/
structure Race.Books where
  objects : List Ref := []
  saved : List Nat := []
  marked : List Nat := []
  entered : List Nat := []
  logged : Bool := false
  holder : Option Nat := none

/-- The store goes to a field that the object has. -/
structure Write.Into (w : Write) (x : Ref) (n : Nat) : Prop where
  src : w.src = x
  slot : w.slot = x.slotAddr w.field.index
  inside : w.field.index < n

/-- The writers `crew₀` have become `crew`, and one of them has stored to field `i`. -/
def Stored (crew₀ crew : List Writer) (i : Nat) : Prop :=
  ∃ (k : Nat) (w₀ w : Writer) (made : List Write), crew₀[k]? = some w₀ ∧ crew[k]? = some w ∧
    w₀.writes = made ++ w.writes ∧ ∃ wr ∈ made, wr.field.index = i

section

variable {crew₀ crew : List Writer} {w w' : Writer} {wr : Write} {i k : Nat}

/-- A store that was made stays made. -/
theorem Stored.set (at_k : crew[k]? = some w) (more : ∃ p, w.writes = p ++ w'.writes)
    (s : Stored crew₀ crew i) : Stored crew₀ (crew.set k w') i := by
  obtain ⟨j, w₁, v, made, at₀, at_j, eq, wr, mem, index⟩ := s
  by_cases same : k = j
  · subst same
    obtain rfl : w = v := Option.some.inj (at_k.symm.trans at_j)
    obtain ⟨p, hp⟩ := more
    refine ⟨k, w₁, w', made ++ p, at₀, ?_, ?_, wr, List.mem_append_left _ mem, index⟩
    · rw [List.getElem?_set_self (List.getElem?_eq_some_iff.1 at_k).1]
    · rw [eq, hp, List.append_assoc]
  · exact ⟨j, w₁, v, made, at₀, by rw [List.getElem?_set_ne same, at_j], eq, wr, mem, index⟩

/-- A writer that is finished has stored to all the fields it was to store to. -/
theorem Stored.of_finished (length : crew.length = crew₀.length)
    (finished : ∀ w ∈ crew, w.isFinished = true) (hw : w ∈ crew₀) (hwr : wr ∈ w.writes) :
    Stored crew₀ crew wr.field.index := by
  obtain ⟨k, hk₀, rfl⟩ := List.getElem_of_mem hw
  have hk : k < crew.length := length ▸ hk₀
  have empty : crew[k].writes = [] := List.isEmpty_iff.1 (finished crew[k] (List.getElem_mem hk))
  refine ⟨k, crew₀[k], crew[k], crew₀[k].writes, List.getElem?_eq_getElem hk₀,
    List.getElem?_eq_getElem hk, ?_, wr, hwr, rfl⟩
  rw [empty, List.append_nil]

end

namespace Race

variable {r : Race} {b b' : Books} {i k : Nat} {a : Activity}

/-- What a store to field `i` has to log. -/
def logs (r : Race) (i : Nat) : Logged :=
  if r.byField then .covered (.scalar i) (.field (r.object.slotAddr i)) else .object

/-- How a store to field `i` looks whether there is something to log. -/
def check (r : Race) (i : Nat) : Activity :=
  if r.byField then .checkingMark (.scalar i) (.field (r.object.slotAddr i)) else .checkingHeader

/-- The slots that are logged with field `i`. -/
def part (r : Race) (i : Nat) : List Nat :=
  if r.byField then [i] else List.range r.start.targets.length

/-- The entry of field `i`. -/
def ticket (r : Race) (i : Nat) : Ticket where
  covered := .field (r.object.slotAddr i)
  mark := r.object.addr + (2 + r.start.targets.length + i) * bytesPerWord
  object := r.object
  first := i
  length := 1

/-- The entries that were pushed. -/
def entries (r : Race) (b : Books) : Entries where
  objects := b.objects
  fields := b.entered.map r.ticket
  decrements := b.saved.filterMap r.start.target

/-- May field `i` be stored to? -/
def Safe (r : Race) (b : Books) (i : Nat) : Prop :=
  if r.byField then i ∈ b.marked else b.logged = true

/-- No logging is under way: what was pushed is what the header and the marks say. -/
structure Even (r : Race) (b : Books) : Prop where
  entered : b.entered = b.marked
  objects : b.objects = if b.logged then [r.object] else []
  saved : b.saved = b.marked ++ if b.logged then List.range r.start.targets.length else []

/-- The activities of a writer that stores to field `i` without the lock. -/
inductive Free (r : Race) (b : Books) (i : Nat) : Activity → Prop
  | choosing : Free r b i .choosing
  | checking : Free r b i (r.check i)
  | locking : Free r b i (.locking (r.logs i))
  | exchanging : Free r b i (.exchanging (r.logs i) r.start.header)
  | storing : r.Safe b i → Free r b i .storing

/-- The holder of the lock is saving slots. It has saved the slots `done`, and `rest` are left. -/
structure Saving (r : Race) (b : Books) (i : Nat) (done rest : List Nat) : Prop where
  objects : b.objects = if r.byField then [] else [r.object]
  entered : b.entered = b.marked
  saved : b.saved = b.marked ++ done
  part : r.part i = done ++ rest
  fresh : (b.marked ++ r.part i).Nodup
  logged : b.logged = false

/-- The activities of a writer that stores to field `i` and holds the lock, with what it has pushed
by then.

* `pushingObject`, `completing`, `completed`: it logs the object as a whole.
* `checkingAgain`, `storingMark`, `pushingField`, `unlocking`, `unlocked`: it logs the field.
* `loading`, `pushingOld`: it saves what is in the slots, in either case. -/
inductive Holds (r : Race) (b : Books) (i : Nat) : Activity → Prop
  | pushingObject : r.byField = false → r.Even b → b.logged = false →
      Holds r b i .pushingObject
  | checkingAgain : r.byField = true → r.Even b →
      Holds r b i (.checkingAgain (.scalar i) (.field (r.object.slotAddr i)))
  | loading {done rest : List Nat} {found : Nat} : r.Saving b i done rest →
      Holds r b i (.loading (r.logs i) (rest.map r.object.slotAddr) found)
  | pushingOld {done rest : List Nat} {j found : Nat} {old : Ref} :
      r.Saving b i done (j :: rest) → r.start.target j = some old →
      Holds r b i (.pushingOld (r.logs i) old (rest.map r.object.slotAddr) found)
  | completing {found : Nat} : r.byField = false → r.Saving b i (r.part i) [] →
      Holds r b i (.completing found)
  | completed {found : Nat} : r.byField = false → r.Saving b i (r.part i) [] →
      Holds r b i (.completed found { r.start.header with locked := true })
  | storingMark {found : Nat} : r.byField = true → r.Saving b i [i] [] →
      Holds r b i (.storingMark (.scalar i) (.field (r.object.slotAddr i)) found)
  | pushingField {found : Nat} : r.byField = true → b.saved = b.marked →
      b.marked = b.entered ++ [i] →
      Holds r b i (.pushingField (.scalar i) (.field (r.object.slotAddr i)) (r.ticket i).mark found)
  | unlocking : r.byField = true → r.Even b → i ∈ b.marked → Holds r b i .unlocking
  | unlocked : r.byField = true → r.Even b → i ∈ b.marked →
      Holds r b i (.unlocked { r.start.header with locked := true })

/-- What the memory holds of the object. A slot is as it was at the start until it is stored to. -/
structure Kept (r : Race) (b : Books) (stored : Nat → Prop) (m : Memory) : Prop where
  placed : m.Placed r.object
  length : m.length r.object = r.start.targets.length
  header : (m.view r.object).header =
    { r.start.header with logged := b.logged, locked := b.holder.isSome }
  marks : ∀ j < r.start.targets.length, (m.view r.object).isMarked j = true ↔ j ∈ b.marked
  targets : ∀ j < r.start.targets.length, ¬ stored j →
    (m.view r.object).target j = r.start.target j

/-- What a writer `w₀` became in a race: it made some of its stores, all of them to fields that
were logged, and it acts as its part in the race asks. -/
structure Plays (r : Race) (b : Books) (k : Nat) (w₀ w : Writer) : Prop where
  barrier : w.mutator.barrier = w₀.mutator.barrier
  made : ∃ made, w₀.writes = made ++ w.writes ∧ ∀ wr ∈ made, r.Safe b wr.field.index
  idle : w.writes = [] → b.holder ≠ some k
  status : ∀ wr rest, w.writes = wr :: rest →
    if b.holder = some k then r.Holds b wr.field.index w.activity
    else r.Free b wr.field.index w.activity

/-- The race is on: the writers `crew₀` on a heap `h₀` have become `crew` on `h`. -/
structure Inv (r : Race) (h₀ : Heap) (crew₀ : List Writer) (b : Books) (crew : List Writer)
    (h : Heap) : Prop where
  length : crew.length = crew₀.length
  plays : ∀ k w₀ w, crew₀[k]? = some w₀ → crew[k]? = some w → r.Plays b k w₀ w
  kept : r.Kept b (Stored crew₀ crew) h.memory
  gathered : Gathered h₀ (crew₀.map (·.mutator)) (r.entries b) h (crew.map (·.mutator))
  even : b.holder = none → r.Even b
  holder_lt : ∀ k, b.holder = some k → k < crew.length
  fields : r.byField = true → b.objects = [] ∧ b.logged = false ∧
    ∀ j ∈ b.saved, ∃ w ∈ crew₀, ∃ wr ∈ w.writes, wr.field.index = j
  whole : r.byField = false → b.marked = []
  saved : b.saved.Nodup

/-- The stores of all writers go to the object, and are logged in the same way. -/
structure Fair (r : Race) (crew₀ : List Writer) : Prop where
  into : ∀ w ∈ crew₀, ∀ wr ∈ w.writes, wr.Into r.object r.start.targets.length
  grain : ∀ w ∈ crew₀, ∀ wr ∈ w.writes, grain w.mutator r.start.targets.length wr.field =
    if r.byField then .scalarField else .object
  logged : r.start.header.logged = false
  locked : r.start.header.locked = false
  fresh : r.start.header.fresh = false

theorem check_ne_storing (r : Race) (i : Nat) : r.check i ≠ .storing := by
  unfold check
  split <;> exact nofun

theorem Free.safe (f : r.Free b i .storing) : r.Safe b i := by
  generalize e : Activity.storing = a at f
  cases f with
  | storing safe => exact safe
  | checking => exact absurd e.symm (r.check_ne_storing i)
  | choosing => cases e
  | locking => cases e
  | exchanging => cases e

/-! ## Moving on -/

theorem Free.mono (safe : ∀ j, r.Safe b j → r.Safe b' j) (f : r.Free b i a) : r.Free b' i a := by
  cases f with
  | choosing => exact .choosing
  | checking => exact .checking
  | locking => exact .locking
  | exchanging => exact .exchanging
  | storing s => exact .storing (safe i s)

theorem Kept.mono {S S' : Nat → Prop} {m : Memory} (kept : r.Kept b S m) (sub : ∀ j, S j → S' j) :
    r.Kept b S' m :=
  { kept with targets := fun j hj ns => kept.targets j hj fun s => ns (sub j s) }

/-- Writer `k` pushes the entries `d`, or takes the lock or gives it back, and so turns the books
`b` into `b'`. -/
structure Moves (r : Race) (crew₀ : List Writer) (k : Nat) (b : Books) (d : Entries) (b' : Books) :
    Prop where
  entries : r.entries b' = r.entries b ++ d
  safe : ∀ j, r.Safe b j → r.Safe b' j
  others : b' = b ∨ (∀ j ≠ k, b.holder ≠ some j) ∧ ∀ j ≠ k, b'.holder ≠ some j
  even : b'.holder = none → r.Even b'
  fields : r.byField = true → b'.objects = [] ∧ b'.logged = false ∧
    ∀ j ∈ b'.saved, ∃ w ∈ crew₀, ∃ wr ∈ w.writes, wr.field.index = j
  whole : r.byField = false → b'.marked = []
  saved : b'.saved.Nodup

variable {h₀ h : Heap} {crew₀ crew : List Writer} {w₀ w w' : Writer} {wr : Write}
  {rest : List Write}

namespace Inv

/-- Whatever was stored to was safe to store to. -/
theorem safe_of_stored (inv : r.Inv h₀ crew₀ b crew h) (s : Stored crew₀ crew i) : r.Safe b i := by
  obtain ⟨k, w₀, w, made, at₀, at_k, eq, wr, mem, rfl⟩ := s
  obtain ⟨made', eq', safe⟩ := (inv.plays k w₀ w at₀ at_k).made
  rw [List.append_cancel_right (eq.symm.trans eq')] at mem
  exact safe wr mem

/-- A writer becomes another one, and the rest of the crew goes on as before. -/
theorem turn (inv : r.Inv h₀ crew₀ b crew h) (at₀ : crew₀[k]? = some w₀)
    (at_k : crew[k]? = some w) {h' : Heap} {d : Entries} (adds : w.mutator.Adds h d w'.mutator h')
    (moves : r.Moves crew₀ k b d b') (kept : r.Kept b' (Stored crew₀ (crew.set k w')) h'.memory)
    (plays : r.Plays b' k w₀ w') : r.Inv h₀ crew₀ b' (crew.set k w') h' where
  length := by rw [List.length_set, inv.length]
  plays j w₁ v at_j₀ at_j := by
    by_cases same : k = j
    · subst same
      obtain rfl : w₀ = w₁ := Option.some.inj (at₀.symm.trans at_j₀)
      rw [List.getElem?_set_self (List.getElem?_eq_some_iff.1 at_k).1] at at_j
      obtain rfl : w' = v := Option.some.inj at_j
      exact plays
    · rw [List.getElem?_set_ne same] at at_j
      have old := inv.plays j w₁ v at_j₀ at_j
      obtain rfl | ⟨free, free'⟩ := moves.others
      · exact old
      · obtain ⟨made, eq, safe₀⟩ := old.made
        refine ⟨old.barrier, ⟨made, eq, fun wr hwr => moves.safe _ (safe₀ wr hwr)⟩,
          fun _ => free' j (Ne.symm same), fun wr rest writes => ?_⟩
        have status := old.status wr rest writes
        rw [if_neg (free j (Ne.symm same))] at status
        rw [if_neg (free' j (Ne.symm same))]
        exact status.mono moves.safe
  kept := kept
  gathered := by
    obtain ⟨hk, e⟩ := List.getElem?_eq_some_iff.1 at_k
    have now : (crew.set k w').map (·.mutator) =
        (crew.take k).map (·.mutator) ++ w'.mutator :: (crew.drop (k + 1)).map (·.mutator) := by
      rw [List.set_eq_take_append_cons_drop, if_pos hk, List.map_append, List.map_cons]
    have before : crew.map (·.mutator) =
        (crew.take k).map (·.mutator) ++ w.mutator :: (crew.drop (k + 1)).map (·.mutator) := by
      rw [← List.map_cons, ← List.map_append, ← e, List.getElem_cons_drop, List.take_append_drop]
    rw [moves.entries, now]
    exact inv.gathered.trans (before ▸ adds.gathered _ _)
  even := moves.even
  holder_lt j hj := by
    rw [List.length_set]
    obtain rfl | ⟨-, free'⟩ := moves.others
    · exact inv.holder_lt j hj
    · obtain rfl : j = k := by
        by_contra ne
        exact free' j ne hj
      exact (List.getElem?_eq_some_iff.1 at_k).1
  fields := moves.fields
  whole := moves.whole
  saved := moves.saved

end Inv

/-! ### The books -/

namespace Moves

variable {d : Entries}

/-- Nothing is pushed. -/
theorem refl (inv : r.Inv h₀ crew₀ b crew h) (k : Nat) : r.Moves crew₀ k b {} b where
  entries := (Entries.append_none _).symm
  safe _ := id
  others := .inl rfl
  even := inv.even
  fields := inv.fields
  whole := inv.whole
  saved := inv.saved

/-- The lock is taken. -/
theorem lock (inv : r.Inv h₀ crew₀ b crew h) (open_ : b.holder = none) (k : Nat) :
    r.Moves crew₀ k b {} { b with holder := some k } where
  entries := (Entries.append_none _).symm
  safe _ := id
  others := .inr ⟨fun j _ => by simp [open_], fun j ne e => ne (Option.some.inj e).symm⟩
  even := nofun
  fields := inv.fields
  whole := inv.whole
  saved := inv.saved

/-- The holder pushes something, and keeps the lock. -/
theorem held (inv : r.Inv h₀ crew₀ b crew h) (held : b.holder = some k)
    (held' : b'.holder = some k) (entries : r.entries b' = r.entries b ++ d)
    (safe : ∀ j, r.Safe b j → r.Safe b' j) (objects : r.byField = true → b'.objects = b.objects)
    (logged : b'.logged = b.logged) (named : ∀ j ∈ b'.saved, j ∈ b.saved ∨
      (r.byField = true → ∃ w ∈ crew₀, ∃ wr ∈ w.writes, wr.field.index = j))
    (whole : r.byField = false → b'.marked = b.marked) (saved : b'.saved.Nodup) :
    r.Moves crew₀ k b d b' where
  entries
  safe
  others := .inr ⟨fun j ne e => ne (Option.some.inj (e.symm.trans held)),
    fun j ne e => ne (Option.some.inj (e.symm.trans held'))⟩
  even none := by
    rw [held'] at none
    cases none
  fields byField := by
    obtain ⟨noObjects, unlogged, known⟩ := inv.fields byField
    refine ⟨(objects byField).trans noObjects, logged.trans unlogged, fun j hj => ?_⟩
    exact (named j hj).elim (known j) fun new => new byField
  whole byField := (whole byField).trans (inv.whole byField)
  saved

theorem pushObject (inv : r.Inv h₀ crew₀ b crew h) (held : b.holder = some k)
    (object : r.byField = false) :
    r.Moves crew₀ k b { objects := [r.object] } { b with objects := b.objects ++ [r.object] } :=
  .held inv held held (by ext1 <;> simp [Race.entries]) (fun _ => id)
    (fun byField => by rw [object] at byField; cases byField) rfl (fun _ => .inl) (fun _ => rfl)
    inv.saved

theorem save (inv : r.Inv h₀ crew₀ b crew h) (held : b.holder = some k) {j : Nat}
    (fresh : j ∉ b.saved)
    (named : r.byField = true → ∃ w ∈ crew₀, ∃ wr ∈ w.writes, wr.field.index = j) :
    r.Moves crew₀ k b { decrements := (r.start.target j).toList }
      { b with saved := b.saved ++ [j] } := by
  refine .held inv held held ?_ (fun _ => id) (fun _ => rfl) rfl (fun i hi => ?_) (fun _ => rfl) ?_
  · ext1
    · simp [Race.entries]
    · simp [Race.entries]
    · cases target : r.start.target j <;> simp [Race.entries, target]
  · refine (List.mem_append.1 hi).imp_right fun hi => ?_
    obtain rfl := List.mem_singleton.1 hi
    exact named
  · exact inv.saved.append (List.nodup_singleton j) (by simpa using fresh)

theorem mark (inv : r.Inv h₀ crew₀ b crew h) (held : b.holder = some k)
    (byField : r.byField = true) (i : Nat) :
    r.Moves crew₀ k b {} { b with marked := b.marked ++ [i] } := by
  refine .held inv held held ?_ (fun j safe => ?_) (fun _ => rfl) rfl (fun _ => .inl)
    (fun object => ?_) inv.saved
  · ext1 <;> simp [Race.entries]
  · simp only [Safe, byField, if_true] at safe ⊢
    exact List.mem_append_left _ safe
  · rw [byField] at object
    cases object

theorem enter (inv : r.Inv h₀ crew₀ b crew h) (held : b.holder = some k) (i : Nat) :
    r.Moves crew₀ k b { fields := [r.ticket i] } { b with entered := b.entered ++ [i] } :=
  .held inv held held (by ext1 <;> simp [Race.entries]) (fun _ => id) (fun _ => rfl) rfl
    (fun _ => .inl) (fun _ => rfl) inv.saved

/-- The lock is given back. -/
theorem release (inv : r.Inv h₀ crew₀ b crew h) (held : b.holder = some k) (logged : Bool)
    (object : logged = true → r.byField = false) (later : b.logged = true → logged = true)
    (even : r.Even { b with logged, holder := none }) :
    r.Moves crew₀ k b {} { b with logged, holder := none } where
  entries := (Entries.append_none _).symm
  safe j safe := by
    unfold Safe at safe ⊢
    split
    · next byField => rwa [if_pos byField] at safe
    · next whole =>
      rw [if_neg whole] at safe
      exact later safe
  others := .inr ⟨fun j ne e => ne (Option.some.inj (e.symm.trans held)), nofun⟩
  even _ := even
  fields byField := by
    obtain ⟨noObjects, -, known⟩ := inv.fields byField
    refine ⟨noObjects, Bool.eq_false_iff.2 fun yes => ?_, known⟩
    rw [object yes] at byField
    cases byField
  whole := inv.whole
  saved := inv.saved

end Moves

/-! ### The memory -/

namespace Fair

theorem header_eq (fair : r.Fair crew₀) :
    r.start.header = { r.start.header with logged := false, locked := false } := by
  have h₁ := fair.logged
  have h₂ := fair.locked
  revert h₁ h₂
  cases r.start.header
  simp_all

theorem locked_eq (fair : r.Fair crew₀) : ({ r.start.header with locked := true } : Header) =
    { r.start.header with logged := false, locked := true } := by
  rw [fair.header_eq]

theorem unlocked_eq (fair : r.Fair crew₀) : ({ r.start.header with locked := false } : Header) =
    { r.start.header with logged := false, locked := false } := by
  rw [fair.header_eq]

end Fair

namespace Kept

variable {S : Nat → Prop} {m : Memory}

/-- The books may change in what the memory does not show. -/
theorem congr (kept : r.Kept b S m) (marked : b'.marked = b.marked) (logged : b'.logged = b.logged)
    (holder : b'.holder.isSome = b.holder.isSome) : r.Kept b' S m :=
  { kept with
    header := by rw [kept.header, logged, holder]
    marks := by
      rw [marked]
      exact kept.marks }

theorem header_start (kept : r.Kept b S m) (fair : r.Fair crew₀) (logged : b.logged = false)
    (holder : b.holder = none) : (m.view r.object).header = r.start.header := by
  rw [kept.header, logged, holder]
  exact fair.header_eq.symm

theorem header_locked (kept : r.Kept b S m) (fair : r.Fair crew₀) (logged : b.logged = false)
    (holder : b.holder = some k) :
    (m.view r.object).header = { r.start.header with locked := true } := by
  rw [kept.header, logged, holder]
  exact fair.locked_eq.symm

theorem putHeader (kept : r.Kept b S m) (b' : Books) (marked : b'.marked = b.marked) {hd : Header}
    (shows : hd = { r.start.header with logged := b'.logged, locked := b'.holder.isSome }) :
    r.Kept b' S (m.putHeader r.object hd) := by
  have view := Memory.view_putHeader_self m r.object hd
  exact {
    placed := kept.placed.putHeader hd
    length := (Memory.length_putHeader ..).trans kept.length
    header := by rw [view, shows]
    marks := fun j hj => by
      rw [view, marked]
      exact kept.marks j hj
    targets := fun j hj ns => by
      rw [view]
      exact kept.targets j hj ns }

theorem putMark (kept : r.Kept b S m) (hi : i < r.start.targets.length) :
    r.Kept { b with marked := b.marked ++ [i] } S (m.putMark r.object i 1) := by
  have view : (m.putMark r.object i 1).view r.object =
      { m.view r.object with marks := (m.view r.object).marks.set i true } :=
    Memory.view_putMark_self m r.object i 1
  exact {
    placed := kept.placed.putMark i 1
    length := (Memory.length_putMark ..).trans kept.length
    header := by
      rw [view]
      exact kept.header
    marks := fun j hj => by
      have := kept.marks j hj
      rw [view, ObjectView.isMarked_set _ (by rw [Memory.length_marks, kept.length]; exact hi)]
      split
      · next e => simp [e]
      · next ne => simp [this, ne]
    targets := fun j hj ns => by
      rw [view]
      exact kept.targets j hj ns }

/-- A store changes the slot that is stored to, and no other one. -/
theorem putTarget (kept : r.Kept b S m) (hi : i < r.start.targets.length) (t : Option Ref)
    {S' : Nat → Prop} (sub : ∀ j, S j → S' j) (now : S' i) :
    r.Kept b S' (m.putTarget r.object i t) := by
  -- what is stored is what a later load finds, even if no object has the address
  have view := Memory.view_putTarget_word (kept.length ▸ hi : i < m.length r.object) t
  exact {
    placed := kept.placed.putTarget i t
    length := (Memory.length_putTarget ..).trans kept.length
    header := by
      rw [view]
      exact kept.header
    marks := fun j hj => by
      rw [view]
      exact kept.marks j hj
    targets := fun j hj ns => by
      have ne : i ≠ j := fun e => ns (e ▸ now)
      rw [view, ObjectView.target, List.getD_eq_getElem?_getD, List.getElem?_set_ne ne,
        ← List.getD_eq_getElem?_getD]
      exact kept.targets j hj fun s => ns (sub j s) }

end Kept

/-! ### Saving slots -/

theorem Saving.unsafe_next {done rest : List Nat} {j : Nat} (s : r.Saving b i done (j :: rest)) :
    ¬ r.Safe b j := by
  have mem : j ∈ r.part i := by
    rw [s.part]
    simp
  have apart := (List.nodup_append.1 s.fresh).2.2
  unfold Safe
  split
  · exact fun marked => apart j marked j mem rfl
  · rw [s.logged]
    exact Bool.false_ne_true

theorem Saving.not_saved {done rest : List Nat} {j : Nat} (s : r.Saving b i done (j :: rest)) :
    j ∉ b.saved := by
  have fresh := s.fresh
  rw [s.part, ← List.append_assoc, ← s.saved] at fresh
  exact fun mem => (List.nodup_append.1 fresh).2.2 j mem j List.mem_cons_self rfl

/-- One more slot is saved. -/
theorem Saving.next {done rest : List Nat} {j : Nat} (s : r.Saving b i done (j :: rest)) :
    r.Saving { b with saved := b.saved ++ [j] } i (done ++ [j]) rest where
  objects := s.objects
  entered := s.entered
  saved := by rw [s.saved, List.append_assoc]
  part := by rw [s.part, List.append_assoc, List.singleton_append]
  fresh := s.fresh
  logged := s.logged

theorem Saving.lt {done rest : List Nat} {j : Nat} (s : r.Saving b i done (j :: rest))
    (inside : i < r.start.targets.length) : j < r.start.targets.length := by
  have mem : j ∈ r.part i := by
    rw [s.part]
    simp
  unfold Race.part at mem
  split at mem
  · rwa [List.mem_singleton.1 mem]
  · exact List.mem_range.1 mem

theorem Saving.eq_of_field {done rest : List Nat} {j : Nat} (s : r.Saving b i done (j :: rest))
    (byField : r.byField = true) : j = i := by
  have mem : j ∈ r.part i := by
    rw [s.part]
    simp
  rw [Race.part, if_pos byField] at mem
  exact List.mem_singleton.1 mem

theorem part_object (object : r.byField = false) (i : Nat) :
    r.part i = List.range r.start.targets.length := by
  rw [part, object]
  rfl

theorem part_field (byField : r.byField = true) (i : Nat) : r.part i = [i] := by
  rw [part, byField]
  rfl

theorem logs_object (object : r.byField = false) (i : Nat) : r.logs i = .object := by
  rw [logs, object]
  rfl

theorem logs_field (byField : r.byField = true) (i : Nat) :
    r.logs i = .covered (.scalar i) (.field (r.object.slotAddr i)) := by
  rw [logs, byField]
  rfl

theorem check_object (object : r.byField = false) (i : Nat) : r.check i = .checkingHeader := by
  rw [check, object]
  rfl

theorem check_field (byField : r.byField = true) (i : Nat) :
    r.check i = .checkingMark (.scalar i) (.field (r.object.slotAddr i)) := by
  rw [check, byField]
  rfl

theorem safe_object (object : r.byField = false) (i : Nat) : r.Safe b i ↔ b.logged = true := by
  rw [Safe, object]
  simp

theorem safe_field (byField : r.byField = true) (i : Nat) : r.Safe b i ↔ i ∈ b.marked := by
  rw [Safe, byField]
  simp

/-- Once the object itself is pushed, all of its slots have to be saved. -/
theorem Even.saving_object (even : r.Even b) (object : r.byField = false)
    (logged : b.logged = false) (none : b.marked = []) (i : Nat) :
    r.Saving { b with objects := b.objects ++ [r.object] } i []
      (List.range r.start.targets.length) where
  objects := by
    rw [object, even.objects, logged]
    rfl
  entered := even.entered
  saved := by
    rw [even.saved, logged]
    rfl
  part := r.part_object object i
  fresh := by
    rw [none, r.part_object object]
    exact List.nodup_range
  logged := logged

/-- The slot of a field that has no mark has to be saved. -/
theorem Even.saving_field (even : r.Even b) (byField : r.byField = true)
    (logged : b.logged = false) (nodup : b.saved.Nodup) (unmarked : i ∉ b.marked) :
    r.Saving b i [] [i] := by
  have saved : b.saved = b.marked := by
    rw [even.saved, logged]
    exact List.append_nil _
  exact {
    objects := by
      rw [even.objects, logged, byField]
      rfl
    entered := even.entered
    saved := saved.trans (List.append_nil _).symm
    part := r.part_field byField i
    fresh := by
      rw [r.part_field byField]
      refine (saved ▸ nodup).append (List.nodup_singleton _) ?_
      simpa using unmarked
    logged }

/-- Once all slots are saved, the object may count as logged. -/
theorem Saving.even_object (s : r.Saving b i (r.part i) []) (object : r.byField = false) :
    r.Even { b with logged := true, holder := none } where
  entered := s.entered
  objects := by
    rw [s.objects, object]
    rfl
  saved := by
    rw [s.saved, r.part_object object]
    rfl

/-- Once the last mark is entered, nothing is left to do. -/
theorem even_of_entered (saved : b.saved = b.marked) (marked : b.marked = b.entered ++ [i])
    (objects : b.objects = []) (logged : b.logged = false) :
    r.Even { b with entered := b.entered ++ [i] } where
  entered := marked.symm
  objects := by
    rw [objects, logged]
    rfl
  saved := by
    rw [saved, logged]
    exact (List.append_nil _).symm

/-- Who holds the lock does not matter. -/
theorem Even.release (even : r.Even b) (logged : b.logged = false) :
    r.Even { b with logged := false, holder := none } where
  entered := even.entered
  objects := by rw [even.objects, logged]
  saved := by rw [even.saved, logged]

theorem Kept.logRequired {S : Nat → Prop} {m : Memory} (kept : r.Kept b S m)
    (fair : r.Fair crew₀) : (m.view r.object).header.logRequired = !b.logged := by
  rw [kept.header, Header.logRequired]
  simp [fair.fresh]

theorem Kept.locked {S : Nat → Prop} {m : Memory} (kept : r.Kept b S m) :
    (m.view r.object).header.locked = b.holder.isSome := by
  rw [kept.header]

/-- The header is the one at the start only while nobody logs. -/
theorem Kept.open_of_start {S : Nat → Prop} {m : Memory} (kept : r.Kept b S m)
    (fair : r.Fair crew₀) (same : (m.view r.object).header = r.start.header) :
    b.logged = false ∧ b.holder = none := by
  rw [kept.header] at same
  have logged : b.logged = r.start.header.logged := congrArg Header.logged same
  have locked : b.holder.isSome = r.start.header.locked := congrArg Header.locked same
  rw [fair.logged] at logged
  rw [fair.locked] at locked
  exact ⟨logged, Option.isSome_eq_false_iff.1 locked |> Option.isNone_iff_eq_none.1⟩

namespace Fair

theorem field_eq (fair : r.Fair crew₀) (byField : r.byField = true) (hw : w ∈ crew₀)
    (hwr : wr ∈ w.writes) : wr.field = .scalar wr.field.index := by
  have grain := fair.grain w hw wr hwr
  rw [byField, if_pos rfl] at grain
  revert grain
  cases wr.field with
  | scalar i => exact fun _ => rfl
  | element i =>
    simp only [Writer.grain]
    split <;> rintro ⟨⟩

end Fair

end Race

end DeferredCount
