import DeferredCount.Proofs.Copying
import DeferredCount.Proofs.Reconfiguring
import DeferredCount.Proofs.Relogging

/-!
# Stores of mixed granularity

Stores to one object may be logged in two ways: some of them field by field, and others by logging
the object as a whole. A field is not logged once the object is, since all of its slots are counted
anyway. But the object is logged although some of its fields are, and then their slots are covered
twice, with what they held at two different times. So the entries only make up for what the slots
gained and lost if no field was logged before the object.

Results:
1. `Mutator.barrierFor_logs`: what the barrier of a store logs of an object.
2. `Mutator.mixed_stores_balance`: by how much a row of stores misses what the slots gained and
   lost.
3. `mixed_stores_free_a_referent`: an object is freed although a slot refers to it.
-/

namespace DeferredCount

/-! ## What entries cover -/

/-- How many of the slots that entries cover refer to `o`. -/
def ObjectView.within (v : ObjectView) (ks : List Ticket) (o : Ref) : Nat :=
  (ks.map fun k => (v.range k.first k.length).count (some o)).sum

/-- If one entry covers a slot, what entries cover changes with a store as the slots do. -/
theorem ObjectView.within_set {v : ObjectView} {i : Nat} {ks : List Ticket} {k : Ticket}
    (hk : k ∈ ks) (hi : i < v.targets.length) (covers : k.Covers i) (nodup : ks.Nodup)
    (alone : ∀ k' ∈ ks, k'.Covers i → k' = k)
    (fits : ∀ k ∈ ks, k.first + k.length ≤ v.targets.length) (t : Option Ref) (o : Ref) :
    ({ v with targets := v.targets.set i t } : ObjectView).within ks o + v.references o =
      v.within ks o + ({ v with targets := v.targets.set i t } : ObjectView).references o := by
  have sum := sum_map_change hk nodup
    (f := fun k => (v.range k.first k.length).count (some o))
    (g := fun k => (({ v with targets := v.targets.set i t } : ObjectView).range
      k.first k.length).count (some o))
    fun k' hk' ne => (count_range_set hi t o (fits k' hk')).2 fun c => ne (alone k' hk' c)
  have here := (count_range_set hi t o (fits k hk)).1 covers
  have store := count_set_add hi t o
  simp only [within, references]
  omega

/-- The references that entries of one object cover. -/
theorem Heap.covered_within (h : Heap) {x : Ref} {ks : List Ticket}
    (objects : ∀ k ∈ ks, k.object = x) (objs : List Ref) (o : Ref) :
    h.covered objs ks o = (objs.map fun y => (h.view y).references o).sum +
      (h.view x).within ks o := by
  have same : ks.map (fun k => k.references h o) =
      ks.map fun k => ((h.view x).range k.first k.length).count (some o) :=
    List.map_congr_left fun k hk => by rw [Ticket.references, Ticket.targets, objects k hk]
  rw [covered, ObjectView.within, same]

namespace BarrierSettings

variable {b : BarrierSettings} {x : Ref} {n i : Nat} {f f' : Field}

/-- Is a store that names a field so logged by field, if the object has `n` fields? -/
def byField (b : BarrierSettings) (n : Nat) : Field → Bool
  | .element _ => b.arrayFields && decide (b.arrayThreshold ≤ n)
  | .scalar _ => b.scalarFields

/-- Stores by which an object with `n` fields is logged by field all name fields in one way. -/
def Uniform (b : BarrierSettings) (n : Nat) : Prop :=
  b.scalarFields = true → (b.arrayFields && decide (b.arrayThreshold ≤ n)) = false

instance (b : BarrierSettings) (n : Nat) : Decidable (b.Uniform n) :=
  inferInstanceAs (Decidable (_ → _))

/-- The entry of a field covers it. -/
theorem ticket_covers (hf : f.index < n) : (b.ticket x n f).Covers f.index := by
  cases f with
  | scalar k => exact ⟨Nat.le_refl k, Nat.lt_succ_self k⟩
  | element k =>
    have pos : 0 < b.arrayQuantum := by
      rw [arrayQuantum, Nat.one_shiftLeft]
      exact Nat.two_pow_pos _
    have lt := Nat.mod_lt k pos
    have le := Nat.mod_le k b.arrayQuantum
    have hk : k < n := hf
    show k - k % b.arrayQuantum ≤ k ∧
      k < k - k % b.arrayQuantum + min b.arrayQuantum (n - (k - k % b.arrayQuantum))
    omega

/-- Entries that begin at the same field cover the same fields, and entries that cover the same
field begin at the same one. -/
theorem tickets_agree (uniform : b.Uniform n) (by₁ : b.byField n f = true)
    (by₂ : b.byField n f' = true) :
    ((b.ticket x n f).first = (b.ticket x n f').first →
        (b.ticket x n f).length = (b.ticket x n f').length) ∧
      ∀ i, (b.ticket x n f).Covers i → (b.ticket x n f').Covers i →
        (b.ticket x n f).first = (b.ticket x n f').first := by
  cases f with
  | scalar k =>
    cases f' with
    | scalar l =>
      refine ⟨fun _ => rfl, fun i c c' => ?_⟩
      have h₁ : k ≤ i ∧ i < k + 1 := c
      have h₂ : l ≤ i ∧ i < l + 1 := c'
      show k = l
      omega
    | element l => exact absurd by₂ (by rw [byField, uniform by₁]; exact Bool.false_ne_true)
  | element k =>
    cases f' with
    | scalar l => exact absurd by₁ (by rw [byField, uniform by₂]; exact Bool.false_ne_true)
    | element l =>
      have shared : ∀ {j i}, (b.ticket x n (.element j)).Covers i → b.firstOf i = b.firstOf j := by
        intro j i c
        have h₁ : b.firstOf j ≤ i ∧ i < b.firstOf j + min b.arrayQuantum (n - b.firstOf j) := c
        refine (mem_sharers (n := n) (List.mem_map.2 ⟨i - b.firstOf j, ?_, by omega⟩)).2
        rw [List.mem_range]
        omega
      refine ⟨fun (same : b.firstOf k = b.firstOf l) => ?_, fun i c c' => ?_⟩
      · show min b.arrayQuantum (n - b.firstOf k) = min b.arrayQuantum (n - b.firstOf l)
        rw [same]
      · exact (shared c).symm.trans (shared c')

end BarrierSettings

/-! ## The barrier of a store -/

/-- What the barrier of a store to field `f` logs of an object with `n` fields, and the view of the
object after that.

* `nothing`: the object is logged, or its entry of the field is there.
* `field`: the entry of the field is new.
* `object`: the object is logged as a whole, whatever entries of its fields there are. -/
inductive Logs (b : BarrierSettings) (x : Ref) (n : Nat) (f : Field) (h : Heap) :
    Entries → ObjectView → Prop
  | nothing : (h.view x).header.logged = true ∨
      b.byField n f = true ∧ (h.view x).isMarked (b.ticket x n f).first = true →
      Logs b x n f h {} (h.view x)
  | field : (h.view x).header.logged = false → b.byField n f = true →
      (h.view x).isMarked (b.ticket x n f).first = false →
      Logs b x n f h
        { fields := [b.ticket x n f], decrements := (b.ticket x n f).referents h }
        { h.view x with marks := (h.view x).marks.set (b.ticket x n f).first true }
  | object : (h.view x).header.logged = false → b.byField n f = false →
      Logs b x n f h { objects := [x], decrements := (h.view x).referents }
        { h.view x with header := { (h.view x).header with logged := true } }

namespace Mutator

variable {x : Ref} {n : Nat} {m : Mutator} {h : Heap} {f : Field}

/-- The barrier of a field whose entry is found by `q`. -/
theorem fieldBarrier_logs (m : Mutator) (placed : h.memory.Placed x)
    (length : h.memory.length x = n) (stale : (h.view x).header.fresh = false)
    (unlocked : (h.view x).header.locked = false) (hf : f.index < n)
    (byField : m.barrier.byField n f = true) {g : Field}
    (index : g.index = (m.barrier.ticket x n f).first) {q : HeapM Covered}
    (c : BarrierStats.Counter) (covered : ∀ h : Heap, h.memory.Placed x →
      h.memory.length x = n → q h = .ok (m.barrier.ticket x n f).covered h) :
    ∃ d m' h', (do
        HeapM.count c 1
        if ← HeapM.inspect (·.isFieldUnlogged x g.index) then
          let c ← q
          m.logField x g c
        else return m : HeapM Mutator) h = .ok m' h' ∧
      m.Adds h d m' h' ∧ h'.memory.Placed x ∧ Logs m.barrier x n f h d (h'.view x) := by
  obtain ⟨h₁, eq₁⟩ : ∃ h₁, h₁ = { h with stats := h.stats.count c 1 } := ⟨_, rfl⟩
  have placed₁ : h₁.memory.Placed x := eq₁ ▸ placed
  have length₁ : h₁.memory.length x = n := eq₁ ▸ length
  have view₁ : h₁.view x = h.view x := by rw [eq₁]; rfl
  have pools₁ : h₁.pools = h.pools := by rw [eq₁]
  have seated := m.barrier.ticket_seated placed₁ length₁ hf
  have inspected : HeapM.inspect (·.isFieldUnlogged x g.index) h₁ =
      .ok (!(h.view x).isMarked (m.barrier.ticket x n f).first) h₁ := by
    rw [index, ← view₁]
    have bound := seated.first_lt
    rw [BarrierSettings.ticket_object] at bound
    exact HeapM.inspect_of_ok (isFieldUnlogged_eq placed₁ bound)
  rw [HeapM.count, HeapM.modify_bind_apply, ← eq₁, HeapM.bind_of_ok inspected]
  have none : m.Adds h {} m h₁ := .of_pools m pools₁
  cases marked : (h.view x).isMarked (m.barrier.ticket x n f).first with
  | true => exact ⟨{}, m, h₁, rfl, none, placed₁, view₁ ▸ .nothing (.inr ⟨byField, marked⟩)⟩
  | false =>
    simp only [Bool.not_false, if_true]
    rw [HeapM.bind_of_ok (covered h₁ placed₁ length₁)]
    cases logged : (h.view x).header.logged with
    | true =>
      have refused : (h₁.view x).header.logRequired = false := by
        rw [view₁, Header.logRequired, logged]
        rfl
      exact ⟨{}, m, h₁, logField_refused placed₁ refused m g _, none, placed₁,
        view₁ ▸ .nothing (.inl logged)⟩
    | false =>
      have required : (h₁.view x).header.logRequired = true := by
        rw [view₁, Header.logRequired, logged, stale]
        rfl
      obtain ⟨m', h', run, adds, placed', view'⟩ := m.logField_of_placed index
        (BarrierSettings.ticket_object ..) placed₁ seated required (view₁ ▸ unlocked)
        (view₁ ▸ marked)
      have referents : (m.barrier.ticket x n f).referents h₁ =
          (m.barrier.ticket x n f).referents h := by
        rw [Ticket.referents, Ticket.targets, BarrierSettings.ticket_object, view₁,
          Ticket.referents, Ticket.targets, BarrierSettings.ticket_object]
      rw [referents] at adds
      rw [view₁] at view'
      exact ⟨_, m', h', run, adds.congr pools₁ rfl, placed', view' ▸ .field logged byField marked⟩

/-- The barrier of a store logs the field, the object, or nothing. -/
theorem barrierFor_logs (m : Mutator) (placed : h.memory.Placed x)
    (length : h.memory.length x = n) (stale : (h.view x).header.fresh = false)
    (unlocked : (h.view x).header.locked = false) (hf : f.index < n) :
    ∃ d m' h', m.barrierFor x (x.slotAddr f.index) f h = .ok m' h' ∧ m.Adds h d m' h' ∧
      h'.memory.Placed x ∧ Logs m.barrier x n f h d (h'.view x) := by
  have grain : m.granularity x f h = .ok (if m.barrier.byField n f then
      (match f with | .element _ => .arrayField | .scalar _ => .scalarField) else .object) h := by
    cases f with
    | scalar k => rfl
    | element k =>
      rw [granularity, HeapM.bind_of_ok (m.inFieldMode_of_placed placed), length]
      rfl
  rw [barrierFor, HeapM.bind_of_ok grain]
  cases byField : m.barrier.byField n f with
  | true =>
    cases f with
    | scalar k =>
      exact m.fieldBarrier_logs (f := .scalar k) placed length stale unlocked hf byField rfl _
        fun _ _ _ => rfl
    | element k =>
      exact m.fieldBarrier_logs (f := .element k) (g := .element (m.barrier.firstOf k)) placed
        length stale unlocked hf byField rfl _
        fun _ placed length => quantumOf_of_placed placed length hf
  | false =>
    show ∃ d m' h', m.objectBarrier x h = .ok m' h' ∧ _
    cases logged : (h.view x).header.logged with
    | true =>
      have refused : (h.view x).header.logRequired = false := by
        rw [Header.logRequired, logged]
        rfl
      exact ⟨{}, m, h, objectBarrier_quiet placed refused m, .of_pools m rfl, placed,
        .nothing (.inl logged)⟩
    | false =>
      have required : (h.view x).header.logRequired = true := by
        rw [Header.logRequired, logged, stale]
        rfl
      obtain ⟨m', h', run, adds, placed', view'⟩ := m.logObject_of_placed placed required unlocked
      refine ⟨_, m', h', ?_, adds, placed', view' ▸ .object logged byField⟩
      rw [objectBarrier, HeapM.bind_of_ok (HeapM.inspect_of_ok placed.header_eq)]
      show (if (h.view x).header.logRequired = true then _ else _ : HeapM Mutator) h = _
      rw [if_pos required]
      exact run

end Mutator

/-! ## Stores in a row -/

/-- Since the object `x` of `n` fields had the view `start`, nothing but the entries `d` was logged
of it. It had the view `mid` when it was logged as a whole, or has it still.

* `due`: the decrements are what the slots held when they were logged. -/
structure Mixed (b : BarrierSettings) (x : Ref) (n : Nat) (start : ObjectView) (h : Heap)
    (d : Entries) (mid : ObjectView) : Prop where
  placed : h.memory.Placed x
  length : h.memory.length x = n
  stale : (h.view x).header.fresh = false
  unlocked : (h.view x).header.locked = false
  objects : d.objects = if (h.view x).header.logged then [x] else []
  tickets : ∀ k ∈ d.fields, ∃ f, f.index < n ∧ b.byField n f = true ∧ k = b.ticket x n f
  apart : (d.fields.map (·.first)).Nodup
  marks : ∀ j, (h.view x).isMarked j = true ↔ ∃ k ∈ d.fields, k.first = j
  mid_eq : (h.view x).header.logged = false → mid = h.view x
  due : ∀ o, mid.within d.fields o + start.references o =
    (if (h.view x).header.logged then 0 else mid.references o) + d.decrements.count o

namespace Mixed

variable {b : BarrierSettings} {x : Ref} {n i : Nat} {start mid : ObjectView} {h h' : Heap}
  {d e : Entries} {f : Field}

/-- Nothing was logged yet. -/
theorem none (placed : h.memory.Placed x) (blank : (h.view x).Blank) :
    Mixed b x (h.memory.length x) (h.view x) h {} (h.view x) where
  placed := placed
  length := rfl
  stale := blank.stale
  unlocked := blank.unlocked
  objects := by rw [blank.unlogged]; rfl
  tickets k hk := absurd hk List.not_mem_nil
  apart := .nil
  marks j := by simp [blank.fields]
  mid_eq _ := rfl
  due o := by
    rw [blank.unlogged]
    exact Nat.add_comm 0 _

theorem objects_eq (s : Mixed b x n start h d mid) : ∀ k ∈ d.fields, k.object = x := by
  intro k hk
  obtain ⟨f, -, -, rfl⟩ := s.tickets k hk
  exact b.ticket_object x n f

theorem length_eq (s : Mixed b x n start h d mid) : (h.view x).targets.length = n := by
  rw [Heap.view, Memory.length_targets, s.length]

theorem length_of (s : Mixed b x n start h d mid)
    (same : (h'.view x).targets = (h.view x).targets) : h'.memory.length x = n := by
  rw [← Memory.length_targets, ← s.length_eq]
  exact congrArg List.length same

theorem fits (s : Mixed b x n start h d mid) :
    ∀ k ∈ d.fields, k.first + k.length ≤ (h.view x).targets.length := by
  intro k hk
  obtain ⟨f, hf, -, rfl⟩ := s.tickets k hk
  have fits := (b.ticket_seated s.placed s.length hf).fits
  rw [s.length_eq]
  rwa [BarrierSettings.ticket_object, s.length] at fits

/-- One entry at most covers a field. -/
theorem alone (s : Mixed b x n start h d mid) (uniform : b.Uniform n) {k k' : Ticket}
    (hk : k ∈ d.fields) (hk' : k' ∈ d.fields) (covers : k.Covers i) (covers' : k'.Covers i) :
    k' = k := by
  obtain ⟨f, -, by₁, eq⟩ := s.tickets k hk
  obtain ⟨f', -, by₂, eq'⟩ := s.tickets k' hk'
  have first := (BarrierSettings.tickets_agree uniform by₁ by₂).2 i (eq ▸ covers) (eq' ▸ covers')
  refine List.inj_on_of_nodup_map s.apart hk' hk ?_
  rw [eq, eq', first]

/-- Nothing was logged, and no bit of the object changed. -/
theorem still {mid' : ObjectView} (s : Mixed b x n start h d mid) (placed : h'.memory.Placed x)
    (length : h'.memory.length x = n) (header : (h'.view x).header = (h.view x).header)
    (marks : (h'.view x).marks = (h.view x).marks)
    (mid_eq : (h.view x).header.logged = false → mid' = h'.view x)
    (due : ∀ o, mid'.within d.fields o + start.references o =
      (if (h.view x).header.logged then 0 else mid'.references o) + d.decrements.count o) :
    Mixed b x n start h' d mid' where
  placed := placed
  length := length
  stale := header ▸ s.stale
  unlocked := header ▸ s.unlocked
  objects := header ▸ s.objects
  tickets := s.tickets
  apart := s.apart
  marks j := by
    rw [ObjectView.isMarked, marks]
    exact s.marks j
  mid_eq := header ▸ mid_eq
  due := header ▸ due

/-- A field is logged, of which there is no entry. -/
theorem logField (s : Mixed b x n start h d mid) (placed : h'.memory.Placed x)
    (view : h'.view x =
      { h.view x with marks := (h.view x).marks.set (b.ticket x n f).first true })
    (hf : f.index < n) (unlogged : (h.view x).header.logged = false)
    (byField : b.byField n f = true)
    (unmarked : (h.view x).isMarked (b.ticket x n f).first = false) :
    Mixed b x n start h'
      (d ++ { fields := [b.ticket x n f], decrements := (b.ticket x n f).referents h })
      (h'.view x) where
  placed := placed
  length := s.length_of (by rw [view])
  stale := view ▸ s.stale
  unlocked := view ▸ s.unlocked
  objects := by
    rw [view, Entries.objects_append, List.append_nil]
    exact s.objects
  tickets k hk := by
    rcases List.mem_append.1 hk with hk | hk
    · exact s.tickets k hk
    · exact ⟨f, hf, byField, List.mem_singleton.1 hk⟩
  apart := by
    rw [Entries.fields_append, List.map_append]
    refine List.nodup_append.2 ⟨s.apart, List.nodup_singleton _, ?_⟩
    rintro _ h₁ _ h₂ rfl
    obtain ⟨k, hk, same⟩ := List.mem_map.1 h₁
    rw [(s.marks _).2 ⟨k, hk, same.trans (List.mem_singleton.1 h₂)⟩] at unmarked
    cases unmarked
  marks j := by
    have bound : (b.ticket x n f).first < (h.view x).marks.length := by
      have lt := (b.ticket_seated s.placed s.length hf).first_lt
      rwa [BarrierSettings.ticket_object, ← Memory.length_marks] at lt
    rw [view, ObjectView.isMarked_set _ bound]
    simp only [Entries.fields_append, List.mem_append, List.mem_singleton, or_and_right,
      exists_or, ← s.marks j, exists_eq_left]
    by_cases same : j = (b.ticket x n f).first
    · simp [same]
    · simp [same, Ne.symm same]
  mid_eq _ := rfl
  due o := by
    have due := s.due o
    have taken := Ticket.count_referents (b.ticket x n f) h o
    rw [unlogged, s.mid_eq unlogged] at due
    rw [view, unlogged, Entries.decrements_append, List.count_append, Entries.fields_append]
    simp only [ObjectView.within, ObjectView.references, ObjectView.range, List.map_append,
      List.sum_append, List.map_singleton, List.sum_singleton, Ticket.references, Ticket.targets,
      BarrierSettings.ticket_object, Bool.false_eq_true, if_false] at due taken ⊢
    omega

/-- The object is logged as a whole. -/
theorem logObject (s : Mixed b x n start h d mid) (placed : h'.memory.Placed x)
    (view : h'.view x = { h.view x with header := { (h.view x).header with logged := true } })
    (unlogged : (h.view x).header.logged = false) :
    Mixed b x n start h' (d ++ { objects := [x], decrements := (h.view x).referents }) mid := by
  have fields : (d ++ { objects := [x], decrements := (h.view x).referents }).fields = d.fields :=
    List.append_nil _
  exact {
    placed := placed
    length := s.length_of (by rw [view])
    stale := view ▸ s.stale
    unlocked := view ▸ s.unlocked
    objects := by
      rw [view, Entries.objects_append, s.objects, unlogged]
      rfl
    tickets := fields ▸ s.tickets
    apart := fields ▸ s.apart
    marks := fun j => by
      rw [view, fields]
      exact s.marks j
    mid_eq := fun unlogged => by
      rw [view] at unlogged
      cases unlogged
    due := fun o => by
      have due := s.due o
      have taken := ObjectView.count_referents (h.view x) o
      rw [unlogged, s.mid_eq unlogged] at due
      rw [view, fields, Entries.decrements_append, List.count_append, s.mid_eq unlogged,
        if_pos rfl]
      simp only [Bool.false_eq_true, if_false] at due ⊢
      omega }

/-- What the barrier of a store logs. -/
theorem log {w : ObjectView} (s : Mixed b x n start h d mid) (logs : Logs b x n f h e w)
    (view : h'.view x = w) (placed : h'.memory.Placed x) (hf : f.index < n) :
    ∃ mid', Mixed b x n start h' (d ++ e) mid' ∧
      ((h.view x).header.logged = true → mid' = mid) ∧
      ((h.view x).header.logged = false → mid'.targets = (h.view x).targets) := by
  cases logs with
  | nothing =>
    refine ⟨mid, ?_, fun _ => rfl, fun unlogged => by rw [s.mid_eq unlogged]⟩
    rw [Entries.append_none]
    exact s.still placed (s.length_of (by rw [view])) (by rw [view]) (by rw [view])
      (view ▸ s.mid_eq) s.due
  | field unlogged byField unmarked =>
    exact ⟨h'.view x, s.logField placed view hf unlogged byField unmarked,
      fun logged => Bool.noConfusion (logged.symm.trans unlogged), fun _ => by rw [view]⟩
  | object unlogged =>
    exact ⟨mid, s.logObject placed view unlogged, fun _ => rfl,
      fun unlogged => by rw [s.mid_eq unlogged]⟩

/-- After the barrier of a store the object is logged, or an entry covers the field. -/
theorem opened {w : ObjectView} (s : Mixed b x n start h d mid) (logs : Logs b x n f h e w)
    (uniform : b.Uniform n) (hf : f.index < n) :
    w.header.logged = true ∨ ∃ k ∈ (d ++ e).fields, k.Covers f.index := by
  cases logs with
  | nothing done =>
    refine done.imp_right fun ⟨byField, marked⟩ => ?_
    obtain ⟨k, hk, first⟩ := (s.marks _).1 marked
    refine ⟨k, List.mem_append_left _ hk, ?_⟩
    obtain ⟨f', -, byField', rfl⟩ := s.tickets k hk
    -- the entry that has the mark covers the same fields
    have length := (BarrierSettings.tickets_agree uniform byField' byField).1 first
    rw [Ticket.Covers, first, length]
    exact BarrierSettings.ticket_covers hf
  | field =>
    exact .inr ⟨_, List.mem_append_right _ List.mem_cons_self, BarrierSettings.ticket_covers hf⟩
  | object => exact .inl rfl

/-- A store to a slot that is covered. -/
theorem storing (s : Mixed b x n start h d mid) (uniform : b.Uniform n) (hi : i < n)
    (opened : (h.view x).header.logged = true ∨ ∃ k ∈ d.fields, k.Covers i) (t : Option Ref) :
    ∃ mid', Mixed b x n start (h.storing x i t) d mid' ∧
      ((h.view x).header.logged = true → mid' = mid) := by
  have view : (h.storing x i t).view x = { h.view x with
      targets := (h.view x).targets.set i (Ref.ofWord? (Ref.toWord t)) } :=
    Memory.view_putTarget_word (s.length ▸ hi) t
  have placed : (h.storing x i t).memory.Placed x := s.placed.putTarget i t
  have length : (h.storing x i t).memory.length x = n :=
    (Memory.length_putTarget ..).trans s.length
  cases logged : (h.view x).header.logged with
  | true =>
    exact ⟨mid, s.still placed length (by rw [view]) (by rw [view])
      (fun unlogged => Bool.noConfusion (logged.symm.trans unlogged)) s.due, fun _ => rfl⟩
  | false =>
    obtain ⟨k, hk, covers⟩ := opened.resolve_left (by rw [logged]; exact Bool.false_ne_true)
    refine ⟨(h.storing x i t).view x, s.still placed length (by rw [view]) (by rw [view])
      (fun _ => rfl) fun o => ?_, fun h => Bool.noConfusion h⟩
    have due := s.due o
    rw [logged, s.mid_eq logged] at due
    have set := ObjectView.within_set hk (s.length_eq ▸ hi) covers (s.apart.of_map _)
      (fun k' hk' covers' => s.alone uniform hk hk' covers covers') s.fits
      (Ref.ofWord? (Ref.toWord t)) o
    rw [view]
    simp only [logged, Bool.false_eq_true, if_false] at due ⊢
    omega

/-- The references that the entries cover. -/
theorem covered_eq (s : Mixed b x n start h d mid) (o : Ref) :
    h.covered d.objects d.fields o =
      (if (h.view x).header.logged then (h.view x).references o else 0) +
        (h.view x).within d.fields o := by
  rw [h.covered_within s.objects_eq, s.objects]
  cases (h.view x).header.logged <;> rfl

end Mixed

namespace Mutator

variable {x : Ref} {n : Nat} {m : Mutator} {h : Heap} {d : Entries} {start mid : ObjectView}

/-- A store through the barrier. -/
theorem write_mixed (s : Mixed m.barrier x n start h d mid) (uniform : m.barrier.Uniform n)
    {f : Field} (hf : f.index < n) (t : Option Ref) :
    ∃ e m' h' mid', m.write x (x.slotAddr f.index) t f h = .ok m' h' ∧ m.Adds h e m' h' ∧
      Mixed m.barrier x n start h' (d ++ e) mid' ∧
      ((h.view x).header.logged = true → (h'.view x).header.logged = true ∧ mid' = mid) ∧
      ((h.view x).header.logged = false → (h'.view x).header.logged = true →
        mid'.targets = (h.view x).targets) := by
  obtain ⟨e, m₁, h₁, run, adds, placed, logs⟩ :=
    m.barrierFor_logs s.placed s.length s.stale s.unlocked hf
  obtain ⟨mid₁, s₁, kept₁, now₁⟩ := s.log logs rfl placed hf
  have opened := s.opened logs uniform hf
  obtain ⟨mid', s', kept⟩ := s₁.storing uniform hf opened t
  have stored : HeapM.change (·.storeRef (x.slotAddr f.index) t) h₁ =
      .ok () (h₁.storing x f.index t) :=
    HeapM.change_of_ok (placed.storeRef_slot (s₁.length ▸ hf) t)
  have view : (h₁.storing x f.index t).view x = { h₁.view x with
      targets := (h₁.view x).targets.set f.index (Ref.ofWord? (Ref.toWord t)) } :=
    Memory.view_putTarget_word (s₁.length ▸ hf) t
  refine ⟨e, m₁, h₁.storing x f.index t, mid', ?_, adds.congr rfl rfl, s', fun logged => ?_,
    fun unlogged logged => ?_⟩
  · rw [write, HeapM.bind_of_ok run, HeapM.bind_of_ok stored]
    rfl
  · have still : (h₁.view x).header.logged = true := by
      generalize h₁.view x = w at logs
      cases logs with
      | nothing => exact logged
      | field unlogged => exact Bool.noConfusion (logged.symm.trans unlogged)
      | object => rfl
    rw [view]
    exact ⟨still, (kept still).trans (kept₁ logged)⟩
  · rw [view] at logged
    rw [kept logged, now₁ unlogged]

/-- Stores to fields of one object, one after the other, each through the barrier that the field
asks for. -/
def storeRow (x : Ref) : List (Field × Option Ref) → Mutator → HeapM Mutator
  | [], m => return m
  | (f, t) :: rest, m => do
    let m ← m.write x (x.slotAddr f.index) t f
    storeRow x rest m

/-- Among the stores of a row, the one by which the object is logged as a whole: before it the
slots of the object hold `targets`. -/
def LogsObject (x : Ref) (row : List (Field × Option Ref)) (m : Mutator) (h : Heap)
    (targets : List (Option Ref)) : Prop :=
  ∃ before f t after m₁ h₁ m₂ h₂, row = before ++ (f, t) :: after ∧
    storeRow x before m h = .ok m₁ h₁ ∧ (h₁.view x).header.logged = false ∧
    m₁.write x (x.slotAddr f.index) t f h₁ = .ok m₂ h₂ ∧ (h₂.view x).header.logged = true ∧
    (h₁.view x).targets = targets

/-- Stores in a row. -/
theorem storeRow_mixed (row : List (Field × Option Ref)) {m : Mutator} {h : Heap} {d : Entries}
    {mid : ObjectView} (s : Mixed m.barrier x n start h d mid) (uniform : m.barrier.Uniform n)
    (fits : ∀ w ∈ row, w.1.index < n) :
    ∃ e m' h' mid', storeRow x row m h = .ok m' h' ∧ m.Adds h e m' h' ∧
      Mixed m.barrier x n start h' (d ++ e) mid' ∧
      ((h.view x).header.logged = true → mid' = mid) ∧
      ((h.view x).header.logged = false → (h'.view x).header.logged = true →
        LogsObject x row m h mid'.targets) := by
  induction row generalizing m h d mid with
  | nil =>
    refine ⟨{}, m, h, mid, rfl, .of_pools m rfl, ?_, fun _ => rfl, fun unlogged logged => ?_⟩
    · rw [Entries.append_none]
      exact s
    · exact Bool.noConfusion (unlogged.symm.trans logged)
  | cons w rest ih =>
    obtain ⟨f, t⟩ := w
    obtain ⟨e₁, m₁, h₁, mid₁, run₁, adds₁, s₁, kept₁, now₁⟩ :=
      write_mixed s uniform (fits _ List.mem_cons_self) t
    have barrier : m₁.barrier = m.barrier := by rw [adds₁.same]
    rw [← barrier] at s₁ uniform
    obtain ⟨e₂, m', h', mid', run₂, adds₂, s₂, kept₂, now₂⟩ :=
      ih s₁ uniform fun w hw => fits w (List.mem_cons_of_mem _ hw)
    have s' : Mixed m.barrier x n start h' (d ++ (e₁ ++ e₂)) mid' := by
      rw [← barrier, ← Entries.append_assoc]
      exact s₂
    refine ⟨e₁ ++ e₂, m', h', mid', (HeapM.bind_of_ok run₁).trans run₂, adds₁.trans adds₂, s',
      fun logged => ?_, fun unlogged logged => ?_⟩
    · obtain ⟨logged₁, same⟩ := kept₁ logged
      exact (kept₂ logged₁).trans same
    · cases logged₁ : (h₁.view x).header.logged with
      | true =>
        rw [kept₂ logged₁]
        exact ⟨[], f, t, rest, m, h, m₁, h₁, rfl, rfl, unlogged, run₁, logged₁,
          (now₁ unlogged logged₁).symm⟩
      | false =>
        obtain ⟨before, g, u, after, m₂, h₂, m₃, h₃, rfl, reached, found⟩ := now₂ logged₁ logged
        exact ⟨(f, t) :: before, g, u, after, m₂, h₂, m₃, h₃, rfl,
          (HeapM.bind_of_ok run₁).trans reached, found⟩

/-- Stores in a row to an object of which nothing was logged: by the entries that they add the next
increment counts the references that the slots gained and takes back those that they lost, provided
that the object was not logged as a whole, or none of its fields was. If some fields were logged
before the object, the increment counts their slots once more, as they are in the end, and takes
back what they held when the object was logged. -/
theorem mixed_stores_balance (m : Mutator) (placed : h.memory.Placed x) (blank : (h.view x).Blank)
    (uniform : m.barrier.Uniform (h.memory.length x)) (row : List (Field × Option Ref))
    (fits : ∀ w ∈ row, w.1.index < h.memory.length x) :
    ∃ d m' h', storeRow x row m h = .ok m' h' ∧ m.Adds h d m' h' ∧
      (d.objects = [] ∨ d.fields = [] → ∀ o,
        h'.covered d.objects d.fields o + (h.view x).references o =
          (h'.view x).references o + d.decrements.count o) ∧
      (d.objects ≠ [] → ∃ mid : ObjectView, LogsObject x row m h mid.targets ∧ ∀ o,
        h'.covered d.objects d.fields o + (h.view x).references o + mid.within d.fields o =
          (h'.view x).references o + d.decrements.count o + (h'.view x).within d.fields o) := by
  obtain ⟨d, m', h', mid, run, adds, s, -, logs⟩ := storeRow_mixed row
    (Mixed.none (b := m.barrier) placed blank) uniform fits
  rw [Entries.none_append] at s
  refine ⟨d, m', h', run, adds, ?_, fun some => ?_⟩
  · intro one o
    have covered := s.covered_eq o
    have due := s.due o
    have objects := s.objects
    cases logged : (h'.view x).header.logged with
    | false =>
      rw [s.mid_eq logged] at due
      simp only [logged, Bool.false_eq_true, if_false] at covered due
      omega
    | true =>
      have fields : d.fields = [] := one.resolve_left fun none => by
        rw [logged, if_pos rfl] at objects
        exact List.cons_ne_nil _ _ (objects.symm.trans none)
      simp only [logged, if_true, fields, ObjectView.within, List.map_nil, List.sum_nil]
        at covered due
      rw [fields]
      omega
  · have logged : (h'.view x).header.logged = true := by
      cases logged : (h'.view x).header.logged with
      | true => rfl
      | false => exact absurd (s.objects.trans (if_neg (by rw [logged]; decide))) some
    refine ⟨mid, logs blank.unlogged logged, fun o => ?_⟩
    have covered := s.covered_eq o
    have due := s.due o
    simp only [logged, if_true] at covered due
    omega

end Mutator

/-! ## A child that is freed although its twin refers to it -/

/-- A new instance gets a mutator. That allocates an array of two elements as the parent, the twin
with one slot, and the child, and stores the child in the twin. The parent and the twin become
roots. -/
def Request.adopting : List Request :=
  [.bind, .act 0 (.allocate 2 true .default), .act 0 (.allocate 1 false .default),
    .act 0 (.allocate 0 false .default), .act 0 (.write .twin 0 (some .child)),
    .setRoots [.parent, .twin]]

/-- The child is stored as a scalar field of the parent, then the twin as an element, and then the
child is taken out. -/
def passingThrough : List (Field × Option Ref) :=
  [(.scalar 0, some .child), (.element 1, some .twin), (.scalar 0, none)]

/-- After an increment the child passes through the parent, scalar fields being logged by field and
elements by object. Another increment follows. Is the outcome as one wants it? -/
def passages (p : Mutator → Heap → Mutator → Heap → Heap → Bool) : Bool :=
  let s : Settings := { scalarFields := true }
  (Request.serveAll? (.ofSettings s) [] Request.adopting).any fun (_, h, ms) =>
    (HeapM.collect .increment ms).holds (fun ms₀ h₀ => match ms₀ with
      | [m₀] => (Mutator.storeRow .parent passingThrough m₀).holds (fun m₁ h₁ =>
          (HeapM.collect .increment [m₁]).holds (fun _ k => p m₀ h₀ m₁ h₁ k) h₁) h₀
      | _ => false) h

theorem of_passages {p : Mutator → Heap → Mutator → Heap → Heap → Bool}
    (eval : passages p = true) : ∃ h ms h₀ m₀ h₁ m₁ k ns,
      Run { scalarFields := true } h ms ∧ HeapM.collect .increment ms h = .ok [m₀] h₀ ∧
      Mutator.storeRow .parent passingThrough m₀ h₀ = .ok m₁ h₁ ∧
      HeapM.collect .increment [m₁] h₁ = .ok ns k ∧ p m₀ h₀ m₁ h₁ k = true := by
  simp only [passages, Option.any_eq_true, HeapM.holds_iff, ← serves_iff, Prod.exists] at eval
  obtain ⟨_, h, ms, reared, ms₀, h₀, left, eval⟩ := eval
  split at eval
  · next m₀ =>
    obtain ⟨m₁, h₁, stored, eval⟩ := HeapM.holds_iff.1 eval
    obtain ⟨ns, k, done, outcome⟩ := HeapM.holds_iff.1 eval
    exact ⟨h, ms, h₀, m₀, h₁, m₁, k, ns, Run.start.serves reared, left, stored, done, outcome⟩
  · cases eval

/-- The child passes through the parent. What is taken back of it was never counted. -/
theorem mixed_stores_balance_child : ∃ h ms h₀ m₀ d m₁ h₁, ∃ mid : ObjectView,
    Run { scalarFields := true } h ms ∧ HeapM.collect .increment ms h = .ok [m₀] h₀ ∧
    Mutator.storeRow .parent passingThrough m₀ h₀ = .ok m₁ h₁ ∧ m₀.Adds h₀ d m₁ h₁ ∧
    d.objects = [.parent] ∧ d.decrements = [.child] ∧
    Mutator.LogsObject .parent passingThrough m₀ h₀ mid.targets ∧
    h₁.covered d.objects d.fields .child + mid.within d.fields .child =
      1 + (h₁.view .parent).within d.fields .child := by
  have eval : passages (fun m₀ h₀ m₁ h₁ _ => decide (Ref.parent ∈ h₀.known ∧
      (h₀.view .parent).references .child = 0 ∧ (h₁.view .parent).references .child = 0 ∧
      m₀.barrier.Uniform (h₀.memory.length .parent) ∧ h₀.memory.length .parent = 2 ∧
      m₀.buffers.objects.both h₀.pools.objects = [] ∧
      m₁.buffers.objects.both h₁.pools.objects = [.parent] ∧
      m₀.buffers.decrements.both h₀.pools.decrements = [] ∧
      m₁.buffers.decrements.both h₁.pools.decrements = [.child])) = true := by
    decide +kernel
  obtain ⟨h, ms, h₀, m₀, h₁, m₁, -, -, run, left, stored, -, shown⟩ := of_passages eval
  obtain ⟨known, before, after, uniform, two, objects₀, objects₁, decrements₀, decrements₁⟩ :=
    of_decide_eq_true shown
  obtain ⟨e, r⟩ := run.ready
  have c := (r.collected (.of_collect left)).1
  obtain ⟨d, m', h', stored', adds, -, mixed⟩ := Mutator.mixed_stores_balance m₀
    (c.exact.cleared.wellFormed.placed known) (c.exact.blank known) uniform passingThrough
    (by rw [two]; decide)
  cases stored.symm.trans stored'
  have objects := adds.objects
  have decrements := adds.decrements
  rw [objects₀, objects₁, List.nil_append] at objects
  rw [decrements₀, decrements₁, List.nil_append] at decrements
  obtain ⟨mid, logs, balance⟩ := mixed (objects ▸ List.cons_ne_nil _ _)
  have child := balance .child
  rw [before, after, ← decrements, List.count_singleton_self] at child
  refine ⟨h, ms, h₀, m₀, d, m₁, h₁, mid, run, left, stored, adds, objects.symm, decrements.symm,
    logs, ?_⟩
  omega

/-- The child passes through the parent, which in the end holds as little of it as at the start.
The next increment frees the child, although its twin still refers to it and is a root. -/
theorem mixed_stores_free_a_referent : ∃ h ms h₀ m₀ h₁ m₁ k ns,
    Run { scalarFields := true } h ms ∧ HeapM.collect .increment ms h = .ok [m₀] h₀ ∧
    Mutator.storeRow .parent passingThrough m₀ h₀ = .ok m₁ h₁ ∧
    HeapM.collect .increment [m₁] h₁ = .ok ns k ∧
    ((h₀.view .parent).Blank ∧ h₀.count .child = 1 ∧ (h₀.view .parent).references .child = 0) ∧
    ((h₁.view .parent).references .child = 0 ∧ h₁.owedDecrements [m₁] = [.child]) ∧
    Ref.child ∉ k.known ∧ (k.view .twin).targets = [some .child] ∧
    Ref.twin ∈ k.client.scanRoots.state := by
  have eval : passages (fun _ h₀ m₁ h₁ k => decide (Ref.parent ∈ h₀.known ∧
      (h₀.count .child = 1 ∧ (h₀.view .parent).references .child = 0) ∧
      ((h₁.view .parent).references .child = 0 ∧ h₁.owedDecrements [m₁] = [.child]) ∧
      Ref.child ∉ k.known ∧ (k.view .twin).targets = [some .child] ∧
      Ref.twin ∈ k.client.scanRoots.state)) = true := by
    decide +kernel
  obtain ⟨h, ms, h₀, m₀, h₁, m₁, k, ns, run, left, stored, done, shown⟩ := of_passages eval
  obtain ⟨known, start, outcome⟩ := of_decide_eq_true shown
  obtain ⟨e, r⟩ := run.ready
  have blank := (r.collected (.of_collect left)).1.exact.blank known
  exact ⟨h, ms, h₀, m₀, h₁, m₁, k, ns, run, left, stored, done, ⟨blank, start⟩, outcome⟩

end DeferredCount
