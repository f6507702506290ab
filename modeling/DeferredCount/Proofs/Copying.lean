import DeferredCount.Proofs.Passing

/-!
# A copy is a row of stores

The barrier of a copy logs all that the copy may overwrite before the first reference is stored,
while stores of the same references one by one log and store in turn. Both come to the same: what a
later element has to log is never what an earlier store has overwritten. Either it shares its mark
with the earlier element, so that it is logged already, or it lies in other slots.

Results:
1. `Mutator.elementBarrier_passes`: the barrier of an element may be moved before a store to another
   one whose barrier was run.
2. `Mutator.elements_eq`, `Mutator.array_eq`: a copy logged by element, or as a whole.
3. `copies_are_rows_of_stores`: this for every barrier configuration and any state of the array.
-/

namespace DeferredCount

/-! ## The barrier of an element -/

namespace BarrierSettings

variable {b : BarrierSettings} {x : Ref} {n i k l : Nat}

/-- The first of the elements that share the mark of element `k`. -/
def firstOf (b : BarrierSettings) (k : Nat) : Nat := k - k % b.arrayQuantum

/-- The elements of an array of `n` elements that share the mark of element `k`. -/
def sharers (b : BarrierSettings) (n k : Nat) : List Nat :=
  (List.range (min b.arrayQuantum (n - b.firstOf k))).map (b.firstOf k + ·)

/-- What an entry of element `k` covers. -/
def coverage (b : BarrierSettings) (x : Ref) (n k : Nat) : Covered :=
  if b.logQuantum = 0 then .field (x.slotAddr k)
  else .quantum x (b.firstOf k) (min b.arrayQuantum (n - b.firstOf k))

theorem firstOf_le : b.firstOf k ≤ k := Nat.sub_le ..

theorem firstOf_lt (hk : k < n) : b.firstOf k < n := Nat.lt_of_le_of_lt firstOf_le hk

theorem mem_sharers (hl : l ∈ b.sharers n k) : l < n ∧ b.firstOf l = b.firstOf k := by
  have pos : 0 < b.arrayQuantum := by
    rw [arrayQuantum, Nat.one_shiftLeft]
    exact Nat.two_pow_pos _
  simp only [sharers, List.mem_map, List.mem_range, lt_min_iff] at hl
  obtain ⟨d, ⟨lt, inside⟩, rfl⟩ := hl
  refine ⟨by omega, ?_⟩
  -- the first one of a quantum is a multiple of the quantum
  have aligned : b.firstOf k % b.arrayQuantum = 0 :=
    Nat.mod_eq_zero_of_dvd (Nat.dvd_sub_mod k)
  have rest : (b.firstOf k + d) % b.arrayQuantum = d := by
    rw [Nat.add_mod, aligned, Nat.zero_add, Nat.mod_mod, Nat.mod_eq_of_lt lt]
  rw [firstOf, rest, Nat.add_sub_cancel]

theorem slots_coverage {m : Memory} (placed : m.Placed x) (length : m.length x = n) (hk : k < n) :
    (b.coverage x n k).slots = .ok ((b.sharers n k).map x.slotAddr) := by
  have le : b.firstOf k ≤ k := firstOf_le
  unfold coverage
  split
  · next single =>
    have one : b.arrayQuantum = 1 := by rw [arrayQuantum, single]; rfl
    have first : b.firstOf k = k := by rw [firstOf, one, Nat.mod_one, Nat.sub_zero]
    have alone : min 1 (n - k) = 1 := by omega
    rw [sharers, first, one, alone]
    rfl
  · rw [Covered.slots_quantum placed (by omega), sharers, List.map_map]
    rfl

/-- The entry that logs a field, as a store names it, of an object with `n` fields. -/
def ticket (b : BarrierSettings) (x : Ref) (n : Nat) : Field → Ticket
  | .element k => {
    covered := b.coverage x n k
    mark := x.addr + (2 + n + b.firstOf k) * bytesPerWord
    object := x
    first := b.firstOf k
    length := min b.arrayQuantum (n - b.firstOf k) }
  | .scalar k => {
    covered := .field (x.slotAddr k)
    mark := x.addr + (2 + n + k) * bytesPerWord
    object := x
    first := k
    length := 1 }

@[simp] theorem ticket_object (b : BarrierSettings) (x : Ref) (n : Nat) (f : Field) :
    (b.ticket x n f).object = x := by
  cases f <;> rfl

end BarrierSettings

/-- The entry of a field is as it should be. -/
theorem BarrierSettings.ticket_seated (b : BarrierSettings) {h : Heap} {x : Ref} {n : Nat}
    (placed : h.memory.Placed x) (length : h.memory.length x = n) {f : Field} (hf : f.index < n) :
    (b.ticket x n f).Seated h where
  first_lt := by
    rw [ticket_object, length]
    cases f with
    | element k => exact firstOf_lt hf
    | scalar k => exact hf
  fits := by
    rw [ticket_object, length]
    cases f with
    | element k =>
      have lt : b.firstOf k < n := firstOf_lt hf
      show b.firstOf k + min b.arrayQuantum (n - b.firstOf k) ≤ n
      omega
    | scalar k => exact hf
  mark := by
    rw [ticket_object, Memory.markAddr, length]
    cases f <;> rfl
  slots := by
    cases f with
    | element k =>
      refine (slots_coverage placed length hf).trans ?_
      rw [sharers, List.map_map]
      rfl
    | scalar k => rfl

namespace Mutator

open HeapM (PassesStore)

variable {x : Ref} {n j i k : Nat} {t : Option Ref} {m : Mutator} {h : Heap}

theorem quantumOf_of_placed (placed : h.memory.Placed x) (length : h.memory.length x = n)
    (hk : k < n) :
    m.quantumOf x k (m.barrier.firstOf k) h = .ok (m.barrier.coverage x n k) h := by
  have le : m.barrier.firstOf k ≤ n := BarrierSettings.firstOf_le.trans (Nat.le_of_lt hk)
  unfold quantumOf BarrierSettings.coverage
  split
  · rw [placed.slot_eq (length ▸ hk)]
    rfl
  · rw [HeapM.bind_of_ok (HeapM.inspect_of_ok placed.slotCount_eq), length,
      Word.sub_eq_ok.2 ⟨le, rfl⟩]
    rfl

/-- Logging a field of an object that no other thread is logging. -/
theorem logField_of_placed (m : Mutator) {k : Ticket} {f : Field} (index : f.index = k.first)
    (object : k.object = x) (placed : h.memory.Placed x) (seated : k.Seated h)
    (required : (h.view x).header.logRequired = true)
    (unlocked : (h.view x).header.locked = false)
    (unmarked : (h.view x).isMarked k.first = false) :
    ∃ m' h', m.logField x f k.covered h = .ok m' h' ∧
      m.Adds h { fields := [k], decrements := k.referents h } m' h' ∧ h'.memory.Placed x ∧
      h'.view x = { h.view x with marks := (h.view x).marks.set k.first true } := by
  subst object
  obtain ⟨m', h', run, left⟩ :=
    m.logField_leaves index placed seated required unlocked unmarked
  refine ⟨m', h', run, left.adds, ?_, ?_⟩
  · rw [left.memory_eq]
    exact (placed.putHeader _).putMark _ 1
  · rw [Heap.view, left.memory_eq, Memory.view_putMark_self, Memory.view_putHeader_self]
    rfl

/-- The element barrier of a quantum that is logged, or of an object that need not be. -/
theorem elementBarrier_quiet (hk : k < n) (q : h.Quiet x n (m.barrier.firstOf k)) :
    m.elementBarrier x k h = .ok m { h with stats := h.stats.count .elementChecks 1 } := by
  have first := BarrierSettings.firstOf_lt (b := m.barrier) hk
  have placed : ({ h with stats := h.stats.count .elementChecks 1 } : Heap).memory.Placed x :=
    q.placed
  have unlogged : HeapM.inspect (·.isFieldUnlogged x (m.barrier.firstOf k))
      { h with stats := h.stats.count .elementChecks 1 } =
        .ok (!(h.view x).isMarked (m.barrier.firstOf k)) _ :=
    HeapM.inspect_of_ok (isFieldUnlogged_eq placed (q.length ▸ first))
  rw [elementBarrier, HeapM.count, HeapM.modify_bind_apply]
  refine (HeapM.bind_of_ok unlogged).trans ?_
  cases marked : (h.view x).isMarked (m.barrier.firstOf k) with
  | true => rfl
  | false =>
    have refused := q.done.resolve_left (by rw [marked]; exact Bool.false_ne_true)
    show (m.quantumOf x k (m.barrier.firstOf k) >>= fun c => m.logField x _ c) _ = _
    rw [HeapM.bind_of_ok (quantumOf_of_placed placed q.length hk)]
    exact logField_refused placed refused m _ _

/-- The element barrier ends, unless another thread is logging the object. Then the quantum is
logged. -/
theorem elementBarrier_of_placed (placed : h.memory.Placed x) (length : h.memory.length x = n)
    (hk : k < n) (m : Mutator) :
    ((h.view x).header.isBusy = true ∧
      ∃ h', m.elementBarrier x k h = .error .waitsForever h') ∨
    ∃ m' h', m.elementBarrier x k h = .ok m' h' ∧ m'.barrier = m.barrier ∧
      h'.Quiet x n (m.barrier.firstOf k) ∧
      ((h.view x).header.isBusy = false → (h'.view x).header.isBusy = false) := by
  have first := BarrierSettings.firstOf_lt (b := m.barrier) hk
  cases marked : (h.view x).isMarked (m.barrier.firstOf k) with
  | true =>
    have quiet : h.Quiet x n (m.barrier.firstOf k) := ⟨placed, length, .inl marked⟩
    exact .inr ⟨m, _, elementBarrier_quiet hk quiet, rfl, ⟨placed, length, .inl marked⟩, id⟩
  | false =>
    cases required : (h.view x).header.logRequired with
    | false =>
      have quiet : h.Quiet x n (m.barrier.firstOf k) := ⟨placed, length, .inr required⟩
      exact .inr ⟨m, _, elementBarrier_quiet hk quiet, rfl, ⟨placed, length, .inr required⟩, id⟩
    | true =>
      obtain ⟨h₁, eq₁⟩ : ∃ h₁, h₁ = { h with stats := h.stats.count .elementChecks 1 } := ⟨_, rfl⟩
      have placed₁ : h₁.memory.Placed x := eq₁ ▸ placed
      have length₁ : h₁.memory.length x = n := eq₁ ▸ length
      have view₁ : h₁.view x = h.view x := by rw [eq₁]; rfl
      have unlogged : h₁.memory.isFieldUnlogged x (m.barrier.firstOf k) = .ok true := by
        rw [isFieldUnlogged_eq placed₁ (length₁ ▸ first), view₁, marked]
        rfl
      have run : m.elementBarrier x k h =
          m.logField x (.element (m.barrier.firstOf k)) (m.barrier.coverage x n k) h₁ := by
        rw [elementBarrier, HeapM.count, HeapM.modify_bind_apply, ← eq₁]
        refine (HeapM.bind_of_ok (HeapM.inspect_of_ok
          (f := (·.isFieldUnlogged x (m.barrier.firstOf k))) unlogged)).trans ?_
        exact HeapM.bind_of_ok (quantumOf_of_placed placed₁ length₁ hk)
      rw [run]
      cases locked : (h.view x).header.locked with
      | true =>
        have busy : (h.view x).header.isBusy = true := by rw [Header.isBusy, required, locked]; rfl
        exact .inl ⟨busy, h₁, by
          rw [logField, HeapM.bind_of_error (lock_waits placed₁ (view₁ ▸ busy))]⟩
      | false =>
        have seated := m.barrier.ticket_seated placed₁ length₁ (f := .element k) hk
        obtain ⟨m', h', e, adds, placed', view'⟩ := m.logField_of_placed (x := x)
          (k := m.barrier.ticket x n (.element k)) (f := .element (m.barrier.firstOf k)) rfl rfl
          placed₁ seated (view₁ ▸ required) (view₁ ▸ locked) (view₁ ▸ marked)
        rw [view₁] at view'
        have bound : m.barrier.firstOf k < (h.view x).marks.length := by
          rw [Heap.view, Memory.length_marks, length]
          exact first
        refine .inr ⟨m', h', e, by rw [adds.same], ⟨placed', ?_, .inl ?_⟩, fun idle => ?_⟩
        · rw [← Memory.length_targets, ← length, ← Memory.length_targets]
          exact congrArg (fun v => v.targets.length) view'
        · rw [view']
          exact (ObjectView.isMarked_set (h.view x) bound true _).trans (if_pos rfl)
        · rw [view']
          exact idle

/-- The element barrier may be moved before a store to an element whose barrier was run. -/
theorem elementBarrier_passes (hi : i < n) (hk : k < n) (m : Mutator) :
    PassesStore x n (m.barrier.firstOf i) i t (m.elementBarrier x k) := by
  have first := BarrierSettings.firstOf_lt (b := m.barrier) hk
  by_cases same : m.barrier.firstOf k = m.barrier.firstOf i
  · -- both elements have the same mark, and there is nothing to do
    intro h q
    have q' := q.storing (t := t) hi
    rw [elementBarrier_quiet hk (same ▸ q'), elementBarrier_quiet hk (same ▸ q)]
    exact ⟨rfl, fun _ _ e => by cases e; exact ⟨q.placed, q.length, q.done⟩⟩
  · have outside : i ∉ m.barrier.sharers n k := fun hm =>
      same (BarrierSettings.mem_sharers hm).2.symm
    refine .bind (HeapM.count_passes _ _) fun _ => .bind (isFieldUnlogged_passes hi first)
      fun unlogged => .ite ?_ (.pure m)
    intro h q
    refine HeapM.constant_passes hi
      (fun h q => quantumOf_of_placed q.placed q.length hk) ?_ h q
    exact m.logField_passes (BarrierSettings.slots_coverage q.placed q.length hk)
      (fun l hl => (BarrierSettings.mem_sharers hl).1) hi outside first

/-- So may the barriers of a row of elements. -/
theorem elementBarriers_passes (hi : i < n) (l k : Nat) (hk : k + l ≤ n) (m : Mutator) :
    PassesStore x n (m.barrier.firstOf i) i t (elementBarriers x l k m) := by
  induction l generalizing k m with
  | zero => exact .pure m
  | succ l ih =>
    refine .bind_of (m.elementBarrier_passes hi (by omega)) fun m₁ reached => ?_
    obtain ⟨h, h₁, q, run⟩ := reached
    -- the barrier settings are those of before
    rcases elementBarrier_of_placed q.placed q.length (by omega : k < n) m with
      ⟨-, _, waits⟩ | ⟨m', _, run', barrier, -, -⟩
    · cases run.symm.trans waits
    · cases run.symm.trans run'
      exact barrier ▸ ih (k + 1) (by omega) m₁

/-! ## The barrier of a whole object -/

/-- Nothing is done for an object that is fresh or logged. -/
theorem objectBarrier_quiet (placed : h.memory.Placed x)
    (refused : (h.view x).header.logRequired = false) (m : Mutator) :
    m.objectBarrier x h = .ok m h := by
  rw [objectBarrier, HeapM.bind_of_ok (HeapM.inspect_of_ok placed.header_eq)]
  show (if (h.view x).header.logRequired = true then _ else _ : HeapM Mutator) h = _
  rw [refused]
  rfl

/-- Logging an object that no other thread is logging. -/
theorem logObject_of_placed (m : Mutator) (placed : h.memory.Placed x)
    (required : (h.view x).header.logRequired = true)
    (unlocked : (h.view x).header.locked = false) :
    ∃ m' h', m.logObject x h = .ok m' h' ∧
      m.Adds h { objects := [x], decrements := (h.view x).referents } m' h' ∧
      h'.memory.Placed x ∧
      h'.view x = { h.view x with header := { (h.view x).header with logged := true } } := by
  obtain ⟨m', h', run, left⟩ := m.logObject_leaves placed required unlocked
  refine ⟨m', h', run, left.adds, ?_, ?_⟩
  · rw [left.memory_eq]
    exact placed.putHeader _
  · rw [Heap.view, left.memory_eq]
    exact Memory.view_putHeader_self ..

/-- The object barrier ends, unless another thread is logging the object. Then the object is
logged. -/
theorem objectBarrier_of_placed (placed : h.memory.Placed x) (length : h.memory.length x = n)
    (m : Mutator) :
    ((h.view x).header.isBusy = true ∧ ∃ h', m.objectBarrier x h = .error .waitsForever h') ∨
    ∃ m' h', m.objectBarrier x h = .ok m' h' ∧ m'.barrier = m.barrier ∧ h'.memory.Placed x ∧
      h'.memory.length x = n ∧ (h'.view x).header.logRequired = false := by
  cases required : (h.view x).header.logRequired with
  | false => exact .inr ⟨m, h, objectBarrier_quiet placed required m, rfl, placed, length, required⟩
  | true =>
    have run : m.objectBarrier x h = m.logObject x h := by
      rw [objectBarrier, HeapM.bind_of_ok (HeapM.inspect_of_ok placed.header_eq)]
      show (if (h.view x).header.logRequired = true then _ else _ : HeapM Mutator) h = _
      rw [required]
      rfl
    rw [run]
    cases locked : (h.view x).header.locked with
    | true =>
      have busy : (h.view x).header.isBusy = true := by rw [Header.isBusy, required, locked]; rfl
      exact .inl ⟨busy, h, by rw [logObject, HeapM.bind_of_error (lock_waits placed busy)]⟩
    | false =>
      obtain ⟨m', h', e, adds, placed', view'⟩ := m.logObject_of_placed placed required locked
      refine .inr ⟨m', h', e, by rw [adds.same], placed', ?_, by rw [view']; rfl⟩
      rw [← Memory.length_targets, ← length, ← Memory.length_targets]
      exact congrArg (fun v => v.targets.length) view'

end Mutator

/-! ## Stores in a row -/

namespace HeapM

variable {α : Type}

/-- Two ends that agree: the same result with the same heap, or the same fault. -/
inductive EndsSame : EStateM.Result Fault Heap α → EStateM.Result Fault Heap α → Prop
  | ok {a : α} {h : Heap} : EndsSame (.ok a h) (.ok a h)
  | error {f : Fault} {h k : Heap} : EndsSame (.error f h) (.error f k)

theorem EndsSame.of_ok {r r' : EStateM.Result Fault Heap α} (same : EndsSame r r') {a : α}
    {h : Heap} (e : r = .ok a h) : r' = .ok a h := by
  subst e
  cases same
  rfl

end HeapM

namespace Mutator

variable {x : Ref} {n j i k : Nat} {t : Option Ref} {h : Heap}

/-- Stores to adjacent elements of an array through the barrier, from element `i` on. -/
def writeAll (x : Ref) : (i : Nat) → List (Option Ref) → Mutator → HeapM Mutator
  | _, [], m => return m
  | i, t :: ts, m => do
    let m ← m.write x (x.slotAddr i) t (.element i)
    writeAll x (i + 1) ts m

/-- The barrier of a copy to adjacent elements of an array, from element `i` on, and then the
copy. -/
def copyAll (src : Ref) (srcOffset : Nat) (x : Ref) (i : Nat) (ts : List (Option Ref))
    (m : Mutator) : HeapM Mutator := do
  let (_, m) ←
    m.bulkCopyBarrier src srcOffset x (i * bytesPerWord) (ts.length * bytesPerWord)
  HeapM.change (SessionM.storeAll x i ts)
  return m

/-- A store to an element. -/
theorem write_of_placed (placed : h.memory.Placed x) (length : h.memory.length x = n)
    (m : Mutator) (i : Nat) (t : Option Ref) : m.write x (x.slotAddr i) t (.element i) h =
      ((if m.byElement n then m.elementBarrier x i else m.objectBarrier x) >>= fun m => do
        HeapM.change (·.storeRef (x.slotAddr i) t)
        return m) h := by
  have mode : m.inFieldMode x h = .ok (m.byElement n) h := by
    rw [m.inFieldMode_of_placed placed, length]
  have grain : m.granularity x (.element i) h =
      .ok (if m.byElement n then .arrayField else .object) h := by
    rw [granularity, HeapM.bind_of_ok mode]
    rfl
  refine HeapM.bind_congr ?_
  rw [barrierFor, HeapM.bind_of_ok grain]
  cases m.byElement n <;> rfl

/-- Stores to slots that an object has. -/
theorem storeAll_of_placed (ts : List (Option Ref)) {memory : Memory} {i : Nat}
    (placed : memory.Placed x) (fits : i + ts.length ≤ memory.length x) :
    ∃ memory', SessionM.storeAll x i ts memory = .ok memory' := by
  induction ts generalizing memory i with
  | nil => exact ⟨memory, rfl⟩
  | cons t ts ih =>
    rw [List.length_cons] at fits
    have hi : i < memory.length x := by omega
    obtain ⟨memory', stored⟩ := ih (placed.putTarget i t) (i := i + 1)
      (by rw [Memory.length_putTarget]; omega)
    refine ⟨memory', ?_⟩
    rw [SessionM.storeAll, placed.slot_eq hi, Except.ok_bind, placed.storeRef_slot hi,
      Except.ok_bind]
    exact stored

/-- The first of the stores that a copy makes. -/
theorem change_storeAll_cons (placed : h.memory.Placed x) (t : Option Ref) (ts : List (Option Ref))
    (fits : i + (ts.length + 1) ≤ h.memory.length x) :
    HeapM.change (SessionM.storeAll x i (t :: ts)) h =
      HeapM.change (SessionM.storeAll x (i + 1) ts) (h.storing x i t) := by
  have hi : i < h.memory.length x := by omega
  obtain ⟨memory', stored⟩ := storeAll_of_placed ts (placed.putTarget i t) (i := i + 1)
    (by rw [Memory.length_putTarget]; omega)
  have first : SessionM.storeAll x i (t :: ts) h.memory = .ok memory' := by
    rw [SessionM.storeAll, placed.slot_eq hi, Except.ok_bind, placed.storeRef_slot hi,
      Except.ok_bind]
    exact stored
  rw [HeapM.change_of_ok first, HeapM.change_of_ok (h := h.storing x i t) stored]
  rfl

/-- A copy logged by element ends as a row of stores does. -/
theorem elements_eq (ts : List (Option Ref)) (i : Nat) {m : Mutator} {h : Heap}
    (byElement : m.byElement n = true) (placed : h.memory.Placed x)
    (length : h.memory.length x = n) (fits : i + ts.length ≤ n) :
    HeapM.EndsSame
      ((do
        let m ← elementBarriers x ts.length i m
        HeapM.change (SessionM.storeAll x i ts)
        return m : HeapM Mutator) h)
      (writeAll x i ts m h) := by
  induction ts generalizing i m h with
  | nil => exact .ok
  | cons t ts ih =>
    rw [List.length_cons] at fits
    have hi : i < n := by omega
    rw [List.length_cons, elementBarriers, writeAll, HeapM.bind_assoc_apply,
      HeapM.bind_congr (write_of_placed placed length m i t), HeapM.bind_assoc_apply,
      if_pos byElement]
    rcases elementBarrier_of_placed placed length hi m with
      ⟨-, h', waits⟩ | ⟨m₁, h₁, run, barrier, quiet, -⟩
    · rw [HeapM.bind_of_error waits, HeapM.bind_of_error waits]
      exact .error
    rw [HeapM.bind_of_ok run, HeapM.bind_of_ok run]
    have stored : HeapM.change (·.storeRef (x.slotAddr i) t) h₁ = .ok () (h₁.storing x i t) :=
      HeapM.change_of_ok (quiet.placed.storeRef_slot (quiet.length ▸ hi) t)
    rw [HeapM.bind_assoc_apply, HeapM.bind_of_ok stored, HeapM.pure_bind_apply]
    -- the first store is made before the other barriers in the row, and after them in the copy
    obtain ⟨passed, keeps⟩ := elementBarriers_passes (t := t) hi ts.length (i + 1) (by omega) m₁ h₁
      (barrier ▸ quiet)
    have rest := ih (i + 1) (m := m₁) (h := h₁.storing x i t)
      (by rw [Mutator.byElement, barrier]; exact byElement) (quiet.storing hi).placed
      (quiet.storing hi).length (by omega)
    cases ends : elementBarriers x ts.length (i + 1) m₁ h₁ with
    | error f h₂ =>
      rw [ends] at passed
      rw [HeapM.bind_of_error passed] at rest
      rw [HeapM.bind_of_error ends]
      generalize writeAll x (i + 1) ts m₁ (h₁.storing x i t) = r at rest ⊢
      cases rest
      exact .error
    | ok m₂ h₂ =>
      have quiet₂ := keeps m₂ h₂ ends
      rw [ends] at passed
      rw [HeapM.bind_of_ok passed] at rest
      have same := change_storeAll_cons quiet₂.placed t ts (quiet₂.length ▸ fits)
      rw [HeapM.bind_of_ok ends, HeapM.bind_congr same]
      exact rest

/-- The first store of a row to an object that is logged as a whole. -/
theorem writeAll_cons_whole {m : Mutator} (whole : m.byElement n = false)
    (placed : h.memory.Placed x) (length : h.memory.length x = n) (i : Nat) (t : Option Ref)
    (ts : List (Option Ref)) : writeAll x i (t :: ts) m h = (do
      let m ← m.objectBarrier x
      HeapM.change (·.storeRef (x.slotAddr i) t)
      writeAll x (i + 1) ts m : HeapM Mutator) h := by
  rw [writeAll, HeapM.bind_congr (write_of_placed placed length m i t), HeapM.bind_assoc_apply,
    whole]
  simp only [bind_assoc, pure_bind]
  rfl

/-- A row of stores to an object that need not be logged any more. -/
theorem whole_eq (ts : List (Option Ref)) (i : Nat) {m : Mutator} {h : Heap}
    (whole : m.byElement n = false) (placed : h.memory.Placed x) (length : h.memory.length x = n)
    (refused : (h.view x).header.logRequired = false) (fits : i + ts.length ≤ n) :
    (do
      HeapM.change (SessionM.storeAll x i ts)
      return m : HeapM Mutator) h = writeAll x i ts m h := by
  induction ts generalizing i h with
  | nil => rfl
  | cons t ts ih =>
    rw [List.length_cons] at fits
    have hi : i < n := by omega
    have quiet : h.Quiet x n 0 := ⟨placed, length, .inr refused⟩
    have stored : HeapM.change (·.storeRef (x.slotAddr i) t) h = .ok () (h.storing x i t) :=
      HeapM.change_of_ok (placed.storeRef_slot (length ▸ hi) t)
    rw [HeapM.bind_congr (change_storeAll_cons placed t ts (length ▸ fits)),
      writeAll_cons_whole whole placed length,
      HeapM.bind_of_ok (objectBarrier_quiet placed refused m), HeapM.bind_of_ok stored]
    refine ih (i + 1) (quiet.storing hi).placed (quiet.storing hi).length ?_ (by omega)
    rw [quiet.storing_view hi]
    exact refused

/-- A copy to an array that is logged as a whole ends as a row of stores does. -/
theorem array_eq {ts : List (Option Ref)} (some : ts ≠ []) {m : Mutator}
    (whole : m.byElement n = false) (placed : h.memory.Placed x) (length : h.memory.length x = n)
    (fits : i + ts.length ≤ n) :
    HeapM.EndsSame
      ((do
        let m ← m.objectBarrier x
        HeapM.change (SessionM.storeAll x i ts)
        return m : HeapM Mutator) h)
      (writeAll x i ts m h) := by
  obtain ⟨t, ts, rfl⟩ := List.exists_cons_of_ne_nil some
  rw [writeAll_cons_whole whole placed length]
  rcases objectBarrier_of_placed placed length m with
    ⟨-, h', waits⟩ | ⟨m₁, h₁, logged, barrier, placed₁, length₁, refused⟩
  · rw [HeapM.bind_of_error waits, HeapM.bind_of_error waits]
    exact .error
  · have whole₁ : m₁.byElement n = false := by
      rw [byElement, barrier]
      exact whole
    rw [HeapM.bind_of_ok logged, HeapM.bind_of_ok logged,
      whole_eq (t :: ts) i whole₁ placed₁ length₁ refused fits,
      writeAll_cons_whole whole₁ placed₁ length₁,
      HeapM.bind_of_ok (objectBarrier_quiet placed₁ refused m₁)]
    generalize (HeapM.change (·.storeRef (x.slotAddr i) t) >>= fun _ =>
      writeAll x (i + 1) ts m₁) h₁ = r
    cases r <;> constructor

/-- A row of element barriers ends if no other thread is logging the array. -/
theorem elementBarriers_of_placed (l k : Nat) {m : Mutator} {h : Heap} (placed : h.memory.Placed x)
    (length : h.memory.length x = n) (fits : k + l ≤ n) (idle : (h.view x).header.isBusy = false) :
    ∃ m' h', elementBarriers x l k m h = .ok m' h' ∧ h'.memory.Placed x ∧
      h'.memory.length x = n := by
  induction l generalizing k m h with
  | zero => exact ⟨m, h, rfl, placed, length⟩
  | succ l ih =>
    rcases elementBarrier_of_placed placed length (by omega : k < n) m with
      ⟨busy, -⟩ | ⟨m₁, h₁, run, -, quiet, idle₁⟩
    · rw [idle] at busy
      cases busy
    · obtain ⟨m', h', rest, placed', length'⟩ :=
        ih (k + 1) (m := m₁) quiet.placed quiet.length (by omega) (idle₁ idle)
      refine ⟨m', h', ?_, placed', length'⟩
      rw [elementBarriers, HeapM.bind_of_ok run]
      exact rest

/-- A copy to adjacent elements of an array is a row of stores through the barrier: it leaves the
same array, the same entries in the same order in the buffers and pools, and the same numbers. This
holds for all barrier settings, any length of a quantum and any alignment of the range, whether the
array is fresh or logged or has marks. Both end unless another thread is logging the array, and then
both wait for it. -/
theorem copies_are_rows_of_stores (m : Mutator) (src : Ref) (srcOffset : Nat)
    (placed : h.memory.Placed x) (ts : List (Option Ref)) (some : ts ≠ [])
    (fits : i + ts.length ≤ h.memory.length x) :
    HeapM.EndsSame (copyAll src srcOffset x i ts m h)
        ((do
          HeapM.emit (.bulkCopy ts.length src srcOffset x (i * bytesPerWord))
          writeAll x i ts m : HeapM Mutator) h) ∧
      ((h.view x).header.isBusy = false →
        ∃ m' h', copyAll src srcOffset x i ts m h = .ok m' h' ∧
          (do
            HeapM.emit (.bulkCopy ts.length src srcOffset x (i * bytesPerWord))
            writeAll x i ts m : HeapM Mutator) h = .ok m' h') := by
  rw [HeapM.emit_bind_apply]
  obtain ⟨h₁, eq₁⟩ : ∃ h₁ : Heap, h₁ = { h with
    log := .bulkCopy ts.length src srcOffset x (i * bytesPerWord) :: h.log } := ⟨_, rfl⟩
  have placed₁ : h₁.memory.Placed x := eq₁ ▸ placed
  have length₁ : h₁.memory.length x = h.memory.length x := by rw [eq₁]
  have view₁ : h₁.view x = h.view x := by rw [eq₁]; rfl
  have run : copyAll src srcOffset x i ts m h =
      ((if m.byElement (h.memory.length x) then elementBarriers x ts.length i m
        else m.objectBarrier x) >>= fun m => do
          HeapM.change (SessionM.storeAll x i ts)
          return m) h₁ := by
    rw [copyAll, HeapM.bind_congr (m.bulkCopyBarrier_of_placed src srcOffset placed fits),
      HeapM.bind_assoc_apply, eq₁]
    rfl
  rw [run, ← eq₁, ← view₁]
  -- the barriers of the copy end, and so do its stores, which are all in range
  have stores : ∀ {y : HeapM Mutator} {m₂ h₂}, y h₁ = .ok m₂ h₂ → h₂.memory.Placed x →
      h₂.memory.length x = h.memory.length x → ∃ m' h', (y >>= fun m => do
        HeapM.change (SessionM.storeAll x i ts)
        return m) h₁ = .ok m' h' := by
    intro y m₂ h₂ barriers placed₂ length₂
    obtain ⟨memory, stored⟩ := storeAll_of_placed ts placed₂ (length₂ ▸ fits)
    exact ⟨m₂, _, (HeapM.bind_of_ok barriers).trans (HeapM.bind_of_ok (HeapM.change_of_ok stored))⟩
  cases byElement : m.byElement (h.memory.length x) with
  | true =>
    have same := elements_eq ts i byElement placed₁ length₁ fits
    refine ⟨same, fun idle => ?_⟩
    obtain ⟨m₂, h₂, barriers, placed₂, length₂⟩ :=
      elementBarriers_of_placed ts.length i (m := m) placed₁ length₁ fits idle
    obtain ⟨m', h', e⟩ := stores barriers placed₂ length₂
    exact ⟨m', h', e, same.of_ok e⟩
  | false =>
    have same := array_eq some byElement placed₁ length₁ fits
    refine ⟨same, fun idle => ?_⟩
    rcases objectBarrier_of_placed placed₁ length₁ m with
      ⟨busy, -⟩ | ⟨m₂, h₂, logged, -, placed₂, length₂, -⟩
    · exact absurd (idle.symm.trans busy) Bool.false_ne_true
    · obtain ⟨m', h', e⟩ := stores logged placed₂ length₂
      exact ⟨m', h', e, same.of_ok e⟩

/-- An array of four elements. All but the third one refer to the array itself. -/
def fourElements : Heap :=
  { Heap.ofSettings {} with
    memory := [(0, 256), (1, 9), (2, 0x10000000), (3, 0x10000000), (5, 0x10000000)].foldl
      (fun m w => m.setWord w.1 w.2) Memory.empty }

/-- A copy to the two elements in the middle, in an array of two quanta of two elements. Both quanta
are logged with what they held before. -/
theorem copies_are_rows_of_stores_partial_quanta :
    let x : Ref := ⟨0x10000000⟩
    let m : Mutator := {
      flavor := .base
      barrier := .ofSettings { arrayFields := true, arrayQuantum := 2 }
      buffers := ⟨{ capacity := 2 }, { capacity := 2 }, { capacity := 2 }⟩ }
    ∃ m' h', copyAll x 0 x 1 [none, some x] m fourElements = .ok m' h' ∧
      (do
        HeapM.emit (.bulkCopy 2 x 0 x 8)
        writeAll x 1 [none, some x] m : HeapM Mutator) fourElements = .ok m' h' ∧
      (h'.view x).targets = [some x, none, some x, some x] ∧
      (h'.view x).marks = [true, false, true, false] ∧
      m'.buffers.decrements.both h'.pools.decrements = [x, x, x] := by
  intro x m
  have placed : fourElements.memory.Placed x := by decide +kernel
  have fits : 1 + [none, some x].length ≤ fourElements.memory.length x := by decide +kernel
  have idle : (fourElements.view x).header.isBusy = false := by decide +kernel
  obtain ⟨m', h', copied, stored⟩ :=
    (copies_are_rows_of_stores m x 0 placed [none, some x] (by decide) fits).2 idle
  have left : (copyAll x 0 x 1 [none, some x] m).holds (fun m' h' =>
      decide ((h'.view x).targets = [some x, none, some x, some x] ∧
        (h'.view x).marks = [true, false, true, false] ∧
        m'.buffers.decrements.both h'.pools.decrements = [x, x, x])) fourElements = true := by
    decide +kernel
  obtain ⟨_, _, e, shown⟩ := HeapM.holds_iff.1 left
  cases copied.symm.trans e
  exact ⟨m', h', copied, stored, of_decide_eq_true shown⟩

end Mutator

end DeferredCount
