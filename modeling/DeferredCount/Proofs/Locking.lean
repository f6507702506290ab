import DeferredCount.Mutator.Barrier
import DeferredCount.Proofs.Holding

/-!
# What is done under the lock of an object

A mutator that has to log an object or a field takes the lock of the object, puts what it is about
to overwrite into its buffers, sets the log bit or the mark, and gives the lock back. The object
only has to be placed in the memory for that. Of the memory one bit is changed in the end, and the
lock is as it was.

Results:
1. `Mutator.lock_of_placed`: what becomes of a lock that is asked for.
2. `Mutator.logObject_leaves`: what logging a whole object leaves.
3. `Mutator.logField_leaves`: what logging a field or a quantum leaves.
-/

namespace DeferredCount

/-- An entry covers fields that its object has, and says so. -/
structure Ticket.Seated (k : Ticket) (h : Heap) : Prop where
  first_lt : k.first < h.memory.length k.object
  fits : k.first + k.length ≤ h.memory.length k.object
  mark : k.mark = h.memory.markAddr k.object k.first
  slots : k.covered.slots =
    .ok ((List.range k.length).map fun j => k.object.slotAddr (k.first + j))

theorem Ticket.Valid.seated {k : Ticket} {h : Heap} (v : k.Valid h) : k.Seated h :=
  ⟨v.first_lt, v.fits, v.mark, v.slots⟩

theorem Ticket.Seated.congr {k : Ticket} {h h' : Heap} (seated : k.Seated h)
    (length : h'.memory.length k.object = h.memory.length k.object) : k.Seated h' where
  first_lt := length ▸ seated.first_lt
  fits := length ▸ seated.fits
  mark := by rw [seated.mark, Memory.markAddr, Memory.markAddr, length]
  slots := seated.slots

/-- A mutator `m` added the entries `d` to a heap `h` and left it with the memory `M`. -/
structure Mutator.Leaves (m : Mutator) (h : Heap) (d : Entries) (M : Memory) (m' : Mutator)
    (h' : Heap) : Prop where
  adds : m.Adds h d m' h'
  rest : h' = { h with memory := M, pools := h'.pools, stats := h'.stats, log := h'.log }

theorem Mutator.Leaves.memory_eq {m m' : Mutator} {h h' : Heap} {d : Entries} {M : Memory}
    (l : m.Leaves h d M m' h') : h'.memory = M := by rw [l.rest]

namespace Mutator

variable {h : Heap} {x : Ref} {i : Nat}

/-! ## The lock -/

/-- A lock that another thread holds never comes free. It is refused for an object that is fresh or
logged. -/
theorem lock_of_placed (placed : h.memory.Placed x) : lock x h =
    if (h.view x).header.isBusy then .error .waitsForever h
    else if (h.view x).header.logRequired then
      .ok true (h.putHeader x { (h.view x).header with locked := true })
    else .ok false h := by
  have taken : HeapM.updateHeader x Header.lock h = _ := HeapM.updateHeader_some placed rfl
  rw [lock, HeapM.bind_of_ok (HeapM.inspect_of_ok placed.header_eq)]
  show (if (h.view x).header.isBusy = true then _ else _ : HeapM Bool) h = _
  split
  · rfl
  · show (if (h.view x).header.logRequired = true then _ else _ : HeapM Bool) h = _
    split
    · rw [HeapM.bind_of_ok taken]
      rfl
    · rfl

theorem lock_refused (placed : h.memory.Placed x)
    (refused : (h.view x).header.logRequired = false) : lock x h = .ok false h := by
  have idle : (h.view x).header.isBusy = false := by rw [Header.isBusy, refused, Bool.false_and]
  rw [lock_of_placed placed, idle, refused]
  rfl

theorem lock_taken (placed : h.memory.Placed x) (required : (h.view x).header.logRequired = true)
    (unlocked : (h.view x).header.locked = false) :
    lock x h = .ok true (h.putHeader x { (h.view x).header with locked := true }) := by
  have idle : (h.view x).header.isBusy = false := by rw [Header.isBusy, unlocked, Bool.and_false]
  rw [lock_of_placed placed, idle, required]
  rfl

theorem lock_waits (placed : h.memory.Placed x) (busy : (h.view x).header.isBusy = true) :
    lock x h = .error .waitsForever h := by
  rw [lock_of_placed placed, busy]
  rfl

/-- A header that was not locked is back to what it was once the lock is given back. -/
theorem unlock_eq {hd : Header} (unlocked : hd.locked = false) :
    ({ hd with locked := false } : Header) = hd := by
  rw [← unlocked]

/-- An object that need not be logged may be written. -/
theorem logged_or_fresh {hd : Header} (refused : hd.logRequired = false) :
    hd.fresh = true ∨ hd.logged = true := by
  simp only [Header.logRequired, Bool.and_eq_false_iff, Bool.not_eq_false'] at refused
  exact refused.symm

theorem makeLogged_of_placed (placed : h.memory.Placed x)
    (locked : (h.view x).header.locked = true) : makeLogged x h =
      .ok () (h.putHeader x { (h.view x).header with logged := true, locked := false }) := by
  have given : HeapM.updateHeader x Header.makeLogged h = _ := HeapM.updateHeader_some placed rfl
  rw [makeLogged, HeapM.bind_of_ok given]
  simp only [locked]
  rfl

theorem finishLogging_of_placed (placed : h.memory.Placed x)
    (locked : (h.view x).header.locked = true) : finishLogging x h =
      .ok () (h.putHeader x { (h.view x).header with locked := false }) := by
  have given : HeapM.updateHeader x Header.finishLogging h = _ :=
    HeapM.updateHeader_some placed rfl
  rw [finishLogging, HeapM.bind_of_ok given]
  simp only [locked]
  rfl

theorem markField_of_placed (placed : h.memory.Placed x) (hi : i < h.memory.length x) :
    markField x i h =
      .ok (h.memory.markAddr x i) { h with memory := h.memory.putMark x i 1 } := by
  rw [markField, HeapM.bind_of_ok (HeapM.inspect_of_ok (placed.markOf_eq hi)),
    HeapM.bind_of_ok (HeapM.change_of_ok (placed.store_mark hi 1))]
  rfl

/-! ## Logging a whole object -/

/-- Logging an object that no other thread is logging sets its log bit. -/
theorem logObject_leaves (m : Mutator) (placed : h.memory.Placed x)
    (required : (h.view x).header.logRequired = true)
    (unlocked : (h.view x).header.locked = false) :
    ∃ m' h', m.logObject x h = .ok m' h' ∧
      m.Leaves h { objects := [x], decrements := (h.view x).referents }
        (h.memory.putHeader x { (h.view x).header with logged := true }) m' h' := by
  obtain ⟨h₁, eq₁⟩ : ∃ h₁, h₁ = h.putHeader x { (h.view x).header with locked := true } :=
    ⟨_, rfl⟩
  have run₁ : lock x h = .ok true h₁ := eq₁ ▸ lock_taken placed required unlocked
  have placed₁ : h₁.memory.Placed x := eq₁ ▸ placed.putHeader _
  have view₁ : h₁.view x =
      { h.view x with header := { (h.view x).header with locked := true } } :=
    eq₁ ▸ Memory.view_putHeader_self ..
  have referents : h₁.memory.referents x = .ok (h.view x).referents :=
    placed₁.referents_eq.trans (congrArg (fun v => Except.ok v.referents) view₁)
  obtain ⟨m₂, q₂, run₂, adds₂⟩ := m.pushObject_eq x h₁
  obtain ⟨m₃, q₃, run₃, adds₃⟩ :=
    m₂.pushDecrements_eq (h.view x).referents (h₁.putPool .objects q₂)
  have run₄ := makeLogged_of_placed (h := (h₁.putPool .objects q₂).putPool .decrements q₃) placed₁
    (congrArg (fun v => v.header.locked) view₁)
  obtain ⟨h₄, eq₄⟩ : ∃ h₄, h₄ = { (h₁.putPool .objects q₂).putPool .decrements q₃ with
      memory := h₁.memory.putHeader x
        { (h₁.view x).header with logged := true, locked := false }
      stats := (h₁.stats.count .logged 1).count .wordsLogged (h.view x).referents.length
      log := .objectLogged x (h.view x).referents.length :: h₁.log } := ⟨_, rfl⟩
  have memory₄ : h₄.memory =
      h.memory.putHeader x { (h.view x).header with logged := true } := by
    rw [eq₄, view₁, eq₁]
    show (h.memory.putHeader x _).putHeader x _ = _
    rw [Memory.putHeader_putHeader, ← @unlock_eq { (h.view x).header with logged := true } unlocked]
  refine ⟨m₃, h₄, ?_, (adds₂.trans adds₃).congr (by rw [eq₁]; rfl) (by rw [eq₄]), ?_⟩
  · rw [logObject, HeapM.bind_of_ok run₁]
    simp only [if_true]
    rw [HeapM.bind_of_ok run₂, HeapM.bind_of_ok (HeapM.inspect_of_ok referents)]
    refine (HeapM.bind_of_ok run₃).trans ((HeapM.bind_of_ok run₄).trans ?_)
    rw [eq₄]
    rfl
  · rw [← memory₄, eq₄, eq₁]
    rfl

/-! ## Logging a field -/

theorem mapM_loadRef {m : Memory} (placed : m.Placed x) (fields : List Nat)
    (fits : ∀ i ∈ fields, i < m.length x) :
    (fields.map x.slotAddr).mapM m.loadRef = .ok (fields.map (m.view x).target) := by
  rw [List.mapM_map]
  exact Except.mapM_of_ok _ fun i hi => placed.loadRef_target (fits i hi)

/-- The references in the slots that an entry covers. -/
theorem covered_referents {k : Ticket} (placed : h.memory.Placed k.object) (seated : k.Seated h) :
    k.covered.referents h.memory = .ok (k.referents h) := by
  have fits := seated.fits
  have loaded := mapM_loadRef placed ((List.range k.length).map (k.first + ·)) fun i hi => by
    simp only [List.mem_map, List.mem_range] at hi
    omega
  rw [List.map_map] at loaded
  rw [Covered.referents, seated.slots, Except.ok_bind]
  change ((List.range k.length).map (k.object.slotAddr ∘ (k.first + ·))).mapM _ >>= _ = _
  rw [loaded, Except.ok_bind, ← Ticket.referents_eq fits, Except.pure_eq, List.filterMap_map]
  rfl

theorem isFieldUnlogged_eq (placed : h.memory.Placed x) (hi : i < h.memory.length x) :
    h.memory.isFieldUnlogged x i = .ok (!(h.view x).isMarked i) := by
  refine (placed.isFieldUnlogged_eq hi).trans ?_
  rw [ObjectView.isMarked, List.getD_eq_getElem?_getD, List.getElem?_eq_getElem]
  rfl

/-- Nothing is logged of an object that is fresh or logged. -/
theorem logField_refused (placed : h.memory.Placed x)
    (refused : (h.view x).header.logRequired = false) (m : Mutator) (f : Field) (c : Covered) :
    m.logField x f c h = .ok m h := by
  rw [logField, HeapM.bind_of_ok (lock_refused placed refused)]
  rfl

/-- Logging a field once the lock is taken, up to the point at which it is given back. -/
theorem logField_locked (m : Mutator) {k : Ticket} {f : Field} {h₁ : Heap}
    (index : f.index = k.first) (run₁ : lock k.object h = .ok true h₁)
    (placed₁ : h₁.memory.Placed k.object) (seated : k.Seated h₁)
    (unmarked : (h₁.view k.object).isMarked k.first = false) :
    ∃ m' h', m.logField k.object f k.covered h =
        (do finishLogging k.object; return m' : HeapM Mutator) h' ∧
      m.Leaves h₁ { fields := [k], decrements := k.referents h₁ }
        (h₁.memory.putMark k.object k.first 1) m' h' := by
  have unlogged : h₁.memory.isFieldUnlogged k.object k.first = .ok true := by
    rw [isFieldUnlogged_eq placed₁ seated.first_lt, unmarked]
    rfl
  have referents := covered_referents placed₁ seated
  obtain ⟨m₂, q₂, run₂, adds₂⟩ := m.pushDecrements_eq (k.referents h₁) h₁
  have run₃ := markField_of_placed (h := h₁.putPool .decrements q₂) (i := k.first) placed₁
    seated.first_lt
  obtain ⟨m₄, q₄, run₄, adds₄⟩ := m₂.pushField_eq k
    { h₁.putPool .decrements q₂ with memory := h₁.memory.putMark k.object k.first 1 }
  obtain ⟨h₅, eq₅⟩ : ∃ h₅, h₅ = { Heap.putPool { h₁.putPool .decrements q₂ with
      memory := h₁.memory.putMark k.object k.first 1 } .fields q₄ with
    stats := (h₁.stats.count .logged 1).count .wordsLogged (k.referents h₁).length
    log := (if m₄.barrier.verbose then .fieldLoggedVerbose f k.object k.covered k.mark
      else .fieldLogged f k.object k.mark) :: h₁.log } := ⟨_, rfl⟩
  refine ⟨m₄, h₅, ?_, ?_, by rw [eq₅]; rfl⟩
  · rw [logField, HeapM.bind_of_ok run₁]
    simp only [if_true, index]
    rw [HeapM.bind_of_ok (HeapM.inspect_of_ok (f := (·.isFieldUnlogged k.object k.first)) unlogged)]
    simp only [if_true]
    rw [HeapM.bind_of_ok (HeapM.inspect_of_ok (f := k.covered.referents) referents),
      HeapM.bind_of_ok run₂, HeapM.bind_of_ok run₃]
    have mark : (h₁.putPool .decrements q₂).memory.markAddr k.object k.first = k.mark :=
      seated.mark.symm
    rw [mark]
    refine (HeapM.bind_of_ok run₄).trans ?_
    rw [eq₅]
    rfl
  · have later : m₂.Adds (h₁.putPool .decrements q₂) { fields := [k] } m₄ h₅ :=
      adds₄.congr rfl (by rw [eq₅])
    have both : ({ decrements := k.referents h₁ } ++ { fields := [k] } : Entries) =
        { fields := [k], decrements := k.referents h₁ } :=
      congrArg (Entries.mk [] [k]) (List.append_nil _)
    exact both ▸ adds₂.trans later

/-- Logging a field of an object that no other thread is logging sets its mark. The header is
written, but as it was. -/
theorem logField_leaves (m : Mutator) {k : Ticket} {f : Field} (index : f.index = k.first)
    (placed : h.memory.Placed k.object) (seated : k.Seated h)
    (required : (h.view k.object).header.logRequired = true)
    (unlocked : (h.view k.object).header.locked = false)
    (unmarked : (h.view k.object).isMarked k.first = false) :
    ∃ m' h', m.logField k.object f k.covered h = .ok m' h' ∧
      m.Leaves h { fields := [k], decrements := k.referents h }
        ((h.memory.putHeader k.object (h.view k.object).header).putMark k.object k.first 1)
        m' h' := by
  obtain ⟨h₁, eq₁⟩ : ∃ h₁, h₁ =
    h.putHeader k.object { (h.view k.object).header with locked := true } := ⟨_, rfl⟩
  have run₁ : lock k.object h = .ok true h₁ := eq₁ ▸ lock_taken placed required unlocked
  have placed₁ : h₁.memory.Placed k.object := eq₁ ▸ placed.putHeader _
  have view₁ : h₁.view k.object =
      { h.view k.object with header := { (h.view k.object).header with locked := true } } :=
    eq₁ ▸ Memory.view_putHeader_self ..
  have length₁ : h₁.memory.length k.object = h.memory.length k.object :=
    eq₁ ▸ Memory.length_putHeader ..
  have referents : k.referents h₁ = k.referents h := by
    rw [Ticket.referents, Ticket.targets, view₁]
    rfl
  obtain ⟨m', h₅, run₅, left⟩ := m.logField_locked index run₁ placed₁ (seated.congr length₁)
    (view₁ ▸ unmarked)
  have header₅ : (h₅.view k.object).header =
      { (h.view k.object).header with locked := true } := by
    rw [Heap.view, left.memory_eq, Memory.view_putMark_self]
    exact congrArg ObjectView.header view₁
  have run₆ := finishLogging_of_placed (left.memory_eq ▸ placed₁.putMark k.first 1)
    (congrArg Header.locked header₅)
  have memory₆ : (h₅.memory.putHeader k.object { (h₅.view k.object).header with locked := false }) =
      (h.memory.putHeader k.object (h.view k.object).header).putMark k.object k.first 1 := by
    rw [left.memory_eq, header₅, Memory.putMark_putHeader, eq₁]
    show ((h.memory.putHeader _ _).putHeader _ { (h.view k.object).header with locked := false }
      ).putMark _ _ _ = _
    rw [Memory.putHeader_putHeader, unlock_eq unlocked]
  rw [referents] at left
  refine ⟨m', _, run₅.trans (HeapM.bind_of_ok run₆), left.adds.congr (by rw [eq₁]; rfl) rfl, ?_⟩
  rw [← memory₆, left.rest, eq₁]
  rfl

end Mutator

end DeferredCount
