import DeferredCount.Mutator.Writer
import DeferredCount.Proofs.Barriers

/-!
# The atomic actions of a writer

What one action of a writer does to a placed object: which activity follows, what it pushes, and
what it writes to the memory. Nothing else that another writer can see changes.

Results: one lemma for each activity, from `Does.choosing_object` to `Does.storing`.
-/

namespace DeferredCount

namespace HeapM

variable {h : Heap} {o : Ref} {seen : Header}

theorem exchangeHeader_same (placed : h.memory.Placed o) (same : (h.view o).header = seen)
    (new : Header) : exchangeHeader o seen new h = .ok true (h.putHeader o new) := by
  rw [exchangeHeader, bind_of_ok (inspect_of_ok placed.header_eq),
    if_pos (show (h.memory.view o).header = seen from same),
    bind_of_ok (change_of_ok (placed.store_header new))]
  rfl

theorem exchangeHeader_other (placed : h.memory.Placed o) (other : (h.view o).header ≠ seen)
    (new : Header) : exchangeHeader o seen new h = .ok false h := by
  rw [exchangeHeader, bind_of_ok (inspect_of_ok placed.header_eq),
    if_neg (show (h.memory.view o).header ≠ seen from other)]
  rfl

end HeapM

namespace Writer

/-- The action `a` of a store succeeds. It pushes the entries `d`, leaves the memory `memory`, and
`a'` follows it. -/
def Does (m : Mutator) (w : Write) (a : Activity) (h : Heap) (d : Entries) (memory : Memory)
    (a' : Activity) : Prop :=
  ∃ m' h', act m w a h = .ok (m', a') h' ∧ m.Adds h d m' h' ∧ h'.memory = memory

/-- How finely a store is logged depends on the settings and on the length of the object. -/
def grain (m : Mutator) (n : Nat) : Field → Granularity
  | .element _ =>
    if m.barrier.arrayFields && decide (m.barrier.arrayThreshold ≤ n) then .arrayField
    else .object
  | .scalar _ => if m.barrier.scalarFields then .scalarField else .object

variable {m : Mutator} {w : Write} {h : Heap} {a a' : Activity} {l : Logged} {f : Field}
  {c : Covered} {seen : Header} {i found : Nat} {rest : List Address}

theorem granularity_eq_grain (m : Mutator) (placed : h.memory.Placed w.src) (f : Field) :
    m.granularity w.src f h = .ok (grain m (h.memory.length w.src) f) h := by
  cases f with
  | scalar i => rfl
  | element i =>
    rw [Mutator.granularity, HeapM.bind_of_ok (m.inFieldMode_of_placed placed)]
    rfl

theorem grain_congr {m' : Mutator} (barrier : m.barrier = m'.barrier) (n : Nat) (f : Field) :
    grain m n f = grain m' n f := by
  cases f <;> simp only [grain, barrier]

namespace Does

/-- An action that pushes nothing. -/
theorem quiet (h' : Heap) (run : act m w a h = .ok (m, a') h') (pools : h'.pools = h.pools) :
    Does m w a h {} h'.memory a' :=
  ⟨m, h', run, .of_pools m pools, rfl⟩

/-! ### Before the lock -/

theorem choosing_object (placed : h.memory.Placed w.src)
    (object : grain m (h.memory.length w.src) w.field = .object) :
    Does m w .choosing h {} h.memory .checkingHeader := by
  have chosen : choose m w h = .ok .checkingHeader h := by
    rw [choose, HeapM.bind_of_ok (granularity_eq_grain m placed w.field), object]
    rfl
  refine .quiet h ?_ rfl
  rw [act, HeapM.bind_of_ok chosen]
  rfl

theorem choosing_scalar (placed : h.memory.Placed w.src)
    (scalar : grain m (h.memory.length w.src) w.field = .scalarField) :
    Does m w .choosing h {} h.memory (.checkingMark w.field (.field w.slot)) := by
  have chosen : choose m w h = .ok (.checkingMark w.field (.field w.slot))
      { h with stats := h.stats.count .scalarChecks 1 } := by
    rw [choose, HeapM.bind_of_ok (granularity_eq_grain m placed w.field), scalar]
    rfl
  refine .quiet { h with stats := h.stats.count .scalarChecks 1 } ?_ rfl
  rw [act, HeapM.bind_of_ok chosen]
  rfl

theorem checkingHeader (m : Mutator) (placed : h.memory.Placed w.src) :
    Does m w .checkingHeader h {} h.memory
      (if (h.view w.src).header.logRequired then .locking .object else .storing) := by
  refine .quiet h ?_ rfl
  rw [act, HeapM.bind_of_ok (HeapM.inspect_of_ok placed.header_eq)]
  rfl

theorem checkingMark (m : Mutator) (placed : h.memory.Placed w.src) (c : Covered)
    (hi : f.index < h.memory.length w.src) :
    Does m w (.checkingMark f c) h {} h.memory
      (if (h.view w.src).isMarked f.index then .storing else .locking (.covered f c)) := by
  have looked : HeapM.inspect (·.isFieldUnlogged w.src f.index) h =
      .ok (!(h.view w.src).isMarked f.index) h :=
    HeapM.inspect_of_ok (Mutator.isFieldUnlogged_eq placed hi)
  refine .quiet h ?_ rfl
  rw [act, HeapM.bind_of_ok looked]
  cases (h.view w.src).isMarked f.index <;> rfl

theorem locking (m : Mutator) (placed : h.memory.Placed w.src) (l : Logged) :
    Does m w (.locking l) h {} h.memory
      (if (h.view w.src).header.logRequired then
        if (h.view w.src).header.locked then .locking l else .exchanging l (h.view w.src).header
      else .storing) := by
  refine .quiet h ?_ rfl
  rw [act, HeapM.bind_of_ok (HeapM.inspect_of_ok placed.header_eq)]
  change (if !(h.view w.src).header.logRequired then pure (m, .storing) else
    pure (m, if (h.view w.src).header.locked then .locking l
      else .exchanging l (h.view w.src).header) : HeapM (Mutator × Activity)) h = _
  cases (h.view w.src).header.logRequired with
  | false => rfl
  | true => rfl

theorem exchanging_same (m : Mutator) (placed : h.memory.Placed w.src) (l : Logged)
    (same : (h.view w.src).header = seen) :
    Does m w (.exchanging l seen) h {} (h.memory.putHeader w.src { seen with locked := true })
      (underLock l) := by
  refine .quiet (h.putHeader w.src { seen with locked := true }) ?_ rfl
  rw [act, HeapM.bind_of_ok (HeapM.exchangeHeader_same placed same _)]
  rfl

theorem exchanging_other (m : Mutator) (placed : h.memory.Placed w.src) (l : Logged)
    (other : (h.view w.src).header ≠ seen) :
    Does m w (.exchanging l seen) h {} h.memory (.locking l) := by
  refine .quiet h ?_ rfl
  rw [act, HeapM.bind_of_ok (HeapM.exchangeHeader_other placed other _)]
  rfl

/-! ### Under the lock -/

theorem checkingAgain (m : Mutator) (placed : h.memory.Placed w.src) (slot : Address)
    (hi : f.index < h.memory.length w.src) :
    Does m w (.checkingAgain f (.field slot)) h {} h.memory
      (if (h.view w.src).isMarked f.index then .unlocking
        else .loading (.covered f (.field slot)) [slot] 0) := by
  have looked : HeapM.inspect (·.isFieldUnlogged w.src f.index) h =
      .ok (!(h.view w.src).isMarked f.index) h :=
    HeapM.inspect_of_ok (Mutator.isFieldUnlogged_eq placed hi)
  refine .quiet h ?_ rfl
  rw [act, HeapM.bind_of_ok looked]
  cases (h.view w.src).isMarked f.index <;> rfl

theorem pushingObject (m : Mutator) (placed : h.memory.Placed w.src) :
    Does m w .pushingObject h { objects := [w.src] } h.memory
      (.loading .object ((List.range (h.memory.length w.src)).map w.src.slotAddr) 0) := by
  obtain ⟨m', q, run, adds⟩ := m.pushObject_eq w.src h
  have slots : (Covered.quantum w.src 0 (h.memory.length w.src)).slots =
      .ok ((List.range (h.memory.length w.src)).map w.src.slotAddr) := by
    rw [Covered.slots_quantum placed (by omega)]
    simp
  have found : slotsOf w.src .object (h.putPool .objects q) =
      .ok ((List.range (h.memory.length w.src)).map w.src.slotAddr) (h.putPool .objects q) := by
    have count : HeapM.inspect (·.slotCount w.src) (h.putPool .objects q) =
        .ok (h.memory.length w.src) (h.putPool .objects q) :=
      HeapM.inspect_of_ok placed.slotCount_eq
    rw [slotsOf, HeapM.bind_of_ok count, slots]
    rfl
  refine ⟨m', h.putPool .objects q, ?_, adds, rfl⟩
  rw [act, HeapM.bind_of_ok run, HeapM.bind_of_ok found]
  rfl

theorem loading_nil (m : Mutator) (w : Write) (h : Heap) (l : Logged) (found : Nat) :
    Does m w (.loading l [] found) h {} h.memory (afterReferents found l) :=
  .quiet h rfl rfl

theorem loading_cons (m : Mutator) (placed : h.memory.Placed w.src)
    (hi : i < h.memory.length w.src) (l : Logged) (rest : List Address) (found : Nat) :
    Does m w (.loading l (w.src.slotAddr i :: rest) found) h {} h.memory
      (match (h.view w.src).target i with
        | none => .loading l rest found
        | some old => .pushingOld l old rest found) := by
  refine .quiet h ?_ rfl
  rw [act, HeapM.bind_of_ok (HeapM.inspect_of_ok (placed.loadRef_target hi))]
  change (match (h.view w.src).target i with | none => _ | some old => _ : HeapM _) h = _
  cases (h.view w.src).target i <;> rfl

theorem pushingOld (m : Mutator) (w : Write) (h : Heap) (l : Logged) (old : Ref)
    (rest : List Address) (found : Nat) :
    Does m w (.pushingOld l old rest found) h { decrements := [old] } h.memory
      (.loading l rest (found + 1)) := by
  obtain ⟨m', q, run, adds⟩ := m.pushDecrements_eq [old] h
  refine ⟨m', h.putPool .decrements q, ?_, adds, rfl⟩
  rw [act, HeapM.bind_of_ok run]
  rfl

theorem storingMark (m : Mutator) (placed : h.memory.Placed w.src)
    (hi : f.index < h.memory.length w.src) (c : Covered) (found : Nat) :
    Does m w (.storingMark f c found) h {} (h.memory.putMark w.src f.index 1)
      (.pushingField f c (h.memory.markAddr w.src f.index) found) := by
  have marked : Mutator.markField w.src f.index h = .ok (h.memory.markAddr w.src f.index)
      { h with memory := h.memory.putMark w.src f.index 1 } := by
    rw [Mutator.markField, HeapM.bind_of_ok (HeapM.inspect_of_ok (placed.markOf_eq hi)),
      HeapM.bind_of_ok (HeapM.change_of_ok (placed.store_mark hi 1))]
    rfl
  refine .quiet { h with memory := h.memory.putMark w.src f.index 1 } ?_ rfl
  rw [act, HeapM.bind_of_ok marked]
  rfl

theorem pushingField (m : Mutator) (w : Write) (h : Heap) (f : Field) (k : Ticket) (found : Nat) :
    Does m w (.pushingField f k.covered k.mark found) h { fields := [k] } h.memory .unlocking := by
  obtain ⟨m', q, run, adds⟩ := m.pushField_eq k h
  have pushed : act m w (.pushingField f k.covered k.mark found) h = .ok (m', .unlocking)
      { h.putPool .fields q with
        stats := (h.stats.count .logged 1).count .wordsLogged found
        log := fieldEvent m' w.src f k.covered k.mark :: h.log } := by
    rw [act, HeapM.bind_of_ok run]
    rfl
  exact ⟨m', _, pushed, adds.congr rfl rfl, rfl⟩

theorem completing (m : Mutator) (placed : h.memory.Placed w.src) (found : Nat) :
    Does m w (.completing found) h {} h.memory (.completed found (h.view w.src).header) := by
  refine .quiet h ?_ rfl
  rw [act, HeapM.bind_of_ok (HeapM.inspect_of_ok placed.header_eq)]
  rfl

theorem completed (m : Mutator) (placed : h.memory.Placed w.src) (found : Nat)
    (same : (h.view w.src).header = seen) (locked : seen.locked = true) :
    Does m w (.completed found seen) h {}
      (h.memory.putHeader w.src { seen with logged := true, locked := false }) .storing := by
  have exchanged := HeapM.exchangeHeader_same placed same
    { seen with logged := true, locked := false }
  have run : act m w (.completed found seen) h = .ok (m, .storing)
      { h.putHeader w.src { seen with logged := true, locked := false } with
        stats := (h.stats.count .logged 1).count .wordsLogged found
        log := .objectLogged w.src found :: h.log } := by
    rw [act, HeapM.bind_of_ok exchanged, locked]
    rfl
  exact .quiet _ run rfl

theorem unlocking (m : Mutator) (placed : h.memory.Placed w.src) :
    Does m w .unlocking h {} h.memory (.unlocked (h.view w.src).header) := by
  refine .quiet h ?_ rfl
  rw [act, HeapM.bind_of_ok (HeapM.inspect_of_ok placed.header_eq)]
  rfl

theorem unlocked (m : Mutator) (placed : h.memory.Placed w.src)
    (same : (h.view w.src).header = seen) (locked : seen.locked = true) :
    Does m w (.unlocked seen) h {} (h.memory.putHeader w.src { seen with locked := false })
      .storing := by
  refine .quiet (h.putHeader w.src { seen with locked := false }) ?_ rfl
  rw [act, HeapM.bind_of_ok (HeapM.exchangeHeader_same placed same _), locked]
  rfl

/-! ### The store -/

theorem storing (m : Mutator) (placed : h.memory.Placed w.src) (slot : w.slot = w.src.slotAddr i)
    (hi : i < h.memory.length w.src) :
    Does m w .storing h {} (h.memory.putTarget w.src i w.target) .choosing := by
  refine .quiet { h with memory := h.memory.putTarget w.src i w.target } ?_ rfl
  rw [act, slot, HeapM.bind_of_ok (HeapM.change_of_ok (placed.storeRef_slot hi w.target))]
  rfl

end Does

end Writer

end DeferredCount
