import DeferredCount.Proofs.Logging
import DeferredCount.Session.Storing

/-!
# Stores through the write barrier

Whatever the barrier of a store logs, the slot is open afterwards: a store to it keeps the books.
This holds for every granularity, since the entry that logs a field covers all fields that share
its mark.

Results:
1. `Mutator.barrierFor_eq`: after the barrier of a store its slot is open.
2. `Mutator.write_eq`, `Mutator.compareAndSwap_eq`: what stores through the barrier do.
3. `Mutator.bulkCopy_eq`: what a copy of adjacent references does.
-/

namespace DeferredCount

/-! ## The entry of a field -/

theorem Covered.elementSlots_eq {m : Memory} {x : Ref} (placed : m.Placed x) (k i : Nat)
    (found : List Address) (fits : i + k ≤ m.length x) :
    elementSlots x k i found =
      .ok (((List.range k).map fun j => x.slotAddr (i + j)).reverse ++ found) := by
  induction k generalizing i found with
  | zero => simp [elementSlots]
  | succ k ih =>
    have bound : x.base + (2 + i) < Memory.wordCount := by
      have := placed.fits
      omega
    rw [elementSlots, placed.slot_eq (by omega), Except.ok_bind, Ref.slotAddr,
      placed.index_eq bound, Except.ok_bind, ih (i + 1) _ (by omega), List.range_succ_eq_map]
    simp [List.map_map, Function.comp_def, Ref.slotAddr, Nat.add_assoc, Nat.add_comm 1]

/-- The slots of adjacent elements of an array. -/
theorem Covered.slots_quantum {m : Memory} {x : Ref} (placed : m.Placed x) {i k : Nat}
    (fits : i + k ≤ m.length x) : (Covered.quantum x i k).slots =
      .ok ((List.range k).map fun j => x.slotAddr (i + j)) := by
  rw [slots, placed.add_eq fits, Except.ok_bind, elementSlots_eq placed _ _ _ fits, Except.ok_bind,
    List.append_nil, List.reverse_reverse]
  rfl

namespace Settings

/-- The first of the fields that share the mark of field `i`. -/
def firstOf (s : Settings) (v : ObjectView) (i : Nat) : Nat := i - i % s.span v

/-- The entry that logs field `i` of an object. -/
def ticket (s : Settings) (v : ObjectView) (x : Ref) (i : Nat) : Ticket where
  covered :=
    if s.span v = 1 then .field (x.slotAddr i)
    else .quantum x (s.firstOf v i) (min (s.span v) (v.targets.length - s.firstOf v i))
  mark := x.addr + (2 + v.targets.length + s.firstOf v i) * bytesPerWord
  object := x
  first := s.firstOf v i
  length := min (s.span v) (v.targets.length - s.firstOf v i)

variable {s : Settings} {v : ObjectView} {m : Memory} {x : Ref} {i : Nat}

theorem firstOf_le : s.firstOf v i ≤ i := Nat.sub_le ..

/-- The entry of a field covers what its mark stands for. -/
theorem ticket_regular (placed : m.Placed x) (hi : i < (m.view x).targets.length)
    (byField : s.byField (m.view x) = true) :
    (s.ticket (m.view x) x i).Regular s (m.view x) where
  byField := byField
  first_lt := Nat.lt_of_le_of_lt firstOf_le hi
  aligned := Nat.dvd_sub_mod i
  length := rfl
  mark := rfl
  slots := by
    have le : s.firstOf (m.view x) i ≤ i := firstOf_le
    have length : (m.view x).targets.length = m.length x := m.length_targets x
    simp only [ticket]
    split
    · next one =>
      have first : s.firstOf (m.view x) i = i := by rw [firstOf, one, Nat.mod_one, Nat.sub_zero]
      have single : min (s.span (m.view x)) ((m.view x).targets.length - i) = 1 := by omega
      rw [first, single]
      rfl
    · exact Covered.slots_quantum placed (by omega)

end Settings

/-- How a store names field `i` of an object: an element of an array, or a field of another
object. -/
def ObjectView.field (v : ObjectView) (i : Nat) : Field := if v.array then .element i else .scalar i

namespace Ledger

variable {h : Heap} {e d : Entries} {x : Ref} {i : Nat}

/-- A slot whose mark is set is open. -/
theorem open_of_marked (l : Ledger h e) (hx : x ∈ h.known) (hi : i < (h.view x).targets.length)
    (marked : (h.view x).isMarked (h.settings.firstOf (h.view x) i) = true) : h.Open e x i := by
  obtain ⟨k, hk, eq, first⟩ := ((l.agrees x hx).marks _).1 marked
  have regular := ((l.agrees x hx).fields k hk eq).1
  exact .inr (.inr ⟨k, hk, eq, (regular.covers_iff hi).2 first⟩)

/-- A slot whose entry is there is open. -/
theorem open_of_ticket {h' : Heap} (l : Ledger h' d) (hx : x ∈ h'.known)
    (hi : i < (h'.view x).targets.length) {k : Ticket} (object : k.object = x)
    (first : k.first = h'.settings.firstOf (h'.view x) i)
    (logged : (h'.view x).header.fresh = true ∨ (h'.view x).header.logged = true ∨
      k ∈ d.fields) : h'.Open d x i := by
  refine logged.imp_right fun logged => logged.imp_right fun hk => ⟨k, hk, object, ?_⟩
  exact (((l.agrees x hx).fields k hk object).1.covers_iff hi).2 first

end Ledger

/-! ## The barrier of a store -/

/-- Counting a check logs nothing. -/
theorem Booked.checked {h : Heap} {e : Entries} (m : Mutator) (l : Ledger h e)
    (c : BarrierStats.Counter) (n : Nat) :
    Booked h e m {} m { h with stats := h.stats.count c n } :=
  .none l rfl rfl rfl

namespace Mutator

variable {m : Mutator} {h : Heap} {e : Entries} {x : Ref} {i : Nat}

/-- Is a store to an array of `n` elements logged by element? -/
def byElement (m : Mutator) (n : Nat) : Bool :=
  m.barrier.arrayFields && decide (m.barrier.arrayThreshold ≤ n)

theorem inFieldMode_of_placed (m : Mutator) (placed : h.memory.Placed x) :
    m.inFieldMode x h = .ok (m.byElement (h.memory.length x)) h := by
  rw [inFieldMode, byElement]
  by_cases fields : m.barrier.arrayFields = true
  · rw [if_pos fields, HeapM.bind_of_ok (HeapM.inspect_of_ok placed.slotCount_eq), fields,
      Bool.true_and]
    rfl
  · rw [if_neg fields, Bool.eq_false_iff.2 fields]
    rfl

/-- The settings of the heap say how an array is logged. -/
theorem byElement_eq (settings : m.barrier = .ofSettings h.settings)
    (array : (h.view x).array = true) :
    m.byElement (h.memory.length x) = h.settings.byField (h.view x) := by
  rw [byElement, settings, Settings.byField, array, ← Memory.length_targets]
  rfl

theorem granularity_eq (settings : m.barrier = .ofSettings h.settings)
    (placed : h.memory.Placed x) (i : Nat) :
    m.granularity x ((h.view x).field i) h =
      .ok (if h.settings.byField (h.view x) then
        (if (h.view x).array then .arrayField else .scalarField) else .object) h := by
  rw [ObjectView.field]
  cases array : (h.view x).array with
  | false =>
    rw [Settings.byField, array]
    simp only [Bool.false_eq_true, if_false, granularity, settings, BarrierSettings.ofSettings]
    rfl
  | true =>
    rw [← byElement_eq settings array]
    simp only [if_true, granularity]
    rw [HeapM.bind_of_ok (m.inFieldMode_of_placed placed)]
    rfl

theorem quantumOf_eq (settings : m.barrier = .ofSettings h.settings) (hx : h.memory.Placed x)
    (array : (h.view x).array = true) (hi : i < (h.view x).targets.length) :
    m.quantumOf x i (h.settings.firstOf (h.view x) i) h =
      .ok (h.settings.ticket (h.view x) x i).covered h := by
  have length : (h.view x).targets.length = h.memory.length x := Memory.length_targets ..
  have span : h.settings.span (h.view x) = 1 <<< h.settings.logArrayQuantum := by
    rw [Settings.span, array, if_pos rfl]
  have one : h.settings.logArrayQuantum = 0 ↔ h.settings.span (h.view x) = 1 := by
    rw [span, Nat.one_shiftLeft]
    constructor
    · intro e
      rw [e, pow_zero]
    · intro e
      exact (Nat.pow_eq_one.1 e).resolve_left (by decide)
  have le : h.settings.firstOf (h.view x) i ≤ h.memory.length x :=
    (Settings.firstOf_le.trans (Nat.le_of_lt hi)).trans_eq length
  simp only [quantumOf, settings, BarrierSettings.ofSettings, Settings.ticket, one]
  split
  · rw [hx.slot_eq (length ▸ hi)]
    rfl
  · rw [HeapM.bind_of_ok (HeapM.inspect_of_ok hx.slotCount_eq), (Word.sub_eq_ok.2 ⟨le, rfl⟩),
      BarrierSettings.arrayQuantum, ← span, length]
    rfl

/-- The barrier of a field whose entry is found by `q`. -/
theorem fieldBarrier_eq (m : Mutator) (l : Ledger h e) (hx : x ∈ h.known)
    (hi : i < (h.view x).targets.length) (byField : h.settings.byField (h.view x) = true)
    {f : Field} (index : f.index = h.settings.firstOf (h.view x) i) {q : HeapM Covered}
    (covered : q h = .ok (h.settings.ticket (h.view x) x i).covered h) :
    ∃ d m' h', (do
        if ← HeapM.inspect (·.isFieldUnlogged x f.index) then
          let c ← q
          m.logField x f c
        else return m : HeapM Mutator) h = .ok m' h' ∧
      Booked h e m d m' h' ∧ h'.Open (e ++ d) x i := by
  have placed := l.wellFormed.placed hx
  have length : (h.view x).targets.length = h.memory.length x := Memory.length_targets ..
  have first_lt : h.settings.firstOf (h.view x) i < h.memory.length x :=
    Nat.lt_of_le_of_lt Settings.firstOf_le (length ▸ hi)
  have inspected : HeapM.inspect (·.isFieldUnlogged x f.index) h =
      .ok (!(h.view x).isMarked (h.settings.firstOf (h.view x) i)) h := by
    rw [index]
    exact HeapM.inspect_of_ok (isFieldUnlogged_eq placed first_lt)
  rw [HeapM.bind_of_ok inspected]
  cases marked : (h.view x).isMarked (h.settings.firstOf (h.view x) i) with
  | true =>
    refine ⟨{}, m, h, rfl, .none l rfl rfl rfl, ?_⟩
    rw [Entries.append_none]
    exact l.open_of_marked hx hi marked
  | false =>
    have regular := Settings.ticket_regular placed hi byField
    obtain ⟨d, m', h', run, logged, found⟩ :=
      m.logField_eq l (k := h.settings.ticket (h.view x) x i)
      hx index regular marked
    refine ⟨d, m', h', ?_, logged, ?_⟩
    · simp only [Bool.not_false, if_true]
      rw [HeapM.bind_of_ok covered]
      exact run
    · have later := logged.later x hx
      refine logged.ledger.open_of_ticket (logged.known_eq ▸ hx) (later.length ▸ hi) rfl ?_
        (found.imp_right fun found => found.imp_right (List.mem_append_right _))
      have span : h'.settings.span (h'.view x) = h.settings.span (h.view x) := by
        rw [logged.settings_eq, Settings.span, later.array, Settings.span]
      rw [Settings.firstOf, span]
      rfl

theorem elementBarrier_eq (settings : m.barrier = .ofSettings h.settings) (l : Ledger h e)
    (hx : x ∈ h.known) (array : (h.view x).array = true)
    (byField : h.settings.byField (h.view x) = true) (hi : i < (h.view x).targets.length) :
    ∃ d m' h', m.elementBarrier x i h = .ok m' h' ∧ Booked h e m d m' h' ∧
      h'.Open (e ++ d) x i := by
  have counted := Booked.checked m l .elementChecks 1
  have first : h.settings.firstOf (h.view x) i = i - i % m.barrier.arrayQuantum := by
    rw [Settings.firstOf, Settings.span, array, settings]
    rfl
  obtain ⟨d, m', h', run, logged, opened⟩ := m.fieldBarrier_eq counted.ledger hx hi byField
    (f := .element (h.settings.firstOf (h.view x) i)) rfl
    (quantumOf_eq settings (l.wellFormed.placed hx) array hi)
  refine ⟨{} ++ d, m', h', ?_, counted.trans logged, ?_⟩
  · rw [elementBarrier, ← first]
    exact run
  · rw [← Entries.append_assoc]
    exact opened

theorem scalarBarrier_eq (m : Mutator) (l : Ledger h e)
    (hx : x ∈ h.known) (scalar : (h.view x).array = false)
    (byField : h.settings.byField (h.view x) = true) (hi : i < (h.view x).targets.length) :
    ∃ d m' h', m.scalarBarrier x (x.slotAddr i) (.scalar i) h = .ok m' h' ∧
      Booked h e m d m' h' ∧ h'.Open (e ++ d) x i := by
  have counted := Booked.checked m l .scalarChecks 1
  have span : h.settings.span (h.view x) = 1 := by
    rw [Settings.span, scalar]
    rfl
  have first : h.settings.firstOf (h.view x) i = i := by
    rw [Settings.firstOf, span, Nat.mod_one, Nat.sub_zero]
  have covered : (h.settings.ticket (h.view x) x i).covered = .field (x.slotAddr i) := by
    simp only [Settings.ticket, if_pos span]
  obtain ⟨d, m', h', run, logged, opened⟩ := m.fieldBarrier_eq counted.ledger hx hi byField
    (f := .scalar i) first.symm (q := pure (.field (x.slotAddr i)))
    (congrArg (EStateM.Result.ok · _) covered.symm)
  refine ⟨{} ++ d, m', h', run, counted.trans logged, ?_⟩
  rw [← Entries.append_assoc]
  exact opened

theorem objectBarrier_eq (m : Mutator) (l : Ledger h e) (hx : x ∈ h.known)
    (whole : h.settings.byField (h.view x) = false) :
    ∃ d m' h', m.objectBarrier x h = .ok m' h' ∧ Booked h e m d m' h' ∧
      ∀ i, h'.Open (e ++ d) x i := by
  have header : HeapM.inspect (·.header x) h = .ok (h.view x).header h :=
    HeapM.inspect_of_ok (l.wellFormed.placed hx).header_eq
  rw [objectBarrier, HeapM.bind_of_ok header]
  cases required : (h.view x).header.logRequired with
  | false =>
    exact ⟨{}, m, h, rfl, .none l rfl rfl rfl, fun _ =>
      (logged_or_fresh required).imp_right .inl⟩
  | true =>
    obtain ⟨d, m', h', run, logged, found⟩ := m.logObject_eq l hx whole
    exact ⟨d, m', h', run, logged, fun _ => found.imp_right .inl⟩

/-- After the barrier of a store its slot is open. -/
theorem barrierFor_eq (settings : m.barrier = .ofSettings h.settings) (l : Ledger h e)
    (hx : x ∈ h.known) (hi : i < (h.view x).targets.length) :
    ∃ d m' h', m.barrierFor x (x.slotAddr i) ((h.view x).field i) h = .ok m' h' ∧
      Booked h e m d m' h' ∧ h'.Open (e ++ d) x i := by
  rw [barrierFor, HeapM.bind_of_ok (granularity_eq settings (l.wellFormed.placed hx) i)]
  cases byField : h.settings.byField (h.view x) with
  | false =>
    obtain ⟨d, m', h', run, logged, opened⟩ := m.objectBarrier_eq l hx byField
    exact ⟨d, m', h', run, logged, opened i⟩
  | true =>
    cases array : (h.view x).array with
    | false =>
      obtain ⟨d, m', h', run, logged, opened⟩ := m.scalarBarrier_eq l hx array byField hi
      refine ⟨d, m', h', ?_, logged, opened⟩
      rw [ObjectView.field, array]
      exact run
    | true =>
      obtain ⟨d, m', h', run, logged, opened⟩ :=
        elementBarrier_eq settings l hx array byField hi
      refine ⟨d, m', h', ?_, logged, opened⟩
      rw [ObjectView.field, array]
      exact run

/-- The barriers of adjacent elements open their slots. -/
theorem elementBarriers_eq (k i : Nat) {m : Mutator} {h : Heap} {e : Entries}
    (settings : m.barrier = .ofSettings h.settings) (l : Ledger h e) (hx : x ∈ h.known)
    (array : (h.view x).array = true) (byField : h.settings.byField (h.view x) = true)
    (fits : i + k ≤ (h.view x).targets.length) :
    ∃ d m' h', elementBarriers x k i m h = .ok m' h' ∧ Booked h e m d m' h' ∧
      ∀ j, i ≤ j → j < i + k → h'.Open (e ++ d) x j := by
  induction k generalizing i m h e with
  | zero => exact ⟨{}, m, h, rfl, .none l rfl rfl rfl, fun j h₁ h₂ => absurd h₁ (by omega)⟩
  | succ k ih =>
    obtain ⟨d₁, m₁, h₁, run₁, booked₁, open₁⟩ :=
      elementBarrier_eq settings l hx array byField (i := i) (by omega)
    have later := booked₁.later x hx
    -- the first barrier leaves the array as it is, so the others apply to it as well
    have settings₁ : m₁.barrier = .ofSettings h₁.settings := by
      rw [booked₁.settings_eq, ← settings, booked₁.adds.same]
    obtain ⟨d₂, m', h', run, booked, opened⟩ := ih (i + 1) settings₁ booked₁.ledger
      (booked₁.known_eq ▸ hx) (later.array.trans array)
      (by rwa [booked₁.settings_eq, Settings.byField, later.array, later.length])
      (by rw [later.length]; omega)
    refine ⟨d₁ ++ d₂, m', h', ?_, booked₁.trans booked, fun j h₁ h₂ => ?_⟩
    · rw [elementBarriers, HeapM.bind_of_ok run₁]
      exact run
    · rw [← Entries.append_assoc]
      rcases Nat.eq_or_lt_of_le h₁ with rfl | lt
      · exact open₁.later (booked.later x (booked₁.known_eq ▸ hx)) d₂
      · exact opened j lt (by omega)

end Mutator

/-! ## Stores -/

/-- A store to an open slot. -/
theorem Ledger.storeRef_eq {h : Heap} {e : Entries} {x : Ref} {i : Nat} {t : Option Ref}
    (l : Ledger h e) (hx : x ∈ h.known) (hi : i < (h.view x).targets.length)
    (ht : ∀ o, t = some o → o ∈ h.known) (opened : h.Open e x i) :
    ∃ memory, h.memory.storeRef (x.slotAddr i) t = .ok memory ∧
      Edited x { h.view x with targets := (h.view x).targets.set i t } h { h with memory } ∧
      ∀ m : Mutator, Acted h e m {} m { h with memory } := by
  have length : (h.view x).targets.length = h.memory.length x := Memory.length_targets ..
  have word : Ref.ofWord? (Ref.toWord t) = t := by
    cases t with
    | none => rfl
    | some o =>
      refine Ref.ofWord?_addr fun zero => ?_
      have := (l.wellFormed.placed (ht o rfl)).start_le
      rw [zero] at this
      exact absurd this (by decide)
  have edit := Edited.of_putTarget l.wellFormed hx (length ▸ hi) word
  -- whatever the mutator, a store adds no entry: its barrier came before
  refine ⟨_, (l.wellFormed.placed hx).storeRef_slot (length ▸ hi) t, edit, fun m => {
    toElapsed := .of_known ?_ rfl rfl
      (edit.forall_view (P := fun y w => (h.view y).Later w) (fun _ _ _ => .refl _)
        ⟨rfl, by simp, rfl, rfl, id⟩) (fun y hy j closed => ?_) fun _ => rfl
    adds := .of_pools m rfl
    rest := rfl }⟩
  · rw [Entries.append_none]
    exact l.store hx hi ht opened edit
  · by_cases eq : y = x
    · subst eq
      have ne : i ≠ j := fun eq => closed (eq ▸ opened.later (by
        rw [edit.self]
        exact ⟨rfl, by simp, rfl, rfl, id⟩) {})
      rw [edit.self, ObjectView.target, ObjectView.target, List.getD_eq_getElem?_getD,
        List.getD_eq_getElem?_getD, List.getElem?_set_ne ne]
    · rw [edit.other y hy eq]

namespace Mutator

variable {m : Mutator} {h : Heap} {e : Entries} {x : Ref} {i : Nat} {t : Option Ref}

/-- A store through the barrier. -/
theorem write_eq (settings : m.barrier = .ofSettings h.settings) (l : Ledger h e)
    (hx : x ∈ h.known) (hi : i < (h.view x).targets.length)
    (ht : ∀ o, t = some o → o ∈ h.known) :
    ∃ d m' h', m.write x (x.slotAddr i) t ((h.view x).field i) h = .ok m' h' ∧
      Acted h e m d m' h' ∧ h'.Open (e ++ d) x i ∧
      (h'.view x).targets = (h.view x).targets.set i t ∧
      ∀ y ∈ h.known, y ≠ x → (h'.view y).targets = (h.view y).targets := by
  obtain ⟨d, m₁, h₁, run₁, booked, opened⟩ := barrierFor_eq settings l hx hi
  have known := booked.known_eq
  obtain ⟨memory, stored, edit, acted⟩ := booked.ledger.storeRef_eq (t := t) (known ▸ hx)
    ((booked.later x hx).length ▸ hi) (fun o eq => known ▸ ht o eq) opened
  refine ⟨d ++ {}, m₁, _, ?_, booked.toActed.trans (acted m₁), ?_, ?_, fun y hy ne => ?_⟩
  · rw [write, HeapM.bind_of_ok run₁, HeapM.bind_of_ok (HeapM.change_of_ok stored)]
    rfl
  · rw [← Entries.append_assoc]
    exact opened.later ((acted m₁).later x (known ▸ hx)) {}
  · rw [edit.self, booked.targets x hx]
  · rw [edit.other y (known ▸ hy) ne, booked.targets y hy]

/-- An exchange through the barrier. It compares words, so null is expected of a null slot. -/
theorem compareAndSwap_eq (settings : m.barrier = .ofSettings h.settings) (l : Ledger h e)
    (hx : x ∈ h.known) (hi : i < (h.view x).targets.length) (old : Option Ref)
    (ht : ∀ o, t = some o → o ∈ h.known) :
    ∃ d m' h', m.compareAndSwap x (x.slotAddr i) old t ((h.view x).field i) h =
        .ok (decide (Ref.toWord ((h.view x).target i) = Ref.toWord old), m') h' ∧
      Acted h e m d m' h' ∧ h'.Open (e ++ d) x i ∧ (h'.view x).targets =
        (if Ref.toWord ((h.view x).target i) = Ref.toWord old then (h.view x).targets.set i t
          else (h.view x).targets) ∧
      ∀ y ∈ h.known, y ≠ x → (h'.view y).targets = (h.view y).targets := by
  obtain ⟨d, m₁, h₁, run₁, booked, opened⟩ := barrierFor_eq settings l hx hi
  have known := booked.known_eq
  have hi₁ : i < (h₁.view x).targets.length := (booked.later x hx).length ▸ hi
  -- the barrier wrote no slot, so the exchange finds what was there before
  have loaded : HeapM.inspect (·.load (x.slotAddr i)) h₁ =
      .ok (Ref.toWord ((h.view x).target i)) h₁ := by
    have placed := booked.ledger.wellFormed.placed (known ▸ hx)
    have length : (h₁.view x).targets.length = h₁.memory.length x := Memory.length_targets ..
    have found := placed.loadRef_target (i := i) (length ▸ hi₁)
    rw [show (h₁.memory.view x).target i = (h.view x).target i by
      rw [ObjectView.target, ObjectView.target, ← booked.targets x hx, Heap.view]] at found
    rw [Memory.loadRef, Except.bind_eq_ok] at found
    obtain ⟨w, hw, eq⟩ := found
    rw [← Except.ok.inj eq, Ref.toWord_ofWord?]
    exact HeapM.inspect_of_ok hw
  rw [compareAndSwap, HeapM.bind_of_ok run₁, HeapM.bind_of_ok loaded]
  by_cases same : Ref.toWord ((h.view x).target i) = Ref.toWord old
  · obtain ⟨memory, stored, edit, acted⟩ := booked.ledger.storeRef_eq (t := t) (known ▸ hx) hi₁
      (fun o eq => known ▸ ht o eq) opened
    refine ⟨d ++ {}, m₁, _, ?_, booked.toActed.trans (acted m₁), ?_, ?_, fun y hy ne => ?_⟩
    · rw [if_pos same, HeapM.bind_of_ok (HeapM.change_of_ok stored), decide_eq_true same]
      rfl
    · rw [← Entries.append_assoc]
      exact opened.later ((acted m₁).later x (known ▸ hx)) {}
    · rw [if_pos same, edit.self, booked.targets x hx]
    · rw [edit.other y (known ▸ hy) ne, booked.targets y hy]
  · refine ⟨d, m₁, h₁, ?_, booked.toActed, opened, ?_, fun y hy _ => booked.targets y hy⟩
    · rw [if_neg same, decide_eq_false same]
      rfl
    · rw [if_neg same, booked.targets x hx]

/-! ## Copies -/

/-- The targets of an object after stores to adjacent slots, from slot `i` on. -/
def storedFrom (targets : List (Option Ref)) (i : Nat) : List (Option Ref) → List (Option Ref)
  | [] => targets
  | t :: ts => storedFrom (targets.set i t) (i + 1) ts

/-- Stores to adjacent open slots. -/
theorem storeAll_eq (ts : List (Option Ref)) (i : Nat) {h : Heap} (m : Mutator) (l : Ledger h e)
    (hx : x ∈ h.known) (fits : i + ts.length ≤ (h.view x).targets.length)
    (known : ∀ o, some o ∈ ts → o ∈ h.known)
    (opened : ∀ j, i ≤ j → j < i + ts.length → h.Open e x j) :
    ∃ memory, SessionM.storeAll x i ts h.memory = .ok memory ∧
      Acted h e m {} m { h with memory } ∧
      (memory.view x).targets = storedFrom (h.view x).targets i ts ∧
      ∀ y ∈ h.known, y ≠ x → (memory.view y).targets = (h.view y).targets := by
  induction ts generalizing i h with
  | nil => exact ⟨h.memory, rfl, (Booked.none l rfl rfl rfl).toActed, rfl, fun _ _ _ => rfl⟩
  | cons t ts ih =>
    rw [List.length_cons] at fits opened
    have hi : i < (h.view x).targets.length := by omega
    have length : (h.view x).targets.length = h.memory.length x := Memory.length_targets ..
    obtain ⟨memory₁, stored, edit, acted⟩ := l.storeRef_eq hx hi
      (fun o eq => known o (eq ▸ List.mem_cons_self)) (opened i (Nat.le_refl i) (by omega))
    have later := (acted m).later x hx
    have ledger := (acted m).ledger
    rw [Entries.append_none] at ledger
    obtain ⟨memory, rest, acted', targets, others⟩ := ih (i + 1) ledger hx
      (by rw [later.length]; omega) (fun o ho => known o (List.mem_cons_of_mem _ ho))
      fun j h₁ h₂ => by
        have := (opened j (by omega) (by omega)).later later {}
        rwa [Entries.append_none] at this
    refine ⟨memory, ?_,
      (acted m).trans (show Acted { h with memory := memory₁ } _ m {} m _ from ?_),
      ?_, fun y hy ne => ?_⟩
    · rw [SessionM.storeAll, (l.wellFormed.placed hx).slot_eq (length ▸ hi), Except.ok_bind,
        stored, Except.ok_bind]
      exact rest
    · rw [Entries.append_none]
      exact acted'
    · rw [targets, edit.self]
      rfl
    · rw [others y hy ne, edit.other y hy ne]

/-- The barrier of a copy is that of each element, or that of the array. -/
theorem bulkCopyBarrier_of_placed (m : Mutator) (src : Ref) (srcOffset : Nat)
    (placed : h.memory.Placed x) {n : Nat} (fits : i + n ≤ h.memory.length x) :
    m.bulkCopyBarrier src srcOffset x (i * bytesPerWord) (n * bytesPerWord) h =
      ((if m.byElement (h.memory.length x) then elementBarriers x n i m else m.objectBarrier x) >>=
        fun m => return (false, m)) { h with
          log := .bulkCopy n src srcOffset x (i * bytesPerWord) :: h.log } := by
  have words : ∀ k, bytesToWords (k * bytesPerWord) = k := fun k =>
    Nat.mul_div_cancel k (by decide)
  rw [bulkCopyBarrier, HeapM.emit_bind_apply, words, words]
  generalize Event.bulkCopy n src srcOffset x (i * bytesPerWord) = event
  rw [HeapM.bind_of_ok (m.inFieldMode_of_placed (h := { h with log := event :: h.log }) placed)]
  cases m.byElement (h.memory.length x) with
  | false => rfl
  | true =>
    rw [if_pos rfl, if_pos rfl, placed.add_eq fits, HeapM.liftM_eq, HeapM.lift_ok,
      HeapM.pure_bind_apply]

/-- The barrier of a copy to an array opens all slots of the range. -/
theorem bulkCopyBarrier_eq (settings : m.barrier = .ofSettings h.settings) (l : Ledger h e)
    (y : Ref) (i j n : Nat) (hx : x ∈ h.known) (array : (h.view x).array = true)
    (fits : j + n ≤ (h.view x).targets.length) :
    ∃ d m' h',
      m.bulkCopyBarrier y (i * bytesPerWord) x (j * bytesPerWord) (n * bytesPerWord) h =
        .ok (false, m') h' ∧
      Booked h e m d m' h' ∧ ∀ k, j ≤ k → k < j + n → h'.Open (e ++ d) x k := by
  have placed := l.wellFormed.placed hx
  have length : (h.view x).targets.length = h.memory.length x := Memory.length_targets ..
  rw [m.bulkCopyBarrier_of_placed y _ placed (length ▸ fits), byElement_eq settings array]
  generalize Event.bulkCopy n y (i * bytesPerWord) x (j * bytesPerWord) = event
  have emitted : Booked h e m {} m { h with log := event :: h.log } := .none l rfl rfl rfl
  cases fields : h.settings.byField (h.view x) with
  | true =>
    obtain ⟨d, m', h', run, booked, opened⟩ := elementBarriers_eq n j
      (h := { h with log := event :: h.log }) settings emitted.ledger hx array fields fits
    refine ⟨{} ++ d, m', h', HeapM.bind_of_ok run, emitted.trans booked, ?_⟩
    rw [← Entries.append_assoc]
    exact opened
  | false =>
    obtain ⟨d, m', h', run, booked, opened⟩ := m.objectBarrier_eq emitted.ledger hx fields
    refine ⟨{} ++ d, m', h', HeapM.bind_of_ok run, emitted.trans booked, fun k _ _ => ?_⟩
    rw [← Entries.append_assoc]
    exact opened k

/-- A copy of adjacent references to an array, after its barrier. -/
theorem bulkCopy_eq {y : Ref} {j n : Nat} (settings : m.barrier = .ofSettings h.settings)
    (l : Ledger h e) (hy : y ∈ h.known) (source : i + n ≤ (h.view y).targets.length)
    (hx : x ∈ h.known) (array : (h.view x).array = true)
    (target : j + n ≤ (h.view x).targets.length) :
    ∃ d m' h' memory,
      m.bulkCopyBarrier y (i * bytesPerWord) x (j * bytesPerWord) (n * bytesPerWord) h =
        .ok (false, m') h' ∧
      HeapM.change (SessionM.copySlots y i x j n) h' = .ok () { h' with memory } ∧
      Acted h e m d m' { h' with memory } ∧
      (∀ k, j ≤ k → k < j + n → Heap.Open { h' with memory } (e ++ d) x k) ∧
      (memory.view x).targets =
        storedFrom (h.view x).targets j (((h.view y).targets.drop i).take n) ∧
      ∀ z ∈ h.known, z ≠ x → (memory.view z).targets = (h.view z).targets := by
  obtain ⟨d, m', h', run, booked, opened⟩ := bulkCopyBarrier_eq settings l y i j n hx array target
  have known := booked.known_eq
  have targets : (h'.view y).targets = (h.view y).targets := booked.targets y hy
  -- the barrier wrote no slot, so all that is copied was there before
  have read : h'.memory.slotsFrom y i n = .ok (((h.view y).targets.drop i).take n) := by
    have fits : i + n ≤ h'.memory.length y := by
      have length : (h'.view y).targets.length = h'.memory.length y := Memory.length_targets ..
      rw [← length, targets]
      exact source
    rw [(booked.ledger.wellFormed.placed (known ▸ hy)).slotsFrom_eq fits]
    exact congrArg (fun ts => Except.ok ((List.drop i ts).take n)) targets
  have length : (((h.view y).targets.drop i).take n).length = n := by
    rw [List.length_take, List.length_drop]
    omega
  obtain ⟨memory, stored, acted, here, others⟩ := storeAll_eq (((h.view y).targets.drop i).take n)
    j m' booked.ledger (known ▸ hx) (by rw [length, (booked.later x hx).length]; exact target)
    (fun o ho => known ▸ l.slots_known y hy o (ObjectView.mem_referents.2
      (List.mem_of_mem_drop (List.mem_of_mem_take ho)))) (by rw [length]; exact opened)
  refine ⟨d ++ {}, m', h', memory, run, HeapM.change_of_ok ?_, booked.toActed.trans acted,
    fun k h₁ h₂ => ?_, ?_, fun z hz ne => ?_⟩
  · rw [SessionM.copySlots, read, Except.ok_bind]
    exact stored
  · rw [← Entries.append_assoc]
    exact (opened k h₁ h₂).later (acted.later x (known ▸ hx)) {}
  · rw [here, booked.targets x hx]
  · rw [others z (known ▸ hz) ne, booked.targets z hz]

end Mutator

end DeferredCount
