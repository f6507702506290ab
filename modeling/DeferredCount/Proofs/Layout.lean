import DeferredCount.Memory
import Mathlib.Data.List.Basic
import Mathlib.Data.Set.Basic
import DeferredCount.Proofs.Execution

/-!
# What the memory holds of an object

`Memory.view` is what the words of the memory say about one object: its header, whether it is an
array, what its slots hold, and which of its fields are marked. `Memory.Laid` says that the objects
of a set are laid out inside the memory, one apart from the other. Then every operation on an object
reads or changes its view, and leaves the views of the other objects alone.

Results:
1. `Placed.header_eq`, `Placed.slots_eq`, `Placed.referents_eq` and their kin: an operation that
   inspects a placed object succeeds and returns a part of the view.
2. `Laid.view_putHeader`, `Laid.view_putTarget`, `Laid.view_putMark`: what the views are after a
   word of one object was written.
3. `Laid.putHeader`, `Laid.putTarget`, `Laid.putMark`: the layout stays.
4. `putMark_putHeader`, `putTarget_putHeader`, `putTarget_putMark`: writes to different words may
   change places.
-/

namespace DeferredCount

/-- The index of the word that holds the header of an object. -/
def Ref.base (o : Ref) : Nat := (o.addr - Memory.start) / bytesPerWord

/-- The address of slot `i` of an object. -/
def Ref.slotAddr (o : Ref) (i : Nat) : Address := o.addr + (2 + i) * bytesPerWord

/-- What the memory holds of an object. -/
structure ObjectView where
  header : Header
  array : Bool
  /-- What the slots hold, in order. -/
  targets : List (Option Ref)
  /-- Which fields are marked, in order. -/
  marks : List Bool

namespace ObjectView

/-- How many slots of the object refer to `o`. -/
def references (v : ObjectView) (o : Ref) : Nat := v.targets.count (some o)

/-- The references in the slots, in order. -/
def referents (v : ObjectView) : List Ref := v.targets.filterMap id

theorem mem_referents {v : ObjectView} {o : Ref} : o ∈ v.referents ↔ some o ∈ v.targets := by
  simp [referents]

theorem count_referents (v : ObjectView) (o : Ref) : v.referents.count o = v.references o := by
  unfold referents references
  induction v.targets with
  | nil => rfl
  | cons t rest ih =>
    cases t with
    | none => simpa using ih
    | some p =>
      have hf : (some p :: rest).filterMap id = p :: rest.filterMap id := rfl
      rw [hf, List.count_cons, List.count_cons, ih]
      by_cases hp : p = o <;> simp [hp]

theorem references_pos {v : ObjectView} {o : Ref} : 0 < v.references o ↔ some o ∈ v.targets :=
  List.count_pos_iff

/-- What a slot holds. There is no reference out of range. -/
def target (v : ObjectView) (i : Nat) : Option Ref := v.targets.getD i none

theorem target_eq {v : ObjectView} {i : Nat} (hi : i < v.targets.length) :
    v.target i = v.targets[i] := by
  rw [target, List.getD_eq_getElem?_getD, List.getElem?_eq_getElem hi, Option.getD_some]

/-- The view without marks. -/
def clearMarks (v : ObjectView) : ObjectView :=
  { v with marks := List.replicate v.marks.length false }

end ObjectView

namespace Memory

/-- The number of slots that the descriptor of an object gives. -/
def length (m : Memory) (o : Ref) : Nat := m.word (o.base + 1) / 2

/-- What the memory holds of an object. -/
def view (m : Memory) (o : Ref) : ObjectView where
  header := Header.ofWord (m.word o.base)
  array := m.word (o.base + 1) % 2 == 1
  targets := (List.range (m.length o)).map fun i => Ref.ofWord? (m.word (o.base + 2 + i))
  marks := (List.range (m.length o)).map fun i => m.word (o.base + 2 + m.length o + i) != 0

/-- The address of the mark of field `i` of an object. -/
def markAddr (m : Memory) (o : Ref) (i : Nat) : Address :=
  o.addr + (2 + m.length o + i) * bytesPerWord

@[simp] theorem length_targets (m : Memory) (o : Ref) : (m.view o).targets.length = m.length o := by
  simp [view]

@[simp] theorem length_marks (m : Memory) (o : Ref) : (m.view o).marks.length = m.length o := by
  simp [view]

/-! ## Placed objects -/

/-- The words of an object lie in the memory. -/
structure Placed (m : Memory) (o : Ref) : Prop where
  start_le : start ≤ o.addr
  aligned : o.addr % bytesPerWord = 0
  fits : o.base + 2 + 2 * m.length o ≤ wordCount

instance (m : Memory) (o : Ref) : Decidable (m.Placed o) :=
  decidable_of_iff (start ≤ o.addr ∧ o.addr % bytesPerWord = 0 ∧
      o.base + 2 + 2 * m.length o ≤ wordCount)
    ⟨fun ⟨h₁, h₂, h₃⟩ => ⟨h₁, h₂, h₃⟩, fun ⟨h₁, h₂, h₃⟩ => ⟨h₁, h₂, h₃⟩⟩

theorem index_word {k : Nat} (hk : k < wordCount) : index (start + k * bytesPerWord) = .ok k := by
  have hd : start + k * bytesPerWord - start = k * bytesPerWord := Nat.add_sub_cancel_left ..
  have hk' : k * bytesPerWord / bytesPerWord = k := Nat.mul_div_cancel k (by decide)
  simp only [index, distance, Nat.le_add_right, if_true, hd, Except.ok_bind, hk', hk,
    Except.pure_eq]

namespace Placed

variable {m : Memory} {o : Ref}

theorem addr_eq (h : Placed m o) : o.addr = start + o.base * bytesPerWord := by
  have h₁ := h.start_le
  have h₂ := h.aligned
  unfold Ref.base
  dsimp only [Address, start, bytesPerWord] at *
  omega

theorem base_lt (h : Placed m o) : o.base < wordCount := by
  have := h.fits
  omega

theorem index_addr (h : Placed m o) : index o.addr = .ok o.base := by
  rw [h.addr_eq]
  exact index_word h.base_lt

theorem index_eq (h : Placed m o) {i : Nat} (hi : o.base + i < wordCount) :
    index (o.addr + i * bytesPerWord) = .ok (o.base + i) := by
  rw [h.addr_eq, Nat.add_assoc, ← Nat.add_mul]
  exact index_word hi

theorem load_eq (h : Placed m o) {i : Nat} (hi : o.base + i < wordCount) :
    m.load (o.addr + i * bytesPerWord) = .ok (m.word (o.base + i)) := by
  simp [load, h.index_eq hi]

theorem store_eq (h : Placed m o) {i : Nat} (hi : o.base + i < wordCount) (w : Nat) :
    m.store (o.addr + i * bytesPerWord) w = .ok (m.setWord (o.base + i) w) := by
  simp [store, h.index_eq hi]

theorem wordOf_eq (h : Placed m o) {i : Nat} (hi : o.base + i < wordCount) :
    wordOf o i = .ok (o.addr + i * bytesPerWord) := by
  have ha := h.addr_eq
  have h₁ : i * bytesPerWord < Word.limit := by
    dsimp only [wordCount, bytesPerWord, Word.limit] at *
    omega
  have h₂ : o.addr + i * bytesPerWord < Word.limit := by
    dsimp only [Address, start, wordCount, bytesPerWord, Word.limit] at *
    omega
  simp [wordOf, Word.mul, Word.add, h₁, h₂]

/-- The indices of slots do not overflow. -/
theorem add_eq (h : Placed m o) {i k : Nat} (fits : i + k ≤ m.length o) :
    Word.add i k = .ok (i + k) := by
  have inside := h.fits
  have : wordCount < Word.limit := by decide
  exact Word.add_eq_ok.2 ⟨by omega, rfl⟩

/-! ### Inspecting a placed object -/

theorem header_eq (h : Placed m o) : m.header o = .ok (m.view o).header := by
  simp [header, load, h.index_addr, view]

theorem descriptor_eq (h : Placed m o) : m.descriptor o = .ok (m.word (o.base + 1)) := by
  have hi : o.base + 1 < wordCount := by
    have := h.fits
    omega
  simp only [descriptor, h.wordOf_eq hi, Except.ok_bind]
  exact h.load_eq hi

theorem slotCount_eq (h : Placed m o) : m.slotCount o = .ok (m.length o) := by
  simp [slotCount, h.descriptor_eq, length]

theorem slot_eq (h : Placed m o) {i : Nat} (hi : i < m.length o) :
    slot o i = .ok (o.slotAddr i) := by
  have hf := h.fits
  have hb : o.base + (2 + i) < wordCount := by omega
  have hw : 2 + i < 18446744073709551616 := by
    have : o.base + (2 + i) < 1048576 := hb
    omega
  simp [slot, Word.add, hw, h.wordOf_eq hb, Ref.slotAddr]

theorem loadRef_slot (h : Placed m o) {i : Nat} (hi : i < m.length o) :
    m.loadRef (o.slotAddr i) = .ok ((m.view o).targets.get ⟨i, by simpa using hi⟩) := by
  have hb : o.base + (2 + i) < wordCount := by
    have := h.fits
    omega
  simp [loadRef, Ref.slotAddr, h.load_eq hb, view, Nat.add_assoc]

theorem loadRef_target (h : Placed m o) {i : Nat} (hi : i < m.length o) :
    m.loadRef (o.slotAddr i) = .ok ((m.view o).target i) := by
  rw [h.loadRef_slot hi, List.get_eq_getElem, ObjectView.target_eq]

theorem markOf_eq (h : Placed m o) {i : Nat} (hi : i < m.length o) :
    m.markOf o i = .ok (m.markAddr o i) := by
  have hf := h.fits
  have hb : o.base + (2 + m.length o + i) < wordCount := by omega
  have hb' : o.base + (2 + m.length o + i) < 1048576 := hb
  have h₁ : 2 + m.length o < 18446744073709551616 := by omega
  have h₂ : 2 + m.length o + i < 18446744073709551616 := by omega
  simp [markOf, h.slotCount_eq, require, hi, Word.add, h₁, h₂, h.wordOf_eq hb, markAddr]

theorem isFieldUnlogged_eq (h : Placed m o) {i : Nat} (hi : i < m.length o) :
    m.isFieldUnlogged o i = .ok (!(m.view o).marks.get ⟨i, by simpa using hi⟩) := by
  have hb : o.base + (2 + m.length o + i) < wordCount := by
    have := h.fits
    omega
  rw [isFieldUnlogged, h.markOf_eq hi, Except.ok_bind, markAddr, h.load_eq hb]
  simp [view, Nat.add_assoc, bne]

theorem wordsFrom_eq (h : Placed m o) (k i : Nat) (found : List Nat)
    (hi : o.base + i + k ≤ wordCount) :
    m.wordsFrom k (o.addr + i * bytesPerWord) found =
      .ok (((List.range k).map fun j => m.word (o.base + i + j)).reverse ++ found) := by
  induction k generalizing i found with
  | zero => simp [wordsFrom]
  | succ k ih =>
    have ha : o.addr + i * bytesPerWord + bytesPerWord = o.addr + (i + 1) * bytesPerWord := by
      rw [Nat.add_mul, Nat.one_mul, Nat.add_assoc]
    simp only [wordsFrom, h.load_eq (i := i) (by omega), Except.ok_bind, ha]
    rw [ih (i + 1) _ (by omega), List.range_succ_eq_map]
    simp [List.map_map, Function.comp_def, Nat.add_assoc, Nat.add_comm 1]

theorem slotsFrom_eq (h : Placed m o) {i n : Nat} (hn : i + n ≤ m.length o) :
    m.slotsFrom o i n = .ok (((m.view o).targets.drop i).take n) := by
  have hf := h.fits
  unfold slotsFrom
  split
  · next h₀ => simp [h₀]
  · next h₀ =>
    rw [h.slot_eq (i := i) (by omega), Except.ok_bind, Ref.slotAddr,
      h.wordsFrom_eq n (2 + i) [] (by omega), Except.ok_bind, Except.pure_eq]
    congr 1
    apply List.ext_getElem
    · simp only [List.length_map, List.length_reverse, List.length_append, List.length_range,
        List.length_nil, List.length_take, List.length_drop, length_targets]
      omega
    · intro j h₁ h₂
      simp [view, Nat.add_assoc]

theorem slots_eq (h : Placed m o) : m.slots o = .ok (m.view o).targets := by
  simp only [slots, h.slotCount_eq, Except.ok_bind]
  rw [h.slotsFrom_eq (by omega)]
  simp [List.take_of_length_le]

theorem referents_eq (h : Placed m o) : m.referents o = .ok (m.view o).referents := by
  simp [referents, h.slots_eq, ObjectView.referents]

end Placed

/-! ## Objects apart from each other -/

/-- The words of two objects do not meet. -/
def Apart (m : Memory) (o p : Ref) : Prop :=
  o.base + 2 + 2 * m.length o ≤ p.base ∨ p.base + 2 + 2 * m.length p ≤ o.base

instance (m : Memory) (o p : Ref) : Decidable (m.Apart o p) := inferInstanceAs (Decidable (_ ∨ _))

/-- The objects of a set are laid out in the memory, each apart from the others. -/
structure Laid (m : Memory) (S : Set Ref) : Prop where
  placed : ∀ o ∈ S, Placed m o
  apart : ∀ o ∈ S, ∀ p ∈ S, o ≠ p → Apart m o p

/-- Is the word of an index one of the words of the object? -/
def Spans (m : Memory) (o : Ref) (i : Nat) : Prop :=
  o.base ≤ i ∧ i < o.base + 2 + 2 * m.length o

/-- A word outside an object does not matter to its view. -/
theorem view_congr {m m' : Memory} {o : Ref} (h : ∀ i, m.Spans o i → m'.word i = m.word i) :
    m'.view o = m.view o ∧ m'.length o = m.length o := by
  have hn : m'.length o = m.length o := by
    simp only [length]
    rw [h (o.base + 1) (by unfold Spans; omega)]
  refine ⟨?_, hn⟩
  simp only [view, hn]
  congr 1
  · rw [h o.base (by unfold Spans; omega)]
  · rw [h (o.base + 1) (by unfold Spans; omega)]
  · apply List.map_congr_left
    intro i hi
    rw [h _ (by simp only [List.mem_range] at hi; unfold Spans; omega)]
  · apply List.map_congr_left
    intro i hi
    rw [h _ (by simp only [List.mem_range] at hi; unfold Spans; omega)]

theorem Laid.mono {m : Memory} {S T : Set Ref} (h : m.Laid S) (hT : T ⊆ S) : m.Laid T :=
  ⟨fun o ho => h.placed o (hT ho), fun o ho p hp => h.apart o (hT ho) p (hT hp)⟩

theorem Laid.not_spans {m : Memory} {S : Set Ref} (h : m.Laid S) {o x : Ref} (ho : o ∈ S)
    (hx : x ∈ S) (hne : x ≠ o) {i : Nat} (hi : m.Spans o i) : ¬ m.Spans x i := by
  intro hs
  have := h.apart x hx o ho hne
  unfold Apart at this
  unfold Spans at hi hs
  omega

theorem Laid.of_length {m m' : Memory} {S : Set Ref} (h : m.Laid S)
    (hn : ∀ o ∈ S, m'.length o = m.length o) : m'.Laid S := by
  refine ⟨fun o ho => ?_, fun o ho p hp hne => ?_⟩
  · have hp := h.placed o ho
    exact ⟨hp.start_le, hp.aligned, by rw [hn o ho]; exact hp.fits⟩
  · have := h.apart o ho p hp hne
    unfold Apart at *
    rw [hn o ho, hn p hp]
    exact this

/-! ## Writing words -/

theorem getElem?_setWord (m : Memory) (i w k : Nat) : (m.setWord i w).words[k]? =
    if i = k then (if w = 0 then none else some w) else m.words[k]? := by
  unfold setWord
  split <;> simp [Std.ExtTreeMap.getElem?_erase, Std.ExtTreeMap.getElem?_insert]

theorem eq_of_getElem? {m m' : Memory} (same : ∀ k : Nat, m.words[k]? = m'.words[k]?) : m = m' :=
  congrArg Memory.mk (Std.ExtTreeMap.ext_getElem? same)

/-- The last one of two writes to a word stays. -/
theorem setWord_setWord (m : Memory) (i v w : Nat) :
    (m.setWord i v).setWord i w = m.setWord i w := by
  refine eq_of_getElem? fun k => ?_
  simp only [getElem?_setWord]
  split <;> rfl

/-- Writes to different words may change places. -/
theorem setWord_comm (m : Memory) {i j : Nat} (ne : i ≠ j) (v w : Nat) :
    (m.setWord i v).setWord j w = (m.setWord j w).setWord i v := by
  refine eq_of_getElem? fun k => ?_
  simp only [getElem?_setWord]
  by_cases hi : i = k
  · subst hi
    simp [ne.symm]
  · rw [if_neg hi, if_neg hi]

/-! ## Writing words of an object -/

/-- The memory with another header for an object. -/
def putHeader (m : Memory) (o : Ref) (hd : Header) : Memory := m.setWord o.base hd.toWord

/-- The memory with another reference in slot `i` of an object. -/
def putTarget (m : Memory) (o : Ref) (i : Nat) (t : Option Ref) : Memory :=
  m.setWord (o.base + 2 + i) (Ref.toWord t)

/-- The memory with another mark for field `i` of an object. -/
def putMark (m : Memory) (o : Ref) (i w : Nat) : Memory :=
  m.setWord (o.base + 2 + m.length o + i) w

theorem Placed.store_header {m : Memory} {o : Ref} (h : Placed m o) (hd : Header) :
    m.store o.addr hd.toWord = .ok (m.putHeader o hd) := by
  simp [store, h.index_addr, putHeader]

theorem Placed.storeRef_slot {m : Memory} {o : Ref} (h : Placed m o) {i : Nat}
    (hi : i < m.length o) (t : Option Ref) :
    m.storeRef (o.slotAddr i) t = .ok (m.putTarget o i t) := by
  have hb : o.base + (2 + i) < wordCount := by
    have := h.fits
    omega
  simp [storeRef, Ref.slotAddr, h.store_eq hb, putTarget, Nat.add_assoc]

theorem Placed.store_mark {m : Memory} {o : Ref} (h : Placed m o) {i : Nat}
    (hi : i < m.length o) (w : Nat) : m.store (m.markAddr o i) w = .ok (m.putMark o i w) := by
  have hb : o.base + (2 + m.length o + i) < wordCount := by
    have := h.fits
    omega
  rw [markAddr, h.store_eq hb, putMark, ← Nat.add_assoc, ← Nat.add_assoc]

theorem length_putHeader (m : Memory) (o : Ref) (hd : Header) :
    (m.putHeader o hd).length o = m.length o := by
  simp [length, putHeader, word_setWord]

theorem length_putTarget (m : Memory) (o : Ref) (i : Nat) (t : Option Ref) :
    (m.putTarget o i t).length o = m.length o := by
  have : ¬ (o.base + 2 + i = o.base + 1) := by omega
  simp [length, putTarget, word_setWord, this]

theorem length_putMark (m : Memory) (o : Ref) (i w : Nat) :
    (m.putMark o i w).length o = m.length o := by
  have : ¬ (o.base + 2 + m.word (o.base + 1) / 2 + i = o.base + 1) := by omega
  simp [length, putMark, word_setWord, this]

theorem Placed.putHeader {m : Memory} {o : Ref} (h : Placed m o) (hd : Header) :
    Placed (m.putHeader o hd) o :=
  ⟨h.start_le, h.aligned, by rw [length_putHeader]; exact h.fits⟩

theorem Placed.putTarget {m : Memory} {o : Ref} (h : Placed m o) (i : Nat) (t : Option Ref) :
    Placed (m.putTarget o i t) o :=
  ⟨h.start_le, h.aligned, by rw [length_putTarget]; exact h.fits⟩

theorem Placed.putMark {m : Memory} {o : Ref} (h : Placed m o) (i w : Nat) :
    Placed (m.putMark o i w) o :=
  ⟨h.start_le, h.aligned, by rw [length_putMark]; exact h.fits⟩

theorem putHeader_putHeader (m : Memory) (o : Ref) (hd hd' : Header) :
    (m.putHeader o hd).putHeader o hd' = m.putHeader o hd' :=
  setWord_setWord ..

/-- A write to a mark and one to the header may change places. -/
theorem putMark_putHeader (m : Memory) (o : Ref) (i w : Nat) (hd : Header) :
    (m.putMark o i w).putHeader o hd = (m.putHeader o hd).putMark o i w := by
  rw [putMark, putMark, length_putHeader]
  exact setWord_comm m (by omega) _ _

/-- A store to a slot and one to the header may change places. -/
theorem putTarget_putHeader (m : Memory) (o : Ref) (i : Nat) (t : Option Ref) (hd : Header) :
    (m.putTarget o i t).putHeader o hd = (m.putHeader o hd).putTarget o i t :=
  setWord_comm m (by omega) _ _

/-- A store to a slot and one to a mark may change places. -/
theorem putTarget_putMark {m : Memory} {o : Ref} {i : Nat} (hi : i < m.length o) (t : Option Ref)
    (k w : Nat) : (m.putTarget o i t).putMark o k w = (m.putMark o k w).putTarget o i t := by
  rw [putMark, length_putTarget]
  exact setWord_comm m (by omega) _ _

theorem view_putHeader_self (m : Memory) (o : Ref) (hd : Header) :
    (m.putHeader o hd).view o = { m.view o with header := hd } := by
  have h₁ : ∀ i, ¬ (o.base = o.base + 2 + i) := by omega
  have h₂ : ∀ i, ¬ (o.base = o.base + 2 + m.length o + i) := by omega
  simp only [view, length_putHeader]
  simp [putHeader, word_setWord, Header.ofWord_toWord, h₁, h₂]

theorem view_putTarget_self (m : Memory) (o : Ref) (i : Nat) {t : Option Ref}
    (ht : Ref.ofWord? (Ref.toWord t) = t) (hi : i < m.length o) :
    (m.putTarget o i t).view o = { m.view o with targets := (m.view o).targets.set i t } := by
  have h₁ : ¬ (o.base + 2 + i = o.base) := by omega
  have h₂ : ¬ (o.base + 2 + i = o.base + 1) := by omega
  have h₃ : ∀ j, ¬ (o.base + 2 + i = o.base + 2 + m.length o + j) := by omega
  simp only [view, length_putTarget]
  simp only [putTarget, word_setWord, h₁, h₂, h₃, if_false]
  congr 1
  apply List.ext_getElem
  · simp
  · intro j _ _
    simp only [List.getElem_map, List.getElem_range, List.getElem_set]
    by_cases hj : i = j
    · simp [hj, ht]
    · simp [hj]

/-- What a memory shows of an object once any word was stored in one of its slots. -/
theorem view_putTarget_word {m : Memory} {o : Ref} {i : Nat} (hi : i < m.length o)
    (t : Option Ref) : (m.putTarget o i t).view o = { m.view o with
      targets := (m.view o).targets.set i (Ref.ofWord? (Ref.toWord t)) } := by
  have same : m.putTarget o i t = m.putTarget o i (Ref.ofWord? (Ref.toWord t)) := by
    rw [putTarget, putTarget, Ref.toWord_ofWord?]
  rw [same, view_putTarget_self m o i (by rw [Ref.toWord_ofWord?]) hi]

theorem view_putMark_self (m : Memory) (o : Ref) (i w : Nat) :
    (m.putMark o i w).view o = { m.view o with marks := (m.view o).marks.set i (w != 0) } := by
  have h₁ : ¬ (o.base + 2 + m.length o + i = o.base) := by omega
  have h₂ : ¬ (o.base + 2 + m.length o + i = o.base + 1) := by omega
  simp only [view, length_putMark]
  simp only [putMark, word_setWord, h₁, h₂, if_false]
  congr 1
  · apply List.map_congr_left
    intro j hj
    simp only [List.mem_range] at hj
    have : ¬ (o.base + 2 + m.length o + i = o.base + 2 + j) := by omega
    simp [this]
  · apply List.ext_getElem
    · simp
    · intro j _ _
      simp only [List.getElem_map, List.getElem_range, List.getElem_set]
      by_cases hj : i = j <;> simp [hj]

theorem view_setWord {m : Memory} {x : Ref} {j w : Nat} (h : ¬ m.Spans x j) :
    (m.setWord j w).view x = m.view x ∧ (m.setWord j w).length x = m.length x := by
  apply view_congr
  intro i hi
  have : ¬ (j = i) := fun e => h (e ▸ hi)
  simp [word_setWord, this]

namespace Laid

variable {m : Memory} {S : Set Ref} {o x : Ref}

theorem view_putHeader (h : m.Laid S) (ho : o ∈ S) (hx : x ∈ S) (hd : Header) :
    (m.putHeader o hd).view x = if x = o then { m.view o with header := hd } else m.view x := by
  split
  · next e => rw [e, view_putHeader_self]
  · next hne =>
    exact (view_setWord (h.not_spans ho hx hne (by unfold Spans; omega))).1

theorem view_putTarget (h : m.Laid S) (ho : o ∈ S) (hx : x ∈ S) {i : Nat} (hi : i < m.length o)
    {t : Option Ref} (ht : Ref.ofWord? (Ref.toWord t) = t) :
    (m.putTarget o i t).view x =
      if x = o then { m.view o with targets := (m.view o).targets.set i t } else m.view x := by
  split
  · next e => rw [e, view_putTarget_self m o i ht hi]
  · next hne =>
    exact (view_setWord (h.not_spans ho hx hne (by unfold Spans; omega))).1

theorem view_putMark (h : m.Laid S) (ho : o ∈ S) (hx : x ∈ S) {i : Nat} (hi : i < m.length o)
    (w : Nat) :
    (m.putMark o i w).view x =
      if x = o then { m.view o with marks := (m.view o).marks.set i (w != 0) } else m.view x := by
  split
  · next e => rw [e, view_putMark_self]
  · next hne =>
    exact (view_setWord (h.not_spans ho hx hne (by unfold Spans; omega))).1

theorem putHeader (h : m.Laid S) (ho : o ∈ S) (hd : Header) : (m.putHeader o hd).Laid S := by
  apply h.of_length
  intro x hx
  by_cases hne : x = o
  · rw [hne, length_putHeader]
  · exact (view_setWord (h.not_spans ho hx hne (by unfold Spans; omega))).2

theorem putTarget (h : m.Laid S) (ho : o ∈ S) {i : Nat} (hi : i < m.length o) (t : Option Ref) :
    (m.putTarget o i t).Laid S := by
  apply h.of_length
  intro x hx
  by_cases hne : x = o
  · rw [hne, length_putTarget]
  · exact (view_setWord (h.not_spans ho hx hne (by unfold Spans; omega))).2

theorem putMark (h : m.Laid S) (ho : o ∈ S) {i : Nat} (hi : i < m.length o) (w : Nat) :
    (m.putMark o i w).Laid S := by
  apply h.of_length
  intro x hx
  by_cases hne : x = o
  · rw [hne, length_putMark]
  · exact (view_setWord (h.not_spans ho hx hne (by unfold Spans; omega))).2

/-- The marks of the fields from `i` on are cleared one by one. -/
theorem clearMarksFrom_eq (h : m.Laid S) (ho : o ∈ S) {k i : Nat} (e : i + k = m.length o) :
    ∃ m', clearMarksFrom o k i m = .ok m' ∧ m'.Laid S ∧
      m'.view o = { m.view o with marks := (m.view o).marks.take i ++ List.replicate k false } ∧
      ∀ x ∈ S, x ≠ o → m'.view x = m.view x := by
  induction k generalizing m i with
  | zero =>
    refine ⟨m, rfl, h, ?_, fun _ _ _ => rfl⟩
    have : (m.view o).marks.take i = (m.view o).marks := by
      rw [List.take_of_length_le]
      rw [length_marks]
      omega
    rw [this]
    simp
  | succ k ih =>
    have hi : i < m.length o := by omega
    have placed := h.placed o ho
    have view : (m.putMark o i 0).view o =
        { m.view o with marks := (m.view o).marks.set i false } := view_putMark_self m o i 0
    obtain ⟨m', run, laid, self, other⟩ := ih (m := m.putMark o i 0) (i := i + 1)
      (h.putMark ho hi 0) (by rw [length_putMark]; omega)
    refine ⟨m', ?_, laid, ?_, fun x hx ne => ?_⟩
    · rw [clearMarksFrom, placed.markOf_eq hi, Except.ok_bind, placed.store_mark hi,
        Except.ok_bind]
      exact run
    · rw [self, view]
      have : ((m.view o).marks.set i false).take (i + 1) = (m.view o).marks.take i ++ [false] := by
        rw [List.take_succ_eq_append_getElem (by simpa using hi), List.take_set_of_le (by omega),
          List.getElem_set_self]
      rw [this, List.append_assoc]
      rfl
    · rw [other x hx ne, h.view_putMark ho hx hi, if_neg ne]

theorem clearMarks_eq (h : m.Laid S) (ho : o ∈ S) :
    ∃ m', m.clearMarks o = .ok m' ∧ m'.Laid S ∧ m'.view o = (m.view o).clearMarks ∧
      ∀ x ∈ S, x ≠ o → m'.view x = m.view x := by
  obtain ⟨m', run, laid, self, other⟩ := h.clearMarksFrom_eq ho (k := m.length o) (Nat.zero_add _)
  refine ⟨m', ?_, laid, ?_, other⟩
  · rw [clearMarks, (h.placed o ho).slotCount_eq, Except.ok_bind]
    exact run
  · rw [self, ObjectView.clearMarks, length_marks]
    simp

end Laid

end Memory

end DeferredCount
