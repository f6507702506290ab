import DeferredCount.Proofs.Layout

/-!
# Laying out a new object

A new object is laid out in words that belong to no other object. All its words become zero but the
descriptor, so its slots are null and its fields are not marked, whatever the words held before.

Results:
1. `Memory.format_eq`: what laying out an object leaves.
2. `Memory.Laid.insert`: the new object is laid out beside the others, whose views stay.
-/

namespace DeferredCount

/-- The view of an object that was laid out and has no header yet. -/
def ObjectView.blank (slots : Nat) (array : Bool) : ObjectView where
  header := Header.ofWord 0
  array
  targets := List.replicate slots none
  marks := List.replicate slots false

namespace Memory

theorem objectSize_eq_ok {slots size : Nat} (e : objectSize slots = .ok size) :
    size = (2 + 2 * slots) * bytesPerWord := by
  obtain ⟨twice, e₁, e⟩ := Except.bind_eq_ok.1 e
  obtain ⟨words, e₂, e⟩ := Except.bind_eq_ok.1 e
  obtain ⟨-, rfl⟩ := Word.mul_eq_ok.1 e₁
  obtain ⟨-, rfl⟩ := Word.add_eq_ok.1 e₂
  exact (Word.mul_eq_ok.1 e).2

theorem objectSize_eq {slots : Nat} (fits : 2 + 2 * slots ≤ wordCount) :
    objectSize slots = .ok ((2 + 2 * slots) * bytesPerWord) := by
  have h₁ : 2 * slots < Word.limit := by
    dsimp only [wordCount, Word.limit] at *
    omega
  have h₂ : 2 + 2 * slots < Word.limit := by
    dsimp only [wordCount, Word.limit] at *
    omega
  have h₃ : (2 + 2 * slots) * bytesPerWord < Word.limit := by
    dsimp only [wordCount, Word.limit, bytesPerWord] at *
    omega
  rw [objectSize, Word.mul_eq_ok.2 ⟨h₁, rfl⟩, Except.ok_bind, Word.add_eq_ok.2 ⟨h₂, rfl⟩,
    Except.ok_bind]
  exact Word.mul_eq_ok.2 ⟨h₃, rfl⟩

/-- Adjacent words are cleared, and no others. -/
theorem clearWords_eq (k i : Nat) (m : Memory) (fits : i + k ≤ wordCount) :
    ∃ m', clearWords k (start + i * bytesPerWord) m = .ok m' ∧
      ∀ j, m'.word j = if i ≤ j ∧ j < i + k then 0 else m.word j := by
  induction k generalizing i m with
  | zero => exact ⟨m, rfl, fun j => (if_neg (by omega)).symm⟩
  | succ k ih =>
    have hi : i < wordCount := by omega
    have stored : m.store (start + i * bytesPerWord) 0 = .ok (m.setWord i 0) := by
      rw [store, index_word hi]
      rfl
    have next : start + i * bytesPerWord + bytesPerWord = start + (i + 1) * bytesPerWord := by
      rw [Nat.add_mul, Nat.one_mul, Nat.add_assoc]
    obtain ⟨m', run, words⟩ := ih (i + 1) (m.setWord i 0) (by omega)
    refine ⟨m', ?_, fun j => ?_⟩
    · rw [clearWords, stored, Except.ok_bind, next]
      exact run
    · rw [words, word_setWord]
      by_cases eq : i = j
      · rw [if_neg (by omega), if_pos eq, if_pos (by omega)]
      · by_cases inside : i ≤ j ∧ j < i + (k + 1)
        · rw [if_pos (by omega), if_pos inside]
        · rw [if_neg (by omega), if_neg eq, if_neg inside]

/-- The words of a new object say that it has no references and no marks. -/
theorem view_eq_blank {m : Memory} {o : Ref} {slots : Nat} {array : Bool}
    (descriptor : m.word (o.base + 1) = 2 * slots + array.toNat)
    (zero : ∀ i, o.base ≤ i → i < o.base + 2 + 2 * slots → i ≠ o.base + 1 → m.word i = 0) :
    m.length o = slots ∧ m.view o = .blank slots array := by
  have length : m.length o = slots := by
    have := array.toNat_le
    rw [Memory.length, descriptor]
    omega
  have parity : ((2 * slots + array.toNat) % 2 == 1) = array := by
    cases array <;> simp
  refine ⟨length, ?_⟩
  simp only [view, ObjectView.blank, length]
  congr 1
  · rw [zero o.base (by omega) (by omega) (by omega)]
  · rw [descriptor, parity]
  · refine List.ext_getElem (by simp) fun i h₁ h₂ => ?_
    rw [List.length_map, List.length_range] at h₁
    rw [List.getElem_map, List.getElem_range, List.getElem_replicate,
      zero (o.base + 2 + i) (by omega) (by omega) (by omega), Ref.ofWord?_zero]
  · refine List.ext_getElem (by simp) fun i h₁ h₂ => ?_
    rw [List.length_map, List.length_range] at h₁
    rw [List.getElem_map, List.getElem_range, List.getElem_replicate,
      zero (o.base + 2 + slots + i) (by omega) (by omega) (by omega)]
    rfl

/-- A new object is laid out, and no word outside of it changes. -/
theorem format_eq (m : Memory) {o : Ref} {slots : Nat} (array : Bool) (le : start ≤ o.addr)
    (aligned : o.addr % bytesPerWord = 0) (fits : o.base + 2 + 2 * slots ≤ wordCount) :
    ∃ m', m.format o.addr slots array = .ok m' ∧ m'.Placed o ∧ m'.length o = slots ∧
      m'.view o = .blank slots array ∧ ∀ i, ¬ m'.Spans o i → m'.word i = m.word i := by
  have size := @objectSize_eq slots (by omega)
  have addr : o.addr = start + o.base * bytesPerWord := by
    unfold Ref.base
    dsimp only [Address, start, bytesPerWord] at *
    omega
  obtain ⟨m₁, cleared, words⟩ := clearWords_eq (2 + 2 * slots) o.base m (by omega)
  have placed : m₁.Placed o := by
    refine ⟨le, aligned, ?_⟩
    rw [length, words, if_pos (by omega)]
    omega
  have hd : o.base + 1 < wordCount := by omega
  have small : 2 * slots + array.toNat < Word.limit := by
    have := array.toNat_le
    dsimp only [wordCount, Word.limit] at *
    omega
  obtain ⟨m', eq⟩ : ∃ m', m' = m₁.setWord (o.base + 1) (2 * slots + array.toNat) := ⟨_, rfl⟩
  have word : ∀ i, m'.word i = if o.base + 1 = i then 2 * slots + array.toNat else m₁.word i :=
    fun i => by rw [eq, word_setWord]
  obtain ⟨length, view⟩ := @view_eq_blank m' o slots array
    (by rw [word, if_pos rfl]) fun i h₁ h₂ ne => by
      rw [word, if_neg (Ne.symm ne), words, if_pos (by omega)]
  refine ⟨m', ?_, ⟨le, aligned, by rw [length]; exact fits⟩, length, view, fun i hi => ?_⟩
  · have bytes : (2 + 2 * slots) * bytesPerWord / bytesPerWord = 2 + 2 * slots :=
      Nat.mul_div_cancel _ (by decide)
    rw [format, size, Except.ok_bind, bytes, addr, cleared, Except.ok_bind, ← addr,
      placed.wordOf_eq hd, Except.ok_bind, placed.store_eq hd, Nat.mod_eq_of_lt small, eq]
  · rw [Spans, length] at hi
    rw [word, if_neg (by omega), words, if_neg (by omega)]

/-- A new object is laid out beside the objects of a set, if its words are none of theirs. -/
theorem Laid.insert {m m' : Memory} {S : Set Ref} {o : Ref} (laid : m.Laid S) (placed : m'.Placed o)
    (apart : ∀ x ∈ S, x.base + 2 + 2 * m.length x ≤ o.base ∨
      o.base + 2 + 2 * m'.length o ≤ x.base)
    (same : ∀ i, ¬ m'.Spans o i → m'.word i = m.word i) :
    m'.Laid (insert o S) ∧ ∀ x ∈ S, m'.view x = m.view x ∧ m'.length x = m.length x := by
  have views : ∀ x ∈ S, m'.view x = m.view x ∧ m'.length x = m.length x := fun x hx =>
    view_congr fun i hi => same i fun spans => by
      have := apart x hx
      unfold Spans at hi spans
      omega
  have old := laid.of_length fun x hx => (views x hx).2
  have beside : ∀ x ∈ S, m'.Apart o x := fun x hx => by
    have := apart x hx
    rw [← (views x hx).2] at this
    exact this.symm
  refine ⟨⟨?_, ?_⟩, views⟩
  · rintro x (rfl | hx)
    · exact placed
    · exact old.placed x hx
  · rintro x (rfl | hx) y (rfl | hy) ne
    · exact absurd rfl ne
    · exact beside y hy
    · exact (beside x hx).symm
    · exact old.apart x hx y hy ne

end Memory

end DeferredCount
