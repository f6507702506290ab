import DeferredCount.Collector.Phases
import DeferredCount.Proofs.Entries
import DeferredCount.Proofs.Objects
import Mathlib.Algebra.BigOperators.Group.Finset.Basic
import Mathlib.Algebra.Order.BigOperators.Group.Finset
import Mathlib.Order.Bounds.Basic

/-!
# Working off decrements

Every counted reference and every pending decrement of an object has a share in its count. An object
is doomed when the pending decrements and the references from doomed objects make up its whole
count. Working off decrements frees the least set of doomed objects, in whatever order the entries
are taken: `Underway` says how counts, pending entries and freed objects hang together meanwhile.

Results:
1. `Underway.step`: an entry can be worked off, whichever is taken next.
2. `Underway.isLeast`: once no entry is left, the freed objects are the least closed set.
-/

namespace DeferredCount

/-! ## Views that differ in the count -/

/-- Two headers differ at most in the count. -/
structure Header.SameFlags (a b : Header) : Prop where
  logged : a.logged = b.logged
  locked : a.locked = b.locked
  fresh : a.fresh = b.fresh
  marked : a.marked = b.marked
  low : a.low = b.low
  high : a.high = b.high

/-- Two views differ at most in the count. -/
structure ObjectView.SameButCount (v w : ObjectView) : Prop where
  flags : v.header.SameFlags w.header
  array : v.array = w.array
  targets : v.targets = w.targets
  marks : v.marks = w.marks

theorem Header.SameFlags.refl (a : Header) : a.SameFlags a := ⟨rfl, rfl, rfl, rfl, rfl, rfl⟩

theorem Header.SameFlags.trans {a b c : Header} (h₁ : a.SameFlags b) (h₂ : b.SameFlags c) :
    a.SameFlags c :=
  ⟨h₁.logged.trans h₂.logged, h₁.locked.trans h₂.locked, h₁.fresh.trans h₂.fresh,
    h₁.marked.trans h₂.marked, h₁.low.trans h₂.low, h₁.high.trans h₂.high⟩

theorem ObjectView.SameButCount.refl (v : ObjectView) : v.SameButCount v :=
  ⟨.refl _, rfl, rfl, rfl⟩

theorem ObjectView.SameButCount.trans {u v w : ObjectView} (h₁ : u.SameButCount v)
    (h₂ : v.SameButCount w) : u.SameButCount w :=
  ⟨h₁.flags.trans h₂.flags, h₁.array.trans h₂.array, h₁.targets.trans h₂.targets,
    h₁.marks.trans h₂.marks⟩

theorem Header.decrement_some {hd : Header} (zero : hd.count ≠ 0)
    (stuck : hd.count ≠ Header.stuck) :
    ∃ new, hd.decrement = some new ∧ new.SameFlags hd ∧ new.count = hd.count - 1 :=
  ⟨_, if_neg (not_or.2 ⟨zero, stuck⟩), ⟨rfl, rfl, rfl, rfl, rfl, rfl⟩, rfl⟩

/-! ## Counted references -/

/-- How many references to `o` an object counted: none while it is fresh. -/
def ObjectView.owes (v : ObjectView) (o : Ref) : Nat := if v.header.fresh then 0 else v.references o

theorem ObjectView.SameButCount.owes_eq {v w : ObjectView} (h : v.SameButCount w) (o : Ref) :
    v.owes o = w.owes o := by
  rw [owes, owes, references, references, h.flags.fresh, h.targets]

theorem ObjectView.owes_ne_zero {v : ObjectView} {o : Ref} :
    v.owes o ≠ 0 ↔ v.header.fresh = false ∧ o ∈ v.referents := by
  rw [ObjectView.mem_referents, ← ObjectView.references_pos, owes]
  cases v.header.fresh <;> simp [Nat.pos_iff_ne_zero]

namespace Heap

/-- How many references to `o` the objects of a set counted. -/
def owed (h : Heap) (S : Finset Ref) (o : Ref) : Nat := ∑ x ∈ S, (h.view x).owes o

theorem owed_mono {h : Heap} {S T : Finset Ref} (le : S ⊆ T) (o : Ref) : h.owed S o ≤ h.owed T o :=
  Finset.sum_le_sum_of_subset le

theorem owed_insert {h : Heap} {S : Finset Ref} {x : Ref} (hx : x ∉ S) (o : Ref) :
    h.owed (insert x S) o = (h.view x).owes o + h.owed S o :=
  Finset.sum_insert hx

/-- The references that a freed object gives up: those that it counted, as far as the objects they
lead to have a count. -/
def givenUp (h : Heap) (o : Ref) : List Ref :=
  if (h.view o).header.fresh then []
  else (h.view o).referents.filter fun x => h.isCounted x && h.count x != 0

variable {h : Heap} {o x : Ref}

theorem mem_givenUp (hx : x ∈ h.givenUp o) : h.isCounted x = true ∧ (h.view o).owes x ≠ 0 := by
  unfold givenUp at hx
  split at hx
  · cases hx
  · next nf =>
    obtain ⟨hx, keep⟩ := List.mem_filter.1 hx
    exact ⟨(Bool.and_eq_true_iff.1 keep).1,
      ObjectView.owes_ne_zero.2 ⟨Bool.eq_false_iff.2 nf, hx⟩⟩

/-- The references that an object gives up are those that it counted. -/
theorem count_givenUp (counts : (h.view o).owes x ≠ 0 → h.isCounted x = true ∧ h.count x ≠ 0) :
    (h.givenUp o).count x = (h.view o).owes x := by
  by_cases zero : (h.view o).owes x = 0
  · rw [zero, List.count_eq_zero]
    exact fun hx => (mem_givenUp hx).2 zero
  · obtain ⟨counted, pos⟩ := counts zero
    have nf := (ObjectView.owes_ne_zero.1 zero).1
    rw [givenUp, ObjectView.owes, if_neg (by simp [nf]), if_neg (by simp [nf]),
      List.count_filter (by simp [counted, pos]), ObjectView.count_referents]

theorem length_givenUp_le : (h.givenUp o).length ≤ (h.view o).targets.length := by
  unfold givenUp
  split
  · exact Nat.zero_le _
  · exact (List.length_filter_le ..).trans (List.length_filterMap_le ..)

end Heap

/-! ## One decrement -/

namespace HeapM

variable {h : Heap} {o : Ref} {b : Buffer Ref}

theorem processDecrement_uncounted (nc : h.isCounted o = false) :
    processDecrement b o h = .ok (false, b) h := by
  rw [processDecrement, get_bind_apply, if_neg (by simp [nc])]
  rfl

theorem processDecrement_stuck (co : h.isCounted o = true) (placed : h.memory.Placed o)
    (stuck : h.count o = Header.stuck) : processDecrement b o h = .ok (false, b) h := by
  have none : (h.view o).header.decrement = none := if_pos (.inr stuck)
  have pos : ¬ (h.view o).header.count = 0 := by
    rw [show (h.view o).header.count = 65535 from stuck]
    decide
  rw [processDecrement, get_bind_apply, if_pos co, bind_of_ok (updateHeader_none placed none)]
  simp [pos]

theorem processDecrement_counted (co : h.isCounted o = true) (placed : h.memory.Placed o)
    {new : Header} (some : (h.view o).header.decrement = some new) (many : h.count o ≠ 1) :
    processDecrement b o h = .ok (false, b) (h.putHeader o new) := by
  have lost : (h.view o).header.lost = .counted := if_neg many
  rw [processDecrement, get_bind_apply, if_pos co, bind_of_ok (updateHeader_some placed some)]
  simp [lost]

theorem owesDecrement_eq {x : Ref} (placed : h.isCounted x = true → h.memory.Placed x) :
    owesDecrement x h = .ok (h.isCounted x && h.count x != 0) h := by
  cases c : h.isCounted x with
  | false =>
    rw [owesDecrement, get_bind_apply, if_neg (by simp [c])]
    rfl
  | true =>
    rw [owesDecrement, get_bind_apply, if_pos c,
      bind_of_ok (inspect_of_ok (placed c).header_eq)]
    rfl

theorem droppedReferents_eq {hd : Header} (placed : h.memory.Placed o)
    (fresh : hd.fresh = (h.view o).header.fresh)
    (targets : ∀ x, (h.view o).owes x ≠ 0 → h.isCounted x = true → h.memory.Placed x) :
    droppedReferents o hd h = .ok (h.givenUp o) h := by
  rw [droppedReferents, Heap.givenUp, fresh]
  split
  · rfl
  · next nf =>
    rw [bind_of_ok (inspect_of_ok placed.referents_eq)]
    exact filterM_of_ok fun x hx => owesDecrement_eq <|
      targets x (ObjectView.owes_ne_zero.2 ⟨Bool.eq_false_iff.2 nf, hx⟩)

theorem processDecrement_last (wf : h.WellFormed) (ho : o ∈ h.counted) {new : Header}
    (some : (h.view o).header.decrement = some new) (flags : new.SameFlags (h.view o).header)
    (one : h.count o = 1) (targets : ∀ x, (h.view o).owes x ≠ 0 → x ∈ h.known) :
    ∃ b' q h', processDecrement b o h = .ok (true, b') h' ∧
      Freed o ((h.putHeader o new).putPool .decrements q) h' ∧
      b'.both q = b.both h.pools.decrements ++ (h.putHeader o new).givenUp o ∧
      b'.capacity = b.capacity ∧ (h.pools.decrements.Solid → q.Solid) := by
  have wf₁ : (h.putHeader o new).WellFormed := wf.putHeader (.inl ho) new
  have view : (h.putHeader o new).view o = { h.view o with header := new } := by
    rw [Heap.view_putHeader wf.laid (.inl ho) (.inl ho), if_pos rfl]
  have same : ((h.putHeader o new).view o).SameButCount (h.view o) :=
    view ▸ ⟨flags, rfl, rfl, rfl⟩
  have dropped : droppedReferents o (h.view o).header (h.putHeader o new) =
      .ok ((h.putHeader o new).givenUp o) (h.putHeader o new) :=
    droppedReferents_eq (wf₁.placed (.inl ho)) same.flags.fresh.symm fun x owes _ =>
      wf₁.placed (targets x (same.owes_eq x ▸ owes))
  have lost : (h.view o).header.lost = .last := if_pos one
  obtain ⟨b', q, pushed, both, capacity⟩ := pushAll_entries .decrements b
    ((h.putHeader o new).givenUp o) (h.putHeader o new)
  have wf₂ : Heap.WellFormed { (h.putHeader o new).putPool .decrements q with
      log := .reclaimed o :: h.log } := wf₁.congr rfl rfl rfl wf₁.laid
  obtain ⟨h', freed, f⟩ := free_eq wf₂ (o := o) ho
  refine ⟨b', q, h', ?_, f.of_log, both, capacity⟩
  rw [processDecrement, get_bind_apply, if_pos (wf.isCounted_of_mem ho),
    bind_of_ok (updateHeader_some (wf.placed (.inl ho)) some)]
  simp only [lost, if_true]
  rw [bind_of_ok dropped, bind_of_ok pushed, emit_bind_apply]
  exact bind_of_ok freed

end HeapM

/-! ## Entries that are due -/

/-- The counted objects whose count is not stuck. -/
def Heap.unstuck (h : Heap) : Finset Ref := h.counted.filter fun o => h.count o ≠ Header.stuck

theorem Heap.mem_unstuck {h : Heap} {o : Ref} :
    o ∈ h.unstuck ↔ o ∈ h.counted ∧ h.count o ≠ Header.stuck := by
  simp [unstuck]

/-- The frame without the old roots, which are decrements to come. -/
def Heap.outer (h : Heap) : Heap := { h.frame with oldRoots := [] }

theorem Heap.permanent_of_outer {h h' : Heap} (e : h'.outer = h.outer) :
    h'.permanent = h.permanent := by
  have := congrArg Heap.permanent e
  exact this

/-- Every decrement that is due and every counted reference has a share in a count. -/
structure Payable (h : Heap) (due : List Ref) : Prop where
  wellFormed : h.WellFormed
  slots_known : ∀ x ∈ h.counted, ∀ o ∈ (h.view x).referents, o ∈ h.known
  due_known : ∀ o ∈ due, o ∈ h.known
  covered : ∀ o ∈ h.unstuck, due.count o + h.owed h.counted o ≤ h.count o

/-- A set of objects that holds every object with a count that the decrements due and the
references from the set make up. -/
structure Closed (h : Heap) (due : List Ref) (S : Finset Ref) : Prop where
  unstuck : S ⊆ h.unstuck
  closed : ∀ o ∈ h.unstuck, 0 < h.count o → due.count o + h.owed S o = h.count o → o ∈ S

/-- Decrements due in a heap `h₀` are worked off: `h` is the heap by now, `pending` are the entries
that are left, and `freed` the objects that were freed. -/
structure Underway (h₀ : Heap) (due : List Ref) (h : Heap) (pending freed : List Ref) : Prop where
  wellFormed : h.WellFormed
  shrunk : Shrunk h₀ h
  outer : h.outer = h₀.outer
  nodup : freed.Nodup
  freed_unstuck : ∀ o ∈ freed, o ∈ h₀.unstuck
  mem_counted : ∀ x, x ∈ h.counted ↔ x ∈ h₀.counted ∧ x ∉ freed
  same : ∀ x ∈ h.known, (h.view x).SameButCount (h₀.view x)
  keeps : h₀.KeepsSlots h
  pending_known : ∀ o ∈ pending, o ∈ h.known
  balance : ∀ x ∈ h.counted, h₀.count x ≠ Header.stuck →
    h.count x + due.count x + h₀.owed freed.toFinset x = h₀.count x + pending.count x
  count_le : ∀ x ∈ h.counted, h.count x ≤ h₀.count x
  positive : ∀ x ∈ h.counted, h₀.count x ≠ 0 → h.count x ≠ 0
  stuck : ∀ x ∈ h.counted, h₀.count x = Header.stuck → h.count x = Header.stuck
  referrers : ∀ x ∈ freed, ∀ y ∈ h₀.counted, (h₀.view y).owes x ≠ 0 → y ∈ freed
  below : ∀ S, Closed h₀ due S → freed.toFinset ⊆ S

theorem Payable.underway {h : Heap} {due : List Ref} (pay : Payable h due) :
    Underway h due h due [] where
  wellFormed := pay.wellFormed
  shrunk := .of_eq rfl rfl
  outer := rfl
  nodup := .nil
  freed_unstuck := by simp
  mem_counted := by simp
  same x _ := .refl _
  keeps := .of_memory rfl
  pending_known := pay.due_known
  balance := by simp [Heap.owed]
  count_le x _ := Nat.le_refl _
  positive x _ := id
  stuck x _ := id
  referrers := by simp
  below := by simp

namespace Underway

variable {h₀ h : Heap} {due pending rest freed : List Ref} {o x : Ref}

theorem permanent_eq (u : Underway h₀ due h pending freed) : h.permanent = h₀.permanent :=
  Heap.permanent_of_outer u.outer

theorem known_of_known (u : Underway h₀ due h pending freed) (hx : x ∈ h.known) : x ∈ h₀.known := by
  rcases hx with hx | hx
  · exact .inl ((u.mem_counted x).1 hx).1
  · exact .inr (u.permanent_eq ▸ hx)

theorem known_subset (u : Underway h₀ due h pending freed) : h.known ⊆ h₀.known :=
  fun _ => u.known_of_known

theorem freed_subset (u : Underway h₀ due h pending freed) : freed.toFinset ⊆ h₀.counted :=
  fun x hx => (Heap.mem_unstuck.1 (u.freed_unstuck x (by simpa using hx))).1

/-- Where the entries lie does not matter. -/
theorem congr {h' : Heap} {pending' : List Ref} (u : Underway h₀ due h pending freed)
    (small : h'.small = h.small) (large : h'.large = h.large)
    (memory : h'.memory = h.memory)
    (outer : h'.outer = h.outer)
    (perm : pending.Perm pending') : Underway h₀ due h' pending' freed := by
  have permanent : h'.permanent = h.permanent := Heap.permanent_of_outer outer
  have counted : h'.counted = h.counted := by simp only [Heap.counted, small, large]
  have known : h'.known = h.known := by simp only [Heap.known, counted, permanent]
  have view (x : Ref) : h'.view x = h.view x := by simp only [Heap.view, memory]
  have count (x : Ref) : h'.count x = h.count x := by simp only [Heap.count, view]
  exact {
    wellFormed := u.wellFormed.congr small large permanent (memory ▸ u.wellFormed.laid)
    shrunk := u.shrunk.trans (.of_eq small large)
    outer := outer.trans u.outer
    nodup := u.nodup
    freed_unstuck := u.freed_unstuck
    mem_counted := by rw [counted]; exact u.mem_counted
    same := fun x hx => by rw [view]; exact u.same x (known ▸ hx)
    keeps := u.keeps.trans (.of_memory memory) u.known_subset
    pending_known := fun x hx => by rw [known]; exact u.pending_known x (perm.mem_iff.2 hx)
    balance := fun x hx ns => by rw [count, ← perm.count_eq]; exact u.balance x (counted ▸ hx) ns
    count_le := fun x hx => by rw [count]; exact u.count_le x (counted ▸ hx)
    positive := fun x hx => by rw [count]; exact u.positive x (counted ▸ hx)
    stuck := fun x hx => by rw [count]; exact u.stuck x (counted ▸ hx)
    referrers := u.referrers
    below := u.below }

/-- What is left of a count covers the entries and the references that are left. -/
theorem share (u : Underway h₀ due h pending freed) (pay : Payable h₀ due) (hx : x ∈ h.counted)
    (ns : h₀.count x ≠ Header.stuck) :
    h₀.owed h₀.counted x + pending.count x ≤ h.count x + h₀.owed freed.toFinset x := by
  have := pay.covered x (Heap.mem_unstuck.2 ⟨((u.mem_counted x).1 hx).1, ns⟩)
  have := u.balance x hx ns
  omega

theorem count_ne_stuck (u : Underway h₀ due h pending freed) (hx : x ∈ h.counted)
    (ns : h₀.count x ≠ Header.stuck) : h.count x ≠ Header.stuck := by
  have le := u.count_le x hx
  have lt := (h₀.view x).header.count_lt
  simp only [Heap.count, Header.stuck] at *
  omega

/-- An entry of an object without a count is dropped. -/
theorem skip (u : Underway h₀ due h (o :: rest) freed)
    (skipped : o ∈ h.counted → h₀.count o = Header.stuck) : Underway h₀ due h rest freed :=
  { u with
    pending_known := fun x hx => u.pending_known x (List.mem_cons_of_mem _ hx)
    balance := fun x hx ns => by
      have := u.balance x hx ns
      rwa [List.count_cons_of_ne (by rintro rfl; exact ns (skipped hx))] at this }

/-- A count that stays above zero gets one less. -/
theorem decrement (u : Underway h₀ due h (o :: rest) freed) (ho : o ∈ h.counted)
    (ns : h₀.count o ≠ Header.stuck) (many : 1 < h.count o) {new : Header}
    (flags : new.SameFlags (h.view o).header) (count : new.count = h.count o - 1) :
    Underway h₀ due (h.putHeader o new) rest freed := by
  have known : o ∈ h.known := .inl ho
  have view {x : Ref} (hx : x ∈ h.known) := h.view_putHeader u.wellFormed.laid known hx new
  have count_self : (h.putHeader o new).count o = h.count o - 1 := by
    rw [Heap.count, view known, if_pos rfl, count]
  have count_other {x : Ref} (hx : x ∈ h.counted) (ne : x ≠ o) :
      (h.putHeader o new).count x = h.count x := by
    rw [Heap.count, view (.inl hx), if_neg ne, Heap.count]
  exact {
    wellFormed := u.wellFormed.putHeader known new
    shrunk := u.shrunk.trans (.of_eq rfl rfl)
    outer := u.outer
    nodup := u.nodup
    freed_unstuck := u.freed_unstuck
    mem_counted := u.mem_counted
    same := fun x hx => by
      rw [view hx]
      split
      · next e =>
        subst e
        exact ObjectView.SameButCount.trans ⟨flags, rfl, rfl, rfl⟩ (u.same x hx)
      · exact u.same x hx
    keeps := u.keeps.trans (.of_putHeader known new) u.known_subset
    pending_known := fun x hx => u.pending_known x (List.mem_cons_of_mem _ hx)
    balance := fun x hx ns => by
      have := u.balance x hx ns
      by_cases e : x = o
      · subst e
        rw [List.count_cons_self] at this
        rw [count_self]
        omega
      · rw [List.count_cons_of_ne (Ne.symm e)] at this
        rwa [count_other hx e]
    count_le := fun x hx => by
      have := u.count_le x hx
      by_cases e : x = o
      · subst e
        rw [count_self]
        omega
      · rwa [count_other hx e]
    positive := fun x hx pos => by
      by_cases e : x = o
      · subst e
        rw [count_self]
        omega
      · rw [count_other hx e]
        exact u.positive x hx pos
    stuck := fun x hx st => by
      rw [count_other hx (by rintro rfl; exact ns st)]
      exact u.stuck x hx st
    referrers := u.referrers
    below := u.below }

/-- The last entry of an object comes when no other object left refers to it. -/
theorem last_entry (u : Underway h₀ due h (o :: rest) freed) (pay : Payable h₀ due)
    (ho : o ∈ h.counted) (ns : h₀.count o ≠ Header.stuck) (one : h.count o = 1) :
    h₀.owed h₀.counted o = h₀.owed freed.toFinset o ∧ rest.count o = 0 := by
  have share := u.share pay ho ns
  have mono := Heap.owed_mono (h := h₀) u.freed_subset o
  rw [List.count_cons_self] at share
  omega

theorem owes_eq_zero {y : Ref} (u : Underway h₀ due h pending freed)
    (owed : h₀.owed h₀.counted o = h₀.owed freed.toFinset o) (hy : y ∈ h₀.counted)
    (left : y ∉ freed) : (h₀.view y).owes o = 0 := by
  have le : h₀.owed (insert y freed.toFinset) o ≤ h₀.owed h₀.counted o :=
    Heap.owed_mono (Finset.insert_subset hy u.freed_subset) o
  rw [Heap.owed_insert (by simpa using left)] at le
  omega

/-- A counted referent of an object that is left is itself left, with a count. -/
theorem referent_left (u : Underway h₀ due h pending freed) (pay : Payable h₀ due)
    (ho : o ∈ h.counted) (hx : x ∈ h₀.counted) (owes : (h₀.view o).owes x ≠ 0) :
    x ∈ h.counted ∧ h.count x ≠ 0 := by
  obtain ⟨ho₀, left⟩ := (u.mem_counted o).1 ho
  have hx' : x ∈ h.counted :=
    (u.mem_counted x).2 ⟨hx, fun gone => left (u.referrers x gone o ho₀ owes)⟩
  refine ⟨hx', ?_⟩
  by_cases st : h₀.count x = Header.stuck
  · rw [u.stuck x hx' st]
    decide
  · have share := u.share pay hx' st
    have le : h₀.owed (insert o freed.toFinset) x ≤ h₀.owed h₀.counted x :=
      Heap.owed_mono (Finset.insert_subset ho₀ u.freed_subset) x
    rw [Heap.owed_insert (by simpa using left)] at le
    omega

/-- An object whose last entry was worked off is in every closed set. -/
theorem mem_closed {S : Finset Ref} (u : Underway h₀ due h (o :: rest) freed)
    (pay : Payable h₀ due) (ho : o ∈ h.counted) (ns : h₀.count o ≠ Header.stuck)
    (one : h.count o = 1) (closed : Closed h₀ due S) : o ∈ S := by
  have ho₀ : o ∈ h₀.unstuck := Heap.mem_unstuck.2 ⟨((u.mem_counted o).1 ho).1, ns⟩
  obtain ⟨alone, entries⟩ := u.last_entry pay ho ns one
  have balance := u.balance o ho ns
  rw [List.count_cons_self, entries, one] at balance
  -- the freed objects alone make up the count of `o`, so a larger set does, too
  have h₁ := Heap.owed_mono (h := h₀) (u.below S closed) o
  have h₂ : h₀.owed S o ≤ h₀.owed h₀.counted o :=
    Heap.owed_mono (fun x hx => (Heap.mem_unstuck.1 (closed.unstuck hx)).1) o
  have le := u.count_le o ho
  exact closed.closed o ho₀ (by omega) (by omega)

/-- An object whose last entry was worked off is freed, and its references are due. -/
theorem free (u : Underway h₀ due h (o :: rest) freed) (pay : Payable h₀ due)
    (ho : o ∈ h.counted) (ns : h₀.count o ≠ Header.stuck) (one : h.count o = 1)
    {new : Header} {q : Pool Ref} {h' : Heap} {dropped : List Ref}
    (f : Freed o ((h.putHeader o new).putPool .decrements q) h')
    (count : ∀ x ∈ h₀.counted, x ≠ o → dropped.count x = (h₀.view o).owes x)
    (owed : ∀ x ∈ dropped, x ∈ h₀.counted ∧ (h₀.view o).owes x ≠ 0) :
    Underway h₀ due h' (rest ++ dropped) (o :: freed) := by
  have known : o ∈ h.known := .inl ho
  obtain ⟨ho₀, left⟩ := (u.mem_counted o).1 ho
  -- only freed objects refer to `o`, and no other entry names it
  obtain ⟨alone, entries⟩ := u.last_entry pay ho ns one
  have wf : ((h.putHeader o new).putPool .decrements q).WellFormed :=
    (u.wellFormed.putHeader known new).congr rfl rfl rfl (u.wellFormed.laid.putHeader known new)
  have kept : Shrunk h ((h.putHeader o new).putPool .decrements q) := .of_eq rfl rfl
  have mem {x : Ref} : x ∈ h'.counted ↔ x ∈ h.counted ∧ x ≠ o := f.mem_counted wf
  have other {x : Ref} (hx : x ∈ h'.known) : x ∈ h.known ∧ x ≠ o :=
    ⟨f.known_subset wf hx, f.ne_of_known wf ho hx⟩
  have view {x : Ref} (hx : x ∈ h'.known) : h'.view x = h.view x := by
    obtain ⟨hx, ne⟩ := other hx
    rw [f.view_eq]
    exact (h.view_putHeader u.wellFormed.laid known hx new).trans (if_neg ne)
  have same_count {x : Ref} (hx : x ∈ h'.counted) : h'.count x = h.count x := by
    rw [Heap.count, view (.inl hx), Heap.count]
  have insert_eq : (o :: freed).toFinset = insert o freed.toFinset := List.toFinset_cons
  exact {
    wellFormed := f.wellFormed wf
    shrunk := (u.shrunk.trans kept).trans (f.shrunk wf)
    outer := by
      have := f.frame_eq
      rw [Heap.outer, this]
      exact u.outer
    nodup := List.nodup_cons.2 ⟨left, u.nodup⟩
    freed_unstuck := List.forall_mem_cons.2 ⟨Heap.mem_unstuck.2 ⟨ho₀, ns⟩, u.freed_unstuck⟩
    mem_counted := fun x => by
      rw [mem, u.mem_counted, List.mem_cons, not_or, and_assoc, and_comm (a := x ∉ freed)]
    same := fun x hx => by rw [view hx]; exact u.same x (other hx).1
    keeps := (u.keeps.trans (.of_putHeader known new) u.known_subset).trans
      (.of_memory f.memory_eq) u.known_subset
    pending_known := fun x hx => by
      rcases List.mem_append.1 hx with hx | hx
      · rcases u.pending_known x (List.mem_cons_of_mem _ hx) with hc | hp
        · refine .inl (mem.2 ⟨hc, ?_⟩)
          rintro rfl
          exact List.count_eq_zero.1 entries hx
        · exact .inr (by rw [f.permanent_eq]; exact hp)
      · obtain ⟨hx₀, owes⟩ := owed x hx
        refine .inl (mem.2 ⟨(u.referent_left pay ho hx₀ owes).1, ?_⟩)
        rintro rfl
        exact owes (u.owes_eq_zero alone ho₀ left)
    balance := fun x hx ns' => by
      obtain ⟨hx', ne⟩ := mem.1 hx
      have := u.balance x hx' ns'
      rw [List.count_cons_of_ne (Ne.symm ne)] at this
      rw [same_count hx, List.count_append, count x ((u.mem_counted x).1 hx').1 ne, insert_eq,
        Heap.owed_insert (by simpa using left)]
      omega
    count_le := fun x hx => by rw [same_count hx]; exact u.count_le x (mem.1 hx).1
    positive := fun x hx => by rw [same_count hx]; exact u.positive x (mem.1 hx).1
    stuck := fun x hx => by rw [same_count hx]; exact u.stuck x (mem.1 hx).1
    referrers := fun x hx y hy owes => by
      rcases List.mem_cons.1 hx with rfl | hx
      · by_contra gone
        exact owes (u.owes_eq_zero alone hy fun h => gone (List.mem_cons_of_mem _ h))
      · exact List.mem_cons_of_mem _ (u.referrers x hx y hy owes)
    below := fun S closed => by
      rw [insert_eq]
      exact Finset.insert_subset (u.mem_closed pay ho ns one closed) (u.below S closed) }

/-- The set of freed objects is determined: no set without one of them is closed. -/
theorem isLeast (u : Underway h₀ due h [] freed) :
    IsLeast {S | Closed h₀ due S} freed.toFinset := by
  refine ⟨⟨fun x hx => u.freed_unstuck x (by simpa using hx), fun o ho pos e => ?_⟩, u.below⟩
  by_contra left
  obtain ⟨ho, ns⟩ := Heap.mem_unstuck.1 ho
  have ho' : o ∈ h.counted := (u.mem_counted o).2 ⟨ho, by simpa using left⟩
  have balance := u.balance o ho' ns
  have := u.positive o ho' (Nat.ne_of_gt pos)
  rw [List.count_nil] at balance
  omega

end Underway

/-! ## Working off an entry -/

/-- The number of slots of a set of objects. -/
def Heap.slots (h : Heap) (S : Finset Ref) : Nat := ∑ x ∈ S, (h.view x).targets.length

/-- An entry of `o` was worked off with the buffer `b`, and the references `dropped` became due. The
result says whether the object was freed. -/
structure Worked (h₀ : Heap) (due : List Ref) (h : Heap) (b : Buffer Ref) (o : Ref)
    (rest freed : List Ref) (result : Bool × Buffer Ref) (h' : Heap) (dropped : List Ref) :
    Prop where
  run : HeapM.processDecrement b o h = .ok result h'
  frame : h'.frame = h.frame
  pools : Pools.Follows .decrements h.pools h'.pools
  entries : result.2.both h'.pools.decrements = b.both h.pools.decrements ++ dropped
  capacity : result.2.capacity = b.capacity
  underway : Underway h₀ due h' (rest ++ dropped) (if result.1 then o :: freed else freed)
  slots : h₀.slots h'.counted + dropped.length ≤ h₀.slots h.counted

namespace Underway

variable {h₀ h : Heap} {due pending rest freed : List Ref} {o x : Ref}

theorem worked_skip (u : Underway h₀ due h (o :: rest) freed)
    (skipped : o ∈ h.counted → h₀.count o = Header.stuck) {b : Buffer Ref}
    (run : HeapM.processDecrement b o h = .ok (false, b) h) :
    Worked h₀ due h b o rest freed (false, b) h [] where
  run := run
  frame := rfl
  pools := .refl ..
  entries := (List.append_nil _).symm
  capacity := rfl
  underway := by
    rw [List.append_nil]
    exact u.skip skipped
  slots := Nat.le_refl _

theorem worked_counted (u : Underway h₀ due h (o :: rest) freed) (ho : o ∈ h.counted)
    (ns : h₀.count o ≠ Header.stuck) (many : 1 < h.count o) (b : Buffer Ref) :
    ∃ h', Worked h₀ due h b o rest freed (false, b) h' [] := by
  obtain ⟨new, some, flags, count⟩ :=
    Header.decrement_some (Nat.ne_of_gt (Nat.lt_trans Nat.zero_lt_one many))
      (u.count_ne_stuck ho ns)
  exact ⟨h.putHeader o new, {
    run := HeapM.processDecrement_counted (u.wellFormed.isCounted_of_mem ho)
      (u.wellFormed.placed (.inl ho)) some (Nat.ne_of_gt many)
    frame := rfl
    pools := .refl ..
    entries := (List.append_nil _).symm
    capacity := rfl
    underway := by
      rw [List.append_nil]
      exact u.decrement ho ns many flags count
    slots := Nat.le_refl _ }⟩

theorem worked_last (u : Underway h₀ due h (o :: rest) freed) (pay : Payable h₀ due)
    (ho : o ∈ h.counted) (ns : h₀.count o ≠ Header.stuck) (one : h.count o = 1) (b : Buffer Ref) :
    ∃ b' h' dropped, Worked h₀ due h b o rest freed (true, b') h' dropped := by
  obtain ⟨ho₀, -⟩ := (u.mem_counted o).1 ho
  have same := u.same o (.inl ho)
  -- a reference that was counted leads to an object that is left
  have known : ∀ x, (h.view o).owes x ≠ 0 → x ∈ h.known := by
    intro x owes
    rw [same.owes_eq] at owes
    rcases pay.slots_known o ho₀ x (ObjectView.owes_ne_zero.1 owes).2 with hc | hp
    · exact .inl (u.referent_left pay ho hc owes).1
    · exact .inr (u.permanent_eq ▸ hp)
  -- the count reaches zero, so the object gives up its references and is freed
  obtain ⟨new, some, flags, -⟩ :=
    Header.decrement_some
      (show (h.view o).header.count ≠ 0 by rw [← Heap.count, one]; decide)
      (u.count_ne_stuck ho ns)
  obtain ⟨b', q, h', run, f, both, capacity, solid⟩ :=
    HeapM.processDecrement_last (b := b) u.wellFormed ho some flags one known
  have view {x : Ref} (hx : x ∈ h.known) := h.view_putHeader u.wellFormed.laid (.inl ho) hx new
  have left : ((h.putHeader o new).view o).SameButCount (h.view o) := by
    rw [view (.inl ho), if_pos rfl]
    exact ⟨flags, rfl, rfl, rfl⟩
  have owed : ∀ x ∈ (h.putHeader o new).givenUp o,
      x ∈ h₀.counted ∧ (h₀.view o).owes x ≠ 0 := by
    intro x hx
    obtain ⟨counted, owes⟩ := Heap.mem_givenUp hx
    rw [left.owes_eq] at owes
    exact ⟨((u.mem_counted x).1 ((u.wellFormed.isCounted_iff (known x owes)).1 counted)).1,
      same.owes_eq x ▸ owes⟩
  have count : ∀ x ∈ h₀.counted, x ≠ o →
      ((h.putHeader o new).givenUp o).count x = (h₀.view o).owes x := by
    intro x hx ne
    rw [← same.owes_eq, ← left.owes_eq]
    refine Heap.count_givenUp fun owes => ?_
    rw [left.owes_eq, same.owes_eq] at owes
    obtain ⟨hx', pos⟩ := u.referent_left pay ho hx owes
    refine ⟨u.wellFormed.isCounted_of_mem hx', ?_⟩
    rwa [Heap.count, view (.inl hx'), if_neg ne]
  have wf : ((h.putHeader o new).putPool .decrements q).WellFormed :=
    (u.wellFormed.putHeader (.inl ho) new).congr rfl rfl rfl
      (u.wellFormed.laid.putHeader (.inl ho) new)
  refine ⟨b', h', _, run, f.frame_eq, f.pools_eq ▸ .of_set solid, ?_, capacity,
    u.free pay ho ns one f count owed, ?_⟩
  · rw [f.pools_eq]
    exact both
  · have erased : h'.counted = h.counted.erase o := f.counted_eq wf
    have length : ((h.putHeader o new).givenUp o).length ≤ (h₀.view o).targets.length := by
      rw [← same.targets, ← left.targets]
      exact Heap.length_givenUp_le
    have := Finset.sum_erase_add h.counted (fun x => (h₀.view x).targets.length) ho
    rw [Heap.slots, erased, Heap.slots]
    omega

/-- An entry can be worked off, whichever is taken next. -/
theorem step (u : Underway h₀ due h pending freed) (pay : Payable h₀ due)
    (perm : pending.Perm (o :: rest)) (b : Buffer Ref) :
    ∃ result h' dropped, Worked h₀ due h b o rest freed result h' dropped := by
  have u : Underway h₀ due h (o :: rest) freed := u.congr rfl rfl rfl rfl perm
  by_cases ho : o ∈ h.counted
  · have co := u.wellFormed.isCounted_of_mem ho
    by_cases st : h₀.count o = Header.stuck
    · exact ⟨_, _, _, u.worked_skip (fun _ => st) (HeapM.processDecrement_stuck co
        (u.wellFormed.placed (.inl ho)) (u.stuck o ho st))⟩
    · have share := u.share pay ho st
      have mono := Heap.owed_mono (h := h₀) u.freed_subset o
      rw [List.count_cons_self] at share
      by_cases one : h.count o = 1
      · obtain ⟨b', h', dropped, w⟩ := u.worked_last pay ho st one b
        exact ⟨_, _, _, w⟩
      · obtain ⟨h', w⟩ := u.worked_counted ho st (by omega) b
        exact ⟨_, _, _, w⟩
  · have nc : h.isCounted o = false :=
      Bool.eq_false_iff.2 fun co =>
        ho ((u.wellFormed.isCounted_iff (u.pending_known o List.mem_cons_self)).1 co)
    exact ⟨_, _, _, u.worked_skip (fun h => absurd h ho) (HeapM.processDecrement_uncounted nc)⟩

end Underway

end DeferredCount
