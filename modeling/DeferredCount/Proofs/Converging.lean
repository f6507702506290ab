import DeferredCount.Proofs.Lockstep
import DeferredCount.Proofs.Reclaiming
import DeferredCount.Proofs.Relogging

/-!
# What was logged does not decide what an increment leaves

A logged object stands for all of its slots, a logged field for one, and a logged quantum for a few.
So two instances in lockstep count different references and work off different decrements. What
they have in common can be told from the slots. A fresh object is scanned if a root, an object that
is not fresh, or another scanned object refers to it. An object is freed if nobody who is left
refers to it, provided that its count is not zero already. In neither does it matter what was
logged.

It would matter to a count that is stuck, since that forgot what it stood for.

Results:
1. `Elapsed.gains_pos_iff`: which fresh objects are scanned.
2. `Elapsed.mem_decrements_iff`: which objects are owed a decrement when nobody refers to them.
3. `Sequel.converge`: increments of instances in lockstep leave the same.
-/

namespace DeferredCount

/-! ## Entries and slots -/

namespace Elapsed

variable {h₀ h : Heap} {e : Entries} {x o : Ref} {i : Nat}

/-- A slot that refers to a fresh object is open, since it changed after the last collection. -/
theorem open_of_fresh (t : Elapsed h₀ {} e h) (exact : Exact h₀ h₀.oldRoots) (hx : x ∈ h.known)
    (slot : (h.view x).target i = some o) (inside : i < (h.view x).targets.length)
    (fresh : (h.view o).header.fresh = true) : h.Open e x i := by
  by_cases old : x ∈ h₀.known
  · by_contra closed
    -- the slot would refer to an object that was there, and none of them was fresh
    have kept := t.kept x old i closed
    have length := (t.later x old).length
    have refers : o ∈ (h₀.view x).referents :=
      ObjectView.mem_referents_iff.2 ⟨i, length ▸ inside, kept.symm.trans slot⟩
    have known := exact.cleared.slots_known x old o refers
    rw [(t.later o known).fresh, (exact.blank known).stale] at fresh
    cases fresh
  · rcases t.born x hx old with fresh | logged
    · exact .inl fresh
    · exact .inr (.inl logged)

/-- A fresh object is asked for by roots, by objects that are not fresh, and by scanned objects. -/
theorem gains_pos_iff (t : Elapsed h₀ {} e h) (exact : Exact h₀ h₀.oldRoots) {roots : List Ref}
    {S : Finset Ref} (fresh : (h.view o).header.fresh = true) :
    0 < h.gains roots e.objects e.fields S o ↔ o ∈ roots ∨
      (∃ x ∈ h.known, (h.view x).header.fresh = false ∧ o ∈ (h.view x).referents) ∨
      ∃ x ∈ S, o ∈ (h.view x).referents := by
  rw [Heap.gains_pos]
  refine or_congr_right (or_congr_left ⟨?_, ?_⟩)
  · rintro (⟨x, hx, slot⟩ | ⟨k, hk, slot⟩)
    · have known := t.ledger.objects_known x hx
      have agrees := t.ledger.agrees x known
      have logged := agrees.logged.1 hx
      exact ⟨x, known, (agrees.of_logged logged).1, slot⟩
    · have known := t.ledger.fields_known k hk
      obtain ⟨-, -, stale⟩ := (t.ledger.agrees _ known).fields k hk rfl
      exact ⟨k.object, known, stale, Ticket.mem_referents slot⟩
  · rintro ⟨x, hx, stale, refers⟩
    obtain ⟨i, hi, slot⟩ := ObjectView.mem_referents_iff.1 refers
    rcases t.open_of_fresh exact hx slot hi fresh with fresh' | logged | ⟨k, hk, rfl, covers⟩
    · rw [stale] at fresh'
      cases fresh'
    · exact .inl ⟨x, (t.ledger.agrees x hx).logged.2 logged, refers⟩
    · refine .inr ⟨k, hk, ?_⟩
      have covered := Ticket.mem_targets covers hi
      rw [slot] at covered
      exact List.mem_filterMap.2 ⟨some o, covered, rfl⟩

/-- An object to which no older one refers any more is owed a decrement if one did at first, or if
it is new. -/
theorem mem_decrements_iff (t : Elapsed h₀ {} e h) (exact : Exact h₀ h₀.oldRoots)
    (gone : ∀ x ∈ h₀.known, o ∉ (h.view x).referents) :
    o ∈ e.decrements ↔
      (∃ x ∈ h₀.known, o ∈ (h₀.view x).referents) ∨ (o ∈ h.counted ∧ o ∉ h₀.known) := by
  constructor
  · intro owed
    have pos := List.count_pos_iff.2 owed
    rw [t.pending] at pos
    by_cases new : o ∈ h.counted ∧ o ∉ h₀.known
    · exact .inr new
    · rw [if_neg new, Nat.add_zero, Heap.covered_pos] at pos
      left
      rcases pos with ⟨x, hx, slot⟩ | ⟨k, hk, slot⟩
      · exact ⟨x, of_decide_eq_true (List.mem_filter.1 hx).2, slot⟩
      · exact ⟨k.object, t.field_old hk, Ticket.mem_referents slot⟩
  · rintro (⟨x, hx, refers⟩ | new)
    · -- the slot changed, so it was logged
      obtain ⟨i, hi, slot⟩ := ObjectView.mem_referents_iff.1 refers
      have opened : h.Open e x i := by
        by_contra closed
        have kept := t.kept x hx i closed
        refine gone x hx (ObjectView.mem_referents_iff.2 ⟨i, ?_, kept.trans slot⟩)
        rw [(t.later x hx).length]
        exact hi
      exact (t.logs exact.ledger hx (exact.blank hx) hi opened).owed o slot
    · refine List.count_pos_iff.1 ?_
      rw [t.pending, if_pos new]
      exact Nat.succ_pos _

end Elapsed

/-- Sets of objects to be scanned are the same in heaps that are alike. -/
theorem Closes.alike {h₀ k₀ h k : Heap} {e d : Entries} {roots : List Ref} {S : Finset Ref}
    (c : Closes h roots e.objects e.fields S) (a : h.Alike k) (t : Elapsed h₀ {} e h)
    (exact : Exact h₀ h₀.oldRoots) (t' : Elapsed k₀ {} d k) (exact' : Exact k₀ k₀.oldRoots) :
    Closes k roots d.objects d.fields S where
  fresh x hx := by
    obtain ⟨counted, fresh⟩ := c.fresh x hx
    rw [a.counted_eq, (a.view x (.inl counted)).fresh]
    exact ⟨counted, fresh⟩
  closed o ho fresh pos := by
    have pos := (t'.gains_pos_iff exact' fresh).1 pos
    rw [a.counted_eq] at ho
    rw [(a.view o (.inl ho)).fresh] at fresh
    refine c.closed o ho fresh ((t.gains_pos_iff exact fresh).2 ?_)
    rcases pos with root | ⟨x, hx, stale, slot⟩ | ⟨x, hx, slot⟩
    · exact .inl root
    · rw [a.known_eq] at hx
      rw [(a.view x hx).fresh] at stale
      rw [ObjectView.referents, a.targets_eq hx] at slot
      exact .inr (.inl ⟨x, hx, stale, slot⟩)
    · rw [ObjectView.referents, a.targets_eq (.inl (c.fresh x hx).1)] at slot
      exact .inr (.inr ⟨x, hx, slot⟩)

/-! ## Two increments -/

/-- What decrements due and a set of objects make up of a count, in terms of the references that the
set leaves. -/
theorem Tallied.whole_iff {h : Heap} {due roots : List Ref} (t : Tallied h due roots) {o : Ref}
    (ho : o ∈ h.unstuck) (S : Finset Ref) : due.count o + h.owed S o = h.count o ↔
      h.owed S o = h.owed (h.counted ∪ h.permanents) o + roots.count o := by
  obtain ⟨counted, unstuck⟩ := Heap.mem_unstuck.1 ho
  have balance := t.balance o counted unstuck
  omega

/-- A collection left the heap `h₀`, the entries `e` came, and an increment followed that scanned
the objects `N`, which left the heap `g`, and freed the objects `F`. No count is stuck in the
end. -/
structure Sequel (h₀ h : Heap) (e : Entries) (N : Finset Ref) (g : Heap) (F : Finset Ref)
    (h' : Heap) : Prop where
  exact : Exact h₀ h₀.oldRoots
  elapsed : Elapsed h₀ {} e h
  incremented : Incremented h e N g F h'
  unstuck : ∀ o ∈ h'.counted, h'.count o ≠ Header.stuck

namespace Sequel

variable {h₀ k₀ h k g f h' k' : Heap} {e d : Entries} {N M F G S : Finset Ref} {o : Ref}

/-- The objects of the scanned heap. -/
theorem known_eq (s : Sequel h₀ h e N g F h') : g.known = h.known := s.incremented.known_eq

/-- No count is stuck after counting. -/
theorem mem_unstuck (s : Sequel h₀ h e N g F h') : o ∈ g.unstuck ↔ o ∈ h.counted :=
  s.incremented.mem_unstuck s.unstuck

/-- When nobody refers to an object, its count is positive for a reason that lies before the
increment. -/
theorem count_pos_iff (s : Sequel h₀ h e N g F h') (ho : o ∈ h.counted)
    (unowed : g.owed (g.counted ∪ g.permanents) o = 0)
    (unrooted : h.client.scanRoots.state.count o = 0) : 0 < g.count o ↔
      ((∃ x ∈ h₀.known, o ∈ (h₀.view x).referents) ∨ (o ∈ h.counted ∧ o ∉ h₀.known)) ∨
        o ∈ h.oldRoots := by
  have t := s.elapsed
  obtain ⟨counted, unstuck⟩ := Heap.mem_unstuck.1 (s.mem_unstuck.2 ho)
  have balance := s.incremented.tallied.balance o counted unstuck
  rw [unowed, unrooted, Nat.zero_add, Nat.add_zero] at balance
  -- older objects are not fresh, so all their references count
  have gone : ∀ x ∈ h₀.known, o ∉ (h.view x).referents := by
    intro x hx refers
    have known := t.known hx
    have grown := s.incremented.view x known
    have stale : (g.view x).header.fresh = false := by
      rw [Bool.eq_false_iff]
      intro fresh
      have before := (grown.fresh.1 fresh).1
      rw [(t.later x hx).fresh, (s.exact.blank hx).stale] at before
      cases before
    have owes : (g.view x).owes o ≠ 0 := by
      rw [ObjectView.owes_ne_zero, ObjectView.referents, grown.targets]
      exact ⟨stale, refers⟩
    refine owes ((Finset.sum_eq_zero_iff.1 unowed) x ?_)
    rw [Heap.mem_union_permanents, s.known_eq]
    exact known
  rw [balance, List.count_pos_iff, List.mem_append, t.mem_decrements_iff s.exact gone]

/-- The same objects are scanned. -/
theorem scanned_eq (s : Sequel h₀ h e N g F h') (s' : Sequel k₀ k d M f G k') (a : h.Alike k) :
    N = M := by
  have roots : k.client.scanRoots.state = h.client.scanRoots.state := by rw [a.client]
  have least := s'.incremented.scanned
  rw [roots] at least
  refine s.incremented.scanned.unique ⟨?_, fun T closes => ?_⟩
  · exact Closes.alike least.1 a.symm s'.elapsed s'.exact s.elapsed s.exact
  · exact least.2 (Closes.alike closes a s.elapsed s.exact s'.elapsed s'.exact)

/-- The same references are counted. -/
theorem owed_eq (s : Sequel h₀ h e N g F h') (s' : Sequel k₀ k d M f G k') (a : h.Alike k)
    (known : ∀ x ∈ S, x ∈ h.known) (o : Ref) : f.owed S o = g.owed S o := by
  refine Heap.owed_congr (fun x hx => ?_) o
  have grown := s.incremented.view x (known x hx)
  have grown' := s'.incremented.view x (a.known_eq ▸ known x hx)
  rw [← s.scanned_eq s' a] at grown'
  refine ⟨?_, Bool.eq_iff_iff.2 ?_⟩
  · rw [grown.targets, grown'.targets, a.targets_eq (known x hx)]
  · rw [grown.fresh, grown'.fresh, (a.view x (known x hx)).fresh]

/-- A set that is closed in one of them is closed in the other. -/
theorem closed (s : Sequel h₀ h e N g F h') (s' : Sequel k₀ k d M f G k') (a₀ : h₀.Alike k₀)
    (a : h.Alike k) (c : Closed g (e.decrements ++ h.oldRoots) S) :
    Closed f (d.decrements ++ k.oldRoots) S where
  unstuck o ho := by
    rw [s'.mem_unstuck, a.counted_eq]
    exact s.mem_unstuck.1 (c.unstuck ho)
  closed o ho pos whole := by
    have counted : o ∈ h.counted := a.counted_eq ▸ s'.mem_unstuck.1 ho
    have mine := s.mem_unstuck.2 counted
    have all : f.counted ∪ f.permanents = g.counted ∪ g.permanents := by
      simp only [Heap.permanents, s.incremented.counted, s'.incremented.counted,
        s.incremented.permanent, s'.incremented.permanent, a.counted_eq, a.permanent]
    have inside : ∀ x ∈ S, x ∈ h.known := fun x hx => .inl (s.mem_unstuck.1 (c.unstuck hx))
    have union : ∀ x ∈ g.counted ∪ g.permanents, x ∈ h.known := fun x hx =>
      s.known_eq ▸ Heap.mem_union_permanents.1 hx
    have roots : k.client.scanRoots.state = h.client.scanRoots.state := by rw [a.client]
    have rest := (s'.incremented.tallied.whole_iff ho S).1 whole
    rw [roots, all, s.owed_eq s' a inside, s.owed_eq s' a union] at rest
    have whole := (s.incremented.tallied.whole_iff mine S).2 rest
    refine c.closed o mine ?_ whole
    by_cases none : g.owed S o = 0
    · -- nobody refers to the object, so its count stands for what there was before
      have unowed : g.owed (g.counted ∪ g.permanents) o = 0 := by omega
      have unrooted : h.client.scanRoots.state.count o = 0 := by omega
      rw [s.count_pos_iff counted unowed unrooted]
      rw [s'.count_pos_iff (a.counted_eq ▸ counted) (by rw [all, s.owed_eq s' a union, unowed])
        (by rw [roots, unrooted]), a₀.known_eq, a.counted_eq, a.oldRoots] at pos
      refine pos.imp_left (Or.imp_left ?_)
      rintro ⟨x, hx, refers⟩
      rw [ObjectView.referents, a₀.targets_eq hx] at refers
      exact ⟨x, hx, refers⟩
    · omega

/-- The same objects are freed. -/
theorem freed_eq (s : Sequel h₀ h e N g F h') (s' : Sequel k₀ k d M f G k') (a₀ : h₀.Alike k₀)
    (a : h.Alike k) : F = G := by
  have least := s'.incremented.reclaimed.least
  refine s.incremented.reclaimed.least.unique ⟨?_, fun T closed => ?_⟩
  · exact s'.closed s a₀.symm a.symm least.1
  · exact least.2 (s.closed s' a₀ a closed)

/-- Increments of instances in lockstep leave the same objects with the same slots and the same
counts. -/
theorem converge (s : Sequel h₀ h e N g F h') (s' : Sequel k₀ k d M f G k') (a₀ : h₀.Alike k₀)
    (a : h.Alike k) {ms ns : List Mutator} (c : Collected h ms h') (c' : Collected k ns k') :
    k'.counted = h'.counted ∧ k'.known = h'.known ∧
      (∀ x ∈ h'.known, (k'.view x).targets = (h'.view x).targets) ∧
      ∀ o ∈ h'.counted, k'.count o = h'.count o := by
  have counted : k'.counted = h'.counted := by
    rw [s.incremented.reclaimed.counted, s'.incremented.reclaimed.counted, s.incremented.counted,
      s'.incremented.counted, a.counted_eq, s.freed_eq s' a₀ a]
  have permanent : k'.permanent = h'.permanent := by
    rw [c.permanent, c'.permanent, a.permanent]
  have known : k'.known = h'.known := by rw [Heap.known, Heap.known, counted, permanent]
  have targets : ∀ x ∈ h'.known, (k'.view x).targets = (h'.view x).targets := by
    intro x hx
    have before := c.known hx
    rw [c.targets x before, c'.targets x (a.known_eq ▸ before), a.targets_eq before]
  refine ⟨counted, known, targets, fun o ho => ?_⟩
  have permanents : k'.permanents = h'.permanents := by
    rw [Heap.permanents, Heap.permanents, permanent]
  have references : k'.references (h'.counted ∪ h'.permanents) o =
      h'.references (h'.counted ∪ h'.permanents) o :=
    Finset.sum_congr rfl fun x hx => by
      rw [ObjectView.references, targets x (Heap.mem_union_permanents.1 hx), ObjectView.references]
  have ho' : o ∈ k'.counted := counted ▸ ho
  rw [c.exact.count o ho (s.unstuck o ho), c'.exact.count o ho' (s'.unstuck o ho'), counted,
    permanents, references, a.client]

end Sequel

end DeferredCount
