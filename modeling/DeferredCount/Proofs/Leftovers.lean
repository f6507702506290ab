import DeferredCount.Proofs.Running

/-!
# Two cycle collections in a row

A cycle collection keeps what the references of logged objects and fields lead to, although nothing
else may refer to it by then. It leaves no entries itself. So a second one with the same roots, if
no mutator acts in between, leaves exactly what can be reached.

Results:
1. `Retained.counted_iff`: what a cycle collection leaves when there are no entries.
2. `cycle_collections_leave_reachable`: what two of them leave after any run.
-/

namespace DeferredCount

namespace Heap

variable {h k : Heap} {roots : List Ref} {o : Ref}

/-- What can be reached depends on the permanent objects and on the slots of what can be reached. -/
theorem Reachable.congr (r : h.Reachable roots o) (permanent : k.permanent = h.permanent)
    (targets : ∀ x, h.Reachable roots x → (k.view x).targets = (h.view x).targets) :
    k.Reachable roots o := by
  induction r with
  | root ho => exact .root ho
  | permanent ho => exact .permanent (permanent ▸ ho)
  | slot r ho ih =>
    refine .slot ih ?_
    rwa [ObjectView.referents, targets _ r]

theorem not_reachable (none : h.permanent.objects = #[]) : ¬ h.Reachable [] o := by
  intro r
  induction r with
  | root ho => exact List.not_mem_nil ho
  | permanent ho => exact Array.not_mem_empty _ (none ▸ ho)
  | slot _ _ ih => exact ih

/-- A counted object that can be reached is one that a trace gets to. -/
theorem Reachable.reaches (r : h.Reachable roots o) (wf : h.WellFormed) (ho : o ∈ h.counted)
    (known : ∀ x, h.Reachable roots x → x ∈ h.known) :
    h.Reaches (h.permanentReferents ++ roots) o := by
  induction r with
  | root root => exact .start (List.mem_append_right _ root) ho
  | permanent old => exact absurd rfl (wf.permanent_ne old ho)
  | @slot x o r slot ih =>
    rcases known x r with counted | old
    · exact .slot (ih counted) slot ho
    · refine .start (List.mem_append_left _ ?_) ho
      exact List.mem_flatMap.2 ⟨x, Array.mem_toList_iff.2 old, slot⟩

theorem Reaches.reachable (r : h.Reaches (h.permanentReferents ++ roots) o) :
    o ∈ h.counted ∧ h.Reachable roots o := by
  induction r with
  | start hs ho =>
    refine ⟨ho, ?_⟩
    rcases List.mem_append.1 hs with slot | root
    · obtain ⟨x, hx, slot⟩ := List.mem_flatMap.1 slot
      exact .slot (.permanent (Array.mem_toList_iff.1 hx)) slot
    · exact .root root
  | slot _ slot ho ih => exact ⟨ho, .slot ih.2 slot⟩

end Heap

/-- What a cycle collection leaves when there are no entries. -/
theorem Retained.counted_iff {h h' : Heap} (t : Retained h {} h') (wf : h.WellFormed)
    (known : ∀ x, h.Reachable h.client.scanRoots.state x → x ∈ h.known) {o : Ref} :
    o ∈ h'.counted ↔ o ∈ h.counted ∧ h.Reachable h.client.scanRoots.state o := by
  obtain ⟨queued, entries, reach⟩ := t
  obtain rfl : queued = [] := List.eq_nil_iff_forall_not_mem.2 fun x hx =>
    List.not_mem_nil (entries x hx)
  rw [reach, List.append_nil]
  exact ⟨fun r => r.reachable, fun ⟨ho, r⟩ => r.reaches wf ho known⟩

namespace Ready

variable {settings : Settings} {h h' : Heap} {ms ms' : List Mutator} {e : Entries}

theorem known_of_reachable (r : Ready settings h ms e) {o : Ref}
    (reach : h.Reachable h.client.scanRoots.state o) : o ∈ h.known := by
  induction reach with
  | root ho => exact r.roots_known _ ho
  | permanent ho => exact .inr ho
  | slot _ ho ih => exact r.ledger.slots_known _ ih _ ho

end Ready

/-- A collection changes nothing about what can be reached. -/
theorem Collected.reachable_iff {settings : Settings} {h h' : Heap} {ms ms' : List Mutator}
    {e e' : Entries} (c : Collected h ms h') (r : Ready settings h ms e)
    (r' : Ready settings h' ms' e') {o : Ref} :
    h'.client.scanRoots.state = h.client.scanRoots.state ∧
      (h'.Reachable h'.client.scanRoots.state o ↔ h.Reachable h.client.scanRoots.state o) := by
  obtain ⟨calls, client⟩ := c.client
  have roots : h'.client.scanRoots.state = h.client.scanRoots.state := by rw [client]
  refine ⟨roots, fun reach => ?_, fun reach => ?_⟩
  · have := reach.congr c.permanent.symm fun x hx =>
      (c.targets x (c.known (r'.known_of_reachable hx))).symm
    exact roots ▸ this
  · rw [roots]
    exact reach.congr c.permanent fun x hx => c.targets x (r.known_of_reachable hx)

/-- A heap without counted objects has given back all pages of large objects. -/
theorem Ready.empty {settings : Settings} {h : Heap} {ms : List Mutator} {e : Entries}
    (r : Ready settings h ms e) (none : ∀ o, o ∉ h.counted) :
    h.small.liveObjects = [] ∧ h.large.cells.toList = [] ∧ h.large.pages.usage.reserved = 0 := by
  have small : h.small.liveObjects = [] := List.eq_nil_iff_forall_not_mem.2 fun o ho =>
    none o (Heap.mem_counted.2 (.inl ho))
  have large : h.large.objects = [] := List.eq_nil_iff_forall_not_mem.2 fun o ho =>
    none o (Heap.mem_counted.2 (.inr ho))
  have cells : h.large.cells.toList = [] := List.map_eq_nil_iff.1 large
  have pending : h.large.pending.toList = [] := by
    rw [r.stocked.large.pending]
    rfl
  refine ⟨small, cells, ?_⟩
  rw [r.ledger.wellFormed.pages.reserved, LargeSpace.runs, cells, pending]
  rfl

/-- Whatever happened to an instance, two cycle collections that follow each other directly leave
exactly the objects that can be reached from the roots and from permanent objects, in whichever
order their crews work. Garbage is gone even if its count is stuck, if it refers to itself, or if
the first collection kept it because it was logged. Without roots and permanent objects nothing is
left, and no page of a large object. Crews that take turns complete both collections. -/
theorem cycle_collections_leave_reachable {settings : Settings} {h : Heap} {ms : List Mutator}
    (run : Run settings h ms) (collectors : 0 < settings.collectors)
    (capacity : 0 < settings.bufferCapacity) :
    (∃ ms₁ h₁ ms₂ h₂, HeapM.collect .cycle ms h = .ok ms₁ h₁ ∧
      HeapM.collect .cycle ms₁ h₁ = .ok ms₂ h₂) ∧
    ∀ ms₁ h₁ ms₂ h₂, Collects .cycle ms h ms₁ h₁ → Collects .cycle ms₁ h₁ ms₂ h₂ →
      (∀ o, o ∈ h₂.counted ↔
        h.Reachable h.client.scanRoots.state o ∧ o ∉ h.permanent.objects) ∧
      (h₂.permanent = h.permanent ∧
        ∀ x ∈ h₂.known, (h₂.view x).targets = (h.view x).targets) ∧
      (h.client.scanRoots.state = [] → h.permanent.objects = #[] →
        h₂.small.liveObjects = [] ∧ h₂.large.cells.toList = [] ∧
          h₂.large.pages.usage.reserved = 0) := by
  obtain ⟨e, r⟩ := run.ready
  refine ⟨?_, fun ms₁ h₁ ms₂ h₂ first second => ?_⟩
  · obtain ⟨ms₁, h₁, done⟩ := r.collect collectors capacity .cycle
    have r₁ := (r.collected (.of_collect done)).2
    obtain ⟨ms₂, h₂, done'⟩ := r₁.collect collectors capacity .cycle
    exact ⟨ms₁, h₁, ms₂, h₂, done, done'⟩
  obtain ⟨c₁, r₁⟩ := r.collected first
  obtain ⟨c₂, r₂⟩ := r₁.collected second
  have left : ∀ o, o ∈ h₂.counted ↔
      h.Reachable h.client.scanRoots.state o ∧ o ∉ h.permanent.objects := by
    intro o
    rw [(r₁.retained second rfl).counted_iff r₁.ledger.wellFormed
      fun x hx => r₁.known_of_reachable hx, (c₁.reachable_iff r r₁).2, and_comm]
    refine and_congr_right fun reach => ⟨fun counted old => ?_, fun new => ?_⟩
    · exact r₁.ledger.wellFormed.permanent_ne (c₁.permanent ▸ old) counted rfl
    · have known := r₁.known_of_reachable ((c₁.reachable_iff r r₁).2.2 reach)
      exact known.resolve_right (c₁.permanent ▸ new)
  refine ⟨left, ⟨c₂.permanent.trans c₁.permanent, fun x hx => ?_⟩,
    fun roots old => r₂.empty fun o ho => ?_⟩
  · have known := c₂.known hx
    exact (c₂.targets x known).trans (c₁.targets x (c₁.known known))
  · exact Heap.not_reachable old (roots ▸ ((left o).1 ho).1)

/-- A new instance gets a mutator, which allocates an object and stores it in itself. There are no
roots. Do the objects show that? -/
def selfKeeper : Bool :=
  Mutator.bind.holds (fun m => (m.newObject 1 false .default).holds fun (_, m) h =>
    decide (Ref.parent ∈ h.known ∧ 0 < (h.view .parent).targets.length ∧
      (h.view .parent).field 0 = .scalar 0) &&
    (m.write .parent (Ref.parent.slotAddr 0) (some .parent) (.scalar 0)).holds (fun _ h =>
      decide (Ref.parent ∈ h.counted ∧ (h.view .parent).referents = [.parent] ∧
        h.client.scanRoots.state = [] ∧ h.permanent.objects = #[])) h)
    (.ofSettings {})

/-- The object that refers to itself is gone after two cycle collections. -/
theorem cycle_collections_leave_nothing : ∃ h ms ms₁ h₁ ms₂ h₂, Run {} h ms ∧
    (Ref.parent ∈ h.counted ∧ (h.view .parent).referents = [.parent]) ∧
    HeapM.collect .cycle ms h = .ok ms₁ h₁ ∧ HeapM.collect .cycle ms₁ h₁ = .ok ms₂ h₂ ∧
    h₂.small.liveObjects = [] ∧ h₂.large.pages.usage.reserved = 0 := by
  have steps : selfKeeper = true := by decide +kernel
  simp only [selfKeeper, HeapM.holds_iff, Bool.and_eq_true, decide_eq_true_eq] at steps
  obtain ⟨m, h₁, bound, ⟨_, m₁⟩, h₂, made, ⟨parent, slot, field⟩, m₂, h, written, counted,
    referents, roots, permanent⟩ := steps
  have turn₁ : Turn (.ofSettings {}) [] h₁ [m] := .bind bound
  have turn₂ : Turn h₁ ([] ++ [m]) h₂ ([] ++ [m₁]) := .allocate made
  have turn₃ : Turn h₂ ([] ++ [m₁]) h ([] ++ [m₂]) := .write parent slot
    (fun o eq => Option.some.inj eq ▸ parent) (field ▸ written)
  have run : Run {} h [m₂] := ((Run.start.turn turn₁).turn turn₂).turn turn₃
  obtain ⟨⟨ms₁, h₁, ms₂, h₂, done₁, done₂⟩, left⟩ :=
    cycle_collections_leave_reachable run (by decide) (by decide)
  obtain ⟨-, -, nothing⟩ := left ms₁ h₁ ms₂ h₂ (.of_collect done₁) (.of_collect done₂)
  obtain ⟨small, -, pages⟩ := nothing roots permanent
  exact ⟨h, [m₂], ms₁, h₁, ms₂, h₂, run, ⟨counted, referents⟩, done₁, done₂, small, pages⟩

end DeferredCount
