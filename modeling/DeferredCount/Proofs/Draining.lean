import DeferredCount.Proofs.Decrements
import DeferredCount.Proofs.Shifts
import Mathlib.Data.Finset.Powerset
import Mathlib.Data.List.Count

/-!
# Every order of working off decrements

Several collectors work off the decrements of one heap. `Draining.Step` takes any entry that is
left, wherever it lies, and leaves the places of the others open, so it covers every schedule of the
collectors and every order of their buffers and their pool. What a collector takes from its buffer
or the pool is such an entry, so a crew that works side by side (`Shift.Frees`) frees only what is
due. The crew that takes turns works in one of these orders.

Results:
1. `Draining.Step.underway`, `Draining.Step.work_lt`: what one step keeps, and that steps end.
2. `Shift.Paying.decrement`: no decrement that a collector takes fails, at any point of any order.
3. `Shift.Frees.paying`, `Shift.Paying.done`: what one thing that a crew does keeps, and what the
   crew leaves when it is done.
4. `Shift.Paying.goes_on`, `Shift.Voiding.goes_on`: no order of the crew gets stuck.
5. `Collector.processDecrements_eq`: the crew that takes turns is done in the end, in one of the
   orders.
6. `decrements_reach_least_fixpoint`: the objects freed are the least closed set, for every order.
-/

namespace DeferredCount

/-! ## Steps in any order -/

/-- Collectors that work off decrements: the heap they share, the buffer of each, and the objects
they freed, the latest first. -/
structure Draining where
  heap : Heap
  buffers : List (Buffer Ref)
  freed : List Ref := []

/-- The heap with other places for the decrements that are not in buffers. -/
def Heap.withEntries (h : Heap) (q : Pool Ref) (roots : List Ref) : Heap :=
  { h with pools := h.pools.set .decrements q, oldRoots := roots }

/-- The decrements that are due: those in the pool and in the buffers, and the old roots. -/
def Heap.due (h : Heap) (buffers : List (Buffer Ref)) : List Ref :=
  h.pools.decrements.entries ++ buffers.flatMap (·.items.toList) ++ h.oldRoots

namespace Draining

/-- The decrements that are left. -/
def pending (s : Draining) : List Ref := s.heap.due s.buffers

/-- An entry of `o` can be taken, such that the others lie in the pool `q`, the old roots `roots`
and the buffers around and in `b`. -/
def Takes (s : Draining) (o : Ref) (q : Pool Ref) (roots : List Ref)
    (before : List (Buffer Ref)) (b : Buffer Ref) (after : List (Buffer Ref)) : Prop :=
  s.pending.Perm
    (o :: (s.heap.withEntries q roots).due (before ++ b :: after))

/-- A collector takes an entry and works it off. -/
inductive Step : Draining → Draining → Prop
  | work {s : Draining} {o : Ref} {q : Pool Ref} {roots : List Ref}
    {before after : List (Buffer Ref)} {b b' : Buffer Ref} {wasFreed : Bool} {heap : Heap} :
    s.Takes o q roots before b after →
    HeapM.processDecrement b o (s.heap.withEntries q roots) = .ok (wasFreed, b') heap →
    Step s {
      heap, buffers := before ++ b' :: after
      freed := if wasFreed then o :: s.freed else s.freed }

/-- What a collector takes from its buffer or the pool can be taken. -/
theorem Takes.of_take? {s : Draining} {before after : List (Buffer Ref)} {b b' : Buffer Ref}
    {q : Pool Ref} {o : Ref} (split : s.buffers = before ++ b :: after)
    (e : b.take? s.heap.pools.decrements = some (o, b', q)) :
    s.Takes o q s.heap.oldRoots before b' after := by
  refine List.perm_iff_count.2 fun x => ?_
  have := (Buffer.take?_perm e).count_eq x
  simp only [Buffer.both, List.count_append, List.count_cons] at this
  simp only [pending, Heap.due, Heap.withEntries, split, Pools.set, List.flatMap_append,
    List.flatMap_cons, List.count_append, List.count_cons]
  omega

/-- Old roots can be taken as well. -/
theorem Takes.of_pending {s : Draining} {o : Ref} {rest : List Ref} (h : s.pending = o :: rest) :
    s.Takes o { queue := { front := [.ofList rest] } } [] [] ⟨.empty, 1⟩ [] := by
  rw [Takes, h]
  refine List.Perm.cons _ (.of_eq ?_)
  simp [Heap.due, Heap.withEntries, Pools.set, Pool.entries, Pool.blocks, Queue.toList]

/-- The invariant of the steps, for the decrements due in a heap `h₀`. -/
def Invariant (h₀ : Heap) (due : List Ref) (s : Draining) : Prop :=
  Underway h₀ due s.heap s.pending s.freed

variable {h₀ : Heap} {due : List Ref} {s t : Draining}

/-- Whichever entry is taken, it can be worked off. -/
theorem Invariant.worked (inv : Invariant h₀ due s) (pay : Payable h₀ due) {o : Ref} {q : Pool Ref}
    {roots : List Ref} {before after : List (Buffer Ref)} {b : Buffer Ref}
    (takes : s.Takes o q roots before b after) :
    ∃ result h' dropped, Worked h₀ due (s.heap.withEntries q roots) b o
      ((s.heap.withEntries q roots).due (before ++ b :: after)) s.freed result h' dropped := by
  have u : Underway h₀ due (s.heap.withEntries q roots) s.pending s.freed :=
    Underway.congr inv rfl rfl rfl rfl (.refl _)
  exact u.step pay takes b

theorem worked_due {q : Pool Ref} {roots rest freed : List Ref} {o : Ref}
    (before after : List (Buffer Ref)) {b b' : Buffer Ref} {wasFreed : Bool} {h h' : Heap}
    {dropped : List Ref}
    (w : Worked h₀ due (h.withEntries q roots) b o rest freed (wasFreed, b') h' dropped) :
    ((h.withEntries q roots).due (before ++ b :: after) ++ dropped).Perm
      (h'.due (before ++ b' :: after)) := by
  have entries := w.entries
  have roots_eq : h'.oldRoots = roots := congrArg Heap.oldRoots w.frame
  refine List.perm_iff_count.2 fun x => ?_
  have := congrArg (List.count x) entries
  simp only [Buffer.both, List.count_append] at this
  simp only [Heap.due, roots_eq, Heap.withEntries, List.flatMap_append, List.flatMap_cons,
    List.count_append] at this ⊢
  omega

theorem Step.underway (step : Step s t) (pay : Payable h₀ due) (inv : Invariant h₀ due s) :
    Invariant h₀ due t := by
  cases step with
  | @work o q roots before after b b' wasFreed heap takes run =>
    obtain ⟨result, h', dropped, w⟩ := inv.worked pay takes
    cases w.run.symm.trans run
    exact w.underway.congr rfl rfl rfl rfl (worked_due before after w)

/-- The entries, and those that the slots of the objects left can still bring. -/
def work (h₀ : Heap) (s : Draining) : Nat := s.pending.length + h₀.slots s.heap.counted

theorem Step.work_lt (step : Step s t) (pay : Payable h₀ due) (inv : Invariant h₀ due s) :
    t.work h₀ < s.work h₀ := by
  cases step with
  | @work o q roots before after b b' wasFreed h' takes run =>
    obtain ⟨result, h', dropped, w⟩ := inv.worked pay takes
    cases w.run.symm.trans run
    have h₁ := (worked_due before after w).length_eq
    have h₂ := List.Perm.length_eq takes
    have h₃ : h₀.slots h'.counted + dropped.length ≤ h₀.slots s.heap.counted := w.slots
    simp only [List.length_append, List.length_cons, Draining.work, pending] at h₁ h₂ ⊢
    omega

theorem Invariant.reached (inv : Invariant h₀ due s) (pay : Payable h₀ due)
    (reach : Relation.ReflTransGen Step s t) : Invariant h₀ due t := by
  induction reach with
  | refl => exact inv
  | tail _ step ih => exact step.underway pay ih

/-- As long as entries are left, there is a step. -/
theorem Invariant.progress (inv : Invariant h₀ due s) (pay : Payable h₀ due) :
    s.pending = [] ∨ ∃ t, Step s t := by
  cases left : s.pending with
  | nil => exact .inl rfl
  | cons o rest =>
    have takes := Takes.of_pending left
    obtain ⟨⟨wasFreed, b'⟩, h', _, w⟩ := inv.worked pay takes
    exact .inr ⟨_, .work takes w.run⟩

theorem Invariant.ends (inv : Invariant h₀ due s) (pay : Payable h₀ due) :
    Acc (fun t s => Step s t) s := by
  generalize e : s.work h₀ = n
  induction n using Nat.strong_induction_on generalizing s with
  | _ n ih =>
    refine ⟨s, fun t step => ?_⟩
    exact ih (t.work h₀) (e ▸ step.work_lt pay inv) (step.underway pay inv) rfl

/-- Some order works off all entries. -/
theorem Invariant.exists_end (inv : Invariant h₀ due s) (pay : Payable h₀ due) :
    ∃ t, Relation.ReflTransGen Step s t ∧ t.pending = [] := by
  induction inv.ends pay with
  | intro s _ ih =>
    rcases inv.progress pay with none | ⟨t, step⟩
    · exact ⟨s, .refl, none⟩
    · obtain ⟨t', reach, none⟩ := ih t step (step.underway pay inv)
      exact ⟨t', .head step reach, none⟩

end Draining

/-! ## The crew side by side -/

namespace Collector

/-- The collector without decrements. -/
def idle (c : Collector) : Collector := { c with decrements := c.decrements.reset }

/-- A collector that is left without decrements. -/
theorem eq_idle {c c' : Collector} (same : c'.idle = c.idle)
    (empty : c'.decrements.items.toList = []) : c' = c.idle := by
  have items : c'.decrements.items = .empty :=
    Stack.eq_of_items (List.reverse_eq_nil_iff.1 empty)
  rw [← same, idle, Buffer.reset, ← items]

theorem exists_primary_of_idle {crew crew' : List Collector} (primary : ∃ c ∈ crew, c.isPrimary)
    (same : crew'.map idle = crew.map idle) : ∃ c ∈ crew', c.isPrimary := by
  obtain ⟨c, hc, first⟩ := primary
  obtain ⟨d, hd, eq⟩ := List.mem_map.1 (same ▸ List.mem_map_of_mem hc)
  have ordinal : d.ordinal = c.ordinal := congrArg (·.ordinal) eq
  exact ⟨d, hd, by rwa [isPrimary, ordinal]⟩

theorem map_eq_idle {crew crew' : List Collector} (same : crew'.map idle = crew.map idle)
    (empty : ∀ c ∈ crew', c.decrements.items.toList = []) : crew' = crew.map idle := by
  rw [← same]
  exact (List.map_id _).symm.trans (List.map_congr_left fun c hc => eq_idle rfl (empty c hc))

/-- What a collector forgets. The primary one also forgets those in the pool, and the roots of the
last increment. -/
theorem dropDecrements_eq (c : Collector) (h : Heap) :
    dropDecrements c h = .ok c.idle
      (if c.isPrimary then h.withEntries h.pools.decrements.clear [] else h) := by
  by_cases primary : c.isPrimary
  · rw [if_pos primary, dropDecrements, if_pos primary]
    rfl
  · rw [if_neg primary, dropDecrements, if_neg primary]
    rfl

end Collector

namespace Shift

/-- The crew `crew₀` works off the decrements `due` of a heap `h₀`, and `s` is how far it is. -/
structure Paying (h₀ : Heap) (due : List Ref) (crew₀ : List Collector) (s : Shift)
    (freed : List Ref) : Prop where
  underway : Underway h₀ due s.heap (s.heap.due (s.crew.map (·.decrements))) freed
  pools : Pools.Follows .decrements h₀.pools s.heap.pools
  same : s.crew.map Collector.idle = crew₀.map Collector.idle

variable {h₀ h : Heap} {due roots freed : List Ref} {crew₀ crew before after : List Collector}
  {c : Collector} {s s' : Shift} {reported : Bool}

namespace Paying

/-- The crew begins with all decrements. -/
theorem start (pay : Payable h (h.due (crew.map (·.decrements)))) :
    Paying h (h.due (crew.map (·.decrements))) crew ⟨h, crew, roots, reported⟩ [] :=
  ⟨pay.underway, .refl .., rfl⟩

/-- Another place for the decrements does not matter. -/
theorem moved (inv : Paying h₀ due crew₀ ⟨h, crew, roots, reported⟩ freed) (q : Pool Ref)
    (oldRoots : List Ref) {crew' : List Collector}
    (perm : (h.due (crew.map (·.decrements))).Perm
      ((h.withEntries q oldRoots).due (crew'.map (·.decrements))))
    (solid : h.pools.decrements.Solid → q.Solid)
    (same : crew'.map Collector.idle = crew.map Collector.idle) :
    Paying h₀ due crew₀ ⟨h.withEntries q oldRoots, crew', roots, reported⟩ freed where
  underway := inv.underway.congr rfl rfl rfl rfl perm
  pools := inv.pools.trans (.of_set solid)
  same := same.trans inv.same

/-- A collector took a decrement from its buffer or the pool, and works it off. -/
theorem decrement (inv : Paying h₀ due crew₀ ⟨h, before ++ c :: after, roots, reported⟩ freed)
    (pay : Payable h₀ due) {o : Ref} {b : Buffer Ref} {q : Pool Ref}
    (taken : c.decrements.take? h.pools.decrements = some (o, b, q)) :
    ∃ wasFreed b' h' dropped freed',
      HeapM.processDecrement b o (h.putPool .decrements q) = .ok (wasFreed, b') h' ∧
      b'.both h'.pools.decrements = b.both q ++ dropped ∧ h'.oldRoots = h.oldRoots ∧
      h₀.slots h'.counted + dropped.length ≤ h₀.slots h.counted ∧ Paying h₀ due crew₀
        ⟨h', before ++ { c with decrements := b' } :: after, roots, reported⟩ freed' := by
  have takes : Draining.Takes ⟨h, (before ++ c :: after).map (·.decrements), freed⟩ o q h.oldRoots
      (before.map (·.decrements)) b (after.map (·.decrements)) :=
    .of_take? (by simp) taken
  have underway : Draining.Invariant h₀ due
      ⟨h, (before ++ c :: after).map (·.decrements), freed⟩ := inv.underway
  obtain ⟨⟨wasFreed, b'⟩, h', dropped, w⟩ := underway.worked pay takes
  have next := (Draining.Step.work takes w.run).underway pay underway
  have first : Pools.Follows .decrements h.pools (h.pools.set .decrements q) :=
    .of_set fun solid => solid.take? taken
  have oldRoots := congrArg Heap.oldRoots w.frame
  have capacity : b'.capacity = c.decrements.capacity :=
    w.capacity.trans (Buffer.capacity_take? taken)
  refine ⟨wasFreed, b', h', dropped, _, w.run, w.entries, oldRoots, w.slots, {
    underway := Underway.congr next rfl rfl rfl rfl (.of_eq (by simp [Draining.pending]))
    pools := inv.pools.trans (first.trans w.pools)
    same := Eq.trans ?_ inv.same }⟩
  simp [Collector.idle, Buffer.reset, capacity]

/-- The primary collector takes over a root of the last increment. -/
theorem oldRoot (inv : Paying h₀ due crew₀ ⟨h, before ++ c :: after, roots, reported⟩ freed)
    {o : Ref} {left : List Ref} (old : h.oldRoots = o :: left) :
    ∃ b q, HeapM.push .decrements c.decrements o { h with oldRoots := left } =
        .ok b (h.withEntries q left) ∧ b.capacity = c.decrements.capacity ∧
      Paying h₀ due crew₀ ⟨h.withEntries q left, before ++ { c with decrements := b } :: after,
        roots, reported⟩ freed := by
  obtain ⟨b, q, run, both, capacity, solid⟩ :=
    HeapM.push_entries .decrements c.decrements o { h with oldRoots := left }
  refine ⟨b, q, run, capacity, inv.moved q left ?_ solid
    (by simp [Collector.idle, Buffer.reset, capacity])⟩
  refine List.perm_iff_count.2 fun x => ?_
  have := congrArg (List.count x) both
  simp only [Heap.due, Heap.withEntries, Pools.set, Pools.get, Buffer.both, old, List.map_append,
    List.map_cons, List.flatMap_append, List.flatMap_cons, List.count_append, List.count_cons,
    List.count_nil] at this ⊢
  omega

/-- What a crew leaves when it is done. -/
theorem done (inv : Paying h₀ due crew₀ s freed) (done : s.DoneFreeing) :
    Underway h₀ due s.heap [] freed ∧ s.crew = crew₀.map Collector.idle := by
  have none : s.heap.due (s.crew.map (·.decrements)) = [] := by
    rw [Heap.due, done.pool, done.oldRoots, List.flatMap_map,
      List.flatMap_eq_nil_iff.2 done.buffers]
    rfl
  exact ⟨none ▸ inv.underway, Collector.map_eq_idle inv.same done.buffers⟩

end Paying

/-- Whatever a crew does next, it frees only what is due. -/
theorem Frees.paying (step : Frees false s s') (pay : Payable h₀ due)
    (inv : Paying h₀ due crew₀ s freed) : ∃ freed', Paying h₀ due crew₀ s' freed' := by
  cases step with
  | @member h _ _ _ _ _ _ _ act =>
    cases act with
    | oldRoot _ _ old pushed =>
      obtain ⟨b, q, run, -, inv'⟩ := inv.oldRoot old
      cases run.symm.trans pushed
      exact ⟨freed, inv'⟩
    | decrement _ taken worked =>
      obtain ⟨q, found, rfl⟩ := HeapM.take?_eq_some taken
      obtain ⟨wasFreed, b', h', -, freed', run, -, -, -, inv'⟩ := inv.decrement pay found
      cases run.symm.trans worked
      exact ⟨freed', inv'⟩
    | forget cycle => cases cycle
    | search waiting =>
      exact ⟨freed, inv.moved { h.pools.decrements with waiting } h.oldRoots (.refl _) id rfl⟩
    | emit e => exact ⟨freed, inv.underway.congr rfl rfl rfl rfl (.refl _), inv.pools, inv.same⟩

theorem Paying.reached (inv : Paying h₀ due crew₀ s freed) (pay : Payable h₀ due)
    (path : Relation.ReflTransGen (Frees false) s s') :
    ∃ freed', Paying h₀ due crew₀ s' freed' := by
  induction path with
  | refl => exact ⟨freed, inv⟩
  | tail _ step ih =>
    obtain ⟨freed', inv'⟩ := ih
    exact step.paying pay inv'

/-! ## Forgetting decrements -/

/-- In a cycle collection the crew `crew₀` forgets the decrements of a heap `h₀`, and `s` is how far
it is. -/
structure Voiding (h₀ : Heap) (crew₀ : List Collector) (s : Shift) : Prop where
  rest : { s.heap with pools := h₀.pools, oldRoots := h₀.oldRoots, log := h₀.log } = h₀
  pools : Pools.Follows .decrements h₀.pools s.heap.pools
  same : s.crew.map Collector.idle = crew₀.map Collector.idle

theorem Voiding.start (h : Heap) (crew : List Collector) (roots : List Ref) (reported : Bool) :
    Voiding h crew ⟨h, crew, roots, reported⟩ := ⟨rfl, .refl .., rfl⟩

/-- Whatever a crew does next, it forgets decrements and nothing else. -/
theorem Frees.voiding (step : Frees true s s') (inv : Voiding h₀ crew₀ s) :
    Voiding h₀ crew₀ s' := by
  obtain ⟨rest, pools, same⟩ := inv
  cases step with
  | @member h _ before after c _ _ _ act =>
    cases act with
    | oldRoot increment => cases increment
    | decrement increment => cases increment
    | forget _ dropped =>
      cases (c.dropDecrements_eq h).symm.trans dropped
      have same : (before ++ c.idle :: after).map Collector.idle = crew₀.map Collector.idle :=
        Eq.trans (by simp [Collector.idle, Buffer.reset]) same
      split
      · exact ⟨rest, pools.trans (.of_set fun _ => .of_blocks rfl), same⟩
      · exact ⟨rest, pools, same⟩
    | search waiting => exact ⟨rest, pools.trans (.of_set id), same⟩
    | emit e => exact ⟨rest, pools, same⟩

theorem Voiding.reached (inv : Voiding h₀ crew₀ s)
    (path : Relation.ReflTransGen (Frees true) s s') : Voiding h₀ crew₀ s' := by
  induction path with
  | refl => exact inv
  | tail _ step ih => exact step.voiding ih

/-- What a crew leaves when it is done. -/
theorem Voiding.done (inv : Voiding h₀ crew₀ s) (done : s.DoneFreeing) :
    s.heap = { h₀ with pools := s.heap.pools, oldRoots := [], log := s.heap.log } ∧
      s.crew = crew₀.map Collector.idle := by
  refine ⟨?_, Collector.map_eq_idle inv.same done.buffers⟩
  rw [← done.oldRoots]
  exact congrArg (fun k : Heap => { k with
    pools := s.heap.pools, oldRoots := s.heap.oldRoots, log := s.heap.log }) inv.rest

end Shift

/-! ## Taking turns -/

namespace Collector

open Relation

variable {h₀ h : Heap} {due roots freed : List Ref} {crew₀ before after : List Collector}
  {reported : Bool}

/-- A collector works off decrements until it finds none. -/
theorem drainDecrementsIn_eq (pay : Payable h₀ due) (k n : Nat) (c : Collector)
    (inv : Shift.Paying h₀ due crew₀ ⟨h, before ++ c :: after, roots, reported⟩ freed)
    (enough : (c.decrements.both h.pools.decrements).length + h₀.slots h.counted < k) :
    ∃ m b h', HeapM.drainDecrementsIn k n c.decrements h = .ok (m, b) h' ∧
      ReflTransGen (Frees false) (c, h) ({ c with decrements := b }, h') ∧
      b.both h'.pools.decrements = [] ∧ h'.oldRoots = h.oldRoots := by
  induction k generalizing n c h freed with
  | zero => exact absurd enough (Nat.not_lt_zero _)
  | succ k ih =>
    rcases HeapM.take?_cases .decrements c.decrements h with ⟨e, none⟩ | ⟨o, b, q, e, -⟩
    · refine ⟨n, c.decrements, h.putPool .decrements h.pools.decrements.join, ?_,
        .single (.search _), none, rfl⟩
      rw [HeapM.drainDecrementsIn, HeapM.bind_of_ok e]
      rfl
    · obtain ⟨q, found, same⟩ := HeapM.take?_eq_some e
      obtain ⟨wasFreed, b₁, h₁, dropped, freed₁, run, both, old, slots, inv₁⟩ :=
        inv.decrement pay found
      rw [← same] at run
      have fewer : (b₁.both h₁.pools.decrements).length + h₀.slots h₁.counted < k := by
        have := (Buffer.take?_perm found).length_eq
        have enough : (c.decrements.both (h.pools.get .decrements)).length +
          h₀.slots h.counted < k + 1 := enough
        rw [List.length_cons] at this
        rw [both, List.length_append]
        omega
      obtain ⟨m, b', h', run', path, done, old'⟩ :=
        ih (n + wasFreed.toNat) { c with decrements := b₁ } inv₁ fewer
      refine ⟨m, b', h', ?_, .head (.decrement rfl e run) path, done, old'.trans old⟩
      rw [HeapM.drainDecrementsIn, HeapM.bind_of_ok e]
      exact (HeapM.bind_of_ok run).trans run'

/-- There are no more slots than the fuel of the drain takes into account. -/
theorem slots_le {others : List Ref} (u : Underway h₀ due h others freed) (pay : Payable h₀ due) :
    h₀.slots h.counted ≤ Memory.wordCount * Memory.wordCount := by
  have length : ∀ x ∈ h.counted, (h₀.view x).targets.length ≤ Memory.wordCount :=
    fun x hx => pay.wellFormed.length_targets_le (.inl ((u.mem_counted x).1 hx).1)
  calc h₀.slots h.counted ≤ h.counted.card • Memory.wordCount :=
        Finset.sum_le_card_nsmul _ _ _ length
    _ ≤ Memory.wordCount * Memory.wordCount :=
        Nat.mul_le_mul_right _ u.wellFormed.card_counted_le

theorem drainDecrements_eq (pay : Payable h₀ due) (c : Collector)
    (inv : Shift.Paying h₀ due crew₀ ⟨h, before ++ c :: after, roots, reported⟩ freed) :
    ∃ n c' h', drainDecrements c h = .ok (n, c') h' ∧ ReflTransGen (Frees false) (c, h) (c', h') ∧
      c'.decrements.both h'.pools.decrements = [] ∧ h'.oldRoots = h.oldRoots := by
  have bound : h₀.slots h.counted ≤ Memory.wordCount * Memory.wordCount :=
    slots_le inv.underway pay
  have pending := Buffer.pending_eq c.decrements h.pools.decrements
  obtain ⟨n, b, h', run, path, done, old⟩ := drainDecrementsIn_eq pay
    (c.decrements.pending h.pools.decrements + Memory.wordCount * Memory.wordCount + 1) 0 c inv
    (by omega)
  refine ⟨n, _, h', ?_, path, done, old⟩
  rw [drainDecrements, HeapM.drainDecrements, HeapM.bind_assoc_apply, HeapM.get_bind_apply,
    HeapM.bind_of_ok run]
  rfl

theorem drainDecrements_all (pay : Payable h₀ due) {crew : List Collector} (nonempty : crew ≠ [])
    (inv : Shift.Paying h₀ due crew₀ ⟨h, crew, roots, reported⟩ freed) (old : h.oldRoots = []) :
    ∃ ns crew' h', turns drainDecrements crew h = .ok (ns, crew') h' ∧
      ReflTransGen (Shift.Frees false) ⟨h, crew, roots, reported⟩ ⟨h', crew', roots, reported⟩ ∧
      Shift.DoneFreeing ⟨h', crew', roots, reported⟩ ∧ crew' ≠ [] := by
  obtain ⟨ns, crew', h', run, -, ⟨path, old'⟩, done, length⟩ := turns_of_step
    (f := drainDecrements)
    (I := fun h' crew' => ReflTransGen (Shift.Frees false) ⟨h, crew, roots, reported⟩
      ⟨h', crew', roots, reported⟩ ∧ h'.oldRoots = [])
    (·.pools.decrements.entries) (·.decrements.items.toList)
    (fun h₁ before c after ⟨path, old⟩ => by
      obtain ⟨_, inv₁⟩ := inv.reached pay path
      obtain ⟨n, c', h', run, more, done, old'⟩ := drainDecrements_eq pay c inv₁
      exact ⟨n, c', h', run, ⟨path.trans (Shift.frees_of_member more), old'.trans old⟩, done⟩)
    nonempty ⟨.refl, old⟩
  obtain ⟨pool, buffers⟩ := List.append_eq_nil_iff.1 done
  refine ⟨ns, crew', h', run, path, ⟨old', pool, List.flatMap_eq_nil_iff.1 buffers⟩, ?_⟩
  rintro rfl
  exact nonempty (List.eq_nil_of_length_eq_zero length.symm)

/-- The primary collector takes over the roots of the last increment, one after the other. -/
theorem pushOldRoots_eq {c : Collector} (primary : c.isPrimary) {old : List Ref}
    (eq : h.oldRoots = old) :
    ∃ b q, HeapM.pushAll .decrements c.decrements old { h with oldRoots := [] } =
        .ok b (h.withEntries q []) ∧
      ReflTransGen (Frees false) (c, h) ({ c with decrements := b }, h.withEntries q []) := by
  induction old generalizing c h with
  | nil =>
    refine ⟨c.decrements, h.pools.decrements, rfl, ?_⟩
    rw [Heap.withEntries, ← eq]
    exact .refl
  | cons o old ih =>
    obtain ⟨b₁, q₁, first⟩ : ∃ b q, ∀ roots,
        HeapM.push .decrements c.decrements o { h with oldRoots := roots } =
          .ok b (h.withEntries q roots) :=
      ⟨(c.decrements.push h.pools.decrements o).1, (c.decrements.push h.pools.decrements o).2,
        fun _ => rfl⟩
    obtain ⟨b, q, rest, path⟩ := @ih (h.withEntries q₁ old) { c with decrements := b₁ } primary rfl
    refine ⟨b, q, ?_, .head (.oldRoot rfl primary eq (first old)) path⟩
    exact (HeapM.bind_of_ok (first [])).trans rest

theorem dropOldRoots_eq (c : Collector) (h : Heap) :
    ∃ c' h', dropOldRoots c h = .ok c' h' ∧ ReflTransGen (Frees false) (c, h) (c', h') ∧
      h'.oldRoots = if c.isPrimary then [] else h.oldRoots := by
  by_cases primary : c.isPrimary
  · obtain ⟨b, q, run, path⟩ := pushOldRoots_eq (h := h) primary rfl
    refine ⟨{ c with decrements := b }, h.withEntries q [], ?_, path, (if_pos primary).symm⟩
    rw [dropOldRoots, if_pos primary, takeOldRoots, HeapM.modifyGet_bind_apply]
    exact HeapM.bind_of_ok run
  · refine ⟨c, h, ?_, .refl, (if_neg primary).symm⟩
    rw [dropOldRoots, if_neg primary]
    rfl

theorem dropOldRoots_all {crew : List Collector} (primary : ∃ c ∈ crew, c.isPrimary) (h : Heap) :
    ∃ crew' h', crew.mapM dropOldRoots h = .ok crew' h' ∧
      ReflTransGen (Shift.Frees false) ⟨h, crew, roots, reported⟩ ⟨h', crew', roots, reported⟩ ∧
      h'.oldRoots = [] ∧ crew' ≠ [] := by
  obtain ⟨crew', h', run, path, length, old⟩ := HeapM.mapM_of_step (f := dropOldRoots)
    (I := fun h' done todo => ReflTransGen (Shift.Frees false) ⟨h, crew, roots, reported⟩
        ⟨h', done ++ todo, roots, reported⟩ ∧ (done ++ todo).length = crew.length ∧
      ((∃ c ∈ todo, c.isPrimary) ∨ h'.oldRoots = []))
    (fun h₁ done c todo ⟨path, length, left⟩ => by
      obtain ⟨c', h', run, more, old⟩ := dropOldRoots_eq c h₁
      refine ⟨c', h', run, ?_, by simpa using length, ?_⟩
      · rw [List.append_assoc, List.singleton_append]
        exact path.trans (Shift.frees_of_member more)
      · by_cases primary : c.isPrimary
        · exact .inr (old.trans (if_pos primary))
        · rw [if_neg primary] at old
          exact left.imp (fun first =>
            (List.exists_mem_cons_iff ..).1 first |>.resolve_left primary) old.trans)
    crew [] ⟨.refl, rfl, .inl primary⟩
  rw [List.append_nil] at path length
  refine ⟨crew', h', run, path, old.resolve_left (by simp), ?_⟩
  rintro rfl
  obtain ⟨c, hc, -⟩ := primary
  exact List.ne_nil_of_mem hc (List.eq_nil_of_length_eq_zero length.symm)

/-- Reports of a crew. -/
theorem emit_all {α : Type} {c : Collector} {crew : List Collector} (events : List α)
    (e : α → Event) (h : Heap) :
    ∃ log, (forIn events PUnit.unit fun a _ => do
        HeapM.emit (e a)
        pure (ForInStep.yield PUnit.unit) : HeapM PUnit) h = .ok ⟨⟩ { h with log } ∧
      ReflTransGen (Shift.Frees false) ⟨h, c :: crew, roots, reported⟩
        ⟨{ h with log }, c :: crew, roots, reported⟩ := by
  induction events generalizing h with
  | nil => exact ⟨h.log, rfl, .refl⟩
  | cons a events ih =>
    obtain ⟨log, run, path⟩ := ih { h with log := e a :: h.log }
    refine ⟨log, ?_, .head (@Shift.Frees.member _ _ _ [] _ _ _ _ _ (.emit (e a))) path⟩
    rw [HeapM.forIn_cons_of_ok (f := fun a => HeapM.emit (e a)) (HeapM.emit_apply (e a) h), run]

/-- A crew that takes turns works off all decrements that are due, in one of the orders of a
crew. -/
theorem processDecrements_increment (crew : List Collector) (h : Heap)
    (pay : Payable h (h.due (crew.map (·.decrements)))) (primary : ∃ c ∈ crew, c.isPrimary)
    (increment : h.progress.cycle = false) :
    ∃ h', processDecrements crew h = .ok (crew.map idle) h' ∧
      ReflTransGen (Shift.Frees false) ⟨h, crew, [], false⟩ ⟨h', crew.map idle, [], false⟩ ∧
      Shift.DoneFreeing ⟨h', crew.map idle, [], false⟩ := by
  have start : Shift.Paying h (h.due (crew.map (·.decrements))) crew ⟨h, crew, [], false⟩ [] :=
    .start pay
  obtain ⟨crew₁, h₁, run₁, path₁, old, nonempty₁⟩ := dropOldRoots_all primary h
  obtain ⟨_, inv₁⟩ := start.reached pay path₁
  obtain ⟨ns, crew₂, h₂, run₂, path₂, done, nonempty₂⟩ :=
    drainDecrements_all pay nonempty₁ inv₁ old
  obtain ⟨c, crew₃, rfl⟩ := List.exists_cons_of_ne_nil nonempty₂
  obtain ⟨log, run₃, path₃⟩ := @emit_all [] false _ c crew₃ ((c :: crew₃).zip ns)
    (fun c => .decrementsProcessed c.1.ordinal c.2) h₂
  have path := path₁.trans (path₂.trans path₃)
  have done : Shift.DoneFreeing ⟨{ h₂ with log }, c :: crew₃, [], false⟩ :=
    ⟨done.oldRoots, done.pool, done.buffers⟩
  obtain ⟨_, inv⟩ := start.reached pay path
  have idle : c :: crew₃ = crew.map idle := (inv.done done).2
  rw [← idle]
  refine ⟨{ h₂ with log }, ?_, path, done⟩
  rw [processDecrements, HeapM.get_bind_apply, if_neg (by simp [increment]),
    HeapM.bind_of_ok run₁, HeapM.bind_of_ok run₂]
  exact (HeapM.bind_of_ok run₃).trans rfl

/-- In a cycle collection it forgets them all. -/
theorem dropDecrements_all {crew : List Collector} (primary : ∃ c ∈ crew, c.isPrimary) (h : Heap) :
    ∃ h', crew.mapM dropDecrements h = .ok (crew.map idle) h' ∧
      ReflTransGen (Shift.Frees true) ⟨h, crew, roots, reported⟩
        ⟨h', crew.map idle, roots, reported⟩ ∧
      Shift.DoneFreeing ⟨h', crew.map idle, roots, reported⟩ := by
  obtain ⟨crew', h', run, path, buffers, done⟩ := HeapM.mapM_of_step (f := dropDecrements)
    (I := fun h' done todo => ReflTransGen (Shift.Frees true) ⟨h, crew, roots, reported⟩
        ⟨h', done ++ todo, roots, reported⟩ ∧ (∀ c ∈ done, c.decrements.items.toList = []) ∧
      ((∃ c ∈ todo, c.isPrimary) ∨ h'.oldRoots = [] ∧ h'.pools.decrements.entries = []))
    (fun h₁ done c todo ⟨path, buffers, left⟩ => by
      refine ⟨c.idle, _, dropDecrements_eq c h₁, ?_, fun d hd => ?_, ?_⟩
      · rw [List.append_assoc, List.singleton_append]
        exact path.tail (.member (.forget rfl (dropDecrements_eq c h₁)))
      · rcases List.mem_append.1 hd with hd | hd
        · exact buffers d hd
        · rw [List.mem_singleton.1 hd]
          rfl
      · by_cases primary : c.isPrimary
        · rw [if_pos primary]
          exact .inr ⟨rfl, rfl⟩
        · rw [if_neg primary]
          exact left.imp_left fun first =>
            (List.exists_mem_cons_iff ..).1 first |>.resolve_left primary)
    crew [] ⟨.refl, by simp, .inl primary⟩
  rw [List.append_nil] at path
  obtain ⟨old, pool⟩ := done.resolve_left (by simp)
  have done : Shift.DoneFreeing ⟨h', crew', roots, reported⟩ := ⟨old, pool, buffers⟩
  have inv := (Shift.Voiding.start h crew roots reported).reached path
  obtain rfl : crew' = crew.map idle := (inv.done done).2
  exact ⟨h', run, path, done⟩

theorem processDecrements_eq (crew : List Collector) (h : Heap)
    (pay : h.progress.cycle = false → Payable h (h.due (crew.map (·.decrements))))
    (primary : ∃ c ∈ crew, c.isPrimary) :
    ∃ h', processDecrements crew h = .ok (crew.map idle) h' ∧
      ReflTransGen (Shift.Frees h.progress.cycle) ⟨h, crew, [], false⟩
        ⟨h', crew.map idle, [], false⟩ ∧
      Shift.DoneFreeing ⟨h', crew.map idle, [], false⟩ := by
  cases cycle : h.progress.cycle with
  | true =>
    obtain ⟨h', run, path, done⟩ := dropDecrements_all primary h
    refine ⟨h', ?_, path, done⟩
    rw [processDecrements, HeapM.get_bind_apply, if_pos cycle]
    exact run
  | false => exact processDecrements_increment crew h (pay cycle) primary cycle

end Collector

namespace Shift

variable {h₀ : Heap} {due freed : List Ref} {crew₀ : List Collector} {s : Shift}

/-- Whatever a crew has done so far, it can go on until it is done. -/
theorem Paying.goes_on (inv : Paying h₀ due crew₀ s freed) (pay : Payable h₀ due)
    (primary : ∃ c ∈ crew₀, c.isPrimary) :
    ∃ s', Relation.ReflTransGen (Frees false) s s' ∧ s'.DoneFreeing := by
  obtain ⟨h, crew, roots, reported⟩ := s
  have primary : ∃ c ∈ crew, c.isPrimary := Collector.exists_primary_of_idle primary inv.same
  obtain ⟨crew₁, h₁, -, path, old, nonempty⟩ := Collector.dropOldRoots_all primary h
  obtain ⟨_, inv₁⟩ := inv.reached pay path
  obtain ⟨_, crew', h', -, more, done, -⟩ :=
    Collector.drainDecrements_all pay nonempty inv₁ old
  exact ⟨_, path.trans more, done⟩

/-- So it is when the decrements are void. -/
theorem Voiding.goes_on (inv : Voiding h₀ crew₀ s) (primary : ∃ c ∈ crew₀, c.isPrimary) :
    ∃ s', Relation.ReflTransGen (Frees true) s s' ∧ s'.DoneFreeing := by
  have primary := Collector.exists_primary_of_idle primary inv.same
  obtain ⟨h', -, path, done⟩ := Collector.dropDecrements_all primary s.heap
  exact ⟨_, path, done⟩

end Shift

/-! ## The least closed set -/

/-- What working off the decrements `due` leaves of a heap `h` when it frees the objects `F`. -/
structure Settled (h : Heap) (due : List Ref) (F : Finset Ref) (h' : Heap) : Prop where
  counted : h'.counted = h.counted \ F
  count : ∀ o ∈ h'.counted, h.count o ≠ Header.stuck →
    h'.count o + (due.count o + h.owed F o) = h.count o
  stuck : ∀ o ∈ h'.counted, h.count o = Header.stuck → h'.count o = Header.stuck
  same : ∀ o ∈ h'.known, (h'.view o).SameButCount (h.view o)

/-- Working off the decrements `due` of a heap `h` freed the least closed set `F`. No count that is
left dropped to zero. -/
structure Reclaimed (h : Heap) (due : List Ref) (F : Finset Ref) (h' : Heap) : Prop
    extends Settled h due F h' where
  least : IsLeast {S | Closed h due S} F
  positive : ∀ o ∈ h'.counted, h.count o ≠ 0 → h'.count o ≠ 0

namespace Underway

variable {h₀ h : Heap} {due freed : List Ref}

theorem settled (u : Underway h₀ due h [] freed) : Settled h₀ due freed.toFinset h where
  counted := by
    ext x
    rw [u.mem_counted, Finset.mem_sdiff, List.mem_toFinset]
  count o ho ns := by
    have := u.balance o ho ns
    rw [List.count_nil] at this
    omega
  stuck := u.stuck
  same := u.same

theorem reclaimed (u : Underway h₀ due h [] freed) : Reclaimed h₀ due freed.toFinset h where
  toSettled := u.settled
  least := u.isLeast
  positive := u.positive

end Underway

/-- The order of the decrements does not matter, nor anything of a heap but its objects. -/
theorem Reclaimed.congr {h h' k k' : Heap} {due due' : List Ref} {F : Finset Ref}
    (r : Reclaimed h due F h') (perm : due.Perm due') (start : k.counted = h.counted)
    (view : ∀ x, k.view x = h.view x) (stop : k'.counted = h'.counted) (known : k'.known = h'.known)
    (view' : ∀ x, k'.view x = h'.view x) : Reclaimed k due' F k' := by
  have count : ∀ o, k.count o = h.count o := fun o => by rw [Heap.count, view, Heap.count]
  have count' : ∀ o, k'.count o = h'.count o := fun o => by rw [Heap.count, view', Heap.count]
  have owed : ∀ S o, k.owed S o = h.owed S o := fun S o => by simp only [Heap.owed, view]
  have unstuck : k.unstuck = h.unstuck := by
    ext o
    rw [Heap.mem_unstuck, Heap.mem_unstuck, start, count]
  have closed : ∀ S, Closed k due' S ↔ Closed h due S := fun S => by
    constructor
    · rintro ⟨sub, closed⟩
      refine ⟨unstuck ▸ sub, fun o ho pos e => closed o (unstuck ▸ ho) (by rwa [count]) ?_⟩
      rw [owed, count, ← perm.count_eq, e]
    · rintro ⟨sub, closed⟩
      refine ⟨unstuck ▸ sub, fun o ho pos e => closed o (unstuck ▸ ho) (by rwa [← count]) ?_⟩
      rw [← owed, ← count, perm.count_eq, e]
  exact {
    counted := by rw [stop, r.counted, start]
    count := fun o ho ns => by
      rw [count] at ns
      rw [count', count, owed, ← perm.count_eq]
      exact r.count o (stop ▸ ho) ns
    stuck := fun o ho => by
      rw [count', count]
      exact r.stuck o (stop ▸ ho)
    same := fun o ho => by
      rw [view, view']
      exact r.same o (known ▸ ho)
    least := ⟨(closed F).2 r.least.1, fun S c => r.least.2 ((closed S).1 c)⟩
    positive := fun o ho => by
      rw [count', count]
      exact r.positive o (stop ▸ ho) }

/-- There is a least closed set: some order of the entries frees it. -/
theorem Payable.exists_least {h : Heap} {due : List Ref} (pay : Payable h due) :
    ∃ F, IsLeast {S | Closed h due S} F := by
  -- all entries lie in the pool
  have inv : Draining.Invariant h due
      { heap := h.withEntries { queue := { front := [.ofList due] } } [], buffers := [] } :=
    pay.underway.congr rfl rfl rfl rfl (.of_eq (by
      simp [Draining.pending, Heap.due, Heap.withEntries, Pools.set, Pool.entries, Pool.blocks,
        Queue.toList]))
  obtain ⟨s, reach, none⟩ := inv.exists_end pay
  have u : Underway h due s.heap [] s.freed := none ▸ inv.reached pay reach
  exact ⟨_, u.isLeast⟩

/-- Working off the decrements of a heap frees the least closed set of objects, each once, and takes
from every other count the decrements that were due and the references of the freed objects. So it
is for every order in which collectors take the entries, every such order ends when no entry is
left, no entry fails in it, and the crew of an increment follows one of them. -/
theorem decrements_reach_least_fixpoint {h : Heap} {buffers : List (Buffer Ref)}
    (pay : Payable h (h.due buffers)) :
    ∃ F, IsLeast {S | Closed h (h.due buffers) S} F ∧
      Acc (fun t s => Draining.Step s t) { heap := h, buffers } ∧
      (∀ s, Relation.ReflTransGen Draining.Step { heap := h, buffers } s →
        (∀ o q roots before b after, s.Takes o q roots before b after →
          ∃ r h', HeapM.processDecrement b o (s.heap.withEntries q roots) = .ok r h') ∧
        (s.pending = [] ∨ ∃ t, Draining.Step s t) ∧
        (s.pending = [] →
          s.freed.Nodup ∧ s.freed.toFinset = F ∧ Settled h (h.due buffers) F s.heap)) ∧
      ∀ crew : List Collector, crew.map (·.decrements) = buffers → (∃ c ∈ crew, c.isPrimary) →
        h.progress.cycle = false →
        ∃ h', Collector.processDecrements crew h = .ok (crew.map Collector.idle) h' ∧
          h'.oldRoots = [] ∧ h'.pools.decrements.entries = [] ∧
          Settled h (h.due buffers) F h' := by
  obtain ⟨F, least⟩ := pay.exists_least
  have start : Draining.Invariant h (h.due buffers) { heap := h, buffers } := pay.underway
  refine ⟨F, least, start.ends pay, fun s reach => ?_, fun crew same primary increment => ?_⟩
  · have inv := start.reached pay reach
    refine ⟨fun o q roots before b after takes => ?_, inv.progress pay, fun done => ?_⟩
    · obtain ⟨r, h', _, w⟩ := inv.worked pay takes
      exact ⟨r, h', w.run⟩
    · have u : Underway h (h.due buffers) s.heap [] s.freed := done ▸ inv
      obtain rfl := u.isLeast.unique least
      exact ⟨u.nodup, rfl, u.settled⟩
  · subst same
    obtain ⟨h', run, path, done⟩ :=
      Collector.processDecrements_increment crew h pay primary increment
    obtain ⟨freed, inv⟩ := (Shift.Paying.start pay).reached pay path
    have u := (inv.done done).1
    obtain rfl := u.isLeast.unique least
    exact ⟨h', run, done.oldRoots, done.pool, u.settled⟩

/-- Three small objects of one slot each. The first one refers to the second, and that one to the
third. The first one was a root. -/
def Heap.chain : Heap :=
  { Heap.ofSettings {} with
    small := { (Heap.ofSettings {}).small with
      classes := (∅ : Std.ExtTreeMap Address SizeClass compare).insert 0x10000000 1
      live := ((∅ : Std.ExtTreeSet Address compare).insert 0x10000000).insert 0x10000020
        |>.insert 0x10000040 }
    memory :=
      [(0, 256), (1, 2), (2, 0x10000020), (4, 256), (5, 2), (6, 0x10000040), (8, 256),
        (9, 2)].foldl (fun m w => m.setWord w.1 w.2) Memory.empty
    oldRoots := [⟨0x10000000⟩] }

/-- A collector frees the whole chain. -/
theorem decrements_free_chain :
    ∃ crew h', Collector.processDecrements
        [⟨0, ⟨⟨.empty, 1⟩, ⟨.empty, 1⟩⟩, ⟨.empty, 1⟩, ⟨.empty, 1⟩⟩] Heap.chain = .ok crew h' ∧
      h'.counted = ∅ := by
  have wf : Heap.chain.WellFormed :=
    Heap.wellFormed_of_small rfl rfl (by decide +kernel) (by decide +kernel) (by decide +kernel)
  have slots : ∀ x ∈ Heap.chain.counted, ∀ o ∈ (Heap.chain.view x).referents,
      o ∈ Heap.chain.counted := by
    decide +kernel
  have due : Heap.chain.due [⟨.empty, 1⟩] = [⟨0x10000000⟩] := rfl
  have pay : Payable Heap.chain (Heap.chain.due [⟨.empty, 1⟩]) := {
    wellFormed := wf
    slots_known := fun x hx o ho => .inl (slots x hx o ho)
    due_known := fun o ho => by
      rw [due, List.mem_singleton] at ho
      rw [ho]
      exact .inl (by decide +kernel)
    covered := by decide +kernel }
  obtain ⟨F, least, -, -, crew⟩ := decrements_reach_least_fixpoint pay
  obtain ⟨h', run, -, -, settled⟩ := crew
    [⟨0, ⟨⟨.empty, 1⟩, ⟨.empty, 1⟩⟩, ⟨.empty, 1⟩, ⟨.empty, 1⟩⟩] rfl
    ⟨_, List.mem_singleton_self _, rfl⟩ rfl
  refine ⟨_, h', run, ?_⟩
  have sub : F ⊆ Heap.chain.counted :=
    fun x hx => (Heap.mem_unstuck.1 (least.1.unstuck hx)).1
  have whole : ∀ S ∈ Heap.chain.counted.powerset, (∀ o ∈ Heap.chain.unstuck,
      0 < Heap.chain.count o → [(⟨0x10000000⟩ : Ref)].count o + Heap.chain.owed S o =
        Heap.chain.count o → o ∈ S) → S = Heap.chain.counted := by
    decide +kernel
  rw [settled.counted, whole F (Finset.mem_powerset.2 sub) fun o ho pos e =>
    least.1.closed o ho pos (due ▸ e), Finset.sdiff_self]

end DeferredCount
