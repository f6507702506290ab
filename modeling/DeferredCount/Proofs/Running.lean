import DeferredCount.Proofs.Collecting
import DeferredCount.Proofs.Turns

/-!
# Runs of an instance

A run is any number of turns of any number of mutators, with collections of either kind in between,
whose crews work in any order. Whatever happened, the books are right at every point (`Ready`), so
every collection ends with exact counts, and nothing that can be reached is freed.

Results:
1. `Ready.collected`: a collection leaves no entries, in whichever order its crew works.
2. `Ready.collect`: with a crew that takes turns a collection completes.
3. `Run.ready`: what holds at every point of a run.
4. `collections_conserve_counts`: every count is exact after a collection.
5. `collections_spare_reachable`: what can be reached is spared, and no slot changes.
-/

namespace DeferredCount

/-- What an instance can come to: a heap, and the mutators bound to it. The crew of a collection may
work in any order. -/
inductive Run (settings : Settings) : Heap → List Mutator → Prop
  | start : Run settings (.ofSettings settings) []
  | turn {h h' : Heap} {ms ms' : List Mutator} :
      Run settings h ms → Turn h ms h' ms' → Run settings h' ms'
  | collect {h h' : Heap} {ms ms' : List Mutator} {kind : CollectionKind} :
      Run settings h ms → Collects kind ms h ms' h' → Run settings h' ms'

/-! ## The start -/

namespace Heap

variable {settings : Settings}

theorem counted_ofSettings : (ofSettings settings).counted = ∅ := by
  have small : (ofSettings settings).small.liveObjects = [] := rfl
  have large : (ofSettings settings).large.objects = [] := rfl
  rw [counted, small, large]
  rfl

theorem known_ofSettings : (ofSettings settings).known = ∅ := by
  have permanent : (ofSettings settings).permanent.objects = #[] := rfl
  ext x
  simp [known, counted_ofSettings, permanent]

theorem wellFormed_ofSettings : (ofSettings settings).WellFormed where
  small_below := Nat.le_refl _
  large_below := Nat.le_refl _
  small_holds o ho := absurd ho List.not_mem_nil
  small_class o ho := absurd ho List.not_mem_nil
  cells := CellList.represents_empty
  cell_eq c hc := absurd hc List.not_mem_nil
  large_holds o ho := absurd ho List.not_mem_nil
  pages := .fresh (by decide) (by decide) (by decide)
  permanent_holds o ho := absurd ho (by simp [ofSettings])
  laid := by
    rw [known_ofSettings]
    exact ⟨fun o ho => absurd ho (Set.notMem_empty o), fun o ho => absurd ho (Set.notMem_empty o)⟩

theorem stocked_ofSettings : (ofSettings settings).Stocked [] where
  low := show Memory.start ≤ smallStart by decide
  high := show scratchStart ≤ Memory.start + Memory.wordCount * bytesPerWord by decide
  small := {
    pool := ⟨rfl, Nat.le_refl _, show smallStart ≤ largeStart by decide,
      show bytesPerPage ∣ smallStart by decide⟩
    pages := fun page c found => by
      have none : (ofSettings settings).small.classes.get? page = none := rfl
      rw [none] at found
      cases found
    cells := fun c a ha => by
      have none : (ofSettings settings).small.free.get c = [] := by
        simp [ofSettings, PerClass.get, PerClass.all]
      rw [none] at ha
      cases ha
    nodup := fun c => by
      have none : (ofSettings settings).small.free.get c = [] := by
        simp [ofSettings, PerClass.get, PerClass.all]
      rw [none]
      exact .nil
    live := fun o ho => absurd ho List.not_mem_nil }
  large := ⟨rfl, fun c hc => absurd hc List.not_mem_nil⟩
  permanent := {
    pool := ⟨rfl, Nat.le_refl _, show permanentStart ≤ scratchStart by decide,
      show bytesPerPage ∣ permanentStart by decide⟩
    inside := fun b hb => absurd hb List.not_mem_nil
    apart := .nil
    objects := fun o ho => absurd ho (by simp [ofSettings]) }

end Heap

/-- A new instance without mutators. -/
theorem Ready.start (settings : Settings) : Ready settings (.ofSettings settings) [] {} where
  settings_eq := rfl
  outfits m hm := absurd hm List.not_mem_nil
  ledger := by
    have none : ∀ x, x ∉ (Heap.ofSettings settings).known := by simp [Heap.known_ofSettings]
    exact {
      wellFormed := Heap.wellFormed_ofSettings
      once := .nil
      slots_known := fun x hx => absurd hx (none x)
      agrees := fun x hx => absurd hx (none x)
      permanent := fun x hx => absurd (.inr hx) (none x)
      objects_known := fun x hx => absurd hx List.not_mem_nil
      objects_nodup := .nil
      fields_known := fun k hk => absurd hk List.not_mem_nil
      fields_nodup := .nil
      decrements_known := fun x hx => absurd hx List.not_mem_nil
      roots_known := fun x hx => absurd hx List.not_mem_nil
      balance := fun o ho => absurd (.inl ho) (none o) }
  held := ⟨.nil, .nil, .nil, rfl,
    ⟨.of_blocks rfl, .of_blocks rfl, .of_blocks rfl, .of_blocks rfl⟩⟩
  stocked := Heap.stocked_ofSettings
  idle := rfl
  roots_known x hx := absurd hx List.not_mem_nil

/-! ## Collections -/

theorem SmallSpace.Reclaims.pages_eq {s s' : SmallSpace} (r : s.Reclaims s') :
    s'.pages = s.pages := by
  induction r with
  | refl => rfl
  | tail _ step ih =>
    obtain ⟨o, cell, e⟩ := step
    obtain ⟨_, -, -, -, rfl⟩ := SmallSpace.of_reclaim e
    exact ih

/-- A collection gives cells back, and those that mutators kept. -/
theorem Collected.stocked {h h' : Heap} {ms : List Mutator} (c : Collected h ms h')
    (st : h.Stocked (ms.map (·.allocators))) :
    h'.Stocked ((ms.map Mutator.settled).map (·.allocators)) := by
  obtain ⟨small, reclaims, eq, free⟩ := c.small
  obtain ⟨cells, pending, -, -⟩ := c.large
  have length : ∀ x ∈ h'.known, h'.memory.length x = h.memory.length x := fun x hx => by
    rw [← Memory.length_targets, ← Memory.length_targets]
    exact congrArg List.length (c.targets x (c.known hx))
  have pages : h'.small.pages = small.pages := by rw [eq]
  have reclaimed := st.small.of_reclaims reclaims
  have large := st.large.subset pending cells
  exact {
    low := by
      rw [pages, reclaims.pages_eq]
      exact st.low
    high := c.permanent ▸ st.high
    small := by
      refine (reclaimed.congr pages (by rw [eq]) (by rw [eq]) fun s => ?_).withMemory fun o ho =>
        length o (.inl (Heap.mem_counted.2 (.inl ho)))
      -- the mutators keep no cells
      have none : ((ms.map Mutator.settled).map (·.allocators)).flatMap
          (·.cells.cells.get s) = [] := by
        simp [Mutator.settled, Mutator.released, PerClass.get, PerClass.all]
      rw [none, List.append_nil, List.flatMap_map]
      exact (free s).symm
    large := large.withMemory fun o ho => length o (.inl (Heap.mem_counted.2 (.inr ho)))
    permanent := by
      have blocks : ((ms.map Mutator.settled).map (·.allocators)).map (·.bump) =
          (ms.map (·.allocators)).map (·.bump) := by
        simp [Mutator.settled, Mutator.released, Mutator.withoutLogs, Mutator.withoutDecrements]
      rw [blocks, c.permanent]
      exact st.permanent.withMemory fun o ho => length o (.inr (c.permanent ▸ ho)) }

namespace Ready

variable {settings : Settings} {h h' : Heap} {ms ms' : List Mutator} {e : Entries}

/-- All mutators take part in a collection. -/
theorem eq_settled {kind : CollectionKind} (r : Ready settings h ms e)
    (done : Collects kind ms h ms' h') : ms' = ms.map Mutator.settled :=
  (done.collected r.ledger r.held r.idle r.roots_known).1

/-- What a collection did, in whichever order its crew worked. It left no entries. -/
theorem collected {kind : CollectionKind} (r : Ready settings h ms e)
    (done : Collects kind ms h ms' h') : Collected h ms h' ∧ Ready settings h' ms' {} := by
  obtain ⟨rfl, c, -⟩ := done.collected r.ledger r.held r.idle r.roots_known
  refine ⟨c, {
    settings_eq := c.settings.trans r.settings_eq
    outfits := fun m hm => ?_
    ledger := Exact.ledger (c.oldRoots ▸ c.exact)
    held := c.held
    stocked := c.stocked r.stocked
    idle := c.idle
    roots_known := fun x hx => ?_ }⟩
  · obtain ⟨m₀, hm₀, rfl⟩ := List.mem_map.1 hm
    exact r.outfits m₀ hm₀
  · obtain ⟨calls, client⟩ := c.client
    rw [client] at hx
    exact c.exact.roots_known x hx

/-- What a collection did that did not collect cycles. -/
theorem incremented {kind : CollectionKind} (r : Ready settings h ms e)
    (done : Collects kind ms h ms' h') (increment : h.collectsCycles kind = false) :
    ∃ N k F, Incremented h e N k F h' :=
  (done.collected r.ledger r.held r.idle r.roots_known).2.2.1 increment

/-- What a cycle collection left. -/
theorem retained {kind : CollectionKind} (r : Ready settings h ms e)
    (done : Collects kind ms h ms' h') (cycles : h.collectsCycles kind = true) :
    Retained h e h' :=
  (done.collected r.ledger r.held r.idle r.roots_known).2.2.2 cycles

/-- With a crew that takes turns a collection completes. -/
theorem collect (r : Ready settings h ms e) (collectors : 0 < settings.collectors)
    (capacity : 0 < settings.bufferCapacity) (kind : CollectionKind) :
    ∃ ms' h', HeapM.collect kind ms h = .ok ms' h' :=
  HeapM.collect_eq r.ledger r.held r.idle (r.settings_eq ▸ collectors)
    (r.settings_eq ▸ capacity) r.roots_known kind

end Ready

/-- At every point of a run the books are right. -/
theorem Run.ready {settings : Settings} {h : Heap} {ms : List Mutator} (run : Run settings h ms) :
    ∃ e, Ready settings h ms e := by
  induction run with
  | start => exact ⟨{}, .start settings⟩
  | turn _ t ih =>
    obtain ⟨e, r⟩ := ih
    obtain ⟨d, r', -⟩ := r.turn t
    exact ⟨e ++ d, r'⟩
  | collect _ done ih =>
    obtain ⟨e, r⟩ := ih
    exact ⟨{}, (r.collected done).2⟩

/-- After every completed collection of a run the count of a counted object is the number of slots
that refer to it, with one more for each time it was reported as a root, unless it is stuck. -/
theorem collections_conserve_counts {settings : Settings} {h h' : Heap} {ms ms' : List Mutator}
    {kind : CollectionKind} (run : Run settings h ms) (done : Collects kind ms h ms' h') :
    ∀ o ∈ h'.counted, h'.count o ≠ Header.stuck →
      h'.count o = h'.references (h'.counted ∪ h'.permanents) o +
        h.client.scanRoots.state.count o := by
  obtain ⟨e, r⟩ := run.ready
  exact (r.collected done).1.exact.count

/-! ## A parent and its child -/

/-- The first object that a new instance allocates, if it has one slot. -/
def Ref.parent : Ref := ⟨0x10000800⟩

/-- The second object, if it has no slots. -/
def Ref.child : Ref := ⟨0x10001c00⟩

/-- A new instance gets a mutator. That stores the child in the parent, which becomes the only root,
and an increment follows. Then the mutator takes the child out of the parent again. Do the objects
and the entries show that? -/
def parentAndChild : Bool :=
  Mutator.bind.holds (fun m => (m.newObject 1 false .default).holds fun (_, m) =>
    (m.newObject 0 false .default).holds fun (_, m) h =>
      decide (Ref.parent ∈ h.known ∧ 0 < (h.view .parent).targets.length ∧
        Ref.child ∈ h.known ∧ (h.view .parent).field 0 = .scalar 0) &&
      (m.write .parent (Ref.parent.slotAddr 0) (some .child) (.scalar 0)).holds (fun m h =>
        decide (Ref.parent ∈ h.known ∧ (h.view .parent).referents = [.child]) &&
        (HeapM.collect .increment [m]).holds (fun ms h =>
          decide (Ref.child ∈ h.counted ∧ h.count .child = 1) &&
          decide (Ref.parent ∈ h.known ∧ 0 < (h.view .parent).targets.length ∧
            (h.view .parent).field 0 = .scalar 0) &&
          match ms with
          | [m] => (m.write .parent (Ref.parent.slotAddr 0) none (.scalar 0)).holds (fun m h =>
              decide (h.loggedObjects [m] = [.parent] ∧ h.owedDecrements [m] = [.child])) h
          | _ => false) (h.withRoots [.parent])) h)
    (.ofSettings {})

/-- A mutator stores the child in the parent, and takes it out after an increment. -/
theorem Run.parent_child : ∃ h ms h₀ m₀ h' m', Run {} h ms ∧
    HeapM.collect .increment ms h = .ok [m₀] h₀ ∧ Turn h₀ [m₀] h' [m'] ∧
    (h.client.scanRoots.state = [.parent] ∧ (h.view .parent).referents = [.child]) ∧
    (Ref.child ∈ h₀.counted ∧ h₀.count .child = 1) ∧
    h'.loggedObjects [m'] = [.parent] ∧ h'.owedDecrements [m'] = [.child] := by
  have steps : parentAndChild = true := by decide +kernel
  simp only [parentAndChild, HeapM.holds_iff, Bool.and_eq_true, decide_eq_true_eq] at steps
  obtain ⟨m, h₁, bound, ⟨_, m₁⟩, h₂, first, ⟨_, m₂⟩, h₃, second, ⟨parent, slot, child, field⟩,
    m₃, h₄, written, ⟨root, referents⟩, ms₀, h₀, collected,
    ⟨counted, parent₀, slot₀, field₀⟩, last⟩ := steps
  have turn₁ : Turn (.ofSettings {}) [] h₁ [m] := .bind bound
  have turn₂ : Turn h₁ ([] ++ [m]) h₂ ([] ++ [m₁]) := .allocate first
  have turn₃ : Turn h₂ ([] ++ [m₁]) h₃ ([] ++ [m₂]) := .allocate second
  have turn₄ : Turn h₃ ([] ++ [m₂]) h₄ ([] ++ [m₃]) := .write parent slot
    (fun o eq => Option.some.inj eq ▸ child) (field ▸ written)
  have turn₅ : Turn h₄ [m₃] (h₄.withRoots [.parent]) [m₃] := .setRoots fun x hx =>
    List.mem_singleton.1 hx ▸ root
  have run := ((((Run.start.turn turn₁).turn turn₂).turn turn₃).turn turn₄).turn turn₅
  split at last
  · next m₀ =>
    obtain ⟨m', h', overwritten, logged⟩ := HeapM.holds_iff.1 last
    have turn₆ : Turn h₀ ([] ++ [m₀]) h' ([] ++ [m']) :=
      .write parent₀ slot₀ (by rintro o ⟨⟩) (field₀ ▸ overwritten)
    exact ⟨_, _, h₀, m₀, h', m', run, collected, turn₆, ⟨rfl, referents⟩, counted,
      of_decide_eq_true logged⟩
  · cases last

/-- The count of the child is exact after the increment. -/
theorem collections_conserve_child : ∃ h ms h' ms', Run {} h ms ∧
    HeapM.collect .increment ms h = .ok ms' h' ∧ Ref.child ∈ h'.counted ∧
    1 = h'.references (h'.counted ∪ h'.permanents) .child +
      h.client.scanRoots.state.count .child := by
  obtain ⟨h, ms, h', m', _, _, run, done, -, -, ⟨counted, count⟩, -⟩ := Run.parent_child
  have stuck : h'.count .child ≠ Header.stuck := by
    rw [count]
    decide
  refine ⟨h, ms, h', [m'], run, done, counted, ?_⟩
  rw [← count]
  exact collections_conserve_counts run (.of_collect done) .child counted stuck

/-! ## What can be reached -/

namespace Heap

/-- The objects that can be reached through slots from roots or from permanent objects. -/
inductive Reachable (h : Heap) (roots : List Ref) : Ref → Prop
  | root {o : Ref} : o ∈ roots → Reachable h roots o
  | permanent {o : Ref} : o ∈ h.permanent.objects → Reachable h roots o
  | slot {x o : Ref} : Reachable h roots x → o ∈ (h.view x).referents → Reachable h roots o

/-- The objects of a heap are those that count as live. -/
theorem WellFormed.isLive {h : Heap} (wf : h.WellFormed) {o : Ref} (ho : o ∈ h.known) :
    h.isLive o = true := by
  rw [Heap.isLive]
  rcases ho with counted | permanent
  · rcases mem_counted.1 counted with small | large
    · rw [if_pos (wf.small_holds o small)]
      exact mem_liveObjects.1 small
    · have holds := wf.large_holds o large
      rw [if_neg (by simp [wf.not_small_of_large holds]), if_pos holds]
      obtain ⟨c, hc, rfl⟩ := List.mem_map.1 large
      have found := wf.cells.get?_eq hc
      rw [wf.cell_eq c hc] at found
      rw [LargeSpace.contains, found]
      simp
  · have none := wf.isCounted_permanent permanent
    rw [isCounted, Bool.or_eq_false_iff] at none
    rw [if_neg (by simp [none.1]), if_neg (by simp [none.2])]
    exact wf.permanent_holds o permanent

end Heap

/-- A completed collection of a run frees nothing that can be reached, it leaves no reference to a
freed object in any other, and no slot changes. -/
theorem collections_spare_reachable {settings : Settings} {h h' : Heap} {ms ms' : List Mutator}
    {kind : CollectionKind} (run : Run settings h ms) (done : Collects kind ms h ms' h') :
    (∀ o, h.Reachable h.client.scanRoots.state o → o ∈ h'.known ∧ h'.isLive o = true) ∧
      (∀ x ∈ h'.known, ∀ o ∈ (h'.view x).referents, o ∈ h'.known) ∧
      ∀ x ∈ h.known, (h'.view x).targets = (h.view x).targets := by
  obtain ⟨e, r⟩ := run.ready
  obtain ⟨c, -⟩ := r.collected done
  have cleared := c.exact.cleared
  have spared : ∀ o, h.Reachable h.client.scanRoots.state o → o ∈ h'.known := by
    intro o reach
    induction reach with
    | root ho => exact c.exact.roots_known _ ho
    | permanent ho => exact .inr (c.permanent ▸ ho)
    | slot _ ho ih =>
      -- the collection left the slot as it was, so its referent is known afterwards
      refine cleared.slots_known _ ih _ ?_
      rwa [ObjectView.referents, c.targets _ (c.known ih)]
  exact ⟨fun o reach => ⟨spared o reach, cleared.wellFormed.isLive (spared o reach)⟩,
    cleared.slots_known, c.targets⟩

/-- The child is spared, since the parent refers to it. -/
theorem collections_spare_child : ∃ h ms h' ms', Run {} h ms ∧
    HeapM.collect .increment ms h = .ok ms' h' ∧ Ref.child ∈ h'.known := by
  obtain ⟨h, ms, h', m', _, _, run, done, -, ⟨roots, referents⟩, -⟩ := Run.parent_child
  have parent : h.Reachable h.client.scanRoots.state .parent := .root (by simp [roots])
  have child : h.Reachable h.client.scanRoots.state .child := parent.slot (by simp [referents])
  exact ⟨h, ms, h', [m'], run, done,
    ((collections_spare_reachable run (.of_collect done)).1 .child child).1⟩

end DeferredCount
