import DeferredCount.Proofs.Holding
import DeferredCount.Proofs.Shifts

/-!
# The stretches of an increment

An increment runs the steps of the schedule. The first stretch of them makes the pools ready and
collects what the mutators logged, the second one brings the counts up to date and frees objects,
and the last one gives back what the mutators kept and checks that nothing is left.

Results:
1. `HeapM.steps_cons_of_ok`: a step that succeeds, at the start of a stretch.
2. `HeapM.opening_eq`, `HeapM.closing_eq`: what the first and the last stretch do.
3. `Collector.bind_crew`: the crew that comes to work.
-/

namespace DeferredCount

/-! ## The crew -/

namespace Collector

/-- A collector with empty buffers. -/
def fresh (capacity ordinal : Nat) : Collector where
  ordinal
  counting := { objects := { capacity }, traceRoots := { capacity } }
  fields := { capacity }
  decrements := { capacity }

theorem fresh_isFlushed (capacity ordinal : Nat) : (fresh capacity ordinal).isFlushed = true := rfl

/-- A collector is flushed when all of its buffers are empty. -/
theorem isFlushed_iff {c : Collector} : c.isFlushed = true ↔
    c.counting.objects.items.toList = [] ∧ c.fields.items.toList = [] ∧
      c.decrements.items.toList = [] ∧ c.counting.traceRoots.items.toList = [] := by
  simp only [isFlushed, Bool.and_eq_true, Buffer.isFlushed, Stack.isEmpty_iff, and_assoc]

/-- The crew of an increment. Only its first member is primary. -/
theorem bind_crew {h : Heap} (capacity : 0 < h.settings.bufferCapacity) (n : Nat) :
    ∃ crew, ((List.range (n + 1)).mapM bind : HeapM (List Collector)) h = .ok crew h ∧ Led crew ∧
      ∀ d ∈ crew, d.isFlushed := by
  have each : ∀ i, bind i h = .ok (fresh h.settings.bufferCapacity i) h := by
    intro i
    have buffer : ∀ {α : Type}, (Buffer.ofCapacity h.settings.bufferCapacity :
        Except Fault (Buffer α)) = .ok { capacity := h.settings.bufferCapacity } := by
      intro α
      simp [Buffer.ofCapacity, require, capacity]
    simp only [bind, HeapM.get_bind_apply, CountingBuffers.ofCapacity, buffer, Except.ok_bind,
      Except.pure_eq, HeapM.liftM_eq, HeapM.lift_ok, HeapM.pure_bind_apply]
    rfl
  refine ⟨fresh h.settings.bufferCapacity 0 ::
      (List.range n).map fun i => fresh h.settings.bufferCapacity (i + 1), ?_,
    ⟨_, _, rfl, rfl, fun d hd => ?_⟩, fun d hd => ?_⟩
  · rw [HeapM.mapM_of_ok _ fun i _ => each i, List.range_succ_eq_map, List.map_cons, List.map_map]
    rfl
  · obtain ⟨i, -, rfl⟩ := List.mem_map.1 hd
    simp [isPrimary, fresh]
  · rcases List.mem_cons.1 hd with rfl | hd
    · exact fresh_isFlushed ..
    · obtain ⟨i, -, rfl⟩ := List.mem_map.1 hd
      exact fresh_isFlushed ..

end Collector

namespace HeapM

variable {h h₁ : Heap} {crew : List Collector} {kind : CollectionKind}

/-- A crew comes to work, if there are collectors and buffers can hold an entry. -/
theorem muster_eq (collectors : 0 < h.settings.collectors)
    (capacity : 0 < h.settings.bufferCapacity) (kind : CollectionKind) :
    ∃ crew, muster kind h = .ok crew { h with
        progress := { h.progress with requested := kind, collectors := h.settings.collectors }
        log := .incrementBegun h.progress.increments kind h.settings.collectors :: h.log } ∧
      Collector.Led crew ∧ ∀ d ∈ crew, d.isFlushed := by
  obtain ⟨n, eq⟩ := Nat.exists_eq_succ_of_ne_zero (Nat.ne_of_gt collectors)
  have requested : request kind (n + 1) h = .ok () { h with
      progress := { h.progress with requested := kind, collectors := n + 1 } } := by
    simp [request, Progress.request, require]
  obtain ⟨crew, made, facts⟩ := Collector.bind_crew (h := { h with
    progress := { h.progress with requested := kind, collectors := n + 1 }
    log := .incrementBegun h.progress.increments kind (n + 1) :: h.log }) capacity n
  refine ⟨crew, ?_, facts⟩
  rw [muster, get_bind_apply, eq, bind_of_ok requested, get_bind_apply, emit_bind_apply]
  exact made

/-- A crew that came to work has a member, and its buffers can hold an entry. -/
theorem of_muster (e : muster kind h = .ok crew h₁) :
    0 < h.settings.collectors ∧ 0 < h.settings.bufferCapacity := by
  rw [muster, get_bind_apply] at e
  obtain ⟨_, h₂, requested, e⟩ := bind_eq_ok.1 e
  rw [request, get_bind_apply] at requested
  obtain ⟨progress, asked, requested⟩ := lift_bind_eq_ok.1 requested
  cases requested
  obtain ⟨_, checked, -⟩ := Except.bind_eq_ok.1 asked
  have collectors : 0 < h.settings.collectors := by
    by_contra none
    simp [require, none] at checked
  refine ⟨collectors, ?_⟩
  -- there is a first collector, and it could make its buffers
  obtain ⟨n, eq⟩ := Nat.exists_eq_succ_of_ne_zero (Nat.ne_of_gt collectors)
  rw [get_bind_apply, emit_bind_apply, eq, List.range_succ_eq_map, List.mapM_cons] at e
  obtain ⟨c, h₃, first, -⟩ := bind_eq_ok.1 e
  rw [Collector.bind, get_bind_apply] at first
  obtain ⟨counting, made, -⟩ := lift_bind_eq_ok.1 first
  obtain ⟨objects, made, -⟩ := Except.bind_eq_ok.1 made
  obtain ⟨_, checked, -⟩ := Except.bind_eq_ok.1 made
  by_contra none
  simp [require, none] at checked

end HeapM

namespace Schedule

/-- The steps before the crew works. -/
def opening : List Step :=
  [⟨.plan, .setCollectionKind⟩, ⟨.plan, .initiate⟩, ⟨.plan, .prepare⟩, ⟨.mutators, .prepare⟩,
    ⟨.collectors, .prepare⟩, ⟨.mutators, .processModBuffer⟩]

/-- The steps that work off what was logged. -/
def counting : List Step := [⟨.collectors, .processModBuffer⟩, ⟨.mutators, .processDecBuffer⟩]

/-- The steps that free objects. -/
def freeing : List Step := [⟨.collectors, .processDecBuffer⟩, ⟨.plan, .backupTrace⟩]

/-- The steps after the crew has worked. -/
def closing : List Step :=
  [⟨.mutators, .release⟩, ⟨.collectors, .release⟩, ⟨.plan, .release⟩, ⟨.plan, .complete⟩]

theorem increment_eq : increment = opening ++ (counting ++ (freeing ++ closing)) := rfl

end Schedule

namespace HeapM

variable {ms ms₁ : List Mutator} {crew crew₁ : List Collector} {h h₁ : Heap} {s : Step}
  {steps : List Step}

/-- The first step of a stretch. -/
theorem steps_cons_of_ok
    (e : runStep ms crew s { h with log := .stepBegun s :: h.log } = .ok (ms₁, crew₁) h₁) :
    (s :: steps).foldlM runReportedStep (ms, crew) h =
      steps.foldlM runReportedStep (ms₁, crew₁) { h₁ with log := .stepEnded s :: h₁.log } := by
  rw [List.foldlM_cons, bind_of_ok (runReportedStep_of_ok e)]

/-- The first part of a stretch. -/
theorem steps_append_of_ok {t t₁ : List Mutator × List Collector} {rest : List Step}
    (e : steps.foldlM runReportedStep t h = .ok t₁ h₁) :
    (steps ++ rest).foldlM runReportedStep t h = rest.foldlM runReportedStep t₁ h₁ := by
  rw [List.foldlM_append, bind_of_ok e]

theorem planStep_of_ok {p : Phase} (e : planPhase p h = .ok () h₁) :
    runStep ms crew ⟨.plan, p⟩ h = .ok (ms, crew) h₁ := by
  rw [runStep]
  exact (bind_of_ok e).trans rfl

theorem mutatorsStep_of_ok {p : Phase} (e : ms.mapM (·.phase p) h = .ok ms₁ h₁) :
    runStep ms crew ⟨.mutators, p⟩ h = .ok (ms₁, crew) h₁ := by
  rw [runStep]
  exact (bind_of_ok e).trans rfl

theorem collectorsStep_of_ok {p : Phase} (e : Collector.phase crew p h = .ok crew₁ h₁) :
    runStep ms crew ⟨.collectors, p⟩ h = .ok (ms, crew₁) h₁ := by
  rw [runStep]
  exact (bind_of_ok e).trans rfl

/-! ## Before the crew works -/

theorem Pools.prepare_eq {p : Pools} {n : Nat} (pos : 0 < n) :
    ∃ p', p.prepare n = .ok p' ∧ p'.objects.entries = p.objects.entries ∧
      p'.fields.entries = p.fields.entries ∧ p'.decrements.entries = p.decrements.entries ∧
      p'.traceRoots.entries = p.traceRoots.entries ∧ (p.Solid → p'.Solid) := by
  have each : ∀ {α : Type} (q : Pool α),
      q.prepare n = .ok { q with consumers := n, waiting := 0 } := by
    intro α q
    simp [Pool.prepare, require, pos]
  refine ⟨⟨{ p.objects with consumers := n, waiting := 0 },
    { p.fields with consumers := n, waiting := 0 },
    { p.decrements with consumers := n, waiting := 0 },
    { p.traceRoots with consumers := n, waiting := 0 }⟩, ?_, rfl, rfl, rfl, rfl,
    fun s => ⟨s.objects, s.fields, s.decrements, s.traceRoots⟩⟩
  rw [Pools.prepare, each, Except.ok_bind, each, Except.ok_bind, each, Except.ok_bind, each]
  rfl

/-- A check of every collector. -/
theorem checkAll {f : Collector → PUnit → HeapM (ForInStep PUnit)}
    (ok : ∀ c ∈ crew, f c ⟨⟩ h = .ok (.yield ⟨⟩) h) :
    (forIn crew PUnit.unit f : HeapM PUnit) h = .ok ⟨⟩ h := by
  induction crew with
  | nil => rfl
  | cons c crew ih =>
    rw [List.forIn_cons, bind_of_ok (ok c List.mem_cons_self)]
    exact ih fun d hd => ok d (List.mem_cons_of_mem _ hd)

theorem elect_eq (ms : List Mutator) (crew : List Collector) (h : Heap) :
    ∃ log, ∀ steps, (⟨.plan, .setCollectionKind⟩ :: steps).foldlM runReportedStep (ms, crew) h =
      steps.foldlM runReportedStep (ms, crew) { h with
        progress := h.progress.elect h.settings.cycleInterval
        log } := by
  have e : ∃ log, planPhase .setCollectionKind { h with
        log := .stepBegun ⟨.plan, .setCollectionKind⟩ :: h.log } =
      .ok () { h with progress := h.progress.elect h.settings.cycleInterval, log } := ⟨_, rfl⟩
  obtain ⟨log, e⟩ := e
  exact ⟨_, fun _ => steps_cons_of_ok (planStep_of_ok e)⟩

theorem start_eq (ms : List Mutator) (crew : List Collector) {h : Heap}
    (idle : h.progress.running = false) :
    ∃ log, ∀ steps, (⟨.plan, .initiate⟩ :: steps).foldlM runReportedStep (ms, crew) h =
      steps.foldlM runReportedStep (ms, crew) { h with
        progress := { h.progress with running := true }
        log } := by
  have e : planPhase .initiate { h with log := .stepBegun ⟨.plan, .initiate⟩ :: h.log } =
      .ok () { h with
        progress := { h.progress with running := true }
        log := .stepBegun ⟨.plan, .initiate⟩ :: h.log } := by
    simp [planPhase, progressPhase, Progress.phase, Progress.start, idle]
  exact ⟨_, fun _ => steps_cons_of_ok (planStep_of_ok e)⟩

theorem prepare_eq (ms : List Mutator) {crew : List Collector} {h : Heap}
    (consumers : 0 < h.progress.collectors) (flushed : ∀ c ∈ crew, c.isFlushed) :
    ∃ pools log, (∀ steps, (⟨.plan, .prepare⟩ :: ⟨.mutators, .prepare⟩ ::
          ⟨.collectors, .prepare⟩ :: steps).foldlM runReportedStep (ms, crew) h =
        steps.foldlM runReportedStep (ms, crew) { h with pools, newRoots := [], log }) ∧
      pools.objects.entries = h.pools.objects.entries ∧
      pools.fields.entries = h.pools.fields.entries ∧
      pools.decrements.entries = h.pools.decrements.entries ∧
      pools.traceRoots.entries = h.pools.traceRoots.entries ∧ (h.pools.Solid → pools.Solid) := by
  obtain ⟨pools, prepared, facts⟩ := Pools.prepare_eq (p := h.pools) consumers
  have e : planPhase .prepare { h with log := .stepBegun ⟨.plan, .prepare⟩ :: h.log } =
      .ok () { h with
        pools
        newRoots := []
        log := .stepBegun ⟨.plan, .prepare⟩ :: h.log } := by
    simp [planPhase, prepared]
  have quiet : ∀ k : Heap, ms.mapM (·.phase .prepare) k = .ok ms k := fun k => by
    have := mapM_of_ok (f := fun m : Mutator => m.phase .prepare) (g := id) ms
      (fun m _ => (rfl : m.phase .prepare k = .ok m k))
    rwa [List.map_id] at this
  have checked : ∀ k : Heap, Collector.phase crew .prepare k = .ok crew k := fun k => by
    rw [Collector.phase]
    refine bind_of_ok (checkAll fun c hc => ?_)
    rw [require, if_pos (flushed c hc)]
    rfl
  exact ⟨pools, _, fun _ => (steps_cons_of_ok (planStep_of_ok e)).trans
    ((steps_cons_of_ok (mutatorsStep_of_ok (quiet _))).trans
      (steps_cons_of_ok (collectorsStep_of_ok (checked _)))), facts⟩

theorem flushModified_eq (ms : List Mutator) (crew : List Collector) (h : Heap) :
    ∃ pools log, (∀ steps, (⟨.mutators, .processModBuffer⟩ :: steps).foldlM runReportedStep
          (ms, crew) h =
        steps.foldlM runReportedStep (ms.map Mutator.withoutLogs, crew) { h with pools, log }) ∧
      pools.objects.entries = h.loggedObjects ms ∧ pools.fields.entries = h.loggedFields ms ∧
      pools.decrements = h.pools.decrements ∧ pools.traceRoots = h.pools.traceRoots ∧
      (h.pools.Solid → pools.Solid) := by
  obtain ⟨q, r, e, objects, fields, solid⟩ := Mutator.flushModified_all ms
    { h with log := .stepBegun ⟨.mutators, .processModBuffer⟩ :: h.log }
  exact ⟨{ h.pools with objects := q, fields := r }, _, fun _ =>
    steps_cons_of_ok (mutatorsStep_of_ok (p := .processModBuffer) e), objects, fields, rfl, rfl,
    fun s => { s with objects := (solid s).1, fields := (solid s).2 }⟩

theorem flushDecrements_eq (ms : List Mutator) (crew : List Collector) (h : Heap) :
    ∃ pools log, (∀ steps, (⟨.mutators, .processDecBuffer⟩ :: steps).foldlM runReportedStep
          (ms, crew) h =
        steps.foldlM runReportedStep (ms.map Mutator.withoutDecrements, crew)
          { h with pools, log }) ∧
      pools.decrements.entries = h.owedDecrements ms ∧ pools.objects = h.pools.objects ∧
      pools.fields = h.pools.fields ∧ pools.traceRoots = h.pools.traceRoots ∧
      (h.pools.Solid → pools.Solid) := by
  obtain ⟨q, e, decrements, solid⟩ := Mutator.flushDecrements_all ms
    { h with log := .stepBegun ⟨.mutators, .processDecBuffer⟩ :: h.log }
  exact ⟨{ h.pools with decrements := q }, _, fun _ =>
    steps_cons_of_ok (mutatorsStep_of_ok (p := .processDecBuffer) e), decrements, rfl, rfl, rfl,
    fun s => { s with decrements := solid s }⟩

/-- The steps before the crew works decide the kind of the increment, and collect what was
logged. -/
theorem opening_eq (ms : List Mutator) (idle : h.progress.running = false)
    (consumers : 0 < h.progress.collectors)
    (flushed : ∀ c ∈ crew, c.isFlushed) :
    ∃ pools log, (∀ steps, (Schedule.opening ++ steps).foldlM runReportedStep (ms, crew) h =
        steps.foldlM runReportedStep (ms.map Mutator.withoutLogs, crew) { h with
          progress := { h.progress.elect h.settings.cycleInterval with running := true }
          pools
          newRoots := []
          log }) ∧
      pools.objects.entries = h.loggedObjects ms ∧ pools.fields.entries = h.loggedFields ms ∧
      pools.decrements.entries = h.pools.decrements.entries ∧
      pools.traceRoots.entries = h.pools.traceRoots.entries ∧ (h.pools.Solid → pools.Solid) := by
  obtain ⟨l₁, e₁⟩ := elect_eq ms crew h
  obtain ⟨l₂, e₂⟩ := start_eq ms crew (h := { h with
    progress := h.progress.elect h.settings.cycleInterval
    log := l₁ }) idle
  obtain ⟨p, l₃, e₃, objects, fields, decrements, traceRoots, solid⟩ := prepare_eq ms (h := { h with
    progress := { h.progress.elect h.settings.cycleInterval with running := true }
    log := l₂ }) consumers flushed
  obtain ⟨q, l₄, e₄, objects', fields', decrements', traceRoots', solid'⟩ :=
    flushModified_eq ms crew { h with
      progress := { h.progress.elect h.settings.cycleInterval with running := true }
      pools := p
      newRoots := []
      log := l₃ }
  refine ⟨q, l₄, fun steps => ?_, ?_, ?_, ?_, ?_, solid' ∘ solid⟩
  · rw [Schedule.opening, List.cons_append, e₁, List.cons_append, e₂, List.cons_append,
      List.cons_append, List.cons_append, e₃, List.cons_append, e₄]
    rfl
  · rw [objects', Heap.loggedObjects, Heap.loggedObjects, objects]
  · rw [fields', Heap.loggedFields, Heap.loggedFields, fields]
  · rw [decrements', decrements]
  · rw [traceRoots', traceRoots]

end HeapM

/-! ## After the crew has worked -/

/-- The cells of a class that hold no object: those on the stack of the space, and those that
mutators keep. -/
def Heap.spareCells (h : Heap) (ms : List Mutator) (c : SizeClass) : List Address :=
  h.small.free.get c ++ ms.flatMap (·.allocators.cells.cells.get c)

/-- No cell gets lost when an allocator gives cells back. -/
theorem CellAllocator.releaseClasses_eq (cs : List SizeClass) (a : CellAllocator) (h : Heap) :
    ∃ a' free, cs.foldlM releaseClass a h = .ok a' { h with small := { h.small with free } } ∧
      (∀ c, c ∈ cs ∨ a.cells.get c = [] → a'.cells.get c = []) ∧
      ∀ c, a'.cells.get c ++ free.get c = a.cells.get c ++ h.small.free.get c := by
  induction cs generalizing a h with
  | nil => exact ⟨a, h.small.free, rfl, fun c hc => hc.resolve_left List.not_mem_nil, fun _ => rfl⟩
  | cons d cs ih =>
    obtain ⟨a', free, run, none, same⟩ := ih { a with cells := a.cells.put d [] }
      { h with small := h.small.returnCells d (a.cells.get d) }
    refine ⟨a', free, ?_, fun c hc => none c ?_, fun c => ?_⟩
    · have first : releaseClass a d h = .ok { a with cells := a.cells.put d [] }
          { h with small := h.small.returnCells d (a.cells.get d) } := rfl
      rw [List.foldlM_cons, HeapM.bind_of_ok first]
      exact run
    · rw [PerClass.get_put]
      by_cases eq : d = c
      · exact .inr (if_pos eq)
      · rw [if_neg eq]
        exact hc.imp_left fun hc => (List.mem_cons.1 hc).resolve_left (Ne.symm eq)
    · rw [same, SmallSpace.returnCells, PerClass.get_put, PerClass.get_put]
      by_cases eq : d = c
      · simp [eq]
      · simp [eq]

theorem CellAllocator.release_eq (a : CellAllocator) (h : Heap) :
    ∃ free, a.release h = .ok {} { h with small := { h.small with free } } ∧
      ∀ c, free.get c = a.cells.get c ++ h.small.free.get c := by
  obtain ⟨⟨cells⟩, free, run, none, same⟩ := releaseClasses_eq SizeClass.all a h
  have empty : ∀ c, PerClass.get cells c = [] := fun c => none c (.inl (List.mem_finRange c))
  have : cells = .all [] := by
    refine Vector.ext fun i hi => ?_
    rw [PerClass.all, Vector.getElem_replicate]
    exact empty ⟨i, hi⟩
  subst this
  refine ⟨free, run, fun c => ?_⟩
  have := same c
  rwa [empty c, List.nil_append] at this

namespace Mutator

/-- The mutator after it has given back its free cells. -/
def released (m : Mutator) : Mutator := { m with allocators := { m.allocators with cells := {} } }

theorem release_all (ms : List Mutator) (flushed : ∀ m ∈ ms, m.buffers.isFlushed) (h : Heap) :
    ∃ free, ms.mapM (·.phase .release) h =
        .ok (ms.map released) { h with small := { h.small with free } } ∧
      ∀ c, (free.get c).Perm (h.spareCells ms c) := by
  induction ms generalizing h with
  | nil =>
    refine ⟨h.small.free, rfl, fun c => .of_eq ?_⟩
    simp [Heap.spareCells]
  | cons m ms ih =>
    obtain ⟨free₁, run₁, cells₁⟩ := m.allocators.cells.release_eq h
    obtain ⟨free, run, cells⟩ := ih (fun d hd => flushed d (List.mem_cons_of_mem _ hd))
      { h with small := { h.small with free := free₁ } }
    have first : m.phase .release h = .ok m.released
        { h with small := { h.small with free := free₁ } } := by
      rw [phase, Allocators.release, HeapM.bind_assoc_apply, HeapM.bind_of_ok run₁]
      simp only [HeapM.pure_bind_apply, flushed m List.mem_cons_self, if_true]
      rfl
    refine ⟨free, ?_, fun c => (cells c).trans ?_⟩
    · rw [List.mapM_cons, HeapM.bind_of_ok first, HeapM.bind_of_ok run]
      rfl
    · refine List.perm_iff_count.2 fun x => ?_
      simp only [Heap.spareCells, cells₁, List.flatMap_cons, List.count_append]
      omega

end Mutator

namespace HeapM

variable {ms : List Mutator} {crew : List Collector} {h : Heap}

theorem releaseMutators_eq (crew : List Collector) (h : Heap)
    (flushed : ∀ m ∈ ms, m.buffers.isFlushed) :
    ∃ free log, (∀ steps, (⟨.mutators, .release⟩ :: steps).foldlM runReportedStep (ms, crew) h =
        steps.foldlM runReportedStep (ms.map Mutator.released, crew)
          { h with small := { h.small with free }, log }) ∧
      ∀ c, (free.get c).Perm (h.spareCells ms c) := by
  obtain ⟨free, run, cells⟩ := Mutator.release_all ms flushed
    { h with log := .stepBegun ⟨.mutators, .release⟩ :: h.log }
  exact ⟨free, _, fun _ => steps_cons_of_ok (mutatorsStep_of_ok (p := .release) run), cells⟩

theorem releaseCollectors_eq (ms : List Mutator) (h : Heap) (flushed : ∀ c ∈ crew, c.isFlushed) :
    ∃ log, ∀ steps, (⟨.collectors, .release⟩ :: steps).foldlM runReportedStep (ms, crew) h =
      steps.foldlM runReportedStep (ms, crew) { h with log } := by
  have checked : Collector.phase crew .release
      { h with log := .stepBegun ⟨.collectors, .release⟩ :: h.log } =
      .ok crew { h with log := .stepBegun ⟨.collectors, .release⟩ :: h.log } := by
    rw [Collector.phase]
    refine bind_of_ok (checkAll fun c hc => ?_)
    rw [if_pos (flushed c hc)]
    rfl
  refine ⟨.stepEnded ⟨.collectors, .release⟩ :: .stepBegun ⟨.collectors, .release⟩ :: h.log,
    fun _ => ?_⟩
  rw [steps_cons_of_ok (collectorsStep_of_ok checked)]

theorem releasePlan_eq (ms : List Mutator) (crew : List Collector)
    (pools : h.pools.isEmpty = true) :
    ∃ log, ∀ steps, (⟨.plan, .release⟩ :: steps).foldlM runReportedStep (ms, crew) h =
      steps.foldlM runReportedStep (ms, crew)
        { h with oldRoots := h.newRoots, newRoots := [], log } := by
  have e : planPhase .release { h with log := .stepBegun ⟨.plan, .release⟩ :: h.log } =
      .ok () { h with
        oldRoots := h.newRoots
        newRoots := []
        log := .stepBegun ⟨.plan, .release⟩ :: h.log } := by
    simp [planPhase, pools]
  exact ⟨_, fun _ => steps_cons_of_ok (planStep_of_ok e)⟩

theorem complete_eq (ms : List Mutator) (crew : List Collector) (h : Heap) :
    ∃ log, ∀ steps, (⟨.plan, .complete⟩ :: steps).foldlM runReportedStep (ms, crew) h =
      steps.foldlM runReportedStep (ms, crew) { h with progress := h.progress.finish, log } := by
  have e : planPhase .complete { h with log := .stepBegun ⟨.plan, .complete⟩ :: h.log } =
      .ok () { h with
        progress := h.progress.finish
        log := .stepBegun ⟨.plan, .complete⟩ :: h.log } := rfl
  exact ⟨_, fun _ => steps_cons_of_ok (planStep_of_ok e)⟩

/-- The steps after the crew has worked. -/
theorem closing_eq (mutators : ∀ m ∈ ms, m.buffers.isFlushed)
    (collectors : ∀ c ∈ crew, c.isFlushed) (pools : h.pools.isEmpty = true) :
    ∃ free log, Schedule.closing.foldlM runReportedStep (ms, crew) h =
        .ok (ms.map Mutator.released, crew) { h with
          small := { h.small with free }
          oldRoots := h.newRoots
          newRoots := []
          progress := h.progress.finish
          log } ∧
      ∀ c, (free.get c).Perm (h.spareCells ms c) := by
  obtain ⟨free, l₁, e₁, cells⟩ := releaseMutators_eq crew h mutators
  obtain ⟨l₂, e₂⟩ := releaseCollectors_eq (ms.map Mutator.released)
    { h with small := { h.small with free }, log := l₁ } collectors
  obtain ⟨l₃, e₃⟩ := releasePlan_eq (ms.map Mutator.released) crew
    (h := { h with small := { h.small with free }, log := l₂ }) pools
  obtain ⟨l₄, e₄⟩ := complete_eq (ms.map Mutator.released) crew { h with
    small := { h.small with free }
    oldRoots := h.newRoots
    newRoots := []
    log := l₃ }
  refine ⟨free, l₄, ?_, cells⟩
  rw [Schedule.closing, e₁, e₂, e₃, e₄]
  rfl

end HeapM

end DeferredCount
