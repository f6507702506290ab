import DeferredCount.Collection
import DeferredCount.Proofs.Entries
import Mathlib.Logic.Relation

/-!
# Collectors side by side

`HeapM.collect` lets the collectors take their turns one after the other. In the two phases that
drain pools they may as well work side by side: each takes an entry from its buffer or the pool,
works it off and takes the next one, and nobody says whose turn it is. `Collector.Counts` and
`Collector.Frees` are what a collector does at a time in these phases, `Shift` is a crew at work,
and `Collects` is an increment whose crew works in any order. A collector leaves a phase when no
entry is left: it waits until all of them find the pool empty.

Results:
1. `Shift.counts_of_member`, `Shift.frees_of_member`: what one collector does, its crew does.
2. `Schedule.passes_append`, `Schedule.passes_of_fold`: the stretches of a schedule.
3. `Collects.of_collect`: an increment whose collectors take turns is one of these.
-/

namespace DeferredCount

open Relation

/-! ## One collector -/

namespace Collector

/-- One thing that a collector does while the crew counts references.
* `field`, `object`: it takes a field or an object, and works it off.
* `handOver`: it hands over its trace roots.
* `searchFields`, `searchObjects`: other collectors than before wait at a pool.
* `emit`: it reports something. -/
inductive Counts (cycle : Bool) : Collector × Heap → Collector × Heap → Prop
  | field {c : Collector} {h k h' : Heap} {e : FieldEntry} {fields : Buffer FieldEntry}
      {counting : CountingBuffers} : HeapM.take? .fields c.fields h = .ok (some (e, fields)) k →
      c.counting.processField cycle e k = .ok counting h' →
      Counts cycle (c, h) ({ c with fields, counting }, h')
  | object {c : Collector} {h k h' : Heap} {o : Ref} {objects : Buffer Ref}
      {counting : CountingBuffers} :
      HeapM.take? .objects c.counting.objects h = .ok (some (o, objects)) k →
      { c.counting with objects }.processObject cycle o k = .ok counting h' →
      Counts cycle (c, h) ({ c with counting }, h')
  | handOver {c : Collector} {h h' : Heap} {traceRoots : Buffer Ref} :
      HeapM.flush .traceRoots c.counting.traceRoots h = .ok traceRoots h' →
      Counts cycle (c, h) ({ c with counting := { c.counting with traceRoots } }, h')
  | searchFields {c : Collector} {h : Heap} (waiting : Nat) :
      Counts cycle (c, h) (c, h.putPool .fields { h.pools.fields with waiting })
  | searchObjects {c : Collector} {h : Heap} (waiting : Nat) :
      Counts cycle (c, h) (c, h.putPool .objects { h.pools.objects with waiting })
  | emit {c : Collector} {h : Heap} (e : Event) :
      Counts cycle (c, h) (c, { h with log := e :: h.log })

/-- One thing that a collector does while the crew frees objects.
* `oldRoot`: the primary collector takes over a root of the last increment.
* `decrement`: it takes a decrement, and works it off.
* `forget`: in a cycle collection it forgets all decrements instead.
* `search`: other collectors than before wait at the pool.
* `emit`: it reports something. -/
inductive Frees (cycle : Bool) : Collector × Heap → Collector × Heap → Prop
  | oldRoot {c : Collector} {h h' : Heap} {o : Ref} {roots : List Ref} {decrements : Buffer Ref} :
      cycle = false → c.isPrimary → h.oldRoots = o :: roots →
      HeapM.push .decrements c.decrements o { h with oldRoots := roots } = .ok decrements h' →
      Frees cycle (c, h) ({ c with decrements }, h')
  | decrement {c : Collector} {h k h' : Heap} {o : Ref} {b decrements : Buffer Ref}
      {wasFreed : Bool} : cycle = false →
      HeapM.take? .decrements c.decrements h = .ok (some (o, b)) k →
      HeapM.processDecrement b o k = .ok (wasFreed, decrements) h' →
      Frees cycle (c, h) ({ c with decrements }, h')
  | forget {c c' : Collector} {h h' : Heap} : cycle = true → c.dropDecrements h = .ok c' h' →
      Frees cycle (c, h) (c', h')
  | search {c : Collector} {h : Heap} (waiting : Nat) :
      Frees cycle (c, h) (c, h.putPool .decrements { h.pools.decrements with waiting })
  | emit {c : Collector} {h : Heap} (e : Event) :
      Frees cycle (c, h) (c, { h with log := e :: h.log })

end Collector

/-! ## The crew -/

/-- Only the first member of the crew is primary. -/
def Collector.Led (crew : List Collector) : Prop :=
  ∃ c others, crew = c :: others ∧ c.isPrimary ∧ ∀ d ∈ others, ¬ d.isPrimary

theorem Collector.Led.exists_primary {crew : List Collector} (led : Led crew) :
    ∃ c ∈ crew, c.isPrimary := by
  obtain ⟨c, others, rfl, primary, -⟩ := led
  exact ⟨c, List.mem_cons_self, primary⟩

/-- Only the numbers of the members matter for that. -/
theorem Collector.Led.congr {crew crew' : List Collector} (led : Led crew)
    (same : crew'.map (·.ordinal) = crew.map (·.ordinal)) : Led crew' := by
  obtain ⟨c, others, rfl, primary, rest⟩ := led
  cases crew' with
  | nil => cases same
  | cons c' others' =>
    rw [List.map_cons, List.map_cons, List.cons.injEq] at same
    refine ⟨c', others', rfl, ?_, fun d hd => ?_⟩
    · rw [isPrimary, same.1]
      exact primary
    · obtain ⟨e, he, eq⟩ := List.mem_map.1 (same.2 ▸ List.mem_map_of_mem hd)
      rw [isPrimary, ← eq]
      exact rest e he

namespace Heap

/-- The logged objects in the pool and in the buffers of a crew. -/
def pendingObjects (h : Heap) (crew : List Collector) : List Ref :=
  h.pools.objects.entries ++ crew.flatMap (·.counting.objects.items.toList)

/-- The logged fields in the pool and in the buffers of a crew. -/
def pendingFields (h : Heap) (crew : List Collector) : List FieldEntry :=
  h.pools.fields.entries ++ crew.flatMap (·.fields.items.toList)

/-- The trace roots in the pool and in the buffers of a crew. -/
def pendingTraceRoots (h : Heap) (crew : List Collector) : List Ref :=
  h.pools.traceRoots.entries ++ crew.flatMap (·.counting.traceRoots.items.toList)

end Heap

/-- A crew at work on a heap. The client has or has not reported its roots yet, and some of them are
still to be counted. -/
structure Shift where
  heap : Heap
  crew : List Collector
  roots : List Ref := []
  reported : Bool := false

namespace Shift

/-- One thing that a crew does while it counts references.
* `report`: the primary collector asks the client for its roots.
* `root`: the primary collector counts one of them.
* `member`: any collector does something. -/
inductive Counts (cycle : Bool) : Shift → Shift → Prop
  | report {h h' : Heap} {before after : List Collector} {c : Collector} {roots : List Ref} :
      c.isPrimary → Collector.scanRoots h = .ok roots h' →
      Counts cycle ⟨h, before ++ c :: after, [], false⟩
        ⟨{ h' with newRoots := h'.newRoots ++ roots }, before ++ c :: after,
          if cycle then [] else roots, true⟩
  | root {h h' : Heap} {before after : List Collector} {c : Collector} {o : Ref} {roots : List Ref}
      {counting : CountingBuffers} {reported : Bool} :
      c.isPrimary → c.counting.processRoot cycle o h = .ok counting h' →
      Counts cycle ⟨h, before ++ c :: after, o :: roots, reported⟩
        ⟨h', before ++ { c with counting } :: after, roots, reported⟩
  | member {h h' : Heap} {before after : List Collector} {c c' : Collector} {roots : List Ref}
      {reported : Bool} : Collector.Counts cycle (c, h) (c', h') →
      Counts cycle ⟨h, before ++ c :: after, roots, reported⟩
        ⟨h', before ++ c' :: after, roots, reported⟩

/-- One thing that a crew does while it frees objects. -/
inductive Frees (cycle : Bool) : Shift → Shift → Prop
  | member {h h' : Heap} {before after : List Collector} {c c' : Collector} {roots : List Ref}
      {reported : Bool} : Collector.Frees cycle (c, h) (c', h') →
      Frees cycle ⟨h, before ++ c :: after, roots, reported⟩
        ⟨h', before ++ c' :: after, roots, reported⟩

/-- All roots were reported and counted, no entry is left, and the trace roots were handed over. -/
structure DoneCounting (s : Shift) : Prop where
  reported : s.reported = true
  roots : s.roots = []
  objects : s.heap.pendingObjects s.crew = []
  fields : s.heap.pendingFields s.crew = []
  traceRoots : ∀ c ∈ s.crew, c.counting.traceRoots.items.toList = []

/-- No decrement and no root of the last increment is left. -/
structure DoneFreeing (s : Shift) : Prop where
  oldRoots : s.heap.oldRoots = []
  pool : s.heap.pools.decrements.entries = []
  buffers : ∀ c ∈ s.crew, c.decrements.items.toList = []

variable {cycle : Bool} {s : Shift} {before after : List Collector} {c c' : Collector}
  {h h' : Heap} {roots : List Ref} {reported : Bool}

/-- What a member of the crew does, as long as nobody else does anything. -/
theorem counts_of_member (path : ReflTransGen (Collector.Counts cycle) (c, h) (c', h')) :
    ReflTransGen (Counts cycle) ⟨h, before ++ c :: after, roots, reported⟩
      ⟨h', before ++ c' :: after, roots, reported⟩ :=
  path.lift (fun x => Shift.mk x.2 (before ++ x.1 :: after) roots reported) fun _ _ e => .member e

theorem frees_of_member (path : ReflTransGen (Collector.Frees cycle) (c, h) (c', h')) :
    ReflTransGen (Frees cycle) ⟨h, before ++ c :: after, roots, reported⟩
      ⟨h', before ++ c' :: after, roots, reported⟩ :=
  path.lift (fun x => Shift.mk x.2 (before ++ x.1 :: after) roots reported) fun _ _ e => .member e

end Shift

namespace Collector

/-- Every member of a crew drains a pool in its turn. -/
theorem turns_of_step {α : Type} {f : Collector → HeapM (Nat × Collector)}
    {I : Heap → List Collector → Prop} (entries : Heap → List α) (items : Collector → List α)
    (step : ∀ h before c after, I h (before ++ c :: after) → ∃ n c' h', f c h = .ok (n, c') h' ∧
      I h' (before ++ c' :: after) ∧ entries h' ++ items c' = [])
    {crew : List Collector} {h : Heap} (nonempty : crew ≠ []) (start : I h crew) :
    ∃ ns crew' h', turns f crew h = .ok (ns, crew') h' ∧ ns.length = crew'.length ∧ I h' crew' ∧
      entries h' ++ crew'.flatMap items = [] ∧ crew'.length = crew.length := by
  obtain ⟨results, h', run, inv, length, drained, empty⟩ := HeapM.mapM_of_step (f := f)
    (I := fun h done todo => I h (done.map (·.2) ++ todo) ∧
      (done.map (·.2) ++ todo).length = crew.length ∧
      (∀ c ∈ done, items c.2 = []) ∧ (done = [] ∨ entries h = []))
    (fun h done c todo ⟨inv, length, drained, _⟩ => by
      obtain ⟨n, c', h', e, inv', both⟩ := step h _ c todo inv
      obtain ⟨entries, items⟩ := List.append_eq_nil_iff.1 both
      refine ⟨(n, c'), h', e, by simpa using inv', ?_, ?_, .inr entries⟩
      · rw [← length]
        simp
      · intro d hd
        rcases List.mem_append.1 hd with hd | hd
        · exact drained d hd
        · rw [List.mem_singleton.1 hd]
          exact items)
    crew [] ⟨start, rfl, by simp, .inl rfl⟩
  rw [List.append_nil, List.nil_append] at inv length
  refine ⟨results.map (·.1), results.map (·.2), h', ?_, by simp, inv, ?_, length⟩
  · rw [turns, HeapM.bind_of_ok run]
    rfl
  · rw [List.nil_append] at drained empty
    rw [List.append_eq_nil_iff, List.flatMap_map, List.flatMap_eq_nil_iff]
    refine ⟨empty.resolve_left ?_, drained⟩
    rintro rfl
    exact nonempty (List.eq_nil_of_length_eq_zero length.symm)

end Collector

/-! ## The schedule -/

theorem HeapM.runReportedStep_of_ok {s : Step} {t t' : List Mutator × List Collector}
    {h h' : Heap} (run : runStep t.1 t.2 s { h with log := .stepBegun s :: h.log } = .ok t' h') :
    runReportedStep t s h = .ok t' { h' with log := .stepEnded s :: h'.log } := by
  rw [runReportedStep, emit_bind_apply, bind_of_ok run]
  rfl

/-- A step of the schedule turns mutators, a crew and a heap into others. The crew takes turns, or
in the steps in which it drains pools it works in any order, until it is done. -/
inductive Step.Runs : Step → List Mutator × List Collector → Heap →
    List Mutator × List Collector → Heap → Prop
  | inTurns {s : Step} {t t' : List Mutator × List Collector} {h h' : Heap} :
      HeapM.runStep t.1 t.2 s h = .ok t' h' → Runs s t h t' h'
  | counts {h h' : Heap} {ms : List Mutator} {crew crew' : List Collector} {roots : List Ref}
      {reported : Bool} :
      ReflTransGen (Shift.Counts h.progress.cycle) ⟨h, crew, [], false⟩
        ⟨h', crew', roots, reported⟩ →
      Shift.DoneCounting ⟨h', crew', roots, reported⟩ →
      Runs ⟨.collectors, .processModBuffer⟩ (ms, crew) h (ms, crew') h'
  | frees {h h' : Heap} {ms : List Mutator} {crew crew' : List Collector} {roots : List Ref}
      {reported : Bool} :
      ReflTransGen (Shift.Frees h.progress.cycle) ⟨h, crew, roots, reported⟩
        ⟨h', crew', roots, reported⟩ →
      Shift.DoneFreeing ⟨h', crew', roots, reported⟩ →
      Runs ⟨.collectors, .processDecBuffer⟩ (ms, crew) h (ms, crew') h'

/-- In the steps of the collectors in which they drain pools they share their work. -/
def Step.isShared (s : Step) : Bool :=
  s == ⟨.collectors, .processModBuffer⟩ || s == ⟨.collectors, .processDecBuffer⟩

/-- In any other step there is only one order. -/
theorem Step.runs_iff {s : Step} {t t' : List Mutator × List Collector} {h h' : Heap}
    (alone : s.isShared = false) : s.Runs t h t' h' ↔ HeapM.runStep t.1 t.2 s h = .ok t' h' := by
  refine ⟨fun run => ?_, .inTurns⟩
  cases run with
  | inTurns run => exact run
  | counts => cases alone
  | frees => cases alone

namespace Schedule

/-- The steps of a schedule, one after the other. Each one reports its begin and its end. -/
inductive Passes : List Step → List Mutator × List Collector → Heap →
    List Mutator × List Collector → Heap → Prop
  | nil {t : List Mutator × List Collector} {h : Heap} : Passes [] t h t h
  | cons {s : Step} {steps : List Step} {t t₁ t' : List Mutator × List Collector}
      {h h₁ h' : Heap} : s.Runs t { h with log := .stepBegun s :: h.log } t₁ h₁ →
      Passes steps t₁ { h₁ with log := .stepEnded s :: h₁.log } t' h' →
      Passes (s :: steps) t h t' h'

variable {s : Step} {steps rest : List Step} {t t' : List Mutator × List Collector} {h h' : Heap}

theorem passes_cons : Passes (s :: steps) t h t' h' ↔
    ∃ t₁ h₁, s.Runs t { h with log := .stepBegun s :: h.log } t₁ h₁ ∧
      Passes steps t₁ { h₁ with log := .stepEnded s :: h₁.log } t' h' := by
  constructor
  · rintro (_ | ⟨run, rest⟩)
    exact ⟨_, _, run, rest⟩
  · rintro ⟨t₁, h₁, run, rest⟩
    exact .cons run rest

theorem passes_append : Passes (steps ++ rest) t h t' h' ↔
    ∃ t₁ h₁, Passes steps t h t₁ h₁ ∧ Passes rest t₁ h₁ t' h' := by
  induction steps generalizing t h with
  | nil =>
    refine ⟨fun p => ⟨t, h, .nil, p⟩, ?_⟩
    rintro ⟨_, _, ⟨⟩, p⟩
    exact p
  | cons s steps ih =>
    rw [List.cons_append, passes_cons]
    constructor
    · rintro ⟨t₁, h₁, run, p⟩
      obtain ⟨t₂, h₂, front, back⟩ := ih.1 p
      exact ⟨t₂, h₂, .cons run front, back⟩
    · rintro ⟨t₂, h₂, front, back⟩
      obtain ⟨t₁, h₁, run, front⟩ := passes_cons.1 front
      exact ⟨t₁, h₁, run, ih.2 ⟨t₂, h₂, front, back⟩⟩

/-- A crew that takes turns passes the steps. -/
theorem passes_of_fold (run : steps.foldlM HeapM.runReportedStep t h = .ok t' h') :
    Passes steps t h t' h' := by
  induction steps generalizing t h with
  | nil =>
    cases run
    exact .nil
  | cons s steps ih =>
    rw [List.foldlM_cons] at run
    obtain ⟨t₁, _, first, rest⟩ := HeapM.bind_eq_ok.1 run
    rw [HeapM.runReportedStep, HeapM.emit_bind_apply] at first
    obtain ⟨_, h₁, ran, reported⟩ := HeapM.bind_eq_ok.1 first
    cases reported
    exact .cons (.inTurns ran) (ih rest)

/-- There is no other order of steps in which the crew shares no work. -/
theorem fold_of_passes (alone : ∀ s ∈ steps, s.isShared = false) (p : Passes steps t h t' h') :
    steps.foldlM HeapM.runReportedStep t h = .ok t' h' := by
  induction p with
  | nil => rfl
  | cons run _ ih =>
    have ran := (Step.runs_iff (alone _ List.mem_cons_self)).1 run
    rw [List.foldlM_cons, HeapM.bind_of_ok (HeapM.runReportedStep_of_ok ran)]
    exact ih fun x hx => alone x (List.mem_cons_of_mem _ hx)

end Schedule

/-- An increment over the mutators `ms`. The crew takes turns, or works in any order wherever it
drains pools. -/
inductive Collects (kind : CollectionKind) (ms : List Mutator) (h : Heap) :
    List Mutator → Heap → Prop
  | mk {crew crew' : List Collector} {ms' : List Mutator} {h₁ h₂ h' : Heap} :
      HeapM.muster kind h = .ok crew h₁ →
      Schedule.Passes Schedule.increment (ms, crew) h₁ (ms', crew') h₂ →
      HeapM.reportDone h₂ = .ok () h' → Collects kind ms h ms' h'

/-- An increment as `HeapM.collect` runs it. -/
theorem Collects.of_collect {kind : CollectionKind} {ms ms' : List Mutator} {h h' : Heap}
    (run : HeapM.collect kind ms h = .ok ms' h') : Collects kind ms h ms' h' := by
  obtain ⟨crew, h₁, mustered, run⟩ := HeapM.bind_eq_ok.1 run
  obtain ⟨⟨ms₁, crew'⟩, h₂, ran, run⟩ := HeapM.bind_eq_ok.1 run
  obtain ⟨_, h₃, reported, run⟩ := HeapM.bind_eq_ok.1 run
  cases run
  exact .mk mustered (Schedule.passes_of_fold ran) reported

end DeferredCount
