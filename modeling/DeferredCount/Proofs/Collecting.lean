import DeferredCount.Proofs.Crews
import DeferredCount.Proofs.Draining
import DeferredCount.Proofs.Settling
import DeferredCount.Proofs.Stretches

/-!
# A whole increment

The crew counts the references that were logged, and then either works off the decrements or, in a
cycle collection, traces what can be reached and counts anew. Either way the counts are exact in the
end, and no slot of a known object changes. So it is in whichever order the collectors of the crew
work, and a crew that takes turns works in one of these orders.

Results:
1. `HeapM.counting_eq`, `HeapM.freeing_eq`: what the crew leaves, in whichever order it works.
2. `HeapM.counting_goes_on`, `HeapM.freeing_goes_on`: no order of the crew gets stuck.
3. `HeapM.settling_eq`: the stretch that brings the counts up to date.
4. `Collects.collected`: what an increment over all mutators leaves, in whichever order the crew
   works.
5. `HeapM.collect_eq`: with a crew that takes turns an increment ends, and its order is one of them.
-/

namespace DeferredCount

/-! ## Counting -/

/-- A crew with empty buffers is about to work off the entries `e` of a heap. The mutators `ms` keep
decrements only. -/
structure AwaitsCounting (h : Heap) (e : Entries) (ms : List Mutator) (crew : List Collector) :
    Prop where
  ledger : Ledger h e
  led : Collector.Led crew
  flushed : ∀ c ∈ crew, c.isFlushed
  objects : h.pools.objects.entries.Perm e.objects
  fields : h.pools.fields.entries.Perm (e.fields.map (·.toFieldEntry))
  decrements : (h.owedDecrements ms).Perm e.decrements
  traceRoots : h.pools.traceRoots.entries = []
  solid : h.pools.Solid
  newRoots : h.newRoots = []
  roots_known : ∀ x ∈ h.client.scanRoots.state, x ∈ h.known

namespace AwaitsCounting

variable {h : Heap} {e : Entries} {ms : List Mutator} {crew : List Collector}

theorem withLog (a : AwaitsCounting h e ms crew) (log : List Event) :
    AwaitsCounting { h with log } e ms crew :=
  ⟨a.ledger.congr rfl, a.led, a.flushed, a.objects, a.fields, a.decrements, a.traceRoots, a.solid,
    a.newRoots, a.roots_known⟩

theorem processable (a : AwaitsCounting h e ms crew) : Processable h e.objects e.fields :=
  ⟨a.ledger.wellFormed, a.ledger.slots_known, a.ledger.objects_known, fun _ => a.ledger.valid⟩

theorem pendingObjects (a : AwaitsCounting h e ms crew) :
    (h.pendingObjects crew).Perm e.objects := by
  rw [Heap.pendingObjects, List.flatMap_eq_nil_iff.2 fun c hc =>
    (Collector.isFlushed_iff.1 (a.flushed c hc)).1, List.append_nil]
  exact a.objects

theorem pendingFields (a : AwaitsCounting h e ms crew) :
    (h.pendingFields crew).Perm (e.fields.map (·.toFieldEntry)) := by
  rw [Heap.pendingFields, List.flatMap_eq_nil_iff.2 fun c hc =>
    (Collector.isFlushed_iff.1 (a.flushed c hc)).2.1, List.append_nil]
  exact a.fields

theorem pendingTraceRoots (a : AwaitsCounting h e ms crew) : h.pendingTraceRoots crew = [] := by
  rw [Heap.pendingTraceRoots, List.flatMap_eq_nil_iff.2 fun c hc =>
    (Collector.isFlushed_iff.1 (a.flushed c hc)).2.2.2, List.append_nil]
  exact a.traceRoots

end AwaitsCounting

/-- A crew brought the counts of a heap `h` up to date, and the mutators handed over their
decrements. -/
structure Updated (h : Heap) (e : Entries) (ms : List Mutator) (crew : List Collector) (h' : Heap)
    (crew' : List Collector) : Prop extends Exhausted crew h' crew' where
  processing : ∃ t log, Processing h.progress.cycle { h with log } e.objects e.fields
    h.client.scanRoots.state h' t [] []
  decrements : h'.pools.decrements.entries = h.owedDecrements ms
  queued : ∀ x ∈ h'.pools.traceRoots.entries,
    h.progress.cycle = true ∧ x ∈ h.known ∧ x ∈ h.loggedReferents e.objects e.fields
  solid : h'.pools.Solid
  newRoots : h'.newRoots = h.newRoots ++ h.client.scanRoots.state
  client : ∃ calls, h'.client =
    { h.client with scanRoots := { h.client.scanRoots with calls } }

namespace HeapM

variable {e : Entries} {ms : List Mutator} {c : Collector} {crew : List Collector}
  {t : List Mutator × List Collector} {h h' : Heap}

/-- In whichever order the crew works off the entries, it goes one of the ways of a crew. -/
theorem runs_counting (a : AwaitsCounting h e ms crew)
    (run : Step.Runs ⟨.collectors, .processModBuffer⟩ (ms, crew) h t h') :
    ∃ crew' roots reported, t = (ms, crew') ∧
      Relation.ReflTransGen (Shift.Counts h.progress.cycle) ⟨h, crew, [], false⟩
        ⟨h', crew', roots, reported⟩ ∧
      Shift.DoneCounting ⟨h', crew', roots, reported⟩ := by
  cases run with
  | inTurns run =>
    obtain ⟨h₁, crew₁, worked, path, done⟩ := Collector.processModified_eq a.processable a.led
      a.pendingObjects a.pendingFields a.pendingTraceRoots a.solid a.roots_known
    cases (collectorsStep_of_ok (p := .processModBuffer) worked).symm.trans run
    exact ⟨crew₁, [], true, rfl, path, done⟩
  | counts path done => exact ⟨_, _, _, rfl, path, done⟩

/-- What the steps leave that work off what was logged. -/
theorem counting_eq (a : AwaitsCounting h e ms crew)
    (passes : Schedule.Passes Schedule.counting (ms, crew) h t h') :
    ∃ crew', t = (ms.map Mutator.withoutDecrements, crew') ∧ Updated h e ms crew h' crew' := by
  obtain ⟨_, h₁, run, passes⟩ := Schedule.passes_cons.1 passes
  have a := a.withLog (.stepBegun ⟨.collectors, .processModBuffer⟩ :: h.log)
  obtain ⟨crew₁, roots, reported, rfl, path, drained⟩ := runs_counting a run
  obtain ⟨_, sound⟩ := (Shift.Sound.start a.processable a.pendingObjects a.pendingFields
    a.pendingTraceRoots a.solid).reached a.processable a.roots_known path
  have done := sound.processed drained
  obtain ⟨q, log, flush, decrements, sameObjects, sameFields, sameRoots, solid⟩ :=
    flushDecrements_eq ms crew₁
      { h₁ with log := .stepEnded ⟨.collectors, .processModBuffer⟩ :: h₁.log }
  cases (flush []).symm.trans (Schedule.fold_of_passes (by decide) passes)
  obtain ⟨t, p⟩ := done.processing
  refine ⟨crew₁, rfl, {
    processing := ⟨t, _, p.congr
      (show ({ h₁ with pools := q, log } : Heap).still = h₁.still from rfl) rfl (.refl _)
      (.refl _)⟩
    outside := done.outside
    done := done.done
    objects := by rw [sameObjects]; exact done.objects
    fields := by rw [sameFields]; exact done.fields
    decrements := ?_
    queued := fun x hx => ?_
    solid := solid done.beside.solid
    newRoots := done.beside.newRoots
    client := done.beside.client }⟩
  · rw [decrements, Heap.owedDecrements, Heap.owedDecrements, done.beside.decrements]
  · rw [sameRoots] at hx
    exact done.beside.queued x (List.mem_append_left _ hx)

/-- Whatever the crew has counted so far, it can go on until it is done. -/
theorem counting_goes_on (a : AwaitsCounting h e ms crew) {s : Shift}
    (path : Relation.ReflTransGen (Shift.Counts h.progress.cycle) ⟨h, crew, [], false⟩ s) :
    ∃ s', Relation.ReflTransGen (Shift.Counts h.progress.cycle) s s' ∧ s'.DoneCounting := by
  obtain ⟨_, sound⟩ := (Shift.Sound.start a.processable a.pendingObjects a.pendingFields
    a.pendingTraceRoots a.solid).reached a.processable a.roots_known path
  exact sound.goes_on a.processable a.roots_known a.led

/-- A crew that takes turns passes these steps. -/
theorem exists_counting (a : AwaitsCounting h e ms crew) :
    ∃ t h', Schedule.counting.foldlM runReportedStep (ms, crew) h = .ok t h' := by
  have a := a.withLog (.stepBegun ⟨.collectors, .processModBuffer⟩ :: h.log)
  obtain ⟨h₁, crew₁, run, -⟩ := Collector.processModified_eq a.processable a.led a.pendingObjects
    a.pendingFields a.pendingTraceRoots a.solid a.roots_known
  obtain ⟨q, log, flush, -⟩ := flushDecrements_eq ms crew₁
    { h₁ with log := .stepEnded ⟨.collectors, .processModBuffer⟩ :: h₁.log }
  exact ⟨_, _, (steps_cons_of_ok (collectorsStep_of_ok (p := .processModBuffer) run)).trans
    (flush [])⟩

end HeapM

/-! ## Freeing -/

/-- Exact counts speak of the memory and of the objects, and of nothing else. -/
theorem Exact.congr {h h' : Heap} {roots : List Ref} (x : Exact h roots)
    (rest : h' = { h with
      small := { h.small with free := h'.small.free }
      pools := h'.pools
      oldRoots := h'.oldRoots
      newRoots := h'.newRoots
      progress := h'.progress
      client := h'.client
      log := h'.log }) : Exact h' roots := by
  have wf := (x.cleared.wellFormed.withFree h'.small.free).congr
    (show h'.small = _ by rw [rest]) (by rw [rest]) (by rw [rest])
    (by rw [rest]; exact x.cleared.wellFormed.laid)
  rw [rest] at wf ⊢
  exact ⟨⟨wf, x.cleared.once, x.cleared.slots_known, x.cleared.clean, x.cleared.permanent⟩,
    x.stale, x.roots_known, x.count⟩

/-- The counts of a heap `h` were brought up to date, and what is left of it is `h'`. No slot
changed, not even one of an object that is gone. -/
structure Renewed (h : Heap) (roots : List Ref) (h' : Heap) : Prop where
  exact : Exact h' roots
  shrunk : Shrunk h h'
  outer : h'.outer = h.outer
  known : h'.known ⊆ h.known
  targets : ∀ x ∈ h.known, (h'.view x).targets = (h.view x).targets
  array : ∀ x ∈ h'.known, (h'.view x).array = (h.view x).array
  objects : h'.pools.objects = h.pools.objects
  fields : h'.pools.fields = h.pools.fields
  decrements : h'.pools.decrements.entries = []
  traceRoots : h'.pools.traceRoots.entries = []
  solid : h'.pools.Solid

theorem Tallied.congr {h h' : Heap} {due due' roots : List Ref} (t : Tallied h due roots)
    (perm : due.Perm due') (log : h' = { h with log := h'.log }) : Tallied h' due' roots := by
  rw [log]
  exact {
    cleared := ⟨t.cleared.wellFormed.congr rfl rfl rfl t.cleared.wellFormed.laid, t.cleared.once,
      t.cleared.slots_known, t.cleared.clean, t.cleared.permanent⟩
    fresh := fun x hx fresh => (t.fresh x hx fresh).imp_right perm.mem_iff.1
    due_known := fun x hx => t.due_known x (perm.mem_iff.2 hx)
    roots_known := t.roots_known
    balance := fun o ho ns => by
      rw [← perm.count_eq]
      exact t.balance o ho ns }

/-- Working off the decrements makes the counts exact. -/
theorem Tallied.renewed {h h' : Heap} {due roots freed : List Ref} (t : Tallied h due roots)
    (u : Underway h due h' [] freed) (pools : Pools.Follows .decrements h.pools h'.pools)
    (decrements : h'.pools.decrements.entries = []) (traceRoots : h.pools.traceRoots.entries = [])
    (solid : h.pools.Solid) : Renewed h roots h' where
  exact := t.settled u
  shrunk := u.shrunk
  outer := u.outer
  known := u.known_subset
  targets := (u.keeps h.known (Set.Subset.refl _) t.cleared.wellFormed.laid).2
  array x hx := (u.same x hx).array
  objects := by
    rw [pools.rest]
    rfl
  fields := by
    rw [pools.rest]
    rfl
  decrements
  traceRoots := by
    rw [pools.rest]
    exact traceRoots
  solid := pools.keeps solid

/-- So does a backup trace. -/
theorem Cleared.renewed {h h' : Heap} {roots : List Ref} {M : Finset Ref} (c : Cleared h)
    (r : Retraced h roots M h') (reach : ∀ o, o ∈ M ↔ h.Reaches (h.traceStarts roots) o)
    (roots_known : ∀ x ∈ roots, x ∈ h.known) (decrements : h.pools.decrements.entries = [])
    (solid : h.pools.Solid) : Renewed h roots h' where
  exact := c.retraced r reach roots_known
  shrunk := r.shrunk
  outer := by rw [Heap.outer, r.frame, Heap.outer]
  known _ hx := r.known hx
  targets := r.targets
  array x hx := (r.contents x hx).array
  objects := by
    rw [r.pools]
    rfl
  fields := by
    rw [r.pools]
    rfl
  decrements := by
    rw [r.pools]
    exact decrements
  traceRoots := by
    rw [r.pools]
    rfl
  solid := by
    rw [r.pools]
    exact { solid with traceRoots := .of_blocks rfl }

theorem Renewed.withLog {h h' : Heap} {roots : List Ref} (r : Renewed h roots h')
    (log : List Event) : Renewed h roots { h' with log } :=
  ⟨r.exact.congr rfl, ⟨r.shrunk.small, r.shrunk.pending, r.shrunk.start, r.shrunk.limit,
    r.shrunk.cells⟩, r.outer, r.known, r.targets, r.array, r.objects, r.fields, r.decrements,
    r.traceRoots, r.solid⟩

/-- The decrements and old roots do not matter to begin with. -/
theorem Renewed.of_base {h h' : Heap} {q : Pool Ref} {roots oldRoots : List Ref}
    {log : List Event} (r : Renewed { h with
      pools := { h.pools with decrements := q }
      oldRoots
      log } roots h') : Renewed h roots h' :=
  ⟨r.exact, ⟨r.shrunk.small, r.shrunk.pending, r.shrunk.start, r.shrunk.limit, r.shrunk.cells⟩,
    r.outer, r.known, r.targets, r.array, r.objects, r.fields, r.decrements, r.traceRoots, r.solid⟩

namespace HeapM

variable {ms : List Mutator} {crew : List Collector} {t : List Mutator × List Collector}
  {h h' : Heap}

/-- In an increment there is no backup trace. -/
theorem backupTrace_increment (increment : h.progress.cycle = false) :
    planPhase .backupTrace h = .ok () h := by
  rw [planPhase, get_bind_apply, if_neg (by simp [increment])]
  rfl

/-- In a cycle collection the backup trace counts anew, when the decrements are forgotten. -/
theorem backupTrace_cycle (cycle : h.progress.cycle = true) (cleared : Cleared h)
    (roots_known : ∀ x ∈ h.newRoots, x ∈ h.known)
    (queued_known : ∀ x ∈ h.pools.traceRoots.entries, x ∈ h.known) (solid : h.pools.Solid)
    {pools : Pools} (follows : Pools.Follows .decrements h.pools pools)
    (none : pools.decrements.entries = []) (log : List Event) :
    ∃ h', planPhase .backupTrace { h with pools, oldRoots := [], log } = .ok () h' ∧
      Renewed h h.newRoots h' ∧
      ∀ o, o ∈ h'.counted ↔ h.Reaches (h.traceStarts h.newRoots) o := by
  have solid := follows.keeps solid
  obtain ⟨q, rfl⟩ : ∃ q, pools = { h.pools with decrements := q } := ⟨_, follows.rest⟩
  have cleared : Cleared { h with
      pools := { h.pools with decrements := q }, oldRoots := [], log } :=
    ⟨cleared.wellFormed.congr rfl rfl rfl cleared.wellFormed.laid, cleared.once,
      cleared.slots_known, cleared.clean, cleared.permanent⟩
  obtain ⟨M, h₁, traced, reach, r⟩ := Trace.run_eq ⟨cleared.wellFormed,
    fun x hx => (cleared.clean x hx).unmarked, cleared.slots_known⟩ cleared.once roots_known
    queued_known
  refine ⟨{ h₁ with log := .cycleCollected M.card (h.counted \ M).card :: h₁.log }, ?_,
    (cleared.renewed r reach roots_known none solid).of_base.withLog _, fun o => ?_⟩
  · rw [planPhase, get_bind_apply, if_pos cycle]
    exact bind_of_ok traced
  · show o ∈ h₁.counted ↔ _
    rw [r.counted, reach]
    constructor <;> intro reaches <;> exact reaches.mono (Finset.Subset.refl _)
      (fun _ _ => List.Subset.refl _) fun _ hx => hx

end HeapM

/-- The references of a heap are counted, and a crew is about to free objects. -/
structure AwaitsFreeing (h : Heap) (crew : List Collector) : Prop where
  primary : ∃ c ∈ crew, c.isPrimary
  cleared : Cleared h
  tallied : h.progress.cycle = false →
    Tallied h (h.due (crew.map (·.decrements))) h.newRoots
  queued : ∀ x ∈ h.pools.traceRoots.entries, h.progress.cycle = true ∧ x ∈ h.known
  solid : h.pools.Solid
  roots_known : ∀ x ∈ h.newRoots, x ∈ h.known

/-- A crew freed objects of a heap `h`, and the counts are exact. -/
structure Cleaned (h : Heap) (crew : List Collector) (h' : Heap) : Prop where
  renewed : Renewed h h.newRoots h'
  reclaimed : h.progress.cycle = false →
    ∃ F, Reclaimed h (h.due (crew.map (·.decrements))) F h'
  reaches : h.progress.cycle = true →
    ∀ o, o ∈ h'.counted ↔ h.Reaches (h.traceStarts h.newRoots) o

theorem Cleaned.withLog {h h' : Heap} {crew : List Collector} (c : Cleaned h crew h')
    (log : List Event) : Cleaned h crew { h' with log } where
  renewed := c.renewed.withLog log
  reclaimed increment := by
    obtain ⟨F, r⟩ := c.reclaimed increment
    exact ⟨F, r.congr (.refl _) rfl (fun _ => rfl) rfl rfl fun _ => rfl⟩
  reaches := c.reaches

/-- A crew that was about to free objects of `h` left `k` and `crew'`, without decrements, and the
backup trace that follows it makes the counts exact. -/
def Traces (h : Heap) (crew : List Collector) (k : Heap) (crew' : List Collector) : Prop :=
  crew' = crew.map Collector.idle ∧ ∀ log, ∃ h',
    HeapM.planPhase .backupTrace { k with log } = .ok () h' ∧ Cleaned h crew h'

namespace AwaitsFreeing

variable {ms : List Mutator} {crew crew' : List Collector} {t : List Mutator × List Collector}
  {h k h' : Heap} {roots : List Ref} {reported : Bool}

theorem tallied_withLog (a : AwaitsFreeing h crew) (increment : h.progress.cycle = false)
    (log : List Event) :
    Tallied { h with log } (h.due (crew.map (·.decrements))) h.newRoots :=
  (a.tallied increment).congr (.refl _) rfl

/-- In an increment the crew works off the decrements. -/
theorem increment (a : AwaitsFreeing h crew) (increment : h.progress.cycle = false)
    {begun : List Event} (path : Relation.ReflTransGen (Shift.Frees false)
      ⟨{ h with log := begun }, crew, roots, reported⟩ ⟨k, crew', roots, reported⟩)
    (done : Shift.DoneFreeing ⟨k, crew', roots, reported⟩) : Traces h crew k crew' := by
  have tallied := a.tallied_withLog increment begun
  have traceRoots : h.pools.traceRoots.entries = [] :=
    List.eq_nil_iff_forall_not_mem.2 fun x hx => by
      have := (a.queued x hx).1
      rw [increment] at this
      cases this
  obtain ⟨freed, inv⟩ := (Shift.Paying.start tallied.payable).reached tallied.payable path
  obtain ⟨u, same⟩ := inv.done done
  have renewed := (tallied.renewed u inv.pools done.pool traceRoots a.solid).of_base
  have progress : k.progress = h.progress := by
    have := congrArg Heap.progress renewed.outer
    exact this
  exact ⟨same, fun log => ⟨{ k with log },
    HeapM.backupTrace_increment ((congrArg Progress.cycle progress).trans increment),
    renewed.withLog log,
    fun _ => ⟨_, u.reclaimed.congr (.refl _) rfl (fun _ => rfl) rfl rfl fun _ => rfl⟩,
    fun cycle => absurd cycle (by simp [increment])⟩⟩

/-- In a cycle collection the decrements are void. -/
theorem cycle (a : AwaitsFreeing h crew) (cycle : h.progress.cycle = true)
    {begun : List Event} (path : Relation.ReflTransGen (Shift.Frees true)
      ⟨{ h with log := begun }, crew, roots, reported⟩ ⟨k, crew', roots, reported⟩)
    (done : Shift.DoneFreeing ⟨k, crew', roots, reported⟩) : Traces h crew k crew' := by
  have inv := (Shift.Voiding.start _ crew roots reported).reached path
  obtain ⟨rest, same⟩ := inv.done done
  refine ⟨same, fun log => ?_⟩
  obtain ⟨h', trace, renewed, left⟩ := HeapM.backupTrace_cycle cycle a.cleared a.roots_known
    (fun x hx => (a.queued x hx).2) a.solid inv.pools done.pool log
  refine ⟨h', ?_, renewed, fun increment => absurd increment (by simp [cycle]), fun _ => left⟩
  exact (congrArg (fun x : Heap => HeapM.planPhase .backupTrace { x with log }) rest).trans trace

/-- What a crew leaves that is done, and the backup trace after it. -/
theorem traces (a : AwaitsFreeing h crew) {begun : List Event}
    (path : Relation.ReflTransGen (Shift.Frees h.progress.cycle)
      ⟨{ h with log := begun }, crew, roots, reported⟩ ⟨k, crew', roots, reported⟩)
    (done : Shift.DoneFreeing ⟨k, crew', roots, reported⟩) : Traces h crew k crew' := by
  cases kind : h.progress.cycle with
  | true => exact a.cycle kind (kind ▸ path) done
  | false => exact a.increment kind (kind ▸ path) done

/-- A crew that takes turns goes one of the ways of a crew. -/
theorem exists_freed (a : AwaitsFreeing h crew) (begun : List Event) :
    ∃ k, Collector.processDecrements crew { h with log := begun } =
        .ok (crew.map Collector.idle) k ∧
      Relation.ReflTransGen (Shift.Frees h.progress.cycle)
        ⟨{ h with log := begun }, crew, [], false⟩ ⟨k, crew.map Collector.idle, [], false⟩ ∧
      Shift.DoneFreeing ⟨k, crew.map Collector.idle, [], false⟩ :=
  Collector.processDecrements_eq crew { h with log := begun }
    (fun increment => (a.tallied_withLog increment begun).payable) a.primary

end AwaitsFreeing

namespace HeapM

/-- In whichever order the crew frees objects, it goes one of the ways of a crew. -/
theorem runs_freeing (a : AwaitsFreeing h crew) {begun : List Event}
    (run : Step.Runs ⟨.collectors, .processDecBuffer⟩ (ms, crew) { h with log := begun } t k) :
    ∃ crew' roots reported, t = (ms, crew') ∧
      Relation.ReflTransGen (Shift.Frees h.progress.cycle)
        ⟨{ h with log := begun }, crew, roots, reported⟩ ⟨k, crew', roots, reported⟩ ∧
      Shift.DoneFreeing ⟨k, crew', roots, reported⟩ := by
  cases run with
  | inTurns run =>
    obtain ⟨_, worked, path, done⟩ := a.exists_freed begun
    cases (collectorsStep_of_ok (p := .processDecBuffer) worked).symm.trans run
    exact ⟨_, _, _, rfl, path, done⟩
  | frees path done => exact ⟨_, _, _, rfl, path, done⟩

/-- Whatever the crew has freed so far, it can go on until it is done. -/
theorem freeing_goes_on (a : AwaitsFreeing h crew) {begun : List Event} {roots : List Ref}
    {reported : Bool} {s : Shift} (path : Relation.ReflTransGen (Shift.Frees h.progress.cycle)
      ⟨{ h with log := begun }, crew, roots, reported⟩ s) :
    ∃ s', Relation.ReflTransGen (Shift.Frees h.progress.cycle) s s' ∧ s'.DoneFreeing := by
  cases kind : h.progress.cycle with
  | true =>
    rw [kind] at path
    exact ((Shift.Voiding.start _ crew roots reported).reached path).goes_on a.primary
  | false =>
    have payable := (a.tallied_withLog kind begun).payable
    rw [kind] at path
    obtain ⟨_, inv⟩ := (Shift.Paying.start payable).reached payable path
    exact inv.goes_on payable a.primary

/-- What the steps leave that free objects. -/
theorem freeing_eq (a : AwaitsFreeing h crew)
    (passes : Schedule.Passes Schedule.freeing (ms, crew) h t h') :
    t = (ms, crew.map Collector.idle) ∧ Cleaned h crew h' := by
  obtain ⟨_, k, run, passes⟩ := Schedule.passes_cons.1 passes
  obtain ⟨crew', roots, reported, rfl, path, done⟩ := runs_freeing a run
  obtain ⟨rfl, traces⟩ := a.traces path done
  obtain ⟨h', trace, cleaned⟩ := traces (.stepBegun ⟨.plan, .backupTrace⟩ ::
    .stepEnded ⟨.collectors, .processDecBuffer⟩ :: k.log)
  cases (steps_cons_of_ok (planStep_of_ok trace)).symm.trans
    (Schedule.fold_of_passes (by decide) passes)
  exact ⟨rfl, cleaned.withLog _⟩

/-- A crew that takes turns passes these steps. -/
theorem exists_freeing (ms : List Mutator) (a : AwaitsFreeing h crew) :
    ∃ t h', Schedule.freeing.foldlM runReportedStep (ms, crew) h = .ok t h' := by
  obtain ⟨k, run, path, done⟩ :=
    a.exists_freed (.stepBegun ⟨.collectors, .processDecBuffer⟩ :: h.log)
  obtain ⟨h', trace, -⟩ := (a.traces path done).2 (.stepBegun ⟨.plan, .backupTrace⟩ ::
    .stepEnded ⟨.collectors, .processDecBuffer⟩ :: k.log)
  exact ⟨_, _, (steps_cons_of_ok (collectorsStep_of_ok (p := .processDecBuffer) run)).trans
    (steps_cons_of_ok (planStep_of_ok trace))⟩

end HeapM

/-! ## The whole -/

/-- The mutator after an increment: it keeps no free cells, and its buffers are empty. -/
def Mutator.settled (m : Mutator) : Mutator := m.withoutLogs.withoutDecrements.released

/-- An increment over the mutators `ms` turned `h` into `h'`. -/
structure Collected (h : Heap) (ms : List Mutator) (h' : Heap) : Prop where
  exact : Exact h' h.client.scanRoots.state
  oldRoots : h'.oldRoots = h.client.scanRoots.state
  idle : h'.progress.running = false
  settings : h'.settings = h.settings
  permanent : h'.permanent = h.permanent
  client : ∃ calls, h'.client = { h.client with scanRoots := { h.client.scanRoots with calls } }
  known : h'.known ⊆ h.known
  targets : ∀ x ∈ h.known, (h'.view x).targets = (h.view x).targets
  array : ∀ x ∈ h'.known, (h'.view x).array = (h.view x).array
  held : Held h' (ms.map Mutator.settled) {}
  small : ∃ small, h.small.Reclaims small ∧ h'.small = { small with free := h'.small.free } ∧
    ∀ c, (h'.small.free.get c).Perm
      (small.free.get c ++ ms.flatMap (·.allocators.cells.cells.get c))
  large : h'.large.cells.toList ⊆ h.large.cells.toList ∧ h'.large.pending = h.large.pending ∧
    h'.large.pages.start = h.large.pages.start ∧ h'.large.pages.limit = h.large.pages.limit

/-- An increment without cycle collection turned `h` into `h'`, where `e` were the entries. First
the fresh objects `N` were scanned, which left the heap `k`, and then the objects `F` were freed. -/
structure Incremented (h : Heap) (e : Entries) (N : Finset Ref) (k : Heap) (F : Finset Ref)
    (h' : Heap) : Prop where
  scanned : IsLeast {S | Closes h h.client.scanRoots.state e.objects e.fields S} N
  counted : k.counted = h.counted
  permanent : k.permanent = h.permanent
  view : ∀ x ∈ h.known, (h.view x).Grown (k.view x)
    (if x ∈ h.counted then h.gains h.client.scanRoots.state e.objects e.fields N x else 0) (x ∈ N)
    (x ∈ e.objects ∨ x ∈ N) fun i => (∃ k ∈ e.fields, k.object = x ∧ k.first = i) ∨
      (h.settings.fieldBarrier ∧ (x ∈ e.objects ∨ x ∈ N))
  tallied : Tallied k (e.decrements ++ h.oldRoots) h.client.scanRoots.state
  reclaimed : Reclaimed k (e.decrements ++ h.oldRoots) F h'

/-- A cycle collection turned `h` into `h'`, where `e` were the entries. The counted objects that
are left are those that one gets to from permanent objects, from roots, and from some of the
references that the entries cover. -/
def Retained (h : Heap) (e : Entries) (h' : Heap) : Prop :=
  ∃ queued, (∀ x ∈ queued, x ∈ h.loggedReferents e.objects e.fields) ∧
    ∀ o, o ∈ h'.counted ↔
      h.Reaches (h.permanentReferents ++ h.client.scanRoots.state ++ queued) o

theorem Held.settled {h : Heap} {ms : List Mutator}
    (pools : ∀ q ∈ [h.pools.objects, h.pools.decrements, h.pools.traceRoots], q.entries = [])
    (fields : h.pools.fields.entries = []) (solid : h.pools.Solid) :
    Held h (ms.map Mutator.settled) {} where
  objects := by
    have := pools h.pools.objects (by simp)
    simp [Heap.loggedObjects, this, List.flatMap_map, Mutator.settled, Mutator.withoutLogs,
      Mutator.withoutDecrements, Mutator.released, Buffer.reset]
  fields := by
    simp [Heap.loggedFields, fields, List.flatMap_map, Mutator.settled, Mutator.withoutLogs,
      Mutator.withoutDecrements, Mutator.released, Buffer.reset]
  decrements := by
    have := pools h.pools.decrements (by simp)
    simp [Heap.owedDecrements, this, List.flatMap_map, Mutator.settled, Mutator.withoutLogs,
      Mutator.withoutDecrements, Mutator.released, Buffer.reset]
  traceRoots := pools _ (by simp)
  solid := solid

namespace Updated

variable {h k : Heap} {e : Entries} {ms : List Mutator} {crew crew' : List Collector}
  {c : Collector}

/-- Counting leaves all that the books of a heap without entries need, but the counts. -/
theorem cleared (d : Updated h e ms crew k crew') (l : Ledger h e) : Cleared k := by
  obtain ⟨t, log, p⟩ := d.processing
  exact p.cleared (l.congr rfl)

theorem still (d : Updated h e ms crew k crew') : k.still = h.still := by
  obtain ⟨t, log, p⟩ := d.processing
  exact p.counting.still

theorem known_eq (d : Updated h e ms crew k crew') : k.known = h.known := by
  obtain ⟨t, log, p⟩ := d.processing
  exact p.counting.known_eq

theorem targets (d : Updated h e ms crew k crew') {x : Ref} (hx : x ∈ h.known) :
    (k.view x).targets = (h.view x).targets ∧ (k.view x).array = (h.view x).array := by
  obtain ⟨t, log, p⟩ := d.processing
  exact ⟨(p.counting.view x hx).targets, (p.counting.view x hx).array⟩

/-- In an increment the pending decrements are all that the counts still lack. -/
theorem tallied (d : Updated h e ms crew k crew') (a : AwaitsCounting h e ms crew)
    (increment : h.progress.cycle = false)
    (flushed : ∀ x ∈ crew', x.decrements.items.toList = []) :
    Tallied k (k.due (crew'.map (·.decrements))) k.newRoots := by
  obtain ⟨t, log, p⟩ := d.processing
  rw [increment] at p
  have tallied := p.tallied (a.ledger.congr rfl) a.roots_known
  have oldRoots : k.oldRoots = h.oldRoots := by
    have := congrArg Heap.oldRoots d.still
    exact this
  rw [d.newRoots, a.newRoots, List.nil_append]
  refine tallied.congr ?_ rfl
  rw [Heap.due, List.flatMap_map, List.flatMap_eq_nil_iff.2 flushed, List.append_nil, d.decrements,
    oldRoots]
  exact a.decrements.symm.append_right _

theorem decrements_flushed (d : Updated h e ms crew k crew')
    (flushed : ∀ x ∈ crew, x.isFlushed) : ∀ x ∈ crew', x.decrements.items.toList = [] := by
  intro x hx
  have : x.outside ∈ crew.map Collector.outside := d.outside ▸ List.mem_map_of_mem hx
  obtain ⟨y, hy, eq⟩ := List.mem_map.1 this
  have same : x.decrements = y.decrements := congrArg Prod.snd eq.symm
  rw [same]
  exact (Collector.isFlushed_iff.1 (flushed y hy)).2.2.1

theorem idle_flushed (d : Updated h e ms crew k crew') :
    ∀ x ∈ crew'.map Collector.idle, x.isFlushed := by
  intro x hx
  obtain ⟨y, hy, rfl⟩ := List.mem_map.1 hx
  obtain ⟨objects, fields, traceRoots⟩ := d.done y hy
  simp only [Collector.isFlushed, Collector.idle, objects, fields, traceRoots, Bool.true_and,
    Bool.and_true]
  rfl

theorem awaitsFreeing (d : Updated h e ms crew k crew') (a : AwaitsCounting h e ms crew) :
    AwaitsFreeing k crew' := by
  have progress : k.progress = h.progress := by
    have := congrArg Heap.progress d.still
    exact this
  exact {
    primary := (a.led.of_outside d.outside).exists_primary
    cleared := d.cleared a.ledger
    tallied := fun increment =>
      d.tallied a (progress ▸ increment) (d.decrements_flushed a.flushed)
    queued := fun x hx => ⟨progress ▸ (d.queued x hx).1, d.known_eq ▸ (d.queued x hx).2.1⟩
    solid := d.solid
    roots_known := fun x hx => by
      rw [d.newRoots, a.newRoots, List.nil_append] at hx
      exact d.known_eq ▸ a.roots_known x hx }

end Updated

/-- Will a collection of a kind collect cycles? It was asked for, or it is due. -/
def Heap.collectsCycles (h : Heap) (kind : CollectionKind) : Bool :=
  kind == .cycle || h.progress.isDue h.settings.cycleInterval

/-- A crew begins to work on the heap `h₁`: the mutators `ms` of `h` handed over what they
logged. -/
structure Begun (kind : CollectionKind) (h : Heap) (ms : List Mutator) (h₁ : Heap) : Prop where
  cycle : h₁.progress.cycle = h.collectsCycles kind
  rest : h₁ = { h with
    progress := h₁.progress, pools := h₁.pools, newRoots := [], log := h₁.log }
  objects : h₁.pools.objects.entries = h.loggedObjects ms
  fields : h₁.pools.fields.entries = h.loggedFields ms
  decrements : h₁.pools.decrements.entries = h.pools.decrements.entries
  traceRoots : h₁.pools.traceRoots.entries = h.pools.traceRoots.entries
  solid : h.pools.Solid → h₁.pools.Solid

namespace Begun

variable {kind : CollectionKind} {h h₁ : Heap} {ms : List Mutator}

theorem core (b : Begun kind h ms h₁) : h₁.core = h.core := by
  rw [b.rest]
  rfl

theorem client (b : Begun kind h ms h₁) : h₁.client = h.client := by rw [b.rest]

theorem newRoots (b : Begun kind h ms h₁) : h₁.newRoots = [] := by rw [b.rest]

theorem known_eq (b : Begun kind h ms h₁) : h₁.known = h.known := by
  rw [b.rest]
  rfl

theorem view_eq (b : Begun kind h ms h₁) (x : Ref) : h₁.view x = h.view x := by
  rw [b.rest]
  rfl

theorem awaits {e : Entries} {crew : List Collector} (b : Begun kind h ms h₁) (l : Ledger h e)
    (held : Held h ms e) (roots_known : ∀ x ∈ h.client.scanRoots.state, x ∈ h.known)
    (led : Collector.Led crew) (flushed : ∀ c ∈ crew, c.isFlushed) :
    AwaitsCounting h₁ e (ms.map Mutator.withoutLogs) crew where
  ledger := l.congr b.core
  led
  flushed
  objects := b.objects ▸ held.objects
  fields := b.fields ▸ held.fields
  decrements := by
    rw [Heap.owedDecrements, b.decrements, List.flatMap_map]
    exact held.decrements
  traceRoots := b.traceRoots.trans held.traceRoots
  solid := b.solid held.solid
  newRoots := b.newRoots
  roots_known := by rwa [b.client, b.known_eq]

end Begun

/-- The pools are empty after the crew has worked. -/
theorem Updated.isEmpty {h k h' : Heap} {e : Entries} {ms : List Mutator}
    {crew crew' : List Collector} {roots : List Ref} (d : Updated h e ms crew k crew')
    (r : Renewed k roots h') : h'.pools.isEmpty = true := by
  have objects : h'.pools.objects.entries = [] := by rw [r.objects, d.objects]
  have fields : h'.pools.fields.entries = [] := by rw [r.fields, d.fields]
  rw [Pools.isEmpty, r.solid.objects.isEmpty objects, r.solid.fields.isEmpty fields,
    r.solid.decrements.isEmpty r.decrements, r.solid.traceRoots.isEmpty r.traceRoots]
  rfl

/-- What an increment did, once the crew has worked and the free cells `free` are back. -/
theorem Collected.of_renewed {h h₁ k h₂ : Heap} {e : Entries} {ms : List Mutator}
    {crew crew' : List Collector} {free : PerClass (List Address)} {log : List Event}
    {kind : CollectionKind} (b : Begun kind h ms h₁)
    (d : Updated h₁ e (ms.map Mutator.withoutLogs) crew k crew')
    (r : Renewed k h.client.scanRoots.state h₂)
    (cells : ∀ c, (free.get c).Perm (h₂.spareCells
      ((ms.map Mutator.withoutLogs).map Mutator.withoutDecrements) c)) :
    Collected h ms { h₂ with
      small := { h₂.small with free }
      oldRoots := h₂.newRoots
      newRoots := []
      progress := h₂.progress.finish
      log } := by
  have still := d.still
  have known : k.known = h.known := d.known_eq.trans b.known_eq
  have small : k.small = h.small := (congrArg Heap.small still).trans (by rw [b.rest]; rfl)
  have large : k.large = h.large := (congrArg Heap.large still).trans (by rw [b.rest]; rfl)
  exact {
    exact := r.exact.congr rfl
    oldRoots := by
      refine (congrArg Heap.newRoots r.outer).trans ?_
      show k.newRoots = _
      rw [d.newRoots, b.client, b.newRoots, List.nil_append]
    idle := rfl
    settings := by
      refine (congrArg Heap.settings r.outer).trans ((congrArg Heap.settings still).trans ?_)
      rw [b.rest]
      rfl
    permanent := by
      refine (congrArg Heap.permanent r.outer).trans ((congrArg Heap.permanent still).trans ?_)
      rw [b.rest]
      rfl
    client := by
      obtain ⟨calls, client⟩ := d.client
      have same : h₂.client = k.client := by
        have := congrArg Heap.client r.outer
        exact this
      exact ⟨calls, by rw [← b.client, ← client, ← same]⟩
    known := by
      rw [← known]
      exact r.known
    targets := fun x hx => by
      rw [← b.view_eq]
      exact (r.targets x (known ▸ hx)).trans (d.targets (b.known_eq ▸ hx)).1
    array := fun x hx => by
      rw [← b.view_eq]
      exact (r.array x hx).trans (d.targets (d.known_eq ▸ r.known hx)).2
    held := by
      refine Held.settled (fun q hq => ?_) ((congrArg Pool.entries r.fields).trans d.fields) r.solid
      simp only [List.mem_cons, List.not_mem_nil, or_false] at hq
      rcases hq with rfl | rfl | rfl
      exacts [(congrArg Pool.entries r.objects).trans d.objects, r.decrements, r.traceRoots]
    small := by
      refine ⟨h₂.small, small ▸ r.shrunk.small, rfl, fun c => (cells c).trans (.of_eq ?_)⟩
      rw [Heap.spareCells, List.flatMap_map, List.flatMap_map]
      rfl
    large := by
      rw [← large]
      exact ⟨r.shrunk.cells, r.shrunk.pending, r.shrunk.start, r.shrunk.limit⟩ }

/-- What a cycle collection left, once the crew has worked. -/
theorem Retained.of_reaches {h h₁ k h' : Heap} {e : Entries} {ms ms₁ : List Mutator}
    {crew crew' : List Collector} {kind : CollectionKind} (b : Begun kind h ms h₁)
    (d : Updated h₁ e ms₁ crew k crew')
    (reach : ∀ o, o ∈ h'.counted ↔ k.Reaches (k.traceStarts h.client.scanRoots.state) o) :
    Retained h e h' := by
  obtain ⟨t, log, p⟩ := d.processing
  have counted : k.counted = h.counted := p.counting.counted_eq.trans (by rw [b.rest]; rfl)
  have permanent : k.permanent = h.permanent := p.counting.permanent_eq.trans (by rw [b.rest])
  have referents : ∀ x ∈ h.known, (k.view x).referents = (h.view x).referents := fun x hx => by
    rw [ObjectView.referents, (d.targets (b.known_eq ▸ hx)).1, b.view_eq, ObjectView.referents]
  have permanents : k.permanentReferents = h.permanentReferents := by
    rw [Heap.permanentReferents, permanent, Heap.permanentReferents]
    exact List.flatMap_congr fun x hx => referents x (.inr (Array.mem_toList_iff.1 hx))
  refine ⟨k.pools.traceRoots.entries, fun x hx => ?_, fun o => ?_⟩
  · have queued := (d.queued x hx).2.2
    rw [b.rest] at queued
    exact queued
  · rw [reach, Heap.traceStarts, Heap.traceBase, permanents]
    constructor <;> intro reaches
    · refine reaches.mono counted.subset (fun x hx => ?_) fun _ hx => hx
      rw [referents x (.inl (counted ▸ hx))]
      exact List.Subset.refl _
    · refine reaches.mono counted.symm.subset (fun x hx => ?_) fun _ hx => hx
      rw [referents x (.inl hx)]
      exact List.Subset.refl _

/-- What is closed depends on the objects alone. -/
theorem Closes.congr {h h' : Heap} {roots objs : List Ref} {fields : List Ticket} {S : Finset Ref}
    (c : Closes h roots objs fields S) (counted : h'.counted = h.counted)
    (view : ∀ x, h'.view x = h.view x) : Closes h' roots objs fields S where
  fresh x hx := by
    rw [counted, view]
    exact c.fresh x hx
  closed x hx fresh pos := by
    rw [counted] at hx
    rw [view] at fresh
    have same : ∀ k : Ticket, k.references h' x = k.references h x := fun k => by
      rw [Ticket.references, Ticket.targets, view]
      rfl
    simp only [Heap.gains, Heap.covered, view, same] at pos
    exact c.closed x hx fresh pos

/-- What an increment without cycle collection did, once the crew has worked. -/
theorem Incremented.of_reclaimed {h h₁ k h' : Heap} {e : Entries} {ms ms₁ : List Mutator}
    {crew crew' : List Collector} {kind : CollectionKind} {F : Finset Ref}
    (b : Begun kind h ms h₁) (d : Updated h₁ e ms₁ crew k crew') (l : Ledger h e)
    (increment : h₁.progress.cycle = false)
    (roots_known : ∀ x ∈ h.client.scanRoots.state, x ∈ h.known)
    (decrements : (h₁.owedDecrements ms₁).Perm e.decrements)
    (flushed : ∀ x ∈ crew', x.decrements.items.toList = [])
    (r : Reclaimed k (k.due (crew'.map (·.decrements))) F h') :
    ∃ N, Incremented h e N k F h' := by
  obtain ⟨t, log, p⟩ := d.processing
  rw [increment, b.client] at p
  have tallied := p.tallied (l.congr b.core) (fun x hx => b.known_eq ▸ roots_known x hx)
  have oldRoots : h₁.oldRoots = h.oldRoots := by rw [b.rest]
  have counted : h₁.counted = h.counted := by
    rw [b.rest]
    rfl
  have grown := p.scanned.view
  refine ⟨t.news.toFinset, {
    scanned := ⟨p.isLeast.1.congr counted.symm fun x => (b.view_eq x).symm, fun S c =>
      p.isLeast.2 (c.congr counted b.view_eq)⟩
    counted := p.counting.counted_eq.trans counted
    permanent := p.counting.permanent_eq.trans (by rw [b.rest])
    view := fun x hx => ?_
    tallied := oldRoots ▸ tallied
    reclaimed := r.congr ?_ rfl (fun _ => rfl) rfl rfl fun _ => rfl }⟩
  · rw [b.rest] at grown
    exact grown x hx
  · have due : k.oldRoots = h.oldRoots := (congrArg Heap.oldRoots d.still).trans oldRoots
    rw [Heap.due, List.flatMap_map, List.flatMap_eq_nil_iff.2 flushed, List.append_nil,
      d.decrements, due]
    exact decrements.append_right _

namespace HeapM

variable {h : Heap} {e : Entries} {ms : List Mutator} {c : Collector} {crew : List Collector}

/-- The steps of the crew bring all counts up to date. -/
theorem settling_eq (a : AwaitsCounting h e ms crew)
    (passes : Schedule.Passes (Schedule.counting ++ Schedule.freeing) (ms, crew) h t h') :
    ∃ k crew', t = (ms.map Mutator.withoutDecrements, crew'.map Collector.idle) ∧
      Updated h e ms crew k crew' ∧ Cleaned k crew' h' := by
  obtain ⟨_, k, counts, frees⟩ := Schedule.passes_append.1 passes
  obtain ⟨crew', rfl, d⟩ := counting_eq a counts
  obtain ⟨rfl, cleaned⟩ := freeing_eq (d.awaitsFreeing a) frees
  exact ⟨k, crew', rfl, d, cleaned⟩

/-- A crew that takes turns passes these steps. -/
theorem exists_settling (a : AwaitsCounting h e ms crew) :
    ∃ t h', (Schedule.counting ++ Schedule.freeing).foldlM runReportedStep (ms, crew) h =
      .ok t h' := by
  obtain ⟨_, k, counts⟩ := exists_counting a
  obtain ⟨crew', rfl, d⟩ := counting_eq a (Schedule.passes_of_fold counts)
  obtain ⟨t, h', frees⟩ := exists_freeing (ms.map Mutator.withoutDecrements) (d.awaitsFreeing a)
  exact ⟨t, h', (steps_append_of_ok counts).trans frees⟩

/-- A crew comes to work, and the mutators hand over what they logged. -/
theorem begin_eq (ms : List Mutator) (idle : h.progress.running = false)
    (collectors : 0 < h.settings.collectors) (capacity : 0 < h.settings.bufferCapacity)
    (kind : CollectionKind) :
    ∃ crew h₀ h₁, muster kind h = .ok crew h₀ ∧
      Schedule.opening.foldlM runReportedStep (ms, crew) h₀ =
        .ok (ms.map Mutator.withoutLogs, crew) h₁ ∧
      Collector.Led crew ∧ (∀ d ∈ crew, d.isFlushed) ∧ Begun kind h ms h₁ := by
  obtain ⟨crew, mustered, led, flushed⟩ := muster_eq collectors capacity kind
  obtain ⟨p, log, run, objects, fields, decrements, traceRoots, solid⟩ := opening_eq ms
    (h := { h with
      progress := { h.progress with requested := kind, collectors := h.settings.collectors }
      log := .incrementBegun h.progress.increments kind h.settings.collectors :: h.log })
    idle collectors flushed
  have opened := run []
  rw [List.append_nil] at opened
  exact ⟨crew, _, _, mustered, opened, led, flushed,
    { cycle := rfl, rest := rfl, objects, fields, decrements, traceRoots, solid }⟩

end HeapM

/-- After both hand-overs the buffers of a mutator are empty. -/
theorem Mutator.handed_over (ms : List Mutator) :
    ∀ m ∈ (ms.map withoutLogs).map withoutDecrements, m.buffers.isFlushed := by
  intro m hm
  rw [List.map_map] at hm
  obtain ⟨m₀, -, rfl⟩ := List.mem_map.1 hm
  rfl

/-- What an increment over all mutators leaves, in whichever order its crew works. -/
theorem Collects.collected {h h' : Heap} {e : Entries} {ms ms' : List Mutator}
    {kind : CollectionKind} (collects : Collects kind ms h ms' h') (l : Ledger h e)
    (held : Held h ms e) (idle : h.progress.running = false)
    (roots_known : ∀ x ∈ h.client.scanRoots.state, x ∈ h.known) :
    ms' = ms.map Mutator.settled ∧ Collected h ms h' ∧
      (h.collectsCycles kind = false → ∃ N k F, Incremented h e N k F h') ∧
      (h.collectsCycles kind = true → Retained h e h') := by
  obtain ⟨mustered, passes, reported⟩ := collects
  obtain ⟨collectors, capacity⟩ := HeapM.of_muster mustered
  obtain ⟨crew, _, h₁, same, opened, led, flushed, b⟩ :=
    HeapM.begin_eq ms idle collectors capacity kind
  cases same.symm.trans mustered
  rw [Schedule.increment_eq, Schedule.passes_append] at passes
  obtain ⟨_, _, opening, passes⟩ := passes
  cases opened.symm.trans (Schedule.fold_of_passes (by decide) opening)
  rw [← List.append_assoc, Schedule.passes_append] at passes
  -- the counts are brought up to date
  obtain ⟨_, h₂, settling, closing⟩ := passes
  have a := b.awaits l held roots_known led flushed
  obtain ⟨k, crew', rfl, d, cleaned⟩ := HeapM.settling_eq a settling
  have roots : k.newRoots = h.client.scanRoots.state := by
    rw [d.newRoots, b.newRoots, b.client, List.nil_append]
  have cycle : k.progress.cycle = h.collectsCycles kind := by
    have := congrArg Heap.progress d.still
    exact (congrArg Progress.cycle this).trans b.cycle
  -- nothing is left to work off
  obtain ⟨free, log, closed, cells⟩ := HeapM.closing_eq (Mutator.handed_over ms) d.idle_flushed
    (d.isEmpty cleaned.renewed)
  cases closed.symm.trans (Schedule.fold_of_passes (by decide) closing)
  cases reported
  refine ⟨?_, .of_renewed b d (roots ▸ cleaned.renewed) cells, fun increment => ?_, fun cycles =>
    .of_reaches b d (roots ▸ cleaned.reaches (cycle.trans cycles))⟩
  · rw [List.map_map, List.map_map]
    rfl
  · obtain ⟨F, r⟩ := cleaned.reclaimed (cycle.trans increment)
    obtain ⟨N, i⟩ := Incremented.of_reclaimed b d l (b.cycle.trans increment) roots_known
      a.decrements (d.decrements_flushed flushed) r
    exact ⟨N, k, F, { i with
      reclaimed := i.reclaimed.congr (.refl _) rfl (fun _ => rfl) rfl rfl fun _ => rfl }⟩

/-- With a crew that takes turns an increment over all mutators ends, if there are collectors and
buffers can hold an entry. -/
theorem HeapM.collect_eq {h : Heap} {e : Entries} {ms : List Mutator} (l : Ledger h e)
    (held : Held h ms e) (idle : h.progress.running = false)
    (collectors : 0 < h.settings.collectors) (capacity : 0 < h.settings.bufferCapacity)
    (roots_known : ∀ x ∈ h.client.scanRoots.state, x ∈ h.known) (kind : CollectionKind) :
    ∃ ms' h', collect kind ms h = .ok ms' h' := by
  obtain ⟨crew, h₀, h₁, mustered, opened, led, flushed, b⟩ :=
    begin_eq ms idle collectors capacity kind
  have a := b.awaits l held roots_known led flushed
  obtain ⟨t, h₂, settled⟩ := exists_settling a
  obtain ⟨k, crew', rfl, d, cleaned⟩ := settling_eq a (Schedule.passes_of_fold settled)
  obtain ⟨free, log, closed, -⟩ := closing_eq (Mutator.handed_over ms) d.idle_flushed
    (d.isEmpty cleaned.renewed)
  have whole : Schedule.increment.foldlM runReportedStep (ms, crew) h₀ = _ :=
    (steps_append_of_ok opened).trans ((steps_append_of_ok settled).trans closed)
  exact ⟨_, _, (bind_of_ok mustered).trans (bind_of_ok whole)⟩

end DeferredCount
