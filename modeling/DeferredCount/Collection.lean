import DeferredCount.Collector.Phases
import DeferredCount.Collector.Trace
import DeferredCount.Mutator.Allocation

/-!
# Running an increment

`HeapM.collect` runs the steps of the schedule over the stopped mutators with as many collectors
as the settings ask for. Each step can also be run alone, for a client that drives the phases
itself.
-/

namespace DeferredCount

namespace HeapM

/-- Asks for an increment by so many collectors. -/
def request (kind : CollectionKind) (collectors : Nat) : HeapM Unit := do
  let progress ← (← get).progress.request kind collectors
  modify fun h => { h with progress }

/-- The part of a phase that only concerns the progress of increments. -/
def progressPhase (p : Phase) : HeapM Unit := do
  let h ← get
  let progress ← h.progress.phase h.settings.cycleInterval p
  modify fun h => { h with progress }
  if p = .setCollectionKind then emit (.kindElected progress.increments progress.cycle)

/-- The part of the plan in a phase. -/
def planPhase : Phase → HeapM Unit
  | .prepare => do
    let h ← get
    let pools ← h.pools.prepare h.progress.collectors
    modify fun h => { h with pools, newRoots := [] }
  | .backupTrace => do
    let h ← get
    if h.progress.cycle then
      let stats ← Trace.run h.newRoots
      emit (.cycleCollected stats.marked stats.freed)
  | .release => do
    modify fun h => { h with oldRoots := h.newRoots, newRoots := [] }
    unless (← get).pools.isEmpty do throw .poolsNotEmpty
  | p => progressPhase p

/-- Runs one step of the schedule. -/
def runStep (mutators : List Mutator) (crew : List Collector) (s : Step) :
    HeapM (List Mutator × List Collector) := do
  match s.party with
  | .plan =>
    planPhase s.phase
    return (mutators, crew)
  | .mutators => return (← mutators.mapM (·.phase s.phase), crew)
  | .collectors => return (mutators, ← Collector.phase crew s.phase)

/-- Runs one step of the schedule and reports its begin and its end. -/
def runReportedStep (threads : List Mutator × List Collector) (s : Step) :
    HeapM (List Mutator × List Collector) := do
  emit (.stepBegun s)
  let threads ← runStep threads.1 threads.2 s
  emit (.stepEnded s)
  return threads

/-- Asks for an increment, and binds the collectors that run it. -/
def muster (kind : CollectionKind) : HeapM (List Collector) := do
  let n := (← get).settings.collectors
  request kind n
  emit (.incrementBegun (← get).progress.increments kind n)
  (List.range n).mapM Collector.bind

/-- Reports the end of an increment. -/
def reportDone : HeapM Unit := do
  let h ← get
  emit (.incrementDone h.progress.increments h.reservedPages)

/-- Runs one increment over the stopped mutators. -/
def collect (kind : CollectionKind) (mutators : List Mutator) : HeapM (List Mutator) := do
  let crew ← muster kind
  let (mutators, _) ← Schedule.increment.foldlM runReportedStep (mutators, crew)
  reportDone
  return mutators

end HeapM

end DeferredCount
