/-!
# Phases and the schedule of one increment

An increment is a fixed list of steps. A step names a phase and the party that runs it: the plan
once, every stopped mutator, or every collector. `Schedule.increment` is that list. It puts the
increments before the decrements, so no count reaches zero while a reference to its object still
waits to be counted.
-/

namespace DeferredCount

/-- What an increment does beyond applying the buffered counts. -/
inductive CollectionKind
  /-- Apply the buffered increments and decrements only. -/
  | increment
  /-- Run the backup trace as well, which reclaims cycles. -/
  | cycle
  deriving DecidableEq, Inhabited, Repr

/-- The name of a kind. -/
def CollectionKind.name : CollectionKind → String
  | .increment => "Increment"
  | .cycle => "Cycle"

/-- Both kinds. -/
def CollectionKind.all : List CollectionKind := [.increment, .cycle]

/-- The kind of a given name. -/
def CollectionKind.ofName? (s : String) : Option CollectionKind :=
  CollectionKind.all.find? (fun k => k.name == s)

/-- The phases of an increment. -/
inductive Phase
  | setCollectionKind
  | initiate
  | prepare
  | processModBuffer
  | processDecBuffer
  | backupTrace
  | release
  | complete
  deriving DecidableEq, Inhabited, Repr

/-- The name of a phase. -/
def Phase.name : Phase → String
  | .setCollectionKind => "SetCollectionKind"
  | .initiate => "Initiate"
  | .prepare => "Prepare"
  | .processModBuffer => "ProcessModBuffer"
  | .processDecBuffer => "ProcessDecBuffer"
  | .backupTrace => "BackupTrace"
  | .release => "Release"
  | .complete => "Complete"

/-- Every phase. -/
def Phase.all : List Phase :=
  [.setCollectionKind, .initiate, .prepare, .processModBuffer, .processDecBuffer, .backupTrace,
    .release, .complete]

/-- The phase of a given name, which has to match in every letter. -/
def Phase.ofName? (s : String) : Option Phase := Phase.all.find? (fun p => p.name == s)

/-- Who runs a step of the schedule. -/
inductive Party
  /-- The plan, once. -/
  | plan
  /-- Every mutator that was handed over. -/
  | mutators
  /-- Every collector. -/
  | collectors
  deriving DecidableEq, Inhabited, Repr

/-- The name a step gives its party. -/
def Party.name : Party → String
  | .plan => "Global"
  | .mutators => "Mutator"
  | .collectors => "Collector"

/-- Every party. -/
def Party.all : List Party := [.plan, .mutators, .collectors]

/-- The party of a given name. -/
def Party.ofName? (s : String) : Option Party := Party.all.find? (fun p => p.name == s)

/-- One step of the schedule. -/
structure Step where
  party : Party
  phase : Phase
  deriving DecidableEq, Inhabited, Repr

/-- A step is written as its party and its phase. -/
def Step.text (s : Step) : String := s.party.name ++ " " ++ s.phase.name

/-- The steps of one increment, in order. -/
def Schedule.increment : List Step :=
  [⟨.plan, .setCollectionKind⟩,
    ⟨.plan, .initiate⟩,
    ⟨.plan, .prepare⟩,
    ⟨.mutators, .prepare⟩,
    ⟨.collectors, .prepare⟩,
    ⟨.mutators, .processModBuffer⟩,
    ⟨.collectors, .processModBuffer⟩,
    ⟨.mutators, .processDecBuffer⟩,
    ⟨.collectors, .processDecBuffer⟩,
    ⟨.plan, .backupTrace⟩,
    ⟨.mutators, .release⟩,
    ⟨.collectors, .release⟩,
    ⟨.plan, .release⟩,
    ⟨.plan, .complete⟩]

end DeferredCount
