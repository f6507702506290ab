import DeferredCount.Word

/-!
# Counting what the barriers do

Counters are words and wrap around. A `BarrierStats` that is not enabled is never counted up by a
barrier, but its counters work.
-/

namespace DeferredCount

/-- A counter with a name. -/
structure EventCounter where
  name : String
  count : Nat := 0
  deriving DecidableEq, Inhabited, Repr

namespace EventCounter

/-- Counts so many events. -/
def add (c : EventCounter) (n : Nat) : EventCounter :=
  { c with count := Word.wrappingAdd c.count n }

/-- Counts one event. -/
def bump (c : EventCounter) : EventCounter := c.add 1

/-- Forgets the events. -/
def reset (c : EventCounter) : EventCounter := { c with count := 0 }

/-- A counter as its name and its count. -/
def text (c : EventCounter) : String := s!"{c.name}={c.count}"

end EventCounter

/-- The counters of all barriers of an instance. -/
structure BarrierStats where
  enabled : Bool
  /-- Checks of scalar fields. -/
  scalarChecks : EventCounter := { name := "barrier.putfield.fast" }
  /-- Checks of array elements. -/
  elementChecks : EventCounter := { name := "barrier.aastore.fast" }
  /-- Objects and fields that were logged. -/
  logged : EventCounter := { name := "barrier.slow" }
  /-- References that were pushed as decrements. -/
  wordsLogged : EventCounter := { name := "barrier.words_logged" }
  deriving DecidableEq, Inhabited, Repr

namespace BarrierStats

/-- The names of the four counters. -/
inductive Counter
  | scalarChecks
  | elementChecks
  | logged
  | wordsLogged
  deriving DecidableEq, Repr

/-- Changes one counter. -/
def modify (s : BarrierStats) (f : EventCounter → EventCounter) : Counter → BarrierStats
  | .scalarChecks => { s with scalarChecks := f s.scalarChecks }
  | .elementChecks => { s with elementChecks := f s.elementChecks }
  | .logged => { s with logged := f s.logged }
  | .wordsLogged => { s with wordsLogged := f s.wordsLogged }

/-- Changes one counter, if counting is enabled. -/
def count (s : BarrierStats) (c : Counter) (n : Nat) : BarrierStats :=
  if s.enabled then s.modify (·.add n) c else s

/-- Forgets all events. -/
def reset (s : BarrierStats) : BarrierStats :=
  { s with
    scalarChecks := s.scalarChecks.reset
    elementChecks := s.elementChecks.reset
    logged := s.logged.reset
    wordsLogged := s.wordsLogged.reset }

/-- The counters, each followed by a space. -/
def text (s : BarrierStats) : String :=
  String.join ([s.scalarChecks, s.elementChecks, s.logged, s.wordsLogged].map fun c =>
    c.text ++ " ")

end BarrierStats

end DeferredCount
