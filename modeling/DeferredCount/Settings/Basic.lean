import DeferredCount.Word

/-!
# Settings of an instance

`Settings` is the record that an instance is built from. A `Setting` names one of its fields, and
`SettingValue` is what a field holds.
-/

namespace DeferredCount

/-- How a new counted object enters the heap. -/
inductive Flavor
  /-- It is fresh: its referents are counted when the object itself first is. -/
  | base
  /-- It counts as written, so its referents are counted at the next increment. -/
  | generational
  deriving DecidableEq, Inhabited, Repr

/-- The name of a flavor. -/
def Flavor.name : Flavor → String
  | .base => "Base"
  | .generational => "Generational"

/-- Both flavors. -/
def Flavor.all : List Flavor := [.base, .generational]

/-- The flavor of a given name, which has to match in every letter. -/
def Flavor.ofName? (s : String) : Option Flavor := Flavor.all.find? (fun f => f.name == s)

/-- The settings of an instance. -/
structure Settings where
  /-- How new objects enter the heap. -/
  flavor : Flavor := .base
  /-- Log stores into scalar fields one field at a time. -/
  scalarFields : Bool := false
  /-- Log stores into arrays one quantum of elements at a time. -/
  arrayFields : Bool := false
  /-- Arrays shorter than this are logged as a whole all the same. -/
  arrayThreshold : Nat := 0
  /-- The number of adjacent array elements that share a mark. -/
  arrayQuantum : Nat := 1
  /-- Keep the check of a scalar field out of line. It changes nothing else. -/
  scalarOutOfLine : Bool := false
  /-- Keep the check of an array element out of line. It changes nothing else. -/
  arrayOutOfLine : Bool := false
  /-- The entries a buffer holds before it is handed to its pool. -/
  bufferCapacity : Nat := 4096
  /-- The number of collectors of an increment. -/
  collectors : Nat := 1
  /-- Every so many increments one collects cycles. Zero means only on request. -/
  cycleInterval : Nat := 0
  /-- Count what the barriers do. -/
  barrierStats : Bool := false
  /-- Report logged fields and freed large objects as news instead of as traces. -/
  verbose : Bool := false
  deriving DecidableEq, Inhabited, Repr

/-- A field of the settings. -/
inductive Setting
  | flavor
  | scalarFields
  | arrayFields
  | arrayThreshold
  | arrayQuantum
  | scalarOutOfLine
  | arrayOutOfLine
  | bufferCapacity
  | collectors
  | cycleInterval
  | barrierStats
  | verbose
  deriving DecidableEq, Inhabited, Repr

/-- The name under which a field is set. -/
def Setting.name : Setting → String
  | .flavor => "rc_flavor"
  | .scalarFields => "field_barrier_for_putfield"
  | .arrayFields => "field_barrier_for_aastore"
  | .arrayThreshold => "field_barrier_aastore_threshold"
  | .arrayQuantum => "array_quantum"
  | .scalarOutOfLine => "putfield_barrier_out_of_line"
  | .arrayOutOfLine => "aastore_barrier_out_of_line"
  | .bufferCapacity => "buffer_capacity"
  | .collectors => "threads"
  | .cycleInterval => "cycle_collection_interval"
  | .barrierStats => "barrier_stats"
  | .verbose => "verbose"

/-- Every field. -/
def Setting.all : List Setting :=
  [.flavor, .scalarFields, .arrayFields, .arrayThreshold, .arrayQuantum, .scalarOutOfLine,
    .arrayOutOfLine, .bufferCapacity, .collectors, .cycleInterval, .barrierStats, .verbose]

/-- The field of a given name. -/
def Setting.ofName? (s : String) : Option Setting := Setting.all.find? (fun k => k.name == s)

/-- What a field holds. -/
inductive SettingValue
  | flavor (f : Flavor)
  | flag (b : Bool)
  | number (n : Nat)
  deriving DecidableEq, Repr

namespace Settings

/-- The base-two logarithm of the array quantum. -/
def logArrayQuantum (s : Settings) : Nat := Word.trailingZeros s.arrayQuantum

/-- Is any store logged one field at a time? -/
def fieldBarrier (s : Settings) : Bool := s.scalarFields || s.arrayFields

/-- The value of a field. -/
def get (s : Settings) : Setting → SettingValue
  | .flavor => .flavor s.flavor
  | .scalarFields => .flag s.scalarFields
  | .arrayFields => .flag s.arrayFields
  | .arrayThreshold => .number s.arrayThreshold
  | .arrayQuantum => .number s.arrayQuantum
  | .scalarOutOfLine => .flag s.scalarOutOfLine
  | .arrayOutOfLine => .flag s.arrayOutOfLine
  | .bufferCapacity => .number s.bufferCapacity
  | .collectors => .number s.collectors
  | .cycleInterval => .number s.cycleInterval
  | .barrierStats => .flag s.barrierStats
  | .verbose => .flag s.verbose

/-- The settings with another value for a field. A value of the wrong kind changes nothing. -/
def put (s : Settings) : Setting → SettingValue → Settings
  | .flavor, .flavor f => { s with flavor := f }
  | .scalarFields, .flag b => { s with scalarFields := b }
  | .arrayFields, .flag b => { s with arrayFields := b }
  | .arrayThreshold, .number n => { s with arrayThreshold := n }
  | .arrayQuantum, .number n => { s with arrayQuantum := n }
  | .scalarOutOfLine, .flag b => { s with scalarOutOfLine := b }
  | .arrayOutOfLine, .flag b => { s with arrayOutOfLine := b }
  | .bufferCapacity, .number n => { s with bufferCapacity := n }
  | .collectors, .number n => { s with collectors := n }
  | .cycleInterval, .number n => { s with cycleInterval := n }
  | .barrierStats, .flag b => { s with barrierStats := b }
  | .verbose, .flag b => { s with verbose := b }
  | _, _ => s

end Settings

end DeferredCount
