/-!
# Allocation semantics

A request names the semantics it wants. Each semantics is served by one kind of allocator, and
the read-only semantics by none.
-/

namespace DeferredCount

/-- What a request asks of the memory it gets. -/
inductive Semantics
  /-- Small objects go to cells, larger ones to pages of their own. -/
  | default
  /-- Never reclaimed and not counted, but its referents are. -/
  | immortal
  /-- Pages of its own, and counted. -/
  | los
  /-- Code is treated as immortal. -/
  | code
  /-- Served by no allocator. -/
  | readOnly
  /-- Large code is treated as a large object. -/
  | largeCode
  /-- Nothing moves here, so this is the default. -/
  | nonMoving
  /-- A large object without reference fields. -/
  | primitiveLos
  deriving DecidableEq, Inhabited, Repr

/-- The name of a semantics. -/
def Semantics.name : Semantics → String
  | .default => "Default"
  | .immortal => "Immortal"
  | .los => "Los"
  | .code => "Code"
  | .readOnly => "ReadOnly"
  | .largeCode => "LargeCode"
  | .nonMoving => "NonMoving"
  | .primitiveLos => "PrimitiveLos"

/-- Every semantics, in the order in which they are listed. -/
def Semantics.all : List Semantics :=
  [.default, .immortal, .los, .code, .readOnly, .largeCode, .nonMoving, .primitiveLos]

/-- The semantics of a given name. -/
def Semantics.ofName? (s : String) : Option Semantics :=
  Semantics.all.find? (fun k => k.name == s)

/-- The kinds of allocator a mutator owns. `none` stands for no allocator at all. -/
inductive AllocatorKind
  | bumpPointer
  | largeObject
  | freeList
  | none
  deriving DecidableEq, Inhabited, Repr

/-- The name of an allocator kind. -/
def AllocatorKind.name : AllocatorKind → String
  | .bumpPointer => "BumpPointer"
  | .largeObject => "LargeObject"
  | .freeList => "FreeList"
  | .none => "None"

/-- Every allocator kind. -/
def AllocatorKind.all : List AllocatorKind := [.bumpPointer, .largeObject, .freeList, .none]

/-- The allocator kind of a given name. -/
def AllocatorKind.ofName? (s : String) : Option AllocatorKind :=
  AllocatorKind.all.find? (fun k => k.name == s)

/-- The kind of allocator that serves a semantics. -/
def Semantics.allocator : Semantics → AllocatorKind
  | .default | .nonMoving => .freeList
  | .immortal | .code => .bumpPointer
  | .los | .largeCode | .primitiveLos => .largeObject
  | .readOnly => .none

end DeferredCount
