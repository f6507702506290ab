/-!
# The spaces

Every object lies in one of three spaces, each with an address range of its own.
-/

namespace DeferredCount

/-- The spaces that hold objects. -/
inductive SpaceId
  /-- Small counted objects, in cells. -/
  | small
  /-- Large counted objects, in pages of their own. -/
  | large
  /-- Objects that are never reclaimed. -/
  | permanent
  deriving DecidableEq, Inhabited, Repr

/-- The name of a space. -/
def SpaceId.name : SpaceId → String
  | .small => "rc"
  | .large => "los"
  | .permanent => "immortal"

/-- Are the objects of the space counted? -/
def SpaceId.isCounted : SpaceId → Bool
  | .small => true
  | .large => true
  | .permanent => false

end DeferredCount
