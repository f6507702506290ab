import DeferredCount.Pages.Pool

/-!
# The space of permanent objects

Objects of this space are never reclaimed and not counted. The space lists them, since the
backup trace starts from every one of them.
-/

namespace DeferredCount

/-- The space of permanent objects. -/
structure PermanentSpace where
  pages : PagePool
  /-- The registered objects, the oldest first. -/
  objects : Array Ref := #[]
  deriving Inhabited

namespace PermanentSpace

/-- Does the object lie in the space? -/
def holds (s : PermanentSpace) (o : Ref) : Bool := s.pages.contains o.addr

/-- Registers an object. -/
def register (s : PermanentSpace) (o : Ref) : PermanentSpace :=
  { s with objects := s.objects.push o }

/-- The number of registered objects. -/
def size (s : PermanentSpace) : Nat := s.objects.size

/-- Registers an object again for every object visited in a scan. The scan visits the objects that
were registered when it began. Returns how many it visited. -/
def registerAgain (s : PermanentSpace) : Nat × PermanentSpace :=
  (s.size, s.objects.foldl register s)

end PermanentSpace

end DeferredCount
