/-!
# Version

The version that the library reports of itself.
-/

namespace DeferredCount

/-- The version of the library. -/
def version : String := "0.1.0"

end DeferredCount
