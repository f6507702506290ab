import DeferredCount.Word

/-!
# Counting reserved pages

`PageUsage` counts the pages that are handed out, and the most that ever were.
-/

namespace DeferredCount

/-- The pages handed out now, and at the highest point. -/
structure PageUsage where
  reserved : Nat := 0
  peak : Nat := 0
  deriving DecidableEq, Inhabited, Repr

namespace PageUsage

/-- Pages are handed out. -/
def reserve (u : PageUsage) (pages : Nat) : Except Fault PageUsage := do
  let now ← Word.add u.reserved pages
  return { reserved := now, peak := max u.peak now }

/-- Pages are given back. -/
def release (u : PageUsage) (pages : Nat) : Except Fault PageUsage := do
  require .reservedCovers (pages ≤ u.reserved)
  return { u with reserved := u.reserved - pages }

/-- No page is handed out any more. -/
def reset (u : PageUsage) : PageUsage := { u with reserved := 0 }

end PageUsage

end DeferredCount
