import DeferredCount.Pages.Usage

/-!
# A pool of pages

A page pool hands out runs of adjacent pages from one address range. Fresh pages are cut off at a
cursor that moves up. Runs given back are kept in address order, joined with their free
neighbours, and handed out again before fresh pages, the lowest run that is large enough first.
A free run that ends at the cursor is given back to it.
-/

namespace DeferredCount

/-- Adjacent free pages. -/
structure PageRun where
  start : Address
  pages : Nat
  deriving DecidableEq, Inhabited, Repr

/-- Free runs, by ascending start. -/
abbrev FreeRuns := List PageRun

namespace FreeRuns

/-- The lowest run of at least so many pages. -/
def firstFit? (runs : FreeRuns) (pages : Nat) : Option PageRun :=
  runs.find? fun r => pages ≤ r.pages

/-- The run that starts at an address. -/
def at? (runs : FreeRuns) (a : Address) : Option PageRun := runs.find? fun r => r.start == a

/-- The highest run that starts below an address. -/
def before? (runs : FreeRuns) (a : Address) : Option PageRun :=
  (runs.takeWhile fun r => r.start < a).getLast?

/-- Takes out the run that starts at an address. -/
def erase (runs : FreeRuns) (a : Address) : FreeRuns := runs.filter fun r => r.start != a

/-- Puts a run at its place, instead of one with the same start. -/
def insert (run : PageRun) : FreeRuns → FreeRuns
  | [] => [run]
  | r :: rest =>
    if run.start < r.start then run :: r :: rest
    else if run.start = r.start then run :: rest
    else r :: insert run rest

end FreeRuns

/-- A pool of the pages from `start` up to `limit`. -/
structure PagePool where
  start : Address
  limit : Address
  /-- No page at or above the cursor is in use or in a free run. -/
  cursor : Address
  free : FreeRuns := []
  usage : PageUsage := {}
  deriving DecidableEq, Inhabited, Repr

namespace PagePool

/-- The pool of a range whose pages are all fresh. -/
def ofRange (start limit : Address) : Except Fault PagePool := do
  require .rangeAligned (isPageStart start)
  require .rangeAligned (isPageStart limit)
  return { start, limit, cursor := start }

/-- The pool of so many pages from an address on. -/
def ofPages (start : Address) (pages : Nat) : Except Fault PagePool := do
  let limit ← Word.add start (pagesToBytes pages)
  ofRange start limit

/-- Does the address lie in the range of the pool? -/
def contains (p : PagePool) (a : Address) : Bool := p.start ≤ a && a < p.limit

/-- The range of the pool, as its first address and the one behind its last. -/
def rangeText (p : PagePool) : String := hexText p.start ++ ".." ++ hexText p.limit

/-- The address behind so many pages from `a` on. -/
def runEnd (a : Address) (pages : Nat) : Except Fault Address := do
  let bytes ← Word.mul pages bytesPerPage
  Word.add a bytes

/-- Takes pages out of a free run and leaves the rest of it. -/
def takeFree (p : PagePool) (run : PageRun) (pages : Nat) : Except Fault PagePool := do
  let free := FreeRuns.erase p.free run.start
  if pages < run.pages then
    let rest ← Word.add run.start (pagesToBytes pages)
    return { p with free := FreeRuns.insert ⟨rest, run.pages - pages⟩ free }
  return { p with free }

/-- Hands out a run of pages. `none` if no free run is large enough and too few fresh pages are
left; then nothing changes. -/
def acquire (p : PagePool) (pages : Nat) : Except Fault (Option Address × PagePool) := do
  require .somePages (0 < pages)
  match FreeRuns.firstFit? p.free pages with
  | some run =>
    let taken ← p.takeFree run pages
    let usage ← p.usage.reserve pages
    return (some run.start, { taken with usage })
  | none =>
    let fresh ← distance p.limit p.cursor
    if fresh < pagesToBytes pages then return (none, p)
    let cursor ← Word.add p.cursor (pagesToBytes pages)
    let usage ← p.usage.reserve pages
    return (some p.cursor, { p with cursor, usage })

/-- Joins a run that is given back with the free run that ends where it starts. -/
def joinBefore (free : FreeRuns) (run : PageRun) : Except Fault (FreeRuns × PageRun) := do
  match FreeRuns.before? free run.start with
  | none => return (free, run)
  | some prev =>
    let prevEnd ← runEnd prev.start prev.pages
    if prevEnd = run.start then
      let pages ← Word.add run.pages prev.pages
      return (FreeRuns.erase free prev.start, ⟨prev.start, pages⟩)
    return (free, run)

/-- Joins a run that is given back with the free run that starts where it ends. -/
def joinAfter (free : FreeRuns) (run : PageRun) : Except Fault (FreeRuns × PageRun) := do
  let stop ← runEnd run.start run.pages
  match FreeRuns.at? free stop with
  | none => return (free, run)
  | some next =>
    let pages ← Word.add run.pages next.pages
    return (FreeRuns.erase free stop, { run with pages })

/-- Gives back a run that was handed out. -/
def release (p : PagePool) (start : Address) (pages : Nat) : Except Fault PagePool := do
  require .runInRange (p.contains start)
  let (free, run) ← joinBefore p.free ⟨start, pages⟩
  let (free, run) ← joinAfter free run
  let stop ← runEnd run.start run.pages
  let usage ← p.usage.release pages
  if stop = p.cursor then return { p with cursor := run.start, free, usage }
  return { p with free := FreeRuns.insert run free, usage }

end PagePool

end DeferredCount
