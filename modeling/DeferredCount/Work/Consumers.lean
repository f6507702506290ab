import DeferredCount.Work.Pool

/-!
# Consumers that share a pool

Several consumers drain one pool together, and any of them may push new blocks while it works on
its own. A consumer that finds the pool empty joins those that wait, and looks again until there
is a block or all of them wait. `Consumer.step` is one atomic action: a pop, a push, a look at the
pool, a change of the number of waiting consumers, or a read of one of the two numbers. A schedule
says whose turn it is.
-/

namespace DeferredCount

/-- Where a consumer is in its search for a block. -/
inductive Seeking
  /-- It is about to take a block, without waiting. -/
  | popping
  /-- The pool was empty: it is about to join those that wait. -/
  | joining
  /-- It waits, and is about to look whether there is a block. -/
  | looking
  /-- It saw a block and is about to stop waiting. -/
  | leaving
  /-- It is about to take the block it saw, unless another consumer was faster. -/
  | retaking
  /-- It saw no block and is about to read how many wait. -/
  | readingWaiting
  /-- It read how many wait and is about to read how many consumers there are. -/
  | readingConsumers (waiting : Nat)
  deriving DecidableEq, Repr

/-- A consumer: searching, at work on the entries of a block, with blocks to push before the next
entry, or told that there is no more work. -/
inductive Consumer (α : Type)
  | seeking (s : Seeking)
  | working (entries : List α) (blocks : List (Stack α))
  | finished
  deriving DecidableEq, Repr

namespace Consumer

variable {α : Type}

/-- One atomic action of a search. -/
def seek (p : Pool α) : Seeking → Consumer α × Pool α
  | .popping =>
    match p.pop with
    | some (b, q) => (.working b.toList [], q)
    | none => (.seeking .joining, p)
  | .joining => (.seeking .looking, p.join)
  | .looking => (.seeking (if p.isEmpty then .readingWaiting else .leaving), p)
  | .leaving => (.seeking .retaking, p.leave)
  | .retaking =>
    match p.pop with
    | some (b, q) => (.working b.toList [], q)
    | none => (.seeking .joining, p)
  | .readingWaiting => (.seeking (.readingConsumers p.waiting), p)
  | .readingConsumers w => (if w = p.consumers then .finished else .seeking .looking, p)

/-- One atomic action. Working off an entry brings the blocks that `grow` gives. -/
def step (grow : α → List (Stack α)) (c : Consumer α) (p : Pool α) : Consumer α × Pool α :=
  match c with
  | .finished => (.finished, p)
  | .working [] [] => (.seeking .popping, p)
  | .working (v :: rest) [] => (.working rest (grow v), p)
  | .working entries (b :: blocks) => (.working entries blocks, p.push b)
  | .seeking s => seek p s

/-- Does the action work off an entry? -/
def takesEntry : Consumer α → Bool
  | .working (_ :: _) [] => true
  | _ => false

/-- Has the consumer been told that there is no more work? -/
def isFinished : Consumer α → Bool
  | .finished => true
  | _ => false

end Consumer

/-- Consumers at a pool, and how many entries they worked off together. -/
structure Crew (α : Type) where
  consumers : List (Consumer α)
  pool : Pool α
  done : Nat := 0

namespace Crew

variable {α : Type}

/-- The consumer of a number takes one action, if there is such a consumer. -/
def stepAt (grow : α → List (Stack α)) (crew : Crew α) (i : Nat) : Crew α :=
  match crew.consumers[i]? with
  | none => crew
  | some c =>
    let (c', pool) := c.step grow crew.pool
    { consumers := crew.consumers.set i c', pool, done := crew.done + c.takesEntry.toNat }

/-- The consumers take their turns as a schedule says. -/
def runSchedule (grow : α → List (Stack α)) (crew : Crew α) (schedule : List Nat) : Crew α :=
  schedule.foldl (stepAt grow) crew

/-- Every consumer takes one action in turn, for at most so many rounds, until all are told that
there is no more work. -/
def run (grow : α → List (Stack α)) : (rounds : Nat) → Crew α → Crew α
  | 0, crew => crew
  | k + 1, crew =>
    if crew.consumers.all Consumer.isFinished then crew
    else run grow k (crew.runSchedule grow (List.range crew.consumers.length))

end Crew

/-- An entry that is not zero brings a block with the entry below. -/
def countDown (k : Nat) : List (Stack Nat) := if k = 0 then [] else [.ofList [k - 1]]

/-- How many entries `threads` consumers work off together, when the pool holds one block of
`chains` entries `n` and they count each of them down to zero. Eight rounds are enough for one
entry, since no search takes more actions while there is a block. -/
def cooperate (threads chains n : Nat) : Except Fault Nat := do
  let pool ← ({} : Pool Nat).prepare threads
  let consumers := List.replicate threads (Consumer.seeking .popping)
  let crew : Crew Nat := { consumers, pool := pool.push (.ofList (List.replicate chains n)) }
  let rounds := 8 * (chains * (n + 2) + threads + 2)
  return (crew.run countDown rounds).done

end DeferredCount
