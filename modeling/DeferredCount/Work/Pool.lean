import DeferredCount.Fault
import DeferredCount.Work.Queue
import DeferredCount.Work.Stack

/-!
# Shared pools of work

A pool holds blocks of entries and hands them out in the order in which they came. A block is the
stack of entries that one thread collected. A pool also counts the consumers that found it empty:
once all of them wait, no entry can come any more.

Results:
1. `blocks_push`, `entries_push`: pushing a block adds it at the end, unless it is empty.
2. `blocks_pop`, `entries_pop`: a popped block and what stays in the pool are what the pool held.
-/

namespace DeferredCount

/-- A pool of blocks and the consumers that drain it. -/
structure Pool (α : Type) where
  queue : Queue (Stack α) := {}
  /-- How many consumers drain the pool. -/
  consumers : Nat := 1
  /-- How many of them found the pool empty and wait. -/
  waiting : Nat := 0
  deriving Repr

namespace Pool

variable {α : Type}

instance : Inhabited (Pool α) := ⟨{}⟩

/-- The blocks, the oldest first. -/
def blocks (p : Pool α) : List (Stack α) := p.queue.toList

/-- Every entry of the pool, in the order in which blocks are handed out. -/
def entries (p : Pool α) : List α := p.blocks.flatMap Stack.toList

/-- The number of entries in the pool. -/
def size (p : Pool α) : Nat := p.queue.foldl (fun n block => n + block.size) 0

/-- Is there no block? -/
def isEmpty (p : Pool α) : Bool := p.queue.isEmpty

/-- Adds a block, unless it is empty. -/
def push (p : Pool α) (block : Stack α) : Pool α :=
  if block.isEmpty then p else { p with queue := p.queue.push block }

/-- Takes the oldest block out. -/
def pop (p : Pool α) : Option (Stack α × Pool α) :=
  p.queue.pop.map fun (block, queue) => (block, { p with queue })

/-- Drops every entry. -/
def clear (p : Pool α) : Pool α := { p with queue := {} }

/-- Makes the pool ready for so many consumers, none of which waits. -/
def prepare (p : Pool α) (consumers : Nat) : Except Fault (Pool α) := do
  require .someConsumers (0 < consumers)
  return { p with consumers, waiting := 0 }

/-- One more consumer waits. -/
def join (p : Pool α) : Pool α := { p with waiting := p.waiting + 1 }

/-- One consumer stops waiting. -/
def leave (p : Pool α) : Pool α := { p with waiting := p.waiting - 1 }

theorem size_eq_length (p : Pool α) : p.size = p.entries.length := by
  have total (blocks : List (Stack α)) (n : Nat) :
      blocks.foldl (fun n block => n + block.size) n =
        n + (blocks.flatMap Stack.toList).length := by
    induction blocks generalizing n with
    | nil => simp
    | cons block rest ih =>
      rw [List.foldl_cons, ih, List.flatMap_cons, List.length_append, Stack.size_eq_length]
      omega
  rw [size, Queue.foldl_eq, total, Nat.zero_add, entries, blocks]

theorem isEmpty_iff (p : Pool α) : p.isEmpty = true ↔ p.blocks = [] := Queue.isEmpty_iff p.queue

theorem blocks_push (p : Pool α) (block : Stack α) :
    (p.push block).blocks = p.blocks ++ if block.isEmpty then [] else [block] := by
  unfold push
  split <;> simp [blocks]

theorem entries_push (p : Pool α) (block : Stack α) :
    (p.push block).entries = p.entries ++ block.toList := by
  unfold entries
  rw [blocks_push]
  split
  · rename_i h
    simp [(Stack.isEmpty_iff block).1 h]
  · simp

theorem blocks_pop {p q : Pool α} {block : Stack α} (h : p.pop = some (block, q)) :
    p.blocks = block :: q.blocks := by
  unfold pop at h
  simp only [Option.map_eq_some_iff, Prod.mk.injEq] at h
  obtain ⟨⟨block', queue⟩, e, rfl, rfl⟩ := h
  exact Queue.toList_pop e

theorem pop_eq_none {p : Pool α} : p.pop = none ↔ p.blocks = [] := by
  rw [pop, Option.map_eq_none_iff, Queue.pop_eq_none, blocks]

theorem entries_pop {p q : Pool α} {block : Stack α} (h : p.pop = some (block, q)) :
    p.entries = block.toList ++ q.entries := by
  simp [entries, blocks_pop h]

/-- Takes every block out, the oldest first. -/
def takeAll (p : Pool α) : List (Stack α) × Pool α :=
  match _ : p.pop with
  | none => ([], p)
  | some (block, q) => (block :: q.takeAll.1, q.takeAll.2)
termination_by p.blocks.length
decreasing_by all_goals
  have e : p.pop = some (block, q) := by assumption
  rw [blocks_pop e]
  exact Nat.lt_succ_self _

/-- Puts blocks in, in order. -/
def putAll (p : Pool α) (blocks : List (Stack α)) : Pool α :=
  blocks.foldl (fun p block => { p with queue := p.queue.push block }) p

/-- Counts the entries. Every block is taken out, and put back when all are counted. -/
def len (p : Pool α) : Nat × Pool α :=
  (p.takeAll.1.foldl (fun n block => n + block.size) 0, p.takeAll.2.putAll p.takeAll.1)

/-- What a consumer that looks for a block meets. -/
inductive Search (α : Type)
  /-- A block, and the pool without it. -/
  | block (b : Stack α) (p : Pool α)
  /-- Every consumer waits: there will be no more blocks. -/
  | quiet (p : Pool α)
  /-- Other consumers may still bring blocks. -/
  | waits

/-- Takes a block, or waits with the other consumers for the end. -/
def search (p : Pool α) : Search α :=
  match p.pop with
  | some (b, q) => .block b q
  | none => if p.waiting + 1 = p.consumers then .quiet p.join else .waits

end Pool

end DeferredCount
