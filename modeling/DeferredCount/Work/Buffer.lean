import DeferredCount.Work.Pool

/-!
# Local buffers

A thread collects its entries in a buffer of its own. A buffer that is full is handed to the pool
as one block before the next entry goes in, so a push never waits. Entries come back last in,
first out, and once the buffer is empty it takes over a block of the pool.

Results:
1. `entries_push`, `entries_flush`: pushing adds one entry to the buffer and its pool together,
   flushing none.
2. `take?_eq_none`: nothing can be taken only when buffer and pool are empty.
-/

namespace DeferredCount

/-- The entries of one thread, the latest on top. -/
structure Buffer (α : Type) where
  items : Stack α := .empty
  capacity : Nat
  deriving Repr

namespace Buffer

variable {α : Type}

/-- A buffer without entries. -/
def ofCapacity (capacity : Nat) : Except Fault (Buffer α) := do
  require .someCapacity (0 < capacity)
  return { capacity }

/-- The number of entries in the buffer. -/
def size (b : Buffer α) : Nat := b.items.size

/-- Is the buffer empty? -/
def isFlushed (b : Buffer α) : Bool := b.items.isEmpty

/-- Are the buffer and its pool empty? -/
def isEmpty (b : Buffer α) (p : Pool α) : Bool := b.isFlushed && p.isEmpty

/-- Hands the whole buffer to the pool. -/
def flush (b : Buffer α) (p : Pool α) : Buffer α × Pool α :=
  ({ b with items := .empty }, p.push b.items)

/-- Adds an entry. A full buffer is handed to the pool first. A buffer is taken to get the host
memory that its capacity asks for, whatever that is. -/
def push (b : Buffer α) (p : Pool α) (v : α) : Buffer α × Pool α :=
  if b.items.size < b.capacity then ({ b with items := b.items.push v }, p)
  else ({ b with items := Stack.empty.push v }, p.push b.items)

/-- Drops every entry. -/
def reset (b : Buffer α) : Buffer α := { b with items := .empty }

/-- Takes the latest entry of the buffer. -/
def popLocal (b : Buffer α) : Option (α × Buffer α) :=
  b.items.pop.map fun (v, items) => (v, { b with items })

/-- Takes the latest entry of the first block that has one. -/
def takeEntry : List (Stack α) → Option (α × Stack α × List (Stack α))
  | [] => none
  | block :: rest =>
    match block.pop with
    | some (v, block) => some (v, block, rest)
    | none => takeEntry rest

/-- Takes the latest entry of the first block in a queue that has one. -/
def takeBlock (q : Queue (Stack α)) : Option (α × Stack α × Queue (Stack α)) :=
  match takeEntry q.front with
  | some (v, block, front) => some (v, block, { q with front })
  | none => (takeEntry q.back.reverse).map fun (v, block, front) => (v, block, { front })

/-- Takes the latest entry, from a block of the pool if the buffer is empty. -/
def take? (b : Buffer α) (p : Pool α) : Option (α × Buffer α × Pool α) :=
  match b.popLocal with
  | some (v, b') => some (v, b', p)
  | none =>
    (takeBlock p.queue).map fun (v, items, queue) => (v, { b with items }, { p with queue })

/-- What a consumer that asks for an entry meets. -/
inductive Dequeue (α : Type)
  /-- An entry, and the buffer and the pool without it. -/
  | entry (v : α) (b : Buffer α) (p : Pool α)
  /-- Every consumer waits: there will be no more entries. -/
  | quiet (p : Pool α)
  /-- Other consumers may still bring entries. -/
  | waits

/-- Takes an entry, or waits with the other consumers for the end. -/
def dequeue (b : Buffer α) (p : Pool α) : Dequeue α :=
  match b.take? p with
  | some (v, b', p') => .entry v b' p'
  | none => if p.waiting + 1 = p.consumers then .quiet p.join else .waits

/-- The number of entries in the buffer and the pool. -/
def pending (b : Buffer α) (p : Pool α) : Nat := b.size + p.size

theorem entries_flush (b : Buffer α) (p : Pool α) :
    (b.flush p).2.entries = p.entries ++ b.items.toList := Pool.entries_push p b.items

theorem entries_push (b : Buffer α) (p : Pool α) (v : α) :
    (b.push p v).2.entries ++ (b.push p v).1.items.toList =
      p.entries ++ b.items.toList ++ [v] := by
  unfold push
  split
  · simp
  · simp [Pool.entries_push]

theorem takeEntry_eq_none {blocks : List (Stack α)} (h : takeEntry blocks = none) :
    ∀ block ∈ blocks, block.toList = [] := by
  induction blocks with
  | nil => simp
  | cons block rest ih =>
    unfold takeEntry at h
    split at h
    · cases h
    · rename_i e
      intro b hb
      rcases List.mem_cons.1 hb with rfl | hb
      · exact Stack.pop_eq_none.1 e
      · exact ih h b hb

theorem takeBlock_eq_none {q : Queue (Stack α)} (h : takeBlock q = none) :
    ∀ block ∈ q.toList, block.toList = [] := by
  unfold takeBlock at h
  split at h
  · cases h
  · rename_i e
    intro block hb
    rcases List.mem_append.1 hb with hb | hb
    · exact takeEntry_eq_none e block hb
    · exact takeEntry_eq_none (Option.map_eq_none_iff.1 h) block hb

theorem take?_eq_none {b : Buffer α} {p : Pool α} (h : b.take? p = none) :
    b.items.toList = [] ∧ ∀ block ∈ p.blocks, block.toList = [] := by
  unfold take? popLocal at h
  cases e : b.items.pop with
  | some v => simp [e] at h
  | none =>
    simp only [e, Option.map_none, Option.map_eq_none_iff] at h
    exact ⟨Stack.pop_eq_none.1 e, takeBlock_eq_none h⟩

end Buffer

end DeferredCount
