import DeferredCount.Work.Buffer

/-!
# Threads at one pool

The local buffers of the threads that share one pool. A thread works on its own buffer and the
pool, and leaves the other buffers alone.
-/

namespace DeferredCount

/-- A pool and the buffers of the threads that share it. -/
structure Bench (α : Type) where
  pool : Pool α := {}
  locals : List (Buffer α) := []

namespace Bench

variable {α β : Type}

/-- An empty pool and empty buffers of the given capacities. -/
def ofCapacities (capacities : List Nat) : Except Fault (Bench α) := do
  let locals ← capacities.mapM Buffer.ofCapacity
  return { locals }

/-- Works on the buffer of a thread and the pool. `none` if there is no such thread. -/
def update (b : Bench α) (i : Nat) (f : Buffer α → Pool α → β × Buffer α × Pool α) :
    Option (β × Bench α) :=
  b.locals[i]?.map fun own =>
    let (r, own, pool) := f own b.pool
    (r, { pool, locals := b.locals.set i own })

end Bench

/-- Pushes entries to a buffer, in order. -/
def Buffer.pushList {α : Type} (b : Buffer α) (p : Pool α) : List α → Buffer α × Pool α
  | [] => (b, p)
  | v :: rest =>
    let (b, p) := b.push p v
    b.pushList p rest

end DeferredCount
