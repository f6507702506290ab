/-!
# A queue of work

The first entry that came is the first one to leave. New entries are collected in a list of their
own, the latest first, which is turned around when the entries before them are gone. So adding
takes constant time, and taking does on average.

Results:
1. `toList_push`, `toList_pop`: the queue is the list of its entries, added to at the end and taken
   from at the front.
2. `pop_eq_none`, `isEmpty_iff`: nothing can be taken only when there is no entry.
3. `foldl_eq`: a fold over the queue is the fold over the list.
-/

namespace DeferredCount

/-- A queue: the entries at the front in order, and those behind them, the latest first. -/
structure Queue (α : Type) where
  front : List α := []
  back : List α := []
  deriving Repr

namespace Queue

variable {α : Type}

/-- The queue without entries. -/
def empty : Queue α := {}

/-- The entries, the oldest first. -/
def toList (q : Queue α) : List α := q.front ++ q.back.reverse

/-- Is there no entry? -/
def isEmpty (q : Queue α) : Bool := q.front.isEmpty && q.back.isEmpty

/-- Folds over the entries, the oldest first. -/
def foldl {β : Type} (f : β → α → β) (b : β) (q : Queue α) : β :=
  q.back.foldr (fun v b => f b v) (q.front.foldl f b)

/-- Adds an entry. -/
def push (q : Queue α) (v : α) : Queue α := { q with back := v :: q.back }

/-- Takes the oldest entry out. -/
def pop (q : Queue α) : Option (α × Queue α) :=
  match q.front with
  | v :: rest => some (v, { q with front := rest })
  | [] =>
    match q.back.reverse with
    | [] => none
    | v :: rest => some (v, { front := rest })

@[simp] theorem toList_empty : (empty : Queue α).toList = [] := rfl

@[simp] theorem toList_push (q : Queue α) (v : α) : (q.push v).toList = q.toList ++ [v] := by
  simp [toList, push]

theorem isEmpty_iff (q : Queue α) : q.isEmpty = true ↔ q.toList = [] := by
  simp [isEmpty, toList]

theorem foldl_eq {β : Type} (f : β → α → β) (b : β) (q : Queue α) :
    q.foldl f b = q.toList.foldl f b := by
  simp [foldl, toList, List.foldl_append]

theorem toList_pop {q r : Queue α} {v : α} (h : q.pop = some (v, r)) :
    q.toList = v :: r.toList := by
  unfold pop at h
  split at h
  · rename_i v' rest e
    cases h
    simp [toList, e]
  · rename_i e
    split at h
    · cases h
    · rename_i v' rest e'
      cases h
      simp [toList, e, e']

theorem pop_eq_none {q : Queue α} : q.pop = none ↔ q.toList = [] := by
  unfold pop
  split
  · rename_i e
    simp [toList, e]
  · rename_i e
    split
    · rename_i e'
      simpa [toList, e] using e'
    · rename_i e'
      simp [toList, e, e']

end Queue

end DeferredCount
