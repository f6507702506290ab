/-!
# A stack of work

The last entry that was pushed is the first one to come back. A stack knows how many entries it
has.

Results:
1. `pop_push`: a push is undone by a pop.
2. `toList_push`, `toList_pop`: the stack is the list of its entries, with the top at the end.
3. `eq_of_items`: two stacks of the same entries are one.
-/

namespace DeferredCount

/-- A stack of entries, its top first, and their number. -/
structure Stack (α : Type) where
  items : List α := []
  size : Nat := items.length
  size_eq : size = items.length := by rfl
  deriving DecidableEq, Repr

namespace Stack

variable {α : Type}

/-- The stack without entries. -/
def empty : Stack α := {}

instance : Inhabited (Stack α) := ⟨empty⟩

/-- The stack of some entries, the last of them on top. -/
def ofList (entries : List α) : Stack α := { items := entries.reverse }

/-- The entries, the top at the end. -/
def toList (s : Stack α) : List α := s.items.reverse

/-- Is there no entry? -/
def isEmpty (s : Stack α) : Bool := s.items.isEmpty

/-- Puts an entry on top. -/
def push (s : Stack α) (v : α) : Stack α where
  items := v :: s.items
  size := s.size + 1
  size_eq := congrArg (· + 1) s.size_eq

/-- Takes the entry on top. -/
def pop (s : Stack α) : Option (α × Stack α) :=
  match s with
  | ⟨[], _, _⟩ => none
  | ⟨v :: rest, n, h⟩ => some (v, ⟨rest, n - 1, by simp [h]⟩)

theorem eq_of_items {s t : Stack α} (h : s.items = t.items) : s = t := by
  obtain ⟨items, n, hn⟩ := s
  obtain ⟨items', n', hn'⟩ := t
  cases h
  cases hn
  cases hn'
  rfl

theorem pop_push (s : Stack α) (v : α) : (s.push v).pop = some (v, s) := rfl

@[simp] theorem toList_empty : (empty : Stack α).toList = [] := rfl

@[simp] theorem toList_ofList (entries : List α) : (ofList entries).toList = entries := by
  simp [toList, ofList]

@[simp] theorem toList_push (s : Stack α) (v : α) : (s.push v).toList = s.toList ++ [v] := by
  simp [toList, push]

theorem size_eq_length (s : Stack α) : s.size = s.toList.length := by
  simp [toList, s.size_eq]

theorem isEmpty_iff (s : Stack α) : s.isEmpty = true ↔ s.toList = [] := by
  simp [isEmpty, toList]

theorem toList_pop {s t : Stack α} {v : α} (h : s.pop = some (v, t)) :
    s.toList = t.toList ++ [v] := by
  obtain ⟨items, n, hn⟩ := s
  cases items with
  | nil => cases h
  | cons w rest =>
    cases h
    simp [toList]

theorem pop_eq_none {s : Stack α} : s.pop = none ↔ s.toList = [] := by
  obtain ⟨items, n, hn⟩ := s
  cases items <;> simp [pop, toList]

end Stack

end DeferredCount
