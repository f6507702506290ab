import DeferredCount.Proofs.Cells
import Mathlib.Data.List.Induction
import Mathlib.Logic.Relation

/-!
# Walks over a linked list

Whatever cells were linked in and taken out, a linked list stands for a plain one: a new cell is put
in front of it, and a cell that is taken out is deleted from it. Its links lead to the tail, and
back to the head.

A walker who reads the successor of a cell first may then take out any cells behind it. The cells
ahead are still linked as they were, so the walker comes to each of them.

Results:
1. `Represents.walk_of_le`, `Represents.walkBack_of_le`: following the links, either way.
2. `Represents.removeAll`: what taking out some cells leaves.
3. `Stroll.Ahead.step`: where a walker is, and what is still ahead.
4. `histories_show_plain_lists`: what a list shows after any operations.
-/

namespace DeferredCount

open Relation

namespace CellList

variable {α : Type}

/-- A list and the cells that operations have put in and not taken out again, the newest first. -/
inductive History : CellList α → List (Address × α) → Prop
  | empty : History .empty []
  | added {l l' : CellList α} {cs : List (Address × α)} {a : Address} {p : α} :
    History l cs → l.add a p = .ok l' → History l' ((a, p) :: cs)
  | removed {l : CellList α} {cs : List (Address × α)} (a : Address) :
    History l cs → History (l.remove a).2 (cs.filter fun c => c.1 ≠ a)

/-- The next `k` cells on the way from a cell to the head. -/
def walkBack (l : CellList α) : (k : Nat) → Option Address → List (Address × α)
  | 0, _ => []
  | _ + 1, none => []
  | k + 1, some cell =>
    match l.nodes.get? cell with
    | none => []
    | some node => (cell, node.payload) :: walkBack l k node.prev

/-- The list without some cells. -/
def removeAll (l : CellList α) (gone : List Address) : CellList α :=
  gone.foldl (fun l a => (l.remove a).2) l

/-- Leaving out some values and then others is leaving out all of them. -/
theorem filter_notMem_append {β γ : Type} [DecidableEq γ] (f : β → γ) (xs : List β)
    (as bs : List γ) :
    (xs.filter (f · ∉ as)).filter (f · ∉ bs) = xs.filter (f · ∉ as ++ bs) := by
  rw [List.filter_filter]
  refine List.filter_congr fun x _ => ?_
  rw [← Bool.decide_and, decide_eq_decide, List.mem_append, not_or, and_comm]

theorem filter_notMem_cons {β γ : Type} [DecidableEq γ] (f : β → γ) (xs : List β) (a : γ)
    (bs : List γ) :
    (xs.filter (f · ≠ a)).filter (f · ∉ bs) = xs.filter (f · ∉ a :: bs) := by
  have one : xs.filter (f · ≠ a) = xs.filter (f · ∉ [a]) := by simp only [List.mem_singleton]
  rw [one, filter_notMem_append]
  rfl

namespace Represents

variable {l : CellList α} {cs pre post : List (Address × α)} {c : Address × α} {a : Address}

/-! ## Following the links -/

theorem walk_of_le (r : l.Represents cs) (e : cs = pre ++ post) {k : Nat}
    (le : post.length ≤ k) : l.walk k (headCell post) = post := by
  induction post generalizing pre k with
  | nil =>
    cases k with
    | zero => rfl
    | succ k => rfl
  | cons c rest ih =>
    cases k with
    | zero => exact absurd le (Nat.not_succ_le_zero _)
    | succ k =>
      have split : cs = (pre ++ [c]) ++ rest := by
        rw [e, List.append_assoc, List.singleton_append]
      simp only [headCell_cons, walk, r.linked pre c rest e]
      rw [ih split (Nat.le_of_succ_le_succ le)]

theorem walkBack_of_le (r : l.Represents cs) (e : cs = pre ++ post) {k : Nat}
    (le : pre.length ≤ k) : l.walkBack k (lastCell pre) = pre.reverse := by
  induction pre using List.reverseRecOn generalizing post k with
  | nil =>
    cases k with
    | zero => rfl
    | succ k => rfl
  | append_singleton before c ih =>
    rw [List.length_append, List.length_singleton] at le
    cases k with
    | zero => exact absurd le (Nat.not_succ_le_zero _)
    | succ k =>
      have split : cs = before ++ c :: post := by
        rw [e, List.append_assoc, List.singleton_append]
      have last : lastCell (before ++ [c]) = some c.1 := by
        rw [lastCell_append_cons, lastCell_singleton]
      simp only [last, walkBack, r.linked before c post split]
      rw [ih split (Nat.le_of_succ_le_succ le), List.reverse_append, List.reverse_singleton,
        List.singleton_append]

/-! ## Taking cells out -/

theorem get?_of_not_mem (r : l.Represents cs) (absent : a ∉ cs.map (·.1)) :
    l.nodes.get? a = none := by
  rw [← r.mem_iff, Std.ExtTreeMap.mem_iff_isSome_getElem?] at absent
  simpa using absent

theorem remove_of_not_mem (r : l.Represents cs) (absent : a ∉ cs.map (·.1)) :
    l.remove a = (none, l) := by
  simp only [CellList.remove, r.get?_of_not_mem absent]

theorem next?_of_not_mem (r : l.Represents cs) (absent : a ∉ cs.map (·.1)) :
    l.next? a = none := by
  rw [next?, r.get?_of_not_mem absent]
  rfl

theorem contains_iff (r : l.Represents cs) (a : Address) :
    l.contains a = true ↔ a ∈ cs.map (·.1) :=
  Std.ExtTreeMap.mem_iff_contains.symm.trans (r.mem_iff a)

/-- The cells before and behind a cell are those at other addresses. -/
theorem filter_ne (r : l.Represents cs) (e : cs = pre ++ c :: post) :
    (cs.filter fun d => d.1 ≠ c.1) = pre ++ post := by
  have nodup := r.nodup
  rw [e, List.map_append, List.map_cons, List.nodup_middle, List.nodup_cons,
    ← List.map_append] at nodup
  have others : ∀ d ∈ pre ++ post, d.1 ≠ c.1 := fun d hd eq =>
    nodup.1 (eq ▸ List.mem_map_of_mem hd)
  have kept {ds : List (Address × α)} (sub : ∀ d ∈ ds, d ∈ pre ++ post) :
      (ds.filter fun d => d.1 ≠ c.1) = ds :=
    List.filter_eq_self.2 fun d hd => decide_eq_true (others d (sub d hd))
  rw [e, List.filter_append, List.filter_cons_of_neg (by simp),
    kept fun d hd => List.mem_append_left _ hd, kept fun d hd => List.mem_append_right _ hd]

theorem remove_filter (r : l.Represents cs) (a : Address) :
    (l.remove a).2.Represents (cs.filter fun c => c.1 ≠ a) := by
  by_cases present : a ∈ cs.map (·.1)
  · obtain ⟨c, hc, rfl⟩ := List.mem_map.1 present
    obtain ⟨pre, post, e⟩ := List.append_of_mem hc
    obtain ⟨l', removed, r'⟩ := r.remove_eq e
    rw [r.filter_ne e, removed]
    exact r'
  · have same : (cs.filter fun c => c.1 ≠ a) = cs := List.filter_eq_self.2 fun c hc =>
      decide_eq_true fun eq => present (eq ▸ List.mem_map_of_mem hc)
    rw [r.remove_of_not_mem present, same]
    exact r

theorem remove_fst (r : l.Represents cs) (hc : c ∈ cs) : (l.remove c.1).1 = some c.2 := by
  obtain ⟨pre, post, e⟩ := List.append_of_mem hc
  obtain ⟨l', removed, -⟩ := r.remove_eq e
  rw [removed]

theorem removeAll (r : l.Represents cs) (gone : List Address) :
    (l.removeAll gone).Represents (cs.filter fun c => c.1 ∉ gone) := by
  induction gone generalizing l cs with
  | nil => simpa [CellList.removeAll] using r
  | cons a gone ih =>
    exact filter_notMem_cons Prod.fst cs a gone ▸ ih (r.remove_filter a)

end Represents

theorem History.represents {l : CellList α} {cs : List (Address × α)} (run : History l cs) :
    l.Represents cs := by
  induction run with
  | empty => exact represents_empty
  | @added l l' cs a p _ e r =>
    by_cases listed : a ∈ cs.map (·.1)
    · rw [add, if_pos ((r.contains_iff a).2 listed)] at e
      cases e
    · obtain ⟨_, e', r'⟩ := r.add_eq listed p
      cases e.symm.trans e'
      exact r'
  | removed a _ r => exact r.remove_filter a

/-! ## Walks -/

/-- A walker on a list: the list as it is now, the cell that comes next, the cells that were
visited, in order, and those that were taken out. -/
structure Stroll (α : Type) where
  cells : CellList α
  cursor : Option Address
  visited : List Address := []
  gone : List Address := []

namespace Stroll

/-- A walker who stands before the head of a list. -/
def start (l : CellList α) : Stroll α := { cells := l, cursor := l.head }

/-- A cell is visited. Its successor is read, and then any visited cells are taken out. -/
inductive Step : Stroll α → Stroll α → Prop
  | visit {w : Stroll α} {a : Address} (out : List Address) :
    w.cursor = some a → (∀ b ∈ out, b ∈ w.visited ++ [a]) →
    Step w ⟨w.cells.removeAll out, w.cells.next? a, w.visited ++ [a], w.gone ++ out⟩

/-- Some visits, one after the other. -/
abbrev Runs : Stroll α → Stroll α → Prop := ReflTransGen Step

variable {cs : List (Address × α)} {w w' : Stroll α}

/-- A walker on a list that held the cells `cs` has visited the first ones, and took out no others.
The cells ahead come next. -/
structure Ahead (cs : List (Address × α)) (w : Stroll α) : Prop where
  nodup : (cs.map (·.1)).Nodup
  represents : w.cells.Represents (cs.filter fun c => c.1 ∉ w.gone)
  split : ∃ done ahead, cs = done ++ ahead ∧ w.visited = done.map (·.1) ∧
    w.cursor = headCell ahead
  behind : ∀ a ∈ w.gone, a ∈ w.visited

theorem Ahead.start {l : CellList α} (r : l.Represents cs) : Ahead cs (start l) where
  nodup := r.nodup
  represents := by simpa [Stroll.start] using r
  split := ⟨[], cs, rfl, rfl, r.head⟩
  behind := nofun

/-- The cells ahead were not visited, so they are still there. -/
theorem Ahead.not_gone (v : Ahead cs w) {done ahead : List (Address × α)} (e : cs = done ++ ahead)
    (visited : w.visited = done.map (·.1)) : ∀ d ∈ ahead, d.1 ∉ w.gone := by
  intro d hd hg
  have nodup := v.nodup
  rw [e, List.map_append, List.nodup_append] at nodup
  exact nodup.2.2 _ (visited ▸ v.behind _ hg) _ (List.mem_map_of_mem hd) rfl

theorem Ahead.step (v : Ahead cs w) (step : Step w w') : Ahead cs w' := by
  cases step with
  | @visit a out at_a sub =>
    obtain ⟨done, ahead, e, visited, cursor⟩ := v.split
    cases ahead with
    | nil =>
      rw [at_a] at cursor
      cases cursor
    | cons c ahead =>
      rw [at_a, headCell_cons, Option.some.injEq] at cursor
      subst cursor
      have now : (cs.filter fun d => d.1 ∉ w.gone) =
          (done.filter fun d => d.1 ∉ w.gone) ++ c :: ahead := by
        rw [e, List.filter_append]
        congr 1
        exact List.filter_eq_self.2 fun d hd => decide_eq_true (v.not_gone e visited d hd)
      refine ⟨v.nodup, ?_, ⟨done ++ [c], ahead, ?_, ?_, v.represents.next?_eq now⟩, fun b hb => ?_⟩
      · exact filter_notMem_append Prod.fst cs w.gone out ▸ v.represents.removeAll out
      · rw [e, List.append_assoc, List.singleton_append]
      · rw [visited, List.map_append]
        rfl
      · rcases List.mem_append.1 hb with hb | hb
        · exact List.mem_append_left _ (v.behind b hb)
        · exact sub b hb

theorem Ahead.run (v : Ahead cs w) (run : Runs w w') : Ahead cs w' := by
  induction run with
  | refl => exact v
  | tail _ step ih => exact ih.step step

end Stroll

/-! ## Lists after any operations -/

/-- A linked list answers as a plain list without duplicates does. -/
structure Shows (l : CellList α) (cs : List (Address × α)) : Prop where
  nodup : (cs.map (·.1)).Nodup
  toList : l.toList = cs
  /-- The way to the tail ends there, and does not turn back. -/
  forth : ∀ k, cs.length ≤ k → l.walk k l.head = cs
  /-- So does the way from the last cell back to the head. -/
  back : ∀ k, cs.length ≤ k → l.walkBack k (lastCell cs) = cs.reverse
  head : l.head = headCell cs
  next? : ∀ pre c post, cs = pre ++ c :: post → l.next? c.1 = headCell post
  get? : ∀ c ∈ cs, l.get? c.1 = some c.2
  absent : ∀ a ∉ cs.map (·.1), l.get? a = none ∧ l.next? a = none
  contains : ∀ a, l.contains a = true ↔ a ∈ cs.map (·.1)
  size : l.size = cs.length
  isEmpty : l.isEmpty = true ↔ cs = []

theorem Represents.shows {l : CellList α} {cs : List (Address × α)} (r : l.Represents cs) :
    l.Shows cs where
  nodup := r.nodup
  toList := r.toList_eq
  forth _ le := r.head ▸ r.walk_of_le (show cs = [] ++ cs from rfl) le
  back _ le := r.walkBack_of_le (show cs = cs ++ [] from (List.append_nil cs).symm) le
  head := r.head
  next? _ _ _ e := r.next?_eq e
  get? _ hc := r.get?_eq hc
  absent _ ha := ⟨r.get?_eq_none ha, r.next?_of_not_mem ha⟩
  contains := r.contains_iff
  size := r.size
  isEmpty := by
    rw [CellList.isEmpty, Std.ExtTreeMap.isEmpty_eq_size_beq_zero, beq_iff_eq,
      ← List.length_eq_zero_iff, ← r.size]
    rfl

/-- After any operations on an empty list, it stands for the plain list of the cells that were put
in and not taken out. A cell can be added exactly if it is not there. Taking a cell out tells its
payload, or changes nothing. A walk that takes out visited cells comes to each cell in turn and
finds it as it was, until it has visited them all. -/
theorem histories_show_plain_lists {l : CellList α} {cs : List (Address × α)}
    (run : History l cs) :
    l.Shows cs ∧
      (∀ a p, (∃ l', l.add a p = .ok l') ↔ a ∉ cs.map (·.1)) ∧
      (∀ c ∈ cs, (l.remove c.1).1 = some c.2) ∧
      (∀ a ∉ cs.map (·.1), l.remove a = (none, l)) ∧
      ∀ w, Stroll.Runs (Stroll.start l) w →
        w.cells.toList = (cs.filter fun c => c.1 ∉ w.gone) ∧
        (∃ ahead, cs.map (·.1) = w.visited ++ ahead ∧ w.cursor = ahead.head?) ∧
        (∀ c ∈ cs, w.cursor = some c.1 → w.cells.get? c.1 = some c.2) ∧
        (w.cursor = none → w.visited = cs.map (·.1)) := by
  have r := run.represents
  refine ⟨r.shows, fun a p => ⟨?_, fun absent => ?_⟩, fun c hc => r.remove_fst hc,
    fun a ha => r.remove_of_not_mem ha, fun w walk => ?_⟩
  · rintro ⟨l', e⟩ listed
    rw [add, if_pos ((r.contains_iff a).2 listed)] at e
    cases e
  · obtain ⟨l', e, -⟩ := r.add_eq absent p
    exact ⟨l', e⟩
  · have v := (Stroll.Ahead.start r).run walk
    obtain ⟨done, ahead, e, visited, cursor⟩ := v.split
    have all : cs.map (·.1) = w.visited ++ ahead.map (·.1) := by
      rw [e, List.map_append, visited]
    refine ⟨v.represents.toList_eq, ⟨_, all, ?_⟩, fun c hc here => ?_, fun ended => ?_⟩
    · rw [cursor, headCell, List.head?_map]
    · rw [cursor, headCell, Option.map_eq_some_iff] at here
      obtain ⟨d, hd, same⟩ := here
      have there := v.not_gone e visited d (List.mem_of_head? hd)
      exact v.represents.get?_eq (List.mem_filter.2 ⟨hc, decide_eq_true (same ▸ there)⟩)
    · rw [cursor, headCell, Option.map_eq_none_iff, List.head?_eq_none_iff] at ended
      rw [all, ended, List.map_nil, List.append_nil]

/-- Three cells are put in, and the second one is taken out. A walker takes out the head while it
stands there, and comes to the last cell nevertheless. -/
theorem histories_show_plain_lists_three_cells : ∃ l : CellList Nat,
    History l [(12288, 3), (4096, 1)] ∧ l.toList = [(12288, 3), (4096, 1)] ∧
      l.walkBack 5 (some 4096) = [(4096, 1), (12288, 3)] ∧
      ∃ w, Stroll.Runs (Stroll.start l) w ∧ w.cursor = none ∧ w.visited = [12288, 4096] ∧
        w.cells.toList = [(4096, 1)] := by
  obtain ⟨l, run⟩ : ∃ l : CellList Nat, History l [(12288, 3), (4096, 1)] := by
    have first := History.added (a := 4096) (p := 1) .empty rfl
    have second := History.added (a := 8192) (p := 2) first rfl
    have third := History.added (a := 12288) (p := 3) second rfl
    exact ⟨_, .removed 8192 third⟩
  obtain ⟨shows, -, -, -, walks⟩ := histories_show_plain_lists run
  have behind : l.next? 12288 = some 4096 := shows.next? [] _ _ rfl
  have one := Stroll.Step.visit (w := Stroll.start l) [12288] shows.head fun _ hb => hb
  have two := ReflTransGen.tail (.single one) (Stroll.Step.visit [] behind nofun)
  obtain ⟨left, ⟨ahead, all, cursor⟩, -, -⟩ := walks _ two
  -- both cells were visited, so none is ahead
  obtain rfl : ahead = [] := List.self_eq_append_right.1 all
  exact ⟨l, run, shows.toList, shows.back 5 (by decide), _, two, cursor, rfl, left⟩

end CellList

end DeferredCount
