import DeferredCount.CellList
import Mathlib.Data.List.Nodup

/-!
# What a linked list of cells holds

`CellList.Represents` says that the nodes of a list are the cells of an ordinary list, each linked
to its neighbours there. Linking a cell in puts it in front, and taking one out takes out just that
one, so the walk from head to tail finds the cells in this order.

Results:
1. `Represents.toList_eq`: the walk finds the represented cells.
2. `Represents.add_eq`, `Represents.remove_eq`: what adding and removing leave.
-/

namespace DeferredCount

namespace CellList

variable {α : Type}

/-- The address of the first cell. -/
def headCell (cs : List (Address × α)) : Option Address := cs.head?.map (·.1)

/-- The address of the last cell. -/
def lastCell (cs : List (Address × α)) : Option Address := cs.getLast?.map (·.1)

@[simp] theorem headCell_nil : headCell ([] : List (Address × α)) = none := rfl

@[simp] theorem headCell_cons (c : Address × α) (cs : List (Address × α)) :
    headCell (c :: cs) = some c.1 := rfl

@[simp] theorem lastCell_nil : lastCell ([] : List (Address × α)) = none := rfl

@[simp] theorem lastCell_singleton (c : Address × α) : lastCell [c] = some c.1 := rfl

@[simp] theorem lastCell_append_cons (as bs : List (Address × α)) (c : Address × α) :
    lastCell (as ++ c :: bs) = lastCell (c :: bs) := by
  simp [lastCell, List.getLast?_append, List.getLast?_cons]

@[simp] theorem lastCell_cons_cons (c d : Address × α) (cs : List (Address × α)) :
    lastCell (c :: d :: cs) = lastCell (d :: cs) := by
  simp [lastCell]

theorem mem_of_headCell {cs : List (Address × α)} {a : Address} (h : headCell cs = some a) :
    a ∈ cs.map (·.1) := by
  cases cs with
  | nil => cases h
  | cons c rest =>
    cases h
    exact List.mem_cons_self

theorem mem_of_lastCell {cs : List (Address × α)} {a : Address} (h : lastCell cs = some a) :
    a ∈ cs.map (·.1) := by
  simp only [lastCell, Option.map_eq_some_iff] at h
  obtain ⟨c, hc, rfl⟩ := h
  exact List.mem_map_of_mem (List.mem_of_getLast? hc)

/-- The list holds these cells, from head to tail. -/
structure Represents (l : CellList α) (cs : List (Address × α)) : Prop where
  head : l.head = headCell cs
  /-- The node of a cell names the neighbours of the cell. -/
  linked : ∀ pre c post, cs = pre ++ c :: post →
    l.nodes.get? c.1 = some { prev := lastCell pre, next := headCell post, payload := c.2 }
  nodup : (cs.map (·.1)).Nodup
  mem_iff : ∀ a, a ∈ l.nodes ↔ a ∈ cs.map (·.1)
  size : l.size = cs.length

theorem represents_empty : Represents (empty : CellList α) [] where
  head := rfl
  linked pre c post e := by simp at e
  nodup := List.nodup_nil
  mem_iff := by simp [empty]
  size := by simp [empty, CellList.size]

theorem get?_modifyNode (nodes : Std.ExtTreeMap Address (CellNode α) compare)
    (cell : Option Address) (f : CellNode α → CellNode α) (a : Address) :
    (modifyNode nodes cell f).get? a =
      if cell = some a then (nodes.get? a).map f else nodes.get? a := by
  cases cell with
  | none => simp [modifyNode]
  | some c =>
    simp only [modifyNode, Std.ExtTreeMap.get?_eq_getElem?, Std.ExtTreeMap.getElem?_modify,
      Std.LawfulEqCmp.compare_eq_iff_eq, Option.some.injEq]
    split
    · next e => rw [e]
    · rfl

theorem mem_modifyNode (nodes : Std.ExtTreeMap Address (CellNode α) compare)
    (cell : Option Address) (f : CellNode α → CellNode α) (a : Address) :
    a ∈ modifyNode nodes cell f ↔ a ∈ nodes := by
  cases cell <;> simp [modifyNode, Std.ExtTreeMap.mem_modify]

theorem size_modifyNode (nodes : Std.ExtTreeMap Address (CellNode α) compare)
    (cell : Option Address) (f : CellNode α → CellNode α) :
    (modifyNode nodes cell f).size = nodes.size := by
  cases cell <;> simp [modifyNode, Std.ExtTreeMap.size_modify]

theorem get?_insert (nodes : Std.ExtTreeMap Address (CellNode α) compare) (a b : Address)
    (n : CellNode α) :
    (nodes.insert a n).get? b = if a = b then some n else nodes.get? b := by
  simp only [Std.ExtTreeMap.get?_eq_getElem?, Std.ExtTreeMap.getElem?_insert,
    Std.LawfulEqCmp.compare_eq_iff_eq]

theorem get?_erase (nodes : Std.ExtTreeMap Address (CellNode α) compare) (a b : Address) :
    (nodes.erase a).get? b = if a = b then none else nodes.get? b := by
  simp only [Std.ExtTreeMap.get?_eq_getElem?, Std.ExtTreeMap.getElem?_erase,
    Std.LawfulEqCmp.compare_eq_iff_eq]

namespace Represents

variable {l : CellList α} {cs pre post : List (Address × α)} {c : Address × α}

theorem walk_eq (r : l.Represents cs) (e : cs = pre ++ post) :
    l.walk post.length (headCell post) = post := by
  induction post generalizing pre with
  | nil => rfl
  | cons c rest ih =>
    simp only [List.length_cons, headCell_cons, walk, r.linked pre c rest e]
    rw [ih (show cs = pre ++ [c] ++ rest by rw [e, List.append_assoc, List.singleton_append])]

theorem toList_eq (r : l.Represents cs) : l.toList = cs := by
  rw [toList, r.size, r.head]
  exact r.walk_eq (show cs = [] ++ cs from rfl)

theorem get?_eq (r : l.Represents cs) (hc : c ∈ cs) : l.get? c.1 = some c.2 := by
  obtain ⟨pre, post, e⟩ := List.append_of_mem hc
  rw [CellList.get?, r.linked pre c post e]
  rfl

theorem next?_eq (r : l.Represents cs) (e : cs = pre ++ c :: post) :
    l.next? c.1 = headCell post := by
  rw [next?, r.linked pre c post e]
  rfl

theorem get?_eq_none (r : l.Represents cs) {a : Address} (ha : a ∉ cs.map (·.1)) :
    l.get? a = none := by
  rw [← r.mem_iff, Std.ExtTreeMap.mem_iff_isSome_getElem?] at ha
  have : l.nodes.get? a = none := by simpa using ha
  rw [CellList.get?, this]
  rfl

theorem add_eq (r : l.Represents cs) {a : Address} (ha : a ∉ cs.map (·.1)) (p : α) :
    ∃ l', l.add a p = .ok l' ∧ l'.Represents ((a, p) :: cs) := by
  have absent : a ∉ l.nodes := fun h => ha ((r.mem_iff a).1 h)
  have missing : l.contains a = false :=
    Bool.eq_false_iff.2 fun h => absent (Std.ExtTreeMap.mem_iff_contains.2 h)
  refine ⟨_, if_neg (by simp [missing]), rfl, ?_, List.nodup_cons.2 ⟨ha, r.nodup⟩, ?_, ?_⟩
  · intro pre c post e
    rcases List.cons_eq_append_iff.1 e with ⟨rfl, e⟩ | ⟨pre, rfl, rfl⟩
    · cases e
      rw [get?_insert, if_pos rfl, r.head]
      rfl
    · have hne : a ≠ c.1 := by
        rintro rfl
        exact ha (List.mem_map_of_mem (by simp))
      rw [get?_insert, if_neg hne, get?_modifyNode, r.linked pre c post rfl, r.head]
      cases pre with
      | nil => simp
      | cons b pre =>
        have : b.1 ≠ c.1 := by
          intro eq
          have := r.nodup
          simp [eq] at this
        simp [this]
  · intro b
    simp only [Std.ExtTreeMap.mem_insert, Std.LawfulEqCmp.compare_eq_iff_eq, mem_modifyNode,
      r.mem_iff, List.map_cons, List.mem_cons]
    exact or_congr_left eq_comm
  · have := r.size
    simp only [CellList.size] at this ⊢
    rw [Std.ExtTreeMap.size_insert, if_neg (by simpa [mem_modifyNode] using absent),
      size_modifyNode, this]
    rfl

theorem split_append {as bs xs ys : List (Address × α)} {d : Address × α}
    (e : as ++ bs = xs ++ d :: ys) :
    (∃ zs, as = xs ++ d :: zs ∧ ys = zs ++ bs) ∨ ∃ zs, bs = zs ++ d :: ys ∧ xs = as ++ zs := by
  rcases List.append_eq_append_iff.1 e with ⟨zs, e₁, e₂⟩ | ⟨zs, e₁, e₂⟩
  · exact .inr ⟨zs, e₂, e₁⟩
  · rcases List.cons_eq_append_iff.1 e₂ with ⟨rfl, e₂⟩ | ⟨zs, rfl, e₂⟩
    · exact .inr ⟨[], by simpa using e₂.symm, by simpa using e₁.symm⟩
    · exact .inl ⟨zs, e₁, (List.cons.inj e₂).2⟩

theorem remove_eq (r : l.Represents cs) (e : cs = pre ++ c :: post) :
    ∃ l', l.remove c.1 = (some c.2, l') ∧ l'.Represents (pre ++ post) := by
  have node := r.linked pre c post e
  have nodup : (pre.map (·.1) ++ c.1 :: post.map (·.1)).Nodup := by
    have := r.nodup
    rwa [e, List.map_append, List.map_cons] at this
  obtain ⟨nodup_pre, nodup_rest, apart⟩ := List.nodup_append.1 nodup
  obtain ⟨c_post, nodup_post⟩ := List.nodup_cons.1 nodup_rest
  have c_pre : c.1 ∉ pre.map (·.1) := fun h => apart _ h _ List.mem_cons_self rfl
  have disjoint : ∀ a ∈ pre.map (·.1), a ∉ post.map (·.1) :=
    fun a ha hb => apart a ha a (List.mem_cons_of_mem _ hb) rfl
  have eq : l.remove c.1 = (some c.2, {
      nodes := modifyNode (modifyNode (l.nodes.erase c.1) (lastCell pre) fun n =>
        { n with next := headCell post }) (headCell post) fun n => { n with prev := lastCell pre }
      head := if (lastCell pre).isSome then l.head else headCell post }) := by
    simp only [remove, node]
  refine ⟨_, eq, ?_, ?_, ?_, ?_, ?_⟩
  · cases pre with
    | nil => simp
    | cons b pre => simp [lastCell, r.head, e, List.getLast?_cons]
  · intro p d q split
    rcases split_append split with ⟨zs, rfl, rfl⟩ | ⟨zs, rfl, rfl⟩
    · have hd : d.1 ∈ (p ++ d :: zs).map (·.1) := List.mem_map_of_mem (by simp)
      have hne : c.1 ≠ d.1 := fun h => c_pre (h ▸ hd)
      have after : headCell post ≠ some d.1 := fun h => disjoint _ hd (mem_of_headCell h)
      have old := r.linked p d (zs ++ c :: post) (by simp [e])
      rw [get?_modifyNode, get?_modifyNode, get?_erase, if_neg hne, old, if_neg after]
      cases zs with
      | nil => simp
      | cons b zs =>
        have : lastCell (b :: zs) ≠ some d.1 := by
          intro h
          rw [List.map_append, List.map_cons, List.nodup_append, List.nodup_cons] at nodup_pre
          exact nodup_pre.2.1.1 (mem_of_lastCell h)
        simp [this]
    · have hd : d.1 ∈ (zs ++ d :: q).map (·.1) := List.mem_map_of_mem (by simp)
      have hne : c.1 ≠ d.1 := fun h => c_post (h ▸ hd)
      have before : lastCell pre ≠ some d.1 := fun h => disjoint _ (mem_of_lastCell h) hd
      have old := r.linked (pre ++ c :: zs) d q (by simp [e])
      rw [get?_modifyNode, get?_modifyNode, get?_erase, if_neg hne, old, if_neg before]
      cases zs with
      | nil => simp
      | cons b zs =>
        have : b.1 ≠ d.1 := by
          intro h
          simp [h] at nodup_post
        simp [this]
  · rw [List.map_append]
    exact List.nodup_append.2 ⟨nodup_pre, nodup_post, fun a ha b hb h => disjoint a ha (h ▸ hb)⟩
  · intro a
    simp only [mem_modifyNode, Std.ExtTreeMap.mem_erase, ne_eq, Std.LawfulEqCmp.compare_eq_iff_eq,
      r.mem_iff, e, List.map_append, List.map_cons, List.mem_append, List.mem_cons]
    constructor
    · rintro ⟨hne, h | rfl | h⟩
      · exact .inl h
      · exact absurd rfl hne
      · exact .inr h
    · rintro (h | h)
      · exact ⟨fun eq => c_pre (eq ▸ h), .inl h⟩
      · exact ⟨fun eq => c_post (eq ▸ h), .inr (.inr h)⟩
  · have present : l.nodes.contains c.1 :=
      Std.ExtTreeMap.mem_iff_contains.1 ((r.mem_iff c.1).2 (List.mem_map_of_mem (by simp [e])))
    have := r.size
    simp only [CellList.size] at this ⊢
    rw [size_modifyNode, size_modifyNode, Std.ExtTreeMap.size_erase, if_pos present, this, e]
    simp

end Represents

end CellList

end DeferredCount
