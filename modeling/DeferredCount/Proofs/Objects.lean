import DeferredCount.Heap.Spaces
import DeferredCount.Proofs.Cells
import DeferredCount.Proofs.Layout
import DeferredCount.Proofs.Pages
import Mathlib.Data.Finset.Card
import Mathlib.Data.Set.Basic
import Mathlib.Logic.Relation

/-!
# The objects of a heap

A heap counts small and large objects, and keeps permanent ones. `Heap.WellFormed` says that the
three spaces and the memory agree on which objects there are and where they lie. On such a heap
an update of a header changes one header, and every counted object can be freed.

Results:
1. `HeapM.updateHeader_some`, `HeapM.updateHeader_none`: what an update of a header does.
2. `HeapM.free_eq`: a counted object can be freed, and then it is counted no longer.
3. `Freed.wellFormed`: the heap stays well formed.
-/

namespace DeferredCount

namespace LargeSpace

/-- The runs of pages that the space took: those of listed objects, and those pending. -/
def runs (s : LargeSpace) : List PageRun :=
  (s.cells.toList.map fun c => ⟨c.1, c.2.pages⟩) ++ s.pending.toList.map fun c => ⟨c.1, c.2⟩

end LargeSpace

namespace Heap

/-- What the memory holds of an object. -/
def view (h : Heap) (o : Ref) : ObjectView := h.memory.view o

/-- The count of an object. -/
def count (h : Heap) (o : Ref) : Nat := (h.view o).header.count

/-- The counted objects. -/
def counted (h : Heap) : Finset Ref := (h.small.liveObjects ++ h.large.objects).toFinset

/-- The objects of the heap, counted or permanent. -/
def known (h : Heap) : Set Ref := {o | o ∈ h.counted ∨ o ∈ h.permanent.objects}

/-- The heap with another header for an object. -/
def putHeader (h : Heap) (o : Ref) (hd : Header) : Heap :=
  { h with memory := h.memory.putHeader o hd }

/-- What collectors and barriers leave alone: all but the memory, the counted objects, the pools
and the log. -/
def frame (h : Heap) : Heap :=
  { h with memory := {}, small := default, large := default, pools := {}, log := [] }

/-- The spaces and the memory agree on the objects of the heap. -/
structure WellFormed (h : Heap) : Prop where
  small_below : h.small.pages.limit ≤ h.large.pages.start
  large_below : h.large.pages.limit ≤ h.permanent.pages.start
  small_holds : ∀ o ∈ h.small.liveObjects, h.small.holds o
  small_class : ∀ o ∈ h.small.liveObjects, ∃ c, h.small.classOf? o.addr = some c
  cells : h.large.cells.Represents h.large.cells.toList
  cell_eq : ∀ c ∈ h.large.cells.toList, c.1 = cellOf c.2.object
  large_holds : ∀ o ∈ h.large.objects, h.large.holds o
  pages : h.large.pages.Accounts h.large.runs
  permanent_holds : ∀ o ∈ h.permanent.objects, h.permanent.holds o
  laid : h.memory.Laid h.known

theorem mem_liveObjects {s : SmallSpace} {o : Ref} : o ∈ s.liveObjects ↔ s.isLive o = true := by
  simp only [SmallSpace.liveObjects, SmallSpace.isLive, List.mem_map, Std.ExtTreeSet.mem_toList,
    Std.ExtTreeSet.mem_iff_contains]
  exact ⟨fun ⟨a, ha, e⟩ => e ▸ ha, fun h => ⟨o.addr, h, rfl⟩⟩

theorem mem_counted {h : Heap} {o : Ref} :
    o ∈ h.counted ↔ o ∈ h.small.liveObjects ∨ o ∈ h.large.objects := by
  simp [counted]

theorem nodup_liveObjects (s : SmallSpace) : s.liveObjects.Nodup := by
  refine List.Nodup.map (fun a b e => congrArg Ref.addr e) ?_
  exact s.live.distinct_toList.imp fun ne e => ne (by simp [e])

namespace WellFormed

variable {h : Heap} {o : Ref}

theorem not_large_of_small (wf : h.WellFormed) (ho : h.small.holds o) : ¬ h.large.holds o := by
  have := wf.small_below
  simp only [SmallSpace.holds, LargeSpace.holds, PagePool.contains, Bool.and_eq_true,
    decide_eq_true_eq] at *
  rintro ⟨le, -⟩
  exact absurd (Nat.le_trans this le) (Nat.not_le_of_lt ho.2)

theorem not_small_of_large (wf : h.WellFormed) (ho : h.large.holds o) :
    h.small.holds o = false :=
  Bool.eq_false_iff.2 fun hs => wf.not_large_of_small hs ho

theorem isCounted_of_mem (wf : h.WellFormed) (ho : o ∈ h.counted) : h.isCounted o = true := by
  rw [isCounted, Bool.or_eq_true]
  exact (mem_counted.1 ho).imp (wf.small_holds o) (wf.large_holds o)

theorem isCounted_permanent (wf : h.WellFormed) (ho : o ∈ h.permanent.objects) :
    h.isCounted o = false := by
  have h₁ := wf.small_below
  have h₂ := wf.large_below
  have h₃ := wf.permanent_holds o ho
  have h₄ : h.large.pages.start ≤ h.large.pages.limit :=
    Nat.le_trans wf.pages.start_le wf.pages.cursor_le
  simp only [PermanentSpace.holds, PagePool.contains, Bool.and_eq_true, decide_eq_true_eq] at h₃
  have h₅ : h.large.pages.limit ≤ o.addr := Nat.le_trans h₂ h₃.1
  have h₆ : h.small.pages.limit ≤ o.addr := Nat.le_trans h₁ (Nat.le_trans h₄ h₅)
  simp only [isCounted, SmallSpace.holds, LargeSpace.holds, PagePool.contains,
    Bool.or_eq_false_iff, Bool.and_eq_false_iff, decide_eq_false_iff_not]
  exact ⟨.inr (Nat.not_lt_of_le h₆), .inr (Nat.not_lt_of_le h₅)⟩

theorem permanent_ne (wf : h.WellFormed) {p : Ref} (hp : p ∈ h.permanent.objects)
    (ho : o ∈ h.counted) : p ≠ o := by
  rintro rfl
  have := wf.isCounted_of_mem ho
  rw [wf.isCounted_permanent hp] at this
  cases this

theorem isCounted_iff (wf : h.WellFormed) (ho : o ∈ h.known) :
    h.isCounted o = true ↔ o ∈ h.counted := by
  refine ⟨fun hc => ?_, wf.isCounted_of_mem⟩
  rcases ho with ho | ho
  · exact ho
  · rw [wf.isCounted_permanent ho] at hc
    cases hc

theorem placed (wf : h.WellFormed) (ho : o ∈ h.known) : h.memory.Placed o := wf.laid.placed o ho

/-- No object is listed twice. -/
theorem nodup_objects (wf : h.WellFormed) : (h.small.liveObjects ++ h.large.objects).Nodup := by
  refine List.nodup_append.2 ⟨nodup_liveObjects _, ?_, ?_⟩
  · have nodup := wf.cells.nodup
    rw [List.map_congr_left wf.cell_eq] at nodup
    have : (h.large.objects.map cellOf).Nodup := by
      rwa [LargeSpace.objects, List.map_map]
    exact this.of_map cellOf
  · rintro x hx y hy rfl
    exact wf.not_large_of_small (wf.small_holds x hx) (wf.large_holds x hy)

/-- Only the spaces and the layout of the objects matter. -/
theorem congr {h' : Heap} (wf : h.WellFormed) (small : h'.small = h.small)
    (large : h'.large = h.large) (permanent : h'.permanent = h.permanent)
    (laid : h'.memory.Laid h.known) : h'.WellFormed := by
  have known : h'.known = h.known := by
    simp only [known, counted, small, large, permanent]
  exact {
    small_below := by rw [small, large]; exact wf.small_below
    large_below := by rw [large, permanent]; exact wf.large_below
    small_holds := by rw [small]; exact wf.small_holds
    small_class := by rw [small]; exact wf.small_class
    cells := by rw [large]; exact wf.cells
    cell_eq := by rw [large]; exact wf.cell_eq
    large_holds := by rw [large]; exact wf.large_holds
    pages := by rw [large]; exact wf.pages
    permanent_holds := by rw [permanent]; exact wf.permanent_holds
    laid := by rw [known]; exact laid }

/-- The free cells do not matter. -/
theorem withFree (wf : h.WellFormed) (free : PerClass (List Address)) :
    ({ h with small := { h.small with free } } : Heap).WellFormed :=
  ⟨wf.small_below, wf.large_below, wf.small_holds, wf.small_class, wf.cells, wf.cell_eq,
    wf.large_holds, wf.pages, wf.permanent_holds, wf.laid⟩

theorem putHeader (wf : h.WellFormed) (ho : o ∈ h.known) (hd : Header) :
    (h.putHeader o hd).WellFormed :=
  wf.congr rfl rfl rfl (wf.laid.putHeader ho hd)

/-- There are at most as many counted objects as words of memory. -/
theorem card_counted_le (wf : h.WellFormed) : h.counted.card ≤ Memory.wordCount := by
  have bound : ∀ o ∈ h.counted, o.base ∈ Finset.range Memory.wordCount :=
    fun o ho => Finset.mem_range.2 (wf.placed (.inl ho)).base_lt
  have inj : ∀ o ∈ h.counted, ∀ p ∈ h.counted, o.base = p.base → o = p := by
    intro o ho p hp e
    by_contra ne
    have := wf.laid.apart o (.inl ho) p (.inl hp) ne
    unfold Memory.Apart at this
    omega
  simpa using Finset.card_le_card_of_injOn Ref.base bound inj

theorem length_targets_le (wf : h.WellFormed) (ho : o ∈ h.known) :
    (h.view o).targets.length ≤ Memory.wordCount := by
  have := (wf.placed ho).fits
  rw [view, Memory.length_targets]
  omega

end WellFormed

/-- A heap of small objects only. -/
theorem wellFormed_of_small {h : Heap} (large : h.large = (ofSettings h.settings).large)
    (permanent : h.permanent = (ofSettings h.settings).permanent)
    (below : h.small.pages.limit ≤ largeStart)
    (objects : ∀ o ∈ h.small.liveObjects,
      h.small.holds o ∧ (h.small.classOf? o.addr).isSome ∧ h.memory.Placed o)
    (apart : ∀ o ∈ h.small.liveObjects, ∀ p ∈ h.small.liveObjects, o ≠ p → h.memory.Apart o p) :
    h.WellFormed := by
  have empty : h.large.cells.Represents [] := by
    rw [large]
    exact CellList.represents_empty
  have live : ∀ o ∈ h.known, o ∈ h.small.liveObjects := by
    rintro o (ho | ho)
    · refine (mem_counted.1 ho).resolve_right fun ho => ?_
      rw [LargeSpace.objects, empty.toList_eq] at ho
      exact List.not_mem_nil ho
    · rw [permanent] at ho
      exact absurd ho (Array.not_mem_empty o)
  exact {
    small_below := by
      rw [large]
      exact below
    large_below := by
      rw [large, permanent]
      exact Nat.le_refl _
    small_holds := fun o ho => (objects o ho).1
    small_class := fun o ho => Option.isSome_iff_exists.1 (objects o ho).2.1
    cells := empty.toList_eq.symm ▸ empty
    cell_eq := fun c hc => by
      rw [empty.toList_eq] at hc
      exact absurd hc List.not_mem_nil
    large_holds := fun o ho => by
      rw [LargeSpace.objects, empty.toList_eq] at ho
      exact absurd ho List.not_mem_nil
    pages := by
      rw [LargeSpace.runs, empty.toList_eq, large]
      exact PagePool.Accounts.fresh (by decide) (by decide) (by decide)
    permanent_holds := fun o ho => by
      rw [permanent] at ho
      exact absurd ho (Array.not_mem_empty o)
    laid := {
      placed := fun o ho => (objects o (live o ho)).2.2
      apart := fun o ho p hp => apart o (live o ho) p (live p hp) } }

/-! ## Updating a header -/

theorem view_putHeader {h : Heap} {S : Set Ref} {o x : Ref} (laid : h.memory.Laid S) (ho : o ∈ S)
    (hx : x ∈ S) (hd : Header) :
    (h.putHeader o hd).view x = if x = o then { h.view o with header := hd } else h.view x :=
  laid.view_putHeader ho hx hd

@[simp] theorem frame_putHeader (h : Heap) (o : Ref) (hd : Header) :
    (h.putHeader o hd).frame = h.frame := rfl

end Heap

namespace HeapM

variable {h : Heap} {o : Ref} {f : Header → Option Header} {new : Header}

theorem updateHeader_some (placed : h.memory.Placed o) (e : f (h.view o).header = some new) :
    updateHeader o f h = .ok ((h.view o).header, true) (h.putHeader o new) := by
  rw [updateHeader, bind_of_ok (inspect_of_ok placed.header_eq)]
  change f (h.memory.view o).header = some new at e
  simp only [e]
  rw [bind_of_ok (change_of_ok (placed.store_header new))]
  rfl

theorem updateHeader_none (placed : h.memory.Placed o) (e : f (h.view o).header = none) :
    updateHeader o f h = .ok ((h.view o).header, false) h := by
  rw [updateHeader, bind_of_ok (inspect_of_ok placed.header_eq)]
  change f (h.memory.view o).header = none at e
  simp only [e]
  rfl

end HeapM

/-- Only the view of one object changed, to `v`. -/
structure Edited (o : Ref) (v : ObjectView) (h h' : Heap) : Prop where
  rest : h' = { h with memory := h'.memory }
  laid : h'.memory.Laid h.known
  self : h'.view o = v
  other : ∀ x ∈ h.known, x ≠ o → h'.view x = h.view x

namespace Edited

variable {h h₁ h' : Heap} {o : Ref} {v v₁ : ObjectView}

theorem refl (wf : h.WellFormed) (o : Ref) : Edited o (h.view o) h h :=
  ⟨rfl, wf.laid, rfl, fun _ _ _ => rfl⟩

theorem known_eq (s : Edited o v h h') : h'.known = h.known := by
  rw [s.rest]
  rfl

theorem counted_eq (s : Edited o v h h') : h'.counted = h.counted := by
  rw [s.rest]
  rfl

theorem wellFormed (s : Edited o v h h') (wf : h.WellFormed) : h'.WellFormed := by
  have laid := s.laid
  rw [s.rest] at laid ⊢
  exact wf.congr rfl rfl rfl laid

theorem trans (s₁ : Edited o v₁ h h₁) (s₂ : Edited o v h₁ h') : Edited o v h h' where
  rest := by rw [s₂.rest, s₁.rest]
  laid := s₁.known_eq ▸ s₂.laid
  self := s₂.self
  other x hx ne := by rw [s₂.other x (s₁.known_eq ▸ hx) ne, s₁.other x hx ne]

theorem of_putMark (wf : h.WellFormed) (ho : o ∈ h.known) {i : Nat}
    (hi : i < h.memory.length o) (w : Nat) :
    Edited o { h.view o with marks := (h.view o).marks.set i (w != 0) } h
      { h with memory := h.memory.putMark o i w } where
  rest := rfl
  laid := wf.laid.putMark ho hi w
  self := (wf.laid.view_putMark ho ho hi w).trans (if_pos rfl)
  other _ hx ne := (wf.laid.view_putMark ho hx hi w).trans (if_neg ne)

theorem of_putTarget (wf : h.WellFormed) (ho : o ∈ h.known) {i : Nat}
    (hi : i < h.memory.length o) {t : Option Ref} (ht : Ref.ofWord? (Ref.toWord t) = t) :
    Edited o { h.view o with targets := (h.view o).targets.set i t } h
      { h with memory := h.memory.putTarget o i t } where
  rest := rfl
  laid := wf.laid.putTarget ho hi t
  self := (wf.laid.view_putTarget ho ho hi ht).trans (if_pos rfl)
  other _ hx ne := (wf.laid.view_putTarget ho hx hi ht).trans (if_neg ne)

/-- What every view satisfies that is not the edited one, and the edited one as well. -/
theorem forall_view {P : Ref → ObjectView → Prop} (s : Edited o v h h')
    (other : ∀ x ∈ h.known, x ≠ o → P x (h.view x)) (self : P o v) :
    ∀ x ∈ h.known, P x (h'.view x) := by
  intro x hx
  by_cases e : x = o
  · rw [e, s.self]
    exact self
  · rw [s.other x hx e]
    exact other x hx e

end Edited

/-- Only the header of one object changed, to `hd`. -/
abbrev HeaderSet (o : Ref) (hd : Header) (h h' : Heap) : Prop :=
  Edited o { h.view o with header := hd } h h'

namespace HeaderSet

variable {h h₁ h' : Heap} {o : Ref} {hd hd₁ : Header}

theorem trans (s₁ : HeaderSet o hd₁ h h₁) (s₂ : HeaderSet o hd h₁ h') : HeaderSet o hd h h' := by
  have s := Edited.trans s₁ s₂
  rwa [s₁.self] at s

theorem of_putHeader (wf : h.WellFormed) (ho : o ∈ h.known) (hd : Header) :
    HeaderSet o hd h (h.putHeader o hd) where
  rest := rfl
  laid := wf.laid.putHeader ho hd
  self := by rw [Heap.view_putHeader wf.laid ho ho, if_pos rfl]
  other x hx ne := by rw [Heap.view_putHeader wf.laid ho hx, if_neg ne]

end HeaderSet

theorem HeapM.updateHeader_eq {h : Heap} {o : Ref} (wf : h.WellFormed) (ho : o ∈ h.known)
    (f : Header → Option Header) :
    ∃ h', updateHeader o f h =
        .ok ((h.view o).header, (f (h.view o).header).isSome) h' ∧
      HeaderSet o ((f (h.view o).header).getD (h.view o).header) h h' := by
  cases e : f (h.view o).header with
  | none => exact ⟨h, updateHeader_none (wf.placed ho) e, .refl wf o⟩
  | some new =>
    exact ⟨_, updateHeader_some (wf.placed ho) e, .of_putHeader wf ho new⟩

theorem HeapM.clearMarks_eq {h : Heap} {o : Ref} (wf : h.WellFormed) (ho : o ∈ h.known) :
    ∃ h', change (·.clearMarks o) h = .ok () h' ∧ Edited o (h.view o).clearMarks h h' := by
  obtain ⟨m, e, laid, self, other⟩ := wf.laid.clearMarks_eq ho
  exact ⟨{ h with memory := m }, change_of_ok e, ⟨rfl, laid, self, other⟩⟩

/-! ## Giving up an object of a space -/

namespace SmallSpace

variable {s s' : SmallSpace} {o x : Ref} {cell : Address}

theorem reclaim_eq {c : SizeClass} (ho : o ∈ s.liveObjects) (hc : s.classOf? o.addr = some c) :
    s.reclaim o = .ok (o.addr - o.addr % SizeClass.cellSize c, { s with
      live := s.live.erase o.addr
      free := s.free.put c ((o.addr - o.addr % SizeClass.cellSize c) :: s.free.get c) }) := by
  simp [reclaim, Heap.mem_liveObjects.1 ho, hc]

theorem of_reclaim (e : s.reclaim o = .ok (cell, s')) :
    ∃ c, s.classOf? o.addr = some c ∧ o ∈ s.liveObjects ∧
      cell = o.addr - o.addr % SizeClass.cellSize c ∧
      s' = { s with live := s.live.erase o.addr, free := s.free.put c (cell :: s.free.get c) } := by
  unfold reclaim at e
  by_cases live : s.isLive o = true
  · rw [if_pos live] at e
    cases hc : s.classOf? o.addr with
    | none =>
      rw [hc] at e
      cases e
    | some c =>
      rw [hc] at e
      cases e
      exact ⟨c, rfl, Heap.mem_liveObjects.2 live, rfl, rfl⟩
  · rw [if_neg live] at e
    cases e

theorem mem_liveObjects_of_reclaim (e : s.reclaim o = .ok (cell, s')) :
    x ∈ s'.liveObjects ↔ x ∈ s.liveObjects ∧ x ≠ o := by
  obtain ⟨c, -, -, -, rfl⟩ := of_reclaim e
  simp only [Heap.mem_liveObjects, isLive, Std.ExtTreeSet.contains_erase, Bool.and_eq_true,
    bne_iff_ne]
  rw [and_comm, ne_eq, ne_eq, Std.LawfulEqCmp.compare_eq_iff_eq]
  exact and_congr_right fun _ => not_congr ⟨fun e => by cases o; cases x; cases e; rfl,
    fun e => by rw [e]⟩

end SmallSpace

namespace LargeSpace

variable {s s' : LargeSpace} {o : Ref} {pages : Nat}
  {cs pre post : List (Address × LargeCell)} {c : Address × LargeCell}

theorem unlink_eq (r : s.cells.Represents (pre ++ c :: post)) (hc : c.1 = cellOf c.2.object) :
    ∃ cells, s.unlink c.2.object = .ok (c.2.pages, { s with cells }) ∧
      cells.Represents (pre ++ post) := by
  obtain ⟨cells, e, r'⟩ := r.remove_eq rfl
  refine ⟨cells, ?_, r'⟩
  simp [unlink, ← hc, e, require]

theorem of_unlink (r : s.cells.Represents cs) (e : s.unlink o = .ok (pages, s')) :
    ∃ pre c post, cs = pre ++ c :: post ∧ c.2.object = o := by
  by_cases present : cellOf o ∈ cs.map (·.1)
  · obtain ⟨c, hc, eq⟩ := List.mem_map.1 present
    obtain ⟨pre, post, rfl⟩ := List.append_of_mem hc
    obtain ⟨cells, e', -⟩ := r.remove_eq rfl
    refine ⟨pre, c, post, rfl, ?_⟩
    simp only [unlink, ← eq, e'] at e
    obtain ⟨_, holds, -⟩ := Except.bind_eq_ok.1 e
    by_contra ne
    simp [require, ne] at holds
  · have missing : s.cells.nodes.get? (cellOf o) = none := by
      rw [← r.mem_iff, Std.ExtTreeMap.mem_iff_isSome_getElem?] at present
      simpa using present
    simp only [unlink, CellList.remove, missing] at e
    cases e

/-- A listed object can be taken off the list, and its pages can be given back. -/
theorem free_eq (r : s.cells.Represents (pre ++ c :: post)) (hc : c.1 = cellOf c.2.object)
    (pages : s.pages.Accounts s.runs) :
    ∃ unlinked s', s.unlink c.2.object = .ok (c.2.pages, unlinked) ∧
      unlinked.releaseCell (cellOf c.2.object) c.2.pages = .ok s' ∧
      s'.cells.Represents (pre ++ post) ∧ s'.pages.Accounts s'.runs ∧
      s'.pages.start = s.pages.start ∧ s'.pages.limit = s.pages.limit ∧
      s'.pending = s.pending := by
  obtain ⟨cells, e, r'⟩ := unlink_eq r hc
  have taken : s.runs.Perm (⟨c.1, c.2.pages⟩ :: LargeSpace.runs { s with cells }) := by
    rw [runs, r.toList_eq, runs, r'.toList_eq]
    simp only [List.map_append, List.map_cons, List.append_assoc, List.cons_append]
    exact List.perm_middle
  obtain ⟨pool, e', accounts, same_start, same_limit⟩ := (pages.perm taken).release_eq
  rw [hc] at e'
  refine ⟨_, { s with cells, pages := pool }, e, ?_, r', accounts, same_start, same_limit, rfl⟩
  simp only [releaseCell, e', Except.ok_bind, Except.pure_eq]

end LargeSpace

/-! ## Spaces that only gave up objects -/

/-- The space of small objects after some objects were given up. -/
def SmallSpace.Reclaims : SmallSpace → SmallSpace → Prop :=
  Relation.ReflTransGen fun s s' => ∃ o cell, s.reclaim o = .ok (cell, s')

/-- The spaces of a heap after some objects were freed. -/
structure Shrunk (h h' : Heap) : Prop where
  small : h.small.Reclaims h'.small
  pending : h'.large.pending = h.large.pending
  start : h'.large.pages.start = h.large.pages.start
  limit : h'.large.pages.limit = h.large.pages.limit
  cells : h'.large.cells.toList ⊆ h.large.cells.toList

theorem Shrunk.of_eq {h h' : Heap} (small : h'.small = h.small) (large : h'.large = h.large) :
    Shrunk h h' :=
  ⟨by rw [small]; exact .refl, by rw [large], by rw [large], by rw [large], by
    rw [large]
    exact List.Subset.refl _⟩

theorem Shrunk.trans {h₁ h₂ h₃ : Heap} (s₁ : Shrunk h₁ h₂) (s₂ : Shrunk h₂ h₃) : Shrunk h₁ h₃ :=
  ⟨Relation.ReflTransGen.trans s₁.small s₂.small, s₂.pending.trans s₁.pending,
    s₂.start.trans s₁.start, s₂.limit.trans s₁.limit, List.Subset.trans s₂.cells s₁.cells⟩

/-- No slot of an object changes, not even of one that is freed meanwhile. -/
def Heap.KeepsSlots (h h' : Heap) : Prop :=
  ∀ S : Set Ref, h.known ⊆ S → h.memory.Laid S →
    h'.memory.Laid S ∧ ∀ x ∈ S, (h'.view x).targets = (h.view x).targets

namespace Heap.KeepsSlots

variable {h h₁ h' : Heap}

theorem of_memory (memory : h'.memory = h.memory) : h.KeepsSlots h' := fun S _ laid =>
  ⟨memory ▸ laid, fun x _ => by rw [view, view, memory]⟩

theorem trans (k₁ : h.KeepsSlots h₁) (k₂ : h₁.KeepsSlots h') (known : h₁.known ⊆ h.known) :
    h.KeepsSlots h' := fun S sub laid =>
  have ⟨laid₁, same₁⟩ := k₁ S sub laid
  have ⟨laid₂, same₂⟩ := k₂ S (Set.Subset.trans known sub) laid₁
  ⟨laid₂, fun x hx => (same₂ x hx).trans (same₁ x hx)⟩

theorem of_putHeader {o : Ref} (ho : o ∈ h.known) (hd : Header) :
    h.KeepsSlots (h.putHeader o hd) := fun S sub laid => by
  refine ⟨laid.putHeader (sub ho) hd, fun x hx => ?_⟩
  rw [h.view_putHeader laid (sub ho) hx]
  split
  · next e => rw [e]
  · rfl

end Heap.KeepsSlots

theorem HeapM.updateHeader_keepsSlots {h h' : Heap} {o : Ref} {f : Header → Option Header}
    {r : Header × Bool} (wf : h.WellFormed) (ho : o ∈ h.known)
    (e : updateHeader o f h = .ok r h') : h.KeepsSlots h' := by
  cases found : f (h.view o).header with
  | none =>
    cases (updateHeader_none (wf.placed ho) found).symm.trans e
    exact .of_memory rfl
  | some new =>
    cases (updateHeader_some (wf.placed ho) found).symm.trans e
    exact .of_putHeader ho new

/-! ## Freeing an object -/

/-- One object was freed: its space gave up the object, and the log may have grown. -/
inductive Freed (o : Ref) (h : Heap) : Heap → Prop
  | small {cell : Address} {small : SmallSpace} (log : List Event) :
    h.small.holds o → h.small.reclaim o = .ok (cell, small) → Freed o h { h with small, log }
  | large {pages : Nat} {unlinked large : LargeSpace} (log : List Event) :
    h.large.holds o → h.large.unlink o = .ok (pages, unlinked) →
    unlinked.releaseCell (cellOf o) pages = .ok large → Freed o h { h with large, log }

namespace Freed

variable {h h' : Heap} {o x : Ref}

theorem memory_eq (f : Freed o h h') : h'.memory = h.memory := by cases f <;> rfl

theorem pools_eq (f : Freed o h h') : h'.pools = h.pools := by cases f <;> rfl

theorem frame_eq (f : Freed o h h') : h'.frame = h.frame := by cases f <;> rfl

theorem permanent_eq (f : Freed o h h') : h'.permanent = h.permanent := by cases f <;> rfl

theorem view_eq (f : Freed o h h') (x : Ref) : h'.view x = h.view x := by
  rw [Heap.view, Heap.view, f.memory_eq]

theorem of_log {log : List Event} (f : Freed o { h with log } h') : Freed o h h' := by
  cases f with
  | small log holds e => exact .small log holds e
  | large log holds e₁ e₂ => exact .large log holds e₁ e₂

/-- What freeing a listed object leaves of the space. -/
theorem of_large (wf : h.WellFormed) {pages : Nat} {unlinked large : LargeSpace}
    (e₁ : h.large.unlink o = .ok (pages, unlinked))
    (e₂ : unlinked.releaseCell (cellOf o) pages = .ok large) :
    ∃ pre c post, h.large.cells.toList = pre ++ c :: post ∧ c.2.object = o ∧
      large.cells.Represents (pre ++ post) ∧ large.pages.Accounts large.runs ∧
      large.pages.start = h.large.pages.start ∧ large.pages.limit = h.large.pages.limit ∧
      large.pending = h.large.pending := by
  obtain ⟨pre, c, post, split, rfl⟩ := LargeSpace.of_unlink wf.cells e₁
  have hc := wf.cell_eq c (split ▸ by simp)
  obtain ⟨unlinked', large', e₁', e₂', rest⟩ :=
    LargeSpace.free_eq (split ▸ wf.cells) hc wf.pages
  cases e₁.symm.trans e₁'
  cases e₂.symm.trans e₂'
  exact ⟨pre, c, post, split, rfl, rest⟩

theorem cellOf_ne (wf : h.WellFormed) {pre post : List (Address × LargeCell)}
    {c d : Address × LargeCell} (split : h.large.cells.toList = pre ++ c :: post)
    (hd : d ∈ pre ++ post) : d.2.object ≠ c.2.object := by
  intro e
  have nodup := wf.cells.nodup
  have hc := wf.cell_eq c (split ▸ by simp)
  have hd' := wf.cell_eq d (split ▸ by
    rcases List.mem_append.1 hd with hd | hd <;> simp [hd])
  rw [split, List.map_append, List.map_cons, List.nodup_middle, List.nodup_cons,
    ← List.map_append] at nodup
  apply nodup.1
  rw [hc, ← e, ← hd']
  exact List.mem_map_of_mem hd

/-- The freed object is counted no longer, and all others still are. -/
theorem mem_counted (f : Freed o h h') (wf : h.WellFormed) :
    x ∈ h'.counted ↔ x ∈ h.counted ∧ x ≠ o := by
  simp only [Heap.mem_counted]
  cases f with
  | small log holds e =>
    rw [SmallSpace.mem_liveObjects_of_reclaim e, or_and_right]
    refine or_congr_right ⟨fun hx => ⟨hx, ?_⟩, And.left⟩
    rintro rfl
    exact wf.not_large_of_small holds (wf.large_holds _ hx)
  | large log holds e₁ e₂ =>
    obtain ⟨pre, c, post, split, rfl, r, -⟩ := of_large wf e₁ e₂
    simp only [LargeSpace.objects, split, r.toList_eq, or_and_right]
    refine or_congr ⟨fun hx => ⟨hx, ?_⟩, And.left⟩ ⟨fun hx => ?_, ?_⟩
    · rintro rfl
      exact wf.not_large_of_small (wf.small_holds _ hx) holds
    · obtain ⟨d, hd, rfl⟩ := List.mem_map.1 hx
      refine ⟨List.mem_map_of_mem ?_, cellOf_ne wf split hd⟩
      rcases List.mem_append.1 hd with hd | hd <;> simp [hd]
    · rintro ⟨hx, ne⟩
      obtain ⟨d, hd, rfl⟩ := List.mem_map.1 hx
      refine List.mem_map_of_mem ?_
      simp only [List.mem_append, List.mem_cons] at hd ⊢
      rcases hd with hd | rfl | hd
      · exact .inl hd
      · exact absurd rfl ne
      · exact .inr hd

theorem counted_eq (f : Freed o h h') (wf : h.WellFormed) : h'.counted = h.counted.erase o := by
  ext x
  rw [f.mem_counted wf, Finset.mem_erase, and_comm]

theorem known_subset (f : Freed o h h') (wf : h.WellFormed) : h'.known ⊆ h.known := by
  rintro x (hx | hx)
  · exact .inl ((f.mem_counted wf).1 hx).1
  · exact .inr (f.permanent_eq ▸ hx)

/-- The freed object is known no longer. -/
theorem ne_of_known (f : Freed o h h') (wf : h.WellFormed) (ho : o ∈ h.counted)
    (hx : x ∈ h'.known) : x ≠ o := by
  rcases hx with hx | hx
  · exact ((f.mem_counted wf).1 hx).2
  · exact wf.permanent_ne (f.permanent_eq ▸ hx) ho

theorem shrunk (f : Freed o h h') (wf : h.WellFormed) : Shrunk h h' := by
  cases f with
  | small log holds e => exact ⟨.single ⟨o, _, e⟩, rfl, rfl, rfl, List.Subset.refl _⟩
  | large log holds e₁ e₂ =>
    obtain ⟨pre, c, post, split, _, r, _, same_start, same_limit, pending⟩ := of_large wf e₁ e₂
    refine ⟨.refl, pending, same_start, same_limit, ?_⟩
    rw [split, r.toList_eq]
    exact ((List.sublist_cons_self c post).append_left pre).subset

/-- The heap stays well formed. -/
theorem wellFormed (f : Freed o h h') (wf : h.WellFormed) : h'.WellFormed := by
  have laid : h'.memory.Laid h'.known := by
    rw [f.memory_eq]
    exact wf.laid.mono (f.known_subset wf)
  have counted {x : Ref} := f.mem_counted wf (x := x)
  cases f with
  | small log holds e =>
    have live {x : Ref} := SmallSpace.mem_liveObjects_of_reclaim (x := x) e
    obtain ⟨c, -, -, -, rfl⟩ := SmallSpace.of_reclaim e
    exact { wf with
      small_holds := fun x hx => wf.small_holds x (live.1 hx).1
      small_class := fun x hx => wf.small_class x (live.1 hx).1
      laid }
  | large log holds e₁ e₂ =>
    obtain ⟨pre, c, post, split, -, r, accounts, same_start, same_limit, -⟩ := of_large wf e₁ e₂
    have mem {d : Address × LargeCell} (hd : d ∈ pre ++ post) : d ∈ h.large.cells.toList := by
      rw [split]
      rcases List.mem_append.1 hd with hd | hd <;> simp [hd]
    refine { wf with
      small_below := same_start ▸ wf.small_below
      large_below := same_limit ▸ wf.large_below
      cells := r.toList_eq.symm ▸ r
      cell_eq := fun d hd => wf.cell_eq d (mem (r.toList_eq ▸ hd))
      large_holds := fun x hx => ?_
      pages := accounts
      laid }
    rw [LargeSpace.objects, r.toList_eq] at hx
    obtain ⟨d, hd, rfl⟩ := List.mem_map.1 hx
    have := wf.large_holds d.2.object (List.mem_map_of_mem (mem hd))
    simpa [LargeSpace.holds, PagePool.contains, same_start, same_limit] using this

end Freed

namespace HeapM

variable {h : Heap} {o : Ref}

theorem freeSmall_eq (wf : h.WellFormed) (ho : o ∈ h.small.liveObjects) :
    ∃ h', freeSmall o h = .ok () h' ∧ Freed o h h' ∧ h'.large = h.large := by
  obtain ⟨c, hc⟩ := wf.small_class o ho
  have e := SmallSpace.reclaim_eq ho hc
  generalize o.addr - o.addr % SizeClass.cellSize c = cell at e
  refine ⟨_, ?_, .small (.smallFreed o cell :: h.log) (wf.small_holds o ho) e, rfl⟩
  rw [freeSmall, get_bind_apply, liftM_eq, e, lift_ok]
  rfl

theorem freeLarge_eq (wf : h.WellFormed) {pre post : List (Address × LargeCell)}
    {c : Address × LargeCell} (split : h.large.cells.toList = pre ++ c :: post) :
    ∃ h', freeLarge c.2.object h = .ok () h' ∧ Freed c.2.object h h' ∧
      h'.large.cells.Represents (pre ++ post) ∧ h'.small = h.small := by
  have hc : c ∈ h.large.cells.toList := split ▸ by simp
  obtain ⟨unlinked, large, e₁, e₂, r, -⟩ :=
    LargeSpace.free_eq (split ▸ wf.cells) (wf.cell_eq c hc) wf.pages
  refine ⟨_, ?_, .large (.largeFreed h.settings.verbose c.2.object (cellOf c.2.object) c.2.pages ::
    h.log) (wf.large_holds _ (List.mem_map_of_mem hc)) e₁ e₂, r, rfl⟩
  rw [freeLarge, get_bind_apply, liftM_eq, e₁, lift_ok, pure_bind_apply]
  dsimp only
  rw [emit_bind_apply, liftM_eq, e₂, lift_ok]
  rfl

/-- A counted object can be freed. -/
theorem free_eq (wf : h.WellFormed) (ho : o ∈ h.counted) :
    ∃ h', free o h = .ok () h' ∧ Freed o h h' := by
  rw [free, get_bind_apply]
  rcases Heap.mem_counted.1 ho with live | listed
  · rw [if_pos (wf.small_holds o live)]
    obtain ⟨h', e, f, -⟩ := freeSmall_eq wf live
    exact ⟨h', e, f⟩
  · have large := wf.large_holds o listed
    rw [if_neg (by simp [wf.not_small_of_large large])]
    obtain ⟨c, hc, rfl⟩ := List.mem_map.1 listed
    obtain ⟨pre, post, split⟩ := List.append_of_mem hc
    obtain ⟨h', e, f, -⟩ := freeLarge_eq wf split
    refine ⟨h', ?_, f⟩
    simp only [require, large, if_true, lift_ok, pure_bind_apply]
    exact e

end HeapM

end DeferredCount
