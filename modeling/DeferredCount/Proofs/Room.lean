import DeferredCount.Proofs.Allocating

/-!
# Room for an object

`Heap.Stocked` says that the free memory of a heap meets no object: neither the cells and blocks
that mutators keep nor what the spaces have left. So whatever an allocator returns has room for an
object beside all others.

Results:
1. `Heap.Room.of_cell`, `Heap.Room.of_pages`, `Heap.Room.of_block`: what is free has room.
2. `Heap.Room.format_eq`: an object can be laid out where there is room.
-/

namespace DeferredCount

/-- The free memory of a heap meets no object, where `as` are the allocators of all mutators. -/
structure Heap.Stocked (h : Heap) (as : List Allocators) : Prop where
  low : Memory.start ≤ h.small.pages.start
  high : h.permanent.pages.limit ≤ Memory.start + Memory.wordCount * bytesPerWord
  small : h.small.Stocked h.memory fun c => h.small.free.get c ++ as.flatMap (·.cells.cells.get c)
  large : h.large.Stocked h.memory
  permanent : h.permanent.Stocked h.memory (as.map (·.bump))

namespace Heap.Stocked

variable {h h' : Heap} {as as' : List Allocators}

theorem perm (st : h.Stocked as) (p : as.Perm as') : h.Stocked as' :=
  { st with
    small := st.small.congr rfl rfl rfl fun _ => (p.flatMap_right _).append_left _
    permanent := st.permanent.perm (p.map _) }

/-- Only the spaces and the sizes of the objects matter. -/
theorem congr (st : h.Stocked as) (small : h'.small = h.small) (large : h'.large = h.large)
    (permanent : h'.permanent = h.permanent)
    (length : ∀ o ∈ h.known, h'.memory.length o = h.memory.length o) : h'.Stocked as where
  low := small ▸ st.low
  high := permanent ▸ st.high
  small := by
    rw [small]
    exact st.small.withMemory fun o ho => length o (.inl (mem_counted.2 (.inl ho)))
  large := by
    rw [large]
    exact st.large.withMemory fun o ho => length o (.inl (mem_counted.2 (.inr ho)))
  permanent := by
    rw [permanent]
    exact st.permanent.withMemory fun o ho => length o (.inr ho)

/-- A mutator that ends leaves its cells and its block unused. -/
theorem tail {a : Allocators} (st : h.Stocked (a :: as)) : h.Stocked as :=
  { st with
    small := st.small.sublist fun _ =>
      (List.Sublist.refl _).append (List.sublist_append_right _ _)
    permanent := st.permanent.tail }

/-- A new mutator has neither cells nor a block. -/
theorem fresh (st : h.Stocked as) : h.Stocked ({} :: as) :=
  { st with
    small := st.small.congr rfl rfl rfl fun c => .of_eq (by
      have none : (({} : Allocators).cells.cells).get c = [] := by
        have := c.isLt
        simp [PerClass.get, PerClass.all]
      rw [List.flatMap_cons, none, List.nil_append])
    permanent := st.permanent.fresh }

/-! ### Where the spaces lie -/

theorem small_stop_le (st : h.Stocked as) (wf : h.WellFormed) {o : Ref}
    (ho : o ∈ h.small.liveObjects) : h.memory.stop o ≤ h.large.pages.start :=
  Nat.le_trans (st.small.stop_le ho) wf.small_below

theorem large_stop_le (st : h.Stocked as) (wf : h.WellFormed) {o : Ref}
    (ho : o ∈ h.large.objects) : h.memory.stop o ≤ h.permanent.pages.start := by
  obtain ⟨c, hc, rfl⟩ := List.mem_map.1 ho
  have run : (⟨c.1, c.2.pages⟩ : PageRun) ∈ h.large.pages.free ++ h.large.runs := by
    rw [st.large.runs_eq]
    exact List.mem_append_right _ (List.mem_map_of_mem hc)
  exact Nat.le_trans (st.large.cells c hc).2 (Nat.le_trans (wf.pages.packed.within _ run).le_hi
    (Nat.le_trans wf.pages.cursor_le wf.large_below))

theorem large_start_le (wf : h.WellFormed) : h.large.pages.start ≤ h.permanent.pages.start :=
  Nat.le_trans wf.pages.start_le (Nat.le_trans wf.pages.cursor_le wf.large_below)

theorem small_start_le (st : h.Stocked as) (wf : h.WellFormed) :
    h.small.pages.start ≤ h.large.pages.start :=
  Nat.le_trans st.small.pool.start_le (Nat.le_trans st.small.pool.cursor_le wf.small_below)

theorem permanent_start_le (st : h.Stocked as) :
    h.permanent.pages.start ≤ Memory.start + Memory.wordCount * bytesPerWord :=
  Nat.le_trans st.permanent.pool.start_le (Nat.le_trans st.permanent.pool.cursor_le st.high)

theorem start_le_large {o : Ref} (wf : h.WellFormed) (ho : o ∈ h.large.objects) :
    h.large.pages.start ≤ o.addr :=
  (PagePool.contains_iff.1 (wf.large_holds o ho)).1

theorem start_le_permanent {o : Ref} (wf : h.WellFormed) (ho : o ∈ h.permanent.objects) :
    h.permanent.pages.start ≤ o.addr :=
  (PagePool.contains_iff.1 (wf.permanent_holds o ho)).1

end Heap.Stocked

/-! ## Room for an object -/

/-- The words from `a` on that an object of so many bytes takes belong to no object. -/
structure Heap.Room (h : Heap) (a : Address) (size : Nat) : Prop where
  low : Memory.start ≤ a
  high : a + size ≤ Memory.start + Memory.wordCount * bytesPerWord
  aligned : bytesPerWord ∣ a
  apart : ∀ x ∈ h.known, h.memory.stop x ≤ a ∨ a + size ≤ x.addr

/-- In the memory `memory`, a new object with the view `v` lies in `size` bytes from `a` on. The
others are as they were in the heap `h`. -/
structure Heap.Formatted (h : Heap) (a : Address) (size : Nat) (v : ObjectView) (memory : Memory) :
    Prop where
  absent : ⟨a⟩ ∉ h.known
  laid : memory.Laid (insert ⟨a⟩ h.known)
  view : memory.view ⟨a⟩ = v
  stop : memory.stop ⟨a⟩ = a + size
  other : ∀ x ∈ h.known, memory.view x = h.view x ∧ memory.length x = h.memory.length x

namespace Heap.Room

variable {h : Heap} {a size slots : Nat} {as : List Allocators}

/-- A cell that is spare has room for an object. -/
theorem of_cell {small : SmallSpace} {spare : SizeClass → List Address} {c : SizeClass}
    (st : h.Stocked as) (wf : h.WellFormed) (gives : h.small.Gives small)
    (left : small.Stocked h.memory spare) (ha : a ∈ spare c) (le : size ≤ c.cellSize) :
    h.Room a size := by
  have cell := (left.cells c a ha).1
  obtain ⟨above, below⟩ := left.inside cell
  have stop : a + size ≤ h.large.pages.start := by
    refine Nat.le_trans (Nat.add_le_add_left le a) (Nat.le_trans below ?_)
    exact Nat.le_trans left.pool.cursor_le (gives.limit ▸ wf.small_below)
  exact {
    low := Nat.le_trans st.low (gives.start ▸ above)
    high := Nat.le_trans stop (Nat.le_trans (Stocked.large_start_le wf) st.permanent_start_le)
    aligned := Nat.dvd_trans c.word_dvd cell.aligned
    apart := fun x hx => by
      rcases hx with hx | hx
      · rcases mem_counted.1 hx with hx | hx
        · exact (left.apart ha (gives.liveObjects ▸ hx)).imp_right
            (Nat.le_trans (Nat.add_le_add_left le a))
        · exact .inr (Nat.le_trans stop (Stocked.start_le_large wf hx))
      · exact .inr (Nat.le_trans stop (Nat.le_trans (Stocked.large_start_le wf)
          (Stocked.start_le_permanent wf hx))) }

/-- Pages that are handed out have room for an object. -/
theorem of_pages {pool : PagePool} {pages : Nat} (st : h.Stocked as) (wf : h.WellFormed)
    (taken : pool.Accounts (⟨a, pages⟩ :: h.large.runs)) (start : pool.start = h.large.pages.start)
    (limit : pool.limit = h.large.pages.limit) (le : size ≤ pages * bytesPerPage) :
    h.Room a size := by
  have within := taken.packed.within ⟨a, pages⟩ (by simp)
  have stop : a + size ≤ h.permanent.pages.start :=
    Nat.le_trans (Nat.add_le_add_left le a) (Nat.le_trans within.le_hi
      (Nat.le_trans taken.cursor_le (limit ▸ wf.large_below)))
  have above : h.large.pages.start ≤ a := start ▸ within.lo_le
  exact {
    low := Nat.le_trans st.low (Nat.le_trans (st.small_start_le wf) above)
    high := Nat.le_trans stop st.permanent_start_le
    aligned := Nat.dvd_trans (by decide) within.aligned
    apart := fun x hx => by
      rcases hx with hx | hx
      · rcases mem_counted.1 hx with hx | hx
        · exact .inl (Nat.le_trans (st.small_stop_le wf hx) above)
        · obtain ⟨c, hc, rfl⟩ := List.mem_map.1 hx
          have run : (⟨c.1, c.2.pages⟩ : PageRun) ∈ h.large.runs := by
            rw [st.large.runs_eq]
            exact List.mem_map_of_mem hc
          have disjoint := (List.pairwise_cons.1
            (taken.packed.sublist (List.sublist_append_right _ _)).disjoint).1 _ run
          obtain ⟨same, fits⟩ := st.large.cells c hc
          rcases disjoint with h₁ | h₁
          · refine .inr (Nat.le_trans (Nat.add_le_add_left le a) ?_)
            rw [same]
            exact h₁
          · exact .inl (Nat.le_trans fits h₁)
      · exact .inr (Nat.le_trans stop (Stocked.start_le_permanent wf hx)) }

/-- What is left of a block has room for an object. -/
theorem of_block {permanent : PermanentSpace} {b : BumpAllocator} {blocks : List BumpAllocator}
    (st : h.Stocked as) (wf : h.WellFormed)
    (start : permanent.pages.start = h.permanent.pages.start)
    (limit : permanent.pages.limit = h.permanent.pages.limit)
    (objects : permanent.objects = h.permanent.objects)
    (left : permanent.Stocked h.memory (b :: blocks)) (some : b.cursor ≠ 0)
    (le : b.cursor + size ≤ b.limit) : h.Room b.cursor size := by
  obtain ⟨aligned, inside, low⟩ := left.inside b List.mem_cons_self
  have above : h.permanent.pages.start ≤ b.cursor := start ▸ low some
  exact {
    low := Nat.le_trans st.low (Nat.le_trans (st.small_start_le wf)
      (Nat.le_trans (Stocked.large_start_le wf) above))
    high := Nat.le_trans le (Nat.le_trans inside
      (Nat.le_trans left.pool.cursor_le (limit ▸ st.high)))
    aligned
    apart := fun x hx => by
      rcases hx with hx | hx
      · rcases mem_counted.1 hx with hx | hx
        · exact .inl (Nat.le_trans (st.small_stop_le wf hx)
            (Nat.le_trans (Stocked.large_start_le wf) above))
        · exact .inl (Nat.le_trans (st.large_stop_le wf hx) above)
      · exact ((left.objects x (objects ▸ hx)).2 b List.mem_cons_self).imp_right
          (Nat.le_trans le) }

/-- A new object is laid out beside all others. -/
theorem format_eq (room : h.Room a ((2 + 2 * slots) * bytesPerWord)) (wf : h.WellFormed)
    (array : Bool) :
    ∃ memory, h.memory.format a slots array = .ok memory ∧
      h.Formatted a ((2 + 2 * slots) * bytesPerWord) (.blank slots array) memory := by
  have low := room.low
  have high := room.high
  have aligned := Nat.mod_eq_zero_of_dvd room.aligned
  have base : a = Memory.start + Ref.base ⟨a⟩ * bytesPerWord := by
    unfold Ref.base
    dsimp only [Address, Memory.start, bytesPerWord] at *
    omega
  obtain ⟨memory, run, placed, length, view, same⟩ := @Memory.format_eq h.memory ⟨a⟩ slots array
    low aligned (by
      dsimp only [Address, Memory.start, bytesPerWord, Memory.wordCount] at *
      omega)
  have absent : ⟨a⟩ ∉ h.known := fun hx => by
    have := room.apart ⟨a⟩ hx
    unfold Memory.stop at this
    dsimp only [Address, bytesPerWord] at this
    omega
  have apart : ∀ x ∈ h.known, x.base + 2 + 2 * h.memory.length x ≤ Ref.base ⟨a⟩ ∨
      Ref.base ⟨a⟩ + 2 + 2 * memory.length ⟨a⟩ ≤ x.base := fun x hx => by
    have addr := (wf.placed hx).addr_eq
    have beside := room.apart x hx
    unfold Memory.stop at beside
    rw [length]
    dsimp only [Address, Memory.start, bytesPerWord] at *
    omega
  obtain ⟨laid, other⟩ := wf.laid.insert placed apart same
  refine ⟨memory, run, absent, laid, view, ?_, other⟩
  rw [Memory.stop, length]

end Heap.Room

end DeferredCount
