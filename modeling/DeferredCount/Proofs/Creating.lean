import DeferredCount.Mutator.Allocation
import DeferredCount.Proofs.Holding
import DeferredCount.Proofs.Room

/-!
# Creating an object

An allocation finds words that belong to no object, lays the object out in them, tells its space,
and writes its header. That the free memory meets no object stays true, whether an allocation
succeeds or finds the memory exhausted.

Results:
1. `Found.of_cells`, `Found.of_pages`, `Found.of_block`: what an allocator finds becomes an object.
2. `Mutator.of_newObject`: what an allocation leaves.
-/

namespace DeferredCount

/-! ## Telling the spaces -/

/-- The heap `h` got a new object `o` with the view `v`, which is counted if `c` says so; `as` are
the allocators of all mutators after that. -/
structure Created (h : Heap) (o : Ref) (v : ObjectView) (c : Bool) (as : List Allocators)
    (h' : Heap) : Prop where
  absent : o ∉ h.known
  rest : h' = { h with
    memory := h'.memory, small := h'.small, large := h'.large, permanent := h'.permanent
    pools := h'.pools, log := h'.log }
  wellFormed : h'.WellFormed
  stocked : h'.Stocked as
  self : h'.view o = v
  other : ∀ x ∈ h.known, h'.view x = h.view x
  counted : h'.counted = if c then insert o h.counted else h.counted
  permanent : h'.permanent.objects =
    if c then h.permanent.objects else h.permanent.objects.push o

theorem Heap.known_insert {h h' : Heap} {o : Ref} {c : Bool}
    (counted : h'.counted = if c then insert o h.counted else h.counted)
    (permanent : h'.permanent.objects =
      if c then h.permanent.objects else h.permanent.objects.push o) :
    h'.known = insert o h.known := by
  ext x
  simp only [known, Set.mem_ofPred_eq, Set.mem_insert_iff, counted, permanent]
  cases c
  · simp only [Bool.false_eq_true, if_false, Array.mem_push]
    tauto
  · simp only [if_true, Finset.mem_insert]
    tauto

namespace Created

variable {h h' : Heap} {o : Ref} {v : ObjectView} {c : Bool} {as : List Allocators}

theorem known_eq (d : Created h o v c as h') : h'.known = insert o h.known :=
  Heap.known_insert d.counted d.permanent

theorem settings_eq (d : Created h o v c as h') : h'.settings = h.settings := by rw [d.rest]

end Created

namespace Heap

variable {h : Heap} {as as' : List Allocators} {a size : Nat} {v : ObjectView} {memory : Memory}
  {log : List Event}

/-- A cell becomes the cell of a new small object. -/
theorem Stocked.created_small {small : SmallSpace} {c : SizeClass} (st : h.Stocked as)
    (wf : h.WellFormed) (gives : h.small.Gives small)
    (left : small.Stocked h.memory fun d => (if d = c then [a] else []) ++
      (small.free.get d ++ as'.flatMap (·.cells.cells.get d)))
    (permanent : h.permanent.Stocked h.memory (as'.map (·.bump)))
    (f : h.Formatted a size v memory) (le : size ≤ c.cellSize) : Created h ⟨a⟩ v true as'
      { h with memory, small := { small with live := small.live.insert a }, log } := by
  have live : ∀ x : Ref, x ∈ ({ small with live := small.live.insert a } : SmallSpace).liveObjects ↔
      x = ⟨a⟩ ∨ x ∈ h.small.liveObjects := fun x => by
    rw [← gives.liveObjects]
    exact SmallSpace.mem_liveObjects_insert (o := ⟨a⟩) rfl
  have counted : ({ h with
      memory, small := { small with live := small.live.insert a }, log } : Heap).counted =
      insert ⟨a⟩ h.counted := by
    ext x
    rw [Finset.mem_insert, mem_counted, mem_counted, live, or_assoc]
  have inside : small.pages.contains a = true := left.contains_cell (left.cells c a (by simp)).1
  have settled : ({ small with live := small.live.insert a } : SmallSpace).Stocked memory
      fun d => small.free.get d ++ as'.flatMap (·.cells.cells.get d) :=
    left.settle (o := ⟨a⟩) (fun d => .refl _)
      (fun x hx => (f.other x (.inl (mem_counted.2 (.inl (gives.liveObjects ▸ hx))))).2)
      (f.stop ▸ Nat.add_le_add_left le a)
  exact {
    absent := f.absent
    rest := rfl
    wellFormed := {
      small_below := by
        show small.pages.limit ≤ _
        rw [gives.limit]
        exact wf.small_below
      large_below := wf.large_below
      small_holds := fun x hx => by
        rcases (live x).1 hx with rfl | hx
        · exact inside
        · exact (PagePool.contains_congr gives.start gives.limit _).trans (wf.small_holds x hx)
      small_class := fun x hx => by
        obtain ⟨d, cell, -⟩ := settled.live x hx
        exact ⟨d, cell.classOf⟩
      cells := wf.cells
      cell_eq := wf.cell_eq
      large_holds := wf.large_holds
      pages := wf.pages
      permanent_holds := wf.permanent_holds
      laid := by
        rw [known_insert (c := true) counted rfl]
        exact f.laid }
    stocked := {
      low := by
        show _ ≤ small.pages.start
        rw [gives.start]
        exact st.low
      high := st.high
      small := settled
      large := st.large.withMemory fun x hx => (f.other x (.inl (mem_counted.2 (.inr hx)))).2
      permanent := permanent.withMemory fun x hx => (f.other x (.inr hx)).2 }
    self := f.view
    other := fun x hx => (f.other x hx).1
    counted
    permanent := rfl }

/-- Pages that were handed out become the cell of a new large object. -/
theorem Stocked.created_large {pool : PagePool} {pages : Nat} (log : List Event) (st : h.Stocked as)
    (wf : h.WellFormed) (taken : pool.Accounts (⟨a, pages⟩ :: h.large.runs))
    (start : pool.start = h.large.pages.start) (limit : pool.limit = h.large.pages.limit)
    (small : h.small.Stocked h.memory fun d =>
      h.small.free.get d ++ as'.flatMap (·.cells.cells.get d))
    (permanent : h.permanent.Stocked h.memory (as'.map (·.bump)))
    (f : h.Formatted a size v memory) (le : size ≤ pages * bytesPerPage) :
    ∃ cells : CellList LargeCell, h.large.cells.add a ⟨⟨a⟩, pages⟩ = .ok cells ∧
      Created h ⟨a⟩ v true as' { h with
        memory, large := { pages := pool, pending := ∅, cells }, log } := by
  have within := taken.packed.within ⟨a, pages⟩ (by simp)
  obtain ⟨cells, added, represents, listed⟩ := st.large.add_eq wf.cells taken
  have objects : ({ pages := pool, pending := ∅, cells } : LargeSpace).objects =
      ⟨a⟩ :: h.large.objects := by
    rw [LargeSpace.objects, listed]
    rfl
  have runs : ({ pages := pool, pending := ∅, cells } : LargeSpace).runs =
      ⟨a, pages⟩ :: h.large.runs := by
    rw [LargeSpace.runs, listed, st.large.runs_eq]
    simp
  have counted : ({ h with
      memory, large := { pages := pool, pending := ∅, cells }, log } : Heap).counted =
      insert ⟨a⟩ h.counted := by
    ext x
    rw [Finset.mem_insert, mem_counted, mem_counted, objects, List.mem_cons]
    tauto
  refine ⟨cells, added, {
    absent := f.absent
    rest := rfl
    wellFormed := {
      small_below := by
        show _ ≤ pool.start
        rw [start]
        exact wf.small_below
      large_below := by
        show pool.limit ≤ _
        rw [limit]
        exact wf.large_below
      small_holds := wf.small_holds
      small_class := wf.small_class
      cells := represents
      cell_eq := fun c hc => by
        rw [listed] at hc
        rcases List.mem_cons.1 hc with rfl | hc
        · exact (pageStart_eq within.aligned (Nat.le_refl _)
            (Nat.lt_add_of_pos_right (by decide))).symm
        · exact wf.cell_eq c hc
      large_holds := fun x hx => by
        rw [objects] at hx
        rcases List.mem_cons.1 hx with rfl | hx
        · exact taken.contains_start
        · exact (PagePool.contains_congr start limit _).trans (wf.large_holds x hx)
      pages := by
        rw [runs]
        exact taken
      permanent_holds := wf.permanent_holds
      laid := by
        rw [known_insert (c := true) counted rfl]
        exact f.laid }
    stocked := {
      low := st.low
      high := st.high
      small := small.withMemory fun x hx => (f.other x (.inl (mem_counted.2 (.inl hx)))).2
      large := st.large.link rfl listed (f.stop ▸ Nat.add_le_add_left le a) fun x hx =>
        (f.other x (.inl (mem_counted.2 (.inr hx)))).2
      permanent := permanent.withMemory fun x hx => (f.other x (.inr hx)).2 }
    self := f.view
    other := fun x hx => (f.other x hx).1
    counted
    permanent := rfl }⟩

/-- What was cut off a block becomes a new permanent object. -/
theorem Stocked.created_permanent {permanent : PermanentSpace} {b : BumpAllocator}
    {blocks : List BumpAllocator} (st : h.Stocked as) (wf : h.WellFormed)
    (start : permanent.pages.start = h.permanent.pages.start)
    (limit : permanent.pages.limit = h.permanent.pages.limit)
    (objects : permanent.objects = h.permanent.objects)
    (left : permanent.Stocked h.memory (b :: blocks)) (some : b.cursor ≠ 0)
    (words : bytesPerWord ∣ size) (pos : 0 < size) (le : b.cursor + size ≤ b.limit)
    (blocks_eq : as'.map (·.bump) = { b with cursor := b.cursor + size } :: blocks)
    (small : h.small.Stocked h.memory fun d =>
      h.small.free.get d ++ as'.flatMap (·.cells.cells.get d))
    (f : h.Formatted b.cursor size v memory) : Created h ⟨b.cursor⟩ v false as' { h with
      memory, permanent := permanent.register ⟨b.cursor⟩, log } := by
  have pushed : (permanent.register ⟨b.cursor⟩).objects =
      if false then h.permanent.objects else h.permanent.objects.push ⟨b.cursor⟩ := by
    rw [PermanentSpace.register, objects, if_neg Bool.false_ne_true]
  have counted : ({ h with
      memory, permanent := permanent.register ⟨b.cursor⟩, log } : Heap).counted =
      if false then insert ⟨b.cursor⟩ h.counted else h.counted := (if_neg Bool.false_ne_true).symm
  exact {
    absent := f.absent
    rest := rfl
    wellFormed := { wf with
      large_below := by
        show _ ≤ permanent.pages.start
        rw [start]
        exact wf.large_below
      permanent_holds := fun x hx => by
        rw [pushed, if_neg Bool.false_ne_true, Array.mem_push] at hx
        rcases hx with hx | rfl
        · exact (PagePool.contains_congr start limit _).trans (wf.permanent_holds x hx)
        · exact left.contains_cursor some pos le
      laid := by
        rw [known_insert counted pushed]
        exact f.laid }
    stocked := {
      low := st.low
      high := by
        show permanent.pages.limit ≤ _
        rw [limit]
        exact st.high
      small := small.withMemory fun x hx => (f.other x (.inl (mem_counted.2 (.inl hx)))).2
      large := st.large.withMemory fun x hx => (f.other x (.inl (mem_counted.2 (.inr hx)))).2
      permanent := by
        rw [blocks_eq]
        exact left.registered words some le f.stop fun x hx =>
          (f.other x (.inr (objects ▸ hx))).2 }
    self := f.view
    other := fun x hx => (f.other x hx).1
    counted
    permanent := pushed }

end Heap

/-! ## Enrolling an object -/

namespace HeapM

/-- Tells the space of a new object. Is the object counted? -/
def enroll (o : Ref) (s : Semantics) : HeapM Bool := do
  let h ← get
  if h.isPermanent o then
    registerPermanent o
    return false
  if h.large.holds o then registerLarge o
  else if h.small.holds o then setLive o
  else throw (.noSpace o s)
  return true

variable {h : Heap} {o : Ref} (s : Semantics)

theorem enroll_permanent (permanent : h.permanent.pages.contains o.addr = true) :
    enroll o s h = .ok false { h with permanent := h.permanent.register o } := by
  rw [enroll, get_bind_apply]
  simp only [Heap.isPermanent, PermanentSpace.holds, permanent, if_true]
  rfl

theorem enroll_large {pages : Nat} {claimed large : LargeSpace}
    (permanent : h.permanent.pages.contains o.addr = false)
    (held : h.large.pages.contains o.addr = true) (claim : h.large.claim o = .ok (pages, claimed))
    (link : claimed.link o pages = .ok large) :
    enroll o s h = .ok true { h with large, log := .largeAdded o (cellOf o) pages :: h.log } := by
  rw [enroll, get_bind_apply]
  simp only [Heap.isPermanent, PermanentSpace.holds, permanent, LargeSpace.holds, held,
    Bool.false_eq_true, if_false, if_true, registerLarge, get_bind_apply, claim, link, liftM_eq,
    lift_ok, pure_bind_apply, emit_bind_apply, bind_assoc_apply]
  rfl

theorem enroll_small (permanent : h.permanent.pages.contains o.addr = false)
    (large : h.large.pages.contains o.addr = false)
    (held : h.small.pages.contains o.addr = true) (dead : h.small.isLive o = false) :
    enroll o s h =
      .ok true { h with small := { h.small with live := h.small.live.insert o.addr } } := by
  rw [enroll, get_bind_apply]
  simp only [Heap.isPermanent, PermanentSpace.holds, permanent, LargeSpace.holds, large,
    SmallSpace.holds, held, Bool.false_eq_true, if_false, if_true, setLive, get_bind_apply,
    SmallSpace.setLive, dead, bind_assoc_apply]
  rfl

end HeapM

namespace Mutator

/-- Writes the header of a new object, and logs what the next increment has to know of it. -/
def introduce (m : Mutator) (o : Ref) (counted : Bool) : HeapM Mutator := do
  if counted then
    let m ← match m.flavor with
      | .base => do
        initHeader o 1 false true
        pure m
      | .generational => do
        initHeader o 1 true false
        m.pushObject o
    m.pushDecrements [o]
  else
    initHeader o 1 true false
    m.pushObject o

theorem register_eq (m : Mutator) (o : Ref) (s : Semantics) :
    m.register o s = (HeapM.enroll o s >>= fun counted => m.introduce o counted) := by
  funext h
  rw [register, HeapM.enroll, HeapM.get_bind_apply, HeapM.bind_assoc_apply, HeapM.get_bind_apply]
  by_cases permanent : h.isPermanent o = true
  · rw [if_pos permanent, if_pos permanent]
    rfl
  · rw [if_neg permanent, if_neg permanent]
    by_cases large : h.large.holds o = true
    · rw [if_pos large, if_pos large, HeapM.bind_assoc_apply]
      rfl
    · rw [if_neg large, if_neg large]
      by_cases small : h.small.holds o = true
      · rw [if_pos small, if_pos small, HeapM.bind_assoc_apply]
        rfl
      · rw [if_neg small, if_neg small]
        rfl

end Mutator

/-- An allocator found memory for an object of `size` bytes at `a`, where `as` are the allocators of
all mutators after that. However the object is laid out there, its space takes it. -/
structure Found (h : Heap) (a : Address) (size : Nat) (as : List Allocators) (h' : Heap) :
    Prop where
  room : h.Room a size
  memory : h'.memory = h.memory
  enroll : ∀ {memory v}, h.Formatted a size v memory → ∀ s, ∃ c k,
    HeapM.enroll ⟨a⟩ s { h' with memory } = .ok c k ∧ Created h ⟨a⟩ v c as k ∧ k.pools = h.pools

namespace Found

variable {h h' : Heap} {as others : List Allocators} {x y : Allocators} {a size : Nat}

theorem of_cells (st : h.Stocked (x :: others)) (wf : h.WellFormed) {cells : CellAllocator}
    (some : a ≠ 0) (e : x.cells.allocate size bytesPerWord 0 h = .ok (a, cells) h') :
    Found h a size ({ x with cells } :: others) h' := by
  obtain ⟨small, log, rfl, gives, -, place⟩ := CellAllocator.of_allocate st.small e
  obtain ⟨c, le, left⟩ := place some
  have inside : small.pages.contains a = true := left.contains_cell (left.cells c a (by simp)).1
  have beforeLarge : a < h.large.pages.start :=
    Nat.lt_of_lt_of_le (PagePool.contains_iff.1 inside).2 (gives.limit ▸ wf.small_below)
  have beforePermanent : a < h.permanent.pages.start :=
    Nat.lt_of_lt_of_le beforeLarge (Heap.Stocked.large_start_le wf)
  refine ⟨.of_cell st wf gives left (c := c) (by simp) le, rfl,
    fun {memory v} f s => ⟨true,
      { h with memory, small := { small with live := small.live.insert a }, log }, ?_,
      st.created_small wf gives left st.permanent f le, rfl⟩⟩
  refine HeapM.enroll_small (o := ⟨a⟩) s ?_ ?_ inside ?_
  · exact PagePool.not_contains_of_lt beforePermanent
  · exact PagePool.not_contains_of_lt beforeLarge
  · exact Bool.eq_false_iff.2 fun live =>
      (left.cells c a (by simp)).2 (Heap.mem_liveObjects.2 live)

theorem of_pages (st : h.Stocked (x :: others)) (wf : h.WellFormed) (some : a ≠ 0)
    (e : allocatePages size bytesPerWord 0 h = .ok a h') : Found h a size (x :: others) h' := by
  rcases of_allocatePages wf.pages e with ⟨zero, -⟩ |
    ⟨pages, pool, log, le, taken, start, limit, rfl⟩
  · exact absurd zero some
  have inside : h.large.pages.contains a = true :=
    (PagePool.contains_congr start limit a).symm.trans taken.contains_start
  have beforePermanent : a < h.permanent.pages.start :=
    Nat.lt_of_lt_of_le (PagePool.contains_iff.1 inside).2 wf.large_below
  have cell : cellOf ⟨a⟩ = a :=
    pageStart_eq (taken.packed.within ⟨a, pages⟩ (by simp)).aligned (Nat.le_refl _)
      (Nat.lt_add_of_pos_right (by decide))
  refine ⟨.of_pages st wf taken start limit le, rfl, fun {memory v} f s => ?_⟩
  obtain ⟨cells, added, created⟩ := st.created_large (.largeAdded ⟨a⟩ a pages :: log) wf taken
    start limit st.small st.permanent f le
  refine ⟨true, _, ?_, created, rfl⟩
  have claim : (({ h.large with pages := pool }.addPending a pages : LargeSpace)).claim ⟨a⟩ =
      .ok (pages, { pages := pool, pending := ∅, cells := h.large.cells }) := by
    have waiting : (h.large.pending.insert a pages).get? a = Option.some pages := by simp
    have erased : (h.large.pending.insert a pages).erase a = ∅ := by
      rw [st.large.pending]
      refine Std.ExtTreeMap.ext_getElem? fun b => ?_
      rw [Std.ExtTreeMap.getElem?_erase, Std.ExtTreeMap.getElem?_insert]
      split <;> simp
    simp only [LargeSpace.claim, LargeSpace.addPending, cell, waiting, erased]
  have link : ({ pages := pool, pending := ∅, cells := h.large.cells } : LargeSpace).link ⟨a⟩
      pages = .ok { pages := pool, pending := ∅, cells } := by
    rw [LargeSpace.link, cell, added]
    rfl
  refine (HeapM.enroll_large (o := ⟨a⟩) s ?_ ?_ claim link).trans ?_
  · exact PagePool.not_contains_of_lt beforePermanent
  · exact taken.contains_start
  · rw [cell]

theorem of_block (st : h.Stocked (x :: others)) (wf : h.WellFormed) {refills : Nat}
    {bump : BumpAllocator} (some : a ≠ 0) (words : bytesPerWord ∣ size) (pos : 0 < size)
    (e : BumpAllocator.allocate refills x.bump size bytesPerWord 0 h = .ok (a, bump) h') :
    Found h a size ({ x with bump } :: others) h' := by
  obtain ⟨permanent, log, rfl, leaves⟩ := BumpAllocator.of_allocate words st.permanent e
  obtain ⟨b, rfl, le, rfl, left⟩ := leaves.place some
  exact ⟨.of_block st wf leaves.start leaves.limit leaves.objects left some le, rfl,
    fun {memory v} f s => ⟨false,
      { h with memory, permanent := permanent.register ⟨b.cursor⟩, log },
      HeapM.enroll_permanent (o := ⟨b.cursor⟩) s (left.contains_cursor some pos le),
      st.created_permanent wf leaves.start leaves.limit leaves.objects left some words pos le
        rfl st.small f, rfl⟩⟩

end Found

/-! ## The header and the entries of a new object -/

/-- The header of a new object. The object is fresh, unless it counts as written. -/
def Header.ofNew (logged : Bool) : Header where
  logged
  locked := false
  fresh := !logged
  marked := false
  low := 0
  count := 1
  high := 0

/-- Does a new object count as written? A permanent one always does. -/
def Flavor.logsNew : Flavor → (counted : Bool) → Bool
  | .base, counted => !counted
  | .generational, _ => true

theorem Flavor.counted_of_not_logsNew {f : Flavor} {counted : Bool}
    (unlogged : f.logsNew counted = false) : counted = true := by
  cases f with
  | base => simpa [logsNew] using unlogged
  | generational => cases unlogged

/-- The entries of a new object. -/
def Entries.ofNew (o : Ref) (counted logged : Bool) : Entries where
  objects := if logged then [o] else []
  decrements := if counted then [o] else []

/-- The view of a new object. -/
def ObjectView.ofNew (slots : Nat) (array logged : Bool) : ObjectView :=
  { ObjectView.blank slots array with header := .ofNew logged }

theorem Mutator.initHeader_eq {h : Heap} {o : Ref} (placed : h.memory.Placed o) (logged : Bool) :
    initHeader o 1 logged (!logged) h = .ok () (h.putHeader o (.ofNew logged)) := by
  have initial : Header.initial 1 logged (!logged) = .ok (.ofNew logged) := rfl
  rw [initHeader, initial, HeapM.liftM_eq, HeapM.lift_ok, HeapM.pure_bind_apply]
  exact HeapM.change_of_ok (placed.store_header _)

namespace Created

variable {h k : Heap} {o : Ref} {as : List Allocators} {c : Bool} {slots : Nat} {array : Bool}

/-- The header is written, and the pools may change. -/
theorem introduced (d : Created h o (.blank slots array) c as k) (logged : Bool) (pools : Pools) :
    Created h o (.ofNew slots array logged) c as
      { k.putHeader o (.ofNew logged) with pools := pools } := by
  have ho : o ∈ k.known := d.known_eq ▸ Set.mem_insert ..
  have set := HeaderSet.of_putHeader d.wellFormed ho (.ofNew logged)
  have length : ∀ x ∈ k.known,
      (k.putHeader o (.ofNew logged)).memory.length x = k.memory.length x := by
    have targets := set.forall_view (P := fun x w => w.targets = (k.view x).targets)
      (fun _ _ _ => rfl) rfl
    intro x hx
    rw [← Memory.length_targets, ← Memory.length_targets]
    exact congrArg List.length (targets x hx)
  have other : ∀ x ∈ h.known, (k.putHeader o (.ofNew logged)).view x = h.view x := fun x hx => by
    have ne : x ≠ o := fun eq => d.absent (eq ▸ hx)
    rw [set.other x (d.known_eq ▸ Set.mem_insert_of_mem _ hx) ne, d.other x hx]
  exact {
    absent := d.absent
    rest := by
      rw [d.rest]
      rfl
    wellFormed := d.wellFormed.congr rfl rfl rfl (d.wellFormed.laid.putHeader ho (.ofNew logged))
    stocked := d.stocked.congr rfl rfl rfl length
    self := set.self.trans (by rw [d.self]; rfl)
    other
    counted := d.counted
    permanent := d.permanent }

end Created

namespace Mutator

variable {m m' : Mutator} {h h' : Heap} {o : Ref} {slots : Nat} {array : Bool} {s : Semantics}
  {r : Option Ref} {others : List Allocators}

/-- What a mutator writes and logs of a new object. -/
theorem introduce_eq (m : Mutator) (placed : h.memory.Placed o) (counted : Bool) :
    ∃ m' pools, m.introduce o counted h =
        .ok m' { h.putHeader o (.ofNew (m.flavor.logsNew counted)) with pools := pools } ∧
      m.Adds h (.ofNew o counted (m.flavor.logsNew counted)) m' { h with pools } := by
  cases counted with
  | false =>
    have logged : m.flavor.logsNew false = true := by cases m.flavor <;> rfl
    rw [logged]
    obtain ⟨m', q, run, adds⟩ := m.pushObject_eq o (h.putHeader o (.ofNew true))
    refine ⟨m', h.pools.set .objects q, ?_, adds.congr rfl rfl⟩
    exact (HeapM.bind_of_ok (initHeader_eq placed true)).trans run
  | true =>
    cases flavor : m.flavor with
    | base =>
      obtain ⟨m', q, run, adds⟩ := m.pushDecrements_eq [o] (h.putHeader o (.ofNew false))
      refine ⟨m', h.pools.set .decrements q, ?_, adds.congr rfl rfl⟩
      rw [introduce, if_pos rfl, flavor]
      exact (HeapM.bind_of_ok (initHeader_eq placed false)).trans run
    | generational =>
      obtain ⟨m₁, q₁, run₁, adds₁⟩ := m.pushObject_eq o (h.putHeader o (.ofNew true))
      obtain ⟨m', q, run, adds⟩ := m₁.pushDecrements_eq [o]
        ((h.putHeader o (.ofNew true)).putPool .objects q₁)
      refine ⟨m', (h.pools.set .objects q₁).set .decrements q, ?_,
        (adds₁.trans adds).congr rfl rfl⟩
      rw [introduce, if_pos rfl, flavor]
      exact (HeapM.bind_of_ok (initHeader_eq placed true)).trans
        ((HeapM.bind_of_ok run₁).trans run)

end Mutator

/-- Only free memory changed, and what the client was told of that. -/
structure Unsettled (h : Heap) (as : List Allocators) (h' : Heap) : Prop where
  rest : h' = { h with
    small := h'.small, permanent := h'.permanent
    client := { h.client with outOfMemory := h'.client.outOfMemory }, log := h'.log }
  wellFormed : h'.WellFormed
  stocked : h'.Stocked as
  counted : h'.counted = h.counted
  permanent : h'.permanent.objects = h.permanent.objects

theorem Unsettled.told {h h' : Heap} {as : List Allocators} (u : Unsettled h as h')
    (hook : Hook Bool) (log : List Event) :
    Unsettled h as { h' with client := { h'.client with outOfMemory := hook }, log } where
  rest := by rw [u.rest]
  wellFormed := u.wellFormed.congr rfl rfl rfl u.wellFormed.laid
  stocked := u.stocked.congr rfl rfl rfl fun _ _ => rfl
  counted := u.counted
  permanent := u.permanent

/-- Cells and blocks were handed out, but no object was put there. -/
theorem Unsettled.of_handed {h : Heap} {as as' : List Allocators} {small : SmallSpace}
    {permanent : PermanentSpace} {log : List Event} (wf : h.WellFormed) (st : h.Stocked as)
    (gives : h.small.Gives small)
    (cells : small.Stocked h.memory fun c => small.free.get c ++ as'.flatMap (·.cells.cells.get c))
    (start : permanent.pages.start = h.permanent.pages.start)
    (limit : permanent.pages.limit = h.permanent.pages.limit)
    (objects : permanent.objects = h.permanent.objects)
    (blocks : permanent.Stocked h.memory (as'.map (·.bump))) :
    Unsettled h as' { h with small, permanent, log } := by
  have counted : ({ h with small, permanent, log } : Heap).counted = h.counted := by
    rw [Heap.counted, Heap.counted, ← gives.liveObjects]
  have known : ({ h with small, permanent, log } : Heap).known = h.known := by
    rw [Heap.known, Heap.known, counted, ← objects]
  exact {
    rest := rfl
    wellFormed := { wf with
      small_below := by
        show small.pages.limit ≤ _
        rw [gives.limit]
        exact wf.small_below
      large_below := by
        show _ ≤ permanent.pages.start
        rw [start]
        exact wf.large_below
      small_holds := fun o ho => (PagePool.contains_congr gives.start gives.limit _).trans
        (wf.small_holds o (gives.liveObjects ▸ ho))
      small_class := fun o ho => by
        obtain ⟨c, cell, -⟩ := cells.live o ho
        exact ⟨c, cell.classOf⟩
      permanent_holds := fun o ho => (PagePool.contains_congr start limit _).trans
        (wf.permanent_holds o (objects ▸ ho))
      laid := known.symm ▸ wf.laid }
    stocked := {
      low := by
        show _ ≤ small.pages.start
        rw [gives.start]
        exact st.low
      high := by
        show permanent.pages.limit ≤ _
        rw [limit]
        exact st.high
      small := cells
      large := st.large
      permanent := blocks }
    counted
    permanent := objects }

namespace Mutator

variable {m m' : Mutator} {h h' : Heap} {a size slots : Nat} {array : Bool} {s : Semantics}
  {r : Option Ref} {others : List Allocators}

/-- What an allocator finds, or what it leaves when it finds nothing. -/
theorem of_allocators {k : AllocatorKind} {x as : Allocators} (st : h.Stocked (x :: others))
    (wf : h.WellFormed) (words : bytesPerWord ∣ size) (pos : 0 < size)
    (e : x.allocate k size bytesPerWord 0 h = .ok (a, as) h') :
    (a ≠ 0 → Found h a size (as :: others) h') ∧ (a = 0 → Unsettled h (as :: others) h') := by
  cases k with
  | bumpPointer =>
    rw [Allocators.allocate, HeapM.get_bind_apply] at e
    obtain ⟨⟨p, bump⟩, k, run, e⟩ := HeapM.bind_eq_ok.1 e
    cases e
    refine ⟨fun some => .of_block st wf some words pos run, fun _ => ?_⟩
    obtain ⟨permanent, log, rfl, leaves⟩ := BumpAllocator.of_allocate words st.permanent run
    exact .of_handed wf st (.refl _) st.small leaves.start leaves.limit leaves.objects
      leaves.stocked
  | largeObject =>
    obtain ⟨p, k, run, e⟩ := HeapM.bind_eq_ok.1 e
    cases e
    refine ⟨fun some => .of_pages st wf some run, fun zero => ?_⟩
    rcases of_allocatePages wf.pages run with ⟨-, log, rfl⟩ |
      ⟨pages, pool, log, -, taken, start, -, -⟩
    · exact .of_handed wf st (.refl _) st.small rfl rfl rfl st.permanent
    · -- the space does not start at zero
      have above : h.large.pages.start ≤ a :=
        start ▸ (taken.packed.within ⟨a, pages⟩ (by simp)).lo_le
      have low : Memory.start ≤ h.large.pages.start :=
        Nat.le_trans st.low (st.small_start_le wf)
      rw [zero] at above
      exact absurd (Nat.le_trans low above) (by decide)
  | freeList =>
    obtain ⟨⟨p, cells⟩, k, run, e⟩ := HeapM.bind_eq_ok.1 e
    cases e
    refine ⟨fun some => .of_cells st wf some run, fun _ => ?_⟩
    obtain ⟨small, log, rfl, gives, left, -⟩ := CellAllocator.of_allocate st.small run
    exact .of_handed wf st gives left rfl rfl rfl st.permanent
  | none => cases e

/-- A client that handles exhausted memory is only told of it. -/
theorem of_reportOutOfMemory (e : reportOutOfMemory h = .ok () h') :
    ∃ hook, h' = { h with client := { h.client with outOfMemory := hook } } := by
  rw [reportOutOfMemory, HeapM.get_bind_apply] at e
  obtain ⟨_, k, told, e⟩ := HeapM.bind_eq_ok.1 e
  cases told
  obtain ⟨-, rfl⟩ := HeapM.lift_eq_ok.1 e
  exact ⟨_, rfl⟩

/-- What a mutator finds, or what it leaves when it finds nothing. -/
theorem of_allocate (st : h.Stocked (m.allocators :: others)) (wf : h.WellFormed)
    (words : bytesPerWord ∣ size) (pos : 0 < size)
    (e : m.allocate size bytesPerWord 0 s h = .ok (a, m') h') :
    m' = { m with allocators := m'.allocators } ∧
      (a ≠ 0 → Found h a size (m'.allocators :: others) h') ∧
      (a = 0 → Unsettled h (m'.allocators :: others) h') := by
  obtain ⟨k, -, e⟩ := HeapM.lift_bind_eq_ok.1 e
  obtain ⟨⟨p, as⟩, h₁, run, e⟩ := HeapM.bind_eq_ok.1 e
  obtain ⟨found, unsettled⟩ := of_allocators st wf words pos run
  dsimp only at e
  split at e
  · next zero =>
    rw [HeapM.emit_bind_apply] at e
    obtain ⟨_, k, reported, e⟩ := HeapM.bind_eq_ok.1 e
    obtain ⟨hook, rfl⟩ := of_reportOutOfMemory reported
    cases e
    exact ⟨rfl, fun some => absurd zero some, fun _ => (unsettled zero).told hook _⟩
  · next some =>
    cases e
    exact ⟨rfl, found, fun zero => absurd zero some⟩

/-- What an allocation does with the address that it found. An object that is created there was told
to its space, and nothing but memory and pools changes after that. -/
theorem newObject_eq {m₁ : Mutator} {h₁ : Heap} (array : Bool)
    (st : h.Stocked (m.allocators :: others)) (wf : h.WellFormed)
    (sized : Memory.objectSize slots = .ok size)
    (allocated : m.allocate size bytesPerWord 0 s h = .ok (a, m₁) h₁) :
    ∃ r m' h', m.newObject slots array s h = .ok (r, m') h' ∧ m'.allocators = m₁.allocators ∧
      ((a = 0 ∧ r = none ∧ h' = h₁ ∧ m' = { m with allocators := m'.allocators } ∧
          Unsettled h (m'.allocators :: others) h') ∨
        ∃ counted, r = some ⟨a⟩ ∧
          Created h ⟨a⟩ (.ofNew slots array (m.flavor.logsNew counted)) counted
            (m'.allocators :: others) h' ∧
          ({ m with allocators := m'.allocators } : Mutator).Adds h
            (.ofNew ⟨a⟩ counted (m.flavor.logsNew counted)) m' h' ∧
          a ≠ 0 ∧ ∃ memory k, HeapM.enroll ⟨a⟩ s { h₁ with memory } = .ok counted k ∧
            h' = { k with memory := h'.memory, pools := h'.pools }) := by
  obtain rfl := Memory.objectSize_eq_ok sized
  obtain ⟨eq, found, unsettled⟩ := of_allocate st wf (Nat.dvd_mul_left ..)
    (Nat.mul_pos (by omega) (by decide)) allocated
  rw [newObject, sized, HeapM.liftM_eq, HeapM.lift_ok, HeapM.pure_bind_apply,
    HeapM.bind_of_ok allocated]
  by_cases zero : a = 0
  · refine ⟨none, m₁, h₁, ?_, rfl, .inl ⟨zero, rfl, rfl, eq, unsettled zero⟩⟩
    simp only [if_pos zero]
    rfl
  · obtain ⟨room, memory, enroll⟩ := found zero
    obtain ⟨laidOut, run, formatted⟩ := room.format_eq wf array
    rw [← memory] at run
    obtain ⟨counted, k, enrolled, created, same⟩ := enroll formatted s
    have placed := created.wellFormed.placed (created.known_eq ▸ Set.mem_insert ..)
    obtain ⟨m₂, pools, introduced, adds⟩ := m₁.introduce_eq placed counted
    have flavor : m₁.flavor = m.flavor := by rw [eq]
    rw [flavor] at introduced adds
    have registered : m₁.register ⟨a⟩ s { h₁ with memory := laidOut } = .ok m₂
        { k.putHeader ⟨a⟩ (.ofNew (m.flavor.logsNew counted)) with pools := pools } := by
      rw [register_eq, HeapM.bind_of_ok enrolled]
      exact introduced
    have kept : m₂.allocators = m₁.allocators := by rw [adds.same]
    refine ⟨some ⟨a⟩, m₂,
      { k.putHeader ⟨a⟩ (.ofNew (m.flavor.logsNew counted)) with pools := pools },
      ?_, kept, .inr ⟨counted, rfl, ?_, ?_, zero, laidOut, k, enrolled, rfl⟩⟩
    · simp only [if_neg zero]
      rw [HeapM.bind_of_ok (HeapM.change_of_ok run), HeapM.bind_of_ok registered]
      rfl
    · rw [kept]
      exact created.introduced _ pools
    · rw [kept, ← eq]
      exact adds.congr same rfl

/-- An allocation that ends without a fault had a size that fits a word, and was given an
address. -/
theorem newObject_eq_ok (e : m.newObject slots array s h = .ok (r, m') h') :
    ∃ size a m₁ h₁, Memory.objectSize slots = .ok size ∧
      m.allocate size bytesPerWord 0 s h = .ok (a, m₁) h₁ := by
  obtain ⟨size, sized, e⟩ := HeapM.lift_bind_eq_ok.1 e
  obtain ⟨⟨a, m₁⟩, h₁, allocated, -⟩ := HeapM.bind_eq_ok.1 e
  exact ⟨size, a, m₁, h₁, sized, allocated⟩

/-- An allocation creates an object, unless the memory is exhausted. -/
theorem of_newObject (st : h.Stocked (m.allocators :: others)) (wf : h.WellFormed)
    (e : m.newObject slots array s h = .ok (r, m') h') :
    (r = none ∧ m' = { m with allocators := m'.allocators } ∧
      Unsettled h (m'.allocators :: others) h') ∨
    ∃ o counted, r = some o ∧
      Created h o (.ofNew slots array (m.flavor.logsNew counted)) counted
        (m'.allocators :: others) h' ∧
      ({ m with allocators := m'.allocators } : Mutator).Adds h
        (.ofNew o counted (m.flavor.logsNew counted)) m' h' := by
  obtain ⟨size, a, m₁, h₁, sized, allocated⟩ := newObject_eq_ok e
  obtain ⟨_, _, _, run, -, ends⟩ := newObject_eq array st wf sized allocated
  cases run.symm.trans e
  rcases ends with ⟨-, none, -, same, u⟩ | ⟨counted, some, created, adds, -⟩
  · exact .inl ⟨none, same, u⟩
  · exact .inr ⟨⟨a⟩, counted, some, created, adds⟩

end Mutator

end DeferredCount
