import DeferredCount.Proofs.Slack

/-!
# Who holds which memory

A request that is granted takes a cell or pages, and gets a place in them for its object. The object
does not have to start where its memory starts. As long as it is not freed, the memory is taken by
this grant alone. Its space does not know of grants: it finds the memory of an object from the
address of the object, and that is always the memory that the grant took.

Results:
1. `SmallSpace.Backs.finds`, `LargeSpace.Backs.run_eq`: the memory of an object is found.
2. `SmallSpace.Backs.take`, `SmallSpace.Backs.register`, `SmallSpace.Backs.free`: what becomes of
   cells.
3. `LargeSpace.Backs.allocate`, `LargeSpace.Backs.register`, `LargeSpace.Backs.free`: what becomes
   of pages.
-/

namespace DeferredCount

/-! ## Grants -/

/-- A request that was granted: the place of its object, and the memory that it took. -/
structure Grant where
  place : Address
  ground : Ground
  deriving DecidableEq

namespace Grant

variable {g x : Grant} {gs : List Grant} {c d : SizeClass} {a b : Address} {keep : Grant → Bool}
  {h h' : Heap}

/-- The object of a grant. -/
def object (g : Grant) : Ref := ⟨g.place⟩

/-- The cell of a class that the grant took. -/
def cell? (c : SizeClass) (g : Grant) : Option Address :=
  match g.ground with
  | .cell d a => if d = c then some a else none
  | _ => none

/-- The cells of a class that grants took. -/
def cellsOf (c : SizeClass) (gs : List Grant) : List Address := gs.filterMap (cell? c)

/-- Is the object registered, and not freed? Permanent objects are not kept track of, because they
are never freed. -/
def isRegistered (g : Grant) (h : Heap) : Bool :=
  match g.ground with
  | .cell .. => h.small.isLive g.object
  | .pages _ => h.large.contains g.object
  | .slice => false

/-- The object is not freed between the two heaps. -/
def outlives (h h' : Heap) (g : Grant) : Bool := !g.isRegistered h || g.isRegistered h'

theorem cell?_eq_some_iff : g.cell? c = some a ↔ g.ground = .cell c a := by
  unfold cell?
  cases g.ground with
  | cell d b =>
    by_cases same : d = c
    · simp [same]
    · simp [same]
  | pages run => simp
  | slice => simp

theorem mem_cellsOf : a ∈ cellsOf c gs ↔ ∃ g ∈ gs, g.ground = .cell c a := by
  simp only [cellsOf, List.mem_filterMap, cell?_eq_some_iff]

theorem cellsOf_cons : cellsOf c (g :: gs) = (g.cell? c).toList ++ cellsOf c gs := by
  rw [cellsOf, List.filterMap_cons]
  cases g.cell? c with
  | none => rfl
  | some a => rfl

/-- Grants that took no cell do not matter. -/
theorem cellsOf_filter (all : ∀ g ∈ gs, ∀ c a, g.ground = .cell c a → keep g = true) :
    cellsOf c (gs.filter keep) = cellsOf c gs := by
  rw [cellsOf, List.filterMap_filter]
  refine List.filterMap_congr fun g hg => ?_
  cases taken : g.cell? c with
  | none => exact ite_self none
  | some a => exact if_pos (all g hg c a (cell?_eq_some_iff.1 taken))

/-- If no cell is listed twice, a cell was taken by one grant. -/
theorem eq_of_cell (nodup : (cellsOf c gs).Nodup) (hg : g ∈ gs) (hx : x ∈ gs)
    (mine : g.ground = .cell c a) (same : x.ground = .cell c a) : x = g := by
  by_contra ne
  have apart := List.pairwise_filterMap.1 nodup
  have : Std.Symm fun g x : Grant => ∀ b, g.cell? c = some b → ∀ b', x.cell? c = some b' → b ≠ b' :=
    ⟨fun _ _ h b hb b' hb' eq => h b' hb' b hb eq.symm⟩
  exact apart.forall hx hg ne a (cell?_eq_some_iff.2 same) a (cell?_eq_some_iff.2 mine) rfl

/-- The cells that are taken, and the one among them that is given up. -/
theorem cellsOf_perm (nodup : ∀ d, (cellsOf d gs).Nodup) (hg : g ∈ gs)
    (mine : g.ground = .cell c a)
    (keeps : ∀ x ∈ gs, ∀ d b, x.ground = .cell d b → (keep x = true ↔ x ≠ g)) (d : SizeClass) :
    (cellsOf d gs).Perm ((if d = c then [a] else []) ++ cellsOf d (gs.filter keep)) := by
  have rest : ∀ b, b ∈ cellsOf d (gs.filter keep) ↔
      ∃ x ∈ gs, x.ground = .cell d b ∧ x ≠ g := fun b => by
    rw [mem_cellsOf]
    constructor
    · rintro ⟨x, hx, same⟩
      obtain ⟨hx, kept⟩ := List.mem_filter.1 hx
      exact ⟨x, hx, same, (keeps x hx d b same).1 kept⟩
    · rintro ⟨x, hx, same, ne⟩
      exact ⟨x, List.mem_filter.2 ⟨hx, (keeps x hx d b same).2 ne⟩, same⟩
  refine (List.perm_ext_iff_of_nodup (nodup d) (List.nodup_append.2 ⟨?_, ?_, ?_⟩)).2 fun b => ?_
  · split
    · exact List.nodup_singleton a
    · exact List.nodup_nil
  · exact (nodup d).sublist (List.filter_sublist.filterMap _)
  · rintro b hb b' hb' rfl
    split at hb
    · next eq =>
      obtain rfl := List.mem_singleton.1 hb
      obtain ⟨x, hx, same, ne⟩ := (rest b).1 hb'
      exact ne (eq_of_cell (nodup d) hg hx (eq ▸ mine) same)
    · cases hb
  · rw [mem_cellsOf, List.mem_append, rest]
    constructor
    · rintro ⟨x, hx, same⟩
      by_cases eq : x = g
      · subst eq
        cases mine.symm.trans same
        exact .inl (by simp)
      · exact .inr ⟨x, hx, same, eq⟩
    · rintro (hb | ⟨x, hx, same, -⟩)
      · split at hb
        · next eq =>
          obtain rfl := List.mem_singleton.1 hb
          exact ⟨g, hg, eq ▸ mine⟩
        · cases hb
      · exact ⟨x, hx, same⟩

theorem isRegistered_cell (mine : g.ground = .cell c a) :
    g.isRegistered h = h.small.isLive g.object := by
  rw [isRegistered, mine]

theorem isRegistered_pages {run : PageRun} (mine : g.ground = .pages run) :
    g.isRegistered h = h.large.contains g.object := by
  rw [isRegistered, mine]

theorem outlives_iff :
    g.outlives h h' = true ↔ (g.isRegistered h = true → g.isRegistered h' = true) := by
  unfold outlives
  cases g.isRegistered h with
  | false => simp
  | true => simp

/-- Whether an object is freed depends on what its space knows of it. -/
theorem outlives_of_eq (small : h'.small.live = h.small.live)
    (large : h'.large.cells = h.large.cells) : g.outlives h h' = true := by
  refine outlives_iff.2 fun registered => ?_
  unfold isRegistered at *
  split at registered
  · rw [SmallSpace.isLive, small]
    exact registered
  · rw [LargeSpace.contains, large]
    exact registered
  · exact registered

end Grant

/-! ## Cells -/

namespace SmallSpace

variable {s s' : SmallSpace} {c d : SizeClass} {a cell : Address} {o : Ref} {g x : Grant}
  {others others' : SizeClass → List Address} {gs : List Grant} {keep : Grant → Bool}

/-- The grants `gs` took cells of the space, and the cells `others` are kept elsewhere. -/
structure Backs (s : SmallSpace) (others : SizeClass → List Address) (gs : List Grant) : Prop where
  cut : s.Cut fun c => s.free.get c ++ (others c ++ Grant.cellsOf c gs)
  inside : ∀ g ∈ gs, ∀ c a, g.ground = .cell c a → a ≤ g.place ∧ g.place < a + c.cellSize
  live : ∀ o ∈ s.liveObjects, ∃ g ∈ gs, g.object = o ∧ ∃ c a, g.ground = .cell c a

namespace Backs

theorem nodup (b : s.Backs others gs) (c : SizeClass) : (Grant.cellsOf c gs).Nodup :=
  (List.nodup_append.1 (List.nodup_append.1 (b.cut.nodup c)).2.1).2.1

theorem isCell (b : s.Backs others gs) (hg : g ∈ gs) (mine : g.ground = .cell c a) :
    s.IsCell c a :=
  (b.cut.mem c a).1 (List.mem_append_right _ (List.mem_append_right _
    (Grant.mem_cellsOf.2 ⟨g, hg, mine⟩)))

/-- The space finds the cell of a grant from the place of its object. -/
theorem finds (b : s.Backs others gs) (hg : g ∈ gs) (mine : g.ground = .cell c a) :
    s.classOf? g.place = some c ∧ cellStart c g.place = a := by
  have isCell := b.isCell hg mine
  obtain ⟨le, lt⟩ := b.inside g hg c a mine
  exact ⟨isCell.classOf?_eq le lt, cellStart_eq isCell.aligned le lt⟩

theorem holds (b : s.Backs others gs) (hg : g ∈ gs) (mine : g.ground = .cell c a) :
    s.holds g.object = true := by
  obtain ⟨low, high⟩ := b.cut.inside (b.isCell hg mine)
  obtain ⟨le, lt⟩ := b.inside g hg c a mine
  exact PagePool.contains_iff.2 ⟨Nat.le_trans low le,
    Nat.lt_of_lt_of_le lt (Nat.le_trans high b.cut.pool.cursor_le)⟩

/-- Objects of the same address have the same cell, so they are one. -/
theorem eq_of_object (b : s.Backs others gs) (hg : g ∈ gs) (hx : x ∈ gs)
    (mine : g.ground = .cell c a) (its : x.ground = .cell d cell) (same : x.object = g.object) :
    x = g := by
  have place : x.place = g.place := congrArg Ref.addr same
  obtain ⟨found, start⟩ := b.finds hg mine
  obtain ⟨found', start'⟩ := b.finds hx its
  rw [place] at found' start'
  obtain rfl : c = d := Option.some.inj (found.symm.trans found')
  obtain rfl : cell = a := start'.symm.trans start
  exact Grant.eq_of_cell (b.nodup c) hg hx mine its

/-- A grant that took no cell does not matter. -/
theorem cons_other (b : s.Backs others gs) (other : ∀ c a, g.ground ≠ .cell c a) :
    s.Backs others (g :: gs) where
  cut := b.cut.perm fun c => .of_eq <| by
    have none : g.cell? c = none := Option.eq_none_iff_forall_ne_some.2 fun a mine =>
      other c a (Grant.cell?_eq_some_iff.1 mine)
    rw [Grant.cellsOf_cons, none]
    rfl
  inside := List.forall_mem_cons.2 ⟨fun c a mine => absurd mine (other c a), b.inside⟩
  live o ho := by
    obtain ⟨x, hx, rest⟩ := b.live o ho
    exact ⟨x, List.mem_cons_of_mem _ hx, rest⟩

theorem filter_other (b : s.Backs others gs)
    (all : ∀ g ∈ gs, ∀ c a, g.ground = .cell c a → keep g = true) :
    s.Backs others (gs.filter keep) where
  cut := b.cut.perm fun c => .of_eq (by rw [Grant.cellsOf_filter all])
  inside g hg := b.inside g (List.mem_filter.1 hg).1
  live o ho := by
    obtain ⟨x, hx, same, c, a, its⟩ := b.live o ho
    exact ⟨x, List.mem_filter.2 ⟨hx, all x hx c a its⟩, same, c, a, its⟩

/-- Cells go from one place to another. -/
theorem move (b : s.Backs others gs) (pages : s'.pages = s.pages) (classes : s'.classes = s.classes)
    (live : s'.live = s.live)
    (moved : ∀ c, (s'.free.get c ++ others' c).Perm (s.free.get c ++ others c)) :
    s'.Backs others' gs where
  cut := (b.cut.perm fun c => by
    rw [← List.append_assoc, ← List.append_assoc]
    exact ((moved c).append_right _).symm).congr pages classes
  inside := b.inside
  live := by
    rw [liveObjects, live]
    exact b.live

/-- An allocator takes a cell. What is left of a batch stays with the allocator. -/
theorem take {h h' : Heap} {a a' : CellAllocator} {start : Address}
    (b : h.small.Backs (fun d => a.cells.get d ++ others d) gs)
    (e : a.take c h = .ok (some start, a') h') (inside : start ≤ g.place)
    (lt : g.place < start + c.cellSize) (mine : g.ground = .cell c start) :
    ∃ small log, h' = { h with small, log } ∧ small.live = h.small.live ∧
      small.Backs (fun d => a'.cells.get d ++ others d) (g :: gs) := by
  obtain ⟨cs, small, log, rfl, hands, moved⟩ := CellAllocator.take_eq_ok e
  have listed : h.small.Cut fun d => h.small.free.get d ++ (a.cells.get d ++
      (others d ++ Grant.cellsOf d gs)) := b.cut.perm fun d => .of_eq (by simp)
  obtain ⟨handed, -, live⟩ := listed.of_hands hands
  have cut := handed.perm fun d => perm_exchange (moved d)
  have mine? : ∀ d, (g.cell? d).toList = if d = c then [start] else [] := fun d => by
    rw [Grant.cell?, mine]
    by_cases same : d = c
    · simp [same]
    · simp [same, Ne.symm same]
  refine ⟨small, log, rfl, live, cut.perm fun d => ?_, ?_, fun o ho => ?_⟩
  · rw [Grant.cellsOf_cons, mine?, List.append_assoc]
    refine (List.perm_append_comm_assoc ..).trans (.append_left _ ?_)
    refine (List.perm_append_comm_assoc ..).trans (.append_left _ ?_)
    exact List.perm_append_comm_assoc ..
  · refine List.forall_mem_cons.2 ⟨fun d x its => ?_, b.inside⟩
    cases mine.symm.trans its
    exact ⟨inside, lt⟩
  · rw [liveObjects, live] at ho
    obtain ⟨x, hx, rest⟩ := b.live o ho
    exact ⟨x, List.mem_cons_of_mem _ hx, rest⟩

/-- The object of a grant is registered. -/
theorem register (b : s.Backs others gs) (hg : g ∈ gs) (mine : g.ground = .cell c a)
    (e : s.setLive g.object = .ok s') : s'.Backs others gs := by
  unfold setLive at e
  split at e
  · cases e
  · cases e
    refine ⟨b.cut.congr rfl rfl, b.inside, fun o ho => ?_⟩
    rcases (mem_liveObjects_insert rfl).1 ho with rfl | ho
    · exact ⟨g, hg, rfl, c, a, mine⟩
    · exact b.live o ho

/-- An object is freed. Its cell, which is that of its grant, goes on the stack. -/
theorem free (b : s.Backs others gs) (e : s.reclaim o = .ok (cell, s'))
    (keeps : ∀ x ∈ gs, ∀ d b, x.ground = .cell d b → (keep x = true ↔ x.object ≠ o)) :
    s'.Backs others (gs.filter keep) := by
  have member := fun x => mem_liveObjects_of_reclaim (x := x) e
  obtain ⟨c, found, live, rfl, rfl⟩ := of_reclaim e
  obtain ⟨g, hg, rfl, d, a, mine⟩ := b.live o live
  obtain ⟨found', start⟩ := b.finds hg mine
  obtain rfl : d = c := Option.some.inj (found'.symm.trans found)
  have others : ∀ x ∈ gs, ∀ d b, x.ground = .cell d b → (keep x = true ↔ x ≠ g) :=
    fun x hx d _ its => by
      rw [keeps x hx d _ its]
      exact not_congr ⟨b.eq_of_object hg hx mine its, congrArg Grant.object⟩
  have moved := Grant.cellsOf_perm b.nodup hg mine others
  refine ⟨(b.cut.perm fun e => ?_).congr rfl rfl, fun x hx => b.inside x (List.mem_filter.1 hx).1,
    fun x hx => ?_⟩
  · refine (((moved e).append_left _).append_left _).trans ?_
    refine (List.Perm.append_left _ (List.perm_append_comm_assoc ..)).trans ?_
    refine (List.perm_append_comm_assoc ..).trans (.of_eq ?_)
    rw [PerClass.get_put]
    by_cases same : e = d
    · rw [if_pos same, if_pos same.symm, same]
      exact congrArg (· :: _) start.symm
    · rw [if_neg same, if_neg (Ne.symm same)]
      rfl
  · obtain ⟨hx, ne⟩ := (member x).1 hx
    obtain ⟨y, hy, rfl, e, z, its⟩ := b.live x hx
    exact ⟨y, List.mem_filter.2 ⟨hy, (keeps y hy e z its).2 ne⟩, rfl, e, z, its⟩

end Backs

end SmallSpace

/-! ## Pages -/

/-- Pages for an object come from the pool, and their cell waits for the object. -/
theorem HeapM.of_allocateLarge {n : Nat} {a : Address} {h h' : Heap}
    (e : allocateLarge n h = .ok (some a) h') :
    ∃ pool log, h.large.pages.acquire n = .ok (some a, pool) ∧
      h' = { h with large := { h.large with pages := pool }.addPending a n, log } := by
  obtain ⟨cell, _, acquired, e⟩ := bind_eq_ok.1 e
  obtain ⟨pool, log, got, rfl⟩ := acquirePages_eq_ok acquired
  cases cell with
  | none => cases e
  | some a =>
    cases e
    exact ⟨pool, log, got, rfl⟩

namespace LargeSpace

variable {s s' : LargeSpace} {a : Address} {o : Ref} {g x : Grant} {gs : List Grant}
  {run run' : PageRun} {pool : PagePool} {n : Nat} {keep : Grant → Bool}

theorem Kept.mem_of_frees (k : s.Kept) (f : s.Frees o s') : o ∈ s.objects := by
  obtain ⟨pages, unlinked, unlink, release⟩ := f
  exact (k.of_free unlink release).1

/-- The grants `gs` took pages of the space, each of them a cell. -/
structure Backs (s : LargeSpace) (gs : List Grant) : Prop where
  kept : s.Kept
  held : ∀ g ∈ gs, ∀ run, g.ground = .pages run → run ∈ s.runs ∧ cellOf g.object = run.start
  apart : gs.Pairwise fun g x => ∀ run run', g.ground = .pages run → x.ground = .pages run' →
    run.start ≠ run'.start
  listed : ∀ o ∈ s.objects, ∃ g ∈ gs, g.object = o ∧ ∃ run, g.ground = .pages run

namespace Backs

theorem packed (b : s.Backs gs) : Packed s.pages.start s.pages.cursor s.runs :=
  b.kept.pool.packed.sublist (List.sublist_append_right _ _)

theorem holds (b : s.Backs gs) (hg : g ∈ gs) (mine : g.ground = .pages run) :
    s.holds g.object = true := by
  obtain ⟨hr, first⟩ := b.held g hg run mine
  have within := b.packed.within run hr
  have low : run.start ≤ g.place := first ▸ pageStart_le g.place
  have high : g.place < run.start + run.pages * bytesPerPage :=
    Nat.lt_of_lt_of_le (first ▸ lt_pageStart g.place)
      (Nat.add_le_add_left (Nat.le_mul_of_pos_left _ within.pos) run.start)
  exact PagePool.contains_iff.2 ⟨Nat.le_trans within.lo_le low,
    Nat.lt_of_lt_of_le high (Nat.le_trans within.le_hi b.kept.pool.cursor_le)⟩

/-- Pages were taken by one grant. -/
theorem eq_of_start (b : s.Backs gs) (hg : g ∈ gs) (hx : x ∈ gs) (mine : g.ground = .pages run)
    (its : x.ground = .pages run') (same : run'.start = run.start) : x = g := by
  by_contra ne
  have : Std.Symm fun g x : Grant => ∀ run run', g.ground = .pages run → x.ground = .pages run' →
      run.start ≠ run'.start := ⟨fun _ _ h r r' mine its eq => h r' r its mine eq.symm⟩
  exact b.apart.forall hx hg ne run' run its mine same

theorem eq_of_object (b : s.Backs gs) (hg : g ∈ gs) (hx : x ∈ gs) (mine : g.ground = .pages run)
    (its : x.ground = .pages run') (same : x.object = g.object) : x = g := by
  refine b.eq_of_start hg hx mine its ?_
  rw [← (b.held g hg run mine).2, ← (b.held x hx run' its).2, same]

/-- The pages of an object that is not listed wait for it. -/
theorem pending_of_not_listed (b : s.Backs gs) (hg : g ∈ gs) (mine : g.ground = .pages run)
    (new : s.contains g.object = false) : s.pending.get? (cellOf g.object) = some run.pages := by
  obtain ⟨there, first⟩ := b.held g hg run mine
  rw [first]
  rcases List.mem_append.1 there with listed | waiting
  · obtain ⟨c, hc, eq⟩ := List.mem_map.1 listed
    have ho : c.2.object ∈ s.objects := List.mem_map_of_mem hc
    obtain ⟨x, hx, same, run', its⟩ := b.listed _ ho
    have start : run'.start = run.start := by
      rw [← (b.held x hx run' its).2, same, ← b.kept.cell_eq c hc, ← eq]
    obtain rfl := b.eq_of_start hg hx mine its start
    rw [Bool.eq_false_iff, ne_eq, b.kept.contains_iff, same] at new
    exact absurd ho new
  · obtain ⟨⟨a, n⟩, hc, rfl⟩ := List.mem_map.1 waiting
    exact Std.ExtTreeMap.mem_toList_iff_getElem?_eq_some.1 hc

/-- A grant that took no pages does not matter. -/
theorem cons_other (b : s.Backs gs) (other : ∀ run, g.ground ≠ .pages run) :
    s.Backs (g :: gs) where
  kept := b.kept
  held := List.forall_mem_cons.2 ⟨fun run mine => absurd mine (other run), b.held⟩
  apart := List.pairwise_cons.2 ⟨fun _ _ run _ mine => absurd mine (other run), b.apart⟩
  listed o ho := by
    obtain ⟨x, hx, rest⟩ := b.listed o ho
    exact ⟨x, List.mem_cons_of_mem _ hx, rest⟩

theorem filter_other (b : s.Backs gs)
    (all : ∀ g ∈ gs, ∀ run, g.ground = .pages run → keep g = true) :
    s.Backs (gs.filter keep) where
  kept := b.kept
  held g hg := b.held g (List.mem_filter.1 hg).1
  apart := b.apart.filter _
  listed o ho := by
    obtain ⟨x, hx, same, run, its⟩ := b.listed o ho
    exact ⟨x, List.mem_filter.2 ⟨hx, all x hx run its⟩, same, run, its⟩

/-- Pages are handed out. -/
theorem allocate (b : s.Backs gs) (taken : pool.Accounts (⟨a, n⟩ :: s.runs))
    (first : cellOf g.object = a) (mine : g.ground = .pages ⟨a, n⟩) :
    ({ s with pages := pool }.addPending a n).Backs (g :: gs) := by
  obtain ⟨kept, perm⟩ := b.kept.addPending taken
  refine ⟨kept, List.forall_mem_cons.2 ⟨fun run its => ?_, fun x hx run its => ?_⟩,
    List.pairwise_cons.2 ⟨fun x hx run run' its its' eq => ?_, b.apart⟩, fun o ho => ?_⟩
  · cases mine.symm.trans its
    exact ⟨perm.mem_iff.2 List.mem_cons_self, first⟩
  · obtain ⟨hr, same⟩ := b.held x hx run its
    exact ⟨perm.mem_iff.2 (List.mem_cons_of_mem _ hr), same⟩
  · cases mine.symm.trans its
    exact taken.start_ne (b.held x hx run' its').1 eq.symm
  · obtain ⟨x, hx, rest⟩ := b.listed o ho
    exact ⟨x, List.mem_cons_of_mem _ hx, rest⟩

/-- The object of a grant is registered. -/
theorem register (b : s.Backs gs) (hg : g ∈ gs) (mine : g.ground = .pages run)
    {claimed : LargeSpace} (claim : s.claim g.object = .ok (n, claimed))
    (link : claimed.link g.object n = .ok s') : s'.Backs gs := by
  obtain ⟨-, kept, cells, perm, -⟩ := b.kept.of_claim claim link
  refine ⟨kept, fun x hx run its => ?_, b.apart, fun o ho => ?_⟩
  · obtain ⟨hr, same⟩ := b.held x hx run its
    exact ⟨perm.mem_iff.2 hr, same⟩
  · rw [objects, cells] at ho
    rcases List.mem_cons.1 ho with rfl | ho
    · exact ⟨g, hg, rfl, run, mine⟩
    · exact b.listed o ho

/-- The run of a listed object is the one that its grant took. -/
theorem run_eq (b : s.Backs gs) (hg : g ∈ gs) (mine : g.ground = .pages run)
    (there : (⟨cellOf g.object, n⟩ : PageRun) ∈ s.runs) : ⟨cellOf g.object, n⟩ = run :=
  b.packed.eq_of_start there (b.held g hg run mine).1 (b.held g hg run mine).2

/-- An object is freed. Its cell, which is that of its grant, goes back to the pool. -/
theorem free (b : s.Backs gs) (f : s.Frees o s')
    (keeps : ∀ x ∈ gs, ∀ run, x.ground = .pages run → (keep x = true ↔ x.object ≠ o)) :
    s'.Backs (gs.filter keep) := by
  have objects := b.kept.objects_of_frees f
  obtain ⟨g, hg, same, run, mine⟩ := b.listed _ (b.kept.mem_of_frees f)
  obtain ⟨pre, c, post, -, rfl, -, -, perm, kept⟩ := b.kept.of_frees f
  refine ⟨kept, fun x hx run' its => ?_, b.apart.filter _, fun o ho => ?_⟩
  · obtain ⟨hx, ne⟩ := List.mem_filter.1 hx
    obtain ⟨hr, first⟩ := b.held x hx run' its
    refine ⟨(List.mem_cons.1 (perm.mem_iff.1 hr)).resolve_left fun eq => ?_, first⟩
    have start : run'.start = run.start := by
      rw [eq, ← (b.held g hg run mine).2, same]
    obtain rfl := b.eq_of_start hg hx mine its start
    exact (keeps x hx run' its).1 ne same
  · rw [objects] at ho
    obtain ⟨ho, ne⟩ := List.mem_filter.1 ho
    obtain ⟨x, hx, rfl, run', its⟩ := b.listed o ho
    exact ⟨x, List.mem_filter.2 ⟨hx, (keeps x hx run' its).2 (of_decide_eq_true ne)⟩, rfl, run',
      its⟩

end Backs

end LargeSpace

end DeferredCount
