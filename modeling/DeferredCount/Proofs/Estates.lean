import DeferredCount.Proofs.Grants
import DeferredCount.Proofs.Refusals

/-!
# The ledger of an instance

Mutators come and go, ask for memory of any size, register objects in what they got, and take part
in phases. Objects are freed, one by one or by an increment. An `Estate` keeps a ledger of that
beside the heap: what the requests took whose objects are not freed, and what the allocators of the
mutators that ended had kept.

Every cell of a page that was cut is in one place: on the stack of its class, kept by the allocator
of a mutator, kept by one that ended, or taken by a grant.

Results:
1. `Estate.Sound.step`, `Estate.Sound.run`: the ledger is right after any sequence of operations.
2. `Estate.Leads.collect`: an increment is such a sequence.
-/

namespace DeferredCount

open Relation

/-- A request that gets a place takes its memory from what its allocator kept, or from its space.
What the spaces know of objects stays as it is. -/
theorem Allocators.Takes.backs {a a' : Allocators} {k : AllocatorKind} {h h' : Heap}
    {size align offset : Nat} {place : Address} {ground : Ground}
    {others : SizeClass → List Address} {gs : List Grant}
    (t : a.Takes size align offset h k place ground a' h') (st : h.Supplied) (own : a.Supplied)
    (some : place ≠ 0) (small : h.small.Backs (fun c => a.cells.cells.get c ++ others c) gs)
    (large : h.large.Backs gs) :
    h'.small.Backs (fun c => a'.cells.cells.get c ++ others c) (⟨place, ground⟩ :: gs) ∧
      h'.large.Backs (⟨place, ground⟩ :: gs) ∧
      (ground = .slice → Heap.permanentStart ≤ place ∧ place + size ≤ Heap.scratchStart) ∧
      h'.small.live = h.small.live ∧ h'.large.cells = h.large.cells := by
  cases t with
  | @cell _ c start _ _ _ _ _ taken placed =>
    have supported := supported_of_alignPlace placed
    obtain ⟨-, le, lt, -⟩ := alignPlace_spec supported placed
    have inside : place < start + c.cellSize :=
      Nat.lt_of_lt_of_le lt (Nat.add_le_add_left (c.align_le_cellSize supported) start)
    obtain ⟨small', log, rfl, live, backs⟩ :=
      small.take (g := ⟨place, .cell c start⟩) taken le inside rfl
    exact ⟨backs, large.cons_other nofun, nofun, live, rfl⟩
  | @pages _ n start _ _ _ counted taken placed =>
    have supported := supported_of_alignPlace placed
    obtain ⟨-, le, lt, -⟩ := alignPlace_spec supported placed
    obtain ⟨pool, log, got, rfl⟩ := HeapM.of_allocateLarge taken
    have accounts := (large.kept.pool.of_acquire (bytesToPages_eq_ok counted).2 got).1 start rfl
    have within := accounts.packed.within ⟨start, n⟩ (by simp)
    -- the padding does not reach the next page
    have inside : place < start + bytesPerPage :=
      Nat.lt_of_lt_of_le lt (Nat.add_le_add_left
        (Nat.le_trans (SizeClass.align_le_cellSize 0 supported) (by decide)) start)
    have first : cellOf ⟨place⟩ = start := pageStart_eq within.aligned le inside
    exact ⟨small.cons_other nofun, large.allocate accounts first rfl, nofun, rfl, rfl⟩
  | slice run =>
    rcases BumpAllocator.supplied_of_allocate st.permanent own.bump run with
      ⟨none, -⟩ | ⟨within, -, pages, log, rfl, -⟩
    · exact absurd none some
    · exact ⟨small.cons_other nofun, large.cons_other nofun, fun _ => within, rfl, rfl⟩

/-- In a phase a mutator does nothing to the spaces, or its cells go on the stacks. -/
theorem Mutator.phase_ends {m m' : Mutator} {p : Phase} {h h' : Heap}
    (e : m.phase p h = .ok m' h') :
    (∃ pools, h' = { h with pools } ∧ m'.allocators = m.allocators) ∨
      ∃ free, h' = { h with small := { h.small with free } } ∧
        m'.allocators = { m.allocators with cells := {} } ∧
        ∀ c, free.get c = m.allocators.cells.cells.get c ++ h.small.free.get c := by
  rcases phase_eq_ok e with idle | released
  · exact .inl idle
  · obtain ⟨free, run, back⟩ := m.allocators.cells.release_eq h
    have whole : m.allocators.release h =
        .ok { m.allocators with cells := {} } { h with small := { h.small with free } } :=
      HeapM.bind_of_ok run
    obtain ⟨allocators, rfl⟩ := EStateM.Result.ok.inj (released.symm.trans whole)
    exact .inr ⟨free, rfl, allocators, back⟩

namespace Heap.Supplied

variable {h : Heap} {o : Ref}

theorem small_holds_iff (st : h.Supplied) :
    h.small.holds o = true ↔ Heap.smallStart ≤ o.addr ∧ o.addr < Heap.largeStart := by
  rw [SmallSpace.holds, PagePool.contains_iff, st.small.pool.start_eq, st.small.pool.limit_eq]

theorem large_holds_iff (st : h.Supplied) :
    h.large.holds o = true ↔ Heap.largeStart ≤ o.addr ∧ o.addr < Heap.permanentStart := by
  rw [LargeSpace.holds, PagePool.contains_iff, st.large_lends.start_eq, st.large_lends.limit_eq]

theorem isPermanent_iff (st : h.Supplied) :
    h.isPermanent o = true ↔ Heap.permanentStart ≤ o.addr ∧ o.addr < Heap.scratchStart := by
  rw [Heap.isPermanent, PermanentSpace.holds, PagePool.contains_iff, st.permanent.start_eq,
    st.permanent.limit_eq]

end Heap.Supplied

/-- An instance, with what was taken of its memory. -/
structure Estate where
  heap : Heap
  mutators : List Mutator := []
  /-- The requests that were granted and whose objects are not freed. -/
  grants : List Grant := []
  /-- What the allocators of mutators that ended had kept. -/
  gone : List Allocators := []

namespace Estate

/-- The cells of a class that the allocators keep. -/
def keptBy (as : List Allocators) (c : SizeClass) : List Address := as.flatMap (·.cells.cells.get c)

/-- The cells of a class that the allocators of mutators keep. -/
def cached (t : Estate) : SizeClass → List Address := keptBy (t.mutators.map (·.allocators))

/-- The cells of a class that the allocators of mutators that ended had kept. -/
def stranded (t : Estate) : SizeClass → List Address := keptBy t.gone

/-- All places of cells of a class. -/
def cells (t : Estate) (c : SizeClass) : List Address :=
  t.heap.small.free.get c ++ ((t.cached c ++ t.stranded c) ++ Grant.cellsOf c t.grants)

/-- An instance of whatever settings and client, before anything happens. -/
def fresh (settings : Settings) (client : Client) : Estate where
  heap := { Heap.ofSettings settings with client }

/-- One operation.
* `bind`, `destroy`: a mutator comes or goes.
* `refuse`, `grant`: a mutator asks for memory, and there is too little, or it gets some.
* `register`: a mutator registers an object where it was granted memory for it.
* `phase`: a mutator does its part of a phase.
* `free`: an object is freed, or something happens that does not concern the spaces.
* `shuffle`: the order of free cells is nobody's business.
* `elsewhere`: anything that touches neither the spaces nor the allocators, as barriers do. It does
  not matter in which order the mutators are listed. -/
inductive Step : Estate → Estate → Prop
  | bind {t : Estate} {m : Mutator} {h' : Heap} : Mutator.bind t.heap = .ok m h' →
      Step t { t with heap := h', mutators := t.mutators ++ [m] }
  | destroy {t : Estate} {m : Mutator} {rest : List Mutator} {h' : Heap} :
      t.mutators.Perm (m :: rest) → m.destroy t.heap = .ok () h' →
      Step t { t with heap := h', mutators := rest, gone := m.allocators :: t.gone }
  | refuse {t : Estate} {m m' : Mutator} {rest : List Mutator} {h' : Heap}
      {size align offset : Nat} {s : Semantics} : t.mutators.Perm (m :: rest) →
      m.allocate size align offset s t.heap = .ok (0, m') h' →
      Step t { t with heap := h', mutators := m' :: rest }
  | grant {t : Estate} {m m' : Mutator} {rest : List Mutator} {h' : Heap}
      {size align offset : Nat} {s : Semantics} {k : AllocatorKind} {g : Grant} :
      t.mutators.Perm (m :: rest) →
      m.allocate size align offset s t.heap = .ok (g.place, m') h' →
      m.allocators.Takes size align offset t.heap k g.place g.ground m'.allocators h' →
      g.place ≠ 0 → Step t { t with heap := h', mutators := m' :: rest, grants := g :: t.grants }
  | register {t : Estate} {m m' : Mutator} {rest : List Mutator} {h' : Heap} {g : Grant}
      {s : Semantics} : t.mutators.Perm (m :: rest) → g ∈ t.grants →
      m.register g.object s t.heap = .ok m' h' →
      Step t { t with heap := h', mutators := m' :: rest }
  | phase {t : Estate} {m m' : Mutator} {rest : List Mutator} {h' : Heap} {p : Phase} :
      t.mutators.Perm (m :: rest) → m.phase p t.heap = .ok m' h' →
      Step t { t with heap := h', mutators := m' :: rest }
  | free {t : Estate} {h' : Heap} : t.heap.Frees h' →
      Step t { t with heap := h', grants := t.grants.filter (·.outlives t.heap h') }
  | shuffle {t : Estate} {free : PerClass (List Address)} :
      (∀ c, (free.get c).Perm (t.heap.small.free.get c)) →
      Step t { t with heap := { t.heap with small := { t.heap.small with free } } }
  | elsewhere {t : Estate} {h' : Heap} {ms : List Mutator} : h'.small = t.heap.small →
      h'.large = t.heap.large → h'.permanent = t.heap.permanent →
      (ms.map (·.allocators)).Perm (t.mutators.map (·.allocators)) →
      Step t { t with heap := h', mutators := ms }

/-- Some operations, one after the other. -/
abbrev Runs : Estate → Estate → Prop := ReflTransGen Step

variable {t t' : Estate} {m m' : Mutator} {rest ms : List Mutator} {h h' : Heap} {g : Grant}

/-- A request that gets a place is an operation. -/
theorem Step.of_allocate {size align offset : Nat} {s : Semantics} {place : Address}
    (perm : t.mutators.Perm (m :: rest))
    (e : m.allocate size align offset s t.heap = .ok (place, m') h') (some : place ≠ 0) :
    ∃ k ground, Mutator.allocatorFor size align s = .ok k ∧
      m.allocators.Takes size align offset t.heap k place ground m'.allocators h' ∧
      Step t { t with
        heap := h', mutators := m' :: rest, grants := ⟨place, ground⟩ :: t.grants } := by
  obtain ⟨k, as, chosen, run, rfl⟩ := (Mutator.allocate_eq_ok_iff some).1 e
  obtain ⟨ground, taken⟩ := Allocators.takes_of_allocate run some
  exact ⟨k, ground, chosen, taken, .grant perm e taken some⟩

/-- What every operation keeps. -/
structure Sound (t : Estate) : Prop where
  supplied : Supplied t.heap t.mutators
  small : t.heap.small.Backs (fun c => t.cached c ++ t.stranded c) t.grants
  large : t.heap.large.Backs t.grants
  permanent : ∀ g ∈ t.grants, g.ground = .slice → Heap.permanentStart ≤ g.place

namespace Sound

/-! ## Ranges -/

/-- The memory of a grant whose object is small is a cell. -/
theorem ground_of_small (st : t.Sound) (hg : g ∈ t.grants)
    (small : t.heap.small.holds g.object = true) : ∃ c a, g.ground = .cell c a := by
  obtain ⟨-, below⟩ := st.supplied.heap.small_holds_iff.1 small
  cases mine : g.ground with
  | cell c a => exact ⟨c, a, rfl⟩
  | pages run =>
    obtain ⟨above, -⟩ := st.supplied.heap.large_holds_iff.1 (st.large.holds hg mine)
    exact absurd below (Nat.not_lt.2 above)
  | slice =>
    have above := st.permanent g hg mine
    exact absurd below (Nat.not_lt.2 (Nat.le_trans (by decide) above))

/-- The memory of a grant whose object is large is a run of pages. -/
theorem ground_of_large (st : t.Sound) (hg : g ∈ t.grants)
    (large : t.heap.large.holds g.object = true) : ∃ run, g.ground = .pages run := by
  obtain ⟨low, high⟩ := st.supplied.heap.large_holds_iff.1 large
  cases mine : g.ground with
  | cell c a =>
    obtain ⟨-, below⟩ := st.supplied.heap.small_holds_iff.1 (st.small.holds hg mine)
    exact absurd below (Nat.not_lt.2 low)
  | pages run => exact ⟨run, rfl⟩
  | slice => exact absurd high (Nat.not_lt.2 (st.permanent g hg mine))

/-! ## One operation -/

theorem fresh (settings : Settings) (client : Client) : (Estate.fresh settings client).Sound := by
  have rising : (Heap.ofSettings settings).small.pages.Rising :=
    ⟨rfl, Nat.le_refl _, show Heap.smallStart ≤ Heap.largeStart by decide,
      show bytesPerPage ∣ Heap.smallStart by decide⟩
  have parceled : (Heap.ofSettings settings).small.Parceled (fun _ => []) [] := .fresh rising
  have housed : (Heap.ofSettings settings).large.Housed Heap.largeStart Heap.permanentStart [] [] :=
    .fresh (by decide) (by decide) rfl
  refine ⟨(@Reached.fresh settings client).supplied, ⟨parceled.cut, nofun, fun o ho => ?_⟩,
    ⟨housed.kept, nofun, .nil, fun o ho => ?_⟩, nofun⟩
  · obtain ⟨b, hb, -⟩ := parceled.live o ho
    cases hb
  · exact absurd (housed.objects ▸ ho) List.not_mem_nil

/-- Only the spaces and the allocators matter. -/
theorem congr (st : t.Sound) (small : h'.small = t.heap.small) (large : h'.large = t.heap.large)
    (permanent : h'.permanent = t.heap.permanent)
    (same : (ms.map (·.allocators)).Perm (t.mutators.map (·.allocators))) :
    Sound { t with heap := h', mutators := ms } where
  supplied := st.supplied.congr small large permanent same
  small := by
    rw [small]
    exact st.small.move rfl rfl rfl fun c =>
      ((same.flatMap_right _).append_right _).append_left _
  large := large ▸ st.large
  permanent := st.permanent

/-- The mutator that is going to act may be listed first. -/
theorem supplied_first (st : t.Sound) (perm : t.mutators.Perm (m :: rest)) :
    Supplied t.heap ([] ++ m :: rest) := st.supplied.perm perm

/-- The cells of the mutator that is going to act may be listed first. -/
theorem small_first (st : t.Sound) (perm : t.mutators.Perm (m :: rest)) :
    t.heap.small.Backs (fun c => m.allocators.cells.cells.get c ++
      (keptBy (rest.map (·.allocators)) c ++ keptBy t.gone c)) t.grants :=
  st.small.move rfl rfl rfl fun c => by
    have same := (perm.map (·.allocators)).flatMap_right fun a => a.cells.cells.get c
    rw [List.map_cons, List.flatMap_cons] at same
    rw [← List.append_assoc (m.allocators.cells.cells.get c)]
    exact (same.symm.append_right _).append_left _

/-- The mutator that has acted is listed first. -/
theorem of_first {gs : List Grant} {gone : List Allocators} (supplied : Supplied h (m :: rest))
    (small : h.small.Backs (fun c => m.allocators.cells.cells.get c ++
      (keptBy (rest.map (·.allocators)) c ++ keptBy gone c)) gs)
    (large : h.large.Backs gs)
    (permanent : ∀ g ∈ gs, g.ground = .slice → Heap.permanentStart ≤ g.place) :
    Sound ⟨h, m :: rest, gs, gone⟩ where
  supplied
  small := small.move rfl rfl rfl fun c => .of_eq <| by
    rw [← List.append_assoc (m.allocators.cells.cells.get c)]
    rfl
  large
  permanent

theorem bind (st : t.Sound) (e : Mutator.bind t.heap = .ok m h') :
    Sound { t with heap := h', mutators := t.mutators ++ [m] } := by
  have supplied := st.supplied.bound e
  obtain ⟨new, log, rfl⟩ := Mutator.bind_eq_ok e
  refine ⟨supplied, st.small.move rfl rfl rfl fun c => .of_eq ?_, st.large, st.permanent⟩
  have same : keptBy ((t.mutators ++ [m]).map (·.allocators)) c = t.cached c := by
    rw [keptBy, List.map_append, List.flatMap_append, List.map_singleton, List.flatMap_singleton,
      new, CellAllocator.get_empty, List.append_nil]
    rfl
  exact congrArg (fun cs => t.heap.small.free.get c ++ (cs ++ t.stranded c)) same

/-- A mutator ends. Nobody takes over what its allocators keep. -/
theorem destroy (st : t.Sound) (perm : t.mutators.Perm (m :: rest))
    (e : m.destroy t.heap = .ok () h') :
    Sound { t with heap := h', mutators := rest, gone := m.allocators :: t.gone } := by
  have supplied := (st.supplied_first perm).destroyed e
  have same := (Mutator.destroy_adds e).2
  have small : h'.small = t.heap.small := by rw [same]
  have large : h'.large = t.heap.large := by rw [same]
  refine ⟨supplied, ?_, large ▸ st.large, st.permanent⟩
  rw [small]
  exact (st.small_first perm).move rfl rfl rfl fun c =>
    .append_left _ (List.perm_append_comm_assoc ..)

theorem refuse {size align offset : Nat} {s : Semantics} (st : t.Sound)
    (perm : t.mutators.Perm (m :: rest))
    (e : m.allocate size align offset s t.heap = .ok (0, m') h') :
    Sound { t with heap := h', mutators := m' :: rest } := by
  have listed := st.supplied_first perm
  generalize none : (0 : Address) = place at e
  cases Mutator.serves_of_allocate listed.heap listed.own_self e with
  | refused => exact st.congr rfl rfl rfl (perm.symm.map _)
  | granted some => exact absurd none.symm some

theorem grant {size align offset : Nat} {s : Semantics} {k : AllocatorKind} (st : t.Sound)
    (perm : t.mutators.Perm (m :: rest))
    (e : m.allocate size align offset s t.heap = .ok (g.place, m') h')
    (taken : m.allocators.Takes size align offset t.heap k g.place g.ground m'.allocators h')
    (some : g.place ≠ 0) :
    Sound { t with heap := h', mutators := m' :: rest, grants := g :: t.grants } := by
  have listed := st.supplied_first perm
  obtain ⟨small, large, permanent, -⟩ := taken.backs listed.heap listed.own_self some
    (st.small_first perm) st.large
  exact of_first (listed.allocated e) small large
    (List.forall_mem_cons.2 ⟨fun mine => (permanent mine).1, st.permanent⟩)

/-- The object of a grant is registered by the space that the memory was taken from. -/
theorem enrolled {s : Semantics} {counted : Bool} (st : t.Sound) (hg : g ∈ t.grants)
    (e : HeapM.enroll g.object s t.heap = .ok counted h') :
    h'.small.Backs (fun c => t.cached c ++ t.stranded c) t.grants ∧ h'.large.Backs t.grants := by
  rcases HeapM.enroll_eq_ok e with rfl | ⟨holds, e⟩ | ⟨holds, e⟩
  · exact ⟨st.small, st.large⟩
  · obtain ⟨run, mine⟩ := st.ground_of_large hg holds
    obtain ⟨pages, claimed, large, log, claim, link, rfl⟩ := HeapM.registerLarge_eq_ok e
    exact ⟨st.small, st.large.register hg mine claim link⟩
  · obtain ⟨c, a, mine⟩ := st.ground_of_small hg holds
    obtain ⟨small, live, rfl⟩ := HeapM.setLive_eq_ok e
    exact ⟨st.small.register hg mine live, st.large⟩

theorem register {s : Semantics} (st : t.Sound) (perm : t.mutators.Perm (m :: rest))
    (hg : g ∈ t.grants) (e : m.register g.object s t.heap = .ok m' h') :
    Sound { t with heap := h', mutators := m' :: rest } := by
  have supplied := (st.supplied_first perm).registered e
  obtain ⟨same, counted, k, memory, pools, enrolled, rfl⟩ := Mutator.register_eq_ok e
  obtain ⟨small, large⟩ := st.enrolled hg enrolled
  refine ⟨supplied, small.move rfl rfl rfl fun c => ?_, large, st.permanent⟩
  have perm := (perm.map (·.allocators)).flatMap_right fun a => a.cells.cells.get c
  rw [List.map_cons, ← same] at perm
  exact (perm.symm.append_right _).append_left _

/-- A mutator gives its cells back, or hands its buffers over. -/
theorem phase {p : Phase} (st : t.Sound) (perm : t.mutators.Perm (m :: rest))
    (e : m.phase p t.heap = .ok m' h') : Sound { t with heap := h', mutators := m' :: rest } := by
  have supplied := (st.supplied_first perm).phased e
  have small := st.small_first perm
  rcases Mutator.phase_ends e with ⟨pools, rfl, same⟩ | ⟨free, rfl, same, back⟩
  · rw [← same] at small
    exact of_first supplied small st.large st.permanent
  · refine of_first supplied (small.move rfl rfl rfl fun c => ?_) st.large st.permanent
    rw [back, same, CellAllocator.get_empty, List.nil_append, List.append_assoc]
    exact List.perm_append_comm_assoc ..

/-- An object is freed. That ends its grant, and no other one. -/
theorem free (st : t.Sound) (f : t.heap.Frees h') :
    Sound { t with heap := h', grants := t.grants.filter (·.outlives t.heap h') } := by
  have supplied : Supplied h' t.mutators := ⟨st.supplied.heap.frees f, st.supplied.own⟩
  have permanent : ∀ g ∈ t.grants.filter (·.outlives t.heap h'), g.ground = .slice →
      Heap.permanentStart ≤ g.place := fun g hg => st.permanent g (List.mem_filter.1 hg).1
  cases f with
  | elsewhere small large _ =>
    have all : ∀ g : Grant, g.outlives t.heap h' = true := fun g =>
      Grant.outlives_of_eq (by rw [small]) (by rw [large])
    refine ⟨supplied, ?_, ?_, permanent⟩
    · rw [small]
      exact st.small.filter_other fun g _ _ _ _ => all g
    · rw [large]
      exact st.large.filter_other fun g _ _ _ => all g
  | @small o e =>
    obtain ⟨cell, small, log, reclaimed, rfl⟩ := HeapM.freeSmall_eq_ok e
    have member := fun x => SmallSpace.mem_liveObjects_of_reclaim (x := x) reclaimed
    obtain ⟨-, -, live, -⟩ := SmallSpace.of_reclaim reclaimed
    refine ⟨supplied, st.small.free reclaimed fun g _ c a mine => ?_,
      st.large.filter_other fun g _ run mine => ?_, permanent⟩
    · rw [Grant.outlives_iff, Grant.isRegistered_cell mine, Grant.isRegistered_cell mine,
        ← Heap.mem_liveObjects, ← Heap.mem_liveObjects, member]
      exact ⟨fun stays eq => (stays (eq ▸ live)).2 eq, fun ne registered => ⟨registered, ne⟩⟩
    · rw [Grant.outlives_iff, Grant.isRegistered_pages mine, Grant.isRegistered_pages mine]
      exact id
  | @large o e =>
    have kept := st.large.kept
    have f := HeapM.freeLarge_frees e
    have listed := kept.mem_of_frees f
    have objects := kept.objects_of_frees f
    obtain ⟨-, -, -, -, -, -, -, -, kept'⟩ := kept.of_frees f
    obtain ⟨pages, unlinked, large, log, -, -, rfl⟩ := HeapM.freeLarge_eq_ok e
    refine ⟨supplied, st.small.filter_other fun g _ c a mine => ?_,
      st.large.free f fun g _ run mine => ?_, permanent⟩
    · rw [Grant.outlives_iff, Grant.isRegistered_cell mine, Grant.isRegistered_cell mine]
      exact id
    · rw [Grant.outlives_iff, Grant.isRegistered_pages mine, Grant.isRegistered_pages mine,
        kept.contains_iff, kept'.contains_iff, objects, List.mem_filter, decide_eq_true_eq]
      exact ⟨fun stays eq => (stays (eq ▸ listed)).2 eq, fun ne registered => ⟨registered, ne⟩⟩

theorem shuffle {free : PerClass (List Address)} (st : t.Sound)
    (perm : ∀ c, (free.get c).Perm (t.heap.small.free.get c)) :
    Sound { t with heap := { t.heap with small := { t.heap.small with free } } } :=
  ⟨st.supplied.shuffled perm, st.small.move rfl rfl rfl fun c => (perm c).append_right _,
    st.large, st.permanent⟩

/-! ## Any sequence of operations -/

theorem step (st : t.Sound) (step : Step t t') : t'.Sound := by
  cases step with
  | bind e => exact st.bind e
  | destroy perm e => exact st.destroy perm e
  | refuse perm e => exact st.refuse perm e
  | grant perm e taken some => exact st.grant perm e taken some
  | register perm hg e => exact st.register perm hg e
  | phase perm e => exact st.phase perm e
  | free f => exact st.free f
  | shuffle perm => exact st.shuffle perm
  | elsewhere small large permanent same => exact st.congr small large permanent same

theorem run (st : t.Sound) (run : Runs t t') : t'.Sound := by
  induction run with
  | refl => exact st
  | tail _ step ih => exact ih.step step

end Sound

/-! ## Increments -/

/-- Some operations lead to this heap and these mutators. They may free objects, which ends their
grants, but they register none, they grant nothing, and no mutator ends. -/
structure Leads (t : Estate) (h' : Heap) (ms : List Mutator) : Prop where
  registered : ∀ g : Grant, g.isRegistered h' = true → g.isRegistered t.heap = true
  runs : Runs t ⟨h', ms, t.grants.filter (·.outlives t.heap h'), t.gone⟩

namespace Leads

variable {ms' idle : List Mutator}

theorem trans (first : t.Leads h ms)
    (next : Leads ⟨h, ms, t.grants.filter (·.outlives t.heap h), t.gone⟩ h' ms') :
    t.Leads h' ms' where
  registered g there := first.registered g (next.registered g there)
  runs := by
    have left : (t.grants.filter (·.outlives t.heap h)).filter (·.outlives h h') =
        t.grants.filter (·.outlives t.heap h') := by
      rw [List.filter_filter]
      refine List.filter_congr fun g _ => Bool.eq_iff_iff.2 ?_
      rw [Bool.and_eq_true, Grant.outlives_iff, Grant.outlives_iff, Grant.outlives_iff]
      exact ⟨fun ⟨second, first⟩ there => second (first there),
        fun both => ⟨fun there => both (first.registered g there),
          fun there => next.registered g (both there)⟩⟩
    exact left ▸ first.runs.trans next.runs

/-- No object is freed. -/
theorem of_runs (runs : Runs t ⟨h', ms, t.grants, t.gone⟩)
    (small : h'.small.live = t.heap.small.live) (large : h'.large.cells = t.heap.large.cells) :
    t.Leads h' ms where
  registered g there := by
    have back := Grant.outlives_of_eq (g := g) small.symm large.symm
    exact Grant.outlives_iff.1 back there
  runs := by
    have all : t.grants.filter (·.outlives t.heap h') = t.grants :=
      List.filter_eq_self.2 fun g _ => Grant.outlives_of_eq small large
    exact all.symm ▸ runs

/-- Nothing happens to the spaces and the allocators. -/
theorem elsewhere (small : h'.small = t.heap.small) (large : h'.large = t.heap.large)
    (permanent : h'.permanent = t.heap.permanent)
    (same : (ms.map (·.allocators)).Perm (t.mutators.map (·.allocators))) : t.Leads h' ms :=
  .of_runs (.single (.elsewhere small large permanent same)) (by rw [small]) (by rw [large])

/-- An object that is registered after another one was freed was registered before. -/
theorem of_frees (st : t.Sound) (f : t.heap.Frees h') : t.Leads h' t.mutators where
  registered g there := by
    cases f with
    | elsewhere small large _ =>
      exact Grant.outlives_iff.1 (Grant.outlives_of_eq (by rw [small]) (by rw [large])) there
    | small e =>
      obtain ⟨cell, small, log, reclaimed, rfl⟩ := HeapM.freeSmall_eq_ok e
      cases mine : g.ground with
      | cell c a =>
        rw [Grant.isRegistered_cell mine, ← Heap.mem_liveObjects] at *
        exact ((SmallSpace.mem_liveObjects_of_reclaim reclaimed).1 there).1
      | pages run =>
        rw [Grant.isRegistered_pages mine] at *
        exact there
      | slice =>
        rw [Grant.isRegistered, mine] at there
        cases there
    | large e =>
      have f := HeapM.freeLarge_frees e
      have kept := st.large.kept
      have objects := kept.objects_of_frees f
      obtain ⟨-, -, -, -, -, -, -, -, kept'⟩ := kept.of_frees f
      obtain ⟨pages, unlinked, large, log, -, -, rfl⟩ := HeapM.freeLarge_eq_ok e
      cases mine : g.ground with
      | cell c a =>
        rw [Grant.isRegistered_cell mine] at *
        exact there
      | pages run =>
        rw [Grant.isRegistered_pages mine] at *
        rw [kept'.contains_iff, objects] at there
        exact kept.contains_iff.2 (List.mem_filter.1 there).1
      | slice =>
        rw [Grant.isRegistered, mine] at there
        cases there
  runs := .single (.free f)

/-- One thing that happens in an increment in which some of the mutators take part. The others wait
behind them. -/
theorem of_proceeds (st : t.Sound) (perm : t.mutators.Perm (ms ++ idle))
    (step : Heap.Proceeds (t.heap, ms) (h', ms')) : t.Leads h' (ms' ++ idle) := by
  cases step with
  | frees f =>
    have listed : t.Leads t.heap (ms ++ idle) := elsewhere rfl rfl rfl (perm.symm.map _)
    exact listed.trans (of_frees (st.run listed.runs) f)
  | @phase _ _ before after m m' p e =>
    obtain ⟨small, large⟩ : h'.small.live = t.heap.small.live ∧
        h'.large.cells = t.heap.large.cells := by
      rcases Mutator.phase_ends e with ⟨pools, rfl, -⟩ | ⟨free, rfl, -⟩
      · exact ⟨rfl, rfl⟩
      · exact ⟨rfl, rfl⟩
    have first (x : Mutator) :
        (before ++ x :: after ++ idle).Perm (x :: (before ++ after ++ idle)) :=
      List.perm_middle.append_right idle
    have acted : t.Leads h' (m' :: (before ++ after ++ idle)) :=
      .of_runs (.single (.phase (perm.trans (first m)) e)) small large
    exact acted.trans (elsewhere rfl rfl rfl ((first m').map _))

/-- All that happens in such an increment. -/
theorem proceeded (st : t.Sound) (perm : t.mutators.Perm (ms ++ idle))
    {s : Heap × List Mutator} (run : ReflTransGen Heap.Proceeds (t.heap, ms) s) :
    t.Leads s.1 (s.2 ++ idle) := by
  induction run with
  | refl => exact elsewhere rfl rfl rfl (perm.symm.map _)
  | tail _ step ih => exact ih.trans (of_proceeds (st.run ih.runs) (.refl _) step)

/-- An increment in which some of the mutators take part. -/
theorem collect {kind : CollectionKind} (st : t.Sound) (perm : t.mutators.Perm (ms ++ idle))
    (done : Collects kind ms t.heap ms' h') : t.Leads h' (ms' ++ idle) :=
  proceeded st perm done.proceeds

end Leads

end Estate

end DeferredCount
