import DeferredCount.Proofs.Gaps
import DeferredCount.Proofs.Parcels

/-!
# Who has which cell

Allocators take cells from the space of small objects, hand them out as blocks, and give them back.
Objects are registered where blocks start, and freed one by one or by a sweep. Whatever the order of
all this, every cell of every page that was cut is in one place: on the stack of its class, in the
cache of one allocator, or below one block. A page keeps its class, and the live objects are those
that were registered and not freed yet.

Results:
1. `HeapM.sweepSmallFrom_selecting`: a sweep frees what its predicate selects, and counts it.
2. `CellTraffic.Sorted.step`: what one operation keeps.
3. `CellTraffic.cells_are_partitioned`: what holds after every sequence of operations.
-/

namespace DeferredCount

open Relation

/-! ## Sweeps with a predicate -/

/-- The objects that a predicate selects from a list, and the state it ends in. The predicate may
change its state with every answer. -/
def selecting {σ : Type} (f : σ → Ref → Bool × σ) : List Ref → σ → List Ref × σ
  | [], s => ([], s)
  | o :: rest, s =>
    let (selected, s₁) := f s o
    let (os, s₂) := selecting f rest s₁
    (if selected then o :: os else os, s₂)

namespace HeapM

variable {σ : Type} {h h' : Heap} {o : Ref} {caches : SizeClass → List Address}
  {blocks : List Block}

theorem freeSmall_eq_ok (e : freeSmall o h = .ok () h') :
    ∃ cell small log, h.small.reclaim o = .ok (cell, small) ∧ h' = { h with small, log } := by
  rw [freeSmall, get_bind_apply] at e
  obtain ⟨⟨cell, small⟩, reclaimed, e⟩ := lift_bind_eq_ok.1 e
  cases e
  exact ⟨cell, small, _, reclaimed, rfl⟩

theorem freeSmall_of_reclaim {cell : Address} {small : SmallSpace}
    (e : h.small.reclaim o = .ok (cell, small)) :
    ∃ log, freeSmall o h = .ok () { h with small, log } := by
  refine ⟨.smallFreed o cell :: h.log, ?_⟩
  rw [freeSmall, get_bind_apply, liftM_eq, e, lift_ok]
  rfl

theorem setLive_eq_ok (e : setLive o h = .ok () h') :
    ∃ small, h.small.setLive o = .ok small ∧ h' = { h with small } := by
  rw [setLive, get_bind_apply] at e
  obtain ⟨small, registered, e⟩ := lift_bind_eq_ok.1 e
  cases e
  exact ⟨small, registered, rfl⟩

/-- A sweep of live objects frees those that the predicate selects, and returns how many there
are. -/
theorem sweepSmallFrom_selecting (f : σ → Ref → Bool × σ)
    (p : h.small.Parceled caches blocks) (todo : List Ref) (nodup : todo.Nodup)
    (live : ∀ o ∈ todo, o ∈ h.small.liveObjects) (n : Nat) (s : σ) :
    ∃ small log, sweepSmallFrom (fun s o => pure (f s o)) todo n s h =
        .ok (n + (selecting f todo s).1.length, (selecting f todo s).2) { h with small, log } ∧
      small.Parceled caches (blocks.filter (·.object ∉ (selecting f todo s).1)) ∧
      h.small.Grows small ∧
      ∀ o, o ∈ small.liveObjects ↔ o ∈ h.small.liveObjects ∧ o ∉ (selecting f todo s).1 := by
  induction todo generalizing h blocks n s with
  | nil => exact ⟨h.small, h.log, rfl, by simpa [selecting] using p, .refl _, by simp [selecting]⟩
  | cons o rest ih =>
    obtain ⟨new, nodup⟩ := List.nodup_cons.1 nodup
    obtain ⟨ho, live⟩ := List.forall_mem_cons.1 live
    rw [sweepSmallFrom, pure_bind_apply, selecting]
    obtain ⟨selected, s₁⟩ := f s o
    cases selected with
    | false => exact ih p nodup live n s₁
    | true =>
      obtain ⟨cell, small₁, reclaimed⟩ := p.reclaim_eq ho
      obtain ⟨p₁, grows₁⟩ := p.reclaim reclaimed
      obtain ⟨log₁, freed⟩ := freeSmall_of_reclaim reclaimed
      have member := fun x => SmallSpace.mem_liveObjects_of_reclaim (x := x) reclaimed
      have live₁ : ∀ x ∈ rest, x ∈ small₁.liveObjects := fun x hx =>
        (member x).2 ⟨live x hx, fun eq => new (eq ▸ hx)⟩
      obtain ⟨small, log, run, p₂, grows, member₂⟩ :=
        ih (h := { h with small := small₁, log := log₁ }) p₁ nodup live₁ (n + 1) s₁
      refine ⟨small, log, ?_, ?_, grows₁.trans grows, fun x => ?_⟩
      · simp only [if_true]
        rw [bind_of_ok freed, run, List.length_cons, Nat.add_right_comm, Nat.add_assoc]
      · rw [List.filter_filter] at p₂
        have same : (blocks.filter fun b => b.object ∉ o :: (selecting f rest s₁).1) =
            blocks.filter fun b => decide (b.object ∉ (selecting f rest s₁).1) &&
              decide (b.object ≠ o) := List.filter_congr fun b _ => by
          rw [← Bool.decide_and, decide_eq_decide, List.mem_cons, not_or, and_comm]
        exact same ▸ p₂
      · simp only [member₂, member, if_true, List.mem_cons, not_or]
        exact and_assoc

end HeapM

/-! ## Operations -/

/-- The space of small objects of a heap, with what its users have of it. -/
structure CellTraffic where
  heap : Heap
  allocators : List CellAllocator := []
  /-- The blocks that were handed out, and not freed. -/
  blocks : List Block := []
  /-- The objects that were registered, and not freed. -/
  registered : List Ref := []

namespace CellTraffic

/-- All pages of the range are fresh. -/
structure Fresh (t : CellTraffic) : Prop where
  pool : ∃ start limit pool, start ≤ limit ∧
    PagePool.ofRange start limit = .ok pool ∧ t.heap.small = { pages := pool }
  allocators : ∀ a ∈ t.allocators, a = {}
  blocks : t.blocks = []
  registered : t.registered = []

/-- One operation.

* `bind`: there is another allocator.
* `allocate`: an allocator is asked for a block that fits a cell, and takes a cell for it or none.
* `release`: an allocator gives its cells back.
* `register`: an object is registered where a block starts.
* `free`: an object is freed.
* `sweep`: the objects that a predicate selects are freed. They are visited in some order. -/
inductive Step : CellTraffic → CellTraffic → Prop
  | bind {t : CellTraffic} : Step t { t with allocators := {} :: t.allocators }
  | allocate {t : CellTraffic} {pre post : List CellAllocator} {a a' : CellAllocator}
    {size align offset bytes : Nat} {c : SizeClass} {cell : Option Address} {place : Address}
    {h' : Heap} :
    t.allocators = pre ++ a :: post → Alignable align offset →
    reserveSize size align = .ok bytes → SizeClass.ofBytes? bytes = some c →
    a.take c t.heap = .ok (cell, a') h' →
    a.allocate size align offset t.heap = .ok (place, a') h' →
    Step t { t with
      heap := h'
      allocators := pre ++ a' :: post
      blocks := Block.inCell cell place size align offset ++ t.blocks }
  | release {t : CellTraffic} {pre post : List CellAllocator} {a a' : CellAllocator} {h' : Heap} :
    t.allocators = pre ++ a :: post → a.release t.heap = .ok a' h' →
    Step t { t with heap := h', allocators := pre ++ a' :: post }
  | register {t : CellTraffic} {b : Block} {h' : Heap} : b ∈ t.blocks →
    HeapM.setLive b.object t.heap = .ok () h' →
    Step t { t with heap := h', registered := b.object :: t.registered }
  | free {t : CellTraffic} {o : Ref} {h' : Heap} : HeapM.freeSmall o t.heap = .ok () h' →
    Step t { t with
      heap := h'
      blocks := t.blocks.filter (·.object ≠ o)
      registered := t.registered.filter (· ≠ o) }
  | sweep {t : CellTraffic} {σ : Type} {f : σ → Ref → Bool × σ} {todo : List Ref} {s : σ}
    {r : Nat × σ} {h' : Heap} : todo.Perm t.heap.small.liveObjects →
    HeapM.sweepSmallFrom (fun s o => pure (f s o)) todo 0 s t.heap = .ok r h' →
    Step t { t with
      heap := h'
      blocks := t.blocks.filter (·.object ∉ (selecting f todo s).1)
      registered := t.registered.filter (· ∉ (selecting f todo s).1) }

/-- Some operations, one after the other. -/
abbrev Runs : CellTraffic → CellTraffic → Prop := ReflTransGen Step

/-- The cells of a class that allocators keep. -/
def cached (t : CellTraffic) (c : SizeClass) : List Address :=
  t.allocators.flatMap fun a => a.cells.get c

/-- All places of cells of a class: the stack, the caches and the blocks. -/
def cells (t : CellTraffic) (c : SizeClass) : List Address :=
  t.heap.small.free.get c ++ (t.cached c ++ t.heap.small.cellsOf c t.blocks)

variable {t t' : CellTraffic} {pre post : List CellAllocator} {a : CellAllocator} {c : SizeClass}

/-- What every operation keeps. -/
structure Sorted (t : CellTraffic) : Prop where
  parceled : t.heap.small.Parceled t.cached t.blocks
  aligned : ∀ b ∈ t.blocks, b.IsAligned
  live : t.heap.small.liveObjects.Perm t.registered

theorem Fresh.sorted (f : t.Fresh) : t.Sorted := by
  obtain ⟨start, limit, pool, order, ranged, eq⟩ := f.pool
  obtain ⟨aligned, rfl⟩ := PagePool.History.of_ofRange ranged
  have unused : ∀ c, t.cached c = [] := fun c => List.flatMap_eq_nil_iff.2 fun a ha => by
    rw [f.allocators a ha]
    exact CellAllocator.get_empty c
  have noLive : t.heap.small.liveObjects = [] := by
    rw [eq]
    rfl
  refine ⟨?_, fun b hb => absurd (f.blocks ▸ hb) List.not_mem_nil,
    .of_eq (noLive.trans f.registered.symm)⟩
  rw [eq, f.blocks]
  exact (SmallSpace.Parceled.fresh ⟨rfl, Nat.le_refl _, order, aligned⟩).perm fun c =>
    .of_eq (unused c).symm

/-- The cells of one allocator among those of all. -/
theorem cached_perm (split : t.allocators = pre ++ a :: post) (c : SizeClass) :
    (t.cached c).Perm (a.cells.get c ++ (pre ++ post).flatMap fun a => a.cells.get c) := by
  rw [cached, split]
  exact List.perm_middle.flatMap_right _

theorem Sorted.nodup (st : t.Sorted) : t.registered.Nodup :=
  st.live.nodup_iff.1 (Heap.nodup_liveObjects _)

theorem Sorted.step (st : t.Sorted) (step : Step t t') :
    t'.Sorted ∧ t.heap.small.Grows t'.heap.small := by
  cases step with
  | bind =>
    refine ⟨⟨st.parceled.perm fun c => .of_eq ?_, st.aligned, st.live⟩, .refl _⟩
    rw [cached, cached, List.flatMap_cons, CellAllocator.get_empty, List.nil_append]
  | allocate split ok reserved found taken e =>
    obtain ⟨small, log, rfl, grows, live, p, aligned, -⟩ := CellAllocator.parceled_of_take ok
      (st.parceled.perm (cached_perm split)) reserved found taken e
    refine ⟨⟨p.perm fun c => (cached_perm rfl c).symm,
      fun b hb => ?_, ?_⟩, grows⟩
    · exact (List.mem_append.1 hb).elim (aligned b) (st.aligned b)
    · dsimp only
      rw [SmallSpace.liveObjects, live]
      exact st.live
  | release split e =>
    obtain ⟨free, rfl, rfl, p⟩ :=
      CellAllocator.parceled_of_release (st.parceled.perm (cached_perm split)) e
    refine ⟨⟨p.perm fun c => ?_, st.aligned, st.live⟩, ⟨rfl, rfl, fun _ _ k => k⟩⟩
    refine .trans (.of_eq ?_) (cached_perm rfl c).symm
    rw [CellAllocator.get_empty, List.nil_append]
  | @register b h' hb e =>
    obtain ⟨small, registered, rfl⟩ := HeapM.setLive_eq_ok e
    obtain ⟨p, grows, new, member⟩ := st.parceled.register hb registered
    refine ⟨⟨p, st.aligned, ?_⟩, grows⟩
    have nodup : (b.object :: t.registered).Nodup :=
      List.nodup_cons.2 ⟨fun ho => new (st.live.mem_iff.2 ho), st.nodup⟩
    refine (List.perm_ext_iff_of_nodup (Heap.nodup_liveObjects _) nodup).2 fun o => ?_
    rw [List.mem_cons, ← st.live.mem_iff, member]
  | @free o h' e =>
    obtain ⟨cell, small, log, reclaimed, rfl⟩ := HeapM.freeSmall_eq_ok e
    obtain ⟨p, grows⟩ := st.parceled.reclaim reclaimed
    refine ⟨⟨p, fun b hb => st.aligned b (List.mem_filter.1 hb).1,
      (List.perm_ext_iff_of_nodup (Heap.nodup_liveObjects _) (st.nodup.filter _)).2 fun x => ?_⟩,
      grows⟩
    rw [List.mem_filter, decide_eq_true_eq, ← st.live.mem_iff,
      SmallSpace.mem_liveObjects_of_reclaim reclaimed]
  | @sweep σ f todo s r h' perm e =>
    obtain ⟨small, log, run, p, grows, member⟩ := HeapM.sweepSmallFrom_selecting f st.parceled todo
      (perm.nodup_iff.2 (Heap.nodup_liveObjects _)) (fun o ho => perm.mem_iff.1 ho) 0 s
    cases e.symm.trans run
    refine ⟨⟨p, fun b hb => st.aligned b (List.mem_filter.1 hb).1,
      (List.perm_ext_iff_of_nodup (Heap.nodup_liveObjects _) (st.nodup.filter _)).2 fun x => ?_⟩,
      grows⟩
    rw [List.mem_filter, decide_eq_true_eq, ← st.live.mem_iff, member]

theorem Sorted.run (st : t.Sorted) (run : Runs t t') :
    t'.Sorted ∧ t.heap.small.Grows t'.heap.small := by
  induction run with
  | refl => exact ⟨st, .refl _⟩
  | tail _ step ih =>
    obtain ⟨st, grows⟩ := ih
    obtain ⟨st', grows'⟩ := st.step step
    exact ⟨st', grows.trans grows'⟩

/-- Where the cells are, and which objects live in them. -/
structure Partitioned (t : CellTraffic) : Prop where
  /-- A cell of a page that was cut is in one place, and it is there once. -/
  once : ∀ page c, t.heap.small.classes.get? page = some c →
    ∀ a ∈ SmallSpace.pageCells page c, (t.cells c).count a = 1
  /-- Nothing else is on a stack, in a cache or below a block. -/
  cells : ∀ c, ∀ a ∈ t.cells c, c.cellSize ∣ a ∧
    ∃ page, t.heap.small.classes.get? page = some c ∧ a ∈ SmallSpace.pageCells page c
  blocks : ∀ b ∈ t.blocks, b.IsAligned ∧ ∃ c, t.heap.small.Keeps c b
  live : t.heap.small.liveObjects.Perm t.registered

theorem Sorted.partitioned (st : t.Sorted) : t.Partitioned where
  once _ c found _ ha := List.count_eq_one_of_mem (st.parceled.cut.nodup c)
    (st.parceled.cut.mem_of_pageCells found ha)
  cells _ _ ha := st.parceled.cut.page_of_mem ha
  blocks b hb := ⟨st.aligned b hb, st.parceled.keeps b hb⟩
  live := st.live

/-- A sweep of the objects `todo` frees the live objects that its predicate selects and no others,
and returns how many there are. -/
def Sweeps {σ : Type} (t : CellTraffic) (f : σ → Ref → Bool × σ) (s : σ) (todo : List Ref)
    (sweep : HeapM (Nat × σ)) : Prop :=
  ∃ h', sweep t.heap = .ok ((selecting f todo s).1.length, (selecting f todo s).2) h' ∧
    ∀ o, o ∈ h'.small.liveObjects ↔
      o ∈ t.heap.small.liveObjects ∧ o ∉ (selecting f todo s).1

theorem Sorted.sweeps {σ : Type} (st : t.Sorted) (f : σ → Ref → Bool × σ) (s : σ) {todo : List Ref}
    (perm : todo.Perm t.heap.small.liveObjects) :
    t.Sweeps f s todo (HeapM.sweepSmallFrom (fun s o => pure (f s o)) todo 0 s) := by
  obtain ⟨small, log, run, -, -, member⟩ := HeapM.sweepSmallFrom_selecting f st.parceled todo
    (perm.nodup_iff.2 (Heap.nodup_liveObjects _)) (fun o ho => perm.mem_iff.1 ho) 0 s
  rw [Nat.zero_add] at run
  exact ⟨_, run, member⟩

/-- From a fresh space on, the cells stay partitioned, and a page keeps its class. Every live object
can be freed, and sweeps are exact in whatever order they visit the objects. -/
theorem cells_are_partitioned {t₀ t : CellTraffic} (fresh : t₀.Fresh) (run : Runs t₀ t) :
    t.Partitioned ∧
      (∀ t', Runs t t' → ∀ page c, t.heap.small.classes.get? page = some c →
        t'.heap.small.classes.get? page = some c) ∧
      (∀ o ∈ t.heap.small.liveObjects, ∃ h', HeapM.freeSmall o t.heap = .ok () h' ∧
        ∀ x, x ∈ h'.small.liveObjects ↔ x ∈ t.heap.small.liveObjects ∧ x ≠ o) ∧
      ∀ (σ : Type) (f : σ → Ref → Bool × σ) (s : σ),
        t.Sweeps f s t.heap.small.liveObjects
          (HeapM.sweepSmall (fun s o => pure (f s o)) s) ∧
        ∀ todo, todo.Perm t.heap.small.liveObjects →
          t.Sweeps f s todo (HeapM.sweepSmallFrom (fun s o => pure (f s o)) todo 0 s) := by
  have st := (fresh.sorted.run run).1
  refine ⟨st.partitioned, fun t' run' => (st.run run').2.classes, fun o ho => ?_,
    fun σ f s => ⟨?_, fun todo perm => st.sweeps f s perm⟩⟩
  · obtain ⟨cell, small, reclaimed⟩ := st.parceled.reclaim_eq ho
    obtain ⟨log, freed⟩ := HeapM.freeSmall_of_reclaim reclaimed
    exact ⟨_, freed, fun x => SmallSpace.mem_liveObjects_of_reclaim reclaimed⟩
  · obtain ⟨h', swept, member⟩ := st.sweeps f s (.refl _)
    let freed := (selecting f t.heap.small.liveObjects s).1.length
    refine ⟨{ h' with log := .smallSwept freed :: h'.log }, ?_, member⟩
    rw [HeapM.sweepSmall, HeapM.get_bind_apply, HeapM.bind_of_ok swept]
    rfl

/-- A page with two cells: a block lies in one of them, the other one was given back. -/
theorem cells_are_partitioned_one_page : ∃ t₀ t : CellTraffic, t₀.Fresh ∧ Runs t₀ t ∧
    t.blocks = [⟨Heap.smallStart + 4, 1500, 8, 4⟩] ∧
    t.heap.small.classes.get? Heap.smallStart = some 7 ∧
    t.cells 7 = [Heap.smallStart + 2048, Heap.smallStart] ∧
    (t.cells 7).count Heap.smallStart = 1 ∧
    t.heap.small.liveObjects.Perm [⟨Heap.smallStart + 4⟩] ∧
    ∃ h', HeapM.sweepSmall (fun (s : Unit) _ => pure (true, s)) () t.heap = .ok (1, ()) h' := by
  have fresh : Fresh { heap := Heap.ofSettings {} } :=
    ⟨⟨Heap.smallStart, Heap.largeStart, _, by decide, rfl, rfl⟩, nofun, rfl, rfl⟩
  have bound := ReflTransGen.refl.tail (Step.bind (t := { heap := Heap.ofSettings {} }))
  have served := bound.tail (@Step.allocate _ [] [] _ _ 1500 8 4 _ _ _ _ _ rfl
    ⟨.inr rfl, by decide, by decide⟩ rfl rfl rfl rfl)
  have registered := served.tail (Step.register (b := ⟨Heap.smallStart + 4, 1500, 8, 4⟩)
    List.mem_cons_self rfl)
  have released := registered.tail (@Step.release _ [] [] _ _ _ rfl rfl)
  obtain ⟨parts, -, -, sweeps⟩ := cells_are_partitioned fresh released
  obtain ⟨h', swept, -⟩ := (sweeps Unit (fun s _ => (true, s)) ()).1
  exact ⟨_, _, fresh, released, rfl, rfl, rfl, parts.once Heap.smallStart 7 rfl _ (by decide),
    parts.live, h', swept⟩

end CellTraffic

end DeferredCount
