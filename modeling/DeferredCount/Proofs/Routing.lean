import DeferredCount.Proofs.Estates

/-!
# One space for each object

The space of an object is settled three times. A request goes to an allocator, by its semantics and
by the bytes that it reserves. When the object is registered its address decides, and so it does
when the object is freed, together with the page of the address and the class of that page. An
offset may have moved the object away from the start of its memory. All of these agree.

Results:
1. `Allocators.Takes.space_eq`: the memory of a request comes from the space that is to serve it.
2. `Estate.Sound.register_eq`, `Estate.Sound.free_eq`: that space registers the object, and gets
   back what the request took.
3. `Estate.objects_keep_to_their_space`: at any point, from the request on.
-/

namespace DeferredCount

/-! ## The spaces of requests and objects -/

/-- The first address of a space. -/
def SpaceId.start : SpaceId → Address
  | .small => Heap.smallStart
  | .large => Heap.largeStart
  | .permanent => Heap.permanentStart

/-- The address behind a space. -/
def SpaceId.stop : SpaceId → Address
  | .small => Heap.largeStart
  | .large => Heap.permanentStart
  | .permanent => Heap.scratchStart

theorem SpaceId.inside (σ : SpaceId) : Heap.smallStart ≤ σ.start ∧ σ.stop ≤ Heap.memoryEnd := by
  cases σ <;> decide

/-- The space that is to serve a request. -/
def spaceFor? (size align : Nat) : Semantics → Option SpaceId
  | .immortal | .code => some .permanent
  | .los | .largeCode | .primitiveLos => some .large
  | .default | .nonMoving => some (if maxCell < roomFor size align then .large else .small)
  | .readOnly => none

namespace Ground

/-- The space that the memory belongs to. -/
def space : Ground → SpaceId
  | .cell .. => .small
  | .pages _ => .large
  | .slice => .permanent

/-- The memory goes back to its space: a cell to the stack of its class, pages to the pool. Nothing
else goes back. -/
def Returned (h h' : Heap) : Ground → Prop
  | .cell c a => h'.small.free = h.small.free.put c (a :: h.small.free.get c) ∧
    h'.small.pages = h.small.pages ∧ h'.large = h.large ∧ h'.permanent = h.permanent
  | .pages run => h.large.pages.release run.start run.pages = .ok h'.large.pages ∧
    h'.small = h.small ∧ h'.permanent = h.permanent
  | .slice => False

end Ground

namespace Heap

variable {h : Heap} {o : Ref} {space : SpaceId}

/-- Does an object lie in the range of a space? -/
def inRange (h : Heap) (o : Ref) : SpaceId → Bool
  | .small => h.small.holds o
  | .large => h.large.holds o
  | .permanent => h.isPermanent o

/-- Does a space take an object for live? All permanent objects are. -/
def livesIn (h : Heap) (o : Ref) : SpaceId → Bool
  | .small => h.small.isLive o
  | .large => h.large.contains o
  | .permanent => h.isPermanent o

/-- An object lies in one space and is live because that space says so. -/
structure LivesThrough (h : Heap) (o : Ref) (space : SpaceId) : Prop where
  range : ∀ σ, h.inRange o σ = true ↔ σ = space
  there : h.livesIn o space = true
  live : h.isLive o = true

/-- The space of an object decides whether it is live. -/
theorem isLive_eq (range : ∀ σ, h.inRange o σ = true ↔ σ = space) :
    h.isLive o = h.livesIn o space := by
  have small : h.small.holds o = true ↔ SpaceId.small = space := range .small
  have large : h.large.holds o = true ↔ SpaceId.large = space := range .large
  unfold isLive
  cases space with
  | small => rw [if_pos (small.2 rfl)]; rfl
  | large => rw [if_neg (mt small.1 nofun), if_pos (large.2 rfl)]; rfl
  | permanent => rw [if_neg (mt small.1 nofun), if_neg (mt large.1 nofun)]; rfl

theorem LivesThrough.of_range (range : ∀ σ, h.inRange o σ = true ↔ σ = space)
    (there : h.livesIn o space = true) : h.LivesThrough o space :=
  ⟨range, there, (isLive_eq range).trans there⟩

namespace Supplied

variable {σ τ : SpaceId}

theorem inRange_iff (st : h.Supplied) :
    h.inRange o σ = true ↔ σ.start ≤ o.addr ∧ o.addr < σ.stop := by
  cases σ with
  | small => exact st.small_holds_iff
  | large => exact st.large_holds_iff
  | permanent => exact st.isPermanent_iff

/-- No address belongs to two spaces. -/
theorem inRange_unique (st : h.Supplied) (one : h.inRange o σ = true)
    (other : h.inRange o τ = true) : σ = τ := by
  rw [st.inRange_iff] at one other
  cases σ <;> cases τ <;> first
    | rfl
    | (dsimp only [Address, SpaceId.start, SpaceId.stop, Heap.smallStart, Heap.largeStart,
        Heap.permanentStart, Heap.scratchStart] at one other
       omega)

end Supplied

end Heap

/-- The space of an allocator. -/
def AllocatorKind.space? : AllocatorKind → Option SpaceId
  | .bumpPointer => some .permanent
  | .largeObject => some .large
  | .freeList => some .small
  | .none => Option.none

/-- The allocator of a request belongs to the space that is to serve it. -/
theorem Mutator.spaceFor?_eq {size align : Nat} {s : Semantics} {k : AllocatorKind}
    (chosen : allocatorFor size align s = .ok k)
    (room : k ≠ .bumpPointer → reserveSize size align = .ok (roomFor size align)) :
    spaceFor? size align s = k.space? := by
  have sized : (do
      let bytes ← reserveSize size align
      return if maxCell < bytes then .largeObject else .freeList) = Except.ok k →
      some (if maxCell < roomFor size align then .large else .small) = k.space? := fun chosen => by
    obtain ⟨bytes, reserved, e⟩ := Except.bind_eq_ok.1 chosen
    obtain rfl := Except.ok.inj e
    have same : bytes = roomFor size align := by
      refine Except.ok.inj (reserved.symm.trans (room ?_))
      split <;> nofun
    rw [← same]
    split <;> rfl
  cases s with
  | default => exact sized chosen
  | nonMoving => exact sized chosen
  | readOnly => cases chosen
  | immortal | code | los | largeCode | primitiveLos =>
    cases chosen
    rfl

/-- A request takes memory of the space that is to serve it. -/
theorem Allocators.Takes.space_eq {a a' : Allocators} {k : AllocatorKind} {h h' : Heap}
    {size align offset : Nat} {place : Address} {ground : Ground} {s : Semantics}
    (t : a.Takes size align offset h k place ground a' h')
    (chosen : Mutator.allocatorFor size align s = .ok k) :
    spaceFor? size align s = some ground.space := by
  cases t with
  | cell reserved _ _ placed =>
    have room := eq_roomFor_of_reserveSize (supported_of_alignPlace placed) reserved
    exact Mutator.spaceFor?_eq chosen fun _ => room ▸ reserved
  | pages reserved _ _ placed =>
    have room := eq_roomFor_of_reserveSize (supported_of_alignPlace placed) reserved
    exact Mutator.spaceFor?_eq chosen fun _ => room ▸ reserved
  | slice => exact Mutator.spaceFor?_eq chosen fun other => absurd rfl other

/-! ## Requests that fail -/

namespace Mutator

variable {m : Mutator} {size align offset : Nat} {s : Semantics} {h h' : Heap} {f : Fault}
  {o : Ref}

/-- No request fails because it is too large for a cell. -/
theorem ne_tooLarge (st : h.Supplied) (own : m.allocators.Supplied) (ok : Alignable align offset)
    (supported : s.allocator ≠ .none) (e : m.allocate size align offset s h = .error f h')
    (n : Nat) : f ≠ .tooLarge n := by
  rcases hingesOn_servable st own ok supported with ⟨-, answers⟩ | ⟨-, f', k, failed, slips⟩
  · cases answers with
    | granted run => cases e.symm.trans run
    | refused run => cases e.symm.trans run
    | reported run =>
      cases e.symm.trans run
      nofun
  · cases e.symm.trans failed
    rcases slips with rfl | rfl | rfl <;> nofun

/-! ## Registering -/

/-- The header of an object of a space can be written. -/
theorem initHeader_of_range (low : Heap.smallStart ≤ o.addr) (high : o.addr < Heap.memoryEnd)
    (logged fresh : Bool) (h : Heap) :
    ∃ memory, initHeader o 1 logged fresh h = .ok () { h with memory } := by
  obtain ⟨hd, made⟩ : ∃ hd, Header.initial 1 logged fresh = .ok hd := ⟨_, rfl⟩
  have there : (o.addr - Memory.start) / bytesPerWord < Memory.wordCount := by
    dsimp only [Address, Heap.smallStart, Heap.memoryEnd, Memory.start, bytesPerWord,
      Memory.wordCount] at *
    omega
  have index : Memory.index o.addr = .ok ((o.addr - Memory.start) / bytesPerWord) := by
    rw [Memory.index, distance, if_pos low, Except.ok_bind, if_pos there]
    rfl
  refine ⟨h.memory.setWord ((o.addr - Memory.start) / bytesPerWord) hd.toWord, ?_⟩
  rw [initHeader, HeapM.liftM_eq, made, HeapM.lift_ok, HeapM.pure_bind_apply, HeapM.change,
    HeapM.get_bind_apply, Memory.store, index]
  rfl

theorem register_of_enroll {counted : Bool} {k : Heap} (low : Heap.smallStart ≤ o.addr)
    (high : o.addr < Heap.memoryEnd) (e : HeapM.enroll o s h = .ok counted k) :
    ∃ m' memory pools, m.register o s h = .ok m' { k with memory, pools } := by
  obtain ⟨logged, fresh, rest, eq, total⟩ := m.introduce_eq_bind o counted
  obtain ⟨memory, written⟩ := initHeader_of_range low high logged fresh k
  obtain ⟨m', pools, run, -⟩ := total { k with memory }
  refine ⟨m', memory, pools, ?_⟩
  rw [register_eq, HeapM.bind_of_ok e, eq, HeapM.bind_of_ok written, run]

end Mutator

namespace Estate

variable {t t' : Estate} {g : Grant} {h' : Heap} {m : Mutator} {ms rest : List Mutator}
  {gone : List Allocators}

/-- What an instance does with the object of a grant, whose space is that of its memory. -/
structure KeepsTo (t : Estate) (g : Grant) : Prop where
  /-- The object lies in the range of its space alone. -/
  range : ∀ σ, t.heap.inRange g.object σ = true ↔ σ = g.ground.space
  /-- A counted object is live if it is registered. -/
  live : g.ground.space.isCounted = true → t.heap.isLive g.object = g.isRegistered t.heap
  /-- Any mutator can register the object once, and then it is live. -/
  registers : g.isRegistered t.heap = false → ∀ (m : Mutator) (s : Semantics), ∃ m' h',
    m.register g.object s t.heap = .ok m' h' ∧ h'.LivesThrough g.object g.ground.space
  /-- When the object is freed, its space gets back what the request took. -/
  frees : g.isRegistered t.heap = true → ∃ h', HeapM.free g.object t.heap = .ok () h' ∧
    g.ground.Returned t.heap h' ∧ h'.isLive g.object = false

namespace Sound

/-- The object of a grant lies in the space of its memory, and in no other one. -/
theorem range (st : t.Sound) (hg : g ∈ t.grants)
    (below : g.ground = .slice → g.place < Heap.scratchStart) (σ : SpaceId) :
    t.heap.inRange g.object σ = true ↔ σ = g.ground.space := by
  have mine : t.heap.inRange g.object g.ground.space = true := by
    cases mine : g.ground with
    | cell c a => exact st.small.holds hg mine
    | pages run => exact st.large.holds hg mine
    | slice => exact st.supplied.heap.isPermanent_iff.2 ⟨st.permanent g hg mine, below mine⟩
  exact ⟨fun there => st.supplied.heap.inRange_unique there mine, fun eq => eq ▸ mine⟩

/-- The ranges of the spaces do not change. -/
theorem range_later (st : t.Sound) (hg : g ∈ t.grants)
    (below : g.ground = .slice → g.place < Heap.scratchStart) (st' : h'.Supplied) (σ : SpaceId) :
    h'.inRange g.object σ = true ↔ σ = g.ground.space := by
  rw [st'.inRange_iff, ← st.supplied.heap.inRange_iff]
  exact st.range hg below σ

/-- The object of a new grant is not registered yet. -/
theorem not_registered (st : t.Sound) (st' : Sound ⟨h', ms, g :: t.grants, gone⟩)
    (live : h'.small.live = t.heap.small.live) (cells : h'.large.cells = t.heap.large.cells) :
    g.isRegistered h' = false := by
  cases mine : g.ground with
  | cell c a =>
    rw [Grant.isRegistered_cell mine, SmallSpace.isLive, live, ← SmallSpace.isLive,
      Bool.eq_false_iff, ne_eq, ← Heap.mem_liveObjects]
    intro there
    obtain ⟨x, hx, same, d, b, its⟩ := st.small.live _ there
    obtain rfl :=
      st'.small.eq_of_object List.mem_cons_self (List.mem_cons_of_mem _ hx) mine its same
    have nodup := st'.small.nodup c
    rw [Grant.cellsOf_cons, Grant.cell?_eq_some_iff.2 mine] at nodup
    exact (List.nodup_cons.1 nodup).1 (Grant.mem_cellsOf.2 ⟨x, hx, mine⟩)
  | pages run =>
    rw [Grant.isRegistered_pages mine, LargeSpace.contains, cells, ← LargeSpace.contains,
      Bool.eq_false_iff, ne_eq, st.large.kept.contains_iff]
    intro there
    obtain ⟨x, hx, same, run', its⟩ := st.large.listed _ there
    obtain rfl :=
      st'.large.eq_of_object List.mem_cons_self (List.mem_cons_of_mem _ hx) mine its same
    exact (List.pairwise_cons.1 st'.large.apart).1 x hx run run mine mine rfl
  | slice => rw [Grant.isRegistered, mine]

/-- The space of a grant takes its object, and then takes it for live. -/
theorem enroll_eq (st : t.Sound) (hg : g ∈ t.grants)
    (below : g.ground = .slice → g.place < Heap.scratchStart)
    (new : g.isRegistered t.heap = false) (s : Semantics) :
    ∃ counted k, HeapM.enroll g.object s t.heap = .ok counted k ∧
      k.livesIn g.object g.ground.space = true := by
  have range := st.range hg below
  have other : ∀ σ, σ ≠ g.ground.space → t.heap.inRange g.object σ = false := fun σ ne =>
    Bool.eq_false_iff.2 fun there => ne ((range σ).1 there)
  cases mine : g.ground with
  | cell c a =>
    rw [mine] at range other
    rw [Grant.isRegistered_cell mine] at new
    exact ⟨_, _, HeapM.enroll_small s (other .permanent nofun) (other .large nofun)
      ((range .small).2 rfl) new, Std.ExtTreeSet.contains_insert_self⟩
  | pages run =>
    rw [mine] at range other
    rw [Grant.isRegistered_pages mine] at new
    obtain ⟨claimed, large, claim, link, kept, cells, -⟩ :=
      st.large.kept.enlist (st.large.pending_of_not_listed hg mine new)
    refine ⟨_, _, HeapM.enroll_large s (other .permanent nofun) ((range .large).2 rfl) claim link,
      kept.contains_iff.2 ?_⟩
    rw [LargeSpace.objects, cells]
    exact List.mem_cons_self
  | slice =>
    rw [mine] at range
    exact ⟨_, _, HeapM.enroll_permanent s ((range .permanent).2 rfl), (range .permanent).2 rfl⟩

/-- Any mutator can register the object of a grant that is not registered. -/
theorem register_eq (st : t.Sound) (hg : g ∈ t.grants)
    (below : g.ground = .slice → g.place < Heap.scratchStart)
    (new : g.isRegistered t.heap = false) (m : Mutator) (s : Semantics) :
    ∃ m' h', m.register g.object s t.heap = .ok m' h' ∧
      h'.LivesThrough g.object g.ground.space := by
  have range := st.range hg below
  obtain ⟨low, high⟩ := st.supplied.heap.inRange_iff.1 ((range _).2 rfl)
  obtain ⟨counted, k, enrolled, there⟩ := st.enroll_eq hg below new s
  obtain ⟨m', memory, pools, done⟩ := m.register_of_enroll
    (Nat.le_trans (SpaceId.inside _).1 low) (Nat.lt_of_lt_of_le high (SpaceId.inside _).2) enrolled
  have supplied : ({ k with memory, pools } : Heap).Supplied :=
    (st.supplied.heap.enroll enrolled).congr rfl rfl rfl
  exact ⟨m', _, done, .of_range (st.range_later hg below supplied) there⟩

/-- The object of a grant that is registered can be freed. -/
theorem free_eq (st : t.Sound) (hg : g ∈ t.grants) (registered : g.isRegistered t.heap = true) :
    ∃ h', HeapM.free g.object t.heap = .ok () h' ∧ g.ground.Returned t.heap h' ∧
      h'.livesIn g.object g.ground.space = false := by
  cases mine : g.ground with
  | cell c a =>
    rw [Grant.isRegistered_cell mine] at registered
    obtain ⟨found, start⟩ := st.small.finds hg mine
    have reclaimed := SmallSpace.reclaim_eq (Heap.mem_liveObjects.2 registered) found
    obtain ⟨log, freed⟩ := HeapM.freeSmall_of_reclaim reclaimed
    have run : HeapM.free g.object t.heap = HeapM.freeSmall g.object t.heap := by
      rw [HeapM.free, HeapM.get_bind_apply, if_pos (st.small.holds hg mine)]
    refine ⟨_, run.trans freed, ⟨?_, rfl, rfl, rfl⟩, Bool.eq_false_iff.2 fun there => ?_⟩
    · rw [← start]
      rfl
    · have member := SmallSpace.mem_liveObjects_of_reclaim (x := g.object) reclaimed
      exact (member.1 (Heap.mem_liveObjects.2 there)).2 rfl
  | pages run =>
    rw [Grant.isRegistered_pages mine, st.large.kept.contains_iff] at registered
    obtain ⟨large, f⟩ := st.large.kept.frees_eq registered
    obtain ⟨log, freed⟩ := HeapM.freeLarge_of_frees f
    have objects := st.large.kept.objects_of_frees f
    obtain ⟨-, c, -, -, -, -, release, perm, kept⟩ := st.large.kept.of_frees f
    have same := st.large.run_eq hg mine (perm.mem_iff.2 List.mem_cons_self)
    have range := st.range hg fun slice => by cases mine.symm.trans slice
    have small : ¬t.heap.small.holds g.object = true := fun there => by
      cases mine ▸ (range .small).1 there
    have run : HeapM.free g.object t.heap = HeapM.freeLarge g.object t.heap := by
      rw [HeapM.free, HeapM.get_bind_apply, if_neg small, st.large.holds hg mine]
      rfl
    refine ⟨_, run.trans freed, ⟨?_, rfl, rfl⟩, Bool.eq_false_iff.2 fun there => ?_⟩
    · rw [← same]
      exact release
    · have listed := kept.contains_iff.1 there
      rw [objects] at listed
      exact absurd rfl (of_decide_eq_true (List.mem_filter.1 listed).2)
  | slice =>
    rw [Grant.isRegistered, mine] at registered
    cases registered

theorem keepsTo (st : t.Sound) (hg : g ∈ t.grants)
    (below : g.ground = .slice → g.place < Heap.scratchStart) : t.KeepsTo g where
  range := st.range hg below
  live counted := by
    rw [Heap.isLive_eq (st.range hg below)]
    cases mine : g.ground with
    | cell c a => rw [Grant.isRegistered_cell mine]; rfl
    | pages run => rw [Grant.isRegistered_pages mine]; rfl
    | slice => rw [mine] at counted; cases counted
  registers new m s := st.register_eq hg below new m s
  frees registered := by
    obtain ⟨h', freed, returned, dead⟩ := st.free_eq hg registered
    have supplied := st.supplied.heap.onlyFrees (HeapM.free_onlyFrees _) freed
    refine ⟨h', freed, returned, ?_⟩
    rw [Heap.isLive_eq (st.range_later hg below supplied), dead]

end Sound

/-- Whatever an instance has come to, no request fails because it is too large for a cell. If a
request gets a place, its memory was taken from the space that is to serve it. From then on, until
the object is freed, its address leads to that space: any mutator can register the object there, and
when it is freed the space gets back what the request took. -/
theorem objects_keep_to_their_space {settings : Settings} {client : Client}
    {size align offset : Nat} {s : Semantics} (run : Runs (fresh settings client) t)
    (perm : t.mutators.Perm (m :: rest)) (pos : 0 < size) (ok : Alignable align offset)
    (supported : s.allocator ≠ .none) :
    (∀ f h', m.allocate size align offset s t.heap = .error f h' → ∀ n, f ≠ .tooLarge n) ∧
    ∀ place m' h', m.allocate size align offset s t.heap = .ok (place, m') h' → place ≠ 0 →
      ∃ k ground, Mutator.allocatorFor size align s = .ok k ∧
        m.allocators.Takes size align offset t.heap k place ground m'.allocators h' ∧
        spaceFor? size align s = some ground.space ∧
        Runs t ⟨h', m' :: rest, ⟨place, ground⟩ :: t.grants, t.gone⟩ ∧
        Grant.isRegistered ⟨place, ground⟩ h' = false ∧
        ∀ t', Runs ⟨h', m' :: rest, ⟨place, ground⟩ :: t.grants, t.gone⟩ t' →
          ⟨place, ground⟩ ∈ t'.grants → t'.KeepsTo ⟨place, ground⟩ := by
  have st : t.Sound := (Sound.fresh settings client).run run
  have listed := st.supplied_first perm
  refine ⟨fun f h' e => Mutator.ne_tooLarge listed.heap listed.own_self ok supported e,
    fun place m' h' e some => ?_⟩
  obtain ⟨k, ground, chosen, taken, step⟩ := Step.of_allocate perm e some
  obtain ⟨-, -, within, live, cells⟩ :=
    taken.backs listed.heap listed.own_self some (st.small_first perm) st.large
  refine ⟨k, ground, chosen, taken, taken.space_eq chosen, .single step,
    st.not_registered (st.step step) live cells, fun t' later there => ?_⟩
  refine ((st.step step).run later).keepsTo there fun slice => ?_
  exact Nat.lt_of_lt_of_le (Nat.lt_add_of_pos_right pos) (within slice).2

/-- A fresh mutator gets a cell for 2040 bytes, four bytes behind which an address is aligned, so
the object does not start where its cell starts. It is registered and freed, and the cell is
back. -/
theorem objects_keep_to_their_space_shifted : ∃ m h₁ m' h₂ n h₃ h₄,
    Mutator.bind (fresh {} {}).heap = .ok m h₁ ∧
      m.allocate 2040 8 4 .default h₁ = .ok (Heap.smallStart + 4, m') h₂ ∧
      m'.register ⟨Heap.smallStart + 4⟩ .default h₂ = .ok n h₃ ∧
      h₃.LivesThrough ⟨Heap.smallStart + 4⟩ .small ∧
      HeapM.free ⟨Heap.smallStart + 4⟩ h₃ = .ok () h₄ ∧
      h₄.small.free = h₃.small.free.put 7 (Heap.smallStart :: h₃.small.free.get 7) := by
  have run : Runs (fresh {} {}) ⟨_, [_], [], []⟩ := .single (.bind rfl)
  have routes := @objects_keep_to_their_space _ _ [] {} {} 2040 8 4 .default run (.refl _)
    (by decide) ⟨.inr rfl, by decide, by decide⟩ nofun
  obtain ⟨k, ground, chosen, taken, -, -, new, later⟩ := routes.2 _ _ _ rfl (by decide)
  cases chosen
  obtain rfl := Allocators.Takes.unique (.cell rfl rfl rfl rfl) taken
  have asked := later _ .refl List.mem_cons_self
  obtain ⟨n, h₃, done, lives⟩ := asked.registers new _ .default
  have there := later _ (.single (.register (.refl _) List.mem_cons_self done)) List.mem_cons_self
  obtain ⟨h₄, freed, returned, -⟩ := there.frees lives.there
  exact ⟨_, _, _, _, n, h₃, h₄, rfl, rfl, done, lives, freed, returned.1⟩

end Estate

end DeferredCount
