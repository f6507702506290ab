import DeferredCount.Proofs.Creating
import DeferredCount.Proofs.Leases
import DeferredCount.Proofs.Partition
import DeferredCount.Proofs.Slices

/-!
# Blocks never overlap

Any number of mutators ask for memory of all three spaces, register objects in it, free counted ones
and give cells back. Whatever the order of all this, the blocks that were handed out and not freed
do not meet, each lies in the range of one space, and each is aligned as it was asked for.

Each space is responsible for the blocks in its range. So the invariant is that of the three spaces,
with the allocators of all mutators, and an operation concerns one of the spaces alone.

Results:
1. `Heap.Parted.allocate`, `Heap.Parted.enroll`, `Heap.Parted.free`, `Heap.Parted.release`: what
   each operation keeps.
2. `Traffic.live_blocks_never_overlap`: what holds after every sequence of operations.
-/

namespace DeferredCount

open Relation

/-! ## What the operations are made of -/

namespace HeapM

variable {h h' : Heap} {o : Ref} {s : Semantics} {f : Fault}

/-- A computation without effects fails, or what comes after it does. -/
theorem lift_bind_eq_error {α β : Type} {x : Except Fault α} {g : α → HeapM β} :
    ((liftM x : HeapM α) >>= g) h = .error f h' ↔
      (x = .error f ∧ h' = h) ∨ ∃ a, x = .ok a ∧ g a h = .error f h' := by
  cases x with
  | ok a => simp
  | error e =>
    rw [liftM_eq, lift_error, bind_of_error (throw_apply e h)]
    simp [eq_comm]

theorem free_eq_ok (e : free o h = .ok () h') :
    (h.small.holds o = true ∧ freeSmall o h = .ok () h') ∨
      h.large.holds o = true ∧ freeLarge o h = .ok () h' := by
  rw [free, get_bind_apply] at e
  split at e
  · next small => exact .inl ⟨small, e⟩
  · obtain ⟨_, large, e⟩ := lift_bind_eq_ok.1 e
    exact .inr ⟨of_require large, e⟩

theorem enroll_eq_ok {counted : Bool} (e : enroll o s h = .ok counted h') :
    h' = { h with permanent := h.permanent.register o } ∨
      (h.large.holds o = true ∧ registerLarge o h = .ok () h') ∨
        h.small.holds o = true ∧ setLive o h = .ok () h' := by
  rw [enroll, get_bind_apply] at e
  split at e
  · cases e
    exact .inl rfl
  · refine .inr ?_
    split at e
    · next large =>
      obtain ⟨_, k, registered, e⟩ := bind_eq_ok.1 e
      cases e
      exact .inl ⟨large, registered⟩
    · split at e
      · next small =>
        obtain ⟨_, k, registered, e⟩ := bind_eq_ok.1 e
        cases e
        exact .inr ⟨small, registered⟩
      · cases e

/-- A space that does not take an object stays as it is. -/
theorem enroll_eq_error (e : enroll o s h = .error f h') : ∃ log, h' = { h with log } := by
  rw [enroll, get_bind_apply] at e
  split at e
  · cases e
  · split at e
    · rcases bind_eq_error.1 e with e | ⟨_, _, -, e⟩
      · rw [registerLarge, get_bind_apply] at e
        rcases lift_bind_eq_error.1 e with ⟨-, rfl⟩ | ⟨⟨pages, claimed⟩, -, e⟩
        · exact ⟨h'.log, rfl⟩
        · dsimp only at e
          rw [emit_bind_apply] at e
          rcases lift_bind_eq_error.1 e with ⟨-, rfl⟩ | ⟨large, -, e⟩
          · exact ⟨_, rfl⟩
          · cases e
      · cases e
    · split at e
      · rcases bind_eq_error.1 e with e | ⟨_, _, -, e⟩
        · rw [setLive, get_bind_apply] at e
          rcases lift_bind_eq_error.1 e with ⟨-, rfl⟩ | ⟨small, -, e⟩
          · exact ⟨h'.log, rfl⟩
          · cases e
        · cases e
      · cases e
        exact ⟨h.log, rfl⟩

end HeapM

namespace Mutator

variable {m m' : Mutator} {h h' : Heap} {o : Ref} {s : Semantics} {f : Fault}
  {size align offset : Nat} {place : Address}

theorem allocate_eq_ok (e : m.allocate size align offset s h = .ok (place, m') h') :
    ∃ k as h₁ client log, allocatorFor size align s = .ok k ∧
      m.allocators.allocate k size align offset h = .ok (place, as) h₁ ∧
      m' = { m with allocators := as } ∧ h' = { h₁ with client, log } := by
  obtain ⟨k, chosen, e⟩ := HeapM.lift_bind_eq_ok.1 e
  obtain ⟨⟨p, as⟩, h₁, run, e⟩ := HeapM.bind_eq_ok.1 e
  dsimp only at e
  split at e
  · rw [HeapM.emit_bind_apply] at e
    obtain ⟨_, k, reported, e⟩ := HeapM.bind_eq_ok.1 e
    obtain ⟨hook, rfl⟩ := of_reportOutOfMemory reported
    cases e
    exact ⟨k, _, h₁, _, _, chosen, run, rfl, rfl⟩
  · cases e
    exact ⟨k, _, h', h'.client, h'.log, chosen, run, rfl, rfl⟩

theorem initHeader_eq_ok {n : Nat} {logged fresh : Bool}
    (e : initHeader o n logged fresh h = .ok () h') : ∃ memory, h' = { h with memory } := by
  obtain ⟨hd, -, e⟩ := HeapM.lift_bind_eq_ok.1 e
  rw [HeapM.change, HeapM.get_bind_apply] at e
  obtain ⟨memory, -, e⟩ := HeapM.lift_bind_eq_ok.1 e
  cases e
  exact ⟨memory, rfl⟩

theorem initHeader_eq_error {n : Nat} {logged fresh : Bool}
    (e : initHeader o n logged fresh h = .error f h') : h' = h := by
  rcases HeapM.lift_bind_eq_error.1 e with ⟨-, same⟩ | ⟨hd, -, e⟩
  · exact same
  · rw [HeapM.change, HeapM.get_bind_apply] at e
    rcases HeapM.lift_bind_eq_error.1 e with ⟨-, same⟩ | ⟨memory, -, e⟩
    · exact same
    · cases e

/-- Introducing an object is to write its header, and then to log it. -/
theorem introduce_eq_bind (m : Mutator) (o : Ref) (counted : Bool) :
    ∃ logged fresh rest, m.introduce o counted = (initHeader o 1 logged fresh >>= fun _ => rest) ∧
      ∀ h, ∃ m' pools, rest h = .ok m' { h with pools } ∧ m'.allocators = m.allocators := by
  have object (h : Heap) := m.pushObject_eq o h
  cases counted with
  | false =>
    refine ⟨true, false, m.pushObject o, rfl, fun h => ?_⟩
    obtain ⟨m', q, run, adds⟩ := object h
    exact ⟨m', h.pools.set .objects q, run, by rw [adds.same]⟩
  | true =>
    cases flavor : m.flavor with
    | base =>
      refine ⟨false, true, m.pushDecrements [o], ?_, fun h => ?_⟩
      · funext h
        simp [introduce, flavor]
      · obtain ⟨m', q, run, adds⟩ := m.pushDecrements_eq [o] h
        exact ⟨m', h.pools.set .decrements q, run, by rw [adds.same]⟩
    | generational =>
      refine ⟨true, false, m.pushObject o >>= fun m => m.pushDecrements [o], ?_, fun h => ?_⟩
      · funext h
        simp [introduce, flavor]
      · obtain ⟨m₁, q₁, run₁, adds₁⟩ := object h
        obtain ⟨m', q, run, adds⟩ := m₁.pushDecrements_eq [o] (h.putPool .objects q₁)
        refine ⟨m', (h.pools.set .objects q₁).set .decrements q, ?_, ?_⟩
        · exact (HeapM.bind_of_ok run₁).trans run
        · rw [adds.same, adds₁.same]

/-- Registering an object changes what its space knows of it, and nothing else of the spaces. -/
theorem register_eq_ok (e : m.register o s h = .ok m' h') :
    m'.allocators = m.allocators ∧ ∃ counted k memory pools, HeapM.enroll o s h = .ok counted k ∧
      h' = { k with memory, pools } := by
  rw [register_eq] at e
  obtain ⟨counted, k, enrolled, e⟩ := HeapM.bind_eq_ok.1 e
  obtain ⟨logged, fresh, rest, eq, total⟩ := m.introduce_eq_bind o counted
  rw [eq] at e
  obtain ⟨_, k₁, written, e⟩ := HeapM.bind_eq_ok.1 e
  obtain ⟨memory, rfl⟩ := initHeader_eq_ok written
  obtain ⟨m₁, pools, run, same⟩ := total { k with memory }
  cases e.symm.trans run
  exact ⟨same, counted, k, memory, pools, enrolled, rfl⟩

/-- If the header of an object cannot be written, its space knows of it nevertheless. -/
theorem register_eq_error (e : m.register o s h = .error f h') :
    (∃ log, h' = { h with log }) ∨ ∃ counted, HeapM.enroll o s h = .ok counted h' := by
  rw [register_eq] at e
  rcases HeapM.bind_eq_error.1 e with e | ⟨counted, k, enrolled, e⟩
  · exact .inl (HeapM.enroll_eq_error e)
  · refine .inr ⟨counted, ?_⟩
    obtain ⟨logged, fresh, rest, eq, total⟩ := m.introduce_eq_bind o counted
    rw [eq] at e
    rcases HeapM.bind_eq_error.1 e with e | ⟨_, k₁, -, e⟩
    · rw [initHeader_eq_error e]
      exact enrolled
    · obtain ⟨_, _, run, -⟩ := total k₁
      cases e.symm.trans run

theorem bind_eq_ok (e : Mutator.bind h = .ok m h') :
    m.allocators = {} ∧ ∃ log, h' = { h with log } := by
  rw [Mutator.bind, HeapM.get_bind_apply] at e
  obtain ⟨buffers, -, e⟩ := HeapM.lift_bind_eq_ok.1 e
  rw [HeapM.emit_bind_apply] at e
  cases e
  exact ⟨rfl, _, rfl⟩

/-- In a phase a mutator hands its buffers over, or gives its free cells back. -/
theorem phase_eq_ok {p : Phase} (e : m.phase p h = .ok m' h') :
    (∃ pools, h' = { h with pools } ∧ m'.allocators = m.allocators) ∨
      m.allocators.release h = .ok m'.allocators h' := by
  unfold phase at e
  split at e
  · cases e
    exact .inl ⟨h.pools, rfl, rfl⟩
  · obtain ⟨q, r, run, -⟩ := m.flushModified_eq h
    cases e.symm.trans run
    exact .inl ⟨_, rfl, rfl⟩
  · obtain ⟨q, run, -⟩ := m.flushDecrements_eq h
    cases e.symm.trans run
    exact .inl ⟨_, rfl, rfl⟩
  · obtain ⟨as, k, released, e⟩ := HeapM.bind_eq_ok.1 e
    split at e
    · cases e
      exact .inr released
    · cases e
  · cases e

end Mutator

/-! ## The three spaces -/

namespace Heap

variable {h h' : Heap} {users users' rest : List Allocators} {a a' : Allocators}
  {smalls larges permanents : List Block} {b : Block} {o : Ref}

/-- The blocks `smalls`, `larges` and `permanents` were handed out by the three spaces, to the
owners of the allocators `users`. -/
structure Parted (h : Heap) (users : List Allocators) (smalls larges permanents : List Block) :
    Prop where
  ranges : ∀ k, (h.pagePool k).start = ((ofSettings {}).pagePool k).start ∧
    (h.pagePool k).limit = ((ofSettings {}).pagePool k).limit
  small : h.small.Parceled (fun c => users.flatMap fun a => a.cells.cells.get c) smalls
  large : h.large.Leased larges
  permanent : h.permanent.Sliced permanents (users.map (·.bump))
  granted : ∀ b ∈ smalls ++ (larges ++ permanents), b.IsAligned ∧ 0 < b.size

namespace Parted

/-- It does not matter in which order the owners are listed. -/
theorem perm (p : h.Parted users smalls larges permanents) (e : users.Perm users') :
    h.Parted users' smalls larges permanents where
  ranges := p.ranges
  small := p.small.perm fun _ => e.flatMap_right _
  large := p.large
  permanent := p.permanent.perm (e.map _)
  granted := p.granted

/-- Pools that have the same ranges as before have the ranges of a fresh heap. -/
theorem ranges_of (p : h.Parted users smalls larges permanents)
    (small : h'.small.pages.start = h.small.pages.start ∧
      h'.small.pages.limit = h.small.pages.limit)
    (large : h'.large.pages.start = h.large.pages.start ∧
      h'.large.pages.limit = h.large.pages.limit)
    (permanent : h'.permanent.pages.start = h.permanent.pages.start ∧
      h'.permanent.pages.limit = h.permanent.pages.limit) (k : SpaceId) :
    (h'.pagePool k).start = ((ofSettings {}).pagePool k).start ∧
      (h'.pagePool k).limit = ((ofSettings {}).pagePool k).limit := by
  have before := p.ranges k
  cases k with
  | small => exact ⟨small.1.trans before.1, small.2.trans before.2⟩
  | large => exact ⟨large.1.trans before.1, large.2.trans before.2⟩
  | permanent => exact ⟨permanent.1.trans before.1, permanent.2.trans before.2⟩

/-- Another space of small objects. -/
theorem withSmall {smalls' : List Block} (p : h.Parted users smalls larges permanents)
    (large : h'.large = h.large) (permanent : h'.permanent = h.permanent)
    (start : h'.small.pages.start = h.small.pages.start)
    (limit : h'.small.pages.limit = h.small.pages.limit)
    (bumps : users'.map (·.bump) = users.map (·.bump))
    (small : h'.small.Parceled (fun c => users'.flatMap fun a => a.cells.cells.get c) smalls')
    (granted : ∀ b ∈ smalls', b.IsAligned ∧ 0 < b.size) :
    h'.Parted users' smalls' larges permanents where
  ranges := p.ranges_of ⟨start, limit⟩ (by rw [large]; exact ⟨rfl, rfl⟩)
    (by rw [permanent]; exact ⟨rfl, rfl⟩)
  small
  large := large ▸ p.large
  permanent := bumps ▸ permanent ▸ p.permanent
  granted b hb := (List.mem_append.1 hb).elim (granted b) fun hb =>
    p.granted b (List.mem_append_right _ hb)

/-- Another space of large objects. -/
theorem withLarge {larges' : List Block} (p : h.Parted users smalls larges permanents)
    (small : h'.small = h.small) (permanent : h'.permanent = h.permanent)
    (start : h'.large.pages.start = h.large.pages.start)
    (limit : h'.large.pages.limit = h.large.pages.limit) (large : h'.large.Leased larges')
    (granted : ∀ b ∈ larges', b.IsAligned ∧ 0 < b.size) :
    h'.Parted users smalls larges' permanents where
  ranges := p.ranges_of (by rw [small]; exact ⟨rfl, rfl⟩) ⟨start, limit⟩
    (by rw [permanent]; exact ⟨rfl, rfl⟩)
  small := small ▸ p.small
  large
  permanent := permanent ▸ p.permanent
  granted b hb := by
    rcases List.mem_append.1 hb with hb | hb
    · exact p.granted b (List.mem_append_left _ hb)
    · exact (List.mem_append.1 hb).elim (granted b) fun hb =>
        p.granted b (List.mem_append_right _ (List.mem_append_right _ hb))

/-- Another space of permanent objects. -/
theorem withPermanent {permanents' : List Block} (p : h.Parted users smalls larges permanents)
    (small : h'.small = h.small) (large : h'.large = h.large)
    (start : h'.permanent.pages.start = h.permanent.pages.start)
    (limit : h'.permanent.pages.limit = h.permanent.pages.limit)
    (cells : users'.map (·.cells) = users.map (·.cells))
    (permanent : h'.permanent.Sliced permanents' (users'.map (·.bump)))
    (granted : ∀ b ∈ permanents', b.IsAligned ∧ 0 < b.size) :
    h'.Parted users' smalls larges permanents' where
  ranges := p.ranges_of (by rw [small]; exact ⟨rfl, rfl⟩) (by rw [large]; exact ⟨rfl, rfl⟩)
    ⟨start, limit⟩
  small := by
    have same (c : SizeClass) : (users.flatMap fun a => a.cells.cells.get c) =
        users'.flatMap fun a => a.cells.cells.get c := by
      have := congrArg (List.flatMap fun a : CellAllocator => a.cells.get c) cells
      simpa only [List.flatMap_map] using this.symm
    rw [small]
    exact p.small.perm fun c => .of_eq (same c)
  large := large ▸ p.large
  permanent
  granted b hb := by
    rcases List.mem_append.1 hb with hb | hb
    · exact p.granted b (List.mem_append_left _ hb)
    · exact (List.mem_append.1 hb).elim
        (fun hb => p.granted b (List.mem_append_right _ (List.mem_append_left _ hb))) (granted b)

/-- Only the spaces matter. -/
theorem congr (p : h.Parted users smalls larges permanents) (small : h'.small = h.small)
    (large : h'.large = h.large) (permanent : h'.permanent = h.permanent) :
    h'.Parted users smalls larges permanents :=
  p.withLarge small permanent (by rw [large]) (by rw [large]) (large ▸ p.large) fun b hb =>
    p.granted b (List.mem_append_right _ (List.mem_append_left _ hb))

/-- An owner that has nothing yet. -/
theorem fresh (p : h.Parted users smalls larges permanents) :
    h.Parted ({} :: users) smalls larges permanents where
  ranges := p.ranges
  small := p.small.perm fun c => .of_eq <| by
    rw [List.flatMap_cons, CellAllocator.get_empty, List.nil_append]
  large := p.large
  permanent := p.permanent.fresh
  granted := p.granted

/-! ### Which space a block lies in -/

theorem small_limit (p : h.Parted users smalls larges permanents) :
    h.small.pages.limit = h.large.pages.start :=
  (p.ranges .small).2.trans (p.ranges .large).1.symm

theorem large_limit (p : h.Parted users smalls larges permanents) :
    h.large.pages.limit = h.permanent.pages.start :=
  (p.ranges .large).2.trans (p.ranges .permanent).1.symm

theorem pos (p : h.Parted users smalls larges permanents) (k : SpaceId) :
    0 < (h.pagePool k).start := by
  rw [(p.ranges k).1]
  cases k <;> decide

theorem mem_small (p : h.Parted users smalls larges permanents) (hb : b ∈ smalls) :
    b.LiesIn h.small.pages := by
  obtain ⟨low, high⟩ := p.small.inside hb
  exact ⟨(PagePool.contains_iff.1 low).1, Nat.le_trans high p.small.cut.pool.cursor_le⟩

theorem mem_large (p : h.Parted users smalls larges permanents) (hb : b ∈ larges) :
    b.LiesIn h.large.pages :=
  p.large.inside hb

theorem mem_permanent (p : h.Parted users smalls larges permanents) (hb : b ∈ permanents) :
    b.LiesIn h.permanent.pages :=
  let ⟨low, high⟩ := p.permanent.inside b hb
  ⟨low, Nat.le_trans high p.permanent.pool.cursor_le⟩

/-- The ranges do not meet, so the place of a block tells its space. -/
theorem space_eq (p : h.Parted users smalls larges permanents) (pos : 0 < b.size) {k l : SpaceId}
    (hk : b.LiesIn (h.pagePool k)) (hl : (h.pagePool l).contains b.place = true) : k = l := by
  obtain ⟨low, high⟩ := hk
  obtain ⟨low', high'⟩ := PagePool.contains_iff.1 hl
  rw [(p.ranges k).1] at low
  rw [(p.ranges l).1] at low'
  rw [(p.ranges k).2] at high
  rw [(p.ranges l).2] at high'
  dsimp only [Block.stop, Address] at *
  cases k <;> cases l <;> first
    | rfl
    | simp only [pagePool, ofSettings, smallStart, largeStart, permanentStart, scratchStart] at *
      omega

theorem existsUnique_space (p : h.Parted users smalls larges permanents)
    (hb : b ∈ smalls ++ (larges ++ permanents)) : ∃! k, b.LiesIn (h.pagePool k) := by
  have pos := (p.granted b hb).2
  obtain ⟨k, hk⟩ : ∃ k, b.LiesIn (h.pagePool k) := by
    rcases List.mem_append.1 hb with small | hb
    · exact ⟨.small, p.mem_small small⟩
    · rcases List.mem_append.1 hb with large | permanent
      · exact ⟨.large, p.mem_large large⟩
      · exact ⟨.permanent, p.mem_permanent permanent⟩
  exact ⟨k, hk, fun l hl => p.space_eq pos hl (hk.contains pos)⟩

theorem not_small (p : h.Parted users smalls larges permanents) (hb : b ∈ larges ++ permanents) :
    ¬ h.small.holds b.object := fun held => by
  have pos := (p.granted b (List.mem_append_right _ hb)).2
  rcases List.mem_append.1 hb with hb | hb
  · cases p.space_eq (k := .large) (l := .small) pos (p.mem_large hb) held
  · cases p.space_eq (k := .permanent) (l := .small) pos (p.mem_permanent hb) held

theorem not_large_of_small (p : h.Parted users smalls larges permanents) (hb : b ∈ smalls) :
    ¬ h.large.holds b.object := fun held => by
  have pos := (p.granted b (List.mem_append_left _ hb)).2
  cases p.space_eq (k := .small) (l := .large) pos (p.mem_small hb) held

theorem not_large_of_permanent (p : h.Parted users smalls larges permanents)
    (hb : b ∈ permanents) : ¬ h.large.holds b.object := fun held => by
  have pos := (p.granted b (List.mem_append_right _ (List.mem_append_right _ hb))).2
  cases p.space_eq (k := .permanent) (l := .large) pos (p.mem_permanent hb) held

/-- No two blocks meet. -/
theorem disjoint (p : h.Parted users smalls larges permanents) :
    (smalls ++ (larges ++ permanents)).Pairwise Block.Disjoint := by
  refine List.pairwise_append.2 ⟨p.small.pairwise.imp And.left, List.pairwise_append.2
    ⟨p.large.pairwise, p.permanent.disjoint, fun b hb x hx => .inl ?_⟩, fun b hb x hx => .inl ?_⟩
  · exact Nat.le_trans (p.mem_large hb).2 (p.large_limit ▸ (p.mem_permanent hx).1)
  · have below := (p.mem_small hb).2
    rw [p.small_limit] at below
    rcases List.mem_append.1 hx with hx | hx
    · exact Nat.le_trans below (p.mem_large hx).1
    · have order := Nat.le_trans p.large.kept.pool.start_le p.large.kept.pool.cursor_le
      rw [p.large_limit] at order
      exact Nat.le_trans below (Nat.le_trans order (p.mem_permanent hx).1)

/-! ### Operations -/

/-- One of the spaces is asked for memory. -/
theorem allocate (p : h.Parted (a :: rest) smalls larges permanents) {k : AllocatorKind}
    {size align offset : Nat} {place : Address} (ok : Alignable align offset) (pos : 0 < size)
    (e : a.allocate k size align offset h = .ok (place, a') h') :
    ∃ smalls' larges' permanents', h'.Parted (a' :: rest) smalls' larges' permanents' ∧
      (smalls' ++ (larges' ++ permanents')).Perm
        (Block.granted place size align offset ++ (smalls ++ (larges ++ permanents))) := by
  have fit {old : List Block}
      (aligned : ∀ b ∈ Block.granted place size align offset, b.IsAligned)
      (granted : ∀ b ∈ old, b.IsAligned ∧ 0 < b.size) :
      ∀ b ∈ Block.granted place size align offset ++ old, b.IsAligned ∧ 0 < b.size := fun b hb =>
    (List.mem_append.1 hb).elim (fun hb => ⟨aligned b hb, Block.eq_of_granted hb ▸ pos⟩) (granted b)
  cases k with
  | bumpPointer =>
    rw [Allocators.allocate, HeapM.get_bind_apply] at e
    obtain ⟨⟨place, bump⟩, k, run, e⟩ := HeapM.bind_eq_ok.1 e
    cases e
    obtain ⟨permanent, log, rfl, start, limit, sliced, aligned⟩ :=
      p.permanent.of_allocate ok.supported (p.pos .permanent) run
    refine ⟨smalls, larges, Block.granted place size align offset ++ permanents,
      p.withPermanent rfl rfl start limit rfl sliced (fit aligned fun b hb => p.granted b ?_), ?_⟩
    · exact List.mem_append_right _ (List.mem_append_right _ hb)
    · exact ((List.perm_append_comm_assoc larges _ _).append_left smalls).trans
        (List.perm_append_comm_assoc ..)
  | largeObject =>
    obtain ⟨place, k, run, e⟩ := HeapM.bind_eq_ok.1 e
    cases e
    obtain ⟨large, log, rfl, start, limit, leased, aligned⟩ :=
      p.large.of_allocatePages ok (p.pos .large) run
    refine ⟨smalls, Block.granted place size align offset ++ larges, permanents,
      p.withLarge rfl rfl start limit leased (fit aligned fun b hb => p.granted b ?_), ?_⟩
    · exact List.mem_append_right _ (List.mem_append_left _ hb)
    · rw [List.append_assoc]
      exact List.perm_append_comm_assoc ..
  | freeList =>
    obtain ⟨⟨place, cells⟩, k, run, e⟩ := HeapM.bind_eq_ok.1 e
    cases e
    obtain ⟨small, log, rfl, grows, -, parceled, aligned⟩ :=
      CellAllocator.parceled_of_allocate ok (p.pos .small) p.small run
    refine ⟨Block.granted place size align offset ++ smalls, larges, permanents,
      p.withSmall rfl rfl grows.start grows.limit rfl parceled
        (fit aligned fun b hb => p.granted b (List.mem_append_left _ hb)), ?_⟩
    rw [List.append_assoc]
  | none => cases e

/-- A space learns of an object that starts with one of the blocks. -/
theorem enroll (p : h.Parted users smalls larges permanents) {s : Semantics} {counted : Bool}
    (hb : b ∈ smalls ++ (larges ++ permanents))
    (e : HeapM.enroll b.object s h = .ok counted h') :
    h'.Parted users smalls larges permanents := by
  rcases HeapM.enroll_eq_ok e with rfl | ⟨held, e⟩ | ⟨held, e⟩
  · exact p.withPermanent rfl rfl rfl rfl rfl (p.permanent.congr rfl) fun b hb =>
      p.granted b (List.mem_append_right _ (List.mem_append_right _ hb))
  · have mine : b ∈ larges :=
      (List.mem_append.1 ((List.mem_append.1 hb).resolve_left fun hb =>
        p.not_large_of_small hb held)).resolve_right fun hb => p.not_large_of_permanent hb held
    obtain ⟨large, log, rfl, pages, leased⟩ := p.large.of_registerLarge mine e
    exact p.withLarge rfl rfl (by rw [pages]) (by rw [pages]) leased fun b hb =>
      p.granted b (List.mem_append_right _ (List.mem_append_left _ hb))
  · have mine : b ∈ smalls :=
      (List.mem_append.1 hb).resolve_right fun hb => p.not_small hb held
    obtain ⟨small, registered, rfl⟩ := HeapM.setLive_eq_ok e
    obtain ⟨parceled, grows, -⟩ := p.small.register mine registered
    exact p.withSmall rfl rfl grows.start grows.limit rfl parceled fun b hb =>
      p.granted b (List.mem_append_left _ hb)

/-- The object of a block is freed, and the block with it. -/
theorem free (p : h.Parted users smalls larges permanents) (e : HeapM.free o h = .ok () h') :
    ∃ smalls' larges', h'.Parted users smalls' larges' permanents ∧
      smalls' ++ (larges' ++ permanents) =
        (smalls ++ (larges ++ permanents)).filter (·.object ≠ o) := by
  have keep (blocks : List Block) (other : ∀ b ∈ blocks, b.object ≠ o) :
      blocks.filter (·.object ≠ o) = blocks :=
    List.filter_eq_self.2 fun b hb => decide_eq_true (other b hb)
  rcases HeapM.free_eq_ok e with ⟨held, e⟩ | ⟨held, e⟩
  · obtain ⟨cell, small, log, reclaimed, rfl⟩ := HeapM.freeSmall_eq_ok e
    obtain ⟨parceled, grows⟩ := p.small.reclaim reclaimed
    refine ⟨_, larges, p.withSmall rfl rfl grows.start grows.limit rfl parceled fun b hb =>
      p.granted b (List.mem_append_left _ (List.mem_filter.1 hb).1), ?_⟩
    rw [List.filter_append, keep (larges ++ permanents)]
    exact fun b hb eq => p.not_small hb (eq ▸ held)
  · obtain ⟨large, log, rfl, start, limit, leased⟩ := p.large.of_freeLarge e
    refine ⟨smalls, _, p.withLarge rfl rfl start limit leased fun b hb => p.granted b
      (List.mem_append_right _ (List.mem_append_left _ (List.mem_filter.1 hb).1)), ?_⟩
    rw [List.filter_append, List.filter_append, keep smalls,
      keep permanents]
    · exact fun b hb eq => p.not_large_of_permanent hb (eq ▸ held)
    · exact fun b hb eq => p.not_large_of_small hb (eq ▸ held)

/-- An owner gives its free cells back. -/
theorem release (p : h.Parted (a :: rest) smalls larges permanents)
    (e : a.release h = .ok a' h') : h'.Parted (a' :: rest) smalls larges permanents := by
  obtain ⟨cells, k, run, e⟩ := HeapM.bind_eq_ok.1 e
  cases e
  have small : h.small.Parceled (fun c => a.cells.cells.get c ++
      rest.flatMap fun a => a.cells.cells.get c) smalls := p.small
  obtain ⟨free, rfl, rfl, parceled⟩ := CellAllocator.parceled_of_release small run
  refine p.withSmall rfl rfl rfl rfl rfl (parceled.perm fun c => .of_eq ?_) fun b hb =>
    p.granted b (List.mem_append_left _ hb)
  rw [List.flatMap_cons, CellAllocator.get_empty, List.nil_append]

end Parted

end Heap

/-! ## Sequences of operations -/

/-- An instance with its mutators. -/
structure Traffic where
  heap : Heap
  mutators : List Mutator := []
  /-- The blocks that were handed out, and not freed. -/
  blocks : List Block := []

namespace Traffic

/-- A new instance of whatever settings, whose client answers whatever it likes. -/
structure Fresh (t : Traffic) : Prop where
  heap : ∃ settings client, t.heap = { Heap.ofSettings settings with client }
  mutators : t.mutators = []
  blocks : t.blocks = []

/-- One operation.

* `bind`: there is another mutator.
* `allocate`: a mutator asks for memory, and gets a block or is refused.
* `register`: a mutator registers an object where a block starts. It may fail when it writes the
  header, and then the space knows of the object nevertheless.
* `free`: a counted object is freed.
* `release`: a mutator gives its free cells back.
* `phase`: a mutator does its part of a phase. -/
inductive Step : Traffic → Traffic → Prop
  | bind {t : Traffic} {m : Mutator} {h' : Heap} : Mutator.bind t.heap = .ok m h' →
    Step t { t with heap := h', mutators := m :: t.mutators }
  | allocate {t : Traffic} {pre post : List Mutator} {m m' : Mutator} {size align offset : Nat}
    {s : Semantics} {place : Address} {h' : Heap} : t.mutators = pre ++ m :: post →
    0 < size → minAlignment ∣ size → size < 2 ^ 62 → Alignable align offset →
    m.allocate size align offset s t.heap = .ok (place, m') h' →
    Step t { t with
      heap := h'
      mutators := pre ++ m' :: post
      blocks := Block.granted place size align offset ++ t.blocks }
  | register {t : Traffic} {pre post : List Mutator} {m m' : Mutator} {b : Block} {s : Semantics}
    {h' : Heap} : t.mutators = pre ++ m :: post → b ∈ t.blocks →
    m.register b.object s t.heap = .ok m' h' →
    Step t { t with heap := h', mutators := pre ++ m' :: post }
  | registerFault {t : Traffic} {m : Mutator} {b : Block} {s : Semantics} {f : Fault} {h' : Heap} :
    m ∈ t.mutators → b ∈ t.blocks → m.register b.object s t.heap = .error f h' →
    Step t { t with heap := h' }
  | free {t : Traffic} {o : Ref} {h' : Heap} : HeapM.free o t.heap = .ok () h' →
    Step t { t with heap := h', blocks := t.blocks.filter (·.object ≠ o) }
  | release {t : Traffic} {pre post : List Mutator} {m : Mutator} {as : Allocators} {h' : Heap} :
    t.mutators = pre ++ m :: post → m.allocators.release t.heap = .ok as h' →
    Step t { t with heap := h', mutators := pre ++ { m with allocators := as } :: post }
  | phase {t : Traffic} {pre post : List Mutator} {m m' : Mutator} {p : Phase} {h' : Heap} :
    t.mutators = pre ++ m :: post → m.phase p t.heap = .ok m' h' →
    Step t { t with heap := h', mutators := pre ++ m' :: post }

/-- Some operations, one after the other. -/
abbrev Runs : Traffic → Traffic → Prop := ReflTransGen Step

variable {t t' : Traffic} {pre post : List Mutator} {m : Mutator}

/-- What every operation keeps: each block is that of one of the spaces. -/
def Parted (t : Traffic) : Prop :=
  ∃ smalls larges permanents, t.blocks.Perm (smalls ++ (larges ++ permanents)) ∧
    t.heap.Parted (t.mutators.map (·.allocators)) smalls larges permanents

theorem Fresh.parted (f : t.Fresh) : t.Parted := by
  obtain ⟨settings, client, eq⟩ := f.heap
  refine ⟨[], [], [], .of_eq f.blocks, ?_⟩
  rw [f.mutators, eq]
  exact {
    ranges := fun k => by cases k <;> exact ⟨rfl, rfl⟩
    small := .fresh ⟨rfl, Nat.le_refl _, by decide, by decide⟩
    large := .fresh (.fresh (by decide) (by decide) (by decide))
    permanent := .ofRising ⟨rfl, Nat.le_refl _,
      show Heap.permanentStart ≤ Heap.scratchStart by decide,
      show bytesPerPage ∣ Heap.permanentStart by decide⟩
    granted := nofun }

/-- The allocators of one mutator among those of all. -/
theorem allocators_perm (pre post : List Mutator) {m : Mutator} {as : Allocators}
    (same : m.allocators = as) : ((pre ++ m :: post).map (·.allocators)).Perm
      (as :: ((pre ++ post).map (·.allocators))) :=
  same ▸ List.perm_middle.map _

theorem Parted.step (p : t.Parted) (step : Step t t') : t'.Parted := by
  obtain ⟨smalls, larges, permanents, blocks, p⟩ := p
  cases step with
  | bind e =>
    obtain ⟨new, log, rfl⟩ := Mutator.bind_eq_ok e
    refine ⟨smalls, larges, permanents, blocks, ?_⟩
    rw [List.map_cons, new]
    exact p.fresh.congr rfl rfl rfl
  | @allocate pre post m m' size align offset s place h' split pos _ _ ok e =>
    obtain ⟨k, as, h₁, client, log, -, run, rfl, rfl⟩ := Mutator.allocate_eq_ok e
    obtain ⟨smalls', larges', permanents', p', perm⟩ :=
      (p.perm (split ▸ allocators_perm _ _ rfl)).allocate ok pos run
    have users := allocators_perm pre post (m := { m with allocators := as }) rfl
    exact ⟨smalls', larges', permanents', (blocks.append_left _).trans perm.symm,
      (p'.perm users.symm).congr rfl rfl rfl⟩
  | register split hb e =>
    obtain ⟨same, counted, k, memory, pools, enrolled, rfl⟩ := Mutator.register_eq_ok e
    have p' := (p.perm (split ▸ allocators_perm _ _ rfl)).enroll (blocks.mem_iff.1 hb) enrolled
    exact ⟨smalls, larges, permanents, blocks,
      (p'.perm (allocators_perm _ _ same).symm).congr rfl rfl rfl⟩
  | registerFault _ hb e =>
    refine ⟨smalls, larges, permanents, blocks, ?_⟩
    rcases Mutator.register_eq_error e with ⟨log, rfl⟩ | ⟨counted, enrolled⟩
    · exact p.congr rfl rfl rfl
    · exact p.enroll (blocks.mem_iff.1 hb) enrolled
  | free e =>
    obtain ⟨smalls', larges', p', eq⟩ := p.free e
    exact ⟨smalls', larges', permanents, (blocks.filter _).trans (.of_eq eq.symm), p'⟩
  | @release pre post m as h' split e =>
    have users := allocators_perm pre post (m := { m with allocators := as }) rfl
    have p' := (p.perm (split ▸ allocators_perm _ _ rfl)).release e
    exact ⟨smalls, larges, permanents, blocks, p'.perm users.symm⟩
  | phase split e =>
    refine ⟨smalls, larges, permanents, blocks, ?_⟩
    have p := p.perm (split ▸ allocators_perm _ _ rfl)
    rcases Mutator.phase_eq_ok e with ⟨pools, rfl, same⟩ | released
    · exact (p.perm (allocators_perm _ _ same).symm).congr rfl rfl rfl
    · exact (p.release released).perm (allocators_perm _ _ rfl).symm

theorem Parted.run (p : t.Parted) (run : Runs t t') : t'.Parted := by
  induction run with
  | refl => exact p
  | tail _ step ih => exact ih.step step

/-- The blocks that were handed out and not freed do not meet. Each lies in the range of exactly one
space and is aligned as it was asked for. The ranges stay what they were. -/
theorem live_blocks_never_overlap {t₀ t : Traffic} (fresh : t₀.Fresh) (run : Runs t₀ t) :
    t.blocks.Pairwise Block.Disjoint ∧
      (∀ b ∈ t.blocks, (∃! k, b.LiesIn (t.heap.pagePool k)) ∧ b.IsAligned) ∧
      ∀ k, (t.heap.pagePool k).start = (t₀.heap.pagePool k).start ∧
        (t.heap.pagePool k).limit = (t₀.heap.pagePool k).limit := by
  obtain ⟨_, _, _, -, p₀⟩ := fresh.parted
  obtain ⟨smalls, larges, permanents, blocks, p⟩ := fresh.parted.run run
  refine ⟨blocks.symm.pairwise p.disjoint fun h => h.symm, fun b hb => ?_, fun k => ?_⟩
  · have hb := blocks.mem_iff.1 hb
    exact ⟨p.existsUnique_space hb, (p.granted b hb).1⟩
  · rw [(p₀.ranges k).1, (p₀.ranges k).2]
    exact p.ranges k

/-- Two mutators have cells of the same class, and one of them a large object. -/
theorem live_blocks_never_overlap_two_mutators : ∃ t₀ t : Traffic, t₀.Fresh ∧ Runs t₀ t ∧
    t.blocks = [⟨Heap.smallStart + 4096, 2000, 4, 0⟩, ⟨Heap.largeStart, 5000, 8, 0⟩,
      ⟨Heap.smallStart + 4, 1500, 8, 4⟩] ∧ t.blocks.Pairwise Block.Disjoint := by
  have fresh : Fresh { heap := Heap.ofSettings {} } := ⟨⟨{}, {}, rfl⟩, rfl, rfl⟩
  have bound := (ReflTransGen.refl.tail
    (Step.bind (t := { heap := Heap.ofSettings {} }) rfl)).tail (Step.bind rfl)
  have first := bound.tail (@Step.allocate _ [] _ _ _ 1500 8 4 .default _ _ rfl (by decide)
    (by decide) (by decide) ⟨.inr rfl, by decide, by decide⟩ rfl)
  have second := first.tail (@Step.allocate _ [] _ _ _ 5000 8 0 .default _ _ rfl (by decide)
    (by decide) (by decide) ⟨.inr rfl, by decide, by decide⟩ rfl)
  have third := second.tail (@Step.allocate _ [_] [] _ _ 2000 4 0 .nonMoving _ _ rfl (by decide)
    (by decide) (by decide) ⟨.inl rfl, by decide, by decide⟩ rfl)
  exact ⟨_, _, fresh, third, rfl, (live_blocks_never_overlap fresh third).1⟩

end Traffic

end DeferredCount
