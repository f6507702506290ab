import DeferredCount.Proofs.Aligning
import DeferredCount.Proofs.Allocating

/-!
# Blocks of permanent objects

A bump allocator cuts blocks off a stretch of fresh pages, from the front on. The rest of the
stretch belongs to it alone: no block lies there, and no other allocator cuts there. When the rest
is too small the allocator takes a new stretch, which lies behind all that was taken before, and the
rest of the old one is never used.

Results:
1. `PermanentSpace.Sliced.slice`, `PermanentSpace.Sliced.refill`: what cutting a block off and
   taking a new stretch leave.
2. `PermanentSpace.Sliced.of_allocate`: a request is refused, or its block meets no other one.
-/

namespace DeferredCount

namespace PermanentSpace

variable {s s' : PermanentSpace} {x : Block} {blocks : List Block} {b b' : BumpAllocator}
  {bumps bumps' : List BumpAllocator}

/-- The blocks `blocks` were cut off, and the allocators `bumps` have the rests. -/
structure Sliced (s : PermanentSpace) (blocks : List Block) (bumps : List BumpAllocator) :
    Prop where
  pool : s.pages.Rising
  rests : ∀ b ∈ bumps, b.limit ≤ s.pages.cursor ∧ (b.cursor ≠ 0 → s.pages.start ≤ b.cursor)
  apart : bumps.Pairwise BlocksApart
  inside : ∀ x ∈ blocks, s.pages.start ≤ x.place ∧ x.stop ≤ s.pages.cursor
  clear : ∀ x ∈ blocks, ∀ b ∈ bumps, x.stop ≤ b.cursor ∨ b.limit ≤ x.place
  disjoint : blocks.Pairwise Block.Disjoint

namespace Sliced

theorem perm (l : s.Sliced blocks bumps) (p : bumps.Perm bumps') : s.Sliced blocks bumps' where
  pool := l.pool
  rests b hb := l.rests b (p.mem_iff.2 hb)
  apart := p.pairwise l.apart fun h => Or.symm h
  inside := l.inside
  clear x hx b hb := l.clear x hx b (p.mem_iff.2 hb)
  disjoint := l.disjoint

/-- The objects of the space do not matter. -/
theorem congr (l : s.Sliced blocks bumps) (pages : s'.pages = s.pages) :
    s'.Sliced blocks bumps where
  pool := pages ▸ l.pool
  rests := pages ▸ l.rests
  apart := l.apart
  inside := pages ▸ l.inside
  clear := l.clear
  disjoint := l.disjoint

/-- A space whose pages are all fresh. -/
theorem ofRising (pool : s.pages.Rising) : s.Sliced [] [] :=
  ⟨pool, nofun, .nil, nofun, nofun, .nil⟩

/-- An allocator that has nothing yet. -/
theorem fresh (l : s.Sliced blocks bumps) : s.Sliced blocks ({} :: bumps) where
  pool := l.pool
  rests := List.forall_mem_cons.2 ⟨⟨Nat.zero_le _, fun h => absurd rfl h⟩, l.rests⟩
  apart := List.pairwise_cons.2 ⟨fun _ _ => .inl (Nat.zero_le _), l.apart⟩
  inside := l.inside
  clear x hx := List.forall_mem_cons.2 ⟨.inr (Nat.zero_le _), l.clear x hx⟩
  disjoint := l.disjoint

/-- The allocator takes a stretch of fresh pages instead of what it had. -/
theorem refill (l : s.Sliced blocks (b :: bumps)) (pool : s'.pages.Rising)
    (start : s'.pages.start = s.pages.start) (cursor : b'.cursor = s.pages.cursor)
    (le : b'.cursor ≤ b'.limit) (limit : b'.limit ≤ s'.pages.cursor) :
    s'.Sliced blocks (b' :: bumps) where
  pool
  rests := by
    refine List.forall_mem_cons.2 ⟨⟨limit, fun _ => ?_⟩, fun d hd => ?_⟩
    · rw [start, cursor]
      exact l.pool.start_le
    · obtain ⟨below, low⟩ := l.rests d (List.mem_cons_of_mem _ hd)
      exact ⟨Nat.le_trans below (cursor ▸ Nat.le_trans le limit), start ▸ low⟩
  apart := List.pairwise_cons.2 ⟨fun d hd => .inr
    (cursor ▸ (l.rests d (List.mem_cons_of_mem _ hd)).1), (List.pairwise_cons.1 l.apart).2⟩
  inside x hx := by
    obtain ⟨low, high⟩ := l.inside x hx
    exact ⟨start ▸ low, Nat.le_trans high (cursor ▸ Nat.le_trans le limit)⟩
  clear x hx := List.forall_mem_cons.2 ⟨.inl (cursor ▸ (l.inside x hx).2),
    fun d hd => l.clear x hx d (List.mem_cons_of_mem _ hd)⟩
  disjoint := l.disjoint

/-- A block is cut off the rest that the allocator has. -/
theorem slice (l : s.Sliced blocks (b :: bumps)) (some : b.cursor ≠ 0) (le : b.cursor ≤ x.place)
    (fits : x.stop ≤ b.limit) :
    s.Sliced (x :: blocks) ({ b with cursor := x.stop } :: bumps) := by
  obtain ⟨⟨limit, low⟩, rests⟩ := List.forall_mem_cons.1 l.rests
  obtain ⟨mine, apart⟩ := List.pairwise_cons.1 l.apart
  have clear : ∀ y ∈ blocks, y.stop ≤ b.cursor ∨ b.limit ≤ y.place := fun y hy =>
    l.clear y hy b List.mem_cons_self
  have past : b.cursor ≤ x.stop := Nat.le_trans le (Nat.le_add_right ..)
  exact {
    pool := l.pool
    rests := List.forall_mem_cons.2 ⟨⟨limit, fun _ => Nat.le_trans (low some) past⟩, rests⟩
    apart := List.pairwise_cons.2
      ⟨fun d hd => (mine d hd).imp_right fun h => Nat.le_trans h past, apart⟩
    inside := List.forall_mem_cons.2
      ⟨⟨Nat.le_trans (low some) le, Nat.le_trans fits limit⟩, l.inside⟩
    clear := by
      refine List.forall_mem_cons.2 ⟨List.forall_mem_cons.2 ⟨.inl (Nat.le_refl _), fun d hd => ?_⟩,
        fun y hy => List.forall_mem_cons.2 ⟨?_, fun d hd => ?_⟩⟩
      · exact (mine d hd).imp (Nat.le_trans fits) fun h => Nat.le_trans h le
      · exact (clear y hy).imp_left fun h => Nat.le_trans h past
      · exact l.clear y hy d (List.mem_cons_of_mem _ hd)
    disjoint := List.pairwise_cons.2 ⟨fun y hy => (clear y hy).symm.imp (Nat.le_trans fits)
      fun h => Nat.le_trans h le, l.disjoint⟩ }

variable {h h' : Heap} {size align offset : Nat} {place : Address}

/-- A request is refused, or its block is cut off the rest of a stretch. -/
theorem of_allocate {refills : Nat} (l : h.permanent.Sliced blocks (b :: bumps))
    (supported : align = minAlignment ∨ align = maxAlignment) (pos : 0 < h.permanent.pages.start)
    (e : BumpAllocator.allocate refills b size align offset h = .ok (place, b') h') :
    ∃ permanent log, h' = { h with permanent, log } ∧
      permanent.pages.start = h.permanent.pages.start ∧
      permanent.pages.limit = h.permanent.pages.limit ∧
      permanent.Sliced (Block.granted place size align offset ++ blocks) (b' :: bumps) ∧
      ∀ x ∈ Block.granted place size align offset, x.IsAligned := by
  have cuts := BumpAllocator.cuts_of_allocate e
  clear e
  induction cuts with
  | @cut h _ b _ place cut =>
    obtain ⟨log, rfl, ⟨none, -⟩ | ⟨place, block, placed, le, some⟩⟩ := BumpAllocator.cut?_eq_ok cut
    · cases none
    · cases some
      obtain ⟨-, low, -, aligned⟩ := alignPlace_spec supported placed
      have start := (l.rests b List.mem_cons_self).2 block
      have nonzero : place ≠ 0 :=
        Nat.ne_of_gt (Nat.lt_of_lt_of_le pos (Nat.le_trans start low))
      rw [Block.granted, if_neg nonzero]
      refine ⟨h.permanent, log, rfl, rfl, rfl, ?_, fun x hx => ?_⟩
      · exact l.slice (x := ⟨place, size, align, offset⟩) block low le
      · obtain rfl := List.mem_singleton.1 hx
        exact aligned
  | refused cut taken =>
    obtain ⟨log, rfl, -⟩ := BumpAllocator.cut?_eq_ok cut
    obtain ⟨bytes, pages, block, pool, log, -, -, fits, got, rfl, none⟩ :=
      BumpAllocator.refill_eq_ok taken
    rcases l.pool.of_acquire fits got with ⟨rfl, rfl⟩ | ⟨rfl, -⟩
    · exact ⟨_, log, rfl, rfl, rfl, l, fun x hx => absurd hx List.not_mem_nil⟩
    · cases none
  | @refilled h _ _ _ _ _ _ _ cut taken _ ih =>
    obtain ⟨log, rfl, -⟩ := BumpAllocator.cut?_eq_ok cut
    obtain ⟨bytes, pages, block, pool, log, -, enough, fits, got, rfl, some⟩ :=
      BumpAllocator.refill_eq_ok taken
    rcases l.pool.of_acquire fits got with ⟨rfl, -⟩ | ⟨rfl, rising, start, limit, cursor⟩
    · cases some
    · cases some
      have next : ({ h.permanent with pages := pool } : PermanentSpace).Sliced blocks
          (⟨h.permanent.pages.cursor, h.permanent.pages.cursor + bytes⟩ :: bumps) :=
        l.refill rising start rfl (Nat.le_add_right ..) (cursor ▸ Nat.add_le_add_left enough _)
      obtain ⟨permanent, log', rfl, start', limit', rest⟩ := ih next (start ▸ pos)
      exact ⟨permanent, log', rfl, start'.trans start, limit'.trans limit, rest⟩

end Sliced

end PermanentSpace

end DeferredCount
