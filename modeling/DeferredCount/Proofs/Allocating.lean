import DeferredCount.Proofs.Stock

/-!
# Finding memory for a new object

An allocator that returns an address has found words that belong to no object, and that nobody
else will be given. Small objects get cells, large ones get pages, and permanent ones what is left
of a block.

Results:
1. `SmallSpace.Stocked.of_hands`: the cells that a space hands out were spare.
2. `CellAllocator.of_allocate`, `of_allocatePages`, `BumpAllocator.of_allocate`: what each
   allocator returns, and what it leaves.
-/

namespace DeferredCount

/-! ## Pages -/

theorem HeapM.acquirePages_eq_ok {space : SpaceId} {pages : Nat} {h h' : Heap} {a : Option Address}
    (e : acquirePages space pages h = .ok a h') :
    ∃ pool log, (h.pagePool space).acquire pages = .ok (a, pool) ∧
      h' = { h.setPagePool pool space with log } := by
  rw [acquirePages, get_bind_apply] at e
  obtain ⟨⟨start, pool⟩, acquired, e⟩ := lift_bind_eq_ok.1 e
  cases start with
  | none =>
    cases e
    exact ⟨pool, _, acquired, rfl⟩
  | some a =>
    cases e
    exact ⟨pool, _, acquired, rfl⟩

/-! ## Cells -/

namespace SmallSpace

/-- Cells were handed out: only the free memory of the space changed. -/
structure Gives (s s' : SmallSpace) : Prop where
  live : s'.live = s.live
  start : s'.pages.start = s.pages.start
  limit : s'.pages.limit = s.pages.limit

theorem Gives.refl (s : SmallSpace) : s.Gives s := ⟨rfl, rfl, rfl⟩

theorem Gives.liveObjects {s s' : SmallSpace} (g : s.Gives s') :
    s'.liveObjects = s.liveObjects := by
  rw [SmallSpace.liveObjects, SmallSpace.liveObjects, g.live]

/-- The space hands out the cells `cs` of a class.

* `stack`: they were free.
* `page`: a page was cut for them.
* `refused`: there are none, because the space has no page left. -/
inductive Hands (c : SizeClass) (s : SmallSpace) (cs : List Address) : SmallSpace → Prop
  | stack {free : PerClass (List Address)} :
      (∀ d, (s.free.get d).Perm ((if d = c then cs else []) ++ free.get d)) →
      Hands c s cs { s with free }
  | page {page : Address} {pool : PagePool} {free : PerClass (List Address)} :
      s.pages.acquire 1 = .ok (some page, pool) →
      (∀ d, ((if d = c then pageCells page c else []) ++ s.free.get d).Perm
        ((if d = c then cs else []) ++ free.get d)) →
      Hands c s cs { s with pages := pool, classes := s.classes.insert page c, free }
  | refused {pool : PagePool} : cs = [] → s.pages.acquire 1 = .ok (none, pool) →
      Hands c s cs { s with pages := pool }

/-- Nothing is handed out. -/
theorem Hands.none (c : SizeClass) (s : SmallSpace) : s.Hands c [] s :=
  .stack fun d => .of_eq (by simp)

end SmallSpace

/-- Cells of one place are exchanged for cells of another one, among others. -/
theorem perm_exchange {x y a b f o : List Address} (h : (x ++ a).Perm (y ++ b)) :
    (x ++ (f ++ (a ++ o))).Perm (y ++ (f ++ (b ++ o))) := by
  refine (List.perm_append_comm_assoc ..).trans
    (.trans (.append_left f ?_) (List.perm_append_comm_assoc ..))
  rw [← List.append_assoc, ← List.append_assoc]
  exact h.append_right o

variable {h h' : Heap} {m : Memory} {others : SizeClass → List Address} {c : SizeClass}
  {n size : Nat}

theorem HeapM.acquireCells_eq_ok {cs : List Address} (e : acquireCells c n h = .ok cs h') :
    ∃ small log, h' = { h with small, log } ∧ h.small.Hands c cs small := by
  rw [acquireCells, get_bind_apply] at e
  cases taken : h.small.takeCells c n with
  | some r =>
    obtain ⟨found, small⟩ := r
    rw [taken] at e
    cases e
    unfold SmallSpace.takeCells at taken
    split at taken
    · cases taken
    · cases taken
      refine ⟨_, h.log, rfl, .stack fun d => .of_eq ?_⟩
      rw [PerClass.get_put]
      by_cases eq : d = c
      · rw [if_pos eq, if_pos eq.symm, eq, List.take_append_drop]
      · rw [if_neg eq, if_neg (Ne.symm eq), List.nil_append]
  | none =>
    rw [taken] at e
    obtain ⟨page, k, acquired, e⟩ := bind_eq_ok.1 e
    obtain ⟨pool, log, got, rfl⟩ := acquirePages_eq_ok acquired
    cases page with
    | none =>
      cases e
      exact ⟨_, log, rfl, .refused rfl got⟩
    | some page =>
      cases e
      refine ⟨_, _, rfl, .page got fun d => ?_⟩
      obtain ⟨cells, eq⟩ : ∃ cells, cells = SmallSpace.pageCells page c := ⟨_, rfl⟩
      simp only [Heap.setPagePool, PerClass.get_put, ← eq]
      by_cases same : d = c
      · subst same
        simp only [if_true, ← List.append_assoc]
        refine List.Perm.append_right _ ?_
        conv_lhs => rw [← List.take_append_drop (cells.length - n) cells]
        exact List.perm_append_comm
      · simp [same, Ne.symm same]

/-- The cells that the space hands out were spare. -/
theorem SmallSpace.Stocked.of_hands {s s' : SmallSpace} {cs : List Address}
    (st : s.Stocked m fun d => s.free.get d ++ others d) (e : s.Hands c cs s') :
    s.Gives s' ∧ s'.Stocked m fun d =>
      (if d = c then cs else []) ++ (s'.free.get d ++ others d) := by
  cases e with
  | stack perm =>
    refine ⟨⟨rfl, rfl, rfl⟩, st.congr rfl rfl rfl fun d => ?_⟩
    rw [← List.append_assoc]
    exact (perm d).append_right _
  | page got perm =>
    rcases st.pool.of_acquire (by decide) got with ⟨none, -⟩ | ⟨eq, rising, start, limit, cursor⟩
    · cases none
    obtain rfl := Option.some.inj eq
    rw [Nat.one_mul] at cursor
    refine ⟨⟨rfl, start, limit⟩, st.cut (c := c) rising start cursor rfl rfl fun d => ?_⟩
    rw [← List.append_assoc, ← List.append_assoc]
    exact (perm d).append_right _
  | refused none got =>
    rcases st.pool.of_acquire (by decide) got with ⟨-, rfl⟩ | ⟨eq, -⟩
    · exact ⟨.refl s, st.congr rfl rfl rfl fun d => .of_eq (by simp [none])⟩
    · cases eq

namespace CellAllocator

variable {a a' : CellAllocator}

/-- The cell that an allocator takes is from its cache, or the space handed it out. -/
theorem take_eq_ok {cell : Option Address} (e : a.take c h = .ok (cell, a') h') :
    ∃ cs small log, h' = { h with small, log } ∧ h.small.Hands c cs small ∧
      ∀ d, ((if d = c then cs else []) ++ a.cells.get d).Perm
        ((if d = c then cell.toList else []) ++ a'.cells.get d) := by
  unfold take at e
  cases own : a.cells.get c with
  | cons first rest =>
    rw [own] at e
    cases e
    refine ⟨[], h.small, h.log, rfl, .none c h.small, fun d => .of_eq ?_⟩
    rw [PerClass.get_put]
    by_cases eq : d = c
    · simp [eq, own]
    · simp [eq, Ne.symm eq]
  | nil =>
    rw [own] at e
    obtain ⟨a₁, k, refilled, e⟩ := HeapM.bind_eq_ok.1 e
    obtain ⟨cs, k', acquired, refilled⟩ := HeapM.bind_eq_ok.1 refilled
    cases refilled
    obtain ⟨small, log, rfl, hands⟩ := HeapM.acquireCells_eq_ok acquired
    have here : (a.cells.put c cs).get c = cs := by rw [PerClass.get_put, if_pos rfl]
    rw [here] at e
    refine ⟨cs, small, log, ?_⟩
    cases cs with
    | cons first rest =>
      cases e
      refine ⟨rfl, hands, fun d => .of_eq ?_⟩
      rw [PerClass.get_put, PerClass.get_put]
      by_cases eq : d = c
      · simp [eq, own]
      · simp [eq, Ne.symm eq]
    | nil =>
      cases e
      exact ⟨rfl, hands, fun d => .refl _⟩

/-- A request gets a place in a cell of the first class that is large enough. -/
theorem allocate_eq_ok {align offset : Nat} {p : Address}
    (e : a.allocate size align offset h = .ok (p, a') h') :
    ∃ bytes c cell, reserveSize size align = .ok bytes ∧ SizeClass.ofBytes? bytes = some c ∧
      a.take c h = .ok (cell, a') h' ∧
      (cell = none ∧ p = 0 ∨ ∃ x, cell = some x ∧ alignPlace x align offset = .ok p) := by
  obtain ⟨bytes, reserved, e⟩ := HeapM.lift_bind_eq_ok.1 e
  cases found : SizeClass.ofBytes? bytes with
  | none =>
    rw [found] at e
    cases e
  | some c =>
    rw [found] at e
    obtain ⟨⟨cell, a₁⟩, k₁, taken, e⟩ := HeapM.bind_eq_ok.1 e
    refine ⟨bytes, c, cell, reserved, found, ?_⟩
    cases cell with
    | none =>
      cases e
      exact ⟨taken, .inl ⟨rfl, rfl⟩⟩
    | some cell =>
      obtain ⟨place, placed, e⟩ := HeapM.lift_bind_eq_ok.1 e
      cases e
      exact ⟨taken, .inr ⟨cell, rfl, placed⟩⟩

/-- The cell of a request is large enough for it, and was spare. -/
theorem of_allocate {p : Address}
    (st : h.small.Stocked m fun d => h.small.free.get d ++ (a.cells.get d ++ others d))
    (e : a.allocate size bytesPerWord 0 h = .ok (p, a') h') :
    ∃ small log, h' = { h with small, log } ∧ h.small.Gives small ∧
      (small.Stocked m fun d => small.free.get d ++ (a'.cells.get d ++ others d)) ∧
      (p ≠ 0 → ∃ c, size ≤ c.cellSize ∧ small.Stocked m fun d =>
        (if d = c then [p] else []) ++ (small.free.get d ++ (a'.cells.get d ++ others d))) := by
  obtain ⟨bytes, c, cell, reserved, found, taken, placed⟩ := allocate_eq_ok e
  obtain ⟨cs, small, log, rfl, hands, moved⟩ := take_eq_ok taken
  obtain ⟨gives, handed⟩ := st.of_hands hands
  have st := handed.congr rfl rfl rfl fun d => perm_exchange (moved d)
  have rest := st.sublist fun d => List.sublist_append_right _ _
  refine ⟨small, log, rfl, gives, rest, fun some => ?_⟩
  rcases placed with ⟨rfl, rfl⟩ | ⟨x, rfl, placed⟩
  · exact absurd rfl some
  · have isCell := (st.cells c x (by simp)).1
    obtain rfl := alignPlace_eq_ok (Nat.dvd_trans c.word_dvd isCell.aligned) placed
    exact ⟨c, Nat.le_trans (reserveSize_eq_ok reserved) (SizeClass.ofBytes?_eq_some found), st⟩

end CellAllocator

/-! ## Pages for one object -/

/-- A request takes as many pages as it needs, and is placed in them. Or there are too few. -/
theorem allocatePages_eq_ok {align offset : Nat} {p : Address}
    (e : allocatePages size align offset h = .ok p h') :
    ∃ bytes pages cell pool log, reserveSize size align = .ok bytes ∧
      bytes ≤ pages * bytesPerPage ∧ pages * bytesPerPage < Word.limit ∧
      h.large.pages.acquire pages = .ok (cell, pool) ∧
      ((cell = none ∧ p = 0 ∧ h' = { h with large := { h.large with pages := pool }, log }) ∨
        ∃ a, cell = some a ∧ alignPlace a align offset = .ok p ∧
          h' = { h with large := { h.large with pages := pool }.addPending a pages, log }) := by
  obtain ⟨bytes, reserved, e⟩ := HeapM.lift_bind_eq_ok.1 e
  obtain ⟨pages, counted, e⟩ := HeapM.lift_bind_eq_ok.1 e
  obtain ⟨enough, fits⟩ := bytesToPages_eq_ok counted
  obtain ⟨cell, k, found, e⟩ := HeapM.bind_eq_ok.1 e
  obtain ⟨cell', k', acquired, found⟩ := HeapM.bind_eq_ok.1 found
  obtain ⟨pool, log, got, rfl⟩ := HeapM.acquirePages_eq_ok acquired
  refine ⟨bytes, pages, cell', pool, log, reserved, enough, fits, got, ?_⟩
  cases cell' with
  | none =>
    cases found
    cases e
    exact .inl ⟨rfl, rfl, rfl⟩
  | some a =>
    cases found
    obtain ⟨placed, rfl⟩ := HeapM.lift_eq_ok.1 e
    exact .inr ⟨a, rfl, placed, rfl⟩

/-- The pages of a request are large enough for it, and their cell waits for the object. -/
theorem of_allocatePages {p : Address} (pool : h.large.pages.Accounts h.large.runs)
    (e : allocatePages size bytesPerWord 0 h = .ok p h') :
    (p = 0 ∧ ∃ log, h' = { h with log }) ∨
      ∃ pages pool log, size ≤ pages * bytesPerPage ∧
        pool.Accounts (⟨p, pages⟩ :: h.large.runs) ∧ pool.start = h.large.pages.start ∧
        pool.limit = h.large.pages.limit ∧
        h' = { h with large := { h.large with pages := pool }.addPending p pages, log } := by
  obtain ⟨bytes, pages, cell, pool', log, reserved, enough, fits, got, found⟩ :=
    allocatePages_eq_ok e
  obtain ⟨accounts, none, start, limit⟩ := pool.of_acquire fits got
  rcases found with ⟨rfl, rfl, rfl⟩ | ⟨a, rfl, aligned, rfl⟩
  · refine .inl ⟨rfl, log, ?_⟩
    rw [none rfl]
  · have taken := accounts a rfl
    have within := taken.packed.within ⟨a, pages⟩ (by simp)
    obtain rfl := alignPlace_eq_ok (Nat.dvd_trans (by decide) within.aligned) aligned
    exact .inr ⟨pages, pool', log, Nat.le_trans (reserveSize_eq_ok reserved) enough, taken, start,
      limit, rfl⟩

/-! ## Blocks -/

namespace BumpAllocator

variable {b b' : BumpAllocator} {p : Address} {blocks : List BumpAllocator}

theorem cut?_eq_ok {align offset : Nat} {r : Option (Address × BumpAllocator)}
    (e : b.cut? size align offset h = .ok r h') :
    ∃ log, h' = { h with log } ∧
      (r = none ∧ (b.cursor ≠ 0 → ∃ place, alignPlace b.cursor align offset = .ok place ∧
          b.limit < place + size) ∨
        ∃ place, b.cursor ≠ 0 ∧ alignPlace b.cursor align offset = .ok place ∧
          place + size ≤ b.limit ∧ r = some (place, { b with cursor := place + size })) := by
  unfold cut? at e
  split at e
  · next none =>
    cases e
    exact ⟨_, rfl, .inl ⟨rfl, fun some => absurd none some⟩⟩
  · next block =>
    obtain ⟨placed, tried, e⟩ := HeapM.lift_bind_eq_ok.1 e
    obtain ⟨place, found, tried⟩ := Except.bind_eq_ok.1 tried
    obtain ⟨cursor, sum, tried⟩ := Except.bind_eq_ok.1 tried
    obtain ⟨-, rfl⟩ := Word.add_eq_ok.1 sum
    split at tried
    · next lt =>
      cases tried
      cases e
      exact ⟨_, rfl, .inl ⟨rfl, fun _ => ⟨place, found, lt⟩⟩⟩
    · next le =>
      cases tried
      cases e
      exact ⟨_, rfl, .inr ⟨place, block, found, Nat.le_of_not_lt le, rfl⟩⟩

/-- A new block lies in the pages that were taken for it. -/
theorem refill_eq_ok {align : Nat} {r : Option BumpAllocator}
    (e : refill size align h = .ok r h') :
    ∃ bytes pages block pool log, blockFor size align = .ok bytes ∧
      bytes ≤ pages * bytesPerPage ∧ pages * bytesPerPage < Word.limit ∧
      h.permanent.pages.acquire pages = .ok (block, pool) ∧
      h' = { h with permanent := { h.permanent with pages := pool }, log } ∧
      r = block.map fun start => { cursor := start, limit := start + bytes } := by
  rw [refill, HeapM.emit_bind_apply] at e
  obtain ⟨bytes, sized, e⟩ := HeapM.lift_bind_eq_ok.1 e
  obtain ⟨pages, counted, e⟩ := HeapM.lift_bind_eq_ok.1 e
  obtain ⟨enough, fits⟩ := bytesToPages_eq_ok counted
  obtain ⟨block, k, acquired, e⟩ := HeapM.bind_eq_ok.1 e
  obtain ⟨pool, log, got, rfl⟩ := HeapM.acquirePages_eq_ok acquired
  refine ⟨bytes, pages, block, pool, ?_⟩
  cases block with
  | none =>
    cases e
    exact ⟨_, sized, enough, fits, got, rfl, rfl⟩
  | some start =>
    simp only [HeapM.emit_bind_apply] at e
    obtain ⟨stop, sum, e⟩ := HeapM.lift_bind_eq_ok.1 e
    obtain ⟨-, rfl⟩ := Word.add_eq_ok.1 sum
    cases e
    exact ⟨_, sized, enough, fits, got, rfl, rfl⟩

/-- How an allocation goes that returns.
* `cut`: the object is cut off the block.
* `refused`: it does not fit, and there is no other block.
* `refilled`: it does not fit, and goes to a new block. -/
inductive Cuts (size align offset : Nat) :
    Heap → BumpAllocator → Address → BumpAllocator → Heap → Prop
  | cut {h h' : Heap} {b b' : BumpAllocator} {p : Address} :
    b.cut? size align offset h = .ok (some (p, b')) h' → Cuts size align offset h b p b' h'
  | refused {h k h' : Heap} {b : BumpAllocator} : b.cut? size align offset h = .ok none k →
    refill size align k = .ok none h' → Cuts size align offset h b 0 b h'
  | refilled {h k k' h' : Heap} {b b₁ b' : BumpAllocator} {p : Address} :
    b.cut? size align offset h = .ok none k → refill size align k = .ok (some b₁) k' →
    Cuts size align offset k' b₁ p b' h' → Cuts size align offset h b p b' h'

theorem cuts_of_allocate {refills align offset : Nat}
    (e : allocate refills b size align offset h = .ok (p, b') h') :
    Cuts size align offset h b p b' h' := by
  -- the blocks that may still be taken bound the recursion
  induction refills using Nat.strongRecOn generalizing h b with
  | ind refills ih =>
    rw [allocate.eq_def] at e
    obtain ⟨r, k, cut, e⟩ := HeapM.bind_eq_ok.1 e
    cases r with
    | some r =>
      cases e
      exact .cut cut
    | none =>
      obtain ⟨r, k', taken, e⟩ := HeapM.bind_eq_ok.1 e
      cases r with
      | none =>
        cases e
        exact .refused cut taken
      | some b₁ =>
        cases refills with
        | zero => cases e
        | succ refills => exact .refilled cut taken (ih refills (Nat.lt_succ_self _) e)

/-- An object that the block has room for is cut off it. -/
theorem of_cut? {r : Option (Address × BumpAllocator)} (aligned : bytesPerWord ∣ b.cursor)
    (e : b.cut? size bytesPerWord 0 h = .ok r h') :
    ∃ log, h' = { h with log } ∧
      (r = none ∨ b.cursor ≠ 0 ∧ b.cursor + size ≤ b.limit ∧
        r = some (b.cursor, { b with cursor := b.cursor + size })) := by
  obtain ⟨log, rfl, ⟨none, -⟩ | ⟨place, block, found, le, some⟩⟩ := cut?_eq_ok e
  · exact ⟨log, rfl, .inl none⟩
  · obtain rfl := alignPlace_eq_ok aligned found
    exact ⟨log, rfl, .inr ⟨block, le, some⟩⟩

/-- A new block is fresh. -/
theorem of_refill {r : Option BumpAllocator} (st : h.permanent.Stocked m (b :: blocks))
    (e : refill size bytesPerWord h = .ok r h') :
    ∃ permanent log, h' = { h with permanent, log } ∧
      permanent.pages.start = h.permanent.pages.start ∧
      permanent.pages.limit = h.permanent.pages.limit ∧
      permanent.objects = h.permanent.objects ∧
      (r = none ∧ permanent.Stocked m (b :: blocks) ∨
        ∃ b', r = some b' ∧ permanent.Stocked m (b' :: blocks)) := by
  obtain ⟨bytes, pages, block, pool, log, -, enough, fits, got, rfl, rfl⟩ := refill_eq_ok e
  rcases st.pool.of_acquire fits got with ⟨rfl, rfl⟩ | ⟨rfl, rising, start, limit, cursor⟩
  · exact ⟨h.permanent, log, rfl, rfl, rfl, rfl, .inl ⟨rfl, st⟩⟩
  · refine ⟨{ h.permanent with pages := pool }, log, rfl, start, limit, rfl, .inr ⟨_, rfl, ?_⟩⟩
    exact st.refill rising start rfl (Nat.le_add_right ..) rfl
      (cursor ▸ Nat.add_le_add_left enough _)

/-- What a bump allocator leaves when it returns `p`. -/
structure Leaves (size : Nat) (p : Address) (m : Memory) (blocks : List BumpAllocator)
    (s s' : PermanentSpace) (b' : BumpAllocator) : Prop where
  start : s'.pages.start = s.pages.start
  limit : s'.pages.limit = s.pages.limit
  objects : s'.objects = s.objects
  stocked : s'.Stocked m (b' :: blocks)
  /-- The object was cut off what was left of a block. -/
  place : p ≠ 0 → ∃ b : BumpAllocator, p = b.cursor ∧ p + size ≤ b.limit ∧
    b' = { b with cursor := p + size } ∧ s'.Stocked m (b :: blocks)

/-- An object is cut off a block, which may be a new one. -/
theorem of_allocate {refills : Nat} (words : bytesPerWord ∣ size)
    (st : h.permanent.Stocked m (b :: blocks))
    (e : allocate refills b size bytesPerWord 0 h = .ok (p, b') h') :
    ∃ permanent log, h' = { h with permanent, log } ∧
      Leaves size p m blocks h.permanent permanent b' := by
  have cuts := cuts_of_allocate e
  clear e
  induction cuts with
  | cut cut =>
    obtain ⟨log, rfl, none | ⟨block, le, some⟩⟩ := of_cut? (st.inside _ List.mem_cons_self).1 cut
    · cases none
    · cases some
      exact ⟨_, log, rfl, rfl, rfl, rfl, st.place words block, fun _ => ⟨_, rfl, le, rfl, st⟩⟩
  | refused cut taken =>
    obtain ⟨log, rfl, -⟩ := of_cut? (st.inside _ List.mem_cons_self).1 cut
    obtain ⟨permanent, log, rfl, start, limit, objects, ⟨-, st⟩ | ⟨_, none, -⟩⟩ :=
      of_refill (by exact st) taken
    · exact ⟨permanent, log, rfl, start, limit, objects, st, fun some => absurd rfl some⟩
    · cases none
  | refilled cut taken _ ih =>
    obtain ⟨log, rfl, -⟩ := of_cut? (st.inside _ List.mem_cons_self).1 cut
    obtain ⟨permanent, log, rfl, start, limit, objects, ⟨some, -⟩ | ⟨b₁, same, st⟩⟩ :=
      of_refill (by exact st) taken
    · cases some
    · cases same
      obtain ⟨permanent', log', rfl, l⟩ := ih st
      exact ⟨permanent', log', rfl, l.start.trans start, l.limit.trans limit,
        l.objects.trans objects, l.stocked, l.place⟩

end BumpAllocator

end DeferredCount
