import DeferredCount.Proofs.Entries
import Mathlib.Algebra.GroupWithZero.Nat
import Mathlib.Logic.Relation

/-!
# Entries on their way

Threads push entries to their buffers and take them back, and blocks go to the pool and come out of
it. Each entry is in one place all the while, until it is handed out. A buffer may outgrow its
capacity only with a block from the pool, so this is also how large a block can be that it hands
over.

Results:
1. `Pool.len_eq`: counting the entries block by block gives the size, and keeps the pool.
2. `Buffer.take?_of_isFlushed`: an empty buffer takes the oldest block over.
3. `EntryTraffic.Settled.step`: what one call keeps.
4. `EntryTraffic.entries_are_conserved`: what holds after every sequence of calls.
-/

namespace DeferredCount

open Relation

variable {α : Type}

/-! ## Counting the entries of a pool -/

namespace Pool

variable {p q : Pool α} {block : Stack α}

theorem counts_pop (e : p.pop = some (block, q)) :
    q.consumers = p.consumers ∧ q.waiting = p.waiting := by
  obtain ⟨_, -, eq⟩ := Option.map_eq_some_iff.1 e
  cases eq
  exact ⟨rfl, rfl⟩

theorem takeAll_eq (p : Pool α) : p.takeAll.1 = p.blocks ∧ p.takeAll.2.blocks = [] ∧
    p.takeAll.2.consumers = p.consumers ∧ p.takeAll.2.waiting = p.waiting := by
  fun_induction takeAll p with
  | case1 p e => exact ⟨(pop_eq_none.1 e).symm, pop_eq_none.1 e, rfl, rfl⟩
  | case2 p block q e ih =>
    obtain ⟨taken, none, consumers, waiting⟩ := ih
    obtain ⟨consumers', waiting'⟩ := counts_pop e
    exact ⟨by rw [taken, blocks_pop e], none, consumers.trans consumers',
      waiting.trans waiting'⟩

theorem putAll_eq (p : Pool α) (blocks : List (Stack α)) :
    (p.putAll blocks).blocks = p.blocks ++ blocks ∧ (p.putAll blocks).consumers = p.consumers ∧
      (p.putAll blocks).waiting = p.waiting := by
  induction blocks generalizing p with
  | nil => exact ⟨(List.append_nil _).symm, rfl, rfl⟩
  | cons block rest ih =>
    obtain ⟨put, consumers, waiting⟩ := ih { p with queue := p.queue.push block }
    refine ⟨put.trans ?_, consumers, waiting⟩
    rw [Pool.blocks, Queue.toList_push, List.append_assoc, List.singleton_append, Pool.blocks]

/-- Counting block by block gives the size, and leaves the pool as it was. -/
theorem len_eq (p : Pool α) : p.len.1 = p.size ∧ p.len.2.blocks = p.blocks ∧
    p.len.2.consumers = p.consumers ∧ p.len.2.waiting = p.waiting := by
  obtain ⟨taken, none, consumers, waiting⟩ := p.takeAll_eq
  obtain ⟨put, consumers', waiting'⟩ := p.takeAll.2.putAll_eq p.takeAll.1
  refine ⟨?_, ?_, consumers'.trans consumers, waiting'.trans waiting⟩
  · rw [len, taken, size, Queue.foldl_eq, blocks]
  · rw [len, put, none, taken, List.nil_append]

/-- The blocks of a pool after a block was handed over, if there was anything to hand over. -/
def Spills (p q : Pool α) (bound : Nat) : Prop :=
  q.blocks = p.blocks ∨ ∃ block, q.blocks = p.blocks ++ [block] ∧ block.size ≤ bound

theorem spills_push {bound : Nat} (le : block.size ≤ bound) : p.Spills (p.push block) bound := by
  rw [Spills, blocks_push]
  cases block.isEmpty with
  | true => exact .inl (List.append_nil _)
  | false => exact .inr ⟨block, rfl, le⟩

end Pool

/-! ## Taking a block over -/

namespace Buffer

variable {b b' : Buffer α} {p q : Pool α} {v : α}

theorem takeBlock_of_solid {q : Queue (Stack α)} (solid : ∀ block ∈ q.toList, block.toList ≠ []) :
    takeBlock q = q.pop.bind fun (block, r) => block.pop.map fun (v, items) => (v, items, r) := by
  have first {block : Stack α} (mem : block ∈ q.toList) (rest : List (Stack α)) :
      ∃ v items, block.pop = some (v, items) ∧
        takeEntry (block :: rest) = some (v, items, rest) := by
    cases e : block.pop with
    | none => exact absurd (Stack.pop_eq_none.1 e) (solid block mem)
    | some r => exact ⟨r.1, r.2, rfl, by rw [takeEntry, e]⟩
  cases front : q.front with
  | cons block rest =>
    obtain ⟨v, items, popped, taken⟩ := @first block (by simp [Queue.toList, front]) rest
    simp [takeBlock, Queue.pop, front, taken, popped]
  | nil =>
    cases back : q.back.reverse with
    | nil => simp [takeBlock, Queue.pop, front, back, takeEntry]
    | cons block rest =>
      obtain ⟨v, items, popped, taken⟩ := @first block (by simp [Queue.toList, back]) rest
      simp [takeBlock, Queue.pop, front, back, taken, popped, takeEntry]

/-- An empty buffer takes over the oldest block of the pool, and hands out its latest entry. -/
theorem take?_of_isFlushed (solid : p.Solid) (flushed : b.isFlushed = true) :
    b.take? p = p.pop.bind fun (block, q) =>
      block.pop.map fun (v, items) => (v, { b with items }, q) := by
  have none : b.popLocal = none := by
    rw [popLocal, Option.map_eq_none_iff]
    exact Stack.pop_eq_none.2 ((Stack.isEmpty_iff _).1 flushed)
  rw [take?, none]
  dsimp only
  rw [takeBlock_of_solid solid, Pool.pop]
  cases p.queue.pop with
  | none => rfl
  | some r =>
    simp only [Option.bind_some, Option.map_some, Option.map_map]
    rfl

theorem isFlushed_iff (b : Buffer α) : b.isFlushed = true ↔ b.items.toList = [] :=
  Stack.isEmpty_iff b.items

theorem size_of_popLocal (e : b.popLocal = some (v, b')) :
    b'.size + 1 = b.size ∧ b'.capacity = b.capacity := by
  obtain ⟨⟨w, items⟩, popped, eq⟩ := Option.map_eq_some_iff.1 e
  cases eq
  refine ⟨?_, rfl⟩
  rw [size, size, Stack.size_eq_length, Stack.size_eq_length, Stack.toList_pop popped,
    List.length_append, List.length_singleton]

/-- How large a block is that a buffer takes over when it is asked for an entry. A buffer with
entries takes none. -/
def takesOver (b : Buffer α) (p : Pool α) : Nat :=
  if b.isFlushed then (p.pop.map fun (block, _) => block.size).getD 0 else 0

theorem size_of_take? (solid : p.Solid) (e : b.take? p = some (v, b', q)) :
    b'.size ≤ max b.size (b.takesOver p) := by
  by_cases flushed : b.isFlushed = true
  · rw [take?_of_isFlushed solid flushed, Option.bind_eq_some_iff] at e
    obtain ⟨⟨block, r⟩, popped, e⟩ := e
    obtain ⟨⟨w, items⟩, top, eq⟩ := Option.map_eq_some_iff.1 e
    cases eq
    have size : items.size + 1 = block.size := by
      rw [Stack.size_eq_length, Stack.size_eq_length, Stack.toList_pop top, List.length_append,
        List.length_singleton]
    rw [takesOver, if_pos flushed, popped]
    exact Nat.le_trans (Nat.le_trans (Nat.le_succ _) (Nat.le_of_eq size)) (Nat.le_max_right ..)
  · obtain ⟨r, e'⟩ : ∃ r, b.popLocal = some r := by
      cases popped : b.popLocal with
      | some r => exact ⟨r, rfl⟩
      | none =>
        rw [popLocal, Option.map_eq_none_iff, Stack.pop_eq_none] at popped
        exact absurd (b.isFlushed_iff.2 popped) flushed
    rw [take?, e'] at e
    cases e
    have := (size_of_popLocal e').1
    exact Nat.le_trans (Nat.le_of_succ_le (Nat.le_of_eq this)) (Nat.le_max_left ..)

theorem take?_of_dequeue (e : b.dequeue p = .entry v b' q) : b.take? p = some (v, b', q) := by
  unfold dequeue at e
  split at e
  · next taken =>
    cases e
    exact taken
  · split at e <;> cases e

theorem take?_of_quiet (e : b.dequeue p = .quiet q) : b.take? p = none ∧ q = p.join := by
  unfold dequeue at e
  split at e
  · cases e
  · next none =>
    split at e
    · cases e
      exact ⟨none, rfl⟩
    · cases e

theorem size_push (pos : 0 < b.capacity) (p : Pool α) (v : α) :
    (b.push p v).1.size ≤ max b.capacity b.size := by
  unfold push
  split
  · next less => exact Nat.le_trans less (Nat.le_max_left ..)
  · exact Nat.le_trans pos (Nat.le_max_left ..)

theorem spills_of_push {bound : Nat} (le : b.size ≤ bound) (p : Pool α) (v : α) :
    p.Spills (b.push p v).2 bound := by
  unfold push
  split
  · exact .inl rfl
  · exact Pool.spills_push le

/-- Only who finds the buffer and the pool empty gets no entry. -/
theorem isEmpty_of_take? (solid : p.Solid) (e : b.take? p = none) : b.isEmpty p = true := by
  obtain ⟨items, blocks⟩ := take?_eq_none e
  rw [isEmpty, b.isFlushed_iff.2 items, Bool.true_and]
  exact solid.isEmpty (List.flatMap_eq_nil_iff.2 blocks)

end Buffer

/-! ## Calls -/

/-- A local buffer, and the size of the largest block that it took over from the pool. -/
structure Seat (α : Type) where
  buffer : Buffer α
  largest : Nat := 0

/-- How large a block can be that comes from a buffer. -/
def Seat.bound (s : Seat α) : Nat := max s.buffer.capacity s.largest

/-- A pool and the buffers of the threads that share it, with the entries that were pushed and those
that were handed out so far. -/
structure EntryTraffic (α : Type) where
  pool : Pool α := {}
  seats : List (Seat α) := []
  pushed : List α := []
  handed : List α := []

namespace EntryTraffic

/-- One call that returns.

* `attach`: there is another buffer.
* `push`, `flush`, `popLocal`: a thread works on its own buffer, which may hand a block over.
* `dequeue`, `quiet`: a thread asks for an entry, and gets one or is told that there is none.
* `pushBlock`, `popBlock`: a block is put into the pool, or taken out and handed out.
* `spin`, `spinQuiet`: so does a search for a block, or it ends without one.
* `len`: the entries of the pool are counted.
* `prepare`: the pool is made ready for consumers. -/
inductive Step : EntryTraffic α → EntryTraffic α → Prop
  | attach {t : EntryTraffic α} {capacity : Nat} {b : Buffer α} :
    Buffer.ofCapacity capacity = .ok b → Step t { t with seats := ⟨b, 0⟩ :: t.seats }
  | push {t : EntryTraffic α} {pre post : List (Seat α)} {s : Seat α} (v : α) :
    t.seats = pre ++ s :: post →
    Step t { t with
      pool := (s.buffer.push t.pool v).2
      seats := pre ++ { s with buffer := (s.buffer.push t.pool v).1 } :: post
      pushed := t.pushed ++ [v] }
  | flush {t : EntryTraffic α} {pre post : List (Seat α)} {s : Seat α} :
    t.seats = pre ++ s :: post →
    Step t { t with
      pool := (s.buffer.flush t.pool).2
      seats := pre ++ { s with buffer := (s.buffer.flush t.pool).1 } :: post }
  | popLocal {t : EntryTraffic α} {pre post : List (Seat α)} {s : Seat α} {v : α}
    {b : Buffer α} : t.seats = pre ++ s :: post → s.buffer.popLocal = some (v, b) →
    Step t { t with
      seats := pre ++ { s with buffer := b } :: post
      handed := t.handed ++ [v] }
  | dequeue {t : EntryTraffic α} {pre post : List (Seat α)} {s : Seat α} {v : α}
    {b : Buffer α} {p : Pool α} : t.seats = pre ++ s :: post →
    s.buffer.dequeue t.pool = .entry v b p →
    Step t { t with
      pool := p
      seats := pre ++ ⟨b, max s.largest (s.buffer.takesOver t.pool)⟩ :: post
      handed := t.handed ++ [v] }
  | quiet {t : EntryTraffic α} {s : Seat α} {p : Pool α} : s ∈ t.seats →
    s.buffer.dequeue t.pool = .quiet p → Step t { t with pool := p }
  | pushBlock {t : EntryTraffic α} (block : Stack α) :
    Step t { t with pool := t.pool.push block, pushed := t.pushed ++ block.toList }
  | popBlock {t : EntryTraffic α} {block : Stack α} {p : Pool α} :
    t.pool.pop = some (block, p) →
    Step t { t with pool := p, handed := t.handed ++ block.toList }
  | spin {t : EntryTraffic α} {block : Stack α} {p : Pool α} :
    t.pool.search = .block block p →
    Step t { t with pool := p, handed := t.handed ++ block.toList }
  | spinQuiet {t : EntryTraffic α} {p : Pool α} : t.pool.search = .quiet p →
    Step t { t with pool := p }
  | len {t : EntryTraffic α} : Step t { t with pool := t.pool.len.2 }
  | prepare {t : EntryTraffic α} {n : Nat} {p : Pool α} : t.pool.prepare n = .ok p →
    Step t { t with pool := p }

/-- Some calls, one after the other. -/
abbrev Runs : EntryTraffic α → EntryTraffic α → Prop := ReflTransGen Step

/-- The entries in local buffers. -/
def held (t : EntryTraffic α) : List α := t.seats.flatMap fun s => s.buffer.items.toList

variable {t t' : EntryTraffic α} {pre post : List (Seat α)} {s : Seat α}

/-- What every call keeps. -/
structure Settled (t : EntryTraffic α) : Prop where
  solid : t.pool.Solid
  seats : ∀ s ∈ t.seats, 0 < s.buffer.capacity ∧ s.buffer.size ≤ s.bound
  conserved : t.pushed.Perm (t.handed ++ (t.held ++ t.pool.entries))

/-- The entries of one thread and the pool among those of all. -/
theorem held_perm (split : t.seats = pre ++ s :: post) :
    (t.held ++ t.pool.entries).Perm
      (s.buffer.both t.pool ++ (pre ++ post).flatMap fun s => s.buffer.items.toList) := by
  have out : t.held.Perm (s.buffer.items.toList ++
      (pre ++ post).flatMap fun s => s.buffer.items.toList) := by
    rw [held, split]
    exact List.perm_middle.flatMap_right _
  refine (out.append_right _).trans ?_
  rw [Buffer.both]
  refine List.perm_append_comm.trans ?_
  rw [List.append_assoc]

/-- Only the pool and one buffer change. -/
theorem Settled.seat (st : t.Settled) (split : t.seats = pre ++ s :: post) (s' : Seat α)
    {p : Pool α} (pushed handed : List α) (solid : p.Solid)
    (capacity : s'.buffer.capacity = s.buffer.capacity) (bound : s'.buffer.size ≤ s'.bound)
    (both : (s.buffer.both t.pool ++ pushed).Perm (handed ++ s'.buffer.both p)) :
    Settled ⟨p, pre ++ s' :: post, t.pushed ++ pushed, t.handed ++ handed⟩ where
  solid := solid
  seats x hx := by
    have hs : s ∈ t.seats := split ▸ by simp
    rcases List.mem_append.1 hx with hx | hx
    · exact st.seats x (split ▸ List.mem_append_left _ hx)
    · rcases List.mem_cons.1 hx with rfl | hx
      · exact ⟨capacity ▸ (st.seats s hs).1, bound⟩
      · exact st.seats x (split ▸ List.mem_append_right _ (List.mem_cons_of_mem _ hx))
  conserved := by
    have new := held_perm (t := ⟨p, pre ++ s' :: post, t.pushed ++ pushed, t.handed ++ handed⟩) rfl
    have old := st.conserved.trans ((held_perm split).append_left _)
    refine (old.append_right pushed).trans ?_
    -- what the thread pushes joins the entries it has in reach, and what it hands out leaves them
    have moved : ((s.buffer.both t.pool ++ (pre ++ post).flatMap fun s => s.buffer.items.toList) ++
        pushed).Perm (handed ++ (s'.buffer.both p ++
          (pre ++ post).flatMap fun s => s.buffer.items.toList)) := by
      rw [List.append_assoc]
      refine (List.perm_append_comm.append_left _).trans ?_
      rw [← List.append_assoc, ← List.append_assoc]
      exact both.append_right _
    rw [List.append_assoc]
    refine ((moved.trans (new.symm.append_left handed)).append_left t.handed).trans (.of_eq ?_)
    rw [List.append_assoc]

/-- Only the pool changes. -/
theorem Settled.withPool (st : t.Settled) {p : Pool α} (pushed handed : List α) (solid : p.Solid)
    (entries : (t.pool.entries ++ pushed).Perm (handed ++ p.entries)) :
    Settled { t with pool := p, pushed := t.pushed ++ pushed, handed := t.handed ++ handed } where
  solid := solid
  seats := st.seats
  conserved := by
    refine (st.conserved.append_right pushed).trans ?_
    rw [List.append_assoc, List.append_assoc, List.append_assoc]
    refine List.Perm.append_left t.handed ((entries.append_left t.held).trans ?_)
    rw [← List.append_assoc, ← List.append_assoc]
    exact List.perm_append_comm.append_right _

/-- A block is taken out of the pool. -/
theorem Settled.popped (st : t.Settled) {block : Stack α} {p : Pool α}
    (e : t.pool.pop = some (block, p)) :
    Settled { t with pool := p, handed := t.handed ++ block.toList } := by
  have solid : p.Solid := fun x hx => st.solid x (Pool.blocks_pop e ▸ List.mem_cons_of_mem _ hx)
  have := st.withPool [] block.toList solid
    (.of_eq (by rw [List.append_nil, Pool.entries_pop e]))
  rwa [List.append_nil] at this

/-- The blocks of the pool stay. -/
theorem Settled.withBlocks (st : t.Settled) {p : Pool α} (blocks : p.blocks = t.pool.blocks) :
    Settled { t with pool := p } where
  solid := by
    rw [Pool.Solid, blocks]
    exact st.solid
  seats := st.seats
  conserved := by
    rw [Pool.entries, blocks]
    exact st.conserved

theorem Settled.empty : Settled ({} : EntryTraffic α) :=
  ⟨.of_blocks rfl, nofun, .refl _⟩

theorem Settled.step (st : t.Settled) (step : Step t t') : t'.Settled := by
  cases step with
  | @attach capacity b e =>
    obtain ⟨_, pos, e⟩ := Except.bind_eq_ok.1 e
    cases e
    refine ⟨st.solid, List.forall_mem_cons.2 ⟨⟨?_, Nat.zero_le _⟩, st.seats⟩, st.conserved⟩
    unfold require at pos
    split at pos
    · next less => exact of_decide_eq_true less
    · cases pos
  | @push pre post s v split =>
    obtain ⟨pos, le⟩ := st.seats s (split ▸ by simp)
    have next := st.seat split { s with buffer := (s.buffer.push t.pool v).1 } [v] []
      (st.solid.push v) (Buffer.capacity_push ..) ?_
      (.of_eq (Buffer.both_push ..).symm)
    · rwa [List.append_nil] at next
    · rw [Seat.bound, Buffer.capacity_push]
      exact Nat.le_trans (Buffer.size_push pos t.pool v)
        (Nat.max_le.2 ⟨Nat.le_max_left .., le⟩)
  | @flush pre post s split =>
    have both : (s.buffer.flush t.pool).1.both (s.buffer.flush t.pool).2 =
        s.buffer.both t.pool := by
      rw [Buffer.both, Buffer.both, Buffer.entries_flush]
      exact List.append_nil _
    have next := st.seat (p := (s.buffer.flush t.pool).2) split
      { s with buffer := (s.buffer.flush t.pool).1 } [] [] (st.solid.pushBlock _) rfl
      (Nat.zero_le _) (.of_eq ((List.append_nil _).trans both.symm))
    rwa [List.append_nil, List.append_nil] at next
  | @popLocal pre post s v b split e =>
    obtain ⟨size, capacity⟩ := Buffer.size_of_popLocal e
    obtain ⟨-, le⟩ := st.seats s (split ▸ by simp)
    have taken : s.buffer.take? t.pool = some (v, b, t.pool) := by rw [Buffer.take?, e]
    have next := st.seat split { s with buffer := b } [] [v]
      st.solid capacity ?_ (by simpa using Buffer.take?_perm taken)
    · rwa [List.append_nil] at next
    · rw [Seat.bound, capacity]
      exact Nat.le_trans (Nat.le_of_succ_le (Nat.le_of_eq size)) le
  | @dequeue pre post s v b p split e =>
    have taken := Buffer.take?_of_dequeue e
    obtain ⟨-, le⟩ := st.seats s (split ▸ by simp)
    have next := st.seat split ⟨b, max s.largest (s.buffer.takesOver t.pool)⟩ [] [v]
      (st.solid.take? taken) (Buffer.capacity_take? taken) ?_
      (by simpa using Buffer.take?_perm taken)
    · rwa [List.append_nil] at next
    · rw [Seat.bound, Buffer.capacity_take? taken, ← Nat.max_assoc]
      exact Nat.le_trans (Buffer.size_of_take? st.solid taken)
        (Nat.max_le.2 ⟨Nat.le_trans le (Nat.le_max_left ..), Nat.le_max_right ..⟩)
  | quiet _ e =>
    obtain ⟨-, rfl⟩ := Buffer.take?_of_quiet e
    exact st.withBlocks rfl
  | pushBlock block =>
    have next := st.withPool block.toList [] (st.solid.pushBlock block)
      (.of_eq (Pool.entries_push ..).symm)
    rwa [List.append_nil] at next
  | popBlock e => exact st.popped e
  | spin e =>
    refine st.popped ?_
    unfold Pool.search at e
    split at e
    · next popped =>
      cases e
      exact popped
    · split at e <;> cases e
  | spinQuiet e =>
    unfold Pool.search at e
    split at e
    · cases e
    · split at e
      · cases e
        exact st.withBlocks rfl
      · cases e
  | len => exact st.withBlocks t.pool.len_eq.2.1
  | prepare e =>
    obtain ⟨_, -, e⟩ := Except.bind_eq_ok.1 e
    cases e
    exact st.withBlocks rfl

theorem Settled.run (st : t.Settled) (run : Runs t t') : t'.Settled := by
  induction run with
  | refl => exact st
  | tail _ step ih => exact ih.step step

/-- Whatever calls were made, every entry that was pushed was handed out or is in one place. The
pool has no empty block, and a buffer hands over no block that is larger than its capacity and than
all blocks it took over. The entries of the pool can be counted without a change to its blocks. A
thread that asks for an entry gets one, unless its buffer and the pool are empty. -/
theorem entries_are_conserved (run : Runs {} t) :
    t.pushed.Perm (t.handed ++ (t.held ++ t.pool.entries)) ∧
      (∀ block ∈ t.pool.blocks, block.toList ≠ []) ∧
      (∀ s ∈ t.seats, (∀ v, t.pool.Spills (s.buffer.push t.pool v).2 s.bound) ∧
        t.pool.Spills (s.buffer.flush t.pool).2 s.bound) ∧
      t.pool.len.1 = t.pool.entries.length ∧ t.pool.len.2.blocks = t.pool.blocks ∧
      ∀ s ∈ t.seats,
        (∀ p, s.buffer.dequeue t.pool = .quiet p → s.buffer.isEmpty t.pool = true) ∧
        (s.buffer.isEmpty t.pool = false → ∃ v b p, s.buffer.dequeue t.pool = .entry v b p) := by
  have st := Settled.empty.run run
  obtain ⟨count, blocks, -⟩ := t.pool.len_eq
  refine ⟨st.conserved, st.solid, fun s hs => ?_, count.trans t.pool.size_eq_length, blocks,
    fun s hs => ⟨fun p e => ?_, fun more => ?_⟩⟩
  · have le := (st.seats s hs).2
    exact ⟨fun v => Buffer.spills_of_push le t.pool v, Pool.spills_push le⟩
  · exact Buffer.isEmpty_of_take? st.solid (Buffer.take?_of_quiet e).1
  · cases taken : s.buffer.take? t.pool with
    | none =>
      rw [Buffer.isEmpty_of_take? st.solid taken] at more
      cases more
    | some r => exact ⟨r.1, r.2.1, r.2.2, by rw [Buffer.dequeue, taken]⟩

/-- A buffer of one entry takes over a block of three. It then hands over a block of two, which is
more than its capacity. -/
theorem entries_are_conserved_large_block : ∃ t : EntryTraffic Nat, Runs {} t ∧
    t.handed = [3] ∧ t.held = [4] ∧ t.pool.blocks = [.ofList [1, 2]] ∧ t.pool.len.1 = 2 ∧
      [1, 2, 3, 4].Perm (t.handed ++ (t.held ++ t.pool.entries)) ∧
      ∃ s, t.seats = [s] ∧ s.buffer.capacity = 1 ∧ s.bound = 3 := by
  have attached := ReflTransGen.single (@Step.attach Nat {} 1 _ rfl)
  have filled := attached.tail (.pushBlock (.ofList [1, 2, 3]))
  have taken := filled.tail (@Step.dequeue _ _ [] [] _ _ _ _ rfl rfl)
  have spilled := taken.tail (@Step.push _ _ [] [] _ 4 rfl)
  obtain ⟨conserved, -, -, count, -, -⟩ := entries_are_conserved spilled
  exact ⟨_, spilled, rfl, rfl, rfl, count, conserved, _, rfl, rfl, rfl⟩

end EntryTraffic

end DeferredCount
