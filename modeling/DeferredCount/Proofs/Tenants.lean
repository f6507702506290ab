import DeferredCount.Proofs.Gaps
import DeferredCount.Proofs.Leases
import DeferredCount.Proofs.Strolls
import Mathlib.Logic.Relation

/-!
# The cells of large objects and their pages

The space of large objects keeps three records: the cells that wait for an object, the list of those
that have one, and the pool that the pages came from. Whatever is allocated, registered, freed and
swept, the cells of both kinds are the runs that the pool is still missing, and the list shows the
objects that were registered and not freed.

Results:
1. `LargeSpace.Housed.allocate`, `LargeSpace.Housed.register`, `LargeSpace.Housed.free`: what the
   operations of the space keep.
2. `HeapM.sweepLargeFrom_listed`: the walk along the links is a walk over a plain list of objects.
3. `HeapM.of_sweepListed_noting`: such a walk frees the objects that its visitor selects, one after
   another.
4. `cells_are_the_outstanding_runs`: the records of the space at any point.
-/

namespace DeferredCount

open Relation

/-! ## One object is freed -/

namespace LargeSpace

variable {s s' : LargeSpace} {o x : Ref} {os : List Ref} {a : Address} {n : Nat}

/-- An object is taken off the list, and the pages of its cell are given back. -/
def Frees (s : LargeSpace) (o : Ref) (s' : LargeSpace) : Prop :=
  ∃ pages unlinked, s.unlink o = .ok (pages, unlinked) ∧
    unlinked.releaseCell (cellOf o) pages = .ok s'

/-- Objects are freed one after another. -/
inductive FreesAll : LargeSpace → List Ref → LargeSpace → Prop
  | nil {s : LargeSpace} : FreesAll s [] s
  | cons {s s₁ s' : LargeSpace} {o : Ref} {os : List Ref} : s.Frees o s₁ → FreesAll s₁ os s' →
    FreesAll s (o :: os) s'

namespace Kept

theorem cells_eq (k : s.Kept) : s.cells.toList.map (·.1) = s.objects.map cellOf := by
  rw [objects, List.map_map]
  exact List.map_congr_left k.cell_eq

/-- No two listed objects have the same cell. -/
theorem nodup (k : s.Kept) : (s.objects.map cellOf).Nodup := k.cells_eq ▸ k.cells.nodup

theorem contains_iff (k : s.Kept) : s.contains o = true ↔ o ∈ s.objects := by
  rw [contains, Option.any_eq_true_iff_get]
  constructor
  · rintro ⟨found, same⟩
    obtain ⟨c, hc, eq⟩ : ∃ c ∈ s.cells.toList, c.1 = cellOf o := by
      by_contra missing
      have none := k.cells.get?_eq_none (a := cellOf o) fun ho =>
        missing ((List.mem_map.1 ho).imp fun _ h => h)
      rw [none] at found
      cases found
    have payload := k.cells.get?_eq hc
    refine List.mem_map.2 ⟨c, hc, ?_⟩
    simpa [eq ▸ payload] using same
  · intro ho
    obtain ⟨c, hc, rfl⟩ := List.mem_map.1 ho
    have payload := k.cells.get?_eq hc
    rw [k.cell_eq c hc] at payload
    simp [payload]

/-- A cell that waits for an object is not on the list. -/
theorem not_listed (k : s.Kept) (found : s.pending.get? a = some n) : s.cells.get? a = none := by
  refine k.cells.get?_eq_none fun ha => ?_
  obtain ⟨c, hc, rfl⟩ := List.mem_map.1 ha
  have outside := k.pool.packed.sublist (List.sublist_append_right _ _)
  have apart := (List.pairwise_append.1 outside.disjoint).2.2 ⟨c.1, c.2.pages⟩
    (List.mem_map.2 ⟨c, hc, rfl⟩) ⟨c.1, n⟩
    (List.mem_map.2 ⟨(c.1, n), Std.ExtTreeMap.mem_toList_iff_getElem?_eq_some.2 found, rfl⟩)
  have listed := (outside.within ⟨c.1, c.2.pages⟩
    (List.mem_append_left _ (List.mem_map.2 ⟨c, hc, rfl⟩))).pos
  have waiting := (outside.within ⟨c.1, n⟩ (mem_runs_of_pending found)).pos
  exact apart.not_covers (PageRun.covers_start listed) (PageRun.covers_start waiting)

/-- A listed object can be freed. -/
theorem frees_eq (k : s.Kept) (ho : o ∈ s.objects) : ∃ s', s.Frees o s' := by
  obtain ⟨c, hc, rfl⟩ := List.mem_map.1 ho
  obtain ⟨pre, post, split⟩ := List.append_of_mem hc
  obtain ⟨unlinked, s', unlink, release, -⟩ := free_eq (split ▸ k.cells) (k.cell_eq c hc) k.pool
  exact ⟨s', c.2.pages, unlinked, unlink, release⟩

/-- What freeing an object leaves: its cell is off the list, and the run is back in the pool. -/
theorem of_frees (k : s.Kept) (f : s.Frees o s') :
    ∃ pre c post, s.cells.toList = pre ++ c :: post ∧ c.2.object = o ∧
      s'.cells.toList = pre ++ post ∧ s.pages.release (cellOf o) c.2.pages = .ok s'.pages ∧
      s.runs.Perm (⟨cellOf o, c.2.pages⟩ :: s'.runs) ∧ s'.Kept := by
  obtain ⟨pages, unlinked, unlink, release⟩ := f
  obtain ⟨pre, c, post, split, rfl⟩ := of_unlink k.cells unlink
  have hc : c ∈ s.cells.toList := split ▸ by simp
  obtain ⟨cells, unlink', represents⟩ := unlink_eq (split ▸ k.cells) (k.cell_eq c hc)
  obtain ⟨-, kept, perm, -⟩ := k.of_free unlink release
  cases unlink.symm.trans unlink'
  obtain ⟨pool, released, e⟩ := Except.bind_eq_ok.1 release
  cases e
  exact ⟨pre, c, post, split, rfl, represents.toList_eq, released, perm, kept⟩

/-- The cells that are left when an object was freed. -/
theorem cells_of_frees (k : s.Kept) (f : s.Frees o s') :
    s'.cells.toList = s.cells.toList.filter (·.2.object ≠ o) := by
  obtain ⟨pre, c, post, split, rfl, left, -⟩ := k.of_frees f
  have nodup := k.nodup.of_map
  rw [objects, split, List.map_append, List.map_cons, List.nodup_middle, List.nodup_cons,
    List.mem_append] at nodup
  have others : ∀ cs : List (Address × LargeCell), c.2.object ∉ cs.map (·.2.object) →
      cs.filter (·.2.object ≠ c.2.object) = cs := fun cs missing =>
    List.filter_eq_self.2 fun d hd =>
      decide_eq_true fun eq => missing (List.mem_map.2 ⟨d, hd, eq⟩)
  rw [left, split, List.filter_append, List.filter_cons_of_neg (by simp),
    others pre (mt .inl nodup.1), others post (mt .inr nodup.1)]

theorem objects_of_frees (k : s.Kept) (f : s.Frees o s') :
    s'.objects = s.objects.filter (· ≠ o) := by
  rw [objects, k.cells_of_frees f, objects, List.filter_map]
  rfl

end Kept

/-! ## The records of the space -/

/-- The space has its pages from a pool of the pages from `start` up to `limit`, of which the runs
`out` are missing: they are its cells. The objects on its list are `registered`. -/
structure Housed (start limit : Address) (s : LargeSpace) (out : List PageRun)
    (registered : List Ref) : Prop where
  order : start ≤ limit
  word : limit < Word.limit
  kept : s.Kept
  history : ∃ past, PagePool.History start limit s.pages out past
  runs : s.runs.Perm out
  objects : s.objects = registered

namespace Housed

variable {start limit : Address} {out : List PageRun} {registered : List Ref} {pool : PagePool}

theorem canonical (st : s.Housed start limit out registered) : s.pages.Canonical out := by
  obtain ⟨past, history⟩ := st.history
  exact (history.canonical st.order st.word).1

theorem fresh (order : start ≤ limit) (word : limit < Word.limit)
    (e : PagePool.ofRange start limit = .ok pool) :
    ({ pages := pool } : LargeSpace).Housed start limit [] [] := by
  have history := PagePool.History.fresh e
  have kept := (LargeSpace.Leased.fresh (history.canonical order word).1.toAccounts).kept
  have none : ({ pages := pool } : LargeSpace).cells.toList = [] :=
    CellList.represents_empty.toList_eq
  refine ⟨order, word, kept, ⟨[], history⟩, .of_eq ?_, ?_⟩
  · rw [LargeSpace.runs, none]
    rfl
  · rw [LargeSpace.objects, none]
    rfl

/-- Pages were handed out. They wait for an object. -/
theorem allocate (st : s.Housed start limit out registered) (pos : 0 < n) (lt : n < 2 ^ 52)
    (e : s.pages.acquire n = .ok (some a, pool)) :
    ({ s with pages := pool }.addPending a n).Housed start limit (⟨a, n⟩ :: out) registered := by
  obtain ⟨past, history⟩ := st.history
  have next := history.acquired pos lt e
  have taken := (next.canonical st.order st.word).1.toAccounts.perm (st.runs.symm.cons _)
  obtain ⟨kept, perm⟩ := st.kept.addPending taken
  exact ⟨st.order, st.word, kept, ⟨_, next⟩, perm.trans (st.runs.cons _), st.objects⟩

/-- No pages were handed out. -/
theorem refuse (st : s.Housed start limit out registered) (pos : 0 < n) (lt : n < 2 ^ 52)
    (e : s.pages.acquire n = .ok (none, pool)) : pool = s.pages := by
  obtain ⟨_, _, e', -, same, -⟩ := st.canonical.acquire_eq pos lt
  cases e.symm.trans e'
  exact same rfl

/-- An object was put on the list, as its first one. -/
theorem register (st : s.Housed start limit out registered) {claimed : LargeSpace}
    (claim : s.claim o = .ok (n, claimed)) (link : claimed.link o n = .ok s') :
    s'.Housed start limit out (o :: registered) := by
  obtain ⟨-, kept, cells, perm, pages⟩ := st.kept.of_claim claim link
  refine ⟨st.order, st.word, kept, pages ▸ st.history, perm.trans st.runs, ?_⟩
  rw [LargeSpace.objects, cells, ← st.objects]
  rfl

/-- An object was freed. The run of its cell was given back. -/
theorem free (st : s.Housed start limit out registered) (f : s.Frees o s') :
    s'.Housed start limit (out.filter (·.start ≠ cellOf o)) (registered.filter (· ≠ o)) := by
  obtain ⟨-, c, -, -, rfl, -, release, perm, kept⟩ := st.kept.of_frees f
  obtain ⟨past, history⟩ := st.history
  have outside := st.canonical.packed.sublist (List.sublist_append_right _ _)
  have mine : (⟨cellOf c.2.object, c.2.pages⟩ : PageRun) ∈ out :=
    st.runs.mem_iff.1 (perm.mem_iff.2 List.mem_cons_self)
  have left : out.erase ⟨cellOf c.2.object, c.2.pages⟩ =
      out.filter (·.start ≠ cellOf c.2.object) := by
    rw [outside.nodup.erase_eq_filter]
    refine List.filter_congr fun r hr => ?_
    rw [Bool.eq_iff_iff, bne_iff_ne, decide_eq_true_eq]
    exact not_congr ⟨congrArg PageRun.start, outside.eq_of_start hr mine⟩
  refine ⟨st.order, st.word, kept, ⟨_, left ▸ history.released mine release⟩, ?_, ?_⟩
  · rw [← left]
    exact (perm.symm.trans (st.runs.trans (List.perm_cons_erase mine))).cons_inv
  · rw [st.kept.objects_of_frees f, st.objects]

/-- Objects were freed one after another. -/
theorem freeAll (st : s.Housed start limit out registered) (f : s.FreesAll os s') :
    s'.Housed start limit (out.filter (·.start ∉ os.map cellOf)) (registered.filter (· ∉ os)) := by
  induction f generalizing out registered with
  | nil => simpa using st
  | cons f _ ih =>
    have next := ih (st.free f)
    rw [CellList.filter_notMem_cons PageRun.start] at next
    exact CellList.filter_notMem_cons id registered _ _ ▸ next

end Housed

end LargeSpace

/-! ## Sweeps -/

/-- The objects among visited ones for which the visitor said that they go. -/
def selectedOf (visits : List (Ref × Bool)) : List Ref := (visits.filter (·.2)).map (·.1)

namespace HeapM

variable {σ : Type} {visit : σ → Ref → HeapM (Bool × σ)} {h h' : Heap}

/-- The visitor does not touch the space of large objects. -/
def SparesLarge (visit : σ → Ref → HeapM (Bool × σ)) : Prop :=
  ∀ s o h r h', visit s o h = .ok r h' → h'.large = h.large

/-- The visitor gives an answer. -/
def Answers (visit : σ → Ref → HeapM (Bool × σ)) : Prop := ∀ s o h, ∃ r h', visit s o h = .ok r h'

/-- A visitor that also notes the objects that it visits, in this order, and what it answers. -/
def noting (visit : σ → Ref → HeapM (Bool × σ)) (s : List (Ref × Bool) × σ) (o : Ref) :
    HeapM (Bool × List (Ref × Bool) × σ) := do
  let (selected, s') ← visit s.2 o
  return (selected, s.1 ++ [(o, selected)], s')

theorem SparesLarge.noting (spares : SparesLarge visit) : SparesLarge (noting visit) := by
  intro s o h r h' e
  obtain ⟨⟨selected, s'⟩, _, visited, e⟩ := bind_eq_ok.1 e
  cases e
  exact spares _ _ _ _ _ visited

/-- A request is a request to the pool. The pages that it gets wait for an object. -/
theorem allocateLarge_eq_ok {n : Nat} {a : Option Address} (e : allocateLarge n h = .ok a h') :
    ∃ pool, h.large.pages.acquire n = .ok (a, pool) ∧ h'.large =
      a.elim { h.large with pages := pool } ({ h.large with pages := pool }.addPending · n) := by
  obtain ⟨cell, _, acquired, e⟩ := bind_eq_ok.1 e
  obtain ⟨pool, log, got, rfl⟩ := acquirePages_eq_ok acquired
  refine ⟨pool, ?_⟩
  cases cell <;> cases e <;> exact ⟨got, rfl⟩

theorem allocateLarge_of_acquire {n : Nat} {a : Option Address} {pool : PagePool}
    (e : h.large.pages.acquire n = .ok (a, pool)) : ∃ h', allocateLarge n h = .ok a h' := by
  have got : (h.pagePool .large).acquire n = .ok (a, pool) := e
  rw [allocateLarge, acquirePages, bind_assoc_apply, get_bind_apply, bind_assoc_apply, got]
  cases a <;> exact ⟨_, rfl⟩

/-- An object can be registered if the cell that it starts in waits for one. -/
theorem registerLarge_of_pending {o : Ref} {n : Nat} (k : h.large.Kept)
    (found : h.large.pending.get? (cellOf o) = some n) : ∃ h', registerLarge o h = .ok () h' := by
  obtain ⟨claimed, large, claim, link, -⟩ := k.enlist found
  refine ⟨{ h with large, log := .largeAdded o (cellOf o) n :: h.log }, ?_⟩
  rw [registerLarge, get_bind_apply, liftM_eq, claim, lift_ok, pure_bind_apply]
  dsimp only
  rw [emit_bind_apply, liftM_eq, link, lift_ok]
  rfl

theorem registerLarge_eq_error {o : Ref} (none : h.large.pending.get? (cellOf o) = none) :
    registerLarge o h = .error (.noPendingCell o) h := by
  rw [registerLarge, get_bind_apply, LargeSpace.claim, none]
  rfl

theorem freeLarge_eq_error {o : Ref} (none : h.large.cells.get? (cellOf o) = none) :
    freeLarge o h = .error (.notListed o) h := by
  rw [CellList.get?, Option.map_eq_none_iff] at none
  rw [freeLarge, get_bind_apply, LargeSpace.unlink, CellList.remove, none]
  rfl

theorem freeLarge_frees {o : Ref} (e : freeLarge o h = .ok () h') : h.large.Frees o h'.large := by
  obtain ⟨pages, unlinked, large, log, unlink, release, rfl⟩ := freeLarge_eq_ok e
  exact ⟨pages, unlinked, unlink, release⟩

theorem freeLarge_of_frees {o : Ref} {large : LargeSpace} (f : h.large.Frees o large) :
    ∃ log, freeLarge o h = .ok () { h with large, log } := by
  obtain ⟨pages, unlinked, unlink, release⟩ := f
  refine ⟨.largeFreed h.settings.verbose o (cellOf o) pages :: h.log, ?_⟩
  rw [freeLarge, get_bind_apply, liftM_eq, unlink, lift_ok, pure_bind_apply]
  dsimp only
  rw [emit_bind_apply, liftM_eq, release, lift_ok]
  rfl

/-! ## Sweeps as walks over a plain list -/

/-- A sweep of objects that are given as a plain list. -/
def sweepListed (visit : σ → Ref → HeapM (Bool × σ)) :
    List Ref → (freed : Nat) → σ → HeapM (Nat × σ)
  | [], freed, s => return (freed, s)
  | o :: os, freed, s => do
    let (selected, s') ← visit s o
    if selected then
      freeLarge o
      sweepListed visit os (freed + 1) s'
    else
      emit (.largeRetained o)
      sweepListed visit os freed s'

/-- The walk from some cell on is a walk over the objects that are listed from there on. It ends for
want of cells: any bound on its steps will do that is not below their number. -/
theorem sweepLargeFrom_listed (spares : SparesLarge visit) {todo kept : List (Address × LargeCell)}
    {k : Nat} (bound : todo.length ≤ k) (st : h.large.Kept)
    (split : h.large.cells.toList = kept ++ todo) (n : Nat) (s : σ) :
    sweepLargeFrom visit k (CellList.headCell todo) n s h =
      sweepListed visit (todo.map (·.2.object)) n s h := by
  induction todo generalizing h k kept n s with
  | nil => cases k <;> rfl
  | cons c rest ih =>
    obtain ⟨k, rfl⟩ := Nat.exists_eq_succ_of_ne_zero (Nat.ne_of_gt (Nat.lt_of_lt_of_le
      (Nat.succ_pos _) bound))
    have hc : c ∈ h.large.cells.toList := split ▸ by simp
    rw [CellList.headCell_cons, sweepLargeFrom, get_bind_apply, List.map_cons, sweepListed]
    simp only [st.cells.get?_eq hc, st.cells.next?_eq split]
    cases visited : visit s c.2.object h with
    | error f h₁ => rw [bind_of_error visited, bind_of_error visited]
    | ok r h₁ =>
      have same : h₁.large = h.large := spares _ _ _ _ _ visited
      rw [bind_of_ok visited, bind_of_ok visited]
      obtain ⟨selected, s₁⟩ := r
      cases selected with
      | true =>
        obtain ⟨unlinked, large, unlink, release, left, -⟩ :=
          LargeSpace.free_eq (split ▸ st.cells) (st.cell_eq c hc) st.pool
        have f : h.large.Frees c.2.object large := ⟨_, unlinked, unlink, release⟩
        obtain ⟨-, -, -, -, -, -, -, -, st'⟩ := st.of_frees f
        obtain ⟨log, freed⟩ := freeLarge_of_frees (same ▸ f)
        simp only [if_true]
        rw [bind_of_ok freed, bind_of_ok freed]
        exact ih (h := { h₁ with large, log }) (Nat.le_of_succ_le_succ bound) st' left.toList_eq
          (n + 1) s₁
      | false =>
        have split' : h₁.large.cells.toList = (kept ++ [c]) ++ rest := by simp [same, split]
        exact ih (h := { h₁ with log := .largeRetained c.2.object :: h₁.log })
          (Nat.le_of_succ_le_succ bound) (same ▸ st) split' n s₁

/-- A sweep is the sweep of the plain list of the listed objects. -/
theorem sweepLarge_listed (spares : SparesLarge visit) (st : h.large.Kept) (s : σ) :
    sweepLarge visit s h = (do
      let (freed, s') ← sweepListed visit h.large.objects 0 s
      emit (.largeSwept freed)
      return (freed, s')) h := by
  have walk := sweepLargeFrom_listed spares (Nat.le_of_eq rfl) st (List.nil_append _).symm 0 s
  rw [← st.cells.size, ← st.cells.head] at walk
  rw [sweepLarge, get_bind_apply]
  exact bind_congr walk

/-- A visitor that also notes what it is asked changes nothing. -/
theorem sweepListed_eq_noting (noted : List (Ref × Bool)) (os : List Ref) (n : Nat) (s : σ) :
    sweepListed visit os n s h = (do
      let (m, _, s') ← sweepListed (noting visit) os n (noted, s)
      return (m, s')) h := by
  induction os generalizing h n noted s with
  | nil => rfl
  | cons o os ih =>
    rw [sweepListed, sweepListed, noting, bind_assoc_apply, bind_assoc_apply]
    cases visited : visit s o h with
    | error f h₁ => rw [bind_of_error visited, bind_of_error visited]
    | ok r h₁ =>
      obtain ⟨selected, s₁⟩ := r
      rw [bind_of_ok visited, bind_of_ok visited, pure_bind_apply]
      dsimp only
      cases selected with
      | true =>
        simp only [if_true]
        rw [bind_assoc_apply]
        cases freed : freeLarge o h₁ with
        | error f h₂ => rw [bind_of_error freed, bind_of_error freed]
        | ok _ h₂ =>
          rw [bind_of_ok freed, bind_of_ok freed]
          exact ih _ _ _
      | false => exact ih _ _ _

/-- A sweep that ends has asked about every object, in order, and freed those that its visitor
selected, one after another. -/
theorem of_sweepListed_noting (spares : SparesLarge visit) {os : List Ref} {n m : Nat}
    {noted visits : List (Ref × Bool)} {s s' : σ}
    (e : sweepListed (noting visit) os n (noted, s) h = .ok (m, visits, s') h') :
    ∃ new, visits = noted ++ new ∧ new.map (·.1) = os ∧ m = n + (selectedOf new).length ∧
      h.large.FreesAll (selectedOf new) h'.large := by
  induction os generalizing h n noted s with
  | nil =>
    cases e
    exact ⟨[], (List.append_nil _).symm, rfl, rfl, .nil⟩
  | cons o os ih =>
    obtain ⟨⟨selected, _⟩, h₁, visited, e⟩ := bind_eq_ok.1 e
    obtain ⟨⟨_, s₁⟩, _, answered, eq⟩ := bind_eq_ok.1 visited
    cases eq
    have same : h₁.large = h.large := spares _ _ _ _ _ answered
    cases selected with
    | true =>
      obtain ⟨_, h₂, freed, e⟩ := bind_eq_ok.1 e
      obtain ⟨new, rfl, asked, count, rest⟩ := ih e
      refine ⟨(o, true) :: new, List.append_assoc .., by rw [List.map_cons, asked], ?_,
        .cons (same ▸ freeLarge_frees freed) rest⟩
      rw [count, Nat.add_assoc, Nat.add_comm 1]
      rfl
    | false =>
      obtain ⟨new, rfl, asked, count, rest⟩ := ih e
      exact ⟨(o, false) :: new, List.append_assoc .., by rw [List.map_cons, asked], count,
        same ▸ rest⟩

/-- A sweep of listed objects ends, unless its visitor fails: then the objects before are swept. -/
theorem sweepListed_cases (spares : SparesLarge visit) {os : List Ref} (st : h.large.Kept)
    (listed : ∀ o ∈ os, o ∈ h.large.objects) (nodup : os.Nodup) (n : Nat) (s : σ) :
    (∃ r h', sweepListed visit os n s h = .ok r h') ∨
      ∃ before o after r h₁ f h', os = before ++ o :: after ∧
        sweepListed visit before n s h = .ok r h₁ ∧ visit r.2 o h₁ = .error f h' ∧
        sweepListed visit os n s h = .error f h' := by
  induction os generalizing h n s with
  | nil => exact .inl ⟨_, _, rfl⟩
  | cons o os ih =>
    rw [List.nodup_cons] at nodup
    cases visited : visit s o h with
    | error f h' =>
      exact .inr ⟨[], o, os, (n, s), h, f, h', rfl, rfl, visited, bind_of_error visited⟩
    | ok r h₁ =>
      have same : h₁.large = h.large := spares _ _ _ _ _ visited
      obtain ⟨selected, s₁⟩ := r
      -- one step of the sweep leads to a heap on whose list the other objects are
      obtain ⟨n₁, h₂, step, st₂, listed₂⟩ : ∃ n₁ h₂,
          (∀ os, sweepListed visit (o :: os) n s h = sweepListed visit os n₁ s₁ h₂) ∧
            h₂.large.Kept ∧ ∀ x ∈ os, x ∈ h₂.large.objects := by
        cases selected with
        | true =>
          obtain ⟨large, f⟩ := st.frees_eq (listed o List.mem_cons_self)
          obtain ⟨-, -, -, -, -, -, -, -, st'⟩ := st.of_frees f
          obtain ⟨log, freed⟩ := freeLarge_of_frees (same ▸ f)
          refine ⟨n + 1, { h₁ with large, log },
            fun os => (bind_of_ok visited).trans (bind_of_ok freed), st', fun x hx => ?_⟩
          show x ∈ large.objects
          rw [st.objects_of_frees f, List.mem_filter]
          exact ⟨listed x (List.mem_cons_of_mem _ hx), decide_eq_true fun eq => nodup.1 (eq ▸ hx)⟩
        | false =>
          exact ⟨n, { h₁ with log := .largeRetained o :: h₁.log }, fun os => bind_of_ok visited,
            same ▸ st, fun x hx => same ▸ listed x (List.mem_cons_of_mem _ hx)⟩
      rcases ih st₂ listed₂ nodup.2 n₁ s₁ with
        ⟨r, h', ends⟩ | ⟨before, x, after, r, h₃, f, h', rfl, reached, failed, fault⟩
      · exact .inl ⟨r, h', (step os).trans ends⟩
      · exact .inr ⟨o :: before, x, after, r, h₃, f, h', rfl, (step before).trans reached, failed,
          (step _).trans fault⟩

/-- A sweep ends if its visitor answers. -/
theorem sweepLarge_returns (spares : SparesLarge visit) (answers : Answers visit)
    (k : h.large.Kept) (s : σ) : ∃ r h', sweepLarge visit s h = .ok r h' := by
  rw [sweepLarge_listed spares k]
  rcases sweepListed_cases spares k (fun _ ho => ho) k.nodup.of_map 0 s with
    ⟨r, h', swept⟩ | ⟨_, o, _, r, h₁, f, h', -, -, failed, -⟩
  · exact ⟨_, _, bind_of_ok swept⟩
  · obtain ⟨_, _, answered⟩ := answers r.2 o h₁
    cases failed.symm.trans answered

end HeapM

/-! ## Histories of the space -/

/-- A space of large objects in use. -/
structure LargeTraffic where
  heap : Heap
  /-- The runs that the page pool has handed out and not got back. -/
  out : List PageRun := []
  /-- The objects that were registered and not freed, the newest first. -/
  registered : List Ref := []

namespace LargeTraffic

/-- Nothing was handed out yet. The space has the pages from `start` up to `limit`. -/
structure Fresh (t : LargeTraffic) (start limit : Address) : Prop where
  order : start ≤ limit
  word : limit < Word.limit
  pool : ∃ pool, PagePool.ofRange start limit = .ok pool ∧ t.heap.large = { pages := pool }
  out : t.out = []
  registered : t.registered = []

/-- Objects were freed: they are registered no longer, and the runs of their cells are back. -/
def without (t : LargeTraffic) (freed : List Ref) (heap : Heap) : LargeTraffic where
  heap
  out := t.out.filter (·.start ∉ freed.map cellOf)
  registered := t.registered.filter (· ∉ freed)

/-- One operation of the space.
* `allocate` and `refuse`: a request for pages gets a cell or none.
* `register`: an object gets the cell that it starts in, which waits for one.
* `free`: a listed object is freed.
* `sweep`: a visitor is asked about the listed objects, and those that it selects are freed. It may
  do anything but touch the space. -/
inductive Step : LargeTraffic → LargeTraffic → Prop
  | allocate {t : LargeTraffic} {n : Nat} {a : Address} {h' : Heap} : 0 < n → n < 2 ^ 52 →
    HeapM.allocateLarge n t.heap = .ok (some a) h' →
    Step t { t with heap := h', out := ⟨a, n⟩ :: t.out }
  | refuse {t : LargeTraffic} {n : Nat} {h' : Heap} : 0 < n → n < 2 ^ 52 →
    HeapM.allocateLarge n t.heap = .ok none h' → Step t { t with heap := h' }
  | register {t : LargeTraffic} {o : Ref} {h' : Heap} : HeapM.registerLarge o t.heap = .ok () h' →
    Step t { t with heap := h', registered := o :: t.registered }
  | free {t : LargeTraffic} {o : Ref} {h' : Heap} : HeapM.freeLarge o t.heap = .ok () h' →
    Step t (t.without [o] h')
  | sweep {t : LargeTraffic} {σ : Type} {visit : σ → Ref → HeapM (Bool × σ)} {s s' : σ} {n : Nat}
    {visits : List (Ref × Bool)} {h' : Heap} : HeapM.SparesLarge visit →
    HeapM.sweepLarge (HeapM.noting visit) ([], s) t.heap = .ok (n, visits, s') h' →
    Step t (t.without (selectedOf visits) h')

/-- Some operations, one after the other. -/
abbrev Runs : LargeTraffic → LargeTraffic → Prop := ReflTransGen Step

variable {t t₀ t' : LargeTraffic} {start limit : Address}

/-- The records of the space are those of what was done. -/
abbrev Housed (start limit : Address) (t : LargeTraffic) : Prop :=
  t.heap.large.Housed start limit t.out t.registered

theorem Fresh.housed (f : t.Fresh start limit) : t.Housed start limit := by
  obtain ⟨pool, ranged, eq⟩ := f.pool
  rw [Housed, eq, f.out, f.registered]
  exact .fresh f.order f.word ranged

theorem housed_step (st : t.Housed start limit) (step : Step t t') : t'.Housed start limit := by
  cases step with
  | allocate pos lt e =>
    obtain ⟨pool, got, large⟩ := HeapM.allocateLarge_eq_ok e
    rw [Housed, large]
    exact st.allocate pos lt got
  | refuse pos lt e =>
    obtain ⟨pool, got, large⟩ := HeapM.allocateLarge_eq_ok e
    obtain rfl := st.refuse pos lt got
    rw [Housed, large]
    exact st
  | register e =>
    obtain ⟨pages, claimed, large, log, claim, link, rfl⟩ := HeapM.registerLarge_eq_ok e
    exact st.register claim link
  | free e => exact st.freeAll (.cons (HeapM.freeLarge_frees e) .nil)
  | sweep spares e =>
    rw [HeapM.sweepLarge_listed spares.noting st.kept] at e
    obtain ⟨⟨n, visits, s'⟩, h₁, swept, e⟩ := HeapM.bind_eq_ok.1 e
    cases e
    obtain ⟨new, rfl, -, -, freed⟩ := HeapM.of_sweepListed_noting spares swept
    exact st.freeAll freed

theorem housed_run (st : t.Housed start limit) (run : Runs t t') : t'.Housed start limit := by
  induction run with
  | refl => exact st
  | tail _ step ih => exact housed_step ih step

/-- The three records of the space agree with each other and with what was done. -/
structure Agrees (t : LargeTraffic) (start limit : Address) : Prop where
  /-- A cell that waits for an object is not on the list. -/
  apart : ∀ a n, t.heap.large.pending.get? a = some n → t.heap.large.cells.get? a = none
  /-- The pool was asked for pages and given them back as it wants to be, and misses these runs. -/
  history : ∃ past, PagePool.History start limit t.heap.large.pages t.out past
  /-- The cells, with their pages, are the runs that the pool is missing. -/
  runs : t.heap.large.runs.Perm t.out
  reserved : t.heap.large.pages.usage.reserved = PageRun.total t.heap.large.runs
  contains : ∀ o, t.heap.large.contains o = true ↔ o ∈ t.registered
  objects : t.heap.large.objects = t.registered
  nodup : t.registered.Nodup

theorem Housed.agrees (st : t.Housed start limit) : t.Agrees start limit where
  apart _ _ := st.kept.not_listed
  history := st.history
  runs := st.runs
  reserved := st.kept.pool.reserved
  contains _ := st.objects ▸ st.kept.contains_iff
  objects := st.objects
  nodup := st.objects ▸ st.kept.nodup.of_map

/-- From a fresh space on, the cells that wait for an object and those on the list are the runs that
the pool is missing, and the list shows the registered objects. Requests, registrations, frees and
sweeps are served. An object without a waiting cell is not registered, and one whose cell is not
listed is not freed; either fault leaves the heap as it was. -/
theorem cells_are_the_outstanding_runs (fresh : t₀.Fresh start limit) (run : Runs t₀ t) :
    t.Agrees start limit ∧
      (∀ n, 0 < n → n < 2 ^ 52 → ∃ a h', HeapM.allocateLarge n t.heap = .ok a h') ∧
      (∀ o n, t.heap.large.pending.get? (cellOf o) = some n →
        ∃ h', HeapM.registerLarge o t.heap = .ok () h') ∧
      (∀ o, t.heap.large.pending.get? (cellOf o) = none →
        HeapM.registerLarge o t.heap = .error (.noPendingCell o) t.heap) ∧
      (∀ o ∈ t.registered, ∃ h', HeapM.freeLarge o t.heap = .ok () h') ∧
      (∀ o, t.heap.large.cells.get? (cellOf o) = none →
        HeapM.freeLarge o t.heap = .error (.notListed o) t.heap) ∧
      ∀ (σ : Type) (visit : σ → Ref → HeapM (Bool × σ)) (s : σ), HeapM.SparesLarge visit →
        HeapM.Answers visit → ∃ r h', HeapM.sweepLarge visit s t.heap = .ok r h' := by
  have st := housed_run fresh.housed run
  refine ⟨st.agrees, fun n pos lt => ?_, fun o n found => ?_, fun o none => ?_, fun o ho => ?_,
    fun o none => ?_, fun σ visit s spares answers => ?_⟩
  · obtain ⟨a, pool, e, -⟩ := st.canonical.acquire_eq pos lt
    exact ⟨a, HeapM.allocateLarge_of_acquire e⟩
  · exact HeapM.registerLarge_of_pending st.kept found
  · exact HeapM.registerLarge_eq_error none
  · obtain ⟨large, f⟩ := st.kept.frees_eq (st.objects ▸ ho)
    obtain ⟨log, e⟩ := HeapM.freeLarge_of_frees f
    exact ⟨_, e⟩
  · exact HeapM.freeLarge_eq_error none
  · exact HeapM.sweepLarge_returns spares answers st.kept s

/-- A cell of two pages is swept, and a new object gets the first of them, while another cell waits
for its object all the time. -/
theorem cells_are_the_outstanding_runs_reused_cell : ∃ t₀ t : LargeTraffic,
    t₀.Fresh Heap.largeStart Heap.permanentStart ∧ Runs t₀ t ∧
      t.out = [⟨Heap.largeStart, 1⟩, ⟨Heap.largeStart + 8192, 1⟩] ∧
      t.heap.large.runs.Perm t.out ∧ t.heap.large.pages.usage.reserved = 2 ∧
      t.heap.large.objects = [⟨Heap.largeStart + 32⟩] ∧
      t.heap.large.contains ⟨Heap.largeStart + 16⟩ = false ∧
      (∃ h', HeapM.registerLarge ⟨Heap.largeStart + 8192⟩ t.heap = .ok () h') ∧
      HeapM.registerLarge ⟨Heap.largeStart + 4096⟩ t.heap =
        .error (.noPendingCell ⟨Heap.largeStart + 4096⟩) t.heap := by
  have fresh : Fresh { heap := Heap.ofSettings {} } Heap.largeStart Heap.permanentStart :=
    ⟨by decide, by decide, ⟨_, rfl, rfl⟩, rfl, rfl⟩
  have first := ReflTransGen.single (Step.allocate (t := { heap := Heap.ofSettings {} }) (n := 2)
    (by decide) (by decide) rfl)
  have second := first.tail (.allocate (n := 1) (by decide) (by decide) rfl)
  have registered := second.tail (.register (o := ⟨Heap.largeStart + 16⟩) rfl)
  have spares : HeapM.SparesLarge fun (s : Unit) _ => pure (true, s) := fun _ _ _ _ _ e => by
    cases e
    rfl
  have swept := registered.tail (@Step.sweep _ Unit _ () _ _ _ _ spares rfl)
  have third := swept.tail (.allocate (n := 1) (by decide) (by decide) rfl)
  have again := third.tail (.register (o := ⟨Heap.largeStart + 32⟩) rfl)
  obtain ⟨agrees, -, serve, fault, -⟩ := cells_are_the_outstanding_runs fresh again
  exact ⟨_, _, fresh, again, rfl, agrees.runs, rfl, agrees.objects, rfl, serve _ 1 rfl, fault _ rfl⟩

end LargeTraffic

end DeferredCount
