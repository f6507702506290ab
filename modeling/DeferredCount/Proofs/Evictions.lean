import DeferredCount.Proofs.Tenants

/-!
# Sweeps of large objects

A sweep walks the linked list of cells. It takes the successor of a cell before the visitor is asked
about the object there, because the cell may be unlinked then. So it visits the objects that were on
the list when it began, from the head to the tail, whichever of them it frees on its way.

Results:
1. `LargeSpace.FreesAll.leaves`: the cells and the pages that a row of freed objects leaves.
2. `HeapM.sweepListed_noting`: a sweep asks about every object, and can note what it is told.
3. `sweep_frees_the_selected`: what a sweep visits, frees, keeps and gives back.
-/

namespace DeferredCount

open Relation

/-! ## What freed objects leave -/

/-- Runs are given back to the pool, one after another. -/
def PagePool.releaseAll (p : PagePool) (runs : List PageRun) : Except Fault PagePool :=
  runs.foldlM (fun p r => p.release r.start r.pages) p

namespace LargeSpace

variable {s s' : LargeSpace} {o : Ref} {os : List Ref} {c d : Address × LargeCell}
  {cs listed : List (Address × LargeCell)}

/-- The runs of pages of listed cells. -/
def runsOf (cs : List (Address × LargeCell)) : List PageRun := cs.map fun c => ⟨c.1, c.2.pages⟩

/-- Some of the listed cells, in the order of the list, are found by their objects. -/
theorem filter_object_of_sublist (sub : cs.Sublist listed)
    (nodup : (listed.map (·.2.object)).Nodup) :
    listed.filter (·.2.object ∈ cs.map (·.2.object)) = cs := by
  induction sub with
  | slnil => rfl
  | @cons cs listed c sub ih =>
    rw [List.map_cons, List.nodup_cons] at nodup
    have other : c.2.object ∉ cs.map (·.2.object) := fun hc => nodup.1 ((sub.map _).subset hc)
    rw [List.filter_cons_of_neg (by simpa using other), ih nodup.2]
  | @cons_cons cs listed c sub ih =>
    rw [List.map_cons, List.nodup_cons] at nodup
    rw [List.filter_cons_of_pos (by simp)]
    congr 1
    refine (List.filter_congr fun d hd => ?_).trans (ih nodup.2)
    have other : d.2.object ≠ c.2.object := fun eq => nodup.1 (List.mem_map.2 ⟨d, hd, eq⟩)
    simp [other]

theorem Frees.pending_eq (f : s.Frees o s') : s'.pending = s.pending := by
  obtain ⟨pages, unlinked, unlink, release⟩ := f
  obtain ⟨pool, -, e⟩ := Except.bind_eq_ok.1 release
  cases e
  rw [LargeSpace.unlink] at unlink
  split at unlink
  · cases unlink
  · obtain ⟨-, -, e⟩ := Except.bind_eq_ok.1 unlink
    cases e
    rfl

namespace Kept

theorem eq_of_object (k : s.Kept) (hc : c ∈ s.cells.toList) (hd : d ∈ s.cells.toList)
    (eq : c.2.object = d.2.object) : c = d :=
  List.inj_on_of_nodup_map k.nodup.of_map hc hd eq

end Kept

/-- What a row of freed objects leaves: all other cells, in their order, and the cells that wait for
an object. The runs of the freed cells were given back one after another. -/
theorem FreesAll.leaves (k : s.Kept) (f : s.FreesAll (cs.map (·.2.object)) s')
    (mem : ∀ c ∈ cs, c ∈ s.cells.toList) (nodup : (cs.map (·.2.object)).Nodup) :
    s'.cells.toList = s.cells.toList.filter (·.2.object ∉ cs.map (·.2.object)) ∧
      s'.pending = s.pending ∧ s.pages.releaseAll (runsOf cs) = .ok s'.pages := by
  induction cs generalizing s with
  | nil =>
    cases f
    exact ⟨by simp, rfl, rfl⟩
  | cons c cs ih =>
    rw [List.map_cons, List.nodup_cons] at nodup
    cases f with
    | @cons _ s₁ _ _ _ first rest =>
      have others := k.cells_of_frees first
      obtain ⟨pre, d, post, split, same, -, release, -, k₁⟩ := k.of_frees first
      obtain rfl := k.eq_of_object (split ▸ by simp) (mem c List.mem_cons_self) same
      have mem₁ : ∀ c ∈ cs, c ∈ s₁.cells.toList := fun c hc => by
        rw [others, List.mem_filter]
        exact ⟨mem c (List.mem_cons_of_mem _ hc), decide_eq_true fun eq =>
          nodup.1 (List.mem_map.2 ⟨c, hc, eq⟩)⟩
      obtain ⟨cells, pending, released⟩ := ih k₁ rest mem₁ nodup.2
      refine ⟨?_, pending.trans first.pending_eq, ?_⟩
      · rw [cells, others]
        exact CellList.filter_notMem_cons (·.2.object) s.cells.toList d.2.object _
      · rw [PagePool.releaseAll, runsOf, List.map_cons, List.foldlM_cons,
          k.cell_eq d (mem d List.mem_cons_self)]
        exact Except.bind_eq_ok.2 ⟨_, release, released⟩

end LargeSpace

/-! ## The walk -/

namespace HeapM

variable {σ : Type} {visit : σ → Ref → HeapM (Bool × σ)} {h h' : Heap}

/-- A sweep ends if its visitor notes what it is asked, and then it has asked about every object. -/
theorem sweepListed_noting (spares : SparesLarge visit) {os : List Ref} {n m : Nat}
    (noted : List (Ref × Bool)) {s s' : σ} (e : sweepListed visit os n s h = .ok (m, s') h') :
    ∃ visits, visits.map (·.1) = os ∧ m = n + (selectedOf visits).length ∧
      sweepListed (noting visit) os n (noted, s) h = .ok (m, noted ++ visits, s') h' ∧
      h.large.FreesAll (selectedOf visits) h'.large := by
  rw [sweepListed_eq_noting noted] at e
  obtain ⟨⟨_, visits, _⟩, _, swept, e⟩ := bind_eq_ok.1 e
  cases e
  obtain ⟨new, rfl, asked, count, freed⟩ := of_sweepListed_noting spares swept
  exact ⟨new, asked, count, swept, freed⟩

end HeapM

/-! ## Sweeps of the space -/

namespace LargeTraffic

open HeapM LargeSpace

variable {t t₀ : LargeTraffic} {start limit : Address} {σ : Type}
  {visit : σ → Ref → HeapM (Bool × σ)}

/-- A sweep of the space, at any point of its use. The walk along the links is the sweep of the
plain list of objects, whatever bound on its steps it is given. Unless the visitor itself fails, the
sweep ends: it has asked about each listed object once, from the head to the tail, and freed the
objects that it was told to free. The cells of the others stay on the list, in their order. The
pages of the freed cells, and no others, are back, and the waiting cells are as they were. -/
theorem sweep_frees_the_selected (fresh : t₀.Fresh start limit) (run : Runs t₀ t)
    (spares : SparesLarge visit) (s : σ) :
    (∀ k, t.heap.large.cells.size ≤ k →
      sweepLargeFrom visit k t.heap.large.cells.head 0 s t.heap =
        sweepListed visit t.heap.large.objects 0 s t.heap) ∧
    ((∃ visits s' h',
        visits.map (·.1) = t.heap.large.objects ∧
        sweepLarge visit s t.heap = .ok ((selectedOf visits).length, s') h' ∧
        sweepLarge (noting visit) ([], s) t.heap =
          .ok ((selectedOf visits).length, visits, s') h' ∧
        h'.large.cells.toList =
          t.heap.large.cells.toList.filter (·.2.object ∉ selectedOf visits) ∧
        h'.large.objects = t.heap.large.objects.filter (· ∉ selectedOf visits) ∧
        h'.large.pending = t.heap.large.pending ∧
        t.heap.large.pages.releaseAll
            (runsOf (t.heap.large.cells.toList.filter (·.2.object ∈ selectedOf visits))) =
          .ok h'.large.pages ∧
        (t.without (selectedOf visits) h').Agrees start limit) ∨
      ∃ before o after n s₁ h₁ f h',
        t.heap.large.objects = before ++ o :: after ∧
        sweepListed visit before 0 s t.heap = .ok (n, s₁) h₁ ∧
        visit s₁ o h₁ = .error f h' ∧
        sweepLarge visit s t.heap = .error f h') := by
  have st := housed_run fresh.housed run
  have k := st.kept
  refine ⟨fun bound enough => ?_, ?_⟩
  · rw [k.cells.head]
    exact sweepLargeFrom_listed spares (k.cells.size ▸ enough) k (List.nil_append _).symm 0 s
  rcases sweepListed_cases spares k (fun _ ho => ho) k.nodup.of_map 0 s with
    ⟨⟨n, s'⟩, h₁, swept⟩ | ⟨before, o, after, ⟨n, s₁⟩, h₁, f, h', split, reached, failed, fault⟩
  · obtain ⟨visits, asked, count, noted, freed⟩ := sweepListed_noting spares [] swept
    rw [Nat.zero_add] at count
    subst count
    -- what was freed are the objects of some of the listed cells
    have sub : (selectedOf visits).Sublist t.heap.large.objects :=
      asked ▸ (List.filter_sublist.map _)
    obtain ⟨cs, sublist, selected⟩ := List.sublist_map_iff.1 sub
    have nodup := k.nodup.of_map
    obtain ⟨cells, pending, pages⟩ := (selected ▸ freed : FreesAll _ _ _).leaves k sublist.subset
      ((sublist.map _).nodup nodup)
    rw [← selected] at cells
    rw [← filter_object_of_sublist sublist nodup, ← selected] at pages
    have house : (t.without (selectedOf visits)
        { h₁ with log := .largeSwept (selectedOf visits).length :: h₁.log }).Housed start limit :=
      st.freeAll freed
    refine .inl ⟨visits, s', { h₁ with log := .largeSwept (selectedOf visits).length :: h₁.log },
      asked, ?_, ?_, cells, ?_, pending, pages, house.agrees⟩
    · rw [sweepLarge_listed spares k, bind_of_ok swept]
      rfl
    · rw [sweepLarge_listed spares.noting k, bind_of_ok noted]
      rfl
    · rw [LargeSpace.objects, LargeSpace.objects, cells, List.filter_map]
      rfl
  · refine .inr ⟨before, o, after, n, s₁, h₁, f, h', split, reached, failed, ?_⟩
    rw [sweepLarge_listed spares k, bind_of_error fault]

/-- Four cells are handed out, and three of them get objects. A sweep is told to free every other
one. -/
def everyOther : Bool :=
  (allocateLarge 1).holds (fun a h₁ =>
    decide (a = some Heap.largeStart) &&
    (allocateLarge 2).holds (fun b h₂ =>
      decide (b = some (Heap.largeStart + 4096)) &&
      (allocateLarge 1).holds (fun c h₃ =>
        decide (c = some (Heap.largeStart + 12288)) &&
        (allocateLarge 1).holds (fun d h₄ =>
          decide (d = some (Heap.largeStart + 16384)) &&
          (registerLarge ⟨Heap.largeStart⟩).holds (fun _ h₅ =>
            (registerLarge ⟨Heap.largeStart + 4096⟩).holds (fun _ h₆ =>
              (registerLarge ⟨Heap.largeStart + 12288⟩).holds (fun _ h₇ =>
                decide (h₇.large.pending.get? (Heap.largeStart + 16384) = some 1) &&
                (sweepLarge (noting fun flag _ => pure (flag, !flag)) ([], true)).holds (fun r _ =>
                  decide (r = (2, [(⟨Heap.largeStart + 12288⟩, true),
                    (⟨Heap.largeStart + 4096⟩, false), (⟨Heap.largeStart⟩, true)], false)))
                  h₇) h₆) h₅) h₄) h₃) h₂) h₁) (Heap.ofSettings {})

/-- Every other one of three objects is freed: those at both ends of the list. A cell waits for its
object all the time. -/
theorem sweep_frees_the_selected_every_other : ∃ t₀ t : LargeTraffic, ∃ h' : Heap,
    t₀.Fresh Heap.largeStart Heap.permanentStart ∧ Runs t₀ t ∧
      t.heap.large.objects =
        [⟨Heap.largeStart + 12288⟩, ⟨Heap.largeStart + 4096⟩, ⟨Heap.largeStart⟩] ∧
      sweepLarge (fun flag _ => pure (flag, !flag)) true t.heap = .ok (2, false) h' ∧
      h'.large.objects = [⟨Heap.largeStart + 4096⟩] ∧
      h'.large.pending.get? (Heap.largeStart + 16384) = some 1 ∧
      h'.large.pages.usage.reserved = 3 := by
  have fresh : Fresh { heap := Heap.ofSettings {} } Heap.largeStart Heap.permanentStart :=
    ⟨by decide, by decide, ⟨_, rfl, rfl⟩, rfl, rfl⟩
  have spares : SparesLarge fun (flag : Bool) _ => pure (flag, !flag) := fun _ _ _ _ _ e => by
    cases e
    rfl
  have steps : everyOther = true := by decide +kernel
  simp only [everyOther, holds_iff, Bool.and_eq_true, decide_eq_true_eq] at steps
  obtain ⟨_, h₁, e₁, rfl, _, h₂, e₂, rfl, _, h₃, e₃, rfl, _, h₄, e₄, rfl, _, h₅, e₅, _, h₆, e₆,
    _, h₇, e₇, waits, _, h₈, swept', rfl⟩ := steps
  have first := ReflTransGen.single (Step.allocate (t := { heap := Heap.ofSettings {} }) (by decide)
    (by decide) e₁)
  have second := first.tail (.allocate (by decide) (by decide) e₂)
  have third := second.tail (.allocate (by decide) (by decide) e₃)
  have fourth := third.tail (.allocate (by decide) (by decide) e₄)
  have run : Runs { heap := Heap.ofSettings {} }
      { heap := h₇
        out := [⟨Heap.largeStart + 16384, 1⟩, ⟨Heap.largeStart + 12288, 1⟩,
          ⟨Heap.largeStart + 4096, 2⟩, ⟨Heap.largeStart, 1⟩]
        registered :=
          [⟨Heap.largeStart + 12288⟩, ⟨Heap.largeStart + 4096⟩, ⟨Heap.largeStart⟩] } :=
    ((fourth.tail (.register e₅)).tail (.register e₆)).tail (.register e₇)
  have listed : h₇.large.objects = _ := (housed_run fresh.housed run).objects
  obtain ⟨-, ends | ⟨_, _, _, _, _, _, _, _, -, -, failed, -⟩⟩ :=
    sweep_frees_the_selected fresh run spares true
  · obtain ⟨visits, s', h', -, swept, noted, -, objects, pending, -, agrees⟩ := ends
    have same := noted.symm.trans swept'
    simp only [EStateM.Result.ok.injEq, Prod.mk.injEq] at same
    obtain ⟨⟨-, rfl, rfl⟩, rfl⟩ := same
    refine ⟨_, _, h', fresh, run, listed, swept, ?_, pending ▸ waits, ?_⟩
    · exact objects.trans (listed ▸ rfl)
    · exact agrees.reserved.trans ((agrees.runs.map _).sum_eq.trans rfl)
  · cases failed

end LargeTraffic

end DeferredCount
