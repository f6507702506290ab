import DeferredCount.Proofs.Estates

/-!
# Cells of mutators that ended

Cells come to the allocator of a mutator in batches. In the release phase of an increment a mutator
gives back the cells that it did not use. A mutator that ends hands its buffers over, but not its
cells. As nobody releases its allocators later on, those cells are lost. No other cell is.

Results:
1. `Collects.cells`: after an increment its mutators keep no cells.
2. `Estate.ended_mutators_strand_their_cells`: which cells are lost, and which are not.
-/

namespace DeferredCount

open Relation

/-! ## Release -/

theorem HeapM.forall_of_mapM {α β : Type} {f : α → HeapM β} {P : β → Prop} {as : List α}
    {bs : List β} {h h' : Heap} (e : as.mapM f h = .ok bs h')
    (all : ∀ a ∈ as, ∀ b k k', f a k = .ok b k' → P b) : ∀ b ∈ bs, P b := by
  induction as generalizing bs h with
  | nil =>
    cases e
    nofun
  | cons a as ih =>
    obtain ⟨b, bs', k, first, rest, rfl⟩ := mapM_cons_eq_ok.1 e
    exact List.forall_mem_cons.2 ⟨all a List.mem_cons_self b h k first,
      ih rest fun a ha => all a (List.mem_cons_of_mem _ ha)⟩

section

variable {m m' : Mutator} {ms ms' : List Mutator} {crew crew' : List Collector} {s : Step}
  {p : Phase} {h h' : Heap}

/-- A mutator without cells gets none in a phase, and after its release it has none. -/
theorem Mutator.cells_of_phase (e : m.phase p h = .ok m' h')
    (none : m.allocators.cells = {} ∨ p = .release) : m'.allocators.cells = {} := by
  rcases none with none | rfl
  · rcases phase_ends e with ⟨-, -, same⟩ | ⟨-, -, same, -⟩
    · rw [same, none]
    · rw [same]
  · obtain ⟨free, run, -⟩ := m.allocators.cells.release_eq h
    obtain ⟨as, k, released, e⟩ := HeapM.bind_eq_ok.1 e
    obtain ⟨rfl, -⟩ := EStateM.Result.ok.inj (released.symm.trans (HeapM.bind_of_ok run))
    split at e
    · cases e
      rfl
    · cases e

theorem Mutator.destroy_eq (m : Mutator) (h : Heap) : ∃ h', m.destroy h = .ok () h' := by
  obtain ⟨_, _, modified, -⟩ := m.flushModified_eq h
  obtain ⟨_, decrements, -⟩ := m.withoutLogs.flushDecrements_eq _
  exact ⟨_, HeapM.bind_of_ok ((HeapM.bind_of_ok modified).trans decrements)⟩

theorem Step.Runs.cells {t t' : List Mutator × List Collector} (run : s.Runs t h t' h')
    (none : (∀ m ∈ t.1, m.allocators.cells = {}) ∨ s = ⟨.mutators, .release⟩) :
    ∀ m ∈ t'.1, m.allocators.cells = {} := by
  rcases run.phases_or_frees with ⟨-, turns⟩ | ⟨other, same, -⟩
  · refine HeapM.forall_of_mapM turns fun m hm m' k k' acted => Mutator.cells_of_phase acted ?_
    exact none.imp (fun all => all m hm) (congrArg Step.phase)
  · rw [same]
    exact none.resolve_right fun release => other (congrArg Step.party release)

theorem Schedule.Passes.cells {steps : List Step} {t t' : List Mutator × List Collector}
    (p : Passes steps t h t' h')
    (none : (∀ m ∈ t.1, m.allocators.cells = {}) ∨ ⟨.mutators, .release⟩ ∈ steps) :
    ∀ m ∈ t'.1, m.allocators.cells = {} := by
  induction p with
  | nil => exact none.resolve_right List.not_mem_nil
  | cons run _ ih =>
    refine ih ?_
    rcases none with none | there
    · exact .inl (run.cells (.inl none))
    · rcases List.mem_cons.1 there with eq | later
      · exact .inl (run.cells (.inr eq.symm))
      · exact .inr later

/-- After an increment its mutators keep no cells. -/
theorem Collects.cells {kind : CollectionKind} (collects : Collects kind ms h ms' h') :
    ∀ m ∈ ms', m.allocators.cells = {} := by
  obtain ⟨-, passes, -⟩ := collects
  exact passes.cells (.inr (by decide))

end

/-! ## Which cells are lost -/

namespace Estate

variable {t t' : Estate} {c : SizeClass} {a : Address}

/-- A cell is on the stack of its class, or kept by a mutator, or it was taken for an object that
is not freed. -/
def Available (t : Estate) (c : SizeClass) (a : Address) : Prop :=
  a ∈ t.heap.small.free.get c ∨ a ∈ t.cached c ∨ a ∈ Grant.cellsOf c t.grants

/-- What a mutator that ended had kept is not forgotten. -/
theorem Runs.gone (run : Runs t t') : t.gone <:+ t'.gone := by
  induction run with
  | refl => exact List.suffix_refl _
  | tail _ step ih =>
    cases step with
    | destroy => exact ih.trans (List.suffix_cons ..)
    | _ => exact ih

theorem mem_stranded {as : Allocators} (mine : as ∈ t.gone) (ha : a ∈ as.cells.cells.get c) :
    a ∈ t.stranded c := List.mem_flatMap_of_mem mine ha

namespace Sound

/-- A lost cell is nowhere else. -/
theorem not_available (st : t.Sound) (ha : a ∈ t.stranded c) : ¬t.Available c a := by
  obtain ⟨-, rest, stack⟩ := List.nodup_append.1 (st.small.cut.nodup c)
  obtain ⟨kept, -, taken⟩ := List.nodup_append.1 rest
  obtain ⟨-, -, cached⟩ := List.nodup_append.1 kept
  have lost := List.mem_append_right (t.cached c) ha
  rintro (there | there | there)
  · exact stack a there a (List.mem_append_left _ lost) rfl
  · exact cached a there a ha rfl
  · exact taken a lost a there rfl

theorem available_iff (st : t.Sound) (ha : a ∈ t.cells c) :
    t.Available c a ↔ a ∉ t.stranded c := by
  refine ⟨fun there lost => st.not_available lost there, fun kept => ?_⟩
  rcases List.mem_append.1 ha with stack | rest
  · exact .inl stack
  · rcases List.mem_append.1 rest with cached | taken
    · exact .inr (.inl ((List.mem_append.1 cached).resolve_right kept))
    · exact .inr (.inr taken)

end Sound

/-- Whatever an instance has come to, a cell of a page that was cut is in one place, and it is
available unless a mutator that ended had kept it. An increment takes all cells from the mutators
that take part in it. But what a mutator keeps when it ends is not available at any point from then
on, whatever happens. -/
theorem ended_mutators_strand_their_cells {settings : Settings} {client : Client}
    (run : Runs (fresh settings client) t) :
    (∀ page c, t.heap.small.classes.get? page = some c → ∀ a ∈ SmallSpace.pageCells page c,
      (t.cells c).count a = 1 ∧ (t.Available c a ↔ a ∉ t.stranded c)) ∧
    (∀ kind ms idle ms' h', t.mutators.Perm (ms ++ idle) →
      Collects kind ms t.heap ms' h' →
      Runs t ⟨h', ms' ++ idle, t.grants.filter (·.outlives t.heap h'), t.gone⟩ ∧
        ∀ m ∈ ms', m.allocators.cells = {}) ∧
    ∀ m rest, t.mutators.Perm (m :: rest) → ∃ h', m.destroy t.heap = .ok () h' ∧
      Runs t ⟨h', rest, t.grants, m.allocators :: t.gone⟩ ∧
        ∀ t', Runs ⟨h', rest, t.grants, m.allocators :: t.gone⟩ t' →
          ∀ c, ∀ a ∈ m.allocators.cells.cells.get c, ¬t'.Available c a := by
  have st : t.Sound := (Sound.fresh settings client).run run
  refine ⟨fun page c found a ha => ?_, fun kind ms idle ms' h' perm done => ?_,
    fun m rest perm => ?_⟩
  · have listed : a ∈ t.cells c := st.small.cut.mem_of_pageCells found ha
    exact ⟨List.count_eq_one_of_mem (st.small.cut.nodup c) listed, st.available_iff listed⟩
  · exact ⟨(Leads.collect st perm done).runs, done.cells⟩
  · obtain ⟨h', ended⟩ := m.destroy_eq t.heap
    have step : Step t ⟨h', rest, t.grants, m.allocators :: t.gone⟩ := .destroy perm ended
    refine ⟨h', ended, .single step, fun t' later c a ha => ?_⟩
    have kept : m.allocators ∈ t'.gone := (Runs.gone later).subset List.mem_cons_self
    exact ((st.step step).run later).not_available (mem_stranded kept ha)

/-- A mutator asks for 2000 bytes, which takes half of a page, and ends. An increment follows. Had
the mutator kept the other half of the page? -/
def endsWithHalfPage : Bool :=
  Mutator.bind.holds (fun m => (m.allocate 2000 8 0 .default).holds fun (place, m) =>
    m.destroy.holds fun _ => (HeapM.collect .increment []).holds fun ms h =>
      decide (place ≠ 0 ∧ m.allocators.cells.cells.get 7 = [Heap.smallStart + 2048] ∧
        h.small.classes.get? Heap.smallStart = some 7) && ms.isEmpty)
    (fresh {} {}).heap

theorem half_page_run : ∃ m h₁ m' h₂ h₃ h₄ g, Mutator.bind (fresh {} {}).heap = .ok m h₁ ∧
    m.allocate 2000 8 0 .default h₁ = .ok (g.place, m') h₂ ∧ m'.destroy h₂ = .ok () h₃ ∧
    HeapM.collect .increment [] h₃ = .ok [] h₄ ∧ Runs (fresh {} {}) ⟨h₂, [m'], [g], []⟩ ∧
    Heap.smallStart + 2048 ∈ m'.allocators.cells.cells.get 7 ∧
    h₄.small.classes.get? Heap.smallStart = some 7 := by
  have steps : endsWithHalfPage = true := by decide +kernel
  simp only [endsWithHalfPage, HeapM.holds_iff, Bool.and_eq_true, decide_eq_true_eq,
    List.isEmpty_iff] at steps
  obtain ⟨m, h₁, bound, ⟨place, m'⟩, h₂, asked, _, h₃, ended, _, h₄, done, ⟨some, kept, cut⟩,
    rfl⟩ := steps
  have first : Step (fresh {} {}) ⟨h₁, [m], [], []⟩ := .bind bound
  obtain ⟨_, ground, -, -, second⟩ :=
    Step.of_allocate (t := ⟨h₁, [m], [], []⟩) (.refl _) asked some
  refine ⟨m, h₁, m', h₂, h₃, h₄, ⟨place, ground⟩, bound, asked, ended, done,
    .tail (.single first) second, ?_, cut⟩
  rw [kept]
  exact List.mem_singleton_self _

/-- The other half is not available after the increment, and not later on. -/
theorem ended_mutators_strand_their_cells_half_page :
    ∃ m h₁ place m' h₂ h₃ h₄, Mutator.bind (fresh {} {}).heap = .ok m h₁ ∧
      m.allocate 2000 8 0 .default h₁ = .ok (place, m') h₂ ∧ m'.destroy h₂ = .ok () h₃ ∧
      HeapM.collect .increment [] h₃ = .ok [] h₄ ∧
      ∃ t, t.heap = h₄ ∧ t.mutators = [] ∧ Runs (fresh {} {}) t ∧
        ∀ t', Runs t t' → ¬t'.Available 7 (Heap.smallStart + 2048) := by
  obtain ⟨m, h₁, m', h₂, h₃, h₄, g, bound, asked, ended, done, run, kept, -⟩ := half_page_run
  obtain ⟨-, -, ends⟩ := ended_mutators_strand_their_cells run
  obtain ⟨k, ended', step, lost⟩ := ends m' [] (.refl _)
  cases ended.symm.trans ended'
  obtain ⟨-, increments, -⟩ := ended_mutators_strand_their_cells (run.trans step)
  obtain ⟨collected, -⟩ := increments .increment [] [] [] h₄ (.refl _) (.of_collect done)
  refine ⟨m, h₁, _, m', h₂, h₃, h₄, bound, asked, ended, done, _, rfl, rfl,
    (run.trans step).trans collected, fun t' later => ?_⟩
  exact lost t' (collected.trans later) 7 _ kept

/-- A mutator gets half of a page and ends. After the next increment, where there are no mutators, a
cell of the page is not available. -/
theorem half_page_is_lost :
    ∃ m h₁ m' h₂ h₃ h₄ g, Mutator.bind (fresh {} {}).heap = .ok m h₁ ∧
      m.allocate 2000 8 0 .default h₁ = .ok (g.place, m') h₂ ∧ m'.destroy h₂ = .ok () h₃ ∧
      HeapM.collect .increment [] h₃ = .ok [] h₄ ∧
      Runs (fresh {} {}) ⟨h₃, [], [g], [m'.allocators]⟩ ∧
      ¬∀ page c, h₄.small.classes.get? page = some c → ∀ a ∈ SmallSpace.pageCells page c,
        Available ⟨h₄, [], [g].filter (·.outlives h₃ h₄), [m'.allocators]⟩ c a := by
  obtain ⟨m, h₁, m', h₂, h₃, h₄, g, bound, asked, ended, done, run, kept, cut⟩ := half_page_run
  have run : Runs (fresh {} {}) ⟨h₃, [], [g], [m'.allocators]⟩ :=
    run.tail (.destroy (.refl _) ended)
  have st := (Sound.fresh {} {}).run run
  have none : ([] : List Mutator).Perm ([] ++ []) := .refl _
  have collected := (Leads.collect st none (.of_collect done)).runs
  refine ⟨m, h₁, m', h₂, h₃, h₄, g, bound, asked, ended, done, run, fun available => ?_⟩
  have lost := (st.run collected).not_available (mem_stranded List.mem_cons_self kept)
  exact lost (available _ _ cut _ (by decide))

end Estate

end DeferredCount
