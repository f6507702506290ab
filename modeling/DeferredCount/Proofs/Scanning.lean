import DeferredCount.Proofs.Processing
import Mathlib.Logic.Relation
import Mathlib.Order.Bounds.Basic

/-!
# Every order of counting references

Several collectors work off the entries of one heap: the roots that were reported, the logged
objects and the logged fields. `Scanning.Step` takes any entry that is left, wherever it lies, and
leaves the places of the others open, so it covers every schedule of the collectors and every order
of their buffers and their pools.

Results:
1. `Scanning.Takes.of_take_object`, `Scanning.Takes.of_take_field`: what a collector takes from its
   buffer or a pool can be taken.
2. `Scanning.Books.worked`: what working off an entry keeps, for both kinds of collections.
3. `Scanning.Invariant.ends`, `Scanning.Invariant.progress`: steps end, when no entry is left.
4. `Processing.isLeast`: the fresh objects that were scanned then are the least closed set.
-/

namespace DeferredCount

/-! ## Steps in any order -/

/-- What collectors work off. -/
inductive Entry
  | root (o : Ref)
  | object (o : Ref)
  | field (e : FieldEntry)

namespace Entry

def root? : Entry → Option Ref
  | root o => some o
  | _ => none

def object? : Entry → Option Ref
  | object o => some o
  | _ => none

def field? : Entry → Option FieldEntry
  | field e => some e
  | _ => none

/-- Roots, objects and fields make up a list of entries. -/
theorem perm_kinds (es : List Entry) :
    es.Perm ((es.filterMap root?).map root ++ (es.filterMap object?).map object ++
      (es.filterMap field?).map field) := by
  induction es with
  | nil => exact .refl _
  | cons e es ih =>
    cases e with
    | root o => exact ih.cons _
    | object o =>
      refine (ih.cons _).trans ?_
      exact List.perm_middle.symm.append_right ((es.filterMap field?).map field)
    | field e => exact (ih.cons _).trans List.perm_middle.symm

end Entry

/-- Works off an entry. -/
def CountingBuffers.process (cycle : Bool) (b : CountingBuffers) : Entry → HeapM CountingBuffers
  | .root o => b.processRoot cycle o
  | .object o => b.processObject cycle o
  | .field e => b.processField cycle e

/-- Collectors that work off entries: the heap they share, the collectors, and the roots that are
left. -/
structure Scanning where
  heap : Heap
  crew : List Collector
  roots : List Ref

/-- The heap with other places for the logged objects and fields that are not in buffers. -/
def Heap.withLogs (h : Heap) (q : Pool Ref) (r : Pool FieldEntry) : Heap :=
  { h with pools := { h.pools with objects := q, fields := r } }

namespace Scanning

/-- The entries that are left. -/
def left (s : Scanning) : List Entry :=
  s.roots.map .root ++ (s.heap.pendingObjects s.crew).map .object ++
    (s.heap.pendingFields s.crew).map .field

/-- The entry `e` can be taken, such that the others lie in the pools `q` and `r`, with the crew,
and among the roots that are left. -/
def Takes (s : Scanning) (e : Entry) (q : Pool Ref) (r : Pool FieldEntry) (crew : List Collector)
    (roots : List Ref) : Prop :=
  s.left.Perm (e :: left ⟨s.heap.withLogs q r, crew, roots⟩)

/-- A collector takes an entry and works it off. -/
inductive Step : Scanning → Scanning → Prop
  | work {s : Scanning} {e : Entry} {q : Pool Ref} {r : Pool FieldEntry}
    {before after : List Collector} {c : Collector} {b : CountingBuffers} {roots : List Ref}
    {heap : Heap} :
    s.Takes e q r (before ++ c :: after) roots →
    c.counting.process false e (s.heap.withLogs q r) = .ok b heap →
    Step s ⟨heap, before ++ { c with counting := b } :: after, roots⟩

variable {s s' : Scanning}

@[simp] theorem roots_left (s : Scanning) : s.left.filterMap Entry.root? = s.roots := by
  simp [left, List.filterMap_append, List.filterMap_map, Function.comp_def, Entry.root?]

@[simp] theorem objects_left (s : Scanning) :
    s.left.filterMap Entry.object? = s.heap.pendingObjects s.crew := by
  simp [left, List.filterMap_append, List.filterMap_map, Function.comp_def, Entry.object?]

@[simp] theorem fields_left (s : Scanning) :
    s.left.filterMap Entry.field? = s.heap.pendingFields s.crew := by
  simp [left, List.filterMap_append, List.filterMap_map, Function.comp_def, Entry.field?]

theorem length_left (s : Scanning) : s.left.length =
    s.roots.length + (s.heap.pendingObjects s.crew).length +
      (s.heap.pendingFields s.crew).length := by
  simp [left, Nat.add_assoc]

/-! ### Taking an entry -/

/-- What a collector takes from its buffer or the pool of objects can be taken. -/
theorem Takes.of_take_object {before after : List Collector} {c : Collector} {b : Buffer Ref}
    {q : Pool Ref} {o : Ref} (split : s.crew = before ++ c :: after)
    (taken : c.counting.objects.take? s.heap.pools.objects = some (o, b, q)) :
    s.Takes (.object o) q s.heap.pools.fields
      (before ++ { c with counting := { c.counting with objects := b } } :: after) s.roots := by
  have objects : (s.heap.pendingObjects s.crew).Perm
      (o :: (s.heap.withLogs q s.heap.pools.fields).pendingObjects
        (before ++ { c with counting := { c.counting with objects := b } } :: after)) := by
    rw [split]
    refine (Heap.pendingObjects_perm before after c).trans ?_
    refine ((Buffer.take?_perm taken).append_right _).trans (.cons o ?_)
    exact (Heap.pendingObjects_perm (h := s.heap.withLogs q _) before after
      { c with counting := { c.counting with objects := b } }).symm
  have fields : s.heap.pendingFields s.crew = (s.heap.withLogs q s.heap.pools.fields).pendingFields
      (before ++ { c with counting := { c.counting with objects := b } } :: after) := by
    simp [split, Heap.pendingFields, Heap.withLogs]
  rw [Takes, left, fields]
  refine (((objects.map Entry.object).append_left _).append_right _).trans ?_
  exact (List.perm_middle.append_right _).trans (.of_eq (List.cons_append ..))

/-- What a collector takes from its buffer or the pool of fields can be taken. -/
theorem Takes.of_take_field {before after : List Collector} {c : Collector} {b : Buffer FieldEntry}
    {r : Pool FieldEntry} {e : FieldEntry} (split : s.crew = before ++ c :: after)
    (taken : c.fields.take? s.heap.pools.fields = some (e, b, r)) :
    s.Takes (.field e) s.heap.pools.objects r (before ++ { c with fields := b } :: after)
      s.roots := by
  have fields : (s.heap.pendingFields s.crew).Perm
      (e :: (s.heap.withLogs s.heap.pools.objects r).pendingFields
        (before ++ { c with fields := b } :: after)) := by
    rw [split]
    refine (Heap.pendingFields_perm before after c).trans ?_
    refine ((Buffer.take?_perm taken).append_right _).trans (.cons e ?_)
    exact (Heap.pendingFields_perm (h := s.heap.withLogs _ r) before after
      { c with fields := b }).symm
  have objects : s.heap.pendingObjects s.crew =
      (s.heap.withLogs s.heap.pools.objects r).pendingObjects
        (before ++ { c with fields := b } :: after) := by
    simp [split, Heap.pendingObjects, Heap.withLogs]
  rw [Takes, left, objects]
  exact ((fields.map Entry.field).append_left _).trans List.perm_middle

/-- A reported root can be taken. -/
theorem Takes.of_root {o : Ref} {roots : List Ref} (h : s.roots = o :: roots) :
    s.Takes (.root o) s.heap.pools.objects s.heap.pools.fields s.crew roots := by
  rw [Takes, left, h]
  exact .refl _

/-- Whatever is left can be taken by a collector, while the pools hold the rest. -/
theorem Takes.of_left {e : Entry} {rest : List Entry} (h : s.left = e :: rest) :
    s.Takes e { queue := { front := [.ofList (rest.filterMap Entry.object?)] } }
      { queue := { front := [.ofList (rest.filterMap Entry.field?)] } }
      ([] ++ ⟨0, ⟨⟨.empty, 1⟩, ⟨.empty, 1⟩⟩, ⟨.empty, 1⟩, ⟨.empty, 1⟩⟩ :: [])
      (rest.filterMap Entry.root?) := by
  rw [Takes, h]
  refine (Entry.perm_kinds rest).cons e |>.trans (.of_eq ?_)
  simp [left, Heap.pendingObjects, Heap.pendingFields, Heap.withLogs, Pool.entries, Pool.blocks,
    Queue.toList]

/-! ### The books -/

/-- The entries `objs₀`, `fields₀` and `roots₀` of a heap `h₀` are worked off, and `s` is how far
collectors are. -/
structure Books (cycle : Bool) (h₀ : Heap) (objs₀ : List Ref) (fields₀ : List Ticket)
    (roots₀ : List Ref) (s : Scanning) (base : List Ref) (t : Tally) (fields : List Ticket) :
    Prop where
  processing : Processing cycle h₀ objs₀ fields₀ base s.heap t (s.heap.pendingObjects s.crew) fields
  entries : (s.heap.pendingFields s.crew).Perm (fields.map (·.toFieldEntry))
  roots : (base ++ s.roots).Perm roots₀

/-- Entries that are left, and fresh objects that can still become entries. -/
def work (s : Scanning) (h₀ : Heap) (t : Tally) : Nat := s.left.length + t.freshLeft h₀

/-- A collector worked off an entry, which turned its buffers `b` and the heap `h` into `b'` and the
heap of `s'`. The references that it counted are roots or those of logged objects and fields, and
the objects `pushed` are new entries. -/
structure Worked (cycle : Bool) (h₀ : Heap) (objs₀ : List Ref) (fields₀ : List Ticket)
    (roots₀ : List Ref) (s : Scanning) (t : Tally) (h : Heap) (b : CountingBuffers) (s' : Scanning)
    (t' : Tally) (b' : CountingBuffers) (pushed : List Ref) : Prop where
  counted : ∃ t₁ refs, Counted cycle h₀ t₁ h b refs s'.heap b' pushed ∧ (cycle = true →
    ∀ x ∈ refs, x ∈ h₀.known ∧ (x ∈ roots₀ ∨ x ∈ h₀.loggedReferents objs₀ fields₀))
  news : t'.news = t.news ++ pushed
  books : ∃ base fields, Books cycle h₀ objs₀ fields₀ roots₀ s' base t' fields
  less : s'.work h₀ t' < s.work h₀ t

variable {cycle : Bool} {h₀ : Heap} {objs₀ roots₀ base : List Ref} {fields₀ fields : List Ticket}
  {t : Tally}

section

variable {e : Entry} {q : Pool Ref} {r : Pool FieldEntry} {before after : List Collector}
  {c : Collector} {roots refs pushed : List Ref} {b : CountingBuffers} {heap : Heap}
  {t₁ t' : Tally} {base' : List Ref} {fields' : List Ticket}

/-- An entry was taken, and the references it led to were counted. -/
theorem Worked.of_counted (takes : s.Takes e q r (before ++ c :: after) roots)
    (counted : Counted cycle h₀ t₁ (s.heap.withLogs q r) c.counting refs heap b pushed)
    (known : cycle = true →
      ∀ x ∈ refs, x ∈ h₀.known ∧ (x ∈ roots₀ ∨ x ∈ h₀.loggedReferents objs₀ fields₀))
    (news : t'.news = t.news ++ pushed)
    (p : Processing cycle h₀ objs₀ fields₀ base' heap t'
      ((s.heap.withLogs q r).pendingObjects (before ++ c :: after) ++ pushed) fields')
    (entries : ((s.heap.withLogs q r).pendingFields (before ++ c :: after)).Perm
      (fields'.map (·.toFieldEntry)))
    (roots_eq : (base' ++ roots).Perm roots₀) :
    Worked cycle h₀ objs₀ fields₀ roots₀ s t (s.heap.withLogs q r) c.counting
      ⟨heap, before ++ { c with counting := b } :: after, roots⟩ t' b pushed := by
  have objects := counted.pendingObjects before after c rfl
  have fields_eq := counted.pendingFields before after c
  refine ⟨⟨t₁, refs, counted, known⟩, news, ⟨base', fields',
    p.congr rfl rfl objects.symm (.refl _), fields_eq ▸ entries, roots_eq⟩, ?_⟩
  -- one entry less, and as many more as there are fresh objects less
  have taken : s.left.length =
      (left ⟨s.heap.withLogs q r, before ++ c :: after, roots⟩).length + 1 :=
    List.Perm.length_eq takes
  have le := p.counting.news_length_le p.nodup
  have more := objects.length_eq
  have before_length := length_left ⟨s.heap.withLogs q r, before ++ c :: after, roots⟩
  have after_length := length_left ⟨heap, before ++ { c with counting := b } :: after, roots⟩
  rw [List.length_append] at more
  dsimp only at before_length after_length
  rw [fields_eq] at after_length
  rw [news, List.length_append] at le
  rw [work, work, Tally.freshLeft, Tally.freshLeft, news, List.length_append]
  omega

/-- Whichever entry is taken, it can be worked off. -/
theorem Books.worked (books : Books cycle h₀ objs₀ fields₀ roots₀ s base t fields)
    (ok : Processable h₀ objs₀ fields₀) (roots_known : ∀ x ∈ roots₀, x ∈ h₀.known)
    (takes : s.Takes e q r (before ++ c :: after) roots) :
    ∃ b heap t' pushed, c.counting.process cycle e (s.heap.withLogs q r) = .ok b heap ∧
      Worked cycle h₀ objs₀ fields₀ roots₀ s t (s.heap.withLogs q r) c.counting
        ⟨heap, before ++ { c with counting := b } :: after, roots⟩ t' b pushed := by
  have rootsLeft := List.Perm.filterMap Entry.root? takes
  have objectsLeft := List.Perm.filterMap Entry.object? takes
  have fieldsLeft := List.Perm.filterMap Entry.field? takes
  have still : (s.heap.withLogs q r).still = s.heap.still := rfl
  cases e with
  | root o =>
    simp only [Entry.root?, Entry.object?, Entry.field?, List.filterMap_cons, roots_left,
      objects_left, fields_left] at rootsLeft objectsLeft fieldsLeft
    have p := books.processing.congr still rfl objectsLeft (.refl _)
    have root : o ∈ roots₀ := books.roots.subset
      (List.mem_append_right _ (rootsLeft.symm.subset List.mem_cons_self))
    obtain ⟨heap, b, pushed, t', run, counted, news, p'⟩ :=
      p.roots ok [o] (fun x hx => List.mem_singleton.1 hx ▸ roots_known o root) c.counting
    refine ⟨b, heap, t', pushed, ?_, .of_counted takes counted (fun _ x hx => ?_) news p'
      (fieldsLeft.symm.trans books.entries) ?_⟩
    · change c.counting.processRoot cycle o _ = _
      simpa using run
    · rw [List.mem_singleton.1 hx]
      exact ⟨roots_known o root, .inl root⟩
    · refine List.Perm.trans ?_ books.roots
      rw [List.append_assoc]
      exact rootsLeft.symm.append_left base
  | object o =>
    simp only [Entry.root?, Entry.object?, Entry.field?, List.filterMap_cons, roots_left,
      objects_left, fields_left] at rootsLeft objectsLeft fieldsLeft
    have p := books.processing.congr still rfl objectsLeft (.refl _)
    obtain ⟨heap, b, pushed, t', run, counted, news, p'⟩ := p.object ok c.counting
    refine ⟨b, heap, t', pushed, run, .of_counted takes counted (fun cyc x hx => ?_) news p'
      (fieldsLeft.symm.trans books.entries) ((rootsLeft.symm.append_left _).trans books.roots)⟩
    -- no object is new in a cycle collection
    have old := p.objects.subset (List.mem_append_right _ List.mem_cons_self)
    rw [p.quiet cyc, List.append_nil] at old
    exact ⟨ok.slots_known o (ok.objects_known o old) x hx,
      .inr (List.mem_append_left _ (List.mem_flatMap.2 ⟨o, old, hx⟩))⟩
  | field e =>
    simp only [Entry.root?, Entry.object?, Entry.field?, List.filterMap_cons, roots_left,
      objects_left, fields_left] at rootsLeft objectsLeft fieldsLeft
    obtain ⟨k, later, rfl, fields_perm, entries⟩ :=
      exists_ticket (fieldsLeft.symm.trans books.entries)
    have p := books.processing.congr still rfl objectsLeft fields_perm
    obtain ⟨heap, b, pushed, t', run, counted, news, p'⟩ := p.field ok c.counting
    refine ⟨b, heap, t', pushed, run, .of_counted takes counted (fun _ x hx => ?_) news p' entries
      ((rootsLeft.symm.append_left _).trans books.roots)⟩
    have hk : k ∈ fields₀ := p.fields.subset (List.mem_append_right _ List.mem_cons_self)
    exact ⟨ok.slots_known _ (ok.fields_valid k hk).known x (Ticket.mem_referents hx),
      .inr (List.mem_append_right _ (List.mem_flatMap.2 ⟨k, hk, hx⟩))⟩

end

/-- What one step keeps. -/
theorem Step.books (step : Step s s') (ok : Processable h₀ objs₀ fields₀)
    (roots_known : ∀ x ∈ roots₀, x ∈ h₀.known)
    (books : Books false h₀ objs₀ fields₀ roots₀ s base t fields) :
    ∃ base' t' fields', Books false h₀ objs₀ fields₀ roots₀ s' base' t' fields' ∧
      s'.work h₀ t' < s.work h₀ t := by
  cases step with
  | work takes run =>
    obtain ⟨_, _, t', _, run', worked⟩ := books.worked ok roots_known takes
    cases run'.symm.trans run
    obtain ⟨base', fields', books'⟩ := worked.books
    exact ⟨base', t', fields', books', worked.less⟩

/-- The invariant of the steps. -/
def Invariant (h₀ : Heap) (objs₀ : List Ref) (fields₀ : List Ticket) (roots₀ : List Ref)
    (s : Scanning) : Prop :=
  ∃ base t fields, Books false h₀ objs₀ fields₀ roots₀ s base t fields

namespace Invariant

theorem reached (inv : Invariant h₀ objs₀ fields₀ roots₀ s) (ok : Processable h₀ objs₀ fields₀)
    (roots_known : ∀ x ∈ roots₀, x ∈ h₀.known) (reach : Relation.ReflTransGen Step s s') :
    Invariant h₀ objs₀ fields₀ roots₀ s' := by
  induction reach with
  | refl => exact inv
  | tail _ step ih =>
    obtain ⟨base, t, fields, books⟩ := ih
    obtain ⟨base', t', fields', books', -⟩ := step.books ok roots_known books
    exact ⟨base', t', fields', books'⟩

/-- As long as entries are left, there is a step. -/
theorem progress (inv : Invariant h₀ objs₀ fields₀ roots₀ s) (ok : Processable h₀ objs₀ fields₀)
    (roots_known : ∀ x ∈ roots₀, x ∈ h₀.known) : s.left = [] ∨ ∃ s', Step s s' := by
  obtain ⟨base, t, fields, books⟩ := inv
  cases left : s.left with
  | nil => exact .inl rfl
  | cons e rest =>
    have takes := Takes.of_left left
    obtain ⟨_, _, _, _, run, -⟩ := books.worked ok roots_known takes
    exact .inr ⟨_, .work takes run⟩

theorem ends (inv : Invariant h₀ objs₀ fields₀ roots₀ s) (ok : Processable h₀ objs₀ fields₀)
    (roots_known : ∀ x ∈ roots₀, x ∈ h₀.known) : Acc (fun s' s => Step s s') s := by
  obtain ⟨base, t, fields, books⟩ := inv
  generalize e : s.work h₀ t = n
  induction n using Nat.strong_induction_on generalizing s base t fields with
  | _ n ih =>
    refine ⟨s, fun s' step => ?_⟩
    obtain ⟨base', t', fields', books', less⟩ := step.books ok roots_known books
    exact ih (s'.work h₀ t') (e ▸ less) base' t' fields' books' rfl

/-- Some order works off all entries. -/
theorem exists_end (inv : Invariant h₀ objs₀ fields₀ roots₀ s) (ok : Processable h₀ objs₀ fields₀)
    (roots_known : ∀ x ∈ roots₀, x ∈ h₀.known) :
    ∃ s', Relation.ReflTransGen Step s s' ∧ s'.left = [] := by
  induction inv.ends ok roots_known with
  | intro s _ ih =>
    rcases inv.progress ok roots_known with none | ⟨s₁, step⟩
    · exact ⟨s, .refl, none⟩
    · obtain ⟨s', reach, none⟩ := ih s₁ step (inv.reached ok roots_known (.single step))
      exact ⟨s', .head step reach, none⟩

end Invariant

/-- When no entry is left, the books are closed. -/
theorem Books.closed (books : Books cycle h₀ objs₀ fields₀ roots₀ s base t fields)
    (none : s.left = []) :
    Processing cycle h₀ objs₀ fields₀ base s.heap t [] [] ∧ base.Perm roots₀ := by
  have length := s.length_left
  rw [none] at length
  have noRoots : s.roots = [] := List.eq_nil_of_length_eq_zero (by simp at length; omega)
  have noObjects : s.heap.pendingObjects s.crew = [] :=
    List.eq_nil_of_length_eq_zero (by simp at length; omega)
  have noFields : s.heap.pendingFields s.crew = [] :=
    List.eq_nil_of_length_eq_zero (by simp at length; omega)
  have p := books.processing
  have entries := books.entries
  have roots := books.roots
  rw [noFields] at entries
  rw [noObjects, List.map_eq_nil_iff.1 entries.nil_eq.symm] at p
  rw [noRoots, List.append_nil] at roots
  exact ⟨p, roots⟩

end Scanning

/-! ## The least closed set -/

/-- What working off the entries of a heap `h` leaves when it scans the fresh objects `N`. -/
structure Scanned (h : Heap) (roots objs : List Ref) (fields : List Ticket) (N : Finset Ref)
    (h' : Heap) : Prop where
  still : h'.still = h.still
  view : ∀ x ∈ h.known, (h.view x).Grown (h'.view x)
    (if x ∈ h.counted then h.gains roots objs fields N x else 0) (x ∈ N) (x ∈ objs ∨ x ∈ N)
    fun i => (∃ k ∈ fields, k.object = x ∧ k.first = i) ∨
      (h.settings.fieldBarrier ∧ (x ∈ objs ∨ x ∈ N))

namespace Processing

variable {h₀ h : Heap} {objs₀ base : List Ref} {fields₀ : List Ticket} {t : Tally}

theorem of_roots {roots : List Ref} (p : Processing false h₀ objs₀ fields₀ base h t [] [])
    (perm : base.Perm roots) : Processing false h₀ objs₀ fields₀ roots h t [] [] :=
  { p with
    hits := fun o ho => by
      rw [p.hits o ho, perm.count_eq]
    below := fun S closes => p.below S {
      fresh := closes.fresh
      closed := fun x hx fresh pos => closes.closed x hx fresh (by
        rwa [Heap.gains, perm.count_eq, ← Heap.gains] at pos) } }

/-- In a cycle collection it does not matter which roots there are. -/
theorem withRoots (p : Processing true h₀ objs₀ fields₀ base h t [] []) (roots : List Ref) :
    Processing true h₀ objs₀ fields₀ roots h t [] [] :=
  { p with
    below := fun S _ x hx => by
      rw [p.quiet rfl] at hx
      cases hx }

/-- When nothing is left, all references there are were counted. -/
theorem hits_eq (p : Processing false h₀ objs₀ fields₀ base h t [] []) {o : Ref}
    (ho : o ∈ h₀.counted) : t.hits.count o = h₀.gains base objs₀ fields₀ t.news.toFinset o := by
  have objects : t.objects.Perm (objs₀ ++ t.news) := by simpa using p.objects
  have fields : t.fields.Perm fields₀ := by simpa using p.fields
  rw [p.hits o ho, if_neg Bool.false_ne_true, Heap.covered_perm objects fields, Heap.gains,
    Heap.covered, Heap.covered, List.map_append, List.sum_append, List.sum_toFinset _ p.nodup]
  omega

/-- When nothing is left, the fresh objects that were scanned are the least closed set. -/
theorem isLeast (p : Processing false h₀ objs₀ fields₀ base h t [] []) :
    IsLeast {S | Closes h₀ base objs₀ fields₀ S} t.news.toFinset := by
  refine ⟨⟨fun x hx => p.counting.news_fresh x (List.mem_toFinset.1 hx), fun x hx fresh pos => ?_⟩,
    fun S closes x hx => p.below S closes x (List.mem_toFinset.1 hx)⟩
  rw [← p.hits_eq hx, List.count_pos_iff] at pos
  exact List.mem_toFinset.2 (p.counting.mem_news x pos fresh)

theorem scanned (p : Processing false h₀ objs₀ fields₀ base h t [] []) :
    Scanned h₀ base objs₀ fields₀ t.news.toFinset h where
  still := p.counting.still
  view x hx := by
    have objects : t.objects.Perm (objs₀ ++ t.news) := by simpa using p.objects
    have fields : t.fields.Perm fields₀ := by simpa using p.fields
    have worked : x ∈ t.objects ↔ x ∈ objs₀ ∨ x ∈ t.news.toFinset := by
      rw [objects.mem_iff, List.mem_append, List.mem_toFinset]
    have view := p.counting.view x hx
    exact { view with
      count := by
        rw [view.count]
        split
        · next co => rw [p.hits_eq co]
        · next nc => rw [List.count_eq_zero.2 fun hit => nc (p.counting.hits_counted x hit)]
      fresh := by
        rw [view.fresh, List.mem_toFinset]
      logged := by rw [view.logged, worked]
      marks := fun i => by
        rw [view.marks, Tally.Clears, worked]
        simp only [fields.mem_iff] }

end Processing

end DeferredCount
