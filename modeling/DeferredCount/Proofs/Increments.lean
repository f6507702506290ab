import DeferredCount.Collector.Increments
import DeferredCount.Proofs.Entries
import DeferredCount.Proofs.Objects

/-!
# Counting the references of logged objects and fields

Working off the entries of an increment counts references: those in the slots of logged objects, in
the slots of logged fields, and in the slots of fresh objects once they are counted themselves.
`Counting` says what the heap is like when so many references were counted and so many entries were
worked off. In a cycle collection the references are queued instead, and no count changes.

Results:
1. `Counting.countAll`: what counting references does.
2. `Counting.processField`, `Counting.processObject`: what working off an entry does.
-/

namespace DeferredCount

/-! ## What an entry covers -/

namespace ObjectView

/-- Is the field marked? There is no mark out of range. -/
def isMarked (v : ObjectView) (i : Nat) : Bool := v.marks.getD i false

theorem isMarked_set (v : ObjectView) {i : Nat} (hi : i < v.marks.length) (b : Bool) (j : Nat) :
    ({ v with marks := v.marks.set i b } : ObjectView).isMarked j =
      if j = i then b else v.isMarked j := by
  simp only [isMarked, List.getD_eq_getElem?_getD, List.getElem?_set]
  by_cases e : j = i
  · subst e
    simp [hi]
  · rw [if_neg (Ne.symm e), if_neg e]

theorem isMarked_clearMarks (v : ObjectView) (i : Nat) : v.clearMarks.isMarked i = false := by
  simp only [isMarked, clearMarks, List.getD_eq_getElem?_getD, List.getElem?_replicate]
  split <;> rfl

/-- The slots of the `n` fields from field `i` on. -/
def range (v : ObjectView) (i n : Nat) : List (Option Ref) := (v.targets.drop i).take n

end ObjectView

/-- A field entry as one sees it from the object: the fields it covers, the first of which has the
mark. -/
structure Ticket extends FieldEntry where
  object : Ref
  first : Nat
  length : Nat
  deriving DecidableEq

namespace Ticket

/-- The covered slots. -/
def targets (t : Ticket) (h : Heap) : List (Option Ref) :=
  (h.view t.object).range t.first t.length

/-- The references in the covered slots. -/
def referents (t : Ticket) (h : Heap) : List Ref := (t.targets h).filterMap id

/-- How many covered slots refer to `o`. -/
def references (t : Ticket) (h : Heap) (o : Ref) : Nat := (t.targets h).count (some o)

/-- The covered fields are fields of the object. -/
structure Valid (t : Ticket) (h : Heap) : Prop where
  known : t.object ∈ h.known
  first_lt : t.first < h.memory.length t.object
  fits : t.first + t.length ≤ h.memory.length t.object
  mark : t.mark = h.memory.markAddr t.object t.first
  slots : t.covered.slots =
    .ok ((List.range t.length).map fun k => t.object.slotAddr (t.first + k))

theorem mem_referents {t : Ticket} {h : Heap} {o : Ref} (ho : o ∈ t.referents h) :
    o ∈ (h.view t.object).referents := by
  simp only [referents, targets, ObjectView.range, List.mem_filterMap, id_eq, exists_eq_right]
    at ho
  exact ObjectView.mem_referents.2 (List.mem_of_mem_drop (List.mem_of_mem_take ho))

theorem count_referents (t : Ticket) (h : Heap) (o : Ref) :
    (t.referents h).count o = t.references h o :=
  ObjectView.count_referents { h.view t.object with targets := t.targets h } o

end Ticket

/-! ## What was counted so far -/

/-- A header after `n` increments. -/
theorem Header.increment_getD (hd : Header) :
    (hd.increment.getD hd).count = min stuck (hd.count + 1) ∧
      (hd.increment.getD hd).fresh = false ∧ (hd.increment.getD hd).logged = hd.logged ∧
      (hd.increment.getD hd).locked = hd.locked ∧ (hd.increment.getD hd).marked = hd.marked ∧
      (hd.increment.getD hd).low = hd.low ∧ (hd.increment.getD hd).high = hd.high := by
  cases e : hd.increment with
  | none =>
    unfold increment at e
    split at e
    · next st =>
      split at e
      · cases e
      · next nf => simp [st, nf, stuck]
    · cases e
  | some new =>
    refine ⟨increment_count e, ?_⟩
    unfold increment at e
    split at e
    · split at e
      · cases e
        exact ⟨rfl, rfl, rfl, rfl, rfl, rfl⟩
      · cases e
    · cases e
      exact ⟨rfl, rfl, rfl, rfl, rfl, rfl⟩

/-- What collectors did so far. -/
structure Tally where
  /-- The references that were counted. -/
  hits : List Ref := []
  /-- The objects that were worked off. -/
  objects : List Ref := []
  /-- The fields that were worked off. -/
  fields : List Ticket := []
  /-- The fresh objects among those counted. -/
  news : List Ref := []

/-- The view `v` went over into `w`: its count grew by `n`, its freshness ended if it was `counted`,
it was unlogged if it was `worked` off, and some marks were `cleared`. All else stayed. -/
structure ObjectView.Grown (v w : ObjectView) (n : Nat) (counted worked : Prop)
    (cleared : Nat → Prop) : Prop where
  array : w.array = v.array
  targets : w.targets = v.targets
  locked : w.header.locked = v.header.locked
  marked : w.header.marked = v.header.marked
  low : w.header.low = v.header.low
  high : w.header.high = v.header.high
  count : w.header.count = min Header.stuck (v.header.count + n)
  fresh : w.header.fresh = true ↔ v.header.fresh = true ∧ ¬ counted
  logged : w.header.logged = true ↔ v.header.logged = true ∧ ¬ worked
  marks : ∀ i, w.isMarked i = true ↔ v.isMarked i = true ∧ ¬ cleared i

/-- Is the mark of a field cleared by what was done? -/
def Tally.Clears (t : Tally) (h : Heap) (x : Ref) (i : Nat) : Prop :=
  (∃ f ∈ t.fields, f.object = x ∧ f.first = i) ∨ (h.settings.fieldBarrier ∧ x ∈ t.objects)

/-- The view `w` is what a tally makes of the view of an object in a heap `h`. -/
def Tally.Makes (t : Tally) (h : Heap) (x : Ref) (w : ObjectView) : Prop :=
  (h.view x).Grown w (t.hits.count x) (x ∈ t.news) (x ∈ t.objects) (t.Clears h x)

/-- The heap without what counting changes. -/
def Heap.still (h : Heap) : Heap :=
  { h with memory := {}, pools := {}, log := [], newRoots := [], client := {} }

/-- What collectors did to a heap `h₀` so far turned it into `h`. -/
structure Counting (h₀ h : Heap) (t : Tally) : Prop where
  still : h.still = h₀.still
  laid : h.memory.Laid h₀.known
  hits_counted : ∀ x ∈ t.hits, x ∈ h₀.counted
  news_fresh : ∀ x ∈ t.news, x ∈ h₀.counted ∧ (h₀.view x).header.fresh = true
  mem_news : ∀ x ∈ t.hits, (h₀.view x).header.fresh = true → x ∈ t.news
  news_hit : ∀ x ∈ t.news, x ∈ t.hits
  view : ∀ x ∈ h₀.known, t.Makes h₀ x (h.view x)

namespace Counting

variable {h₀ h h' : Heap} {t t' : Tally} {x : Ref}

theorem small_eq (c : Counting h₀ h t) : h.small = h₀.small := by
  have := congrArg Heap.small c.still
  exact this

theorem large_eq (c : Counting h₀ h t) : h.large = h₀.large := by
  have := congrArg Heap.large c.still
  exact this

theorem permanent_eq (c : Counting h₀ h t) : h.permanent = h₀.permanent := by
  have := congrArg Heap.permanent c.still
  exact this

theorem settings_eq (c : Counting h₀ h t) : h.settings = h₀.settings := by
  have := congrArg Heap.settings c.still
  exact this

theorem counted_eq (c : Counting h₀ h t) : h.counted = h₀.counted := by
  rw [Heap.counted, Heap.counted, c.small_eq, c.large_eq]

theorem known_eq (c : Counting h₀ h t) : h.known = h₀.known := by
  rw [Heap.known, Heap.known, c.counted_eq, c.permanent_eq]

theorem wellFormed (c : Counting h₀ h t) (wf : h₀.WellFormed) : h.WellFormed :=
  wf.congr c.small_eq c.large_eq c.permanent_eq c.laid

theorem start (wf : h₀.WellFormed) : Counting h₀ h₀ {} where
  still := rfl
  laid := wf.laid
  hits_counted x hx := absurd hx List.not_mem_nil
  news_fresh x hx := absurd hx List.not_mem_nil
  mem_news x hx := absurd hx List.not_mem_nil
  news_hit x hx := absurd hx List.not_mem_nil
  view x _ := {
    array := rfl
    targets := rfl
    locked := rfl
    marked := rfl
    low := rfl
    high := rfl
    count := by
      have := (h₀.view x).header.count_lt
      rw [List.count_nil, Nat.add_zero, Nat.min_eq_right]
      exact Nat.le_of_lt_succ this
    fresh := by simp
    logged := by simp
    marks := by simp [Tally.Clears] }

/-- Only the memory of some objects matters. -/
theorem congr (c : Counting h₀ h t) (still : h'.still = h.still) (memory : h'.memory = h.memory) :
    Counting h₀ h' t :=
  { c with
    still := still.trans c.still
    laid := memory ▸ c.laid
    view := fun x hx => by
      rw [Heap.view, memory]
      exact c.view x hx }

/-- One object changes, and the tally goes on accordingly. -/
theorem edit (c : Counting h₀ h t) {o : Ref} {v : ObjectView} (e : Edited o v h h')
    (hits_counted : ∀ x ∈ t'.hits, x ∈ h₀.counted)
    (news_fresh : ∀ x ∈ t'.news, x ∈ h₀.counted ∧ (h₀.view x).header.fresh = true)
    (mem_news : ∀ x ∈ t'.hits, (h₀.view x).header.fresh = true → x ∈ t'.news)
    (news_hit : ∀ x ∈ t'.news, x ∈ t'.hits) (self : t'.Makes h₀ o v)
    (other : ∀ x ∈ h₀.known, x ≠ o → t.Makes h₀ x (h.view x) → t'.Makes h₀ x (h.view x)) :
    Counting h₀ h' t' where
  still := by
    rw [e.rest, ← c.still]
    rfl
  laid := c.known_eq ▸ e.laid
  hits_counted := hits_counted
  news_fresh := news_fresh
  mem_news := mem_news
  news_hit := news_hit
  view := by
    have := e.forall_view (P := fun x w => t'.Makes h₀ x w)
      (fun x hx ne => other x (c.known_eq ▸ hx) ne (c.view x (c.known_eq ▸ hx))) self
    rwa [c.known_eq] at this

end Counting

/-- The tally with more hits, and with more fresh objects among them. -/
def Tally.extend (t : Tally) (hits pushed : List Ref) : Tally :=
  { t with hits := t.hits ++ hits, news := t.news ++ pushed }

theorem Counting.hit {h₀ h h' : Heap} {t : Tally} (c : Counting h₀ h t) {x : Ref}
    (hx : x ∈ h₀.counted)
    (set : HeaderSet x ((h.view x).header.increment.getD (h.view x).header) h h') :
    Counting h₀ h' (t.extend [x] (if (h.view x).header.fresh then [x] else [])) := by
  have old := c.view x (.inl hx)
  obtain ⟨count, fresh, logged, locked, marked, low, high⟩ :=
    Header.increment_getD (h.view x).header
  have mem_news : ∀ y, y ∈ (t.extend [x] (if (h.view x).header.fresh then [x] else [])).news ↔
      y ∈ t.news ∨ y = x ∧ (h.view x).header.fresh = true := by
    intro y
    cases (h.view x).header.fresh <;> simp [Tally.extend]
  have mem_hits : ∀ y, y ∈ (t.extend [x] (if (h.view x).header.fresh then [x] else [])).hits ↔
      y ∈ t.hits ∨ y = x := by
    simp [Tally.extend]
  refine c.edit set (fun y hy => ?_) (fun y hy => ?_) (fun y hy fresh₀ => ?_) (fun y hy => ?_) ?_ ?_
  · rcases (mem_hits y).1 hy with hy | rfl
    · exact c.hits_counted y hy
    · exact hx
  · rcases (mem_news y).1 hy with hy | ⟨rfl, f⟩
    · exact c.news_fresh y hy
    · exact ⟨hx, (old.fresh.1 f).1⟩
  · rcases (mem_hits y).1 hy with hy | rfl
    · exact (mem_news y).2 (.inl (c.mem_news y hy fresh₀))
    · by_cases seen : y ∈ t.news
      · exact (mem_news y).2 (.inl seen)
      · exact (mem_news y).2 (.inr ⟨rfl, old.fresh.2 ⟨fresh₀, seen⟩⟩)
  · rcases (mem_news y).1 hy with hy | ⟨rfl, -⟩
    · exact (mem_hits y).2 (.inl (c.news_hit y hy))
    · exact (mem_hits y).2 (.inr rfl)
  · exact { old with
      locked := locked.trans old.locked
      marked := marked.trans old.marked
      low := low.trans old.low
      high := high.trans old.high
      count := by
        rw [count, old.count, Tally.extend, List.count_append, List.count_singleton_self]
        omega
      fresh := by
        simp only [fresh, Bool.false_eq_true, false_iff, not_and, not_not]
        intro fresh₀
        by_cases seen : x ∈ t.news
        · exact (mem_news x).2 (.inl seen)
        · exact (mem_news x).2 (.inr ⟨rfl, old.fresh.2 ⟨fresh₀, seen⟩⟩)
      logged := by
        rw [logged]
        exact old.logged }
  · intro y hy ne m
    exact { m with
      count := by
        rw [m.count, Tally.extend, List.count_append, List.count_singleton,
          if_neg (by simpa using Ne.symm ne), Nat.add_zero]
      fresh := by
        rw [mem_news]
        simpa [ne] using m.fresh }

/-! ## Counting references -/

/-- References were counted, or queued in a cycle collection: the buffers took up the fresh objects
`pushed`, or the queued references. -/
structure Counted (cycle : Bool) (h₀ : Heap) (t : Tally) (h : Heap) (b : CountingBuffers)
    (refs : List Ref) (h' : Heap) (b' : CountingBuffers) (pushed : List Ref) : Prop where
  counting : Counting h₀ h'
    (t.extend (if cycle then [] else refs.filter (· ∈ h₀.counted)) pushed)
  nodup : pushed.Nodup
  new : ∀ x ∈ pushed, x ∉ t.news
  quiet : cycle = true → pushed = []
  objects : b'.objects.both h'.pools.objects = b.objects.both h.pools.objects ++ pushed
  traceRoots : b'.traceRoots.both h'.pools.traceRoots =
    b.traceRoots.both h.pools.traceRoots ++
      if cycle then refs.filter (· ∈ h₀.counted) else []
  solid : h.pools.Solid → h'.pools.Solid
  pools : h'.pools =
    { h.pools with objects := h'.pools.objects, traceRoots := h'.pools.traceRoots }
  frame : h' = { h with memory := h'.memory, pools := h'.pools }

namespace Counted

variable {cycle : Bool} {h₀ h h₁ h' : Heap} {t : Tally} {b b₁ b' : CountingBuffers}
  {refs refs₁ refs₂ pushed pushed₁ pushed₂ : List Ref}

/-- Nothing is counted when no reference leads to a counted object. -/
theorem none (c : Counting h₀ h t) (uncounted : ∀ x ∈ refs, x ∉ h₀.counted) :
    Counted cycle h₀ t h b refs h b [] := by
  have filter : refs.filter (· ∈ h₀.counted) = [] := by simpa using uncounted
  have tally : t.extend (if cycle then [] else refs.filter (· ∈ h₀.counted)) [] = t := by
    rw [filter]
    cases cycle <;> simp [Tally.extend]
  exact {
    counting := tally.symm ▸ c
    nodup := List.nodup_nil
    new := fun x hx => absurd hx List.not_mem_nil
    quiet := fun _ => rfl
    objects := (List.append_nil _).symm
    traceRoots := by
      rw [filter]
      simp
    solid := id
    pools := rfl
    frame := rfl }

/-- What the buffers took up was referred to. -/
theorem mem_refs {x : Ref} (c : Counted cycle h₀ t h b refs h' b' pushed)
    (seen : ∀ y ∈ t.hits, (h₀.view y).header.fresh = true → y ∈ t.news) (hx : x ∈ pushed) :
    x ∈ refs := by
  have new := c.counting.news_hit x (List.mem_append_right _ hx)
  have fresh := (c.counting.news_fresh x (List.mem_append_right _ hx)).2
  rcases List.mem_append.1 new with old | found
  · exact absurd (seen x old fresh) (c.new x hx)
  · cases cycle
    · exact (List.mem_filter.1 found).1
    · cases found

theorem trans (c₁ : Counted cycle h₀ t h b refs₁ h₁ b₁ pushed₁)
    (c₂ : Counted cycle h₀ (t.extend (if cycle then [] else refs₁.filter (· ∈ h₀.counted)) pushed₁)
      h₁ b₁ refs₂ h' b' pushed₂) :
    Counted cycle h₀ t h b (refs₁ ++ refs₂) h' b' (pushed₁ ++ pushed₂) where
  counting := by
    have c := c₂.counting
    rw [List.filter_append]
    cases cycle
    · simpa [Tally.extend, List.append_assoc] using c
    · simpa [Tally.extend, List.append_assoc] using c
  nodup := by
    refine List.nodup_append.2 ⟨c₁.nodup, c₂.nodup, ?_⟩
    rintro x h₁ y h₂ rfl
    exact c₂.new x h₂ (by simp [Tally.extend, h₁])
  new x hx := by
    rcases List.mem_append.1 hx with hx | hx
    · exact c₁.new x hx
    · exact fun seen => c₂.new x hx (by simp [Tally.extend, seen])
  quiet cyc := by rw [c₁.quiet cyc, c₂.quiet cyc, List.append_nil]
  objects := by rw [c₂.objects, c₁.objects, List.append_assoc]
  traceRoots := by
    rw [c₂.traceRoots, c₁.traceRoots, List.append_assoc]
    cases cycle <;> simp
  solid := c₂.solid ∘ c₁.solid
  pools := by rw [c₂.pools, c₁.pools]
  frame := by rw [c₂.frame, c₁.frame]

end Counted

namespace Counting

variable {h₀ h h' : Heap} {t : Tally} {x : Ref}

theorem isCounted_eq (c : Counting h₀ h t) (wf : h₀.WellFormed) (hx : x ∈ h₀.known) :
    h.isCounted x = true ↔ x ∈ h₀.counted := by
  rw [← c.counted_eq]
  exact (c.wellFormed wf).isCounted_iff (c.known_eq ▸ hx)

theorem count_queued (c : Counting h₀ h t) (wf : h₀.WellFormed) (hx : x ∈ h₀.counted)
    (b : CountingBuffers) :
    ∃ h' b', CountingBuffers.count true b x h = .ok b' h' ∧
      Counted true h₀ t h b [x] h' b' [] := by
  have co := (c.isCounted_eq wf (.inl hx)).2 hx
  have one : [x].filter (· ∈ h₀.counted) = [x] := by simp [hx]
  obtain ⟨traceRoots, q, e, both, -, solid⟩ := HeapM.push_entries .traceRoots b.traceRoots x h
  refine ⟨h.putPool .traceRoots q, { b with traceRoots }, ?_, {
    counting := ?_
    nodup := List.nodup_nil
    new := fun x hx => absurd hx List.not_mem_nil
    quiet := fun _ => rfl
    objects := (List.append_nil _).symm
    traceRoots := by
      rw [one, if_pos rfl]
      exact both
    solid := fun s => s.set .traceRoots (solid s.traceRoots)
    pools := rfl
    frame := rfl }⟩
  · rw [CountingBuffers.count, HeapM.get_bind_apply, if_pos co, if_pos rfl, HeapM.bind_of_ok e]
    rfl
  · have tally : t.extend (if true then [] else [x].filter (· ∈ h₀.counted)) [] = t := by
      simp [Tally.extend]
    rw [tally]
    exact c.congr rfl rfl

theorem count_again (c : Counting h₀ h t) (wf : h₀.WellFormed) (hx : x ∈ h₀.counted)
    (old : (h.view x).header.fresh = false) (b : CountingBuffers) :
    ∃ h', CountingBuffers.count false b x h = .ok b h' ∧
      Counted false h₀ t h b [x] h' b [] := by
  have co := (c.isCounted_eq wf (.inl hx)).2 hx
  have one : [x].filter (· ∈ h₀.counted) = [x] := by simp [hx]
  obtain ⟨h', e, set⟩ :=
    HeapM.updateHeader_eq (c.wellFormed wf) (o := x) (c.known_eq ▸ .inl hx) Header.increment
  have c' := c.hit hx set
  rw [old] at c'
  have gained : (h.view x).header.gained = .counted := if_neg (by simp [old])
  have pools : h'.pools = h.pools := by rw [set.rest]
  refine ⟨h', ?_, {
    counting := by
      rw [one]
      exact c'
    nodup := List.nodup_nil
    new := fun x hx => absurd hx List.not_mem_nil
    quiet := fun _ => rfl
    objects := by rw [pools, List.append_nil]
    traceRoots := by rw [pools, if_neg (by simp), List.append_nil]
    solid := by
      rw [pools]
      exact id
    pools := by rw [pools]
    frame := by
      rw [pools]
      exact set.rest }⟩
  rw [CountingBuffers.count, HeapM.get_bind_apply, if_pos co, if_neg (by simp), HeapM.bind_of_ok e]
  simp only [gained]
  rfl

theorem count_first (c : Counting h₀ h t) (wf : h₀.WellFormed) (hx : x ∈ h₀.counted)
    (fresh : (h.view x).header.fresh = true) (b : CountingBuffers) :
    ∃ h' b', CountingBuffers.count false b x h = .ok b' h' ∧
      Counted false h₀ t h b [x] h' b' [x] := by
  have co := (c.isCounted_eq wf (.inl hx)).2 hx
  have one : [x].filter (· ∈ h₀.counted) = [x] := by simp [hx]
  obtain ⟨h₁, e₁, set⟩ :=
    HeapM.updateHeader_eq (c.wellFormed wf) (o := x) (c.known_eq ▸ .inl hx) Header.increment
  have c₁ := c.hit hx set
  rw [fresh] at c₁
  have gained : (h.view x).header.gained = .first := if_pos fresh
  have unseen : x ∉ t.news := ((c.view x (.inl hx)).fresh.1 fresh).2
  obtain ⟨objects, q, e₂, both, -, solid⟩ := HeapM.push_entries .objects b.objects x h₁
  have pools : h₁.pools = h.pools := by rw [set.rest]
  rw [pools] at both solid
  refine ⟨h₁.putPool .objects q, { b with objects }, ?_, {
    counting := by
      rw [one]
      exact c₁.congr rfl rfl
    nodup := List.nodup_singleton x
    new := fun y hy => List.mem_singleton.1 hy ▸ unseen
    quiet := fun e => by cases e
    objects := both
    traceRoots := by
      rw [if_neg (by simp), List.append_nil, ← pools]
      rfl
    solid := fun s => by
      rw [← pools] at s
      exact s.set .objects (solid (pools ▸ s.objects))
    pools := by
      rw [← pools]
      rfl
    frame := by
      rw [set.rest]
      rfl }⟩
  rw [CountingBuffers.count, HeapM.get_bind_apply, if_pos co, if_neg (by simp),
    HeapM.bind_of_ok e₁]
  simp only [gained]
  rw [HeapM.bind_of_ok e₂]
  rfl

/-- One reference is counted. -/
theorem count (c : Counting h₀ h t) (wf : h₀.WellFormed) (hx : x ∈ h₀.known) (cycle : Bool)
    (b : CountingBuffers) :
    ∃ h' b' pushed, CountingBuffers.count cycle b x h = .ok b' h' ∧
      Counted cycle h₀ t h b [x] h' b' pushed := by
  by_cases hc : x ∈ h₀.counted
  · cases cycle with
    | true =>
      obtain ⟨h', b', e, counted⟩ := c.count_queued wf hc b
      exact ⟨h', b', _, e, counted⟩
    | false =>
      cases fresh : (h.view x).header.fresh with
      | false =>
        obtain ⟨h', e, counted⟩ := c.count_again wf hc fresh b
        exact ⟨h', b, _, e, counted⟩
      | true =>
        obtain ⟨h', b', e, counted⟩ := c.count_first wf hc fresh b
        exact ⟨h', b', _, e, counted⟩
  · have nc : h.isCounted x = false :=
      Bool.eq_false_iff.2 fun co => hc ((c.isCounted_eq wf hx).1 co)
    refine ⟨h, b, [], ?_, .none c fun y hy => List.mem_singleton.1 hy ▸ hc⟩
    rw [CountingBuffers.count, HeapM.get_bind_apply, if_neg (by simp [nc])]
    rfl

/-- References are counted one by one. -/
theorem countAll (wf : h₀.WellFormed) (cycle : Bool) (refs : List Ref)
    (known : ∀ x ∈ refs, x ∈ h₀.known) (b : CountingBuffers) (c : Counting h₀ h t) :
    ∃ h' b' pushed, refs.foldlM (CountingBuffers.count cycle) b h = .ok b' h' ∧
      Counted cycle h₀ t h b refs h' b' pushed := by
  induction refs generalizing h t b with
  | nil => exact ⟨h, b, [], rfl, .none c fun x hx => absurd hx List.not_mem_nil⟩
  | cons x refs ih =>
    obtain ⟨h₁, b₁, pushed₁, e₁, c₁⟩ := c.count wf (known x List.mem_cons_self) cycle b
    obtain ⟨h', b', pushed, e, c'⟩ :=
      ih (fun y hy => known y (List.mem_cons_of_mem _ hy)) b₁ c₁.counting
    refine ⟨h', b', _, ?_, c₁.trans c'⟩
    rw [List.foldlM_cons, HeapM.bind_of_ok e₁, e]

/-- The references in slots of an object are counted slot by slot. -/
theorem countSlots (wf : h₀.WellFormed) (cycle : Bool) (hx : x ∈ h₀.known)
    (known : ∀ y ∈ (h₀.view x).referents, y ∈ h₀.known) (fields : List Nat)
    (fits : ∀ i ∈ fields, i < h₀.memory.length x) (b : CountingBuffers) (c : Counting h₀ h t) :
    ∃ h' b' pushed,
      (fields.map x.slotAddr).foldlM (CountingBuffers.countSlot cycle) b h = .ok b' h' ∧
      Counted cycle h₀ t h b (fields.filterMap (h₀.view x).target) h' b'
        pushed := by
  induction fields generalizing h t b with
  | nil => exact ⟨h, b, [], rfl, .none c fun x hx => absurd hx List.not_mem_nil⟩
  | cons i fields ih =>
    have hi := fits i List.mem_cons_self
    have targets : (h.view x).targets = (h₀.view x).targets := (c.view x hx).targets
    have hi₀ : i < (h₀.view x).targets.length := by
      rw [Heap.view, Memory.length_targets]
      exact hi
    have hi' : i < h.memory.length x := by
      rw [← Memory.length_targets, ← Heap.view, targets]
      exact hi₀
    have placed : h.memory.Placed x := (c.wellFormed wf).placed (c.known_eq ▸ hx)
    have loaded : h.memory.loadRef (x.slotAddr i) = .ok ((h₀.view x).target i) := by
      rw [placed.loadRef_target hi', ObjectView.target, ObjectView.target, ← targets]
      rfl
    have rest := fun j (hj : j ∈ fields) => fits j (List.mem_cons_of_mem _ hj)
    cases found : (h₀.view x).target i with
    | none =>
      obtain ⟨h', b', pushed, e, c'⟩ := ih rest b c
      refine ⟨h', b', pushed, ?_, ?_⟩
      · rw [found] at loaded
        rw [List.map_cons, List.foldlM_cons]
        refine (HeapM.bind_of_ok ?_).trans e
        rw [CountingBuffers.countSlot, HeapM.bind_of_ok (HeapM.inspect_of_ok loaded)]
        rfl
      · rw [List.filterMap_cons_none found]
        exact c'
    | some y =>
      have hy : y ∈ (h₀.view x).referents := by
        rw [ObjectView.mem_referents, ← found, ObjectView.target_eq hi₀]
        exact List.getElem_mem hi₀
      obtain ⟨h₁, b₁, pushed₁, e₁, c₁⟩ := c.count wf (known y hy) cycle b
      obtain ⟨h', b', pushed, e, c'⟩ := ih rest b₁ c₁.counting
      refine ⟨h', b', pushed₁ ++ pushed, ?_, ?_⟩
      · rw [found] at loaded
        rw [List.map_cons, List.foldlM_cons]
        refine (HeapM.bind_of_ok ?_).trans e
        rw [CountingBuffers.countSlot, HeapM.bind_of_ok (HeapM.inspect_of_ok loaded)]
        exact e₁
      · rw [List.filterMap_cons_some found]
        exact c₁.trans c'

end Counting

/-! ## Working off an entry -/

theorem Ticket.referents_eq {k : Ticket} {h : Heap}
    (fits : k.first + k.length ≤ h.memory.length k.object) :
    ((List.range k.length).map (k.first + ·)).filterMap (h.view k.object).target =
      k.referents h := by
  have length : (h.view k.object).targets.length = h.memory.length k.object :=
    Memory.length_targets ..
  have slots : ((List.range k.length).map (k.first + ·)).map (h.view k.object).target =
      k.targets h := by
    refine List.ext_getElem ?_ fun i h₁ h₂ => ?_
    · simp only [targets, ObjectView.range, List.length_map, List.length_range, List.length_take,
        List.length_drop, length]
      omega
    · have hi : k.first + i < (h.view k.object).targets.length := by
        simp only [List.length_map, List.length_range] at h₁
        omega
      simp [targets, ObjectView.range, ObjectView.target_eq hi]
  rw [Ticket.referents, ← slots]
  exact (List.filterMap_map (g := id)).symm

namespace Tally

/-- An object is worked off. -/
def work (t : Tally) (x : Ref) : Tally := { t with objects := x :: t.objects }

/-- A field is worked off. -/
def clear (t : Tally) (k : Ticket) : Tally := { t with fields := k :: t.fields }

end Tally

/-- The memory before does not matter to what is counted. -/
theorem Counted.of_memory {cycle : Bool} {h₀ h h' : Heap} {t : Tally} {b b' : CountingBuffers}
    {refs pushed : List Ref} {memory : Memory}
    (c : Counted cycle h₀ t { h with memory } b refs h' b' pushed) :
    Counted cycle h₀ t h b refs h' b' pushed :=
  { c with }

namespace Counting

variable {h₀ h : Heap} {t : Tally} {x : Ref} {k : Ticket}

theorem length_eq (c : Counting h₀ h t) (hx : x ∈ h₀.known) :
    h.memory.length x = h₀.memory.length x := by
  rw [← Memory.length_targets, ← Memory.length_targets]
  exact congrArg List.length (c.view x hx).targets

theorem clear (c : Counting h₀ h t) (wf : h₀.WellFormed) (valid : k.Valid h₀) :
    Counting h₀ { h with memory := h.memory.putMark k.object k.first 0 } (t.clear k) := by
  have known : k.object ∈ h.known := c.known_eq ▸ valid.known
  have first_lt : k.first < h.memory.length k.object := by
    rw [c.length_eq valid.known]
    exact valid.first_lt
  have old := c.view k.object valid.known
  refine c.edit (.of_putMark (c.wellFormed wf) known first_lt 0) c.hits_counted c.news_fresh
    c.mem_news c.news_hit ?_ ?_
  · refine { old with marks := fun i => ?_ }
    have clears : (t.clear k).Clears h₀ k.object i ↔ k.first = i ∨ t.Clears h₀ k.object i := by
      simp [Tally.Clears, Tally.clear, or_assoc]
    rw [ObjectView.isMarked_set _ (by rw [Heap.view, Memory.length_marks]; exact first_lt), clears]
    split
    · next e => simp [e]
    · next ne => simp [old.marks, Ne.symm ne]
  · intro y _ ne m
    refine { m with marks := fun i => ?_ }
    have clears : (t.clear k).Clears h₀ y i ↔ t.Clears h₀ y i := by
      simp [Tally.Clears, Tally.clear, Ne.symm ne]
    rw [clears]
    exact m.marks i

/-- A field is worked off. -/
theorem processField (c : Counting h₀ h t) (wf : h₀.WellFormed) (cycle : Bool)
    (valid : k.Valid h₀) (known : ∀ y ∈ (h₀.view k.object).referents, y ∈ h₀.known)
    (b : CountingBuffers) :
    ∃ h' b' pushed, b.processField cycle k.toFieldEntry h = .ok b' h' ∧
      Counted cycle h₀ (t.clear k) h b (k.referents h₀) h' b' pushed := by
  have placed : h.memory.Placed k.object := (c.wellFormed wf).placed (c.known_eq ▸ valid.known)
  have first_lt : k.first < h.memory.length k.object := by
    rw [c.length_eq valid.known]
    exact valid.first_lt
  have mark : h₀.memory.markAddr k.object k.first = h.memory.markAddr k.object k.first := by
    rw [Memory.markAddr, Memory.markAddr, c.length_eq valid.known]
  obtain ⟨h', b', pushed, e, counted⟩ := (c.clear wf valid).countSlots wf cycle valid.known known
    ((List.range k.length).map (k.first + ·)) (fun i hi => by
      have := valid.fits
      simp only [List.mem_map, List.mem_range] at hi
      omega) b
  rw [Ticket.referents_eq valid.fits] at counted
  refine ⟨h', b', pushed, ?_, counted.of_memory⟩
  have stored : h.memory.store k.mark 0 =
      .ok (h.memory.putMark k.object k.first 0) := by
    rw [valid.mark, mark]
    exact placed.store_mark first_lt 0
  rw [CountingBuffers.processField, HeapM.bind_of_ok (HeapM.change_of_ok stored), HeapM.liftM_eq,
    valid.slots, HeapM.lift_ok, HeapM.pure_bind_apply]
  rw [List.map_map] at e
  exact e

/-- The view of an object that is worked off. -/
theorem worked (c : Counting h₀ h t) {h' : Heap} (hx : x ∈ h₀.known) {v : ObjectView}
    (e : Edited x v h h') (array : v.array = (h.view x).array)
    (targets : v.targets = (h.view x).targets)
    (header : v.header = (h.view x).header.makeUnlogged.getD (h.view x).header)
    (marks : ∀ i, v.isMarked i = true ↔ (h.view x).isMarked i = true ∧ ¬ h₀.settings.fieldBarrier) :
    Counting h₀ h' (t.work x) := by
  have old := c.view x hx
  have same : ∀ hd : Header, (hd.makeUnlogged.getD hd).logged = false ∧
      (hd.makeUnlogged.getD hd).locked = hd.locked ∧ (hd.makeUnlogged.getD hd).fresh = hd.fresh ∧
      (hd.makeUnlogged.getD hd).marked = hd.marked ∧ (hd.makeUnlogged.getD hd).count = hd.count ∧
      (hd.makeUnlogged.getD hd).low = hd.low ∧ (hd.makeUnlogged.getD hd).high = hd.high := by
    intro hd
    unfold Header.makeUnlogged
    split <;> simp_all
  obtain ⟨logged, locked, fresh, marked, count, low, high⟩ := same (h.view x).header
  rw [← header] at logged locked fresh marked count low high
  refine c.edit e c.hits_counted c.news_fresh c.mem_news c.news_hit ?_ ?_
  · exact {
      array := array.trans old.array
      targets := targets.trans old.targets
      locked := locked.trans old.locked
      marked := marked.trans old.marked
      low := low.trans old.low
      high := high.trans old.high
      count := count.trans old.count
      fresh := by
        rw [fresh]
        exact old.fresh
      logged := by simp [logged, Tally.work]
      marks := fun i => by
        rw [marks, old.marks]
        simp only [Tally.Clears, Tally.work, List.mem_cons, true_or, and_true]
        grind }
  · intro y _ ne m
    exact { m with
      logged := by
        rw [m.logged]
        simp [Tally.work, ne]
      marks := fun i => by
        rw [m.marks]
        simp [Tally.Clears, Tally.work, ne] }

/-- An object is unlogged, and so are its fields. -/
theorem unlog (c : Counting h₀ h t) (wf : h₀.WellFormed) (hx : x ∈ h₀.known) :
    ∃ old h₁ h₂, HeapM.updateHeader x Header.makeUnlogged h = .ok old h₁ ∧
      h₁.settings = h₀.settings ∧
      (if h₀.settings.fieldBarrier then HeapM.change (·.clearMarks x) else pure ()) h₁ =
        .ok () h₂ ∧
      h₂ = { h with memory := h₂.memory } ∧ Counting h₀ h₂ (t.work x) := by
  obtain ⟨h₁, e₁, set⟩ :=
    HeapM.updateHeader_eq (c.wellFormed wf) (o := x) (c.known_eq ▸ hx) Header.makeUnlogged
  have settings : h₁.settings = h₀.settings := by rw [set.rest, ← c.settings_eq]
  cases barrier : h₀.settings.fieldBarrier with
  | false =>
    refine ⟨_, h₁, h₁, e₁, settings, by simp, set.rest, ?_⟩
    exact c.worked hx set rfl rfl rfl fun i => by
      simp only [barrier, Bool.false_eq_true, not_false_eq_true, and_true]
      exact Iff.rfl
  | true =>
    obtain ⟨h₂, e₂, cleared⟩ := HeapM.clearMarks_eq (set.wellFormed (c.wellFormed wf)) (o := x)
      (set.known_eq ▸ c.known_eq ▸ hx)
    refine ⟨_, h₁, h₂, e₁, settings, by simpa using e₂, by rw [cleared.rest, set.rest], ?_⟩
    refine c.worked hx (Edited.trans set cleared) ?_ ?_ ?_ fun i => ?_
    · rw [set.self]
      rfl
    · rw [set.self]
      rfl
    · rw [set.self]
      rfl
    · simp [ObjectView.isMarked_clearMarks, barrier]

/-- An object is worked off. -/
theorem processObject (c : Counting h₀ h t) (wf : h₀.WellFormed) (cycle : Bool)
    (hx : x ∈ h₀.known) (known : ∀ y ∈ (h₀.view x).referents, y ∈ h₀.known)
    (b : CountingBuffers) :
    ∃ h' b' pushed, b.processObject cycle x h = .ok b' h' ∧
      Counted cycle h₀ (t.work x) h b (h₀.view x).referents h' b' pushed := by
  obtain ⟨old, h₁, h₂, e₁, settings, e₂, rest, c₂⟩ := c.unlog wf hx
  obtain ⟨h', b', pushed, e, counted⟩ := c₂.countAll wf cycle _ known b
  have referents : h₂.memory.referents x = .ok (h₀.view x).referents := by
    rw [((c₂.wellFormed wf).placed (c₂.known_eq ▸ hx)).referents_eq, ObjectView.referents,
      ObjectView.referents]
    exact congrArg (fun l => Except.ok (List.filterMap id l)) (c₂.view x hx).targets
  have scanned := (HeapM.bind_of_ok (f := List.foldlM (CountingBuffers.count cycle) b)
    (HeapM.inspect_of_ok (f := fun m => m.referents x) referents)).trans e
  refine ⟨h', b', pushed, ?_, ?_⟩
  · rw [CountingBuffers.processObject, HeapM.bind_of_ok e₁, HeapM.get_bind_apply, settings]
    cases barrier : h₀.settings.fieldBarrier with
    | false =>
      rw [barrier] at e₂
      cases e₂
      exact scanned
    | true =>
      rw [barrier] at e₂
      exact (HeapM.bind_of_ok e₂).trans scanned
  · rw [rest] at counted
    exact counted.of_memory

end Counting

end DeferredCount
