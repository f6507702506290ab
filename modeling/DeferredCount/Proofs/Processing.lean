import DeferredCount.Proofs.Increments
import DeferredCount.Proofs.Shifts
import Mathlib.Algebra.Order.BigOperators.Group.Finset
import Mathlib.Algebra.Order.BigOperators.Group.List
import Mathlib.Data.List.Perm.Subperm

/-!
# Working off all entries

The collectors of an increment work off every logged object and every logged field, and each fresh
object that is counted meanwhile. `Processing` keeps the books: what was worked off and what is left
are the entries there were and the fresh objects that were counted, and the references counted are
those that the entries worked off cover.

Results:
1. `Processing.object`, `Processing.field`, `Processing.roots`: what one step keeps.
2. `Counted.pendingObjects`, `Counted.pendingFields`: what is left when a collector has counted.
-/

namespace DeferredCount

/-- How many slots of logged objects and fields refer to `o`. -/
def Heap.covered (h : Heap) (objs : List Ref) (fields : List Ticket) (o : Ref) : Nat :=
  (objs.map fun x => (h.view x).references o).sum + (fields.map fun k => k.references h o).sum

theorem Heap.covered_perm {h : Heap} {objs objs' : List Ref} {fields fields' : List Ticket}
    (e₁ : objs.Perm objs') (e₂ : fields.Perm fields') (o : Ref) :
    h.covered objs fields o = h.covered objs' fields' o := by
  rw [covered, covered, (e₁.map _).sum_eq, (e₂.map _).sum_eq]

/-- What the slots of logged objects and fields refer to. -/
def Heap.loggedReferents (h : Heap) (objs : List Ref) (fields : List Ticket) : List Ref :=
  objs.flatMap (fun x => (h.view x).referents) ++ fields.flatMap (·.referents h)

/-- How many of the roots, of the slots of logged objects and fields, and of the slots of objects of
`S` refer to `o`. -/
def Heap.gains (h : Heap) (roots objs : List Ref) (fields : List Ticket) (S : Finset Ref)
    (o : Ref) :
    Nat :=
  roots.count o + h.covered objs fields o + ∑ x ∈ S, (h.view x).references o

/-- A set of fresh objects that holds every fresh object to which a root, a logged object or field,
or an object of the set itself refers. -/
structure Closes (h : Heap) (roots objs : List Ref) (fields : List Ticket) (S : Finset Ref) :
    Prop where
  fresh : ∀ x ∈ S, x ∈ h.counted ∧ (h.view x).header.fresh = true
  closed : ∀ x ∈ h.counted, (h.view x).header.fresh = true → 0 < h.gains roots objs fields S x →
    x ∈ S

namespace Closes

variable {h : Heap} {roots objs : List Ref} {fields : List Ticket} {S : Finset Ref} {x y : Ref}

/-- Fewer roots ask for less. -/
theorem of_append {more : List Ref} (c : Closes h (roots ++ more) objs fields S) :
    Closes h roots objs fields S where
  fresh := c.fresh
  closed x hx fresh pos := c.closed x hx fresh (by
    rw [Heap.gains] at pos ⊢
    rw [List.count_append]
    omega)

theorem of_root (c : Closes h roots objs fields S) (hx : x ∈ h.counted)
    (fresh : (h.view x).header.fresh = true) (root : x ∈ roots) : x ∈ S :=
  c.closed x hx fresh (by
    have := List.count_pos_iff.2 root
    rw [Heap.gains]
    omega)

theorem of_object (c : Closes h roots objs fields S) (hx : x ∈ h.counted)
    (fresh : (h.view x).header.fresh = true) (hy : y ∈ objs) (ref : x ∈ (h.view y).referents) :
    x ∈ S := by
  have le : (h.view y).references x ≤ (objs.map fun y => (h.view y).references x).sum :=
    List.le_sum_of_mem (List.mem_map_of_mem hy)
  have := ObjectView.references_pos.2 (ObjectView.mem_referents.1 ref)
  exact c.closed x hx fresh (by rw [Heap.gains, Heap.covered]; omega)

theorem of_field {k : Ticket} (c : Closes h roots objs fields S) (hx : x ∈ h.counted)
    (fresh : (h.view x).header.fresh = true) (hk : k ∈ fields) (ref : x ∈ k.referents h) :
    x ∈ S := by
  have le : k.references h x ≤ (fields.map fun k => k.references h x).sum :=
    List.le_sum_of_mem (List.mem_map_of_mem hk)
  have := k.count_referents h x ▸ List.count_pos_iff.2 ref
  exact c.closed x hx fresh (by rw [Heap.gains, Heap.covered]; omega)

theorem of_member (c : Closes h roots objs fields S) (hx : x ∈ h.counted)
    (fresh : (h.view x).header.fresh = true) (hy : y ∈ S) (ref : x ∈ (h.view y).referents) :
    x ∈ S := by
  have le : (h.view y).references x ≤ ∑ z ∈ S, (h.view z).references x :=
    Finset.single_le_sum (f := fun z => (h.view z).references x) (fun _ _ => Nat.zero_le _) hy
  have := ObjectView.references_pos.2 (ObjectView.mem_referents.1 ref)
  exact c.closed x hx fresh (by rw [Heap.gains]; omega)

end Closes

/-- Logged objects and fields in a heap whose references lead to its objects. -/
structure Processable (h : Heap) (objs : List Ref) (fields : List Ticket) : Prop where
  wellFormed : h.WellFormed
  slots_known : ∀ x ∈ h.known, ∀ o ∈ (h.view x).referents, o ∈ h.known
  objects_known : ∀ x ∈ objs, x ∈ h.known
  fields_valid : ∀ k ∈ fields, k.Valid h

/-- The entries `objs₀` and `fields₀` of a heap `h₀` are worked off: `h` is the heap by now, `objs`
and `fields` are left, and the roots `base` were counted. -/
structure Processing (cycle : Bool) (h₀ : Heap) (objs₀ : List Ref) (fields₀ : List Ticket)
    (base : List Ref) (h : Heap) (t : Tally) (objs : List Ref) (fields : List Ticket) : Prop where
  counting : Counting h₀ h t
  nodup : t.news.Nodup
  quiet : cycle = true → t.news = []
  objects : (t.objects ++ objs).Perm (objs₀ ++ t.news)
  fields : (t.fields ++ fields).Perm fields₀
  hits : ∀ o ∈ h₀.counted, t.hits.count o =
    if cycle then 0 else base.count o + h₀.covered t.objects t.fields o
  below : ∀ S, Closes h₀ base objs₀ fields₀ S → ∀ x ∈ t.news, x ∈ S

namespace Processing

variable {cycle : Bool} {h₀ h h' : Heap} {objs₀ objs rest base refs pushed : List Ref}
  {fields₀ fields : List Ticket} {t t₁ : Tally} {b b' : CountingBuffers} {x : Ref} {k : Ticket}

theorem congr (p : Processing cycle h₀ objs₀ fields₀ base h t objs fields) {objs' : List Ref}
    {fields' : List Ticket} (still : h'.still = h.still) (memory : h'.memory = h.memory)
    (e₁ : objs.Perm objs') (e₂ : fields.Perm fields') :
    Processing cycle h₀ objs₀ fields₀ base h' t objs' fields' :=
  { p with
    counting := p.counting.congr still memory
    objects := ((e₁.append_left _).symm).trans p.objects
    fields := ((e₂.append_left _).symm).trans p.fields }

/-- Before anything is worked off. -/
theorem start (cycle : Bool) (ok : Processable h₀ objs₀ fields₀) :
    Processing cycle h₀ objs₀ fields₀ [] h₀ {} objs₀ fields₀ where
  counting := .start ok.wellFormed
  nodup := .nil
  quiet _ := rfl
  objects := by simp
  fields := .refl _
  hits o _ := by simp [Heap.covered]
  below S _ x hx := absurd hx List.not_mem_nil

theorem objects_known (p : Processing cycle h₀ objs₀ fields₀ base h t objs fields)
    (ok : Processable h₀ objs₀ fields₀) : ∀ x ∈ objs, x ∈ h₀.known := by
  intro x hx
  rcases List.mem_append.1 (p.objects.subset (List.mem_append_right _ hx)) with hx | hx
  · exact ok.objects_known x hx
  · exact .inl (p.counting.news_fresh x hx).1

theorem fields_valid (p : Processing cycle h₀ objs₀ fields₀ base h t objs fields)
    (ok : Processable h₀ objs₀ fields₀) : ∀ k ∈ fields, k.Valid h₀ :=
  fun k hk => ok.fields_valid k (p.fields.subset (List.mem_append_right _ hk))

/-- References were counted, and the books say where they were found. -/
theorem counted (c : Counted cycle h₀ t₁ h b refs h' b' pushed) (nodup : t₁.news.Nodup)
    (quiet : cycle = true → t₁.news = []) (objects : (t₁.objects ++ objs).Perm (objs₀ ++ t₁.news))
    (fields_eq : (t₁.fields ++ fields).Perm fields₀)
    (hits : ∀ o ∈ h₀.counted, t₁.hits.count o + (if cycle then 0 else refs.count o) =
      if cycle then 0 else base.count o + h₀.covered t₁.objects t₁.fields o)
    (seen : ∀ x ∈ t₁.hits, (h₀.view x).header.fresh = true → x ∈ t₁.news)
    (below : ∀ S, Closes h₀ base objs₀ fields₀ S → ∀ x ∈ t₁.news, x ∈ S)
    (found : ∀ S, Closes h₀ base objs₀ fields₀ S → (∀ x ∈ t₁.news, x ∈ S) →
      ∀ x ∈ refs, x ∈ h₀.counted → (h₀.view x).header.fresh = true → x ∈ S) :
    Processing cycle h₀ objs₀ fields₀ base h'
      (t₁.extend (if cycle then [] else refs.filter (· ∈ h₀.counted)) pushed) (objs ++ pushed)
      fields where
  counting := c.counting
  nodup := by
    refine List.nodup_append.2 ⟨nodup, c.nodup, ?_⟩
    rintro x h₁ y h₂ rfl
    exact c.new x h₂ h₁
  quiet cyc := by rw [Tally.extend, quiet cyc, c.quiet cyc, List.append_nil]
  objects := by
    rw [Tally.extend, ← List.append_assoc, ← List.append_assoc]
    exact objects.append_right _
  fields := fields_eq
  hits o ho := by
    rw [Tally.extend, List.count_append]
    refine Eq.trans ?_ (hits o ho)
    cases cycle <;> simp [List.count_filter, ho]
  below S closes x hx := by
    rcases List.mem_append.1 hx with hx | hx
    · exact below S closes x hx
    · obtain ⟨counted, fresh⟩ := c.counting.news_fresh x (List.mem_append_right _ hx)
      exact found S closes (below S closes) x (c.mem_refs seen hx) counted fresh

/-- An object is worked off. -/
theorem object (p : Processing cycle h₀ objs₀ fields₀ base h t (x :: rest) fields)
    (ok : Processable h₀ objs₀ fields₀) (b : CountingBuffers) :
    ∃ h' b' pushed t', b.processObject cycle x h = .ok b' h' ∧
      Counted cycle h₀ (t.work x) h b (h₀.view x).referents h' b' pushed ∧
      t'.news = t.news ++ pushed ∧
      Processing cycle h₀ objs₀ fields₀ base h' t' (rest ++ pushed) fields := by
  have hx := p.objects_known ok x List.mem_cons_self
  obtain ⟨h', b', pushed, e, c⟩ :=
    p.counting.processObject ok.wellFormed cycle hx (ok.slots_known x hx) b
  refine ⟨h', b', pushed, _, e, c, rfl, counted c p.nodup p.quiet ?_ p.fields (fun o ho => ?_)
    p.counting.mem_news p.below fun S closes below y hy co fresh => ?_⟩
  · exact (List.perm_middle.symm).trans p.objects
  · have := p.hits o ho
    simp only [Tally.work, Heap.covered, List.map_cons, List.sum_cons, ObjectView.count_referents]
      at this ⊢
    cases cycle
    · simp only [Bool.false_eq_true, if_false] at this ⊢
      omega
    · exact this
  · rcases List.mem_append.1 (p.objects.subset (List.mem_append_right _ List.mem_cons_self)) with
      entry | new
    · exact closes.of_object co fresh entry hy
    · exact closes.of_member co fresh (below x new) hy

/-- A field is worked off. -/
theorem field {later : List Ticket}
    (p : Processing cycle h₀ objs₀ fields₀ base h t objs (k :: later))
    (ok : Processable h₀ objs₀ fields₀) (b : CountingBuffers) :
    ∃ h' b' pushed t', b.processField cycle k.toFieldEntry h = .ok b' h' ∧
      Counted cycle h₀ (t.clear k) h b (k.referents h₀) h' b' pushed ∧
      t'.news = t.news ++ pushed ∧
      Processing cycle h₀ objs₀ fields₀ base h' t' (objs ++ pushed) later := by
  have valid := p.fields_valid ok k List.mem_cons_self
  obtain ⟨h', b', pushed, e, c⟩ :=
    p.counting.processField ok.wellFormed cycle valid (ok.slots_known _ valid.known) b
  refine ⟨h', b', pushed, _, e, c, rfl, counted c p.nodup p.quiet p.objects ?_ (fun o ho => ?_)
    p.counting.mem_news p.below fun S closes _ y hy co fresh => closes.of_field co fresh
      (p.fields.subset (List.mem_append_right _ List.mem_cons_self)) hy⟩
  · exact (List.perm_middle.symm).trans p.fields
  · have := p.hits o ho
    simp only [Tally.clear, Heap.covered, List.map_cons, List.sum_cons, Ticket.count_referents]
      at this ⊢
    cases cycle
    · simp only [Bool.false_eq_true, if_false] at this ⊢
      omega
    · exact this

/-- The roots are counted. -/
theorem roots (p : Processing cycle h₀ objs₀ fields₀ base h t objs fields)
    (ok : Processable h₀ objs₀ fields₀) (roots : List Ref) (known : ∀ x ∈ roots, x ∈ h₀.known)
    (b : CountingBuffers) :
    ∃ h' b' pushed t', roots.foldlM (CountingBuffers.processRoot cycle) b h = .ok b' h' ∧
      Counted cycle h₀ t h b roots h' b' pushed ∧ t'.news = t.news ++ pushed ∧
      Processing cycle h₀ objs₀ fields₀ (base ++ roots) h' t' (objs ++ pushed) fields := by
  obtain ⟨h', b', pushed, e, c⟩ := Counting.countAll ok.wellFormed cycle roots known b p.counting
  refine ⟨h', b', pushed, _, e, c, rfl,
    counted c p.nodup p.quiet p.objects p.fields (fun o ho => ?_) p.counting.mem_news
      (fun S closes => p.below S closes.of_append) fun S closes _ y hy co fresh =>
        closes.of_root co fresh (List.mem_append_right _ hy)⟩
  have := p.hits o ho
  cases cycle
  · simp only [Bool.false_eq_true, if_false, List.count_append] at this ⊢
    omega
  · exact this

end Processing

/-- How many fresh objects of a heap are still to be counted. -/
def Tally.freshLeft (t : Tally) (h : Heap) : Nat :=
  (h.counted.filter fun x => (h.view x).header.fresh = true).card - t.news.length

theorem Counting.news_length_le {h₀ h : Heap} {t : Tally} (c : Counting h₀ h t)
    (nodup : t.news.Nodup) :
    t.news.length ≤ (h₀.counted.filter fun x => (h₀.view x).header.fresh = true).card := by
  rw [← List.toFinset_card_of_nodup nodup]
  refine Finset.card_le_card fun x hx => ?_
  rw [Finset.mem_filter]
  exact c.news_fresh x (List.mem_toFinset.1 hx)

/-! ## Entries that are left -/

section Pending

variable {h : Heap} {before after : List Collector} {c : Collector}

theorem Heap.pendingObjects_perm (before after : List Collector) (c : Collector) :
    (h.pendingObjects (before ++ c :: after)).Perm
      (c.counting.objects.both h.pools.objects ++
        (before ++ after).flatMap (·.counting.objects.items.toList)) := by
  refine List.perm_iff_count.2 fun x => ?_
  simp only [pendingObjects, Buffer.both, List.flatMap_append, List.flatMap_cons,
    List.count_append]
  omega

theorem Heap.pendingFields_perm (before after : List Collector) (c : Collector) :
    (h.pendingFields (before ++ c :: after)).Perm
      (c.fields.both h.pools.fields ++ (before ++ after).flatMap (·.fields.items.toList)) := by
  refine List.perm_iff_count.2 fun x => ?_
  simp only [pendingFields, Buffer.both, List.flatMap_append, List.flatMap_cons,
    List.count_append]
  omega

/-- An entry that is left is that of one of the fields. -/
theorem exists_ticket {e : FieldEntry} {rest : List FieldEntry} {fields : List Ticket}
    (perm : (e :: rest).Perm (fields.map (·.toFieldEntry))) :
    ∃ k later, k.toFieldEntry = e ∧ fields.Perm (k :: later) ∧
      rest.Perm (later.map (·.toFieldEntry)) := by
  obtain ⟨k, hk, rfl⟩ := List.mem_map.1 (perm.subset List.mem_cons_self)
  obtain ⟨front, back, split⟩ := List.append_of_mem hk
  have fields_perm : fields.Perm (k :: (front ++ back)) := split ▸ List.perm_middle
  exact ⟨k, front ++ back, rfl, fields_perm,
    List.Perm.cons_inv (perm.trans (fields_perm.map (·.toFieldEntry)))⟩

theorem Counted.pendingObjects {cycle : Bool} {h₀ h' : Heap} {t : Tally} {refs pushed : List Ref}
    {b b' : CountingBuffers} (k : Counted cycle h₀ t h b refs h' b' pushed)
    (before after : List Collector) (c : Collector) (same : c.counting = b) :
    (h'.pendingObjects (before ++ { c with counting := b' } :: after)).Perm
      (h.pendingObjects (before ++ c :: after) ++ pushed) := by
  have h₁ := h.pendingObjects_perm before after c
  have h₂ := h'.pendingObjects_perm before after { c with counting := b' }
  have objects := k.objects
  rw [← same] at objects
  refine List.perm_iff_count.2 fun x => ?_
  rw [h₂.count_eq, List.count_append, List.count_append, h₁.count_eq, List.count_append]
  simp only [objects, List.count_append]
  omega

theorem Counted.pendingFields {cycle : Bool} {h₀ h' : Heap} {t : Tally} {refs pushed : List Ref}
    {b b' : CountingBuffers} (k : Counted cycle h₀ t h b refs h' b' pushed)
    (before after : List Collector) (c : Collector) :
    h'.pendingFields (before ++ { c with counting := b' } :: after) =
      h.pendingFields (before ++ c :: after) := by
  have same : h'.pools.fields = h.pools.fields := by rw [k.pools]
  simp [Heap.pendingFields, same]

end Pending

end DeferredCount
