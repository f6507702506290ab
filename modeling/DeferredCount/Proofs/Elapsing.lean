import DeferredCount.Proofs.Ledger

/-!
# The books over time

Between two increments entries are only added, and a slot only changes while it is open: its object
is fresh or logged, or an entry covers it. So the decrements that come are what the slots held at
first that the new entries cover. `Elapsed` says so of any stretch of time, and stretches that
follow each other make one.

Results:
1. `Ledger.closed_before`: what new entries cover could not be overwritten before.
2. `Elapsed.trans`: one stretch after another.
-/

namespace DeferredCount

instance (h : Heap) (x : Ref) : Decidable (x ∈ h.known) :=
  inferInstanceAs (Decidable (x ∈ h.counted ∨ x ∈ h.permanent.objects))

/-- What entries and stores leave of a view: its shape, its count, and the bits that allow a
store. -/
structure ObjectView.Later (v w : ObjectView) : Prop where
  array : w.array = v.array
  length : w.targets.length = v.targets.length
  count : w.header.count = v.header.count
  fresh : w.header.fresh = v.header.fresh
  logged : v.header.logged = true → w.header.logged = true

namespace ObjectView.Later

theorem refl (v : ObjectView) : v.Later v := ⟨rfl, rfl, rfl, rfl, id⟩

theorem trans {u v w : ObjectView} (h₁ : u.Later v) (h₂ : v.Later w) : u.Later w :=
  ⟨h₂.array.trans h₁.array, h₂.length.trans h₁.length, h₂.count.trans h₁.count,
    h₂.fresh.trans h₁.fresh, h₂.logged ∘ h₁.logged⟩

end ObjectView.Later

/-- A slot holds what it held, if the targets are the same. -/
theorem ObjectView.target_congr {v w : ObjectView} (same : w.targets = v.targets) (i : Nat) :
    w.target i = v.target i := by
  rw [target, target, same]

/-- An object refers to what its slots hold. -/
theorem ObjectView.mem_referents_iff {v : ObjectView} {o : Ref} :
    o ∈ v.referents ↔ ∃ i, i < v.targets.length ∧ v.target i = some o := by
  rw [mem_referents]
  constructor
  · intro slot
    obtain ⟨i, hi, held⟩ := List.getElem_of_mem slot
    exact ⟨i, hi, (target_eq hi).trans held⟩
  · rintro ⟨i, hi, held⟩
    rw [← held, target_eq hi]
    exact List.getElem_mem hi

/-- The same targets in the same places. -/
theorem ObjectView.targets_ext {v w : ObjectView} (length : w.targets.length = v.targets.length)
    (same : ∀ i, w.target i = v.target i) : w.targets = v.targets :=
  List.ext_getElem length fun i h₁ h₂ => by
    rw [← target_eq h₁, ← target_eq h₂, same]

/-- The references in covered slots are those that the slots held before, if no slot among them
changed. -/
theorem Heap.covered_of_kept {h h' : Heap} {objs : List Ref} {fields : List Ticket}
    (length : ∀ x, x ∈ objs ∨ (∃ k ∈ fields, k.object = x) →
      (h'.view x).targets.length = (h.view x).targets.length)
    (objects : ∀ x ∈ objs, ∀ i, (h'.view x).target i = (h.view x).target i)
    (tickets : ∀ k ∈ fields, ∀ i, k.Covers i →
      (h'.view k.object).target i = (h.view k.object).target i) (o : Ref) :
    h'.covered objs fields o = h.covered objs fields o := by
  have h₁ : objs.map (fun x => (h'.view x).references o) =
      objs.map fun x => (h.view x).references o :=
    List.map_congr_left fun x hx => by
      rw [ObjectView.references, ObjectView.targets_ext (length x (.inl hx)) (objects x hx)]
      rfl
  have h₂ : fields.map (fun k => k.references h' o) = fields.map fun k => k.references h o :=
    List.map_congr_left fun k hk => by
      have same := length k.object (.inr ⟨k, hk, rfl⟩)
      have range : k.targets h' = k.targets h := by
        refine List.ext_getElem ?_ fun i h₁ h₂ => ?_
        · simp only [Ticket.targets, ObjectView.range, List.length_take, List.length_drop, same]
        · simp only [Ticket.targets, ObjectView.range, List.length_take, List.length_drop] at h₁ h₂
          have covers : k.Covers (k.first + i) := ⟨Nat.le_add_right .., by omega⟩
          have := tickets k hk _ covers
          rw [ObjectView.target_eq (by omega), ObjectView.target_eq (by omega)] at this
          simpa [Ticket.targets, ObjectView.range] using this
      rw [Ticket.references, range]
      rfl
  rw [covered, covered, h₁, h₂]

/-- An open slot stays open. -/
theorem Heap.Open.later {h h' : Heap} {e : Entries} {x : Ref} {i : Nat} (c : h.Open e x i)
    (l : (h.view x).Later (h'.view x)) (d : Entries) : h'.Open (e ++ d) x i := by
  rcases c with fresh | logged | ⟨k, hk, covers⟩
  · exact .inl (l.fresh.trans fresh)
  · exact .inr (.inl (l.logged logged))
  · exact .inr (.inr ⟨k, List.mem_append_left _ hk, covers⟩)

/-- An object that may be written has no entry of a field. -/
theorem Ledger.field_closed {h : Heap} {e : Entries} {k : Ticket} (l : Ledger h e)
    (hk : k ∈ e.fields) :
    ¬ ((h.view k.object).header.fresh = true ∨ (h.view k.object).header.logged = true) := by
  obtain ⟨-, unlogged, stale⟩ := (l.agrees _ (l.fields_known k hk)).fields k hk rfl
  rw [unlogged, stale]
  simp

/-- What new entries cover could not be overwritten before. -/
theorem Ledger.closed_before {h h' : Heap} {e d : Entries} (l : Ledger h e)
    (l' : Ledger h' (e ++ d))
    (known : h.known ⊆ h'.known) (later : ∀ x ∈ h.known, (h.view x).Later (h'.view x)) :
    (∀ x ∈ d.objects, x ∈ h.known → ∀ i, ¬ h.Open e x i) ∧
      ∀ k ∈ d.fields, k.object ∈ h.known → ∀ i, k.Covers i → ¬ h.Open e k.object i := by
  refine ⟨fun x hx old i opened => ?_, fun k hk old i covers opened => ?_⟩
  · have hx' := List.mem_append_right e.objects hx
    have a := l.agrees x old
    have a' := l'.agrees x (known old)
    -- the object is logged in the end, so it was neither fresh nor logged, nor by fields, before
    have logged := a'.logged.1 hx'
    rcases opened with fresh | logged' | ⟨k, hk, eq, -⟩
    · have := (a'.fresh ((later x old).fresh.trans fresh)).1
      rw [logged] at this
      cases this
    · exact (List.nodup_append.1 l'.objects_nodup).2.2 x (a.logged.2 logged') x hx rfl
    · have := (a'.fields k (List.mem_append_left _ hk) eq).2.1
      rw [logged] at this
      cases this
  · have hk' := List.mem_append_right e.fields hk
    have a' := l'.agrees k.object (known old)
    obtain ⟨regular, unlogged, stale⟩ := a'.fields k hk' rfl
    -- the field has an entry in the end, which excludes all ways in which it could be open
    have later := later k.object old
    rcases opened with fresh | logged | ⟨k', before, eq, covers'⟩
    · rw [later.fresh, fresh] at stale
      cases stale
    · rw [later.logged logged] at unlogged
      cases unlogged
    · have regular' := (a'.fields k' (List.mem_append_left _ before) eq).1
      have first := regular'.first_eq regular covers' covers
      have nodup := l'.fields_nodup
      rw [Entries.fields_append, List.map_append] at nodup
      refine (List.nodup_append.1 nodup).2.2 (k'.object, k'.first) (List.mem_map_of_mem before)
        (k.object, k.first) (List.mem_map_of_mem hk) ?_
      rw [eq, first]

/-- The entries `d` came to `e` while the heap `h` became `h'`. -/
structure Elapsed (h : Heap) (e d : Entries) (h' : Heap) : Prop where
  ledger : Ledger h' (e ++ d)
  known : h.known ⊆ h'.known
  counted : ∀ x ∈ h.known, x ∈ h'.counted ↔ x ∈ h.counted
  /-- A new object may be written without more ado. -/
  born : ∀ x ∈ h'.known, x ∉ h.known →
    (h'.view x).header.fresh = true ∨ (h'.view x).header.logged = true
  later : ∀ x ∈ h.known, (h.view x).Later (h'.view x)
  /-- No slot changed but open ones. -/
  kept : ∀ x ∈ h.known, ∀ i, ¬ h'.Open (e ++ d) x i → (h'.view x).target i = (h.view x).target i
  /-- The decrements are what the slots held that the new entries cover, and one for every new
  counted object. -/
  pending : ∀ o, d.decrements.count o =
    h.covered (d.objects.filter (· ∈ h.known)) d.fields o +
      if o ∈ h'.counted ∧ o ∉ h.known then 1 else 0

namespace Elapsed

variable {h h₁ h' : Heap} {e d d₁ d₂ : Entries}

/-- No object is new. -/
theorem of_known (ledger : Ledger h' (e ++ d)) (counted : h'.counted = h.counted)
    (permanent : h'.permanent.objects = h.permanent.objects)
    (later : ∀ x ∈ h.known, (h.view x).Later (h'.view x))
    (kept : ∀ x ∈ h.known, ∀ i, ¬ h'.Open (e ++ d) x i →
      (h'.view x).target i = (h.view x).target i)
    (pending : ∀ o, h.covered d.objects d.fields o = d.decrements.count o) :
    Elapsed h e d h' := by
  have known : h'.known = h.known := by rw [Heap.known, Heap.known, counted, permanent]
  exact {
    ledger
    known := known.ge
    counted := fun x _ => by rw [counted]
    born := fun x hx new => absurd (known ▸ hx) new
    later
    kept
    pending := fun o => by
      have old : d.objects.filter (· ∈ h.known) = d.objects :=
        List.filter_eq_self.2 fun x hx => decide_eq_true
          (known ▸ ledger.objects_known x (List.mem_append_right _ hx))
      have none : ¬ (o ∈ h'.counted ∧ o ∉ h.known) := by
        rintro ⟨ho, new⟩
        exact new (.inl (counted ▸ ho))
      rw [old, if_neg none, Nat.add_zero, pending] }

/-- Neither an object nor an entry is new, and no object changed. -/
theorem of_view (ledger : Ledger h' e) (counted : h'.counted = h.counted)
    (permanent : h'.permanent.objects = h.permanent.objects) (view : ∀ x, h'.view x = h.view x) :
    Elapsed h e {} h' := by
  refine .of_known ?_ counted permanent (fun x _ => ?_) (fun x _ i _ => by rw [view])
    fun _ => rfl
  · rwa [Entries.append_none]
  · rw [view]
    exact .refl _

/-- A new object is not logged field by field. -/
theorem field_old (t : Elapsed h e d h') {k : Ticket} (hk : k ∈ (e ++ d).fields) :
    k.object ∈ h.known := by
  by_contra new
  exact t.ledger.field_closed hk (t.born _ (t.ledger.fields_known k hk) new)

/-- An object that may be written needs no entry later on. -/
theorem born_later (t₁ : Elapsed h e d₁ h₁) (t₂ : Elapsed h₁ (e ++ d₁) d₂ h') {x : Ref}
    (hx : x ∈ h₁.known) (new : x ∉ h.known) : x ∉ d₂.objects := fun ho => by
  obtain ⟨closed, -⟩ := t₁.ledger.closed_before t₂.ledger t₂.known t₂.later
  exact closed x ho hx 0 ((t₁.born x hx new).imp_right .inl)

theorem trans (t₁ : Elapsed h e d₁ h₁) (t₂ : Elapsed h₁ (e ++ d₁) d₂ h') :
    Elapsed h e (d₁ ++ d₂) h' where
  ledger := by
    rw [← Entries.append_assoc]
    exact t₂.ledger
  known := t₁.known.trans t₂.known
  counted x hx := (t₂.counted x (t₁.known hx)).trans (t₁.counted x hx)
  born x hx new := by
    by_cases hx₁ : x ∈ h₁.known
    · have later := t₂.later x hx₁
      exact (t₁.born x hx₁ new).imp later.fresh.trans later.logged
    · exact t₂.born x hx hx₁
  later x hx := (t₁.later x hx).trans (t₂.later x (t₁.known hx))
  kept x hx i closed := by
    have hx₁ := t₁.known hx
    rw [← Entries.append_assoc] at closed
    rw [t₂.kept x hx₁ i closed]
    exact t₁.kept x hx i fun opened => closed (opened.later (t₂.later x hx₁) d₂)
  pending o := by
    have last : Ledger h' (e ++ d₁ ++ d₂) := t₂.ledger
    obtain ⟨objects, fields⟩ := t₁.ledger.closed_before last t₂.known t₂.later
    -- what the later entries cover was not overwritten in between
    have old : d₂.objects.filter (· ∈ h₁.known) = d₂.objects.filter (· ∈ h.known) :=
      List.filter_congr fun x hx => by
        refine decide_eq_decide.2 ⟨fun hx₁ => ?_, fun hx => t₁.known hx⟩
        by_contra new
        exact t₁.born_later t₂ hx₁ new hx
    have mine : ∀ k ∈ d₂.fields, k.object ∈ h₁.known ∧ k.object ∈ h.known := fun k hk => by
      have hk' := List.mem_append_right (e ++ d₁).fields hk
      have here := t₂.field_old hk'
      refine ⟨here, ?_⟩
      by_contra new
      have later := t₂.later _ here
      exact last.field_closed hk' ((t₁.born _ here new).imp later.fresh.trans later.logged)
    have same : h₁.covered (d₂.objects.filter (· ∈ h.known)) d₂.fields o =
        h.covered (d₂.objects.filter (· ∈ h.known)) d₂.fields o := Heap.covered_of_kept
      (fun x hx => by
        refine (t₁.later x ?_).length
        rcases hx with hx | ⟨k, hk, rfl⟩
        · simpa using (List.mem_filter.1 hx).2
        · exact (mine k hk).2)
      (fun x hx i => by
        obtain ⟨hx, known⟩ := List.mem_filter.1 hx
        have known := of_decide_eq_true known
        exact t₁.kept x known i (objects x hx (t₁.known known) i))
      (fun k hk i covers => t₁.kept _ (mine k hk).2 i (fields k hk (mine k hk).1 i covers)) o
    -- an object is new only once
    have new : (if o ∈ h'.counted ∧ o ∉ h.known then 1 else 0) =
        (if o ∈ h₁.counted ∧ o ∉ h.known then 1 else 0) +
          if o ∈ h'.counted ∧ o ∉ h₁.known then 1 else 0 := by
      by_cases here : o ∈ h.known
      · simp [here, t₁.known here]
      · by_cases here₁ : o ∈ h₁.known
        · simp [here, here₁, t₂.counted o here₁]
        · have : o ∉ h₁.counted := fun ho => here₁ (.inl ho)
          simp [here, here₁, this]
    rw [Entries.decrements_append, List.count_append, t₁.pending, t₂.pending, old, same, new,
      Entries.objects_append, Entries.fields_append, List.filter_append, Heap.covered_append]
    omega

end Elapsed

end DeferredCount
