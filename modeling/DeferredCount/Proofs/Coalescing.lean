import DeferredCount.Proofs.Running

/-!
# Coalesced logging

However often a field is stored to between two collections, it is logged once. At every point the
entries, those in the buffers of mutators and those in the pools together, stand for the log bits
and marks that are set, and the decrements are what the covered slots held when the last collection
ended. No other slot of an object of that time has changed.

Results:
1. `Memory.Laid.markAddr_inj`: fields of different objects have different marks.
2. `logging_coalesces`: the entries after any turns that follow a collection.
-/

namespace DeferredCount

/-- A mark belongs to one field of one object. -/
theorem Memory.Laid.markAddr_inj {m : Memory} {S : Set Ref} (laid : m.Laid S) {x y : Ref}
    {i j : Nat} (hx : x ∈ S) (hy : y ∈ S) (hi : i < m.length x) (hj : j < m.length y)
    (same : m.markAddr x i = m.markAddr y j) : x = y ∧ i = j := by
  have word : ∀ {o k}, o ∈ S → m.markAddr o k =
      start + (o.base + 2 + m.length o + k) * bytesPerWord := fun {o k} ho => by
    have addr := (laid.placed o ho).addr_eq
    dsimp only [markAddr, Address, bytesPerWord] at *
    omega
  rw [word hx, word hy] at same
  have index : x.base + 2 + m.length x + i = y.base + 2 + m.length y + j :=
    Nat.eq_of_mul_eq_mul_right (by decide) (Nat.add_left_cancel same)
  by_cases eq : x = y
  · subst eq
    exact ⟨rfl, Nat.add_left_cancel index⟩
  · exfalso
    rcases laid.apart x hx y hy eq with below | above <;> omega

/-- The entries of a heap `h` and its mutators are exact, where `h₀` is the heap at the snapshot. -/
structure Coalesced (h₀ h : Heap) (ms : List Mutator) : Prop where
  /-- An object has one entry if it is logged, and none otherwise. -/
  objects : ∀ x, (h.loggedObjects ms).count x =
    if x ∈ h.known ∧ (h.view x).header.logged = true then 1 else 0
  /-- There is one entry with a mark that is set, and none with a mark that is not. -/
  marks : ∀ x ∈ h.known, ∀ i < (h.view x).targets.length,
    (h.loggedFields ms).countP (·.mark = h.memory.markAddr x i) =
      if (h.view x).isMarked i then 1 else 0
  /-- Every entry has the mark of a field. -/
  carried : ∀ k ∈ h.loggedFields ms, ∃ x ∈ h.known, ∃ i < (h.view x).targets.length,
    k.mark = h.memory.markAddr x i
  /-- It covers that field, or the quantum that starts there, as far as the object goes. -/
  slots : ∀ x ∈ h.known, ∀ i < (h.view x).targets.length, ∀ k ∈ h.loggedFields ms,
    k.mark = h.memory.markAddr x i → h.settings.span (h.view x) ∣ i ∧
      k.covered.slots = .ok ((List.range
        (min (h.settings.span (h.view x)) ((h.view x).targets.length - i))).map
          fun j => x.slotAddr (i + j))
  /-- A slot that does not hold what it held at the snapshot is covered: its object has an entry, or
  an entry covers its field. -/
  changed : ∀ x ∈ h₀.known, ∀ i, (h.view x).target i ≠ (h₀.view x).target i →
    x ∈ h.loggedObjects ms ∨
      ∃ k ∈ h.loggedFields ms, ∃ slots, k.covered.slots = .ok slots ∧ x.slotAddr i ∈ slots
  /-- The decrements are what the logged slots held at the snapshot, if their object is as old, and
  every counted object that is new. -/
  decrements : ∃ held,
    (h.loggedFields ms).mapM (fun k => k.covered.referents h₀.memory) = .ok held ∧
    (h.owedDecrements ms).Perm
      (((h.loggedObjects ms).filter (· ∈ h₀.known)).flatMap (fun x => (h₀.view x).referents) ++
        held.flatten ++ (h.counted \ h₀.counted).toList)

section

variable {settings : Settings} {h₀ h : Heap} {ms : List Mutator} {e : Entries} {x : Ref} {i : Nat}

theorem Ready.mem_objects (r : Ready settings h ms e) :
    x ∈ e.objects ↔ x ∈ h.known ∧ (h.view x).header.logged = true := by
  constructor
  · intro hx
    have known := r.ledger.objects_known x hx
    exact ⟨known, (r.ledger.agrees x known).logged.1 hx⟩
  · rintro ⟨known, logged⟩
    exact (r.ledger.agrees x known).logged.2 logged

theorem Ready.logged_once (r : Ready settings h ms e) (x : Ref) :
    (h.loggedObjects ms).count x =
      if x ∈ h.known ∧ (h.view x).header.logged = true then 1 else 0 := by
  rw [r.held.objects.count_eq, r.ledger.objects_nodup.count]
  simp only [r.mem_objects]

/-- An entry has the mark of a field if that is the first field it covers. -/
theorem Ready.mark_iff (r : Ready settings h ms e) {k : Ticket} (hk : k ∈ e.fields)
    (hx : x ∈ h.known) (hi : i < (h.view x).targets.length) :
    k.mark = h.memory.markAddr x i ↔ k.object = x ∧ k.first = i := by
  have valid := r.ledger.valid hk
  constructor
  · intro same
    have length : (h.view x).targets.length = h.memory.length x := Memory.length_targets ..
    exact r.ledger.wellFormed.laid.markAddr_inj valid.known hx valid.first_lt (length ▸ hi)
      (valid.mark.symm.trans same)
  · rintro ⟨rfl, rfl⟩
    exact valid.mark

theorem Ready.marked_once (r : Ready settings h ms e) (hx : x ∈ h.known)
    (hi : i < (h.view x).targets.length) :
    (h.loggedFields ms).countP (·.mark = h.memory.markAddr x i) =
      if (h.view x).isMarked i then 1 else 0 := by
  have places : (e.fields.map (·.toFieldEntry)).countP (·.mark = h.memory.markAddr x i) =
      (e.fields.map fun k => (k.object, k.first)).count (x, i) := by
    rw [List.count, List.countP_map, List.countP_map]
    refine List.countP_congr fun k hk => ?_
    simp [r.mark_iff hk hx hi]
  have marked : (x, i) ∈ e.fields.map (fun k => (k.object, k.first)) ↔
      (h.view x).isMarked i = true := by
    rw [(r.ledger.agrees x hx).marks i]
    simp
  rw [r.held.fields.countP_eq, places, r.ledger.fields_nodup.count]
  simp only [marked]

theorem Ready.entry (r : Ready settings h ms e) {k : FieldEntry} (hk : k ∈ h.loggedFields ms) :
    ∃ t ∈ e.fields, t.toFieldEntry = k :=
  List.mem_map.1 (r.held.fields.mem_iff.1 hk)

/-- No slot changed but those that entries cover, if no object was fresh at the snapshot. -/
theorem Ready.covered_of_changed (r : Ready settings h ms e) (t : Elapsed h₀ {} e h)
    (stale : ∀ x ∈ h₀.known, (h₀.view x).header.fresh = false) (hx : x ∈ h₀.known)
    (changed : (h.view x).target i ≠ (h₀.view x).target i) : x ∈ h.loggedObjects ms ∨
      ∃ k ∈ h.loggedFields ms, ∃ slots, k.covered.slots = .ok slots ∧ x.slotAddr i ∈ slots := by
  have opened : h.Open e x i := by
    by_contra shut
    exact changed (t.kept x hx i shut)
  rcases opened with fresh | logged | ⟨k, hk, rfl, covers⟩
  · rw [(t.later x hx).fresh, stale x hx] at fresh
    cases fresh
  · exact .inl (r.held.objects.mem_iff.2 (r.mem_objects.2 ⟨t.known hx, logged⟩))
  · have regular := ((r.ledger.agrees _ (t.known hx)).fields k hk rfl).1
    refine .inr ⟨k.toFieldEntry, r.held.fields.mem_iff.2 (List.mem_map_of_mem hk), _,
      regular.slots, List.mem_map.2 ⟨i - k.first, List.mem_range.2 ?_, ?_⟩⟩
    · exact Nat.sub_lt_left_of_lt_add covers.1 covers.2
    · rw [Nat.add_sub_cancel' covers.1]

/-- What a ticket covers is as old as the snapshot. -/
theorem Elapsed.valid (t : Elapsed h₀ {} e h) {k : Ticket} (hk : k ∈ e.fields) : k.Valid h₀ := by
  have valid := t.ledger.valid (List.mem_append_right _ hk)
  have old := t.field_old (List.mem_append_right _ hk)
  have length : h.memory.length k.object = h₀.memory.length k.object := by
    rw [← Memory.length_targets, ← Memory.length_targets]
    exact (t.later _ old).length
  exact {
    known := old
    first_lt := length ▸ valid.first_lt
    fits := length ▸ valid.fits
    mark := by rw [valid.mark, Memory.markAddr, Memory.markAddr, length]
    slots := valid.slots }

/-- What the slots of an entry held at the snapshot. -/
def FieldEntry.held (h₀ : Heap) (k : FieldEntry) : List Ref :=
  match k.covered.referents h₀.memory with
  | .ok os => os
  | .error _ => []

theorem Elapsed.held_eq (t : Elapsed h₀ {} e h) (wf : h₀.WellFormed) {k : Ticket}
    (hk : k ∈ e.fields) : k.covered.referents h₀.memory = .ok (k.toFieldEntry.held h₀) ∧
      k.toFieldEntry.held h₀ = k.referents h₀ := by
  have valid := t.valid hk
  have read := Mutator.covered_referents (wf.placed valid.known) valid.seated
  rw [FieldEntry.held, read]
  exact ⟨rfl, rfl⟩

/-- The number of times a reference occurs in lists that belong to the members of another list. -/
theorem count_flatMap_perm {α : Type} {l l' : List α} (p : l.Perm l') {f g : α → List Ref}
    (same : ∀ a ∈ l', f a = g a) (o : Ref) :
    (l.flatMap f).count o = (l'.map fun a => (g a).count o).sum := by
  rw [(p.flatMap_right f).count_eq, List.count_flatMap]
  congr 1
  exact List.map_congr_left fun a ha => congrArg (List.count o) (same a ha)

theorem Ready.decrements_perm (r : Ready settings h ms e) (t : Elapsed h₀ {} e h)
    (wf : h₀.WellFormed) : (h.owedDecrements ms).Perm
      (((h.loggedObjects ms).filter (· ∈ h₀.known)).flatMap (fun x => (h₀.view x).referents) ++
        (h.loggedFields ms).flatMap (·.held h₀) ++ (h.counted \ h₀.counted).toList) := by
  refine List.perm_iff_count.2 fun o => ?_
  have objects : (((h.loggedObjects ms).filter (· ∈ h₀.known)).flatMap
      fun x => (h₀.view x).referents).count o =
        ((e.objects.filter (· ∈ h₀.known)).map fun x => (h₀.view x).references o).sum := by
    rw [count_flatMap_perm (r.held.objects.filter _) (fun _ _ => rfl) o]
    simp only [ObjectView.count_referents]
  have fields : ((h.loggedFields ms).flatMap (·.held h₀)).count o =
      (e.fields.map fun k => k.references h₀ o).sum := by
    rw [count_flatMap_perm r.held.fields (fun _ _ => rfl) o, List.map_map]
    congr 1
    refine List.map_congr_left fun k hk => ?_
    rw [Function.comp_apply, (t.held_eq wf hk).2, Ticket.count_referents]
  have new : (h.counted \ h₀.counted).toList.count o =
      if o ∈ h.counted ∧ o ∉ h₀.known then 1 else 0 := by
    rw [(Finset.nodup_toList _).count]
    refine if_congr ?_ rfl rfl
    rw [Finset.mem_toList, Finset.mem_sdiff]
    refine and_congr_right fun ho => not_congr ⟨.inl, fun known => ?_⟩
    exact (t.counted o known).1 ho
  rw [List.count_append, List.count_append, objects, fields, new, r.held.decrements.count_eq]
  exact t.pending o

/-- What entries look like that came since the snapshot. -/
theorem Ready.coalesced (r : Ready settings h ms e) (t : Elapsed h₀ {} e h) (wf : h₀.WellFormed)
    (stale : ∀ x ∈ h₀.known, (h₀.view x).header.fresh = false) : Coalesced h₀ h ms where
  objects := r.logged_once
  marks x hx i hi := r.marked_once hx hi
  carried k hk := by
    obtain ⟨k, mem, rfl⟩ := r.entry hk
    obtain ⟨known, first_lt, -, mark, -⟩ := r.ledger.valid mem
    exact ⟨k.object, known, k.first, (Memory.length_targets ..).symm ▸ first_lt, mark⟩
  slots x hx i hi k hk same := by
    obtain ⟨k, mem, rfl⟩ := r.entry hk
    obtain ⟨rfl, rfl⟩ := (r.mark_iff mem hx hi).1 same
    obtain ⟨-, -, aligned, length, -, slots⟩ := ((r.ledger.agrees _ hx).fields k mem rfl).1
    exact ⟨aligned, length ▸ slots⟩
  changed _ hx _ changed := r.covered_of_changed t stale hx changed
  decrements := by
    refine ⟨(h.loggedFields ms).map (·.held h₀), Except.mapM_of_ok _ fun k hk => ?_, ?_⟩
    · obtain ⟨k, mem, rfl⟩ := r.entry hk
      exact (t.held_eq wf mem).1
    · rw [← List.flatMap_def]
      exact r.decrements_perm t wf

end

/-- At every point after a collection the entries are exact, however many turns there were, and what
they do not cover is as it was. -/
theorem logging_coalesces {settings : Settings} {h h₀ h' : Heap} {ms ms₀ ms' : List Mutator}
    {kind : CollectionKind} (run : Run settings h ms)
    (done : Collects kind ms h ms₀ h₀) (turns : Turns h₀ ms₀ h' ms') :
    Coalesced h₀ h' ms' := by
  obtain ⟨e, r⟩ := run.ready
  obtain ⟨c, r₀⟩ := r.collected done
  obtain ⟨d, r', t⟩ := r₀.turns turns
  exact r'.coalesced t r₀.ledger.wellFormed fun _ hx => c.exact.stale_of_known hx

/-- The parent that was overwritten has an entry, and the child that it held a decrement. -/
theorem logging_coalesces_parent : ∃ h ms h₀ m₀ h' m', Run {} h ms ∧
    HeapM.collect .increment ms h = .ok [m₀] h₀ ∧ Turns h₀ [m₀] h' [m'] ∧
    h'.loggedObjects [m'] = [.parent] ∧ h'.owedDecrements [m'] = [.child] ∧
    Coalesced h₀ h' [m'] := by
  obtain ⟨h, ms, h₀, m₀, h', m', run, done, turn, -, -, logged, owed⟩ := Run.parent_child
  have turns : Turns h₀ [m₀] h' [m'] := .turn .none turn
  exact ⟨h, ms, h₀, m₀, h', m', run, done, turns, logged, owed,
    logging_coalesces run (.of_collect done) turns⟩

end DeferredCount
