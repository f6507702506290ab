import DeferredCount.Proofs.Creating
import DeferredCount.Proofs.Elapsing

/-!
# The books after an allocation

A new object has no references and nothing refers to it, so an allocation only adds what its count
of one stands for: a counted object comes with a decrement. An object that counts as written comes
with an entry as well.

Results:
1. `Ledger.created`: an allocation keeps the books.
2. `Ledger.unsettled`: so does one that finds the memory exhausted.
3. `Elapsed.of_created`: an allocation is a stretch of time that adds the entries of the new object.
-/

namespace DeferredCount

namespace ObjectView

variable {slots : Nat} {array logged : Bool}

theorem references_ofNew (o : Ref) : (ofNew slots array logged).references o = 0 := by
  refine List.count_eq_zero.2 fun ho => ?_
  cases (List.mem_replicate.1 ho).2

theorem referents_ofNew : (ofNew slots array logged).referents = [] :=
  List.eq_nil_iff_forall_not_mem.2 fun o ho => by
    have := references_pos.2 (mem_referents.1 ho)
    rw [references_ofNew] at this
    cases this

theorem isMarked_ofNew (i : Nat) : (ofNew slots array logged).isMarked i = false := by
  simp only [isMarked, ofNew, blank, List.getD_eq_getElem?_getD, List.getElem?_replicate]
  split <;> rfl

end ObjectView

variable {h h' : Heap} {e : Entries} {o : Ref} {slots : Nat} {array logged counted : Bool}
  {as : List Allocators}

namespace Created

theorem mem_objects (x : Ref) : x ∈ (Entries.ofNew o counted logged).objects ↔
    x = o ∧ logged = true := by
  cases logged <;> simp [Entries.ofNew]

theorem mem_decrements (x : Ref) : x ∈ (Entries.ofNew o counted logged).decrements ↔
    x = o ∧ counted = true := by
  cases counted <;> simp [Entries.ofNew]

theorem mem_union (d : Created h o (.ofNew slots array logged) counted as h') :
    h'.counted ∪ h'.permanents = insert o (h.counted ∪ h.permanents) := by
  ext x
  rw [Heap.mem_union_permanents, d.known_eq, Finset.mem_insert, Heap.mem_union_permanents]
  exact Set.mem_insert_iff

/-- Nobody counts what a new object refers to. -/
theorem owed_eq (d : Created h o (.ofNew slots array logged) counted as h') (x : Ref) :
    h'.owed (h'.counted ∪ h'.permanents) x = h.owed (h.counted ∪ h.permanents) x := by
  have absent : o ∉ h.counted ∪ h.permanents := fun ho =>
    d.absent (Heap.mem_union_permanents.1 ho)
  have none : (h'.view o).owes x = 0 := by
    rw [d.self, ObjectView.owes, ObjectView.references_ofNew, ite_self]
  rw [d.mem_union, Heap.owed_insert absent, none, Nat.zero_add]
  exact Heap.owed_congr (fun y hy => by
    rw [d.other y (Heap.mem_union_permanents.1 hy)]
    exact ⟨rfl, rfl⟩) x

/-- The entries of a new object cover no reference. -/
theorem covered_eq (d : Created h o (.ofNew slots array logged) counted as h') (l : Ledger h e)
    (x : Ref) : h'.covered (e ++ .ofNew o counted logged).objects
      (e ++ .ofNew o counted logged).fields x = h.covered e.objects e.fields x := by
  have old : h'.covered e.objects e.fields x = h.covered e.objects e.fields x :=
    Heap.covered_congr (fun y hy => by rw [d.other y (l.objects_known y hy)])
      (fun k hk => by rw [d.other _ (l.fields_known k hk)]) x
  have new : h'.covered (Entries.ofNew o counted logged).objects [] x = 0 := by
    cases logged
    · rfl
    · simp [Heap.covered, Entries.ofNew, d.self, ObjectView.references_ofNew]
  rw [Entries.objects_append, Entries.fields_append, Heap.covered_append, old]
  exact congrArg _ new

end Created

/-- A new object agrees with its entries. -/
theorem ObjectView.Agrees.ofNew (fresh : logged = false → counted = true) (s : Settings)
    (objects : o ∉ e.objects) (fields : ∀ k ∈ e.fields, k.object ≠ o) :
    (ObjectView.ofNew slots array logged).Agrees s (e ++ .ofNew o counted logged) o where
  unmarked := rfl
  unlocked := rfl
  logged := by
    rw [Entries.objects_append, List.mem_append, Created.mem_objects]
    exact ⟨fun ho => (ho.resolve_left objects).2, fun logged => .inr ⟨rfl, logged⟩⟩
  marks i := by
    rw [isMarked_ofNew]
    refine ⟨fun h => absurd h (by simp), ?_⟩
    rintro ⟨k, hk, eq, -⟩
    rw [Entries.fields_append] at hk
    exact absurd eq (fields k ((List.mem_append.1 hk).resolve_right List.not_mem_nil))
  fields k hk eq := by
    rw [Entries.fields_append] at hk
    exact absurd eq (fields k ((List.mem_append.1 hk).resolve_right List.not_mem_nil))
  fresh f := by
    have unlogged : logged = false := by simpa [ObjectView.ofNew, Header.ofNew] using f
    refine ⟨unlogged, rfl, List.mem_append_right _ ?_⟩
    exact (Created.mem_decrements o).2 ⟨rfl, fresh unlogged⟩

namespace Ledger

/-- Nothing refers to what is not an object. -/
theorem references_eq_zero (l : Ledger h e) (absent : o ∉ h.known) {x : Ref} (hx : x ∈ h.known) :
    (h.view x).references o = 0 := by
  refine Nat.eq_zero_of_not_pos fun pos => absent ?_
  exact l.slots_known x hx o (ObjectView.mem_referents.2 (ObjectView.references_pos.1 pos))

theorem covered_absent (l : Ledger h e) (absent : o ∉ h.known) :
    h.covered e.objects e.fields o = 0 := by
  have objects : ∀ n ∈ e.objects.map fun x => (h.view x).references o, n = 0 := fun n hn => by
    obtain ⟨x, hx, rfl⟩ := List.mem_map.1 hn
    exact l.references_eq_zero absent (l.objects_known x hx)
  have fields : ∀ n ∈ e.fields.map fun k => k.references h o, n = 0 := fun n hn => by
    obtain ⟨k, hk, rfl⟩ := List.mem_map.1 hn
    rw [← Ticket.count_referents]
    exact List.count_eq_zero.2 fun ho =>
      absent (l.slots_known _ (l.fields_known k hk) o (Ticket.mem_referents ho))
  rw [Heap.covered, List.sum_eq_zero objects, List.sum_eq_zero fields, Nat.add_zero]

/-- No permanent object is fresh. -/
theorem created_permanent (l : Ledger h e)
    (d : Created h o (.ofNew slots array logged) counted as h')
    (fresh : logged = false → counted = true)
    {x : Ref} (hx : x ∈ h'.permanent.objects) : (h'.view x).header.fresh = false := by
  have old : x ∈ h.permanent.objects → (h'.view x).header.fresh = false := fun hx => by
    rw [d.other x (.inr hx)]
    exact l.permanent x hx
  rw [d.permanent] at hx
  split at hx
  · exact old hx
  · next uncounted =>
    rcases Array.mem_push.1 hx with hx | rfl
    · exact old hx
    · have logged : logged = true := by
        by_contra unlogged
        exact uncounted (fresh (by simpa using unlogged))
      rw [d.self]
      simp [ObjectView.ofNew, Header.ofNew, logged]

/-- A new object is counted once, for the decrement that comes with it. -/
theorem created_balance (l : Ledger h e)
    (d : Created h o (.ofNew slots array logged) counted as h') {x : Ref} (hx : x ∈ h'.counted)
    (ns : h'.count x ≠ Header.stuck) :
    h'.count x + h'.covered (e ++ .ofNew o counted logged).objects
        (e ++ .ofNew o counted logged).fields x =
      h'.owed (h'.counted ∪ h'.permanents) x + (e ++ .ofNew o counted logged).decrements.count x +
        h'.oldRoots.count x := by
  have oldRoots : h'.oldRoots = h.oldRoots := by rw [d.rest]
  -- apart from the new object, both sides are what they were
  rw [d.covered_eq l, d.owed_eq, oldRoots, Entries.decrements_append, List.count_append]
  by_cases eq : x = o
  · -- nothing refers to the object yet
    subst eq
    have owed : h.owed (h.counted ∪ h.permanents) x = 0 := Finset.sum_eq_zero fun y hy => by
      have := l.references_eq_zero d.absent (Heap.mem_union_permanents.1 hy)
      rw [ObjectView.owes, this, ite_self]
    have count : h'.count x = 1 := congrArg (fun v => v.header.count) d.self
    have mine : (Entries.ofNew x counted logged).decrements = [x] := by
      have := d.counted
      cases counted
      · rw [this] at hx
        exact absurd (.inl hx) d.absent
      · rfl
    rw [count, l.covered_absent d.absent, owed, mine,
      List.count_eq_zero.2 fun hd => d.absent (l.decrements_known x hd),
      List.count_eq_zero.2 fun hr => d.absent (l.roots_known x hr), List.count_singleton_self]
  · have hx : x ∈ h.counted := by
      rw [d.counted] at hx
      split at hx
      · exact (Finset.mem_insert.1 hx).resolve_left eq
      · exact hx
    have count : h'.count x = h.count x :=
      congrArg (fun v => v.header.count) (d.other x (.inl hx))
    have none : (Entries.ofNew o counted logged).decrements.count x = 0 :=
      List.count_eq_zero.2 fun hd => eq ((Created.mem_decrements x).1 hd).1
    rw [count, none, Nat.add_zero]
    exact l.balance x hx (count ▸ ns)

theorem created (l : Ledger h e) (d : Created h o (.ofNew slots array logged) counted as h')
    (fresh : logged = false → counted = true) : Ledger h' (e ++ .ofNew o counted logged) := by
  have known := d.known_eq
  have settings := d.settings_eq
  have oldRoots : h'.oldRoots = h.oldRoots := by rw [d.rest]
  have noObject : o ∉ e.objects := fun ho => d.absent (l.objects_known o ho)
  have noField : ∀ k ∈ e.fields, k.object ≠ o := fun k hk eq =>
    d.absent (eq ▸ l.fields_known k hk)
  have weaken : ∀ {x}, x ∈ h.known → x ∈ h'.known := fun hx =>
    known ▸ Set.mem_insert_of_mem _ hx
  have here : o ∈ h'.known := known ▸ Set.mem_insert ..
  have ne : ∀ {x}, x ∈ h.known → x ≠ o := fun hx eq => d.absent (eq ▸ hx)
  exact {
    wellFormed := d.wellFormed
    once := by
      rw [Heap.RegisteredOnce, d.permanent]
      split
      · exact l.once
      · rw [Array.toList_push]
        refine List.nodup_append.2 ⟨l.once, List.nodup_singleton o, ?_⟩
        rintro x hx y hy rfl
        cases List.mem_singleton.1 hy
        exact d.absent (.inr (Array.mem_def.2 hx))
    slots_known := fun x hx p hp => by
      rw [known] at hx
      rcases hx with rfl | hx
      · rw [d.self, ObjectView.referents_ofNew] at hp
        cases hp
      · rw [d.other x hx] at hp
        exact weaken (l.slots_known x hx p hp)
    agrees := fun x hx => by
      rw [known] at hx
      rw [settings]
      rcases hx with rfl | hx
      · rw [d.self]
        exact .ofNew fresh _ noObject noField
      · rw [d.other x hx]
        exact (l.agrees x hx).append (fun ho => ne hx ((Created.mem_objects x).1 ho).1)
          fun k hk => absurd hk List.not_mem_nil
    permanent := fun x hx => l.created_permanent d fresh hx
    objects_known := fun x hx => by
      rcases List.mem_append.1 hx with hx | hx
      · exact weaken (l.objects_known x hx)
      · exact ((Created.mem_objects x).1 hx).1 ▸ here
    objects_nodup := by
      refine List.nodup_append.2 ⟨l.objects_nodup, ?_, ?_⟩
      · cases logged <;> simp [Entries.ofNew]
      · rintro x hx y hy rfl
        exact noObject (((Created.mem_objects x).1 hy).1 ▸ hx)
    fields_known := fun k hk => by
      rw [Entries.fields_append] at hk
      exact weaken (l.fields_known k ((List.mem_append.1 hk).resolve_right List.not_mem_nil))
    fields_nodup := by
      rw [Entries.fields_append, show (Entries.ofNew o counted logged).fields = [] from rfl,
        List.append_nil]
      exact l.fields_nodup
    decrements_known := fun x hx => by
      rcases List.mem_append.1 hx with hx | hx
      · exact weaken (l.decrements_known x hx)
      · exact ((Created.mem_decrements x).1 hx).1 ▸ here
    roots_known := fun x hx => weaken (l.roots_known x (oldRoots ▸ hx))
    balance := fun x hx ns => l.created_balance d hx ns }

/-- Where the spaces keep their free memory does not matter. -/
theorem respace (l : Ledger h e) (wellFormed : h'.WellFormed) (memory : h'.memory = h.memory)
    (settings : h'.settings = h.settings) (oldRoots : h'.oldRoots = h.oldRoots)
    (counted : h'.counted = h.counted)
    (permanent : h'.permanent.objects = h.permanent.objects) : Ledger h' e := by
  have known : h'.known = h.known := by rw [Heap.known, Heap.known, counted, permanent]
  have view : ∀ x, h'.view x = h.view x := fun x => by rw [Heap.view, Heap.view, memory]
  exact {
    wellFormed
    once := by
      rw [Heap.RegisteredOnce, permanent]
      exact l.once
    slots_known := fun x hx => by
      rw [view, known]
      exact l.slots_known x (known ▸ hx)
    agrees := fun x hx => by
      rw [view, settings]
      exact l.agrees x (known ▸ hx)
    permanent := fun x hx => by
      rw [view]
      exact l.permanent x (permanent ▸ hx)
    objects_known := known ▸ l.objects_known
    objects_nodup := l.objects_nodup
    fields_known := known ▸ l.fields_known
    fields_nodup := l.fields_nodup
    decrements_known := known ▸ l.decrements_known
    roots_known := by
      rw [known, oldRoots]
      exact l.roots_known
    balance := fun x hx ns => by
      have count : h'.count x = h.count x := congrArg (fun v => v.header.count) (view x)
      have owed : h'.owed (h'.counted ∪ h'.permanents) x = h.owed (h.counted ∪ h.permanents) x := by
        rw [Heap.permanents, counted, permanent]
        exact Heap.owed_congr (fun y _ => by
          rw [view]
          exact ⟨rfl, rfl⟩) x
      have covered : h'.covered e.objects e.fields x = h.covered e.objects e.fields x :=
        Heap.covered_congr (fun y _ => by rw [view]) (fun k _ => by rw [view]) x
      rw [count] at ns ⊢
      rw [covered, owed, oldRoots]
      exact l.balance x (counted ▸ hx) ns }

theorem unsettled (l : Ledger h e) (u : Unsettled h as h') : Ledger h' e :=
  l.respace u.wellFormed (by rw [u.rest]) (by rw [u.rest]) (by rw [u.rest]) u.counted u.permanent

end Ledger

/-- An allocation adds the entries of the new object. -/
theorem Elapsed.of_created (l : Ledger h e)
    (d : Created h o (.ofNew slots array logged) counted as h')
    (fresh : logged = false → counted = true) : Elapsed h e (.ofNew o counted logged) h' where
  ledger := l.created d fresh
  known := by
    rw [d.known_eq]
    exact Set.subset_insert ..
  counted x hx := by
    rw [d.counted]
    split
    · rw [Finset.mem_insert]
      exact or_iff_right fun eq => d.absent (eq ▸ hx)
    · exact Iff.rfl
  born x hx new := by
    rw [d.known_eq] at hx
    obtain rfl := hx.resolve_right new
    rw [d.self]
    cases logged <;> simp [ObjectView.ofNew, Header.ofNew]
  later x hx := by
    rw [d.other x hx]
    exact .refl _
  kept x hx i _ := by rw [d.other x hx]
  pending x := by
    have old : (Entries.ofNew o counted logged).objects.filter (· ∈ h.known) = [] :=
      List.filter_eq_nil_iff.2 fun y hy known =>
        d.absent (((Created.mem_objects y).1 hy).1 ▸ of_decide_eq_true known)
    have new : x ∈ h'.counted ∧ x ∉ h.known ↔ x = o ∧ counted = true := by
      rw [d.counted]
      cases counted
      · constructor
        · rintro ⟨hx, new⟩
          exact absurd (.inl hx) new
        · rintro ⟨-, ⟨⟩⟩
      · rw [if_pos rfl, Finset.mem_insert]
        constructor
        · rintro ⟨hx, new⟩
          exact ⟨hx.resolve_right fun hx => new (.inl hx), rfl⟩
        · rintro ⟨rfl, -⟩
          exact ⟨.inl rfl, d.absent⟩
    have none : h.covered [] (Entries.ofNew o counted logged).fields x = 0 := rfl
    rw [old, none, Nat.zero_add]
    simp only [new]
    cases counted
    · simp [Entries.ofNew]
    · simp only [Entries.ofNew, if_true, and_true, List.count_singleton, beq_iff_eq, @eq_comm _ o]

end DeferredCount
