import DeferredCount.Proofs.Decrements
import DeferredCount.Proofs.Processing
import DeferredCount.Proofs.Recounting

/-!
# The books between two increments

Between two increments the counts lag behind the slots. `Ledger` says how: a count, together with
the references in slots that were logged, is the number of references that are counted, with one
more for every pending decrement and every root of the last increment. It also says which entries
stand for which logged bits and marks, so that a slot is covered by at most one entry.

Results:
1. `Ledger.logObject`, `Ledger.logField`: logging keeps the books.
2. `Ledger.store`: a store to a slot that is covered, or of a fresh object, keeps the books.
-/

namespace DeferredCount

/-- What the buffers and pools hold between two increments. -/
@[ext]
structure Entries where
  objects : List Ref := []
  fields : List Ticket := []
  decrements : List Ref := []

namespace Entries

instance : Append Entries where
  append e d := ⟨e.objects ++ d.objects, e.fields ++ d.fields, e.decrements ++ d.decrements⟩

@[simp] theorem objects_append (e d : Entries) : (e ++ d).objects = e.objects ++ d.objects := rfl

@[simp] theorem fields_append (e d : Entries) : (e ++ d).fields = e.fields ++ d.fields := rfl

@[simp] theorem decrements_append (e d : Entries) :
    (e ++ d).decrements = e.decrements ++ d.decrements := rfl

@[simp] theorem append_none (e : Entries) : e ++ ({} : Entries) = e := by
  ext1 <;> simp

@[simp] theorem none_append (e : Entries) : ({} : Entries) ++ e = e := rfl

theorem append_assoc (e d c : Entries) : e ++ d ++ c = e ++ (d ++ c) := by
  ext1 <;> simp

end Entries

/-! ## How finely stores are logged -/

namespace Settings

/-- How many adjacent fields of an object share a mark. -/
def span (s : Settings) (v : ObjectView) : Nat := if v.array then 1 <<< s.logArrayQuantum else 1

/-- Are stores to an object logged field by field? -/
def byField (s : Settings) (v : ObjectView) : Bool :=
  if v.array then s.arrayFields && decide (s.arrayThreshold ≤ v.targets.length) else s.scalarFields

theorem span_pos (s : Settings) (v : ObjectView) : 0 < s.span v := by
  unfold span
  split
  · rw [Nat.one_shiftLeft]
    exact Nat.two_pow_pos _
  · exact Nat.one_pos

end Settings

/-- A field entry covers what its mark stands for: the fields of an object up to the next mark. -/
structure Ticket.Regular (k : Ticket) (s : Settings) (v : ObjectView) : Prop where
  byField : s.byField v = true
  first_lt : k.first < v.targets.length
  aligned : s.span v ∣ k.first
  length : k.length = min (s.span v) (v.targets.length - k.first)
  mark : k.mark = k.object.addr + (2 + v.targets.length + k.first) * bytesPerWord
  slots : k.covered.slots =
    .ok ((List.range k.length).map fun j => k.object.slotAddr (k.first + j))

/-- Is field `i` among those that the entry covers? -/
def Ticket.Covers (k : Ticket) (i : Nat) : Prop := k.first ≤ i ∧ i < k.first + k.length

namespace Ticket.Regular

variable {k k' : Ticket} {s : Settings} {v w : ObjectView} {i : Nat}

theorem fits (r : k.Regular s v) : k.first + k.length ≤ v.targets.length := by
  have := r.first_lt
  have := r.length
  omega

/-- An entry covers the fields that share its mark. -/
theorem covers_iff (r : k.Regular s v) (hi : i < v.targets.length) :
    k.Covers i ↔ k.first = i - i % s.span v := by
  have pos := s.span_pos v
  obtain ⟨q, hq⟩ := r.aligned
  have hl := r.length
  have hm := Nat.mod_lt i pos
  have hd := Nat.div_add_mod i (s.span v)
  have first : i - i % s.span v = s.span v * (i / s.span v) := by omega
  rw [Covers, first, hq]
  rw [hq] at hl
  constructor
  · rintro ⟨h₁, h₂⟩
    have : q = i / s.span v := by
      refine ((Nat.div_eq_iff pos).2 ⟨?_, ?_⟩).symm
      · rw [Nat.mul_comm]
        exact h₁
      · rw [Nat.mul_comm q]
        omega
    rw [this]
  · intro e
    rw [e] at hl ⊢
    omega

theorem valid {h : Heap} (r : k.Regular s (h.view k.object)) (known : k.object ∈ h.known) :
    k.Valid h := by
  have length : (h.view k.object).targets.length = h.memory.length k.object :=
    Memory.length_targets ..
  exact ⟨known, length ▸ r.first_lt, length ▸ r.fits, by rw [r.mark, length, Memory.markAddr],
    r.slots⟩

/-- No field is covered by two entries of an object. -/
theorem first_eq (r : k.Regular s v) (r' : k'.Regular s v) (c : k.Covers i) (c' : k'.Covers i) :
    k.first = k'.first := by
  have hi : i < v.targets.length := Nat.lt_of_lt_of_le c.2 r.fits
  rw [(r.covers_iff hi).1 c, (r'.covers_iff hi).1 c']

theorem congr (r : k.Regular s v) (array : w.array = v.array)
    (length : w.targets.length = v.targets.length) : k.Regular s w := by
  have span : s.span w = s.span v := by simp only [Settings.span, array]
  exact {
    byField := by
      rw [← r.byField]
      simp only [Settings.byField, array, length]
    first_lt := length ▸ r.first_lt
    aligned := span ▸ r.aligned
    length := by rw [span, length, r.length]
    mark := by rw [length, r.mark]
    slots := r.slots }

end Ticket.Regular

/-! ## The books -/

/-- The view of an object is as the entries say. -/
structure ObjectView.Agrees (v : ObjectView) (s : Settings) (e : Entries) (x : Ref) : Prop where
  unmarked : v.header.marked = false
  unlocked : v.header.locked = false
  logged : x ∈ e.objects ↔ v.header.logged = true
  marks : ∀ i, v.isMarked i = true ↔ ∃ k ∈ e.fields, k.object = x ∧ k.first = i
  fields : ∀ k ∈ e.fields, k.object = x →
    k.Regular s v ∧ v.header.logged = false ∧ v.header.fresh = false
  fresh : v.header.fresh = true →
    v.header.logged = false ∧ v.header.count = 1 ∧ x ∈ e.decrements

/-- The books of a heap between two increments, where `e` are the entries. -/
structure Ledger (h : Heap) (e : Entries) : Prop where
  wellFormed : h.WellFormed
  once : h.RegisteredOnce
  slots_known : ∀ x ∈ h.known, ∀ o ∈ (h.view x).referents, o ∈ h.known
  agrees : ∀ x ∈ h.known, (h.view x).Agrees h.settings e x
  permanent : ∀ x ∈ h.permanent.objects, (h.view x).header.fresh = false
  objects_known : ∀ x ∈ e.objects, x ∈ h.known
  objects_nodup : e.objects.Nodup
  fields_known : ∀ k ∈ e.fields, k.object ∈ h.known
  fields_nodup : (e.fields.map fun k => (k.object, k.first)).Nodup
  decrements_known : ∀ x ∈ e.decrements, x ∈ h.known
  roots_known : ∀ x ∈ h.oldRoots, x ∈ h.known
  balance : ∀ o ∈ h.counted, h.count o ≠ Header.stuck →
    h.count o + h.covered e.objects e.fields o =
      h.owed (h.counted ∪ h.permanents) o + e.decrements.count o + h.oldRoots.count o

/-- The part of a heap that the books are about. -/
def Heap.core (h : Heap) : Heap :=
  { h with pools := {}, newRoots := [], progress := {}, stats := default, client := {}, log := [] }

theorem Heap.mem_union_permanents {h : Heap} {x : Ref} :
    x ∈ h.counted ∪ h.permanents ↔ x ∈ h.known := by
  rw [Finset.mem_union, mem_permanents]
  rfl

namespace Ledger

variable {h h' : Heap} {e d : Entries} {x : Ref} {k : Ticket}

theorem valid (l : Ledger h e) (hk : k ∈ e.fields) : k.Valid h := by
  have known := l.fields_known k hk
  exact ((l.agrees _ known).fields k hk rfl).1.valid known

theorem congr (l : Ledger h e) (core : h'.core = h.core) : Ledger h' e := by
  have settings : h'.settings = h.settings := by
    have := congrArg Heap.settings core
    exact this
  have memory : h'.memory = h.memory := by
    have := congrArg Heap.memory core
    exact this
  have small : h'.small = h.small := by
    have := congrArg Heap.small core
    exact this
  have large : h'.large = h.large := by
    have := congrArg Heap.large core
    exact this
  have permanent : h'.permanent = h.permanent := by
    have := congrArg Heap.permanent core
    exact this
  have oldRoots : h'.oldRoots = h.oldRoots := by
    have := congrArg Heap.oldRoots core
    exact this
  have wf := l.wellFormed.congr small large permanent (memory ▸ l.wellFormed.laid)
  obtain ⟨_, _, _, _, _, _, _, _, _, _, _, _⟩ := h'
  dsimp only at settings memory small large permanent oldRoots
  subst settings memory small large permanent oldRoots
  exact { l with wellFormed := wf }

end Ledger

/-! ## Logging -/

theorem Heap.covered_append (h : Heap) (objs objs' : List Ref) (fields fields' : List Ticket)
    (o : Ref) : h.covered (objs ++ objs') (fields ++ fields') o =
      h.covered objs fields o + h.covered objs' fields' o := by
  simp only [covered, List.map_append, List.sum_append]
  omega

/-- The references in covered slots are those of the slots. -/
theorem Heap.covered_congr {h h' : Heap} {objs : List Ref} {fields : List Ticket}
    (objects : ∀ x ∈ objs, (h'.view x).targets = (h.view x).targets)
    (tickets : ∀ k ∈ fields, (h'.view k.object).targets = (h.view k.object).targets) (o : Ref) :
    h'.covered objs fields o = h.covered objs fields o := by
  have h₁ : objs.map (fun x => (h'.view x).references o) =
      objs.map fun x => (h.view x).references o :=
    List.map_congr_left fun x hx => by rw [ObjectView.references, objects x hx]; rfl
  have h₂ : fields.map (fun k => k.references h' o) = fields.map fun k => k.references h o :=
    List.map_congr_left fun k hk => by
      rw [Ticket.references, Ticket.targets, ObjectView.range, tickets k hk]
      rfl
  rw [covered, covered, h₁, h₂]

theorem Heap.owed_congr {h h' : Heap} {S : Finset Ref}
    (same : ∀ x ∈ S, (h'.view x).targets = (h.view x).targets ∧
      (h'.view x).header.fresh = (h.view x).header.fresh) (o : Ref) :
    h'.owed S o = h.owed S o :=
  Finset.sum_congr rfl fun x hx => by
    rw [ObjectView.owes, ObjectView.owes, ObjectView.references, ObjectView.references,
      (same x hx).1, (same x hx).2]

/-- No entry speaks of a fresh object. -/
theorem ObjectView.Agrees.of_fresh {v : ObjectView} {s : Settings} {e : Entries} {x : Ref}
    (a : v.Agrees s e x) (fresh : v.header.fresh = true) :
    x ∉ e.objects ∧ ∀ k ∈ e.fields, k.object ≠ x := by
  refine ⟨fun hx => ?_, fun k hk eq => ?_⟩
  · have logged := a.logged.1 hx
    rw [(a.fresh fresh).1] at logged
    cases logged
  · have stale := (a.fields k hk eq).2.2
    rw [fresh] at stale
    cases stale

/-- A logged object is not fresh, and none of its fields has an entry. -/
theorem ObjectView.Agrees.of_logged {v : ObjectView} {s : Settings} {e : Entries} {x : Ref}
    (a : v.Agrees s e x) (logged : v.header.logged = true) :
    v.header.fresh = false ∧ ∀ k ∈ e.fields, k.object ≠ x := by
  refine ⟨Bool.eq_false_iff.2 fun fresh => ?_, fun k hk eq => ?_⟩
  · rw [(a.fresh fresh).1] at logged
    cases logged
  · have unlogged := (a.fields k hk eq).2.1
    rw [logged] at unlogged
    cases unlogged

/-- Only entries of other objects are new. -/
theorem ObjectView.Agrees.append {v : ObjectView} {s : Settings} {e d : Entries} {x : Ref}
    (a : v.Agrees s e x) (objects : x ∉ d.objects) (fields : ∀ k ∈ d.fields, k.object ≠ x) :
    v.Agrees s (e ++ d) x where
  unmarked := a.unmarked
  unlocked := a.unlocked
  logged := by
    rw [← a.logged, Entries.objects_append, List.mem_append]
    exact or_iff_left objects
  marks i := by
    rw [a.marks, Entries.fields_append]
    refine exists_congr fun k => and_congr_left fun e => ?_
    rw [List.mem_append]
    exact (or_iff_left fun hk => fields k hk e.1).symm
  fields k hk e := by
    rw [Entries.fields_append, List.mem_append] at hk
    exact a.fields k (hk.resolve_right fun hk => fields k hk e) e
  fresh f := by
    obtain ⟨h₁, h₂, h₃⟩ := a.fresh f
    exact ⟨h₁, h₂, List.mem_append_left _ h₃⟩

namespace Ledger

variable {h h' : Heap} {e d : Entries} {x : Ref} {v : ObjectView} {k : Ticket}

/-- The header or a mark of one object changes, and what the new entries cover is pending. -/
theorem log (l : Ledger h e) (s : Edited x v h h') (hx : x ∈ h.known)
    (targets : v.targets = (h.view x).targets) (fresh : v.header.fresh = (h.view x).header.fresh)
    (count : v.header.count = (h.view x).header.count)
    (agrees : v.Agrees h.settings (e ++ d) x) (objects : ∀ y ∈ d.objects, y = x)
    (fields : ∀ k ∈ d.fields, k.object = x) (objects_nodup : (e ++ d).objects.Nodup)
    (fields_nodup : ((e ++ d).fields.map fun k => (k.object, k.first)).Nodup)
    (decrements : ∀ o ∈ d.decrements, o ∈ h.known)
    (pending : ∀ o, h.covered d.objects d.fields o = d.decrements.count o) :
    Ledger h' (e ++ d) := by
  have known := s.known_eq
  have settings : h'.settings = h.settings := by rw [s.rest]
  have permanent : h'.permanent = h.permanent := by rw [s.rest]
  have oldRoots : h'.oldRoots = h.oldRoots := by rw [s.rest]
  -- marks and log bits aside, no view changes
  have same : ∀ y ∈ h.known, (h'.view y).targets = (h.view y).targets ∧
      (h'.view y).header.fresh = (h.view y).header.fresh ∧
      (h'.view y).header.count = (h.view y).header.count :=
    s.forall_view (P := fun y w => w.targets = (h.view y).targets ∧
      w.header.fresh = (h.view y).header.fresh ∧ w.header.count = (h.view y).header.count)
      (fun _ _ _ => ⟨rfl, rfl, rfl⟩) ⟨targets, fresh, count⟩
  have objects_known : ∀ y ∈ (e ++ d).objects, y ∈ h.known := fun y hy => by
    rcases List.mem_append.1 hy with hy | hy
    · exact l.objects_known y hy
    · rw [objects y hy]
      exact hx
  have fields_known : ∀ k ∈ (e ++ d).fields, k.object ∈ h.known := fun k hk => by
    rcases List.mem_append.1 hk with hk | hk
    · exact l.fields_known k hk
    · rw [fields k hk]
      exact hx
  exact {
    wellFormed := s.wellFormed l.wellFormed
    once := by
      rw [Heap.RegisteredOnce, permanent]
      exact l.once
    slots_known := fun y hy o ho => by
      rw [known] at hy ⊢
      refine l.slots_known y hy o ?_
      rwa [ObjectView.referents, (same y hy).1] at ho
    agrees := fun y hy => by
      rw [known] at hy
      rw [settings]
      exact s.forall_view (P := fun y w => w.Agrees h.settings (e ++ d) y)
        (fun y hy ne => (l.agrees y hy).append (fun m => ne (objects y m))
          fun k hk eq => ne (eq.symm.trans (fields k hk))) agrees y hy
    permanent := fun y hy => by
      rw [permanent] at hy
      rw [(same y (.inr hy)).2.1]
      exact l.permanent y hy
    objects_known := known ▸ objects_known
    objects_nodup
    fields_known := known ▸ fields_known
    fields_nodup
    decrements_known := fun y hy => by
      rw [known]
      rcases List.mem_append.1 hy with hy | hy
      · exact l.decrements_known y hy
      · exact decrements y hy
    roots_known := by
      rw [known, oldRoots]
      exact l.roots_known
    balance := fun o ho ns => by
      rw [s.counted_eq] at ho ⊢
      have count : h'.count o = h.count o := (same o (.inl ho)).2.2
      rw [count] at ns ⊢
      have owed : h'.owed (h.counted ∪ h'.permanents) o = h.owed (h.counted ∪ h.permanents) o := by
        rw [Heap.permanents, permanent]
        exact Heap.owed_congr (fun y hy =>
          have := same y (Heap.mem_union_permanents.1 hy)
          ⟨this.1, this.2.1⟩) o
      have covered := Heap.covered_congr
        (show ∀ y ∈ (e ++ d).objects, (h'.view y).targets = (h.view y).targets from
          fun y hy => (same y (objects_known y hy)).1)
        (fun k hk => (same _ (fields_known k hk)).1) o
      have old := l.balance o ho ns
      have new := pending o
      rw [owed, covered, Entries.objects_append, Entries.fields_append, Heap.covered_append,
        Entries.decrements_append, List.count_append, oldRoots]
      omega }

/-- An object is logged as a whole. -/
theorem logObject (l : Ledger h e) (hx : x ∈ h.known)
    (s : HeaderSet x { (h.view x).header with logged := true } h h')
    (required : (h.view x).header.logRequired = true)
    (whole : h.settings.byField (h.view x) = false) :
    Ledger h' (e ++ { objects := [x], decrements := (h.view x).referents }) := by
  have a := l.agrees x hx
  simp only [Header.logRequired, Bool.and_eq_true, Bool.not_eq_true'] at required
  have noFields : ∀ k ∈ e.fields, k.object ≠ x := fun k hk eq => by
    have := (a.fields k hk eq).1.byField
    rw [whole] at this
    cases this
  have unlogged : x ∉ e.objects := fun m => by
    have := a.logged.1 m
    rw [required.1] at this
    cases this
  refine l.log s hx rfl rfl rfl ?_ ?_ (by simp) ?_ ?_ (l.slots_known x hx) fun o => ?_
  · exact {
      unmarked := a.unmarked
      unlocked := a.unlocked
      logged := by simp
      marks := fun i => by
        simp only [Entries.fields_append, List.append_nil]
        exact a.marks i
      fields := fun k hk eq => by
        simp only [Entries.fields_append, List.append_nil] at hk
        exact absurd eq (noFields k hk)
      fresh := fun f => by
        rw [required.2] at f
        cases f }
  · exact fun y hy => List.mem_singleton.1 hy
  · refine List.nodup_append.2 ⟨l.objects_nodup, List.nodup_singleton x, ?_⟩
    rintro y hy z hz rfl
    rw [List.mem_singleton.1 hz] at hy
    exact unlogged hy
  · simp only [Entries.fields_append, List.append_nil]
    exact l.fields_nodup
  · simp [Heap.covered, ObjectView.count_referents]

/-- A field is logged. -/
theorem logField (l : Ledger h e) (hk : k.object ∈ h.known)
    (s : Edited k.object { h.view k.object with marks := (h.view k.object).marks.set k.first true }
      h h')
    (required : (h.view k.object).header.logRequired = true)
    (regular : k.Regular h.settings (h.view k.object))
    (unmarked : (h.view k.object).isMarked k.first = false) :
    Ledger h' (e ++ { fields := [k], decrements := k.referents h }) := by
  have a := l.agrees _ hk
  simp only [Header.logRequired, Bool.and_eq_true, Bool.not_eq_true'] at required
  have new : ∀ k' ∈ e.fields, k'.object = k.object → k'.first ≠ k.first := fun k' hk' eq eq' => by
    have := (a.marks k.first).2 ⟨k', hk', eq, eq'⟩
    rw [unmarked] at this
    cases this
  have hi : k.first < (h.view k.object).marks.length := by
    have := regular.first_lt
    rw [Heap.view, Memory.length_targets] at this
    rw [Heap.view, Memory.length_marks]
    exact this
  refine l.log s hk rfl rfl rfl ?_ (by simp) (by simp) ?_ ?_ ?_ fun o => ?_
  · exact {
      unmarked := a.unmarked
      unlocked := a.unlocked
      logged := by
        simp only [Entries.objects_append, List.append_nil]
        exact a.logged
      marks := fun i => by
        rw [ObjectView.isMarked_set _ hi]
        simp only [Entries.fields_append, List.mem_append, List.mem_singleton, or_and_right,
          exists_or, ← a.marks i]
        by_cases eq : i = k.first
        · simp [eq]
        · simp [eq, Ne.symm eq]
      fields := fun k' hk' eq => by
        rcases List.mem_append.1 hk' with hk' | hk'
        · obtain ⟨r, rest⟩ := a.fields k' hk' eq
          exact ⟨r.congr rfl rfl, rest⟩
        · rw [List.mem_singleton.1 hk']
          exact ⟨regular.congr rfl rfl, required⟩
      fresh := fun f => by
        rw [required.2] at f
        cases f }
  · simp only [Entries.objects_append, List.append_nil]
    exact l.objects_nodup
  · rw [Entries.fields_append, List.map_append]
    refine List.nodup_append.2 ⟨l.fields_nodup, List.nodup_singleton _, ?_⟩
    rintro _ h₁ _ h₂ rfl
    obtain ⟨k', hk', eq⟩ := List.mem_map.1 h₁
    simp only [List.map_cons, List.map_nil, List.mem_singleton] at h₂
    rw [h₂, Prod.mk.injEq] at eq
    exact new k' hk' eq.1 eq.2
  · exact fun o ho => l.slots_known _ hk o (Ticket.mem_referents ho)
  · simp [Heap.covered, Ticket.count_referents]

end Ledger

/-! ## Storing -/

namespace ObjectView

/-- What a store to a slot does to the references in some of the slots. -/
theorem count_set_add {targets : List (Option Ref)} {i : Nat} (hi : i < targets.length)
    (t : Option Ref) (o : Ref) :
    (targets.set i t).count (some o) + (if targets[i] = some o then 1 else 0) =
      targets.count (some o) + if t = some o then 1 else 0 := by
  have pos : targets[i] = some o → 0 < targets.count (some o) :=
    fun e => List.count_pos_iff.2 (e ▸ List.getElem_mem hi)
  rw [List.count_set hi]
  simp only [beq_iff_eq]
  split
  · next e =>
    have := pos e
    omega
  · omega

theorem range_set (v : ObjectView) (i : Nat) (t : Option Ref) (f n : Nat) :
    ({ v with targets := v.targets.set i t } : ObjectView).range f n =
      if i < f then v.range f n else (v.range f n).set (i - f) t := by
  simp only [range, List.drop_set]
  split
  · rfl
  · rw [List.take_set]

/-- A store to a slot changes what an entry covers if it covers the slot. -/
theorem count_range_set {v : ObjectView} {i : Nat} (hi : i < v.targets.length) (t : Option Ref)
    (o : Ref) {k : Ticket} (fits : k.first + k.length ≤ v.targets.length) :
    (k.Covers i → (({ v with targets := v.targets.set i t } : ObjectView).range
          k.first k.length).count (some o) + (if v.targets[i] = some o then 1 else 0) =
        (v.range k.first k.length).count (some o) + if t = some o then 1 else 0) ∧
      (¬ k.Covers i → (({ v with targets := v.targets.set i t } : ObjectView).range
          k.first k.length).count (some o) = (v.range k.first k.length).count (some o)) := by
  have length : (v.range k.first k.length).length = k.length := by
    simp only [range, List.length_take, List.length_drop]
    omega
  rw [range_set]
  constructor
  · rintro ⟨h₁, h₂⟩
    have hj : i - k.first < (v.range k.first k.length).length := by omega
    have element : (v.range k.first k.length)[i - k.first] = v.targets[i] := by
      simp only [range, List.getElem_take, List.getElem_drop]
      congr 1
      omega
    rw [if_neg (by omega), ← element]
    exact count_set_add hj t o
  · intro outside
    split
    · rfl
    · next le =>
      rw [List.set_eq_of_length_le]
      rw [length]
      have : ¬ i < k.first + k.length := fun lt => outside ⟨Nat.le_of_not_lt le, lt⟩
      omega

end ObjectView

/-- A slot of an object may be overwritten: the object is fresh, or an entry covers the slot. -/
def Heap.Open (h : Heap) (e : Entries) (x : Ref) (i : Nat) : Prop :=
  (h.view x).header.fresh = true ∨ (h.view x).header.logged = true ∨
    ∃ k ∈ e.fields, k.object = x ∧ k.Covers i

/-- A sum changes by what one of its terms changes. -/
theorem sum_map_change {α : Type} [DecidableEq α] {l : List α} {a : α} (ha : a ∈ l)
    (nodup : l.Nodup) {f g : α → Nat} (same : ∀ b ∈ l, b ≠ a → g b = f b) :
    (l.map g).sum + f a = (l.map f).sum + g a := by
  have rest : (l.erase a).map g = (l.erase a).map f := List.map_congr_left fun b hb => by
    obtain ⟨ne, hb⟩ := nodup.mem_erase_iff.1 hb
    exact same b hb ne
  have h₁ := List.sum_map_erase f ha
  have h₂ := List.sum_map_erase g ha
  rw [rest] at h₂
  omega

/-- The references that one object counted change, and no others. -/
theorem Edited.owed_add {x : Ref} {v : ObjectView} {h h' : Heap} (s : Edited x v h h')
    {S : Finset Ref} (sub : ∀ y ∈ S, y ∈ h.known) (hx : x ∈ S) (o : Ref) :
    h'.owed S o + (h.view x).owes o = h.owed S o + v.owes o := by
  have rest : ∑ y ∈ S.erase x, (h'.view y).owes o = ∑ y ∈ S.erase x, (h.view y).owes o :=
    Finset.sum_congr rfl fun y hy => by
      obtain ⟨ne, hy⟩ := Finset.mem_erase.1 hy
      rw [s.other y (sub y hy) ne]
  have h₁ := Finset.add_sum_erase S (fun y => (h.view y).owes o) hx
  have h₂ := Finset.add_sum_erase S (fun y => (h'.view y).owes o) hx
  rw [s.self, rest] at h₂
  simp only [Heap.owed]
  omega

namespace Ledger

variable {h h' : Heap} {e : Entries} {x : Ref} {i : Nat} {t : Option Ref} {k : Ticket}

/-- An entry of another object covers what it did before. -/
theorem references_other (l : Ledger h e) {v : ObjectView} (s : Edited x v h h') (hk : k ∈ e.fields)
    (ne : k.object ≠ x) (o : Ref) : k.references h' o = k.references h o := by
  rw [Ticket.references, Ticket.targets, ObjectView.range, s.other _ (l.fields_known k hk) ne]
  rfl

/-- A store to a slot changes what an entry of the object covers if it covers the slot. -/
theorem references_store (l : Ledger h e) (hk : k ∈ e.fields)
    (hi : i < (h.view k.object).targets.length)
    (s : Edited k.object { h.view k.object with targets := (h.view k.object).targets.set i t } h h')
    (o : Ref) :
    (k.Covers i → k.references h' o + (if (h.view k.object).targets[i] = some o then 1 else 0) =
      k.references h o + if t = some o then 1 else 0) ∧
    (¬ k.Covers i → k.references h' o = k.references h o) := by
  have fits := ((l.agrees _ (l.fields_known k hk)).fields k hk rfl).1.fits
  rw [Ticket.references, Ticket.targets, s.self]
  exact ObjectView.count_range_set hi t o fits

/-- What covered slots hold changes with a store to one of them. -/
theorem covered_store (l : Ledger h e) (hx : x ∈ h.known)
    (s : Edited x { h.view x with targets := (h.view x).targets.set i t } h h')
    (hi : i < (h.view x).targets.length) (c : h.Open e x i) (o : Ref) :
    h'.covered e.objects e.fields o + (h.view x).owes o =
      h.covered e.objects e.fields o +
        ({ h.view x with targets := (h.view x).targets.set i t } : ObjectView).owes o := by
  have a := l.agrees x hx
  have store := ObjectView.count_set_add hi t o
  have whole : ∀ y ∈ e.objects, y ≠ x → (h'.view y).references o = (h.view y).references o :=
    fun y hy ne => by rw [s.other y (l.objects_known y hy) ne]
  simp only [Heap.covered, ObjectView.owes]
  rcases c with fresh | logged | ⟨k, hk, rfl, covers⟩
  · -- no entry speaks of a fresh object, and no count of its references
    obtain ⟨noObject, noField⟩ := a.of_fresh fresh
    rw [List.map_congr_left fun y hy => whole y hy (ne_of_mem_of_not_mem hy noObject),
      List.map_congr_left fun k hk => l.references_other s hk (noField k hk) o]
    simp only [fresh, if_true]
  · -- the entry of the object covers the slot, and it is the only one that does
    obtain ⟨stale, noField⟩ := a.of_logged logged
    rw [List.map_congr_left fun k hk => l.references_other s hk (noField k hk) o]
    have sum := sum_map_change (a.logged.2 logged) l.objects_nodup
      (f := fun y => (h.view y).references o) (g := fun y => (h'.view y).references o) whole
    simp only [s.self, ObjectView.references] at sum
    simp only [stale, Bool.false_eq_true, if_false, ObjectView.references]
    omega
  · -- two entries that cover the slot would start at the same field
    obtain ⟨regular, unlogged, stale⟩ := a.fields k hk rfl
    have noObject : k.object ∉ e.objects := fun hx => by
      rw [a.logged.1 hx] at unlogged
      cases unlogged
    rw [List.map_congr_left fun y hy => whole y hy (ne_of_mem_of_not_mem hy noObject)]
    have sum := sum_map_change hk (l.fields_nodup.of_map _) (f := fun k => k.references h o)
      (g := fun k => k.references h' o) fun k' hk' ne => by
        by_cases eq : k'.object = k.object
        · refine (l.references_store hk' (eq ▸ hi) (eq ▸ s) o).2 fun covers' => ?_
          have first := regular.first_eq (a.fields k' hk' eq).1 covers covers'
          exact ne (List.inj_on_of_nodup_map l.fields_nodup hk' hk (by rw [eq, first]))
        · exact l.references_other s hk' eq o
    have change := (l.references_store hk hi s o).1 covers
    simp only [stale, Bool.false_eq_true, if_false, ObjectView.references] at sum change ⊢
    omega

/-- A store to an open slot keeps the books. -/
theorem store (l : Ledger h e) (hx : x ∈ h.known) (hi : i < (h.view x).targets.length)
    (ht : ∀ o, t = some o → o ∈ h.known) (c : h.Open e x i)
    (s : Edited x { h.view x with targets := (h.view x).targets.set i t } h h') :
    Ledger h' e := by
  have known := s.known_eq
  have permanent : h'.permanent = h.permanent := by rw [s.rest]
  have oldRoots : h'.oldRoots = h.oldRoots := by rw [s.rest]
  have same : ∀ y ∈ h.known, (h'.view y).header = (h.view y).header :=
    s.forall_view (P := fun y w => w.header = (h.view y).header) (fun _ _ _ => rfl) rfl
  exact {
    wellFormed := s.wellFormed l.wellFormed
    once := by
      rw [Heap.RegisteredOnce, permanent]
      exact l.once
    slots_known := known ▸ s.forall_view (P := fun y w => ∀ o ∈ w.referents, o ∈ h.known)
      (fun y hy _ => l.slots_known y hy) fun o ho => by
        rw [ObjectView.mem_referents] at ho
        rcases List.mem_or_eq_of_mem_set ho with ho | rfl
        · exact l.slots_known x hx o (ObjectView.mem_referents.2 ho)
        · exact ht o rfl
    agrees := by
      rw [known, show h'.settings = h.settings by rw [s.rest]]
      refine s.forall_view (P := fun y w => w.Agrees h.settings e y)
        (fun y hy _ => l.agrees y hy) ?_
      have a := l.agrees x hx
      exact { a with
        fields := fun k hk eq => by
          obtain ⟨r, rest⟩ := a.fields k hk eq
          exact ⟨r.congr rfl (by simp), rest⟩ }
    permanent := fun y hy => by
      rw [permanent] at hy
      rw [same y (.inr hy)]
      exact l.permanent y hy
    objects_known := known ▸ l.objects_known
    objects_nodup := l.objects_nodup
    fields_known := known ▸ l.fields_known
    fields_nodup := l.fields_nodup
    decrements_known := known ▸ l.decrements_known
    roots_known := by
      rw [known, oldRoots]
      exact l.roots_known
    balance := fun o ho ns => by
      rw [s.counted_eq] at ho ⊢
      have count : h'.count o = h.count o := by rw [Heap.count, same o (.inl ho), Heap.count]
      rw [count] at ns ⊢
      have permanents : h'.permanents = h.permanents := by
        rw [Heap.permanents, permanent, Heap.permanents]
      have owed := s.owed_add (S := h.counted ∪ h.permanents)
        (fun y => Heap.mem_union_permanents.1) (Heap.mem_union_permanents.2 hx) o
      have covered := l.covered_store hx s hi c o
      have old := l.balance o ho ns
      rw [permanents, oldRoots]
      omega }

end Ledger

end DeferredCount
