import DeferredCount.Mutator.Basic
import DeferredCount.Proofs.Ledger

/-!
# The entries that mutators hold

The entries between two increments lie in the pools and in the buffers of the mutators. A mutator
that logs something adds to them, and one that hands its buffers over moves them to the pools.

Results:
1. `Mutator.flushModified_all`, `Mutator.flushDecrements_all`: what handing over leaves.
2. `Held.added`: what a mutator logs is added to the entries.
-/

namespace DeferredCount

namespace Heap

/-- The logged objects in the pool and in the buffers of mutators. -/
def loggedObjects (h : Heap) (ms : List Mutator) : List Ref :=
  h.pools.objects.entries ++ ms.flatMap (·.buffers.objects.items.toList)

/-- The logged fields in the pool and in the buffers of mutators. -/
def loggedFields (h : Heap) (ms : List Mutator) : List FieldEntry :=
  h.pools.fields.entries ++ ms.flatMap (·.buffers.fields.items.toList)

/-- The decrements in the pool and in the buffers of mutators. -/
def owedDecrements (h : Heap) (ms : List Mutator) : List Ref :=
  h.pools.decrements.entries ++ ms.flatMap (·.buffers.decrements.items.toList)

end Heap

/-- The entries of a heap and its mutators. -/
structure Held (h : Heap) (ms : List Mutator) (e : Entries) : Prop where
  objects : (h.loggedObjects ms).Perm e.objects
  fields : (h.loggedFields ms).Perm (e.fields.map (·.toFieldEntry))
  decrements : (h.owedDecrements ms).Perm e.decrements
  traceRoots : h.pools.traceRoots.entries = []
  solid : h.pools.Solid

namespace Mutator

/-- The mutator after it has handed over what it logged. -/
def withoutLogs (m : Mutator) : Mutator :=
  { m with buffers := { m.buffers with
    objects := m.buffers.objects.reset
    fields := m.buffers.fields.reset } }

/-- The mutator after it has handed over its decrements. -/
def withoutDecrements (m : Mutator) : Mutator :=
  { m with buffers := { m.buffers with decrements := m.buffers.decrements.reset } }

theorem flushModified_eq (m : Mutator) (h : Heap) :
    ∃ (q : Pool Ref) (r : Pool FieldEntry), m.flushModified h = .ok m.withoutLogs
        { h with pools := { h.pools with objects := q, fields := r } } ∧
      q.entries = h.loggedObjects [m] ∧ r.entries = h.loggedFields [m] ∧
      (h.pools.Solid → q.Solid ∧ r.Solid) := by
  obtain ⟨q, e₁, entries₁, solid₁⟩ := HeapM.flush_entries .objects m.buffers.objects h
  obtain ⟨r, e₂, entries₂, solid₂⟩ :=
    HeapM.flush_entries .fields m.buffers.fields (h.putPool .objects q)
  refine ⟨q, r, ?_, ?_, ?_, fun s => ⟨solid₁ s.objects, solid₂ s.fields⟩⟩
  · rw [flushModified, HeapM.bind_of_ok e₁, HeapM.bind_of_ok e₂]
    rfl
  · rw [entries₁, Heap.loggedObjects, List.flatMap_singleton]
    rfl
  · rw [entries₂, Heap.loggedFields, List.flatMap_singleton]
    rfl

theorem flushDecrements_eq (m : Mutator) (h : Heap) :
    ∃ q : Pool Ref, m.flushDecrements h = .ok m.withoutDecrements
        { h with pools := { h.pools with decrements := q } } ∧
      q.entries = h.owedDecrements [m] ∧ (h.pools.Solid → q.Solid) := by
  obtain ⟨q, e, entries, solid⟩ := HeapM.flush_entries .decrements m.buffers.decrements h
  refine ⟨q, ?_, ?_, fun s => solid s.decrements⟩
  · rw [flushDecrements, HeapM.bind_of_ok e]
    rfl
  · rw [entries, Heap.owedDecrements, List.flatMap_singleton]
    rfl

theorem flushModified_all (ms : List Mutator) (h : Heap) :
    ∃ (q : Pool Ref) (r : Pool FieldEntry), ms.mapM flushModified h = .ok (ms.map withoutLogs)
        { h with pools := { h.pools with objects := q, fields := r } } ∧
      q.entries = h.loggedObjects ms ∧ r.entries = h.loggedFields ms ∧
      (h.pools.Solid → q.Solid ∧ r.Solid) := by
  induction ms generalizing h with
  | nil => exact ⟨h.pools.objects, h.pools.fields, rfl, by simp [Heap.loggedObjects],
      by simp [Heap.loggedFields], fun s => ⟨s.objects, s.fields⟩⟩
  | cons m ms ih =>
    obtain ⟨q₁, r₁, e₁, objects₁, fields₁, solid₁⟩ := m.flushModified_eq h
    obtain ⟨q, r, e, objects, fields, solid⟩ :=
      ih { h with pools := { h.pools with objects := q₁, fields := r₁ } }
    refine ⟨q, r, ?_, ?_, ?_, fun s => solid { s with
      objects := (solid₁ s).1
      fields := (solid₁ s).2 }⟩
    · rw [List.mapM_cons, HeapM.bind_of_ok e₁, HeapM.bind_of_ok e]
      rfl
    · rw [objects]
      simp [Heap.loggedObjects, objects₁]
    · rw [fields]
      simp [Heap.loggedFields, fields₁]

theorem flushDecrements_all (ms : List Mutator) (h : Heap) :
    ∃ q : Pool Ref, ms.mapM flushDecrements h = .ok (ms.map withoutDecrements)
        { h with pools := { h.pools with decrements := q } } ∧
      q.entries = h.owedDecrements ms ∧ (h.pools.Solid → q.Solid) := by
  induction ms generalizing h with
  | nil => exact ⟨h.pools.decrements, rfl, by simp [Heap.owedDecrements], fun s => s.decrements⟩
  | cons m ms ih =>
    obtain ⟨q₁, e₁, entries₁, solid₁⟩ := m.flushDecrements_eq h
    obtain ⟨q, e, entries, solid⟩ := ih { h with pools := { h.pools with decrements := q₁ } }
    refine ⟨q, ?_, ?_, fun s => solid { s with decrements := solid₁ s }⟩
    · rw [List.mapM_cons, HeapM.bind_of_ok e₁, HeapM.bind_of_ok e]
      rfl
    · rw [entries]
      simp [Heap.owedDecrements, entries₁]

end Mutator

/-- A mutator `m` added entries `d` while the heap `h` became `h'`. -/
structure Mutator.Adds (m : Mutator) (h : Heap) (d : Entries) (m' : Mutator) (h' : Heap) :
    Prop where
  objects : m'.buffers.objects.both h'.pools.objects =
    m.buffers.objects.both h.pools.objects ++ d.objects
  fields : m'.buffers.fields.both h'.pools.fields =
    m.buffers.fields.both h.pools.fields ++ d.fields.map (·.toFieldEntry)
  decrements : m'.buffers.decrements.both h'.pools.decrements =
    m.buffers.decrements.both h.pools.decrements ++ d.decrements
  traceRoots : h'.pools.traceRoots = h.pools.traceRoots
  solid : h.pools.Solid → h'.pools.Solid
  same : m' = { m with buffers := m'.buffers }

namespace Mutator

variable {m m₁ m' : Mutator} {h h₁ h' : Heap} {d d₁ d₂ : Entries}

theorem Adds.of_pools (m : Mutator) (pools : h'.pools = h.pools) : m.Adds h {} m h' where
  objects := by rw [pools]; simp
  fields := by rw [pools]; simp
  decrements := by rw [pools]; simp
  traceRoots := by rw [pools]
  solid := by rw [pools]; exact id
  same := rfl

theorem Adds.trans (a₁ : m.Adds h d₁ m₁ h₁) (a₂ : m₁.Adds h₁ d₂ m' h') :
    m.Adds h (d₁ ++ d₂) m' h' where
  objects := by rw [a₂.objects, a₁.objects, List.append_assoc]; rfl
  fields := by
    rw [a₂.fields, a₁.fields, List.append_assoc, Entries.fields_append, List.map_append]
  decrements := by rw [a₂.decrements, a₁.decrements, List.append_assoc]; rfl
  traceRoots := a₂.traceRoots.trans a₁.traceRoots
  solid := a₂.solid ∘ a₁.solid
  same := by rw [a₂.same, a₁.same]

/-- Only the pools matter. -/
theorem Adds.congr {k k' : Heap} (a : m.Adds k d m' k') (start : k.pools = h.pools)
    (stop : h'.pools = k'.pools) : m.Adds h d m' h' where
  objects := by rw [stop, a.objects, start]
  fields := by rw [stop, a.fields, start]
  decrements := by rw [stop, a.decrements, start]
  traceRoots := by rw [stop, a.traceRoots, start]
  solid := by
    rw [stop, ← start]
    exact a.solid
  same := a.same

theorem pushObject_eq (m : Mutator) (o : Ref) (h : Heap) :
    ∃ m' q, m.pushObject o h = .ok m' (h.putPool .objects q) ∧
      m.Adds h { objects := [o] } m' (h.putPool .objects q) := by
  obtain ⟨b, q, e, both, -, solid⟩ := HeapM.push_entries .objects m.buffers.objects o h
  refine ⟨{ m with buffers := { m.buffers with objects := b } }, q, ?_, {
    objects := both
    fields := (List.append_nil _).symm
    decrements := (List.append_nil _).symm
    traceRoots := rfl
    solid := fun s => s.set .objects (solid s.objects)
    same := rfl }⟩
  rw [pushObject, HeapM.bind_of_ok e]
  rfl

theorem pushField_eq (m : Mutator) (k : Ticket) (h : Heap) :
    ∃ m' q, m.pushField k.toFieldEntry h = .ok m' (h.putPool .fields q) ∧
      m.Adds h { fields := [k] } m' (h.putPool .fields q) := by
  obtain ⟨b, q, e, both, -, solid⟩ := HeapM.push_entries .fields m.buffers.fields k.toFieldEntry h
  refine ⟨{ m with buffers := { m.buffers with fields := b } }, q, ?_, {
    objects := (List.append_nil _).symm
    fields := both
    decrements := (List.append_nil _).symm
    traceRoots := rfl
    solid := fun s => s.set .fields (solid s.fields)
    same := rfl }⟩
  rw [pushField, HeapM.bind_of_ok e]
  rfl

theorem pushDecrements_eq (m : Mutator) (os : List Ref) (h : Heap) :
    ∃ m' q, m.pushDecrements os h = .ok m' (h.putPool .decrements q) ∧
      m.Adds h { decrements := os } m' (h.putPool .decrements q) := by
  obtain ⟨b, q, e, both, -, solid⟩ :=
    HeapM.pushAll_entries .decrements m.buffers.decrements os h
  refine ⟨{ m with buffers := { m.buffers with decrements := b } }, q, ?_, {
    objects := (List.append_nil _).symm
    fields := (List.append_nil _).symm
    decrements := both
    traceRoots := rfl
    solid := fun s => s.set .decrements (solid s.decrements)
    same := rfl }⟩
  rw [pushDecrements, HeapM.bind_of_ok e]
  rfl

end Mutator

/-- The mutators `ms'` hold the entries `d` more than the mutators `ms` held before. -/
structure Gathered (h : Heap) (ms : List Mutator) (d : Entries) (h' : Heap) (ms' : List Mutator) :
    Prop where
  objects : (h'.loggedObjects ms').Perm (h.loggedObjects ms ++ d.objects)
  fields : (h'.loggedFields ms').Perm (h.loggedFields ms ++ d.fields.map (·.toFieldEntry))
  decrements : (h'.owedDecrements ms').Perm (h.owedDecrements ms ++ d.decrements)

namespace Gathered

variable {h h₁ h' : Heap} {ms ms₁ ms' : List Mutator} {d d₁ d₂ : Entries}

theorem refl (h : Heap) (ms : List Mutator) : Gathered h ms {} h ms where
  objects := .of_eq (List.append_nil _).symm
  fields := .of_eq (List.append_nil _).symm
  decrements := .of_eq (List.append_nil _).symm

theorem trans (g₁ : Gathered h ms d₁ h₁ ms₁) (g₂ : Gathered h₁ ms₁ d₂ h' ms') :
    Gathered h ms (d₁ ++ d₂) h' ms' where
  objects := g₂.objects.trans ((g₁.objects.append_right _).trans (.of_eq (List.append_assoc ..)))
  fields := g₂.fields.trans ((g₁.fields.append_right _).trans (.of_eq (by
    rw [List.append_assoc, Entries.fields_append, List.map_append])))
  decrements :=
    g₂.decrements.trans ((g₁.decrements.append_right _).trans (.of_eq (List.append_assoc ..)))

end Gathered

/-- What one mutator adds is what all of them hold more. -/
theorem Mutator.Adds.gathered {h h' : Heap} {m m' : Mutator} {d : Entries}
    (a : m.Adds h d m' h') (before after : List Mutator) :
    Gathered h (before ++ m :: after) d h' (before ++ m' :: after) where
  objects := by
    refine List.perm_iff_count.2 fun x => ?_
    have new := congrArg (List.count x) a.objects
    simp only [Heap.loggedObjects, Buffer.both, List.flatMap_append, List.flatMap_cons,
      List.count_append] at new ⊢
    omega
  fields := by
    refine List.perm_iff_count.2 fun x => ?_
    have new := congrArg (List.count x) a.fields
    simp only [Heap.loggedFields, Buffer.both, List.flatMap_append, List.flatMap_cons,
      List.count_append] at new ⊢
    omega
  decrements := by
    refine List.perm_iff_count.2 fun x => ?_
    have new := congrArg (List.count x) a.decrements
    simp only [Heap.owedDecrements, Buffer.both, List.flatMap_append, List.flatMap_cons,
      List.count_append] at new ⊢
    omega

/-- What a mutator logs is added to the entries. -/
theorem Held.added {h h' : Heap} {before after : List Mutator} {m m' : Mutator} {e d : Entries}
    (held : Held h (before ++ m :: after) e) (a : m.Adds h d m' h') :
    Held h' (before ++ m' :: after) (e ++ d) where
  objects := (a.gathered before after).objects.trans (held.objects.append_right _)
  fields := (a.gathered before after).fields.trans ((held.fields.append_right _).trans (.of_eq (by
    rw [Entries.fields_append, List.map_append])))
  decrements := (a.gathered before after).decrements.trans (held.decrements.append_right _)
  traceRoots := by rw [a.traceRoots, held.traceRoots]
  solid := a.solid held.solid

end DeferredCount
