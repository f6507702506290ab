import DeferredCount.Proofs.Running

/-!
# A clean start after every collection

A log bit or a mark that outlived a collection would keep its object from being logged ever again,
and a forgotten entry would be worked off twice. Neither happens: a completed collection leaves the
pools and the buffers of all mutators empty, and no bit set in any object that is left. So the next
store to any slot is logged, and what the slot held is owed a decrement.

Results:
1. `Collected.clean`: no bit of an object outlives a collection.
2. `Elapsed.logs`: an open slot of a clean object was opened by a new entry.
3. `collections_end_clean`: every collection of a run ends clean, and every next store is logged.
-/

namespace DeferredCount

/-- The entries `d` cover slot `i` of `x`, and what the slot held in `h` is among their
decrements. -/
structure Entries.Logs (d : Entries) (h : Heap) (x : Ref) (i : Nat) : Prop where
  covered : x ∈ d.objects ∨ ∃ k ∈ d.fields, k.object = x ∧ k.Covers i
  owed : ∀ o, (h.view x).target i = some o → o ∈ d.decrements

/-- No bit says anything of an object: it is not logged, locked, marked or fresh, and no field of it
is marked. -/
structure ObjectView.Blank (v : ObjectView) : Prop extends v.Clean where
  stale : v.header.fresh = false

/-- A slot that an entry covers is among those whose references the entry counts. -/
theorem Ticket.mem_targets {k : Ticket} {h : Heap} {i : Nat} (covers : k.Covers i)
    (hi : i < (h.view k.object).targets.length) : (h.view k.object).target i ∈ k.targets h := by
  obtain ⟨low, high⟩ := covers
  have inside : i - k.first < (k.targets h).length := by
    simp only [targets, ObjectView.range, List.length_take, List.length_drop]
    omega
  have same : (k.targets h)[i - k.first] = (h.view k.object).target i := by
    simp only [targets, ObjectView.range, List.getElem_take, List.getElem_drop,
      Nat.add_sub_cancel' low, ObjectView.target_eq hi]
  rw [← same]
  exact List.getElem_mem inside

namespace Entries.Logs

variable {h : Heap} {e d : Entries} {h' : Heap} {x o : Ref} {i : Nat}

/-- What a covered slot held before is owed. -/
theorem of_covered (t : Elapsed h e d h') (hx : x ∈ h.known) (hi : i < (h.view x).targets.length)
    (covered : x ∈ d.objects ∨ ∃ k ∈ d.fields, k.object = x ∧ k.Covers i) : d.Logs h x i where
  covered
  owed o held := by
    refine List.count_pos_iff.1 ?_
    have slot : some o ∈ (h.view x).targets := by
      rw [← held, ObjectView.target_eq hi]
      exact List.getElem_mem hi
    rw [t.pending, Heap.covered]
    rcases covered with whole | ⟨k, hk, rfl, covers⟩
    · have old : x ∈ d.objects.filter (· ∈ h.known) :=
        List.mem_filter.2 ⟨whole, decide_eq_true hx⟩
      have le : (h.view x).references o ≤
          ((d.objects.filter (· ∈ h.known)).map fun y => (h.view y).references o).sum :=
        List.le_sum_of_mem (List.mem_map_of_mem old)
      have pos := ObjectView.references_pos.2 slot
      omega
    · have le : k.references h o ≤ (d.fields.map fun k => k.references h o).sum :=
        List.le_sum_of_mem (List.mem_map_of_mem hk)
      have pos : 0 < k.references h o :=
        List.count_pos_iff.2 (held ▸ Ticket.mem_targets covers hi)
      omega

end Entries.Logs

/-- A slot of an object without bits was opened, so it was logged. -/
theorem Elapsed.logs {h h' : Heap} {e d : Entries} {x : Ref} {i : Nat} (t : Elapsed h e d h')
    (l : Ledger h e) (hx : x ∈ h.known) (blank : (h.view x).Blank)
    (hi : i < (h.view x).targets.length) (opened : h'.Open (e ++ d) x i) : d.Logs h x i := by
  have agrees := l.agrees x hx
  refine .of_covered t hx hi ?_
  rcases opened with fresh | logged | ⟨k, hk, object, covers⟩
  · rw [(t.later x hx).fresh, blank.stale] at fresh
    cases fresh
  · left
    have entry := (t.ledger.agrees x (t.known hx)).logged.2 logged
    refine (List.mem_append.1 entry).resolve_left fun before => ?_
    have bit := agrees.logged.1 before
    rw [blank.unlogged] at bit
    cases bit
  · right
    refine ⟨k, (List.mem_append.1 hk).resolve_left fun before => ?_, object, covers⟩
    have mark := (agrees.marks k.first).2 ⟨k, before, object, rfl⟩
    rw [blank.fields] at mark
    cases mark

/-! ## After a collection -/

/-- Where the counts are exact, no object has a bit. -/
theorem Exact.blank {h : Heap} {roots : List Ref} {x : Ref} (exact : Exact h roots)
    (hx : x ∈ h.known) : (h.view x).Blank where
  toClean := exact.cleared.clean x hx
  stale := exact.stale_of_known hx

namespace Collected

variable {h h' : Heap} {ms : List Mutator} {x : Ref}

/-- No bit of an object outlives a collection. -/
theorem clean (c : Collected h ms h') (hx : x ∈ h'.known) : (h'.view x).Blank :=
  c.exact.blank hx

/-- No entry is left in a pool. -/
theorem pools_isEmpty (c : Collected h ms h') : h'.pools.isEmpty = true := by
  have held := c.held
  obtain ⟨objects, fields, decrements⟩ := held.pools_eq_nil
  rw [Pools.isEmpty, held.solid.objects.isEmpty objects, held.solid.fields.isEmpty fields,
    held.solid.decrements.isEmpty decrements, held.solid.traceRoots.isEmpty held.traceRoots]
  rfl

end Collected

/-- A mutator that took part in a collection has empty buffers. -/
theorem Mutator.settled_isFlushed (m : Mutator) : m.settled.buffers.isFlushed = true := rfl

/-! ## The next store -/

/-- Whatever `m` stores to `x` next succeeds and is logged, and so is what it overwrites.

* `write`, `compareAndSwap`: a store to a field, and one under a condition, met or not.
* `copy`: the barrier of a copy of references to an array. -/
structure Mutator.LogsNext (m : Mutator) (h : Heap) (x : Ref) : Prop where
  write : ∀ i < (h.view x).targets.length, ∀ t : Option Ref, (∀ o, t = some o → o ∈ h.known) →
    ∃ d m' h', m.write x (x.slotAddr i) t ((h.view x).field i) h = .ok m' h' ∧
      m.Adds h d m' h' ∧ d.Logs h x i
  compareAndSwap : ∀ i < (h.view x).targets.length, ∀ old t : Option Ref,
    (∀ o, t = some o → o ∈ h.known) →
    ∃ d swapped m' h', m.compareAndSwap x (x.slotAddr i) old t ((h.view x).field i) h =
        .ok (swapped, m') h' ∧
      m.Adds h d m' h' ∧ d.Logs h x i
  copy : (h.view x).array = true → ∀ y ∈ h.known, ∀ i j n,
    i + n ≤ (h.view y).targets.length → j + n ≤ (h.view x).targets.length →
    ∃ d m' h₁ h', m.bulkCopyBarrier y (i * bytesPerWord) x (j * bytesPerWord) (n * bytesPerWord) h =
        .ok (false, m') h₁ ∧
      HeapM.change (SessionM.copySlots y i x j n) h₁ = .ok () h' ∧
      m.Adds h d m' h' ∧ ∀ k, j ≤ k → k < j + n → d.Logs h x k

/-- A mutator logs the next store to an object without bits. -/
theorem Ready.logsNext {settings : Settings} {h : Heap} {before after : List Mutator} {m : Mutator}
    {e : Entries} {x : Ref} (r : Ready settings h (before ++ m :: after) e) (hx : x ∈ h.known)
    (blank : (h.view x).Blank) : m.LogsNext h x where
  write i hi t ht := by
    obtain ⟨d, m', h', run, acted, opened, -⟩ := Mutator.write_eq r.barrier_eq r.ledger hx hi ht
    exact ⟨d, m', h', run, acted.adds, acted.logs r.ledger hx blank hi opened⟩
  compareAndSwap i hi old t ht := by
    obtain ⟨d, m', h', run, acted, opened, -⟩ :=
      Mutator.compareAndSwap_eq r.barrier_eq r.ledger hx hi old ht
    exact ⟨d, _, m', h', run, acted.adds, acted.logs r.ledger hx blank hi opened⟩
  copy array y hy i j n source target := by
    obtain ⟨d, m', h₁, memory, run, copied, acted, opened, -⟩ :=
      Mutator.bulkCopy_eq r.barrier_eq r.ledger hy source hx array target
    refine ⟨d, m', h₁, _, run, copied, acted.adds, fun k low high => ?_⟩
    exact acted.logs r.ledger hx blank (Nat.lt_of_lt_of_le high target) (opened k low high)

/-- A completed collection of a run leaves no entry in a pool or in a buffer, and no bit set in any
object that is left. Whatever happens afterwards, the next store to an object that is still as the
collection left it is logged. -/
theorem collections_end_clean {settings : Settings} {h h' : Heap} {ms ms' : List Mutator}
    {kind : CollectionKind} (run : Run settings h ms) (done : Collects kind ms h ms' h') :
    (h'.pools.isEmpty = true ∧ ∀ m ∈ ms', m.buffers.isFlushed = true) ∧
      (∀ x ∈ h'.known, (h'.view x).Blank) ∧
      ∀ h₁ ms₁, Turns h' ms' h₁ ms₁ → ∀ x ∈ h'.known, h₁.view x = h'.view x →
        ∀ m ∈ ms₁, m.LogsNext h₁ x := by
  obtain ⟨e, r⟩ := run.ready
  obtain ⟨c, r'⟩ := r.collected done
  refine ⟨⟨c.pools_isEmpty, fun m hm => ?_⟩, fun x hx => c.clean hx, ?_⟩
  · rw [r.eq_settled done] at hm
    obtain ⟨m₀, -, rfl⟩ := List.mem_map.1 hm
    exact m₀.settled_isFlushed
  · intro h₁ ms₁ turns x hx same m hm
    obtain ⟨d, r₁, elapsed⟩ := r'.turns turns
    obtain ⟨before, after, rfl⟩ := List.append_of_mem hm
    refine r₁.logsNext (elapsed.known hx) ?_
    rw [same]
    exact c.clean hx

/-- The parent, to which its mutator stored before the increment, is logged by the next store. -/
theorem collections_end_clean_parent : ∃ h ms h₀ m₀, Run {} h ms ∧
    HeapM.collect .increment ms h = .ok [m₀] h₀ ∧ h₀.pools.isEmpty = true ∧
    (h₀.view .parent).referents = [.child] ∧ (h₀.view .parent).Blank ∧
    m₀.LogsNext h₀ .parent := by
  obtain ⟨h, ms, h₀, m₀, _, _, run, done, -, ⟨roots, slots⟩, -⟩ := Run.parent_child
  obtain ⟨⟨empty, -⟩, blank, next⟩ := collections_end_clean run (.of_collect done)
  obtain ⟨e, r⟩ := run.ready
  obtain ⟨c, -⟩ := r.collected (.of_collect done)
  have root : Ref.parent ∈ h.client.scanRoots.state := by rw [roots]; exact List.mem_cons_self
  have parent : Ref.parent ∈ h₀.known := c.exact.roots_known _ root
  refine ⟨h, ms, h₀, m₀, run, done, empty, ?_, blank _ parent,
    next h₀ [m₀] .none _ parent rfl m₀ List.mem_cons_self⟩
  rw [ObjectView.referents, c.targets _ (c.known parent)]
  exact slots

end DeferredCount
