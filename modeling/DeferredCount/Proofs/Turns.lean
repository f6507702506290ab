import DeferredCount.Proofs.Barriers
import DeferredCount.Proofs.Newborn

/-!
# Turns of mutators

Between two collections mutators come and go, allocate, store references through the write barrier,
copy them, and hand their buffers over, each in its turn. The client may change the roots it will
report and what it answers when memory is exhausted. `Turn` lists these steps. Every store names a
field of a live object in the way that fits the object, and stores null or a live object.

`Ready` is what holds between two turns: the books are right, the entries are those that pools and
buffers hold, and the free memory meets no object.

Results:
1. `Ready.turn`: a turn keeps what holds, and adds entries.
2. `Ready.turns`: so do turns that follow each other.
-/

namespace DeferredCount

/-- The heap of a client that will report other roots. -/
def Heap.withRoots (h : Heap) (roots : List Ref) : Heap :=
  { h with client := { h.client with scanRoots := { h.client.scanRoots with state := roots } } }

/-- One turn, by which a heap and its mutators become others.

* `bind`, `destroy`: a mutator comes or goes.
* `flushModified`, `flushDecrements`: a mutator hands buffers over. A flush is one after the other.
* `allocate`: an allocation, which may find the memory exhausted.
* `write`, `compareAndSwap`: a store to a field, and one under a condition.
* `copy`: the barrier of a copy to an array, and the copy.
* `setRoots`, `setExhaustion`: the client changes its mind.
* `shuffle`: the order of free cells is nobody's business. -/
inductive Turn : Heap → List Mutator → Heap → List Mutator → Prop
  | bind {h h' : Heap} {ms : List Mutator} {m : Mutator} :
      Mutator.bind h = .ok m h' → Turn h ms h' (ms ++ [m])
  | destroy {h h' : Heap} {before after : List Mutator} {m : Mutator} :
      m.destroy h = .ok () h' → Turn h (before ++ m :: after) h' (before ++ after)
  | flushModified {h h' : Heap} {before after : List Mutator} {m m' : Mutator} :
      m.flushModified h = .ok m' h' →
      Turn h (before ++ m :: after) h' (before ++ m' :: after)
  | flushDecrements {h h' : Heap} {before after : List Mutator} {m m' : Mutator} :
      m.flushDecrements h = .ok m' h' →
      Turn h (before ++ m :: after) h' (before ++ m' :: after)
  | allocate {h h' : Heap} {before after : List Mutator} {m m' : Mutator} {slots : Nat}
      {array : Bool} {s : Semantics} {r : Option Ref} :
      m.newObject slots array s h = .ok (r, m') h' →
      Turn h (before ++ m :: after) h' (before ++ m' :: after)
  | write {h h' : Heap} {before after : List Mutator} {m m' : Mutator} {x : Ref} {i : Nat}
      {t : Option Ref} :
      x ∈ h.known → i < (h.view x).targets.length → (∀ o, t = some o → o ∈ h.known) →
      m.write x (x.slotAddr i) t ((h.view x).field i) h = .ok m' h' →
      Turn h (before ++ m :: after) h' (before ++ m' :: after)
  | compareAndSwap {h h' : Heap} {before after : List Mutator} {m m' : Mutator} {x : Ref} {i : Nat}
      {old t : Option Ref} {swapped : Bool} :
      x ∈ h.known → i < (h.view x).targets.length → (∀ o, t = some o → o ∈ h.known) →
      m.compareAndSwap x (x.slotAddr i) old t ((h.view x).field i) h = .ok (swapped, m') h' →
      Turn h (before ++ m :: after) h' (before ++ m' :: after)
  | copy {h h₁ h' : Heap} {before after : List Mutator} {m m' : Mutator} {x y : Ref} {i j n : Nat}
      {copied : Bool} :
      y ∈ h.known → i + n ≤ (h.view y).targets.length →
      x ∈ h.known → (h.view x).array = true → j + n ≤ (h.view x).targets.length →
      m.bulkCopyBarrier y (i * bytesPerWord) x (j * bytesPerWord) (n * bytesPerWord) h =
        .ok (copied, m') h₁ →
      HeapM.change (SessionM.copySlots y i x j n) h₁ = .ok () h' →
      Turn h (before ++ m :: after) h' (before ++ m' :: after)
  | setRoots {h : Heap} {ms : List Mutator} {roots : List Ref} :
      (∀ x ∈ roots, x ∈ h.known) →
      Turn h ms (h.withRoots roots) ms
  | setExhaustion {h : Heap} {ms : List Mutator} {hook : Hook Bool} :
      Turn h ms { h with client := { h.client with outOfMemory := hook } } ms
  | shuffle {h : Heap} {ms : List Mutator} {free : PerClass (List Address)} :
      (∀ c, (free.get c).Perm (h.small.free.get c)) →
      Turn h ms { h with small := { h.small with free } } ms

/-! ## Mutators that come, go, and hand over -/

namespace Mutator

variable {m m' : Mutator} {h h' : Heap}

theorem flushModified_adds (e : m.flushModified h = .ok m' h') :
    m' = m.withoutLogs ∧ m.Adds h {} m' h' ∧ h' = { h with pools := h'.pools } := by
  obtain ⟨q, r, run, objects, fields, solid⟩ := m.flushModified_eq h
  cases run.symm.trans e
  refine ⟨rfl, {
    objects := ?_
    fields := ?_
    decrements := (List.append_nil _).symm
    traceRoots := rfl
    solid := fun s => { s with
      objects := (solid s).1
      fields := (solid s).2 }
    same := rfl }, rfl⟩
  · rw [Buffer.both, objects, Heap.loggedObjects, List.flatMap_singleton]
    rfl
  · rw [Buffer.both, fields, Heap.loggedFields, List.flatMap_singleton]
    rfl

theorem flushDecrements_adds (e : m.flushDecrements h = .ok m' h') :
    m' = m.withoutDecrements ∧ m.Adds h {} m' h' ∧ h' = { h with pools := h'.pools } := by
  obtain ⟨q, run, decrements, solid⟩ := m.flushDecrements_eq h
  cases run.symm.trans e
  refine ⟨rfl, {
    objects := (List.append_nil _).symm
    fields := (List.append_nil _).symm
    decrements := ?_
    traceRoots := rfl
    solid := fun s => { s with decrements := solid s }
    same := rfl }, rfl⟩
  rw [Buffer.both, decrements, Heap.owedDecrements, List.flatMap_singleton]
  rfl

/-- A mutator that ends leaves empty buffers behind. -/
theorem destroy_adds (e : m.destroy h = .ok () h') :
    m.Adds h {} m.withoutLogs.withoutDecrements h' ∧ h' = { h with pools := h'.pools } := by
  obtain ⟨m₂, h₂, flushed, e⟩ := HeapM.bind_eq_ok.1 e
  cases e
  obtain ⟨m₁, h₁, run₁, run₂⟩ := HeapM.bind_eq_ok.1 flushed
  obtain ⟨rfl, adds₁, rest₁⟩ := flushModified_adds run₁
  obtain ⟨rfl, adds₂, rest₂⟩ := flushDecrements_adds run₂
  exact ⟨adds₁.trans adds₂, by rw [rest₂, rest₁]⟩

/-- A new mutator has the settings of the instance and empty buffers. -/
theorem of_bind (e : bind h = .ok m h') :
    (m.barrier = .ofSettings h.settings ∧ m.flavor = h.settings.flavor) ∧ m.allocators = {} ∧
      m.buffers.isFlushed = true ∧ h' = { h with log := h'.log } := by
  rw [bind, HeapM.get_bind_apply] at e
  obtain ⟨buffers, made, e⟩ := HeapM.lift_bind_eq_ok.1 e
  cases e
  refine ⟨⟨rfl, rfl⟩, rfl, ?_, rfl⟩
  have empty : ∀ {α : Type} {b : Buffer α}, Buffer.ofCapacity h.settings.bufferCapacity = .ok b →
      b.isFlushed = true := fun made => by
    obtain ⟨-, -, made⟩ := Except.bind_eq_ok.1 made
    cases made
    rfl
  obtain ⟨objects, made₁, made⟩ := Except.bind_eq_ok.1 made
  obtain ⟨fields, made₂, made⟩ := Except.bind_eq_ok.1 made
  obtain ⟨decrements, made₃, made⟩ := Except.bind_eq_ok.1 made
  cases made
  simp only [LogBuffers.isFlushed, empty made₁, empty made₂, empty made₃, Bool.and_self]

end Mutator

namespace Held

variable {h h' : Heap} {ms ms' before after : List Mutator} {m : Mutator} {e : Entries}

/-- Only the pools and the buffers matter. -/
theorem congr (held : Held h ms e) (pools : h'.pools = h.pools)
    (buffers : ms'.map (·.buffers) = ms.map (·.buffers)) : Held h' ms' e := by
  have same : ∀ {α : Type} (f : LogBuffers → List α),
      (ms'.flatMap fun m => f m.buffers) = ms.flatMap fun m => f m.buffers := fun f => by
    have := congrArg (List.flatMap f) buffers
    rwa [List.flatMap_map, List.flatMap_map] at this
  exact {
    objects := by
      rw [Heap.loggedObjects, pools, same fun b => b.objects.items.toList]
      exact held.objects
    fields := by
      rw [Heap.loggedFields, pools, same fun b => b.fields.items.toList]
      exact held.fields
    decrements := by
      rw [Heap.owedDecrements, pools, same fun b => b.decrements.items.toList]
      exact held.decrements
    traceRoots := pools ▸ held.traceRoots
    solid := pools ▸ held.solid }

theorem perm (held : Held h ms e) (p : ms.Perm ms') : Held h ms' e :=
  { held with
    objects := ((p.symm.flatMap_right _).append_left _).trans held.objects
    fields := ((p.symm.flatMap_right _).append_left _).trans held.fields
    decrements := ((p.symm.flatMap_right _).append_left _).trans held.decrements }

/-- If nothing is held, the pools are empty. -/
theorem pools_eq_nil (held : Held h ms {}) : h.pools.objects.entries = [] ∧
    h.pools.fields.entries = [] ∧ h.pools.decrements.entries = [] :=
  ⟨(List.append_eq_nil_iff.1 (List.perm_nil.1 held.objects)).1,
    (List.append_eq_nil_iff.1 (List.perm_nil.1 held.fields)).1,
    (List.append_eq_nil_iff.1 (List.perm_nil.1 held.decrements)).1⟩

/-- A mutator with empty buffers holds nothing. -/
theorem cons_iff (flushed : m.buffers.isFlushed = true) : Held h (m :: ms) e ↔ Held h ms e := by
  simp only [LogBuffers.isFlushed, Bool.and_eq_true, Buffer.isFlushed, Stack.isEmpty_iff] at flushed
  obtain ⟨⟨objects, fields⟩, decrements⟩ := flushed
  have same₁ : h.loggedObjects (m :: ms) = h.loggedObjects ms := by
    rw [Heap.loggedObjects, List.flatMap_cons, objects]
    rfl
  have same₂ : h.loggedFields (m :: ms) = h.loggedFields ms := by
    rw [Heap.loggedFields, List.flatMap_cons, fields]
    rfl
  have same₃ : h.owedDecrements (m :: ms) = h.owedDecrements ms := by
    rw [Heap.owedDecrements, List.flatMap_cons, decrements]
    rfl
  constructor
  · intro held
    exact { held with
      objects := same₁ ▸ held.objects
      fields := same₂ ▸ held.fields
      decrements := same₃ ▸ held.decrements }
  · intro held
    exact { held with
      objects := same₁ ▸ held.objects
      fields := same₂ ▸ held.fields
      decrements := same₃ ▸ held.decrements }

end Held

/-! ## What holds between two turns -/

/-- An instance between two turns of the mutators `ms`, where `e` are the entries. -/
structure Ready (settings : Settings) (h : Heap) (ms : List Mutator) (e : Entries) : Prop where
  settings_eq : h.settings = settings
  /-- Every mutator was bound under the settings. -/
  outfits : ∀ m ∈ ms, m.barrier = .ofSettings settings ∧ m.flavor = settings.flavor
  ledger : Ledger h e
  held : Held h ms e
  stocked : h.Stocked (ms.map (·.allocators))
  idle : h.progress.running = false
  roots_known : ∀ x ∈ h.client.scanRoots.state, x ∈ h.known

namespace Ready

variable {settings : Settings} {h h' : Heap} {ms ms' before after : List Mutator}
  {m m₁ m' : Mutator} {e d : Entries}

/-- One mutator acted, and what it kept of the free memory is as the spaces say. -/
theorem act (r : Ready settings h (before ++ m :: after) e) (t : Elapsed h e d h')
    (allocators : m₁ = { m with allocators := m'.allocators }) (adds : m₁.Adds h d m' h')
    (stocked : h'.Stocked (m'.allocators :: (before ++ after).map (·.allocators)))
    (settings_eq : h'.settings = h.settings) (progress : h'.progress = h.progress)
    (roots : h'.client.scanRoots = h.client.scanRoots) :
    Ready settings h' (before ++ m' :: after) (e ++ d) where
  settings_eq := settings_eq.trans r.settings_eq
  outfits x hx := by
    have barrier : m'.barrier = m.barrier := by rw [adds.same, allocators]
    have flavor : m'.flavor = m.flavor := by rw [adds.same, allocators]
    rcases List.mem_append.1 hx with hx | hx
    · exact r.outfits x (List.mem_append_left _ hx)
    · rcases List.mem_cons.1 hx with rfl | hx
      · rw [barrier, flavor]
        exact r.outfits m (List.mem_append_right _ List.mem_cons_self)
      · exact r.outfits x (List.mem_append_right _ (List.mem_cons_of_mem _ hx))
  -- the allocators aside, the mutator is the one it was
  ledger := t.ledger
  held := by
    refine Held.added (r.held.congr rfl ?_) adds
    rw [allocators]
    simp
  stocked := by
    refine stocked.perm (.trans (.of_eq ?_) (List.perm_middle.symm.map _))
    rfl
  idle := progress ▸ r.idle
  roots_known x hx := t.known (r.roots_known x (roots ▸ hx))

/-- The free memory, with that of one mutator in front. -/
theorem stocked_cons (r : Ready settings h (before ++ m :: after) e) :
    h.Stocked (m.allocators :: (before ++ after).map (·.allocators)) :=
  r.stocked.perm (List.perm_middle.map _)

/-- A mutator acted that did not allocate. -/
theorem acted (r : Ready settings h (before ++ m :: after) e) (a : Acted h e m d m' h') :
    Ready settings h' (before ++ m' :: after) (e ++ d) := by
  have allocators : m'.allocators = m.allocators := by rw [a.adds.same]
  refine r.act a.toElapsed (by rw [allocators]) a.adds ?_ a.settings_eq (by rw [a.rest])
    (by rw [a.rest])
  rw [allocators]
  refine r.stocked_cons.congr (by rw [a.rest]) (by rw [a.rest]) (by rw [a.rest]) fun x hx => ?_
  rw [← Memory.length_targets, ← Memory.length_targets]
  exact (a.later x hx).length

/-- Nothing happened to the objects, the entries and the free memory. -/
theorem idly (r : Ready settings h ms e) (settings_eq : h'.settings = h.settings)
    (memory : h'.memory = h.memory) (small : h'.small = h.small) (large : h'.large = h.large)
    (permanent : h'.permanent = h.permanent) (oldRoots : h'.oldRoots = h.oldRoots)
    (pools : h'.pools = h.pools) (progress : h'.progress = h.progress)
    (roots : ∀ x ∈ h'.client.scanRoots.state, x ∈ h.known) :
    Ready settings h' ms e ∧ Elapsed h e {} h' := by
  have counted : h'.counted = h.counted := by rw [Heap.counted, Heap.counted, small, large]
  have view : ∀ x, h'.view x = h.view x := fun x => by rw [Heap.view, Heap.view, memory]
  have known : h'.known = h.known := by rw [Heap.known, Heap.known, counted, permanent]
  have ledger : Ledger h' e := r.ledger.respace
    (r.ledger.wellFormed.congr small large permanent (memory ▸ r.ledger.wellFormed.laid)) memory
    settings_eq oldRoots counted (by rw [permanent])
  refine ⟨{
    settings_eq := settings_eq.trans r.settings_eq
    outfits := r.outfits
    ledger
    held := r.held.congr pools rfl
    stocked := r.stocked.congr small large permanent fun _ _ => by rw [memory]
    idle := progress ▸ r.idle
    roots_known := known ▸ roots }, .of_view ledger counted (by rw [permanent]) view⟩

/-- A mutator handed buffers over. -/
theorem flushed (r : Ready settings h (before ++ m :: after) e) (adds : m.Adds h {} m' h')
    (rest : h' = { h with pools := h'.pools }) :
    Ready settings h' (before ++ m' :: after) e ∧ Elapsed h e {} h' := by
  have allocators : m'.allocators = m.allocators := by rw [adds.same]
  have ledger : Ledger h' e := r.ledger.congr (by rw [rest]; rfl)
  have elapsed : Elapsed h e {} h' :=
    .of_view ledger (by rw [rest]; rfl) (by rw [rest]) fun x => by rw [rest]; rfl
  refine ⟨?_, elapsed⟩
  have := r.act elapsed (by rw [allocators]) adds (by
      rw [allocators]
      exact r.stocked_cons.congr (by rw [rest]) (by rw [rest]) (by rw [rest]) fun _ _ => by
        rw [rest]) (by rw [rest]) (by rw [rest]) (by rw [rest])
  rwa [Entries.append_none] at this

/-- A new mutator holds nothing. -/
theorem bound (r : Ready settings h ms e) (run : Mutator.bind h = .ok m h') :
    Ready settings h' (ms ++ [m]) e ∧ Elapsed h e {} h' := by
  obtain ⟨outfit, allocators, flushed, rest⟩ := Mutator.of_bind run
  have roots : ∀ x ∈ h'.client.scanRoots.state, x ∈ h.known := by
    rw [rest]
    exact r.roots_known
  obtain ⟨same, elapsed⟩ := r.idly (by rw [rest]) (by rw [rest]) (by rw [rest]) (by rw [rest])
    (by rw [rest]) (by rw [rest]) (by rw [rest]) (by rw [rest]) roots
  have last : (m :: ms).Perm (ms ++ [m]) := (List.perm_append_singleton m ms).symm
  refine ⟨{ same with
    outfits := fun x hx => ?_
    held := ((Held.cons_iff flushed).2 same.held).perm last
    stocked := ?_ }, elapsed⟩
  · rcases List.mem_append.1 hx with hx | hx
    · exact r.outfits x hx
    · cases List.mem_singleton.1 hx
      rw [← r.settings_eq]
      exact outfit
  · have stocked := same.stocked.fresh
    rw [← allocators] at stocked
    exact stocked.perm (last.map Mutator.allocators)

/-- A mutator that ends leaves its entries to the others. -/
theorem destroyed (r : Ready settings h (before ++ m :: after) e) (run : m.destroy h = .ok () h') :
    Ready settings h' (before ++ after) e ∧ Elapsed h e {} h' := by
  obtain ⟨adds, rest⟩ := Mutator.destroy_adds run
  obtain ⟨same, elapsed⟩ := r.flushed adds rest
  refine ⟨{ same with
    outfits := fun x hx => r.outfits x ?_
    held := (Held.cons_iff rfl).1 (same.held.perm List.perm_middle)
    stocked := same.stocked_cons.tail }, elapsed⟩
  rcases List.mem_append.1 hx with hx | hx
  · exact List.mem_append_left _ hx
  · exact List.mem_append_right _ (List.mem_cons_of_mem _ hx)

/-- An allocation adds the entries of a new object, or finds the memory exhausted. -/
theorem allocated {slots : Nat} {array : Bool} {s : Semantics} {o : Option Ref}
    (r : Ready settings h (before ++ m :: after) e)
    (run : m.newObject slots array s h = .ok (o, m') h') :
    ∃ d, Ready settings h' (before ++ m' :: after) (e ++ d) ∧ Elapsed h e d h' := by
  rcases Mutator.of_newObject r.stocked_cons r.ledger.wellFormed run with
    ⟨-, same, u⟩ | ⟨o, counted, -, created, adds⟩
  · have elapsed : Elapsed h e {} h' :=
      .of_view (r.ledger.unsettled u) u.counted u.permanent fun x => by
        rw [u.rest]
        rfl
    have pools : h'.pools = h.pools := by rw [u.rest]
    exact ⟨{}, r.act elapsed same (.of_pools m' pools) u.stocked (by rw [u.rest]) (by rw [u.rest])
      (by rw [u.rest]), elapsed⟩
  · have elapsed := Elapsed.of_created r.ledger created Flavor.counted_of_not_logsNew
    exact ⟨_, r.act elapsed rfl adds created.stocked (by rw [created.rest])
      (by rw [created.rest]) (by rw [created.rest]), elapsed⟩

/-- The order of free cells does not matter. -/
theorem shuffled {free : PerClass (List Address)} (r : Ready settings h ms e)
    (perm : ∀ c, (free.get c).Perm (h.small.free.get c)) :
    Ready settings { h with small := { h.small with free } } ms e ∧
      Elapsed h e {} { h with small := { h.small with free } } := by
  have ledger : Ledger { h with small := { h.small with free } } e :=
    r.ledger.respace (r.ledger.wellFormed.withFree free) rfl rfl rfl rfl rfl
  exact ⟨{ r with
    ledger
    held := r.held.congr rfl rfl
    stocked := { r.stocked with
      small := r.stocked.small.congr rfl rfl rfl fun c => (perm c).symm.append_right _ } },
    .of_view ledger rfl rfl fun _ => rfl⟩

/-- The barrier of every mutator is as the settings say. -/
theorem barrier_eq (r : Ready settings h (before ++ m :: after) e) :
    m.barrier = .ofSettings h.settings := by
  rw [r.settings_eq]
  exact (r.outfits m (List.mem_append_right _ List.mem_cons_self)).1

/-- Its flavor, too. -/
theorem flavor_eq (r : Ready settings h (before ++ m :: after) e) :
    m.flavor = settings.flavor :=
  (r.outfits m (List.mem_append_right _ List.mem_cons_self)).2

/-- A turn keeps what holds, and adds entries. -/
theorem turn (r : Ready settings h ms e) (t : Turn h ms h' ms') :
    ∃ d, Ready settings h' ms' (e ++ d) ∧ Elapsed h e d h' := by
  -- most turns add no entry
  have idle : Ready settings h' ms' e ∧ Elapsed h e {} h' →
      ∃ d, Ready settings h' ms' (e ++ d) ∧ Elapsed h e d h' := fun ⟨r', elapsed⟩ =>
    ⟨{}, by rwa [Entries.append_none], elapsed⟩
  cases t with
  | bind run => exact idle (r.bound run)
  | destroy run => exact idle (r.destroyed run)
  | flushModified run =>
    obtain ⟨-, adds, rest⟩ := Mutator.flushModified_adds run
    exact idle (r.flushed adds rest)
  | flushDecrements run =>
    obtain ⟨-, adds, rest⟩ := Mutator.flushDecrements_adds run
    exact idle (r.flushed adds rest)
  | allocate run => exact r.allocated run
  | write hx hi ht run =>
    obtain ⟨d, _, _, run', acted, -, -⟩ := Mutator.write_eq r.barrier_eq r.ledger hx hi ht
    cases run'.symm.trans run
    exact ⟨d, r.acted acted, acted.toElapsed⟩
  | compareAndSwap hx hi ht run =>
    obtain ⟨d, _, _, run', acted, -, -⟩ :=
      Mutator.compareAndSwap_eq r.barrier_eq r.ledger hx hi _ ht
    cases run'.symm.trans run
    exact ⟨d, r.acted acted, acted.toElapsed⟩
  | copy hy source hx array target run copied =>
    obtain ⟨d, _, _, memory, run', copied', acted, -⟩ :=
      Mutator.bulkCopy_eq r.barrier_eq r.ledger hy source hx array target
    cases run'.symm.trans run
    cases copied'.symm.trans copied
    exact ⟨d, r.acted acted, acted.toElapsed⟩
  | setRoots roots => exact idle (r.idly rfl rfl rfl rfl rfl rfl rfl rfl roots)
  | setExhaustion => exact idle (r.idly rfl rfl rfl rfl rfl rfl rfl rfl r.roots_known)
  | shuffle perm => exact idle (r.shuffled perm)

end Ready

/-- Turns that follow each other. -/
inductive Turns (h : Heap) (ms : List Mutator) : Heap → List Mutator → Prop
  | none : Turns h ms h ms
  | turn {h₁ h' : Heap} {ms₁ ms' : List Mutator} :
      Turns h ms h₁ ms₁ → Turn h₁ ms₁ h' ms' → Turns h ms h' ms'

theorem Turns.trans {h h₁ h' : Heap} {ms ms₁ ms' : List Mutator} (first : Turns h ms h₁ ms₁)
    (rest : Turns h₁ ms₁ h' ms') : Turns h ms h' ms' := by
  induction rest with
  | none => exact first
  | turn _ last ih => exact ih.turn last

/-- Turns that follow each other keep what holds, and add entries. -/
theorem Ready.turns {settings : Settings} {h h' : Heap} {ms ms' : List Mutator} {e : Entries}
    (r : Ready settings h ms e) (t : Turns h ms h' ms') :
    ∃ d, Ready settings h' ms' (e ++ d) ∧ Elapsed h e d h' := by
  induction t with
  | none =>
    refine ⟨{}, ?_, .of_view r.ledger rfl rfl fun _ => rfl⟩
    rwa [Entries.append_none]
  | turn _ last ih =>
    obtain ⟨d₁, r₁, elapsed₁⟩ := ih
    obtain ⟨d₂, r₂, elapsed₂⟩ := r₁.turn last
    refine ⟨d₁ ++ d₂, ?_, elapsed₁.trans elapsed₂⟩
    rwa [← Entries.append_assoc]

end DeferredCount
