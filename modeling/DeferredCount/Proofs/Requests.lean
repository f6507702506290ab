import DeferredCount.Proofs.Locality
import DeferredCount.Proofs.Running

/-!
# Requests of a client

A `Request` is what a client asks an instance for, as a value; a `Task` is what it asks one mutator
for. The client behaves well if every request is `Allowed`: the objects that it names are live, the
fields that it names exist, and it copies to arrays. An allowed request leads from one point of a
run to another, so a client that behaves well may go on for ever.

A request may fail all the same: its size may leave the range of a word, no allocator may serve its
semantics, the client may not handle that memory is exhausted, or the settings leave no room in a
buffer or no collector in a crew. No check on what the instance keeps of its objects, locks, pages
and buffers is among the reasons.

Results:
1. `serves_iff`: requests are served in one way at most, which can be computed.
2. `Run.serve`: an allowed request leads to another point of the run.
3. `allowed_requests_trip_no_check`: what an allowed request can fail with.
-/

namespace DeferredCount

/-- What a client asks a mutator for.

* `write`, `compareAndSwap`: a store to field `j` of `x`, named in the way that fits the object.
* `copy`: the references in `n` slots of `y`, from slot `k` on, are copied to `x`, to slot `j`
  on. -/
inductive Task
  | flush
  | allocate (slots : Nat) (array : Bool) (s : Semantics)
  | write (x : Ref) (j : Nat) (t : Option Ref)
  | compareAndSwap (x : Ref) (j : Nat) (old t : Option Ref)
  | copy (y : Ref) (k : Nat) (x : Ref) (j n : Nat)

/-- What a client asks for. A mutator is named by its place among those that are bound. -/
inductive Request
  | bind
  | destroy (i : Nat)
  | act (i : Nat) (t : Task)
  | setRoots (roots : List Ref)
  | setExhaustion (hook : Hook Bool)
  | collect (kind : CollectionKind)

/-- What a client is told. -/
inductive Reply
  | done
  | created (o : Option Ref)
  | swapped (b : Bool)
  deriving DecidableEq

namespace Task

/-- A mutator does its task. -/
def perform (m : Mutator) : Task → HeapM (Reply × Mutator)
  | flush => do return (.done, ← m.flush)
  | allocate slots array s => do
    let (o, m) ← m.newObject slots array s
    return (.created o, m)
  | write x j t => do
    let f := ((← get).view x).field j
    return (.done, ← m.write x (x.slotAddr j) t f)
  | compareAndSwap x j old t => do
    let f := ((← get).view x).field j
    let (b, m) ← m.compareAndSwap x (x.slotAddr j) old t f
    return (.swapped b, m)
  | copy y k x j n => do
    let (_, m) ← m.bulkCopyBarrier y (k * bytesPerWord) x (j * bytesPerWord) (n * bytesPerWord)
    HeapM.change (SessionM.copySlots y k x j n)
    return (.done, m)

/-- Is it a task of a client that behaves well? -/
def Allowed (h : Heap) : Task → Prop
  | flush => True
  | allocate .. => True
  | write x j t => x ∈ h.known ∧ j < (h.view x).targets.length ∧ ∀ o, t = some o → o ∈ h.known
  | compareAndSwap x j _ t =>
    x ∈ h.known ∧ j < (h.view x).targets.length ∧ ∀ o, t = some o → o ∈ h.known
  | copy y k x j n => y ∈ h.known ∧ k + n ≤ (h.view y).targets.length ∧
    x ∈ h.known ∧ (h.view x).array = true ∧ j + n ≤ (h.view x).targets.length

end Task

namespace Request

/-- Serves a request. Nothing happens if there is no mutator at the place that it names. -/
def serve (ms : List Mutator) : Request → HeapM (Reply × List Mutator)
  | bind => do
    let m ← Mutator.bind
    return (.done, ms ++ [m])
  | destroy i =>
    match ms[i]? with
    | none => return (.done, ms)
    | some m => do
      m.destroy
      return (.done, ms.eraseIdx i)
  | act i t =>
    match ms[i]? with
    | none => return (.done, ms)
    | some m => do
      let (reply, m') ← t.perform m
      return (reply, ms.set i m')
  | setRoots roots => do
    modify fun h => h.withRoots roots
    return (.done, ms)
  | setExhaustion hook => do
    modify fun h => { h with client := { h.client with outOfMemory := hook } }
    return (.done, ms)
  | collect kind => do return (.done, ← HeapM.collect kind ms)

variable {h h' : Heap} {ms ms' : List Mutator} {a : Reply} {i : Nat} {t : Task}

/-- A mutator ends, if there is one. -/
theorem serve_destroy_eq_ok : (destroy i).serve ms h = .ok (a, ms') h' ↔
    (ms[i]? = none ∧ a = .done ∧ ms' = ms ∧ h' = h) ∨
      ∃ m, ms[i]? = some m ∧ m.destroy h = .ok () h' ∧ a = .done ∧ ms' = ms.eraseIdx i := by
  cases found : ms[i]? with
  | none =>
    simp only [serve, found]
    constructor
    · intro served
      cases served
      exact .inl ⟨trivial, rfl, rfl, rfl⟩
    · rintro (⟨-, rfl, rfl, rfl⟩ | ⟨_, ⟨⟩, -⟩)
      rfl
  | some m =>
    simp only [serve, found]
    constructor
    · intro served
      obtain ⟨_, _, ended, served⟩ := HeapM.bind_eq_ok.1 served
      cases served
      exact .inr ⟨m, rfl, ended, rfl, rfl⟩
    · rintro (⟨⟨⟩, -⟩ | ⟨_, ⟨⟩, ended, rfl, rfl⟩)
      exact HeapM.bind_of_ok ended

/-- A mutator does its task, if there is one. -/
theorem serve_act_eq_ok : (act i t).serve ms h = .ok (a, ms') h' ↔
    (ms[i]? = none ∧ a = .done ∧ ms' = ms ∧ h' = h) ∨
      ∃ m m', ms[i]? = some m ∧ t.perform m h = .ok (a, m') h' ∧ ms' = ms.set i m' := by
  cases found : ms[i]? with
  | none =>
    simp only [serve, found]
    constructor
    · intro served
      cases served
      exact .inl ⟨trivial, rfl, rfl, rfl⟩
    · rintro (⟨-, rfl, rfl, rfl⟩ | ⟨_, _, ⟨⟩, -⟩)
      rfl
  | some m =>
    simp only [serve, found]
    constructor
    · intro served
      obtain ⟨⟨_, m'⟩, _, performed, served⟩ := HeapM.bind_eq_ok.1 served
      cases served
      exact .inr ⟨m, m', rfl, performed, rfl⟩
    · rintro (⟨⟨⟩, -⟩ | ⟨_, m', ⟨⟩, performed, rfl⟩)
      exact HeapM.bind_of_ok performed

/-- Does the request ask for a collection? -/
def isCollection : Request → Bool
  | collect _ => true
  | _ => false

/-- Is it a request of a client that behaves well? -/
def Allowed (h : Heap) : Request → Prop
  | act _ t => t.Allowed h
  | setRoots roots => ∀ x ∈ roots, x ∈ h.known
  | _ => True

end Request

/-- The element at a place, between those before and those after it. -/
theorem exists_split_of_getElem? {α : Type} {as : List α} {i : Nat} {a : α}
    (found : as[i]? = some a) :
    ∃ before after, as = before ++ a :: after ∧ before.length = i ∧
      (∀ b, as.set i b = before ++ b :: after) ∧ as.eraseIdx i = before ++ after := by
  obtain ⟨lt, rfl⟩ := List.getElem?_eq_some_iff.1 found
  refine ⟨as.take i, as.drop (i + 1), ?_, ?_, fun b => ?_, ?_⟩
  · rw [List.getElem_cons_drop, List.take_append_drop]
  · rw [List.length_take, Nat.min_eq_left (Nat.le_of_lt lt)]
  · rw [List.set_eq_take_append_cons_drop, if_pos lt]
  · rw [List.eraseIdx_eq_take_drop_succ]

/-! ## Tasks -/

namespace Task

variable {settings : Settings} {h h' : Heap} {before after : List Mutator} {m m' : Mutator}
  {t : Task} {a : Reply} {f : Fault} {e : Entries}

/-- An allowed task is one turn, or two that follow each other. -/
theorem turns (allowed : t.Allowed h) (performed : t.perform m h = .ok (a, m') h') :
    Turns h (before ++ m :: after) h' (before ++ m' :: after) := by
  cases t with
  | flush =>
    obtain ⟨_, k, flushed, performed⟩ := HeapM.bind_eq_ok.1 performed
    cases performed
    obtain ⟨m₁, h₁, first, second⟩ := HeapM.bind_eq_ok.1 flushed
    exact (Turns.none.turn (.flushModified first)).turn (.flushDecrements second)
  | allocate slots array s =>
    obtain ⟨⟨o, _⟩, k, allocated, performed⟩ := HeapM.bind_eq_ok.1 performed
    cases performed
    exact Turns.none.turn (.allocate allocated)
  | write x j t =>
    obtain ⟨hx, hj, ht⟩ := allowed
    rw [perform, HeapM.get_bind_apply] at performed
    obtain ⟨_, k, written, performed⟩ := HeapM.bind_eq_ok.1 performed
    cases performed
    exact Turns.none.turn (.write hx hj ht written)
  | compareAndSwap x j old t =>
    obtain ⟨hx, hj, ht⟩ := allowed
    rw [perform, HeapM.get_bind_apply] at performed
    obtain ⟨⟨b, _⟩, k, swapped, performed⟩ := HeapM.bind_eq_ok.1 performed
    cases performed
    exact Turns.none.turn (.compareAndSwap hx hj ht swapped)
  | copy y k x j n =>
    obtain ⟨hy, source, hx, array, target⟩ := allowed
    obtain ⟨⟨b, m₁⟩, h₁, logged, performed⟩ := HeapM.bind_eq_ok.1 performed
    obtain ⟨_, h₂, copied, performed⟩ := HeapM.bind_eq_ok.1 performed
    cases performed
    exact Turns.none.turn (.copy hy source hx array target logged copied)

/-- Does the task ask for an object? -/
def isAllocation : Task → Bool
  | allocate .. => true
  | _ => false

/-- What a client is told, unless it asked for an object. -/
def reply (h : Heap) : Task → Reply
  | compareAndSwap x j old _ =>
    .swapped (decide (Ref.toWord ((h.view x).target j) = Ref.toWord old))
  | _ => .done

/-- What the slots of an object hold after the task. -/
def stored (h : Heap) (z : Ref) : Task → List (Option Ref)
  | write x j t => if z = x then (h.view x).targets.set j t else (h.view z).targets
  | compareAndSwap x j old t =>
    if z = x ∧ Ref.toWord ((h.view x).target j) = Ref.toWord old then (h.view x).targets.set j t
    else (h.view z).targets
  | copy y k x j n =>
    if z = x then Mutator.storedFrom (h.view x).targets j (((h.view y).targets.drop k).take n)
    else (h.view z).targets
  | _ => (h.view z).targets

/-- A mutator hands over its buffers. -/
theorem flush_eq (m : Mutator) (l : Ledger h e) :
    ∃ m' h', m.flush h = .ok m' h' ∧ Acted h e m {} m' h' ∧ ∀ z, h'.view z = h.view z := by
  obtain ⟨_, _, run₁, -⟩ := m.flushModified_eq h
  obtain ⟨-, adds₁, rest₁⟩ := Mutator.flushModified_adds run₁
  obtain ⟨_, run₂, -⟩ := m.withoutLogs.flushDecrements_eq _
  obtain ⟨-, adds₂, rest₂⟩ := Mutator.flushDecrements_adds run₂
  refine ⟨_, _, (HeapM.bind_of_ok run₁).trans run₂, {
    toElapsed := .of_view (l.congr rfl) rfl rfl fun _ => rfl
    adds := adds₁.trans adds₂
    rest := rfl }, fun _ => rfl⟩

/-- A task that asks for no object is done. -/
theorem performs (r : Ready settings h (before ++ m :: after) e) (allowed : t.Allowed h)
    (store : t.isAllocation = false) :
    ∃ d m' h', t.perform m h = .ok (t.reply h, m') h' ∧ Acted h e m d m' h' ∧
      ∀ z ∈ h.known, (h'.view z).targets = t.stored h z := by
  cases t with
  | flush =>
    obtain ⟨m', h', run, acted, view⟩ := flush_eq m r.ledger
    refine ⟨{}, m', h', HeapM.bind_of_ok run, acted, fun z _ => ?_⟩
    rw [view]
    rfl
  | allocate slots array s => cases store
  | write x j t =>
    obtain ⟨hx, hj, ht⟩ := allowed
    obtain ⟨d, m', h', run, acted, -, here, others⟩ :=
      Mutator.write_eq r.barrier_eq r.ledger hx hj ht
    refine ⟨d, m', h', ?_, acted, fun z hz => ?_⟩
    · rw [perform, HeapM.get_bind_apply]
      exact HeapM.bind_of_ok run
    · rw [stored]
      split
      · next same => rw [same, here]
      · next other => exact others z hz other
  | compareAndSwap x j old t =>
    obtain ⟨hx, hj, ht⟩ := allowed
    obtain ⟨d, m', h', run, acted, -, here, others⟩ :=
      Mutator.compareAndSwap_eq r.barrier_eq r.ledger hx hj old ht
    refine ⟨d, m', h', ?_, acted, fun z hz => ?_⟩
    · rw [perform, HeapM.get_bind_apply]
      exact HeapM.bind_of_ok run
    · rw [stored]
      by_cases same : z = x
      · rw [same, here]
        simp only [true_and]
      · rw [if_neg fun both => same both.1]
        exact others z hz same
  | copy y k x j n =>
    obtain ⟨hy, source, hx, array, target⟩ := allowed
    obtain ⟨d, m', h₁, memory, run, copied, acted, -, here, others⟩ :=
      Mutator.bulkCopy_eq r.barrier_eq r.ledger hy source hx array target
    refine ⟨d, m', { h₁ with memory }, ?_, acted, fun z hz => ?_⟩
    · rw [perform, HeapM.bind_of_ok run]
      exact HeapM.bind_of_ok copied
    · rw [stored]
      split
      · next same => rw [same]; exact here
      · next other => exact others z hz other

/-- An allocation can fail, but only for a reason that lies outside the instance. -/
theorem fails_externally (r : Ready settings h (before ++ m :: after) e) (allowed : t.Allowed h)
    (failed : t.perform m h = .error f h') : f.IsExternal := by
  cases store : t.isAllocation with
  | false =>
    obtain ⟨_, _, _, run, -⟩ := performs r allowed store
    cases run.symm.trans failed
  | true =>
    obtain ⟨slots, array, s, rfl⟩ : ∃ slots array s, t = .allocate slots array s := by
      cases t with
      | allocate slots array s => exact ⟨slots, array, s, rfl⟩
      | _ => cases store
    rcases HeapM.bind_eq_error.1 failed with failed | ⟨_, _, -, ⟨⟩⟩
    exact Mutator.newObject_fails r.stocked_cons r.ledger.wellFormed failed

end Task

/-! ## Points of a run -/

/-- A request that asks for no collection is some turns. -/
theorem Request.turns {h h' : Heap} {ms ms' : List Mutator} {q : Request} {a : Reply}
    (plain : q.isCollection = false) (allowed : q.Allowed h)
    (served : q.serve ms h = .ok (a, ms') h') : Turns h ms h' ms' := by
  cases q with
  | bind =>
    obtain ⟨m, k, bound, served⟩ := HeapM.bind_eq_ok.1 served
    cases served
    exact Turns.none.turn (.bind bound)
  | destroy i =>
    rcases serve_destroy_eq_ok.1 served with ⟨-, -, rfl, rfl⟩ | ⟨m, found, ended, -, rfl⟩
    · exact .none
    · obtain ⟨before, after, rfl, -, -, erased⟩ := exists_split_of_getElem? found
      rw [erased]
      exact Turns.none.turn (.destroy ended)
  | act i t =>
    rcases serve_act_eq_ok.1 served with ⟨-, -, rfl, rfl⟩ | ⟨m, m', found, performed, rfl⟩
    · exact .none
    · obtain ⟨before, after, rfl, -, set, -⟩ := exists_split_of_getElem? found
      rw [set]
      exact Task.turns allowed performed
  | setRoots roots =>
    cases served
    exact Turns.none.turn (.setRoots allowed)
  | setExhaustion hook =>
    cases served
    exact Turns.none.turn .setExhaustion
  | collect kind => cases plain

/-- Allowed requests that are served one after the other, and what the client is told. -/
inductive Serves : Heap → List Mutator → List Request → List Reply → Heap → List Mutator → Prop
  | nil {h : Heap} {ms : List Mutator} : Serves h ms [] [] h ms
  | cons {h h₁ h' : Heap} {ms ms₁ ms' : List Mutator} {q : Request} {qs : List Request}
      {a : Reply} {as : List Reply} :
      q.Allowed h → q.serve ms h = .ok (a, ms₁) h₁ → Serves h₁ ms₁ qs as h' ms' →
      Serves h ms (q :: qs) (a :: as) h' ms'

instance (h : Heap) : (t : Task) → Decidable (t.Allowed h)
  | .flush => .isTrue trivial
  | .allocate .. => .isTrue trivial
  | .write x j t => inferInstanceAs (Decidable (x ∈ h.known ∧ j < (h.view x).targets.length ∧
      ∀ o ∈ t, o ∈ h.known))
  | .compareAndSwap x j _ t => inferInstanceAs (Decidable (x ∈ h.known ∧
      j < (h.view x).targets.length ∧ ∀ o ∈ t, o ∈ h.known))
  | .copy y k x j n => inferInstanceAs (Decidable (y ∈ h.known ∧
      k + n ≤ (h.view y).targets.length ∧ x ∈ h.known ∧ (h.view x).array = true ∧
      j + n ≤ (h.view x).targets.length))

instance (h : Heap) : (q : Request) → Decidable (q.Allowed h)
  | .act _ t => inferInstanceAs (Decidable (t.Allowed h))
  | .setRoots roots => inferInstanceAs (Decidable (∀ x ∈ roots, x ∈ h.known))
  | .bind | .destroy _ | .setExhaustion _ | .collect _ => .isTrue trivial

/-- Serves requests one after the other. `none` if one of them is not allowed, or fails. -/
def Request.serveAll? : Heap → List Mutator → List Request →
    Option (List Reply × Heap × List Mutator)
  | h, ms, [] => some ([], h, ms)
  | h, ms, q :: qs =>
    if q.Allowed h then
      match q.serve ms h with
      | .ok (a, ms₁) h₁ => (serveAll? h₁ ms₁ qs).map fun (as, last) => (a :: as, last)
      | .error _ _ => none
    else none

/-- Requests are served in one way at most. -/
theorem serves_iff {h h' : Heap} {ms ms' : List Mutator} {qs : List Request} {as : List Reply} :
    Serves h ms qs as h' ms' ↔ Request.serveAll? h ms qs = some (as, h', ms') := by
  constructor
  · intro served
    induction served with
    | nil => rfl
    | cons allowed first _ ih =>
      rw [Request.serveAll?, if_pos allowed, first]
      dsimp only
      rw [ih, Option.map_some]
  · intro served
    induction qs generalizing h ms as with
    | nil =>
      cases served
      exact .nil
    | cons q qs ih =>
      rw [Request.serveAll?] at served
      by_cases allowed : q.Allowed h
      · rw [if_pos allowed] at served
        cases first : q.serve ms h with
        | ok r h₁ =>
          rw [first] at served
          obtain ⟨⟨as, _⟩, rest, eq⟩ := Option.map_eq_some_iff.1 served
          cases eq
          exact .cons allowed first (ih rest)
        | error f h₁ =>
          rw [first] at served
          cases served
      · rw [if_neg allowed] at served
        cases served

namespace Run

variable {settings : Settings} {h h' : Heap} {ms ms' : List Mutator} {q : Request} {a : Reply}
  {qs : List Request} {as : List Reply}

theorem turns (run : Run settings h ms) (t : Turns h ms h' ms') : Run settings h' ms' := by
  induction t with
  | none => exact run
  | turn _ last ih => exact ih.turn last

/-- An allowed request leads to another point of the run. -/
theorem serve (run : Run settings h ms) (allowed : q.Allowed h)
    (served : q.serve ms h = .ok (a, ms') h') : Run settings h' ms' := by
  cases plain : q.isCollection with
  | false => exact run.turns (Request.turns plain allowed served)
  | true =>
    obtain ⟨kind, rfl⟩ : ∃ kind, q = .collect kind := by
      cases q with
      | collect kind => exact ⟨kind, rfl⟩
      | _ => cases plain
    obtain ⟨_, k, collected, served⟩ := HeapM.bind_eq_ok.1 served
    cases served
    exact run.collect (.of_collect collected)

/-- So do any number of them. -/
theorem serves (run : Run settings h ms) (served : Serves h ms qs as h' ms') :
    Run settings h' ms' := by
  induction served with
  | nil => exact run
  | cons allowed first _ ih => exact ih (run.serve allowed first)

end Run

/-- Requests among which there is no collection are some turns. -/
theorem Serves.turns {h h' : Heap} {ms ms' : List Mutator} {qs : List Request} {as : List Reply}
    (served : Serves h ms qs as h' ms') (plain : ∀ q ∈ qs, q.isCollection = false) :
    Turns h ms h' ms' := by
  induction served with
  | nil => exact .none
  | cons allowed first _ ih =>
    have one := Request.turns (plain _ List.mem_cons_self) allowed first
    exact one.trans (ih fun q hq => plain q (List.mem_cons_of_mem _ hq))

/-! ## Requests that fail -/

/-- A mutator that cannot be bound would have buffers without room. -/
theorem Mutator.bind_fails {h h' : Heap} {f : Fault} (failed : bind h = .error f h') :
    f.IsExternal := by
  have buffer : ∀ {α : Type} (n : Nat), DeferredCount.Except.Within Fault.IsExternal
      (Buffer.ofCapacity n : Except Fault (Buffer α)) := fun n =>
    .bind (require_within rfl _) fun _ => .ok _
  have buffers : DeferredCount.Except.Within Fault.IsExternal
      (LogBuffers.ofCapacity h.settings.bufferCapacity) :=
    .bind (buffer _) fun _ => .bind (buffer _) fun _ => .bind (buffer _) fun _ => .ok _
  rw [bind, HeapM.get_bind_apply] at failed
  cases made : LogBuffers.ofCapacity h.settings.bufferCapacity with
  | error f' =>
    rw [made] at failed
    cases failed
    exact buffers _ made
  | ok bs =>
    rw [made] at failed
    cases failed

/-- A collection can fail, but only for a reason that lies outside the instance: there is no
collector, or its buffers have no room. -/
theorem Ready.collect_fails {settings : Settings} {h h' : Heap} {ms : List Mutator} {e : Entries}
    {kind : CollectionKind} {f : Fault} (r : Ready settings h ms e)
    (failed : HeapM.collect kind ms h = .error f h') : f.IsExternal := by
  rcases Nat.eq_zero_or_pos h.settings.collectors with none | collectors
  · have refused : HeapM.muster kind h = .error (.check .someCollectors) h := by
      rw [HeapM.muster, HeapM.get_bind_apply, none]
      rfl
    cases (HeapM.bind_of_error refused).symm.trans failed
    rfl
  rcases Nat.eq_zero_or_pos h.settings.bufferCapacity with none | capacity
  · obtain ⟨n, eq⟩ := Nat.exists_eq_succ_of_ne_zero (Nat.ne_of_gt collectors)
    have accepted : HeapM.request kind (n + 1) h =
        .ok () { h with
          progress := { h.progress with requested := kind, collectors := n + 1 } } := rfl
    -- the first collector cannot be bound
    have unbound : ∀ k : Heap, k.settings = h.settings →
        (List.range (n + 1)).mapM Collector.bind k = .error (.check .someCapacity) k := by
      intro k same
      rw [List.range_succ_eq_map, List.mapM_cons]
      refine HeapM.bind_of_error ?_
      rw [Collector.bind, HeapM.get_bind_apply, same, none]
      rfl
    obtain ⟨k, refused⟩ : ∃ k, HeapM.muster kind h = .error (.check .someCapacity) k := by
      rw [HeapM.muster, HeapM.get_bind_apply, eq, HeapM.bind_of_ok accepted, HeapM.get_bind_apply,
        HeapM.emit_bind_apply]
      exact ⟨_, unbound _ (by rfl)⟩
    cases (HeapM.bind_of_error refused).symm.trans failed
    rfl
  · obtain ⟨_, _, run⟩ := r.collect (r.settings_eq ▸ collectors) (r.settings_eq ▸ capacity) kind
    cases run.symm.trans failed

/-- Whatever settings an instance has and whatever happened to it, no request of a client that
behaves well fails a check on what the instance keeps of its objects, locks, pages and buffers. -/
theorem allowed_requests_trip_no_check {settings : Settings} {h h' : Heap} {ms : List Mutator}
    {q : Request} {f : Fault} (run : Run settings h ms) (allowed : q.Allowed h)
    (failed : q.serve ms h = .error f h') : f.isInternal = false := by
  obtain ⟨e, r⟩ := run.ready
  cases q with
  | bind =>
    rcases HeapM.bind_eq_error.1 failed with failed | ⟨_, _, -, ⟨⟩⟩
    exact Mutator.bind_fails failed
  | destroy i =>
    cases found : ms[i]? with
    | none =>
      simp only [Request.serve, found] at failed
      cases failed
    | some m =>
      simp only [Request.serve, found] at failed
      -- a mutator ends by handing over its buffers, which never fails
      obtain ⟨_, _, flushed, -⟩ := Task.flush_eq m r.ledger
      rcases HeapM.bind_eq_error.1 failed with failed | ⟨_, _, -, ⟨⟩⟩
      cases (HeapM.bind_of_ok flushed).symm.trans failed
  | act i t =>
    cases found : ms[i]? with
    | none =>
      simp only [Request.serve, found] at failed
      cases failed
    | some m =>
      simp only [Request.serve, found] at failed
      obtain ⟨before, after, rfl, -⟩ := exists_split_of_getElem? found
      rcases HeapM.bind_eq_error.1 failed with failed | ⟨_, _, -, ⟨⟩⟩
      exact Task.fails_externally r allowed failed
  | setRoots roots => cases failed
  | setExhaustion hook => cases failed
  | collect kind =>
    rcases HeapM.bind_eq_error.1 failed with failed | ⟨_, _, -, ⟨⟩⟩
    exact r.collect_fails failed

/-- An object that no space has room for is refused, and the client does not handle that. -/
theorem allowed_requests_trip_no_check_exhausted : ∃ h m h', Run {} h [m] ∧
    (Request.act 0 (.allocate 1048576 false .los)).Allowed h ∧
    (Request.act 0 (.allocate 1048576 false .los)).serve [m] h = .error .outOfMemory h' ∧
    Fault.isInternal .outOfMemory = false := by
  have steps : Mutator.bind.holds
      (fun m => (Request.act 0 (.allocate 1048576 false .los)).serve [m] |>.failsWith .outOfMemory)
      (.ofSettings {}) = true := by
    decide +kernel
  obtain ⟨m, h, bound, refused⟩ := HeapM.holds_iff.1 steps
  obtain ⟨h', failed⟩ := HeapM.failsWith_iff.1 refused
  have run : Run {} h [m] := Run.start.turn (.bind bound)
  have allowed : (Request.act 0 (.allocate 1048576 false .los)).Allowed h := trivial
  exact ⟨h, m, h', run, allowed, failed, allowed_requests_trip_no_check run allowed failed⟩

end DeferredCount
