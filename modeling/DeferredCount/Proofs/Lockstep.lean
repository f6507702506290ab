import DeferredCount.Proofs.Reclaiming
import DeferredCount.Proofs.Requests

/-!
# Two instances in lockstep

Two instances may log stores in different ways: an object as a whole in one of them, and field by
field or quantum by quantum in the other. They may also differ in flavor, so that a new object is
fresh in one of them and logged in the other. Their heaps are `Kindred` all the same as long as they
get the same requests. The spaces are the same, and so are the slots and the counts. Only log bits,
marks, fresh bits, entries and statistics differ, and no client can see these. So what one of them
answers, the other one does, and an object gets the same address in both. If the flavor is the same,
so are the fresh objects, and the heaps are `Alike`.

Results:
1. `Heap.Kindred.perform`: mutators of kindred heaps do a task in the same way.
2. `Abreast.serves`: what one instance answers to requests, the other one does.
3. `Lockstep.serves`: their heaps stay alike if the flavor is the same.
-/

namespace DeferredCount

/-- Two views of an object that differ at most in what was logged. -/
structure ObjectView.Alike (v w : ObjectView) : Prop where
  array : w.array = v.array
  targets : w.targets = v.targets
  count : w.header.count = v.header.count
  fresh : w.header.fresh = v.header.fresh

/-- Two heaps that differ at most in what was logged. -/
structure Heap.Alike (h k : Heap) : Prop extends h.SameSpaces k where
  oldRoots : k.oldRoots = h.oldRoots
  progress : k.progress = h.progress
  view : ∀ x ∈ h.known, (h.view x).Alike (k.view x)

/-- Two views of an object that differ at most in what was logged, and in whether it is fresh. -/
structure ObjectView.Kindred (v w : ObjectView) : Prop where
  array : w.array = v.array
  targets : w.targets = v.targets
  count : w.header.count = v.header.count

/-- Two heaps that differ at most in what was logged, and in what is fresh. -/
structure Heap.Kindred (h k : Heap) : Prop extends h.SameSpaces k where
  oldRoots : k.oldRoots = h.oldRoots
  progress : k.progress = h.progress
  view : ∀ x ∈ h.known, (h.view x).Kindred (k.view x)

theorem ObjectView.Alike.symm {v w : ObjectView} (a : v.Alike w) : w.Alike v :=
  ⟨a.array.symm, a.targets.symm, a.count.symm, a.fresh.symm⟩

/-- Later on the views are kindred if the targets are the same. -/
theorem ObjectView.Kindred.later {v w v' w' : ObjectView} (a : v.Kindred w) (l : v.Later v')
    (l' : w.Later w') (targets : w'.targets = v'.targets) : v'.Kindred w' where
  array := by rw [l'.array, l.array, a.array]
  targets := targets
  count := by rw [l'.count, l.count, a.count]

namespace Heap

theorem SameSpaces.counted_eq {h k : Heap} (same : h.SameSpaces k) : k.counted = h.counted := by
  rw [counted, counted, same.small, same.large]

theorem SameSpaces.known_eq {h k : Heap} (same : h.SameSpaces k) : k.known = h.known := by
  rw [known, known, same.counted_eq, same.permanent]

namespace Alike

variable {h k : Heap} {x : Ref}

theorem symm (a : h.Alike k) : k.Alike h where
  small := a.small.symm
  large := a.large.symm
  permanent := a.permanent.symm
  client := a.client.symm
  oldRoots := a.oldRoots.symm
  progress := a.progress.symm
  view x hx := (a.view x (a.known_eq ▸ hx)).symm

theorem targets_eq (a : h.Alike k) (hx : x ∈ h.known) : (k.view x).targets = (h.view x).targets :=
  (a.view x hx).targets

theorem kindred (a : h.Alike k) : h.Kindred k where
  toSameSpaces := a.toSameSpaces
  oldRoots := a.oldRoots
  progress := a.progress
  view x hx := ⟨(a.view x hx).array, (a.view x hx).targets, (a.view x hx).count⟩

end Alike

namespace Kindred

variable {h k h' k' : Heap} {t : Task} {q : Request} {x : Ref} {m n m' n' : Mutator}
  {e d e' d' : Entries}

/-- Kindred heaps are alike if the same objects are fresh. -/
theorem alike (a : h.Kindred k)
    (fresh : ∀ x ∈ h.known, (k.view x).header.fresh = (h.view x).header.fresh) : h.Alike k where
  toSameSpaces := a.toSameSpaces
  oldRoots := a.oldRoots
  progress := a.progress
  view x hx := ⟨(a.view x hx).array, (a.view x hx).targets, (a.view x hx).count, fresh x hx⟩

theorem targets_eq (a : h.Kindred k) (hx : x ∈ h.known) :
    (k.view x).targets = (h.view x).targets :=
  (a.view x hx).targets

/-- A client that behaves well with one of them does so with the other. -/
theorem taskAllowed (a : h.Kindred k) (allowed : t.Allowed h) : t.Allowed k := by
  cases t with
  | flush => trivial
  | allocate slots array s => trivial
  | write x j t =>
    obtain ⟨hx, hj, ht⟩ := allowed
    rw [Task.Allowed, a.known_eq, a.targets_eq hx]
    exact ⟨hx, hj, ht⟩
  | compareAndSwap x j old t =>
    obtain ⟨hx, hj, ht⟩ := allowed
    rw [Task.Allowed, a.known_eq, a.targets_eq hx]
    exact ⟨hx, hj, ht⟩
  | copy y i x j n =>
    obtain ⟨hy, source, hx, array, target⟩ := allowed
    rw [Task.Allowed, a.known_eq, a.targets_eq hx, a.targets_eq hy, (a.view x hx).array]
    exact ⟨hy, source, hx, array, target⟩

theorem allowed (a : h.Kindred k) (allowed : q.Allowed h) : q.Allowed k := by
  cases q with
  | act i t => exact a.taskAllowed allowed
  | setRoots roots => exact fun x hx => a.known_eq ▸ allowed x hx
  | bind => trivial
  | destroy i => trivial
  | setExhaustion hook => trivial
  | collect kind => trivial

theorem reply_eq (a : h.Kindred k) (allowed : t.Allowed h) : t.reply k = t.reply h := by
  cases t with
  | compareAndSwap x j old t =>
    obtain ⟨hx, -⟩ := allowed
    rw [Task.reply, ObjectView.target_congr (a.targets_eq hx), Task.reply]
  | flush => rfl
  | allocate slots array s => rfl
  | write x j t => rfl
  | copy y i x j n => rfl

theorem stored_eq (a : h.Kindred k) (allowed : t.Allowed h) {z : Ref} (hz : z ∈ h.known) :
    t.stored k z = t.stored h z := by
  cases t with
  | flush => exact a.targets_eq hz
  | allocate slots array s => exact a.targets_eq hz
  | write x j t =>
    obtain ⟨hx, -⟩ := allowed
    rw [Task.stored, a.targets_eq hx, a.targets_eq hz, Task.stored]
  | compareAndSwap x j old t =>
    obtain ⟨hx, -⟩ := allowed
    rw [Task.stored, a.targets_eq hx, a.targets_eq hz, ObjectView.target_congr (a.targets_eq hx),
      Task.stored]
  | copy y i x j n =>
    obtain ⟨hy, -, hx, -⟩ := allowed
    rw [Task.stored, a.targets_eq hx, a.targets_eq hy, a.targets_eq hz, Task.stored]

/-- Mutators of both acted, and stored the same. -/
theorem acted (a : h.Kindred k) (s : Acted h e m d m' h') (t : Acted k e' n d' n' k')
    (targets : ∀ x ∈ h.known, (k'.view x).targets = (h'.view x).targets) : h'.Kindred k' where
  small := by rw [s.rest, t.rest]; exact a.small
  large := by rw [s.rest, t.rest]; exact a.large
  permanent := by rw [s.rest, t.rest]; exact a.permanent
  client := by rw [s.rest, t.rest]; exact a.client
  oldRoots := by rw [s.rest, t.rest]; exact a.oldRoots
  progress := by rw [s.rest, t.rest]; exact a.progress
  view x hx := by
    rw [s.known_eq] at hx
    exact (a.view x hx).later (s.later x hx) (t.later x (a.known_eq ▸ hx)) (targets x hx)

/-- Both got the same new object. -/
theorem created {o : Ref} {v w : ObjectView} {c : Bool} {as bs : List Allocators} (a : h.Kindred k)
    (s : Created h o v c as h') (t : Created k o w c bs k') (new : v.Kindred w)
    (same : h'.SameSpaces k') : h'.Kindred k' where
  toSameSpaces := same
  oldRoots := by rw [s.rest, t.rest]; exact a.oldRoots
  progress := by rw [s.rest, t.rest]; exact a.progress
  view x hx := by
    rw [s.known_eq] at hx
    rcases hx with rfl | hx
    · rw [s.self, t.self]
      exact new
    · rw [s.other x hx, t.other x (a.known_eq ▸ hx)]
      exact a.view x hx

/-- Neither did. -/
theorem unsettled {as bs : List Allocators} (a : h.Kindred k) (s : Unsettled h as h')
    (t : Unsettled k bs k') (same : h'.SameSpaces k') : h'.Kindred k' where
  toSameSpaces := same
  oldRoots := by rw [s.rest, t.rest]; exact a.oldRoots
  progress := by rw [s.rest, t.rest]; exact a.progress
  view x hx := by
    have known : h'.known = h.known := by rw [known, known, s.counted, s.permanent]
    have view : h'.view x = h.view x := by
      rw [s.rest]
      rfl
    have view' : k'.view x = k.view x := by
      rw [t.rest]
      rfl
    rw [view, view']
    exact a.view x (known ▸ hx)

/-- The clients changed their minds, or something was told. -/
theorem idle (a : h.Kindred k) (s : h' = { h with client := h'.client, log := h'.log })
    (t : k' = { k with client := k'.client, log := k'.log }) (client : h'.client = k'.client) :
    h'.Kindred k' where
  small := by rw [s, t]; exact a.small
  large := by rw [s, t]; exact a.large
  permanent := by rw [s, t]; exact a.permanent
  client := client
  oldRoots := by rw [s, t]; exact a.oldRoots
  progress := by rw [s, t]; exact a.progress
  view x hx := by
    rw [s] at hx ⊢
    rw [t]
    exact a.view x hx

end Kindred

end Heap

/-! ## Mutators -/

/-- A mutator finds memory with its allocators, whatever else it has. -/
theorem Mutator.allocate_congr {m n m' : Mutator} {size align offset : Nat} {s : Semantics}
    {a : Address} {h h' : Heap} (same : n.allocators = m.allocators)
    (run : m.allocate size align offset s h = .ok (a, m') h') :
    n.allocate size align offset s h = .ok (a, { n with allocators := m'.allocators }) h' := by
  obtain ⟨kind, chosen, run⟩ := HeapM.lift_bind_eq_ok.1 run
  obtain ⟨⟨b, as⟩, h₁, found, run⟩ := HeapM.bind_eq_ok.1 run
  rw [allocate, chosen, HeapM.liftM_eq, HeapM.lift_ok, HeapM.pure_bind_apply, same,
    HeapM.bind_of_ok found]
  dsimp only at run ⊢
  by_cases none : b = 0
  · rw [if_pos none, HeapM.emit_bind_apply] at run
    obtain ⟨_, h₂, reported, run⟩ := HeapM.bind_eq_ok.1 run
    cases run
    rw [if_pos none, HeapM.emit_bind_apply, HeapM.bind_of_ok reported]
    rfl
  · rw [if_neg none] at run
    cases run
    rw [if_neg none]
    rfl

/-- Buffers without entries. -/
def LogBuffers.empty (capacity : Nat) : LogBuffers := ⟨{ capacity }, { capacity }, { capacity }⟩

/-- A mutator can be bound if its buffers have room. -/
theorem Mutator.bind_eq {h : Heap} (capacity : 0 < h.settings.bufferCapacity) :
    bind h = .ok {
        flavor := h.settings.flavor
        barrier := .ofSettings h.settings
        buffers := .empty h.settings.bufferCapacity }
      { h with log := .mutatorBound h.settings.flavor :: h.log } := by
  have made : LogBuffers.ofCapacity h.settings.bufferCapacity =
      .ok (.empty h.settings.bufferCapacity) := by
    simp only [LogBuffers.ofCapacity, Buffer.ofCapacity, require, decide_eq_true capacity, if_true]
    rfl
  rw [bind, HeapM.get_bind_apply, made]
  rfl

namespace Heap.Kindred

variable {s t : Settings} {h k h' : Heap} {before after before' after' : List Mutator}
  {m n m' : Mutator} {e d : Entries} {q : Task} {a : Reply}

/-- Both find the same memory for an object, or none. -/
theorem newObject (same : h.Kindred k) (r : Ready s h (before ++ m :: after) e)
    (r' : Ready t k (before' ++ n :: after') d) (allocators : n.allocators = m.allocators)
    {slots : Nat} {array : Bool} {sem : Semantics}
    {o : Option Ref} (run : m.newObject slots array sem h = .ok (o, m') h') :
    ∃ n' k', n.newObject slots array sem k = .ok (o, n') k' ∧ h'.Kindred k' ∧
      n'.allocators = m'.allocators := by
  obtain ⟨size, addr, m₁, h₁, sized, found⟩ := Mutator.newObject_eq_ok run
  obtain ⟨k₁, found', spaces⟩ := (m.allocate_onSpaces sem).of_ok same.toSameSpaces found
  obtain ⟨_, _, _, run₁, kept, ends⟩ :=
    Mutator.newObject_eq array r.stocked_cons r.ledger.wellFormed sized found
  cases run₁.symm.trans run
  obtain ⟨o', n', k', run', kept', ends'⟩ := Mutator.newObject_eq array r'.stocked_cons
    r'.ledger.wellFormed sized (Mutator.allocate_congr allocators found')
  have kept : n'.allocators = m'.allocators := kept'.trans kept.symm
  rcases ends with ⟨zero, rfl, rfl, -, u⟩ | ⟨counted, rfl, created, -, some, memory, g, told, rest⟩
  · rcases ends' with ⟨-, rfl, rfl, -, u'⟩ | ⟨_, -, -, -, some, -⟩
    · exact ⟨n', _, run', same.unsettled u u' spaces, kept⟩
    · exact absurd zero some
  · rcases ends' with ⟨zero, -⟩ | ⟨counted', rfl, created', -, -, memory', g', told', rest'⟩
    · exact absurd zero some
    have enrolled := (HeapM.enroll_onSpaces ⟨addr⟩ sem).of_ok
      (show Heap.SameSpaces { h₁ with memory } { k₁ with memory := memory' } from
        ⟨spaces.small, spaces.large, spaces.permanent, spaces.client⟩) told
    obtain ⟨_, told₁, spaces'⟩ := enrolled
    cases told₁.symm.trans told'
    refine ⟨n', k', run', same.created created created' ⟨rfl, rfl, rfl⟩ ?_, kept⟩
    rw [rest, rest']
    exact ⟨spaces'.small, spaces'.large, spaces'.permanent, spaces'.client⟩

/-- Mutators of both do an allowed task in the same way. -/
theorem perform (same : h.Kindred k) (r : Ready s h (before ++ m :: after) e)
    (r' : Ready t k (before' ++ n :: after') d) (allocators : n.allocators = m.allocators)
    (allowed : q.Allowed h)
    (run : q.perform m h = .ok (a, m') h') :
    ∃ n' k', q.perform n k = .ok (a, n') k' ∧ h'.Kindred k' ∧ n'.allocators = m'.allocators := by
  cases store : q.isAllocation with
  | true =>
    obtain ⟨slots, array, sem, rfl⟩ : ∃ slots array sem, q = .allocate slots array sem := by
      cases q with
      | allocate slots array sem => exact ⟨slots, array, sem, rfl⟩
      | _ => cases store
    obtain ⟨⟨o, _⟩, _, allocated, run⟩ := HeapM.bind_eq_ok.1 run
    cases run
    obtain ⟨n', k', allocated', same', kept⟩ := same.newObject r r' allocators allocated
    exact ⟨n', k', HeapM.bind_of_ok allocated', same', kept⟩
  | false =>
    obtain ⟨_, _, _, run₁, acted, targets⟩ := q.performs r allowed store
    cases run₁.symm.trans run
    obtain ⟨_, n', k', run', acted', targets'⟩ := q.performs r' (same.taskAllowed allowed) store
    have kept : n'.allocators = m'.allocators := by
      rw [acted.adds.same, acted'.adds.same]
      exact allocators
    rw [same.reply_eq allowed] at run'
    refine ⟨n', k', run', same.acted acted acted' fun x hx => ?_, kept⟩
    rw [targets x hx, targets' x (same.known_eq ▸ hx), same.stored_eq allowed hx]

end Heap.Kindred

/-! ## Requests -/

/-- Two instances between two requests, in kindred heaps. Their mutators keep the same free
memory. -/
structure Abreast (s t : Settings) (h : Heap) (ms : List Mutator) (k : Heap) (ns : List Mutator) :
    Prop where
  left : ∃ e, Ready s h ms e
  right : ∃ d, Ready t k ns d
  kindred : h.Kindred k
  allocators : ns.map (·.allocators) = ms.map (·.allocators)

namespace Abreast

variable {s t : Settings} {h k h' : Heap} {ms ns ms' : List Mutator} {q : Request} {a : Reply}
  {qs : List Request} {as : List Reply}

/-- There is a mutator at the same place, which keeps the same free memory. -/
theorem exists_mutator (l : Abreast s t h ms k ns) {i : Nat} {m : Mutator}
    (found : ms[i]? = some m) : ∃ n, ns[i]? = some n ∧ n.allocators = m.allocators := by
  have same := congrArg (·[i]?) l.allocators
  simp only [List.getElem?_map, found, Option.map_some] at same
  cases found' : ns[i]? with
  | none =>
    rw [found'] at same
    cases same
  | some n =>
    rw [found'] at same
    exact ⟨n, rfl, Option.some.inj same⟩

theorem no_mutator (l : Abreast s t h ms k ns) {i : Nat} (missing : ms[i]? = none) :
    ns[i]? = none := by
  have same := congrArg List.length l.allocators
  rw [List.length_map, List.length_map] at same
  rw [List.getElem?_eq_none_iff] at missing ⊢
  rwa [same]

/-- What one instance answers to a request, the other one does. -/
theorem serve_eq (l : Abreast s t h ms k ns) (capacity : 0 < t.bufferCapacity)
    (plain : q.isCollection = false) (allowed : q.Allowed h)
    (served : q.serve ms h = .ok (a, ms') h') :
    ∃ k' ns', q.serve ns k = .ok (a, ns') k' ∧ h'.Kindred k' ∧
      ns'.map (·.allocators) = ms'.map (·.allocators) := by
  obtain ⟨e, r⟩ := l.left
  obtain ⟨d, r'⟩ := l.right
  have same := l.kindred
  cases q with
  | bind =>
    obtain ⟨m, _, bound, served⟩ := HeapM.bind_eq_ok.1 served
    cases served
    obtain ⟨-, allocators, -, rest⟩ := Mutator.of_bind bound
    have bound' := Mutator.bind_eq (h := k) (r'.settings_eq ▸ capacity)
    refine ⟨_, _, HeapM.bind_of_ok bound', same.idle (by rw [rest]) rfl ?_, ?_⟩
    · rw [rest]
      exact same.client
    · rw [List.map_append, List.map_append, l.allocators, List.map_singleton, List.map_singleton,
        allocators]
  | destroy i =>
    rcases Request.serve_destroy_eq_ok.1 served with ⟨missing, rfl, rfl, rfl⟩ |
      ⟨m, found, ended, rfl, rfl⟩
    · refine ⟨k, ns, Request.serve_destroy_eq_ok.2 (.inl ?_), same, l.allocators⟩
      exact ⟨l.no_mutator missing, rfl, rfl, rfl⟩
    · obtain ⟨n, found', -⟩ := l.exists_mutator found
      -- both hand over their buffers
      obtain ⟨m', _, run, acted, view⟩ := Task.flush_eq m r.ledger
      obtain ⟨n', k', run', acted', view'⟩ := Task.flush_eq n r'.ledger
      cases (HeapM.bind_of_ok run : m.destroy h = .ok () _).symm.trans ended
      have ended' : n.destroy k = .ok () k' := HeapM.bind_of_ok run'
      refine ⟨k', ns.eraseIdx i, ?_, same.acted acted acted' fun x hx => ?_, ?_⟩
      · exact Request.serve_destroy_eq_ok.2 (.inr ⟨n, found', ended', rfl, rfl⟩)
      · rw [view, view', same.targets_eq hx]
      · rw [← List.eraseIdx_map, ← List.eraseIdx_map, l.allocators]
  | act i q =>
    rcases Request.serve_act_eq_ok.1 served with ⟨missing, rfl, rfl, rfl⟩ |
      ⟨m, m', found, performed, rfl⟩
    · refine ⟨k, ns, Request.serve_act_eq_ok.2 (.inl ?_), same, l.allocators⟩
      exact ⟨l.no_mutator missing, rfl, rfl, rfl⟩
    · obtain ⟨n, found', allocators⟩ := l.exists_mutator found
      obtain ⟨before, after, rfl, -⟩ := exists_split_of_getElem? found
      obtain ⟨before', after', rfl, -⟩ := exists_split_of_getElem? found'
      obtain ⟨n', k', performed', same', kept⟩ :=
        same.perform r r' allocators allowed performed
      refine ⟨k', (before' ++ n :: after').set i n', ?_, same', ?_⟩
      · exact Request.serve_act_eq_ok.2 (.inr ⟨n, n', found', performed', rfl⟩)
      · rw [List.map_set, List.map_set, l.allocators, kept]
  | setRoots roots =>
    cases served
    refine ⟨_, ns, rfl, same.idle rfl rfl ?_, l.allocators⟩
    exact congrArg (fun c : Client => { c with scanRoots := { c.scanRoots with state := roots } })
      same.client
  | setExhaustion hook =>
    cases served
    refine ⟨_, ns, rfl, same.idle rfl rfl ?_, l.allocators⟩
    exact congrArg (fun c : Client => { c with outOfMemory := hook }) same.client
  | collect kind => cases plain

/-- After the request they are still abreast. -/
theorem serve (l : Abreast s t h ms k ns) (capacity : 0 < t.bufferCapacity)
    (plain : q.isCollection = false) (allowed : q.Allowed h)
    (served : q.serve ms h = .ok (a, ms') h') :
    ∃ k' ns', q.serve ns k = .ok (a, ns') k' ∧ Abreast s t h' ms' k' ns' := by
  obtain ⟨k', ns', served', same, allocators⟩ := l.serve_eq capacity plain allowed served
  obtain ⟨e, r⟩ := l.left
  obtain ⟨d, r'⟩ := l.right
  obtain ⟨_, left, -⟩ := r.turns (Request.turns plain allowed served)
  obtain ⟨_, right, -⟩ := r'.turns (Request.turns plain (l.kindred.allowed allowed) served')
  exact ⟨k', ns', served', ⟨_, left⟩, ⟨_, right⟩, same, allocators⟩

/-- What one instance answers to requests, the other one does. -/
theorem serves (l : Abreast s t h ms k ns) (capacity : 0 < t.bufferCapacity)
    (plain : ∀ q ∈ qs, q.isCollection = false) (served : Serves h ms qs as h' ms') :
    ∃ k' ns', Serves k ns qs as k' ns' ∧ Abreast s t h' ms' k' ns' := by
  induction served generalizing k ns with
  | nil => exact ⟨k, ns, .nil, l⟩
  | cons allowed first _ ih =>
    obtain ⟨k₁, ns₁, first', l₁⟩ := l.serve capacity (plain _ List.mem_cons_self) allowed first
    obtain ⟨k', ns', rest', l'⟩ := ih l₁ fun q hq => plain q (List.mem_cons_of_mem _ hq)
    exact ⟨k', ns', .cons (l.kindred.allowed allowed) first' rest', l'⟩

end Abreast

/-- Two instances between two requests, in heaps that are alike. Their mutators keep the same free
memory. -/
structure Lockstep (s t : Settings) (h : Heap) (ms : List Mutator) (k : Heap) (ns : List Mutator) :
    Prop where
  left : ∃ e, Ready s h ms e
  right : ∃ d, Ready t k ns d
  alike : h.Alike k
  allocators : ns.map (·.allocators) = ms.map (·.allocators)

/-- What one instance answers to requests, the other one does. -/
theorem Lockstep.serves {s t : Settings} {h k h' : Heap} {ms ns ms' : List Mutator}
    {qs : List Request} {as : List Reply} (l : Lockstep s t h ms k ns)
    (flavor : s.flavor = t.flavor) (capacity : 0 < t.bufferCapacity)
    (plain : ∀ q ∈ qs, q.isCollection = false) (served : Serves h ms qs as h' ms') :
    ∃ k' ns', Serves k ns qs as k' ns' ∧ Lockstep s t h' ms' k' ns' := by
  obtain ⟨e, r⟩ := l.left
  obtain ⟨d, r'⟩ := l.right
  have abreast : Abreast s t h ms k ns := ⟨l.left, l.right, l.alike.kindred, l.allocators⟩
  obtain ⟨k', ns', served', a⟩ := abreast.serves capacity plain served
  have turns := served.turns plain
  have turns' := served'.turns plain
  obtain ⟨_, -, elapsed⟩ := r.turns turns
  obtain ⟨_, -, elapsed'⟩ := r'.turns turns'
  -- an object that was there is as fresh as it was, and the flavor decides whether a new one is
  have fresh : ∀ x ∈ h'.known, (k'.view x).header.fresh = (h'.view x).header.fresh := by
    intro x hx
    by_cases old : x ∈ h.known
    · rw [(elapsed.later x old).fresh, (elapsed'.later x (l.alike.known_eq ▸ old)).fresh,
        (l.alike.view x old).fresh]
    · refine Bool.eq_iff_iff.2 ?_
      rw [r.turns_fresh_iff turns hx old, r'.turns_fresh_iff turns' (a.kindred.known_eq ▸ hx)
        (l.alike.known_eq ▸ old), a.kindred.counted_eq, flavor]
  exact ⟨k', ns', served', a.left, a.right, a.kindred.alike fresh, a.allocators⟩

end DeferredCount
