import DeferredCount.Proofs.Scanning

/-!
# The crew works off what was logged

The collectors of a crew count references side by side. Whatever one of them takes is an entry that
can be taken (`Scanning.Takes`), so the books of `Scanning` are right at every point, for both kinds
of collections and for every order of the collectors. The trace roots that they queue in a cycle
collection are referents of the entries.

Results:
1. `Shift.Sound.field`, `Shift.Sound.object`, `Shift.Sound.root`: nothing that a collector takes
   fails, at any point of any order.
2. `Shift.Counts.sound`: what one thing that a crew does keeps.
3. `Shift.Sound.processed`: what the crew leaves when it is done.
4. `Shift.Sound.goes_on`: no order of the crew gets stuck.
5. `Collector.processModified_eq`: the crew that takes turns is done in the end, in one of the
   orders.
6. `increments_reach_least_closure`: the fresh objects that are scanned are the least closed set,
   and all headers and marks are the same, for every order.
-/

namespace DeferredCount

open Relation

/-! ## What stands beside the entries -/

/-- The part of a collector that counting does not touch. -/
def Collector.outside (c : Collector) : Nat × Buffer Ref := (c.ordinal, c.decrements)

theorem Collector.Led.of_outside {crew crew' : List Collector} (led : Led crew)
    (same : crew'.map outside = crew.map outside) : Led crew' := by
  refine led.congr ?_
  have ordinals := congrArg (List.map Prod.fst) same
  rwa [List.map_map, List.map_map] at ordinals

/-- What stands beside the entries that a crew works off: the trace roots it queues, which are
referents of the entries `src`, and what it leaves alone. The client reported the roots `seen`. -/
structure Beside (cycle : Bool) (h₀ : Heap) (src seen : List Ref) (h : Heap)
    (crew : List Collector) : Prop where
  queued : ∀ x ∈ h.pendingTraceRoots crew, cycle = true ∧ x ∈ h₀.known ∧ x ∈ src
  solid : h.pools.Solid
  decrements : h.pools.decrements = h₀.pools.decrements
  newRoots : h.newRoots = h₀.newRoots ++ seen
  client : ∃ calls, h.client =
    { h₀.client with scanRoots := { h₀.client.scanRoots with calls } }

theorem Heap.mem_pendingTraceRoots {h : Heap} {before after : List Collector} {c : Collector}
    {x : Ref} : x ∈ h.pendingTraceRoots (before ++ c :: after) ↔
      x ∈ c.counting.traceRoots.both h.pools.traceRoots ∨
        x ∈ (before ++ after).flatMap (·.counting.traceRoots.items.toList) := by
  simp only [pendingTraceRoots, Buffer.both, List.flatMap_append, List.flatMap_cons,
    List.mem_append]
  grind

namespace Beside

variable {cycle : Bool} {h₀ h h' : Heap} {refs pushed src seen : List Ref} {t : Tally}
  {b' : CountingBuffers} {before after : List Collector} {c : Collector}

/-- Other pools of entries do not matter, nor does the log. -/
theorem withPools {crew crew' : List Collector} (s : Beside cycle h₀ src seen h crew)
    {pools : Pools} {log : List Event} (solid : pools.Solid)
    (traceRoots : ∀ x ∈ ({ h with pools, log } : Heap).pendingTraceRoots crew',
      x ∈ h.pendingTraceRoots crew)
    (decrements : pools.decrements = h.pools.decrements) :
    Beside cycle h₀ src seen { h with pools, log } crew' where
  queued x hx := s.queued x (traceRoots x hx)
  solid
  decrements := decrements.trans s.decrements
  newRoots := s.newRoots
  client := s.client

/-- A member of the crew counted references. -/
theorem counted (s : Beside cycle h₀ src seen h (before ++ c :: after))
    (k : Counted cycle h₀ t h c.counting refs h' b' pushed)
    (known : cycle = true → ∀ x ∈ refs, x ∈ h₀.known ∧ x ∈ src) :
    Beside cycle h₀ src seen h' (before ++ { c with counting := b' } :: after) where
  queued x hx := by
    rw [Heap.mem_pendingTraceRoots] at hx
    simp only [k.traceRoots, List.mem_append] at hx
    rcases hx with (hx | hx) | hx
    · exact s.queued x (Heap.mem_pendingTraceRoots.2 (.inl hx))
    · split at hx
      · next cyc => exact ⟨cyc, known cyc x (List.mem_filter.1 hx).1⟩
      · cases hx
    · exact s.queued x (Heap.mem_pendingTraceRoots.2 (.inr hx))
  solid := k.solid s.solid
  decrements := by rw [k.pools, ← s.decrements]
  newRoots := by rw [k.frame, ← s.newRoots]
  client := by
    rw [k.frame]
    exact s.client

end Beside

/-! ## How far the crew is -/

namespace Shift

/-- The collectors and the roots that are left. -/
def scanning (s : Shift) : Scanning := ⟨s.heap, s.crew, s.roots⟩

/-- The roots that the client reported so far, if it reports those of the heap `h₀`. -/
def seen (s : Shift) (h₀ : Heap) : List Ref :=
  if s.reported then h₀.client.scanRoots.state else []

/-- The crew `crew₀` works off the entries `objs₀` and `fields₀` of a heap `h₀`, and `s` is how far
it is. In a cycle collection it counts no roots. -/
structure Sound (cycle : Bool) (h₀ : Heap) (objs₀ : List Ref) (fields₀ : List Ticket)
    (crew₀ : List Collector) (s : Shift) (t : Tally) : Prop where
  books : ∃ base fields, Scanning.Books cycle h₀ objs₀ fields₀ (if cycle then [] else s.seen h₀)
    s.scanning base t fields
  beside : Beside cycle h₀ (h₀.loggedReferents objs₀ fields₀) (s.seen h₀) s.heap s.crew
  outside : s.crew.map Collector.outside = crew₀.map Collector.outside

variable {cycle reported : Bool} {h₀ h : Heap} {objs₀ roots : List Ref} {fields₀ : List Ticket}
  {crew₀ crew before after : List Collector} {c : Collector} {t : Tally} {s s' : Shift}

/-- The crew begins with all entries. -/
theorem Sound.start {objs : List Ref} {fields : List Ticket} (ok : Processable h objs fields)
    (objects : (h.pendingObjects crew).Perm objs)
    (entries : (h.pendingFields crew).Perm (fields.map (·.toFieldEntry)))
    (queued : h.pendingTraceRoots crew = []) (solid : h.pools.Solid) :
    Sound cycle h objs fields crew ⟨h, crew, [], false⟩ {} where
  books := by
    refine ⟨[], fields, (Processing.start _ ok).congr rfl rfl objects.symm (.refl _), entries, ?_⟩
    simp [seen, scanning]
  beside := {
    queued := fun x hx => by
      rw [queued] at hx
      cases hx
    solid
    decrements := rfl
    newRoots := (List.append_nil _).symm
    client := ⟨h.client.scanRoots.calls, rfl⟩ }
  outside := rfl

namespace Sound

/-- Another place for the entries, and other reports, do not matter. -/
theorem moved {pools : Pools} {log : List Event}
    (inv : Sound cycle h₀ objs₀ fields₀ crew₀ ⟨h, crew, roots, reported⟩ t) {crew' : List Collector}
    (objects : ({ h with pools, log } : Heap).pendingObjects crew' = h.pendingObjects crew)
    (fields : ({ h with pools, log } : Heap).pendingFields crew' = h.pendingFields crew)
    (solid : pools.Solid)
    (traceRoots : ∀ x ∈ ({ h with pools, log } : Heap).pendingTraceRoots crew',
      x ∈ h.pendingTraceRoots crew)
    (decrements : pools.decrements = h.pools.decrements)
    (outside : crew'.map Collector.outside = crew.map Collector.outside) :
    Sound cycle h₀ objs₀ fields₀ crew₀ ⟨{ h with pools, log }, crew', roots, reported⟩ t where
  books := by
    obtain ⟨base, later, books⟩ := inv.books
    exact ⟨base, later, books.processing.congr rfl rfl (.of_eq objects.symm) (.refl _),
      (List.Perm.of_eq fields).trans books.entries, books.roots⟩
  beside := inv.beside.withPools solid traceRoots decrements
  outside := outside.trans inv.outside

/-- A collector works off an entry that can be taken. -/
theorem entry (inv : Sound cycle h₀ objs₀ fields₀ crew₀ ⟨h, crew, roots, reported⟩ t)
    (ok : Processable h₀ objs₀ fields₀) (known : ∀ x ∈ h₀.client.scanRoots.state, x ∈ h₀.known)
    {e : Entry} {q : Pool Ref} {r : Pool FieldEntry} {left : List Ref}
    (takes : Scanning.Takes ⟨h, crew, roots⟩ e q r (before ++ c :: after) left)
    (solid : (h.withLogs q r).pools.Solid)
    (same : (before ++ c :: after).map (·.counting.traceRoots) = crew.map (·.counting.traceRoots))
    (outside : (before ++ c :: after).map Collector.outside = crew.map Collector.outside) :
    ∃ b heap t' pushed, c.counting.process cycle e (h.withLogs q r) = .ok b heap ∧
      heap.pools.fields = r ∧ b.objects.both heap.pools.objects =
        c.counting.objects.both q ++ pushed ∧ t'.news = t.news ++ pushed ∧
      Sound cycle h₀ objs₀ fields₀ crew₀
        ⟨heap, before ++ { c with counting := b } :: after, left, reported⟩ t' := by
  obtain ⟨base, fields, books⟩ := inv.books
  have roots_known : ∀ x ∈ if cycle then [] else
      Shift.seen ⟨h, crew, roots, reported⟩ h₀, x ∈ h₀.known := by
    intro x hx
    cases cycle
    · cases reported
      · cases hx
      · exact known x hx
    · cases hx
  obtain ⟨b, heap, t', pushed, run, worked⟩ := books.worked ok roots_known takes
  obtain ⟨t₁, refs, counted, found⟩ := worked.counted
  have beside : Beside cycle h₀ (h₀.loggedReferents objs₀ fields₀)
      (Shift.seen ⟨h, crew, roots, reported⟩ h₀) (h.withLogs q r) (before ++ c :: after) :=
    inv.beside.withPools solid (fun x hx => ?_) rfl
  · refine ⟨b, heap, t', pushed, run, by rw [counted.pools]; rfl, counted.objects, worked.news, {
      books := worked.books
      beside := beside.counted counted fun cyc x hx => ?_
      outside := Eq.trans (by simp [Collector.outside]) (outside.trans inv.outside) }⟩
    -- a cycle collection counts no roots
    obtain ⟨hx, logged⟩ := found cyc x hx
    refine ⟨hx, logged.resolve_left ?_⟩
    rw [cyc]
    exact List.not_mem_nil
  · have items : ∀ cs : List Collector, cs.flatMap (·.counting.traceRoots.items.toList) =
        (cs.map (·.counting.traceRoots)).flatMap (·.items.toList) := fun cs => by
      rw [List.flatMap_map]
    rw [Heap.pendingTraceRoots, items, same, ← items] at hx
    exact hx

/-- A collector took a field from its buffer or the pool, and works it off. -/
theorem field
    (inv : Sound cycle h₀ objs₀ fields₀ crew₀ ⟨h, before ++ c :: after, roots, reported⟩ t)
    (ok : Processable h₀ objs₀ fields₀) (known : ∀ x ∈ h₀.client.scanRoots.state, x ∈ h₀.known)
    {e : FieldEntry} {b : Buffer FieldEntry} {q : Pool FieldEntry}
    (taken : c.fields.take? h.pools.fields = some (e, b, q)) :
    ∃ counting h' t', c.counting.processField cycle e (h.putPool .fields q) = .ok counting h' ∧
      h'.pools.fields = q ∧ Sound cycle h₀ objs₀ fields₀ crew₀
        ⟨h', before ++ { c with fields := b, counting } :: after, roots, reported⟩ t' := by
  have takes := Scanning.Takes.of_take_field (s := ⟨h, before ++ c :: after, roots⟩) rfl taken
  obtain ⟨counting, h', t', -, run, fields, -, -, inv'⟩ := inv.entry ok known takes
    (inv.beside.solid.set .fields (inv.beside.solid.fields.take? taken)) (by simp)
    (by simp [Collector.outside])
  exact ⟨counting, h', t', run, fields, inv'⟩

/-- A collector took an object from its buffer or the pool, and works it off. -/
theorem object
    (inv : Sound cycle h₀ objs₀ fields₀ crew₀ ⟨h, before ++ c :: after, roots, reported⟩ t)
    (ok : Processable h₀ objs₀ fields₀) (known : ∀ x ∈ h₀.client.scanRoots.state, x ∈ h₀.known)
    {o : Ref} {b : Buffer Ref} {q : Pool Ref}
    (taken : c.counting.objects.take? h.pools.objects = some (o, b, q)) :
    ∃ counting h' t' pushed, { c.counting with objects := b }.processObject cycle o
        (h.putPool .objects q) = .ok counting h' ∧ h'.pools.fields = h.pools.fields ∧
      counting.objects.both h'.pools.objects = b.both q ++ pushed ∧ t'.news = t.news ++ pushed ∧
      Sound cycle h₀ objs₀ fields₀ crew₀
        ⟨h', before ++ { c with counting } :: after, roots, reported⟩ t' := by
  have takes := Scanning.Takes.of_take_object (s := ⟨h, before ++ c :: after, roots⟩) rfl taken
  exact inv.entry ok known takes
    (inv.beside.solid.set .objects (inv.beside.solid.objects.take? taken)) (by simp)
    (by simp [Collector.outside])

/-- A collector counts a root. -/
theorem root {o : Ref}
    (inv : Sound cycle h₀ objs₀ fields₀ crew₀ ⟨h, before ++ c :: after, o :: roots, reported⟩ t)
    (ok : Processable h₀ objs₀ fields₀) (known : ∀ x ∈ h₀.client.scanRoots.state, x ∈ h₀.known) :
    ∃ counting h' t', c.counting.processRoot cycle o h = .ok counting h' ∧
      Sound cycle h₀ objs₀ fields₀ crew₀
        ⟨h', before ++ { c with counting } :: after, roots, reported⟩ t' := by
  have takes := Scanning.Takes.of_root (s := ⟨h, before ++ c :: after, o :: roots⟩) rfl
  obtain ⟨counting, h', t', -, run, -, -, -, inv'⟩ := inv.entry ok known takes inv.beside.solid rfl
    rfl
  exact ⟨counting, h', t', run, inv'⟩

/-- The client reports its roots. -/
theorem report (inv : Sound cycle h₀ objs₀ fields₀ crew₀ ⟨h, crew, [], false⟩ t) :
    ∃ h', Collector.scanRoots h = .ok h₀.client.scanRoots.state h' ∧
      Sound cycle h₀ objs₀ fields₀ crew₀
        ⟨{ h' with newRoots := h'.newRoots ++ h₀.client.scanRoots.state }, crew,
          if cycle then [] else h₀.client.scanRoots.state, true⟩ t := by
  obtain ⟨calls, client⟩ := inv.beside.client
  have state : h.client.scanRoots.state = h₀.client.scanRoots.state := by rw [client]
  refine ⟨{ h with client := { h.client with scanRoots :=
    { h.client.scanRoots with calls := h.client.scanRoots.calls + 1 } } }, ?_, ?_⟩
  · rw [← state]
    rfl
  · obtain ⟨base, fields, books⟩ := inv.books
    have none : base = [] := by
      have roots := books.roots
      simpa [scanning, seen] using roots
    exact {
      books := by
        refine ⟨base, fields, books.processing.congr rfl rfl (.refl _) (.refl _), books.entries, ?_⟩
        rw [none]
        cases cycle <;> rfl
      beside := {
        queued := inv.beside.queued
        solid := inv.beside.solid
        decrements := inv.beside.decrements
        newRoots := by
          have := inv.beside.newRoots
          simpa [seen] using this
        client := ⟨calls + 1, by rw [client]⟩ }
      outside := inv.outside }

end Sound

/-- Whatever a crew does next, the books stay right. -/
theorem Counts.sound (step : Counts cycle s s') (ok : Processable h₀ objs₀ fields₀)
    (known : ∀ x ∈ h₀.client.scanRoots.state, x ∈ h₀.known)
    (inv : Sound cycle h₀ objs₀ fields₀ crew₀ s t) :
    ∃ t', Sound cycle h₀ objs₀ fields₀ crew₀ s' t' := by
  cases step with
  | report _ scanned =>
    obtain ⟨h', run, inv'⟩ := inv.report
    cases run.symm.trans scanned
    exact ⟨t, inv'⟩
  | root _ counted =>
    obtain ⟨counting, h', t', run, inv'⟩ := inv.root ok known
    cases run.symm.trans counted
    exact ⟨t', inv'⟩
  | member act =>
    cases act with
    | field taken worked =>
      obtain ⟨q, found, rfl⟩ := HeapM.take?_eq_some taken
      obtain ⟨counting, h', t', run, -, inv'⟩ := inv.field ok known found
      cases run.symm.trans worked
      exact ⟨t', inv'⟩
    | object taken worked =>
      obtain ⟨q, found, rfl⟩ := HeapM.take?_eq_some taken
      obtain ⟨counting, h', t', -, run, -, -, -, inv'⟩ := inv.object ok known found
      cases run.symm.trans worked
      exact ⟨t', inv'⟩
    | handOver flushed =>
      obtain ⟨q, run, entries, solid⟩ := HeapM.flush_entries .traceRoots _ _
      cases run.symm.trans flushed
      refine ⟨t, inv.moved (by simp [Heap.pendingObjects, Pools.set])
        (by simp [Heap.pendingFields, Pools.set])
        (inv.beside.solid.set .traceRoots (solid inv.beside.solid.traceRoots)) (fun x hx => ?_) rfl
        (by simp [Collector.outside])⟩
      rw [Heap.mem_pendingTraceRoots] at hx ⊢
      refine hx.imp_left fun hx => ?_
      exact entries ▸ (List.mem_append.1 hx).resolve_right List.not_mem_nil
    | searchFields waiting =>
      exact ⟨t, inv.moved rfl rfl (inv.beside.solid.set .fields inv.beside.solid.fields)
        (fun _ hx => hx) rfl rfl⟩
    | searchObjects waiting =>
      exact ⟨t, inv.moved rfl rfl (inv.beside.solid.set .objects inv.beside.solid.objects)
        (fun _ hx => hx) rfl rfl⟩
    | emit e => exact ⟨t, inv.moved rfl rfl inv.beside.solid (fun _ hx => hx) rfl rfl⟩

/-- Whatever a crew does, the books stay right. -/
theorem Sound.reached (inv : Sound cycle h₀ objs₀ fields₀ crew₀ s t)
    (ok : Processable h₀ objs₀ fields₀) (known : ∀ x ∈ h₀.client.scanRoots.state, x ∈ h₀.known)
    (path : ReflTransGen (Counts cycle) s s') : ∃ t', Sound cycle h₀ objs₀ fields₀ crew₀ s' t' := by
  induction path with
  | refl => exact ⟨t, inv⟩
  | tail _ step ih =>
    obtain ⟨t', inv'⟩ := ih
    exact step.sound ok known inv'

end Shift

/-- A crew counted until it found nothing more in the pools of `h'`, which made it `crew'`. -/
structure Exhausted (crew : List Collector) (h' : Heap) (crew' : List Collector) : Prop where
  outside : crew'.map Collector.outside = crew.map Collector.outside
  done : ∀ c ∈ crew', c.counting.objects.isFlushed ∧ c.fields.isFlushed ∧
    c.counting.traceRoots.isFlushed
  objects : h'.pools.objects.entries = []
  fields : h'.pools.fields.entries = []

/-- A crew worked off the entries `objs` and `tickets` of a heap `h`, which left `h'` and
`crew'`. -/
structure Processed (h : Heap) (objs : List Ref) (tickets : List Ticket) (crew : List Collector)
    (h' : Heap) (crew' : List Collector) : Prop extends Exhausted crew h' crew' where
  processing : ∃ t, Processing h.progress.cycle h objs tickets h.client.scanRoots.state h' t [] []
  beside : Beside h.progress.cycle h (h.loggedReferents objs tickets) h.client.scanRoots.state h'
    crew'

/-- What a crew leaves when it is done. -/
theorem Shift.Sound.processed {h : Heap} {objs : List Ref} {fields : List Ticket}
    {crew : List Collector} {s : Shift} {t : Tally}
    (inv : Sound h.progress.cycle h objs fields crew s t) (done : s.DoneCounting) :
    Processed h objs fields crew s.heap s.crew := by
  obtain ⟨base, later, books⟩ := inv.books
  have seen : s.seen h = h.client.scanRoots.state := if_pos done.reported
  have beside := inv.beside
  obtain ⟨objectPool, objectBuffers⟩ := List.append_eq_nil_iff.1 done.objects
  obtain ⟨fieldPool, fieldBuffers⟩ := List.append_eq_nil_iff.1 done.fields
  rw [List.flatMap_eq_nil_iff] at objectBuffers fieldBuffers
  rw [seen] at books beside
  have none : s.scanning.left = [] := by
    rw [Scanning.left, scanning, done.roots, done.objects, done.fields]
    rfl
  obtain ⟨p, perm⟩ := books.closed none
  have exhausted : Exhausted crew s.heap s.crew :=
    ⟨inv.outside, fun c hc => ⟨(Stack.isEmpty_iff _).2 (objectBuffers c hc),
      (Stack.isEmpty_iff _).2 (fieldBuffers c hc), (Stack.isEmpty_iff _).2 (done.traceRoots c hc)⟩,
      objectPool, fieldPool⟩
  refine ⟨exhausted, ⟨t, ?_⟩, beside⟩
  cases cycle : h.progress.cycle with
  | true => exact (cycle ▸ p).withRoots _
  | false =>
    rw [cycle] at p perm
    exact p.of_roots perm

/-! ## Taking turns -/

namespace Collector

variable {cycle reported : Bool} {h₀ h : Heap} {objs₀ roots : List Ref} {fields₀ : List Ticket}
  {crew₀ before after : List Collector} {t : Tally}

/-- A collector works off fields until it finds none. -/
theorem drainFieldsIn_eq (ok : Processable h₀ objs₀ fields₀)
    (known : ∀ x ∈ h₀.client.scanRoots.state, x ∈ h₀.known) (k n : Nat) (c : Collector)
    (inv : Shift.Sound cycle h₀ objs₀ fields₀ crew₀ ⟨h, before ++ c :: after, roots, reported⟩ t)
    (enough : (c.fields.both h.pools.fields).length < k) :
    ∃ m c' h', drainFieldsIn cycle k n c h = .ok (m, c') h' ∧
      ReflTransGen (Counts cycle) (c, h) (c', h') ∧ c'.fields.both h'.pools.fields = [] := by
  induction k generalizing n c h t with
  | zero => exact absurd enough (Nat.not_lt_zero _)
  | succ k ih =>
    rcases HeapM.take?_cases .fields c.fields h with ⟨e, none⟩ | ⟨v, b, q, e, -⟩
    · refine ⟨n, c, h.putPool .fields h.pools.fields.join, ?_, .single (.searchFields _), none⟩
      rw [drainFieldsIn, HeapM.bind_of_ok e]
      rfl
    · obtain ⟨q, found, same⟩ := HeapM.take?_eq_some e
      obtain ⟨counting, h₁, t₁, run, pool, inv₁⟩ := inv.field ok known found
      rw [← same] at run
      have fewer : (b.both h₁.pools.fields).length < k := by
        have := (Buffer.take?_perm found).length_eq
        rw [List.length_cons] at this
        have enough : (c.fields.both (h.pools.get .fields)).length < k + 1 := enough
        rw [pool]
        omega
      obtain ⟨m, c', h', run', path, done⟩ := ih (n + 1) { c with fields := b, counting } inv₁ fewer
      refine ⟨m, c', h', ?_, .head (.field e run) path, done⟩
      rw [drainFieldsIn, HeapM.bind_of_ok e]
      exact (HeapM.bind_of_ok run).trans run'

/-- A collector works off objects until it finds none. -/
theorem drainObjectsIn_eq (ok : Processable h₀ objs₀ fields₀)
    (known : ∀ x ∈ h₀.client.scanRoots.state, x ∈ h₀.known) (k n : Nat) (c : Collector)
    (inv : Shift.Sound cycle h₀ objs₀ fields₀ crew₀ ⟨h, before ++ c :: after, roots, reported⟩ t)
    (enough : (c.counting.objects.both h.pools.objects).length + t.freshLeft h₀ < k) :
    ∃ m c' h', drainObjectsIn cycle k n c h = .ok (m, c') h' ∧
      ReflTransGen (Counts cycle) (c, h) (c', h') ∧
      c'.counting.objects.both h'.pools.objects = [] ∧ c'.fields = c.fields ∧
      h'.pools.fields = h.pools.fields := by
  induction k generalizing n c h t with
  | zero => exact absurd enough (Nat.not_lt_zero _)
  | succ k ih =>
    rcases HeapM.take?_cases .objects c.counting.objects h with ⟨e, none⟩ | ⟨v, b, q, e, -⟩
    · refine ⟨n, c, h.putPool .objects h.pools.objects.join, ?_, .single (.searchObjects _), none,
        rfl, rfl⟩
      rw [drainObjectsIn, HeapM.bind_of_ok e]
      rfl
    · obtain ⟨q, found, same⟩ := HeapM.take?_eq_some e
      obtain ⟨counting, h₁, t₁, pushed, run, fields, both, news, inv₁⟩ := inv.object ok known found
      rw [← same] at run
      have fewer : (counting.objects.both h₁.pools.objects).length + t₁.freshLeft h₀ < k := by
        have := (Buffer.take?_perm found).length_eq
        rw [List.length_cons] at this
        have enough : (c.counting.objects.both (h.pools.get .objects)).length + t.freshLeft h₀ <
          k + 1 := enough
        obtain ⟨_, _, books⟩ := inv₁.books
        have le := books.processing.counting.news_length_le books.processing.nodup
        simp only [both, Tally.freshLeft, news, List.length_append] at enough le ⊢
        omega
      obtain ⟨m, c', h', run', path, done, sameFields, pool⟩ :=
        ih (n + 1) { c with counting } inv₁ fewer
      refine ⟨m, c', h', ?_, .head (.object e run) path, done, sameFields, pool.trans fields⟩
      rw [drainObjectsIn, HeapM.bind_of_ok e]
      exact (HeapM.bind_of_ok run).trans run'

theorem drainFields_all (ok : Processable h₀ objs₀ fields₀)
    (known : ∀ x ∈ h₀.client.scanRoots.state, x ∈ h₀.known) {crew : List Collector}
    (nonempty : crew ≠ [])
    (inv : Shift.Sound cycle h₀ objs₀ fields₀ crew₀ ⟨h, crew, roots, reported⟩ t) :
    ∃ ns crew' h', turns (drainFields cycle) crew h = .ok (ns, crew') h' ∧
      ns.length = crew'.length ∧ ReflTransGen (Shift.Counts cycle) ⟨h, crew, roots, reported⟩
        ⟨h', crew', roots, reported⟩ ∧
      h'.pendingFields crew' = [] ∧ crew'.length = crew.length :=
  turns_of_step (f := drainFields cycle)
    (I := fun h' crew' => ReflTransGen (Shift.Counts cycle) ⟨h, crew, roots, reported⟩
      ⟨h', crew', roots, reported⟩)
    (·.pools.fields.entries) (·.fields.items.toList)
    (fun h₁ before c after path => by
      obtain ⟨t₁, inv₁⟩ := inv.reached ok known path
      obtain ⟨m, c', h', run, more, done⟩ := drainFieldsIn_eq ok known
        (c.fields.pending h₁.pools.fields + 1) 0 c inv₁
        (by rw [Buffer.pending_eq]; exact Nat.lt_succ_self _)
      exact ⟨m, c', h', run, path.trans (Shift.counts_of_member more), done⟩)
    nonempty .refl

theorem drainObjects_all (ok : Processable h₀ objs₀ fields₀)
    (known : ∀ x ∈ h₀.client.scanRoots.state, x ∈ h₀.known) {crew : List Collector}
    (nonempty : crew ≠ []) (fields : h.pendingFields crew = [])
    (inv : Shift.Sound cycle h₀ objs₀ fields₀ crew₀ ⟨h, crew, roots, reported⟩ t) :
    ∃ ns crew' h', turns (drainObjects cycle) crew h = .ok (ns, crew') h' ∧
      ns.length = crew'.length ∧ ReflTransGen (Shift.Counts cycle) ⟨h, crew, roots, reported⟩
        ⟨h', crew', roots, reported⟩ ∧
      h'.pendingFields crew' = [] ∧ h'.pendingObjects crew' = [] ∧ crew'.length = crew.length := by
  obtain ⟨ns, crew', h', run, lengths, ⟨path, unchanged⟩, done, length⟩ := turns_of_step
    (f := drainObjects cycle)
    (I := fun h' crew' => ReflTransGen (Shift.Counts cycle) ⟨h, crew, roots, reported⟩
      ⟨h', crew', roots, reported⟩ ∧ h'.pendingFields crew' = [])
    (·.pools.objects.entries) (·.counting.objects.items.toList)
    (fun h₁ before c after ⟨path, before_none⟩ => by
      obtain ⟨t₁, inv₁⟩ := inv.reached ok known path
      have le : t₁.freshLeft h₀ ≤ Memory.wordCount :=
        (Nat.sub_le _ _).trans ((Finset.card_filter_le _ _).trans ok.wellFormed.card_counted_le)
      obtain ⟨m, c', h', run, more, done, buffer, pool⟩ := drainObjectsIn_eq ok known
        (c.counting.objects.pending h₁.pools.objects + Memory.wordCount + 1) 0 c inv₁
        (by rw [Buffer.pending_eq]; omega)
      refine ⟨m, c', h', ?_, ⟨path.trans (Shift.counts_of_member more), ?_⟩, done⟩
      · rw [drainObjects, HeapM.get_bind_apply, run]
      · rw [← before_none]
        simp [Heap.pendingFields, buffer, pool])
    nonempty ⟨.refl, fields⟩
  exact ⟨ns, crew', h', run, lengths, path, unchanged, done, length⟩

/-- The primary collector counts the roots that were reported. -/
theorem processRoots_eq (ok : Processable h₀ objs₀ fields₀)
    (known : ∀ x ∈ h₀.client.scanRoots.state, x ∈ h₀.known) {c : Collector} (primary : c.isPrimary)
    (inv : Shift.Sound cycle h₀ objs₀ fields₀ crew₀ ⟨h, before ++ c :: after, roots, reported⟩ t) :
    ∃ counting h', roots.foldlM (CountingBuffers.processRoot cycle) c.counting h = .ok counting h' ∧
      ReflTransGen (Shift.Counts cycle) ⟨h, before ++ c :: after, roots, reported⟩
        ⟨h', before ++ { c with counting } :: after, [], reported⟩ := by
  induction roots generalizing c h t with
  | nil => exact ⟨c.counting, h, rfl, .refl⟩
  | cons o roots ih =>
    obtain ⟨counting, h₁, t₁, first, inv₁⟩ := inv.root ok known
    obtain ⟨last, h', rest, path⟩ := ih (c := { c with counting }) primary inv₁
    refine ⟨last, h', ?_, .head (.root primary first) path⟩
    rw [List.foldlM_cons, HeapM.bind_of_ok first, rest]

/-- The crew counts the roots. -/
theorem countRoots_all (ok : Processable h₀ objs₀ fields₀)
    (known : ∀ x ∈ h₀.client.scanRoots.state, x ∈ h₀.known) {c : Collector} {crew : List Collector}
    (primary : c.isPrimary) (others : ∀ d ∈ crew, ¬ d.isPrimary)
    (inv : Shift.Sound cycle h₀ objs₀ fields₀ crew₀ ⟨h, c :: crew, [], false⟩ t) :
    ∃ ns crew' h', turns (countRoots cycle) (c :: crew) h = .ok (ns, crew') h' ∧
      ns.length = crew'.length ∧ ReflTransGen (Shift.Counts cycle) ⟨h, c :: crew, [], false⟩
        ⟨h', crew', [], true⟩ ∧ crew' ≠ [] := by
  obtain ⟨h₁, scanned, inv₁⟩ := inv.report
  have report : Shift.Counts cycle ⟨h, c :: crew, [], false⟩ _ :=
    @Shift.Counts.report _ _ _ [] _ _ _ primary scanned
  obtain ⟨n, counting, h', run, path⟩ : ∃ n counting h',
      countRoots cycle c h = .ok (n, { c with counting }) h' ∧
      ReflTransGen (Shift.Counts cycle) ⟨h, c :: crew, [], false⟩
        ⟨h', { c with counting } :: crew, [], true⟩ := by
    cases cycle with
    | true =>
      refine ⟨h₀.client.scanRoots.state.length, c.counting, _, ?_, .single report⟩
      rw [countRoots, if_pos primary, HeapM.bind_of_ok scanned]
      rfl
    | false =>
      obtain ⟨counting, h', counted, path⟩ :=
        @processRoots_eq _ _ _ _ _ _ _ _ [] _ _ ok known _ primary inv₁
      refine ⟨h₀.client.scanRoots.state.length, counting, h', ?_, .head report path⟩
      rw [countRoots, if_pos primary, HeapM.bind_of_ok scanned]
      exact HeapM.bind_of_ok counted
  have rest : crew.mapM (countRoots cycle) h' = .ok (crew.map fun d => (0, d)) h' :=
    HeapM.mapM_of_ok _ fun d hd => by
      rw [countRoots, if_neg (others d hd)]
      rfl
  refine ⟨n :: crew.map fun _ => 0, { c with counting } :: crew, h', ?_, by simp, path,
    List.cons_ne_nil _ _⟩
  rw [turns, List.mapM_cons, HeapM.bind_assoc_apply, HeapM.bind_of_ok run, HeapM.bind_assoc_apply,
    HeapM.bind_of_ok rest]
  simp [Function.comp_def]

/-- The collector without trace roots. -/
def handedOver (c : Collector) : Collector :=
  { c with counting := { c.counting with traceRoots := c.counting.traceRoots.reset } }

/-- The collectors hand over their trace roots. -/
theorem endIncrements_all (rows : List (Collector × Nat × Nat × Nat)) (before : List Collector)
    (h : Heap) :
    ∃ (q : Pool Ref) (log : List Event),
      (rows.mapM fun (c, r, f, o) => c.endIncrements r f o : HeapM (List Collector)) h =
        .ok (rows.map (·.1.handedOver)) { h with pools := { h.pools with traceRoots := q }, log } ∧
      ReflTransGen (Shift.Counts cycle) ⟨h, before ++ rows.map (·.1), roots, reported⟩
        ⟨{ h with pools := { h.pools with traceRoots := q }, log },
          before ++ rows.map (·.1.handedOver), roots, reported⟩ := by
  induction rows generalizing h before with
  | nil => exact ⟨h.pools.traceRoots, h.log, rfl, .refl⟩
  | cons row rows ih =>
    obtain ⟨c, r, f, o⟩ := row
    obtain ⟨q, e, -, -⟩ := HeapM.flush_entries .traceRoots c.counting.traceRoots h
    obtain ⟨q', log, run, path⟩ := ih (before ++ [c.handedOver]) { h.putPool .traceRoots q with
      log := .modifiedProcessed c.ordinal r f o :: h.log }
    refine ⟨q', log, ?_, ?_⟩
    · have first : c.endIncrements r f o h = .ok c.handedOver { h.putPool .traceRoots q with
          log := .modifiedProcessed c.ordinal r f o :: h.log } := by
        rw [endIncrements, HeapM.bind_of_ok e]
        rfl
      rw [List.mapM_cons, HeapM.bind_of_ok first, HeapM.bind_of_ok run]
      rfl
    · have member : ReflTransGen (Counts cycle) (c, h) (c.handedOver, { h.putPool .traceRoots q with
          log := .modifiedProcessed c.ordinal r f o :: h.log }) :=
        .head (.handOver e) (.single (.emit _))
      refine (Shift.counts_of_member member).trans ?_
      rw [List.append_assoc, List.append_assoc] at path
      exact path

/-- Once the roots are counted, a crew that takes turns works off the fields, then the objects, and
hands over its trace roots. `ns` are the numbers of roots that it reports. -/
theorem workOff_eq (ok : Processable h₀ objs₀ fields₀)
    (known : ∀ x ∈ h₀.client.scanRoots.state, x ∈ h₀.known) {crew : List Collector}
    (nonempty : crew ≠ []) {ns : List Nat} (lengths : ns.length = crew.length)
    (inv : Shift.Sound cycle h₀ objs₀ fields₀ crew₀ ⟨h, crew, [], true⟩ t) :
    ∃ crew' h', (do
        let (fields, crew) ← turns (drainFields cycle) crew
        let (objects, crew) ← turns (drainObjects cycle) crew
        (crew.zip (ns.zip (fields.zip objects))).mapM fun (c, r, f, o) =>
          c.endIncrements r f o : HeapM (List Collector)) h = .ok crew' h' ∧
      ReflTransGen (Shift.Counts cycle) ⟨h, crew, [], true⟩ ⟨h', crew', [], true⟩ ∧
      Shift.DoneCounting ⟨h', crew', [], true⟩ := by
  obtain ⟨ns₁, crew₁, h₁, run₁, length₁, path₁, noFields, same₁⟩ :=
    drainFields_all ok known nonempty inv
  obtain ⟨t₁, inv₁⟩ := inv.reached ok known path₁
  have nonempty₁ : crew₁ ≠ [] := by
    rintro rfl
    exact nonempty (List.eq_nil_of_length_eq_zero same₁.symm)
  obtain ⟨ns₂, crew₂, h₂, run₂, length₂, path₂, noFields, noObjects, same₂⟩ :=
    drainObjects_all ok known nonempty₁ noFields inv₁
  obtain ⟨q, log, run₃, path₃⟩ :=
    @endIncrements_all cycle true [] (crew₂.zip (ns.zip (ns₁.zip ns₂))) [] h₂
  have members : (crew₂.zip (ns.zip (ns₁.zip ns₂))).map (·.1) = crew₂ := by
    refine List.map_fst_zip ?_
    simp only [List.length_zip]
    omega
  have rows : (crew₂.zip (ns.zip (ns₁.zip ns₂))).map (·.1.handedOver) = crew₂.map handedOver := by
    have := congrArg (List.map handedOver) members
    rwa [List.map_map] at this
  rw [rows] at run₃
  rw [members, rows] at path₃
  refine ⟨crew₂.map handedOver, _,
    (HeapM.bind_of_ok run₁).trans ((HeapM.bind_of_ok run₂).trans run₃),
    path₁.trans (path₂.trans path₃), {
      reported := rfl
      roots := rfl
      objects := ?_
      fields := ?_
      traceRoots := fun d hd => ?_ }⟩
  · rw [← noObjects, Heap.pendingObjects, Heap.pendingObjects, List.flatMap_map]
    rfl
  · rw [← noFields, Heap.pendingFields, Heap.pendingFields, List.flatMap_map]
    rfl
  · obtain ⟨e, -, rfl⟩ := List.mem_map.1 hd
    rfl

/-- A crew that takes turns works off all entries, in one of the orders of a crew. -/
theorem processModified_eq {objs : List Ref} {fields : List Ticket}
    (ok : Processable h objs fields) {crew : List Collector} (led : Led crew)
    (objects : (h.pendingObjects crew).Perm objs)
    (entries : (h.pendingFields crew).Perm (fields.map (·.toFieldEntry)))
    (queued : h.pendingTraceRoots crew = []) (solid : h.pools.Solid)
    (known : ∀ x ∈ h.client.scanRoots.state, x ∈ h.known) :
    ∃ h' crew', processModified crew h = .ok crew' h' ∧
      ReflTransGen (Shift.Counts h.progress.cycle) ⟨h, crew, [], false⟩ ⟨h', crew', [], true⟩ ∧
      Shift.DoneCounting ⟨h', crew', [], true⟩ := by
  obtain ⟨c, crew, rfl, primary, others⟩ := led
  have start :
      Shift.Sound h.progress.cycle h objs fields (c :: crew) ⟨h, c :: crew, [], false⟩ {} :=
    .start ok objects entries queued solid
  obtain ⟨ns, crew₁, h₁, run₁, lengths, path₁, nonempty⟩ :=
    countRoots_all ok known primary others start
  obtain ⟨t₁, inv₁⟩ := start.reached ok known path₁
  obtain ⟨crew', h', run₂, path₂, done⟩ := workOff_eq ok known nonempty lengths inv₁
  refine ⟨h', crew', ?_, path₁.trans path₂, done⟩
  rw [processModified, HeapM.get_bind_apply]
  exact (HeapM.bind_of_ok run₁).trans run₂

end Collector

/-- Whatever a crew has done so far, it can go on until it is done. -/
theorem Shift.Sound.goes_on {cycle : Bool} {h₀ : Heap} {objs₀ : List Ref} {fields₀ : List Ticket}
    {crew₀ : List Collector} {s : Shift} {t : Tally} (ok : Processable h₀ objs₀ fields₀)
    (known : ∀ x ∈ h₀.client.scanRoots.state, x ∈ h₀.known) (led : Collector.Led crew₀)
    (inv : Sound cycle h₀ objs₀ fields₀ crew₀ s t) :
    ∃ s', ReflTransGen (Counts cycle) s s' ∧ s'.DoneCounting := by
  obtain ⟨h, crew, roots, reported⟩ := s
  obtain ⟨c, others, rfl, primary, rest⟩ := led.of_outside inv.outside
  obtain ⟨crew₁, h₁, path, nonempty⟩ : ∃ crew₁ h₁, ReflTransGen (Counts cycle)
      ⟨h, c :: others, roots, reported⟩ ⟨h₁, crew₁, [], true⟩ ∧ crew₁ ≠ [] := by
    cases reported with
    | false =>
      obtain ⟨base, _, books⟩ := inv.books
      obtain ⟨-, rfl⟩ : base = [] ∧ roots = [] := by
        have roots := books.roots
        simpa [scanning, seen] using roots
      obtain ⟨_, crew₁, h₁, -, -, path, nonempty⟩ :=
        Collector.countRoots_all ok known primary rest inv
      exact ⟨crew₁, h₁, path, nonempty⟩
    | true =>
      obtain ⟨counting, h₁, -, path⟩ :=
        @Collector.processRoots_eq _ _ _ _ _ _ _ _ [] _ _ ok known _ primary inv
      exact ⟨_, h₁, path, List.cons_ne_nil _ _⟩
  obtain ⟨_, inv₁⟩ := inv.reached ok known path
  obtain ⟨crew', h', -, more, done⟩ := Collector.workOff_eq ok known nonempty
    (List.length_replicate (a := 0)) inv₁
  exact ⟨_, path.trans more, done⟩

/-! ## The least closed set -/

/-- Counting the references of a heap scans the least closed set of fresh objects, each once, and
adds to every count the roots and the slots of logged objects, of logged fields and of scanned
objects that refer to it. So it is for every order in which collectors take the entries, every such
order ends when no entry is left, no entry fails in it, and the crew of an increment follows one of
them. -/
theorem increments_reach_least_closure {h : Heap} {crew : List Collector} {roots objs : List Ref}
    {fields : List Ticket} (ok : Processable h objs fields)
    (objects : (h.pendingObjects crew).Perm objs)
    (entries : (h.pendingFields crew).Perm (fields.map (·.toFieldEntry)))
    (roots_known : ∀ x ∈ roots, x ∈ h.known) :
    ∃ N, IsLeast {S | Closes h roots objs fields S} N ∧
      Acc (fun s' s => Scanning.Step s s') ⟨h, crew, roots⟩ ∧
      (∀ s, ReflTransGen Scanning.Step ⟨h, crew, roots⟩ s →
        (∀ e q r before c after roots', s.Takes e q r (before ++ c :: after) roots' →
          ∃ b h', c.counting.process false e (s.heap.withLogs q r) = .ok b h') ∧
        (s.left = [] ∨ ∃ s', Scanning.Step s s') ∧
        (s.left = [] → Scanned h roots objs fields N s.heap)) ∧
      ((∃ c others, crew = c :: others ∧ c.isPrimary ∧ ∀ d ∈ others, ¬ d.isPrimary) →
        h.progress.cycle = false → h.client.scanRoots.state = roots → h.pools.Solid →
        h.pendingTraceRoots crew = [] →
        ∃ crew' h', Collector.processModified crew h = .ok crew' h' ∧
          h'.pools.objects.entries = [] ∧ h'.pools.fields.entries = [] ∧
          Scanned h roots objs fields N h') := by
  have start : Scanning.Invariant h objs fields roots ⟨h, crew, roots⟩ := by
    refine ⟨[], {}, fields, ⟨?_, entries, .refl _⟩⟩
    exact (Processing.start false ok).congr rfl rfl objects.symm (.refl _)
  have closed {s} (reach : ReflTransGen Scanning.Step ⟨h, crew, roots⟩ s)
      (none : s.left = []) : ∃ t, Processing false h objs fields roots s.heap t [] [] := by
    obtain ⟨base, t, fields', books⟩ := start.reached ok roots_known reach
    obtain ⟨p, perm⟩ := books.closed none
    exact ⟨t, p.of_roots perm⟩
  obtain ⟨s₁, reach₁, none₁⟩ := start.exists_end ok roots_known
  obtain ⟨t₁, p₁⟩ := closed reach₁ none₁
  refine ⟨t₁.news.toFinset, p₁.isLeast, start.ends ok roots_known, fun s reach => ⟨?_, ?_, ?_⟩, ?_⟩
  · intro e q r before c after roots' takes
    obtain ⟨base, t, fields', books⟩ := start.reached ok roots_known reach
    obtain ⟨b, h', -, -, run, -⟩ := books.worked ok roots_known takes
    exact ⟨b, h', run⟩
  · exact (start.reached ok roots_known reach).progress ok roots_known
  · intro none
    obtain ⟨t, p⟩ := closed reach none
    rw [p₁.isLeast.unique p.isLeast]
    exact p.scanned
  · intro led increment reported solid queued
    have known : ∀ x ∈ h.client.scanRoots.state, x ∈ h.known := reported ▸ roots_known
    obtain ⟨h', crew', run, path, drained⟩ := Collector.processModified_eq ok led objects entries
      queued solid known
    obtain ⟨_, sound⟩ := (Shift.Sound.start ok objects entries queued solid).reached ok known path
    have done := sound.processed drained
    obtain ⟨t, p⟩ := done.processing
    rw [increment, reported] at p
    rw [p₁.isLeast.unique p.isLeast]
    exact ⟨crew', h', run, done.objects, done.fields, p.scanned⟩

/-- Three small objects of one slot each. The first one is logged and refers to the second, and that
one to the third. These two are fresh. -/
def Heap.sprout : Heap :=
  { Heap.ofSettings {} with
    small := { (Heap.ofSettings {}).small with
      classes := (∅ : Std.ExtTreeMap Address SizeClass compare).insert 0x10000000 1
      live := ((∅ : Std.ExtTreeSet Address compare).insert 0x10000000).insert 0x10000020
        |>.insert 0x10000040 }
    memory :=
      [(0, 257), (1, 2), (2, 0x10000020), (4, 4), (5, 2), (6, 0x10000040), (8, 4),
        (9, 2)].foldl (fun m w => m.setWord w.1 w.2) Memory.empty }

/-- A collector that has taken the first of them from the pool. -/
def Collector.forSprout : Collector :=
  ⟨0, ⟨⟨.ofList [⟨0x10000000⟩], 1⟩, ⟨.empty, 1⟩⟩, ⟨.empty, 1⟩, ⟨.empty, 1⟩⟩

/-- The collector counts both fresh objects once. -/
theorem increments_scan_sprout :
    ∃ crew h', Collector.processModified [Collector.forSprout] Heap.sprout = .ok crew h' ∧
      h'.count ⟨0x10000020⟩ = 1 ∧ h'.count ⟨0x10000040⟩ = 1 := by
  have wf : Heap.sprout.WellFormed :=
    Heap.wellFormed_of_small rfl rfl (by decide +kernel) (by decide +kernel) (by decide +kernel)
  have counted : ∀ x ∈ Heap.sprout.known, x ∈ Heap.sprout.counted :=
    fun x hx => hx.resolve_right (Array.not_mem_empty x)
  have slots : ∀ x ∈ Heap.sprout.counted, ∀ o ∈ (Heap.sprout.view x).referents,
      o ∈ Heap.sprout.counted := by
    decide +kernel
  have known : ∀ x ∈ [(⟨0x10000000⟩ : Ref), ⟨0x10000020⟩, ⟨0x10000040⟩],
      x ∈ Heap.sprout.counted := by
    decide +kernel
  have ok : Processable Heap.sprout [⟨0x10000000⟩] [] := {
    wellFormed := wf
    slots_known := fun x hx o ho => .inl (slots x (counted x hx) o ho)
    objects_known := fun x hx => by
      rw [List.mem_singleton.1 hx]
      exact .inl (known _ (by simp))
    fields_valid := fun k hk => absurd hk List.not_mem_nil }
  obtain ⟨N, least, -, -, spec⟩ := @increments_reach_least_closure Heap.sprout
    [Collector.forSprout] [] [⟨0x10000000⟩] [] ok (.refl _) (.refl _) nofun
  obtain ⟨crew, h', run, -, -, scanned⟩ := spec ⟨_, [], rfl, rfl, nofun⟩ rfl rfl
    ⟨.of_blocks rfl, .of_blocks rfl, .of_blocks rfl, .of_blocks rfl⟩ rfl
  have both : N = {⟨0x10000020⟩, ⟨0x10000040⟩} := by
    have fresh : ∀ x ∈ Heap.sprout.counted, (Heap.sprout.view x).header.fresh = true ↔
        x = ⟨0x10000020⟩ ∨ x = ⟨0x10000040⟩ := by
      decide +kernel
    have second : ⟨0x10000020⟩ ∈ N := least.1.of_object (known _ (by simp))
      ((fresh _ (known _ (by simp))).2 (.inl rfl)) List.mem_cons_self (by decide +kernel)
    have third : ⟨0x10000040⟩ ∈ N := least.1.of_member (known _ (by simp))
      ((fresh _ (known _ (by simp))).2 (.inr rfl)) second (by decide +kernel)
    ext x
    rw [Finset.mem_insert, Finset.mem_singleton]
    refine ⟨fun hx => ?_, ?_⟩
    · obtain ⟨co, f⟩ := least.1.fresh x hx
      exact (fresh x co).1 f
    · rintro (rfl | rfl)
      · exact second
      · exact third
  subst both
  refine ⟨crew, h', run, ?_, ?_⟩
  · refine (scanned.view ⟨0x10000020⟩ (.inl (known _ (by simp)))).count.trans ?_
    decide +kernel
  · refine (scanned.view ⟨0x10000040⟩ (.inl (known _ (by simp)))).count.trans ?_
    decide +kernel

end DeferredCount
