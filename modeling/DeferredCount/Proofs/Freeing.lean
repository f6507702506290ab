import DeferredCount.Proofs.Execution
import DeferredCount.Proofs.Shifts

/-!
# What an increment does to the spaces

Collectors count references, mark objects and take entries from pools, which concerns the memory
and the pools. All that they do to the three spaces is that they free objects. That holds whatever
the heap looks like, since it follows from the operations that they are made of.

Results:
1. `HeapM.OnlyFrees.bind`: a sequence of operations that only free objects is one.
2. `Collector.phase_onlyFrees`, `HeapM.planPhase_onlyFrees`: the phases of an increment.
3. `Collects.proceeds`: in an increment, objects are freed and mutators do their parts, in whichever
   order the crew works.
-/

namespace DeferredCount

open Relation

/-- One thing that collectors do to a heap.
* `elsewhere`: the spaces stay as they are.
* `small`, `large`: an object is freed. -/
inductive Heap.Frees : Heap → Heap → Prop
  | elsewhere {h h' : Heap} : h'.small = h.small → h'.large = h.large →
    h'.permanent = h.permanent → Frees h h'
  | small {h h' : Heap} {o : Ref} : HeapM.freeSmall o h = .ok () h' → Frees h h'
  | large {h h' : Heap} {o : Ref} : HeapM.freeLarge o h = .ok () h' → Frees h h'

namespace HeapM

variable {α β σ : Type} {x : HeapM α} {f : α → HeapM β}

/-- All that the operation does to the spaces is that it frees objects. -/
def OnlyFrees (x : HeapM α) : Prop :=
  ∀ h a h', x h = .ok a h' → ReflTransGen Heap.Frees h h'

namespace OnlyFrees

theorem pure (a : α) : OnlyFrees (pure a : HeapM α) := by
  rintro h _ _ ⟨⟩
  exact .refl

theorem throw (e : Fault) : OnlyFrees (throw e : HeapM α) := by
  rintro h _ _ ⟨⟩

theorem lift (r : Except Fault α) : OnlyFrees (liftM r : HeapM α) := by
  cases r with
  | ok a => exact pure a
  | error e => exact throw e

theorem bind (hx : OnlyFrees x) (hf : ∀ a, OnlyFrees (f a)) : OnlyFrees (x >>= f) := by
  intro h b h' e
  obtain ⟨a, k, first, rest⟩ := bind_eq_ok.1 e
  exact (hx h a k first).trans (hf a k b h' rest)

theorem get {f : Heap → HeapM β} (hf : ∀ h, OnlyFrees (f h)) :
    OnlyFrees ((get : HeapM Heap) >>= f) := fun h => hf h h

theorem ite {p : Prop} [Decidable p] {y : HeapM α} (hx : OnlyFrees x) (hy : OnlyFrees y) :
    OnlyFrees (if p then x else y) := by
  split
  · exact hx
  · exact hy

/-- A change of anything but the spaces. -/
theorem modifyGet {u : Heap → α × Heap} (same : ∀ h, (u h).2.small = h.small ∧
    (u h).2.large = h.large ∧ (u h).2.permanent = h.permanent) :
    OnlyFrees (modifyGet u : HeapM α) := by
  rintro h _ _ ⟨⟩
  obtain ⟨small, large, permanent⟩ := same h
  exact .single (.elsewhere small large permanent)

theorem modify {g : Heap → Heap} (same : ∀ h, (g h).small = h.small ∧ (g h).large = h.large ∧
    (g h).permanent = h.permanent) : OnlyFrees (modify g : HeapM PUnit) := by
  rintro h _ _ ⟨⟩
  obtain ⟨small, large, permanent⟩ := same h
  exact .single (.elsewhere small large permanent)

theorem foldlM {g : σ → α → HeapM σ} (hg : ∀ s a, OnlyFrees (g s a)) (as : List α) (s : σ) :
    OnlyFrees (as.foldlM g s) := by
  induction as generalizing s with
  | nil => exact pure s
  | cons a as ih => exact (hg s a).bind ih

theorem mapM (hf : ∀ a, OnlyFrees (f a)) (as : List α) : OnlyFrees (as.mapM f) := by
  induction as with
  | nil => exact pure []
  | cons a as ih =>
    rw [List.mapM_cons]
    exact (hf a).bind fun _ => ih.bind fun _ => pure _

theorem filterM {p : α → HeapM Bool} (hp : ∀ a, OnlyFrees (p a)) (as : List α) :
    OnlyFrees (as.filterM p) := by
  have aux (as found : List α) : OnlyFrees (as.filterAuxM p found) := by
    induction as generalizing found with
    | nil => exact pure found
    | cons a as ih => exact (hp a).bind fun _ => ih _
  exact (aux as []).bind fun _ => pure _

theorem forIn {g : α → σ → HeapM (ForInStep σ)} (hg : ∀ a s, OnlyFrees (g a s)) (as : List α)
    (s : σ) : OnlyFrees (forIn as s g) := by
  induction as generalizing s with
  | nil => exact pure s
  | cons a as ih =>
    rw [List.forIn_cons]
    refine (hg a s).bind fun r => ?_
    cases r with
    | done s => exact pure s
    | yield s => exact ih s

end OnlyFrees

/-! ## Memory, pools and the log -/

section Elsewhere

variable {k : PoolId α} {b : Buffer α}

theorem emit_onlyFrees (e : Event) : OnlyFrees (emit e) := .modify fun _ => ⟨rfl, rfl, rfl⟩

theorem inspect_onlyFrees (f : Memory → Except Fault α) : OnlyFrees (inspect f) :=
  .get fun _ => .lift _

theorem change_onlyFrees (f : Memory → Except Fault Memory) : OnlyFrees (change f) :=
  .get fun _ => .bind (.lift _) fun _ => .modify fun _ => ⟨rfl, rfl, rfl⟩

theorem updateHeader_onlyFrees (o : Ref) (f : Header → Option Header) :
    OnlyFrees (updateHeader o f) := by
  refine .bind (inspect_onlyFrees _) fun old => ?_
  cases f old with
  | none => exact .pure _
  | some new => exact .bind (change_onlyFrees _) fun _ => .pure _

theorem flush_onlyFrees : OnlyFrees (flush k b) := .modifyGet fun _ => ⟨rfl, rfl, rfl⟩

theorem push_onlyFrees (v : α) : OnlyFrees (push k b v) := .modifyGet fun _ => ⟨rfl, rfl, rfl⟩

theorem pushAll_onlyFrees (vs : List α) : OnlyFrees (pushAll k b vs) :=
  .foldlM (fun _ v => push_onlyFrees v) vs b

theorem take?_onlyFrees : OnlyFrees (take? k b) := by
  refine .modifyGet fun h => ?_
  cases b.take? (h.pools.get k) with
  | none => exact ⟨rfl, rfl, rfl⟩
  | some r => exact ⟨rfl, rfl, rfl⟩

theorem join_onlyFrees (k : PoolId α) : OnlyFrees (join k) := .modify fun _ => ⟨rfl, rfl, rfl⟩

end Elsewhere

/-! ## Freeing and sweeping -/

theorem freeSmall_onlyFrees (o : Ref) : OnlyFrees (freeSmall o) := fun _ _ _ e => .single (.small e)

theorem freeLarge_onlyFrees (o : Ref) : OnlyFrees (freeLarge o) := fun _ _ _ e => .single (.large e)

theorem free_onlyFrees (o : Ref) : OnlyFrees (free o) :=
  .get fun _ => .ite (freeSmall_onlyFrees o) (.bind (.lift _) fun _ => freeLarge_onlyFrees o)

section Sweeps

variable {visit : σ → Ref → HeapM (Bool × σ)}

theorem sweepSmallFrom_onlyFrees (hv : ∀ s o, OnlyFrees (visit s o)) (todo : List Ref) (n : Nat)
    (s : σ) : OnlyFrees (sweepSmallFrom visit todo n s) := by
  induction todo generalizing n s with
  | nil => exact .pure _
  | cons o todo ih =>
    exact .bind (hv s o) fun _ => .ite (.bind (freeSmall_onlyFrees o) fun _ => ih _ _) (ih _ _)

theorem sweepSmall_onlyFrees (hv : ∀ s o, OnlyFrees (visit s o)) (s : σ) :
    OnlyFrees (sweepSmall visit s) :=
  .get fun _ => .bind (sweepSmallFrom_onlyFrees hv _ _ _) fun _ =>
    .bind (emit_onlyFrees _) fun _ => .pure _

theorem sweepLargeFrom_onlyFrees (hv : ∀ s o, OnlyFrees (visit s o)) (k : Nat)
    (cell : Option Address) (n : Nat) (s : σ) : OnlyFrees (sweepLargeFrom visit k cell n s) := by
  induction k generalizing cell n s with
  | zero => exact .pure _
  | succ k ih =>
    cases cell with
    | none => exact .pure _
    | some cell =>
      refine .get fun h => ?_
      dsimp only
      cases h.large.cells.get? cell with
      | none => exact ih _ _ _
      | some c =>
        exact .bind (hv s c.object) fun _ =>
          .ite (.bind (freeLarge_onlyFrees _) fun _ => ih _ _ _)
            (.bind (emit_onlyFrees _) fun _ => ih _ _ _)

theorem sweepLarge_onlyFrees (hv : ∀ s o, OnlyFrees (visit s o)) (s : σ) :
    OnlyFrees (sweepLarge visit s) :=
  .get fun _ => .bind (sweepLargeFrom_onlyFrees hv _ _ _ _) fun _ =>
    .bind (emit_onlyFrees _) fun _ => .pure _

end Sweeps

/-! ## Decrements -/

theorem owesDecrement_onlyFrees (o : Ref) : OnlyFrees (owesDecrement o) :=
  .get fun _ => .ite (.bind (inspect_onlyFrees _) fun _ => .pure _) (.pure _)

theorem droppedReferents_onlyFrees (o : Ref) (h : Header) : OnlyFrees (droppedReferents o h) :=
  .ite (.pure _) (.bind (inspect_onlyFrees _) fun _ => .filterM owesDecrement_onlyFrees _)

theorem processDecrement_onlyFrees (b : Buffer Ref) (o : Ref) :
    OnlyFrees (processDecrement b o) := by
  refine .get fun _ => .ite (.bind (updateHeader_onlyFrees _ _) fun (old, applied) => ?_) (.pure _)
  refine .ite ?_ (.ite (.throw _) (.pure _))
  cases old.lost with
  | counted => exact .pure _
  | last =>
    exact .bind (droppedReferents_onlyFrees _ _) fun _ => .bind (pushAll_onlyFrees _) fun _ =>
      .bind (emit_onlyFrees _) fun _ => .bind (free_onlyFrees _) fun _ => .pure _

theorem drainDecrementsIn_onlyFrees (k n : Nat) (b : Buffer Ref) :
    OnlyFrees (drainDecrementsIn k n b) := by
  induction k generalizing n b with
  | zero => exact .throw _
  | succ k ih =>
    refine .bind take?_onlyFrees fun r => ?_
    cases r with
    | none => exact .bind (join_onlyFrees _) fun _ => .pure _
    | some r => exact .bind (processDecrement_onlyFrees _ _) fun _ => ih _ _

theorem drainDecrements_onlyFrees (b : Buffer Ref) : OnlyFrees (drainDecrements b) :=
  .get fun _ => drainDecrementsIn_onlyFrees _ _ _

end HeapM

open HeapM

/-! ## Increments -/

namespace CountingBuffers

variable {cycle : Bool} {b : CountingBuffers}

theorem count_onlyFrees (o : Ref) : OnlyFrees (count cycle b o) := by
  refine .get fun _ => .ite (.ite (.bind (push_onlyFrees _) fun _ => .pure _) ?_) (.pure _)
  refine .bind (updateHeader_onlyFrees _ _) fun (old, _) => ?_
  dsimp only
  cases old.gained with
  | counted => exact .pure _
  | first => exact .bind (push_onlyFrees _) fun _ => .pure _

theorem countSlot_onlyFrees (slot : Address) : OnlyFrees (countSlot cycle b slot) := by
  refine .bind (inspect_onlyFrees _) fun r => ?_
  cases r with
  | none => exact .pure _
  | some o => exact count_onlyFrees o

theorem processField_onlyFrees (e : FieldEntry) : OnlyFrees (processField cycle b e) :=
  .bind (change_onlyFrees _) fun _ => .bind (.lift _) fun _ =>
    .foldlM (fun _ _ => countSlot_onlyFrees _) _ _

theorem processObject_onlyFrees (o : Ref) : OnlyFrees (processObject cycle b o) :=
  .bind (updateHeader_onlyFrees _ _) fun _ => .get fun _ =>
    .ite (.bind (change_onlyFrees _) fun _ => .bind (inspect_onlyFrees _) fun _ =>
        .foldlM (fun _ _ => count_onlyFrees _) _ _)
      (.bind (inspect_onlyFrees _) fun _ => .foldlM (fun _ _ => count_onlyFrees _) _ _)

end CountingBuffers

namespace Collector

variable {cycle : Bool}

theorem drainFieldsIn_onlyFrees (k n : Nat) (c : Collector) :
    OnlyFrees (drainFieldsIn cycle k n c) := by
  induction k generalizing n c with
  | zero => exact .throw _
  | succ k ih =>
    refine .bind take?_onlyFrees fun r => ?_
    cases r with
    | none => exact .bind (join_onlyFrees _) fun _ => .pure _
    | some r => exact .bind (CountingBuffers.processField_onlyFrees _) fun _ => ih _ _

theorem drainObjectsIn_onlyFrees (k n : Nat) (c : Collector) :
    OnlyFrees (drainObjectsIn cycle k n c) := by
  induction k generalizing n c with
  | zero => exact .throw _
  | succ k ih =>
    refine .bind take?_onlyFrees fun r => ?_
    cases r with
    | none => exact .bind (join_onlyFrees _) fun _ => .pure _
    | some r => exact .bind (CountingBuffers.processObject_onlyFrees _) fun _ => ih _ _

theorem scanRoots_onlyFrees : OnlyFrees scanRoots :=
  .get fun _ => .bind (.modify fun _ => ⟨rfl, rfl, rfl⟩) fun _ => .lift _

theorem countRoots_onlyFrees (c : Collector) : OnlyFrees (countRoots cycle c) :=
  .ite (.bind scanRoots_onlyFrees fun _ => .bind (.modify fun _ => ⟨rfl, rfl, rfl⟩) fun _ =>
      .ite (.pure _) (.bind (.foldlM (fun _ o => CountingBuffers.count_onlyFrees o) _ _)
        fun _ => .pure _))
    (.pure _)

theorem takeOldRoots_onlyFrees : OnlyFrees takeOldRoots := .modifyGet fun _ => ⟨rfl, rfl, rfl⟩

theorem dropOldRoots_onlyFrees (c : Collector) : OnlyFrees (dropOldRoots c) :=
  .ite (.bind takeOldRoots_onlyFrees fun _ => .bind (pushAll_onlyFrees _) fun _ => .pure _)
    (.pure _)

theorem dropDecrements_onlyFrees (c : Collector) : OnlyFrees (dropDecrements c) :=
  .ite (.bind takeOldRoots_onlyFrees fun _ => .bind (.modify fun _ => ⟨rfl, rfl, rfl⟩) fun _ =>
    .pure _) (.pure _)

theorem drainDecrements_onlyFrees (c : Collector) : OnlyFrees c.drainDecrements :=
  .bind (HeapM.drainDecrements_onlyFrees _) fun _ => .pure _

theorem endIncrements_onlyFrees (c : Collector) (roots fields objects : Nat) :
    OnlyFrees (c.endIncrements roots fields objects) :=
  .bind flush_onlyFrees fun _ => .bind (emit_onlyFrees _) fun _ => .pure _

/-- Whatever a collector does while the crew counts references. -/
theorem Counts.onlyFrees {x y : Collector × Heap} (act : Counts cycle x y) :
    ReflTransGen Heap.Frees x.2 y.2 := by
  cases act with
  | field taken worked =>
    exact (take?_onlyFrees _ _ _ taken).trans
      (CountingBuffers.processField_onlyFrees _ _ _ _ worked)
  | object taken worked =>
    exact (take?_onlyFrees _ _ _ taken).trans
      (CountingBuffers.processObject_onlyFrees _ _ _ _ worked)
  | handOver flushed => exact flush_onlyFrees _ _ _ flushed
  | searchFields | searchObjects | emit => exact .single (.elsewhere rfl rfl rfl)

/-- Whatever a collector does while the crew frees objects. -/
theorem Frees.onlyFrees {x y : Collector × Heap} (act : Frees cycle x y) :
    ReflTransGen Heap.Frees x.2 y.2 := by
  cases act with
  | @oldRoot c h h' o roots _ _ _ _ pushed =>
    have first : h.Frees { h with oldRoots := roots } := .elsewhere rfl rfl rfl
    exact .head first (push_onlyFrees o _ _ _ pushed)
  | decrement _ taken worked =>
    exact (take?_onlyFrees _ _ _ taken).trans (processDecrement_onlyFrees _ _ _ _ _ worked)
  | forget _ dropped => exact dropDecrements_onlyFrees _ _ _ _ dropped
  | search | emit => exact .single (.elsewhere rfl rfl rfl)

theorem turns_onlyFrees {α : Type} {f : Collector → HeapM (α × Collector)}
    (hf : ∀ c, OnlyFrees (f c)) (crew : List Collector) : OnlyFrees (turns f crew) :=
  .bind (.mapM hf crew) fun _ => .pure _

theorem processModified_onlyFrees (crew : List Collector) : OnlyFrees (processModified crew) :=
  .get fun _ => .bind (turns_onlyFrees countRoots_onlyFrees _) fun _ =>
    .bind (turns_onlyFrees (fun _ => .get fun _ => drainFieldsIn_onlyFrees _ _ _) _) fun _ =>
      .bind (turns_onlyFrees (fun _ => .get fun _ => drainObjectsIn_onlyFrees _ _ _) _) fun _ =>
        .mapM (fun (c, r, f, o) => c.endIncrements_onlyFrees r f o) _

theorem processDecrements_onlyFrees (crew : List Collector) :
    OnlyFrees (processDecrements crew) :=
  .get fun _ => .ite (.mapM dropDecrements_onlyFrees _)
    (.bind (.mapM dropOldRoots_onlyFrees _) fun _ =>
      .bind (turns_onlyFrees drainDecrements_onlyFrees _) fun _ =>
        .bind (.forIn (fun _ _ => .bind (emit_onlyFrees _) fun _ => .pure _) _ _) fun _ => .pure _)

/-- What the collectors do in a phase. -/
theorem phase_onlyFrees (crew : List Collector) (p : Phase) : OnlyFrees (phase crew p) := by
  unfold phase
  split
  · exact .bind (.forIn (fun _ _ => .bind (.lift _) fun _ => .pure _) _ _) fun _ => .pure _
  · exact processModified_onlyFrees crew
  · exact processDecrements_onlyFrees crew
  · exact .bind (.forIn (fun _ _ => .ite (.pure _) (.bind (.throw _) fun _ => .pure _)) _ _)
      fun _ => .pure _
  · exact .throw _

end Collector

/-! ## The backup trace -/

namespace Trace

theorem visit_onlyFrees (counted : Bool) (t : Trace) (o : Ref) :
    OnlyFrees (visit counted t o) := by
  refine .get fun _ => .ite (.bind (updateHeader_onlyFrees _ _) fun _ => ?_) (.pure _)
  exact .ite (.bind (updateHeader_onlyFrees _ _) fun _ =>
      .ite (.bind (updateHeader_onlyFrees _ _) fun _ => .pure _) (.pure _))
    (.ite (.bind (updateHeader_onlyFrees _ _) fun _ => .pure _) (.pure _))

theorem scan_onlyFrees (t : Trace) (o : Ref) : OnlyFrees (t.scan o) :=
  .bind (inspect_onlyFrees _) fun _ => .foldlM (visit_onlyFrees true) _ _

theorem drainIn_onlyFrees (k : Nat) (t : Trace) : OnlyFrees (drainIn k t) := by
  induction k generalizing t with
  | zero => exact .throw _
  | succ k ih =>
    rw [drainIn]
    cases t.stack.pop with
    | none => exact .pure _
    | some r => exact .bind (scan_onlyFrees _ _) fun _ => ih _

theorem markAll_onlyFrees (roots : List Ref) : OnlyFrees (markAll roots) :=
  .get fun _ =>
    .bind (.foldlM (fun _ _ => .bind (updateHeader_onlyFrees _ _) fun _ => scan_onlyFrees _ _) _ _)
      fun _ => .bind (.foldlM (visit_onlyFrees true) _ _) fun _ =>
        .bind (.modifyGet fun _ => ⟨rfl, rfl, rfl⟩) fun _ =>
          .bind (.foldlM (visit_onlyFrees false) _ _) fun _ => drainIn_onlyFrees _ _

theorem selectUnmarked_onlyFrees (s : Unit) (o : Ref) : OnlyFrees (selectUnmarked s o) :=
  .bind (updateHeader_onlyFrees _ _) fun _ => .pure _

theorem clearMark_onlyFrees (o : Ref) : OnlyFrees (clearMark o) :=
  .bind (updateHeader_onlyFrees _ _) fun _ => .pure _

theorem run_onlyFrees (roots : List Ref) : OnlyFrees (run roots) := by
  refine .bind (markAll_onlyFrees _) fun _ => .bind (emit_onlyFrees _) fun _ =>
    .bind (sweepSmall_onlyFrees selectUnmarked_onlyFrees _) fun _ =>
      .bind (sweepLarge_onlyFrees selectUnmarked_onlyFrees _) fun _ => .get fun h => .bind ?_
        fun _ => .bind (emit_onlyFrees _) fun _ => .pure _
  rw [← Array.forIn_toList]
  exact .forIn (fun o _ => .bind (clearMark_onlyFrees o) fun _ => .pure _) _ _

end Trace

/-! ## The plan -/

namespace HeapM

theorem request_onlyFrees (kind : CollectionKind) (n : Nat) : OnlyFrees (request kind n) :=
  .get fun _ => .bind (.lift _) fun _ => .modify fun _ => ⟨rfl, rfl, rfl⟩

theorem progressPhase_onlyFrees (p : Phase) : OnlyFrees (progressPhase p) :=
  .get fun _ => .bind (.lift _) fun _ => .bind (.modify fun _ => ⟨rfl, rfl, rfl⟩) fun _ =>
    .ite (emit_onlyFrees _) (.pure _)

/-- What the plan does in a phase. -/
theorem planPhase_onlyFrees (p : Phase) : OnlyFrees (planPhase p) := by
  unfold planPhase
  split
  · exact .get fun _ => .bind (.lift _) fun _ => .modify fun _ => ⟨rfl, rfl, rfl⟩
  · exact .get fun _ => .ite (.bind (Trace.run_onlyFrees _) fun _ => emit_onlyFrees _) (.pure _)
  · exact .bind (.modify fun _ => ⟨rfl, rfl, rfl⟩) fun _ => .get fun _ =>
      .ite (.pure _) (.throw _)
  · exact progressPhase_onlyFrees _

theorem bind_onlyFrees (ordinal : Nat) : OnlyFrees (Collector.bind ordinal) :=
  .get fun _ => .bind (.lift _) fun _ => .bind (.lift _) fun _ => .bind (.lift _) fun _ => .pure _

end HeapM

/-! ## Increments -/

/-- One thing that happens to a heap and its mutators in an increment.
* `frees`: an object is freed, or nothing happens to the spaces.
* `phase`: a mutator does its part of a phase. -/
inductive Heap.Proceeds : Heap × List Mutator → Heap × List Mutator → Prop
  | frees {h h' : Heap} {ms : List Mutator} : h.Frees h' → Proceeds (h, ms) (h', ms)
  | phase {h h' : Heap} {before after : List Mutator} {m m' : Mutator} {p : Phase} :
      m.phase p h = .ok m' h' → Proceeds (h, before ++ m :: after) (h', before ++ m' :: after)

namespace HeapM

open Heap (Proceeds)

variable {α : Type} {x : HeapM α} {a : α} {h h' : Heap} {ms ms' : List Mutator}
  {crew crew' : List Collector}

theorem OnlyFrees.proceeds (only : OnlyFrees x) (e : x h = .ok a h') (ms : List Mutator) :
    ReflTransGen Proceeds (h, ms) (h', ms) :=
  (only h a h' e).lift (·, ms) fun _ _ => .frees

/-- The mutators do their parts of a phase one after another. -/
theorem phases_proceed {p : Phase} (before : List Mutator)
    (e : ms.mapM (·.phase p) h = .ok ms' h') :
    ReflTransGen Proceeds (h, before ++ ms) (h', before ++ ms') := by
  induction ms generalizing before h ms' with
  | nil =>
    cases e
    exact .refl
  | cons m ms ih =>
    obtain ⟨m', rest, k, first, others, rfl⟩ := mapM_cons_eq_ok.1 e
    have later := ih (before ++ [m']) others
    rw [List.append_assoc, List.append_assoc, List.singleton_append, List.singleton_append] at later
    exact .head (.phase first) later

/-- What a step of the schedule is. -/
theorem runStep_eq_ok {s : Step} (e : runStep ms crew s h = .ok (ms', crew') h') :
    match s.party with
    | .plan => ms' = ms ∧ planPhase s.phase h = .ok () h'
    | .mutators => ms.mapM (·.phase s.phase) h = .ok ms' h'
    | .collectors => ms' = ms ∧ Collector.phase crew s.phase h = .ok crew' h' := by
  rw [runStep] at e
  cases party : s.party with
  | plan =>
    rw [party] at e
    obtain ⟨_, _, planned, e⟩ := bind_eq_ok.1 e
    cases e
    exact ⟨rfl, planned⟩
  | mutators =>
    rw [party] at e
    obtain ⟨_, _, turns, e⟩ := bind_eq_ok.1 e
    cases e
    exact turns
  | collectors =>
    rw [party] at e
    obtain ⟨_, _, worked, e⟩ := bind_eq_ok.1 e
    cases e
    exact ⟨rfl, worked⟩

theorem muster_onlyFrees (kind : CollectionKind) : OnlyFrees (muster kind) :=
  .get fun _ => .bind (request_onlyFrees _ _) fun _ => .get fun _ =>
    .bind (emit_onlyFrees _) fun _ => .mapM bind_onlyFrees _

theorem reportDone_onlyFrees : OnlyFrees reportDone := .get fun _ => emit_onlyFrees _

end HeapM

/-- Whatever a crew does while it counts references. -/
theorem Shift.Counts.onlyFrees {cycle : Bool} {s s' : Shift} (act : Counts cycle s s') :
    ReflTransGen Heap.Frees s.heap s'.heap := by
  cases act with
  | report _ scanned =>
    exact (Collector.scanRoots_onlyFrees _ _ _ scanned).tail (.elsewhere rfl rfl rfl)
  | root _ counted => exact CountingBuffers.count_onlyFrees _ _ _ _ counted
  | member act => exact act.onlyFrees

/-- Whatever a crew does while it frees objects. -/
theorem Shift.Frees.onlyFrees {cycle : Bool} {s s' : Shift} (act : Frees cycle s s') :
    ReflTransGen Heap.Frees s.heap s'.heap := by
  cases act with
  | member act => exact act.onlyFrees

open Heap (Proceeds)

variable {h h' : Heap} {t t' : List Mutator × List Collector}

/-- In a step of the schedule the mutators go through their phase, or they are left alone and
nothing is done but that objects are freed. -/
theorem Step.Runs.phases_or_frees {s : Step} (run : s.Runs t h t' h') :
    s.party = .mutators ∧ t.1.mapM (·.phase s.phase) h = .ok t'.1 h' ∨
      s.party ≠ .mutators ∧ t'.1 = t.1 ∧ ReflTransGen Heap.Frees h h' := by
  cases run with
  | inTurns run =>
    have step := HeapM.runStep_eq_ok run
    cases party : s.party with
    | plan =>
      obtain ⟨same, planned⟩ := party ▸ step
      exact .inr ⟨nofun, same, HeapM.planPhase_onlyFrees _ _ _ _ planned⟩
    | mutators =>
      rw [party] at step
      exact .inl ⟨rfl, step⟩
    | collectors =>
      obtain ⟨same, worked⟩ := party ▸ step
      exact .inr ⟨nofun, same, Collector.phase_onlyFrees _ _ _ _ _ worked⟩
  | counts path _ =>
    exact .inr ⟨nofun, rfl, path.lift' Shift.heap fun _ _ => Shift.Counts.onlyFrees⟩
  | frees path _ =>
    exact .inr ⟨nofun, rfl, path.lift' Shift.heap fun _ _ => Shift.Frees.onlyFrees⟩

/-- All that happens in a step of the schedule. -/
theorem Step.Runs.proceeds {s : Step} (run : s.Runs t h t' h') :
    ReflTransGen Proceeds (h, t.1) (h', t'.1) := by
  rcases run.phases_or_frees with ⟨-, turns⟩ | ⟨-, same, frees⟩
  · exact HeapM.phases_proceed [] turns
  · rw [same]
    exact frees.lift (·, _) fun _ _ => .frees

theorem Schedule.Passes.proceeds {steps : List Step} (p : Passes steps t h t' h') :
    ReflTransGen Proceeds (h, t.1) (h', t'.1) := by
  induction p with
  | nil => exact .refl
  | cons run _ ih =>
    have begun (log : List Event) (h : Heap) (ms : List Mutator) :
        Proceeds (h, ms) ({ h with log }, ms) := .frees (.elsewhere rfl rfl rfl)
    exact .head (begun _ _ _) (run.proceeds.trans (.head (begun _ _ _) ih))

/-- All that happens in an increment. -/
theorem Collects.proceeds {kind : CollectionKind} {ms ms' : List Mutator}
    (collects : Collects kind ms h ms' h') : ReflTransGen Proceeds (h, ms) (h', ms') := by
  obtain ⟨mustered, passes, reported⟩ := collects
  exact ((HeapM.muster_onlyFrees kind).proceeds mustered ms).trans
    (passes.proceeds.trans (HeapM.reportDone_onlyFrees.proceeds reported ms'))

end DeferredCount
