import DeferredCount.Proofs.Barriers

/-!
# Operations that pass a store

Whether an operation runs before or after a store to some slot makes no difference if it does not
read that slot. The steps of the write barrier are of that kind as long as what they log does not
cover the slot. They set marks and log bits, and the store writes none of those.

Results:
1. `HeapM.Passes.bind`: a sequence of operations that pass a change of the heap passes it.
2. `Mutator.logField_passes`: logging slots other than the one that is stored to.
-/

namespace DeferredCount

/-! ## Operations that pass a store -/

namespace HeapM

variable {α β : Type}

/-- The end of an operation, with the heap changed. -/
def onEnd (g : Heap → Heap) : EStateM.Result Fault Heap α → EStateM.Result Fault Heap α
  | .ok a h => .ok a (g h)
  | .error f h => .error f (g h)

/-- An operation passes a change of the heap: it makes no difference whether the change is made
before it or after it. That holds on heaps with a property, which the operation keeps. -/
def Passes (P : Heap → Prop) (g : Heap → Heap) (x : HeapM α) : Prop :=
  ∀ h, P h → x (g h) = onEnd g (x h) ∧ ∀ a h', x h = .ok a h' → P h'

namespace Passes

variable {P : Heap → Prop} {g : Heap → Heap} {x : HeapM α} {f : α → HeapM β}

theorem pure (a : α) : Passes P g (pure a : HeapM α) := fun h p =>
  ⟨rfl, fun _ _ e => by cases e; exact p⟩

theorem throw (e : Fault) : Passes P g (throw e : HeapM α) := fun h p =>
  ⟨rfl, fun _ _ e => by cases e⟩

theorem lift (r : Except Fault α) : Passes P g (liftM r : HeapM α) := by
  cases r with
  | ok a => exact pure a
  | error e => exact throw e

/-- An operation and another one that depends on its result. -/
theorem bind_of (hx : Passes P g x)
    (hf : ∀ a, (∃ h h', P h ∧ x h = .ok a h') → Passes P g (f a)) : Passes P g (x >>= f) := by
  intro h p
  obtain ⟨same, keeps⟩ := hx h p
  cases e : x h with
  | error fault h' =>
    rw [e] at same
    rw [bind_of_error same, bind_of_error e]
    exact ⟨rfl, fun _ _ e => by cases e⟩
  | ok a h' =>
    rw [e] at same
    rw [bind_of_ok same, bind_of_ok e]
    exact hf a ⟨h, h', p, e⟩ h' (keeps a h' e)

theorem bind (hx : Passes P g x) (hf : ∀ a, Passes P g (f a)) : Passes P g (x >>= f) :=
  hx.bind_of fun a _ => hf a

theorem ite {p : Prop} [Decidable p] {y : HeapM α} (hx : Passes P g x) (hy : Passes P g y) :
    Passes P g (if p then x else y) := by
  split
  · exact hx
  · exact hy

/-- An operation that changes something else. -/
theorem modifyGet {u : Heap → α × Heap} (same : ∀ h, u (g h) = ((u h).1, g (u h).2))
    (keeps : ∀ h, P h → P (u h).2) : Passes P g (modifyGet u : HeapM α) := fun h p =>
  ⟨by rw [modifyGet_apply, same]; rfl, fun _ _ e => by cases e; exact keeps h p⟩

end Passes

end HeapM

/-! ## Steps that pass a store -/

/-- The heap after a store to slot `i` of an object. -/
def Heap.storing (x : Ref) (i : Nat) (t : Option Ref) (h : Heap) : Heap :=
  { h with memory := h.memory.putTarget x i t }

theorem Heap.storing_putHeader (x : Ref) (i : Nat) (t : Option Ref) (h : Heap) (hd : Header) :
    (h.storing x i t).putHeader x hd = (h.putHeader x hd).storing x i t :=
  congrArg (fun memory => { h with memory }) (Memory.putTarget_putHeader ..)

/-- An object of `n` slots need not be logged for a store to a slot whose mark is that of field
`j`. -/
structure Heap.Quiet (x : Ref) (n j : Nat) (h : Heap) : Prop where
  placed : h.memory.Placed x
  length : h.memory.length x = n
  done : (h.view x).isMarked j = true ∨ (h.view x).header.logRequired = false

namespace Heap.Quiet

variable {x : Ref} {n j i k : Nat} {h : Heap} {t : Option Ref}

theorem storing_view (q : h.Quiet x n j) (hi : i < n) : (h.storing x i t).view x =
    { h.view x with targets := (h.view x).targets.set i (Ref.ofWord? (Ref.toWord t)) } :=
  Memory.view_putTarget_word (q.length ▸ hi) t

theorem storing (q : h.Quiet x n j) (hi : i < n) : (h.storing x i t).Quiet x n j where
  placed := q.placed.putTarget i t
  length := (Memory.length_putTarget ..).trans q.length
  done := by
    rw [q.storing_view hi]
    exact q.done

theorem putHeader (q : h.Quiet x n j) {hd : Header}
    (required : hd.logRequired = (h.view x).header.logRequired) :
    Heap.Quiet x n j (h.putHeader x hd) where
  placed := q.placed.putHeader hd
  length := (Memory.length_putHeader ..).trans q.length
  done := by
    rw [Heap.view, Heap.putHeader, Memory.view_putHeader_self]
    exact q.done.imp_right required.trans

theorem putMark (q : h.Quiet x n j) (hk : k < n) :
    Heap.Quiet x n j { h with memory := h.memory.putMark x k 1 } where
  placed := q.placed.putMark k 1
  length := (Memory.length_putMark ..).trans q.length
  done := by
    have bound : k < (h.view x).marks.length := by
      rw [Heap.view, Memory.length_marks, q.length]
      exact hk
    rw [Heap.view, Memory.view_putMark_self]
    refine q.done.imp_left fun marked => ?_
    show ({ h.view x with marks := (h.view x).marks.set k true } : ObjectView).isMarked j = true
    rw [ObjectView.isMarked_set _ bound, marked, ite_self]

end Heap.Quiet

namespace HeapM

/-- An operation passes a store to slot `i` of an object while field `j` of it is logged. -/
abbrev PassesStore {α : Type} (x : Ref) (n j i : Nat) (t : Option Ref) (y : HeapM α) : Prop :=
  Passes (Heap.Quiet x n j) (Heap.storing x i t) y

section Passing

variable {x : Ref} {n j i k : Nat} {t : Option Ref} {α : Type}

theorem inspect_passes {f : Memory → Except Fault α}
    (same : ∀ h : Heap, h.Quiet x n j → f (h.storing x i t).memory = f h.memory) :
    PassesStore x n j i t (inspect f) := by
  intro h q
  rw [inspect, get_bind_apply, get_bind_apply, same h q]
  cases f h.memory with
  | ok a => exact ⟨rfl, fun _ _ e => by cases e; exact q⟩
  | error e => exact ⟨rfl, fun _ _ e => by cases e⟩

/-- A step whose result is the same on all quiet heaps. -/
theorem constant_passes {β : Type} (hi : i < n) {y : HeapM α} {a : α}
    (e : ∀ h : Heap, h.Quiet x n j → y h = .ok a h) {f : α → HeapM β}
    (hf : PassesStore x n j i t (f a)) :
    PassesStore x n j i t (y >>= f) := by
  intro h q
  rw [bind_of_ok (e h q), bind_of_ok (e _ (q.storing hi))]
  exact hf h q

/-- A step that leaves the memory alone. -/
theorem aside_passes {u : Heap → α × Heap}
    (same : ∀ h M, u { h with memory := M } = ((u h).1, { (u h).2 with memory := M }))
    (memory : ∀ h, (u h).2.memory = h.memory) :
    PassesStore x n j i t (modifyGet u : HeapM α) := by
  refine .modifyGet (fun h => ?_) fun h q => ?_
  · rw [Heap.storing, same, Heap.storing, memory]
  · refine ⟨?_, ?_, ?_⟩ <;> simp only [Heap.view, memory]
    exacts [q.placed, q.length, q.done]

theorem emit_passes (e : Event) :
    PassesStore x n j i t (emit e) :=
  aside_passes (fun _ _ => rfl) fun _ => rfl

theorem count_passes (c : BarrierStats.Counter) (k : Nat) :
    PassesStore x n j i t (count c k) :=
  aside_passes (fun _ _ => rfl) fun _ => rfl

theorem push_passes (p : PoolId α) (b : Buffer α) (v : α) :
    PassesStore x n j i t (push p b v) :=
  aside_passes (fun _ _ => rfl) fun _ => rfl

theorem pushAll_passes (p : PoolId α) (b : Buffer α) (vs : List α) :
    PassesStore x n j i t (pushAll p b vs) := by
  induction vs generalizing b with
  | nil => exact .pure b
  | cons v vs ih => exact .bind (push_passes p b v) fun b => ih b

theorem updateHeader_passes (hi : i < n) {f : Header → Header}
    (required : ∀ hd, (f hd).logRequired = hd.logRequired) :
    PassesStore x n j i t (updateHeader x fun hd => some (f hd)) := by
  intro h q
  have same : ((h.storing x i t).view x).header = (h.view x).header := by rw [q.storing_view hi]
  have e := updateHeader_some q.placed (f := fun hd => some (f hd)) rfl
  have e' := updateHeader_some (q.storing (t := t) hi).placed (f := fun hd => some (f hd)) rfl
  rw [same] at e'
  rw [e, e']
  refine ⟨?_, fun _ _ e => ?_⟩
  · rw [onEnd, Heap.storing_putHeader]
  · cases e
    exact q.putHeader (required _)

end Passing

end HeapM

/-! ## Barriers that pass a store -/

namespace Mutator

open HeapM (PassesStore)

section Passing

variable {x : Ref} {n j i k : Nat} {t : Option Ref} {m : Mutator} {h : Heap}

theorem lock_passes (hi : i < n) :
    PassesStore x n j i t (lock x) := by
  have header : PassesStore x n j i t (HeapM.inspect (·.header x)) :=
    HeapM.inspect_passes fun h q => by
      rw [(q.storing hi).placed.header_eq, q.placed.header_eq]
      show Except.ok ((h.storing x i t).view x).header = Except.ok (h.view x).header
      rw [q.storing_view hi]
  refine .bind header fun hd => .ite (.throw _) ?_
  exact .ite (.bind (HeapM.updateHeader_passes hi fun _ => rfl) fun _ => .pure _) (.pure _)

theorem finishLogging_passes (hi : i < n) :
    PassesStore x n j i t (finishLogging x) :=
  .bind (HeapM.updateHeader_passes hi fun _ => rfl) fun _ => .lift _

theorem markField_passes (hi : i < n) (hk : k < n) :
    PassesStore x n j i t (markField x k) := by
  intro h q
  have q' := q.storing (t := t) hi
  have same : (h.storing x i t).memory.markAddr x k = h.memory.markAddr x k := by
    rw [Memory.markAddr, Memory.markAddr, q.length, q'.length]
  rw [markField_of_placed q.placed (q.length ▸ hk), markField_of_placed q'.placed
    (q'.length ▸ hk), same]
  refine ⟨?_, fun _ _ e => ?_⟩
  · rw [HeapM.onEnd, Heap.storing, Heap.storing, Memory.putTarget_putMark (q.length ▸ hi)]
  · cases e
    exact q.putMark hk

theorem isFieldUnlogged_passes (hi : i < n) (hk : k < n) :
    PassesStore x n j i t (HeapM.inspect (·.isFieldUnlogged x k)) :=
  HeapM.inspect_passes fun h q => by
    have q' := q.storing (t := t) hi
    rw [isFieldUnlogged_eq q'.placed (q'.length ▸ hk), isFieldUnlogged_eq q.placed (q.length ▸ hk),
      q.storing_view hi]
    rfl

/-- A store to a slot that is not among those that an entry covers. -/
theorem referents_passes {c : Covered} {fields : List Nat}
    (slots : c.slots = .ok (fields.map x.slotAddr)) (fits : ∀ k ∈ fields, k < n) (hi : i < n)
    (outside : i ∉ fields) :
    PassesStore x n j i t (HeapM.inspect c.referents) :=
  HeapM.inspect_passes fun h q => by
    have q' := q.storing (t := t) hi
    have targets : fields.map ((h.storing x i t).view x).target = fields.map (h.view x).target := by
      refine List.map_congr_left fun k hk => ?_
      have ne : i ≠ k := fun eq => outside (eq ▸ hk)
      rw [q.storing_view hi, ObjectView.target, ObjectView.target, List.getD_eq_getElem?_getD,
        List.getD_eq_getElem?_getD, List.getElem?_set_ne ne]
    rw [Covered.referents, Covered.referents, slots, Except.ok_bind, Except.ok_bind,
      mapM_loadRef q'.placed fields fun k hk => q'.length ▸ fits k hk,
      mapM_loadRef q.placed fields fun k hk => q.length ▸ fits k hk]
    exact congrArg (fun ts => Except.ok (ts.filterMap id)) targets

theorem pushDecrements_passes (m : Mutator) (os : List Ref) :
    PassesStore x n j i t (m.pushDecrements os) :=
  .bind (HeapM.pushAll_passes _ _ _) fun _ => .pure _

theorem pushField_passes (m : Mutator) (e : FieldEntry) :
    PassesStore x n j i t (m.pushField e) :=
  .bind (HeapM.push_passes _ _ _) fun _ => .pure _

theorem logField_passes (m : Mutator) {f : Field} {c : Covered} {fields : List Nat}
    (slots : c.slots = .ok (fields.map x.slotAddr)) (fits : ∀ k ∈ fields, k < n) (hi : i < n)
    (outside : i ∉ fields) (hf : f.index < n) :
    PassesStore x n j i t (m.logField x f c) := by
  have finish : ∀ m : Mutator, PassesStore x n j i t
      (do finishLogging x; return m : HeapM Mutator) := fun m =>
    .bind (finishLogging_passes hi) fun _ => .pure m
  refine .bind (lock_passes hi) fun taken => .ite (.bind (isFieldUnlogged_passes hi hf)
    fun unlogged => .ite ?_ (finish m)) (.pure m)
  refine .bind (referents_passes slots fits hi outside) fun referents => ?_
  refine .bind (m.pushDecrements_passes referents) fun m => ?_
  refine .bind (markField_passes hi hf) fun mark => ?_
  refine .bind (m.pushField_passes _) fun m => ?_
  refine .bind (.bind (HeapM.count_passes _ _) fun _ => HeapM.count_passes _ _) fun _ => ?_
  exact .bind (HeapM.emit_passes _) fun _ => finish m

end Passing

end Mutator

end DeferredCount
