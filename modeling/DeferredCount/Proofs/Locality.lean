import DeferredCount.Proofs.Creating

/-!
# Operations on the spaces

Finding memory for an object reads and changes the three spaces, what the client answers when memory
is exhausted, and the log. Nothing else that the instance keeps matters: on two heaps with the same
spaces it ends alike, with the same address or with the same fault. The allocators themselves do not
ask the client either. Telling the space of a new object is an operation of that kind, too.

The faults of such an operation concern the request and the client. No check on what the instance
itself keeps is among them.

Results:
1. `Allocators.allocate_onSpaces`, `Mutator.allocate_onSpaces`: finding memory, and the faults it
   may end with.
2. `HeapM.enroll_onSpaces`: telling the space of a new object.
-/

namespace DeferredCount

/-! ## Checks on what an instance keeps -/

/-- Does the check concern what an instance keeps of its objects, locks and buffers? -/
def Check.isInternal : Check → Bool
  | .lockHeld | .runInRange | .reservedCovers | .cellHoldsObject | .freedIsCounted
  | .collectorFlushed => true
  | _ => false

/-- Does the fault say that an instance lost track of its objects, locks, pages or buffers? -/
def Fault.isInternal : Fault → Bool
  | .check c => c.isInternal
  | .zeroCount _ | .lockNotHeld _ | .cellListed _ | .alreadyLive _ | .notLive _ | .notInCell _
  | .noPendingCell _ | .notListed _ | .noSpace .. | .incrementInProgress | .poolsNotEmpty
  | .mutatorNotFlushed | .collectorNotFlushed _ | .unknownPhase .. | .waitsForever => true
  | _ => false

/-- A fault that concerns the request or the client. -/
abbrev Fault.IsExternal (f : Fault) : Prop := f.isInternal = false

namespace Except

variable {α β : Type} {P : Fault → Prop} {x : Except Fault α} {g : α → Except Fault β}

/-- A computation whose faults are all among `P`. -/
def Within (P : Fault → Prop) (x : Except Fault α) : Prop := ∀ f, x = .error f → P f

theorem Within.ok (a : α) : Within P (.ok a : Except Fault α) := by
  rintro f ⟨⟩

theorem Within.error {f : Fault} (hf : P f) : Within P (.error f : Except Fault α) := by
  rintro _ ⟨⟩
  exact hf

theorem Within.bind (hx : Within P x) (hg : ∀ a, Within P (g a)) : Within P (x >>= g) := by
  cases x with
  | ok a => exact hg a
  | error f => exact .error (hx f rfl)

theorem Within.ite {p : Prop} [Decidable p] {y : Except Fault α} (hx : Within P x)
    (hy : Within P y) : Within P (if p then x else y) := by
  split
  · exact hx
  · exact hy

end Except

open DeferredCount.Except (Within)

/-! ## Computations that a request needs -/

section Requests

variable {a b size align offset pages : Nat}

theorem Word.add_within : Within Fault.IsExternal (Word.add a b) := .ite (.ok _) (.error rfl)

theorem Word.mul_within : Within Fault.IsExternal (Word.mul a b) := .ite (.ok _) (.error rfl)

theorem Word.signed_within {i : Int} : Within Fault.IsExternal (Word.signed i) :=
  .ite (.ok _) (.error rfl)

theorem distance_within : Within Fault.IsExternal (distance a b) := .ite (.ok _) (.error rfl)

theorem require_within {c : Check} (external : c.isInternal = false) (p : Bool) :
    Within Fault.IsExternal (require c p) :=
  .ite (.ok _) (.error external)

theorem bytesToPages_within : Within Fault.IsExternal (bytesToPages a) :=
  .bind Word.add_within fun _ => .ok _

theorem Memory.objectSize_within {slots : Nat} : Within Fault.IsExternal (objectSize slots) :=
  .bind Word.mul_within fun _ => .bind Word.add_within fun _ => Word.mul_within

theorem alignPlace_within : Within Fault.IsExternal (alignPlace a align offset) :=
  .bind (require_within rfl _) fun _ => .bind (require_within rfl _) fun _ =>
    .bind (require_within rfl _) fun _ =>
      .bind (.bind Word.signed_within fun _ => .bind Word.signed_within fun _ => .ok _) fun _ =>
        Word.add_within

theorem reserveSize_within : Within Fault.IsExternal (reserveSize size align) :=
  .ite (.ok _) (.bind Word.add_within fun _ => .ok _)

theorem Mutator.allocatorFor_within {s : Semantics} :
    Within Fault.IsExternal (allocatorFor size align s) := by
  unfold allocatorFor
  split
  · exact .bind reserveSize_within fun _ => .ok _
  · exact .error rfl
  · exact .ok _

theorem BumpAllocator.blockFor_within : Within Fault.IsExternal (blockFor size align) :=
  .bind Word.add_within fun _ => .bind Word.add_within fun _ => .ok _

theorem BumpAllocator.place?_within {b : BumpAllocator} :
    Within Fault.IsExternal (b.place? size align offset) :=
  .bind alignPlace_within fun _ => .bind Word.add_within fun _ => .ite (.ok _) (.ok _)

theorem PagePool.acquire_within {p : PagePool} : Within Fault.IsExternal (p.acquire pages) := by
  have reserve : ∀ u : PageUsage, Within Fault.IsExternal (u.reserve pages) := fun u =>
    .bind Word.add_within fun _ => .ok _
  refine .bind (require_within rfl _) fun _ => ?_
  split
  · exact .bind (.ite (.bind Word.add_within fun _ => .ok _) (.ok _)) fun _ =>
      .bind (reserve _) fun _ => .ok _
  · exact .bind distance_within fun _ => .ite (.ok _)
      (.bind Word.add_within fun _ => .bind (reserve _) fun _ => .ok _)

end Requests

/-! ## Heaps with the same spaces -/

/-- Two heaps have the same spaces and the same client. -/
structure Heap.SameSpaces (h k : Heap) : Prop where
  small : h.small = k.small
  large : h.large = k.large
  permanent : h.permanent = k.permanent
  client : h.client = k.client

/-- A relation of heaps that have the same spaces, whatever else they have in common. It goes on to
relate them when a space of both changes in the same way, and whatever they log. -/
structure Heap.Spaced (R : Heap → Heap → Prop) : Prop where
  small_eq {h k : Heap} : R h k → h.small = k.small
  large_eq {h k : Heap} : R h k → h.large = k.large
  permanent_eq {h k : Heap} : R h k → h.permanent = k.permanent
  withSmall {h k : Heap} : R h k → ∀ f : SmallSpace → SmallSpace,
    R { h with small := f h.small } { k with small := f k.small }
  withLarge {h k : Heap} : R h k → ∀ f : LargeSpace → LargeSpace,
    R { h with large := f h.large } { k with large := f k.large }
  withPermanent {h k : Heap} : R h k → ∀ f : PermanentSpace → PermanentSpace,
    R { h with permanent := f h.permanent } { k with permanent := f k.permanent }
  withLog {h k : Heap} : R h k → ∀ log log', R { h with log } { k with log := log' }

theorem Heap.SameSpaces.spaced : Heap.Spaced Heap.SameSpaces where
  small_eq same := same.small
  large_eq same := same.large
  permanent_eq same := same.permanent
  withSmall same f := ⟨congrArg f same.small, same.large, same.permanent, same.client⟩
  withLarge same f := ⟨same.small, congrArg f same.large, same.permanent, same.client⟩
  withPermanent same f := ⟨same.small, same.large, congrArg f same.permanent, same.client⟩
  withLog same _ _ := ⟨same.small, same.large, same.permanent, same.client⟩

namespace HeapM

variable {α β : Type} {R : Heap → Heap → Prop} {P : Fault → Prop} {x : HeapM α} {f : α → HeapM β}

/-- Two ends of an operation that are alike: the same result with related heaps, or the same fault,
which is among `P`. -/
inductive EndsAlike (R : Heap → Heap → Prop) (P : Fault → Prop) :
    EStateM.Result Fault Heap α → EStateM.Result Fault Heap α → Prop
  | ok {a : α} {h k : Heap} : R h k → EndsAlike R P (.ok a h) (.ok a k)
  | error {f : Fault} {h k : Heap} : P f → EndsAlike R P (.error f h) (.error f k)

/-- On related heaps the operation ends alike, and its faults are all among `P`. -/
def OnSpaces (R : Heap → Heap → Prop) (P : Fault → Prop) (x : HeapM α) : Prop :=
  ∀ h k : Heap, R h k → EndsAlike R P (x h) (x k)

namespace OnSpaces

theorem pure (a : α) : OnSpaces R P (pure a : HeapM α) := fun _ _ same => .ok same

theorem throw {e : Fault} (he : P e) : OnSpaces R P (throw e : HeapM α) := fun _ _ _ => .error he

theorem lift {x : Except Fault α} (hx : Within P x) : OnSpaces R P (liftM x : HeapM α) := by
  cases x with
  | ok a => exact pure a
  | error e => exact throw (hx e rfl)

theorem bind (hx : OnSpaces R P x) (hf : ∀ a, OnSpaces R P (f a)) : OnSpaces R P (x >>= f) := by
  intro h k same
  have ends := hx h k same
  simp only [Bind.bind, EStateM.bind]
  revert ends
  generalize x h = r, x k = r'
  rintro (same | he)
  · exact hf _ _ _ same
  · exact .error he

theorem ite {p : Prop} [Decidable p] {y : HeapM α} (hx : OnSpaces R P x) (hy : OnSpaces R P y) :
    OnSpaces R P (if p then x else y) := by
  split
  · exact hx
  · exact hy

theorem emit (spaced : Heap.Spaced R) (e : Event) : OnSpaces R P (emit e) := fun _ _ same =>
  .ok (spaced.withLog same _ _)

/-- What comes next depends on what related heaps have in common. -/
theorem get {f : Heap → HeapM α} (alike : ∀ h k : Heap, R h k → f h = f k)
    (hf : ∀ h, OnSpaces R P (f h)) : OnSpaces R P ((MonadState.get : HeapM Heap) >>= f) := by
  intro h k same
  rw [get_bind_apply, get_bind_apply, alike h k same]
  exact hf k h k same

theorem modify {g : Heap → Heap} (alike : ∀ h k : Heap, R h k → R (g h) (g k)) :
    OnSpaces R P (modify g : HeapM PUnit) := fun h k same => .ok (alike h k same)

end OnSpaces

/-- What an operation on the spaces can fail with. -/
theorem OnSpaces.of_error (hx : OnSpaces R P x) {e : Fault} {h h' : Heap} (same : R h h)
    (failed : x h = .error e h') : P e := by
  have ends := hx h h same
  rw [failed] at ends
  cases ends with
  | error he => exact he

/-- The same result, with related heaps. -/
theorem OnSpaces.of_ok (hx : OnSpaces R P x) {a : α} {h h' k : Heap} (same : R h k)
    (run : x h = .ok a h') : ∃ k', x k = .ok a k' ∧ R h' k' := by
  have ends := hx h k same
  rw [run] at ends
  generalize x k = r at ends
  cases ends with
  | ok same' => exact ⟨_, rfl, same'⟩

/-! ## Finding memory -/

section Spaces

variable (spaced : Heap.Spaced R)
include spaced

theorem acquirePages_onSpaces (space : SpaceId) (pages : Nat) :
    OnSpaces R Fault.IsExternal (acquirePages space pages) := by
  have pool : ∀ h k : Heap, R h k → h.pagePool space = k.pagePool space := by
    intro h k same
    cases space with
    | small => exact congrArg SmallSpace.pages (spaced.small_eq same)
    | large => exact congrArg LargeSpace.pages (spaced.large_eq same)
    | permanent => exact congrArg PermanentSpace.pages (spaced.permanent_eq same)
  refine .get (fun h k same => by rw [pool h k same]) fun h => ?_
  refine .bind (.lift PagePool.acquire_within) fun (start, taken) => ?_
  refine .bind (.modify fun h k same => ?_) fun _ => ?_
  · cases space with
    | small => exact spaced.withSmall same fun s => { s with pages := taken }
    | large => exact spaced.withLarge same fun s => { s with pages := taken }
    | permanent => exact spaced.withPermanent same fun s => { s with pages := taken }
  · cases start with
    | none => exact .bind (.emit spaced _) fun _ => .pure _
    | some a => exact .bind (.emit spaced _) fun _ => .pure _

theorem acquireCells_onSpaces (c : SizeClass) (n : Nat) :
    OnSpaces R Fault.IsExternal (acquireCells c n) := by
  refine .get (fun h k same => by rw [spaced.small_eq same]) fun h => ?_
  cases h.small.takeCells c n with
  | some r =>
    obtain ⟨cells, small⟩ := r
    exact .bind (.modify fun _ _ same => spaced.withSmall same fun _ => small) fun _ => .pure _
  | none =>
    refine .bind (acquirePages_onSpaces spaced _ _) fun page => ?_
    cases page with
    | none => exact .pure _
    | some page =>
      refine .bind (fun h k same => ?_) fun _ => .bind (.emit spaced _) fun _ => .pure _
      rw [modifyGet_apply, modifyGet_apply, spaced.small_eq same]
      exact .ok (spaced.withSmall same fun _ => _)

end Spaces

end HeapM

open HeapM (OnSpaces)

section Allocators

variable {R : Heap → Heap → Prop} {size align offset : Nat}

section Spaces

variable (spaced : Heap.Spaced R)
include spaced

theorem CellAllocator.take_onSpaces (a : CellAllocator) (c : SizeClass) :
    OnSpaces R Fault.IsExternal (a.take c) := by
  unfold take
  cases a.cells.get c with
  | cons cell rest => exact .pure _
  | nil =>
    have refill : OnSpaces R Fault.IsExternal (a.refill c) :=
      .bind (HeapM.acquireCells_onSpaces spaced _ _) fun _ => .pure _
    refine .bind refill fun a' => ?_
    cases a'.cells.get c with
    | cons cell rest => exact .pure _
    | nil => exact .pure _

theorem CellAllocator.allocate_onSpaces (a : CellAllocator) :
    OnSpaces R Fault.IsExternal (a.allocate size align offset) := by
  refine .bind (.lift reserveSize_within) fun bytes => ?_
  cases SizeClass.ofBytes? bytes with
  | none => exact .throw rfl
  | some c =>
    refine .bind (a.take_onSpaces spaced c) fun (cell, a') => ?_
    cases cell with
    | none => exact .pure _
    | some cell => exact .bind (.lift alignPlace_within) fun _ => .pure _

theorem allocatePages_onSpaces :
    OnSpaces R Fault.IsExternal (allocatePages size align offset) := by
  refine .bind (.lift reserveSize_within) fun _ => .bind (.lift bytesToPages_within) fun pages => ?_
  have acquired : OnSpaces R Fault.IsExternal (HeapM.allocateLarge pages) := by
    refine .bind (HeapM.acquirePages_onSpaces spaced _ _) fun cell => ?_
    cases cell with
    | none => exact .pure _
    | some a =>
      exact .bind (.modify fun _ _ same => spaced.withLarge same (·.addPending a pages))
        fun _ => .pure _
  refine .bind acquired fun cell => ?_
  cases cell with
  | none => exact .pure _
  | some cell => exact .lift alignPlace_within

theorem BumpAllocator.allocate_onSpaces (refills : Nat) (b : BumpAllocator) :
    OnSpaces R Fault.IsExternal (allocate refills b size align offset) := by
  have cut : ∀ b : BumpAllocator, OnSpaces R Fault.IsExternal (b.cut? size align offset) := by
    intro b
    refine .ite (.pure _) (.bind (.lift place?_within) fun placed => ?_)
    cases placed with
    | none => exact .bind (.emit spaced _) fun _ => .pure _
    | some r => exact .bind (.emit spaced _) fun _ => .pure _
  have refill : OnSpaces R Fault.IsExternal (refill size align) := by
    refine .bind (.emit spaced _) fun _ => .bind (.lift blockFor_within) fun _ =>
      .bind (.lift bytesToPages_within) fun _ =>
        .bind (HeapM.acquirePages_onSpaces spaced _ _) fun r => ?_
    cases r with
    | none => exact .bind (.emit spaced _) fun _ => .pure _
    | some start =>
      exact .bind (.emit spaced _) fun _ => .bind (.lift Word.add_within) fun _ => .pure _
  -- the blocks that may still be taken bound the recursion
  induction refills using Nat.strongRecOn generalizing b with
  | ind refills ih =>
    rw [allocate.eq_def]
    refine .bind (cut b) fun r => ?_
    cases r with
    | some r => exact .pure _
    | none =>
      refine .bind refill fun r => ?_
      cases r with
      | none => exact .pure _
      | some b' =>
        cases refills with
        | zero => exact .throw rfl
        | succ k => exact ih k (Nat.lt_succ_self k) b'

/-- The allocators read and change the spaces, and nothing else. -/
theorem Allocators.allocate_onSpaces (a : Allocators) (k : AllocatorKind) :
    OnSpaces R Fault.IsExternal (a.allocate k size align offset) := by
  cases k with
  | bumpPointer =>
    refine .get (fun h k same => by rw [spaced.permanent_eq same]) fun h => ?_
    exact .bind (BumpAllocator.allocate_onSpaces spaced _ _) fun _ => .pure _
  | largeObject => exact .bind (allocatePages_onSpaces spaced) fun _ => .pure _
  | freeList => exact .bind (CellAllocator.allocate_onSpaces spaced _) fun _ => .pure _
  | none => exact .throw rfl

end Spaces

theorem Mutator.reportOutOfMemory_onSpaces :
    OnSpaces Heap.SameSpaces Fault.IsExternal reportOutOfMemory := by
  refine .get (fun h k same => by rw [same.client]) fun h => ?_
  -- the client handles it, or it does not
  have answer : Within Fault.IsExternal (h.client.outOfMemory.call fun returns =>
      if returns then .ok ((), returns) else .error .outOfMemory).1 := by
    rw [Hook.call]
    cases h.client.outOfMemory.state with
    | true => exact .ok _
    | false => exact .error rfl
  revert answer
  generalize (h.client.outOfMemory.call _) = called
  intro answer
  refine .bind (.modify fun h k same => ?_) fun _ => .lift answer
  exact ⟨same.small, same.large, same.permanent,
    congrArg (fun c => { c with outOfMemory := called.2 }) same.client⟩

/-- Finding memory for an object. -/
theorem Mutator.allocate_onSpaces (m : Mutator) (s : Semantics) :
    OnSpaces Heap.SameSpaces Fault.IsExternal (m.allocate size align offset s) := by
  refine .bind (.lift allocatorFor_within) fun k => ?_
  refine .bind (Allocators.allocate_onSpaces Heap.SameSpaces.spaced _ k) fun (a, allocators) => ?_
  refine .ite (.bind (.emit Heap.SameSpaces.spaced _) fun _ => ?_) (.pure _)
  exact .bind reportOutOfMemory_onSpaces fun _ => .pure _

/-- An allocation fails before there is an object, and only for a reason that lies outside of the
instance. -/
theorem Mutator.newObject_fails {m : Mutator} {h h' : Heap} {others : List Allocators} {slots : Nat}
    {array : Bool} {s : Semantics} {f : Fault} (st : h.Stocked (m.allocators :: others))
    (wf : h.WellFormed) (failed : m.newObject slots array s h = .error f h') : f.IsExternal := by
  cases sized : Memory.objectSize slots with
  | error f' =>
    rw [newObject, sized] at failed
    cases failed
    exact Memory.objectSize_within _ sized
  | ok size =>
    cases found : m.allocate size bytesPerWord 0 s h with
    | error f' k =>
      rw [newObject, sized, HeapM.liftM_eq, HeapM.lift_ok, HeapM.pure_bind_apply] at failed
      rcases HeapM.bind_eq_error.1 failed with failed | ⟨_, _, found', -⟩
      · exact (m.allocate_onSpaces s).of_error ⟨rfl, rfl, rfl, rfl⟩ failed
      · cases found.symm.trans found'
    | ok r h₁ =>
      obtain ⟨_, _, _, run, -⟩ := newObject_eq array st wf sized found
      cases run.symm.trans failed

end Allocators

/-! ## Telling a space of a new object -/

/-- Which space it is, and whether it takes the object, depends on the spaces alone. -/
theorem HeapM.enroll_onSpaces (o : Ref) (s : Semantics) :
    OnSpaces Heap.SameSpaces (fun _ => True) (enroll o s) := by
  have any : ∀ {α : Type} (x : Except Fault α), Within (fun _ => True) x := fun _ _ _ => trivial
  refine .get (fun h k same => ?_) fun h => ?_
  · simp only [Heap.isPermanent, same.small, same.large, same.permanent]
  refine .ite (.bind (.modify fun h k same => ?_) fun _ => .pure _) ?_
  · exact ⟨same.small, same.large, congrArg (·.register o) same.permanent, same.client⟩
  have large : OnSpaces Heap.SameSpaces (fun _ => True) (registerLarge o) := by
    refine .get (fun h k same => by rw [same.large]) fun h => ?_
    refine .bind (.lift (any _)) fun _ => .bind (.emit Heap.SameSpaces.spaced _) fun _ =>
      .bind (.lift (any _)) fun _ => ?_
    exact .modify fun h k same => ⟨same.small, rfl, same.permanent, same.client⟩
  have small : OnSpaces Heap.SameSpaces (fun _ => True) (setLive o) := by
    refine .get (fun h k same => by rw [same.small]) fun h => ?_
    refine .bind (.lift (any _)) fun _ => ?_
    exact .modify fun h k same => ⟨rfl, same.large, same.permanent, same.client⟩
  exact .ite (.bind large fun _ => .pure _) (.ite (.bind small fun _ => .pure _)
    (.bind (.throw trivial) fun _ => .pure _))

end DeferredCount
