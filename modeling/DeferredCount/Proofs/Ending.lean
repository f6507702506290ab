import DeferredCount.Collector.Phases
import DeferredCount.Collector.Trace
import DeferredCount.Proofs.Entries
import DeferredCount.Proofs.Stopping
import Mathlib.Data.Nat.Count

/-!
# The loops of an increment end

Each loop of an increment works on entries that its own turns add to. They end on any heap: nothing
is asked of its objects, headers, slots and entries. A turn may meet a fault, and then the loop has
ended, too.

A number that each turn makes smaller bounds the turns. The entries left are part of it; the other
part pays for new entries and is read off the words of the memory, whether or not they are headers.

* Working off a field adds no field.
* An object is added for a word that stops being fresh, and no word becomes fresh.
* Referents are added for a word whose count becomes zero, and no count grows. An object has fewer
  slots than there are words.
* An object enters the stack of the trace for a word that becomes marked, and no mark is cleared.

Results:
1. `CountingBuffers.count_meets`, `HeapM.processDecrement_meets`, `Trace.visit_meets`: what one
   entry adds is paid for.
2. `drains_end`: the four loops.
-/

namespace DeferredCount

open DeferredCount.Except (Meets)

/-! ## What updates leave of a header -/

namespace Header

variable {old new : Header}

theorem increment_fresh (some : old.increment = some new) : new.fresh = false := by
  unfold increment at some
  split at some
  · split at some <;> cases some
    rfl
  · cases some
    rfl

/-- Only a header that is not fresh may refuse to count. -/
theorem fresh_of_increment (none : old.increment = none) : old.fresh = false := by
  unfold increment at none
  split at none
  · split at none
    · cases none
    · next stale => exact Bool.eq_false_of_not_eq_true stale
  · cases none

theorem increment_marked (some : old.increment = some new) : new.marked = old.marked := by
  unfold increment at some
  split at some
  · split at some <;> cases some
    rfl
  · cases some
    rfl

theorem resetCount_marked (some : old.resetCount = some new) : new.marked = old.marked := by
  unfold resetCount at some
  split at some <;> cases some <;> rfl

theorem mark_marked (some : old.mark = some new) : old.marked = false ∧ new.marked = true := by
  unfold mark at some
  split at some <;> cases some
  exact ⟨Bool.eq_false_of_not_eq_true ‹_›, rfl⟩

theorem makeUnlogged_fresh (some : old.makeUnlogged = some new) : new.fresh = old.fresh := by
  unfold makeUnlogged at some
  split at some <;> cases some
  rfl

end Header

/-! ## Words of a memory -/

namespace Memory

variable {m : Memory} {a i k n w : Nat} {o : Ref} {p : Header → Bool}

/-- The number of words that are headers with a property. -/
def tally (p : Header → Bool) (m : Memory) : Nat :=
  Nat.count (fun i => p (Header.ofWord (m.word i)) = true) wordCount

theorem tally_le (p : Header → Bool) (m : Memory) : m.tally p ≤ wordCount := Nat.count_le _

/-- One word is exchanged for another. -/
theorem tally_setWord (hi : i < wordCount) : (m.setWord i w).tally p +
    (p (Header.ofWord (m.word i))).toNat = m.tally p + (p (Header.ofWord w)).toNat := by
  have below (n : Nat) :
      Nat.count (fun j => p (Header.ofWord ((m.setWord i w).word j)) = true) n +
        (if i < n then (p (Header.ofWord (m.word i))).toNat else 0) =
      Nat.count (fun j => p (Header.ofWord (m.word j)) = true) n +
        (if i < n then (p (Header.ofWord w)).toNat else 0) := by
    induction n with
    | zero => simp
    | succ n ih =>
      rw [Nat.count_succ, Nat.count_succ, word_setWord]
      rcases Nat.lt_trichotomy i n with lt | rfl | gt
      · rw [if_pos lt, if_pos lt] at ih
        rw [if_neg (Nat.ne_of_lt lt), if_pos (Nat.lt_succ_of_lt lt), if_pos (Nat.lt_succ_of_lt lt)]
        omega
      · rw [if_neg (Nat.lt_irrefl i), if_neg (Nat.lt_irrefl i)] at ih
        rw [if_pos rfl, if_pos (Nat.lt_succ_self i), if_pos (Nat.lt_succ_self i)]
        cases p (Header.ofWord (m.word i)) <;> cases p (Header.ofWord w) <;> simpa using ih
      · rw [if_neg (Nat.lt_asymm gt), if_neg (Nat.lt_asymm gt)] at ih
        have above : ¬i < n + 1 := Nat.not_lt.2 gt
        rw [if_neg (Nat.ne_of_gt gt), if_neg above, if_neg above]
        omega
  have all := below wordCount
  rwa [if_pos hi, if_pos hi] at all

theorem index_meets : Meets (index a) fun i => i < wordCount ∧ start ≤ a ∧
    i = (a - start) / bytesPerWord := by
  unfold index distance
  by_cases le : start ≤ a
  · rw [if_pos le, Except.ok_bind]
    exact .ite (fun lt => .ok ⟨lt, le, rfl⟩) fun _ => .error rfl
  · rw [if_neg le, Except.error_bind]
    exact .error rfl

theorem load_meets : Meets (m.load a) fun w => ∃ i < wordCount, start ≤ a ∧
    i = (a - start) / bytesPerWord ∧ w = m.word i :=
  index_meets.bind fun i ⟨lt, le, eq⟩ => .ok ⟨i, lt, le, eq, rfl⟩

theorem store_meets : Meets (m.store a w) fun m' => ∃ i < wordCount,
    i = (a - start) / bytesPerWord ∧ m' = m.setWord i w :=
  index_meets.bind fun i ⟨lt, _, eq⟩ => .ok ⟨i, lt, eq, rfl⟩

/-- Storing zero adds no header with a property that the zero word does not have. -/
theorem store_zero_meets (blank : p (Header.ofWord 0) = false) :
    Meets (m.store a 0) fun m' => m'.tally p ≤ m.tally p := by
  refine store_meets.mono fun m' ⟨i, hi, _, eq⟩ => ?_
  have := tally_setWord (m := m) (w := 0) (p := p) hi
  rw [blank, Bool.toNat_false] at this
  rw [eq]
  omega

theorem wordOf_meets : Meets (wordOf o i) fun _ => True :=
  Word.mul_meets.bind fun _ _ => Word.add_meets

theorem slotCount_meets : Meets (m.slotCount o) fun _ => True :=
  .bind (wordOf_meets.bind fun _ _ => load_meets.mono fun _ _ => trivial) fun _ _ => .ok trivial

theorem loadRef_meets : Meets (m.loadRef a) fun _ => True :=
  load_meets.bind fun _ _ => .ok trivial

theorem markOf_meets : Meets (m.markOf o i) fun _ => True :=
  slotCount_meets.bind fun _ _ => (require_meets _ _).bind fun _ _ =>
    Word.add_meets.bind fun _ _ => Word.add_meets.bind fun _ _ => wordOf_meets

theorem clearMarksFrom_meets (blank : p (Header.ofWord 0) = false) (k i : Nat) (m : Memory) :
    Meets (clearMarksFrom o k i m) fun m' => m'.tally p ≤ m.tally p := by
  induction k generalizing i m with
  | zero => exact .ok (Nat.le_refl _)
  | succ k ih =>
    exact markOf_meets.bind fun _ _ => (store_zero_meets blank).bind fun m₁ le =>
      (ih (i + 1) m₁).mono fun _ le' => Nat.le_trans le' le

theorem clearMarks_meets (blank : p (Header.ofWord 0) = false) :
    Meets (m.clearMarks o) fun m' => m'.tally p ≤ m.tally p :=
  slotCount_meets.bind fun n _ => clearMarksFrom_meets blank n 0 m

/-- Adjacent words lie in the memory if they can be loaded, so there are not too many. -/
theorem wordsFrom_meets (k : Nat) (a : Address) (found : List Nat) :
    Meets (m.wordsFrom k a found) fun ws =>
      ws.length = k + found.length ∧ (0 < k → (a - start) / bytesPerWord + k ≤ wordCount) := by
  induction k generalizing a found with
  | zero => exact .ok ⟨(Nat.zero_add _).symm, fun pos => absurd pos (Nat.lt_irrefl _)⟩
  | succ k ih =>
    refine load_meets.bind fun w ⟨i, lt, le, eq, _⟩ => ?_
    refine (ih (a + bytesPerWord) (w :: found)).mono fun ws ⟨length, fits⟩ => ⟨?_, fun _ => ?_⟩
    · rw [length, List.length_cons]
      omega
    · rcases Nat.eq_zero_or_pos k with rfl | pos
      · exact eq ▸ lt
      · have bound := fits pos
        rw [Nat.sub_add_comm le, Nat.add_div_right _ (by decide)] at bound
        rwa [Nat.add_comm k, ← Nat.add_assoc]

/-- An object has no more referents than there are words. -/
theorem referents_meets : Meets (m.referents o) fun os => os.length ≤ wordCount := by
  have slots : Meets (m.slots o) fun slots => slots.length ≤ wordCount := by
    refine slotCount_meets.bind fun n _ => .ite (fun _ => .ok (Nat.zero_le _)) fun some => ?_
    refine .bind (.bind Word.add_meets fun _ _ => wordOf_meets) fun first _ => ?_
    refine (wordsFrom_meets n first []).bind fun ws ⟨length, fits⟩ => .ok ?_
    rw [List.length_map, List.length_reverse, length]
    exact Nat.le_trans (Nat.le_add_left ..) (fits (Nat.pos_of_ne_zero some))
  exact slots.bind fun _ le => .ok (Nat.le_trans (List.length_filterMap_le ..) le)

end Memory

theorem Covered.slots_meets (c : Covered) : Meets c.slots fun _ => True := by
  have elements (array : Ref) (k i : Nat) (found : List Address) :
      Meets (elementSlots array k i found) fun _ => True := by
    induction k generalizing i found with
    | zero => exact .ok trivial
    | succ k ih =>
      exact .bind (.bind Word.add_meets fun _ _ => Memory.wordOf_meets) fun _ _ =>
        Memory.index_meets.bind fun _ _ => ih ..
  cases c with
  | field slot => exact .ok trivial
  | quantum array first length =>
    exact Word.add_meets.bind fun _ _ => (elements ..).bind fun _ _ => .ok trivial

/-! ## One consumer of a pool -/

/-- All consumers of the pool but one wait. -/
def Pool.Lone {α : Type} (p : Pool α) : Prop := p.waiting + 1 = p.consumers

namespace Pool.Lone

variable {α : Type} {p q : Pool α} {b b' : Buffer α} {v : α}

theorem push (lone : p.Lone) : (b.push p v).2.Lone := by
  unfold Buffer.push
  split
  · exact lone
  · unfold Pool.push
    split <;> exact lone

theorem take? (lone : p.Lone) (e : b.take? p = some (v, b', q)) : q.Lone := by
  unfold Buffer.take? at e
  split at e
  · cases e
    exact lone
  · simp only [Option.map_eq_some_iff, Prod.mk.injEq] at e
    obtain ⟨_, _, -, -, rfl⟩ := e
    exact lone

end Pool.Lone

namespace HeapM

variable {α : Type} {h : Heap} {o : Ref}

/-- A consumer asks for an entry. It does not come back if it has to wait for other consumers. -/
def dequeue (k : PoolId α) (b : Buffer α) : HeapM (Option (α × Buffer α)) := do
  match b.dequeue ((← get).pools.get k) with
  | .entry v b p =>
    modify fun h => h.putPool k p
    return some (v, b)
  | .quiet p =>
    modify fun h => h.putPool k p
    return none
  | .waits => throw .waitsForever

section Dequeue

variable {k : PoolId α} {b b' : Buffer α} {q : Pool α} {v : α}

theorem take?_of_some (e : b.take? (h.pools.get k) = some (v, b', q)) :
    take? k b h = .ok (some (v, b')) (h.putPool k q) := by
  simp [take?, e, Heap.putPool]

theorem take?_of_none (e : b.take? (h.pools.get k) = none) : take? k b h = .ok none h := by
  simp [take?, e]

/-- A lone consumer never waits: it takes an entry, or is told that there are none. -/
theorem dequeue_of_lone (lone : (h.pools.get k).Lone) : dequeue k b h = (do
    match ← take? k b with
    | none =>
      join k
      return none
    | some r => return some r) h := by
  rw [dequeue, get_bind_apply]
  cases e : b.take? (h.pools.get k) with
  | none =>
    have quiet : b.dequeue (h.pools.get k) = .quiet (h.pools.get k).join := by
      rw [Buffer.dequeue, e]
      exact if_pos lone
    rw [quiet, bind_of_ok (take?_of_none e)]
    rfl
  | some r =>
    have entry : b.dequeue (h.pools.get k) = .entry r.1 r.2.1 r.2.2 := by rw [Buffer.dequeue, e]
    rw [entry, bind_of_ok (take?_of_some e)]
    rfl

theorem dequeue_bind {β : Type} (lone : (h.pools.get k).Lone)
    (f : Option (α × Buffer α) → HeapM β) : (dequeue k b >>= f) h = (do
      match ← take? k b with
      | none =>
        join k
        f none
      | some r => f (some r)) h := by
  rw [bind_congr (dequeue_of_lone lone), bind_assoc_apply]
  refine congrArg (fun g => (take? k b >>= g) h) (funext fun r => ?_)
  cases r <;> rfl

/-- A lone consumer takes an entry and stays alone, or is told that nothing is left. -/
theorem dequeue_meets (lone : (h.pools.get k).Lone) :
    (dequeue k b).Meets h fun r h' => ∃ q, h' = h.putPool k q ∧
      match r with
      | none => b.both q = []
      | some (_, b') => b'.pending q + 1 = b.pending (h.pools.get k) ∧ q.Lone := by
  refine .congr (dequeue_of_lone lone) ?_
  cases e : b.take? (h.pools.get k) with
  | none =>
    exact .congr (bind_of_ok (take?_of_none e)) (.ok rfl ⟨_, rfl, (Buffer.take?_none e :)⟩)
  | some r =>
    refine .congr (bind_of_ok (take?_of_some e)) (.ok rfl ⟨_, rfl, ?_, lone.take? e⟩)
    rw [Buffer.pending_eq, Buffer.pending_eq, (Buffer.take?_perm e).length_eq, List.length_cons]

end Dequeue

theorem push_meets (k : PoolId α) (b : Buffer α) (v : α) : (push k b v).Meets h fun b' h' =>
    ∃ q, h' = h.putPool k q ∧ b'.pending q = b.pending (h.pools.get k) + 1 ∧
      ((h.pools.get k).Lone → q.Lone) := by
  have pushed : push k b v h =
      .ok (b.push (h.pools.get k) v).1 (h.putPool k (b.push (h.pools.get k) v).2) := rfl
  refine .ok pushed ⟨_, rfl, ?_, ?_⟩
  · rw [Buffer.pending_eq, Buffer.pending_eq, Buffer.both_push, List.length_append]
    rfl
  · exact fun lone => lone.push

theorem pushAll_meets (k : PoolId α) (b : Buffer α) (vs : List α) :
    (pushAll k b vs).Meets h fun b' h' => ∃ q, h' = h.putPool k q ∧
      b'.pending q = b.pending (h.pools.get k) + vs.length ∧
      ((h.pools.get k).Lone → q.Lone) := by
  induction vs generalizing b h with
  | nil => exact .ok rfl ⟨_, (putPool_self h k).symm, rfl, id⟩
  | cons v vs ih =>
    rw [pushAll, List.foldlM_cons]
    refine (push_meets k b v).bind fun b₁ h₁ first => ?_
    obtain ⟨q₁, same₁, pending₁, lone₁⟩ := first
    refine (ih b₁).mono fun b' h' rest => ?_
    obtain ⟨q, same, pending, lone⟩ := rest
    refine ⟨q, ?_, ?_, ?_⟩
    · rw [same, same₁]
      simp [Heap.putPool]
    · rw [pending, same₁, Heap.putPool, Pools.get_set, pending₁, List.length_cons]
      omega
    · rw [same₁, Heap.putPool, Pools.get_set] at lone
      exact lone ∘ lone₁

/-! ## Headers -/

/-- An update exchanges one word at most. -/
theorem updateHeader_meets (p : Header → Bool) (f : Header → Option Header) :
    (updateHeader o f).Meets h fun r h' => ∃ m, h' = { h with memory := m } ∧
      ((f r.1 = none ∧ r.2 = false ∧ m = h.memory) ∨
        ∃ new, f r.1 = some new ∧ r.2 = true ∧
          m.tally p + (p r.1).toNat = h.memory.tally p + (p new).toNat) := by
  have read : Except.Meets (h.memory.header o) fun old => ∃ i < Memory.wordCount,
      i = (o.addr - Memory.start) / bytesPerWord ∧ old = Header.ofWord (h.memory.word i) :=
    Memory.load_meets.bind fun w ⟨i, lt, _, eq, word⟩ => .ok ⟨i, lt, eq, by rw [word]⟩
  refine .inspect_bind read fun old ⟨i, lt, eq, header⟩ => ?_
  cases e : f old with
  | none => exact .pure ⟨h.memory, rfl, .inl ⟨e, rfl, rfl⟩⟩
  | some new =>
    refine .bind (.change Memory.store_meets) fun _ h₁ ⟨m, changed, j, _, eq', stored⟩ =>
      .pure ⟨m, changed, .inr ⟨new, e, rfl, ?_⟩⟩
    have balance := Memory.tally_setWord (m := h.memory) (w := new.toWord) (p := p) lt
    rw [Header.ofWord_toWord] at balance
    rw [stored, eq'.trans eq.symm, header]
    exact balance

end HeapM

/-! ## Fields and objects -/

namespace CountingBuffers

variable {h h' h₁ : Heap} {b b' b₁ : CountingBuffers}

/-- The objects that are left, and the words that may still bring one. -/
def work (b : CountingBuffers) (h : Heap) : Nat :=
  b.objects.pending h.pools.objects + h.memory.tally (·.fresh)

/-- What counting references leaves: the fields that were left, and no more work on objects. -/
structure Dwindles (b : CountingBuffers) (h : Heap) (b' : CountingBuffers) (h' : Heap) : Prop where
  fields : h'.pools.fields = h.pools.fields
  lone : h.pools.objects.Lone → h'.pools.objects.Lone
  work_le : b'.work h' ≤ b.work h

namespace Dwindles

theorem refl (b : CountingBuffers) (h : Heap) : Dwindles b h b h := ⟨rfl, id, Nat.le_refl _⟩

theorem trans (d₁ : Dwindles b h b₁ h₁) (d : Dwindles b₁ h₁ b' h') : Dwindles b h b' h' :=
  ⟨d.fields.trans d₁.fields, d.lone ∘ d₁.lone, Nat.le_trans d.work_le d₁.work_le⟩

theorem of_memory {m : Memory} (le : m.tally (·.fresh) ≤ h.memory.tally (·.fresh)) :
    Dwindles b h b { h with memory := m } :=
  ⟨rfl, id, Nat.add_le_add_left le _⟩

end Dwindles

/-- An object becomes an entry only when its header stops being fresh. -/
theorem count_meets (cycle : Bool) (b : CountingBuffers) (o : Ref) (h : Heap) :
    (b.count cycle o).Meets h (b.Dwindles h) := by
  refine .get (.ite (fun _ => .ite (fun _ => ?_) fun _ => ?_) fun _ => .pure (.refl b h))
  · refine (HeapM.push_meets .traceRoots b.traceRoots o).bind fun r k ⟨q, same, _⟩ => .pure ?_
    subst same
    exact ⟨rfl, id, Nat.le_refl _⟩
  · refine (HeapM.updateHeader_meets (·.fresh) Header.increment).bind
      fun (old, applied) k ⟨m, changed, updated⟩ => ?_
    -- A fresh header is always updated, and no header is fresh afterwards.
    have balance : m.tally (·.fresh) + old.fresh.toNat ≤ h.memory.tally (·.fresh) := by
      rcases updated with ⟨none, -, rfl⟩ | ⟨new, some, -, eq⟩
      · rw [Header.fresh_of_increment none, Bool.toNat_false, Nat.add_zero]
      · rw [Header.increment_fresh some, Bool.toNat_false, Nat.add_zero] at eq
        exact Nat.le_of_eq eq
    subst changed
    dsimp only [Header.gained]
    split
    · refine .pure (.of_memory (Nat.le_trans (Nat.le_add_right ..) balance))
    · next first =>
      have fresh : old.fresh = true := by
        by_contra stale
        rw [if_neg stale] at first
        cases first
      rw [fresh, Bool.toNat_true] at balance
      refine (HeapM.push_meets .objects b.objects o).bind
        fun r k ⟨q, same, pending, lone⟩ => .pure ?_
      subst same
      refine ⟨rfl, lone, ?_⟩
      have left : r.pending q = b.objects.pending h.pools.objects + 1 := pending
      change r.pending q + m.tally (·.fresh) ≤ b.objects.pending h.pools.objects + _
      omega

theorem countAll_meets (cycle : Bool) (b : CountingBuffers) (os : List Ref) (h : Heap) :
    (os.foldlM (count cycle) b).Meets h (b.Dwindles h) :=
  .foldlM (fun b₁ o h₁ d => (count_meets cycle b₁ o h₁).mono fun _ _ => d.trans) os (.refl b h)

theorem stored_blank : (Header.ofWord 0).fresh = false := by decide

theorem processField_meets (cycle : Bool) (b : CountingBuffers) (e : FieldEntry) (h : Heap) :
    (b.processField cycle e).Meets h (b.Dwindles h) := by
  refine (HeapM.Meets.change (Memory.store_zero_meets stored_blank)).bind
    fun _ h₁ ⟨m, changed, le⟩ => .lift_bind e.covered.slots_meets fun slots _ => ?_
  refine .foldlM (fun b₂ slot h₂ d => ?_) slots (changed ▸ .of_memory le)
  refine .inspect_bind Memory.loadRef_meets fun found _ => ?_
  cases found with
  | none => exact .pure d
  | some o => exact (count_meets cycle b₂ o h₂).mono fun _ _ => d.trans

theorem processObject_meets (cycle : Bool) (b : CountingBuffers) (o : Ref) (h : Heap) :
    (b.processObject cycle o).Meets h (b.Dwindles h) := by
  unfold processObject
  refine (HeapM.updateHeader_meets (·.fresh) Header.makeUnlogged).bind
    fun (old, applied) h₁ ⟨m, changed, updated⟩ => .get ?_
  have unlogged : b.Dwindles h b h₁ := by
    rw [changed]
    refine .of_memory ?_
    rcases updated with ⟨-, -, rfl⟩ | ⟨new, some, -, eq⟩
    · exact Nat.le_refl _
    · rw [Header.makeUnlogged_fresh some] at eq
      exact Nat.le_of_eq (Nat.add_right_cancel eq)
  have referents (h₂ : Heap) (d : b.Dwindles h b h₂) : (do
      let referents ← HeapM.inspect (·.referents o)
      referents.foldlM (count cycle) b).Meets h₂ (b.Dwindles h) :=
    .inspect_bind Memory.referents_meets fun os _ =>
      (countAll_meets cycle b os h₂).mono fun _ _ => d.trans
  refine .ite (fun _ => ?_) fun _ => referents h₁ unlogged
  exact (HeapM.Meets.change (Memory.clearMarks_meets stored_blank)).bind
    fun _ h₂ ⟨m, changed, le⟩ => referents h₂ (unlogged.trans (changed ▸ .of_memory le))

end CountingBuffers

/-! ## Decrements -/

section Spaces

variable {start pages : Nat} {o : Ref}

theorem SmallSpace.reclaim_meets (s : SmallSpace) : Meets (s.reclaim o) fun _ => True := by
  unfold SmallSpace.reclaim
  refine .ite (fun _ => ?_) fun _ => .error rfl
  split
  · exact .error rfl
  · exact .ok trivial

theorem PagePool.release_meets (p : PagePool) : Meets (p.release start pages) fun _ => True := by
  have runEnd (a n : Nat) : Meets (runEnd a n) fun _ => True :=
    Word.mul_meets.bind fun _ _ => Word.add_meets
  have before (free : FreeRuns) (run : PageRun) : Meets (joinBefore free run) fun _ => True := by
    unfold joinBefore
    split
    · exact .ok trivial
    · exact (runEnd ..).bind fun _ _ =>
        .ite (fun _ => Word.add_meets.bind fun _ _ => .ok trivial) fun _ => .ok trivial
  have after (free : FreeRuns) (run : PageRun) : Meets (joinAfter free run) fun _ => True := by
    refine (runEnd ..).bind fun _ _ => ?_
    split
    · exact .ok trivial
    · exact Word.add_meets.bind fun _ _ => .ok trivial
  exact (require_meets _ _).bind fun _ _ => (before ..).bind fun _ _ => (after ..).bind fun _ _ =>
    (runEnd ..).bind fun _ _ => .bind (P := fun _ => True)
      ((require_meets _ _).bind fun _ _ => .ok trivial)
      fun _ _ => .ite (fun _ => .ok trivial) fun _ => .ok trivial

theorem LargeSpace.unlink_meets (s : LargeSpace) : Meets (s.unlink o) fun _ => True := by
  unfold LargeSpace.unlink
  split
  · exact .error rfl
  · exact (require_meets _ _).bind fun _ _ => .ok trivial

end Spaces

namespace HeapM

variable {h : Heap} {o : Ref}

/-- Freeing an object touches neither the memory nor the pools. -/
theorem free_meets : (free o).Meets h fun _ h' => h'.memory = h.memory ∧ h'.pools = h.pools := by
  refine .get (.ite (fun _ => .get ?_) fun _ => .lift_bind (require_meets _ _) fun _ _ => .get ?_)
  · exact .lift_bind h.small.reclaim_meets fun _ _ => .ok rfl ⟨rfl, rfl⟩
  · refine .lift_bind h.large.unlink_meets fun (pages, large) _ => ?_
    have released : Except.Meets (large.releaseCell (cellOf o) pages) fun _ => True :=
      large.pages.release_meets.bind fun _ _ => .ok trivial
    refine .bind (P := fun _ k => k.memory = h.memory ∧ k.pools = h.pools) (.ok rfl ⟨rfl, rfl⟩)
      fun _ k same => .lift_bind released fun _ _ => .ok rfl same

/-- The decrements that are left, and those that counts may still bring: each word that becomes
zero brings those for the slots of one object. -/
def owed (b : Buffer Ref) (h : Heap) : Nat :=
  b.pending h.pools.decrements + Memory.wordCount * h.memory.tally (·.count != 0)

section Owed

variable {k : Heap} {b b' : Buffer Ref}

theorem owed_eq (pending : b'.pending k.pools.decrements = b.pending h.pools.decrements)
    (kept : k.memory.tally (·.count != 0) = h.memory.tally (·.count != 0)) :
    owed b' k = owed b h := by
  rw [owed, owed, pending, kept]

/-- A count that became zero pays for the slots of an object. -/
theorem owed_le {n : Nat} (le : n ≤ Memory.wordCount)
    (pending : b'.pending k.pools.decrements = b.pending h.pools.decrements + n)
    (spent : h.memory.tally (·.count != 0) = k.memory.tally (·.count != 0) + 1) :
    owed b' k ≤ owed b h := by
  rw [owed, owed, pending, spent, Nat.mul_succ, Nat.add_assoc, Nat.add_comm (_ * _)]
  exact Nat.add_le_add_left (Nat.add_le_add_right le _) _

end Owed

theorem droppedReferents_meets (header : Header) : (droppedReferents o header).Meets h
    fun dropped h' => dropped.length ≤ Memory.wordCount ∧ h' = h := by
  refine .ite (fun _ => .pure ⟨Nat.zero_le _, rfl⟩) fun _ => ?_
  refine .inspect_bind Memory.referents_meets fun referents le => ?_
  refine (Meets.filterM referents fun r => ?_).mono fun kept k ⟨le', same⟩ =>
    ⟨Nat.le_trans le' le, same⟩
  exact .get (.ite (fun _ => .inspect_bind (p := fun _ => True)
    (Memory.load_meets.bind fun _ _ => .ok trivial) fun _ _ => .pure rfl) fun _ => .pure rfl)

/-- Referents lose a reference only when a count becomes zero. -/
theorem processDecrement_meets (b : Buffer Ref) (o : Ref) (h : Heap) :
    (processDecrement b o).Meets h fun r h' => owed r.2 h' ≤ owed b h ∧
      (h.pools.decrements.Lone → h'.pools.decrements.Lone) := by
  have same : owed b h ≤ owed b h := Nat.le_refl _
  refine .get (.ite (fun _ => ?_) fun _ => .pure ⟨same, id⟩)
  refine (updateHeader_meets (·.count != 0) Header.decrement).bind
    fun (old, applied) h₁ ⟨m, changed, updated⟩ => ?_
  subst changed
  rcases updated with ⟨-, refused, rfl⟩ | ⟨new, some, updated, balance⟩
  · dsimp only at refused
    subst refused
    refine .ite (fun updated => absurd updated Bool.false_ne_true) fun _ => ?_
    exact .ite (fun _ => .throw rfl) fun _ => .pure ⟨same, id⟩
  · dsimp only at some updated balance ⊢
    subst updated
    obtain ⟨positive, -, less⟩ := Header.decrement_count some
    have held : (old.count != 0) = true := bne_iff_ne.2 positive
    unfold Header.lost
    refine .ite (fun _ => ?_) fun refused => absurd rfl refused
    by_cases last : old.count = 1
    · have gone : (new.count != 0) = false := by simp [less, last]
      rw [gone, held, Bool.toNat_false, Bool.toNat_true] at balance
      have spent : h.memory.tally (·.count != 0) = m.tally (·.count != 0) + 1 :=
        (Nat.add_zero _).symm.trans balance.symm
      rw [if_pos last]
      refine (droppedReferents_meets old).bind fun dropped k ⟨le, same⟩ => ?_
      subst same
      refine (pushAll_meets .decrements b dropped).bind fun b₂ h₂ ⟨q, pushed, pending, lone⟩ => ?_
      refine .bind (P := fun _ k => k.memory = h₂.memory ∧ k.pools = h₂.pools)
        (.ok rfl ⟨rfl, rfl⟩) fun _ h₃ ⟨memory₃, pools₃⟩ => ?_
      refine free_meets.bind fun _ h₄ ⟨memory₄, pools₄⟩ => .pure ?_
      have pools : h₄.pools.decrements = q := by rw [pools₄, pools₃, pushed]; rfl
      have memory : h₄.memory = m := by rw [memory₄, memory₃, pushed]; rfl
      exact ⟨owed_le le (pools ▸ pending) (memory ▸ spent), pools ▸ lone⟩
    · have kept : (new.count != 0) = true := by
        simp only [less, bne_iff_ne]
        omega
      rw [kept, held] at balance
      rw [if_neg last]
      exact .pure ⟨Nat.le_of_eq (owed_eq rfl (Nat.add_right_cancel balance)), id⟩

end HeapM

/-! ## Marking -/

namespace Trace

variable {h : Heap}

/-- The objects on the stack, and the words that may still bring one. -/
def work (t : Trace) (h : Heap) : Nat := t.stack.size + h.memory.tally (!·.marked)

/-- A word that became marked pays for one object on the stack. -/
theorem work_push {k : Heap} {t : Trace} {o : Ref} {n : Nat}
    (spent : h.memory.tally (!·.marked) = k.memory.tally (!·.marked) + 1) :
    work { stack := t.stack.push o, marked := n } k = t.work h := by
  have pushed : (t.stack.push o).size = t.stack.size + 1 := by
    rw [Stack.size_eq_length, Stack.toList_push, List.length_append, ← Stack.size_eq_length]
    rfl
  rw [work, work, pushed, spent, Nat.add_right_comm, Nat.add_assoc]

/-- What an update leaves that clears no mark. -/
theorem unmarking {f : Header → Option Header} (keeps : ∀ old new, f old = some new →
    new.marked = old.marked) (o : Ref) (t : Trace) : (HeapM.updateHeader o f).Meets h
      fun _ h' => t.work h' ≤ t.work h := by
  refine (HeapM.updateHeader_meets (!·.marked) f).mono fun (old, _) h' ⟨m, changed, updated⟩ => ?_
  subst changed
  refine Nat.add_le_add_left ?_ _
  rcases updated with ⟨-, -, rfl⟩ | ⟨new, some, -, balance⟩
  · exact Nat.le_refl _
  · rw [keeps old new some] at balance
    exact Nat.le_of_eq (Nat.add_right_cancel balance)

/-- An object enters the stack only when it becomes marked. -/
theorem visit_meets (counted : Bool) (t : Trace) (o : Ref) (h : Heap) :
    (visit counted t o).Meets h fun t' h' => t'.work h' ≤ t.work h := by
  refine .get (.ite (fun _ => ?_) fun _ => .pure (Nat.le_refl _))
  have counts (t' : Trace) (k : Heap) (le : t'.work k ≤ t.work h) : (do
      if counted then
        let _ ← HeapM.updateHeader o Header.increment
      return t').Meets k fun t' h' => t'.work h' ≤ t.work h :=
    .ite (fun _ => (unmarking (fun _ _ => Header.increment_marked) o t').bind
      fun _ _ le' => .pure (Nat.le_trans le' le)) fun _ => .pure le
  refine (HeapM.updateHeader_meets (!·.marked) Header.mark).bind
    fun (old, applied) h₁ ⟨m, changed, updated⟩ => ?_
  subst changed
  rcases updated with ⟨-, refused, rfl⟩ | ⟨new, some, updated, balance⟩
  · dsimp only at refused
    subst refused
    exact counts t h (Nat.le_refl _)
  · dsimp only at some updated balance
    subst updated
    obtain ⟨unmarked, marked⟩ := Header.mark_marked some
    rw [unmarked, marked, Bool.not_false, Bool.not_true, Bool.toNat_false, Bool.toNat_true]
      at balance
    have spent : h.memory.tally (!·.marked) = m.tally (!·.marked) + 1 :=
      (Nat.add_zero _).symm.trans balance.symm
    exact (unmarking (fun _ _ => Header.resetCount_marked) o
      { stack := t.stack.push o, marked := t.marked + 1 }).bind
        fun _ h₂ le => counts _ h₂ (Nat.le_trans le (Nat.le_of_eq (work_push spent)))

end Trace

/-! ## The loops -/

namespace Collector

open HeapM (Ends Turn dequeue dequeue_bind dequeue_meets)

variable {h : Heap}

/-- A turn of working off fields, with the number of those done. -/
def fieldsTurn (cycle : Bool) (s : Nat × Collector) :
    HeapM (Turn (Nat × Collector) (Nat × Collector)) := do
  match ← dequeue .fields s.2.fields with
  | none => return .done s
  | some (e, fields) =>
    let counting ← s.2.counting.processField cycle e
    return .more (s.1 + 1, { s.2 with fields, counting })

/-- Working off fields takes one turn for each of them, and one to find that none is left. -/
theorem drainFields_ends (cycle : Bool) (c : Collector) (lone : h.pools.fields.Lone) :
    Ends (fieldsTurn cycle) (0, c) h (c.fields.pending h.pools.fields + 1)
      (fun r h' => r.2.fields.both h'.pools.fields = []) (c.drainFields cycle) := by
  refine .congr (y := drainFieldsIn cycle (c.fields.pending h.pools.fields + 1) 0 c) rfl
    (Ends.of_drops (l := fun k s => drainFieldsIn cycle k s.1 s.2)
      (I := fun _ h => h.pools.fields.Lone) (μ := fun s h => s.2.fields.pending h.pools.fields)
      (s := (0, c)) (fun k s h lone => ?_) (fun s h lone => ?_) lone (Nat.lt_succ_self _))
  · rw [drainFieldsIn, fieldsTurn, HeapM.bind_assoc_apply, dequeue_bind (k := .fields) lone]
    refine congrArg (fun g => (HeapM.take? .fields s.2.fields >>= g) h) (funext fun r => ?_)
    cases r <;> simp [HeapM.afterTurn]
  · refine (dequeue_meets (k := .fields) lone).bind fun r h₁ ⟨q, same, taken⟩ => ?_
    subst same
    cases r with
    | none => exact .pure taken
    | some r =>
      obtain ⟨pending, lone⟩ := taken
      refine (s.2.counting.processField_meets cycle r.1 _).bind fun b h₂ d => .pure ?_
      have fields : h₂.pools.fields = q := d.fields
      refine ⟨fields ▸ lone, ?_⟩
      change r.2.pending h₂.pools.fields < _
      rw [fields]
      exact Nat.lt_of_succ_le (Nat.le_of_eq pending)

/-- A turn of working off objects, with the number of those done. -/
def objectsTurn (cycle : Bool) (s : Nat × Collector) :
    HeapM (Turn (Nat × Collector) (Nat × Collector)) := do
  match ← dequeue .objects s.2.counting.objects with
  | none => return .done s
  | some (o, objects) =>
    let counting ← { s.2.counting with objects }.processObject cycle o
    return .more (s.1 + 1, { s.2 with counting })

/-- Working off objects takes one turn for each of them and for each word that stops being fresh. -/
theorem drainObjects_ends (cycle : Bool) (c : Collector) (lone : h.pools.objects.Lone) :
    Ends (objectsTurn cycle) (0, c) h (c.counting.work h + 1)
      (fun r h' => r.2.counting.objects.both h'.pools.objects = []) (c.drainObjects cycle) := by
  -- The number of words is kept under a name, since it is too large to be counted down.
  obtain ⟨words, eq⟩ : ∃ n, n = Memory.wordCount := ⟨_, rfl⟩
  have loop : c.drainObjects cycle h =
      drainObjectsIn cycle (c.counting.objects.pending h.pools.objects + words + 1) 0 c h := by
    rw [drainObjects, HeapM.get_bind_apply, ← eq]
  have le := Memory.tally_le (·.fresh) h.memory
  rw [← eq] at le
  have enough : c.counting.work h < c.counting.objects.pending h.pools.objects + words + 1 :=
    Nat.lt_add_one_of_le (Nat.add_le_add_left le _)
  refine .congr loop ?_
  refine Ends.of_drops (l := fun k s => drainObjectsIn cycle k s.1 s.2)
    (I := fun _ h => h.pools.objects.Lone) (μ := fun s h => s.2.counting.work h) (s := (0, c))
    (k := c.counting.objects.pending h.pools.objects + words + 1)
    (fun k s h lone => ?_) (fun s h lone => ?_) lone enough
  · rw [drainObjectsIn, objectsTurn, HeapM.bind_assoc_apply, dequeue_bind (k := .objects) lone]
    refine congrArg (fun g => (HeapM.take? .objects s.2.counting.objects >>= g) h)
      (funext fun r => ?_)
    cases r <;> simp [HeapM.afterTurn]
  · refine (dequeue_meets (k := .objects) lone).bind fun r h₁ ⟨q, same, taken⟩ => ?_
    subst same
    cases r with
    | none => exact .pure taken
    | some r =>
      obtain ⟨pending, lone⟩ := taken
      refine (CountingBuffers.processObject_meets cycle { s.2.counting with objects := r.2 } r.1
        _).bind fun b h₂ d => .pure ⟨d.lone lone, Nat.lt_of_le_of_lt d.work_le ?_⟩
      exact Nat.add_lt_add_right (Nat.lt_of_succ_le (Nat.le_of_eq pending)) _

end Collector

namespace HeapM

variable {h : Heap}

/-- A turn of working off decrements, with the number of objects freed. -/
def decrementsTurn (s : Nat × Buffer Ref) : HeapM (Turn (Nat × Buffer Ref) (Nat × Buffer Ref)) := do
  match ← dequeue .decrements s.2 with
  | none => return .done s
  | some (o, b) =>
    let (wasFreed, b) ← processDecrement b o
    return .more (s.1 + wasFreed.toNat, b)

/-- Working off decrements takes one turn for each of them, and turns for the slots of one object
for each word whose count becomes zero. -/
theorem drainDecrements_ends (b : Buffer Ref) (lone : h.pools.decrements.Lone) :
    Ends decrementsTurn (0, b) h (owed b h + 1)
      (fun r h' => r.2.both h'.pools.decrements = []) (drainDecrements b) := by
  obtain ⟨steps, eq⟩ : ∃ n, n = Memory.wordCount * Memory.wordCount := ⟨_, rfl⟩
  have loop : drainDecrements b h =
      drainDecrementsIn (b.pending h.pools.decrements + steps + 1) 0 b h := by
    rw [drainDecrements, get_bind_apply, ← eq]
  have le := Nat.mul_le_mul_left Memory.wordCount (Memory.tally_le (·.count != 0) h.memory)
  rw [← eq] at le
  have enough : owed b h < b.pending h.pools.decrements + steps + 1 :=
    Nat.lt_add_one_of_le (Nat.add_le_add_left le _)
  refine .congr loop ?_
  refine Ends.of_drops (l := fun k s => drainDecrementsIn k s.1 s.2)
    (I := fun _ h => h.pools.decrements.Lone) (μ := fun s h => owed s.2 h) (s := (0, b))
    (k := b.pending h.pools.decrements + steps + 1)
    (fun k s h lone => ?_) (fun s h lone => ?_) lone enough
  · rw [drainDecrementsIn, decrementsTurn, bind_assoc_apply, dequeue_bind (k := .decrements) lone]
    refine congrArg (fun g => (take? .decrements s.2 >>= g) h) (funext fun r => ?_)
    cases r <;> simp [afterTurn]
  · refine (dequeue_meets (k := .decrements) lone).bind fun r h₁ ⟨q, same, taken⟩ => ?_
    subst same
    cases r with
    | none => exact .pure taken
    | some r =>
      obtain ⟨pending, lone⟩ := taken
      refine (processDecrement_meets r.2 r.1 _).bind fun t h₂ ⟨le, lone'⟩ =>
        .pure ⟨lone' lone, Nat.lt_of_le_of_lt le ?_⟩
      exact Nat.add_lt_add_right (Nat.lt_of_succ_le (Nat.le_of_eq pending)) _

end HeapM

namespace Trace

open HeapM (Ends Turn)

variable {h : Heap}

/-- A turn of marking: the referents of the object on top of the stack are visited. -/
def turn (t : Trace) : HeapM (Turn Trace Trace) := do
  match t.stack.pop with
  | none => return .done t
  | some (o, stack) => return .more (← { t with stack }.scan o)

theorem scan_meets (t : Trace) (o : Ref) :
    (t.scan o).Meets h fun t' h' => t'.work h' ≤ t.work h :=
  .inspect_bind Memory.referents_meets fun os _ =>
    .foldlM (I := fun t' h' => t'.work h' ≤ t.work h)
      (fun t' r k le => (visit_meets true t' r k).mono fun _ _ le' => Nat.le_trans le' le) os
      (Nat.le_refl _)

/-- Marking takes one turn for each object on the stack and for each word that becomes marked. -/
theorem drain_ends (t : Trace) :
    Ends turn t h (t.work h + 1) (fun t' _ => t'.stack.toList = []) t.drain := by
  have enough : t.work h < t.stack.size + Memory.wordCount + 1 :=
    Nat.lt_succ_of_le (Nat.add_le_add_left (Memory.tally_le ..) _)
  refine Ends.of_drops (l := drainIn) (I := fun _ _ => True) (μ := work)
    (fun k t h _ => ?_) (fun t h _ => ?_) trivial enough
  · rw [drainIn, turn]
    cases t.stack.pop <;> simp [HeapM.afterTurn]
  · unfold turn
    cases popped : t.stack.pop with
    | none => exact .pure (Stack.pop_eq_none.1 popped)
    | some r =>
      refine (scan_meets { t with stack := r.2 } r.1).bind fun t' h' le =>
        .pure ⟨trivial, Nat.lt_of_le_of_lt le ?_⟩
      refine Nat.add_lt_add_right ?_ _
      rw [Stack.size_eq_length, Stack.size_eq_length, Stack.toList_pop popped, List.length_append]
      exact Nat.lt_succ_self _

end Trace

/-! ## All loops -/

/-- A pool that is ready for one consumer has one, and it does not wait. -/
theorem Pool.lone_of_prepare {α : Type} {p q : Pool α} (prepared : p.prepare 1 = .ok q) :
    q.Lone := by
  cases prepared
  rfl

/-- The loops of an increment end on any heap, whatever its words, slots, pools and buffers hold,
once its pools are ready for one consumer: working off fields, working off objects and working off
decrements, each until its buffer and its pool are empty, and marking until its stack is empty.
Each of them ends after at most so many turns, and runs to that end: nothing is left then, unless a
turn met a fault that stops it. -/
theorem drains_end (h : Heap) (cycle : Bool) (c : Collector) (b : Buffer Ref) (t : Trace)
    (prepared : h.pools.prepare 1 = .ok h.pools) :
    HeapM.Ends (Collector.fieldsTurn cycle) (0, c) h (c.fields.pending h.pools.fields + 1)
      (fun r h' => r.2.fields.both h'.pools.fields = []) (c.drainFields cycle) ∧
    HeapM.Ends (Collector.objectsTurn cycle) (0, c) h (c.counting.work h + 1)
      (fun r h' => r.2.counting.objects.both h'.pools.objects = []) (c.drainObjects cycle) ∧
    HeapM.Ends HeapM.decrementsTurn (0, b) h (HeapM.owed b h + 1)
      (fun r h' => r.2.both h'.pools.decrements = []) (HeapM.drainDecrements b) ∧
    HeapM.Ends Trace.turn t h (t.work h + 1) (fun t' _ => t'.stack.toList = []) t.drain := by
  simp only [Pools.prepare, Except.bind_eq_ok, Except.pure_eq, Except.ok.injEq] at prepared
  obtain ⟨objects, readyObjects, fields, readyFields, decrements, readyDecrements, _, -, same⟩ :=
    prepared
  exact ⟨c.drainFields_ends cycle (same ▸ Pool.lone_of_prepare readyFields),
    c.drainObjects_ends cycle (same ▸ Pool.lone_of_prepare readyObjects),
    HeapM.drainDecrements_ends b (same ▸ Pool.lone_of_prepare readyDecrements), t.drain_ends⟩

/-- Two small objects of one slot each, which refer to each other. -/
def Heap.ring : Heap :=
  { Heap.ofSettings {} with
    small := { (Heap.ofSettings {}).small with
      classes := (∅ : Std.ExtTreeMap Address SizeClass compare).insert 0x10000000 1
      live := ((∅ : Std.ExtTreeSet Address compare).insert 0x10000000).insert 0x10000020 }
    memory :=
      [(0, 256), (1, 2), (2, 0x10000020), (4, 256), (5, 2), (6, 0x10000000)].foldl
        (fun m w => m.setWord w.1 w.2) Memory.empty }

/-- A reference too few takes both objects of a ring away, and the loop ends. -/
theorem drains_end_ring : Heap.ring.pools.prepare 1 = .ok Heap.ring.pools ∧
    ∃ n r h', HeapM.EndsIn HeapM.decrementsTurn n (0, ⟨.ofList [⟨0x10000000⟩], 8⟩) Heap.ring
        (.ok r h') ∧ r.1 = 2 ∧ r.2.both h'.pools.decrements = [] := by
  have prepared : Heap.ring.pools.prepare 1 = .ok Heap.ring.pools := rfl
  have run : (HeapM.drainDecrements ⟨.ofList [⟨0x10000000⟩], 8⟩).holds (fun r _ => r.1 == 2)
      Heap.ring = true := by decide +kernel
  obtain ⟨r, h', run, freed⟩ := HeapM.holds_iff.1 run
  have loops := (drains_end Heap.ring false
    ⟨0, ⟨⟨.empty, 8⟩, ⟨.empty, 8⟩⟩, ⟨.empty, 8⟩, ⟨.empty, 8⟩⟩ ⟨.ofList [⟨0x10000000⟩], 8⟩ {}
    prepared).2.2.1
  obtain ⟨n, -, ends⟩ := loops.turns
  rw [run] at ends
  exact ⟨prepared, n, r, h', ends, beq_iff_eq.1 freed, loops.stops.result run⟩

end DeferredCount
