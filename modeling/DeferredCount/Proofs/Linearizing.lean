import DeferredCount.Mutator.Barrier
import DeferredCount.Proofs.Objects
import Mathlib.Data.List.Pairwise
import Mathlib.Logic.Relation

/-!
# Threads that share a header

A thread changes a header by a loop: it loads the word, computes the new one, and exchanges the two
if the word is still the one it saw, else it tries again. Other threads may do what they want
between two accesses. Still each call is as if it were done at once, at the access that ends its
loop, and so the calls of all threads are as if they were made one after the other.

Results:
1. `HeaderOp.of_access`, `HeaderOp.Settles.run_eq`: the access that ends a loop does what the whole
   operation does at once.
2. `HeaderOp.Settles.holders_le`: what an operation does to the logging lock.
3. `HeaderOp.Settles.drops_eq`, `HeaderOp.Settles.fresh_eq`: what increments and decrements tell.
4. `HeaderTraffic.Explained.step`: the order in which calls take effect explains the state.
5. `header_calls_are_linearizable`: the calls of a completed run.
-/

namespace DeferredCount

open Relation

/-! ## The header in the memory -/

/-- The header of the object lies in the memory. -/
def Ref.InMemory (o : Ref) : Prop := Memory.index o.addr = .ok o.base

section Memory

variable {h h' : Heap} {o : Ref} {seen new : Header}

theorem Heap.header_putHeader (h : Heap) (o : Ref) (new : Header) :
    ((h.putHeader o new).view o).header = new := by
  change Header.ofWord ((h.memory.setWord o.base new.toWord).word o.base) = new
  rw [Memory.word_setWord, if_pos rfl, Header.ofWord_toWord]

theorem Ref.InMemory.header_eq (mem : o.InMemory) (h : Heap) :
    HeapM.inspect (·.header o) h = .ok (h.view o).header h := by
  refine HeapM.inspect_of_ok ?_
  rw [Memory.header, Memory.load, show Memory.index o.addr = .ok o.base from mem]
  rfl

theorem Ref.InMemory.store_eq (mem : o.InMemory) (h : Heap) (new : Header) :
    HeapM.change (·.store o.addr new.toWord) h = .ok () (h.putHeader o new) := by
  refine HeapM.change_of_ok ?_
  rw [Memory.store, show Memory.index o.addr = .ok o.base from mem]
  rfl

/-- A header that was loaded is that of the object. -/
theorem HeapM.inspect_header_eq_ok (e : inspect (·.header o) h = .ok seen h') :
    o.InMemory ∧ seen = (h.view o).header ∧ h' = h := by
  have mem : o.InMemory := by
    rw [inspect, get_bind_apply, lift_eq_ok] at e
    obtain ⟨i, found, -⟩ := Except.bind_eq_ok.1 (Except.bind_eq_ok.1 e.1).choose_spec.1
    rw [Ref.InMemory, found]
    unfold Memory.index distance at found
    split at found
    · rw [Except.ok_bind] at found
      split at found
      · exact found.symm
      · cases found
    · cases found
  cases (mem.header_eq h).symm.trans e
  exact ⟨mem, rfl, rfl⟩

theorem Ref.InMemory.updateHeader_eq (mem : o.InMemory) (h : Heap) (f : Header → Option Header) :
    HeapM.updateHeader o f h = .ok ((h.view o).header, (f (h.view o).header).isSome)
      ((f (h.view o).header).elim h (h.putHeader o)) := by
  rw [HeapM.updateHeader, HeapM.bind_of_ok (mem.header_eq h)]
  cases f (h.view o).header with
  | none => rfl
  | some new =>
    dsimp only
    rw [HeapM.bind_of_ok (mem.store_eq h new)]
    rfl

/-- An exchange is made if the header is the one that was seen. -/
theorem HeapM.exchangeHeader_eq_ok {done : Bool} (e : exchangeHeader o seen new h = .ok done h') :
    o.InMemory ∧ (done = true → seen = (h.view o).header ∧ h' = h.putHeader o new) ∧
      (done = false → h' = h) := by
  obtain ⟨present, _, loaded, e⟩ := bind_eq_ok.1 e
  obtain ⟨mem, rfl, rfl⟩ := inspect_header_eq_ok loaded
  refine ⟨mem, ?_⟩
  split at e
  · next same =>
    obtain ⟨_, _, stored, e⟩ := bind_eq_ok.1 e
    cases (mem.store_eq _ new).symm.trans stored
    cases e
    exact ⟨fun _ => ⟨same.symm, rfl⟩, nofun⟩
  · cases e
    exact ⟨nofun, fun _ => rfl⟩

end Memory

/-! ## Operations -/

/-- An operation on the header of an object. -/
inductive HeaderOp
  | increment
  | decrement
  | makeUnlogged
  | mark
  | clearMark
  | resetCount
  /-- Takes the lock to log the object, or one of its fields. -/
  | lock
  /-- Marks the object logged and gives the lock back. -/
  | makeLogged
  /-- Gives the lock back. -/
  | finishLogging
  deriving DecidableEq, Repr

/-- What an operation tells its caller. -/
inductive HeaderReply
  | done
  | flag (b : Bool)
  | gained (g : Header.Gained)
  | lost (l : Header.Lost)
  deriving DecidableEq, Repr

namespace HeaderOp

/-- The operation, done at once. -/
def run (o : Ref) : HeaderOp → HeapM HeaderReply
  | increment => do
    let (old, _) ← HeapM.updateHeader o Header.increment
    return .gained old.gained
  | decrement => do
    let (old, updated) ← HeapM.updateHeader o Header.decrement
    if !updated && old.count == 0 then throw (.zeroCount o)
    return .lost old.lost
  | makeUnlogged => return .flag (← HeapM.updateHeader o Header.makeUnlogged).2
  | mark => return .flag (← HeapM.updateHeader o Header.mark).2
  | clearMark => do
    let _ ← HeapM.updateHeader o Header.clearMark
    return .done
  | resetCount => do
    let _ ← HeapM.updateHeader o Header.resetCount
    return .done
  | lock => return .flag (← Mutator.lock o)
  | makeLogged => do
    Mutator.makeLogged o
    return .done
  | finishLogging => do
    Mutator.finishLogging o
    return .done

/-- The update that the loop of the operation tries. -/
def update : HeaderOp → Header → Option Header
  | increment => Header.increment
  | decrement => Header.decrement
  | makeUnlogged => Header.makeUnlogged
  | mark => Header.mark
  | clearMark => Header.clearMark
  | resetCount => Header.resetCount
  | lock => fun h => if h.logRequired then h.lock else none
  | makeLogged => Header.makeLogged
  | finishLogging => Header.finishLogging

/-- Does the operation have to wait while the header is this one? -/
def waits : HeaderOp → Header → Bool
  | lock, h => h.isBusy
  | _, _ => false

/-- Does the loop load the header again after an exchange that was not made? Else it goes on with
the header that the exchange found. -/
def reloads : HeaderOp → Bool
  | lock => true
  | _ => false

/-- What the operation tells, by the last header it saw and whether it was exchanged. -/
def reply (o : Ref) : HeaderOp → Header → Bool → Except Fault HeaderReply
  | increment, old, _ => .ok (.gained old.gained)
  | decrement, old, updated =>
    if !updated && old.count == 0 then .error (.zeroCount o) else .ok (.lost old.lost)
  | makeUnlogged, _, updated | mark, _, updated | lock, _, updated => .ok (.flag updated)
  | clearMark, _, _ | resetCount, _, _ => .ok .done
  | makeLogged, old, _ => if old.locked then .ok .done else .error (.lockNotHeld o)
  | finishLogging, old, _ => do
    require .lockHeld old.locked
    return .done

/-- Where the loop of an operation is. -/
inductive Phase (op : HeaderOp)
  /-- Load the header. -/
  | loading
  /-- Exchange the header that was seen for the updated one. -/
  | exchanging (seen new : Header) : op.waits seen = false → op.update seen = some new → Phase op

variable {o : Ref} {op : HeaderOp} {h h' : Heap} {r : HeaderReply} {phase next : op.Phase}

/-- Goes on with a header that was seen: waits for another one, tries to exchange it, or ends the
loop. -/
def sees (op : HeaderOp) (o : Ref) (seen : Header) : HeapM (op.Phase ⊕ HeaderReply) :=
  if waits : op.waits seen = true then return .inl .loading
  else match (op.update seen).attach with
    | some ⟨new, update⟩ => return .inl (.exchanging seen new (eq_false_of_ne_true waits) update)
    | none => return .inr (← HeapM.lift (op.reply o seen false))

/-- One access of the loop to the header. It ends the loop with a reply, or leads to the next
access. -/
def access (o : Ref) : op.Phase → HeapM (op.Phase ⊕ HeaderReply)
  | .loading => do op.sees o (← HeapM.inspect (·.header o))
  | .exchanging seen new _ _ => do
    if ← HeapM.exchangeHeader o seen new then return .inr (← HeapM.lift (op.reply o seen true))
    else if op.reloads then return .inl .loading
    else op.sees o (← HeapM.inspect (·.header o))

/-- The operation is done at once: it need not wait, it updates the header if it wants to, and it
has this reply. -/
structure Settles (o : Ref) (op : HeaderOp) (h : Heap) (r : HeaderReply) (h' : Heap) : Prop where
  mem : o.InMemory
  waits : op.waits (h.view o).header = false
  reply : op.reply o (h.view o).header (op.update (h.view o).header).isSome = .ok r
  heap : h' = (op.update (h.view o).header).elim h (h.putHeader o)

theorem of_sees (mem : o.InMemory) {result : op.Phase ⊕ HeaderReply}
    (e : op.sees o (h.view o).header h = .ok result h') :
    h' = h ∧ ∀ r, result = .inr r → op.Settles o h r h := by
  unfold sees at e
  split at e
  · cases e
    exact ⟨rfl, nofun⟩
  · next free =>
    cases tried : (op.update (h.view o).header).attach with
    | some new =>
      rw [tried] at e
      cases e
      exact ⟨rfl, nofun⟩
    | none =>
      rw [tried] at e
      have none := Option.attach_eq_none_iff.1 tried
      obtain ⟨r, _, told, rest⟩ := HeapM.bind_eq_ok.1 e
      obtain ⟨reply, rfl⟩ := HeapM.lift_eq_ok.1 told
      cases rest
      refine ⟨rfl, ?_⟩
      rintro _ ⟨⟩
      exact ⟨mem, eq_false_of_ne_true free, by rwa [none], by rw [none]; rfl⟩

/-- An access that does not end the loop changes nothing. The one that does ends it as if the whole
operation were done by it. -/
theorem of_access {result : op.Phase ⊕ HeaderReply} (e : access o phase h = .ok result h') :
    (∀ p, result = .inl p → h' = h) ∧ ∀ r, result = .inr r → op.Settles o h r h' := by
  cases phase with
  | loading =>
    obtain ⟨seen, _, loaded, e⟩ := HeapM.bind_eq_ok.1 e
    obtain ⟨mem, rfl, rfl⟩ := HeapM.inspect_header_eq_ok loaded
    obtain ⟨rfl, settled⟩ := of_sees mem e
    exact ⟨fun _ _ => rfl, settled⟩
  | exchanging seen new free update =>
    obtain ⟨done, h₁, exchanged, rest⟩ := HeapM.bind_eq_ok.1 e
    obtain ⟨mem, made, missed⟩ := HeapM.exchangeHeader_eq_ok exchanged
    cases done with
    | true =>
      obtain ⟨rfl, rfl⟩ := made rfl
      obtain ⟨r, _, told, rest⟩ := HeapM.bind_eq_ok.1 rest
      obtain ⟨reply, rfl⟩ := HeapM.lift_eq_ok.1 told
      cases rest
      refine ⟨nofun, ?_⟩
      rintro _ ⟨⟩
      exact ⟨mem, free, by rwa [update], by rw [update]; rfl⟩
    | false =>
      obtain rfl := missed rfl
      rw [if_neg Bool.false_ne_true] at rest
      split at rest
      · cases rest
        exact ⟨fun _ _ => rfl, nofun⟩
      · obtain ⟨seen, _, loaded, rest⟩ := HeapM.bind_eq_ok.1 rest
        obtain ⟨-, rfl, rfl⟩ := HeapM.inspect_header_eq_ok loaded
        obtain ⟨rfl, settled⟩ := of_sees mem rest
        exact ⟨fun _ _ => rfl, settled⟩

/-- What settles an operation is a run of the operation. -/
theorem Settles.run_eq (s : op.Settles o h r h') : op.run o h = .ok r h' := by
  obtain ⟨mem, free, told, rfl⟩ := s
  have updated := mem.updateHeader_eq h op.update
  cases op with
  | increment | makeUnlogged | mark | clearMark | resetCount =>
    cases told
    exact HeapM.bind_of_ok updated
  | decrement =>
    refine (HeapM.bind_of_ok updated).trans ?_
    change (if (!(decrement.update (h.view o).header).isSome && (h.view o).header.count == 0) = true
      then _ else _) = _ at told
    dsimp only
    split at told
    · cases told
    · next counted =>
      cases told
      rw [if_neg counted]
      rfl
  | lock =>
    cases told
    have free : (h.view o).header.isBusy = false := free
    refine HeapM.bind_of_ok (?_ : Mutator.lock o h = .ok (lock.update (h.view o).header).isSome _)
    rw [Mutator.lock, HeapM.bind_of_ok (mem.header_eq h), if_neg (ne_true_of_eq_false free)]
    cases required : (h.view o).header.logRequired with
    | false =>
      have none : lock.update (h.view o).header = none := if_neg (ne_true_of_eq_false required)
      rw [none]
      rfl
    | true =>
      have some : lock.update (h.view o).header = (h.view o).header.lock := if_pos required
      rw [some]
      exact HeapM.bind_of_ok (mem.updateHeader_eq h Header.lock)
  | makeLogged =>
    change (if (h.view o).header.locked then _ else _) = _ at told
    split at told
    · next held =>
      cases told
      refine HeapM.bind_of_ok (?_ : Mutator.makeLogged o h = .ok () _)
      refine (HeapM.bind_of_ok updated).trans ?_
      dsimp only
      rw [if_pos held]
      rfl
    · cases told
  | finishLogging =>
    obtain ⟨_, held, e⟩ := Except.bind_eq_ok.1 told
    cases e
    refine HeapM.bind_of_ok (?_ : Mutator.finishLogging o h = .ok () _)
    refine (HeapM.bind_of_ok updated).trans ?_
    exact HeapM.lift_eq_ok.2 ⟨held, rfl⟩

theorem Settles.header_eq (s : op.Settles o h r h') :
    (h'.view o).header = (op.update (h.view o).header).getD (h.view o).header := by
  rw [s.heap]
  cases op.update (h.view o).header with
  | none => rfl
  | some new => exact h.header_putHeader o new

/-! ### The lock -/

/-- May a thread call the operation? It takes the lock only if it does not hold it, and gives back
only a lock that it holds. -/
def mayCall : HeaderOp → (holds : Bool) → Bool
  | lock, holds => !holds
  | makeLogged, holds | finishLogging, holds => holds
  | _, _ => true

/-- Does a thread hold the lock after the operation has had this reply? -/
def holding : HeaderOp → HeaderReply → (holds : Bool) → Bool
  | lock, .flag taken, _ => taken
  | makeLogged, _, _ | finishLogging, _, _ => false
  | _, _, holds => holds

/-- An operation that is not about the lock keeps it. -/
theorem locked_update {old new : Header} (free : ∀ holds, op.mayCall holds = true)
    (e : op.update old = some new) : new.locked = old.locked := by
  cases op with
  | lock => cases free true
  | makeLogged | finishLogging => cases free false
  | increment | decrement | makeUnlogged | mark | clearMark | resetCount =>
    simp only [update, Header.increment, Header.decrement, Header.makeUnlogged, Header.mark,
      Header.clearMark, Header.resetCount] at e
    grind

/-- The threads that hold the lock are at most one before and after an operation, and none if the
header says that the lock is free. -/
theorem Settles.holders_le (s : op.Settles o h r h') {holds : Bool} {others : Nat}
    (may : op.mayCall holds = true)
    (le : others + holds.toNat ≤ (h.view o).header.locked.toNat) :
    others + (op.holding r holds).toNat ≤ (h'.view o).header.locked.toNat := by
  have told := s.reply
  have most := Bool.toNat_le (h.view o).header.locked
  rw [s.header_eq]
  cases op with
  | lock =>
    cases told
    have free : (h.view o).header.isBusy = false := s.waits
    cases required : (h.view o).header.logRequired with
    | false =>
      have none : lock.update (h.view o).header = none := if_neg (ne_true_of_eq_false required)
      rw [none]
      exact Nat.le_trans (Nat.add_le_add_left (Nat.zero_le _) _) le
    | true =>
      have some : lock.update (h.view o).header = (h.view o).header.lock := if_pos required
      rw [Header.isBusy, required, Bool.true_and] at free
      rw [free] at le
      rw [some]
      exact Nat.succ_le_succ (Nat.le_trans (Nat.le_add_right _ _) le)
  | makeLogged | finishLogging =>
    obtain rfl : holds = true := may
    exact Nat.le_trans (Nat.le_of_succ_le_succ (Nat.le_trans le most)) (Nat.zero_le _)
  | increment | decrement | makeUnlogged | mark | clearMark | resetCount =>
    refine Nat.le_trans le (Nat.le_of_eq (congrArg Bool.toNat ?_))
    cases e : update _ (h.view o).header with
    | none => rfl
    | some new => exact (locked_update (fun _ => rfl) e).symm

/-! ### Counting -/

/-- Does the count of the object go from one to zero? -/
def drops (o : Ref) (h h' : Heap) : Bool :=
  (h.view o).header.count == 1 && (h'.view o).header.count == 0

theorem increment_update (hd : Header) :
    ((increment.update hd).getD hd).fresh = false ∧
      ((increment.update hd).getD hd).count = min Header.stuck (hd.count + 1) := by
  have lt := hd.count_lt
  cases e : increment.update hd with
  | none =>
    simp only [update, Header.increment] at e
    grind
  | some new =>
    refine ⟨?_, Header.increment_count e⟩
    simp only [update, Header.increment] at e
    grind

theorem decrement_update (hd : Header) :
    ((decrement.update hd).getD hd).fresh = hd.fresh ∧
      (hd.count = 1 → ((decrement.update hd).getD hd).count = 0) := by
  cases e : decrement.update hd with
  | none =>
    simp only [update, Header.decrement] at e
    grind
  | some new =>
    simp only [update, Header.decrement] at e
    grind

theorem Settles.decrement_reply (s : decrement.Settles o h r h') :
    r = .lost (h.view o).header.lost := by
  have told := s.reply
  change (if (!(decrement.update (h.view o).header).isSome && (h.view o).header.count == 0) = true
    then _ else _) = _ at told
  split at told
  · cases told
  · cases told
    rfl

/-- The caller of a decrement is told when the count goes from one to zero. -/
theorem Settles.drops_eq (s : op.Settles o h r h') (counts : op = increment ∨ op = decrement) :
    drops o h h' = decide (r = .lost .last) := by
  rw [drops, s.header_eq]
  rcases counts with rfl | rfl
  · cases s.reply
    rw [(increment_update _).2]
    by_cases one : (h.view o).header.count = 1
    · simp [one]
    · simp [one]
  · rw [s.decrement_reply, Header.lost]
    by_cases one : (h.view o).header.count = 1
    · simp [one, (decrement_update _).2 one]
    · simp [one]

/-- The caller of an increment is told when it ends the freshness of the object. -/
theorem Settles.fresh_eq (s : op.Settles o h r h') (counts : op = increment ∨ op = decrement) :
    (decide (r = .gained .first)).toNat + (h'.view o).header.fresh.toNat =
      (h.view o).header.fresh.toNat ∧ (op = increment → (h'.view o).header.fresh = false) := by
  rw [s.header_eq]
  rcases counts with rfl | rfl
  · cases s.reply
    rw [(increment_update _).1, Header.gained]
    cases (h.view o).header.fresh <;> exact ⟨rfl, fun _ => rfl⟩
  · rw [s.decrement_reply, (decrement_update _).1]
    exact ⟨by simp, nofun⟩

end HeaderOp

/-! ## Threads -/

namespace HeaderTraffic

/-- A call that took effect. Times are numbers of steps. -/
structure Effect where
  thread : Nat
  op : HeaderOp
  reply : HeaderReply
  invoked : Nat
  /-- When the access was made that ended its loop. -/
  settled : Nat
  deriving DecidableEq, Repr

/-- A call that returned. -/
structure Call extends Effect where
  returned : Nat
  deriving DecidableEq, Repr

/-- What a thread is doing. -/
inductive Activity
  | idle
  /-- It is in the loop of an operation that it called at some time. -/
  | calling (op : HeaderOp) (phase : op.Phase) (invoked : Nat)
  /-- It is about to return from a call. -/
  | returning (e : Effect)

/-- A thread. -/
structure Worker where
  name : Nat
  /-- Does it hold the logging lock? -/
  holds : Bool := false
  activity : Activity := .idle

end HeaderTraffic

/-- Threads that share the header of an object. -/
structure HeaderTraffic where
  heap : Heap
  workers : List HeaderTraffic.Worker
  /-- The number of steps so far. -/
  time : Nat := 0
  /-- The calls that returned, in this order. -/
  calls : List HeaderTraffic.Call := []
  /-- How often the count went from one to zero. -/
  drops : Nat := 0

namespace HeaderTraffic

/-- So many threads that have made no call yet. -/
def start (heap : Heap) (threads : Nat) : HeaderTraffic where
  heap
  workers := (List.range threads).map fun name => { name }

/-- One step of one thread.
* `invoke`: it calls an operation.
* `retry`: an access to the header does not end the loop of its call.
* `settle`: an access to the header ends the loop.
* `finish`: its call returns. -/
inductive Step (o : Ref) : HeaderTraffic → HeaderTraffic → Prop
  | invoke {t : HeaderTraffic} {pre post : List Worker} {w : Worker} (op : HeaderOp) :
    t.workers = pre ++ w :: post → w.activity = .idle → op.mayCall w.holds = true →
    Step o t { t with
      workers := pre ++ { w with activity := .calling op .loading t.time } :: post
      time := t.time + 1 }
  | retry {t : HeaderTraffic} {pre post : List Worker} {w : Worker} {op : HeaderOp}
    {phase next : op.Phase} {invoked : Nat} {h' : Heap} :
    t.workers = pre ++ w :: post → w.activity = .calling op phase invoked →
    HeaderOp.access o phase t.heap = .ok (.inl next) h' →
    Step o t { t with
      heap := h'
      workers := pre ++ { w with activity := .calling op next invoked } :: post
      time := t.time + 1
      drops := t.drops + (HeaderOp.drops o t.heap h').toNat }
  | settle {t : HeaderTraffic} {pre post : List Worker} {w : Worker} {op : HeaderOp}
    {phase : op.Phase} {invoked : Nat} {reply : HeaderReply} {h' : Heap} :
    t.workers = pre ++ w :: post → w.activity = .calling op phase invoked →
    HeaderOp.access o phase t.heap = .ok (.inr reply) h' →
    Step o t { t with
      heap := h'
      workers := pre ++ { w with
        holds := op.holding reply w.holds
        activity := .returning ⟨w.name, op, reply, invoked, t.time⟩ } :: post
      time := t.time + 1
      drops := t.drops + (HeaderOp.drops o t.heap h').toNat }
  | finish {t : HeaderTraffic} {pre post : List Worker} {w : Worker} {e : Effect} :
    t.workers = pre ++ w :: post → w.activity = .returning e →
    Step o t { t with
      workers := pre ++ { w with activity := .idle } :: post
      time := t.time + 1
      calls := t.calls ++ [⟨e, t.time⟩] }

/-- Some steps, one after the other. -/
abbrev Runs (o : Ref) : HeaderTraffic → HeaderTraffic → Prop := ReflTransGen (Step o)

/-- No call is under way. -/
def Quiet (t : HeaderTraffic) : Prop := ∀ w ∈ t.workers, w.activity = .idle

/-- The operations run one after the other, each at once, with these replies. -/
inductive Replays (o : Ref) : Heap → List Effect → Heap → Prop
  | nil {h : Heap} : Replays o h [] h
  | cons {h h₁ h' : Heap} {e : Effect} {es : List Effect} : e.op.run o h = .ok e.reply h₁ →
    Replays o h₁ es h' → Replays o h (e :: es) h'

variable {o : Ref} {t t' : HeaderTraffic} {pre post : List Worker} {w w' x : Worker}
  {done : List Effect} {e : Effect} {h₀ h h' : Heap} {invoked : Nat}

theorem Replays.append (r : Replays o h₀ done h) (run : e.op.run o h = .ok e.reply h') :
    Replays o h₀ (done ++ [e]) h' := by
  induction r with
  | nil => exact .cons run .nil
  | cons first _ ih => exact .cons first (ih run)

/-! ### The order of the calls -/

/-- The effect of the call that the thread is about to return from. -/
def Worker.effect? (w : Worker) : Option Effect :=
  match w.activity with
  | .returning e => some e
  | _ => none

/-- The thread is in a call since some time, when its calls before had returned. -/
def Worker.Since (w : Worker) (t : HeaderTraffic) (invoked : Nat) : Prop :=
  invoked < t.time ∧ ∀ c ∈ t.calls, c.thread = w.name → c.returned < invoked

/-- The thread makes one call at a time, and it makes the calls that it may make. -/
def Worker.Orderly (w : Worker) (t : HeaderTraffic) : Prop :=
  match w.activity with
  | .idle => True
  | .calling op _ invoked => op.mayCall w.holds = true ∧ w.Since t invoked
  | .returning e => e.thread = w.name ∧ w.Since t e.invoked

/-- The effects `done`, in the order in which they happened, are those of the calls that returned
and of those that are about to. A call takes effect between its begin and its end. -/
structure Timed (t : HeaderTraffic) (done : List Effect) : Prop where
  names : (t.workers.map (·.name)).Nodup
  orderly : ∀ w ∈ t.workers, w.Orderly t
  perm : done.Perm (t.calls.map (·.toEffect) ++ t.workers.filterMap Worker.effect?)
  sorted : done.Pairwise fun d e => d.settled < e.settled
  within : ∀ e ∈ done, e.invoked < e.settled ∧ e.settled < t.time
  returned : ∀ c ∈ t.calls, c.settled < c.returned ∧ c.returned < t.time
  inTurn : t.calls.Pairwise fun c d => c.thread = d.thread → c.returned < d.invoked

/-- A thread does not notice that another one returns from a call. -/
theorem Worker.Orderly.later (ok : x.Orderly t) (le : t.time ≤ t'.time)
    (calls : ∀ c ∈ t'.calls, c ∈ t.calls ∨ c.thread ≠ x.name) : x.Orderly t' := by
  have since {k : Nat} (s : x.Since t k) : x.Since t' k :=
    ⟨Nat.lt_of_lt_of_le s.1 le, fun c hc mine => s.2 c ((calls c hc).resolve_right (· mine)) mine⟩
  unfold Orderly at ok ⊢
  split at ok
  · trivial
  · exact ⟨ok.1, since ok.2⟩
  · exact ⟨ok.1, since ok.2⟩

namespace Timed

theorem start (h : Heap) (threads : Nat) : Timed (HeaderTraffic.start h threads) [] where
  names := by
    rw [HeaderTraffic.start, List.map_map]
    exact (List.map_id _).symm ▸ List.nodup_range
  orderly w hw := by
    obtain ⟨name, -, rfl⟩ := List.mem_map.1 hw
    trivial
  perm := by
    have none : (HeaderTraffic.start h threads).workers.filterMap Worker.effect? = [] := by
      refine List.filterMap_eq_nil_iff.2 fun w hw => ?_
      obtain ⟨name, -, rfl⟩ := List.mem_map.1 hw
      rfl
    rw [none]
    exact .refl _
  sorted := .nil
  within := nofun
  returned := nofun
  inTurn := .nil

/-- One thread did something, and the others are in the calls they were in. -/
theorem replace (st : Timed t done) (mine : w'.Orderly t') (split : t.workers = pre ++ w :: post)
    (workers : t'.workers = pre ++ w' :: post) (name : w'.name = w.name) (le : t.time ≤ t'.time)
    (calls : ∀ c ∈ t'.calls, c ∈ t.calls ∨ c.thread = w.name) :
    (t'.workers.map (·.name)).Nodup ∧ ∀ x ∈ t'.workers, x.Orderly t' := by
  have names := st.names
  rw [split, List.map_append, List.map_cons] at names
  have others : ∀ x ∈ pre ++ post, x.Orderly t' := fun x hx => by
    have old : x ∈ t.workers := split ▸ (List.sublist_cons_self w post).append_left pre |>.mem hx
    refine (st.orderly x old).later le fun c hc => (calls c hc).imp_right fun eq other => ?_
    rw [List.nodup_middle, ← List.map_append] at names
    exact (List.nodup_cons.1 names).1 (eq ▸ other ▸ List.mem_map_of_mem hx)
  rw [workers]
  refine ⟨by rwa [List.map_append, List.map_cons, name], fun x hx => ?_⟩
  rcases List.mem_cons.1 (List.perm_middle.mem_iff.1 hx) with rfl | hx
  · exact mine
  · exact others x hx

theorem effects_perm (pre post : List Worker) (w : Worker) :
    ((pre ++ w :: post).filterMap Worker.effect?).Perm
      (w.effect?.toList ++ (pre ++ post).filterMap Worker.effect?) := by
  refine (List.perm_middle.filterMap _).trans (.of_eq ?_)
  cases e : w.effect? with
  | none => rw [List.filterMap_cons_none e]; rfl
  | some e' => rw [List.filterMap_cons_some e]; rfl

/-- A step in which no call takes effect and none returns. -/
theorem move (st : Timed t done) (split : t.workers = pre ++ w :: post) (w' : Worker)
    (name : w'.name = w.name) (none : w.effect? = none) (none' : w'.effect? = Option.none)
    {drops : Nat} (mine : w'.Orderly ⟨h', pre ++ w' :: post, t.time + 1, t.calls, drops⟩) :
    Timed ⟨h', pre ++ w' :: post, t.time + 1, t.calls, drops⟩ done := by
  obtain ⟨names, orderly⟩ := st.replace mine split rfl name (Nat.le_succ _) fun _ => .inl
  have effects : (t.workers.filterMap Worker.effect?).Perm _ := split ▸ effects_perm pre post w
  rw [none, ← none'] at effects
  exact {
    names, orderly
    perm := st.perm.trans ((effects.trans (effects_perm pre post w').symm).append_left _)
    sorted := st.sorted
    within := fun e he => (st.within e he).imp_right Nat.lt_succ_of_lt
    returned := fun c hc => (st.returned c hc).imp_right Nat.lt_succ_of_lt
    inTurn := st.inTurn }

/-- A call takes effect. -/
theorem settle (st : Timed t done) (split : t.workers = pre ++ w :: post) (w' : Worker)
    (name : w'.name = w.name) (none : w.effect? = none) (returning : w'.activity = .returning e)
    (mine : e.thread = w.name) (since : w.Since t e.invoked) (now : e.settled = t.time)
    {drops : Nat} :
    Timed ⟨h', pre ++ w' :: post, t.time + 1, t.calls, drops⟩ (done ++ [e]) := by
  have effect : w'.effect? = some e := by rw [Worker.effect?, returning]
  have ok : w'.Orderly ⟨h', pre ++ w' :: post, t.time + 1, t.calls, drops⟩ := by
    rw [Worker.Orderly, returning, name]
    exact ⟨mine, Nat.lt_succ_of_lt since.1, name ▸ since.2⟩
  obtain ⟨names, orderly⟩ := st.replace ok split rfl name (Nat.le_succ _) fun _ => .inl
  have before : (t.workers.filterMap Worker.effect?).Perm _ := split ▸ effects_perm pre post w
  rw [none] at before
  have after := effects_perm pre post w'
  rw [effect] at after
  exact {
    names, orderly
    perm := by
      refine (List.perm_append_singleton e done).trans ?_
      refine .trans ?_ (after.symm.append_left _)
      exact ((st.perm.trans (before.append_left _)).cons e).trans List.perm_middle.symm
    sorted := List.pairwise_append.2 ⟨st.sorted, List.pairwise_singleton _ _, fun d hd e' he' => by
      rw [List.mem_singleton.1 he', now]
      exact (st.within d hd).2⟩
    within := fun d hd => by
      rcases List.mem_append.1 hd with hd | hd
      · exact (st.within d hd).imp_right Nat.lt_succ_of_lt
      · rw [List.mem_singleton.1 hd, now]
        exact ⟨since.1, Nat.lt_succ_self _⟩
    returned := fun c hc => (st.returned c hc).imp_right Nat.lt_succ_of_lt
    inTurn := st.inTurn }

/-- A call returns. -/
theorem finish (st : Timed t done) (split : t.workers = pre ++ w :: post)
    (returning : w.activity = .returning e) :
    Timed ⟨t.heap, pre ++ { w with activity := .idle } :: post, t.time + 1,
      t.calls ++ [⟨e, t.time⟩], t.drops⟩ done := by
  have effect : w.effect? = some e := by rw [Worker.effect?, returning]
  have turn := st.orderly w (split ▸ by simp)
  rw [Worker.Orderly, returning] at turn
  obtain ⟨mine, -, before⟩ := turn
  have ok : Worker.Orderly { w with activity := .idle } ⟨t.heap,
      pre ++ { w with activity := .idle } :: post, t.time + 1, t.calls ++ [⟨e, t.time⟩], t.drops⟩ :=
    trivial
  obtain ⟨names, orderly⟩ := st.replace ok split rfl rfl (Nat.le_succ _) fun c hc => by
    rcases List.mem_append.1 hc with hc | hc
    · exact .inl hc
    · exact .inr (List.mem_singleton.1 hc ▸ mine)
  have settled : e ∈ done := st.perm.mem_iff.2 (List.mem_append_right _
    (List.mem_filterMap.2 ⟨w, split ▸ by simp, effect⟩))
  have effects : (t.workers.filterMap Worker.effect?).Perm _ := split ▸ effects_perm pre post w
  rw [effect] at effects
  exact {
    names, orderly
    perm := by
      rw [List.map_append, List.append_assoc]
      have left := effects_perm pre post { w with activity := .idle }
      exact st.perm.trans ((effects.trans (left.symm.cons e)).append_left _)
    sorted := st.sorted
    within := fun e he => (st.within e he).imp_right Nat.lt_succ_of_lt
    returned := fun c hc => by
      rcases List.mem_append.1 hc with hc | hc
      · exact (st.returned c hc).imp_right Nat.lt_succ_of_lt
      · rw [List.mem_singleton.1 hc]
        exact ⟨(st.within e settled).2, Nat.lt_succ_self _⟩
    inTurn := List.pairwise_append.2 ⟨st.inTurn, List.pairwise_singleton _ _,
      fun c hc d hd same => by
        rw [List.mem_singleton.1 hd] at same ⊢
        exact before c hc (same.trans mine)⟩ }

end Timed

/-! ### What is counted -/

/-- What increments and decrements told their callers is what happened to the header. -/
structure Tallied (o : Ref) (h₀ h : Heap) (drops : Nat) (done : List Effect) : Prop where
  drops_eq : drops = done.countP (·.reply = .lost .last)
  firsts : done.countP (·.reply = .gained .first) + (h.view o).header.fresh.toNat =
    (h₀.view o).header.fresh.toNat
  spent : (∃ e ∈ done, e.op = .increment) → (h.view o).header.fresh = false

theorem countP_append_singleton (p : Effect → Bool) (done : List Effect) (e : Effect) :
    (done ++ [e]).countP p = done.countP p + (p e).toNat := by
  rw [List.countP_append, List.countP_singleton]
  cases p e <;> rfl

theorem Tallied.settle {drops : Nat} (ta : Tallied o h₀ h drops done)
    (s : e.op.Settles o h e.reply h') (counts : e.op = .increment ∨ e.op = .decrement) :
    Tallied o h₀ h' (drops + (HeaderOp.drops o h h').toNat) (done ++ [e]) := by
  obtain ⟨fresh, first⟩ := s.fresh_eq counts
  refine ⟨?_, ?_, ?_⟩
  · rw [countP_append_singleton, ta.drops_eq, s.drops_eq counts]
  · rw [countP_append_singleton, Nat.add_assoc, fresh, ta.firsts]
  · rintro ⟨d, hd, increment⟩
    rcases List.mem_append.1 hd with hd | hd
    · rw [ta.spent ⟨d, hd, increment⟩] at fresh
      exact Bool.toNat_eq_zero.1 (Nat.eq_zero_of_add_eq_zero fresh).2
    · exact first (List.mem_singleton.1 hd ▸ increment)

/-! ### The invariant -/

/-- The effects `done` explain how the state came about. -/
structure Explained (o : Ref) (h₀ : Heap) (t : HeaderTraffic) (done : List Effect) : Prop where
  timed : Timed t done
  replays : Replays o h₀ done t.heap
  exclusive : t.workers.countP (·.holds) ≤ (t.heap.view o).header.locked.toNat
  tallied : (∀ e ∈ done, e.op = .increment ∨ e.op = .decrement) →
    Tallied o h₀ t.heap t.drops done

theorem countP_holds (pre post : List Worker) (w : Worker) :
    (pre ++ w :: post).countP (·.holds) = (pre ++ post).countP (·.holds) + w.holds.toNat := by
  rw [List.countP_append, List.countP_cons, List.countP_append, Nat.add_assoc]
  cases w.holds <;> rfl

theorem drops_self (o : Ref) (h : Heap) : HeaderOp.drops o h h = false := by
  rw [HeaderOp.drops, Bool.and_eq_false_iff, beq_eq_false_iff_ne, beq_eq_false_iff_ne]
  omega

namespace Explained

theorem start (h : Heap) (threads : Nat) :
    Explained o h (HeaderTraffic.start h threads) [] where
  timed := .start h threads
  replays := .nil
  exclusive := by
    have none : (HeaderTraffic.start h threads).workers.countP (·.holds) = 0 :=
      List.countP_eq_zero.2 fun w hw => by
        obtain ⟨name, -, rfl⟩ := List.mem_map.1 hw
        exact Bool.false_ne_true
    rw [none]
    exact Nat.zero_le _
  tallied _ := ⟨rfl, Nat.zero_add _, nofun⟩

theorem step (ex : Explained o h₀ t done) (step : Step o t t') :
    ∃ done', Explained o h₀ t' done' := by
  cases step with
  | @invoke pre post w op split idle may =>
    have none : w.effect? = Option.none := by rw [Worker.effect?, idle]
    refine ⟨done, ex.timed.move split { w with activity := .calling op .loading t.time } rfl none
      rfl ?_, ex.replays, ?_, ex.tallied⟩
    · exact ⟨may, Nat.lt_succ_self _, fun c hc _ => (ex.timed.returned c hc).2⟩
    · have exclusive := ex.exclusive
      rw [split, countP_holds] at exclusive
      rwa [countP_holds]
  | @retry pre post w op phase next invoked h' split calling e =>
    obtain rfl := (HeaderOp.of_access e).1 _ rfl
    have none : w.effect? = Option.none := by rw [Worker.effect?, calling]
    have turn := ex.timed.orderly w (split ▸ by simp)
    rw [Worker.Orderly, calling] at turn
    refine ⟨done, ex.timed.move split { w with activity := .calling op next invoked } rfl none
      rfl ?_, ex.replays, ?_, ?_⟩
    · exact ⟨turn.1, Nat.lt_succ_of_lt turn.2.1, turn.2.2⟩
    · have exclusive := ex.exclusive
      rw [split, countP_holds] at exclusive
      rwa [countP_holds]
    · rw [drops_self]
      exact ex.tallied
  | @settle pre post w op phase invoked reply h' split calling e =>
    have settled := (HeaderOp.of_access e).2 _ rfl
    have none : w.effect? = Option.none := by rw [Worker.effect?, calling]
    have turn := ex.timed.orderly w (split ▸ by simp)
    rw [Worker.Orderly, calling] at turn
    let effect : Effect := ⟨w.name, op, reply, invoked, t.time⟩
    let w' : Worker := ⟨w.name, op.holding reply w.holds, .returning effect⟩
    refine ⟨done ++ [effect], ex.timed.settle split w' rfl none rfl rfl turn.2 rfl,
      ex.replays.append settled.run_eq, ?_, fun counting => ?_⟩
    · have exclusive := ex.exclusive
      rw [split, countP_holds] at exclusive
      rw [countP_holds]
      exact settled.holders_le turn.1 exclusive
    · have old := ex.tallied fun d hd => counting d (List.mem_append_left _ hd)
      exact old.settle settled (counting _ (List.mem_append_right _ (List.mem_singleton_self _)))
  | @finish pre post w e split returning =>
    refine ⟨done, ex.timed.finish split returning, ex.replays, ?_, ex.tallied⟩
    have exclusive := ex.exclusive
    rw [split, countP_holds] at exclusive
    rwa [countP_holds]

theorem run (ex : Explained o h₀ t done) (run : Runs o t t') :
    ∃ done', Explained o h₀ t' done' := by
  induction run with
  | refl => exact ⟨done, ex⟩
  | tail _ step ih =>
    obtain ⟨_, ex⟩ := ih
    exact ex.step step

end Explained

/-! ### Completed runs -/

/-- The calls could have been made one after the other in this order, with the same replies and the
same end. It is the order in which each thread made its calls, and a call that returned before
another one began comes before it. -/
structure Linearizes (o : Ref) (h₀ : Heap) (t : HeaderTraffic) (order : List Call) : Prop where
  perm : order.Perm t.calls
  replays : Replays o h₀ (order.map (·.toEffect)) t.heap
  threads : ∀ i, order.filter (·.thread = i) = t.calls.filter (·.thread = i)
  realTime : order.Pairwise fun c d => ¬ d.returned < c.invoked

theorem Timed.perm_of_quiet (st : Timed t done) (quiet : t.Quiet) :
    done.Perm (t.calls.map (·.toEffect)) := by
  have none : t.workers.filterMap Worker.effect? = [] :=
    List.filterMap_eq_nil_iff.2 fun w hw => by rw [Worker.effect?, quiet w hw]
  have perm := st.perm
  rwa [none, List.append_nil] at perm

/-- Two effects do not happen at the same time. -/
theorem Timed.eq_of_settled {d e : Effect} (st : Timed t done) (hd : d ∈ done) (he : e ∈ done)
    (same : d.settled = e.settled) : d = e := by
  by_contra ne
  have : Std.Symm fun d e : Effect => d.settled ≠ e.settled := ⟨fun _ _ h => h.symm⟩
  exact (st.sorted.imp Nat.ne_of_lt).forall hd he ne same

/-- The calls of a completed run, in the order in which they took effect. -/
theorem Timed.order (st : Timed t done) (quiet : t.Quiet) :
    ∃ order : List Call, order.Perm t.calls ∧ order.map (·.toEffect) = done := by
  let sorted := t.calls.mergeSort fun c d => decide (c.settled ≤ d.settled)
  have perm : sorted.Perm t.calls := List.mergeSort_perm _ _
  have pairwise : sorted.Pairwise fun c d => c.settled ≤ d.settled := by
    refine (List.pairwise_mergeSort (fun c d e le le' => ?_) (fun c d => ?_) _).imp
      of_decide_eq_true
    · exact decide_eq_true (Nat.le_trans (of_decide_eq_true le) (of_decide_eq_true le'))
    · rw [Bool.or_eq_true, decide_eq_true_eq, decide_eq_true_eq]
      exact Nat.le_total ..
  have effects : (sorted.map (·.toEffect)).Perm done :=
    (perm.map _).trans (st.perm_of_quiet quiet).symm
  exact ⟨sorted, perm, effects.eq_of_pairwise
    (fun d e hd he le ge => st.eq_of_settled (effects.mem_iff.1 hd) he (Nat.le_antisymm le ge))
    (List.pairwise_map.2 pairwise) (st.sorted.imp Nat.le_of_lt)⟩

theorem Explained.linearizes (ex : Explained o h₀ t done) (quiet : t.Quiet) :
    ∃ order, Linearizes o h₀ t order := by
  obtain ⟨order, perm, effects⟩ := ex.timed.order quiet
  have sorted : order.Pairwise fun c d => c.settled < d.settled := by
    have sorted := ex.timed.sorted
    rwa [← effects, List.pairwise_map] at sorted
  have called {c : Call} (hc : c ∈ t.calls) : c.invoked < c.settled := by
    have hc : c.toEffect ∈ done := effects ▸ List.mem_map_of_mem (perm.mem_iff.2 hc)
    exact (ex.timed.within _ hc).1
  have returned {c : Call} (hc : c ∈ t.calls) : c.settled < c.returned := (ex.timed.returned c hc).1
  refine ⟨order, perm, effects ▸ ex.replays, fun i => ?_,
    sorted.imp_of_mem fun hc hd lt before => ?_⟩
  · -- both lists have the calls of the thread in the order in which they took effect
    refine (perm.filter _).eq_of_pairwise (fun c d _ _ lt gt => absurd lt (Nat.lt_asymm gt))
      (sorted.filter _) ?_
    refine (ex.timed.inTurn.filter _).imp_of_mem fun {c d} hc hd turn => ?_
    obtain ⟨hc, mine⟩ := List.mem_filter.1 hc
    obtain ⟨hd, mine'⟩ := List.mem_filter.1 hd
    have next := turn ((of_decide_eq_true mine).trans (of_decide_eq_true mine').symm)
    exact Nat.lt_trans (returned hc) (Nat.lt_trans next (called hd))
  · have late := Nat.lt_trans (returned (perm.mem_iff.1 hd)) before
    exact Nat.lt_asymm lt (Nat.lt_trans late (called (perm.mem_iff.1 hc)))

/-- Whatever steps threads take, one of them at most has the logging lock at a time. If all calls
have returned, then they could have been made one after the other. If moreover all of them are
increments and decrements, then one increment of a fresh object is told that it is the first, and
as many decrements are told that they are the last as the count went from one to zero. -/
theorem header_calls_are_linearizable {threads : Nat} (run : Runs o (start h₀ threads) t) :
    t.workers.countP (·.holds) ≤ 1 ∧
      (t.Quiet → (∃ order, Linearizes o h₀ t order) ∧
        ((∀ c ∈ t.calls, c.op = .increment ∨ c.op = .decrement) →
          ((h₀.view o).header.fresh = true → (∃ c ∈ t.calls, c.op = .increment) →
            t.calls.countP (·.reply = .gained .first) = 1) ∧
          t.calls.countP (·.reply = .lost .last) = t.drops)) := by
  obtain ⟨done, ex⟩ := (Explained.start h₀ threads).run run
  refine ⟨Nat.le_trans ex.exclusive (Bool.toNat_le _), fun quiet => ⟨ex.linearizes quiet,
    fun counting => ?_⟩⟩
  have perm := ex.timed.perm_of_quiet quiet
  have told (p : Effect → Bool) : t.calls.countP (fun c => p c.toEffect) = done.countP p := by
    rw [perm.countP_eq, List.countP_map]
    rfl
  have tallied := ex.tallied fun e he => by
    obtain ⟨c, hc, rfl⟩ := List.mem_map.1 (perm.mem_iff.1 he)
    exact counting c hc
  refine ⟨fun fresh some => ?_, (told fun e => e.reply = .lost .last).trans tallied.drops_eq.symm⟩
  obtain ⟨c, hc, increment⟩ := some
  have firsts := tallied.firsts
  have mem : c.toEffect ∈ done := perm.mem_iff.2 (List.mem_map_of_mem hc)
  rw [tallied.spent ⟨c.toEffect, mem, increment⟩, fresh] at firsts
  exact (told fun e => e.reply = .gained .first).trans firsts

/-- An object at the start of the space of large objects. -/
def shared : Ref := ⟨Heap.largeStart⟩

/-- A heap in which this object is fresh and has one reference, as its header `1:N` says. -/
def sharedHeap : Heap := (Heap.ofSettings {}).putHeader shared (Header.ofWord 260)

/-- A thread counts a reference to a fresh object while another one takes the only one back. Both
see the same header, and the first thread has to try twice. -/
theorem header_calls_are_linearizable_second_try : ∃ t : HeaderTraffic,
    Runs shared (start sharedHeap 2) t ∧ (t.heap.view shared).header.text = "1:" ∧
      (∃ order, Linearizes shared sharedHeap t order) ∧ t.drops = 1 ∧
      t.calls.map (fun c => (c.thread, c.reply)) = [(0, .gained .first), (1, .lost .last)] ∧
      t.calls.countP (·.reply = .gained .first) = 1 ∧
      t.calls.countP (·.reply = .lost .last) = t.drops := by
  have r₁ := ReflTransGen.single
    (@Step.invoke shared (start sharedHeap 2) [] _ _ .increment rfl rfl rfl)
  have r₂ := r₁.tail (@Step.invoke shared _ [_] [] _ .decrement rfl rfl rfl)
  have r₃ := r₂.tail (@Step.retry shared _ [] _ _ _ _ _ _ _ rfl rfl rfl)
  have r₄ := r₃.tail (@Step.retry shared _ [_] [] _ _ _ _ _ _ rfl rfl rfl)
  have r₅ := r₄.tail (@Step.settle shared _ [_] [] _ _ _ _ _ _ rfl rfl rfl)
  have r₆ := r₅.tail (@Step.retry shared _ [] _ _ _ _ _ _ _ rfl rfl rfl)
  have r₇ := r₆.tail (@Step.settle shared _ [] _ _ _ _ _ _ _ rfl rfl rfl)
  have r₈ := r₇.tail (@Step.finish shared _ [] _ _ _ rfl rfl)
  have r₉ := r₈.tail (@Step.finish shared _ [_] [] _ _ rfl rfl)
  obtain ⟨-, complete⟩ := header_calls_are_linearizable r₉
  obtain ⟨order, counting⟩ := complete
    (List.forall_mem_cons.2 ⟨rfl, List.forall_mem_cons.2 ⟨rfl, List.forall_mem_nil _⟩⟩)
  obtain ⟨first, last⟩ := counting
    (List.forall_mem_cons.2 ⟨.inl rfl, List.forall_mem_cons.2 ⟨.inr rfl, List.forall_mem_nil _⟩⟩)
  exact ⟨_, r₉, rfl, order, rfl, rfl, first rfl ⟨_, List.mem_cons_self, rfl⟩, last⟩

end HeaderTraffic

end DeferredCount
