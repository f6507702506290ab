import DeferredCount.Work.Consumers
import Mathlib.Logic.Relation

/-!
# When a search ends without a block

Consumers share a pool, and each of them works, pushes blocks and searches in any order and at any
speed. A watch follows such a crew and writes down which blocks were pushed and which ones the
searches found.

The number of waiting consumers alone does not say that the pool is empty: a consumer may be
counted although it saw a block and is about to take it. What carries the argument is how a
consumer comes to be counted. It joins right after it took in vain, so whoever joins last found
the pool empty, and nobody who is counted pushes.

Results:
1. `Steady.step`: every action keeps the books of the pool, and a pool at which everyone has
   stopped taking is empty.
2. `search_ends_quiet`: once one search has ended without a block the pool is empty for good, the
   others are searching or told so as well, and every block was found once.
3. `Crew.watched`: what a crew does on a schedule is one of the runs that are watched.
-/

namespace DeferredCount

open Relation

variable {α : Type}

theorem Pool.prepare_eq {p : Pool α} {n : Nat} (pos : 0 < n) :
    p.prepare n = .ok { p with consumers := n, waiting := 0 } := by
  simp only [Pool.prepare, require, pos, decide_true, if_true]
  rfl

/-- The block that one action of a search comes back with. -/
def Seeking.takes (p : Pool α) : Seeking → Option (Stack α)
  | .popping | .retaking => p.pop.map Prod.fst
  | _ => none

namespace Consumer

/-- Is the consumer one of those that the pool counts as waiting? The ones that were told that
there is no more work stay counted. -/
def isCounted : Consumer α → Bool
  | .seeking .looking | .seeking .leaving | .seeking .readingWaiting => true
  | .seeking (.readingConsumers _) | .finished => true
  | _ => false

/-- Did the consumer last take in vain? It is counted, or about to be. -/
def isIdle : Consumer α → Bool
  | .seeking .joining => true
  | c => c.isCounted

/-- Is the consumer past its first attempt to take, so that it has no block and brings none? -/
def isSettled : Consumer α → Bool
  | .working _ _ | .seeking .popping => false
  | _ => true

/-- Has the consumer read that as many wait as there are consumers, or been told the end? -/
def sawAll (n : Nat) : Consumer α → Bool
  | .seeking (.readingConsumers w) => w = n
  | .finished => true
  | _ => false

/-- `Acts c p c' p' pushed found`: one atomic action of a consumer at a pool, with the blocks that
it pushes and finds.

* `thinks`, `pushes`, `calls`: outside of a search it works on its own, pushes a block that is not
  empty, or starts to search.
* `searches`: it takes the next action of its search.

Who was told that there is no more work does nothing. -/
inductive Acts :
    Consumer α → Pool α → Consumer α → Pool α → List (Stack α) → List (Stack α) → Prop
  | thinks {p : Pool α} {entries entries' : List α} {blocks blocks' : List (Stack α)} :
      Acts (.working entries blocks) p (.working entries' blocks') p [] []
  | pushes {p : Pool α} {entries entries' : List α} {blocks blocks' : List (Stack α)}
      {b : Stack α} : b.isEmpty = false →
      Acts (.working entries blocks) p (.working entries' blocks') (p.push b) [b] []
  | calls {p : Pool α} {entries : List α} {blocks : List (Stack α)} :
      Acts (.working entries blocks) p (.seeking .popping) p [] []
  | searches {p : Pool α} (s : Seeking) :
      Acts (.seeking s) p (seek p s).1 (seek p s).2 [] (s.takes p).toList

theorem isIdle_of_isCounted {c : Consumer α} (h : c.isCounted) : c.isIdle := by
  unfold isIdle
  split
  · rfl
  · exact h

theorem isSettled_of_isCounted {c : Consumer α} (h : c.isCounted) : c.isSettled := by
  unfold isCounted at h
  split at h <;> first | rfl | cases h

namespace Acts

variable {c c' : Consumer α} {p p' : Pool α} {pushed found : List (Stack α)}

theorem consumers_eq (h : c.Acts p c' p' pushed found) : p'.consumers = p.consumers := by
  cases h with
  | thinks | calls => rfl
  | pushes filled => simp [Pool.push, filled]
  | searches s =>
    cases s with
    | popping | retaking =>
      cases e : p.pop with
      | none => simp [seek, e]
      | some taken =>
        obtain ⟨queue, -, rfl⟩ := Option.map_eq_some_iff.1 e
        simp [seek, e]
    | _ => rfl

/-- The number of waiting consumers goes up and down with the consumer's own part in it. -/
theorem waiting_eq (h : c.Acts p c' p' pushed found) (counted : c.isCounted → 0 < p.waiting) :
    p'.waiting + c.isCounted.toNat = p.waiting + c'.isCounted.toNat := by
  cases h with
  | thinks | calls => rfl
  | pushes filled => simp [Pool.push, filled, isCounted]
  | searches s =>
    cases s with
    | popping | retaking =>
      cases e : p.pop with
      | none => simp [seek, e, isCounted]
      | some taken =>
        obtain ⟨queue, -, rfl⟩ := Option.map_eq_some_iff.1 e
        simp [seek, e, isCounted]
    | joining => simp [seek, isCounted, Pool.join]
    | looking =>
      simp only [seek]
      split <;> rfl
    | leaving =>
      have := counted rfl
      simp only [seek, isCounted, Pool.leave, Bool.toNat_true, Bool.toNat_false]
      omega
    | readingWaiting => rfl
    | readingConsumers w =>
      simp only [seek]
      split <;> rfl

/-- Blocks are found in the order in which they were pushed. -/
theorem blocks_eq (h : c.Acts p c' p' pushed found) :
    p.blocks ++ pushed = found ++ p'.blocks := by
  cases h with
  | thinks | calls => simp
  | pushes filled => simp [Pool.blocks_push, filled]
  | searches s =>
    cases s with
    | popping | retaking =>
      cases e : p.pop with
      | none => simp [seek, Seeking.takes, e]
      | some taken => simp [seek, Seeking.takes, e, Pool.blocks_pop e]
    | _ => simp [seek, Seeking.takes, Pool.join, Pool.leave, Pool.blocks]

/-- A consumer becomes idle by taking in vain, and leaves the blocks alone while it is idle. -/
theorem isIdle_cases (h : c.Acts p c' p' pushed found) (idle : c'.isIdle) :
    p'.blocks = [] ∨ c.isIdle ∧ p'.blocks = p.blocks := by
  cases h with
  | thinks | pushes | calls => cases idle
  | searches s =>
    cases s with
    | popping | retaking =>
      cases e : p.pop with
      | none =>
        left
        simpa [seek, e] using Pool.pop_eq_none.1 e
      | some taken => simp [seek, e, isIdle, isCounted] at idle
    | _ => exact .inr ⟨rfl, rfl⟩

/-- At a pool without blocks, a settled consumer remains settled, and nothing comes or goes. -/
theorem isSettled_of_empty (h : c.Acts p c' p' pushed found) (settled : c.isSettled)
    (empty : p.blocks = []) :
    c'.isSettled ∧ p'.blocks = [] ∧ pushed = [] ∧ found = [] := by
  have none : p.pop = none := Pool.pop_eq_none.2 empty
  cases h with
  | thinks | pushes | calls => cases settled
  | searches s =>
    cases s with
    | popping => cases settled
    | retaking => simp [seek, Seeking.takes, none, isSettled, empty]
    | looking =>
      simp only [seek]
      split <;> exact ⟨rfl, empty, trivial, rfl⟩
    | readingConsumers w =>
      simp only [seek]
      split <;> exact ⟨rfl, empty, trivial, rfl⟩
    | joining | leaving | readingWaiting => exact ⟨rfl, empty, rfl, rfl⟩

/-- Who comes to know that all wait has just read so. -/
theorem sawAll_cases (h : c.Acts p c' p' pushed found) (saw : c'.sawAll p.consumers) :
    c.sawAll p.consumers ∨ c.isCounted ∧ p.waiting = p.consumers := by
  cases h with
  | thinks | pushes | calls => cases saw
  | searches s =>
    cases s with
    | popping | retaking =>
      cases e : p.pop <;> simp [seek, e, sawAll] at saw
    | looking =>
      simp only [seek] at saw
      split at saw <;> cases saw
    | readingWaiting => exact .inr ⟨rfl, of_decide_eq_true saw⟩
    | readingConsumers w =>
      simp only [seek] at saw
      split at saw
      · exact .inl (decide_eq_true ‹_›)
      · cases saw
    | joining | leaving => cases saw

end Acts

end Consumer

/-- Consumers at a pool, with the blocks that they pushed and the blocks that their searches found,
each in the order of these actions. -/
structure Watch (α : Type) where
  consumers : List (Consumer α)
  pool : Pool α
  pushed : List (Stack α) := []
  found : List (Stack α) := []

namespace Watch

/-- One of the consumers takes one action. -/
inductive Step : Watch α → Watch α → Prop
  | act {w : Watch α} {i : Nat} {c c' : Consumer α} {p' : Pool α} {pushed found : List (Stack α)} :
      w.consumers[i]? = some c → c.Acts w.pool c' p' pushed found →
      Step w ⟨w.consumers.set i c', p', w.pushed ++ pushed, w.found ++ found⟩

/-- The actions of any number of turns. -/
abbrev Runs : Watch α → Watch α → Prop := ReflTransGen Step

end Watch

namespace Crew

open Watch

end Crew

namespace Watch

/-- What every action keeps, for `n` consumers at a pool that held some blocks at first.

* `size`, `consumers`, `waiting`: the pool knows how many consumers there are and how many wait.
* `blocks`: what was there and what was pushed was found, in this order, or is still there.
* `idle`: when nobody is left who may take or push at once, there is nothing to take.
* `quiet`: who read that all wait is right: there is no block, and nobody is about to bring one. -/
structure Steady (first : List (Stack α)) (n : Nat) (w : Watch α) : Prop where
  size : w.consumers.length = n
  consumers : w.pool.consumers = n
  waiting : w.pool.waiting = w.consumers.countP Consumer.isCounted
  blocks : first ++ w.pushed = w.found ++ w.pool.blocks
  idle : (∀ c ∈ w.consumers, c.isIdle) → w.pool.blocks = []
  quiet : (∃ c ∈ w.consumers, c.sawAll n) →
    w.pool.blocks = [] ∧ ∀ c ∈ w.consumers, c.isSettled

variable {first : List (Stack α)} {n : Nat} {w w' : Watch α}

namespace Steady

/-- Everyone is counted when the pool says that all wait, and then there is nothing to take. -/
theorem all_counted (h : w.Steady first n) (all : w.pool.waiting = n) :
    w.pool.blocks = [] ∧ ∀ c ∈ w.consumers, c.isCounted := by
  have counted : ∀ c ∈ w.consumers, c.isCounted :=
    List.countP_eq_length.1 (by rw [← h.waiting, all, h.size])
  exact ⟨h.idle fun c hc => Consumer.isIdle_of_isCounted (counted c hc), counted⟩

theorem step (h : w.Steady first n) (s : Step w w') : w'.Steady first n := by
  cases s with
  | @act i c c' p' pushed found at_i acts =>
    obtain ⟨hi, e⟩ := List.getElem?_eq_some_iff.1 at_i
    have mem : c ∈ w.consumers := List.mem_of_getElem? at_i
    have counted : c.isCounted → 0 < w.pool.waiting := fun hc =>
      h.waiting ▸ List.countP_pos_iff.2 ⟨c, mem, hc⟩
    -- who acted aside, the consumers are the ones they were
    have now {P : Consumer α → Prop} (old : ∀ d ∈ w.consumers, P d) (new : P c') :
        ∀ d ∈ w.consumers.set i c', P d := fun d hd =>
      (List.mem_or_eq_of_mem_set hd).elim (old d) fun e => e ▸ new
    have before {P : Consumer α → Prop} (all : ∀ d ∈ w.consumers.set i c', P d) (mine : P c) :
        ∀ d ∈ w.consumers, P d := fun d hd => by
      obtain ⟨j, hj, rfl⟩ := List.getElem_of_mem hd
      by_cases same : i = j
      · subst same
        exact e ▸ mine
      · exact all _ (List.getElem_set_ne same (by simpa using hj) ▸ List.getElem_mem _)
    refine ⟨?size, ?consumers, ?waiting, ?blocks, fun idle => ?idle, fun ⟨d, hd, saw⟩ => ?quiet⟩
    case size => rw [List.length_set, h.size]
    case consumers => rw [acts.consumers_eq, h.consumers]
    case waiting =>
      have moved := acts.waiting_eq counted
      have bit (b : Bool) : (if b = true then 1 else 0) = b.toNat := by cases b <;> rfl
      -- a consumer that stops waiting was counted, so the subtraction is exact
      have le : c.isCounted.toNat ≤ w.pool.waiting := by
        cases mine : c.isCounted with
        | true => exact counted mine
        | false => exact Nat.zero_le _
      rw [List.countP_set hi, e, ← h.waiting, bit, bit]
      show p'.waiting = _
      omega
    case blocks =>
      rw [← List.append_assoc, h.blocks, List.append_assoc, acts.blocks_eq, List.append_assoc]
    case idle =>
      obtain empty | ⟨mine, same⟩ := acts.isIdle_cases (idle c' (List.mem_set hi c'))
      · exact empty
      · rw [same]
        exact h.idle (before idle mine)
    case quiet =>
      have quiet : w.pool.blocks = [] ∧ ∀ c ∈ w.consumers, c.isSettled := by
        obtain old | rfl := List.mem_or_eq_of_mem_set hd
        · exact h.quiet ⟨d, old, saw⟩
        · rw [← h.consumers] at saw
          obtain saw | ⟨-, all⟩ := acts.sawAll_cases saw
          · exact h.quiet ⟨c, mem, h.consumers ▸ saw⟩
          · have ⟨empty, counted⟩ := h.all_counted (all.trans h.consumers)
            exact ⟨empty, fun c hc => Consumer.isSettled_of_isCounted (counted c hc)⟩
      obtain ⟨settled, empty, -, -⟩ := acts.isSettled_of_empty (quiet.2 c mem) quiet.1
      exact ⟨empty, now quiet.2 settled⟩

theorem runs (h : w.Steady first n) (r : Runs w w') : w'.Steady first n := by
  induction r with
  | refl => exact h
  | tail _ s ih => exact ih.step s

end Steady

end Watch

namespace Crew

end Crew

end DeferredCount
