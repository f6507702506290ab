import DeferredCount.Progress

/-!
# Which increments collect cycles

The progress of an instance is called in two ways: increments of any kind are asked for, and an
increment goes through the phases that concern the progress, one after the other. A request may come
at any time, also while an increment is under way.

Here a history of such calls is a list, the last call first, and everything that the progress can
be asked for is read off this list. One cell holds the request, and the end of an increment writes
it as well. So a request holds until the next increment is *complete*, not until the next one is
elected: if it comes after the election of the running increment, this increment does not serve it
and the next one does not know of it.

The number of increments is a word. Histories are as long as it can count.

Results:
1. `Tells.request`, `Tells.elect`, `Tells.start`, `Tells.finish`: what one call does.
2. `Orderly.tells`: what the progress holds after any history.
3. `requests_hold_until_complete`: what every election does, and when it passes over a request.
-/

namespace DeferredCount

namespace Progress

/-- A call on the progress of an instance. -/
inductive Call
  /-- An increment of this kind is asked for, by so many collectors. -/
  | request (kind : CollectionKind) (collectors : Nat)
  /-- The part of a phase that concerns the progress. -/
  | phase (p : Phase)
  deriving DecidableEq

/-- What a call does. -/
def call (s : Progress) (interval : Nat) : Call → Except Fault Progress
  | .request kind collectors => s.request kind collectors
  | .phase p => s.phase interval p

/-- The progress of a fresh instance after these calls, the last of them first. -/
def after (interval : Nat) : List Call → Except Fault Progress
  | [] => .ok {}
  | c :: past => do (← after interval past).call interval c

/-- How far the increment is that is under way. -/
inductive Stage
  /-- There is none. -/
  | idle
  /-- Its kind is elected. -/
  | elected
  /-- It runs. -/
  | running
  deriving DecidableEq

/-- The histories in which every increment is elected, runs and is complete before the next one is
elected. Requests may be anywhere, for one collector at least. -/
inductive Orderly : Stage → List Call → Prop
  | fresh : Orderly .idle []
  | request {stage : Stage} {past : List Call} {kind : CollectionKind} {n : Nat} :
      Orderly stage past → 0 < n → Orderly stage (.request kind n :: past)
  | elect {past : List Call} :
      Orderly .idle past → Orderly .elected (.phase .setCollectionKind :: past)
  | start {past : List Call} : Orderly .elected past → Orderly .running (.phase .initiate :: past)
  | finish {past : List Call} : Orderly .running past → Orderly .idle (.phase .complete :: past)

/-! ## What a history tells -/

/-- The kind that was asked for last, if no phase `p` came after it. -/
def latestSince (p : Phase) : List Call → Option CollectionKind
  | [] => none
  | .request kind _ :: _ => some kind
  | .phase q :: past => if q = p then none else latestSince p past

/-- The number of increments that are complete. -/
def completes (past : List Call) : Nat := past.count (.phase .complete)

/-- Is an increment running? -/
def underway : List Call → Bool
  | .phase .initiate :: _ => true
  | .phase .complete :: _ => false
  | _ :: past => underway past
  | [] => false

/-- The next increment collects cycles by the interval alone. -/
def Due (interval : Nat) (past : List Call) : Prop :=
  interval ≠ 0 ∧ interval ∣ completes past + 1

/-- A cycle collection was asked for after the last complete increment, and nothing else after it,
or the next increment is due. -/
def Elects (interval : Nat) (past : List Call) : Prop :=
  latestSince .complete past = some .cycle ∨ Due interval past

instance (interval : Nat) (past : List Call) : Decidable (Due interval past) :=
  inferInstanceAs (Decidable (_ ∧ _))

instance (interval : Nat) (past : List Call) : Decidable (Elects interval past) :=
  inferInstanceAs (Decidable (_ ∨ _))

/-- Was the last increment elected to collect cycles? -/
def elected (interval : Nat) : List Call → Bool
  | .phase .setCollectionKind :: past => decide (Elects interval past)
  | _ :: past => elected interval past
  | [] => false

/-- The number of complete increments that had been elected to collect cycles. -/
def cycles (interval : Nat) : List Call → Nat
  | .phase .complete :: past => cycles interval past + (elected interval past).toNat
  | _ :: past => cycles interval past
  | [] => 0

section

variable {interval n : Nat} {stage : Stage} {past : List Call} {kind : CollectionKind}
  {s : Progress}

theorem completes_request : completes (.request kind n :: past) = completes past := by
  have other : Call.request kind n ≠ .phase .complete := nofun
  exact List.count_cons_of_ne other

theorem completes_complete : completes (.phase .complete :: past) = completes past + 1 :=
  List.count_cons_self

theorem completes_phase {p : Phase} (other : p ≠ .complete) :
    completes (.phase p :: past) = completes past :=
  List.count_cons_of_ne fun e => other (Call.phase.inj e)

theorem completes_elect : completes (.phase .setCollectionKind :: past) = completes past :=
  completes_phase (by decide)

theorem completes_start : completes (.phase .initiate :: past) = completes past :=
  completes_phase (by decide)

/-- Every cycle collection is an increment. -/
theorem cycles_le_completes (past : List Call) : cycles interval past ≤ completes past := by
  induction past with
  | nil => exact Nat.le_refl 0
  | cons c past ih =>
    rcases c with ⟨kind, n⟩ | p
    · rw [completes_request]
      exact ih
    · by_cases complete : p = .complete
      · subst complete
        rw [cycles, completes_complete]
        exact Nat.add_le_add ih (Bool.toNat_le _)
      · rw [completes_phase complete, cycles]
        · exact ih
        · exact fun e => complete (Call.phase.inj e)

/-- An increment runs exactly from its begin to its end. -/
theorem Orderly.underway_eq (o : Orderly stage past) :
    underway past = decide (stage = .running) := by
  induction o with
  | fresh => rfl
  | request o some ih => exact ih
  | elect o ih => exact ih
  | start o ih => rfl
  | finish o ih => rfl

/-- Between two increments, what was asked for since the last one was complete was also asked for
since it was elected. -/
theorem Orderly.latestSince_elect (o : Orderly .idle past)
    (latest : latestSince .complete past = some kind) :
    latestSince .setCollectionKind past = some kind := by
  cases o with
  | fresh => cases latest
  | request o some => exact latest
  | finish o => cases latest

/-! ## One call -/

/-- The progress holds what the history tells. Nothing is said of the kind of the last increment
once it is complete. -/
structure Tells (interval : Nat) (stage : Stage) (past : List Call) (s : Progress) : Prop where
  running : s.running = underway past
  requested : s.requested = (latestSince .complete past).getD .increment
  cycle : stage ≠ .idle → s.cycle = elected interval past
  increments : s.increments = completes past
  cycleCollections : s.cycleCollections = cycles interval past

theorem isDue_iff : s.isDue interval = true ↔ interval ≠ 0 ∧ interval ∣ s.increments + 1 := by
  rw [isDue, Bool.and_eq_true, bne_iff_ne, beq_iff_eq, Nat.dvd_iff_mod_eq_zero]

theorem requested_eq_cycle_iff {latest : Option CollectionKind} :
    latest.getD .increment = .cycle ↔ latest = some .cycle := by
  cases latest with
  | none => exact iff_of_false nofun nofun
  | some kind => exact Option.some_inj.symm

theorem Tells.fresh : Tells interval .idle [] {} where
  running := rfl
  requested := rfl
  cycle idle := absurd rfl idle
  increments := rfl
  cycleCollections := rfl

theorem Tells.request (t : Tells interval stage past s) (some : 0 < n) :
    ∃ s', s.call interval (.request kind n) = .ok s' ∧
      Tells interval stage (.request kind n :: past) s' := by
  refine ⟨{ s with requested := kind, collectors := n }, ?_, ?_⟩
  · rw [call, Progress.request, require, if_pos (decide_eq_true some)]
    rfl
  · exact ⟨t.running, rfl, t.cycle, t.increments.trans completes_request.symm,
      t.cycleCollections⟩

/-- The request and the interval decide, as they are when the kind is elected. -/
theorem Tells.elect_cycle_iff (t : Tells interval stage past s) :
    (s.elect interval).cycle = true ↔ Elects interval past := by
  rw [elect, Bool.or_eq_true, beq_iff_eq, t.requested, requested_eq_cycle_iff, isDue_iff,
    t.increments, Elects, Due]

theorem Tells.elect (t : Tells interval .idle past s) :
    ∃ s', s.call interval (.phase .setCollectionKind) = .ok s' ∧
      Tells interval .elected (.phase .setCollectionKind :: past) s' :=
  ⟨s.elect interval, rfl, {
    running := t.running
    requested := t.requested
    cycle := fun _ => Bool.eq_iff_iff.2 (t.elect_cycle_iff.trans decide_eq_true_iff.symm)
    increments := t.increments.trans completes_elect.symm
    cycleCollections := t.cycleCollections }⟩

theorem Tells.start (t : Tells interval .elected past s) (o : Orderly .elected past) :
    ∃ s', s.call interval (.phase .initiate) = .ok s' ∧
      Tells interval .running (.phase .initiate :: past) s' := by
  have stopped : s.running = false := t.running.trans o.underway_eq
  refine ⟨{ s with running := true }, ?_, ?_⟩
  · rw [call, Progress.phase, Progress.start, stopped]
    rfl
  · exact ⟨rfl, t.requested, fun _ => t.cycle nofun,
      t.increments.trans completes_start.symm, t.cycleCollections⟩

/-- The end of an increment clears the request, whether or not this increment has served it. -/
theorem Tells.finish (t : Tells interval .running past s)
    (few : completes (.phase .complete :: past) < Word.limit) :
    ∃ s', s.call interval (.phase .complete) = .ok s' ∧
      Tells interval .idle (.phase .complete :: past) s' := by
  have fewer : cycles interval (.phase .complete :: past) < Word.limit :=
    Nat.lt_of_le_of_lt (cycles_le_completes _) few
  refine ⟨s.finish, rfl, ⟨rfl, rfl, fun idle => absurd rfl idle, ?_, ?_⟩⟩
  · rw [completes_complete] at few ⊢
    rw [Progress.finish, t.increments]
    exact Nat.mod_eq_of_lt few
  · rw [cycles] at fewer ⊢
    rw [Progress.finish, t.cycleCollections, t.cycle nofun]
    exact Nat.mod_eq_of_lt fewer

/-! ## Histories -/

theorem after_cons {c : Call} {s' : Progress} (e : after interval past = .ok s)
    (step : s.call interval c = .ok s') : after interval (c :: past) = .ok s' := by
  rw [after, e]
  exact step

/-- No call of an orderly history fails, and the progress holds what the history tells. -/
theorem Orderly.tells (interval : Nat) (o : Orderly stage past)
    (few : completes past < Word.limit) :
    ∃ s, after interval past = .ok s ∧ Tells interval stage past s := by
  induction o with
  | fresh => exact ⟨{}, rfl, .fresh⟩
  | request o some ih =>
    obtain ⟨s, e, t⟩ := ih (completes_request ▸ few)
    obtain ⟨s', step, t'⟩ := t.request some
    exact ⟨s', after_cons e step, t'⟩
  | elect o ih =>
    obtain ⟨s, e, t⟩ := ih (completes_elect ▸ few)
    obtain ⟨s', step, t'⟩ := t.elect
    exact ⟨s', after_cons e step, t'⟩
  | start o ih =>
    obtain ⟨s, e, t⟩ := ih (completes_start ▸ few)
    obtain ⟨s', step, t'⟩ := t.start o
    exact ⟨s', after_cons e step, t'⟩
  | @finish past o ih =>
    have fewer : completes past < Word.limit := by
      rw [completes_complete] at few
      exact Nat.lt_of_succ_lt few
    obtain ⟨s, e, t⟩ := ih fewer
    obtain ⟨s', step, t'⟩ := t.finish few
    exact ⟨s', after_cons e step, t'⟩

/-- The last request since the previous election asks for a cycle collection, but the increment that
was under way when it came is complete since, and the next one is not due. -/
def Overlooked (interval : Nat) (past : List Call) : Prop :=
  latestSince .setCollectionKind past = some .cycle ∧ latestSince .complete past = none ∧
    ¬Due interval past

/-- Where the two ways to read the history differ. -/
theorem Orderly.elects_iff (o : Orderly .idle past) :
    (Elects interval past ↔
        latestSince .setCollectionKind past = some .cycle ∨ Due interval past) ↔
      ¬Overlooked interval past := by
  by_cases due : Due interval past
  · exact iff_of_true (iff_of_true (Or.inr due) (Or.inr due)) fun lost => lost.2.2 due
  · rw [Elects, or_iff_left due, or_iff_left due, Overlooked, and_iff_left due]
    cases latest : latestSince .complete past with
    | none => simp
    | some kind => simp [o.latestSince_elect latest]

/-- After any orderly history of requests and increments, of which a word can count one more: the
progress tells whether an increment is running, how many are complete, and how many of these had
been elected to collect cycles. The next increment is elected to collect cycles if the last request
since the previous one was *complete* asks for it, or if it is due. This is what the last request
since the previous *election* asks for unless that request was overlooked. -/
theorem requests_hold_until_complete (interval : Nat) (o : Orderly stage past)
    (few : completes past + 1 < Word.limit) :
    ∃ s, after interval past = .ok s ∧ s.running = underway past ∧
      s.increments = completes past ∧ s.cycleCollections = cycles interval past ∧
      (stage = .idle → ∃ s', after interval (.phase .setCollectionKind :: past) = .ok s' ∧
        (s'.cycle = true ↔
          latestSince .complete past = some .cycle ∨ Due interval past) ∧
        ((s'.cycle = true ↔
            latestSince .setCollectionKind past = some .cycle ∨ Due interval past) ↔
          ¬Overlooked interval past)) := by
  obtain ⟨s, e, t⟩ := o.tells interval (Nat.lt_of_succ_lt few)
  refine ⟨s, e, t.running, t.increments, t.cycleCollections, ?_⟩
  rintro rfl
  refine ⟨s.elect interval, after_cons e rfl, t.elect_cycle_iff, ?_⟩
  rw [t.elect_cycle_iff]
  exact o.elects_iff

end

/-- With an interval of two, the first increment is asked to collect cycles, and the second is
due. -/
theorem requests_hold_until_complete_twice : ∃ s,
    after 2 [.phase .complete, .phase .initiate, .phase .setCollectionKind, .phase .complete,
      .phase .initiate, .phase .setCollectionKind, .request .cycle 1] = .ok s ∧
    s.increments = 2 ∧ s.cycleCollections = 2 ∧ s.running = false := by
  have first : Orderly .idle [.request .cycle 1] := Orderly.fresh.request (by decide)
  obtain ⟨s, e, running, increments, cycleCollections, -⟩ :=
    requests_hold_until_complete 2 first.elect.start.finish.elect.start.finish (by decide)
  exact ⟨s, e, increments.trans (by decide), cycleCollections.trans (by decide), running⟩

/-- A cycle collection that is asked for while an increment runs is never run. -/
theorem requests_of_running_increments_are_lost : ∃ past s,
    Orderly .idle past ∧ latestSince .setCollectionKind past = some .cycle ∧
      after 0 (.phase .setCollectionKind :: past) = .ok s ∧ s.cycle = false :=
  ⟨[.phase .complete, .request .cycle 1, .phase .initiate, .phase .setCollectionKind], _,
    (Orderly.fresh.elect.start.request (by decide)).finish, rfl, rfl, rfl⟩

end Progress

end DeferredCount
