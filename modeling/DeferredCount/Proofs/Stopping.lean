import DeferredCount.Proofs.Execution

/-!
# Operations that stop, and loops that end

An operation stops if it succeeds or meets a fault. Two faults are no stops: `waitsForever` stands
for a thread that never comes back, and `stepsExhausted` for a loop that was cut off. `Meets` says
of an operation that it does neither, and what holds if it succeeds.

A loop takes turns. `EndsIn` is the loop without any bound: it ends after so many turns, with what
the last of them leaves. A number that every turn makes smaller bounds the turns, and a loop with
at least as many steps has the same outcome.

Results:
1. `HeapM.Meets.bind`: a sequence of operations that stop, stops.
2. `HeapM.Ends.of_drops`: a loop whose turns make a number smaller ends.
-/

namespace DeferredCount

/-- Does the fault stop who meets it? A thread that waits for ever and a loop without an end never
stop. -/
def Fault.stops : Fault → Bool
  | .waitsForever | .stepsExhausted => false
  | _ => true

/-! ## Computations that stop -/

namespace Except

variable {α β : Type} {P Q : α → Prop} {x : Except Fault α}

/-- The computation succeeds with a result of which `Q` holds, or meets a fault that stops it. -/
def Meets (x : Except Fault α) (Q : α → Prop) : Prop :=
  match x with
  | .ok a => Q a
  | .error f => f.stops = true

theorem Meets.ok {a : α} (q : Q a) : Meets (.ok a) Q := q

theorem Meets.error {f : Fault} (stops : f.stops = true) : Meets (.error f) Q := stops

theorem Meets.mono (hx : Meets x P) (imp : ∀ a, P a → Q a) : Meets x Q := by
  cases x with
  | ok a => exact imp a hx
  | error f => exact hx

theorem Meets.bind {f : α → Except Fault β} {R : β → Prop} (hx : Meets x P)
    (hf : ∀ a, P a → Meets (f a) R) : Meets (x >>= f) R := by
  cases x with
  | ok a => exact hf a hx
  | error e => exact hx

theorem Meets.ite {p : Prop} [Decidable p] {y : Except Fault α} (hx : p → Meets x Q)
    (hy : ¬p → Meets y Q) : Meets (if p then x else y) Q := by
  split
  · exact hx ‹_›
  · exact hy ‹_›

end Except

open DeferredCount.Except (Meets)

section Computations

variable {a b : Nat}

theorem Word.add_meets : Meets (Word.add a b) fun _ => True :=
  .ite (fun _ => .ok trivial) fun _ => .error rfl

theorem Word.mul_meets : Meets (Word.mul a b) fun _ => True :=
  .ite (fun _ => .ok trivial) fun _ => .error rfl

theorem require_meets (c : Check) (p : Bool) : Meets (require c p) fun _ => p = true :=
  .ite .ok fun _ => .error rfl

end Computations

/-! ## Operations that stop -/

namespace HeapM

variable {α β σ : Type} {P Q : α → Heap → Prop} {x : HeapM α} {h : Heap}

/-- From this heap the operation succeeds with a result and a heap of which `Q` holds, or meets a
fault that stops it. -/
inductive Meets (x : HeapM α) (h : Heap) (Q : α → Heap → Prop) : Prop
  | ok {a : α} {h' : Heap} : x h = .ok a h' → Q a h' → Meets x h Q
  | error {f : Fault} {h' : Heap} : x h = .error f h' → f.stops = true → Meets x h Q

namespace Meets

theorem pure {a : α} (q : Q a h) : (pure a : HeapM α).Meets h Q := .ok rfl q

theorem throw {f : Fault} (stops : f.stops = true) : (throw f : HeapM α).Meets h Q :=
  .error rfl stops

theorem congr {y : HeapM α} {k : Heap} (same : x h = y k) (hy : y.Meets k Q) : x.Meets h Q := by
  cases hy with
  | ok e q => exact .ok (same.trans e) q
  | error e stops => exact .error (same.trans e) stops

theorem result (hx : x.Meets h Q) {a : α} {h' : Heap} (e : x h = .ok a h') : Q a h' := by
  cases hx with
  | ok e' q =>
    cases e.symm.trans e'
    exact q
  | error e' _ => cases e.symm.trans e'

theorem mono (hx : x.Meets h P) (imp : ∀ a h', P a h' → Q a h') : x.Meets h Q := by
  cases hx with
  | ok e p => exact .ok e (imp _ _ p)
  | error e stops => exact .error e stops

theorem bind {f : α → HeapM β} {R : β → Heap → Prop} (hx : x.Meets h P)
    (hf : ∀ a h', P a h' → (f a).Meets h' R) : (x >>= f).Meets h R := by
  cases hx with
  | ok e p => exact congr (bind_of_ok e) (hf _ _ p)
  | error e stops => exact .error (bind_of_error e) stops

theorem get {f : Heap → HeapM β} {R : β → Heap → Prop} (hf : (f h).Meets h R) :
    ((get : HeapM Heap) >>= f).Meets h R :=
  congr (y := f h) rfl hf

theorem ite {p : Prop} [Decidable p] {y : HeapM α} (hx : p → x.Meets h Q) (hy : ¬p → y.Meets h Q) :
    (if p then x else y).Meets h Q := by
  split
  · exact hx ‹_›
  · exact hy ‹_›

/-- What every turn keeps, from any heap that was reached so far. -/
theorem foldlM {f : σ → α → HeapM σ} {I : σ → Heap → Prop}
    (turn : ∀ s a k, I s k → (f s a).Meets k I) (as : List α) {s : σ} (start : I s h) :
    (as.foldlM f s).Meets h I := by
  induction as generalizing s h with
  | nil => exact pure start
  | cons a as ih =>
    rw [List.foldlM_cons]
    exact (turn s a h start).bind fun _ _ => ih

/-- A filter that asks without changing the heap. -/
theorem filterM {p : α → HeapM Bool} (as : List α)
    (asks : ∀ a, (p a).Meets h fun _ h' => h' = h) :
    (as.filterM p).Meets h fun kept h' => kept.length ≤ as.length ∧ h' = h := by
  have aux (as found : List α) : (as.filterAuxM p found).Meets h fun kept h' =>
      kept.length ≤ as.length + found.length ∧ h' = h := by
    induction as generalizing found with
    | nil => exact pure ⟨Nat.le_add_left .., rfl⟩
    | cons a as ih =>
      rw [List.filterAuxM]
      refine (asks a).bind fun keep k same => ?_
      subst same
      refine (ih _).mono fun kept k both => ⟨?_, both.2⟩
      have le := both.1
      cases keep <;> simp only [cond_true, cond_false, List.length_cons] at le ⊢ <;> omega
  rw [List.filterM]
  refine (aux as []).bind fun kept k both => pure ⟨?_, both.2⟩
  rw [List.length_reverse]
  exact both.1

/-- A computation without effects at the start of a sequence. -/
theorem lift_bind {r : Except Fault α} {f : α → HeapM β} {p : α → Prop} {R : β → Heap → Prop}
    (hr : Except.Meets r p) (hf : ∀ a, p a → (f a).Meets h R) :
    ((liftM r : HeapM α) >>= f).Meets h R := by
  cases r with
  | ok a => exact congr (y := f a) rfl (hf a hr)
  | error f => exact .error rfl hr

theorem inspect_bind {g : Memory → Except Fault α} {f : α → HeapM β} {p : α → Prop}
    {R : β → Heap → Prop} (hg : Except.Meets (g h.memory) p) (hf : ∀ a, p a → (f a).Meets h R) :
    (inspect g >>= f).Meets h R :=
  congr (y := liftM (g h.memory) >>= f) rfl (lift_bind hg hf)

theorem change {g : Memory → Except Fault Memory} {p : Memory → Prop}
    (hg : Except.Meets (g h.memory) p) :
    (change g).Meets h fun _ h' => ∃ m, h' = { h with memory := m } ∧ p m :=
  inspect_bind hg fun m q => .ok rfl ⟨m, rfl, q⟩

end Meets

/-! ## Loops -/

/-- What a turn of a loop comes to. -/
inductive Turn (σ α : Type)
  /-- The loop goes on from here. -/
  | more (s : σ)
  /-- The loop is done. -/
  | done (a : α)

variable {turn : σ → HeapM (Turn σ α)}

/-- A loop without a bound ends after exactly so many turns, with this outcome.

* `done`, `fault`: the first turn is the last one.
* `more`: the loop goes on where the first turn leaves it. -/
inductive EndsIn (turn : σ → HeapM (Turn σ α)) :
    Nat → σ → Heap → EStateM.Result Fault Heap α → Prop
  | done {s : σ} {h h' : Heap} {a : α} :
    turn s h = .ok (.done a) h' → EndsIn turn 1 s h (.ok a h')
  | fault {s : σ} {h h' : Heap} {f : Fault} :
    turn s h = .error f h' → EndsIn turn 1 s h (.error f h')
  | more {n : Nat} {s s' : σ} {h h₁ : Heap} {r : EStateM.Result Fault Heap α} :
    turn s h = .ok (.more s') h₁ → EndsIn turn n s' h₁ r → EndsIn turn (n + 1) s h r

/-- What is left of a loop after a turn. -/
def afterTurn (rest : σ → HeapM α) : Turn σ α → HeapM α
  | .more s => rest s
  | .done a => pure a

/-- The loop ends after at most so many turns, `x` has its outcome, and `Q` holds if it is done. -/
structure Ends (turn : σ → HeapM (Turn σ α)) (s : σ) (h : Heap) (bound : Nat)
    (Q : α → Heap → Prop) (x : HeapM α) : Prop where
  turns : ∃ n ≤ bound, EndsIn turn n s h (x h)
  stops : x.Meets h Q

theorem Ends.congr {s : σ} {bound : Nat} {y : HeapM α} (same : x h = y h)
    (ends : Ends turn s h bound Q y) : Ends turn s h bound Q x :=
  ⟨same ▸ ends.turns, ends.stops.congr same⟩

/-- A loop whose turns keep an invariant and make a number smaller ends, and with that many steps
and one more it runs to its end. -/
theorem Ends.of_drops {l : Nat → σ → HeapM α} {I : σ → Heap → Prop} {μ : σ → Heap → Nat}
    (steps : ∀ k s h, I s h → l (k + 1) s h = (turn s >>= afterTurn (l k)) h)
    (drops : ∀ s h, I s h → (turn s).Meets h fun t h' =>
      match t with
      | .more s' => I s' h' ∧ μ s' h' < μ s h
      | .done a => Q a h')
    {s : σ} {k : Nat} (start : I s h) (enough : μ s h < k) :
    Ends turn s h (μ s h + 1) Q (l k s) := by
  induction k generalizing s h with
  | zero => exact absurd enough (Nat.not_lt_zero _)
  | succ k ih =>
    have step := steps k s h start
    cases drops s h start with
    | ok e met =>
      rw [bind_of_ok e] at step
      rename_i t h₁
      cases t with
      | done a => exact ⟨⟨1, Nat.le_add_left .., step ▸ .done e⟩, .ok step met⟩
      | more s' =>
        obtain ⟨inv, less⟩ := met
        obtain ⟨⟨n, le, ends⟩, stops⟩ := ih inv (by omega)
        exact ⟨⟨n + 1, by omega, step ▸ .more e ends⟩, stops.congr step⟩
    | error e stops =>
      rw [bind_of_error e] at step
      exact ⟨⟨1, Nat.le_add_left .., step ▸ .fault e⟩, .error step stops⟩

end HeapM

end DeferredCount
