import DeferredCount.Word

/-!
# Calls that the client answers

A hook is a call the client answers. It keeps what the answer depends on and counts the calls,
those that fail included.
-/

namespace DeferredCount

/-- A call that the client answers: what the answers depend on, and the number of calls. -/
structure Hook (σ : Type) where
  state : σ
  calls : Nat := 0
  deriving DecidableEq, Inhabited, Repr

namespace Hook

variable {σ ο : Type}

/-- One call. An answer may change what later answers depend on. -/
def call (h : Hook σ) (answer : σ → Except Fault (ο × σ)) : Except Fault ο × Hook σ :=
  match answer h.state with
  | .ok (r, state) => (.ok r, { state, calls := h.calls + 1 })
  | .error f => (.error f, { h with calls := h.calls + 1 })

/-- Was the call ever made? -/
def isCalled (h : Hook σ) : Bool := 0 < h.calls

end Hook

/-- Simple answers to a call with a number. -/
inductive Responder
  /-- Always zero. -/
  | zero
  /-- The client has no answer. -/
  | missing
  /-- The sum of the numbers so far. -/
  | sum (total : Int)
  deriving DecidableEq, Inhabited, Repr

/-- The answer to a number. -/
def Responder.answer (n : Int) : Responder → Except Fault (Int × Responder)
  | .zero => .ok (0, .zero)
  | .missing => .error .notImplemented
  | .sum total => do
    let total' ← Word.signed (total + n)
    return (total', .sum total')

/-- The responder of a given name. -/
def Responder.ofName? : String → Option Responder
  | "default" => some .zero
  | "unimplemented" => some .missing
  | "sum" => some (.sum 0)
  | _ => none

end DeferredCount
