import DeferredCount.Word

/-!
# The header of an object

A header is one word. From the lowest bit up it holds

* `logged`: the object was logged in this increment;
* `locked`: a thread is logging the object or one of its fields;
* `fresh`: the object was allocated in this increment and its referents are not counted yet;
* `marked`: the mark of the backup trace;
* four bits without a meaning;
* the reference count, of sixteen bits;
* forty bits without a meaning.

A count of `Header.stuck` never changes by counting again. Every operation is an update of one
header, so a thread applies it by reading the word and exchanging it; `none` means that the word
stays as it is.

Results:
1. `ofWord_toWord`, `toWord_ofWord`: headers and words are in bijection.
2. `increment_count`, `decrement_count`: what counting does to the count.
-/

namespace DeferredCount

/-- The count that is never changed again by counting. -/
abbrev Header.stuck : Nat := 65535

/-- One decoded header word. -/
structure Header where
  logged : Bool
  locked : Bool
  fresh : Bool
  marked : Bool
  /-- The four bits below the count that have no meaning. -/
  low : Nat
  count : Nat
  /-- The forty bits above the count that have no meaning. -/
  high : Nat
  low_lt : low < 16 := by omega
  count_lt : count < 65536 := by omega
  high_lt : high < 1099511627776 := by omega
  deriving DecidableEq, Repr

namespace Header

/-- Is the bit of a word set that has this value? -/
def bit (w value : Nat) : Bool := w / value % 2 == 1

/-- The header a word holds. -/
def ofWord (w : Nat) : Header where
  logged := bit w 1
  locked := bit w 2
  fresh := bit w 4
  marked := bit w 8
  low := w / 16 % 16
  count := w / 256 % 65536
  high := w / 16777216 % 1099511627776

/-- The word of a header. -/
def toWord (h : Header) : Nat :=
  h.logged.toNat + 2 * h.locked.toNat + 4 * h.fresh.toNat + 8 * h.marked.toNat + 16 * h.low +
    256 * h.count + 16777216 * h.high

theorem toNat_bit (w value : Nat) : (bit w value).toNat = w / value % 2 := by
  unfold bit
  rcases Nat.mod_two_eq_zero_or_one (w / value) with h | h <;> simp [h]

theorem toWord_ofWord {w : Nat} (h : w < Word.limit) : (ofWord w).toWord = w := by
  simp only [toWord, ofWord, toNat_bit]
  simp only [Word.limit] at h
  omega

theorem toWord_lt (h : Header) : h.toWord < Word.limit := by
  have h₁ := h.low_lt
  have h₂ := h.count_lt
  have h₃ := h.high_lt
  have := Bool.toNat_le h.logged
  have := Bool.toNat_le h.locked
  have := Bool.toNat_le h.fresh
  have := Bool.toNat_le h.marked
  simp only [toWord, Word.limit]
  omega

theorem bit_eq_of {w value : Nat} {b : Bool} (h : w / value % 2 = b.toNat) :
    bit w value = b := by
  unfold bit
  cases b <;> simp_all

theorem ofWord_toWord (h : Header) : ofWord h.toWord = h := by
  obtain ⟨logged, locked, fresh, marked, low, count, high, h₁, h₂, h₃⟩ := h
  have := Bool.toNat_le logged
  have := Bool.toNat_le locked
  have := Bool.toNat_le fresh
  have := Bool.toNat_le marked
  simp only [ofWord, toWord, mk.injEq]
  exact ⟨bit_eq_of (by omega), bit_eq_of (by omega), bit_eq_of (by omega), bit_eq_of (by omega),
    by omega, by omega, by omega⟩

/-! ## Tests -/

/-- Is the count past counting? -/
def isStuck (h : Header) : Bool := h.count == stuck

/-- Does a write to the object have to be logged? -/
def logRequired (h : Header) : Bool := !h.logged && !h.fresh

/-- Does another thread have to finish logging before this one may log? -/
def isBusy (h : Header) : Bool := h.logRequired && h.locked

/-! ## Updates -/

/-- The header of a new object. -/
def initial (count : Nat) (logged fresh : Bool) : Except Fault Header :=
  if h : count < 65536 then
    .ok { logged, locked := false, fresh, marked := false, low := 0, count, high := 0 }
  else .error (.check .countFits)

/-- One more reference. The first one of a fresh object ends its freshness. A stuck count stays. -/
def increment (h : Header) : Option Header :=
  if hs : h.count = stuck then
    if h.fresh then some { h with fresh := false } else none
  else
    have lt : h.count + 1 < 65536 := by
      have := h.count_lt
      simp only [stuck] at hs
      omega
    some { h with fresh := false, count := h.count + 1, count_lt := lt }

/-- One reference less. A count of zero and a stuck count stay. -/
def decrement (h : Header) : Option Header :=
  if h.count = 0 ∨ h.count = stuck then none
  else
    have := h.count_lt
    some { h with count := h.count - 1, count_lt := by omega }

/-- Sets the logged bit and gives the logging lock back. -/
def makeLogged (h : Header) : Option Header := some { h with logged := true, locked := false }

/-- Gives the logging lock back. -/
def finishLogging (h : Header) : Option Header := some { h with locked := false }

/-- Takes the logging lock. -/
def lock (h : Header) : Option Header := some { h with locked := true }

/-- Clears the logged bit. -/
def makeUnlogged (h : Header) : Option Header :=
  if h.logged then some { h with logged := false } else none

/-- Sets the mark. -/
def mark (h : Header) : Option Header := if h.marked then none else some { h with marked := true }

/-- Clears the mark. -/
def clearMark (h : Header) : Option Header :=
  if h.marked then some { h with marked := false } else none

/-- Forgets the count and the freshness, so that a trace can count again. A stuck count stays. -/
def resetCount (h : Header) : Option Header :=
  if h.count = stuck then some { h with fresh := false }
  else some { h with fresh := false, count := 0, count_lt := by omega }

theorem increment_count {h h' : Header} (e : h.increment = some h') :
    h'.count = min stuck (h.count + 1) := by
  have lt := h.count_lt
  unfold increment at e
  split at e
  case isTrue hs =>
    split at e
    · cases e
      simp only [hs, stuck]
      omega
    · cases e
  case isFalse hs =>
    cases e
    simp only [stuck] at hs ⊢
    omega

theorem decrement_count {h h' : Header} (e : h.decrement = some h') :
    h.count ≠ 0 ∧ h.count ≠ stuck ∧ h'.count = h.count - 1 := by
  unfold decrement at e
  split at e
  case isTrue => cases e
  case isFalse hs =>
    cases e
    exact ⟨fun h₀ => hs (.inl h₀), fun h₁ => hs (.inr h₁), rfl⟩

/-! ## Outcomes -/

/-- What an increment tells the caller. -/
inductive Gained
  /-- The reference was counted. -/
  | counted
  /-- It was the first one of a fresh object, whose referents are not counted yet. -/
  | first
  deriving DecidableEq, Repr

/-- What an increment of this header tells the caller. -/
def gained (h : Header) : Gained := if h.fresh then .first else .counted

/-- The name of the outcome of an increment. -/
def Gained.name : Gained → String
  | .counted => "Inc"
  | .first => "IncNew"

/-- What a decrement tells the caller. -/
inductive Lost
  /-- References are left, or the count is stuck. -/
  | counted
  /-- The last reference is gone: the caller reclaims the object. -/
  | last
  deriving DecidableEq, Repr

/-- What a decrement of this header tells the caller. -/
def lost (h : Header) : Lost := if h.count = 1 then .last else .counted

/-- The name of the outcome of a decrement. -/
def Lost.name : Lost → String
  | .counted => "Dec"
  | .last => "DecToZero"

/-! ## Text -/

/-- The letters of the bits that are set. -/
def flags (h : Header) : String :=
  (if h.logged then "L" else "") ++ (if h.locked then "B" else "") ++
    (if h.fresh then "N" else "") ++ (if h.marked then "M" else "")

/-- A header is written as its count and the letters of its bits. -/
def text (h : Header) : String := toString h.count ++ ":" ++ h.flags

end Header

end DeferredCount
