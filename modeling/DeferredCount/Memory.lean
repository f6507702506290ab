import DeferredCount.Header
import Std.Data.ExtTreeMap

/-!
# Managed memory and the layout of objects

The managed memory is eight megabytes of words. An object of `n` slots occupies `2 + 2 * n` words:

* the header;
* the descriptor, twice the number of slots, plus one for an array;
* the slots, each with the address of an object or zero;
* the marks, one word for each slot, not zero while the slot is logged.

Only the words that are not zero are kept, so a memory has one representation.

Results:
1. `word_setWord`: what every word holds after one of them is set.
-/

namespace DeferredCount

/-- The managed memory: the words that are not zero, by their index. -/
structure Memory where
  words : Std.ExtTreeMap Nat Nat compare := ∅
  deriving DecidableEq

namespace Memory

/-- The first address of the memory. -/
abbrev start : Address := 0x10000000

/-- The number of words of the memory. -/
abbrev wordCount : Nat := 1048576

/-- A memory of zeros. -/
def empty : Memory := {}

instance : Inhabited Memory := ⟨empty⟩

/-! ## Words -/

/-- The index of the word that holds an address. -/
def index (a : Address) : Except Fault Nat := do
  let d ← distance a start
  if d / bytesPerWord < wordCount then return d / bytesPerWord else throw (.outsideHeap a)

/-- The word of an index. -/
def word (m : Memory) (i : Nat) : Nat := m.words.getD i 0

/-- Puts a word at an index. -/
def setWord (m : Memory) (i w : Nat) : Memory :=
  if w = 0 then { m with words := m.words.erase i } else { m with words := m.words.insert i w }

theorem word_setWord (m : Memory) (i w j : Nat) :
    (m.setWord i w).word j = if i = j then w else m.word j := by
  unfold setWord word
  split <;> simp [Std.ExtTreeMap.getD_erase, Std.ExtTreeMap.getD_insert, *]

@[simp] theorem word_empty (i : Nat) : empty.word i = 0 := by
  simp [empty, word]

/-- The word at an address. -/
def load (m : Memory) (a : Address) : Except Fault Nat := do
  let i ← index a
  return m.word i

/-- Stores a word at an address. -/
def store (m : Memory) (a : Address) (w : Nat) : Except Fault Memory := do
  let i ← index a
  return m.setWord i w

/-- The reference a slot holds. -/
def loadRef (m : Memory) (slot : Address) : Except Fault (Option Ref) := do
  let w ← m.load slot
  return Ref.ofWord? w

/-- Stores a reference into a slot. -/
def storeRef (m : Memory) (slot : Address) (target : Option Ref) : Except Fault Memory :=
  m.store slot (Ref.toWord target)

/-! ## Objects -/

/-- The address of the word `i` words behind the start of an object. -/
def wordOf (o : Ref) (i : Nat) : Except Fault Address := do
  let offset ← Word.mul i bytesPerWord
  Word.add o.addr offset

/-- The header of an object. -/
def header (m : Memory) (o : Ref) : Except Fault Header := do
  let w ← m.load o.addr
  return Header.ofWord w

/-- The descriptor of an object. -/
def descriptor (m : Memory) (o : Ref) : Except Fault Nat := do
  let a ← wordOf o 1
  m.load a

/-- The number of slots of an object, which is the length of an array. -/
def slotCount (m : Memory) (o : Ref) : Except Fault Nat := do
  let d ← m.descriptor o
  return d / 2

/-- Is the object an array? -/
def isArray (m : Memory) (o : Ref) : Except Fault Bool := do
  let d ← m.descriptor o
  return d % 2 == 1

/-- The bytes of an object of so many slots. -/
def objectSize (slots : Nat) : Except Fault Nat := do
  let twice ← Word.mul 2 slots
  let words ← Word.add 2 twice
  Word.mul words bytesPerWord

/-- The bytes of an object. -/
def currentSize (m : Memory) (o : Ref) : Except Fault Nat := do
  let n ← m.slotCount o
  objectSize n

/-- The slot of a field, whether or not the object has that many. -/
def slot (o : Ref) (i : Nat) : Except Fault Address := do
  let w ← Word.add 2 i
  wordOf o w

/-- The mark of a field of an object. -/
def markOf (m : Memory) (o : Ref) (i : Nat) : Except Fault Address := do
  let n ← m.slotCount o
  require .fieldInRange (i < n)
  let slotsEnd ← Word.add 2 n
  let w ← Word.add slotsEnd i
  wordOf o w

/-- Is the field not logged? -/
def isFieldUnlogged (m : Memory) (o : Ref) (i : Nat) : Except Fault Bool := do
  let a ← m.markOf o i
  let w ← m.load a
  return w == 0

/-- Clears the marks of the next `k` fields, from field `i` on. -/
def clearMarksFrom (o : Ref) : (k i : Nat) → Memory → Except Fault Memory
  | 0, _, m => .ok m
  | k + 1, i, m => do
    let a ← m.markOf o i
    let m' ← m.store a 0
    clearMarksFrom o k (i + 1) m'

/-- Clears every mark of an object. -/
def clearMarks (m : Memory) (o : Ref) : Except Fault Memory := do
  let n ← m.slotCount o
  clearMarksFrom o n 0 m

/-- What the next `k` words from an address on hold, behind what was found before, the latest
first. -/
def wordsFrom (m : Memory) : (k : Nat) → Address → List Nat → Except Fault (List Nat)
  | 0, _, found => .ok found
  | k + 1, a, found => do
    let w ← m.load a
    wordsFrom m k (a + bytesPerWord) (w :: found)

/-- What `n` adjacent slots of an object hold, from slot `i` on. -/
def slotsFrom (m : Memory) (o : Ref) (i n : Nat) : Except Fault (List (Option Ref)) := do
  if n = 0 then return []
  let first ← slot o i
  let found ← m.wordsFrom n first []
  return found.reverse.map Ref.ofWord?

/-- What the slots of an object hold, in order. -/
def slots (m : Memory) (o : Ref) : Except Fault (List (Option Ref)) := do
  let n ← m.slotCount o
  m.slotsFrom o 0 n

/-- The references in the slots of an object, in order. -/
def referents (m : Memory) (o : Ref) : Except Fault (List Ref) := do
  let slots ← m.slots o
  return slots.filterMap id

/-- Is each field of an object logged? -/
def marks (m : Memory) (o : Ref) : Except Fault (List Bool) := do
  let n ← m.slotCount o
  if n = 0 then return []
  let first ← m.markOf o 0
  let found ← m.wordsFrom n first []
  return found.reverse.map (· != 0)

/-- Clears `k` words from an address on. -/
def clearWords : (k : Nat) → Address → Memory → Except Fault Memory
  | 0, _, m => .ok m
  | k + 1, a, m => do
    let m' ← m.store a 0
    clearWords k (a + bytesPerWord) m'

/-- Lays out an object of null slots at an address, with a header of zero. -/
def format (m : Memory) (a : Address) (slots : Nat) (array : Bool) : Except Fault Memory := do
  let size ← objectSize slots
  let cleared ← clearWords (size / bytesPerWord) a m
  let d ← wordOf ⟨a⟩ 1
  cleared.store d ((2 * slots + array.toNat) % Word.limit)

end Memory

end DeferredCount
