import DeferredCount.Proofs.Linearizing

/-!
# The fields of a header word

All fields of a header share one word, which is changed by sums, differences and masks. That the
fields do not disturb each other is therefore a statement about all words, also about those whose
meaningless bits are set: a count of sixteen bits is never raised past its largest value nor lowered
below zero, so nothing is carried into the bits above it or borrowed from those below.

Results:
1. `HeaderOp.onWord_toWord`: an update of the decoded header is what is computed on the bits, and no
   check for an overflow fails on the way.
2. `HeaderOp.Settles.changes`: an operation changes the bits that it owns, and no other ones.
3. `header_operations_keep_to_their_fields`: what a completed sequence of operations does.
-/

namespace DeferredCount

/-! ## Bits -/

theorem testBit_two_mul_add (n : Nat) (b : Bool) (i : Nat) :
    (2 * n + b.toNat).testBit i = if i = 0 then b else n.testBit (i - 1) := by
  cases i with
  | zero => cases b <;> simp [Nat.testBit_zero]
  | succ i =>
    have half : (2 * n + b.toNat) / 2 = n := by
      have := Bool.toNat_lt b
      omega
    rw [Nat.testBit_succ, half, if_neg (Nat.succ_ne_zero i), Nat.add_sub_cancel]

theorem Word.testBit_complement {m : Nat} (lt : m < limit) (i : Nat) :
    (complement m).testBit i = (decide (i < 64) && !m.testBit i) := by
  have flipped : complement m = 2 ^ 64 - (m + 1) := by
    unfold complement
    dsimp only [limit, max] at *
    omega
  rw [flipped, Nat.testBit_two_pow_sub_succ lt]

theorem and_two_pow_eq_zero {w k : Nat} : w &&& 2 ^ k = 0 ↔ w.testBit k = false := by
  constructor
  · intro none
    have bit := congrArg (Nat.testBit · k) none
    simpa using bit
  · intro clear
    refine Nat.eq_of_testBit_eq fun i => ?_
    rw [Nat.testBit_and, Nat.testBit_two_pow, Nat.zero_testBit]
    by_cases same : k = i
    · rw [← same, clear, Bool.false_and]
    · rw [decide_eq_false same, Bool.and_false]

namespace Header

variable {hd : Header} {i : Nat}

/-- A bit of a header. -/
def bitAt (hd : Header) (i : Nat) : Bool :=
  if i = 0 then hd.logged
  else if i = 1 then hd.locked
  else if i = 2 then hd.fresh
  else if i = 3 then hd.marked
  else if i < 8 then hd.low.testBit (i - 4)
  else if i < 24 then hd.count.testBit (i - 8)
  else hd.high.testBit (i - 24)

theorem testBit_toWord (hd : Header) (i : Nat) : hd.toWord.testBit i = hd.bitAt i := by
  have nested : hd.toWord = 2 * (2 * (2 * (2 * (2 ^ 4 * (2 ^ 16 * hd.high + hd.count) + hd.low) +
      hd.marked.toNat) + hd.fresh.toNat) + hd.locked.toNat) + hd.logged.toNat := by
    unfold toWord
    omega
  have low : hd.low < 2 ^ 4 := hd.low_lt
  have count : hd.count < 2 ^ 16 := hd.count_lt
  rw [nested, bitAt]
  simp only [testBit_two_mul_add, Nat.testBit_two_pow_mul_add _ low,
    Nat.testBit_two_pow_mul_add _ count]
  grind

/-- Words that have the same bits are of the same header. -/
theorem eq_toWord_of_testBit {w : Nat} (same : ∀ i, w.testBit i = hd.bitAt i) : w = hd.toWord :=
  Nat.eq_of_testBit_eq fun i => (same i).trans (hd.testBit_toWord i).symm

theorem bitAt_of_ge (ge : 64 ≤ i) : hd.bitAt i = false := by
  rw [← testBit_toWord]
  exact Nat.testBit_lt_two_pow
    (Nat.lt_of_lt_of_le hd.toWord_lt (Nat.pow_le_pow_right Nat.two_pos ge))

theorem testBit_and_complement {m : Nat} (lt : m < Word.limit) :
    (hd.toWord &&& Word.complement m).testBit i = (hd.bitAt i && !m.testBit i) := by
  rw [Nat.testBit_and, testBit_toWord, Word.testBit_complement lt]
  by_cases ge : 64 ≤ i
  · rw [bitAt_of_ge ge, Bool.false_and, Bool.false_and]
  · rw [decide_eq_true (Nat.lt_of_not_le ge), Bool.true_and]

/-! ## Flags -/

/-- A field of one bit. -/
inductive Flag
  | logged
  | locked
  | fresh
  | marked
  deriving DecidableEq, Repr

/-- The place of a flag, from the lowest bit up. -/
def Flag.place : Flag → Nat
  | logged => 0
  | locked => 1
  | fresh => 2
  | marked => 3

/-- The word that has only this flag. -/
def Flag.mask (f : Flag) : Nat := 2 ^ f.place

theorem Flag.mask_lt (f : Flag) : f.mask < Word.limit := by
  cases f <;> decide

/-- Is a flag set? -/
def flag (hd : Header) : Flag → Bool
  | .logged => hd.logged
  | .locked => hd.locked
  | .fresh => hd.fresh
  | .marked => hd.marked

/-- The header with a flag set or cleared. -/
def setFlag (hd : Header) (b : Bool) : Flag → Header
  | .logged => { hd with logged := b }
  | .locked => { hd with locked := b }
  | .fresh => { hd with fresh := b }
  | .marked => { hd with marked := b }

section Flags

variable (hd : Header) (f : Flag)

theorem bitAt_place : hd.bitAt f.place = hd.flag f := by
  cases f <;> rfl

theorem bitAt_setFlag (b : Bool) (i : Nat) :
    (hd.setFlag b f).bitAt i = if f.place = i then b else hd.bitAt i := by
  unfold bitAt
  cases f <;> simp only [setFlag, Flag.place] <;> grind

theorem and_mask_eq_zero : hd.toWord &&& f.mask = 0 ↔ hd.flag f = false := by
  rw [Flag.mask, and_two_pow_eq_zero, testBit_toWord, bitAt_place]

theorem or_mask : hd.toWord ||| f.mask = (hd.setFlag true f).toWord := by
  refine eq_toWord_of_testBit fun i => ?_
  rw [Nat.testBit_or, testBit_toWord, Flag.mask, Nat.testBit_two_pow, bitAt_setFlag]
  by_cases same : f.place = i <;> simp [same]

theorem and_complement_mask :
    hd.toWord &&& Word.complement f.mask = (hd.setFlag false f).toWord := by
  refine eq_toWord_of_testBit fun i => ?_
  rw [testBit_and_complement f.mask_lt, Flag.mask, Nat.testBit_two_pow, bitAt_setFlag]
  by_cases same : f.place = i <;> simp [same]

end Flags

/-! ## The count -/

/-- The lowest bit of the count. -/
abbrev oneReference : Nat := 1 <<< 8

/-- All bits of the count. -/
abbrev countBits : Nat := stuck <<< 8

/-- The count in a header word. -/
def countOf (w : Nat) : Nat := (w &&& countBits) >>> 8

theorem countOf_toWord (hd : Header) : countOf hd.toWord = hd.count := by
  have decoded := congrArg Header.count hd.ofWord_toWord
  rw [countOf, Nat.shiftRight_and_distrib, Nat.shiftLeft_shiftRight, Nat.shiftRight_eq_div_pow,
    show stuck = 2 ^ 16 - 1 from rfl, Nat.and_two_pow_sub_one_eq_mod]
  exact decoded

theorem testBit_countBits (i : Nat) : countBits.testBit i = decide (8 ≤ i ∧ i < 24) := by
  rw [countBits, Nat.testBit_shiftLeft, show stuck = 2 ^ 16 - 1 from rfl,
    Nat.testBit_two_pow_sub_one]
  grind

/-- The header with another count. -/
def withCount (hd : Header) (n : Nat) (lt : n < 65536) : Header :=
  { hd with count := n, count_lt := lt }

/-- A count is changed by a multiple of its lowest bit. -/
theorem toWord_withCount (hd : Header) {n : Nat} (lt : n < 65536) :
    (hd.withCount n lt).toWord + hd.count * oneReference = hd.toWord + n * oneReference := by
  unfold toWord withCount
  dsimp only [oneReference]
  omega

theorem bitAt_withCount (hd : Header) {n : Nat} (lt : n < 65536) {i : Nat}
    (outside : ¬(8 ≤ i ∧ i < 24)) : (hd.withCount n lt).bitAt i = hd.bitAt i := by
  unfold bitAt withCount
  grind

theorem and_complement_countBits (hd : Header) :
    hd.toWord &&& Word.complement (countBits ||| Flag.mask .fresh) =
      ((hd.withCount 0 (by decide)).setFlag false .fresh).toWord := by
  refine eq_toWord_of_testBit fun i => ?_
  rw [testBit_and_complement (by decide), Nat.testBit_or, testBit_countBits, Flag.mask,
    Nat.testBit_two_pow, bitAt_setFlag]
  by_cases fresh : Flag.place .fresh = i
  · simp [fresh]
  · by_cases inside : 8 ≤ i ∧ i < 24
    · have none : (hd.withCount 0 (by decide)).bitAt i = false := by
        unfold bitAt withCount
        grind
      simp [fresh, inside, none]
    · have kept := bitAt_withCount hd (n := 0) (by decide) inside
      simp [fresh, inside, kept]

end Header

/-! ## Operations on words -/

namespace HeaderOp

open Header

variable {o : Ref} {op : HeaderOp} {h h' : Heap} {r : HeaderReply}

/-- The update that an operation tries, on the bits of the word. Sums and differences are checked.
There is no new word if the old one is to stay. -/
def onWord : HeaderOp → Nat → Except Fault (Option Nat)
  | increment, w =>
    if countOf w = stuck then
      .ok (if w &&& Flag.mask .fresh = 0 then none
        else some (w &&& Word.complement (Flag.mask .fresh)))
    else do
      let sum ← Word.add w oneReference
      return some (sum &&& Word.complement (Flag.mask .fresh))
  | decrement, w =>
    if countOf w = 0 ∨ countOf w = stuck then .ok none
    else do
      let difference ← Word.sub w oneReference
      return some difference
  | lock, w =>
    .ok (if w &&& (Flag.mask .logged ||| Flag.mask .fresh) = 0 then some (w ||| Flag.mask .locked)
      else none)
  | makeLogged, w =>
    .ok (some ((w ||| Flag.mask .logged) &&& Word.complement (Flag.mask .locked)))
  | finishLogging, w => .ok (some (w &&& Word.complement (Flag.mask .locked)))
  | makeUnlogged, w =>
    .ok (if w &&& Flag.mask .logged = 0 then none
      else some (w &&& Word.complement (Flag.mask .logged)))
  | mark, w => .ok (if w &&& Flag.mask .marked = 0 then some (w ||| Flag.mask .marked) else none)
  | clearMark, w =>
    .ok (if w &&& Flag.mask .marked = 0 then none
      else some (w &&& Word.complement (Flag.mask .marked)))
  | resetCount, w =>
    .ok (some (if countOf w = stuck then w &&& Word.complement (Flag.mask .fresh)
      else w &&& Word.complement (countBits ||| Flag.mask .fresh)))

/-- The count and the flags are those of the decoded header, and no sum or difference leaves the
range of words. -/
theorem onWord_toWord (op : HeaderOp) (hd : Header) :
    op.onWord hd.toWord = .ok ((op.update hd).map toWord) := by
  cases op with
  | increment =>
    rw [onWord, countOf_toWord, update, Header.increment]
    split
    · next full =>
      rw [and_complement_mask]
      simp only [and_mask_eq_zero, flag]
      cases hd.fresh <;> rfl
    · next room =>
      have lt : hd.count + 1 < 65536 := by
        have := hd.count_lt
        dsimp only [stuck] at room
        omega
      have sum : hd.toWord + oneReference = (hd.withCount (hd.count + 1) lt).toWord := by
        have moved := hd.toWord_withCount lt
        dsimp only [oneReference] at *
        omega
      rw [Word.add, if_pos (sum ▸ toWord_lt _), Except.ok_bind, sum, and_complement_mask]
      rfl
  | decrement =>
    rw [onWord, countOf_toWord, update, Header.decrement]
    split
    · rfl
    · next room =>
      have pos : 0 < hd.count := Nat.pos_of_ne_zero (not_or.1 room).1
      have lt : hd.count - 1 < 65536 := Nat.lt_of_le_of_lt (Nat.sub_le ..) hd.count_lt
      have moved := hd.toWord_withCount lt
      have enough : oneReference ≤ hd.toWord := by
        unfold toWord
        dsimp only [oneReference]
        omega
      have difference : hd.toWord - oneReference = (hd.withCount (hd.count - 1) lt).toWord := by
        dsimp only [oneReference] at *
        omega
      rw [Word.sub, if_pos enough, Except.ok_bind, difference]
      rfl
  | lock =>
    have required : hd.logRequired = true ↔ hd.logged = false ∧ hd.fresh = false := by
      simp [Header.logRequired]
    rw [onWord, Nat.and_or_distrib_left, or_mask, update]
    simp only [Nat.or_eq_zero_iff, and_mask_eq_zero, flag, required]
    split <;> rfl
  | makeLogged =>
    rw [onWord, or_mask, and_complement_mask]
    rfl
  | finishLogging =>
    rw [onWord, and_complement_mask]
    rfl
  | makeUnlogged =>
    rw [onWord, and_complement_mask, update, Header.makeUnlogged]
    simp only [and_mask_eq_zero, flag]
    cases hd.logged <;> rfl
  | mark =>
    rw [onWord, or_mask, update, Header.mark]
    simp only [and_mask_eq_zero, flag]
    cases hd.marked <;> rfl
  | clearMark =>
    rw [onWord, and_complement_mask, update, Header.clearMark]
    simp only [and_mask_eq_zero, flag]
    cases hd.marked <;> rfl
  | resetCount =>
    rw [onWord, countOf_toWord, and_complement_mask, and_complement_countBits, update,
      Header.resetCount]
    split <;> rfl

/-- The bits that an operation may change: the count and the freshness to count and to forget the
count, the count alone to count down, the two logging flags, or the mark. -/
def owns : HeaderOp → Nat → Prop
  | increment, i | resetCount, i => i = Flag.place .fresh ∨ 8 ≤ i ∧ i < 24
  | decrement, i => 8 ≤ i ∧ i < 24
  | lock, i | makeLogged, i | finishLogging, i | makeUnlogged, i =>
    i = Flag.place .logged ∨ i = Flag.place .locked
  | mark, i | clearMark, i => i = Flag.place .marked

/-- An update keeps the bits of all other fields. -/
theorem bitAt_update {hd hd' : Header} {i : Nat} (e : op.update hd = some hd')
    (other : ¬op.owns i) : hd'.bitAt i = hd.bitAt i := by
  unfold bitAt
  cases op with
  | increment | resetCount | decrement =>
    simp only [update, Header.increment, Header.resetCount, Header.decrement] at e
    simp only [owns, Flag.place] at other
    grind
  | lock | makeLogged | finishLogging | makeUnlogged =>
    simp only [update, Header.lock, Header.makeLogged, Header.finishLogging,
      Header.makeUnlogged] at e
    simp only [owns, Flag.place] at other
    grind
  | mark | clearMark =>
    simp only [update, Header.mark, Header.clearMark] at e
    simp only [owns, Flag.place] at other
    grind

/-! ## Completed operations -/

/-- A word is exchanged for another one by an operation.
* `word`: what the operation computes is a word again.
* `computed`: no sum or difference left the range of words on the way.
* `kept`: the bits that the operation does not own are those of the old word. -/
structure Changes (op : HeaderOp) (w w' : Nat) : Prop where
  word : w' < Word.limit
  computed : ∃ u, op.onWord w = .ok u ∧ w' = u.getD w
  kept : ∀ i, ¬op.owns i → w'.testBit i = w.testBit i

theorem updateHeader_eq_ok {f : Header → Option Header} {seen : Header × Bool}
    (e : HeapM.updateHeader o f h = .ok seen h') :
    o.InMemory ∧ seen = ((h.view o).header, (f (h.view o).header).isSome) ∧
      h' = (f (h.view o).header).elim h (h.putHeader o) := by
  obtain ⟨_, _, loaded, -⟩ := HeapM.bind_eq_ok.1 e
  have mem := (HeapM.inspect_header_eq_ok loaded).1
  cases (mem.updateHeader_eq h f).symm.trans e
  exact ⟨mem, rfl, rfl⟩

theorem Settles.of_lock (e : lock.run o h = .ok r h') : lock.Settles o h r h' := by
  obtain ⟨taken, _, locked, e⟩ := HeapM.bind_eq_ok.1 e
  cases e
  obtain ⟨_, _, loaded, locked⟩ := HeapM.bind_eq_ok.1 locked
  obtain ⟨mem, rfl, kept⟩ := HeapM.inspect_header_eq_ok loaded
  rw [kept] at locked
  split at locked
  · cases locked
  · next free =>
    have waits : lock.waits (h.view o).header = false := eq_false_of_ne_true free
    split at locked
    · next required =>
      have taken : lock.update (h.view o).header = (h.view o).header.lock := if_pos required
      obtain ⟨_, _, updated, locked⟩ := HeapM.bind_eq_ok.1 locked
      obtain ⟨-, rfl, rfl⟩ := updateHeader_eq_ok updated
      cases locked
      exact ⟨mem, waits, by rw [taken]; rfl, by rw [taken]⟩
    · next exempt =>
      have none : lock.update (h.view o).header = none := if_neg exempt
      cases locked
      exact ⟨mem, waits, by rw [none]; rfl, by rw [none]; rfl⟩

/-- An operation that completes does all at once what its loop settles. -/
theorem Settles.of_run (e : op.run o h = .ok r h') : op.Settles o h r h' := by
  cases op with
  | increment | makeUnlogged | mark | clearMark | resetCount =>
    obtain ⟨_, _, updated, e⟩ := HeapM.bind_eq_ok.1 e
    obtain ⟨mem, rfl, rfl⟩ := updateHeader_eq_ok updated
    cases e
    exact ⟨mem, rfl, rfl, rfl⟩
  | decrement =>
    obtain ⟨_, _, updated, e⟩ := HeapM.bind_eq_ok.1 e
    obtain ⟨mem, rfl, rfl⟩ := updateHeader_eq_ok updated
    dsimp only at e
    split at e
    · cases e
    · next counted =>
      cases e
      exact ⟨mem, rfl, if_neg counted, rfl⟩
  | lock => exact .of_lock e
  | makeLogged =>
    obtain ⟨_, _, logged, e⟩ := HeapM.bind_eq_ok.1 e
    cases e
    obtain ⟨_, _, updated, logged⟩ := HeapM.bind_eq_ok.1 logged
    obtain ⟨mem, rfl, rfl⟩ := updateHeader_eq_ok updated
    dsimp only at logged
    split at logged
    · next held =>
      cases logged
      exact ⟨mem, rfl, if_pos held, rfl⟩
    · cases logged
  | finishLogging =>
    obtain ⟨_, _, finished, e⟩ := HeapM.bind_eq_ok.1 e
    cases e
    obtain ⟨_, _, updated, finished⟩ := HeapM.bind_eq_ok.1 finished
    obtain ⟨mem, rfl, rfl⟩ := updateHeader_eq_ok updated
    obtain ⟨held, rfl⟩ := HeapM.lift_eq_ok.1 finished
    exact ⟨mem, rfl, Except.bind_eq_ok.2 ⟨_, held, rfl⟩, rfl⟩

theorem Settles.changes (s : op.Settles o h r h') (word : h.memory.word o.base < Word.limit) :
    op.Changes (h.memory.word o.base) (h'.memory.word o.base) := by
  obtain ⟨hd, same⟩ : ∃ hd : Header, h.memory.word o.base = hd.toWord :=
    ⟨_, (toWord_ofWord word).symm⟩
  have decoded : (h.view o).header = hd := by
    change Header.ofWord (h.memory.word o.base) = hd
    rw [same, ofWord_toWord]
  have computed := op.onWord_toWord hd
  rw [s.heap, decoded, same]
  cases e : op.update hd with
  | none =>
    rw [e] at computed
    have stays : h.memory.word o.base = hd.toWord := same
    exact ⟨same ▸ word, ⟨none, computed, same⟩, fun _ _ => congrArg (Nat.testBit · _) same⟩
  | some hd' =>
    have put : (h.putHeader o hd').memory.word o.base = hd'.toWord := by
      change (h.memory.setWord o.base hd'.toWord).word o.base = hd'.toWord
      rw [Memory.word_setWord, if_pos rfl]
    rw [e] at computed
    refine ⟨put ▸ toWord_lt hd', ⟨_, computed, put⟩, fun i other => ?_⟩
    change ((h.putHeader o hd').memory.word o.base).testBit i = _
    rw [put, testBit_toWord, testBit_toWord, bitAt_update e other]

/-! ## Counting -/

/-- No operation changes a stuck count. -/
theorem count_update_of_stuck (op : HeaderOp) {hd : Header} (full : hd.count = stuck) :
    ((op.update hd).getD hd).count = stuck := by
  cases op with
  | increment | resetCount | decrement =>
    simp only [update, Header.increment, Header.resetCount, Header.decrement]
    grind
  | lock | makeLogged | finishLogging | makeUnlogged =>
    simp only [update, Header.lock, Header.makeLogged, Header.finishLogging, Header.makeUnlogged]
    grind
  | mark | clearMark =>
    simp only [update, Header.mark, Header.clearMark]
    grind

theorem Settles.count_of_stuck (s : op.Settles o h r h') (full : h.count o = stuck) :
    h'.count o = stuck := by
  rw [Heap.count, s.header_eq]
  exact op.count_update_of_stuck full

/-- A decrement that completes finds a reference. -/
theorem Settles.count_pos (s : decrement.Settles o h r h') : 0 < h.count o := by
  have told := s.reply
  refine Nat.pos_of_ne_zero fun zero => ?_
  have zero : (h.view o).header.count = 0 := zero
  have none : decrement.update (h.view o).header = none := if_pos (.inl zero)
  rw [none, HeaderOp.reply, zero] at told
  cases told

/-- What an operation does to a count, if it is not to forget it. -/
theorem count_update_eq (counts : op ≠ resetCount) {hd : Header} (free : hd.count ≠ stuck)
    (pos : op = decrement → 0 < hd.count) :
    ((op.update hd).getD hd).count + [op].count decrement =
      hd.count + [op].count increment := by
  have lt := hd.count_lt
  cases op with
  | increment =>
    rw [(increment_update hd).2]
    simp only [List.count_singleton, stuck] at *
    grind
  | decrement =>
    have some : decrement.update hd = some (hd.withCount (hd.count - 1) (by omega)) :=
      if_neg (not_or.2 ⟨Nat.ne_of_gt (pos rfl), free⟩)
    rw [some, Option.getD_some]
    exact Nat.sub_add_cancel (pos rfl)
  | resetCount => exact absurd rfl counts
  | lock | makeLogged | finishLogging | makeUnlogged =>
    simp only [update, Header.lock, Header.makeLogged, Header.finishLogging, Header.makeUnlogged]
    grind
  | mark | clearMark =>
    simp only [update, Header.mark, Header.clearMark]
    grind

theorem Settles.count_eq (s : op.Settles o h r h') (counts : op ≠ resetCount)
    (free : h.count o ≠ stuck) :
    h'.count o + [op].count decrement = h.count o + [op].count increment := by
  have pos : op = decrement → 0 < h.count o := fun same => (same ▸ s).count_pos
  rw [Heap.count, s.header_eq]
  exact count_update_eq counts free pos

/-! ## Sequences -/

section Runs

variable {ops : List HeaderOp} {replies : List HeaderReply}

theorem word_lt_of_runs (word : h.memory.word o.base < Word.limit)
    (e : ops.mapM (run o) h = .ok replies h') : h'.memory.word o.base < Word.limit := by
  induction ops generalizing h replies with
  | nil =>
    cases e
    exact word
  | cons op ops ih =>
    obtain ⟨r, rs, k, first, rest, -⟩ := HeapM.mapM_cons_eq_ok.1 e
    exact ih ((Settles.of_run first).changes word).word rest

theorem stuck_of_runs (full : h.count o = stuck) (e : ops.mapM (run o) h = .ok replies h') :
    h'.count o = stuck := by
  induction ops generalizing h replies with
  | nil =>
    cases e
    exact full
  | cons op ops ih =>
    obtain ⟨r, rs, k, first, rest, -⟩ := HeapM.mapM_cons_eq_ok.1 e
    exact ih ((Settles.of_run first).count_of_stuck full) rest

/-- The count is exact while it is not stuck before an operation. -/
theorem count_of_runs (counts : resetCount ∉ ops)
    (free : ∀ pre op post, ops = pre ++ op :: post → ∀ rs k, pre.mapM (run o) h = .ok rs k →
      k.count o ≠ stuck) (e : ops.mapM (run o) h = .ok replies h') :
    h'.count o + ops.count decrement = h.count o + ops.count increment := by
  induction ops generalizing h replies with
  | nil =>
    cases e
    rfl
  | cons op ops ih =>
    obtain ⟨r, rs, k, first, rest, -⟩ := HeapM.mapM_cons_eq_ok.1 e
    obtain ⟨other, counts⟩ := not_or.1 (mt List.mem_cons.2 counts)
    have exact₁ := (Settles.of_run first).count_eq (Ne.symm other) (free [] op ops rfl [] h rfl)
    have exact₂ := ih counts (fun pre op' post split rs' k' run => free (op :: pre) op' post
      (congrArg (op :: ·) split) (r :: rs') k'
      (HeapM.mapM_cons_eq_ok.2 ⟨r, rs', k, first, run, rfl⟩)) rest
    rw [← List.singleton_append, List.count_append, List.count_append]
    omega

/-- Operations on the header of an object complete one after the other, whatever its word is. Each
of them computes its new word without overflow, and keeps all bits but those of its own fields. A
count that is stuck at some point is so at the end. If it is not stuck before any of the operations,
and none of them forgets it, then it is counted exactly. That it is not zero before a decrement need
not be asked for, since such a decrement does not complete. -/
theorem header_operations_keep_to_their_fields (word : h.memory.word o.base < Word.limit)
    (e : ops.mapM (run o) h = .ok replies h') :
    (∀ pre op post, ops = pre ++ op :: post → ∃ rs k r k', pre.mapM (run o) h = .ok rs k ∧
      op.run o k = .ok r k' ∧ op.Changes (k.memory.word o.base) (k'.memory.word o.base)) ∧
    (∀ pre post rs k, ops = pre ++ post → pre.mapM (run o) h = .ok rs k → k.count o = stuck →
      h'.count o = stuck) ∧
    (resetCount ∉ ops → (∀ pre op post, ops = pre ++ op :: post → ∀ rs k,
        pre.mapM (run o) h = .ok rs k → k.count o ≠ stuck) →
      h'.count o + ops.count decrement = h.count o + ops.count increment) := by
  refine ⟨fun pre op post split => ?_, fun pre post rs k split before full => ?_,
    fun counts free => count_of_runs counts free e⟩
  · rw [split] at e
    obtain ⟨rs, _, k, before, e, -⟩ := HeapM.mapM_append_eq_ok.1 e
    obtain ⟨r, _, k', next, -⟩ := HeapM.mapM_cons_eq_ok.1 e
    exact ⟨rs, k, r, k', before, next, (Settles.of_run next).changes (word_lt_of_runs word before)⟩
  · rw [split] at e
    obtain ⟨_, _, k₁, before', after, -⟩ := HeapM.mapM_append_eq_ok.1 e
    cases before.symm.trans before'
    exact stuck_of_runs full after

end Runs

/-- A heap with a fresh object all of whose meaningless bits are set. Its count is one below the
stuck one. -/
def crowdedHeap : Heap :=
  (Heap.ofSettings {}).putHeader HeaderTraffic.shared (Header.ofWord 0xFFFFFFFFFFFFFEF4)

/-- The count goes down and up again, and with the last operation it gets stuck, without a carry. -/
theorem header_operations_keep_to_their_fields_up_to_stuck : ∃ h' : Heap,
    [decrement, increment, increment].mapM (run HeaderTraffic.shared) crowdedHeap =
      .ok [.lost .counted, .gained .first, .gained .counted] h' ∧
    h'.memory.word HeaderTraffic.shared.base = 0xFFFFFFFFFFFFFFF0 ∧
    h'.count HeaderTraffic.shared + 1 = crowdedHeap.count HeaderTraffic.shared + 2 := by
  have e : [decrement, increment, increment].mapM (run HeaderTraffic.shared) crowdedHeap =
    .ok [.lost .counted, .gained .first, .gained .counted] _ := rfl
  have word : crowdedHeap.memory.word HeaderTraffic.shared.base < Word.limit := by decide
  obtain ⟨-, -, exact⟩ := header_operations_keep_to_their_fields word e
  refine ⟨_, e, by decide +kernel, exact (by decide) fun pre op post split rs k before => ?_⟩
  -- the heaps before the three operations
  rcases pre with _ | ⟨_, _ | ⟨_, _ | ⟨_, pre⟩⟩⟩
  · cases before
    decide +kernel
  · cases split
    have one : [decrement].mapM (run HeaderTraffic.shared) crowdedHeap = .ok _ _ := rfl
    cases one.symm.trans before
    decide +kernel
  · cases split
    have two : [decrement, increment].mapM (run HeaderTraffic.shared) crowdedHeap = .ok _ _ := rfl
    cases two.symm.trans before
    decide +kernel
  · cases pre <;> cases split

end HeaderOp

end DeferredCount
