import DeferredCount.Proofs.Reconfiguring

/-!
# What settings can be set to

Settings are set one by one, from names and texts that nobody has checked: directly, under names
spelled with capitals, or from all variables of an environment. Whatever the calls are, the fields
stay in the ranges that the rest relies on. Above all the array quantum stays a power of two, since
a write barrier keeps nothing but its logarithm.

Results:
1. `Settings.sets_iff`: what a call with a name and a text does, told by its result.
2. `Spelled.iff`, `Settings.Environs.iff`: capitals and environments come down to such calls.
3. `settings_stay_valid`: the fields after any calls.
-/

namespace DeferredCount

/-! ## Fields -/

namespace Setting

variable {k j : Setting} {name text : String} {v : SettingValue}

theorem ofName?_eq_some : ofName? name = some k ↔ k.name = name := by
  constructor
  · intro found
    have named := List.find?_some (p := fun k : Setting => k.name == name) found
    exact beq_iff_eq.1 named
  · rintro rfl
    cases k <;> decide

/-- What a text reads as fits the field, and a number is a word. -/
inductive Fits : Setting → SettingValue → Prop
  | flavor {f : Flavor} : Fits .flavor (.flavor f)
  | flag {k : Setting} {b : Bool} : k = .scalarFields ∨ k = .arrayFields ∨ k = .scalarOutOfLine ∨
    k = .arrayOutOfLine ∨ k = .barrierStats ∨ k = .verbose → Fits k (.flag b)
  | number {k : Setting} {n : Nat} : k = .arrayThreshold ∨ k = .arrayQuantum ∨
    k = .bufferCapacity ∨ k = .collectors ∨ k = .cycleInterval → n < Word.limit → Fits k (.number n)

theorem lt_of_readWord? {n : Nat} (e : readWord? text = some n) : n < Word.limit := by
  have small := (Option.filter_eq_some_iff.1 e).2
  exact of_decide_eq_true small

theorem fits_of_read? (e : k.read? text = some v) : k.Fits v := by
  cases k with
  | flavor =>
    obtain ⟨f, -, rfl⟩ := Option.map_eq_some_iff.1 e
    exact .flavor
  | scalarFields | arrayFields | scalarOutOfLine | arrayOutOfLine | barrierStats | verbose =>
    obtain ⟨b, -, rfl⟩ := Option.map_eq_some_iff.1 e
    exact .flag (by simp)
  | arrayThreshold | arrayQuantum | bufferCapacity | collectors | cycleInterval =>
    obtain ⟨n, read, rfl⟩ := Option.map_eq_some_iff.1 e
    exact .number (by simp) (lt_of_readWord? read)

end Setting

namespace Settings

variable {s s' : Settings} {k j : Setting} {name text : String} {v : SettingValue}

theorem ext_get (same : ∀ k, s.get k = s'.get k) : s = s' := by
  cases s
  cases s'
  simp only [mk.injEq]
  have flag := @SettingValue.flag.inj
  have number := @SettingValue.number.inj
  exact ⟨SettingValue.flavor.inj (same .flavor), flag (same .scalarFields),
    flag (same .arrayFields), number (same .arrayThreshold), number (same .arrayQuantum),
    flag (same .scalarOutOfLine), flag (same .arrayOutOfLine), number (same .bufferCapacity),
    number (same .collectors), number (same .cycleInterval), flag (same .barrierStats),
    flag (same .verbose)⟩

/-- A value that fits a field is put there, and into no other one. -/
theorem get_put (fits : k.Fits v) : (s.put k v).get j = if j = k then v else s.get j := by
  cases fits with
  | flavor => cases j <;> rfl
  | flag which =>
    rcases which with rfl | rfl | rfl | rfl | rfl | rfl <;> cases j <;> rfl
  | number which =>
    rcases which with rfl | rfl | rfl | rfl | rfl <;> cases j <;> rfl

/-! ## Names and texts -/

/-- The settings after an attempt to set a field, and whether it succeeded. -/
def outcome (s : Settings) (tried : Except SettingRefusal Settings) : Settings × Bool :=
  ((s.attempt [] tried).1, tried.isOk)

/-- What a call with a name and a text does.
* `accepted`: the text reads as a value that the field of this name admits. The field has the value
  then, and all others keep theirs.
* `refused`: no field has the name, or the text does not read as a value that it admits. All fields
  keep their values. -/
inductive Sets (s : Settings) (name text : String) : Settings × Bool → Prop
  | accepted {s' : Settings} {k : Setting} {v : SettingValue} : k.name = name →
    k.read? text = some v → k.admits v = true → s'.get k = v → (∀ j ≠ k, s'.get j = s.get j) →
    Sets s name text (s', true)
  | refused : (∀ (k : Setting) v, k.name = name → k.read? text = some v → k.admits v = false) →
    Sets s name text (s, false)

theorem outcome_of_accepted (named : k.name = name) (read : k.read? text = some v)
    (admitted : k.admits v = true) : s.outcome (s.set name text) = (s.put k v, true) := by
  rw [set, Setting.ofName?_eq_some.2 named]
  dsimp only
  rw [read]
  dsimp only
  rw [if_pos admitted]
  rfl

theorem outcome_of_refused
    (bad : ∀ (k : Setting) v, k.name = name → k.read? text = some v → k.admits v = false) :
    s.outcome (s.set name text) = (s, false) := by
  unfold set
  split
  · rfl
  · next k named =>
    split
    · rfl
    · next v read =>
      rw [if_neg (ne_true_of_eq_false (bad k v (Setting.ofName?_eq_some.1 named) read))]
      rfl

/-- A call that succeeds sets the field of its name, and one that fails changes nothing. -/
theorem sets_iff {r : Settings × Bool} : s.Sets name text r ↔ r = s.outcome (s.set name text) := by
  constructor
  · rintro (⟨named, read, admitted, here, others⟩ | bad)
    · rw [outcome_of_accepted named read admitted]
      refine congrArg (·, true) (ext_get fun j => ?_)
      rw [get_put (Setting.fits_of_read? read)]
      split
      · next same => rw [same, here]
      · next other => exact others j other
    · exact (outcome_of_refused bad).symm
  · rintro rfl
    by_cases good : ∃ (k : Setting) (v : SettingValue),
        k.name = name ∧ k.read? text = some v ∧ k.admits v = true
    · obtain ⟨k, v, named, read, admitted⟩ := good
      have fits := Setting.fits_of_read? read
      rw [outcome_of_accepted named read admitted]
      exact .accepted named read admitted (by rw [get_put fits, if_pos rfl])
        fun j other => by rw [get_put fits, if_neg other]
    · have bad : ∀ (k : Setting) v, k.name = name → k.read? text = some v → k.admits v = false :=
        fun k v named read => eq_false_of_ne_true fun admitted =>
          good ⟨k, v, named, read, admitted⟩
      rw [outcome_of_refused bad]
      exact .refused bad

/-! ## Validity -/

/-- Every field holds a value that it admits, and that fits it. -/
structure Valid (s : Settings) : Prop where
  admitted : s.Admitted
  fits : ∀ k : Setting, k.Fits (s.get k)

theorem Sets.valid {b : Bool} (sets : s.Sets name text (s', b)) (valid : s.Valid) : s'.Valid := by
  cases sets with
  | @accepted _ k v named read admitted here others =>
    constructor
    · intro j
      by_cases same : j = k
      · rw [same, here, admitted]
      · rw [others j same]
        exact valid.admitted j
    · intro j
      by_cases same : j = k
      · rw [same, here]
        exact Setting.fits_of_read? read
      · rw [others j same]
        exact valid.fits j
  | refused => exact valid

end Settings

theorem Word.eq_two_pow_log2 {n : Nat} (power : isPowerOfTwo n = true) : n = 2 ^ n.log2 := by
  unfold isPowerOfTwo at power
  rw [← Nat.one_shiftLeft]
  exact (beq_iff_eq.1 power).symm

/-- A power of two has one bit. -/
theorem Word.trailingZeros_two_pow {k : Nat} (word : k < 64) : trailingZeros (2 ^ k) = k := by
  have first : (List.range 64).find? (2 ^ k).testBit = some k := by
    rw [List.find?_range_eq_some]
    refine ⟨Nat.testBit_two_pow_self, List.mem_range.2 word, fun j lower => ?_⟩
    rw [Nat.testBit_two_pow_of_ne (Nat.ne_of_gt lower)]
    rfl
  rw [trailingZeros, first, Option.getD_some]

namespace Settings.Valid

variable {s : Settings}

/-- The quantum is a power of two, and the barrier has its logarithm. -/
theorem quantum (valid : s.Valid) : ∃ k < 64, s.arrayQuantum = 2 ^ k ∧
    (BarrierSettings.ofSettings s).logQuantum = k ∧ Word.shiftLeft 1 k = .ok s.arrayQuantum := by
  have power := Word.eq_two_pow_log2 (valid.admitted .arrayQuantum)
  have word : s.arrayQuantum < 2 ^ 64 := by
    cases valid.fits .arrayQuantum with
    | number _ lt => exact lt
  have small : s.arrayQuantum.log2 < 64 :=
    (Nat.pow_lt_pow_iff_right (by decide : 1 < 2)).1 (power ▸ word)
  have places : (BarrierSettings.ofSettings s).logQuantum = s.arrayQuantum.log2 :=
    (congrArg Word.trailingZeros power).trans (Word.trailingZeros_two_pow small)
  refine ⟨_, small, power, places, ?_⟩
  rw [Word.shiftLeft, if_pos small, Nat.one_shiftLeft, ← power]
  exact congrArg Except.ok (Nat.mod_eq_of_lt word)

end Settings.Valid

/-! ## Capitals -/

/-- A name with capitals, and the same name with an underscore and the lower-case form in place of
each of them. -/
inductive Spelled : List Char → List Char → Prop
  | nil : Spelled [] []
  | capital {c : Char} {lower cs ds : List Char} : lowerOf? c = some lower → Spelled cs ds →
    Spelled (c :: cs) ('_' :: lower ++ ds)
  | other {c : Char} {cs ds : List Char} : lowerOf? c = none → Spelled cs ds →
    Spelled (c :: cs) (c :: ds)

theorem Spelled.iff {cs ds : List Char} : Spelled cs ds ↔
    ds = cs.flatMap fun c => match lowerOf? c with
      | some lower => '_' :: lower
      | none => [c] := by
  constructor
  · intro spelled
    induction spelled with
    | nil => rfl
    | capital upper _ ih =>
      rw [List.flatMap_cons, upper, ← ih]
    | other plain _ ih =>
      rw [List.flatMap_cons, plain, ← ih]
      rfl
  · rintro rfl
    induction cs with
    | nil => exact .nil
    | cons c cs ih =>
      rw [List.flatMap_cons]
      cases found : lowerOf? c with
      | some lower => exact .capital found ih
      | none => exact .other found ih

theorem Spelled.setCamel_eq {name text : String} {ds : List Char} (spelled : Spelled name.toList ds)
    (s : Settings) : s.setCamel name text = s.set (String.ofList ds) text := by
  rw [Spelled.iff.1 spelled]
  rfl

/-! ## Environments -/

/-- The lower-case form of a character, or the character if it has none. -/
def lowerForm (c : Char) : List Char := (lowerOf? c).getD [c]

/-- Has the text a character that is not ASCII? -/
def Foreign (cs : List Char) : Prop := ∃ c ∈ cs, 128 ≤ c.toNat

/-- A text and its lower-case form. Characters behind ASCII may have several forms, as a capital
sigma has another one where a word ends. -/
inductive Lowers : List Char → List Char → Prop
  | nil : Lowers [] []
  | usual {c : Char} {cs ds : List Char} : Lowers cs ds → Lowers (c :: cs) (lowerForm c ++ ds)
  | foreign {c : Char} {form cs ds : List Char} : Foreign (lowerForm c) → Foreign form →
    Lowers cs ds → Lowers (c :: cs) (form ++ ds)

theorem Foreign.append_left {cs ds : List Char} : Foreign cs → Foreign (cs ++ ds)
  | ⟨c, hc, high⟩ => ⟨c, List.mem_append_left _ hc, high⟩

theorem Foreign.append_right {cs ds : List Char} : Foreign ds → Foreign (cs ++ ds)
  | ⟨c, hc, high⟩ => ⟨c, List.mem_append_right _ hc, high⟩

theorem Lowers.flatMap (cs : List Char) : Lowers cs (cs.flatMap lowerForm) := by
  induction cs with
  | nil => exact .nil
  | cons c cs ih => exact .usual ih

/-- Two lower-case forms of a text differ only if both have a character that is not ASCII. -/
theorem Lowers.eq_or {cs ds : List Char} (lowers : Lowers cs ds) :
    ds = cs.flatMap lowerForm ∨ Foreign ds ∧ Foreign (cs.flatMap lowerForm) := by
  induction lowers with
  | nil => exact .inl rfl
  | @usual c _ _ _ ih =>
    exact ih.imp (congrArg (lowerForm c ++ ·)) fun both =>
      ⟨both.1.append_right, both.2.append_right⟩
  | foreign usual form _ _ => exact .inr ⟨form.append_left, usual.append_left⟩

/-- The names of fields are ASCII. -/
theorem Setting.not_foreign (k : Setting) : ¬Foreign k.name.toList := by
  have plain : k.name.toList.all (·.toNat < 128) = true := by
    cases k <;> rfl
  exact fun ⟨c, hc, high⟩ =>
    Nat.not_le.2 (of_decide_eq_true (List.all_eq_true.1 plain c hc)) high

theorem Setting.ofName?_of_foreign {cs : List Char} (foreign : Foreign cs) :
    Setting.ofName? (String.ofList cs) = none := by
  refine Option.eq_none_iff_forall_ne_some.2 fun k found => k.not_foreign ?_
  rw [Setting.ofName?_eq_some.1 found, String.toList_ofList]
  exact foreign

namespace Settings

variable {s s' : Settings} {var text : String} {rest name : List Char}
  {environment : List (String × String)}

theorem outcome_of_unknown {name : String} (unknown : Setting.ofName? name = none) :
    s.outcome (s.set name text) = (s, false) := by
  rw [set, unknown]
  rfl

/-- All lower-case forms of a name set the same. -/
theorem outcome_of_lowers (lowers : Lowers rest name) :
    s.outcome (s.set (String.ofList name) text) =
      s.outcome (s.set (lowered (String.ofList rest)) text) := by
  have usual : lowered (String.ofList rest) = String.ofList (rest.flatMap lowerForm) := by
    rw [lowered, String.toList_ofList]
    rfl
  rw [usual]
  rcases lowers.eq_or with same | ⟨foreign, foreign'⟩
  · rw [same]
  · rw [outcome_of_unknown (Setting.ofName?_of_foreign foreign),
      outcome_of_unknown (Setting.ofName?_of_foreign foreign')]

/-- What an environment does to settings. The variables take effect in their order.
* `marked`: a variable behind the mark sets the field of its lower-case name, if there is one.
* `other`: all other variables are passed over. -/
inductive Environs : Settings → List (String × String) → Settings → Prop
  | nil {s : Settings} : Environs s [] s
  | marked {s s' : Settings} {var text : String} {rest name : List Char}
    {environment : List (String × String)} : var.toList = variableMark.toList ++ rest →
    Lowers rest name → Environs (s.outcome (s.set (String.ofList name) text)).1 environment s' →
    Environs s ((var, text) :: environment) s'
  | other {s s' : Settings} {var text : String} {environment : List (String × String)} :
    ¬variableMark.toList <+: var.toList → Environs s environment s' →
    Environs s ((var, text) :: environment) s'

/-- What one variable does to the settings and to the refusals so far. -/
def readVariable (r : Settings × List SettingRefusal) (v : String × String) :
    Settings × List SettingRefusal :=
  match variableSetting? v.1 with
  | none => r
  | some name => r.1.attempt r.2 (r.1.set name v.2)

theorem setFromEnvironment_eq :
    s.setFromEnvironment environment = environment.foldl readVariable (s, []) := rfl

/-- The settings after one variable. -/
def afterVariable (s : Settings) (v : String × String) : Settings :=
  match variableSetting? v.1 with
  | none => s
  | some name => (s.outcome (s.set name v.2)).1

/-- The settings do not depend on what was refused before. -/
theorem foldl_readVariable_fst (r : Settings × List SettingRefusal) :
    (environment.foldl readVariable r).1 = environment.foldl afterVariable r.1 := by
  induction environment generalizing r with
  | nil => rfl
  | cons v environment ih =>
    have first : (readVariable r v).1 = r.1.afterVariable v := by
      unfold readVariable afterVariable
      cases variableSetting? v.1 with
      | none => rfl
      | some name =>
        dsimp only [outcome]
        cases r.1.set name v.2 <;> rfl
    rw [List.foldl_cons, List.foldl_cons, ih, first]

theorem variableSetting?_of_marked (marked : var.toList = variableMark.toList ++ rest) :
    variableSetting? var = if (Setting.ofName? (lowered (String.ofList rest))).isSome
      then some (lowered (String.ofList rest)) else none := by
  have starts : var.startsWith variableMark = true :=
    String.startsWith_string_iff.2 ⟨rest, marked.symm⟩
  have dropped : var.toList.drop variableMark.length = rest := by
    rw [marked]
    exact List.drop_left
  rw [variableSetting?, if_pos starts, dropped]

theorem afterVariable_of_marked (marked : var.toList = variableMark.toList ++ rest) :
    s.afterVariable (var, text) =
      (s.outcome (s.set (lowered (String.ofList rest)) text)).1 := by
  rw [afterVariable, variableSetting?_of_marked marked]
  split
  · next none =>
    split at none
    · cases none
    · next unknown => rw [outcome_of_unknown (Option.not_isSome_iff_eq_none.1 unknown)]
  · next name some =>
    split at some
    · cases some
      rfl
    · cases some

theorem afterVariable_of_other (other : ¬variableMark.toList <+: var.toList) :
    s.afterVariable (var, text) = s := by
  have starts : ¬var.startsWith variableMark = true := mt String.startsWith_string_iff.1 other
  rw [afterVariable, variableSetting?, if_neg starts]

theorem Environs.iff :
    Environs s environment s' ↔ s' = (s.setFromEnvironment environment).1 := by
  rw [setFromEnvironment_eq, foldl_readVariable_fst]
  constructor
  · intro environs
    induction environs with
    | nil => rfl
    | marked marked lowers _ ih =>
      rw [List.foldl_cons, afterVariable_of_marked marked, ← outcome_of_lowers lowers]
      exact ih
    | other other _ ih =>
      rw [List.foldl_cons, afterVariable_of_other other]
      exact ih
  · rintro rfl
    induction environment generalizing s with
    | nil => exact .nil
    | cons v environment ih =>
      obtain ⟨var, text⟩ := v
      rw [List.foldl_cons]
      by_cases marked : variableMark.toList <+: var.toList
      · obtain ⟨rest, same⟩ := marked
        refine .marked same.symm (.flatMap rest) ?_
        rw [outcome_of_lowers (.flatMap rest), ← afterVariable_of_marked same.symm]
        exact ih
      · refine .other marked ?_
        rw [afterVariable_of_other marked]
        exact ih

theorem isSome_of_variableSetting? {name : String} (e : variableSetting? var = some name) :
    (Setting.ofName? name).isSome := by
  unfold variableSetting? at e
  split at e
  · dsimp only at e
    split at e
    · next known => exact Option.some.inj e ▸ known
    · exact nomatch e
  · exact nomatch e

theorem set_ne_unknown {name other : String} (known : (Setting.ofName? name).isSome) :
    s.set name text ≠ .error (.unknown other) := by
  intro e
  obtain ⟨k, found⟩ := Option.isSome_iff_exists.1 known
  rw [set, found] at e
  dsimp only at e
  split at e
  · cases e
  · split at e <;> cases e

/-- A variable that names no field is passed over in silence. -/
theorem unknown_not_mem_setFromEnvironment (name : String) :
    .unknown name ∉ (s.setFromEnvironment environment).2 := by
  have each : ∀ r : Settings × List SettingRefusal, .unknown name ∉ r.2 →
      .unknown name ∉ (environment.foldl readVariable r).2 := by
    induction environment with
    | nil => exact fun _ none => none
    | cons v environment ih =>
      refine fun r none => ih _ ?_
      unfold readVariable
      cases found : variableSetting? v.1 with
      | none => exact none
      | some field =>
        dsimp only
        cases tried : r.1.set field v.2 with
        | ok s' => exact none
        | error refusal =>
          have other : .unknown name ≠ refusal := fun same =>
            set_ne_unknown (isSome_of_variableSetting? found) (same ▸ tried)
          exact List.not_mem_cons_of_ne_of_not_mem other none
  exact each _ List.not_mem_nil

end Settings

/-! ## Calls -/

/-- A call that changes settings. -/
inductive SettingCall
  | set (name text : String)
  | setCamel (name text : String)
  | readEnvironment (environment : List (String × String))

/-- The settings after a call. -/
def SettingCall.after (s : Settings) : SettingCall → Settings
  | set name text => (s.outcome (s.set name text)).1
  | setCamel name text => (s.outcome (s.setCamel name text)).1
  | readEnvironment environment => (s.setFromEnvironment environment).1

namespace Settings.Valid

variable {s : Settings}

theorem defaults {n : Nat} (pos : 0 < n) (word : n < Word.limit) :
    Valid { collectors := n } where
  admitted k := by
    cases k with
    | collectors => exact decide_eq_true pos
    | _ => rfl
  fits k := by
    cases k with
    | flavor => exact .flavor
    | scalarFields | arrayFields | scalarOutOfLine | arrayOutOfLine | barrierStats | verbose =>
      exact .flag (by simp)
    | collectors => exact .number (by simp) word
    | arrayThreshold | arrayQuantum | bufferCapacity | cycleInterval =>
      exact .number (by simp) (by dsimp only; decide)

theorem set (valid : s.Valid) (name text : String) : (s.outcome (s.set name text)).1.Valid :=
  (sets_iff.2 rfl).valid valid

theorem environs (valid : s.Valid) {environment : List (String × String)} {s' : Settings}
    (environs : Environs s environment s') : s'.Valid := by
  induction environs with
  | nil => exact valid
  | marked _ _ _ ih => exact ih (valid.set _ _)
  | other _ _ ih => exact ih valid

theorem after (valid : s.Valid) (call : SettingCall) : (call.after s).Valid := by
  cases call with
  | set name text => exact valid.set name text
  | setCamel name text => exact valid.set (snakeCase name) text
  | readEnvironment environment => exact valid.environs (Environs.iff.2 rfl)

theorem foldl (valid : s.Valid) (calls : List SettingCall) :
    (calls.foldl SettingCall.after s).Valid := by
  induction calls generalizing s with
  | nil => exact valid
  | cons call calls ih => exact ih (valid.after call)

end Settings.Valid

/-- From the defaults on, whatever calls are made, with whatever names, texts and environments: the
array quantum is a power of two, the barrier of a mutator has it as one shifted left, and no buffer
and no increment goes without a place or a collector. A call with a name and a text sets the field
of that name if it succeeds, and else nothing. A name with capitals stands for the one that has an
underscore and the lower-case form of each. An environment sets one field after the other. -/
theorem settings_stay_valid {n : Nat} (pos : 0 < n) (word : n < Word.limit)
    (calls : List SettingCall) {s : Settings}
    (made : s = calls.foldl SettingCall.after { collectors := n }) :
    (∃ k < 64, s.arrayQuantum = 2 ^ k ∧ (BarrierSettings.ofSettings s).logQuantum = k ∧
      Word.shiftLeft 1 k = .ok s.arrayQuantum) ∧
    (∀ h : Heap, h.settings = s → ∃ m h', Mutator.bind h = .ok m h' ∧
      m.barrier.arrayQuantum = s.arrayQuantum) ∧
    0 < s.bufferCapacity ∧ 0 < s.collectors ∧
    (∀ name text r, s.Sets name text r ↔ r = s.outcome (s.set name text)) ∧
    (∀ name text, ∃ ds, (∀ ds', Spelled name.toList ds' ↔ ds' = ds) ∧
      s.setCamel name text = s.set (String.ofList ds) text) ∧
    ∀ environment, (∀ s', Settings.Environs s environment s' ↔
        s' = (s.setFromEnvironment environment).1) ∧
      ∀ name, .unknown name ∉ (s.setFromEnvironment environment).2 := by
  have valid : s.Valid := made ▸ (Settings.Valid.defaults pos word).foldl calls
  refine ⟨valid.quantum, fun h same => ?_, valid.admitted.capacity, valid.admitted.collectors,
    fun _ _ _ => Settings.sets_iff, fun name text => ?_, fun environment =>
      ⟨fun _ => Settings.Environs.iff, Settings.unknown_not_mem_setFromEnvironment⟩⟩
  · obtain ⟨k, -, power, log, -⟩ := valid.quantum
    refine ⟨_, _, Mutator.bind_eq (same ▸ valid.admitted.capacity), ?_⟩
    dsimp only
    rw [same, BarrierSettings.arrayQuantum, log, power, Nat.one_shiftLeft]
  · have spelled : Spelled name.toList _ := Spelled.iff.2 rfl
    exact ⟨_, fun _ => Spelled.iff, spelled.setCamel_eq s⟩

/-- A quantum of six is refused, and one of eight is not. An environment that asks for no collectors
changes nothing. -/
theorem settings_stay_valid_six_and_eight : ∃ s : Settings,
    s = [.set "array_quantum" "6", .setCamel "arrayQuantum" "8"].foldl SettingCall.after
      { collectors := 4 } ∧
    s.arrayQuantum = 8 ∧ (BarrierSettings.ofSettings s).logQuantum = 3 ∧
    (s.setFromEnvironment [("MMTK_THREADS", "0"), ("PATH", "8")]).1 = s := by
  obtain ⟨⟨k, -, power, log, -⟩, -, -, -, -, -, environs⟩ :=
    settings_stay_valid (n := 4) (by decide) (by decide)
      [.set "array_quantum" "6", .setCamel "arrayQuantum" "8"] rfl
  refine ⟨_, rfl, by decide, log.trans ?_, ?_⟩
  · have eight : 2 ^ k = 2 ^ 3 := power.symm.trans (by decide)
    exact Nat.pow_right_injective (Nat.le_refl 2) eight
  · refine (((environs [("MMTK_THREADS", "0"), ("PATH", "8")]).1 _).1 ?_).symm
    refine @Settings.Environs.marked _ _ _ _ "THREADS".toList _ _ (by decide) (.flatMap _)
      (.other (by decide) ?_)
    rw [Settings.outcome_of_refused fun k v named read => ?_]
    · exact .nil
    · have field : k = .collectors := by
        revert named
        cases k <;> decide
      subst field
      cases read
      rfl

end DeferredCount
