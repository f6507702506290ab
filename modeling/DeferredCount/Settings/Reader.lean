import DeferredCount.Settings.Basic
import DeferredCount.Text.LetterCase
import DeferredCount.Text.Numeral
import DeferredCount.Text.Quoted

/-!
# Reading settings from text

A setting is given by a name and a text. A name that no field has, a text that does not read as a
value of the field, and a value the field does not admit are refused, and a refusal changes
nothing. Names may also be spelled with capitals in place of underscores, or come from the
environment, as variables behind `MMTK_`.
-/

namespace DeferredCount

/-- Why a setting was refused. -/
inductive SettingRefusal
  /-- No field has the name. -/
  | unknown (name : String)
  /-- The text does not read as a value of the field. -/
  | unreadable (name text : String)
  /-- The field does not admit the value. -/
  | invalid (name : String) (value : SettingValue)
  deriving DecidableEq, Repr

/-- A value as messages show it. -/
def SettingValue.text : SettingValue → String
  | .flavor f => f.name
  | .flag b => if b then "true" else "false"
  | .number n => toString n

/-- The message of a refusal. -/
def SettingRefusal.message : SettingRefusal → String
  | .unknown name => "Unknown option " ++ name
  | .unreadable name text =>
    "Unable to set " ++ name ++ "=" ++ quoted text ++
      ". Can't parse value. Default value will be used."
  | .invalid name value =>
    "Unable to set " ++ name ++ "=" ++ value.text ++
      ". Invalid value. Default value will be used."

/-- Reads `true` or `false`. -/
def readFlag? (s : String) : Option Bool :=
  if s == "true" then some true else if s == "false" then some false else none

namespace Setting

/-- Reads a value of the field. -/
def read? (k : Setting) (text : String) : Option SettingValue :=
  match k with
  | .flavor => (Flavor.ofName? text).map .flavor
  | .arrayThreshold | .arrayQuantum | .bufferCapacity | .collectors | .cycleInterval =>
    (readWord? text).map .number
  | _ => (readFlag? text).map .flag

/-- Does the field admit the value? -/
def admits : Setting → SettingValue → Bool
  | .arrayQuantum, .number n => Word.isPowerOfTwo n
  | .bufferCapacity, .number n | .collectors, .number n => 0 < n
  | _, _ => true

end Setting

namespace Settings

/-- Sets the field of a name to the value of a text. -/
def set (s : Settings) (name text : String) : Except SettingRefusal Settings :=
  match Setting.ofName? name with
  | none => .error (.unknown name)
  | some k =>
    match k.read? text with
    | none => .error (.unreadable name text)
    | some v => if k.admits v then .ok (s.put k v) else .error (.invalid name v)

/-- Sets the field whose name is spelled with capitals in place of underscores. -/
def setCamel (s : Settings) (name text : String) : Except SettingRefusal Settings :=
  s.set (snakeCase name) text

/-- The settings after an attempt to change them, and the refusals so far, the latest first. -/
def attempt (s : Settings) (refused : List SettingRefusal) :
    Except SettingRefusal Settings → Settings × List SettingRefusal
  | .ok s' => (s', refused)
  | .error r => (s, r :: refused)

/-- What stands in front of the names of variables that hold settings. -/
def variableMark : String := "MMTK_"

/-- May an environment be given the variable? Its name has to start with the mark in some spelling,
and must not hold the sign that ends a name. -/
def admitsVariable (var : String) : Bool :=
  (lowered var).startsWith (lowered variableMark) && !var.contains '='

/-- The name of the field that an environment variable sets. -/
def variableSetting? (var : String) : Option String :=
  if var.startsWith variableMark then
    let name := lowered (String.ofList (var.toList.drop variableMark.length))
    if (Setting.ofName? name).isSome then some name else none
  else none

/-- Sets fields from environment variables, in their order. Variables that name no field are
passed over. Returns the refusals, the latest first. -/
def setFromEnvironment (s : Settings) (environment : List (String × String)) :
    Settings × List SettingRefusal :=
  environment.foldl (fun (s, refused) (var, text) =>
    match variableSetting? var with
    | none => (s, refused)
    | some name => s.attempt refused (s.set name text)) (s, [])

/-- The variable without which a fresh instance has a single collector. -/
def collectorsVariable : String := "MMTK_THREADS"

/-- The settings of a fresh instance in an environment. The number of collectors is read only if it
is there under its name in capitals. Returns the refusals, the latest first. -/
def ofEnvironment (environment : List (String × String)) : Settings × List SettingRefusal :=
  let (s, refused) := setFromEnvironment {} environment
  if environment.any (·.1 == collectorsVariable) then (s, refused)
  else ({ s with collectors := ({} : Settings).collectors }, refused)

end Settings

end DeferredCount
