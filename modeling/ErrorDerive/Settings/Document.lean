import ErrorDerive.Json.Reader
import ErrorDerive.Settings.Basic
import ErrorDerive.Text.Blank
import ErrorDerive.Text.Utf8

/-!
# Settings in a file

A settings file is a JSON object with a format name, the version zero and any of the options.
Options that are not there keep their defaults; a field that is no option is refused.
-/

namespace ErrorDerive

namespace Settings

def formatName : String := "onlyerror-config"

/-- The names of the options. -/
def optionNames : List String :=
  ["no_std", "message_attributes", "from_attribute", "source_attribute", "no_display_attribute"]

/-- Whether a value equals zero; false does. -/
def isVersionZero : Option Json → Bool
  | some (.number n) => n.isZero
  | some (.bool b) => !b
  | _ => false

def isFormat : Option Json → Bool
  | some (.string s) => s == .ofString formatName
  | _ => false

/-- The keys that are neither options nor the format and version, in increasing order. -/
def unknownKeys (fs : Keyed Text.Loose Json) : List Text.Loose :=
  let known := ("format" :: "version" :: optionNames).map Text.Loose.ofString
  (fs.keys.filter (!known.contains ·)).mergeSort fun a b ↦ !decide (b.codes < a.codes)

/-- An option that must be true or false. -/
def boolOption (fs : Keyed Text.Loose Json) (key : String) :
    Except SettingsFault (Option Bool) :=
  match fs.get? (.ofString key) with
  | none => .ok none
  | some (.bool b) => .ok (some b)
  | some _ => .error .notBoolean

/-- The text of a value that is a string. -/
def text? : Json → Option Text.Loose
  | .string s => some s
  | _ => none

/-- An option that must be a list of strings. -/
def listOption (fs : Keyed Text.Loose Json) (key : String) :
    Except SettingsFault (Option (List Text.Loose)) :=
  match fs.get? (.ofString key) with
  | none => .ok none
  | some (.array xs) =>
    match xs.mapM text? with
    | some names => .ok (some names)
    | none => .error .notStringList
  | some _ => .error .notStringList

/-- An option that must be a string. -/
def stringOption (fs : Keyed Text.Loose Json) (key : String) :
    Except SettingsFault (Option Text.Loose) :=
  match fs.get? (.ofString key) with
  | none => .ok none
  | some (.string s) => .ok (some s)
  | some _ => .error (.notString key)

/-- The options among the fields of an object. -/
def changesOf (fs : Keyed Text.Loose Json) : Except SettingsFault Changes := do
  let noStd ← boolOption fs "no_std"
  let messageNames ← listOption fs "message_attributes"
  let fromName ← stringOption fs "from_attribute"
  let sourceName ← stringOption fs "source_attribute"
  let noDisplayName ← stringOption fs "no_display_attribute"
  pure { noStd, messageNames, fromName, sourceName, noDisplayName }

/-- The settings that a JSON value holds. -/
def ofJson : Json → Except SettingsFault Settings
  | .object fs =>
    if !(isFormat (Keyed.get? fs (.ofString "format"))
        && isVersionZero (Keyed.get? fs (.ofString "version"))) then
      .error .unsupported
    else
      match unknownKeys fs with
      | [] => changesOf fs >>= ofChanges
      | k :: ks => .error (.unknownFields (k :: ks))
  | _ => .error .notObject

end Settings

/-- Why a settings file is refused. -/
inductive SettingsFileFault
  | encoding (f : Text.Utf8.Fault)
  | notJson (path : String) (what : Json.Complaint) (place : Place)
  | limit (l : Text.DigitLimit)
  | settings (f : SettingsFault)
deriving DecidableEq, Repr

def SettingsFileFault.message : SettingsFileFault → Text.Loose
  | .encoding f => f.message
  | .notJson path what place =>
    .ofString
      ("config " ++ path ++ " is not valid JSON: " ++ (Json.Fault.syntaxError what place).message)
  | .limit l => l.message
  | .settings f => f.message

/-- The text of a file, with line ends unified. -/
def fileText (bytes : List UInt8) : Except Text.Utf8.Fault String :=
  (Text.Utf8.decodeFrom 0 bytes).map fun cs ↦ String.ofList (Text.unifyNewlines cs)

/-- The settings in a file of a given path and content. -/
def Settings.load (path : String) (bytes : List UInt8) : Except SettingsFileFault Settings :=
  match fileText bytes with
  | .error f => .error (.encoding f)
  | .ok text =>
    match Json.parse text with
    | .error (.syntaxError what place) => .error (.notJson path what place)
    | .error (.limit l) => .error (.limit l)
    | .ok json => (Settings.ofJson json).mapError .settings

end ErrorDerive
