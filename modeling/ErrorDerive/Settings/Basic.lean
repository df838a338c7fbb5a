import ErrorDerive.Text.Identifier
import ErrorDerive.Text.Quoted

/-!
# Settings

Which attribute names play which role, and whether generated code names the core library.  In
valid settings every name is an identifier other than `doc`, some name marks messages, and no name
has two roles.  Settings are proposed with names of any text and come out of a check.
-/

namespace ErrorDerive

structure Settings where
  /-- Whether generated code goes without the standard library. -/
  noStd : Bool := false
  messageNames : List String := ["error", "message"]
  fromName : String := "from"
  sourceName : String := "source"
  noDisplayName : String := "no_display"
deriving DecidableEq, Repr

/-- Why settings are refused. -/
inductive SettingsFault
  | noMessageName
  | invalidName (name : Text.Loose)
  | reservedName
  | repeatedName
  | notObject
  | unsupported
  | unknownFields (names : List Text.Loose)
  | notBoolean
  | notStringList
  | notString (key : String)
deriving DecidableEq, Repr

def SettingsFault.message : SettingsFault → Text.Loose
  | .noMessageName => "message_attributes must name at least one attribute"
  | .invalidName n => .ofString ("invalid attribute name " ++ Text.Quoted.render n)
  | .reservedName => "attribute name 'doc' is reserved for doc comments"
  | .repeatedName => "attribute names must be distinct"
  | .notObject => "config must be a JSON object"
  | .unsupported =>
    "unsupported config format/version (expected format 'onlyerror-config', version 0)"
  | .unknownFields ns => .ofString "config has unknown fields: " ++ Text.Loose.intercalate ", " ns
  | .notBoolean => "config 'no_std' must be a boolean"
  | .notStringList => "config 'message_attributes' must be a list of strings"
  | .notString key => .ofString ("config '" ++ key ++ "' must be a string")

namespace Settings

/-- All attribute names, in the order in which they are checked. -/
def names (s : Settings) : List String :=
  s.messageNames ++ [s.fromName, s.sourceName, s.noDisplayName]

/-- The names that mark the cause of an error. -/
def causeNames (s : Settings) : List String := [s.fromName, s.sourceName]

/-- Accepts an identifier other than `doc` as a name. -/
def name (t : Text.Loose) : Except SettingsFault String :=
  match t.toString? with
  | none => .error (.invalidName t)
  | some s =>
    if !Text.isIdentifier s then .error (.invalidName t)
    else if s == "doc" then .error .reservedName
    else .ok s

theorem name_eq_ok_iff {t : Text.Loose} {s : String} :
    name t = .ok s ↔ t = Text.Loose.ofString s ∧ Text.isIdentifier s = true ∧ s ≠ "doc" := by
  rw [← Text.Loose.toString?_eq_some_iff]
  unfold name
  cases t.toString? with
  | none => simp
  | some u =>
    by_cases hi : Text.isIdentifier u = true <;> by_cases hd : u = "doc" <;>
      simp [hi, hd] <;> grind

/-- Settings whose names are not checked yet. -/
structure Proposal where
  noStd : Bool
  messageNames : List Text.Loose
  fromName : Text.Loose
  sourceName : Text.Loose
  noDisplayName : Text.Loose
deriving DecidableEq, Repr

/-- Accepts valid settings only.  Names are checked one by one, then against each other. -/
def validate (p : Proposal) : Except SettingsFault Settings :=
  if p.messageNames.isEmpty then .error .noMessageName
  else do
    let messageNames ← p.messageNames.mapM name
    let fromName ← name p.fromName
    let sourceName ← name p.sourceName
    let noDisplayName ← name p.noDisplayName
    let s : Settings := { noStd := p.noStd, messageNames, fromName, sourceName, noDisplayName }
    if s.names.Nodup then .ok s else .error .repeatedName

/-- New values for some of the settings. -/
structure Changes where
  noStd : Option Bool := none
  messageNames : Option (List Text.Loose) := none
  fromName : Option Text.Loose := none
  sourceName : Option Text.Loose := none
  noDisplayName : Option Text.Loose := none
deriving DecidableEq, Repr

/-- The settings after changes, without a check. -/
def propose (s : Settings) (c : Changes) : Proposal where
  noStd := c.noStd.getD s.noStd
  messageNames := c.messageNames.getD (s.messageNames.map .ofString)
  fromName := c.fromName.getD s.fromName
  sourceName := c.sourceName.getD s.sourceName
  noDisplayName := c.noDisplayName.getD s.noDisplayName

/-- Changes settings, if that leaves them valid. -/
def override (s : Settings) (c : Changes) : Except SettingsFault Settings := validate (s.propose c)

/-- The default settings with changes. -/
def ofChanges (c : Changes) : Except SettingsFault Settings := Settings.override {} c

end Settings

end ErrorDerive
