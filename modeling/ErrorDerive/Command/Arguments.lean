import ErrorDerive.Files.Path
import ErrorDerive.Text.Digit
import ErrorDerive.Text.Quoted

/-!
# Arguments of the command

Every word before `--` is first sorted into options and operands: a long option may be shortened
as far as it stays the only one, and carry its value behind an equals sign; a short one may carry
it right behind its letter too.  Then the words are taken from left to right.
-/

namespace ErrorDerive.Command

inductive Switch
  | help
  | output
  | config
  | noStd
  | emitCompileError
  | json
deriving DecidableEq, Repr

namespace Switch

/-- All spellings of options. -/
def spellings : List (String × Switch) :=
  [("-h", .help), ("--help", .help), ("-o", .output), ("--output", .output),
    ("--config", .config), ("--no-std", .noStd), ("--emit-compile-error", .emitCompileError),
    ("--json", .json)]

/-- An option as messages call it: all its spellings. -/
def describe (s : Switch) : String :=
  "/".intercalate ((spellings.filter (·.2 == s)).map Prod.fst)

def takesValue : Switch → Bool
  | .output | .config => true
  | _ => false

end Switch

/-- Why arguments are refused. -/
inductive UsageFault
  | noSource
  | unrecognized (words : List String)
  | noValue (s : Switch)
  | ignoredValue (s : Switch) (value : String)
  | ambiguous (word : String) (candidates : List String)
deriving DecidableEq, Repr

def UsageFault.message : UsageFault → String
  | .noSource => "the following arguments are required: source"
  | .unrecognized ws => "unrecognized arguments: " ++ " ".intercalate ws
  | .noValue s => "argument " ++ s.describe ++ ": expected one argument"
  | .ignoredValue s v =>
    "argument " ++ s.describe ++ ": ignored explicit argument " ++ Text.Quoted.render v
  | .ambiguous w cs => "ambiguous option: " ++ w ++ " could match " ++ ", ".intercalate cs

/-- A word of the command line.  An option may have its value in its own word.  What is in the word
of the short option for help are the letters of further short options. -/
inductive Word
  | operand (text : String)
  | divider
  | option (s : Switch) (attached : Option (List Char))
  | helpCluster (letters : List Char)
  | unknown (text : String)
deriving DecidableEq, Repr

/-! ## Sorting words -/

/-- Splits at the first equals sign. -/
def splitEquals (cs : List Char) : List Char × Option (List Char) :=
  match cs.dropWhile (· ≠ '=') with
  | [] => (cs, none)
  | _ :: value => (cs.takeWhile (· ≠ '='), some value)

/-- The option of an exact spelling. -/
def spelled? (cs : List Char) : Option Switch :=
  (Switch.spellings.find? fun s ↦ s.1.toList = cs).map Prod.snd

/-- The spellings that a text is a start of. -/
def completions (cs : List Char) : List (String × Switch) :=
  Switch.spellings.filter fun s ↦ cs.isPrefixOf s.1.toList

/-- Whether a word is a negative number, with or without a decimal point. -/
def isNegativeNumber (cs : List Char) : Bool :=
  match cs with
  | '-' :: ds =>
    let ds := if ds.getLast? = some '\n' then ds.dropLast else ds
    match ds.dropWhile Text.isDecimalDigit with
    | [] => !ds.isEmpty
    | '.' :: es => !es.isEmpty && es.all Text.isDecimalDigit
    | _ => false
  | _ => false

/-- A word that starts with a hyphen but is the start of no option. -/
def stranger (text : String) : Word :=
  if isNegativeNumber text.toList || text.toList.contains ' ' then .operand text else .unknown text

/-- A shortened long option. -/
def shortened (text : String) : Except UsageFault Word :=
  let (name, value) := splitEquals text.toList
  match completions name with
  | [] => .ok (stranger text)
  | [s] => .ok (.option s.2 value)
  | ss => .error (.ambiguous text (ss.map Prod.fst))

/-- A short option with something in the same word. -/
def short (s : Switch) (attached : List Char) : Word :=
  if s = .help then .helpCluster attached else .option s (some attached)

/-- A short option with something right behind its letter. -/
def clustered (text : String) : Word :=
  match spelled? (text.toList.take 2) with
  | some s => short s (text.toList.drop 2)
  | none => stranger text

/-- Sorts a word that may be an option. -/
def classify (text : String) : Except UsageFault Word :=
  let cs := text.toList
  match cs with
  | '-' :: c :: _ =>
    match spelled? cs with
    | some s => .ok (.option s none)
    | none =>
      let (name, value) := splitEquals cs
      match value, spelled? name with
      | some v, some s => .ok (if c = '-' then .option s (some v) else short s v)
      | _, _ => if c = '-' then shortened text else .ok (clustered text)
  | _ => .ok (.operand text)

/-- Sorts all words; behind `--` there are only operands. -/
def classifyAll : List String → Except UsageFault (List Word)
  | [] => .ok []
  | w :: ws =>
    if w = "--" then .ok (.divider :: ws.map .operand)
    else
      match classify w with
      | .error f => .error f
      | .ok x => (classifyAll ws).map (x :: ·)

/-! ## Taking words -/

/-- An option whose value is a path.  A value that is the divider `--` is dropped, which leaves the
option blank. -/
inductive PathOption
  | absent
  | blank
  | path (p : Path)
deriving DecidableEq, Repr

namespace PathOption

/-- The option with a value from a word of its own. -/
def ofWord (text : String) : PathOption := .path (.ofString text)

/-- The option with a value in its own word. -/
def ofAttached (value : List Char) : PathOption :=
  if value = ['-', '-'] then .blank else ofWord (String.ofList value)

def path? : PathOption → Option Path
  | .path p => some p
  | _ => none

end PathOption

/-- What the arguments ask for. -/
structure Request where
  source : String
  output : PathOption
  config : PathOption
  noStd : Bool
  emitCompileError : Bool
  json : Bool
deriving DecidableEq, Repr

/-- A request that is still being read. -/
structure Draft where
  source : Option String := none
  output : PathOption := .absent
  config : PathOption := .absent
  noStd : Bool := false
  emitCompileError : Bool := false
  json : Bool := false
  extra : List String := []
deriving DecidableEq, Repr

inductive Arguments
  | request (r : Request)
  | help
  | fault (f : UsageFault)
deriving DecidableEq, Repr

namespace Draft

def withExtra (d : Draft) (text : String) : Draft := { d with extra := d.extra ++ [text] }

/-- Sets an option that has a value; the last one wins. -/
def withValue (d : Draft) (value : PathOption) : Switch → Draft
  | .output => { d with output := value }
  | .config => { d with config := value }
  | _ => d

/-- Sets an option that has no value. -/
def withFlag (d : Draft) : Switch → Draft
  | .noStd => { d with noStd := true }
  | .emitCompileError => { d with emitCompileError := true }
  | .json => { d with json := true }
  | _ => d

/-- The request, if a source and nothing superfluous was given. -/
def finish (d : Draft) : Arguments :=
  match d.source, d.extra with
  | none, _ => .fault .noSource
  | some source, [] =>
    .request ⟨source, d.output, d.config, d.noStd, d.emitCompileError, d.json⟩
  | some _, w :: ws => .fault (.unrecognized (w :: ws))

end Draft

/-- Checks the letters in the word of `-h`: further options for help, and last perhaps the option
for the output, whose value is the rest or the next word; `operandNext` says whether that can be
one. -/
def checkCluster (operandNext : Bool) : List Char → Except UsageFault Unit
  | [] => .error (.ignoredValue .help "")
  | ['h'] => .ok ()
  | 'h' :: cs => checkCluster operandNext cs
  | ['o'] => if operandNext then .ok () else .error (.noValue .output)
  | 'o' :: _ => .ok ()
  | cs => .error (.ignoredValue .help (String.ofList cs))

def startsWithOperand : List Word → Bool
  | .operand _ :: _ => true
  | _ => false

/-- Takes the words from left to right.  The first operand is the source; a divider next to it goes
with it. -/
def take (d : Draft) : List Word → Arguments
  | [] => d.finish
  | .operand text :: .divider :: ws =>
    if d.source.isNone then take { d with source := some text } ws
    else take ((d.withExtra text).withExtra "--") ws
  | .operand text :: ws =>
    if d.source.isNone then take { d with source := some text } ws
    else take (d.withExtra text) ws
  | .divider :: .operand text :: ws =>
    if d.source.isNone then take { d with source := some text } ws
    else take ((d.withExtra "--").withExtra text) ws
  | .divider :: ws => take (d.withExtra "--") ws
  | .unknown text :: ws => take (d.withExtra text) ws
  | .helpCluster letters :: ws =>
    match checkCluster (startsWithOperand ws) letters with
    | .ok () => .help
    | .error f => .fault f
  | .option .help none :: _ => .help
  | .option s none :: ws =>
    if s.takesValue then
      match ws with
      | .operand text :: ws' => take (d.withValue (.ofWord text) s) ws'
      | _ => .fault (.noValue s)
    else take (d.withFlag s) ws
  | .option s (some value) :: ws =>
    if s.takesValue then take (d.withValue (.ofAttached value) s) ws
    else .fault (.ignoredValue s (String.ofList value))

/-- Reads the arguments of the command. -/
def Arguments.parse (words : List String) : Arguments :=
  match classifyAll words with
  | .ok ws => take {} ws
  | .error f => .fault f

end ErrorDerive.Command
