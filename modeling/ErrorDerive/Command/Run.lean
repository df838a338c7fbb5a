import ErrorDerive.Command.Arguments
import ErrorDerive.Expansion
import ErrorDerive.Files.Store
import ErrorDerive.Settings.Document

/-!
# The command

The command reads the settings, then the source, expands it, and delivers the code: to the output
file if one is named, else as part of the report under `--json`, else on standard output.  Whatever
goes wrong on the way is reported as a diagnostic, on standard error or in the report.
-/

namespace ErrorDerive.Command

/-! ## Fixed texts -/

def usage : String :=
  "usage: onlyerror [-h] [-o OUTPUT] [--config CONFIG] [--no-std]\n" ++
  "                 [--emit-compile-error] [--json]\n" ++
  "                 source\n"

def helpText : String :=
  usage ++
  "\n" ++
  "Generate Error/Display/From impls for an annotated Rust error enum\n" ++
  "\n" ++
  "positional arguments:\n" ++
  "  source                Path to a Rust file holding one enum definition ('-'\n" ++
  "                        reads stdin)\n" ++
  "\n" ++
  "options:\n" ++
  "  -h, --help            show this help message and exit\n" ++
  "  -o OUTPUT, --output OUTPUT\n" ++
  "                        Write generated code here (default: stdout)\n" ++
  "  --config CONFIG       Path to an onlyerror JSON config file\n" ++
  "  --no-std              Emit ::core paths (core::error::Error) instead of\n" ++
  "                        ::std\n" ++
  "  --emit-compile-error  On failure, still write the compile_error! substitute\n" ++
  "                        to the output\n" ++
  "  --json                Emit diagnostics (and code) as JSON\n" ++
  "                        (phase/code/message/severity/file/line/column)\n"

/-! ## Reports -/

/-- What a run leaves behind besides files. -/
structure Report where
  exitCode : Nat
  stdout : String
  stderr : String
deriving DecidableEq, Repr

def diagnosticJson (d : Diagnostic) : Json :=
  .record
    [("phase", .optional d.phase), ("code", .optional d.code), ("message", .string d.message),
      ("severity", .text d.severity), ("file", .optional d.span.file),
      ("line", .optionalInt d.span.line), ("column", .optionalInt d.span.column),
      ("notes", .array (d.notes.map .text))]

/-- The report of a run as one object. -/
def reportJson (exitCode : Nat) (ds : List Diagnostic) (code : Option String) : Json :=
  .record
    ([("exit_code", .int exitCode), ("diagnostics", .array (ds.map diagnosticJson))]
      ++ (code.map fun c ↦ ("code", Json.text c)).toList)

/-- Reports diagnostics, and code if there is some to show. -/
def report (json : Bool) (exitCode : Nat) (ds : List Diagnostic) (code : Option String) : Report :=
  if json then ⟨exitCode, (reportJson exitCode ds code).write ++ "\n", ""⟩
  else ⟨exitCode, code.getD "", String.join (ds.map fun d ↦ d.render.print ++ "\n")⟩

/-- Reports a single diagnostic that ends the run. -/
def abort (json : Bool) (d : Diagnostic) : Report := report json 1 [d] none

/-- The report that shows the help. -/
def helpReport : Report := ⟨0, helpText, ""⟩

/-- The report of refused arguments. -/
def usageReport (f : UsageFault) : Report :=
  ⟨2, "", usage ++ "onlyerror: error: " ++ f.message ++ "\n"⟩

def settingsDiagnostic (path : Option Path) (message : Text.Loose) : Diagnostic :=
  { message, code := some "config", phase := some "config",
    span := { file := path.map Path.render } }

def fileDiagnostic (label message : String) : Diagnostic :=
  { message, code := some "io", phase := some "io", span := { file := some label } }

/-! ## Stages -/

/-- The content of a file, or why there is none. -/
abbrev Content := Except FileFault (List UInt8)

namespace Request

/-- Whether the source is standard input. -/
def readsStdin (r : Request) : Bool := r.source == "-"

/-- The source as diagnostics call it. -/
def label (r : Request) : String := if r.readsStdin then "<stdin>" else r.source

def sourcePath (r : Request) : Path := .ofString r.source

/-- The settings in a file, or the default ones if there is no file. -/
def baseSettings : Option (Path × Content) → Except Text.Loose Settings
  | none => (Settings.ofChanges {}).mapError SettingsFault.message
  | some (_, .error f) => .error f.message
  | some (path, .ok bytes) => (Settings.load path.render bytes).mapError SettingsFileFault.message

/-- The settings for a run, given the content of the settings file that it names. -/
def settings (r : Request) (file : Option (Path × Content)) : Except Diagnostic Settings :=
  let final := baseSettings file >>= fun s ↦
    if r.noStd then (s.override { noStd := some true }).mapError SettingsFault.message else .ok s
  final.mapError (settingsDiagnostic r.config.path?)

/-- The text of a content. -/
def contentText : Content → Except String String
  | .error f => .error f.message
  | .ok bytes => (fileText bytes).mapError Text.Utf8.Fault.message

/-- The source text, given its content. -/
def sourceText (r : Request) (content : Content) : Except Diagnostic String :=
  (contentText content).mapError fun m ↦ fileDiagnostic r.label ("cannot read source: " ++ m)

/-- Whether the code of an expansion is to be delivered. -/
def delivers (r : Request) (e : Expansion) : Bool := e.ok || r.emitCompileError

/-- Where the code of an expansion is to be written, if to any file. -/
def delivery (r : Request) (e : Expansion) : PathOption :=
  if r.delivers e then r.output else .absent

/-- The report of a run whose output file, if any, was written. -/
def finish (r : Request) (e : Expansion) : Report :=
  let code := if r.output = .absent && r.delivers e then some e.code else none
  report r.json (if e.ok then 0 else 1) e.diagnostics code

/-- The report of a run whose output file could not be written. -/
def writeFailed (r : Request) (f : FileFault) : Report :=
  abort r.json (fileDiagnostic f.path.render ("cannot write output: " ++ f.message))

end Request

/-! ## Runs -/

/-- What ends a run without a report.  A blank option ends it where its file is to be read or
written. -/
inductive Interruption
  | limit (l : Text.DigitLimit)
  | nullInPath
  | readsBlank
  | writesBlank
deriving DecidableEq, Repr

def Interruption.message : Interruption → String
  | .limit l => l.message
  | .nullInPath => "embedded null byte"
  | .readsBlank => "'list' object has no attribute 'read_text'"
  | .writesBlank => "'list' object has no attribute 'write_text'"

/-- A run as it unfolds: it is over, with a report or without one, or it goes on from what it reads
or from how writing ends. -/
inductive Plan
  | done (report : Report)
  | interrupt (i : Interruption)
  | readInput (next : List UInt8 → Plan)
  | read (path : Path) (next : Content → Plan)
  | write (path : Path) (text : String) (next : Except FileFault Unit → Plan)

namespace Request

/-- Delivers the code of an expansion, and reports. -/
def deliver (r : Request) (e : Expansion) : Plan :=
  match r.delivery e with
  | .absent => .done (r.finish e)
  | .blank => .interrupt .writesBlank
  | .path p => .write p e.code fun
    | .ok () => .done (r.finish e)
    | .error ⟨.nullInPath, _⟩ => .interrupt .nullInPath
    | .error f => .done (r.writeFailed f)

/-- Expands a source under given settings. -/
def expandSource (r : Request) (settings : Settings) (content : Content) : Plan :=
  match r.sourceText content with
  | .error d => .done (abort r.json d)
  | .ok text =>
    match expand settings (some r.label) text with
    | .error l => .interrupt (.limit l)
    | .ok e => r.deliver e

/-- Reads the source. -/
def readSource (r : Request) (next : Content → Plan) : Plan :=
  if r.readsStdin then .readInput fun bytes ↦ next (.ok bytes)
  else
    .read r.sourcePath fun
    | .error ⟨.nullInPath, _⟩ => .interrupt .nullInPath
    | content => next content

/-- Reads the settings file, if there is one. -/
def readSettings (r : Request) (next : Option (Path × Content) → Plan) : Plan :=
  match r.config with
  | .absent => next none
  | .blank => .interrupt .readsBlank
  | .path p => .read p fun content ↦ next (some (p, content))

/-- Carries a request out. -/
def plan (r : Request) : Plan :=
  r.readSettings fun file ↦
    match r.settings file with
    | .error d => .done (abort r.json d)
    | .ok settings => r.readSource (r.expandSource settings)

end Request

/-- The run of the command on given words. -/
def plan (words : List String) : Plan :=
  match Arguments.parse words with
  | .help => .done helpReport
  | .fault f => .done (usageReport f)
  | .request r => r.plan

/-- What a run leaves behind. -/
structure Outcome where
  report : Report
  store : Store

/-- What a run leaves behind that starts from a store. -/
def Plan.over : Plan → Store → List UInt8 → Except Interruption Outcome
  | .done report, store, _ => .ok ⟨report, store⟩
  | .interrupt i, _, _ => .error i
  | .readInput next, store, stdin => (next stdin).over store stdin
  | .read p next, store, stdin => (next (store.read p)).over store stdin
  | .write p text next, store, stdin =>
    match store.write p text.toUTF8.toList with
    | .ok store' => (next (.ok ())).over store' stdin
    | .error f => (next (.error f)).over store stdin

/-- Runs the command. -/
def run (words : List String) (store : Store) (stdin : List UInt8) :
    Except Interruption Outcome :=
  (plan words).over store stdin

end ErrorDerive.Command
