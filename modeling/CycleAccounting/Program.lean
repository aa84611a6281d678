import CycleAccounting.CommandLine
import CycleAccounting.Directory
import CycleAccounting.Options.Document
import CycleAccounting.Report.Csv
import CycleAccounting.Report.Text
import CycleAccounting.Run.Document
import CycleAccounting.Tree.Definition

/-!
# The program

An invocation reads the options, the tree and the run that its command line names, in this order,
computes the report and shows it, and appends the summary row to a file if asked to.  The first
failure ends it.  All of this is written over the interface `Files`, so that an invocation is a pure
function when the files are those of a `Directory`, and over the `Readers` of command lines and
documents, which it only asks for a value or an error.
-/

namespace CycleAccounting

/-! ## Failures -/

/-- Why nothing was read from a file. -/
inductive LoadError (ε : Type) where
  /-- The file cannot be read. -/
  | unreadable (kind : DocumentKind) (path : String) (fault : FileFault)
  /-- The document in it is invalid. -/
  | invalid (kind : DocumentKind) (path : String) (e : DocumentError ε)

/-- The messages of the error, the outermost first, given the message of a refusal. -/
def LoadError.chain {ε : Type} (message : ε → String) : LoadError ε → List String
  | unreadable kind path fault => [s!"Failed to read {kind.fileName}: {path}", fault.message]
  | invalid kind path e => s!"Invalid {kind.fileName}: {path}" :: e.chain message

/-- The messages of the error for the file of the summary row, the outermost first. -/
def AppendError.chain (path : String) : AppendError → List String
  | unopened fault => [s!"Failed to open CSV output: {path}", fault.message]
  | unwritten fault => [s!"Failed to write CSV output: {path}", fault.message]

/-- Why an invocation failed. -/
inductive Failure where
  | options (e : LoadError (OptionError Double))
  | tree (e : LoadError (TreeError Double))
  | results (e : LoadError RunError)
  /-- No report of the results in a file. -/
  | report (path : String) (e : ReportError Double)
  /-- The summary row is not appended to its file. -/
  | csv (path : String) (e : AppendError)

namespace Failure

/-- The messages of the failure, the outermost first. -/
def chain : Failure → List String
  | options e => e.chain OptionError.message
  | tree e => e.chain TreeError.message
  | results e => e.chain RunError.message
  | report path e => s!"Failed to build stack for {path}" :: e.chain
  | csv path e => e.chain path

/-- Writes a text behind a label, its further lines below its first. -/
def indented (label : String) (text : String) : String :=
  let blank := String.ofList (List.replicate label.length ' ')
  label ++ ("\n" ++ blank).intercalate ((Text.pieces '\n' text.toList).map String.ofList)

/-- What is said of a failure: its first message, then its causes, numbered if there are several. -/
def text (messages : List String) : String :=
  match messages with
  | [] => "Error: \n"
  | [outer] => s!"Error: {outer}\n"
  | [outer, cause] => s!"Error: {outer}\n\nCaused by:\n" ++ indented "    " cause ++ "\n"
  | outer :: causes =>
    let lines := causes.mapIdx fun number cause =>
      indented (Text.padLeft 5 (toString number) ++ ": ") cause ++ "\n"
    s!"Error: {outer}\n\nCaused by:\n" ++ String.join lines

end Failure

/-! ## Invocations -/

/-- What an invocation leaves behind besides files. -/
structure Outcome where
  exitCode : Nat
  output : String
  /-- What is said on the error stream. -/
  messages : String
  deriving DecidableEq, Repr

/-- How the arguments and the documents of an invocation are read. -/
structure Readers where
  commandLine : List String → Except UsageError CommandLine
  options : String → Except (DocumentError (OptionError Double)) (Options Double)
  tree : String → Except (DocumentError (TreeError Double)) (Tree Double)
  results : String → Except (DocumentError RunError) (Run Double)

/-- Options and trees are TOML documents, results JSON documents. -/
def Readers.standard : Readers where
  commandLine := CommandLine.parse
  options := Options.ofToml
  tree := Tree.ofToml
  results := Run.ofJson

namespace Program

/-- The name and the version of the program. -/
def versionLine : String := "cyclestack 0.1.0"

/-- How the program is called. -/
def usageLine : String := "Usage: cyclestack [OPTIONS] --results <FILE>"

variable {m : Type → Type} [Monad m]

/-- Reads a document from a file. -/
def load {β ε : Type} (files : Files m) (kind : DocumentKind)
    (parse : String → Except (DocumentError ε) β) (path : String) :
    ExceptT (LoadError ε) m β := do
  match ← files.read path with
  | .error fault => throw (.unreadable kind path fault)
  | .ok text =>
    match parse text with
    | .error e => throw (.invalid kind path e)
    | .ok v => return v

/-- Reads options from a file. -/
def loadOptions (files : Files m) (path : String) :
    ExceptT (LoadError (OptionError Double)) m (Options Double) :=
  load files .options Readers.standard.options path

/-- Reads a tree from a file. -/
def loadTree (files : Files m) (path : String) :
    ExceptT (LoadError (TreeError Double)) m (Tree Double) :=
  load files .tree Readers.standard.tree path

/-- Reads a run from a file. -/
def loadRun (files : Files m) (path : String) : ExceptT (LoadError RunError) m (Run Double) :=
  load files .results Readers.standard.results path

/-- The options of an invocation: those of its file with the command line over them. -/
def options (readers : Readers) (files : Files m) (line : CommandLine) :
    ExceptT Failure m (Options Double) := do
  match line.config with
  | some path => return line.options (← (load files .options readers.options path).adapt .options)
  | none => return line.options .standard

/-- The tree of an invocation: one from a file, gathered into the standard groups if the options
say so, or the built-in one. -/
def tree (readers : Readers) (files : Files m) (line : CommandLine) (o : Options Double) :
    ExceptT Failure m (Tree Double) := do
  match line.tree with
  | some path =>
    let t ← (load files .tree readers.tree path).adapt .tree
    return if o.simplified then t.simplify .standard else t
  | none => return o.treeVariant.tree

/-- The report of an invocation. -/
def report (readers : Readers) (files : Files m) (line : CommandLine) :
    ExceptT Failure m (Report Double) := do
  let o ← options readers files line
  let t ← tree readers files line o
  let run ← (load files .results readers.results line.results).adapt .results
  match Report.compute .standard run t o with
  | .ok r => return r
  | .error e => throw (.report line.results e)

/-- Appends the summary row of a report to a file. -/
def appendRow (files : Files m) (path : String) (r : Report Double) (label : String)
    (header : Bool) : m (Except AppendError Unit) :=
  files.append path (r.csvLines label header)

/-- The messages about what a report leaves out of account. -/
def warnings (r : Report Double) : String :=
  String.join (r.diagnostics.map fun d => s!"warning: {d.message}\n")

/-- Carries out a command line. -/
def carryOut (readers : Readers) (files : Files m) (line : CommandLine) : m Outcome := do
  match ← (report readers files line).run with
  | .error failure => return ⟨1, "", Failure.text failure.chain⟩
  | .ok r =>
    let shown : Outcome := ⟨0, r.render, warnings r⟩
    match line.csv with
    | none => return shown
    | some path =>
      match ← appendRow files path r line.jobName (line.has .csvHeader) with
      | .ok () => return shown
      | .error e =>
        return { shown with
          exitCode := 1
          messages := shown.messages ++ Failure.text (Failure.csv path e).chain }

/-- Runs the program with some arguments, which are read like the documents by the given readers. -/
def invokeWith (readers : Readers) (files : Files m) (args : List String) : m Outcome :=
  match readers.commandLine args with
  | .ok line => carryOut readers files line
  | .error .versionRequested => return ⟨0, versionLine ++ "\n", ""⟩
  | .error .helpRequested => return ⟨0, usageLine ++ "\n", ""⟩
  | .error _ => return ⟨2, "", usageLine ++ "\n"⟩

/-- Runs the program with some arguments. -/
def invoke (files : Files m) (args : List String) : m Outcome := invokeWith .standard files args

/-- Runs the program once for each list of arguments, one after the other in one directory: the
outcomes, each with the directory that it left. -/
def historyWith (readers : Readers) (d : Directory) :
    List (List String) → List (Outcome × Directory)
  | [] => []
  | args :: rest =>
    let result := (invokeWith readers Directory.asFiles args).run d
    result :: historyWith readers result.2 rest

/-- Runs the program once for each list of arguments, with the standard readers. -/
def history (d : Directory) (arguments : List (List String)) : List (Outcome × Directory) :=
  historyWith .standard d arguments

end Program

end CycleAccounting
