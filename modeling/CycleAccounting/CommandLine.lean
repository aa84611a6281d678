import CycleAccounting.Options
import CycleAccounting.Text.Pieces

/-!
# Command lines

A command line names the results of a run and overrides options.  Arguments are read from the left.
A value that stands in an argument of its own is only looked at when the next setting begins or the
line ends, so that an argument that no setting knows is reported before a bad value in front of it.
Conflicts between settings and missing settings are reported last.
-/

namespace CycleAccounting

/-- What can be set on a command line. -/
inductive Setting where
  | results
  | cpi
  | time
  | abstime
  | simplified
  | noCollapse
  | noSimpleMem
  | simpleSync
  | aggregate
  | cores
  | minCompute
  | tree
  | config
  | csv
  | csvHeader
  | jobName
  | debug
  | help
  | version
  deriving DecidableEq, Repr

namespace Setting

/-- The long names. -/
def longNames : List (String × Setting) :=
  [("results", results), ("cpi", cpi), ("time", time), ("abstime", abstime),
   ("simplified", simplified), ("no-collapse", noCollapse), ("no-simple-mem", noSimpleMem),
   ("simple-sync", simpleSync), ("aggregate", aggregate), ("cores", cores),
   ("min-compute", minCompute), ("tree", tree), ("config", config), ("csv", csv),
   ("csv-header", csvHeader), ("job-name", jobName), ("debug", debug), ("help", help),
   ("version", version)]

/-- The short names. -/
def shortNames : List (Char × Setting) := [('d', results), ('h', help), ('V', version)]

/-- Whether a value belongs to the setting. -/
def takesValue (s : Setting) : Bool :=
  [results, cores, minCompute, tree, config, csv, jobName].contains s

/-- The settings that may not stand together. -/
def conflicts : List (Setting × Setting) := [(cpi, time), (cpi, abstime), (time, abstime)]

end Setting

/-- Why a command line is not carried out. -/
inductive UsageError where
  /-- An argument that is neither a setting nor the value of one. -/
  | unknownArgument
  /-- A value is missing, or is empty where a file must be named. -/
  | missingValue
  /-- A value is attached to a setting that takes none. -/
  | unneededValue
  /-- A value cannot be read. -/
  | unreadableValue
  /-- Settings are repeated or stand against each other. -/
  | conflict
  /-- A setting that is needed is not there. -/
  | missingSetting
  | helpRequested
  | versionRequested
  deriving DecidableEq, Repr

/-- What a command line asks for. -/
structure CommandLine where
  /-- The file with the results of the run. -/
  results : String
  /-- A file with a tree of its own. -/
  tree : Option String
  /-- A file with options. -/
  config : Option String
  /-- The file that the summary row is appended to. -/
  csv : Option String
  /-- The label of the row. -/
  jobName : String
  cores : Option (List Nat)
  minCompute : Option Double
  /-- The settings without a value that are given. -/
  flags : List Setting

namespace CommandLine

/-- Whether a setting without a value is given. -/
def has (line : CommandLine) (flag : Setting) : Bool := line.flags.contains flag

/-! ## Reading arguments -/

/-- What has been read of a command line. -/
structure Draft where
  line : CommandLine
  /-- The settings that have been taken over. -/
  seen : List Setting
  /-- A setting with the value behind it, if there is one yet. -/
  pending : Option (Setting × Option String)
  /-- Behind the argument that ends all settings. -/
  ended : Bool

namespace Draft

/-- Nothing has been read. -/
def start : Draft where
  line := ⟨"", none, none, none, "", none, none, []⟩
  seen := []
  pending := none
  ended := false

/-- Reads the name of a file, which is not empty. -/
def file (value : String) : Except UsageError String :=
  if value = "" then .error .missingValue else .ok value

/-- Passes a value on that could be read. -/
def readable {β : Type} : Option β → Except UsageError β
  | some v => .ok v
  | none => .error .unreadableValue

/-- Reads a list of cores with commas between them. -/
def coreList (value : String) : Except UsageError (List Nat) :=
  readable ((Text.pieces ',' value.toList).mapM Decimal.count?)

/-- Takes over a setting with its value.  Only a list of cores may be given more than once, and
then adds to the cores before it. -/
def store (d : Draft) (s : Setting) (value : String) : Except UsageError Draft := do
  if s ≠ .cores && d.seen.contains s then throw .conflict
  let line ← match s with
    | .results => do pure { d.line with results := ← file value }
    | .tree => do pure { d.line with tree := some (← file value) }
    | .config => do pure { d.line with config := some (← file value) }
    | .csv => do pure { d.line with csv := some (← file value) }
    | .jobName => pure { d.line with jobName := value }
    | .cores => do
      pure { d.line with cores := some (d.line.cores.getD [] ++ (← coreList value)) }
    | .minCompute => do
      pure { d.line with minCompute := some (← readable (Decimal.readNumber? value.toList)) }
    | flag => pure { d.line with flags := flag :: d.line.flags }
  return { d with line, seen := s :: d.seen }

/-- Takes over the pending setting. -/
def settle (d : Draft) : Except UsageError Draft :=
  match d.pending with
  | none => .ok d
  | some (_, none) => .error .missingValue
  | some (s, some value) => { d with pending := none }.store s value

/-- Begins a setting, perhaps with a value attached to it. -/
def begin (d : Draft) (s : Setting) (attached : Option String) : Except UsageError Draft := do
  if s.takesValue then
    let d ← d.settle
    match attached with
    | some value => d.store s value
    | none => return { d with pending := some (s, none) }
  else
    if attached.isSome then throw .unneededValue
    let d ← d.settle
    match s with
    | .help => throw .helpRequested
    | .version => throw .versionRequested
    | _ => d.store s ""

/-- Reads an argument behind two hyphens: a name, and a value behind an equals sign. -/
def long (d : Draft) (text : List Char) : Except UsageError Draft :=
  let (name, attached) := match Text.cut? ['='] text with
    | some (name, value) => (name, some (String.ofList value))
    | none => (text, none)
  match Setting.longNames.lookup (String.ofList name) with
  | some s => d.begin s attached
  | none => .error .unknownArgument

/-- Reads an argument behind one hyphen.  What follows the letter is its value, an equals sign in
front of it left out; what follows a letter without a value is never reached. -/
def short (d : Draft) (letter : Char) (rest : List Char) : Except UsageError Draft :=
  match Setting.shortNames.lookup letter with
  | some s =>
    if s.takesValue then
      d.begin s (match rest with
        | [] => none
        | '=' :: value => some (String.ofList value)
        | value => some (String.ofList value))
    else d.begin s none
  | none => .error .unknownArgument

/-- Reads an argument that names no setting. -/
def plain (d : Draft) (value : String) : Except UsageError Draft :=
  match d.pending with
  | some (s, none) => .ok { d with pending := some (s, some value) }
  | _ => .error .unknownArgument

/-- Reads one argument. -/
def argument (d : Draft) (arg : String) : Except UsageError Draft :=
  if d.ended then .error .unknownArgument
  else
    match arg.toList with
    | ['-', '-'] => .ok { d with ended := true }
    | '-' :: '-' :: text => d.long text
    | ['-'] => d.plain arg
    | '-' :: letter :: rest => d.short letter rest
    | _ => d.plain arg

end Draft

/-- Reads a command line. -/
def parse (args : List String) : Except UsageError CommandLine := do
  let d ← (← args.foldlM Draft.argument Draft.start).settle
  if Setting.conflicts.any fun (s, t) => d.seen.contains s && d.seen.contains t then
    throw .conflict
  if !d.seen.contains .results then throw .missingSetting
  if d.seen.contains .csvHeader && !d.seen.contains .csv then throw .missingSetting
  return d.line

/-! ## Options -/

/-- The view that is asked for. -/
def view? (line : CommandLine) : Option View :=
  if line.has .cpi then some .cpi
  else if line.has .abstime then some .absTime
  else if line.has .time then some .time
  else none

/-- The options with those of the command line in the place of the given ones. -/
def options (line : CommandLine) (base : Options Double) : Options Double where
  view := line.view?.getD base.view
  simplified := line.has .simplified || base.simplified
  memory := if line.has .noSimpleMem then .withNeighbors else base.memory
  sync := if line.has .simpleSync then .flat else base.sync
  collapse := !line.has .noCollapse && base.collapse
  cores := line.cores.or base.cores
  minComputeFraction := line.minCompute.or base.minComputeFraction
  aggregate := line.has .aggregate || base.aggregate

end CommandLine

end CycleAccounting
