import CycleAccounting.Options
import CycleAccounting.Reconciliation
import CycleAccounting.Stack

/-!
# Reports

A report is the whole way from a run to numbers: the counters are reconciled, the cores chosen and
perhaps averaged into one, each core's ledger is put through the tree, and the resulting cycles are
projected into the view asked for.
-/

namespace CycleAccounting

/-- The stack of one core of a report. -/
structure Series (α : Type) where
  /-- The core, zero for the mean of several. -/
  core : Nat
  stack : Stack α
  /-- The projected values of the report's names. -/
  values : List α
  /-- The projected total. -/
  total : α

/-- The stacks of the cores of a run. -/
structure Report (α : Type) where
  view : View
  /-- The names shown for any of the cores, in the order of the tree. -/
  names : List String
  series : List (Series α)
  /-- The cores that count in the summary. -/
  summaryCores : List Nat
  /-- Whether the only series is the mean of several cores. -/
  aggregated : Bool
  gauge : Gauge α
  diagnostics : List Diagnostic

/-- Why there is no report. -/
inductive ReportError (α : Type) where
  | options (e : OptionError α)
  | run (e : RunError)

/-- The message of the error. -/
def ReportError.message {α : Type} [DecimalText α] : ReportError α → String
  | options e => s!"configuration error: {e.message}"
  | run e => e.message

/-- The messages of the error and of what caused it, the outermost first. -/
def ReportError.chain {α : Type} [DecimalText α] : ReportError α → List String
  | options e => [(options e).message, e.message]
  | run e => [e.message]

variable {α : Type}

namespace Report

/-- The series of a core. -/
def core? (r : Report α) (core : Nat) : Option (Series α) := r.series.find? (·.core = core)

/-- The projected value of a name on a core. -/
def value? (r : Report α) (core : Nat) (name : String) : Option α := do
  let index ← r.names.idxOf? name
  let series ← r.core? core
  series.values[index]?

/-- The projected totals of all series. -/
def totals (r : Report α) : List α := r.series.map (·.total)

/-- For each name, the mean of its projected values over the cores that count in the summary. -/
def summaryRow [Amount α] (r : Report α) : List α :=
  let summary := r.summaryCores.filterMap r.core?
  (List.range r.names.length).map fun index =>
    Amount.mean (summary.map fun series => Amount.getAt series.values index)

end Report

/-- The categories of some books that a tree does not read, in name order. -/
def Tree.unread (tree : Tree α) (books : Books α) : List String :=
  books.categories.filter (!tree.keys.contains ·)

/-- A diagnostic for each category of some books that a tree does not read. -/
def Tree.unusedKeys (tree : Tree α) (books : Books α) : List Diagnostic :=
  (tree.unread books).map .unusedKey

variable [Amount α]

/-- Which ledgers are shown, and what they are measured with. -/
structure Selection (α : Type) where
  books : Books α
  instructions : List α
  cores : List Nat
  summaryCores : List Nat

/-- The chosen cores themselves. -/
def Reconciliation.eachCore (r : Reconciliation α) (cores summaryCores : List Nat) :
    Selection α where
  books := r.books
  instructions := r.instructions
  cores := cores
  summaryCores := summaryCores

/-- One core in the place of those that count in the summary, their mean in every respect. -/
def Reconciliation.meanCore (r : Reconciliation α) (summaryCores : List Nat) : Selection α where
  books := r.books.meanOver summaryCores
  instructions := [Amount.mean (summaryCores.map (Amount.getAt r.instructions))]
  cores := [0]
  summaryCores := [0]

/-- The selection that options make of reconciled cores. -/
def Reconciliation.select (r : Reconciliation α) (ncores : Nat) (options : Options α) :
    Selection α :=
  let selected := options.selectedCores ncores
  let summary :=
    r.books.summaryCores selected r.basis.referenceCycles options.minComputeFraction
  if options.aggregate then r.meanCore summary else r.eachCore selected summary

namespace Report

/-- The report of reconciled cores. -/
def ofReconciliation (r : Reconciliation α) (ncores : Nat) (tree : Tree α) (options : Options α) :
    Report α :=
  let selection := r.select ncores options
  let shown := selection.cores.map fun core =>
    (core, tree.stackOf options.collapse selection.books core)
  let names := tree.shownNames (shown.map (·.2))
  let gauge : Gauge α := ⟨r.basis, selection.instructions⟩
  { view := options.view
    names
    series := shown.map fun (core, stack) =>
      { core
        stack
        values := (stack.aligned names).map (gauge.project options.view · core)
        total := gauge.project options.view stack.total core }
    summaryCores := selection.summaryCores
    aggregated := options.aggregate
    gauge
    diagnostics := r.diagnostics ++ tree.unusedKeys r.books }

/-- The report of a run through a tree.  Options are checked first, by themselves and then against
the run; what is wrong with the run comes after that. -/
def compute (tables : Tables α) (run : Run α) (tree : Tree α) (options : Options α) :
    Except (ReportError α) (Report α) := do
  options.validate.mapError .options
  (options.validateCores run.ncores).mapError .options
  let reconciled ← (run.reconcile tables).mapError .run
  return ofReconciliation reconciled run.ncores tree options

/-- The report of a run with the standard tables and the built-in tree that the options choose. -/
def computeBuiltIn (run : Run α) (options : Options α) : Except (ReportError α) (Report α) :=
  compute .standard run options.treeVariant.tree options

end Report

end CycleAccounting
