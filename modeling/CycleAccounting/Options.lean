import CycleAccounting.Tree.BuiltIn
import CycleAccounting.View

/-!
# Options

What a report shows: the view, the tree, the cores, and which of them count in the summary.
-/

namespace CycleAccounting

/-- What is wrong with options. -/
inductive OptionError (α : Type) where
  /-- The least compute fraction is above one or not a finite number. -/
  | fractionTooLarge (fraction : α)
  /-- The core filter lets no core through. -/
  | emptyCoreFilter
  /-- The core filter names a core that the run does not have. -/
  | coreOutOfRange (core ncores : Nat)

/-- The message of the error. -/
def OptionError.message {α : Type} [DecimalText α] : OptionError α → String
  | fractionTooLarge fraction =>
    s!"invalid option: min_compute_fraction must be at most 1, got {DecimalText.shortest fraction}"
  | emptyCoreFilter => "invalid option: core filter must name at least one core"
  | coreOutOfRange core ncores => s!"core index {core} out of range for a run with {ncores} cores"

/-- The options of a report. -/
structure Options (α : Type) where
  view : View
  /-- Gather the built-in tree into its groups. -/
  simplified : Bool
  memory : MemoryDetail
  sync : SyncDetail
  /-- Show what does not reach its threshold in remainders only. -/
  collapse : Bool
  /-- The cores to show, all of them if not given. -/
  cores : Option (List Nat)
  /-- Cores whose idle cycles leave less than this part of core 0's budget do not count in the
  summary. -/
  minComputeFraction : Option α
  /-- Show the mean of the cores instead of each. -/
  aggregate : Bool

namespace Options

variable {α : Type} [Amount α]

/-- The options that hold where none are given. -/
def standard : Options α where
  view := .time
  simplified := false
  memory := .cacheLevel
  sync := .detailed
  collapse := true
  cores := none
  minComputeFraction := some (Amount.ofNat 1 / Amount.ofNat 2)
  aggregate := false

/-- Whether a least compute fraction makes sense. -/
def isFraction (fraction : α) : Bool :=
  Amount.isFinite fraction && !Amount.less (Amount.ofNat 1) fraction

/-- Checks the options by themselves. -/
def validate (o : Options α) : Except (OptionError α) Unit :=
  match o.minComputeFraction, o.cores with
  | some fraction, cores =>
    if !isFraction fraction then .error (.fractionTooLarge fraction)
    else if cores = some [] then .error .emptyCoreFilter
    else .ok ()
  | none, cores => if cores = some [] then .error .emptyCoreFilter else .ok ()

omit [Amount α] in
/-- Checks that a run has the cores that the filter names. -/
def validateCores (o : Options α) (ncores : Nat) : Except (OptionError α) Unit :=
  match (o.cores.getD []).find? (ncores ≤ ·) with
  | some core => .error (.coreOutOfRange core ncores)
  | none => .ok ()

omit [Amount α] in
/-- The cores to show, in increasing order and without repetitions. -/
def selectedCores (o : Options α) (ncores : Nat) : List Nat :=
  match o.cores with
  | some cores => (List.range ncores).filter cores.contains
  | none => List.range ncores

omit [Amount α] in
/-- The built-in tree that the options choose. -/
def treeVariant (o : Options α) : TreeVariant := ⟨o.simplified, o.memory, o.sync⟩

end Options

end CycleAccounting
