/-!
# Diagnostics

Findings that do not stop the accounting.  They are listed in the order of the constructors and
then of their texts.
-/

namespace CycleAccounting

/-- Something in a run or a tree that was left out of account. -/
inductive Diagnostic where
  /-- A critical-path or port counter without an entry in the tables; its cycles stay where they
  were. -/
  | unmappedCounter (counter : String)
  /-- A port counter with the label of no unit; the whole counter is left out. -/
  | unknownUnit (counter unit : String)
  /-- A category that no node of the tree reads. -/
  | unusedKey (category : String)
  deriving DecidableEq, Repr

namespace Diagnostic

/-- The message of a diagnostic. -/
def message : Diagnostic → String
  | unmappedCounter counter => s!"counter '{counter}' is missing from the mapping tables"
  | unknownUnit counter unit =>
    s!"counter '{counter}' names unknown functional unit '{unit}', whole counter skipped"
  | unusedKey category => s!"category '{category}' is not consumed by any tree node"

end Diagnostic

end CycleAccounting
