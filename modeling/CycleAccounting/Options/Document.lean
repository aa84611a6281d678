import CycleAccounting.Document
import CycleAccounting.Options
import CycleAccounting.Toml.Document

/-!
# Options from documents

Options are given in TOML, each under its own name; what is left out keeps its standard value and
no other name is allowed.
-/

namespace CycleAccounting.Options

/-- Reads one option into options. -/
def set? (o : Options Double) (name : String) (v : Toml.Value) : Option (Options Double) :=
  match name with
  | "view" => (v.keyword?.bind View.ofWord?).map fun x => { o with view := x }
  | "simplified" => v.bool?.map fun x => { o with simplified := x }
  | "memory" => (v.keyword?.bind MemoryDetail.ofWord?).map fun x => { o with memory := x }
  | "sync" => (v.keyword?.bind SyncDetail.ofWord?).map fun x => { o with sync := x }
  | "collapse" => v.bool?.map fun x => { o with collapse := x }
  | "cores" => do
    let cores ← (← v.items?).mapM (·.count?)
    return { o with cores := some cores }
  | "min_compute_fraction" => v.float?.map fun x => { o with minComputeFraction := some x }
  | "aggregate" => v.bool?.map fun x => { o with aggregate := x }
  | _ => none

/-- Reads options from a document and checks them. -/
def ofToml (text : String) : Except (DocumentError (OptionError Double)) (Options Double) := do
  let members ← orFault .options .malformed (Toml.Document.parse? text)
  let o ← orFault .options .unexpectedShape
    (members.foldlM (fun o (name, v) => o.set? name v) standard)
  o.validate.mapError .refused
  return o

end CycleAccounting.Options
