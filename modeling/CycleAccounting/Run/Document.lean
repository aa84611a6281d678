import CycleAccounting.Document
import CycleAccounting.Json.Value
import CycleAccounting.Run

/-!
# Runs from documents

A results document is a JSON object with the configuration, texts by name, and the results, lists
of numbers by name.  Either may be missing and anything else in the object is ignored, but neither
may be given twice.  Instead of an object the document may be an array of the two.
-/

namespace CycleAccounting.Run

/-- The configuration and the results of a document. -/
structure Fields where
  config : Catalog String
  results : Catalog (List Double)

/-- Reads an object whose members are all of one kind; of two with one name the later counts. -/
def catalog? {β : Type} (member? : Json.Value → Option β) (v : Json.Value) :
    Option (Catalog β) := do
  let members ← v.members?
  return .ofList (← members.mapM fun (name, v) => (member? v).map (name, ·))

/-- Reads the configuration, empty if it is missing. -/
def config? : Option Json.Value → Option (Catalog String)
  | some v => catalog? Json.Value.text? v
  | none => some .empty

/-- Reads the results, empty if they are missing. -/
def results? : Option Json.Value → Option (Catalog (List Double))
  | some v => catalog? (fun v => do (← v.items?).mapM Json.Value.double?) v
  | none => some .empty

/-- The values of the members with a name. -/
def valuesOf (name : String) (members : List (String × Json.Value)) : List Json.Value :=
  (members.filter (·.1 = name)).map (·.2)

/-- Reads the two fields of a document. -/
def Fields.ofJson? (v : Json.Value) : Option Fields :=
  match v with
  | .object _ => do
    let members ← v.members?
    let config := valuesOf "config" members
    let results := valuesOf "results" members
    if 1 < config.length || 1 < results.length then none
    else return ⟨← config? config.head?, ← results? results.head?⟩
  | .array [] => do return ⟨← config? none, ← results? none⟩
  | .array [config] => do return ⟨← config? config, ← results? none⟩
  | .array [config, results] => do return ⟨← config? config, ← results? results⟩
  | _ => none

/-- Reads a run from a results document. -/
def ofJson (text : String) : Except (DocumentError RunError) (Run Double) := do
  let v ← orFault .results .malformed (Json.Value.parse? text)
  let fields ← orFault .results .unexpectedShape (Fields.ofJson? v)
  (ofConfig fields.config fields.results).mapError .refused

end CycleAccounting.Run
