import ModelRest.Json.Record

/-!
# Diagnoses

What validation finds about an instance. Only findings of the severity `error` make it fail.
-/

namespace ModelRest

/-- How much a finding matters. -/
inductive Severity where
  /-- The instance is not valid. -/
  | error
  /-- The instance is valid but should be looked at. -/
  | warning
  /-- Something worth knowing. -/
  | info
deriving DecidableEq, Inhabited

/-- A finding about an instance. -/
structure Diagnosis where
  /-- How much it matters. -/
  severity : Severity
  /-- What was found. -/
  message : String
  /-- The field it is about, if it is about one. -/
  field : Option String := none
deriving DecidableEq, Inhabited

/-- The name of a severity. -/
def Severity.name : Severity → String
  | .error => "error"
  | .warning => "warning"
  | .info => "info"

/-- Reads a severity. -/
def Severity.ofJson? (v : Json) : Option Severity :=
  match Json.choice? false ["error", "warning", "info"] v with
  | some "error" => some .error
  | some "warning" => some .warning
  | some "info" => some .info
  | _ => none

namespace Diagnosis

/-- The finding makes validation fail. -/
def isError (d : Diagnosis) : Bool := d.severity == .error

/-- An error about a field. -/
def errorAt (field message : String) : Diagnosis :=
  { severity := .error, message := message, field := some field }

/-- The value that stands for a finding. -/
def toJson (d : Diagnosis) : Json := .ofMembers
  ([("severity", .string d.severity.name), ("message", .string d.message)] ++
    match d.field with
    | some field => [("field", .string field)]
    | none => [])

open Json (record? required? default? nullable?) in
/-- Reads a finding. -/
def ofJson? (v : Json) : Option Diagnosis :=
  match record? ["severity", "message", "field"] v with
  | some [severity, message, field] => do
    let severity ← required? Severity.ofJson? severity
    let message ← required? Json.string? message
    let field ← default? none (nullable? Json.string?) field
    pure { severity := severity, message := message, field := field }
  | _ => none

/-- The text of a failed validation: the errors among the findings, one after the other. -/
def summary (diagnoses : List Diagnosis) : String :=
  "validation failed: " ++
    String.intercalate "; " ((diagnoses.filter isError).map Diagnosis.message)

end Diagnosis

end ModelRest
