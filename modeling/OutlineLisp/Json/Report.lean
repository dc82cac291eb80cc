import OutlineLisp.Execution.Report
import OutlineLisp.Json.Node
import OutlineLisp.Json.Reader

/-!
# Reports in JSON

The values that hosts exchange: limits, warnings, readings and reports. What is read back is taken
as it stands; nothing is derived again from other parts.

## Main definitions

* `Limits.toJson`, `Limits.ofJson?`: limits.
* `Warning.toJson`, `Warning.ofJson?`, `WarningLog.toJson`, `WarningLog.ofJson?`: warnings.
* `Reading.toJson`: readings.
* `Report.toJson`, `Report.ofJson?`: reports.
-/

namespace OutlineLisp

/-- The text of a value as a string. -/
def Json.writeString (j : Json) : String := String.ofList j.write

namespace Limits

/-- Limits as a JSON value. -/
def toJson (l : Limits) : Json :=
  .ofMembers [("gas_limit", .ofNat l.steps), ("max_call_depth", .ofNat l.calls)]

/-- A limit under its key. Without the key it is the default. -/
def limitUnder? (fields : Json.Fields) (key : String) (default : Nat) : Option Nat :=
  match fields.lookup key with
  | some j => j.toCount? UInt64.size
  | none => some default

/-- The limits that a JSON value writes. -/
def ofJson? (j : Json) : Option Limits := do
  let fields ← j.fields? ["gas_limit", "max_call_depth"]
  let steps ← limitUnder? fields "gas_limit" ({} : Limits).steps
  let calls ← limitUnder? fields "max_call_depth" ({} : Limits).calls
  return { steps, calls }

end Limits

namespace WarningCategory

/-- The category with a name. -/
def ofTag? (s : String) : Option WarningCategory :=
  [wording, arrangement].find? fun c => c.display = s

end WarningCategory

namespace Warning

/-- A warning as a JSON value. -/
def toJson (w : Warning) : Json :=
  .ofMembers
    [("file", .ofString w.file), ("code", .ofNat w.code.toNat),
      ("category", .ofString w.category.display), ("message", .ofString w.message),
      ("line", .ofNat w.span.startLine.toNat), ("column", .ofNat w.span.startColumn.toNat),
      ("end_line", .ofNat w.span.endLine.toNat), ("end_column", .ofNat w.span.endColumn.toNat),
      ("source_line", .ofString w.sourceLine)]

/-- The keys of a warning. -/
def keys : List String :=
  ["file", "code", "category", "message", "line", "column", "end_line", "end_column",
    "source_line"]

/-- The warning that a JSON value writes. All keys are required, and even what stands under other
keys must mean something. -/
def ofJson? (round : Rounding) (j : Json) : Option Warning := do
  if j.isPlain round then
    let fields ← j.fields? keys
    let file ← (← fields.lookup "file").toText?
    let code ← (← fields.lookup "code").toUInt16?
    let category ← WarningCategory.ofTag? (← (← fields.lookup "category").toTag?)
    let message ← (← fields.lookup "message").toText?
    let startLine ← (← fields.lookup "line").toUInt32?
    let startColumn ← (← fields.lookup "column").toUInt32?
    let endLine ← (← fields.lookup "end_line").toUInt32?
    let endColumn ← (← fields.lookup "end_column").toUInt32?
    let sourceLine ← (← fields.lookup "source_line").toText?
    return { file, code, category, message, sourceLine,
             span := { startLine, startColumn, endLine, endColumn } }
  else none

end Warning

namespace WarningLog

/-- A log as a JSON value. -/
def toJson (log : WarningLog) : Json :=
  .ofMembers
    [("warnings", .array (log.stored.map Warning.toJson)),
      ("total_warnings", .ofNat log.total.toNat)]

/-- The log that a JSON value writes. -/
def ofJson? (round : Rounding) (j : Json) : Option WarningLog := do
  let fields ← j.fields? ["warnings", "total_warnings"]
  let items ← (← fields.lookup "warnings").toItems?
  let stored ← Json.mapItems? (Warning.ofJson? round) items
  let total ← (← fields.lookup "total_warnings").toUInt64?
  return { stored, total }

end WarningLog

/-- A reading as a JSON value. -/
def Reading.toJson (r : Reading) : Json :=
  .ofMembers [("ast", r.program.toJson), ("warnings", r.warnings.toJson)]

namespace Report

/-- The program of a report as a JSON value: null if there is none. -/
def programToJson : Option Node → Json
  | some n => n.toJson
  | none => .null

/-- The program of a report that a JSON value writes. Null, or no value at all, is no program. -/
def programOfJson? (round : Rounding) : Option Json → Option (Option Node)
  | none => some none
  | some .null => some none
  | some j => (Node.ofJson? round j).map some

/-- A report as a JSON value. -/
def toJson (r : Report) : Json :=
  .ofMembers
    [("success", .bool r.success), ("output", .array (r.output.map Json.ofString)),
      ("ast", programToJson r.program), ("warnings", r.warnings.toJson),
      ("source_hash", .ofString r.sourceHash)]

/-- The report that a JSON value writes. -/
def ofJson? (round : Rounding) (j : Json) : Option Report := do
  let fields ← j.fields? ["success", "output", "ast", "warnings", "source_hash"]
  let success ← (← fields.lookup "success").toBool?
  let items ← (← fields.lookup "output").toItems?
  let output ← Json.mapItems? Json.toText? items
  let program ← programOfJson? round (fields.lookup "ast")
  let warnings ← WarningLog.ofJson? round (← fields.lookup "warnings")
  let sourceHash ← (← fields.lookup "source_hash").toText?
  return { success, output, program, warnings, sourceHash }

end Report

end OutlineLisp
