import OutlineLisp.Digest.Sha256
import OutlineLisp.Execution.Run

/-!
# Reports

What running a source text tells: whether it met no fault, all lines, the program if it met no
fault, the warnings and a digest of the text.

## Main definitions

* `Report.ofSource`: the report of a run of a source text.
* `Performance.ofSource`: the lines of such a run, and its program if it met no fault.
* `version`: the version of the language.
-/

namespace OutlineLisp

/-- The version of the language that hosts are told. -/
def version : String := "0.1.0"

/-- What running a source text tells. -/
structure Report where
  success : Bool
  output : List String
  program : Option Node
  warnings : WarningLog
  sourceHash : String

/-- The digest of a source text. -/
def sourceDigest (source : String) : String := Sha256.hexDigest source.toUTF8.toList

namespace Report

/-- The report of a run of a source text. -/
def ofSource (limits : Limits) (source : String) : Report :=
  let reading := Reading.ofSource source
  let run := Run.ofProgram limits reading.program
  { success := run.succeeded
    output := run.transcript
    program := if run.succeeded then some reading.program else none
    warnings := reading.warnings
    sourceHash := sourceDigest source }

end Report

/-- What a run of a source text says, and the program that it leaves. -/
structure Performance where
  lines : List String
  program : Option Node

/-- Run a source text for its lines. The program is left unless a fault was met. -/
def Performance.ofSource (limits : Limits) (source : String) : Performance :=
  let program := (Reading.ofSource source).program
  let run := Run.ofProgram limits program
  match run.outcome with
  | .ok _ => ⟨run.lines, some program⟩
  | .error fault => ⟨run.lines ++ [Run.faultLine fault], none⟩

end OutlineLisp
