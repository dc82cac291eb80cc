import OutlineLisp.Json.Report
import OutlineLisp.Proofs.Json.Node
import OutlineLisp.Proofs.Tree.WellFormed

/-!
# Reports in data exchange

A report is written with all that it says. It is read back as it was, but for the places of its
program, if the program's numbers are finite. Every report of a run meets this, since the numbers of
a program that was read are finite, and so does every report that is read. So whatever has been read
once can be passed on any number of times.

A reader of texts is assumed here that takes the nearest number for every numeral and goes into any
number of levels.

## Main definitions

* `Report.Finite`, `Report.unplaced`: reports with finite numbers, and without the places of their
  programs.
* `Report.write`, `Report.read?`: the text of a report, and the report of a text.

## Main results

* `Warning.ofJson?_toJson`: warnings are read back, whatever they say.
* `Report.read?_write`: reports are read back.
-/

namespace OutlineLisp

/-- One of several parts is found, and the rest is read with it. -/
theorem Json.found {α β : Type} {part : Option α} {a : α} {rest : α → Option β} {b : β}
    (hpart : part = some a) (hrest : rest a = some b) : part >>= rest = some b := by
  rw [hpart]
  exact hrest

/-! ### Warnings -/

open Json (found)

theorem WarningCategory.ofTag?_display (c : WarningCategory) : ofTag? c.display = some c := by
  cases c <;> decide

namespace Warning

theorem writable_toJson (w : Warning) : w.toJson.Writable := by
  refine Json.writable_ofMembers ?_
  simp [Json.writable_ofString, Json.writable_ofNat]

/-- A warning is made of texts and counts, which all mean something. -/
theorem isPlain_toJson (w : Warning) : w.toJson.isPlain .nearest = true := by
  have hstring (s : String) : (Json.ofString s).isPlain .nearest = true := rfl
  have hcount {n : Nat} (h : n < UInt64.size) : (Json.ofNat n).isPlain .nearest = true :=
    Json.isSome_toFloat?_ofNat h
  have hcode : (Json.ofNat w.code.toNat).isPlain .nearest = true :=
    hcount (Nat.lt_trans w.code.toNat_lt_size (by decide))
  have hword (n : UInt32) : (Json.ofNat n.toNat).isPlain .nearest = true :=
    hcount (Nat.lt_trans n.toNat_lt_size (by decide))
  refine Json.isPlain_ofMembers ?_
  simp only [List.forall_mem_cons]
  exact ⟨hstring _, hcode, hstring _, hstring _, hword _, hword _, hword _, hword _, hstring _,
    by rintro m ⟨⟩⟩

/-- **Warnings are read back,** whatever they say. -/
theorem ofJson?_toJson (w : Warning) : ofJson? .nearest w.toJson = some w := by
  have hfields : w.toJson.fields? keys = some _ :=
    Json.fields?_ofMembers (by simp [keys]) (by simp)
  rw [ofJson?, if_pos w.isPlain_toJson]
  refine found hfields ?_
  refine found rfl (found (Json.toText?_ofString _) ?_)
  refine found rfl (found (Json.toUInt16?_ofNat _) ?_)
  refine found rfl (found (Json.toTag?_ofString _) (found w.category.ofTag?_display ?_))
  refine found rfl (found (Json.toText?_ofString _) ?_)
  refine found rfl (found (Json.toUInt32?_ofNat _) ?_)
  refine found rfl (found (Json.toUInt32?_ofNat _) ?_)
  refine found rfl (found (Json.toUInt32?_ofNat _) ?_)
  refine found rfl (found (Json.toUInt32?_ofNat _) ?_)
  refine found rfl (found (Json.toText?_ofString _) ?_)
  rfl

end Warning

namespace WarningLog

theorem writable_toJson (log : WarningLog) : log.toJson.Writable := by
  refine Json.writable_ofMembers ?_
  simp [Json.writable_ofNat, Json.writable_array_map fun w _ => Warning.writable_toJson w]

theorem ofJson?_toJson (log : WarningLog) : ofJson? .nearest log.toJson = some log := by
  have hfields : log.toJson.fields? ["warnings", "total_warnings"] = some _ :=
    Json.fields?_ofMembers (by simp) (by simp)
  have hstored : Json.mapItems? (Warning.ofJson? .nearest) (log.stored.map Warning.toJson)
      = some log.stored := Json.mapItems?_map fun w _ => w.ofJson?_toJson
  refine found hfields ?_
  refine found rfl (found rfl (found hstored ?_))
  refine found rfl (found (Json.toUInt64?_ofNat _) ?_)
  rfl

end WarningLog

/-! ### Reports -/

namespace Report

/-- Whether all numbers in the program of a report are finite. -/
def Finite (r : Report) : Prop := ∀ n ∈ r.program, n.Finite

/-- A report without the places of its program. -/
def unplaced (r : Report) : Report := { r with program := r.program.map Node.unplaced }

theorem programOfJson?_programToJson {program : Option Node} (h : ∀ n ∈ program, n.Finite) :
    programOfJson? .nearest (some (programToJson program)) = some (program.map Node.unplaced) := by
  cases program with
  | none => rfl
  | some n =>
    have hn := Node.ofJson?_toJson (h n rfl)
    rw [Node.toJson_eq] at hn
    rw [programToJson, Node.toJson_eq]
    show (Node.ofJson? .nearest _).map some = _
    rw [hn]
    rfl

theorem writable_programToJson (program : Option Node) : (programToJson program).Writable := by
  cases program with
  | none => exact .null
  | some n => exact n.writable_toJson

theorem writable_toJson (r : Report) : r.toJson.Writable := by
  refine Json.writable_ofMembers ?_
  simp [Json.writable_ofString, writable_programToJson, WarningLog.writable_toJson,
    Json.writable_array_map fun s _ => Json.writable_ofString s, Json.Writable.bool]

/-- A report is read back from its value without the places of its program. -/
theorem ofJson?_toJson {r : Report} (h : r.Finite) :
    ofJson? .nearest r.toJson = some r.unplaced := by
  have hfields : r.toJson.fields? ["success", "output", "ast", "warnings", "source_hash"]
      = some _ :=
    Json.fields?_ofMembers (by simp) (by simp)
  have houtput : Json.mapItems? Json.toText? (r.output.map Json.ofString) = some r.output :=
    Json.mapItems?_map fun s _ => Json.toText?_ofString s
  refine found hfields ?_
  refine found rfl (found rfl ?_)
  refine found rfl (found rfl (found houtput ?_))
  refine found (programOfJson?_programToJson h) ?_
  refine found rfl (found r.warnings.ofJson?_toJson ?_)
  refine found rfl (found (Json.toText?_ofString _) ?_)
  rfl

/-! ### What is read -/

theorem exchanged_of_programOfJson? {round : Rounding} {j : Option Json} {program : Option Node}
    (h : programOfJson? round j = some program) :
    ∀ n ∈ program, n.Finite ∧ n.unplaced = n := by
  rw [programOfJson?.eq_def] at h
  split at h
  · cases h
    rintro n ⟨⟩
  · cases h
    rintro n ⟨⟩
  · obtain ⟨m, hm, rfl⟩ := Option.map_eq_some_iff.1 h
    rintro n ⟨⟩
    exact ⟨Node.finite_of_ofJson? hm, Node.unplaced_of_ofJson? hm⟩

theorem exchanged_of_ofJson? {round : Rounding} {j : Json} {r : Report}
    (h : ofJson? round j = some r) : r.Finite ∧ r.unplaced = r := by
  simp only [ofJson?, Option.bind_eq_bind, Option.bind_eq_some_iff, Option.pure_def,
    Option.some.injEq] at h
  obtain ⟨fields, -, -, -, success, -, -, -, items, -, output, -, program, hprogram, -, -, warnings,
    -, -, -, hash, -, rfl⟩ := h
  have hexchanged := exchanged_of_programOfJson? hprogram
  refine ⟨fun n hn => (hexchanged n hn).1, ?_⟩
  have hunplaced : program.map Node.unplaced = program := by
    cases program with
    | none => rfl
    | some n => rw [Option.map_some, (hexchanged n rfl).2]
  rw [unplaced, hunplaced]

end Report

/-! ### Reports of runs -/

namespace Node

theorem finite_of_wellFormed {kind : NodeKind} {value : Option Atom}
    (h : Item.WellFormed kind value) : ∀ a ∈ value, a.Finite := by
  rintro a ⟨⟩
  cases h with
  | name | text => exact trivial
  | number hfinite => exact hfinite

/-- The numbers of a well-formed program are finite. -/
theorem WellFormed.finite {p : Node} (h : p.WellFormed) : p.Finite := by
  refine (finite_iff p).2 ⟨?_, finiteAll_of_forall fun d hd => ?_⟩
  · rw [h.value]
    rintro a ⟨⟩
  · have hdefinition := h.definitions d hd
    obtain ⟨name, hname, -⟩ := hdefinition.name
    refine (finite_iff d).2 ⟨?_, fun n hn => finite_of_wellFormed (hdefinition.items n hn)⟩
    rw [hname]
    rintro a ⟨⟩
    exact trivial

end Node

namespace Report

theorem finite_ofSource (limits : Limits) (source : String) : (ofSource limits source).Finite := by
  intro n hn
  dsimp only [ofSource] at hn
  split at hn
  · obtain rfl := Option.some.inj hn
    exact (Reading.wellFormed_ofDocument _).finite
  · cases hn

/-! ### Texts -/

/-- The text of a report. -/
def write (r : Report) : String := r.toJson.writeString

/-- The report that a text writes, with the nearest number for every numeral and no limit on the
levels of arrays and objects. -/
def read? (text : String) : Option Report := (Json.ofText? text.toList).bind (ofJson? .nearest)

theorem read?_write_of_finite {r : Report} (h : r.Finite) : read? r.write = some r.unplaced := by
  rw [read?, write, Json.writeString, String.toList_ofList, Json.ofText?_write r.writable_toJson,
    Option.bind_some, ofJson?_toJson h]

theorem exchanged_of_read? {text : String} {r : Report} (h : read? text = some r) :
    r.Finite ∧ r.unplaced = r := by
  obtain ⟨j, -, hj⟩ := Option.bind_eq_some_iff.1 h
  exact exchanged_of_ofJson? hj

/-- **Reports are read back** as they were, but for the places of their programs, if the numbers of
the program are finite. Every report of a run has finite numbers; and what has been read is read
back again as just what it is. -/
theorem read?_write :
    (∀ r : Report, r.Finite → read? r.write = some r.unplaced) ∧
      (∀ limits source, (ofSource limits source).Finite) ∧
      ∀ text r, read? text = some r → read? r.write = some r := by
  refine ⟨fun r hr => read?_write_of_finite hr, finite_ofSource, fun text r hread => ?_⟩
  obtain ⟨hfinite, hunplaced⟩ := exchanged_of_read? hread
  rw [read?_write_of_finite hfinite, hunplaced]

/-- A report of a run that no source text has: a text that looks like a number stands beside a
negative zero, a node has no value, and a warning has codes and places at random. -/
def motley : Report :=
  { success := false
    output := ["", "\u0000\x22\\/😀\u007f", "5"]
    program := some
      { kind := .program, indent := 7, span := .point 3 4
        children :=
          [{ kind := .literal, value := some (.text "5"), indent := 1 },
            { kind := .literal, value := some (.number Number.negativeZero), span := .point 0 9 },
            { kind := .expression, children := [{ kind := .symbol, value := some (.text "") }] }] }
    warnings :=
      { stored := [⟨"a\tb", 65535, .arrangement, "", ⟨4294967295, 0, 1, 2⟩, "# "⟩], total := 7 }
    sourceHash := "none" }

/-- The motley report as it is read back. -/
def motleyUnplaced : Report :=
  { motley with
    program := some
      { kind := .program
        children :=
          [{ kind := .literal, value := some (.text "5") },
            { kind := .literal, value := some (.number Number.negativeZero) },
            { kind := .expression
              children := [{ kind := .symbol, value := some (.text "") }] }] } }

theorem read?_write_motley :
    motley.Finite ∧ read? motley.write = some motleyUnplaced ∧
      read? motleyUnplaced.write = some motleyUnplaced := by
  have hzero : Number.negativeZero.isFinite = true := Binary64.isFinite_ofCode true (by decide)
  have hfinite : motley.Finite := by
    rintro n ⟨⟩
    simp [Node.Finite, Node.walk, Node.walkAll, Atom.Finite, hzero]
  have hread : read? motley.write = some motleyUnplaced := read?_write.1 motley hfinite
  exact ⟨hfinite, hread, read?_write.2.2 _ _ hread⟩

end Report

end OutlineLisp
