import OutlineLisp.Source.Span

/-!
# Warnings

Reading an outline never fails: what does not fit is tolerated and reported. A warning has a numeric
code, whose range decides the category, and shows the line that it is about. A log keeps the first
twenty warnings and counts all of them.

## Main definitions

* `Warning.make`: a warning whose category is that of its code.
* `WarningLog.push`, `WarningLog.ofList`: a log after one more warning, and of given warnings.

## Main results

* `WarningLog.foldl_push`: pushing warnings one by one gives the log of all of them.
-/

namespace OutlineLisp

/-- The kind of problem that a warning reports. -/
inductive WarningCategory where
  /-- A single line is not well formed. -/
  | wording
  /-- Lines do not fit together. -/
  | arrangement
  deriving DecidableEq, Repr

namespace WarningCategory

/-- The category of a code. Codes outside the range of the second category have the first. -/
def ofCode (code : UInt16) : WarningCategory :=
  if 200 ≤ code ∧ code ≤ 299 then arrangement else wording

/-- The name of a category. -/
def display : WarningCategory → String
  | wording => "syntax"
  | arrangement => "structure"

end WarningCategory

namespace WarningCode

/-- A bullet stands before the first heading. -/
def strayBullet : UInt16 := 100

/-- A heading names nothing. -/
def unnamedHeading : UInt16 := 101

/-- A heading has no bullets. -/
def emptyDefinition : UInt16 := 200

/-- A code as users see it. -/
def display (code : UInt16) : String := "E" ++ toString code.toNat

end WarningCode

/-- A tolerated problem of a document. -/
structure Warning where
  file : String
  code : UInt16
  category : WarningCategory
  message : String
  span : Span
  /-- The line that the warning is about. -/
  sourceLine : String
  deriving DecidableEq, Repr

namespace Warning

/-- A warning whose category is that of its code. -/
def make (file : String) (code : UInt16) (message : String) (span : Span) (sourceLine : String) :
    Warning :=
  { file, code, category := .ofCode code, message, span, sourceLine }

/-- A warning as users see it. -/
def display (w : Warning) : String :=
  w.span.display ++ ": " ++ WarningCode.display w.code ++ " [" ++ w.category.display ++ "] "
    ++ w.message

end Warning

/-- The warnings about one document. -/
structure WarningLog where
  /-- The warnings that are kept. -/
  stored : List Warning := []
  /-- How many warnings there were. -/
  total : UInt64 := 0
  deriving DecidableEq, Repr

namespace WarningLog

/-- How many warnings a log keeps. -/
def capacity : Nat := 20

/-- A log after one more warning. -/
def push (log : WarningLog) (w : Warning) : WarningLog :=
  { stored := if log.stored.length < capacity then log.stored ++ [w] else log.stored
    total := log.total + 1 }

/-- The log of given warnings. -/
def ofList (ws : List Warning) : WarningLog :=
  { stored := ws.take capacity, total := UInt64.ofNat ws.length }

/-- Whether there were no warnings. -/
def isEmpty (log : WarningLog) : Bool := log.total = 0

theorem push_ofList (ws : List Warning) (w : Warning) :
    (ofList ws).push w = ofList (ws ++ [w]) := by
  simp only [push, ofList, List.length_take, List.length_append, List.length_singleton,
    UInt64.ofNat_add]
  by_cases h : ws.length < capacity
  · rw [if_pos (by omega), List.take_of_length_le (by omega),
      List.take_of_length_le (by simp; omega)]
    rfl
  · rw [if_neg (by omega), List.take_append_of_le_length (by omega)]
    rfl

/-- **A log forgets nothing but the overflow:** pushing warnings one by one gives the log of all of
them. -/
theorem foldl_push (ws : List Warning) : ws.foldl push {} = ofList ws := by
  have h (vs ws : List Warning) : ws.foldl push (ofList vs) = ofList (vs ++ ws) := by
    induction ws generalizing vs with
    | nil => simp
    | cons w ws ih => rw [List.foldl_cons, push_ofList, ih]; simp
  exact h [] ws

end WarningLog

end OutlineLisp
