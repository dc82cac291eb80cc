import OutlineLisp.Number.Decimal

/-!
# The shortest decimal that reads back

Among the decimals that read back as a given finite magnitude, a printer wants the one with the
fewest digits. It lies on the coarsest grid `10 ^ j` that has such a decimal at all, and on each
grid only the two neighbours of the magnitude come into question: if any point of the grid reads
back, so does one of these.

The search walks the grids from coarse to fine. It stops at the latest on the grid `10 ^ (-1074)`,
on which every finite magnitude lies exactly, so it always finds a decimal that reads back.

## Main definitions

* `Shortest.decimal tie code`: the digits and exponent chosen for the magnitude with that code.

## Main results

* `Shortest.scaledCode_decimal`: the chosen decimal reads back as the magnitude.
-/

namespace OutlineLisp

namespace Shortest

/-- What to do when the magnitude lies exactly half-way between the two shortest decimals. -/
inductive Tie where
  /-- Take the greater. -/
  | up
  /-- Take the one whose last digit is even. -/
  | even
  deriving DecidableEq, Repr

/-- A whole number of digits and a power of ten. -/
structure Scaled where
  digits : Nat
  exponent : Int
  deriving DecidableEq, Repr

/-- The magnitude with a code as a quotient, counted on the grid `10 ^ j`. -/
def onGrid (code : Nat) (j : Int) : Nat × Nat :=
  if 0 ≤ j then (Binary64.units code, Binary64.unitsPerOne * Nat.pow 10 j.toNat)
  else (Binary64.units code * Nat.pow 10 (-j).toNat, Binary64.unitsPerOne)

/-- Whether a point of the grid `10 ^ j` reads back as the magnitude with a code. -/
def readsBack (code : Nat) (j : Int) (digits : Nat) : Bool := Decimal.scaledCode digits j == code

/-- Of the whole numbers next to `num / den`, the nearer. -/
def nearer (tie : Tie) (num den : Nat) : Nat :=
  let below := num / den
  if 2 * (num % den) < den then below
  else if den < 2 * (num % den) then below + 1
  else match tie with
    | .up => below + 1
    | .even => below + below % 2

/-- The point of the grid `10 ^ j` chosen for the magnitude with a code: its neighbour that reads
back, and the nearer one if both do. -/
def pointOn (tie : Tie) (code : Nat) (j : Int) : Option Nat :=
  let (num, den) := onGrid code j
  let below := num / den
  match readsBack code j below, readsBack code j (below + 1) with
  | false, false => none
  | true, false => some below
  | false, true => some (below + 1)
  | true, true => some (nearer tie num den)

/-- The finest grid is `10 ^ (-finest)`. -/
def finest : Nat := 1074

/-- The first grid with a point that reads back, from `10 ^ (n - 1074)` down to `10 ^ (-1074)`,
where the magnitude itself lies. -/
def search (tie : Tie) (code : Nat) : Nat → Scaled
  | 0 => ⟨Binary64.units code * Nat.pow 5 finest, -finest⟩
  | n + 1 =>
    match pointOn tie code ((n : Int) + 1 - finest) with
    | some digits => ⟨digits, (n : Int) + 1 - finest⟩
    | none => search tie code n

/-- A grid above the magnitude with a code, as the number of steps down to `10 ^ (-1074)`. The
factor bounds the decimal logarithm of two from above. -/
def firstGrid (code : Nat) : Nat :=
  ((((Binary64.units code).log2 : Int) - 1073) * 30103 / 100000 + 1 + 1074).toNat

/-- The decimal with the fewest digits that reads back as the magnitude with a code. -/
def decimal (tie : Tie) (code : Nat) : Scaled := search tie code (firstGrid code)

/-! ### The chosen decimal reads back -/

theorem nearer_eq_or (tie : Tie) (num den : Nat) :
    nearer tie num den = num / den ∨ nearer tie num den = num / den + 1 := by
  simp only [nearer]
  split
  · exact .inl rfl
  · split
    · exact .inr rfl
    · cases tie
      · exact .inr rfl
      · simp only
        omega

theorem readsBack_of_pointOn {tie : Tie} {code digits : Nat} {j : Int}
    (h : pointOn tie code j = some digits) : Decimal.scaledCode digits j = code := by
  rw [pointOn] at h
  generalize onGrid code j = g at h
  obtain ⟨num, den⟩ := g
  simp only at h
  split at h
  · cases h
  · next hb _ => cases h; exact eq_of_beq hb
  · next _ ha => cases h; exact eq_of_beq ha
  · next hb ha =>
    cases h
    rcases nearer_eq_or tie num den with hn | hn
    · rw [hn]; exact eq_of_beq hb
    · rw [hn]; exact eq_of_beq ha

/-- Every finite magnitude lies on the grid `10 ^ (-1074)`. -/
theorem scaledCode_finest {code : Nat} (h : code ≤ Binary64.infinity) :
    Decimal.scaledCode (Binary64.units code * Nat.pow 5 finest) (-finest) = code := by
  have hn : 0 < finest := by decide
  have hu : Binary64.unitsPerOne = 1 <<< finest := rfl
  -- the powers are too great to be evaluated
  generalize finest = n at hn hu ⊢
  have hten : Nat.pow 10 n = Nat.pow 5 n * Binary64.unitsPerOne := by
    rw [hu, Nat.one_shiftLeft, Nat.pow_eq, Nat.pow_eq, ← Nat.mul_pow]
  have hpos : 0 < Nat.pow 5 n := Nat.pow_pos (by decide)
  rw [Decimal.scaledCode, if_neg (by omega), Int.neg_neg, Int.toNat_natCast, hten,
    Nat.mul_comm (Binary64.units code), Binary64.nearest_mul_mul hpos, Binary64.nearest_units h]

theorem scaledCode_search (tie : Tie) {code : Nat} (h : code ≤ Binary64.infinity) (n : Nat) :
    Decimal.scaledCode (search tie code n).digits (search tie code n).exponent = code := by
  induction n with
  | zero => exact scaledCode_finest h
  | succ n ih =>
    rw [search]
    split
    · next hp => exact readsBack_of_pointOn hp
    · exact ih

/-- **What is printed reads back:** the decimal chosen for a finite magnitude rounds to it. -/
theorem scaledCode_decimal (tie : Tie) {code : Nat} (h : code ≤ Binary64.infinity) :
    Decimal.scaledCode (decimal tie code).digits (decimal tie code).exponent = code :=
  scaledCode_search tie h _

end Shortest

end OutlineLisp
