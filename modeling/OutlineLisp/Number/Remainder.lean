import OutlineLisp.Number.Decimal

/-!
# The remainder of a division

Two finite magnitudes are whole numbers of the same unit, so the remainder of their division is the
remainder of two naturals. It is smaller than the divisor and a multiple of the finer of the two
grids, hence a magnitude itself: nothing is rounded.

## Main definitions

* `Number.remainder x y`: what is left of `x` after taking away `y` a whole number of times, with
  the sign of `x`.
-/

namespace OutlineLisp

namespace Number

/-- The remainder of `x` divided by `y`, with the sign of `x`. An infinite `x` and a zero `y` have
none; an infinite `y` leaves `x` as it is. -/
def remainder (x y : Float) : Float :=
  if x.isNaN || y.isNaN || Binary64.code x == Binary64.infinity || Binary64.code y == 0 then nan
  else if Binary64.code y == Binary64.infinity then x
  else
    Binary64.ofCode (Binary64.isNegative x)
      (Binary64.nearest (Binary64.units (Binary64.code x) % Binary64.units (Binary64.code y))
        Binary64.unitsPerOne)

end Number

end OutlineLisp
