import Mathlib.Algebra.Order.Ring.Rat
import StatForge.Types

/-!
# Exact rationals with a NaN

An instance of `Double` on which concrete formulas and runs evaluate: the rationals and one NaN,
which is the result of every operation without a rational result.  As in IEEE arithmetic, NaN is
not equal to, less than or greater than anything.
-/

namespace StatForge

/-- A rational number, or NaN (`none`). -/
abbrev NanRat := Option Rat

namespace NanRat

/-- The value of a digit string `d+` or `d+.d+`. -/
def ofDigits (s : StdString) : Rat :=
  let whole := s.takeWhile (· ≠ '.')
  let fraction := (s.dropWhile (· ≠ '.')).drop 1
  let digits := (whole ++ fraction).foldl (fun n c => 10 * n + (c.toNat - '0'.toNat)) 0
  (digits : Rat) / (10 ^ fraction.length : Nat)

/-- Powers with an integral exponent; other powers have no rational result in general. -/
def pow (base exponent : Rat) : NanRat :=
  if exponent.den ≠ 1 then none
  else if 0 ≤ exponent.num then some (base ^ exponent.num.toNat)
  else if base = 0 then none
  else some (1 / base ^ (-exponent.num).toNat)

instance : Double NanRat where
  ofNat n := some n
  add a b := do some ((← a) + (← b))
  sub a b := do some ((← a) - (← b))
  mul a b := do some ((← a) * (← b))
  div a b := do if (← b) = 0 then none else some ((← a) / (← b))
  pow a b := do pow (← a) (← b)
  neg a := do some (-(← a))
  eq a b := match a, b with
    | some a, some b => a == b
    | _, _ => false
  lt a b := match a, b with
    | some a, some b => a < b
    | _, _ => false
  le a b := match a, b with
    | some a, some b => a ≤ b
    | _, _ => false
  isNan a := a.isNone
  fromChars s := some (ofDigits s)

end NanRat

end StatForge
