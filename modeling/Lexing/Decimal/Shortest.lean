import Lexing.Decimal.Numeral

namespace Lexing

inductive Tie where
  | up
  | even
  deriving DecidableEq, Repr

namespace Numeral

def readsBack (x : Magnitude) (n : Numeral) : Bool := n.magnitude? == some x

def trimZeros (digits : Nat) (power : Int) : Numeral :=
  if _h : digits ≠ 0 ∧ digits % 10 = 0 then
    trimZeros (digits / 10) (power + 1)
  else
    ⟨digits, power⟩
termination_by digits
decreasing_by omega

/-- The grid lies at `10 ^ gridShift` or above for every magnitude and digit count. -/
private def gridShift : Nat := 400

def decimalLength (n : Nat) : Nat := (Nat.toDigits 10 n).length

/-- `x` in units of `2 ^ -1074 * 10 ^ -gridShift`. -/
private def fineUnits (x : Magnitude) : Nat := x.units * Nat.pow 10 gridShift

private def leading (x : Magnitude) : Nat := decimalLength (fineUnits x / Nat.pow 2 1074)

def withDigits? (tie : Tie) (x : Magnitude) (count : Nat) : Option Numeral :=
  let shift := leading x - count
  let power : Int := (shift : Int) - gridShift
  let step := Nat.pow 10 shift * Nat.pow 2 1074
  let value := fineUnits x
  let below := value / step
  let under := value - below * step
  let above := (below + 1) * step - value
  let lower : Numeral := ⟨below, power⟩
  let upper : Numeral := ⟨below + 1, power⟩
  match readsBack x lower, readsBack x upper with
  | true, false => some lower
  | false, true => some upper
  | false, false => none
  | true, true =>
      if under < above then some lower
      else if above < under then some upper
      else match tie with
        | .up => some upper
        | .even => some (if below % 2 = 0 then lower else upper)

def exact (x : Magnitude) : Numeral := ⟨x.units * Nat.pow 5 1074, -1074⟩

def shortest (tie : Tie) (x : Magnitude) : Numeral :=
  if x.units = 0 then
    ⟨0, 0⟩
  else
    let found := ((List.range 17).findSome? fun i => withDigits? tie x (i + 1)).getD (exact x)
    trimZeros found.digits found.power

end Numeral

end Lexing
