import Lexing.Decimal.Shortest

namespace Lexing

structure Layout where
  tie : Tie
  positional : Option (Int × Int)
  pointed : Bool
  infinite : String
  negativeInfinite : String
  nan : String
  deriving DecidableEq, Repr

namespace Layout

def plain : Layout := ⟨.up, none, false, "inf", "-inf", "NaN"⟩

def structured : Layout := ⟨.even, some (-5, 15), true, "null", "null", "null"⟩

private def zeros (n : Nat) : List Char := List.replicate n '0'

private def positionalText (pointed : Bool) (digits : List Char) (power : Int) : List Char :=
  match power with
  | .ofNat p => digits ++ zeros p ++ (if pointed then ['.', '0'] else [])
  | .negSucc p =>
      let places := p + 1
      let padded := zeros (places + 1 - digits.length) ++ digits
      let cut := padded.length - places
      padded.take cut ++ '.' :: padded.drop cut

private def scientificText (digits : List Char) (exponent : Int) : List Char :=
  let mantissa := match digits with
    | d :: f :: more => d :: '.' :: f :: more
    | ds => ds
  let sign := if exponent < 0 then '-' else '+'
  mantissa ++ 'e' :: sign :: Nat.toDigits 10 exponent.natAbs

def writeMagnitude (l : Layout) (x : Magnitude) : List Char :=
  let n := Numeral.shortest l.tie x
  let digits := Nat.toDigits 10 n.digits
  let exponent : Int := n.power + digits.length - 1
  let inRange := match l.positional with
    | none => true
    | some (low, high) => low ≤ exponent && exponent ≤ high
  if n.digits = 0 || inRange then
    positionalText l.pointed digits n.power
  else
    scientificText digits exponent

def write (l : Layout) : Binary64 → String
  | .finite negative x =>
      String.ofList ((if negative then ['-'] else []) ++ l.writeMagnitude x)
  | .infinite false => l.infinite
  | .infinite true => l.negativeInfinite
  | .nan => l.nan

end Layout

def Binary64.toPlaces (places : Nat) : Binary64 → String
  | .finite negative x =>
      let n := roundQuotient (x.units * Nat.pow 10 places) (Nat.pow 2 1074)
      let digits := Nat.toDigits 10 n
      let padded := List.replicate (places + 1 - digits.length) '0' ++ digits
      let cut := padded.length - places
      String.ofList ((if negative then ['-'] else []) ++ padded.take cut ++
        (if places = 0 then [] else '.' :: padded.drop cut))
  | .infinite false => "inf"
  | .infinite true => "-inf"
  | .nan => "NaN"

end Lexing
