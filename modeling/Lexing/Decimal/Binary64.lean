namespace Lexing

structure Magnitude where
  significand : Nat
  exponent : Nat
  significand_lt : significand < Nat.pow 2 53
  exponent_le : exponent ≤ 2045
  normal : Nat.pow 2 52 ≤ significand ∨ exponent = 0
  deriving DecidableEq, Repr

namespace Magnitude

def zero : Magnitude := ⟨0, 0, by decide, by decide, .inr rfl⟩

/-- How many units of `2 ^ -1074` the magnitude holds. -/
def units (x : Magnitude) : Nat := x.significand * Nat.pow 2 x.exponent

def word (x : Magnitude) : Nat := x.exponent * Nat.pow 2 52 + x.significand

def checked? (significand exponent : Nat) : Option Magnitude :=
  if h : significand < Nat.pow 2 53 ∧ exponent ≤ 2045 ∧
      (Nat.pow 2 52 ≤ significand ∨ exponent = 0) then
    some ⟨significand, exponent, h.1, h.2.1, h.2.2⟩
  else
    none

end Magnitude

def roundQuotient (num den : Nat) : Nat :=
  let q := num / den
  let twice := 2 * (num % den)
  if twice < den then q else if den < twice then q + 1 else q + q % 2

namespace Magnitude

def scale (num den : Nat) : Nat := Nat.log2 (num / den) - 52

def ofRatio? (num den : Nat) : Option Magnitude :=
  let scaled := num * Nat.pow 2 1074
  let e := scale scaled den
  let m := roundQuotient scaled (den * Nat.pow 2 e)
  if m = Nat.pow 2 53 then checked? (Nat.pow 2 52) (e + 1) else checked? m e

end Magnitude

inductive Binary64 where
  | finite (negative : Bool) (magnitude : Magnitude)
  | infinite (negative : Bool)
  | nan
  deriving DecidableEq, Repr

namespace Binary64

def zero : Binary64 := .finite false .zero

def isFinite : Binary64 → Bool
  | .finite _ _ => true
  | _ => false

def ofRatio (negative : Bool) (num den : Nat) : Binary64 :=
  match Magnitude.ofRatio? num den with
  | some x => .finite negative x
  | none => .infinite negative

def ofNat (n : Nat) : Binary64 := ofRatio false n 1

def word? : Binary64 → Option Nat
  | .finite s x => some ((if s then Nat.pow 2 63 else 0) + x.word)
  | .infinite s => some ((if s then Nat.pow 2 63 else 0) + 2047 * Nat.pow 2 52)
  | .nan => none

def add : Binary64 → Binary64 → Binary64
  | .nan, _ | _, .nan => .nan
  | .infinite s, .infinite t => if s = t then .infinite s else .nan
  | .infinite s, .finite _ _ | .finite _ _, .infinite s => .infinite s
  | .finite s x, .finite t y =>
      if s = t then ofRatio s (x.units + y.units) (Nat.pow 2 1074)
      else if y.units < x.units then ofRatio s (x.units - y.units) (Nat.pow 2 1074)
      else if x.units < y.units then ofRatio t (y.units - x.units) (Nat.pow 2 1074)
      else zero

def div : Binary64 → Binary64 → Binary64
  | .nan, _ | _, .nan => .nan
  | .infinite _, .infinite _ => .nan
  | .infinite s, .finite t _ => .infinite (s != t)
  | .finite s _, .infinite t => .finite (s != t) .zero
  | .finite s x, .finite t y =>
      if y.units = 0 then
        if x.units = 0 then .nan else .infinite (s != t)
      else
        ofRatio (s != t) x.units y.units

def mul : Binary64 → Binary64 → Binary64
  | .nan, _ | _, .nan => .nan
  | .infinite s, .infinite t => .infinite (s != t)
  | .infinite s, .finite t x | .finite t x, .infinite s =>
      if x.units = 0 then .nan else .infinite (s != t)
  | .finite s x, .finite t y => ofRatio (s != t) (x.units * y.units) (Nat.pow 2 2148)

end Binary64

end Lexing
