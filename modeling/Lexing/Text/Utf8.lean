namespace Lexing.Text

private def isTail (b : UInt8) : Bool := 0x80 ≤ b && b ≤ 0xbf

/-- The range that a second byte must lie in after a first byte, which also fixes the number of
bytes of the character. -/
private def lead? (b : UInt8) : Option (Nat × UInt8 × UInt8) :=
  if 0xc2 ≤ b && b ≤ 0xdf then some (1, 0x80, 0xbf)
  else if b == 0xe0 then some (2, 0xa0, 0xbf)
  else if b == 0xed then some (2, 0x80, 0x9f)
  else if 0xe1 ≤ b && b ≤ 0xef then some (2, 0x80, 0xbf)
  else if b == 0xf0 then some (3, 0x90, 0xbf)
  else if 0xf1 ≤ b && b ≤ 0xf3 then some (3, 0x80, 0xbf)
  else if b == 0xf4 then some (3, 0x80, 0x8f)
  else none

private def bitsOf (lead : UInt8) (tails : Nat) : Nat :=
  if tails = 1 then lead.toNat - 0xc0 else if tails = 2 then lead.toNat - 0xe0
  else lead.toNat - 0xf0

private def tailsOf (tails : Nat) (low high : UInt8) : List UInt8 → List UInt8
  | [] => []
  | b :: bs =>
      if low ≤ b && b ≤ high then b :: (bs.take (tails - 1)).takeWhile isTail else []

private def decodeOne (b : UInt8) (bs : List UInt8) : Option Char × Nat :=
  if b < 0x80 then
    (some (Char.ofNat b.toNat), 0)
  else
    match lead? b with
    | none => (none, 0)
    | some (tails, low, high) =>
        let found := tailsOf tails low high bs
        if found.length = tails then
          let code := found.foldl (fun n t => n * 64 + (t.toNat - 0x80)) (bitsOf b tails)
          (some (Char.ofNat code), tails)
        else
          (none, found.length)

def decodeBytes (bs : List UInt8) : List (Option Char) := go [] bs
where
  go (found : List (Option Char)) : List UInt8 → List (Option Char)
    | [] => found.reverse
    | b :: bs =>
        let (c, more) := decodeOne b bs
        go (c :: found) (bs.drop more)
  termination_by bs => bs.length
  decreasing_by simp only [List.length_cons, List.length_drop]; omega

def ofBytes? (bs : List UInt8) : Option String := ((decodeBytes bs).mapM id).map String.ofList

def ofBytesLossy (bs : List UInt8) : String :=
  String.ofList ((decodeBytes bs).map fun c => c.getD '\ufffd')

end Lexing.Text
