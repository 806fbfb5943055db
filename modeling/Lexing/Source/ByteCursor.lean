import Lexing.Source.Span

namespace Lexing

structure ByteCursor where
  file : String
  source : List Char
  offset : Nat
  line : UInt32

namespace ByteCursor

def ofText (file : String) (cs : List Char) : ByteCursor := ⟨file, cs, 0, 1⟩

def rest (b : ByteCursor) : List Char := ((Text.split? b.source b.offset).map Prod.snd).getD []

def atEnd (b : ByteCursor) : Bool := Text.size b.source ≤ b.offset

def peek (b : ByteCursor) (k : Nat) : Option Char := b.rest[k]?

def current (b : ByteCursor) : Option Char := b.rest.head?

def advance (b : ByteCursor) : Option Char × ByteCursor :=
  match b.current with
  | none => (none, b)
  | some c =>
      (some c, { b with
        offset := b.offset + c.utf8Size
        line := if c = '\n' then b.line + 1 else b.line })

def advanceBy (b : ByteCursor) (count : Nat) : Nat × ByteCursor := go 0 b
where
  go (consumed : Nat) (b : ByteCursor) : Nat × ByteCursor :=
    if consumed < count then
      match b.advance with
      | (some _, next) => go (consumed + 1) next
      | (none, next) => (consumed, next)
    else (consumed, b)
  termination_by count - consumed

def eat (b : ByteCursor) (expected : Char) : Bool × ByteCursor :=
  if b.current = some expected then (true, b.advance.2) else (false, b)

def startsWith (b : ByteCursor) (text : List Char) : Bool := text.isPrefixOf b.rest

def eatText (b : ByteCursor) (text : List Char) : Bool × ByteCursor :=
  if !text.isEmpty && b.startsWith text then (true, (b.advanceBy text.length).2) else (false, b)

theorem rest_of_current {b : ByteCursor} {c : Char} (h : b.current = some c) :
    b.rest = c :: b.advance.2.rest := by
  obtain ⟨cs, hcs⟩ := List.head?_eq_some_iff.1 h
  cases hsplit : Text.split? b.source b.offset with
  | none => simp [rest, hsplit] at hcs
  | some parts =>
      obtain ⟨before, after⟩ := parts
      obtain rfl : after = c :: cs := by simpa [rest, hsplit] using hcs
      obtain ⟨hsource, hoffset⟩ := Text.eq_append_of_split? hsplit
      have hnext : Text.split? (before ++ [c] ++ cs) (Text.size (before ++ [c])) =
          some (before ++ [c], cs) := Text.split?_append ..
      rw [List.append_assoc, List.singleton_append, ← hsource, Text.size_append, Text.size_cons,
        Text.size_nil, Nat.add_zero, ← hoffset] at hnext
      rw [hcs, advance, h]
      simp [rest, hnext]

def skipWhile (b : ByteCursor) (p : Char → Bool) : ByteCursor :=
  match _h : b.current with
  | none => b
  | some c => if p c then b.advance.2.skipWhile p else b
termination_by b.rest.length
decreasing_by simp [rest_of_current _h]

def advanceWhile (b : ByteCursor) (p : Char → Bool) : Nat × ByteCursor :=
  let after := b.skipWhile p
  (after.offset - b.offset, after)

def position (b : ByteCursor) : Position := ⟨b.file, b.line.toNat⟩

def spanFrom (b : ByteCursor) (start : Nat) : Span := ⟨start, b.offset⟩

def sliceFrom (b : ByteCursor) (start : Nat) : List Char := Text.slice b.source start b.offset

end ByteCursor

end Lexing
