import Lexing.Text.Bytes

namespace Lexing

/-- The bytes from `start` up to, not including, `stop`. -/
structure Span where
  start : Nat
  stop : Nat
  deriving DecidableEq, Repr, Inhabited

namespace Span

def emptyAt (offset : Nat) : Span := ⟨offset, offset⟩

def length (s : Span) : Nat := s.stop - s.start

def isEmpty (s : Span) : Bool := s.start == s.stop

def contains (s : Span) (offset : Nat) : Bool := s.start ≤ offset && offset < s.stop

def merge (s t : Span) : Span := ⟨min s.start t.start, max s.stop t.stop⟩

def slice (s : Span) (cs : List Char) : List Char := Text.slice cs s.start s.stop

protected def toString (s : Span) : String := s!"{s.start}..{s.stop}"

end Span

structure Position where
  file : String
  line : Nat
  deriving DecidableEq, Repr, Inhabited

protected def Position.toString (p : Position) : String := s!"{p.file}:{p.line}"

end Lexing
