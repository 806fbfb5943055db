import Lexing.Scan.Comments
import Lexing.Scan.Diagnostic

namespace Lexing

structure Options where
  coalesce : Bool
  comments : Comments
  maxIdentifier : Nat
  maxString : Nat
  maxComment : Nat
  deriving DecidableEq, Repr

inductive PieceSort where
  | blank
  | comment
  | token (content : Content)
  | rejected
  deriving DecidableEq, Repr

structure Piece where
  text : List Char
  sort : PieceSort
  faults : List Fault
  text_ne_nil : text ≠ []
  deriving DecidableEq, Repr

namespace Piece

def tokenOf (c : Char) (cs : List Char) (content : Content) : Piece :=
  ⟨c :: cs, .token content, [], List.cons_ne_nil c cs⟩

def blankOf (c : Char) (cs : List Char) : Piece := ⟨c :: cs, .blank, [], List.cons_ne_nil c cs⟩

def rejectedOf (c : Char) (cs : List Char) (cause : Cause) : Piece :=
  ⟨c :: cs, .rejected, [.whole (c :: cs) cause], List.cons_ne_nil c cs⟩

end Piece

end Lexing
