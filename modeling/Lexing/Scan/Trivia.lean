import Lexing.Scan.Piece

namespace Lexing

def isHorizontal (c : Char) : Bool :=
  c == ' ' || c == '\t' || c == '\r' || c == '\x0c' || c == '\x0b'

namespace Comments

/-- A line comment opens here. No comment opens at the end of a line, which nothing but this guard
sees to if an opening begins with a line end. -/
def opensLine (k : Comments) (c : Char) (cs : List Char) : Bool :=
  c != '\n' && k.line.any fun opening =>
    !opening.toList.isEmpty && opening.toList.isPrefixOf (c :: cs)

end Comments

def throughText? (closing : List Char) (cs : List Char) : Option (List Char) := go [] cs
where
  go (passed : List Char) : List Char → Option (List Char)
    | [] => none
    | c :: cs =>
        if closing.isPrefixOf (c :: cs) then
          some (passed.reverse ++ closing)
        else
          go (c :: passed) cs

namespace Trivia

def commentOf (limit : Nat) (c : Char) (cs : List Char) : Piece where
  text := c :: cs
  sort := .comment
  faults :=
    let length := Text.size (c :: cs)
    if limit < length then [.whole (c :: cs) (.commentTooLong length limit)] else []
  text_ne_nil := List.cons_ne_nil c cs

def openComment (c : Char) (cs : List Char) : Piece where
  text := c :: cs
  sort := .comment
  faults := [.whole (c :: cs) .unterminatedComment]
  text_ne_nil := List.cons_ne_nil c cs

def block? (o : Options) (c : Char) (cs : List Char) : Option Piece :=
  match o.comments.block with
  | none => none
  | some (opening, closing) =>
      match opening.toList with
      | [] => none
      | first :: more =>
          if closing.toList.isEmpty || !(first :: more).isPrefixOf (c :: cs) then
            none
          else
            match throughText? closing.toList (cs.drop more.length) with
            | some body => some (commentOf o.maxComment first (more ++ body))
            | none => some (openComment c cs)

def next? (o : Options) (c : Char) (cs : List Char) : Option Piece :=
  if isHorizontal c then
    some (.blankOf c (cs.takeWhile isHorizontal))
  else if o.comments.opensLine c cs then
    some (commentOf o.maxComment c (cs.takeWhile (· != '\n')))
  else
    block? o c cs

end Trivia

end Lexing
