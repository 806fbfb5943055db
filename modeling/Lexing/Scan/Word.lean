import Lexing.Scan.Piece

namespace Lexing

def isWordStart (c : Char) : Bool := c.isAlpha || c == '_'

def isWordChar (c : Char) : Bool := c.isAlphanum || c == '_'

namespace Word

def content (spelling : String) : Content :=
  match Keyword.ofSpelling? spelling with
  | some k => .keyword k
  | none => .word spelling

def next (limit : Nat) (c : Char) (cs : List Char) : Piece :=
  let run := cs.takeWhile isWordChar
  let length := Text.size (c :: run)
  if limit < length then
    .rejectedOf c run (.identifierTooLong length limit)
  else
    .tokenOf c run (content (String.ofList (c :: run)))

end Word

end Lexing
