import Lexing.Scan.Number
import Lexing.Scan.Quotation
import Lexing.Scan.Recognizer
import Lexing.Scan.Trivia

namespace Lexing

namespace Lexeme

def isQuote (c : Char) : Bool := c == '"' || c == '\''

def ofRecognition (m : Recognition) (c : Char) (cs : List Char) : Piece :=
  .tokenOf c (cs.take (m.count - 1)) (.external m.kind m.payload)

def next (o : Options) (r : Recognizers) (c : Char) (cs : List Char) : Piece :=
  if c = '\n' then .tokenOf c [] .newline
  else if c.isDigit then NumberLiteral.next c cs
  else if isQuote c then Quotation.next o.maxString c cs
  else if isWordStart c then Word.next o.maxIdentifier c cs
  else match Symbol.longest? (c :: cs) with
    | some s => .tokenOf c (cs.take (s.letters.length - 1)) (.symbol s)
    | none =>
        match r.recognize (c :: cs) with
        | some m => ofRecognition m c cs
        | none => .rejectedOf c [] .unrecognizedCharacter

end Lexeme

end Lexing
