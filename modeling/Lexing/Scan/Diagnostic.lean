import Lexing.Source.Cursor
import Lexing.Token.Basic

namespace Lexing

inductive Cause where
  | unrecognizedCharacter
  | unterminatedString
  | malformedNumber
  | invalidEscapeSequence
  | unterminatedComment
  | identifierTooLong (length limit : Nat)
  | stringTooLarge (length limit : Nat)
  | commentTooLong (length limit : Nat)
  deriving DecidableEq, Repr

namespace Cause

def name : Cause → String
  | .unrecognizedCharacter => "unrecognized_character"
  | .unterminatedString => "unterminated_string"
  | .malformedNumber => "malformed_number"
  | .invalidEscapeSequence => "invalid_escape_sequence"
  | .unterminatedComment => "unterminated_comment"
  | .identifierTooLong _ _ => "identifier_too_long"
  | .stringTooLarge _ _ => "string_too_large"
  | .commentTooLong _ _ => "comment_too_long"

def code : Cause → String
  | .unrecognizedCharacter => "E020"
  | .unterminatedString => "E021"
  | .malformedNumber => "E022"
  | .identifierTooLong _ _ => "E023"
  | .stringTooLarge _ _ => "E024"
  | .invalidEscapeSequence => "E025"
  | .commentTooLong _ _ => "E026"
  | .unterminatedComment => "E028"

def sizes? : Cause → Option (Nat × Nat)
  | .identifierTooLong length limit
  | .stringTooLarge length limit
  | .commentTooLong length limit => some (length, limit)
  | _ => none

def message (lexeme : String) : Cause → String
  | .unrecognizedCharacter => s!"unrecognized character '{lexeme}'"
  | .unterminatedString => s!"unterminated string {lexeme}"
  | .malformedNumber => s!"malformed number '{lexeme}'"
  | .invalidEscapeSequence => s!"invalid escape sequence '{lexeme}'"
  | .unterminatedComment => "unterminated block comment"
  | .identifierTooLong length limit => s!"identifier is {length} characters, limit is {limit}"
  | .stringTooLarge length limit => s!"string literal is {length} bytes, limit is {limit}"
  | .commentTooLong length limit => s!"comment is {length} bytes, limit is {limit}"

end Cause

/-- Something wrong with a part of a piece of text, placed relative to the piece. -/
structure Fault where
  offset : Nat
  lines : Nat
  lexeme : List Char
  cause : Cause
  deriving DecidableEq, Repr

def Fault.whole (lexeme : List Char) (cause : Cause) : Fault := ⟨0, 0, lexeme, cause⟩

structure Diagnostic where
  cause : Cause
  position : Position
  span : Span
  lexeme : String
  deriving DecidableEq, Repr

namespace Diagnostic

def shownLength : Nat := 80

def shorten (lexeme : List Char) : String :=
  match lexeme.drop shownLength with
  | [] => String.ofList lexeme
  | _ :: _ => String.ofList (lexeme.take shownLength) ++ "..."

def ofFault (place : Cursor) (fault : Fault) : Diagnostic where
  cause := fault.cause
  position := ⟨place.file, place.line + fault.lines⟩
  span := ⟨place.offset + fault.offset, place.offset + fault.offset + Text.size fault.lexeme⟩
  lexeme := shorten fault.lexeme

def message (d : Diagnostic) : String := d.cause.message d.lexeme

protected def toString (d : Diagnostic) : String := s!"{d.position.toString}: {d.message}"

def toJson (d : Diagnostic) : Json :=
  let sizes := match d.cause.sizes? with
    | some (length, limit) => [("length", .natural length), ("limit", .natural limit)]
    | none => []
  .object ([("kind", .text d.cause.name), ("position", d.position.toJson),
    ("span", d.span.toJson), ("lexeme", .text d.lexeme)] ++ sizes)

end Diagnostic

end Lexing
