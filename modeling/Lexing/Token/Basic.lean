import Lexing.Json.Basic
import Lexing.Source.Span
import Lexing.Text.Quoted
import Lexing.Token.Kind

namespace Lexing

inductive Payload where
  | none
  | number (value : Binary64)
  | text (value : String)
  deriving DecidableEq, Repr

namespace Payload

def description : Payload → String
  | .none => "no payload"
  | .number _ => "a numeric payload"
  | .text _ => "a text payload"

def fits : Payload → Shape → Bool
  | _, .any => true
  | .none, .empty => true
  | .number _, .numeric => true
  | .text _, .text => true
  | _, _ => false

def toJson : Payload → Json
  | .none => .text "none"
  | .number x => .object [("number", .number x)]
  | .text s => .object [("text", .text s)]

end Payload

structure Mismatch where
  kind : Kind
  found : Payload
  deriving DecidableEq, Repr

namespace Mismatch

def message (m : Mismatch) : String :=
  s!"{m.kind.toString} token requires {m.kind.shape.description}, got {m.found.description}"

def code (_ : Mismatch) : String := "E030"

end Mismatch

inductive Content where
  | number (value : Binary64)
  | string (text : String)
  | symbol (s : Symbol)
  | keyword (k : Keyword)
  | newline
  | endOfInput
  | word (spelling : String)
  | external (kind : ExternalKind) (payload : Payload)
  deriving DecidableEq, Repr

namespace Content

def kind : Content → Kind
  | .number _ => .number
  | .string _ => .string
  | .symbol s => .symbol s
  | .keyword k => .keyword k
  | .newline => .newline
  | .endOfInput => .endOfInput
  | .word _ => .word
  | .external k _ => .external k

def payload : Content → Payload
  | .number x => .number x
  | .string s => .text s
  | .word s => .text s
  | .external _ p => p
  | _ => .none

def of (kind : Kind) (payload : Payload) : Except Mismatch Content :=
  match kind, payload with
  | .number, .number x => .ok (.number x)
  | .string, .text s => .ok (.string s)
  | .symbol s, .none => .ok (.symbol s)
  | .keyword k, .none => .ok (.keyword k)
  | .newline, .none => .ok .newline
  | .endOfInput, .none => .ok .endOfInput
  | .word, .text s => .ok (.word s)
  | .external k, p => .ok (.external k p)
  | k, p => .error ⟨k, p⟩

end Content

structure Token where
  content : Content
  position : Position
  span : Span
  deriving DecidableEq, Repr

namespace Token

def kind (t : Token) : Kind := t.content.kind

def payload (t : Token) : Payload := t.content.payload

def line (t : Token) : Nat := t.position.line

protected def toString (t : Token) : String :=
  match t.payload with
  | .none => t.kind.toString
  | .number x => s!"{t.kind.toString}({Layout.plain.write x})"
  | .text s => s!"{t.kind.toString}({Text.quote s})"

end Token

def Span.toJson (s : Span) : Json :=
  .object [("start", .natural s.start), ("end", .natural s.stop)]

def Position.toJson (p : Position) : Json :=
  .object [("file", .text p.file), ("line", .natural p.line)]

def Token.toJson (t : Token) : Json :=
  .object [("kind", .text t.kind.toString), ("position", t.position.toJson),
    ("payload", t.payload.toJson), ("span", t.span.toJson)]

end Lexing
