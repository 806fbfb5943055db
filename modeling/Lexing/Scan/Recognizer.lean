import Lexing.Settings.Limits
import Lexing.Token.Basic

namespace Lexing

structure Recognition where
  kind : ExternalKind
  count : Nat
  payload : Payload
  deriving DecidableEq, Repr

/-- A recognizer is taken to answer as a function of the text from its place on: it keeps nothing
between its answers and looks at nothing else. -/
structure Recognizer where
  name : String
  recognize : List Char → Option Recognition

def Recognizer.ofSpelling (spelling : String) (kind : ExternalKind) : Recognizer where
  name := spelling
  recognize cs :=
    if !spelling.isEmpty && spelling.toList.isPrefixOf cs then
      some ⟨kind, spelling.length, .none⟩
    else
      none

structure TooManyRecognizers where
  name : String
  limit : Nat
  deriving DecidableEq, Repr

namespace TooManyRecognizers

def message (e : TooManyRecognizers) : String :=
  s!"Cannot register recognizer '{e.name}': limit of {e.limit} reached"

def code (_ : TooManyRecognizers) : String := "ERR003"

end TooManyRecognizers

structure Recognizers where
  members : List Recognizer
  length_le : members.length ≤ Limits.lexical.maxRecognizers

namespace Recognizers

def empty : Recognizers := ⟨[], Nat.zero_le _⟩

def size (r : Recognizers) : Nat := r.members.length

def isEmpty (r : Recognizers) : Bool := r.members.isEmpty

def register (r : Recognizers) (new : Recognizer) : Except TooManyRecognizers Recognizers :=
  if h : r.members.length < Limits.lexical.maxRecognizers then
    .ok ⟨r.members ++ [new], by rw [List.length_append]; exact h⟩
  else
    .error ⟨new.name, Limits.lexical.maxRecognizers⟩

def registerAll : Recognizers → List Recognizer → Except TooManyRecognizers Recognizers
  | r, [] => .ok r
  | r, new :: more => do registerAll (← r.register new) more

def recognize (r : Recognizers) (cs : List Char) : Option Recognition :=
  r.members.findSome? fun member => (member.recognize cs).filter fun m => 0 < m.count

end Recognizers

end Lexing
