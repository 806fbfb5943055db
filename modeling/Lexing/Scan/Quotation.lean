import Lexing.Scan.Piece

namespace Lexing

namespace Quotation

inductive Item where
  | plain (c : Char)
  | continuation (carriageReturn : Bool)
  | escape (c : Char)
  deriving DecidableEq, Repr

def unescape? (c : Char) : Option Char :=
  match c with
  | 'n' => some '\n'
  | 't' => some '\t'
  | 'r' => some '\r'
  | '0' => some '\x00'
  | '\\' | '"' | '\'' => some c
  | _ => none

namespace Item

def text : Item → List Char
  | .plain c => [c]
  | .continuation false => ['\\', '\n']
  | .continuation true => ['\\', '\r', '\n']
  | .escape c => ['\\', c]

def decoded : Item → List Char
  | .plain c => [c]
  | .continuation _ => []
  | .escape c => (unescape? c).toList

def isValid : Item → Bool
  | .escape c => (unescape? c).isSome
  | _ => true

end Item

def item? (quote : Char) : List Char → Option (Item × List Char)
  | [] => none
  | '\\' :: '\n' :: cs => some (.continuation false, cs)
  | '\\' :: '\r' :: '\n' :: cs => some (.continuation true, cs)
  | '\\' :: c :: cs => some (.escape c, cs)
  | c :: cs => if c = quote ∨ c = '\n' ∨ c = '\\' then none else some (.plain c, cs)

theorem length_lt_of_item? {quote : Char} {cs rest : List Char} {i : Item}
    (h : item? quote cs = some (i, rest)) : rest.length < cs.length := by
  fun_cases item? quote cs <;> grind [item?]

def items (quote : Char) (cs : List Char) : List Item × List Char := go [] cs
where
  go (found : List Item) (cs : List Char) : List Item × List Char :=
    match _h : item? quote cs with
    | some (i, rest) => go (i :: found) rest
    | none => (found.reverse, cs)
  termination_by cs.length
  decreasing_by exact length_lt_of_item? _h

def escapeFaults (offset lines : Nat) (found : List Fault) : List Item → List Fault
  | [] => found.reverse
  | i :: is =>
      escapeFaults (offset + Text.size i.text) (lines + i.text.count '\n')
        (if i.isValid then found else ⟨offset, lines, i.text, .invalidEscapeSequence⟩ :: found) is

def next (limit : Nat) (quote : Char) (cs : List Char) : Piece :=
  let (is, rest) := items quote cs
  let body := is.flatMap Item.text
  let decoded := is.flatMap Item.decoded
  let faults := escapeFaults quote.utf8Size 0 [] is
  let closes := match rest with
    | c :: _ => c == quote
    | [] => false
  if closes then
    let read := body ++ [quote]
    let length := Text.size decoded
    if !faults.isEmpty then ⟨quote :: read, .rejected, faults, List.cons_ne_nil _ _⟩
    else if limit < length then .rejectedOf quote read (.stringTooLarge length limit)
    else .tokenOf quote read (.string (String.ofList decoded))
  else
    let read := body ++ rest.takeWhile (· == '\\')
    ⟨quote :: read, .rejected, faults ++ [.whole (quote :: read) .unterminatedString],
      List.cons_ne_nil _ _⟩

end Quotation

end Lexing
