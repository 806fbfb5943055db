import Lexing.Source.Span

namespace Lexing

structure Lines where
  text : List Char
  starts : Array Nat
  deriving Repr

namespace Lines

def startsAfter (cs : List Char) (offset : Nat) (found : Array Nat) : Array Nat :=
  match cs with
  | [] => found
  | c :: rest =>
      let next := offset + c.utf8Size
      startsAfter rest next (if c = '\n' then found.push next else found)

def ofText (cs : List Char) : Lines := ⟨cs, startsAfter cs 0 #[0]⟩

def count (l : Lines) : Nat := l.starts.size

def firstBeyond (starts : Array Nat) (offset low high : Nat) : Nat :=
  if _h : low < high then
    let middle := low + (high - low) / 2
    if starts.getD middle 0 ≤ offset then
      firstBeyond starts offset (middle + 1) high
    else
      firstBeyond starts offset low middle
  else
    low
termination_by high - low
decreasing_by all_goals omega

def lineAt (l : Lines) (offset : Nat) : Nat := firstBeyond l.starts offset 0 l.starts.size

def startOf (l : Lines) (line : Nat) : Nat := l.starts.getD (line - 1) 0

def column? (l : Lines) (offset : Nat) : Option Nat :=
  (Text.slice? l.text (l.startOf (l.lineAt offset)) offset).map fun before => before.length + 1

def trimReturns (cs : List Char) : List Char := (cs.reverse.dropWhile (· == '\r')).reverse

def line? (l : Lines) (line : Nat) : Option (List Char) :=
  if 1 ≤ line ∧ line ≤ l.count then
    let stop := if line < l.count then l.startOf (line + 1) - 1 else Text.size l.text
    some (trimReturns (Text.slice l.text (l.startOf line) stop))
  else
    none

private def spaces (n : Nat) : String := "".pushn ' ' n

def markCount (width column : Nat) (covered : List Char) : Nat :=
  max 1 (min (covered.takeWhile (· != '\n')).length (width - (column - 1)))

def excerpt? (l : Lines) (file : String) (span : Span) (message : String) : Option String :=
  let line := l.lineAt span.start
  (l.column? span.start).map fun column =>
    let header := s!"error: {message}\n  --> {file}:{line}:{column}\n"
    match l.line? line with
    | none => header
    | some shown =>
        let number := toString line
        let gutter := spaces number.length
        let marks := "".pushn '^' (markCount shown.length column (span.slice l.text))
        header ++ s!" {gutter} |\n {number} | {String.ofList shown}\n" ++
          s!" {gutter} | {spaces (column - 1)}{marks}\n"

end Lines

end Lexing
