import Lexing.Scan.Scanner
import Lexing.Stream.Basic

namespace Lexing

structure StreamBuilder where
  scanner : Scanner
  tokens : Array Token
  diagnostics : Array Diagnostic
  ending : Option Token

structure ScanAfterEnd where
  position : Position
  deriving DecidableEq, Repr

namespace ScanAfterEnd

def message (e : ScanAfterEnd) : String :=
  s!"{e.position.toString}: token requested after end of input was reached"

def code (_ : ScanAfterEnd) : String := "E029"

end ScanAfterEnd

namespace StreamBuilder

def ofScanner (s : Scanner) : StreamBuilder := ⟨s, #[], #[], none⟩

def isEnded (b : StreamBuilder) : Bool := b.ending.isSome

def size (b : StreamBuilder) : Nat := b.tokens.size + if b.isEnded then 1 else 0

def push (b : StreamBuilder) : Token × StreamBuilder :=
  let (t, scanned) := b.scanner.next
  let (found, scanner) := scanned.takeDiagnostics
  let diagnostics := b.diagnostics ++ found
  if t.kind = .endOfInput then
    (t, { b with scanner, diagnostics, ending := some t })
  else
    (t, { b with scanner, diagnostics, tokens := b.tokens.push t })

def scanNext (b : StreamBuilder) : Except ScanAfterEnd (Token × StreamBuilder) :=
  match b.ending with
  | some e => .error ⟨e.position⟩
  | none => .ok b.push

private def work (b : StreamBuilder) : Nat :=
  if b.isEnded then 0 else b.scanner.cursor.rest.length + 1

private theorem work_push_lt (b : StreamBuilder) (h : b.ending = none) :
    b.push.2.work < b.work := by
  by_cases hk : b.scanner.next.1.kind = .endOfInput
  · simp [push, work, isEnded, hk, h]
  · have := b.scanner.next_rest_length_lt hk
    simp [push, work, isEnded, hk, h, Scanner.takeDiagnostics]
    omega

def finish (b : StreamBuilder) : TokenStream :=
  match _h : b.ending with
  | some e => ⟨b.scanner.cursor.source, b.tokens, e, b.diagnostics.toList, 0⟩
  | none => b.push.2.finish
termination_by b.work
decreasing_by exact b.work_push_lt _h

def readUpTo (limit : Nat) (b : StreamBuilder) : StreamBuilder :=
  if _h : b.isEnded = true then b
  else if limit ≤ b.size then b
  else b.push.2.readUpTo limit
termination_by b.work
decreasing_by exact b.work_push_lt (by simpa [isEnded] using _h)

/-- Lines have 32 bits. With checked arithmetic a call that passes a line beyond them never returns;
otherwise the count starts again at zero. -/
def fits (b : StreamBuilder) : Bool := b.scanner.cursor.line < UInt32.size

def finish? (b : StreamBuilder) : Option TokenStream :=
  match _h : b.ending with
  | some e => some ⟨b.scanner.cursor.source, b.tokens, e, b.diagnostics.toList, 0⟩
  | none => if b.push.2.fits then b.push.2.finish? else none
termination_by b.work
decreasing_by exact b.work_push_lt _h

def readUpTo? (limit : Nat) (b : StreamBuilder) : Option StreamBuilder :=
  if _h : b.isEnded = true then some b
  else if limit ≤ b.size then some b
  else if b.push.2.fits then b.push.2.readUpTo? limit
  else none
termination_by b.work
decreasing_by exact b.work_push_lt (by simpa [isEnded] using _h)

end StreamBuilder

def TokenStream.scan (s : Scanner) : TokenStream := (StreamBuilder.ofScanner s).finish

def TokenStream.scan? (s : Scanner) : Option TokenStream := (StreamBuilder.ofScanner s).finish?

end Lexing
