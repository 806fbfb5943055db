import Lexing.Toml.Value
import Lexing.Decimal.Numeral

namespace Lexing.Toml

abbrev Reader := StateT (List Char) Option

namespace Reader

def peek : Reader (Option Char) := do return (← get).head?

def startsWith (text : String) : Reader Bool := do return text.toList.isPrefixOf (← get)

def drop (n : Nat) : Reader Unit := modify (·.drop n)

def expect (text : String) : Reader Unit := do
  if ← startsWith text then drop text.length else failure

def accept (text : String) : Reader Bool := do
  if ← startsWith text then
    drop text.length
    return true
  else
    return false

def takeWhile (p : Char → Bool) : Reader (List Char) := do
  let run := (← get).takeWhile p
  drop run.length
  return run

end Reader

open Reader

def isSpace (c : Char) : Bool := c == ' ' || c == '\t'

def skipSpaces : Reader Unit := do let _ ← takeWhile isSpace

def isPrintable (c : Char) : Bool := c == '\t' || (0x20 ≤ c.toNat && c.toNat != 0x7f)

def skipComment : Reader Unit := do
  if ← accept "#" then
    let _ ← takeWhile isPrintable

def acceptLineEnd : Reader Bool := do
  if ← accept "\n" then return true else accept "\r\n"

def finishLine : Reader Unit := do
  skipSpaces
  skipComment
  unless (← acceptLineEnd) || (← get).isEmpty do failure

def isHex (c : Char) : Bool := c.isDigit || ('a' ≤ c && c ≤ 'f') || ('A' ≤ c && c ≤ 'F')

def hexValue (c : Char) : Nat :=
  if c.isDigit then c.toNat - '0'.toNat else c.toLower.toNat - 'a'.toNat + 10

def numberOfHex (cs : List Char) : Nat := cs.foldl (fun n c => 16 * n + hexValue c) 0

def readEscape : Reader Char := do
  match ← get with
  | c :: rest =>
      let plain (d : Char) : Reader Char := do set rest; return d
      let code (digits : Nat) : Reader Char := do
        let hex := rest.take digits
        let n := numberOfHex hex
        if hex.length == digits && hex.all isHex && n.isValidChar then
          set (rest.drop digits)
          return Char.ofNat n
        else
          failure
      match c with
      | 'b' => plain '\x08'
      | 't' => plain '\t'
      | 'n' => plain '\n'
      | 'f' => plain '\x0c'
      | 'r' => plain '\r'
      | '"' => plain '"'
      | '\\' => plain '\\'
      | 'u' => code 4
      | 'U' => code 8
      | _ => failure
  | [] => failure

def readBasic : Nat → List Char → Reader String
  | 0, _ => failure
  | fuel + 1, read => do
      match ← get with
      | '"' :: rest =>
          set rest
          return String.ofList read.reverse
      | '\\' :: rest =>
          set rest
          let c ← readEscape
          readBasic fuel (c :: read)
      | c :: rest =>
          if isPrintable c then
            set rest
            readBasic fuel (c :: read)
          else
            failure
      | [] => failure

def readLiteral : Reader String := do
  let text ← takeWhile fun c => isPrintable c && c != '\''
  expect "'"
  return String.ofList text

def closeLong (quote : Char) (read : List Char) : Reader (Option String) := do
  let run := ((← get).takeWhile (· == quote)).length
  if 3 ≤ run then
    let extra := min (run - 3) 2
    drop (3 + extra)
    return some (String.ofList (List.replicate extra quote ++ read).reverse)
  else
    return none

def dropFolded : List Char → List Char
  | '\r' :: '\n' :: cs => dropFolded cs
  | c :: cs => if isSpace c || c == '\n' then dropFolded cs else c :: cs
  | [] => []

def skipFolded : Reader Unit := do
  skipSpaces
  if ← acceptLineEnd then modify dropFolded else failure

def readLongBasic : Nat → List Char → Reader String
  | 0, _ => failure
  | fuel + 1, read => do
      match ← closeLong '"' read with
      | some text => return text
      | none =>
          match ← get with
          | '\\' :: rest =>
              set rest
              match rest with
              | c :: _ =>
                  if isSpace c || c == '\n' || c == '\r' then
                    skipFolded
                    readLongBasic fuel read
                  else
                    let d ← readEscape
                    readLongBasic fuel (d :: read)
              | [] => failure
          | '\r' :: '\n' :: rest =>
              set rest
              readLongBasic fuel ('\n' :: read)
          | c :: rest =>
              if isPrintable c || c == '\n' then
                set rest
                readLongBasic fuel (c :: read)
              else
                failure
          | [] => failure

def readLongLiteral : Nat → List Char → Reader String
  | 0, _ => failure
  | fuel + 1, read => do
      match ← closeLong '\'' read with
      | some text => return text
      | none =>
          match ← get with
          | '\r' :: '\n' :: rest =>
              set rest
              readLongLiteral fuel ('\n' :: read)
          | c :: rest =>
              if isPrintable c || c == '\n' then
                set rest
                readLongLiteral fuel (c :: read)
              else
                failure
          | [] => failure

def readShortString (fuel : Nat) : Reader String := do
  if ← accept "\"" then readBasic fuel []
  else
    expect "'"
    readLiteral

def readString (fuel : Nat) : Reader String := do
  if ← accept "\"\"\"" then
    let _ ← acceptLineEnd
    readLongBasic fuel []
  else if ← accept "'''" then
    let _ ← acceptLineEnd
    readLongLiteral fuel []
  else
    readShortString fuel

def isKeyChar (c : Char) : Bool := c.isAlphanum || c == '_' || c == '-'

def readSimpleKey (fuel : Nat) : Reader String := do
  match ← peek with
  | some c =>
      if isKeyChar c then
        return String.ofList (← takeWhile isKeyChar)
      else
        readShortString fuel
  | none => failure

def readKeyParts : Nat → Reader (List String)
  | 0 => failure
  | fuel + 1 => do
      skipSpaces
      let key ← readSimpleKey (fuel + 1)
      skipSpaces
      if ← accept "." then
        return key :: (← readKeyParts fuel)
      else
        return [key]

/-- Neither the parts of a key nor the lists and tables around a value come to this number. -/
def depthLimit : Nat := 80

def readKey (fuel : Nat) : Reader (List String) := do
  let key ← readKeyParts fuel
  if key.length < depthLimit then return key else failure

def plainDigits? (isDigit : Char → Bool) (cs : List Char) : Option (List Char) :=
  let rec go (afterDigit : Bool) : List Char → Option (List Char)
    | [] => if afterDigit then some [] else none
    | c :: rest =>
        if isDigit c then (go true rest).map (c :: ·)
        else if c == '_' && afterDigit then go false rest
        else none
  go false cs

private def inRange (n : Int) : Option Int :=
  if -Int.pow 2 63 ≤ n ∧ n < Int.pow 2 63 then some n else none

private def based (isDigit : Char → Bool) (base : Nat) (cs : List Char) : Option Value := do
  let digits ← plainDigits? isDigit cs
  let n ← inRange (digits.foldl (fun n c => base * n + hexValue c) 0 : Nat)
  return .integer n

private def splitSign : List Char → Bool × List Char
  | '-' :: cs => (true, cs)
  | '+' :: cs => (false, cs)
  | cs => (false, cs)

private def leadsWell (digits : List Char) : Bool :=
  match digits with
  | '0' :: _ :: _ => false
  | _ => true

private def integer? (cs : List Char) : Option Value := do
  let (negative, rest) := splitSign cs
  let digits ← plainDigits? Char.isDigit rest
  if leadsWell digits then
    let n : Int := Numeral.natOfDigits digits
    return .integer (← inRange (if negative then -n else n))
  else
    failure

private def isTooLarge (cs : List Char) : Bool :=
  Numeral.read? (cs.filter (· != '_')) == some (.infinite false)

private def decimal? (cs : List Char) : Option Value := do
  let (_, rest) := splitSign cs
  if rest == ['i', 'n', 'f'] || rest == ['n', 'a', 'n'] then
    return .decimal (String.ofList cs)
  let whole := rest.takeWhile fun c => c.isDigit || c == '_'
  let after := rest.drop whole.length
  let digits ← plainDigits? Char.isDigit whole
  let (fraction, after) := match after with
    | '.' :: more =>
        let run := more.takeWhile fun c => c.isDigit || c == '_'
        (some run, more.drop run.length)
    | more => (none, more)
  let power := match after with
    | [] => none
    | c :: more => if c == 'e' || c == 'E' then some (splitSign more).2 else some []
  let partFine (part : Option (List Char)) : Bool :=
    part.all fun run => (plainDigits? Char.isDigit run).isSome
  if leadsWell digits && partFine fraction && partFine power
      && (fraction.isSome || power.isSome) && !isTooLarge cs then
    return .decimal (String.ofList cs)
  else
    failure

private def twoDigits (low high : Nat) (a b : Char) : Bool :=
  let n := Numeral.natOfDigits [a, b]
  a.isDigit && b.isDigit && low ≤ n && n ≤ high

private def monthLength (year month : Nat) : Nat :=
  if month == 2 then
    if year % 4 == 0 && (year % 100 != 0 || year % 400 == 0) then 29 else 28
  else if month == 4 || month == 6 || month == 9 || month == 11 then 30
  else 31

private def date? : List Char → Option (List Char)
  | y1 :: y2 :: y3 :: y4 :: '-' :: m1 :: m2 :: '-' :: d1 :: d2 :: rest =>
      let year := [y1, y2, y3, y4]
      let limit := monthLength (Numeral.natOfDigits year) (Numeral.natOfDigits [m1, m2])
      if year.all Char.isDigit && twoDigits 1 12 m1 m2 && twoDigits 1 limit d1 d2 then
        some rest
      else
        none
  | _ => none

private def time? : List Char → Option (List Char)
  | h1 :: h2 :: ':' :: m1 :: m2 :: ':' :: s1 :: s2 :: rest =>
      if twoDigits 0 23 h1 h2 && twoDigits 0 59 m1 m2 && twoDigits 0 60 s1 s2 then
        match rest with
        | '.' :: more =>
            if (more.takeWhile Char.isDigit).isEmpty then none
            else some (more.dropWhile Char.isDigit)
        | _ => some rest
      else
        none
  | _ => none

private def isOffset : List Char → Bool
  | [] => true
  | ['Z'] | ['z'] => true
  | [sign, h1, h2, ':', m1, m2] =>
      (sign == '+' || sign == '-') && twoDigits 0 23 h1 h2 && twoDigits 0 59 m1 m2
  | _ => false

private def isMoment (cs : List Char) : Bool :=
  match date? cs with
  | some [] => true
  | some (c :: rest) =>
      (c == 'T' || c == 't' || c == ' ') && (time? rest).any isOffset
  | none => time? cs == some []

private def isScalarChar (c : Char) : Bool :=
  c.isAlphanum || c == '_' || c == '-' || c == '+' || c == '.' || c == ':'

def readBare : Reader Value := do
  let run ← takeWhile isScalarChar
  let rest ← get
  let more := match rest with
    | ' ' :: c :: _ =>
        if c.isDigit && date? run == some [] then
          ' ' :: (rest.drop 1).takeWhile isScalarChar
        else
          []
    | _ => []
  if !more.isEmpty && isMoment (run ++ more) then
    drop more.length
    return .moment (String.ofList (run ++ more))
  match run with
  | ['t', 'r', 'u', 'e'] => return .boolean true
  | ['f', 'a', 'l', 's', 'e'] => return .boolean false
  | '0' :: 'x' :: digits => liftM (based isHex 16 digits)
  | '0' :: 'o' :: digits => liftM (based (fun c => '0' ≤ c && c ≤ '7') 8 digits)
  | '0' :: 'b' :: digits => liftM (based (fun c => c == '0' || c == '1') 2 digits)
  | _ =>
      if isMoment run then return .moment (String.ofList run)
      else liftM ((integer? run).orElse fun _ => decimal? run)

end Lexing.Toml
