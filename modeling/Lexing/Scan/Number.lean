import Lexing.Scan.Word

namespace Lexing

namespace NumberLiteral

def finish (c : Char) (whole fraction rest : List Char) : Piece :=
  let read := if fraction.isEmpty then whole else whole ++ '.' :: fraction
  match rest.takeWhile isWordChar with
  | [] =>
      match (Numeral.ofParts (c :: whole) fraction).magnitude? with
      | some x => .tokenOf c read (.number (.finite false x))
      | none => .rejectedOf c read .malformedNumber
  | run => .rejectedOf c (read ++ run) .malformedNumber

def next (c : Char) (cs : List Char) : Piece :=
  let whole := cs.takeWhile Char.isDigit
  match cs.dropWhile Char.isDigit with
  | '.' :: '.' :: rest => finish c whole [] ('.' :: '.' :: rest)
  | '.' :: rest =>
      let fraction := rest.takeWhile Char.isDigit
      if fraction.isEmpty then
        .rejectedOf c (whole ++ ['.']) .malformedNumber
      else
        match rest.dropWhile Char.isDigit with
        | '.' :: '.' :: more => finish c whole fraction ('.' :: '.' :: more)
        | '.' :: more =>
            let run := more.takeWhile fun d => isWordChar d || d == '.'
            .rejectedOf c (whole ++ '.' :: fraction ++ '.' :: run) .malformedNumber
        | more => finish c whole fraction more
  | rest => finish c whole [] rest

end NumberLiteral

end Lexing
