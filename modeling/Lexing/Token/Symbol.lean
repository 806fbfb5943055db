namespace Lexing

inductive Category where
  | literal
  | assignment
  | structural
  | operator
  | keyword
  | separator
  | endOfInput
  | word
  | external
  deriving DecidableEq, Repr

def Category.name : Category → String
  | .literal => "literal"
  | .assignment => "assignment"
  | .structural => "structural"
  | .operator => "operator"
  | .keyword => "keyword"
  | .separator => "separator"
  | .endOfInput => "end"
  | .word => "word"
  | .external => "external"

inductive Symbol where
  | assign
  | assignAdd
  | assignSubtract
  | assignMultiply
  | assignDivide
  | assignModulo
  | assignBitOr
  | assignBitAnd
  | assignShiftLeft
  | assignShiftRight
  | leftParenthesis
  | rightParenthesis
  | leftSquare
  | rightSquare
  | leftCurly
  | rightCurly
  | dot
  | comma
  | colon
  | bitXor
  | bitAnd
  | shiftLeft
  | shiftRight
  | logicalOr
  | logicalAnd
  | logicalNot
  | equal
  | notEqual
  | lessOrEqual
  | greaterOrEqual
  | less
  | greater
  | approxEqual
  | approxNotEqual
  | plus
  | minus
  | star
  | percent
  | exponent
  | slash
  | pipe
  | tilde
  | range
  | assignBitXor
  | semicolon
  deriving DecidableEq, Repr

namespace Symbol

def all : List Symbol :=
  [.assign, .assignAdd, .assignSubtract, .assignMultiply, .assignDivide, .assignModulo,
    .assignBitOr, .assignBitAnd, .assignShiftLeft, .assignShiftRight, .leftParenthesis,
    .rightParenthesis, .leftSquare, .rightSquare, .leftCurly, .rightCurly, .dot, .comma, .colon,
    .bitXor, .bitAnd, .shiftLeft, .shiftRight, .logicalOr, .logicalAnd, .logicalNot, .equal,
    .notEqual, .lessOrEqual, .greaterOrEqual, .less, .greater, .approxEqual, .approxNotEqual, .plus,
    .minus, .star, .percent, .exponent, .slash, .pipe, .tilde, .range, .assignBitXor, .semicolon]

def spelling : Symbol → String
  | .assign => "="
  | .assignAdd => "+="
  | .assignSubtract => "-="
  | .assignMultiply => "*="
  | .assignDivide => "/="
  | .assignModulo => "%="
  | .assignBitOr => "|="
  | .assignBitAnd => "&="
  | .assignShiftLeft => "<<="
  | .assignShiftRight => ">>="
  | .leftParenthesis => "("
  | .rightParenthesis => ")"
  | .leftSquare => "["
  | .rightSquare => "]"
  | .leftCurly => "\x7b"
  | .rightCurly => "\x7d"
  | .dot => "."
  | .comma => ","
  | .colon => ":"
  | .bitXor => "^"
  | .bitAnd => "&"
  | .shiftLeft => "<<"
  | .shiftRight => ">>"
  | .logicalOr => "||"
  | .logicalAnd => "&&"
  | .logicalNot => "!"
  | .equal => "=="
  | .notEqual => "!="
  | .lessOrEqual => "<="
  | .greaterOrEqual => ">="
  | .less => "<"
  | .greater => ">"
  | .approxEqual => "~="
  | .approxNotEqual => "!~="
  | .plus => "+"
  | .minus => "-"
  | .star => "*"
  | .percent => "%"
  | .exponent => "**"
  | .slash => "/"
  | .pipe => "|"
  | .tilde => "~"
  | .range => "..."
  | .assignBitXor => "^="
  | .semicolon => ";"

def name : Symbol → String
  | .assign => "assignment"
  | .assignAdd => "assignment_add"
  | .assignSubtract => "assignment_subtract"
  | .assignMultiply => "assignment_multiply"
  | .assignDivide => "assignment_divide"
  | .assignModulo => "assignment_modulo"
  | .assignBitOr => "assignment_bit_or"
  | .assignBitAnd => "assignment_bit_and"
  | .assignShiftLeft => "assignment_bit_shift_left"
  | .assignShiftRight => "assignment_bit_shift_right"
  | .leftParenthesis => "left_parenthesis"
  | .rightParenthesis => "right_parenthesis"
  | .leftSquare => "left_square_brace"
  | .rightSquare => "right_square_brace"
  | .leftCurly => "left_curly_brace"
  | .rightCurly => "right_curly_brace"
  | .dot => "dot"
  | .comma => "comma"
  | .colon => "colon"
  | .bitXor => "bit_xor"
  | .bitAnd => "bit_and"
  | .shiftLeft => "bit_shift_left"
  | .shiftRight => "bit_shift_right"
  | .logicalOr => "logical_or"
  | .logicalAnd => "logical_and"
  | .logicalNot => "logical_not"
  | .equal => "equal"
  | .notEqual => "not_equal"
  | .lessOrEqual => "equal_less_than"
  | .greaterOrEqual => "equal_greater_than"
  | .less => "less_than"
  | .greater => "greater_than"
  | .approxEqual => "approx_equal"
  | .approxNotEqual => "approx_notequal"
  | .plus => "plus"
  | .minus => "minus"
  | .star => "star"
  | .percent => "percent"
  | .exponent => "exponent"
  | .slash => "slash"
  | .pipe => "pipe"
  | .tilde => "tilde"
  | .range => "range"
  | .assignBitXor => "assignment_bit_xor"
  | .semicolon => "semicolon"

def category : Symbol → Category
  | .assign | .assignAdd | .assignSubtract | .assignMultiply | .assignDivide | .assignModulo
  | .assignBitOr | .assignBitAnd | .assignShiftLeft | .assignShiftRight | .assignBitXor =>
      .assignment
  | .leftParenthesis | .rightParenthesis | .leftSquare | .rightSquare | .leftCurly | .rightCurly
  | .dot | .comma | .colon => .structural
  | .semicolon => .separator
  | _ => .operator

def letters (s : Symbol) : List Char := s.spelling.toList

def longestFirst : List (List Char × Symbol) :=
  [3, 2, 1].flatMap fun n =>
    (all.filter fun s => s.letters.length == n).map fun s => (s.letters, s)

def longest? (cs : List Char) : Option Symbol :=
  (longestFirst.find? fun entry => entry.1.isPrefixOf cs).map (·.2)

end Symbol

end Lexing
