import Lexing.Decimal.Layout

namespace Lexing

inductive Json where
  | null
  | bool (value : Bool)
  | natural (value : Nat)
  | number (value : Binary64)
  | text (value : String)
  | list (items : List Json)
  | object (fields : List (String × Json))
  deriving Repr, Inhabited

namespace Json

private def hexDigit (n : Nat) : Char := Nat.digitChar n

def escapeChar (c : Char) : List Char :=
  match c with
  | '"' => ['\\', '"']
  | '\\' => ['\\', '\\']
  | '\x08' => ['\\', 'b']
  | '\x0c' => ['\\', 'f']
  | '\n' => ['\\', 'n']
  | '\r' => ['\\', 'r']
  | '\t' => ['\\', 't']
  | c =>
      if c.toNat < 0x20 then
        ['\\', 'u', '0', '0', hexDigit (c.toNat / 16), hexDigit (c.toNat % 16)]
      else
        [c]

def quote (s : String) : String := String.ofList ('"' :: s.toList.flatMap escapeChar ++ ['"'])

def leaf : Json → String
  | .null => "null"
  | .bool b => if b then "true" else "false"
  | .natural n => toString n
  | .number x => Layout.structured.write x
  | .text s => quote s
  | .list _ => "[]"
  | .object _ => "\x7b\x7d"

mutual

private def compactOnto (acc : String) : Json → String
  | .list (item :: items) => compactItems (compactOnto (acc ++ "[") item) items ++ "]"
  | .object ((name, value) :: fields) =>
      compactFields (compactOnto (acc ++ "\x7b" ++ quote name ++ ":") value) fields ++ "\x7d"
  | value => acc ++ leaf value

private def compactItems (acc : String) : List Json → String
  | [] => acc
  | item :: items => compactItems (compactOnto (acc ++ ",") item) items

private def compactFields (acc : String) : List (String × Json) → String
  | [] => acc
  | (name, value) :: fields =>
      compactFields (compactOnto (acc ++ "," ++ quote name ++ ":") value) fields

end

def compact (value : Json) : String := compactOnto "" value

private def indent (depth : Nat) : String := "\n" ++ "".pushn ' ' (2 * depth)

mutual

private def prettyOnto (depth : Nat) (acc : String) : Json → String
  | .list (item :: items) =>
      prettyItems (depth + 1) (prettyOnto (depth + 1) (acc ++ "[" ++ indent (depth + 1)) item)
        items ++ indent depth ++ "]"
  | .object ((name, value) :: fields) =>
      prettyFields (depth + 1)
        (prettyOnto (depth + 1) (acc ++ "\x7b" ++ indent (depth + 1) ++ quote name ++ ": ") value)
        fields ++ indent depth ++ "\x7d"
  | value => acc ++ leaf value

private def prettyItems (depth : Nat) (acc : String) : List Json → String
  | [] => acc
  | item :: items =>
      prettyItems depth (prettyOnto depth (acc ++ "," ++ indent depth) item) items

private def prettyFields (depth : Nat) (acc : String) : List (String × Json) → String
  | [] => acc
  | (name, value) :: fields =>
      prettyFields depth (prettyOnto depth (acc ++ "," ++ indent depth ++ quote name ++ ": ") value)
        fields

end

def pretty (value : Json) : String := prettyOnto 0 "" value

private def insertField (field : String × Json) : List (String × Json) → List (String × Json)
  | [] => [field]
  | next :: fields =>
      if field.1 < next.1 then field :: next :: fields
      else next :: insertField field fields

mutual

def sorted : Json → Json
  | .list items => .list (sortedItems items)
  | .object fields => .object (sortedFields fields)
  | value => value

private def sortedItems : List Json → List Json
  | [] => []
  | item :: items => sorted item :: sortedItems items

private def sortedFields : List (String × Json) → List (String × Json)
  | [] => []
  | (name, value) :: fields => insertField (name, sorted value) (sortedFields fields)

end

def option {α : Type} (f : α → Json) : Option α → Json
  | some a => f a
  | none => .null

end Json

end Lexing
