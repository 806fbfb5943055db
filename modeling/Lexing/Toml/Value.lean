namespace Lexing.Toml

inductive Value where
  | text (value : String)
  | integer (value : Int)
  | decimal (digits : String)
  | boolean (value : Bool)
  | moment (digits : String)
  | list (items : List Value)
  | table (fields : List (String × Value))
  deriving Repr, Inhabited

namespace Value

mutual

def same : Value → Value → Bool
  | .text a, .text b => a == b
  | .integer a, .integer b => a == b
  | .decimal a, .decimal b => a == b
  | .boolean a, .boolean b => a == b
  | .moment a, .moment b => a == b
  | .list vs, .list ws => sameItems vs ws
  | .table fs, .table gs => sameFields fs gs
  | _, _ => false

def sameItems : List Value → List Value → Bool
  | [], [] => true
  | v :: vs, w :: ws => same v w && sameItems vs ws
  | _, _ => false

def sameFields : List (String × Value) → List (String × Value) → Bool
  | [], [] => true
  | (a, v) :: fs, (b, w) :: gs => a == b && same v w && sameFields fs gs
  | _, _ => false

end

mutual

theorem same_iff (v w : Value) : same v w = true ↔ v = w := by
  cases v <;> cases w <;> simp [same, sameItems_iff, sameFields_iff]

theorem sameItems_iff (vs ws : List Value) : sameItems vs ws = true ↔ vs = ws := by
  cases vs <;> cases ws <;> simp [sameItems, same_iff, sameItems_iff]

theorem sameFields_iff (fs gs : List (String × Value)) : sameFields fs gs = true ↔ fs = gs := by
  match fs, gs with
  | [], [] => simp [sameFields]
  | [], _ :: _ => simp [sameFields]
  | _ :: _, [] => simp [sameFields]
  | (a, v) :: fs, (b, w) :: gs => simp [sameFields, same_iff, sameFields_iff]

end

instance : DecidableEq Value := fun v w => decidable_of_iff (same v w = true) (same_iff v w)

end Value

inductive Origin where
  | implied
  | dotted
  | opened
  deriving DecidableEq, Repr

inductive Node where
  | value (v : Value)
  | table (origin : Origin) (entries : List (String × Node))
  | tables (last : List (String × Node)) (before : List (List (String × Node)))
  deriving Repr, Inhabited

abbrev Entries := List (String × Node)

namespace Node

mutual

def toValue : Node → Value
  | .value v => v
  | .table _ entries => .table (toFields entries)
  | .tables last before => .list (toTables before [.table (toFields last)])

def toFields : Entries → List (String × Value)
  | [] => []
  | (name, node) :: entries => (name, toValue node) :: toFields entries

def toTables : List Entries → List Value → List Value
  | [], after => after
  | entries :: before, after => toTables before (.table (toFields entries) :: after)

end

end Node

namespace Entries

def find? (entries : Entries) (name : String) : Option Node := entries.lookup name

def replace (entries : Entries) (name : String) (node : Node) : Entries :=
  entries.map fun entry => if entry.1 == name then (name, node) else entry

def change (byDots : Bool) (path : List String) (origin : Origin) (entries : Entries)
    (f : Origin → Entries → Option Entries) : Option Entries :=
  match path with
  | [] => f origin entries
  | name :: more =>
      match find? entries name with
      | none =>
          let made := if byDots then .dotted else .implied
          (change byDots more made [] f).map fun inner => entries ++ [(name, .table made inner)]
      | some (.value _) => none
      | some (.table made inner) =>
          if byDots && made == .opened then
            none
          else
            (change byDots more made inner f).map fun new => replace entries name (.table made new)
      | some (.tables last before) =>
          (change byDots more .opened last f).map fun new =>
            replace entries name (.tables new before)

def assign (last : String) (isDotted : Bool) (v : Value) (origin : Origin) (entries : Entries) :
    Option Entries :=
  if (origin == .dotted) != isDotted || (find? entries last).isSome then
    none
  else
    some (entries ++ [(last, .value v)])

def openTable (last : String) (_ : Origin) (entries : Entries) : Option Entries :=
  match find? entries last with
  | none => some (entries ++ [(last, .table .opened [])])
  | some (.table .implied inner) => some (replace entries last (.table .opened inner))
  | some _ => none

def openItem (last : String) (_ : Origin) (entries : Entries) : Option Entries :=
  match find? entries last with
  | none => some (entries ++ [(last, .tables [] [])])
  | some (.tables newest before) => some (replace entries last (.tables [] (newest :: before)))
  | some _ => none

end Entries

end Lexing.Toml
