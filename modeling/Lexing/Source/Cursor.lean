import Lexing.Source.Span

namespace Lexing

structure Cursor where
  file : String
  /-- The characters passed, the last one first. -/
  passed : List Char
  rest : List Char
  offset : Nat
  line : Nat
  offset_eq : offset = Text.size passed
  line_eq : line = 1 + passed.count '\n'

namespace Cursor

def ofText (file : String) (cs : List Char) : Cursor := ⟨file, [], cs, 0, 1, rfl, rfl⟩

def source (c : Cursor) : List Char := c.passed.reverse ++ c.rest

def atEnd (c : Cursor) : Bool := c.rest.isEmpty

def skip (c : Cursor) (n : Nat) : Cursor where
  file := c.file
  passed := (c.rest.take n).reverse ++ c.passed
  rest := c.rest.drop n
  offset := c.offset + Text.size (c.rest.take n)
  line := c.line + (c.rest.take n).count '\n'
  offset_eq := by simp [c.offset_eq, Nat.add_comm]
  line_eq := by simp only [c.line_eq, List.count_append, List.count_reverse]; omega

@[simp]
theorem skip_rest (c : Cursor) (n : Nat) : (c.skip n).rest = c.rest.drop n := rfl

@[simp]
theorem skip_file (c : Cursor) (n : Nat) : (c.skip n).file = c.file := rfl

@[simp]
theorem skip_offset (c : Cursor) (n : Nat) :
    (c.skip n).offset = c.offset + Text.size (c.rest.take n) := rfl

@[simp]
theorem skip_line (c : Cursor) (n : Nat) :
    (c.skip n).line = c.line + (c.rest.take n).count '\n' := rfl

@[simp]
theorem skip_zero (c : Cursor) : c.skip 0 = c := by simp [skip]

theorem skip_skip (c : Cursor) (m n : Nat) : (c.skip m).skip n = c.skip (m + n) := by
  simp [skip, List.take_add, Nat.add_assoc]

@[simp]
theorem source_skip (c : Cursor) (n : Nat) : (c.skip n).source = c.source := by
  simp [source, skip]

theorem line_le (c : Cursor) : c.line ≤ 1 + c.source.count '\n' := by
  rw [c.line_eq, source, List.count_append, List.count_reverse]
  omega

def position (c : Cursor) : Position := ⟨c.file, c.line⟩

end Cursor

end Lexing
