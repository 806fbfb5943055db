import Lexing.Source.ByteCursor
import Lexing.Source.Cursor
import Mathlib.Data.List.TakeWhile
import Mathlib.Logic.Function.Iterate

namespace Lexing

theorem Cursor.skip_of_rest {c : Cursor} (h : c.rest = []) (n : Nat) : c.skip n = c := by
  obtain ⟨file, passed, rest, offset, line, hoffset, hline⟩ := c
  obtain rfl : rest = [] := h
  simp [skip]

namespace ByteCursor

inductive Request where
  | peek (k : Nat)
  | current
  | advance
  | advanceBy (n : Nat)
  | eat (expected : Char)
  | eatText (text : List Char)
  | advanceWhile (p : Char → Bool)
  | startsWith (text : List Char)
  | rest
  | sliceFrom (start : Nat)

def step (b : ByteCursor) : Request → ByteCursor
  | .advance => b.advance.2
  | .advanceBy n => (b.advanceBy n).2
  | .eat expected => (b.eat expected).2
  | .eatText text => (b.eatText text).2
  | .advanceWhile p => (b.advanceWhile p).2
  | .peek _ | .current | .startsWith _ | .rest | .sliceFrom _ => b

def run (b : ByteCursor) (requests : List Request) : ByteCursor := requests.foldl step b

structure Passes (b : ByteCursor) (text : List Char) (d : ByteCursor) : Prop where
  rest_eq : b.rest = text ++ d.rest
  offset_eq : d.offset = b.offset + Text.size text
  line_eq : d.line.toNat = b.line.toNat + text.count '\n'
  source_eq : d.source = b.source
  file_eq : d.file = b.file

structure StandsIn (b : ByteCursor) (source : List Char) : Prop where
  cut : ∃ before, source = before ++ b.rest ∧ b.offset = Text.size before ∧
    b.line.toNat = 1 + before.count '\n'
  offset_le : b.offset ≤ Text.size source
  source_eq : b.source = source

structure Answers (b : ByteCursor) : Prop where
  peek : ∀ k, b.peek k = ((fun d : ByteCursor => d.advance.2)^[k] b).advance.1
  current : b.current = b.rest.head?
  startsWith : ∀ text, b.startsWith text ↔ text <+: b.rest
  advance : b.advance.1 = b.rest.head? ∧ b.Passes b.advance.1.toList b.advance.2
  advanceBy : ∀ n, (b.advanceBy n).1 = min n b.rest.length ∧
    ∃ text, text.length = (b.advanceBy n).1 ∧ b.Passes text (b.advanceBy n).2
  eat : ∀ expected, b.rest.head? = some expected →
    (b.eat expected).1 = true ∧ b.Passes [expected] (b.eat expected).2
  eat_not : ∀ expected, b.rest.head? ≠ some expected → b.eat expected = (false, b)
  eatText : ∀ text, text ≠ [] → text <+: b.rest →
    (b.eatText text).1 = true ∧ b.Passes text (b.eatText text).2
  eatText_not : ∀ text, ¬(text ≠ [] ∧ text <+: b.rest) → b.eatText text = (false, b)
  advanceWhile : ∀ p : Char → Bool, ∃ text, (∀ x ∈ text, p x) ∧
    (∀ other, other <+: b.rest → (∀ x ∈ other, p x) → other <+: text) ∧
    (b.advanceWhile p).1 = Text.size text ∧ b.Passes text (b.advanceWhile p).2

def ofCursor (c : Cursor) : ByteCursor := ⟨c.file, c.source, c.offset, .ofNat c.line⟩

variable (c : Cursor)

theorem split?_ofCursor : Text.split? c.source c.offset = some (c.passed.reverse, c.rest) := by
  rw [c.offset_eq, ← Text.size_reverse]
  exact Text.split?_append ..

theorem rest_ofCursor : (ofCursor c).rest = c.rest := by
  rw [rest, ofCursor, split?_ofCursor]
  rfl

theorem current_ofCursor : (ofCursor c).current = c.rest.head? := by rw [current, rest_ofCursor]

theorem advance_ofCursor : (ofCursor c).advance = (c.rest.head?, ofCursor (c.skip 1)) := by
  rw [advance, current_ofCursor]
  cases hrest : c.rest with
  | nil => rw [List.head?_nil, Cursor.skip_of_rest hrest]
  | cons x cs =>
      by_cases hx : x = '\n' <;> simp [ofCursor, hrest, hx, UInt32.ofNat_add]

theorem advanceBy_ofCursor (n : Nat) :
    (ofCursor c).advanceBy n = (min n c.rest.length, ofCursor (c.skip n)) := by
  have hgo (consumed : Nat) : advanceBy.go n consumed (ofCursor c) =
      (consumed + min (n - consumed) c.rest.length, ofCursor (c.skip (n - consumed))) := by
    induction hleft : n - consumed generalizing c consumed with
    | zero => rw [advanceBy.go, if_neg (by omega), Nat.zero_min, Nat.add_zero, c.skip_zero]
    | succ left ih =>
        rw [advanceBy.go, if_pos (by omega), advance_ofCursor]
        cases hrest : c.rest with
        | nil => simp [Cursor.skip_of_rest hrest]
        | cons x cs =>
            have hskip : c.skip (left + 1) = (c.skip 1).skip left := by
              rw [c.skip_skip, Nat.add_comm]
            simp only [List.head?_cons, ih (c.skip 1) (consumed + 1) (by omega), hskip,
              Cursor.skip_rest, hrest, List.drop_one, List.tail_cons, List.length_cons]
            congr 1
            omega
  simpa [advanceBy] using hgo 0

theorem startsWith_ofCursor (text : List Char) :
    (ofCursor c).startsWith text ↔ text <+: c.rest := by
  rw [startsWith, rest_ofCursor]
  exact List.isPrefixOf_iff_prefix

theorem eat_ofCursor (expected : Char) : (ofCursor c).eat expected =
    if c.rest.head? = some expected then (true, ofCursor (c.skip 1)) else (false, ofCursor c) := by
  rw [eat, current_ofCursor, advance_ofCursor]

theorem eatText_ofCursor (text : List Char) : (ofCursor c).eatText text =
    if text ≠ [] ∧ text <+: c.rest then (true, ofCursor (c.skip text.length))
    else (false, ofCursor c) := by
  simp only [eatText, advanceBy_ofCursor, Bool.and_eq_true, startsWith_ofCursor]
  simp

theorem skipWhile_ofCursor (p : Char → Bool) :
    (ofCursor c).skipWhile p = ofCursor (c.skip (c.rest.takeWhile p).length) := by
  induction hrest : c.rest generalizing c with
  | nil =>
      rw [skipWhile, Cursor.skip_of_rest hrest]
      split
      · rfl
      · next hcurrent => simp [current_ofCursor, hrest] at hcurrent
  | cons x cs ih =>
      have hnext : (c.skip 1).rest = cs := by rw [Cursor.skip_rest, hrest, List.drop_one,
        List.tail_cons]
      rw [skipWhile]
      split
      · next hcurrent => simp [current_ofCursor, hrest] at hcurrent
      · next y hcurrent =>
          obtain rfl : x = y := by simpa [current_ofCursor, hrest] using hcurrent
          by_cases hx : p x
          · rw [if_pos hx, advance_ofCursor, ih _ hnext, Cursor.skip_skip,
              List.takeWhile_cons_of_pos hx, List.length_cons, Nat.add_comm]
          · rw [if_neg hx, List.takeWhile_cons_of_neg hx, List.length_nil, Cursor.skip_zero]

theorem advanceWhile_ofCursor (p : Char → Bool) : (ofCursor c).advanceWhile p =
    (Text.size (c.rest.takeWhile p), ofCursor (c.skip (c.rest.takeWhile p).length)) := by
  have htake : c.rest.take (c.rest.takeWhile p).length = c.rest.takeWhile p :=
    (List.prefix_iff_eq_take.1 (List.takeWhile_prefix p)).symm
  rw [advanceWhile, skipWhile_ofCursor]
  simp [ofCursor, htake]

theorem iterate_advance_ofCursor (n : Nat) :
    (fun d : ByteCursor => d.advance.2)^[n] (ofCursor c) = ofCursor (c.skip n) := by
  induction n generalizing c with
  | zero => rw [c.skip_zero, Function.iterate_zero_apply]
  | succ n ih => rw [Function.iterate_succ_apply, advance_ofCursor, ih, c.skip_skip, Nat.add_comm]

theorem exists_skip_step (r : Request) : ∃ n, (ofCursor c).step r = ofCursor (c.skip n) := by
  have hstay : ∃ n, ofCursor c = ofCursor (c.skip n) := ⟨0, by rw [c.skip_zero]⟩
  cases r with
  | advance => exact ⟨1, congrArg Prod.snd (advance_ofCursor c)⟩
  | advanceBy n => exact ⟨n, congrArg Prod.snd (advanceBy_ofCursor c n)⟩
  | eat expected =>
      rw [step, eat_ofCursor]
      split
      · exact ⟨1, rfl⟩
      · exact hstay
  | eatText text =>
      rw [step, eatText_ofCursor]
      split
      · exact ⟨text.length, rfl⟩
      · exact hstay
  | advanceWhile p => exact ⟨_, congrArg Prod.snd (advanceWhile_ofCursor c p)⟩
  | _ => exact hstay

theorem exists_skip_run (requests : List Request) :
    ∃ n, (ofCursor c).run requests = ofCursor (c.skip n) := by
  induction requests generalizing c with
  | nil => exact ⟨0, by rw [c.skip_zero]; rfl⟩
  | cons r requests ih =>
      obtain ⟨m, hm⟩ := exists_skip_step c r
      obtain ⟨n, hn⟩ := ih (c.skip m)
      refine ⟨m + n, ?_⟩
      rw [← c.skip_skip, ← hn, ← hm]
      rfl

theorem prefix_takeWhile {text more : List Char} {p : Char → Bool} (h : more <+: text)
    (hp : ∀ x ∈ more, p x) : more <+: text.takeWhile p := by
  obtain ⟨rest, rfl⟩ := h
  rw [List.takeWhile_append_of_pos hp]
  exact List.prefix_append ..

section Bounded

variable {c} (h : c.source.count '\n' < UInt32.size - 1)
include h

theorem toNat_line_ofCursor (n : Nat) : (ofCursor (c.skip n)).line.toNat = (c.skip n).line := by
  have hline := (c.skip n).line_le
  rw [c.source_skip] at hline
  exact UInt32.toNat_ofNat_of_lt' (by omega)

theorem passes_skip (n : Nat) : (ofCursor c).Passes (c.rest.take n) (ofCursor (c.skip n)) where
  rest_eq := by rw [rest_ofCursor, rest_ofCursor, c.skip_rest, List.take_append_drop]
  offset_eq := rfl
  line_eq := by
    have hline := toNat_line_ofCursor h 0
    rw [c.skip_zero] at hline
    rw [toNat_line_ofCursor h, hline, c.skip_line]
  source_eq := c.source_skip n
  file_eq := rfl

theorem passes_skip_length {text : List Char} (htext : text <+: c.rest) :
    (ofCursor c).Passes text (ofCursor (c.skip text.length)) := by
  have hskip := passes_skip h text.length
  rwa [← List.prefix_iff_eq_take.1 htext] at hskip

theorem standsIn_ofCursor : (ofCursor c).StandsIn c.source where
  cut := by
    have hline := toNat_line_ofCursor h 0
    rw [c.skip_zero] at hline
    refine ⟨c.passed.reverse, ?_, ?_, ?_⟩
    · rw [rest_ofCursor, Cursor.source]
    · rw [Text.size_reverse, ← c.offset_eq, ofCursor]
    · rw [hline, List.count_reverse, ← c.line_eq]
  offset_le := by
    rw [ofCursor, c.offset_eq, Cursor.source, Text.size_append, Text.size_reverse]
    exact Nat.le_add_right ..
  source_eq := rfl

theorem answers_ofCursor : (ofCursor c).Answers where
  peek k := by
    rw [iterate_advance_ofCursor, advance_ofCursor, peek, rest_ofCursor, c.skip_rest,
      List.head?_drop]
  current := rfl
  startsWith text := by rw [startsWith_ofCursor, rest_ofCursor]
  advance := by
    have hskip := passes_skip h 1
    rw [List.take_one] at hskip
    rw [advance_ofCursor, rest_ofCursor]
    exact ⟨rfl, hskip⟩
  advanceBy n := by
    rw [advanceBy_ofCursor, rest_ofCursor]
    exact ⟨rfl, c.rest.take n, List.length_take, passes_skip h n⟩
  eat expected hexpected := by
    rw [rest_ofCursor] at hexpected
    have hskip := passes_skip h 1
    rw [List.take_one, hexpected] at hskip
    rw [eat_ofCursor, if_pos hexpected]
    exact ⟨rfl, hskip⟩
  eat_not expected hother := by
    rw [rest_ofCursor] at hother
    rw [eat_ofCursor, if_neg hother]
  eatText text hne htext := by
    rw [rest_ofCursor] at htext
    rw [eatText_ofCursor, if_pos ⟨hne, htext⟩]
    exact ⟨rfl, passes_skip_length h htext⟩
  eatText_not text hother := by
    rw [rest_ofCursor] at hother
    rw [eatText_ofCursor, if_neg hother]
  advanceWhile p := by
    rw [advanceWhile_ofCursor, rest_ofCursor]
    exact ⟨c.rest.takeWhile p, fun x hx => List.mem_takeWhile_imp hx,
      fun other => prefix_takeWhile, rfl, passes_skip_length h (List.takeWhile_prefix p)⟩

end Bounded

theorem sliceFrom_skip (n : Nat) :
    (ofCursor (c.skip n)).sliceFrom (ofCursor c).offset = c.rest.take n := by
  have hsource : c.source = c.passed.reverse ++ c.rest.take n ++ c.rest.drop n := by
    rw [List.append_assoc, List.take_append_drop, Cursor.source]
  have hslice := Text.slice_append c.passed.reverse (c.rest.take n) (c.rest.drop n)
  rw [← hsource, Text.size_reverse, ← c.offset_eq] at hslice
  rw [sliceFrom, ofCursor, ofCursor, c.source_skip, c.skip_offset]
  exact hslice

theorem run_moves (file : String) (source : List Char) (earlier later : List Request)
    (h : source.count '\n' < UInt32.size - 1) :
    let c := (ofText file source).run earlier
    let d := c.run later
    d.StandsIn source ∧ d.Answers ∧ c.offset ≤ d.offset ∧
      ∃ text, c.rest = text ++ d.rest ∧ d.sliceFrom c.offset = text := by
  have hstart : ofText file source = ofCursor (.ofText file source) := rfl
  obtain ⟨m, hm⟩ := exists_skip_run (.ofText file source) earlier
  obtain ⟨n, hn⟩ := exists_skip_run ((Cursor.ofText file source).skip m) later
  rw [hstart]
  simp only [hm, hn]
  generalize hc : (Cursor.ofText file source).skip m = c
  have hsource : c.source = source := by rw [← hc, Cursor.source_skip]; rfl
  have hlines : c.source.count '\n' < UInt32.size - 1 := by rwa [hsource]
  have hlater : (c.skip n).source.count '\n' < UInt32.size - 1 := by rwa [c.source_skip]
  have hpasses := passes_skip hlines n
  refine ⟨?_, answers_ofCursor hlater, ?_, c.rest.take n, hpasses.rest_eq, sliceFrom_skip c n⟩
  · have hstands := standsIn_ofCursor hlater
    rwa [c.source_skip, hsource] at hstands
  · rw [hpasses.offset_eq]
    exact Nat.le_add_right ..

theorem run_moves_accented :
    let source := ['a', '\n', 'é', '<', '=', '1']
    let c := (ofText "t" source).run [.advance, .eat 'b', .advanceBy 2]
    let d := c.run [.eatText ['<', '='], .advanceWhile Char.isDigit, .advanceBy 18446744073709551615]
    source.count '\n' < UInt32.size - 1 ∧ d.StandsIn source ∧ d.Answers ∧ c.offset ≤ d.offset ∧
      ∃ text, c.rest = text ++ d.rest ∧ d.sliceFrom c.offset = text := by
  intro source c d
  have hlines : source.count '\n' < UInt32.size - 1 := by decide
  exact ⟨hlines, run_moves "t" source _ _ hlines⟩

end ByteCursor

end Lexing
