import Lexing.Scan.Lexeme

namespace Lexing

def Fault.stop (f : Fault) : Nat := f.offset + Text.size f.lexeme

def Fault.Within (f : Fault) (text : List Char) : Prop :=
  ∃ before after, text = before ++ f.lexeme ++ after ∧ f.lexeme ≠ [] ∧
    f.offset = Text.size before ∧ f.lines = before.count '\n'

theorem Fault.within_whole {text : List Char} (h : text ≠ []) (cause : Cause) :
    (Fault.whole text cause).Within text :=
  ⟨[], [], by simp [Fault.whole], h, rfl, rfl⟩

@[simp]
theorem Fault.stop_whole (text : List Char) (cause : Cause) :
    (Fault.whole text cause).stop = Text.size text := by
  simp [Fault.whole, Fault.stop]

theorem Fault.Within.stop_le {f : Fault} {text : List Char} (h : f.Within text) :
    f.stop ≤ Text.size text := by
  obtain ⟨before, after, rfl, -, hoffset, -⟩ := h
  simp only [stop, hoffset, Text.size_append]
  omega

inductive Comments.Covers (k : Comments) (text after : List Char) : Prop
  | line (opening : String) : opening ∈ k.line → opening.toList ≠ [] →
      opening.toList <+: text ++ after → '\n' ∉ text →
      (after = [] ∨ after.head? = some '\n') → Covers k text after
  | block (opening closing : String) (body : List Char) : k.block = some (opening, closing) →
      opening.toList ≠ [] → closing.toList ≠ [] →
      text = opening.toList ++ body ++ closing.toList →
      (∀ n < body.length, ¬ closing.toList <+: (body ++ closing.toList ++ after).drop n) →
      Covers k text after
  | unclosed (opening closing : String) (body : List Char) : k.block = some (opening, closing) →
      opening.toList ≠ [] → closing.toList ≠ [] → text = opening.toList ++ body → after = [] →
      (∀ n, ¬ closing.toList <+: body.drop n) → Covers k text after

inductive NumberLiteral.Reads (text : List Char) (x : Magnitude) : Prop
  | whole (digits : List Char) : digits ≠ [] → (∀ c ∈ digits, c.isDigit) →
      (Numeral.ofParts digits []).magnitude? = some x → text = digits → Reads text x
  | decimal (digits fraction : List Char) : digits ≠ [] → fraction ≠ [] →
      (∀ c ∈ digits ++ fraction, c.isDigit) →
      (Numeral.ofParts digits fraction).magnitude? = some x → text = digits ++ '.' :: fraction →
      Reads text x

inductive Content.Reads (r : Recognizers) (text after : List Char) : Content → Prop
  | number (x : Magnitude) : NumberLiteral.Reads text x →
      Reads r text after (.number (.finite false x))
  | string (quote : Char) (items : List Quotation.Item) : Lexeme.isQuote quote →
      (∀ i ∈ items, i.isValid) → text = quote :: items.flatMap Quotation.Item.text ++ [quote] →
      Reads r text after (.string (String.ofList (items.flatMap Quotation.Item.decoded)))
  | symbol (s : Symbol) : text = s.letters → Reads r text after (.symbol s)
  | keyword (k : Keyword) : text = k.spelling.toList → Reads r text after (.keyword k)
  | word (first : Char) (more : List Char) : isWordStart first → (∀ c ∈ more, isWordChar c) →
      Keyword.ofSpelling? (String.ofList text) = none → text = first :: more →
      Reads r text after (.word (String.ofList text))
  | newline : text = ['\n'] → Reads r text after .newline
  | external (m : Recognition) : r.recognize (text ++ after) = some m →
      text = (text ++ after).take m.count → Reads r text after (.external m.kind m.payload)

inductive Quotation.Refuses (limit : Nat) (quote : Char) (items : List Item) (after : List Char)
    (text : List Char) : List Char → List Fault → Prop
  | escape (faults : List Fault) : faults ≠ [] → (∃ i ∈ items, i.isValid = false) →
      (∀ f ∈ faults, f.cause = .invalidEscapeSequence) →
      Refuses limit quote items after text [quote] faults
  | tooLarge : (∀ i ∈ items, i.isValid) → limit < Text.size (items.flatMap Item.decoded) →
      Refuses limit quote items after text [quote]
        [.whole text (.stringTooLarge (Text.size (items.flatMap Item.decoded)) limit)]
  | unterminated (tail : List Char) (faults : List Fault) : (∀ c ∈ tail, c = '\\') →
      (after = [] ∨ after.head? = some '\n') → (∀ f ∈ faults, f.cause = .invalidEscapeSequence) →
      Refuses limit quote items after text tail (faults ++ [.whole text .unterminatedString])

inductive Rejects (o : Options) (r : Recognizers) (text after : List Char) (faults : List Fault) :
    Prop
  | character (c : Char) : c ≠ '\n' → ¬ c.isDigit → ¬ Lexeme.isQuote c → ¬ isWordStart c →
      (∀ s : Symbol, ¬ s.letters <+: c :: after) → r.recognize (c :: after) = none → text = [c] →
      faults = [.whole text .unrecognizedCharacter] → Rejects o r text after faults
  | number (first : Char) (more : List Char) : first.isDigit →
      (∀ c ∈ more, isWordChar c ∨ c = '.') → (∀ x, ¬ NumberLiteral.Reads text x) →
      text = first :: more → faults = [.whole text .malformedNumber] → Rejects o r text after faults
  | string (quote : Char) (items : List Quotation.Item) (tail : List Char) : Lexeme.isQuote quote →
      text = quote :: (items.flatMap Quotation.Item.text ++ tail) →
      Quotation.Refuses o.maxString quote items after text tail faults → Rejects o r text after faults
  | word (first : Char) (more : List Char) : isWordStart first → (∀ c ∈ more, isWordChar c) →
      text = first :: more → o.maxIdentifier < Text.size text →
      faults = [.whole text (.identifierTooLong (Text.size text) o.maxIdentifier)] →
      Rejects o r text after faults

theorem Rejects.faults_ne_nil {o : Options} {r : Recognizers} {text after : List Char}
    {faults : List Fault} (h : Rejects o r text after faults) : faults ≠ [] := by
  cases h with
  | character c _ _ _ _ _ _ _ hf => simp [hf]
  | number first more _ _ _ _ hf => simp [hf]
  | string quote items tail _ _ hr =>
      cases hr with
      | escape _ hf => exact hf
      | tooLarge => simp
      | unterminated => simp
  | word first more _ _ _ _ hf => simp [hf]

namespace Piece

def IsOf (o : Options) (r : Recognizers) (p : Piece) (after : List Char) : PieceSort → Prop
  | .blank => p.faults = [] ∧ ∀ c ∈ p.text, isHorizontal c
  | .comment => o.comments.Covers p.text after
  | .token content => p.faults = [] ∧ content.Reads r p.text after
  | .rejected => Rejects o r p.text after p.faults

structure Opens (o : Options) (r : Recognizers) (p : Piece) (text after : List Char) : Prop where
  text_eq : p.text ++ after = text
  isOf : p.IsOf o r after p.sort
  within : ∀ f ∈ p.faults, f.Within p.text

theorem Opens.exists_cons {o : Options} {r : Recognizers} {p : Piece} {c : Char} {cs after : List Char}
    (h : p.Opens o r (c :: cs) after) : ∃ tail, p.text = c :: tail ∧ tail ++ after = cs := by
  have htext := h.text_eq
  obtain ⟨first, tail, hcons⟩ := List.exists_cons_of_ne_nil p.text_ne_nil
  rw [hcons, List.cons_append, List.cons.injEq] at htext
  exact ⟨tail, by rw [hcons, htext.1], htext.2⟩

theorem opens_tokenOf {o : Options} {r : Recognizers} {c : Char} {cs text after : List Char}
    {content : Content} (htext : c :: cs ++ after = text) (h : content.Reads r (c :: cs) after) :
    (tokenOf c cs content).Opens o r text after where
  text_eq := htext
  isOf := ⟨rfl, h⟩
  within := by simp [tokenOf]

theorem opens_rejectedOf {o : Options} {r : Recognizers} {c : Char} {cs text after : List Char}
    {cause : Cause} (htext : c :: cs ++ after = text)
    (h : Rejects o r (c :: cs) after [.whole (c :: cs) cause]) :
    (rejectedOf c cs cause).Opens o r text after where
  text_eq := htext
  isOf := h
  within f hf := by
    obtain rfl : f = .whole (c :: cs) cause := by simpa [rejectedOf] using hf
    exact Fault.within_whole (List.cons_ne_nil c cs) cause

end Piece

end Lexing
