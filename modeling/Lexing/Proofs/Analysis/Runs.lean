import Lexing.Analysis.Basic
import Lexing.Proofs.Analysis.Tallies
import Lexing.Proofs.Stream.Lines

namespace Lexing

structure Metrics.Describes (m : Metrics) (detailed : Bool) (text : String) (stream : TokenStream) :
    Prop where
  total_eq : m.total = stream.size
  total_parts : m.total = 1 + m.numbers + m.strings + m.keywords + m.words + m.operators +
    m.assignments + m.structural + m.separators + m.external
  numbers_eq : m.numbers = stream.tokens.toList.countP (·.kind = .number)
  strings_eq : m.strings = stream.tokens.toList.countP (·.kind = .string)
  tally_eq : ∀ g, g ≠ .endOfInput →
    m.tally g = stream.tokens.toList.countP (·.kind.Belongs g)
  diagnostics_eq : m.diagnostics = stream.diagnostics.length
  longestWord_eq :
    m.longestWord = (stream.tokens.toList.filterMap (Token.textSize? .word)).max?.getD 0
  longestString_eq :
    m.longestString = (stream.tokens.toList.filterMap (Token.textSize? .string)).max?.getD 0
  lines_eq : m.lines.toNat = 1 + text.toList.count '\n'
  counts_eq : stream.counts = ⟨m.total, m.numbers + m.strings, m.keywords, m.words,
    m.operators + m.assignments, m.structural, m.separators, m.external⟩
  kinds_sorted : (m.kinds.map Prod.fst).Pairwise (· < ·)
  mem_kinds : detailed = true → ∀ name n, (name, n) ∈ m.kinds ↔
    n = stream.tokens.toList.countP (·.kind.toString = name) ∧ 0 < n
  sum_kinds : detailed = true → (m.kinds.map Prod.snd).sum = m.total
  kinds_eq : detailed = false → m.kinds = []

namespace StreamBuilder

variable {b : StreamBuilder} {limit : Nat}

theorem ending_of_not_isEnded (h : ¬ b.isEnded) : b.ending = none := by simpa [isEnded] using h

theorem finish_readUpTo (limit : Nat) (b : StreamBuilder) :
    (b.readUpTo limit).finish = b.finish := by
  fun_induction readUpTo limit b with
  | case1 => rfl
  | case2 => rfl
  | case3 b hended hlt ih => rw [ih, finish_of_none (ending_of_not_isEnded hended)]

theorem isEnded_readUpTo (h : b.finish.size ≤ limit) : (b.readUpTo limit).isEnded := by
  fun_induction readUpTo limit b with
  | case1 b hended => exact hended
  | case2 b hended hle =>
      -- Short of the end a token is still to come, so what is read is not yet the limit.
      obtain ⟨more, htokens, hmore⟩ := b.tokens_finish
      have hne : more ≠ [] := fun hnil => hended (hmore.1 hnil)
      have hpos := List.length_pos_of_ne_nil hne
      have hlength := congrArg List.length htokens
      rw [List.length_append, Array.length_toList, TokenStream.size_tokens,
        ← size_eq_length_read] at hlength
      omega
  | case3 b hended hlt ih => exact ih (by rwa [← finish_of_none (ending_of_not_isEnded hended)])

end StreamBuilder

namespace TokenStream

theorem countP_kind_ne_scan (s : Scanner) :
    (scan s).tokens.toList.countP (·.kind ≠ .endOfInput) = (scan s).body.size := by
  have hbody : (scan s).body.toList.countP (·.kind ≠ .endOfInput) = (scan s).body.size :=
    List.countP_eq_length.2 fun t ht =>
      decide_eq_true (kind_ne_of_mem_body (Array.mem_toList_iff.1 ht))
  rw [toList_tokens, List.countP_append, hbody, List.countP_singleton]
  simp [kind_ending]

theorem size_scan_le (s : Scanner) : (scan s).size ≤ s.cursor.rest.length + 1 := by
  rw [scan_eq, size, List.size_toArray]
  exact Nat.succ_le_succ s.drain_length_le

end TokenStream

namespace Metrics

variable {detailed : Bool}

theorem toNat_lines_ofTokens (tokens : List Token) : (ofTokens detailed tokens).lines.toNat =
    (tokens.map fun t => t.line % UInt32.size).max?.getD 0 := by
  have hstep (m : Metrics) (t : Token) : (add detailed m t).lines.toNat =
      max m.lines.toNat (t.line % UInt32.size) := by
    rw [add_eq, UInt32.toNat_max, UInt32.toNat_ofNat']
  rw [← List.filterMap_eq_map]
  exact ofTokens_eq_max (f := fun m => m.lines.toNat)
    (g := fun t => some (t.line % UInt32.size)) rfl hstep tokens

theorem toNat_lines_scan (file text : String) (o : Options) (r : Recognizers)
    (h : 1 + text.toList.count '\n' < UInt32.size) :
    (ofTokens detailed (TokenStream.scan (.ofText file text o r)).tokens.toList).lines.toNat =
      1 + text.toList.count '\n' := by
  have hlines : ∀ t ∈ (TokenStream.scan (.ofText file text o r)).tokens.toList,
      t.line % UInt32.size = t.line := fun t ht =>
    Nat.mod_eq_of_lt (Nat.lt_of_le_of_lt (TokenStream.line_le_of_mem_scan file text o r t ht) h)
  rw [toNat_lines_ofTokens, List.map_congr_left hlines]
  exact TokenStream.max_lines_scan file text o r

theorem describes_scan (file text : String) (o : Options) (r : Recognizers)
    (h : 1 + text.toList.count '\n' < UInt32.size) :
    let stream := TokenStream.scan (.ofText file text o r)
    Describes { ofTokens detailed stream.tokens.toList with
      diagnostics := stream.diagnostics.length } detailed text stream := by
  intro stream
  have htotal : (ofTokens detailed stream.tokens.toList).total = stream.size := by
    rw [ofTokens_eq_countP (f := total) (p := fun _ => True) rfl fun _ _ => rfl]
    simp [TokenStream.size_tokens]
  have hparts : (ofTokens detailed stream.tokens.toList).parts = stream.body.size := by
    rw [ofTokens_eq_countP (f := parts) (p := (·.kind ≠ .endOfInput)) rfl fun _ _ => parts_add]
    exact TokenStream.countP_kind_ne_scan _
  constructor
  · exact htotal
  · have hsize : stream.size = stream.body.size + 1 := rfl
    rw [← hparts] at hsize
    simp only [parts, tally] at hsize
    dsimp only
    omega
  · exact ofTokens_eq_countP rfl (fun m t => congrArg numbers (add_eq detailed m t)) _
  · exact ofTokens_eq_countP rfl (fun m t => congrArg strings (add_eq detailed m t)) _
  · intro g hg
    have hzero : zero.tally g = 0 := by cases g <;> rfl
    have hstep (m : Metrics) (t : Token) :
        (add detailed m t).tally g = m.tally g + if t.kind.Belongs g then 1 else 0 := by
      simp only [tally_add hg, t.kind.category_eq_iff]
    exact ofTokens_eq_countP (f := (tally · g)) hzero hstep _
  · rfl
  · exact ofTokens_eq_max rfl (fun m t => congrArg longestWord (add_eq detailed m t)) _
  · exact ofTokens_eq_max rfl (fun m t => congrArg longestString (add_eq detailed m t)) _
  · exact toNat_lines_scan file text o r h
  · exact (counts_ofTokens _).symm
  · cases detailed with
    | true => exact (Tallied.ofTokens _).sorted
    | false =>
        rw [ofTokens, kinds_foldl]
        exact .nil
  · rintro rfl name n
    rw [(Tallied.ofTokens _).mem_iff, List.count_eq_countP, List.countP_map]
    rfl
  · rintro rfl
    rw [(Tallied.ofTokens _).sum_eq, List.length_map, htotal, Array.length_toList,
      TokenStream.size_tokens]
  · rintro rfl
    exact kinds_foldl zero _

end Metrics

namespace Analyzer

inductive Call where
  | analyze (file text : String)
  | prefer (p : LexicalPreferences)

def call? (a : Analyzer) : Call → Option Analyzer
  | .analyze file text => (a.analyze? file text).map fun outcome => outcome.2.1
  | .prefer p => some (a.prefer p)

def after? (a : Analyzer) : List Call → Option Analyzer
  | [] => some a
  | c :: calls => (a.call? c).bind fun next => next.after? calls

def currentPreferences (p : LexicalPreferences) : List Call → LexicalPreferences
  | [] => p
  | .analyze _ _ :: calls => currentPreferences p calls
  | .prefer q :: calls => currentPreferences q calls

def Within (p : LexicalPreferences) (r : Recognizers) : List Call → Prop
  | [] => True
  | .analyze file text :: calls =>
      (TokenStream.scan (.ofText file text (.ofPreferences p) r)).size ≤
        Limits.lexical.maxTokens ∧ Within p r calls
  | .prefer q :: calls => Within q r calls

def LinesFit (text : String) : Prop := 1 + text.toList.count '\n' < UInt32.size

instance (text : String) : Decidable (LinesFit text) := inferInstanceAs (Decidable (_ < _))

structure Analyzes (a : Analyzer) (p : LexicalPreferences) (r : Recognizers) (file text : String) :
    Prop where
  fresh : a.analyze? file text = (ofPreferences p r).analyze? file text
  same : (a.analyze? file text).map Prod.fst =
    (TokenStream.scan? (.ofText file text (.ofPreferences p) r)).map .ok
  returns_iff : (a.analyze? file text).isSome ↔ LinesFit text
  keeps : ∀ outcome, a.analyze? file text = some outcome → ∃ stream m,
    outcome.1 = .ok stream ∧ outcome.2.1 = ⟨p, r, m⟩ ∧
      m.Describes p.detailedMetrics text stream
  unchecked : LinesFit text → a.analyze? file text = some (a.analyze file text)

variable {a : Analyzer} {p : LexicalPreferences} {r : Recognizers} {file text : String}

theorem analyze?_congr (b : Analyzer) (hp : a.preferences = b.preferences)
    (hr : a.recognizers = b.recognizers) (file text : String) :
    a.analyze? file text = b.analyze? file text := by
  obtain ⟨p, r, m⟩ := a
  obtain ⟨q, s, n⟩ := b
  obtain rfl : p = q := hp
  obtain rfl : r = s := hr
  rfl

theorem analyze?_of_linesFit (h : LinesFit text) :
    a.analyze? file text = some (a.analyze file text) := by
  rw [analyze?, StreamBuilder.readUpTo?_of_lt Limits.lexical.maxTokens
    (b := .ofScanner (a.scannerOf file text)) h]
  rfl

theorem linesFit_of_analyze?
    (hsize : (TokenStream.scan (a.scannerOf file text)).size ≤ Limits.lexical.maxTokens)
    (h : (a.analyze? file text).isSome) : LinesFit text := by
  rw [analyze?, Option.isSome_map] at h
  obtain ⟨b, hb⟩ := Option.isSome_iff_exists.1 h
  refine StreamBuilder.lt_of_readUpTo? hb ?_ rfl
  rw [StreamBuilder.eq_of_readUpTo? hb]
  exact StreamBuilder.isEnded_readUpTo hsize

theorem analyze_of_size_le
    (h : (TokenStream.scan (a.scannerOf file text)).size ≤ Limits.lexical.maxTokens) :
    let stream := TokenStream.scan (a.scannerOf file text)
    (a.analyze file text).1 = .ok stream ∧ (a.analyze file text).2.1 = { a with
      metrics := { Metrics.ofTokens a.preferences.detailedMetrics stream.tokens.toList with
        diagnostics := stream.diagnostics.length } } := by
  have hended := StreamBuilder.isEnded_readUpTo h
  have hfinish := StreamBuilder.finish_readUpTo Limits.lexical.maxTokens
    (.ofScanner (a.scannerOf file text))
  rw [analyze, conclude]
  dsimp only
  split
  · next hnone =>
      rw [StreamBuilder.isEnded, hnone] at hended
      contradiction
  · rw [hfinish]
    exact ⟨rfl, rfl⟩

theorem analyzes_of_size_le (hp : a.preferences = p) (hr : a.recognizers = r)
    (hsize : (TokenStream.scan (.ofText file text (.ofPreferences p) r)).size ≤
      Limits.lexical.maxTokens) : a.Analyzes p r file text := by
  obtain ⟨q, s, m⟩ := a
  obtain rfl : q = p := hp
  obtain rfl : s = r := hr
  obtain ⟨hok, hafter⟩ := analyze_of_size_le (a := ⟨q, s, m⟩) hsize
  have hfits : (analyze? ⟨q, s, m⟩ file text).isSome → LinesFit text := linesFit_of_analyze? hsize
  refine ⟨analyze?_congr (ofPreferences q s) rfl rfl file text, ?_, ⟨hfits, fun h => ?_⟩,
    fun outcome h => ?_, analyze?_of_linesFit⟩
  · by_cases hlines : LinesFit text
    · have hscan : TokenStream.scan? (.ofText file text (.ofPreferences q) s) = some _ :=
        TokenStream.scan?_eq_some_iff.2 ⟨hlines, rfl⟩
      rw [analyze?_of_linesFit hlines, hscan]
      exact congrArg some hok
    · have hscan : TokenStream.scan? (.ofText file text (.ofPreferences q) s) = none :=
        TokenStream.scan?_eq_none_iff.2 (Nat.le_of_not_lt hlines)
      rw [Option.not_isSome_iff_eq_none.1 (mt hfits hlines), hscan]
      rfl
  · rw [analyze?_of_linesFit h]
    rfl
  · have hlines : LinesFit text := hfits (by rw [h]; rfl)
    rw [analyze?_of_linesFit hlines] at h
    obtain rfl := Option.some.inj h
    exact ⟨_, _, hok, hafter, Metrics.describes_scan file text (.ofPreferences q) s hlines⟩

theorem after?_settings {calls : List Call} (h : Within a.preferences a.recognizers calls) :
    ((a.after? calls).isSome ↔ ∀ file text, .analyze file text ∈ calls → LinesFit text) ∧
      ∀ b, a.after? calls = some b → b.preferences = currentPreferences a.preferences calls ∧
        b.recognizers = a.recognizers := by
  induction calls generalizing a with
  | nil => simp [after?, currentPreferences]
  | cons c calls ih =>
      cases c with
      | analyze file text =>
          obtain ⟨hsize, hcalls⟩ := h
          have hfirst := analyzes_of_size_le (a := a) rfl rfl hsize
          cases hrun : a.analyze? file text with
          | none =>
              have hlines := mt hfirst.returns_iff.2 (by simp [hrun])
              simp only [after?, call?, hrun, Option.map_none, Option.bind_none]
              exact ⟨iff_of_false nofun fun h => hlines (h file text List.mem_cons_self), nofun⟩
          | some outcome =>
              obtain ⟨_, m, -, hnext, -⟩ := hfirst.keeps outcome hrun
              obtain ⟨hreturns, hsettings⟩ := ih (a := ⟨a.preferences, a.recognizers, m⟩) hcalls
              have hlines : LinesFit text := hfirst.returns_iff.1 (by rw [hrun]; rfl)
              simp only [after?, call?, hrun, Option.map_some, Option.bind_some, hnext]
              refine ⟨hreturns.trans ⟨fun h file text hmem => ?_, fun h file text hmem =>
                h file text (List.mem_cons_of_mem _ hmem)⟩, hsettings⟩
              rcases List.mem_cons.1 hmem with hcall | hmem
              · obtain ⟨-, rfl⟩ := Call.analyze.inj hcall
                exact hlines
              · exact h file text hmem
      | prefer p =>
          obtain ⟨hreturns, hsettings⟩ := ih (a := a.prefer p) h
          exact ⟨by simpa [after?, call?] using hreturns, hsettings⟩

theorem within_append {earlier later : List Call} :
    Within p r (earlier ++ later) ↔
      Within p r earlier ∧ Within (currentPreferences p earlier) r later := by
  induction earlier generalizing p with
  | nil => exact (and_iff_right trivial).symm
  | cons c earlier ih =>
      cases c with
      | analyze file text => exact (and_congr_right fun _ => ih).trans and_assoc.symm
      | prefer q => exact ih

theorem size_scan_le_of_length (file text : String) (o : Options) (r : Recognizers)
    (h : text.toList.length < Limits.lexical.maxTokens) :
    (TokenStream.scan (.ofText file text o r)).size ≤ Limits.lexical.maxTokens :=
  (TokenStream.size_scan_le _).trans h

end Analyzer

end Lexing
