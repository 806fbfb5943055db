import Lexing.Analysis.Metrics
import Lexing.Files.Loader
import Lexing.Stream.Builder

namespace Lexing

inductive AnalysisError where
  | file (error : FileError)
  | tooManyTokens (file : String) (count limit : Nat)
  | stream (error : ScanAfterEnd)
  deriving DecidableEq, Repr

namespace AnalysisError

def message : AnalysisError → String
  | .file error => error.message
  | .tooManyTokens name count limit => s!"{name}: too many tokens: {count} (max {limit})"
  | .stream error => error.message

def code : AnalysisError → String
  | .file error => error.code
  | .tooManyTokens _ _ _ => "E027"
  | .stream error => error.code

def halts (e : AnalysisError) : Bool := Registry.halts e.code

end AnalysisError

structure Analyzer where
  preferences : LexicalPreferences
  recognizers : Recognizers
  metrics : Metrics

namespace Analyzer

abbrev Outcome := Except AnalysisError TokenStream × Analyzer × List Act

def ofPreferences (p : LexicalPreferences) (r : Recognizers) : Analyzer := ⟨p, r, .zero⟩

def prefer (a : Analyzer) (p : LexicalPreferences) : Analyzer := { a with preferences := p }

def scannerOf (a : Analyzer) (file text : String) : Scanner :=
  .ofText file text (.ofPreferences a.preferences) a.recognizers

private def tellStrings : Nat → List Token → List Act
  | _, [] => []
  | longest, t :: ts =>
      match t.content with
      | .string s =>
          let length := s.utf8ByteSize
          let longest := max longest length
          .detail ((Event.debug "String literal processed").noteAll [
            ("length", toString length), ("max_so_far", toString longest)]) ::
          tellStrings longest ts
      | _ => tellStrings longest ts

private def tellTokens (a : Analyzer) (tokens : List Token) : List Act :=
  if a.preferences.logStringStatistics then tellStrings 0 tokens else []

private def tellDiagnostic (d : Diagnostic) : Act :=
  .emit (((Event.error d.cause.code d.message).placed d.position).noteAll [
    ("kind", d.cause.name), ("lexeme", d.lexeme)])

private def tellDone (file : String) (m : Metrics) : Act :=
  let l := Limits.lexical
  .emit ((Event.success "I020" "Lexical analysis completed").noteAll [
    ("file", file), ("token_count", toString m.total), ("keywords", toString m.keywords),
    ("words", toString m.words), ("operators", toString m.operators),
    ("diagnostics", toString m.diagnostics), ("max_string_length", toString m.longestString),
    ("duration_ms", Duration.zero.millis.toPlaces 2),
    ("limits", s!"tokens:{l.maxTokens}, strings:{l.maxString}, identifiers:{l.maxIdentifier}")])

private def tellTooMany (e : AnalysisError) (file : String) (count limit : Nat) : Act :=
  .emit ((Event.error e.code "Token limit exceeded").noteAll [
    ("file", file), ("token_count", toString count), ("limit", toString limit)])

def conclude (a : Analyzer) (file : String) (builder : StreamBuilder) : Outcome :=
  let detailed := a.preferences.detailedMetrics
  match builder.ending with
  | none =>
      let limit := Limits.lexical.maxTokens
      let tokens := builder.tokens.toList
      let error := AnalysisError.tooManyTokens file builder.size limit
      (.error error, { a with metrics := .ofTokens detailed tokens },
        a.tellTokens tokens ++ [tellTooMany error file builder.size limit])
  | some _ =>
      let stream := builder.finish
      let tokens := stream.tokens.toList
      let counted := Metrics.ofTokens detailed tokens
      let metrics := { counted with diagnostics := stream.diagnostics.length }
      let found := if a.preferences.logDiagnostics then stream.diagnostics.map tellDiagnostic
        else []
      (.ok stream, { a with metrics }, a.tellTokens tokens ++ found ++ [tellDone file metrics])

def analyze (a : Analyzer) (file text : String) : Outcome :=
  a.conclude file
    ((StreamBuilder.ofScanner (a.scannerOf file text)).readUpTo Limits.lexical.maxTokens)

/-- An analysis with checked arithmetic. -/
def analyze? (a : Analyzer) (file text : String) : Option Outcome :=
  ((StreamBuilder.ofScanner (a.scannerOf file text)).readUpTo? Limits.lexical.maxTokens).map
    (a.conclude file)

def analyzeFile (a : Analyzer) (f : LoadedFile) : Outcome :=
  let start := Act.detail ((Event.debug "Starting lexical analysis").noteAll [
    ("file", f.metadata.path.display), ("char_count", toString f.chars),
    ("line_count", toString f.metadata.lines), ("file_size_bytes", toString f.metadata.size)])
  let (outcome, a, told) := a.analyze f.name f.source
  (outcome, a, start :: told)

private theorem staysPut_tellStrings (longest : Nat) (tokens : List Token) :
    ∀ a ∈ tellStrings longest tokens, a.staysPut := by
  fun_induction tellStrings longest tokens with
  | case1 => simp
  | case2 _ _ _ _ _ _ _ ih => exact List.forall_mem_cons.2 ⟨rfl, ih⟩
  | case3 _ _ _ _ ih => exact ih

theorem staysPut_analyzeFile (a : Analyzer) (f : LoadedFile) :
    ∀ act ∈ (a.analyzeFile f).2.2, act.staysPut := by
  have htokens (tokens : List Token) : ∀ act ∈ a.tellTokens tokens, act.staysPut := by
    unfold tellTokens
    split
    · exact staysPut_tellStrings 0 tokens
    · simp
  have hfound (found : List Diagnostic) : ∀ act ∈ found.map tellDiagnostic, act.staysPut :=
    List.forall_mem_map.2 fun _ _ => rfl
  have hanalyze : ∀ act ∈ (a.analyze f.name f.source).2.2, act.staysPut := by
    unfold analyze conclude
    dsimp only
    split
    · exact List.forall_mem_append.2 ⟨htokens _, List.forall_mem_singleton.2 rfl⟩
    · refine List.forall_mem_append.2 ⟨List.forall_mem_append.2 ⟨htokens _, ?_⟩,
        List.forall_mem_singleton.2 rfl⟩
      split
      · exact hfound _
      · simp
  exact List.forall_mem_cons.2 ⟨rfl, hanalyze⟩

end Analyzer

structure FileTokens where
  stream : TokenStream
  metrics : Metrics

def Loader.analyze (l : Loader) (a : Analyzer) (path : String) :
    Except AnalysisError FileTokens × List Act :=
  match l.load path with
  | (.error error, told) => (.error (.file error), told)
  | (.ok f, told) =>
      let (outcome, a, more) := a.analyzeFile f
      (outcome.map fun stream => ⟨stream, a.metrics⟩, told ++ more)

theorem Loader.staysPut_analyze (l : Loader) (a : Analyzer) (path : String) :
    ∀ act ∈ (l.analyze a path).2, act.staysPut := by
  have hload := l.staysPut_load path
  unfold Loader.analyze
  split
  · next hrefused => rwa [hrefused] at hload
  · next f told hloaded =>
      rw [hloaded] at hload
      exact List.forall_mem_append.2 ⟨hload, a.staysPut_analyzeFile f⟩

def Recognizers.remarks (r : Recognizers) : List Act :=
  r.members.zipIdx.map fun (member, index) =>
    .detail ((Event.debug "External recognizer registered").noteAll [
      ("name", member.name), ("index", toString index)])

end Lexing
