import Lexing.Settings.Document

namespace Lexing

open Toml (Value)

namespace Toml.Value

def at? (v : Value) (path : List String) : Option Value :=
  match path, v with
  | [], v => some v
  | name :: more, .table fields => (fields.lookup name).bind fun v => v.at? more
  | _ :: _, _ => none

def group (fields : List (String × Value)) (name : String) : List (String × Value) :=
  match fields.lookup name with
  | some (.table inner) => inner
  | _ => []

variable {fields : List (String × Value)} {name key : String} {more : List String}

@[simp]
theorem at?_nil (v : Value) : v.at? [] = some v := by cases v <;> rfl

@[simp]
theorem at?_single : (Value.table fields).at? [name] = fields.lookup name := by
  rw [at?]
  cases fields.lookup name <;> simp

theorem at?_cons : (Value.table fields).at? (name :: key :: more) =
    (Value.table (group fields name)).at? (key :: more) := by
  rw [at?, group]
  cases fields.lookup name with
  | none => rfl
  | some v => cases v <;> rfl

theorem at?_append (v : Value) (path more : List String) :
    v.at? (path ++ more) = (v.at? path).bind fun x => x.at? more := by
  induction path generalizing v with
  | nil => simp
  | cons name path ih =>
      cases v with
      | table fields =>
          simp only [List.cons_append, at?]
          cases fields.lookup name with
          | none => rfl
          | some x => exact ih x
      | _ => rfl

theorem group_eq {inner : List (String × Value)} (h : fields.lookup name = some (.table inner)) :
    group fields name = inner := by rw [group, h]

end Toml.Value

inductive Choice where
  | switch
  | count
  | level
  | texts
  | pair
  deriving DecidableEq, Repr

namespace Choice

@[reducible]
def type : Choice → Type
  | .switch => Bool
  | .count => Nat
  | .level => Level
  | .texts => List String
  | .pair => Option (String × String)

def Writes : (c : Choice) → Value → c.type → Prop
  | .switch, v, b => v = .boolean b
  | .count, v, n => v = .integer n
  | .level, v, l => v = .text l.word
  | .texts, v, ts => v = .list (ts.map .text)
  | .pair, v, p => ∃ a b, v = .list [.text a, .text b] ∧ p = some (a, b)

def read? : (c : Choice) → Value → Option c.type
  | .switch => Value.boolean?
  | .count => Value.natural?
  | .level => Value.level?
  | .texts => Value.texts?
  | .pair => fun v => v.pair?.map some

theorem texts?_map (ts : List String) : Value.texts? (.list (ts.map .text)) = some ts := by
  rw [Value.texts?]
  induction ts with
  | nil => rfl
  | cons t ts ih => simp [ih, Value.text?]

theorem read?_of_writes {c : Choice} {v : Value} {a : c.type} (h : c.Writes v a) :
    c.read? v = some a := by
  cases c with
  | switch => obtain rfl := h; rfl
  | count => obtain rfl := h; rfl
  | level => obtain rfl := h; cases a <;> rfl
  | texts => obtain rfl := h; exact texts?_map a
  | pair => obtain ⟨_, _, rfl, rfl⟩ := h; rfl

end Choice

namespace Preferences

inductive Key where
  | requireExtension
  | logPerformance
  | coalesce
  | line
  | block
  | detailedMetrics
  | logDiagnostics
  | logStringStatistics
  | workerThreads
  | recursive
  | failFast
  | structured
  | console
  | minLevel
  | summary
  | fileContext
  deriving DecidableEq, Repr

namespace Key

@[reducible]
def choice : Key → Choice
  | .line => .texts
  | .block => .pair
  | .workerThreads => .count
  | .minLevel => .level
  | _ => .switch

def path : Key → List String
  | .requireExtension => ["file_processor", "require_rv_extension"]
  | .logPerformance => ["file_processor", "enable_performance_logging"]
  | .coalesce => ["lexical", "coalesce_newlines"]
  | .line => ["lexical", "comments", "line"]
  | .block => ["lexical", "comments", "block"]
  | .detailedMetrics => ["lexical", "collect_detailed_metrics"]
  | .logDiagnostics => ["lexical", "log_diagnostics"]
  | .logStringStatistics => ["lexical", "log_string_statistics"]
  | .workerThreads => ["batch", "worker_threads"]
  | .recursive => ["batch", "recursive"]
  | .failFast => ["batch", "fail_fast"]
  | .structured => ["logging", "use_structured_logging"]
  | .console => ["logging", "enable_console_logging"]
  | .minLevel => ["logging", "min_log_level"]
  | .summary => ["logging", "enable_cargo_style_output"]
  | .fileContext => ["logging", "include_file_context"]

def get (p : Preferences) : (k : Key) → k.choice.type
  | .requireExtension => p.files.requireExtension
  | .logPerformance => p.files.logPerformance
  | .coalesce => p.lexical.coalesce
  | .line => p.lexical.comments.line
  | .block => p.lexical.comments.block
  | .detailedMetrics => p.lexical.detailedMetrics
  | .logDiagnostics => p.lexical.logDiagnostics
  | .logStringStatistics => p.lexical.logStringStatistics
  | .workerThreads => p.batch.workerThreads
  | .recursive => p.batch.recursive
  | .failFast => p.batch.failFast
  | .structured => p.logging.structured
  | .console => p.logging.console
  | .minLevel => p.logging.minLevel
  | .summary => p.logging.summary
  | .fileContext => p.logging.fileContext

end Key

def groups : List (List String) :=
  [[], ["file_processor"], ["lexical"], ["lexical", "comments"], ["batch"], ["logging"]]

structure IsTyped (v : Value) : Prop where
  groups : ∀ path ∈ groups, ∀ x, v.at? path = some x → ∃ fields, x = .table fields
  keys : ∀ (k : Key) x, v.at? k.path = some x → ∃ a, k.choice.Writes x a

def Key.chosen (d : Preferences) (v : Value) (k : Key) : k.choice.type :=
  ((v.at? k.path).bind k.choice.read?).getD (k.get d)

def overlay (d : Preferences) (v : Value) : Preferences where
  files := ⟨Key.chosen d v .requireExtension, Key.chosen d v .logPerformance⟩
  lexical :=
    { coalesce := Key.chosen d v .coalesce
      comments :=
        ⟨Key.chosen d v .line,
          if (v.at? ["lexical", "comments"]).isSome then (v.at? Key.block.path).bind Value.pair?
          else d.lexical.comments.block⟩
      detailedMetrics := Key.chosen d v .detailedMetrics
      logDiagnostics := Key.chosen d v .logDiagnostics
      logStringStatistics := Key.chosen d v .logStringStatistics }
  batch := ⟨Key.chosen d v .workerThreads, Key.chosen d v .recursive, Key.chosen d v .failFast⟩
  logging :=
    { structured := Key.chosen d v .structured
      console := Key.chosen d v .console
      minLevel := Key.chosen d v .minLevel
      summary := Key.chosen d v .summary
      fileContext := Key.chosen d v .fileContext }

section Reading

variable {d : Preferences} {v : Value} {fields : List (String × Value)}

theorem IsTyped.reads (h : IsTyped v) (k : Key) (x : Value) (hx : v.at? k.path = some x) :
    (k.choice.read? x).isSome := by
  obtain ⟨a, ha⟩ := h.keys k x hx
  rw [Choice.read?_of_writes ha]
  rfl

theorem IsTyped.reads_in (h : IsTyped (.table fields)) {table name : String} (k : Key)
    (hk : k.path = [table, name]) (x : Value)
    (hx : (Value.group fields table).lookup name = some x) : (k.choice.read? x).isSome :=
  h.reads k x (by rw [hk, Value.at?_cons, Value.at?_single, hx])

theorem Key.chosen_in {table name : String} (k : Key) (hk : k.path = [table, name]) :
    k.chosen d (.table fields) =
      (((Value.group fields table).lookup name).bind k.choice.read?).getD (k.get d) := by
  rw [chosen, hk, Value.at?_cons, Value.at?_single]

theorem IsTyped.group_cases (h : IsTyped (.table fields)) (name : String)
    (hname : [name] ∈ Preferences.groups) :
    fields.lookup name = none ∧ Value.group fields name = [] ∨
      fields.lookup name = some (.table (Value.group fields name)) := by
  cases hlookup : fields.lookup name with
  | none => exact .inl ⟨rfl, by rw [Value.group, hlookup]⟩
  | some x =>
      obtain ⟨inner, rfl⟩ := h.groups [name] hname x (by rw [Value.at?_single, hlookup])
      exact .inr (by rw [Value.group, hlookup])

theorem ofValue?_files (h : IsTyped (.table fields)) :
    d.files.ofValue? (.table (Value.group fields "file_processor")) =
      some (overlay d (.table fields)).files := by
  have hext : ∀ x, _ = some x → (Value.boolean? x).isSome := h.reads_in .requireExtension rfl
  have hperf : ∀ x, _ = some x → (Value.boolean? x).isSome := h.reads_in .logPerformance rfl
  simp only [FilePreferences.ofValue?, Value.fields?, List.map_cons, List.map_nil,
    Option.bind_eq_bind, Option.bind_some, field_eq_some hext, field_eq_some hperf, overlay,
    Key.chosen_in .requireExtension rfl, Key.chosen_in .logPerformance rfl]
  rfl

theorem ofValue?_batch (h : IsTyped (.table fields)) :
    d.batch.ofValue? (.table (Value.group fields "batch")) =
      some (overlay d (.table fields)).batch := by
  have hthreads : ∀ x, _ = some x → (Value.natural? x).isSome := h.reads_in .workerThreads rfl
  have hrec : ∀ x, _ = some x → (Value.boolean? x).isSome := h.reads_in .recursive rfl
  have hfail : ∀ x, _ = some x → (Value.boolean? x).isSome := h.reads_in .failFast rfl
  simp only [BatchPreferences.ofValue?, Value.fields?, List.map_cons, List.map_nil,
    Option.bind_eq_bind, Option.bind_some, field_eq_some hthreads, field_eq_some hrec,
    field_eq_some hfail, overlay, Key.chosen_in .workerThreads rfl, Key.chosen_in .recursive rfl,
    Key.chosen_in .failFast rfl]
  rfl

theorem ofValue?_logging (h : IsTyped (.table fields)) :
    d.logging.ofValue? (.table (Value.group fields "logging")) =
      some (overlay d (.table fields)).logging := by
  have hstructured : ∀ x, _ = some x → (Value.boolean? x).isSome := h.reads_in .structured rfl
  have hconsole : ∀ x, _ = some x → (Value.boolean? x).isSome := h.reads_in .console rfl
  have hlevel : ∀ x, _ = some x → (Value.level? x).isSome := h.reads_in .minLevel rfl
  have hsummary : ∀ x, _ = some x → (Value.boolean? x).isSome := h.reads_in .summary rfl
  have hcontext : ∀ x, _ = some x → (Value.boolean? x).isSome := h.reads_in .fileContext rfl
  simp only [LoggingPreferences.ofValue?, Value.fields?, List.map_cons, List.map_nil,
    Option.bind_eq_bind, Option.bind_some, field_eq_some hstructured, field_eq_some hconsole,
    field_eq_some hlevel, field_eq_some hsummary, field_eq_some hcontext, overlay,
    Key.chosen_in .structured rfl, Key.chosen_in .console rfl, Key.chosen_in .minLevel rfl,
    Key.chosen_in .summary rfl, Key.chosen_in .fileContext rfl]
  rfl

def OmitsLine (v : Value) : Prop :=
  (v.at? ["lexical", "comments"]).isSome ∧ v.at? Key.line.path = none

section Comments

variable {name : String}

theorem at?_comments :
    (Value.table fields).at? ["lexical", "comments"] =
      (Value.group fields "lexical").lookup "comments" := by
  rw [Value.at?_cons, Value.at?_single]

theorem at?_comments_given {inner : List (String × Value)}
    (h : (Value.group fields "lexical").lookup "comments" = some (.table inner)) :
    (Value.table fields).at? ["lexical", "comments", name] = inner.lookup name := by
  rw [Value.at?_cons, Value.at?_cons, Value.at?_single, Value.group_eq h]

theorem at?_comments_absent (h : (Value.group fields "lexical").lookup "comments" = none) :
    (Value.table fields).at? ["lexical", "comments", name] = none := by
  rw [Value.at?_cons, Value.at?_cons, Value.at?_single, Value.group, h]
  rfl

theorem IsTyped.comments_table (h : IsTyped (.table fields)) {x : Value}
    (hx : (Value.group fields "lexical").lookup "comments" = some x) :
    ∃ inner, x = .table inner :=
  h.groups ["lexical", "comments"] (by decide) x (by rw [at?_comments, hx])

theorem isTyped_comments {inner : List (String × Value)}
    (hline : ∀ x, inner.lookup "line" = some x → ∃ a, Choice.texts.Writes x a)
    (hblock : ∀ x, inner.lookup "block" = some x → ∃ a, Choice.pair.Writes x a) :
    IsTyped (.table [("lexical", .table [("comments", .table inner)])]) := by
  refine ⟨fun path hpath x hx => ?_, fun k x hx => ?_⟩
  · simp only [Preferences.groups, List.mem_cons, List.not_mem_nil, or_false] at hpath
    obtain rfl | rfl | rfl | rfl | rfl | rfl := hpath <;> cases hx <;> exact ⟨_, rfl⟩
  · cases k with
    | line => exact hline x (by rwa [Key.path, at?_comments_given rfl] at hx)
    | block => exact hblock x (by rwa [Key.path, at?_comments_given rfl] at hx)
    | _ => cases hx

theorem ofValue?_comments (h : IsTyped (.table fields)) (hline : ¬OmitsLine (.table fields))
    (x : Value) (hx : (Value.group fields "lexical").lookup "comments" = some x) :
    Comments.ofValue? x = some (overlay d (.table fields)).lexical.comments := by
  obtain ⟨inner, rfl⟩ := h.comments_table hx
  have hat : ∀ name, (Value.table fields).at? ["lexical", "comments", name] = inner.lookup name :=
    fun _ => at?_comments_given hx
  obtain ⟨v, hv⟩ : ∃ v, inner.lookup "line" = some v := by
    rw [← Option.isSome_iff_exists, ← hat, Option.isSome_iff_ne_none]
    exact fun hnone => hline ⟨by rw [at?_comments, hx]; rfl, hnone⟩
  obtain ⟨line, hread⟩ : ∃ line, Value.texts? v = some line :=
    Option.isSome_iff_exists.1 (h.reads .line v (by rw [Key.path, hat, hv]))
  have hblock : ∀ w, inner.lookup "block" = some w → w.pair?.isSome := fun w hw => by
    simpa [Choice.read?] using h.reads .block w (by rw [Key.path, hat, hw])
  rw [Comments.ofValue?_eq_some hv hread hblock]
  simp [overlay, Key.chosen, Key.path, at?_comments, hat, hx, hv, hread, Choice.read?]

theorem overlay_comments_absent
    (h : (Value.group fields "lexical").lookup "comments" = none) :
    (overlay d (.table fields)).lexical.comments = d.lexical.comments := by
  simp only [overlay, Key.chosen, Key.path, at?_comments, at?_comments_absent h, h]
  rfl

end Comments

theorem ofValue?_lexical (h : IsTyped (.table fields)) (hline : ¬OmitsLine (.table fields)) :
    d.lexical.ofValue? (.table (Value.group fields "lexical")) =
      some (overlay d (.table fields)).lexical := by
  have hcoalesce : ∀ x, _ = some x → (Value.boolean? x).isSome := h.reads_in .coalesce rfl
  have hdetail : ∀ x, _ = some x → (Value.boolean? x).isSome := h.reads_in .detailedMetrics rfl
  have hlog : ∀ x, _ = some x → (Value.boolean? x).isSome := h.reads_in .logDiagnostics rfl
  have hstrings : ∀ x, _ = some x → (Value.boolean? x).isSome :=
    h.reads_in .logStringStatistics rfl
  have hread := ofValue?_comments (d := d) h hline
  have hcomments : ∀ x, (Value.group fields "lexical").lookup "comments" = some x →
      (Comments.ofValue? x).isSome := fun x hx => by rw [hread x hx]; rfl
  have hchosen : (((Value.group fields "lexical").lookup "comments").bind
      Comments.ofValue?).getD d.lexical.comments = (overlay d (.table fields)).lexical.comments := by
    cases hx : (Value.group fields "lexical").lookup "comments" with
    | none => exact (overlay_comments_absent hx).symm
    | some x => rw [Option.bind_some, hread x hx, Option.getD_some]
  simp only [LexicalPreferences.ofValue?, Value.fields?, List.map_cons, List.map_nil,
    Option.bind_eq_bind, Option.bind_some, field_eq_some hcoalesce, field_eq_some hcomments,
    field_eq_some hdetail, field_eq_some hlog, field_eq_some hstrings, hchosen, overlay,
    Key.chosen_in .coalesce rfl, Key.chosen_in .detailedMetrics rfl,
    Key.chosen_in .logDiagnostics rfl, Key.chosen_in .logStringStatistics rfl]
  rfl

theorem ofValue?_lexical_eq_none (h : IsTyped (.table fields))
    (hline : OmitsLine (.table fields)) :
    d.lexical.ofValue? (.table (Value.group fields "lexical")) = none := by
  obtain ⟨hcomments, hnone⟩ := hline
  obtain ⟨x, hx⟩ := Option.isSome_iff_exists.1 (at?_comments ▸ hcomments)
  obtain ⟨inner, rfl⟩ := h.comments_table hx
  rw [Key.path, at?_comments_given hx] at hnone
  have hcoalesce : ∀ x, _ = some x → (Value.boolean? x).isSome := h.reads_in .coalesce rfl
  simp only [LexicalPreferences.ofValue?, Value.fields?, List.map_cons, List.map_nil,
    Option.bind_eq_bind, Option.bind_some, field_eq_some hcoalesce, hx, field_given,
    Comments.ofValue?_eq_none hnone, Option.bind_none]

theorem ofValue?_eq_none (h : IsTyped (.table fields)) (hline : OmitsLine (.table fields)) :
    d.ofValue? (.table fields) = none := by
  have hfiles := field_table d.files d.files.ofValue? rfl
    (h.group_cases "file_processor" (by decide))
  have hlexical := field_table d.lexical d.lexical.ofValue? rfl
    (h.group_cases "lexical" (by decide))
  simp only [Preferences.ofValue?, Value.fields?, List.map_cons, List.map_nil,
    Option.bind_eq_bind, Option.bind_some, hfiles, hlexical, ofValue?_files h,
    ofValue?_lexical_eq_none h hline, Option.bind_none]

theorem ofValue?_eq_some (h : IsTyped (.table fields)) (hline : ¬OmitsLine (.table fields)) :
    d.ofValue? (.table fields) = some (overlay d (.table fields)) := by
  have hfiles := field_table d.files d.files.ofValue? rfl
    (h.group_cases "file_processor" (by decide))
  have hlexical := field_table d.lexical d.lexical.ofValue? rfl
    (h.group_cases "lexical" (by decide))
  have hbatch := field_table d.batch d.batch.ofValue? rfl (h.group_cases "batch" (by decide))
  have hlogging := field_table d.logging d.logging.ofValue? rfl
    (h.group_cases "logging" (by decide))
  simp only [Preferences.ofValue?, Value.fields?, List.map_cons, List.map_nil,
    Option.bind_eq_bind, Option.bind_some, hfiles, hlexical, hbatch, hlogging, ofValue?_files h,
    ofValue?_lexical h hline, ofValue?_batch h, ofValue?_logging h]
  rfl

theorem get_overlay_given (k : Key) {x : Value} {a : k.choice.type}
    (hx : v.at? k.path = some x) (ha : k.choice.Writes x a) : k.get (overlay d v) = a := by
  have hread := Choice.read?_of_writes ha
  have hchosen : k.chosen d v = a := by rw [Key.chosen, hx, Option.bind_some, hread]; rfl
  cases k with
  | block =>
      have hcomments : (v.at? ["lexical", "comments"]).isSome := by
        rw [show Key.block.path = ["lexical", "comments"] ++ ["block"] from rfl,
          Value.at?_append] at hx
        exact Option.isSome_of_isSome_bind (by rw [hx]; rfl)
      obtain ⟨s, t, rfl, rfl⟩ := ha
      simp only [Key.get, overlay, hcomments, if_true, hx, Option.bind_some]
      rfl
  | _ => exact hchosen

theorem get_overlay_omitted (k : Key) (hx : v.at? k.path = none)
    (hblock : k = .block → v.at? ["lexical", "comments"] = none) :
    k.get (overlay d v) = k.get d := by
  have hchosen : k.chosen d v = k.get d := by rw [Key.chosen, hx]; rfl
  cases k with
  | block => simp [Key.get, overlay, hblock rfl]
  | _ => exact hchosen

theorem ofValue?_typed (h : IsTyped v) :
    OmitsLine v ∧ d.ofValue? v = none ∨ ¬OmitsLine v ∧ d.ofValue? v = some (overlay d v) := by
  obtain ⟨fields, rfl⟩ := h.groups [] (by decide) v (Value.at?_nil v)
  by_cases hline : OmitsLine (.table fields)
  · exact .inl ⟨hline, ofValue?_eq_none h hline⟩
  · exact .inr ⟨hline, ofValue?_eq_some h hline⟩

end Reading

def lineAlone : Value :=
  .table [("lexical", .table [("comments", .table [("line", .list [.text "//"])])])]

def blockAlone : Value :=
  .table [("lexical", .table [("comments", .table [("block", .list [.text "/*", .text "*/"])])])]

def withBlock : Environment :=
  [("RAVEN_LEXICAL_BLOCK_COMMENT", "/*,*/"), ("RAVEN_BATCH_WORKER_THREADS", "2")]

private theorem read?_lineAlone :
    Toml.read? "[lexical.comments]\nline = [\"//\"]\n" = some lineAlone := by
  decide +kernel

private theorem isTyped_lineAlone : IsTyped lineAlone := by
  refine isTyped_comments (fun x hx => ?_) nofun
  obtain rfl := Option.some.inj hx
  exact ⟨["//"], rfl⟩

private theorem isTyped_blockAlone : IsTyped blockAlone := by
  refine isTyped_comments nofun fun x hx => ?_
  obtain rfl := Option.some.inj hx
  exact ⟨_, _, _, rfl, rfl⟩

theorem documents_override (e : Environment) {document : String} {v : Value}
    (hread : Toml.read? document = some v) (htyped : IsTyped v) :
    (ofDocument? e document = none ↔ OmitsLine v) ∧
      ∀ p, ofDocument? e document = some p →
        (∀ (k : Key) x, v.at? k.path = some x → k.choice.Writes x (k.get p)) ∧
        (∀ k : Key, v.at? k.path = none →
          (k = .block → v.at? ["lexical", "comments"] = none) →
            k.get p = k.get (.ofEnvironment e)) ∧
        ((v.at? ["lexical", "comments"]).isSome → v.at? Key.block.path = none →
          p.lexical.comments.block = none) := by
  rw [ofDocument?, hread, Option.bind_some]
  generalize Preferences.ofEnvironment e = d
  obtain ⟨hline, hnone⟩ | ⟨hline, hsome⟩ := ofValue?_typed htyped (d := d)
  · rw [hnone]
    exact ⟨iff_of_true rfl hline, fun _ hp => nomatch hp⟩
  · rw [hsome]
    refine ⟨iff_of_false (Option.some_ne_none _) hline, fun p hp => ?_⟩
    obtain rfl := Option.some.inj hp
    refine ⟨fun k x hx => ?_, get_overlay_omitted, fun hcomments hblock => ?_⟩
    · obtain ⟨a, ha⟩ := htyped.keys k x hx
      rwa [get_overlay_given k hx ha]
    · simp only [overlay, hcomments, if_true, hblock, Option.bind_none]

theorem documents_override_lines :
    ∃ p, ofDocument? withBlock "[lexical.comments]\nline = [\"//\"]\n" = some p ∧
      p.lexical.comments = ⟨["//"], none⟩ ∧ p.batch.workerThreads = 2 := by
  obtain ⟨hnone, hsome⟩ := documents_override withBlock read?_lineAlone isTyped_lineAlone
  obtain ⟨p, hp⟩ := Option.ne_none_iff_exists'.1 fun h => nomatch (hnone.1 h).2
  obtain ⟨hgiven, homitted, hblock⟩ := hsome p hp
  have hline : some ["//"] = some p.lexical.comments.line :=
    Choice.read?_of_writes (hgiven .line _ rfl)
  have hthreads : p.batch.workerThreads = (ofEnvironment withBlock).batch.workerThreads :=
    homitted .workerThreads rfl nofun
  refine ⟨p, hp, ?_, hthreads.trans (by decide +kernel)⟩
  rw [← hblock rfl rfl, Option.some.inj hline]

/-- A block without line openings is no settings at all, and line openings without a block take the
block of the environment away. -/
theorem comments_together :
    (Toml.read? "[lexical.comments]\nblock = [\"/*\", \"*/\"]\n" = some blockAlone ∧
      IsTyped blockAlone ∧
      ofDocument? [] "[lexical.comments]\nblock = [\"/*\", \"*/\"]\n" = none) ∧
    (Toml.read? "[lexical.comments]\nline = [\"//\"]\n" = some lineAlone ∧
      IsTyped lineAlone ∧
      (ofEnvironment withBlock).lexical.comments.block = some ("/*", "*/") ∧
      (ofDocument? withBlock "[lexical.comments]\nline = [\"//\"]\n").map
        (·.lexical.comments.block) = some none) := by
  have hblock : Toml.read? "[lexical.comments]\nblock = [\"/*\", \"*/\"]\n" = some blockAlone := by
    decide +kernel
  refine ⟨⟨hblock, isTyped_blockAlone, ?_⟩, read?_lineAlone, isTyped_lineAlone,
    by decide +kernel, ?_⟩
  · rw [ofDocument?, hblock]
    exact Option.isNone_iff_eq_none.1 (by decide +kernel)
  · rw [ofDocument?, read?_lineAlone]
    decide +kernel

end Preferences

end Lexing
