import Lexing.Settings.BuildProfile
import Mathlib.Tactic.SplitIfs

namespace Lexing

structure BuildLimits.Sound (l : BuildLimits) (profile : String) : Prop where
  maxSize_le : l.files.maxSize ≤ 1000000000
  largeThreshold_le : l.files.largeThreshold ≤ l.files.maxSize
  maxTokens_le : l.lexical.maxTokens ≤ 100000000
  maxIdentifier_pos : 0 < l.lexical.maxIdentifier
  maxString_pos : 0 < l.lexical.maxString
  maxThreads_pos : 0 < l.batch.maxThreads
  maxThreads_le : l.batch.maxThreads ≤ 256
  production : profile = "production" →
    l.files.maxSize ≤ 50000000 ∧ l.lexical.maxString ≤ 1048576

theorem FileSystem.exists?_of_text? {s : FileSystem} {p : Path} {document : String}
    (h : s.text? p = some document) : s.exists? p ∧ s.isFolder p = false := by
  unfold text? at h
  split at h
  case h_1 contents hnode =>
      refine ⟨?_, by simp [isFolder, hnode, Node.isFolder]⟩
      obtain ⟨found, hfound, -⟩ := Option.map_eq_some_iff.1 hnode
      simp [exists?, hfound]
  case h_2 hnode =>
      refine ⟨?_, by simp [isFolder, hnode, Node.isFolder]⟩
      obtain ⟨found, hfound, -⟩ := Option.map_eq_some_iff.1 hnode
      simp [exists?, hfound]
  case h_3 => cases h

namespace BuildProfile

variable {b : BuildProfile} {s : FileSystem} {l : BuildLimits}

theorem check_eq_ok_iff : b.check l = .ok () ↔ l.Sound b.profile := by
  constructor
  · intro h
    unfold check at h
    split_ifs at h with hsize hlarge htokens hlength hthreads hprofile hbig hlong
    · exact ⟨by omega, by omega, by omega, by omega, by omega, by omega, by omega,
        fun hproduction => absurd hproduction hprofile⟩
    · exact ⟨by omega, by omega, by omega, by omega, by omega, by omega, by omega,
        fun _ => by omega⟩
  · rintro ⟨hsize, hlarge, htokens, hidentifier, hstring, hpos, hthreads, hproduction⟩
    unfold check
    rw [if_neg (by omega), if_neg (by omega), if_neg (by omega), if_neg (by omega),
      if_neg (by omega)]
    split_ifs with hprofile hbig hlong
    · rfl
    · have := hproduction (Decidable.not_not.1 hprofile)
      omega
    · have := hproduction (Decidable.not_not.1 hprofile)
      omega
    · rfl

theorem limits_of_text? {document : String} (h : s.text? b.path = some document) :
    b.limits s = match BuildLimits.ofDocument? document with
      | none => .error (.invalid b.path)
      | some l => (b.check l).map fun _ => l := by
  obtain ⟨hexists, hfolder⟩ := FileSystem.exists?_of_text? h
  rw [limits, hexists, hfolder]
  simp only [h]
  cases BuildLimits.ofDocument? document with
  | none => rfl
  | some l =>
      cases hcheck : b.check l with
      | error e => simp only [hcheck]; rfl
      | ok => simp only [hcheck]; rfl

theorem exists_text?_of_limits (h : b.limits s = .ok l) : ∃ document,
    s.text? b.path = some document := by
  cases htext : s.text? b.path with
  | some document => exact ⟨document, rfl⟩
  | none =>
      rw [limits, htext] at h
      cases hexists : s.exists? b.path <;> cases hfolder : s.isFolder b.path <;>
        rw [hexists, hfolder] at h <;> cases h

theorem limits_eq_ok_iff : b.limits s = .ok l ↔ ∃ document,
    s.text? b.path = some document ∧ BuildLimits.ofDocument? document = some l ∧
      l.Sound b.profile := by
  constructor
  · intro h
    obtain ⟨document, htext⟩ := exists_text?_of_limits h
    refine ⟨document, htext, ?_⟩
    rw [limits_of_text? htext] at h
    cases hread : BuildLimits.ofDocument? document with
    | none => rw [hread] at h; cases h
    | some found =>
        simp only [hread] at h
        cases hcheck : b.check found with
        | error e => rw [hcheck] at h; cases h
        | ok =>
            rw [hcheck] at h
            cases h
            exact ⟨rfl, check_eq_ok_iff.1 hcheck⟩
  · rintro ⟨document, htext, hread, hsound⟩
    rw [limits_of_text? htext, hread]
    simp only [check_eq_ok_iff.2 hsound]
    rfl

end BuildProfile

namespace BuildLimits

def document (lines : List String) : String :=
  String.ofList (lines.flatMap fun line => line.toList ++ ['\n'])

def developmentDocument : String := document [
  "# Development build profile for raven_lexer.",
  "# Selected with RAVEN_BUILD_PROFILE=development (the default).",
  "",
  "[file_processing]",
  "max_file_size = 104857600          # 100 MiB",
  "large_file_threshold = 10485760    # 10 MiB",
  "max_line_count = 2000000",
  "",
  "[lexical]",
  "max_string_size = 16777216         # 16 MiB",
  "max_identifier_length = 1024",
  "max_comment_length = 1048576",
  "max_token_count = 10000000",
  "max_external_recognizers = 32",
  "",
  "[batch_processing]",
  "max_worker_threads = 32",
  "max_files_per_batch = 10000",
  "",
  "[logging]",
  "max_error_collection = 10000",
  "max_log_message_length = 4096",
  "max_log_events_per_file = 1000"]

def productionDocument : String := document [
  "# Production build profile for raven_lexer.",
  "# Selected with RAVEN_BUILD_PROFILE=production.",
  "",
  "[file_processing]",
  "max_file_size = 10485760           # 10 MiB",
  "large_file_threshold = 1048576     # 1 MiB",
  "max_line_count = 500000",
  "",
  "[lexical]",
  "max_string_size = 1048576          # 1 MiB",
  "max_identifier_length = 255",
  "max_comment_length = 65536",
  "max_token_count = 2000000",
  "max_external_recognizers = 8",
  "",
  "[batch_processing]",
  "max_worker_threads = 16",
  "max_files_per_batch = 1000",
  "",
  "[logging]",
  "max_error_collection = 1000",
  "max_log_message_length = 1024",
  "max_log_events_per_file = 100"]

def development : BuildLimits := ⟨Limits.files, Limits.lexical, Limits.batch, Limits.logging⟩

def production : BuildLimits where
  files := ⟨10485760, 1048576, 500000⟩
  lexical := ⟨1048576, 255, 65536, 2000000, 8⟩
  batch := ⟨16, 1000⟩
  logging := ⟨1000, 1024, 100⟩

theorem ofDocument?_development : ofDocument? developmentDocument = some development := by
  rw [ofDocument?, Toml.read?, developmentDocument, document, String.toList_ofList]
  decide +kernel

theorem ofDocument?_production : ofDocument? productionDocument = some production := by
  rw [ofDocument?, Toml.read?, productionDocument, document, String.toList_ofList]
  decide +kernel

theorem checked_development :
    development.lexical.check = .ok () ∧ development.logging.check = .ok () := ⟨rfl, rfl⟩

theorem checked_production :
    production.lexical.check = .ok () ∧ production.logging.check = .ok () := ⟨rfl, rfl⟩

theorem sound_development {profile : String} (h : profile ≠ "production") :
    development.Sound profile :=
  ⟨by decide, by decide, by decide, by decide, by decide, by decide, by decide,
    fun hproduction => absurd hproduction h⟩

theorem sound_production (profile : String) : production.Sound profile :=
  ⟨by decide, by decide, by decide, by decide, by decide, by decide, by decide,
    fun _ => by decide⟩

end BuildLimits

namespace BuildProfile

variable {b : BuildProfile} {s : FileSystem}

theorem limits_development (h : s.text? b.path = some BuildLimits.developmentDocument)
    (hprofile : b.profile ≠ "production") : b.limits s = .ok .development :=
  limits_eq_ok_iff.2 ⟨_, h, BuildLimits.ofDocument?_development,
    BuildLimits.sound_development hprofile⟩

theorem limits_production (h : s.text? b.path = some BuildLimits.productionDocument) :
    b.limits s = .ok .production :=
  limits_eq_ok_iff.2 ⟨_, h, BuildLimits.ofDocument?_production,
    BuildLimits.sound_production b.profile⟩

end BuildProfile

end Lexing
