import Lexing.Files.Walk
import Lexing.Settings.Document

namespace Lexing

structure BuildProfile where
  root : Path
  directory : String
  profile : String
  deriving DecidableEq, Repr

inductive BuildError where
  | notFound (b : BuildProfile)
  | folder (path : Path)
  | notText (path : Path)
  | invalid (path : Path)
  | fileSizeTooLarge
  | thresholdAboveFileSize
  | tooManyTokens
  | noLength
  | badThreadCount
  | fileSizeTooLargeForProduction
  | stringTooLargeForProduction
  deriving DecidableEq, Repr

namespace BuildProfile

def ofEnvironment (e : Environment) (root : Path) : BuildProfile where
  root := root
  directory := (e.text? "RAVEN_CONFIG_DIR").getD Limits.directory
  profile := (e.text? "RAVEN_BUILD_PROFILE").getD Limits.profile

def path (b : BuildProfile) : Path :=
  (b.root.join (.ofString b.directory)).join (.ofString s!"{b.profile}.toml")

def check (b : BuildProfile) (l : BuildLimits) : Except BuildError Unit :=
  if 1000000000 < l.files.maxSize then .error .fileSizeTooLarge
  else if l.files.maxSize < l.files.largeThreshold then .error .thresholdAboveFileSize
  else if 100000000 < l.lexical.maxTokens then .error .tooManyTokens
  else if l.lexical.maxIdentifier = 0 ∨ l.lexical.maxString = 0 then .error .noLength
  else if l.batch.maxThreads = 0 ∨ 256 < l.batch.maxThreads then .error .badThreadCount
  else if b.profile ≠ "production" then .ok ()
  else if 50000000 < l.files.maxSize then .error .fileSizeTooLargeForProduction
  else if 1048576 < l.lexical.maxString then .error .stringTooLargeForProduction
  else .ok ()

def limits (b : BuildProfile) (s : FileSystem) : Except BuildError BuildLimits := do
  if !s.exists? b.path then throw (.notFound b)
  if s.isFolder b.path then throw (.folder b.path)
  let some document := s.text? b.path | throw (.notText b.path)
  let some limits := BuildLimits.ofDocument? document | throw (.invalid b.path)
  b.check limits
  return limits

private def constant (name type : String) (value : Nat) : String :=
  s!"        pub const {name}: {type} = {value};\n"

private def group (name : String) (constants : List String) : String :=
  s!"    pub mod {name} \x7b\n" ++ String.join constants ++ "    \x7d\n"

def constants (b : BuildProfile) (l : BuildLimits) : String :=
  let groups := [
    group "file_processing" [
      constant "MAX_FILE_SIZE" "u64" l.files.maxSize,
      constant "LARGE_FILE_THRESHOLD" "u64" l.files.largeThreshold,
      constant "MAX_LINE_COUNT" "usize" l.files.maxLines],
    group "lexical" [
      constant "MAX_STRING_SIZE" "usize" l.lexical.maxString,
      constant "MAX_IDENTIFIER_LENGTH" "usize" l.lexical.maxIdentifier,
      constant "MAX_COMMENT_LENGTH" "usize" l.lexical.maxComment,
      constant "MAX_TOKEN_COUNT" "usize" l.lexical.maxTokens,
      constant "MAX_EXTERNAL_RECOGNIZERS" "usize" l.lexical.maxRecognizers],
    group "batch_processing" [
      constant "MAX_WORKER_THREADS" "usize" l.batch.maxThreads,
      constant "MAX_FILES_PER_BATCH" "usize" l.batch.maxFiles],
    group "logging" [
      constant "MAX_ERROR_COLLECTION" "usize" l.logging.maxCollection,
      constant "MAX_LOG_MESSAGE_LENGTH" "usize" l.logging.maxMessage,
      constant "MAX_LOG_EVENTS_PER_FILE" "usize" l.logging.maxEventsPerFile]]
  s!"\n// Generated compile-time constants from TOML configuration\n// Profile: {b.profile}\n" ++
    "// DO NOT EDIT - Generated by build.rs\n\npub mod compile_time \x7b\n" ++
    "\n".intercalate groups ++ "\x7d\n"

def announcement (b : BuildProfile) : List String := [
  "cargo:rerun-if-changed=build.rs",
  "cargo:rerun-if-env-changed=RAVEN_BUILD_PROFILE",
  "cargo:rerun-if-env-changed=RAVEN_CONFIG_DIR",
  s!"cargo:rerun-if-changed={b.path.display}"]

def conclusion (b : BuildProfile) : String :=
  s!"cargo:warning=Generated lexer limits from {b.path.display}"

end BuildProfile

def BuildError.message : BuildError → String
  | .notFound b =>
      s!"Configuration file not found: {b.path.display}\n" ++
        s!"Looking for: {b.root.display}/{b.directory}/{b.profile}.toml"
  | .folder path => s!"Failed to read {path.display}: Is a directory (os error 21)"
  | .notText path => s!"Failed to read {path.display}: stream did not contain valid UTF-8"
  | .invalid path => s!"Invalid TOML in {path.display}"
  | .fileSizeTooLarge => "SECURITY: max_file_size exceeds absolute maximum"
  | .thresholdAboveFileSize => "CONFIG: large_file_threshold must not exceed max_file_size"
  | .tooManyTokens => "SECURITY: max_token_count exceeds absolute maximum"
  | .noLength => "CONFIG: lexical length limits must be non-zero"
  | .badThreadCount => "CONFIG: max_worker_threads must be between 1 and 256"
  | .fileSizeTooLargeForProduction => "PRODUCTION: max_file_size too high for production"
  | .stringTooLargeForProduction => "PRODUCTION: max_string_size too high for production"

end Lexing
