namespace Lexing

/-- Limits of scanning; the first three and the fourth count bytes and tokens. -/
structure LexicalLimits where
  maxString : Nat
  maxIdentifier : Nat
  maxComment : Nat
  maxTokens : Nat
  maxRecognizers : Nat
  deriving DecidableEq, Repr

def LexicalLimits.isConservative (l : LexicalLimits) : Bool :=
  l.maxString ≤ 10000000 && l.maxIdentifier ≤ 1000 && l.maxComment ≤ 100000 &&
    l.maxTokens ≤ 5000000 && l.maxRecognizers ≤ 256

def LexicalLimits.check (l : LexicalLimits) : Except String Unit :=
  if l.maxString = 0 then .error "MAX_STRING_SIZE cannot be zero"
  else if l.maxIdentifier = 0 then .error "MAX_IDENTIFIER_LENGTH cannot be zero"
  else if l.maxTokens = 0 then .error "MAX_TOKEN_COUNT cannot be zero"
  else if l.maxComment = 0 then .error "MAX_COMMENT_LENGTH cannot be zero"
  else if 100000000 < l.maxString then .error "MAX_STRING_SIZE exceeds reasonable limit"
  else if 10000000 < l.maxTokens then .error "MAX_TOKEN_COUNT exceeds reasonable limit"
  else .ok ()

structure FileLimits where
  maxSize : Nat
  largeThreshold : Nat
  maxLines : Nat
  deriving DecidableEq, Repr

structure BatchLimits where
  maxThreads : Nat
  maxFiles : Nat
  deriving DecidableEq, Repr

/-- Limits of what is logged: events kept, bytes of a message, events kept for one file. -/
structure LoggingLimits where
  maxCollection : Nat
  maxMessage : Nat
  maxEventsPerFile : Nat
  deriving DecidableEq, Repr

def LoggingLimits.check (l : LoggingLimits) : Except String Unit :=
  if l.maxCollection < l.maxEventsPerFile then
    .error "Max log events per file exceeds total error collection"
  else if l.maxMessage < 64 then .error s!"Log message length too small: {l.maxMessage}"
  else .ok ()

namespace Limits

def lexical : LexicalLimits := ⟨16777216, 1024, 1048576, 10000000, 32⟩

def files : FileLimits := ⟨104857600, 10485760, 2000000⟩

def batch : BatchLimits := ⟨32, 10000⟩

def logging : LoggingLimits := ⟨10000, 4096, 1000⟩

def profile : String := "development"

def directory : String := "config"

def sourceInfo : String := s!"Generated from {directory}/{profile}.toml"

end Limits

end Lexing
