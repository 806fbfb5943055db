import Lexing.Files.Error
import Lexing.Journal.Basic
import Lexing.Text.Classes

namespace Lexing

structure Duration where
  nanos : Nat
  deriving DecidableEq, Repr, Inhabited

namespace Duration

def zero : Duration := ⟨0⟩

def ofMicros (n : Nat) : Duration := ⟨n * 1000⟩

def ofMillis (n : Nat) : Duration := ⟨n * 1000000⟩

def seconds (d : Duration) : Binary64 :=
  (Binary64.ofNat (d.nanos / 1000000000)).add
    ((Binary64.ofNat (d.nanos % 1000000000)).div (.ofNat 1000000000))

def millis (d : Duration) : Binary64 := d.seconds.mul (.ofNat 1000)

end Duration

structure FileMetadata where
  path : Path
  size : Nat
  extension : Option String
  lines : Nat
  deriving DecidableEq, Repr

namespace FileMetadata

def sourceExtension : String := "rv"

def isSource (m : FileMetadata) : Bool := m.extension == some sourceExtension

def isLarge (m : FileMetadata) : Bool := Limits.files.largeThreshold < m.size

def humanSize (bytes : Nat) : String :=
  let size := Binary64.ofNat bytes
  let atLeast (n : Nat) : Bool := match size with
    | .finite _ x => n * Nat.pow 2 1074 ≤ x.units
    | _ => true
  let text (unit : Nat) : String := (size.div (.ofNat unit)).toPlaces 2
  if !atLeast 1024 then s!"{bytes} B"
  else if !atLeast (Nat.pow 1024 2) then text 1024 ++ " KB"
  else if !atLeast (Nat.pow 1024 3) then text (Nat.pow 1024 2) ++ " MB"
  else text (Nat.pow 1024 3) ++ " GB"

def human (m : FileMetadata) : String := humanSize m.size

end FileMetadata

structure LoadedFile where
  source : String
  metadata : FileMetadata
  duration : Duration
  deriving Repr

namespace LoadedFile

def chars (f : LoadedFile) : Nat := f.source.length

def isBlank (f : LoadedFile) : Bool := f.source.all Text.isBlank

def rate (f : LoadedFile) : Binary64 :=
  match f.duration.millis with
  | .finite false x =>
      if x.units = 0 then .zero else (Binary64.ofNat f.chars).div (.finite false x)
  | _ => .zero

def name (f : LoadedFile) : String := f.metadata.path.display

end LoadedFile

def countLines (s : String) : Nat :=
  let (ends, isOpen) := s.foldl (fun (n : Nat × Bool) c =>
    if c = '\n' then (n.1 + 1, false) else (n.1, true)) (0, false)
  if isOpen then ends + 1 else ends

structure Loader where
  preferences : FilePreferences
  files : FileSystem
  added : List Act → Place → String

namespace Loader

def of (p : FilePreferences) (s : FileSystem) : Loader := ⟨p, s, fun _ _ => ""⟩

abbrev Outcome (α : Type) := Except FileError α × List Act

def refuse {α : Type} (told : List Act) (error : FileError) (message : String)
    (notes : List (String × String)) : Outcome α :=
  (.error error, told ++ [.emit ((Event.error error.code message).noteAll notes)])

private def tooLong : String := "File name too long (os error 36)"

def place (l : Loader) (path : String) :
    Except (FileError × String × List (String × String)) Place :=
  match l.files.find? (.ofString path) with
  | none => .error (.notFound path, "File not found", [])
  | some (place, _) =>
      if !place.node.isFile then .error (.invalidPath path, "Path is not a file", [])
      else if (FileSystem.canonical place).isTooLong then
        .error (.unreadable s!"Failed to resolve path '{path}': {tooLong}",
          "Failed to canonicalize path", [("io_error", tooLong)])
      else .ok place

def metadataOf (place : Place) (contents : Contents) : FileMetadata where
  path := FileSystem.canonical place
  size := contents.size
  extension := ((FileSystem.canonical place).extension?.bind Text.ofBytes?).map Text.lower
  lines := 0

private def switchText (b : Bool) : String := if b then "true" else "false"

private def tellMetadata (m : FileMetadata) : Act :=
  .detail ((Event.debug "File metadata collected").noteAll [
    ("size_bytes", toString m.size), ("size_human", m.human),
    ("extension", m.extension.getD "none"), ("is_large_file", switchText m.isLarge)])

private def tellLoaded (l : Loader) (path : String) (f : LoadedFile) : Act :=
  let duration := f.duration.millis.toPlaces 2
  let m := f.metadata
  if l.preferences.logPerformance then
    .emit ((Event.success "I006" "File processed successfully with performance metrics").noteAll [
      ("file", path), ("size_bytes", toString m.size), ("size_human", m.human),
      ("lines", toString m.lines), ("chars", toString f.chars), ("duration_ms", duration),
      ("chars_per_ms", f.rate.toPlaces 2), ("is_large_file", switchText m.isLarge)])
  else
    .emit ((Event.success "I006" "File processed successfully").noteAll [
      ("file", path), ("size_bytes", toString m.size), ("lines", toString m.lines),
      ("duration_ms", duration)])

def load (l : Loader) (path : String) : Outcome LoadedFile :=
  let told := [Act.detail ((Event.debug "Starting file processing").note "file" path)]
  if path.isEmpty then
    refuse told (.invalidPath path) "Empty file path provided" []
  else match l.place path with
    | .error (error, message, notes) => refuse told error message (("path", path) :: notes)
    | .ok ⟨name, node, above⟩ =>
        match node with
        | .file contents =>
            let place : Place := ⟨name, node, above⟩
            let m := metadataOf place (contents.append (l.added told place))
            let told := told ++ [tellMetadata m]
            if Limits.files.maxSize < m.size then
              refuse told (.tooLarge m.size Limits.files.maxSize)
                "File exceeds compile-time maximum size limit"
                [("file", path), ("size_human", m.human),
                  ("limit_human", FileMetadata.humanSize Limits.files.maxSize)]
            else if m.size = 0 then
              refuse told .empty "File is empty" [("file", path)]
            else if l.preferences.requireExtension && !m.isSource then
              refuse told (.invalidExtension m.extension)
                "File does not have required .rv extension"
                [("file", path), ("extension", m.extension.getD "none")]
            else match (contents.append (l.added told place)).text? with
              | none =>
                  refuse told (.invalidEncoding m.path.display) "Failed to read file"
                    [("file", path), ("io_error", "stream did not contain valid UTF-8")]
              | some source =>
                  let lines := countLines source
                  if Limits.files.maxLines < lines then
                    refuse told (.tooManyLines lines Limits.files.maxLines)
                      "File exceeds maximum line count"
                      [("file", path), ("lines", toString lines),
                        ("max_lines", toString Limits.files.maxLines)]
                  else
                    let f : LoadedFile := ⟨source, { m with lines }, .zero⟩
                    (.ok f, told ++ [l.tellLoaded path f])
        | _ => refuse told (.invalidPath path) "Path is not a file" [("path", path)]

theorem staysPut_refuse {α : Type} {told : List Act} (h : ∀ a ∈ told, a.staysPut)
    (error : FileError) (message : String) (notes : List (String × String)) :
    ∀ a ∈ (refuse told error message notes : Outcome α).2, a.staysPut :=
  List.forall_mem_append.2 ⟨h, List.forall_mem_singleton.2 rfl⟩

theorem staysPut_load (l : Loader) (path : String) : ∀ a ∈ (l.load path).2, a.staysPut := by
  let start := Act.detail ((Event.debug "Starting file processing").note "file" path)
  have hstart : ∀ a ∈ [start], a.staysPut := List.forall_mem_singleton.2 rfl
  have hread (m : FileMetadata) : ∀ a ∈ [start] ++ [tellMetadata m], a.staysPut :=
    List.forall_mem_append.2 ⟨hstart, List.forall_mem_singleton.2 rfl⟩
  have hloaded (f : LoadedFile) : (l.tellLoaded path f).staysPut := by
    unfold tellLoaded
    dsimp only
    split <;> rfl
  unfold load
  split
  · exact staysPut_refuse hstart _ _ _
  split
  · exact staysPut_refuse hstart _ _ _
  split
  · dsimp only
    split
    · exact staysPut_refuse (hread _) _ _ _
    split
    · exact staysPut_refuse (hread _) _ _ _
    split
    · exact staysPut_refuse (hread _) _ _ _
    split
    · exact staysPut_refuse (hread _) _ _ _
    split
    · exact staysPut_refuse (hread _) _ _ _
    · exact List.forall_mem_append.2 ⟨hread _, List.forall_mem_singleton.2 (hloaded _)⟩
  · exact staysPut_refuse hstart _ _ _

end Loader

end Lexing
