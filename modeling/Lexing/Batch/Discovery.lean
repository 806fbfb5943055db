import Lexing.Batch.Results
import Lexing.Batch.Settings

namespace Lexing

namespace Discovery

private def lowerByte (b : UInt8) : UInt8 := if 0x41 ≤ b ∧ b ≤ 0x5a then b + 0x20 else b

def isSource (path : Path) : Bool :=
  match path.extension? with
  | some found => found.map lowerByte == FileMetadata.sourceExtension.toUTF8.toList
  | none => false

private theorem lowerByte_eq {b c : UInt8} (h : 0x61 ≤ c ∧ c ≤ 0x7a) :
    lowerByte b = c ↔ b = c ∨ b = c - 0x20 := by
  unfold lowerByte
  split <;> grind

theorem isSource_iff {path : Path} : isSource path = true ↔
    ∃ r v, path.extension? = some [r, v] ∧ (r = 0x72 ∨ r = 0x52) ∧ (v = 0x76 ∨ v = 0x56) := by
  have hletters : FileMetadata.sourceExtension.toUTF8.toList = [0x72, 0x76] := by decide +kernel
  have hr (b : UInt8) : lowerByte b = 0x72 ↔ b = 0x72 ∨ b = 0x52 := lowerByte_eq (by decide)
  have hv (b : UInt8) : lowerByte b = 0x76 ↔ b = 0x76 ∨ b = 0x56 := lowerByte_eq (by decide)
  have hmap (letters : List UInt8) : letters.map lowerByte = [0x72, 0x76] ↔
      ∃ r v, letters = [r, v] ∧ (r = 0x72 ∨ r = 0x52) ∧ (v = 0x76 ∨ v = 0x56) := by
    simp only [List.map_eq_cons_iff, List.map_eq_nil_iff, hr, hv]
    grind
  unfold isSource
  rw [hletters]
  cases path.extension? with
  | none => simp
  | some letters => simp [hmap]

def keep (path : Path) (found : Array Path) : Array Path :=
  if isSource path then found.push path else found

def overflows (before after : Array Path) : Bool :=
  before.size < after.size && Limits.batch.maxFiles < after.size

def visit (recursive : Bool) (links : Nat) (path : Path) (place : Place)
    (entries : List (EntryName × Node)) (found : Array Path) : Array Path :=
  match entries with
  | [] => found
  | (name, node) :: rest =>
      let below := path.join ⟨name⟩
      if below.isTooLong then visit recursive links path place rest found
      else match node with
      | .file _ =>
          let more := keep below found
          if overflows found more then more else visit recursive links path place rest more
      | .folder inner =>
          let more := if recursive then
            visit recursive links below (place.down name node) inner found else found
          visit recursive links path place rest more
      | .device => visit recursive links path place rest found
      | .link _ =>
          match links with
          | 0 => visit recursive 0 path place rest found
          | fewer + 1 =>
              match Path.walk (fewer + 1) place [name] with
              | .ok (⟨_, .file _, _⟩, _) =>
                  let more := keep below found
                  if overflows found more then more
                  else visit recursive (fewer + 1) path place rest more
              | .ok (⟨n, .folder inner, above⟩, left) =>
                  let more := if recursive then
                    visit recursive (min left fewer) below ⟨n, .folder inner, above⟩ inner found
                    else found
                  visit recursive (fewer + 1) path place rest more
              | _ => visit recursive (fewer + 1) path place rest found
termination_by (links, sizeOf entries)

def find (s : FileSystem) (b : BatchSettings) (directory : Path) :
    Except BatchError (List Path) × List Act :=
  let shown := directory.display
  let start := Act.emit ((Event.info "Starting file discovery").noteAll [
    ("directory", shown), ("recursive", toString b.recursive)])
  match s.find? directory with
  | some (⟨name, .folder entries, above⟩, links) =>
      let found := visit b.recursive links directory ⟨name, .folder entries, above⟩ entries #[]
      if found.isEmpty then (.error (.noFilesFound shown), [start])
      else if Limits.batch.maxFiles < found.size then
        (.error (.tooManyFiles found.size Limits.batch.maxFiles), [start])
      else
        let files := Path.inOrder id found.toList
        let (wanted, cut) := match b.fileLimit with
          | some limit =>
              if limit < files.length then
                (files.take limit, [Act.emit ((Event.warning "Reached maximum file limit").noteAll [
                  ("files_found", toString files.length), ("limit", toString limit)])])
              else (files, [])
          | none => (files, [])
        let done := (Event.success "I030" "File discovery completed").noteAll [
          ("files_found", toString wanted.length), ("directory", shown)]
        (.ok wanted, start :: cut ++ [.emit done])
  | _ => (.error (.directoryNotFound shown), [start])

inductive Rejection where
  | notFile
  | notText
  | tooLarge (size limit : Nat)
  deriving DecidableEq, Repr

def Rejection.message : Rejection → String
  | .notFile => "Path is not a file"
  | .notText => "Path is not valid UTF-8"
  | .tooLarge size limit => s!"File too large: {size} bytes (max: {limit} bytes)"

def check (s : FileSystem) (path : Path) : Option Rejection :=
  match s.contents? path with
  | none => some .notFile
  | some contents =>
      if path.text?.isNone then some .notText
      else if Limits.files.maxSize < contents.size then
        some (.tooLarge contents.size Limits.files.maxSize)
      else none

def accept (s : FileSystem) (files : List Path) : List Path × List Act :=
  let checked := files.map fun path => (path, check s path)
  let valid := checked.filterMap fun (path, rejection) =>
    if rejection.isNone then some path else none
  let rejected := checked.filterMap fun (path, rejection) => rejection.map (path, ·)
  let warning := if rejected.isEmpty then [] else
    [Act.emit ((Event.warning "Some files failed validation").noteAll [
      ("valid_files", toString valid.length), ("invalid_files", toString rejected.length)])]
  let errors := rejected.map fun (path, rejection) =>
    Act.emit ((Event.error "E012" "File validation failed").noteAll [
      ("file", path.display), ("reason", rejection.message)])
  (valid, warning ++ errors)

end Discovery

end Lexing
