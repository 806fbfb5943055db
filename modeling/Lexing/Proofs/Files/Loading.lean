import Lexing.Analysis.Basic

namespace Lexing

namespace Loader

variable {l : Loader} {path : String}

theorem find?_of_place {place : Place} (h : l.place path = .ok place) :
    ∃ links, l.files.find? (.ofString path) = some (place, links) := by
  unfold Loader.place at h
  split at h
  · contradiction
  · next found links hfind =>
      split at h
      · contradiction
      split at h
      · contradiction
      · obtain rfl := Except.ok.inj h
        exact ⟨links, hfind⟩

def Unchanged (l : Loader) (path : String) : Prop :=
  ∀ found, l.files.find? (.ofString path) = some found → ∀ told, l.added told found.1 = ""

theorem load_of_unchanged (h : l.Unchanged path) :
    l.load path = (Loader.of l.preferences l.files).load path := by
  have hplace : (Loader.of l.preferences l.files).place path = l.place path := rfl
  simp only [load, hplace]
  split
  · rfl
  cases hp : l.place path with
  | error e => rfl
  | ok place =>
      obtain ⟨links, hfind⟩ := find?_of_place hp
      have hadded := h _ hfind
      obtain ⟨name, node, above⟩ := place
      cases node with
      | file contents =>
          simp only [hadded]
          rfl
      | _ => rfl

theorem analyze_of_unchanged (h : l.Unchanged path) (a : Analyzer) :
    l.analyze a path = (Loader.of l.preferences l.files).analyze a path := by
  rw [analyze, analyze, load_of_unchanged h]

end Loader

end Lexing
