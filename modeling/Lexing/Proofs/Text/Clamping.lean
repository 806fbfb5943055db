import Lexing.Proofs.Source.Coordinates
import Mathlib.Order.Bounds.Defs

namespace Lexing.Text

def cutBefore? (text : String) (offset : Nat) : Option Nat :=
  if String.Pos.Raw.isValid text ⟨offset⟩ then some offset
  else
    match offset with
    | 0 => none
    | below + 1 => cutBefore? text below

def cut? (limit : Nat) (text : String) : Option String :=
  if text.utf8ByteSize ≤ limit then some text
  else (cutBefore? text limit).bind fun place =>
    (split? text.toList place).map fun parts => .ofList parts.1

structure Clamps (limit : Nat) (text kept : String) : Prop where
  isPrefix : kept.toList <+: text.toList
  greatest : IsGreatest {n | IsCut text.toList n ∧ n ≤ limit} kept.utf8ByteSize
  searched : cut? limit text = some kept
  slack : limit < text.utf8ByteSize → limit ≤ kept.utf8ByteSize + 3

theorem size_toList (text : String) : size text.toList = text.utf8ByteSize := by
  rw [← length_bytes, String.utf8ByteSize, ← String.utf8Encode_toList]
  simp [List.utf8Encode, bytes]

theorem isValid_iff_isCut (text : String) (offset : Nat) :
    String.Pos.Raw.isValid text ⟨offset⟩ ↔ IsCut text.toList offset := by
  rw [String.Pos.Raw.isValid_eq_true_iff, String.Pos.Raw.isValid_iff_exists_append]
  constructor
  · rintro ⟨before, after, rfl, hoffset⟩
    refine ⟨before.toList, after.toList, String.toList_append, ?_⟩
    rw [size_toList]
    exact (congrArg String.Pos.Raw.byteIdx hoffset).symm
  · rintro ⟨before, after, htext, rfl⟩
    refine ⟨.ofList before, .ofList after, ?_, ?_⟩
    · rw [← String.ofList_append, ← htext, String.ofList_toList]
    · rw [String.rawEndPos, ← size_toList, String.toList_ofList]

theorem isCut_zero (cs : List Char) : IsCut cs 0 := ⟨[], cs, rfl, rfl⟩

theorem clamp_go (kept : List Char) (room : Nat) (cs : List Char) :
    clamp.go kept room cs = kept.reverse ++ clamp room cs := by
  induction cs generalizing kept room with
  | nil => simp [clamp, clamp.go]
  | cons c cs ih =>
      simp only [clamp, clamp.go]
      split
      · rw [ih, ih [c]]
        simp
      · simp

theorem clamp_nil (limit : Nat) : clamp limit [] = [] := rfl

theorem clamp_cons (limit : Nat) (c : Char) (cs : List Char) :
    clamp limit (c :: cs) =
      if c.utf8Size ≤ limit then c :: clamp (limit - c.utf8Size) cs else [] := by
  rw [clamp, clamp.go, clamp_go]
  rfl

theorem prefix_clamp (limit : Nat) (cs : List Char) : clamp limit cs <+: cs := by
  induction cs generalizing limit with
  | nil => exact List.nil_prefix
  | cons c cs ih =>
      rw [clamp_cons]
      split
      · exact List.cons_prefix_cons.2 ⟨rfl, ih _⟩
      · exact List.nil_prefix

theorem size_clamp_le (limit : Nat) (cs : List Char) : size (clamp limit cs) ≤ limit := by
  induction cs generalizing limit with
  | nil => exact Nat.zero_le limit
  | cons c cs ih =>
      rw [clamp_cons]
      split
      · next hfits =>
          have hrest := ih (limit - c.utf8Size)
          rw [size_cons]
          omega
      · exact Nat.zero_le limit

theorem prefix_clamp_of_size_le {limit : Nat} {cs short : List Char} (h : short <+: cs)
    (hsize : size short ≤ limit) : short <+: clamp limit cs := by
  induction cs generalizing limit short with
  | nil => exact h
  | cons c cs ih =>
      cases short with
      | nil => exact List.nil_prefix
      | cons d short =>
          obtain ⟨rfl, hrest⟩ := List.cons_prefix_cons.1 h
          rw [size_cons] at hsize
          rw [clamp_cons, if_pos (by omega)]
          exact List.cons_prefix_cons.2 ⟨rfl, ih hrest (by omega)⟩

theorem clamp_of_size_le {limit : Nat} {cs : List Char} (h : size cs ≤ limit) :
    clamp limit cs = cs := by
  have hwhole := prefix_clamp_of_size_le (List.prefix_refl cs) h
  exact (prefix_clamp limit cs).eq_of_length_le hwhole.length_le

theorem clamp_clamp (limit : Nat) (cs : List Char) :
    clamp limit (clamp limit cs) = clamp limit cs :=
  clamp_of_size_le (size_clamp_le limit cs)

theorem le_size_clamp {limit : Nat} {cs : List Char} (h : limit < size cs) :
    limit ≤ size (clamp limit cs) + 3 := by
  induction cs generalizing limit with
  | nil => nomatch h
  | cons c cs ih =>
      rw [size_cons] at h
      rw [clamp_cons]
      split
      · next hfits =>
          have hlong : limit - c.utf8Size < size cs := by omega
          have hrest := ih hlong
          rw [size_cons]
          omega
      · have hfour := c.utf8Size_le_four
        omega

theorem isGreatest_clamp (limit : Nat) (cs : List Char) :
    IsGreatest {n | IsCut cs n ∧ n ≤ limit} (size (clamp limit cs)) := by
  constructor
  · obtain ⟨rest, hrest⟩ := prefix_clamp limit cs
    exact ⟨⟨clamp limit cs, rest, hrest.symm, rfl⟩, size_clamp_le limit cs⟩
  · rintro _ ⟨⟨before, after, rfl, rfl⟩, hle⟩
    exact size_mono (prefix_clamp_of_size_le (List.prefix_append before after) hle)

theorem cutBefore?_eq {text : String} {offset place : Nat}
    (h : IsGreatest {n | IsCut text.toList n ∧ n ≤ offset} place) :
    cutBefore? text offset = some place := by
  obtain ⟨⟨hplace, hle⟩, hmost⟩ := h
  induction offset with
  | zero =>
      rw [cutBefore?, if_pos ((isValid_iff_isCut text 0).2 (isCut_zero _)), Nat.le_zero.1 hle]
  | succ below ih =>
      rw [cutBefore?]
      split
      · next hvalid =>
          have hcut := (isValid_iff_isCut text (below + 1)).1 hvalid
          rw [Nat.le_antisymm hle (hmost ⟨hcut, Nat.le_refl _⟩)]
      · next hinside =>
          have hne : place ≠ below + 1 := by
            rintro rfl
            exact hinside ((isValid_iff_isCut text (below + 1)).2 hplace)
          exact ih (fun n hn => hmost ⟨hn.1, Nat.le_succ_of_le hn.2⟩) (by omega)

theorem cut?_eq (limit : Nat) (text : String) :
    cut? limit text = some (.ofList (clamp limit text.toList)) := by
  unfold cut?
  split
  · next hfits =>
      rw [clamp_of_size_le (by rwa [size_toList]), String.ofList_toList]
  · obtain ⟨rest, hrest⟩ := prefix_clamp limit text.toList
    have hsplit := split?_append (clamp limit text.toList) rest
    rw [hrest] at hsplit
    rw [cutBefore?_eq (isGreatest_clamp limit text.toList), Option.bind_some, hsplit]
    rfl

example : cut? 4 "aéé" = some "aé" := by cbv

theorem clamps_clamp (limit : Nat) (text : String) :
    Clamps limit text (.ofList (clamp limit text.toList)) := by
  have hsize : (String.ofList (clamp limit text.toList)).utf8ByteSize =
      size (clamp limit text.toList) := by
    rw [← size_toList, String.toList_ofList]
  refine ⟨?_, ?_, cut?_eq limit text, ?_⟩
  · rw [String.toList_ofList]
    exact prefix_clamp limit text.toList
  · rw [hsize]
    exact isGreatest_clamp limit text.toList
  · intro hlong
    rw [hsize]
    exact le_size_clamp (by rwa [size_toList])

end Lexing.Text
