import Lexing.Source.Lines
import Mathlib.Data.List.GetD
import Mathlib.Tactic.ByContra

namespace Lexing.Lines

open Text

def ends : List Char → Nat → List Nat
  | [], _ => []
  | c :: cs, offset =>
      (if c = '\n' then [offset + c.utf8Size] else []) ++ ends cs (offset + c.utf8Size)

theorem ends_append (cs ds : List Char) (offset : Nat) :
    ends (cs ++ ds) offset = ends cs offset ++ ends ds (offset + size cs) := by
  induction cs generalizing offset with
  | nil => simp [ends]
  | cons c cs ih => simp [ends, ih, Nat.add_assoc]

theorem length_ends (cs : List Char) (offset : Nat) : (ends cs offset).length = cs.count '\n' := by
  induction cs generalizing offset with
  | nil => rfl
  | cons c cs ih => by_cases hc : c = '\n' <;> simp [ends, ih, hc]

theorem bounds_of_mem_ends {cs : List Char} {offset n : Nat} (h : n ∈ ends cs offset) :
    offset < n ∧ n ≤ offset + size cs := by
  induction cs generalizing offset with
  | nil => simp [ends] at h
  | cons c cs ih =>
      have hc := c.utf8Size_pos
      rw [size_cons]
      rcases List.mem_append.1 h with h | h
      · split at h
        · obtain rfl := List.mem_singleton.1 h
          omega
        · simp at h
      · have := ih h
        omega

theorem toList_startsAfter (cs : List Char) (offset : Nat) (found : Array Nat) :
    (startsAfter cs offset found).toList = found.toList ++ ends cs offset := by
  induction cs generalizing offset found with
  | nil => simp [startsAfter, ends]
  | cons c cs ih => by_cases hc : c = '\n' <;> simp [startsAfter, ends, ih, hc]

theorem toList_starts (cs : List Char) : (ofText cs).starts.toList = 0 :: ends cs 0 :=
  toList_startsAfter cs 0 #[0]

theorem firstBeyond_eq {starts : Array Nat} {xs ys : List Nat} {offset low high : Nat}
    (h : starts.toList = xs ++ ys) (hxs : ∀ n ∈ xs, n ≤ offset) (hys : ∀ n ∈ ys, offset < n)
    (hlow : low ≤ xs.length) (hhigh : xs.length ≤ high) (hsize : high ≤ starts.size) :
    firstBeyond starts offset low high = xs.length := by
  have hlength : starts.size = xs.length + ys.length := by
    rw [← Array.length_toList, h, List.length_append]
  have hat (i : Nat) : starts.getD i 0 = (xs ++ ys).getD i 0 := by
    rw [← h, Array.getD_eq_getD_getElem?, List.getD_eq_getElem?_getD, Array.getElem?_toList]
  -- The bounds stay on both sides of the place where the starts pass the offset.
  fun_induction firstBeyond starts offset low high with
  | case1 low high hlt middle hle ih =>
      refine ih ?_ hhigh hsize
      by_contra hmiddle
      have hmem : starts.getD middle 0 ∈ ys := by
        rw [hat, List.getD_append_right _ _ _ _ (by omega),
          List.getD_eq_getElem _ _ (by omega)]
        exact List.getElem_mem _
      exact Nat.not_lt.2 hle (hys _ hmem)
  | case2 low high hlt middle hgt ih =>
      refine ih hlow ?_ (by omega)
      by_contra hmiddle
      have hmem : starts.getD middle 0 ∈ xs := by
        rw [hat, List.getD_append _ _ _ _ (by omega),
          List.getD_eq_getElem _ _ (by omega)]
        exact List.getElem_mem _
      exact hgt (hxs _ hmem)
  | case3 low high hge => omega

theorem lineAt_of_split {text : List Char} {xs ys : List Nat} {offset : Nat}
    (h : (ofText text).starts.toList = xs ++ ys) (hxs : ∀ n ∈ xs, n ≤ offset)
    (hys : ∀ n ∈ ys, offset < n) : (ofText text).lineAt offset = xs.length := by
  have hsize : (ofText text).starts.size = xs.length + ys.length := by
    rw [← Array.length_toList, h, List.length_append]
  exact firstBeyond_eq h hxs hys (Nat.zero_le _) (by omega) (Nat.le_refl _)

theorem lineAt_eq (before after : List Char) :
    (ofText (before ++ after)).lineAt (size before) = 1 + before.count '\n' := by
  have hstarts : (ofText (before ++ after)).starts.toList =
      (0 :: ends before 0) ++ ends after (size before) := by
    rw [toList_starts, ends_append, Nat.zero_add, List.cons_append]
  have hbefore : ∀ n ∈ 0 :: ends before 0, n ≤ size before := by
    intro n hn
    rcases List.mem_cons.1 hn with rfl | hn
    · exact Nat.zero_le _
    · simpa using (bounds_of_mem_ends hn).2
  have hafter : ∀ n ∈ ends after (size before), size before < n :=
    fun n hn => (bounds_of_mem_ends hn).1
  rw [lineAt_of_split hstarts hbefore hafter, List.length_cons, length_ends, Nat.add_comm]

end Lexing.Lines
