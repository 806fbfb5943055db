import Lexing.Batch.Basic

namespace Lexing

namespace Batch

variable {α : Type}

theorem flatten_zipIdx_chunks {size : Nat} (h : 0 < size) (items : List α) (first index : Nat) :
    (((chunks size items).zipIdx index).map fun (piece, i) =>
      piece.zipIdx (first + i * size)).flatten = items.zipIdx (first + index * size) := by
  fun_induction chunks size items generalizing index with
  | case1 => rfl
  | case2 x xs ih =>
      have hxs : x :: xs = (x :: xs.take (size - 1)) ++ xs.drop (size - 1) := by simp
      rw [List.zipIdx_cons, List.map_cons, List.flatten_cons, ih]
      conv => rhs; rw [hxs, List.zipIdx_append]
      congr 1
      by_cases hshort : xs.length < size
      · rw [List.drop_eq_nil_of_le (by omega)]
        rfl
      · have hlength : (x :: xs.take (size - 1)).length = size := by
          simp only [List.length_cons, List.length_take]
          omega
        rw [hlength, Nat.succ_mul, Nat.add_assoc]

theorem length_chunks {size : Nat} (h : 0 < size) (items : List α) :
    (chunks size items).length = shareCount items.length size := by
  fun_induction chunks size items with
  | case1 => simp [shareCount, Nat.div_eq_of_lt (show size - 1 < size by omega)]
  | case2 x xs ih =>
      rw [List.length_cons, ih, shareCount, shareCount, List.length_drop, List.length_cons,
        ← Nat.add_div_right _ h]
      by_cases hshort : xs.length < size
      · rw [Nat.div_eq_of_lt_le (k := 1) (by omega) (by omega),
          Nat.div_eq_of_lt_le (k := 1) (by omega) (by omega)]
      · congr 1
        omega

theorem shareCount_shareSize_le (files : Nat) {workers : Nat} (h : 0 < workers) :
    shareCount files (shareSize files workers) ≤ workers := by
  have hpos : 0 < shareSize files workers := by
    rw [shareSize]
    omega
  have hle : shareCount files workers ≤ shareSize files workers := Nat.le_max_right ..
  have hfit : files ≤ workers * shareSize files workers := by
    have hdiv := Nat.lt_mul_div_succ (files + workers - 1) h
    have hmul := Nat.mul_le_mul_left workers hle
    rw [shareCount] at hmul
    rw [Nat.mul_add] at hdiv
    omega
  rw [shareCount]
  apply Nat.le_of_lt_succ
  rw [Nat.div_lt_iff_lt_mul hpos, Nat.succ_mul]
  omega

theorem length_shares_le {workers : Nat} (h : 0 < workers) (first : Nat) (files : List Path) :
    (shares workers first files).length ≤ workers := by
  rw [shares, List.length_map, List.length_zipIdx, length_chunks]
  · exact shareCount_shareSize_le files.length h
  · rw [shareSize]
    omega

theorem flatten_shares (workers first : Nat) (files : List Path) :
    (shares workers first files).flatten = files.zipIdx first := by
  have hpos : 0 < shareSize files.length workers := by
    rw [shareSize]
    omega
  have h := flatten_zipIdx_chunks hpos files first 0
  rwa [Nat.zero_mul, Nat.add_zero] at h

theorem flatten_rounds (mode : BatchMode) (workers : Nat) (files : List Path) :
    (rounds mode workers files).flatten.flatten = files.zipIdx := by
  cases mode with
  | sequential =>
      rw [rounds]
      induction files.zipIdx with
      | nil => rfl
      | cons f fs ih => simpa using ih
  | parallel =>
      have hpos : 0 < roundSize files.length workers := by
        rw [roundSize]
        omega
      have h := flatten_zipIdx_chunks hpos files 0 0
      rw [rounds, List.flatten_flatten, List.map_map]
      simp only [Nat.zero_add, Nat.zero_mul] at h
      rw [← h]
      congr 1
      apply List.map_congr_left
      rintro ⟨round, index⟩ -
      exact flatten_shares ..

theorem exists_of_mem_sequential {workers : Nat} {files : List Path} {round : Round}
    (h : round ∈ rounds .sequential workers files) : ∃ f, round = [[f]] := by
  obtain ⟨f, -, rfl⟩ := List.mem_map.1 h
  exact ⟨f, rfl⟩

def files (round : Round) : List Path := round.flatten.map Prod.fst

theorem map_fst_flatten (todo : List Round) :
    todo.flatten.flatten.map Prod.fst = (todo.map files).flatten := by
  induction todo with
  | nil => rfl
  | cons round todo ih =>
      rw [List.flatten_cons, List.flatten_append, List.map_append, ih]
      rfl

theorem length_le_of_mem_rounds {mode : BatchMode} {workers : Nat} (h : 0 < workers)
    {files : List Path} {round : Round} (hr : round ∈ rounds mode workers files) :
    round.length ≤ workers := by
  cases mode with
  | sequential =>
      obtain ⟨f, -, rfl⟩ := List.mem_map.1 hr
      exact h
  | parallel =>
      obtain ⟨⟨files, index⟩, -, rfl⟩ := List.mem_map.1 hr
      exact length_shares_le h ..

end Batch

end Lexing
