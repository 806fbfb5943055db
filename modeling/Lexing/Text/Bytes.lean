namespace Lexing.Text

def size (cs : List Char) : Nat := cs.foldl (fun n c => n + c.utf8Size) 0

private theorem foldl_size (cs : List Char) (n : Nat) :
    cs.foldl (fun n c => n + c.utf8Size) n = n + size cs := by
  induction cs generalizing n with
  | nil => rfl
  | cons c cs ih =>
      simp only [size, List.foldl_cons]
      rw [ih, ih (0 + c.utf8Size)]
      omega

@[simp] theorem size_nil : size [] = 0 := rfl

@[simp] theorem size_cons (c : Char) (cs : List Char) :
    size (c :: cs) = c.utf8Size + size cs := by
  have h := foldl_size cs (0 + c.utf8Size)
  simpa [size] using h

@[simp] theorem size_append (cs ds : List Char) : size (cs ++ ds) = size cs + size ds := by
  induction cs with
  | nil => simp
  | cons c cs ih => simp [ih, Nat.add_assoc]

@[simp] theorem size_reverse (cs : List Char) : size cs.reverse = size cs := by
  induction cs with
  | nil => rfl
  | cons c cs ih => simp [ih, Nat.add_comm]

theorem size_pos {cs : List Char} (h : cs ≠ []) : 0 < size cs := by
  obtain ⟨c, rest, rfl⟩ := List.exists_cons_of_ne_nil h
  have := c.utf8Size_pos
  rw [size_cons]
  omega

theorem size_mono {cs ds : List Char} (h : cs <+: ds) : size cs ≤ size ds := by
  obtain ⟨more, rfl⟩ := h
  rw [size_append]
  omega

theorem prefix_of_size_le {text cs ds : List Char} (hcs : cs <+: text) (hds : ds <+: text)
    (h : size cs ≤ size ds) : cs <+: ds := by
  rcases List.prefix_or_prefix_of_prefix hcs hds with hpre | ⟨more, rfl⟩
  · exact hpre
  · cases more with
    | nil => simp
    | cons c more =>
        have := size_pos (List.cons_ne_nil c more)
        rw [size_append] at h
        omega

theorem size_take_of_prefix {text cs ds : List Char} (hcs : cs <+: text) (hds : ds <+: text) :
    size (ds.take cs.length) = min (size cs) (size ds) := by
  rcases List.prefix_or_prefix_of_prefix hcs hds with ⟨more, rfl⟩ | ⟨more, rfl⟩
  · rw [List.take_left, size_append]
    omega
  · rw [List.take_of_length_le (by simp), size_append]
    omega

private def splitFrom (passed : List Char) : List Char → Nat → Option (List Char × List Char)
  | cs, 0 => some (passed.reverse, cs)
  | [], _ + 1 => none
  | c :: cs, n + 1 =>
      if c.utf8Size ≤ n + 1 then splitFrom (c :: passed) cs (n + 1 - c.utf8Size) else none

def split? (cs : List Char) (n : Nat) : Option (List Char × List Char) := splitFrom [] cs n

private theorem splitFrom_append (passed cs ds : List Char) :
    splitFrom passed (cs ++ ds) (size cs) = some (passed.reverse ++ cs, ds) := by
  induction cs generalizing passed with
  | nil => cases ds <;> simp [splitFrom]
  | cons c cs ih =>
      have hc := c.utf8Size_pos
      obtain ⟨n, hn⟩ : ∃ n, size (c :: cs) = n + 1 := ⟨size (c :: cs) - 1, by simp; omega⟩
      have hle : c.utf8Size ≤ n + 1 := by simp at hn; omega
      have hsub : n + 1 - c.utf8Size = size cs := by simp at hn; omega
      rw [hn, List.cons_append]
      simp [splitFrom, hle, hsub, ih]

theorem split?_append (cs ds : List Char) : split? (cs ++ ds) (size cs) = some (cs, ds) := by
  simp [split?, splitFrom_append]

private theorem eq_append_of_splitFrom {passed cs before after : List Char} {n : Nat}
    (h : splitFrom passed cs n = some (before, after)) :
    passed.reverse ++ cs = before ++ after ∧ size passed + n = size before := by
  fun_induction splitFrom passed cs n with
  | case1 passed cs =>
      obtain ⟨rfl, rfl⟩ := Prod.mk.inj (Option.some.inj h)
      simp
  | case2 => contradiction
  | case3 passed c cs n hle ih =>
      obtain ⟨hcs, hsize⟩ := ih h
      refine ⟨?_, ?_⟩
      · rw [← hcs, List.reverse_cons, List.append_assoc, List.singleton_append]
      · rw [← hsize, size_cons]
        omega
  | case4 => contradiction

theorem eq_append_of_split? {cs before after : List Char} {n : Nat}
    (h : split? cs n = some (before, after)) : cs = before ++ after ∧ n = size before := by
  simpa using eq_append_of_splitFrom h

def slice? (cs : List Char) (start stop : Nat) : Option (List Char) :=
  if start ≤ stop then
    (split? cs start).bind fun p => (split? p.2 (stop - start)).map (·.1)
  else
    none

def slice (cs : List Char) (start stop : Nat) : List Char := (slice? cs start stop).getD []

theorem slice?_append (cs ds es : List Char) :
    slice? (cs ++ ds ++ es) (size cs) (size cs + size ds) = some ds := by
  simp [slice?, List.append_assoc, split?_append]

theorem slice_append (cs ds es : List Char) :
    slice (cs ++ ds ++ es) (size cs) (size cs + size ds) = ds := by
  simp only [slice, slice?_append, Option.getD_some]

private theorem snd_splitFrom (passed kept cs : List Char) (n : Nat) :
    (splitFrom passed cs n).map Prod.snd = (splitFrom kept cs n).map Prod.snd := by
  induction cs generalizing passed kept n with
  | nil => cases n <;> rfl
  | cons c cs ih =>
      cases n with
      | zero => rfl
      | succ n =>
          simp only [splitFrom]
          split
          · exact ih ..
          · rfl

private theorem snd_splitFrom_add (passed kept cs ds : List Char) (n : Nat) :
    (splitFrom passed (cs ++ ds) (size cs + n)).map Prod.snd =
      (splitFrom kept ds n).map Prod.snd := by
  induction cs generalizing passed with
  | nil => simpa using snd_splitFrom passed kept ds n
  | cons c cs ih =>
      have hc := c.utf8Size_pos
      obtain ⟨m, hm⟩ : ∃ m, size (c :: cs) + n = m + 1 :=
        ⟨size (c :: cs) + n - 1, by simp; omega⟩
      have hle : c.utf8Size ≤ m + 1 := by simp at hm; omega
      have hsub : m + 1 - c.utf8Size = size cs + n := by simp at hm; omega
      rw [hm, List.cons_append]
      simpa [splitFrom, hle, hsub] using ih (c :: passed)

theorem slice_add (cs ds : List Char) (start stop : Nat) :
    slice (cs ++ ds) (size cs + start) (size cs + stop) = slice ds start stop := by
  have hsplit := snd_splitFrom_add [] [] cs ds start
  unfold slice slice?
  by_cases h : start ≤ stop
  · rw [if_pos h, if_pos (by omega), Nat.add_sub_add_left, split?, split?]
    cases hl : splitFrom [] (cs ++ ds) (size cs + start) <;>
      cases hr : splitFrom [] ds start <;> simp_all
  · rw [if_neg h, if_neg (by omega)]

def clamp (limit : Nat) : List Char → List Char := go [] limit
where
  go (kept : List Char) : Nat → List Char → List Char
    | _, [] => kept.reverse
    | room, c :: cs =>
        if c.utf8Size ≤ room then go (c :: kept) (room - c.utf8Size) cs else kept.reverse

end Lexing.Text
