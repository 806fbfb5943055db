import Lexing.Files.Tree

namespace Lexing

namespace PathPart

def letters : PathPart → List UInt8
  | .name bytes => bytes
  | _ => []

theorem compareBytes_eq (as bs : List UInt8) : compareBytes as bs = List.compareLex compare as bs := by
  fun_induction compareBytes as bs with
  | case1 => rfl
  | case2 => rfl
  | case3 => rfl
  | case4 a as b bs h =>
      have hlt : compare a b = .lt := if_pos h
      rw [List.compareLex_cons_cons, hlt]
      rfl
  | case5 a as b bs h hgt =>
      have hcmp : compare a b = .gt := by
        have hne : a ≠ b := by
          rintro rfl
          exact h hgt
        exact (if_neg h).trans (if_neg hne)
      rw [List.compareLex_cons_cons, hcmp]
      rfl
  | case6 a as b bs h hgt ih =>
      have heq : a = b := UInt8.le_antisymm (UInt8.not_lt.1 hgt) (UInt8.not_lt.1 h)
      have hself : compare b b = .eq := Std.ReflCmp.compare_self
      rw [List.compareLex_cons_cons, heq, hself, ih]
      rfl

theorem compare_eq (p q : PathPart) :
    p.compare q = compareLex (compareOn rank) (compareOn letters) p q := by
  cases p with
  | name as =>
      cases q with
      | name bs => exact compareBytes_eq as bs
      | _ => rfl
  | _ => cases q <;> rfl

theorem compare_eq_compareLex :
    PathPart.compare = compareLex (compareOn rank) (compareOn letters) :=
  funext fun p => funext fun q => compare_eq p q

instance : Std.TransCmp PathPart.compare := by
  rw [compare_eq_compareLex]
  infer_instance

theorem ext_rank_letters {p q : PathPart} (hrank : p.rank = q.rank)
    (hletters : p.letters = q.letters) : p = q := by
  cases p <;> cases q <;> simp_all [rank, letters]

instance : Std.LawfulEqCmp PathPart.compare where
  compare_self := Std.ReflCmp.compare_self
  eq_of_compare {p q} h := by
    rw [compare_eq, compareLex_eq_eq] at h
    exact ext_rank_letters (Std.LawfulEqCmp.eq_of_compare h.1) (Std.LawfulEqCmp.eq_of_compare h.2)

end PathPart

namespace Path

theorem compareParts_eq_compareLex : compareParts = List.compareLex PathPart.compare := by
  funext ps qs
  fun_induction compareParts ps qs with
  | case1 => rfl
  | case2 => rfl
  | case3 => rfl
  | case4 a as b bs ih => rw [List.compareLex_cons_cons, ih]

instance : Std.TransCmp compareParts := by
  rw [compareParts_eq_compareLex]
  infer_instance

instance : Std.LawfulEqCmp compareParts := by
  rw [compareParts_eq_compareLex]
  infer_instance

section

variable {α : Type} {pathOf : α → Path} {xs ys : List α}

def Sorted (pathOf : α → Path) (xs : List α) : Prop :=
  xs.Pairwise fun x y => (compareParts (pathOf x).parts (pathOf y).parts).isLE

theorem isLE_eq (o : Ordering) : (o != .gt) = o.isLE := by cases o <;> rfl

theorem perm_inOrder (pathOf : α → Path) (xs : List α) : (inOrder pathOf xs).Perm xs := by
  have hperm := (List.mergeSort_perm (xs.map fun x => ((pathOf x).parts, x)) fun a b =>
    compareParts a.1 b.1 != .gt).map Prod.snd
  rw [List.map_map] at hperm
  simpa [inOrder, Function.comp_def] using hperm

theorem sorted_inOrder (pathOf : α → Path) (xs : List α) : Sorted pathOf (inOrder pathOf xs) := by
  let le (a b : List PathPart × α) : Bool := compareParts a.1 b.1 != .gt
  let keyed := xs.map fun x => ((pathOf x).parts, x)
  have hsorted : (keyed.mergeSort le).Pairwise fun a b => le a b := by
    apply List.pairwise_mergeSort
    · intro a b c hab hbc
      simp only [le, isLE_eq] at hab hbc ⊢
      exact Std.TransCmp.isLE_trans hab hbc
    · intro a b
      have hswap : compareParts b.1 a.1 = (compareParts a.1 b.1).swap := Std.OrientedCmp.eq_swap
      simp only [le, isLE_eq, hswap]
      cases compareParts a.1 b.1 <;> rfl
  have hkeys : ∀ a ∈ keyed.mergeSort le, a.1 = (pathOf a.2).parts := by
    intro a ha
    obtain ⟨x, -, rfl⟩ := List.mem_map.1 ((List.mergeSort_perm keyed le).mem_iff.1 ha)
    rfl
  refine List.pairwise_map.2 (hsorted.imp_of_mem fun {a b} ha hb hab => ?_)
  rw [← hkeys a ha, ← hkeys b hb, ← isLE_eq]
  exact hab

theorem inOrder_eq_of_perm (hxs : Sorted pathOf xs) (hperm : ys.Perm xs)
    (h : ∀ x ∈ xs, ∀ y ∈ xs, (pathOf x).parts = (pathOf y).parts → x = y) :
    inOrder pathOf ys = xs := by
  have hsame := (perm_inOrder pathOf ys).trans hperm
  refine List.Perm.eq_of_pairwise ?_ (sorted_inOrder pathOf ys) hxs hsame
  intro x y hx hy hxy hyx
  refine h x (hsame.mem_iff.1 hx) y hy ?_
  exact Std.LawfulEqCmp.eq_of_compare (Std.OrientedCmp.isLE_antisymm hxy hyx)

end

@[simp]
theorem split_nil : split [] = [[]] := rfl

@[simp]
theorem split_slash (bs : List UInt8) : split (slash :: bs) = [] :: split bs := rfl

theorem split_ne_nil (bs : List UInt8) : split bs ≠ [] := by
  cases bs with
  | nil => simp
  | cons b bs =>
      rw [split, List.foldr_cons]
      split
      · simp
      · split <;> simp

theorem split_cons {b : UInt8} (h : b ≠ slash) {bs piece : List UInt8} {more : List (List UInt8)}
    (hbs : split bs = piece :: more) : split (b :: bs) = (b :: piece) :: more := by
  rw [split] at hbs ⊢
  rw [List.foldr_cons, hbs, if_neg h]

theorem split_append_slash (as bs : List UInt8) : split (as ++ slash :: bs) = split as ++ split bs := by
  induction as with
  | nil => rfl
  | cons a as ih =>
      by_cases ha : a = slash
      · rw [ha, List.cons_append, split_slash, split_slash, ih, List.cons_append]
      · obtain ⟨piece, more, hsplit⟩ := List.exists_cons_of_ne_nil (split_ne_nil as)
        rw [hsplit, List.cons_append] at ih
        rw [List.cons_append, split_cons ha ih, split_cons ha hsplit, List.cons_append]

theorem split_of_not_mem {bs : List UInt8} (h : slash ∉ bs) : split bs = [bs] := by
  induction bs with
  | nil => rfl
  | cons b bs ih =>
      obtain ⟨hb, hbs⟩ := List.ne_and_not_mem_of_not_mem_cons h
      exact split_cons hb.symm (ih hbs)

structure IsPlain (name : EntryName) : Prop where
  ne_nil : name ≠ []
  ne_here : name ≠ [dot]
  ne_parent : name ≠ [dot, dot]
  slash_not_mem : slash ∉ name

instance (name : EntryName) : Decidable (IsPlain name) :=
  decidable_of_iff (name ≠ [] ∧ name ≠ [dot] ∧ name ≠ [dot, dot] ∧ slash ∉ name)
    ⟨fun ⟨hnil, hhere, hparent, hslash⟩ => ⟨hnil, hhere, hparent, hslash⟩,
      fun h => ⟨h.ne_nil, h.ne_here, h.ne_parent, h.slash_not_mem⟩⟩

theorem IsPlain.isAbsolute_eq {name : EntryName} (h : IsPlain name) : isAbsolute ⟨name⟩ = false := by
  rw [isAbsolute, beq_eq_false_iff_ne]
  exact fun hhead => h.slash_not_mem (List.mem_of_mem_head? hhead)

theorem partOf_of_isPlain {name : EntryName} (h : IsPlain name) : partOf name = some (.name name) := by
  simp [partOf, h.ne_nil, h.ne_here, h.ne_parent]

def firstPart (b : UInt8) (first : List UInt8) : List PathPart :=
  if b = slash then [.root] else if first = [dot] then [.here] else (partOf first).toList

theorem parts_eq {p : Path} {b : UInt8} {bs first : List UInt8} {more : List (List UInt8)}
    (hp : p.bytes = b :: bs) (hsplit : split p.bytes = first :: more) :
    p.parts = firstPart b first ++ more.filterMap partOf := by
  rw [hp] at hsplit
  rw [parts, hp, hsplit, firstPart]
  by_cases hb : b = slash <;> simp [hb]

theorem parts_join {p : Path} {name : EntryName} (hp : p.bytes ≠ []) (h : IsPlain name) :
    (p.join ⟨name⟩).parts = p.parts ++ [.name name] := by
  obtain ⟨b, bs, hb⟩ := List.exists_cons_of_ne_nil hp
  have hempty : p.bytes.isEmpty = false := by simp [hb]
  rw [join, h.isAbsolute_eq, hempty, Bool.or_false, if_neg (by simp)]
  split
  · next hlast =>
      obtain ⟨as, has⟩ := List.getLast?_eq_some_iff.1 hlast
      obtain ⟨first, more, hsplit⟩ := List.exists_cons_of_ne_nil (split_ne_nil as)
      have hold : split p.bytes = first :: (more ++ [[]]) := by
        rw [has, split_append_slash, hsplit]
        rfl
      have hnew : split (p.bytes ++ name) = first :: (more ++ [name]) := by
        rw [has, List.append_assoc, List.singleton_append, split_append_slash, hsplit,
          split_of_not_mem h.slash_not_mem, List.cons_append]
      have hbytes : (Path.mk (p.bytes ++ name)).bytes = b :: (bs ++ name) := by simp [hb]
      rw [parts_eq hb hold, parts_eq hbytes hnew]
      have hlast : partOf [] = none := rfl
      simp [partOf_of_isPlain h, hlast]
  · obtain ⟨first, more, hsplit⟩ := List.exists_cons_of_ne_nil (split_ne_nil p.bytes)
    have hnew : split (p.bytes ++ slash :: name) = first :: (more ++ [name]) := by
      rw [split_append_slash, hsplit, split_of_not_mem h.slash_not_mem, List.cons_append]
    have hbytes : (Path.mk (p.bytes ++ slash :: name)).bytes = b :: (bs ++ slash :: name) := by
      simp [hb]
    rw [parts_eq hb hsplit, parts_eq hbytes hnew]
    simp [partOf_of_isPlain h]

theorem join_ne_nil {p : Path} {name : EntryName} (hp : p.bytes ≠ []) (h : IsPlain name) :
    (p.join ⟨name⟩).bytes ≠ [] := by
  rw [join]
  split
  · exact h.ne_nil
  · split <;> simp [hp]

def joinAll (p : Path) (names : List EntryName) : Path := names.foldl (fun p name => p.join ⟨name⟩) p

theorem parts_joinAll {p : Path} {names : List EntryName} (hp : p.bytes ≠ [])
    (h : ∀ name ∈ names, IsPlain name) :
    (p.joinAll names).parts = p.parts ++ names.map .name := by
  induction names generalizing p with
  | nil => simp [joinAll]
  | cons name names ih =>
      obtain ⟨hname, hnames⟩ := List.forall_mem_cons.1 h
      have hmore := ih (join_ne_nil hp hname) hnames
      rw [parts_join hp hname, List.append_assoc] at hmore
      exact hmore

theorem joinAll_ne_nil {p : Path} {names : List EntryName} (hp : p.bytes ≠ [])
    (h : ∀ name ∈ names, IsPlain name) : (p.joinAll names).bytes ≠ [] := by
  induction names generalizing p with
  | nil => exact hp
  | cons name names ih =>
      obtain ⟨hname, hnames⟩ := List.forall_mem_cons.1 h
      exact ih (join_ne_nil hp hname) hnames

theorem joinAll_inj {p : Path} {names others : List EntryName} (hp : p.bytes ≠ [])
    (hnames : ∀ name ∈ names, IsPlain name) (hothers : ∀ name ∈ others, IsPlain name)
    (h : (p.joinAll names).parts = (p.joinAll others).parts) : names = others := by
  rw [parts_joinAll hp hnames, parts_joinAll hp hothers, List.append_cancel_left_eq] at h
  exact (List.map_inj_right fun _ _ => PathPart.name.inj).1 h

def IsBelow (directory p : Path) : Prop :=
  ∃ names, (∀ name ∈ names, IsPlain name) ∧ p = directory.joinAll names

theorem IsBelow.eq_of_parts {directory p q : Path} (hd : directory.bytes ≠ [])
    (hp : IsBelow directory p) (hq : IsBelow directory q) (h : p.parts = q.parts) : p = q := by
  obtain ⟨names, hnames, rfl⟩ := hp
  obtain ⟨others, hothers, rfl⟩ := hq
  rw [joinAll_inj hd hnames hothers h]

section Names

variable {p : Path} {name : EntryName} {names : List EntryName}

theorem fileName?_join (hp : p.bytes ≠ []) (hname : IsPlain name) :
    (p.join ⟨name⟩).fileName? = some name := by
  rw [fileName?, parts_join hp hname, List.getLast?_concat]

theorem extensionOf?_eq_some {ext : List UInt8} : extensionOf? name = some ext ↔
    ∃ stem, stem ≠ [] ∧ name = stem ++ dot :: ext ∧ dot ∉ ext := by
  unfold extensionOf?
  constructor
  · intro h
    dsimp only at h
    split at h
    · next hlength =>
        obtain rfl := Option.some.inj h
        have hsplit := List.takeWhile_append_dropWhile (p := (· != dot)) (l := name.reverse)
        cases hrest : name.reverse.dropWhile (· != dot) with
        | nil =>
            rw [hrest, List.append_nil] at hsplit
            rw [hsplit, List.length_reverse, List.length_reverse] at hlength
            omega
        | cons b stem =>
            have hb : b = dot := by
              have hhead := List.head?_dropWhile_not (· != dot) name.reverse
              simpa [hrest] using hhead
            rw [hrest, hb] at hsplit
            have hname := congrArg List.reverse hsplit
            simp only [List.reverse_append, List.reverse_cons, List.reverse_reverse,
              List.append_assoc, List.singleton_append] at hname
            refine ⟨stem.reverse, fun hstem => ?_, hname.symm, fun hdot => ?_⟩
            · have hsize := congrArg List.length hname
              simp only [hstem, List.nil_append, List.length_cons] at hsize
              omega
            · have hne := List.all_eq_true.1 List.all_takeWhile _ (List.mem_reverse.1 hdot)
              exact bne_iff_ne.1 hne rfl
    · contradiction
  · rintro ⟨stem, hstem, rfl, hdot⟩
    have hafter : (stem ++ dot :: ext).reverse.takeWhile (· != dot) = ext.reverse := by
      have hext : ∀ b ∈ ext.reverse, (b != dot) = true := fun b hb =>
        bne_iff_ne.2 fun heq => hdot (heq ▸ List.mem_reverse.1 hb)
      rw [List.reverse_append, List.reverse_cons, List.append_assoc, List.takeWhile_append_of_pos hext]
      simp
    have hlength := List.length_pos_iff.2 hstem
    simp only [hafter, List.reverse_reverse]
    rw [if_pos]
    simp only [List.length_append, List.length_cons]
    omega

theorem length_le_joinAll (hnames : ∀ name ∈ names, IsPlain name) :
    p.bytes.length ≤ (p.joinAll names).bytes.length := by
  induction names generalizing p with
  | nil => exact Nat.le_refl _
  | cons name names ih =>
      obtain ⟨hname, hmore⟩ := List.forall_mem_cons.1 hnames
      refine Nat.le_trans ?_ (ih (p := p.join ⟨name⟩) hmore)
      rw [join, hname.isAbsolute_eq, Bool.false_or]
      split
      · next hempty => simp [List.isEmpty_iff.1 hempty]
      · split <;> simp

end Names

end Path

end Lexing
