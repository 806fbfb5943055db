import Lexing.Proofs.Scan.Grammar
import Mathlib.Data.List.TakeWhile

namespace Lexing

variable {o : Options} {r : Recognizers} {c : Char} {cs : List Char}

theorem forall_mem_takeWhile (p : Char → Bool) (cs : List Char) : ∀ c ∈ cs.takeWhile p, p c :=
  fun _ h => List.mem_takeWhile_imp h

theorem Word.opens_next (h : isWordStart c) :
    (Word.next o.maxIdentifier c cs).Opens o r (c :: cs) (cs.dropWhile isWordChar) := by
  have hrun := forall_mem_takeWhile isWordChar cs
  have hjoin : c :: cs.takeWhile isWordChar ++ cs.dropWhile isWordChar = c :: cs := by
    rw [List.cons_append, List.takeWhile_append_dropWhile]
  rw [Word.next]
  split
  · next hlong => exact Piece.opens_rejectedOf hjoin (.word c _ h hrun rfl hlong rfl)
  · apply Piece.opens_tokenOf hjoin
    unfold Word.content
    cases hk : Keyword.ofSpelling? (String.ofList (c :: cs.takeWhile isWordChar)) with
    | none => exact .word c _ h hrun hk rfl
    | some k =>
        have hs : k.spelling = String.ofList (c :: cs.takeWhile isWordChar) := by
          simpa using List.find?_some hk
        exact .keyword k (by simp [hs])

namespace NumberLiteral

variable {whole fraction rest more text : List Char} {d : Char} {x : Magnitude}

def body (whole fraction : List Char) : List Char :=
  if fraction.isEmpty then whole else whole ++ '.' :: fraction

theorem cons_body (c : Char) : c :: body whole fraction = body (c :: whole) fraction := by
  cases fraction <;> rfl

theorem isWordChar_of_isDigit (h : d.isDigit) : isWordChar d := by
  simp [isWordChar, Char.isAlphanum, h]

theorem of_isDigit (h : d.isDigit) : isWordChar d ∨ d = '.' := .inl (isWordChar_of_isDigit h)

theorem of_mem_body (hw : ∀ d ∈ whole, d.isDigit) (hf : ∀ d ∈ fraction, d.isDigit) :
    ∀ d ∈ body whole fraction, isWordChar d ∨ d = '.' := by
  intro d hd
  unfold body at hd
  split at hd
  · exact of_isDigit (hw d hd)
  · rcases List.mem_append.1 hd with hd | hd
    · exact of_isDigit (hw d hd)
    · rcases List.mem_cons.1 hd with rfl | hd
      · exact .inr rfl
      · exact of_isDigit (hf d hd)

theorem head?_dropWhile_isDigit (h : cs.dropWhile Char.isDigit = rest) :
    ∀ d ∈ rest.head?, ¬ d.isDigit := by
  intro d hd
  have hnot := List.head?_dropWhile_not Char.isDigit cs
  rw [h, Option.mem_def.1 hd] at hnot
  simpa using hnot

theorem dropWhile_body_append (fraction : List Char) (hw : ∀ d ∈ whole, d.isDigit)
    (hrest : ∀ d ∈ rest.head?, ¬ d.isDigit) :
    (body whole fraction ++ rest).dropWhile Char.isDigit = body [] fraction ++ rest := by
  cases fraction with
  | nil =>
      rw [body, List.isEmpty_nil, if_pos rfl, List.dropWhile_append_of_pos hw]
      cases rest with
      | nil => rfl
      | cons d rest => exact List.dropWhile_cons_of_neg (hrest d rfl)
  | cons f fs =>
      rw [body, List.isEmpty_cons, if_neg Bool.false_ne_true, List.append_assoc,
        List.dropWhile_append_of_pos hw]
      rfl

theorem takeWhile_body (hw : ∀ d ∈ whole, d.isDigit) :
    (body whole fraction).takeWhile Char.isDigit = whole := by
  cases fraction with
  | nil => simpa [body] using hw
  | cons f fs =>
      rw [body, List.isEmpty_cons, if_neg Bool.false_ne_true, List.takeWhile_append_of_pos hw]
      simp

theorem dropWhile_body (hw : ∀ d ∈ whole, d.isDigit) :
    (body whole fraction).dropWhile Char.isDigit = body [] fraction := by
  have hnil : ∀ d ∈ ([] : List Char).head?, ¬ d.isDigit := by simp
  simpa using dropWhile_body_append fraction hw hnil

theorem Reads.exists_body (h : Reads text x) :
    ∃ whole fraction, (∀ d ∈ whole, d.isDigit) ∧ (∀ d ∈ fraction, d.isDigit) ∧
      text = body whole fraction ∧ (Numeral.ofParts whole fraction).magnitude? = some x := by
  cases h with
  | whole digits _ hdigits hx htext => exact ⟨digits, [], hdigits, by simp, htext, hx⟩
  | decimal digits fraction _ hne hdigits hx htext =>
      obtain ⟨hwhole, hfraction⟩ := List.forall_mem_append.1 hdigits
      exact ⟨digits, fraction, hwhole, hfraction, by simp [body, hne, htext], hx⟩

theorem reads_body (hne : whole ≠ []) (hw : ∀ d ∈ whole, d.isDigit)
    (hf : ∀ d ∈ fraction, d.isDigit) (hx : (Numeral.ofParts whole fraction).magnitude? = some x) :
    Reads (body whole fraction) x := by
  cases fraction with
  | nil => exact .whole whole hne hw hx rfl
  | cons f fs =>
      exact .decimal whole (f :: fs) hne (by simp) (List.forall_mem_append.2 ⟨hw, hf⟩) hx rfl

theorem not_reads_body (hw : ∀ d ∈ whole, d.isDigit)
    (hx : (Numeral.ofParts whole fraction).magnitude? = none) : ¬ Reads (body whole fraction) x := by
  intro h
  obtain ⟨whole', fraction', hw', -, hbody, hx'⟩ := h.exists_body
  have htake := congrArg (List.takeWhile Char.isDigit) hbody
  have hdrop := congrArg (List.dropWhile Char.isDigit) hbody
  rw [takeWhile_body hw, takeWhile_body hw'] at htake
  rw [dropWhile_body hw, dropWhile_body hw'] at hdrop
  have hfraction : fraction = fraction' := by
    cases fraction <;> cases fraction' <;> simp_all [body]
  rw [htake, hfraction, hx'] at hx
  contradiction

theorem not_reads_of_dropWhile (h : text.dropWhile Char.isDigit = d :: rest)
    (hrest : d ≠ '.' ∨ rest = [] ∨ ∃ e ∈ rest, ¬ e.isDigit) : ¬ Reads text x := by
  intro hreads
  obtain ⟨whole, fraction, hw, hf, rfl, -⟩ := hreads.exists_body
  rw [dropWhile_body hw] at h
  cases fraction with
  | nil => simp [body] at h
  | cons f fs =>
      obtain ⟨rfl, rfl⟩ : '.' = d ∧ f :: fs = rest := by simpa [body] using h
      rcases hrest with hd | hnil | ⟨e, he, hdigit⟩
      · exact hd rfl
      · exact List.cons_ne_nil _ _ hnil
      · exact hdigit (hf e he)

theorem not_reads_point (hw : ∀ d ∈ whole, d.isDigit)
    (hrest : rest = [] ∨ ∃ e ∈ rest, ¬ e.isDigit) : ¬ Reads (whole ++ '.' :: rest) x := by
  have hdrop : (whole ++ '.' :: rest).dropWhile Char.isDigit = '.' :: rest := by
    rw [List.dropWhile_append_of_pos hw]
    rfl
  exact not_reads_of_dropWhile hdrop (.inr hrest)

theorem not_reads_run (hw : ∀ d ∈ whole, d.isDigit) (hd : ¬ d.isDigit) (hword : isWordChar d) :
    ¬ Reads (body whole fraction ++ d :: more) x := by
  have hhead : ∀ e ∈ (d :: more).head?, ¬ e.isDigit := by simpa using hd
  have hdrop := dropWhile_body_append fraction hw hhead
  cases fraction with
  | nil =>
      refine not_reads_of_dropWhile hdrop (.inl ?_)
      rintro rfl
      contradiction
  | cons f fs => exact not_reads_of_dropWhile hdrop (.inr (.inr ⟨d, by simp, hd⟩))

theorem opens_finish (hc : c.isDigit) (hw : ∀ d ∈ whole, d.isDigit) (hf : ∀ d ∈ fraction, d.isDigit)
    (hrest : ∀ d ∈ rest.head?, ¬ d.isDigit) (htext : c :: body whole fraction ++ rest = text) :
    ∃ after, (finish c whole fraction rest).Opens o r text after := by
  have hcw : ∀ d ∈ c :: whole, d.isDigit := List.forall_mem_cons.2 ⟨hc, hw⟩
  have hbody : (if fraction.isEmpty then whole else whole ++ '.' :: fraction) =
      body whole fraction := rfl
  simp only [finish, hbody]
  split
  · refine ⟨rest, ?_⟩
    split
    · next x hx =>
        apply Piece.opens_tokenOf htext
        rw [cons_body]
        exact .number x (reads_body (List.cons_ne_nil c whole) hcw hf hx)
    · next hx =>
        refine Piece.opens_rejectedOf htext (.number c _ hc (of_mem_body hw hf) (fun x => ?_) rfl rfl)
        rw [cons_body]
        exact not_reads_body hcw hx
  · next hne =>
      obtain ⟨d, run, hrun⟩ := List.exists_cons_of_ne_nil hne
      have hmem := forall_mem_takeWhile isWordChar rest
      have hjoin := List.takeWhile_append_dropWhile (p := isWordChar) (l := rest)
      rw [hrun] at hmem hjoin ⊢
      have hall : ∀ e ∈ body whole fraction ++ d :: run, isWordChar e ∨ e = '.' :=
        List.forall_mem_append.2 ⟨of_mem_body hw hf, fun e he => .inl (hmem e he)⟩
      have hd : ¬ d.isDigit := hrest d (by rw [← hjoin]; rfl)
      refine ⟨rest.dropWhile isWordChar,
        Piece.opens_rejectedOf ?_ (.number c _ hc hall (fun x => ?_) rfl rfl)⟩
      · rw [← htext, List.cons_append, List.append_assoc, hjoin]
        rfl
      · rw [← List.cons_append, cons_body]
        exact not_reads_run hcw hd (hmem d List.mem_cons_self)

theorem opens_next (hc : c.isDigit) : ∃ after, (next c cs).Opens o r (c :: cs) after := by
  have hw := forall_mem_takeWhile Char.isDigit cs
  have hcs : cs.takeWhile Char.isDigit ++ cs.dropWhile Char.isDigit = cs :=
    List.takeWhile_append_dropWhile
  generalize hwhole : cs.takeWhile Char.isDigit = whole at hw hcs
  have hcw : ∀ d ∈ c :: whole, d.isDigit := List.forall_mem_cons.2 ⟨hc, hw⟩
  have plain {rest : List Char} (hd : cs.dropWhile Char.isDigit = rest) :
      ∃ after, (finish c whole [] rest).Opens o r (c :: cs) after :=
    opens_finish hc hw (by simp) (head?_dropWhile_isDigit hd) (by simpa [body, hd] using hcs)
  unfold next
  simp only [hwhole]
  split
  · next rest hd => exact plain hd
  · next rest _ hd =>
      have hf := forall_mem_takeWhile Char.isDigit rest
      have hrest : rest.takeWhile Char.isDigit ++ rest.dropWhile Char.isDigit = rest :=
        List.takeWhile_append_dropWhile
      generalize hfraction : rest.takeWhile Char.isDigit = fraction at hf hrest
      rw [hd] at hcs
      split
      · have hrun : ∀ d ∈ whole ++ ['.'], isWordChar d ∨ d = '.' :=
          List.forall_mem_append.2 ⟨fun d hd => of_isDigit (hw d hd), by simp⟩
        refine ⟨rest, Piece.opens_rejectedOf (by simpa using hcs) ?_⟩
        exact .number c _ hc hrun (fun x => not_reads_point hcw (.inl rfl)) rfl rfl
      · next hne =>
          have fine {more : List Char} (hm : rest.dropWhile Char.isDigit = more) :
              ∃ after, (finish c whole fraction more).Opens o r (c :: cs) after :=
            opens_finish hc hw hf (head?_dropWhile_isDigit hm)
              (by simpa [body, hne, ← hm, hrest] using hcs)
          split
          · next more hm => exact fine hm
          · next more _ hm =>
              have hread : whole ++ '.' :: fraction = body whole fraction := by simp [body, hne]
              have hrun := forall_mem_takeWhile (fun d => isWordChar d || d == '.') more
              have hall : ∀ d ∈ whole ++ '.' :: fraction ++
                  '.' :: more.takeWhile (fun d => isWordChar d || d == '.'),
                  isWordChar d ∨ d = '.' := by
                rw [hread]
                refine List.forall_mem_append.2 ⟨of_mem_body hw hf, List.forall_mem_cons.2 ⟨.inr rfl, ?_⟩⟩
                intro d hd
                simpa using hrun d hd
              refine ⟨more.dropWhile fun d => isWordChar d || d == '.',
                Piece.opens_rejectedOf ?_ (.number c _ hc hall (fun x => ?_) rfl rfl)⟩
              · rw [← hrest, hm] at hcs
                simpa using hcs
              · rw [List.append_assoc, ← List.cons_append]
                exact not_reads_point hcw (.inr ⟨'.', by simp, by decide⟩)
          · exact fine rfl
  · exact plain rfl

end NumberLiteral

end Lexing
