import Lexing.Proofs.Scan.Recognition
import Lexing.Proofs.Scan.Turns

namespace Lexing

namespace Comments

variable {k : Comments} {text : List Char}

def LineAt (k : Comments) (text : List Char) : Prop :=
  ∃ opening ∈ k.line, opening.toList ≠ [] ∧ opening.toList <+: text

structure BlockAt (k : Comments) (opening closing : String) (text : List Char) : Prop where
  block : k.block = some (opening, closing)
  opening_ne_nil : opening.toList ≠ []
  closing_ne_nil : closing.toList ≠ []
  blank : ∀ c ∈ text.head?, ¬ isHorizontal c
  line : ¬ k.LineAt text

theorem opensLine_iff (h : k.SpareLineEnds) {c : Char} {cs : List Char} :
    k.opensLine c cs ↔ k.LineAt (c :: cs) := by
  simp only [opensLine_eq h, listsOpening, LineAt, List.any_eq_true, Bool.and_eq_true,
    Bool.not_eq_true', List.isEmpty_eq_false_iff, List.isPrefixOf_iff_prefix]

end Comments

namespace Trivia

inductive Part where
  | blank (c : Char)
  | line (text : List Char)
  | block (text : List Char)
  | unclosed (text : List Char)
  deriving DecidableEq, Repr

namespace Part

def text : Part → List Char
  | .blank c => [c]
  | .line text | .block text | .unclosed text => text

inductive Begins (k : Comments) (text after : List Char) : Part → Prop
  | blank (c : Char) : isHorizontal c → text = c :: after → Begins k text after (.blank c)
  | line (body : List Char) : (∀ c ∈ text.head?, ¬ isHorizontal c) → k.LineAt text →
      text = body ++ after → '\n' ∉ body → (after = [] ∨ after.head? = some '\n') →
      Begins k text after (.line body)
  | block (opening closing : String) (body : List Char) : k.BlockAt opening closing text →
      text = opening.toList ++ (body ++ (closing.toList ++ after)) →
      (∀ n < body.length, ¬ closing.toList <+: (body ++ (closing.toList ++ after)).drop n) →
      Begins k text after (.block (opening.toList ++ (body ++ closing.toList)))
  | unclosed (opening closing : String) (body : List Char) : k.BlockAt opening closing text →
      text = opening.toList ++ body → (∀ n, ¬ closing.toList <+: body.drop n) → after = [] →
      Begins k text after (.unclosed text)

def report? (limit : Nat) (place : Cursor) : Part → Option Diagnostic
  | .blank _ => none
  | .line text | .block text =>
      if limit < Text.size text then
        some ⟨.commentTooLong (Text.size text) limit, place.position,
          ⟨place.offset, place.offset + Text.size text⟩, Diagnostic.shorten text⟩
      else
        none
  | .unclosed text =>
      some ⟨.unterminatedComment, place.position,
        ⟨place.offset, place.offset + Text.size text⟩, Diagnostic.shorten text⟩

end Part

inductive Reads (k : Comments) (rest : List Char) : List Char → List Part → Prop
  | nil : Reads k rest rest []
  | cons {p : Part} {ps : List Part} {text after : List Char} : p.Begins k text after →
      Reads k rest after ps → Reads k rest text (p :: ps)

def reports (limit : Nat) (place : Cursor) : List Part → List Diagnostic
  | [] => []
  | p :: ps => (p.report? limit place).toList ++ reports limit (place.skip p.text.length) ps

variable {k : Comments} {p q : Part} {ps qs : List Part} {text after after' rest : List Char}

theorem Part.Begins.text_eq (h : p.Begins k text after) : text = p.text ++ after := by
  cases h with
  | blank c _ htext => exact htext
  | line body _ _ htext => exact htext
  | block opening closing body _ htext => simp [htext, Part.text]
  | unclosed opening closing body _ htext _ hafter => simp [hafter, Part.text]

theorem eq_of_first {closing body body' : List Char}
    (h : body ++ (closing ++ after) = body' ++ (closing ++ after'))
    (hfirst : ∀ n < body.length, ¬ closing <+: (body ++ (closing ++ after)).drop n)
    (hfirst' : ∀ n < body'.length, ¬ closing <+: (body' ++ (closing ++ after')).drop n) :
    body = body' ∧ after = after' := by
  have hle : body'.length ≤ body.length := by
    by_contra hlt
    refine hfirst' body.length (by omega) ?_
    rw [← h, List.drop_left]
    exact List.prefix_append closing after
  have hge : body.length ≤ body'.length := by
    by_contra hlt
    refine hfirst body'.length (by omega) ?_
    rw [h, List.drop_left]
    exact List.prefix_append closing after'
  obtain ⟨rfl, hrest⟩ := List.append_inj h (by omega)
  exact ⟨rfl, List.append_cancel_left hrest⟩

theorem takeWhile_append_lineEnd {body : List Char} (hbody : '\n' ∉ body)
    (hafter : after = [] ∨ after.head? = some '\n') :
    (body ++ after).takeWhile (· != '\n') = body := by
  have hne : ∀ c ∈ body, (c != '\n') = true := by
    intro c hc
    rw [bne_iff_ne]
    rintro rfl
    exact hbody hc
  have hnone : after.takeWhile (· != '\n') = [] := by
    rcases hafter with rfl | hhead
    · rfl
    · obtain ⟨more, rfl⟩ := List.head?_eq_some_iff.1 hhead
      rfl
  rw [List.takeWhile_append_of_pos hne, hnone, List.append_nil]

theorem Part.Begins.unique (h : p.Begins k text after) (h' : q.Begins k text after') :
    p = q ∧ after = after' := by
  cases h with
  | blank c hc htext =>
      subst htext
      cases h' with
      | blank d _ htext' =>
          obtain ⟨rfl, rfl⟩ := List.cons.inj htext'
          exact ⟨rfl, rfl⟩
      | line _ hblank => exact absurd hc (hblank c rfl)
      | block _ _ _ hat => exact absurd hc (hat.blank c rfl)
      | unclosed _ _ _ hat => exact absurd hc (hat.blank c rfl)
  | line body hblank hline htext hbody hafter =>
      cases h' with
      | blank d hd htext' => exact absurd hd (hblank d (by rw [htext']; rfl))
      | line body' _ _ htext' hbody' hafter' =>
          obtain rfl : body = body' := by
            rw [← takeWhile_append_lineEnd hbody hafter, ← htext, htext',
              takeWhile_append_lineEnd hbody' hafter']
          exact ⟨rfl, List.append_cancel_left (htext.symm.trans htext')⟩
      | block _ _ _ hat => exact absurd hline hat.line
      | unclosed _ _ _ hat => exact absurd hline hat.line
  | block opening closing body hat htext hfirst =>
      cases h' with
      | blank d hd htext' => exact absurd hd (hat.blank d (by rw [htext']; rfl))
      | line _ _ hline => exact absurd hline hat.line
      | block opening' closing' body' hat' htext' hfirst' =>
          obtain ⟨rfl, rfl⟩ := Prod.mk.inj (Option.some.inj (hat.block.symm.trans hat'.block))
          have hrest := List.append_cancel_left (htext.symm.trans htext')
          obtain ⟨rfl, rfl⟩ := eq_of_first hrest hfirst hfirst'
          exact ⟨rfl, rfl⟩
      | unclosed opening' closing' body' hat' htext' hnone =>
          obtain ⟨rfl, rfl⟩ := Prod.mk.inj (Option.some.inj (hat.block.symm.trans hat'.block))
          have hrest := List.append_cancel_left (htext.symm.trans htext')
          refine absurd ?_ (hnone body.length)
          rw [← hrest, List.drop_left]
          exact List.prefix_append _ _
  | unclosed opening closing body hat htext hnone hafter =>
      cases h' with
      | blank d hd htext' => exact absurd hd (hat.blank d (by rw [htext']; rfl))
      | line _ _ hline => exact absurd hline hat.line
      | block opening' closing' body' hat' htext' =>
          obtain ⟨rfl, rfl⟩ := Prod.mk.inj (Option.some.inj (hat.block.symm.trans hat'.block))
          have hrest := List.append_cancel_left (htext.symm.trans htext')
          refine absurd ?_ (hnone body'.length)
          rw [hrest, List.drop_left]
          exact List.prefix_append _ _
      | unclosed _ _ _ _ _ _ hafter' => exact ⟨rfl, hafter.trans hafter'.symm⟩

theorem Part.Begins.opensAt (h : p.Begins k text after) :
    (∃ c ∈ text.head?, isHorizontal c) ∨ k.OpensAt text := by
  cases h with
  | blank c hc htext => exact .inl ⟨c, by rw [htext]; rfl, hc⟩
  | line _ _ hline =>
      obtain ⟨opening, hmem, hne, hpre⟩ := hline
      exact .inr (.line opening hmem hne hpre)
  | block opening closing body hat htext =>
      refine .inr (.block opening closing hat.block hat.opening_ne_nil hat.closing_ne_nil ?_)
      exact htext ▸ List.prefix_append _ _
  | unclosed opening closing body hat htext =>
      refine .inr (.block opening closing hat.block hat.opening_ne_nil hat.closing_ne_nil ?_)
      exact htext ▸ List.prefix_append _ _

theorem Reads.prefix {left : List Char} (h : Reads k rest text ps) (h' : Reads k left text qs)
    (hrest : ∀ p after, ¬ Part.Begins k rest after p) : qs <+: ps := by
  induction h generalizing qs with
  | nil =>
      cases h' with
      | nil => exact List.prefix_rfl
      | cons hq _ => exact (hrest _ _ hq).elim
  | cons hp _ ih =>
      cases h' with
      | nil => exact List.nil_prefix
      | cons hq hqs =>
          obtain ⟨rfl, rfl⟩ := hp.unique hq
          exact (List.prefix_cons_inj _).2 (ih hqs)

theorem Reads.append (h : Reads k after text ps) (h' : Reads k rest after qs) :
    Reads k rest text (ps ++ qs) := by
  induction h with
  | nil => exact h'
  | cons hp _ ih => exact .cons hp ih

theorem Reads.text_eq (h : Reads k rest text ps) : text = ps.flatMap Part.text ++ rest := by
  induction h with
  | nil => rfl
  | cons hp _ ih => rw [hp.text_eq, ih, List.flatMap_cons, List.append_assoc]

theorem reports_append (limit : Nat) (place : Cursor) (ps qs : List Part) :
    reports limit place (ps ++ qs) = reports limit place ps ++
      reports limit (place.skip (ps.flatMap Part.text).length) qs := by
  induction ps generalizing place with
  | nil => simp [reports]
  | cons p ps ih =>
      simp only [List.cons_append, reports, ih, List.append_assoc, List.flatMap_cons,
        List.length_append, Cursor.skip_skip]

variable {o : Options} {c : Char} {cs : List Char}

theorem reads_blanks (k : Comments) (rest : List Char) (h : ∀ d ∈ cs, isHorizontal d) :
    Reads k rest (cs ++ rest) (cs.map .blank) := by
  induction cs with
  | nil => exact .nil
  | cons d ds ih =>
      obtain ⟨hd, hds⟩ := List.forall_mem_cons.1 h
      exact .cons (.blank d hd rfl) (ih hds)

theorem reports_blanks (limit : Nat) (place : Cursor) (cs : List Char) :
    reports limit place (cs.map .blank) = [] := by
  induction cs generalizing place with
  | nil => rfl
  | cons c cs ih => simpa [reports, Part.report?] using ih _

theorem flatMap_text_blanks (cs : List Char) : (cs.map Part.blank).flatMap Part.text = cs := by
  rw [List.flatMap_map]
  exact List.flatMap_singleton' cs

theorem map_faults_commentOf (limit : Nat) (place : Cursor) (c : Char) (cs : List Char) :
    (commentOf limit c cs).faults.map (Diagnostic.ofFault place) =
      (Part.report? limit place (.line (c :: cs))).toList := by
  simp only [commentOf, Part.report?]
  split <;> rfl

theorem free_of_next? (hk : o.comments.SpareLineEnds) (h : next? o c cs = none) :
    isHorizontal c = false ∧ ¬ o.comments.OpensAt (c :: cs) := by
  obtain ⟨hblank, hline, hblock⟩ := next?_eq_none.1 h
  refine ⟨hblank, ?_⟩
  rintro (⟨opening, hmem, hne, hpre⟩ | ⟨opening, closing, hb, ho, hclose, hpre⟩)
  · exact Bool.eq_false_iff.1 hline ((Comments.opensLine_iff hk).2 ⟨opening, hmem, hne, hpre⟩)
  · exact block?_ne_none hb ho hclose hpre hblock

theorem begins_line (hblank : ¬ isHorizontal c) (hline : o.comments.LineAt (c :: cs))
    (hc : c ≠ '\n') :
    Part.Begins o.comments (c :: cs) (cs.dropWhile (· != '\n'))
      (.line (c :: cs.takeWhile (· != '\n'))) := by
  refine .line _ (by simpa using hblank) hline ?_ ?_ (head?_dropWhile_ne '\n' cs)
  · rw [List.cons_append, List.takeWhile_append_dropWhile]
  · simp only [List.mem_cons, not_or]
    exact ⟨Ne.symm hc, fun hmem => by simpa using List.mem_takeWhile_imp hmem⟩

theorem begins_block (hblank : ¬ isHorizontal c) (hline : ¬ o.comments.LineAt (c :: cs))
    {p : Piece} (h : block? o c cs = some p) : ∃ (q : Part) (after : List Char),
      q.Begins o.comments (c :: cs) after ∧ p.text = q.text ∧
      ∀ place, p.faults.map (Diagnostic.ofFault place) =
        (q.report? o.maxComment place).toList := by
  obtain ⟨opening, closing, hb, ho, hclose, hcases⟩ := block?_cases h
  have hat : o.comments.BlockAt opening closing (c :: cs) :=
    ⟨hb, ho, hclose, by simpa using hblank, hline⟩
  rcases hcases with ⟨body, after, hcs, hfirst, htext, d, ds, rfl⟩ | ⟨body, hcs, hnone, rfl⟩
  · refine ⟨_, after, .block opening closing body hat hcs hfirst, htext, fun place => ?_⟩
    rw [map_faults_commentOf, ← htext]
    rfl
  · exact ⟨_, [], .unclosed opening closing body hat hcs hnone rfl, rfl, fun _ => rfl⟩

theorem reads_of_next? (hk : o.comments.SpareLineEnds) {p : Piece} (h : next? o c cs = some p)
    (place : Cursor) : ∃ ps after, Reads o.comments after (c :: cs) ps ∧
      p.text = ps.flatMap Part.text ∧
      p.faults.map (Diagnostic.ofFault place) = reports o.maxComment place ps := by
  unfold next? at h
  split at h
  · next hblank =>
      obtain rfl := Option.some.inj h
      have hrun : ∀ d ∈ c :: cs.takeWhile isHorizontal, isHorizontal d :=
        List.forall_mem_cons.2 ⟨hblank, fun d hd => List.mem_takeWhile_imp hd⟩
      have hreads := reads_blanks o.comments (cs.dropWhile isHorizontal) hrun
      rw [List.cons_append, List.takeWhile_append_dropWhile] at hreads
      exact ⟨_, _, hreads, (flatMap_text_blanks _).symm, (reports_blanks _ place _).symm⟩
  next hblank =>
  split at h
  · next hopens =>
      obtain rfl := Option.some.inj h
      have hline := (Comments.opensLine_iff hk).1 hopens
      have hc : c ≠ '\n' := by
        rintro rfl
        contradiction
      refine ⟨_, _, .cons (begins_line hblank hline hc) .nil, by simp [commentOf, Part.text], ?_⟩
      rw [map_faults_commentOf, reports, reports, List.append_nil]
  · next hopens =>
      have hline := mt (Comments.opensLine_iff hk).2 hopens
      obtain ⟨q, after, hq, htext, hfaults⟩ := begins_block hblank hline h
      refine ⟨[q], after, .cons hq .nil, by simp [htext], ?_⟩
      rw [hfaults, reports, reports, List.append_nil]

end Trivia

namespace Scanner

variable {s : Scanner}

def PassesTrivia (s : Scanner) : Prop :=
  ∃ ps rest, Trivia.Reads s.options.comments rest s.cursor.rest ps ∧
    (∀ qs left, Trivia.Reads s.options.comments left s.cursor.rest qs → qs <+: ps) ∧
    s.skipTrivia = { s with
      cursor := s.cursor.skip (ps.flatMap Trivia.Part.text).length
      diagnostics := s.diagnostics ++ Trivia.reports s.options.maxComment s.cursor ps } ∧
    s.skipTrivia.cursor.rest = rest ∧ (∀ c ∈ rest.head?, ¬ isHorizontal c) ∧
    ¬ s.options.comments.OpensAt rest

theorem pushAll_append (ds : Array Diagnostic) (es fs : List Diagnostic) :
    ds ++ (es ++ fs) = ds ++ es ++ fs :=
  Array.ext' (by simp)

theorem exists_reads (h : s.options.comments.SpareLineEnds) :
    ∃ ps rest, Trivia.Reads s.options.comments rest s.cursor.rest ps ∧
      s.skipTrivia = { s with
        cursor := s.cursor.skip (ps.flatMap Trivia.Part.text).length
        diagnostics := s.diagnostics ++ Trivia.reports s.options.maxComment s.cursor ps } ∧
      (∀ c ∈ rest.head?, ¬ isHorizontal c) ∧ ¬ s.options.comments.OpensAt rest := by
  fun_induction skipTrivia s with
  | case1 s hrest =>
      refine ⟨[], [], hrest ▸ .nil, by simp [Trivia.reports], by simp, ?_⟩
      rintro (⟨opening, -, hne, hpre⟩ | ⟨opening, closing, -, hne, -, hpre⟩)
      · exact hne (List.prefix_nil.1 hpre)
      · exact hne (List.prefix_nil.1 hpre)
  | case2 s c cs hrest hnone =>
      obtain ⟨hblank, hcomment⟩ := Trivia.free_of_next? h hnone
      exact ⟨[], c :: cs, hrest ▸ .nil, by simp [Trivia.reports], by simpa using hblank, hcomment⟩
  | case3 s c cs hrest p hsome ih =>
      obtain ⟨ps, after, hps, htext, hfaults⟩ := Trivia.reads_of_next? h hsome s.cursor
      have hafter : (s.pass p).cursor.rest = after := by
        rw [pass, Cursor.skip_rest, hrest, hps.text_eq, htext, List.drop_left]
      obtain ⟨qs, rest, hqs, hskip, hblank, hcomment⟩ := ih h
      rw [hafter] at hqs
      refine ⟨ps ++ qs, rest, hrest ▸ hps.append hqs, ?_, hblank, hcomment⟩
      rw [hskip]
      simp only [pass, htext, hfaults, Trivia.reports_append, List.flatMap_append,
        List.length_append, Cursor.skip_skip, pushAll_append]

theorem passesTrivia (h : s.options.comments.SpareLineEnds) : s.PassesTrivia := by
  obtain ⟨ps, rest, hreads, hskip, hblank, hcomment⟩ := exists_reads h
  refine ⟨ps, rest, hreads, fun qs left hqs => hreads.prefix hqs ?_, hskip, ?_, hblank, hcomment⟩
  · intro p after hp
    rcases hp.opensAt with ⟨c, hc, hhorizontal⟩ | hopens
    · exact hblank c hc hhorizontal
    · exact hcomment hopens
  · rw [hskip, Cursor.skip_rest, hreads.text_eq, List.drop_left]

theorem passesTrivia_overlapping :
    let s := ofText "d" " /*/ // */ x" ⟨true, ⟨["//"], some ("/*", "*/")⟩, 9, 9, 3⟩ .empty
    s.options.comments.SpareLineEnds ∧ s.PassesTrivia := by
  intro s
  have h : s.options.comments.SpareLineEnds := by
    intro opening hmem
    obtain rfl := List.mem_singleton.1 hmem
    decide
  exact ⟨h, passesTrivia h⟩

end Scanner

end Lexing
