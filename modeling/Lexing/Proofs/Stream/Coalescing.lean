import Lexing.Proofs.Stream.Tokens
import Mathlib.Data.List.SplitBy

namespace Lexing

theorem splitBy_cons_cons {A : Type} {r : A → A → Bool} {a b : A} {as : List A}
    (h : r a b = true) :
    (a :: b :: as).splitBy r = ((b :: as).splitBy r).modifyHead (a :: ·) := by
  have hne : (b :: as).splitBy r ≠ [] := List.splitBy_ne_nil.2 (List.cons_ne_nil b as)
  obtain ⟨g, gs, hg⟩ := List.exists_cons_of_ne_nil hne
  obtain ⟨hflat, hnil, hchain, hends⟩ := List.splitBy_eq_iff.1 hg
  obtain ⟨d, g, rfl⟩ : ∃ d ds, g = d :: ds :=
    List.exists_cons_of_ne_nil fun hg => hnil (by simp [hg])
  obtain rfl : b = d := by simpa using congrArg List.head? hflat
  rw [hg, List.modifyHead_cons, List.splitBy_eq_iff]
  refine ⟨by simpa using hflat, by simpa using hnil, ?_, ?_⟩
  · intro run hrun
    rcases List.mem_cons.1 hrun with rfl | hrun
    · exact (hchain _ List.mem_cons_self).cons_cons h
    · exact hchain run (List.mem_cons_of_mem _ hrun)
  · cases gs with
    | nil => exact .singleton _
    | cons next gs =>
        obtain ⟨⟨_, hb, hlast⟩, hmore⟩ := List.isChain_cons_cons.1 hends
        refine .cons_cons ⟨List.cons_ne_nil _ _, hb, ?_⟩ hmore
        simpa using hlast

namespace Token

def joins (t : Token) (rejected : List Span) (u : Token) : Bool :=
  t.content == .newline && u.content == .newline &&
    !rejected.any fun s => t.span.stop ≤ s.start && s.stop ≤ u.span.start

theorem joins_iff {rejected : List Span} {t u : Token} :
    t.joins rejected u ↔ t.content = .newline ∧ u.content = .newline ∧
      ¬ ∃ s ∈ rejected, t.span.stop ≤ s.start ∧ s.stop ≤ u.span.start := by
  simp [joins, and_assoc]

def ofRun : List Token → Option Token
  | [] => none
  | t :: ts => some { t with span := ⟨t.span.start, (ts.getLastD t).span.stop⟩ }

theorem ofRun_cons_cons {c : Cursor} {t u : Token} (ts : List Token)
    (hcontent : t.content = u.content) (hposition : t.position = c.position)
    (hstart : t.span.start = c.offset) :
    ofRun (t :: u :: ts) = (ofRun (u :: ts)).map (startAt c) := by
  simp [ofRun, startAt, hcontent, hposition, hstart, List.getLast?_cons]

end Token

namespace Site

variable {x y : Site} {xs : List Site}

def rejected (xs : List Site) : List Span := (xs.filter (·.piece.sort == .rejected)).map span

def Ordered (xs : List Site) : Prop :=
  (xs.Pairwise fun x y => x.stop.offset ≤ y.place.offset) ∧ ∀ x ∈ xs, x.place.offset < x.stop.offset

theorem ordered_ofText (file : String) (text : List Char) (o : Options) (r : Recognizers) :
    Ordered (ofText file text o r) := by
  have hjoin : (Piece.all o r text).flatMap Piece.text <+: (Cursor.ofText file text).rest := by
    rw [Piece.flatMap_text_all]
    exact List.prefix_rfl
  exact ⟨layout_pairwise .., fun x hx => (bounds_of_mem_layout hjoin hx).2.1⟩

theorem exists_rejected_between {before between more : List Site}
    (h : Ordered (before ++ x :: (between ++ y :: more))) :
    (∃ s ∈ rejected (before ++ x :: (between ++ y :: more)),
      x.stop.offset ≤ s.start ∧ s.stop ≤ y.place.offset) ↔
        ∃ z ∈ between, z.piece.sort = .rejected := by
  obtain ⟨hpairwise, hproper⟩ := h
  simp only [List.pairwise_append, List.pairwise_cons, List.mem_append, List.mem_cons] at hpairwise
  obtain ⟨-, ⟨hx, -, ⟨hy, -⟩, hbetween⟩, hbefore⟩ := hpairwise
  have hxproper := hproper x (by simp)
  have hyproper := hproper y (by simp)
  constructor
  · rintro ⟨s, hs, hafter, hupto⟩
    obtain ⟨z, hz, rfl⟩ := List.mem_map.1 hs
    obtain ⟨hz, hsort⟩ := List.mem_filter.1 hz
    have hzproper := hproper z hz
    simp only [span] at hafter hupto
    simp only [List.mem_append, List.mem_cons] at hz
    rcases hz with hz | rfl | hz | rfl | hz
    · have := hbefore z hz x (.inl rfl)
      omega
    · omega
    · exact ⟨z, hz, by simpa using hsort⟩
    · omega
    · have := hy z hz
      omega
  · rintro ⟨z, hz, hsort⟩
    refine ⟨z.span, List.mem_map_of_mem (List.mem_filter.2 ⟨by simp [hz], by simp [hsort]⟩), ?_⟩
    exact ⟨hx z (.inl hz), hbetween z hz y (.inl rfl)⟩

theorem exists_first_of_tokens {t : Token} {ts : List Token} (h : tokens false xs = t :: ts) :
    ∃ between y more content, xs = between ++ y :: more ∧
      (∀ z ∈ between, z.piece.sort.isSkipped) ∧ y.piece.sort = .token content ∧
      t = y.token content := by
  induction xs with
  | nil => simp [tokens] at h
  | cons x xs ih =>
      cases hx : x.piece.sort with
      | token content =>
          rw [tokens_cons_token hx (by simp)] at h
          exact ⟨[], x, xs, content, rfl, by simp, hx, (List.cons.inj h).1.symm⟩
      | _ =>
          have hskip : x.piece.sort.isSkipped := by rw [hx]; rfl
          rw [tokens_cons_skipped hskip] at h
          obtain ⟨between, y, more, content, rfl, hbetween, hy, ht⟩ := ih h
          exact ⟨x :: between, y, more, content, rfl,
            List.forall_mem_cons.2 ⟨hskip, hbetween⟩, hy, ht⟩

theorem reachesLineEnd_between {between : List Site} {content : Content} (more : List Site)
    (hbetween : ∀ z ∈ between, z.piece.sort.isSkipped) (hy : y.piece.sort = .token content) :
    reachesLineEnd (between ++ y :: more) ↔
      content = .newline ∧ ¬ ∃ z ∈ between, z.piece.sort = .rejected := by
  induction between with
  | nil => cases content <;> simp [reachesLineEnd, hy, PieceSort.isNewline, PieceSort.isTrivia]
  | cons z between ih =>
      obtain ⟨hz, hmore⟩ := List.forall_mem_cons.1 hbetween
      rw [List.cons_append, reachesLineEnd]
      cases hs : z.piece.sort <;>
        simp_all [PieceSort.isNewline, PieceSort.isTrivia, PieceSort.isSkipped]

theorem joins_eq_reachesLineEnd {before : List Site} {t : Token} {ts : List Token}
    (h : Ordered (before ++ x :: xs)) (ht : tokens false xs = t :: ts) :
    (x.token .newline).joins (rejected (before ++ x :: xs)) t = reachesLineEnd xs := by
  obtain ⟨between, y, more, content, rfl, hbetween, hy, rfl⟩ := exists_first_of_tokens ht
  have hrejected := exists_rejected_between h
  have hreach := reachesLineEnd_between more hbetween hy
  rw [← hrejected] at hreach
  rw [Bool.eq_iff_iff, hreach, Token.joins_iff]
  exact and_iff_right rfl

theorem ofRun_splitBy_cons {joins : Token → Token → Bool} {t : Token} {ts : List Token}
    (h : ∀ u ∈ ts.head?, joins t u = false) :
    ((t :: ts).splitBy joins).filterMap Token.ofRun =
      t :: (ts.splitBy joins).filterMap Token.ofRun := by
  have happart : ([t] ++ ts).splitBy joins = [t].splitBy joins ++ ts.splitBy joins :=
    List.splitBy_append (by simpa using h)
  rw [List.singleton_append] at happart
  rw [happart, List.filterMap_append]
  rfl

theorem ofRun_splitBy_cons_cons {joins : Token → Token → Bool} {c : Cursor} {t u : Token}
    {ts : List Token} (h : joins t u = true) (hcontent : t.content = u.content)
    (hposition : t.position = c.position) (hstart : t.span.start = c.offset) :
    ((t :: u :: ts).splitBy joins).filterMap Token.ofRun =
      (((u :: ts).splitBy joins).filterMap Token.ofRun).modifyHead (.startAt c) := by
  have hne : (u :: ts).splitBy joins ≠ [] := List.splitBy_ne_nil.2 (List.cons_ne_nil u ts)
  obtain ⟨run, runs, hruns⟩ := List.exists_cons_of_ne_nil hne
  obtain ⟨hflat, hnil, -⟩ := List.splitBy_eq_iff.1 hruns
  obtain ⟨v, run, rfl⟩ : ∃ v vs, run = v :: vs :=
    List.exists_cons_of_ne_nil fun hrun => hnil (by simp [hrun])
  obtain rfl : u = v := by simpa using congrArg List.head? hflat
  rw [splitBy_cons_cons h, hruns, List.modifyHead_cons, List.filterMap_cons,
    Token.ofRun_cons_cons run hcontent hposition hstart]
  rfl

theorem tokens_coalesce (before : List Site) (h : Ordered (before ++ xs)) :
    tokens true xs = ((tokens false xs).splitBy
      fun t u => t.joins (rejected (before ++ xs)) u).filterMap Token.ofRun := by
  -- What is rejected is looked up in the whole text, so the sites passed stay in the statement.
  induction xs generalizing before with
  | nil => rfl
  | cons x xs ih =>
      have hmore := ih (before ++ [x]) (by simpa using h)
      rw [List.append_assoc, List.singleton_append] at hmore
      cases hx : x.piece.sort with
      | token content =>
          have hplain : tokens false (x :: xs) = x.token content :: tokens false xs :=
            tokens_cons_token hx (by simp)
          rw [hplain]
          by_cases hn : content = .newline ∧ reachesLineEnd xs
          · obtain ⟨rfl, hreach⟩ := hn
            obtain ⟨t, ts, hts, ht⟩ := exists_tokens_eq_cons false hreach
            have hjoin := joins_eq_reachesLineEnd h hts
            rw [hreach] at hjoin
            rw [tokens_cons_newline hx hreach, hmore, hts,
              ofRun_splitBy_cons_cons hjoin ht.symm rfl rfl]
          · have hapart : ∀ t ∈ (tokens false xs).head?,
                (x.token content).joins (rejected (before ++ x :: xs)) t = false := by
              intro t ht
              obtain ⟨ts, hts⟩ := List.head?_eq_some_iff.1 ht
              rw [Bool.eq_false_iff]
              intro hjoin
              obtain rfl : content = .newline := (Token.joins_iff.1 hjoin).1
              rw [joins_eq_reachesLineEnd h hts] at hjoin
              exact hn ⟨rfl, hjoin⟩
            rw [ofRun_splitBy_cons hapart, ← hmore]
            refine tokens_cons_token hx fun hc _ => ?_
            rw [Bool.eq_false_iff]
            exact fun hreach => hn ⟨hc, hreach⟩
      | _ =>
          have hskip : x.piece.sort.isSkipped := by rw [hx]; rfl
          rw [tokens_cons_skipped hskip, tokens_cons_skipped hskip, hmore]

end Site

theorem Piece.all_coalesce (o : Options) (r : Recognizers) (coalesce : Bool) (cs : List Char) :
    all { o with coalesce } r cs = all o r cs := by
  have hnext (c : Char) (cs : List Char) : next { o with coalesce } r c cs = next o r c cs := rfl
  fun_induction all o r cs with
  | case1 => exact all_nil ..
  | case2 c cs ih => rw [all_cons, hnext, ih]

theorem TokenStream.scan_coalesce (file text : String) (o : Options) (r : Recognizers) :
    let plain := scan (.ofText file text { o with coalesce := false } r)
    let joined := scan (.ofText file text { o with coalesce := true } r)
    let rejected := Site.rejected (Site.ofText file text.toList o r)
    joined.tokens.toList =
        (plain.tokens.toList.splitBy fun t u => t.joins rejected u).filterMap Token.ofRun ∧
      joined.diagnostics = plain.diagnostics := by
  intro plain joined rejected
  have hsites (coalesce : Bool) : Site.ofText file text.toList { o with coalesce } r =
      Site.ofText file text.toList o r := by
    rw [Site.ofText, Site.ofText, Piece.all_coalesce]
  have hplain : plain = _ := scan_ofText file text { o with coalesce := false } r
  have hjoined : joined = _ := scan_ofText file text { o with coalesce := true } r
  rw [hsites] at hplain hjoined
  have hfold : Site.tokens true (Site.ofText file text.toList o r) =
      ((Site.tokens false (Site.ofText file text.toList o r)).splitBy
        fun t u => t.joins rejected u).filterMap Token.ofRun :=
    Site.tokens_coalesce [] (Site.ordered_ofText file text.toList o r)
  have hending : ∀ t ∈ plain.body.toList.getLast?, ∀ u ∈ [plain.ending].head?,
      t.joins rejected u = false := by
    rintro t - u hu
    obtain rfl : plain.ending = u := by simpa using hu
    simp [Token.joins, hplain]
  refine ⟨?_, by rw [hplain, hjoined]⟩
  rw [tokens, tokens, Array.toList_push, Array.toList_push, List.splitBy_append hending,
    List.filterMap_append]
  simp only [hplain, hjoined, hfold]
  rfl

end Lexing
