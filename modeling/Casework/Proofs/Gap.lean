import Casework.Printer.Layout
import Casework.Proofs.Reading

/-!
# Gaps in printed texts

A text is a gap when reading passes over it and goes on with whatever stands
behind.  Gaps adjoin: layout is a gap without comments, and the line of a comment
that is well formed is a gap that holds this comment.

## Main definitions

* `Comment.wellFormed` — the comment is written the way it would be read.
* `IsGap` — reading passes over the text and finds the given comments in it.

## Main results

* `IsGap.append`, `IsGap.layout` — gaps adjoin, and layout is one.
* `isGap_commentLines` — the lines of well-formed comments are a gap with them.
* `IsGap.gap_append` — a gap before a gap is passed over.
-/

namespace Casework

/-! ### Well-formed comments -/

/-- The text ends in `*/` and has none before. -/
def closesAtEnd : List Char → Bool
  | [] => false
  | '*' :: '/' :: s => s.isEmpty
  | _ :: s => closesAtEnd s

/-- The text stays on its line and does not end in white space. -/
def staysOnLine (text : List Char) : Bool :=
  text.all (!isLineEnd ·) && !text.getLast?.any isWhiteSpace

/-- The comment is written the way it would be read: closed by the first `*/`
behind its opening, or on one line behind `//` or `#`, without white space at its
end. -/
def Comment.wellFormed (comment : Comment) : Bool :=
  match comment.text.toList with
  | '/' :: '*' :: s => closesAtEnd s
  | '/' :: '/' :: s => staysOnLine ('/' :: '/' :: s)
  | '#' :: s => s.head? != some '[' && staysOnLine ('#' :: s)
  | _ => false

/-- A comment that ends at its first `*/` is read up to there. -/
theorem throughClose?_append {s : List Char} (h : closesAtEnd s = true) (rest : List Char) :
    throughClose? (s ++ rest) = some s := by
  fun_induction closesAtEnd s with
  | case1 => cases h
  | case2 s =>
    rw [List.isEmpty_iff] at h
    simp [h, throughClose?]
  | case3 c s hne ih =>
    -- the first two characters are no `*/`, also with the rest behind them
    have hstep : throughClose? (c :: (s ++ rest)) = (throughClose? (s ++ rest)).map (c :: ·) := by
      refine throughClose?.eq_3 _ _ fun t hc ht => ?_
      cases s with
      | nil => cases h
      | cons d s =>
        rw [List.cons_append, List.cons.injEq] at ht
        exact hne s hc (by rw [ht.1])
    rw [List.cons_append, hstep, ih h]
    rfl

/-- What is taken up to the first `*/` is a beginning of the text. -/
theorem throughClose?_isPrefix {s t : List Char} (h : throughClose? s = some t) : t <+: s := by
  fun_induction throughClose? s generalizing t with
  | case1 => cases h
  | case2 s =>
    cases h
    exact ⟨s, rfl⟩
  | case3 c s hne ih =>
    obtain ⟨u, hu, rfl⟩ := Option.map_eq_some_iff.mp h
    exact List.cons_prefix_cons.mpr ⟨rfl, ih hu⟩

/-- A comment is a beginning of the text. -/
theorem commentAt?_isPrefix {s t : List Char} (h : commentAt? s = some t) : t <+: s := by
  unfold commentAt? at h
  split at h
  · obtain ⟨u, hu, rfl⟩ := Option.map_eq_some_iff.mp h
    simpa using throughClose?_isPrefix hu
  · cases h
    simpa using List.takeWhile_prefix _
  · cases h
  · cases h
    simpa using List.takeWhile_prefix _
  · cases h

theorem ne_nil_of_commentAt? {s t : List Char} (h : commentAt? s = some t) : t ≠ [] := by
  unfold commentAt? at h
  split at h
  · obtain ⟨u, -, rfl⟩ := Option.map_eq_some_iff.mp h
    nofun
  · cases h
    nofun
  · cases h
  · cases h
    nofun
  · cases h

/-- A gap takes the comment that stands next and goes on behind it. -/
theorem gapFrom_of_commentAt? {s t : List Char} (h : commentAt? s = some t) :
    gapFrom 0 s =
      (.ofChars t :: (gapFrom 0 (s.drop t.length)).1, (gapFrom 0 (s.drop t.length)).2) := by
  cases s with
  | nil => cases h
  | cons c s =>
    -- no comment begins with layout
    have hc : isLayout c = false := by
      rw [Bool.eq_false_iff]
      intro hc
      simp only [isLayout, Bool.or_eq_true, beq_iff_eq] at hc
      rcases hc with ((rfl | rfl) | rfl) | rfl <;> cases h
    obtain ⟨d, t, rfl⟩ := List.exists_cons_of_ne_nil (ne_nil_of_commentAt? h)
    exact gapFrom_comment hc h

/-- A line is taken up to its end. -/
theorem takeWhile_line {text : List Char} {lineEnd : Char}
    (inLine : text.all (!isLineEnd ·) = true) (ended : isLineEnd lineEnd = true)
    (rest : List Char) : (text ++ lineEnd :: rest).takeWhile (!isLineEnd ·) = text := by
  rw [List.all_eq_true] at inLine
  rw [List.takeWhile_append_of_pos inLine, List.takeWhile_cons_of_neg (by simp [ended]),
    List.append_nil]

/-- A text that stays on its line is read up to the end of the line. -/
theorem takeWhile_of_staysOnLine {text : List Char} (h : staysOnLine text = true)
    (rest : List Char) : (text ++ '\n' :: rest).takeWhile (!isLineEnd ·) = text := by
  rw [staysOnLine, Bool.and_eq_true] at h
  exact takeWhile_line h.1 (by decide) rest

/-- A text that does not end in white space keeps its end. -/
theorem trimEnd_of_getLast? {text : List Char} (h : text.getLast?.any isWhiteSpace = false) :
    trimEnd text = text := by
  rcases List.eq_nil_or_concat text with rfl | ⟨s, c, rfl⟩
  · rfl
  · rw [List.concat_eq_append] at h ⊢
    exact trimEnd_eq_self (by simpa using h)

/-- What ends in `*/` does not end in white space. -/
theorem getLast?_of_closesAtEnd {s : List Char} (h : closesAtEnd s = true) :
    s.getLast? = some '/' := by
  fun_induction closesAtEnd s with
  | case1 => cases h
  | case2 s =>
    rw [List.isEmpty_iff] at h
    rw [h]
    rfl
  | case3 c s _ ih =>
    cases s with
    | nil => cases h
    | cons d s => rw [List.getLast?_cons_cons, ih h]

/-- A well-formed comment does not end in white space. -/
theorem Comment.ofChars_of_wellFormed {comment : Comment} (h : comment.wellFormed = true) :
    Comment.ofChars comment.text.toList = comment := by
  have hlast : comment.text.toList.getLast?.any isWhiteSpace = false := by
    rw [Comment.wellFormed] at h
    split at h
    · next s heq =>
      have hlast := getLast?_of_closesAtEnd h
      cases s with
      | nil => cases h
      | cons c s =>
        rw [heq, List.getLast?_cons_cons, List.getLast?_cons_cons, hlast]
        decide
    · next s heq =>
      rw [staysOnLine, Bool.and_eq_true, Bool.not_eq_true'] at h
      rw [heq]
      exact h.2
    · next s heq =>
      rw [staysOnLine, Bool.and_eq_true, Bool.and_eq_true, Bool.not_eq_true'] at h
      rw [heq]
      exact h.2.2
    · cases h
  rw [Comment.ofChars, trimEnd_of_getLast? hlast, String.ofList_toList]

/-- A well-formed comment with its line feed is read as it stands. -/
theorem commentAt?_of_wellFormed {comment : Comment} (h : comment.wellFormed = true)
    (rest : List Char) :
    commentAt? (comment.text.toList ++ '\n' :: rest) = some comment.text.toList := by
  rw [Comment.wellFormed] at h
  split at h
  · next s heq =>
    rw [heq]
    simp [commentAt?, throughClose?_append h]
  · next s heq =>
    have hline := takeWhile_of_staysOnLine h rest
    rw [heq]
    simpa [commentAt?, isLineEnd] using hline
  · next s heq =>
    rw [Bool.and_eq_true] at h
    have hline := takeWhile_of_staysOnLine h.2 rest
    rw [heq]
    cases s with
    | nil => simp [commentAt?, isLineEnd]
    | cons c s =>
      have hc : c ≠ '[' := by simpa using h.1
      have hstep := commentAt?.eq_4 (c :: (s ++ '\n' :: rest)) (by simp [hc])
      rw [List.cons_append, List.cons_append, hstep]
      simpa [isLineEnd] using hline
  · cases h

/-! ### Texts that are gaps -/

/-- Reading passes over the text and finds the given comments in it, whatever
stands behind. -/
def IsGap (text : List Char) (comments : List Comment) : Prop :=
  ∀ rest, gapFrom 0 (text ++ rest) = (comments ++ (gapFrom 0 rest).1, (gapFrom 0 rest).2)

/-- A token stands next: no gap begins here. -/
def AtToken (s : List Char) : Prop := gapFrom 0 s = ([], s)

/-- The characters that a gap may begin with. -/
def isGapStart (c : Char) : Bool := isLayout c || c == '/' || c == '#'

variable {g h s : List Char} {j k : List Comment} {c : Char}

theorem isGap_nil : IsGap [] [] := by
  intro rest
  rfl

/-- Gaps adjoin. -/
theorem IsGap.append (hg : IsGap g j) (hh : IsGap h k) : IsGap (g ++ h) (j ++ k) := by
  intro rest
  rw [List.append_assoc, hg, hh, List.append_assoc]

/-- Layout before a gap belongs to it. -/
theorem IsGap.cons_layout (hg : IsGap g k) (hc : isLayout c = true) : IsGap (c :: g) k := by
  intro rest
  rw [List.cons_append, gapFrom_layout hc, hg]

theorem isGap_layout (hc : isLayout c = true) : IsGap [c] [] :=
  isGap_nil.cons_layout hc

/-- Layout alone is a gap without comments. -/
theorem isGap_of_layout (hg : g.all isLayout = true) : IsGap g [] := by
  induction g with
  | nil => exact isGap_nil
  | cons c g ih =>
    rw [List.all_cons, Bool.and_eq_true] at hg
    exact (ih hg.2).cons_layout hg.1

/-- The indentation of a line is a gap. -/
theorem isGap_replicate (n : Nat) : IsGap (List.replicate n ' ') [] := by
  refine isGap_of_layout (List.all_eq_true.mpr fun c hc => ?_)
  rw [List.eq_of_mem_replicate hc]
  rfl

/-- A comment is a gap that holds it, together with a gap that ends it. -/
theorem isGap_of_commentAt? {t : List Char} (hg : IsGap g k)
    (h : ∀ rest, commentAt? (t ++ (g ++ rest)) = some t) :
    IsGap (t ++ g) (.ofChars t :: k) := by
  intro rest
  have hat := h rest
  rw [List.append_assoc]
  cases t with
  | nil => exact absurd rfl (ne_nil_of_commentAt? hat)
  | cons c t =>
    have hdrop : (c :: t ++ (g ++ rest)).drop (c :: t).length = g ++ rest := List.drop_left
    rw [gapFrom_of_commentAt? hat, hdrop, hg]
    rfl

/-- A well-formed comment with its line feed is a gap that holds it. -/
theorem isGap_comment {comment : Comment} (hwf : comment.wellFormed = true) :
    IsGap (comment.text.toList ++ ['\n']) [comment] := by
  have hline := isGap_layout (c := '\n') (by decide)
  have hgap := isGap_of_commentAt? hline (commentAt?_of_wellFormed hwf)
  rwa [Comment.ofChars_of_wellFormed hwf] at hgap

/-- The lines of well-formed comments are a gap that holds them. -/
theorem isGap_commentLines (level : Nat) (hwf : ∀ comment ∈ k, comment.wellFormed = true) :
    IsGap (render (commentLines level k)) k := by
  induction k with
  | nil => exact isGap_nil
  | cons comment k ih =>
    have hline := (isGap_replicate (4 * level)).append (isGap_comment (hwf comment (by simp)))
    have hrest := ih fun d hd => hwf d (List.mem_cons_of_mem comment hd)
    have hcons := hline.append hrest
    simpa [commentLines, Line.render] using hcons

/-- Most characters begin a token. -/
theorem atToken_cons (hc : isGapStart c = false) (s : List Char) : AtToken (c :: s) := by
  rw [isGapStart, Bool.or_eq_false_iff, Bool.or_eq_false_iff, beq_eq_false_iff_ne,
    beq_eq_false_iff_ne] at hc
  obtain ⟨⟨hlayout, hslash⟩, hhash⟩ := hc
  refine gapFrom_token hlayout ?_
  unfold commentAt?
  split <;> simp_all

/-- A gap begins with layout or a comment. -/
theorem IsGap.isGapStart_of_cons (hg : IsGap (c :: g) k) : isGapStart c = true := by
  rw [← Bool.not_eq_false]
  intro hc
  have hall := hg []
  rw [List.append_nil, atToken_cons hc] at hall
  simp at hall

/-! ### Tokens behind gaps -/

theorem atToken_nil : AtToken [] := gapFrom_nil 0

/-- Behind a gap stands a token. -/
theorem atToken_gapFrom (owed : Nat) (s : List Char) : AtToken (gapFrom owed s).2 := by
  fun_induction gapFrom owed s with
  | case1 => exact atToken_nil
  | case2 owed c s ih => exact ih
  | case3 c s hc ih => exact ih
  | case4 c s hc text htext others rest heq ih => rwa [heq] at ih
  | case5 c s hc htext => exact gapFrom_token (by simpa using hc) htext

/-- A gap ends where a token stands. -/
theorem IsGap.gapFrom_append (hg : IsGap g k) (hs : AtToken s) : gapFrom 0 (g ++ s) = (k, s) := by
  rw [hg, hs, List.append_nil]

namespace Reader

/-- A gap before a gap is passed over. -/
theorem gap_append (hg : IsGap g k) (s : List Char) : gap (g ++ s) = gap s := by
  simp only [gap, hg s]

/-- A gap is read up to the token behind it. -/
theorem gap_ok (hg : IsGap g k) (hs : AtToken s) : gap (g ++ s) = .ok () s := by
  simp only [gap, hg.gapFrom_append hs]

/-- There is no gap before a token. -/
theorem gap_atToken (hs : AtToken s) : gap s = .ok () s := by
  rw [gap, hs]

/-- Behind a gap there is no other. -/
theorem gap_gapFrom (s : List Char) : gap (gapFrom 0 s).2 = .ok () (gapFrom 0 s).2 :=
  gap_atToken (atToken_gapFrom 0 s)

end Reader
end Casework
