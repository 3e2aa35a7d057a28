import Mathlib.Data.List.TakeWhile
import Casework.Proofs.Remainder
import Casework.Proofs.Spacing
import Casework.Proofs.Valid

/-!
# What a gap is made of

A gap is read as far as it goes.  It goes on where layout stands next, or a comment
that comes to its end: between `/*` and `*/`, or from `//` or `#` to the end of the
line.  A single `/`, a `/*` that is never closed and a `#[` begin a token like any
other character.

So every text is a gap and a rest with which no gap goes on, or a gap and a comment on
the last line of the text, which no line end follows.  Reading it never fails; it finds
the comments of the gap and leaves the rest.

The gap is read character by character.  It comes to the same as reading comments as
long as one stands behind the layout, and the layout behind the last of them.

## Main definitions

* `BeginsGap` — a gap goes on with the text.
* `IsLineComment` — the text is a comment up to the end of its line.
* `Reader.comment`, `Reader.spacedComment` — one comment, and the layout before it.

## Main results

* `atToken_iff` — a token stands next exactly where no gap goes on.
* `exists_gap` — every text is a gap and a rest.
* `Reader.comments_eq_many` — a gap is read by repetition.
* `Reader.comments_exact` — **a gap is read with its comments, up to its end and no
  further**.
-/

namespace Casework

/-! ### Where a gap goes on -/

/-- A gap goes on with the text: layout stands next, or a comment that comes to its
end. -/
inductive BeginsGap : List Char → Prop
  | layout {c : Char} (blank : isLayout c = true) (s : List Char) : BeginsGap (c :: s)
  | block {s : List Char} (closed : ['*', '/'] <:+: s) : BeginsGap ('/' :: '*' :: s)
  | slashes (s : List Char) : BeginsGap ('/' :: '/' :: s)
  | hash {s : List Char} (opens : s.head? ≠ some '[') : BeginsGap ('#' :: s)

/-- The text is a comment behind `//` or `#` up to the end of its line. -/
inductive IsLineComment : List Char → Prop
  | slashes {t : List Char} (inLine : t.all (!isLineEnd ·) = true) :
      IsLineComment ('/' :: '/' :: t)
  | hash {t : List Char} (inLine : t.all (!isLineEnd ·) = true) (opens : t.head? ≠ some '[') :
      IsLineComment ('#' :: t)

variable {c : Char} {s t : List Char}

/-- A comment is closed exactly when a `*/` stands anywhere behind its opening. -/
theorem isSome_throughClose?_iff : (throughClose? s).isSome = true ↔ ['*', '/'] <:+: s := by
  fun_induction throughClose? s with
  | case1 => simp
  | case2 s => simpa using List.infix_cons_iff.mpr (Or.inl ⟨s, rfl⟩)
  | case3 c s hne ih =>
    rw [Option.isSome_map, ih, List.infix_cons_iff]
    refine ⟨Or.inr, fun h => h.resolve_left ?_⟩
    rintro ⟨t, ht⟩
    obtain ⟨rfl, rfl⟩ := List.cons.inj ht
    exact hne t rfl rfl

/-- Where no layout stands, a gap goes on exactly when a comment can be taken. -/
theorem isSome_commentAt?_iff (hs : ∀ c ∈ s.head?, isLayout c = false) :
    (commentAt? s).isSome = true ↔ BeginsGap s := by
  constructor
  · intro h
    unfold commentAt? at h
    split at h
    · rw [Option.isSome_map, isSome_throughClose?_iff] at h
      exact .block h
    · exact .slashes _
    · cases h
    · next s hne =>
      refine .hash fun hs => ?_
      obtain ⟨t, rfl⟩ := List.head?_eq_some_iff.mp hs
      exact hne t rfl
    · cases h
  · intro h
    cases h with
    | layout blank s =>
      rw [hs _ rfl] at blank
      cases blank
    | block closed =>
      rw [commentAt?, Option.isSome_map, isSome_throughClose?_iff]
      exact closed
    | slashes s => rfl
    | hash opens =>
      rw [commentAt?.eq_4]
      · rfl
      · rintro t rfl
        exact opens rfl

/-- **A token stands next exactly where no gap goes on.** -/
theorem atToken_iff : AtToken s ↔ ¬ BeginsGap s := by
  cases s with
  | nil => exact ⟨fun _ => nofun, fun _ => atToken_nil⟩
  | cons c s =>
    cases hc : isLayout c with
    | true =>
      refine ⟨fun h => ?_, fun h => absurd (.layout hc s) h⟩
      -- the layout would be passed over
      have hrest : (gapFrom 0 s).2 = c :: s := by
        rw [← gapFrom_layout hc, h]
      have hlength := (gapFrom_suffix 0 s).length_le
      rw [hrest, List.length_cons] at hlength
      omega
    | false =>
      have hhead : ∀ d ∈ (c :: s).head?, isLayout d = false := by
        rintro d ⟨⟩
        exact hc
      rw [← isSome_commentAt?_iff hhead]
      cases htext : commentAt? (c :: s) with
      | none => exact ⟨fun _ => nofun, fun _ => gapFrom_token hc htext⟩
      | some text =>
        refine ⟨fun h => ?_, fun h => absurd rfl h⟩
        rw [AtToken, gapFrom_of_commentAt? htext] at h
        cases (Prod.mk.inj h).1

/-! ### Every text is a gap and a rest -/

/-- The rest of a line ends with the text or with an end of line. -/
theorem exists_line (s : List Char) : ∃ t, t.all (!isLineEnd ·) = true ∧
    (s = t ∨ ∃ c r, isLineEnd c = true ∧ s = t ++ c :: r) := by
  refine ⟨s.takeWhile (!isLineEnd ·), List.all_takeWhile, ?_⟩
  have hsplit := List.takeWhile_append_dropWhile (p := (!isLineEnd ·)) (l := s)
  cases hrest : s.dropWhile (!isLineEnd ·) with
  | nil =>
    rw [hrest, List.append_nil] at hsplit
    exact Or.inl hsplit.symm
  | cons c r =>
    have hc : (!isLineEnd c) = false := by
      have hhead := List.head?_dropWhile_not (!isLineEnd ·) s
      rwa [hrest] at hhead
    exact Or.inr ⟨c, r, by simpa using hc, by rw [← hrest, hsplit]⟩

/-- Where a gap goes on, a piece of it stands next, or a comment on the last line. -/
theorem BeginsGap.exists_piece (h : BeginsGap s) :
    (∃ (piece : Piece) (r : List Char), s = piece.text ++ r) ∨ IsLineComment s := by
  cases h with
  | layout blank s => exact Or.inl ⟨.layout _ blank, s, rfl⟩
  | block closed =>
    obtain ⟨t, ht⟩ := Option.isSome_iff_exists.mp (isSome_throughClose?_iff.mpr closed)
    obtain ⟨r, rfl⟩ := throughClose?_isPrefix ht
    exact Or.inl ⟨.block t (closesAtEnd_of_throughClose? ht), r, rfl⟩
  | slashes s =>
    obtain ⟨t, inLine, rfl | ⟨c, r, ended, rfl⟩⟩ := exists_line s
    · exact Or.inr (.slashes inLine)
    · exact Or.inl ⟨.slashes t c inLine ended, r, by simp [Piece.text]⟩
  | @hash s opens =>
    obtain ⟨t, inLine, rfl | ⟨c, r, ended, rfl⟩⟩ := exists_line s
    · exact Or.inr (.hash inLine opens)
    · refine Or.inl ⟨.hash t c inLine ended fun ht => opens ?_, r, by simp [Piece.text]⟩
      rw [List.head?_append, ht]
      rfl

/-- **Every text is a gap and a rest** with which no gap goes on, or a gap and a comment
that the text ends in. -/
theorem exists_gap (s : List Char) : ∃ (g : Gap) (r : List Char), s = g.text ++ r ∧
    (¬ BeginsGap r ∨ IsLineComment r) := by
  induction hn : s.length using Nat.strongRecOn generalizing s with
  | ind n ih =>
    subst hn
    by_cases hs : BeginsGap s
    · rcases hs.exists_piece with ⟨piece, r, rfl⟩ | hline
      · have hlength : r.length < (piece.text ++ r).length := by
          rw [List.length_append]
          exact Nat.lt_add_of_pos_left (List.length_pos_iff.mpr piece.text_ne_nil)
        obtain ⟨g, rest, rfl, hrest⟩ := ih r.length hlength r rfl
        exact ⟨piece :: g, rest, by simp [Gap.text], hrest⟩
      · exact ⟨[], s, rfl, Or.inr hline⟩
    · exact ⟨[], s, rfl, Or.inl hs⟩

/-- A comment that the text ends in is all of the gap. -/
theorem IsLineComment.gapFrom_eq (h : IsLineComment t) : gapFrom 0 t = ([.ofChars t], []) := by
  have htake : ∀ {u : List Char}, u.all (!isLineEnd ·) = true →
      u.takeWhile (!isLineEnd ·) = u :=
    fun hu => List.takeWhile_eq_self_iff.mpr (List.all_eq_true.mp hu)
  have hcomment : commentAt? t = some t := by
    cases h with
    | slashes inLine => rw [commentAt?, htake inLine]
    | hash inLine opens =>
      rw [commentAt?.eq_4, htake inLine]
      rintro u rfl
      exact opens rfl
  rw [gapFrom_of_commentAt? hcomment, List.drop_length, gapFrom_nil]

namespace Reader

/-! ### Reading a gap by repetition -/

/-- Reads a comment. -/
def comment : Reader Comment := fun s =>
  match commentAt? s with
  | some text => .ok (.ofChars text) (s.drop text.length)
  | none => .miss s

/-- Reads a comment and the layout before it. -/
def spacedComment : Reader Comment := do
  let _ ← span isLayout
  comment

/-- Layout before a gap is passed over. -/
theorem gapFrom_dropWhile (s : List Char) : gapFrom 0 (s.dropWhile isLayout) = gapFrom 0 s := by
  have hgap := isGap_of_layout (g := s.takeWhile isLayout) List.all_takeWhile
  have hread := hgap (s.dropWhile isLayout)
  rwa [List.takeWhile_append_dropWhile, List.nil_append, eq_comm] at hread

/-- A gap is read by repetition: comments as long as one stands behind the layout, and
the layout behind the last of them. -/
theorem comments_eq_many {fuel : Nat} (hs : s.length < fuel) :
    comments s = (do
      let found ← many spacedComment fuel
      let _ ← span isLayout
      pure found : Reader (List Comment)) s := by
  induction fuel generalizing s with
  | zero => omega
  | succ n ih =>
    -- what stands behind the layout begins with a comment, or the gap ends there
    have hspan : span isLayout s = .ok (s.takeWhile isLayout) (s.dropWhile isLayout) := rfl
    have hlength := (List.dropWhile_suffix isLayout (l := s)).length_le
    cases htext : commentAt? (s.dropWhile isLayout) with
    | some text =>
      have hread : spacedComment s =
          .ok (.ofChars text) ((s.dropWhile isLayout).drop text.length) := by
        rw [spacedComment, bind_ok hspan, comment, htext]
      have hshort : ((s.dropWhile isLayout).drop text.length).length < n := by
        have hpos := List.length_pos_iff.mpr (ne_nil_of_commentAt? htext)
        have hle := (commentAt?_isPrefix htext).length_le
        rw [List.length_drop]
        omega
      have hmore := ih hshort
      rw [comments, ← gapFrom_dropWhile s, gapFrom_of_commentAt? htext]
      rw [comments] at hmore
      rw [bind_apply, many_succ, hread]
      rw [bind_apply] at hmore
      dsimp only at hmore ⊢
      cases hfound : many spacedComment n ((s.dropWhile isLayout).drop text.length) with
      | ok found r =>
        rw [hfound] at hmore
        injection hmore with hcomments hrest
        rw [hcomments, hrest]
        rfl
      | miss r | halt _ r =>
        rw [hfound] at hmore
        cases hmore
    | none =>
      have hmiss : spacedComment.Misses s :=
        ⟨_, by rw [spacedComment, bind_ok hspan, comment, htext]⟩
      have hend : gapFrom 0 (s.dropWhile isLayout) = ([], s.dropWhile isLayout) := by
        have hhead := List.head?_dropWhile_not isLayout s
        cases hu : s.dropWhile isLayout with
        | nil => rfl
        | cons c u =>
          rw [hu] at hhead htext
          exact gapFrom_token hhead htext
      rw [bind_ok (many_miss hmiss), bind_ok hspan, comments, ← gapFrom_dropWhile s, hend]
      rfl

/-! ### Exactness -/

/-- A gap is read up to a rest with which no gap goes on. -/
theorem comments_append (g : Gap) {r : List Char} (hr : ¬ BeginsGap r) :
    comments (g.text ++ r) = .ok g.comments r := by
  rw [comments, g.isGap.gapFrom_append (atToken_iff.mpr hr)]

/-- A gap is read up to the end of the text, with the comment that the text ends in. -/
theorem comments_append_line (g : Gap) (ht : IsLineComment t) :
    comments (g.text ++ t) = .ok (g.comments ++ [.ofChars t]) [] := by
  rw [comments, g.isGap t, ht.gapFrom_eq]

/-- **A gap is read with its comments, up to its end and no further.**  Behind layout and
complete comments in any order, what is left is the rest, if no gap goes on with it; and
the comments are those of the gap, in their order, each as it is written but for the white
space at its end.  No text is refused: each is such a gap and such a rest, or else ends in
a comment that has no line end behind it, which is the last one that is read. -/
theorem comments_exact :
    (∀ (g : Gap) (r : List Char), ¬ BeginsGap r → comments (g.text ++ r) = .ok g.comments r) ∧
    ∀ s : List Char, ∃ (g : Gap) (r : List Char), s = g.text ++ r ∧
      (¬ BeginsGap r ∧ comments s = .ok g.comments r ∨
        IsLineComment r ∧ comments s = .ok (g.comments ++ [.ofChars r]) []) := by
  refine ⟨fun g r => comments_append g, fun s => ?_⟩
  obtain ⟨g, r, rfl, hr | hr⟩ := exists_gap s
  · exact ⟨g, r, rfl, Or.inl ⟨hr, comments_append g hr⟩⟩
  · exact ⟨g, r, rfl, Or.inr ⟨hr, comments_append_line g hr⟩⟩

/-- Each kind of comment with the marks of the others in it, and white space at the end of
one that is no layout, before a `/*` that is never closed. -/
theorem comments_exact_unclosed :
    let g : Gap := [.layout '\t' rfl, .block " // # */".toList rfl,
      .slashes " /* #\u00a0".toList '\r' rfl rfl, .hash "*/".toList '\n' rfl rfl (by decide)]
    let r := "/*/ [".toList
    g.text ++ r = "\t/* // # */// /* #\u00a0\r#*/\n/*/ [".toList ∧ ¬ BeginsGap r ∧
      comments (g.text ++ r) = .ok [⟨"/* // # */"⟩, ⟨"// /* #"⟩, ⟨"#*/"⟩] r := by
  intro g r
  have hr : ¬ BeginsGap r := atToken_iff.mp rfl
  have hcomments : g.comments = [⟨"/* // # */"⟩, ⟨"// /* #"⟩, ⟨"#*/"⟩] := by decide
  exact ⟨rfl, hr, hcomments ▸ comments_exact.1 g r hr⟩

end Reader

end Casework
