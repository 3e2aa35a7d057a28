import Casework.Proofs.Remainder
import Casework.Proofs.Statement
import Casework.Proofs.Valid

/-!
# Reading a text that goes on

A text is read the same way when a closing brace follows it on a line of its own, up
to the place where the brace is seen.  Two things could make a difference.  The bound
on the rounds grows with the text; but each round reads at least one character, so a
bound above the length of the text is never reached.  And a reader may look at the end
of the text: there it sees the line feed or the brace instead, which no reader takes,
the closing brace of a block or a switch apart.  A block or a switch that is not closed
halts at the end of the text, and then nothing is said of the longer text.

So the readers are compared two by two, with bounds of their own and on texts of which
one extends the other.  The case that the texts are the same says that the bounds do
not matter.

## Main definitions

* `Extends` — the second text is the first one, or the first one and a closing brace.
* `Reader.Agrees` — the second reply is the first one, unless that is a halt.
* `Reader.Follows` — the second reader agrees with the first one on all texts shorter
  than a bound, and what they read is not shorter than given.

## Main results

* `Extends.gapFrom_eq` — a gap holds the same comments in both texts.
* `Reader.follows_bind`, `Reader.follows_many` and their like — the combinators.
* `Reader.keyword_extends`, `Reader.follows_literal` and their like — **words, names and
  literals are read the same in a text that goes on**.
-/

namespace Casework

/-! ### Texts that go on -/

/-- The second text is the first one or, when the bit is set, the first one with a
closing brace on a line of its own.  At the end of the first text the line feed may
have been passed over. -/
inductive Extends : Bool → List Char → List Char → Prop
  | same (s : List Char) : Extends false s s
  | closed (s : List Char) : Extends true s (s ++ ['\n', '\x7d'])
  | atBrace : Extends true [] ['\x7d']

/-- The characters that a text goes on with. -/
def isTail (c : Char) : Bool := c == '\n' || c == '\x7d'

/-- The class of characters has none of those that a text goes on with. -/
abbrev AvoidsTail (accepts : Char → Bool) : Prop :=
  accepts '\n' = false ∧ accepts '\x7d' = false

/-- The text is not empty and has none of them either. -/
abbrev IsSolid (text : List Char) : Prop := text ≠ [] ∧ text.all (!isTail ·) = true

variable {b : Bool} {c : Char} {s s' : List Char}

theorem AvoidsTail.eq_false {accepts : Char → Bool} (h : AvoidsTail accepts)
    (hc : isTail c = true) : accepts c = false := by
  rw [isTail, Bool.or_eq_true, beq_iff_eq, beq_iff_eq] at hc
  rcases hc with rfl | rfl
  · exact h.1
  · exact h.2

/-- Where the first text ends, the second one ends or goes on with one of two
characters. -/
theorem Extends.nil_or_exists_cons (h : Extends b [] s') :
    s' = [] ∨ ∃ c t, s' = c :: t ∧ isTail c = true := by
  cases h with
  | same => exact Or.inl rfl
  | closed => exact Or.inr ⟨_, _, rfl, by decide⟩
  | atBrace => exact Or.inr ⟨_, _, rfl, by decide⟩

theorem Extends.exists_cons (h : Extends b (c :: s) s') :
    ∃ t, s' = c :: t ∧ Extends b s t := by
  cases h with
  | same => exact ⟨s, rfl, .same s⟩
  | closed => exact ⟨_, rfl, .closed s⟩

theorem Extends.drop (h : Extends b s s') {k : Nat} (hk : k ≤ s.length) :
    Extends b (s.drop k) (s'.drop k) := by
  induction k generalizing s s' with
  | zero => exact h
  | succ k ih =>
    cases s with
    | nil => exact absurd hk (by simp)
    | cons c s =>
      obtain ⟨t, rfl, ht⟩ := h.exists_cons
      exact ih ht (Nat.le_of_succ_le_succ hk)

/-- A beginning without the two characters is one of both texts or of none. -/
theorem Extends.isPrefixOf_eq {w : List Char} (hw : w.all (!isTail ·) = true)
    (h : Extends b s s') : w.isPrefixOf s' = w.isPrefixOf s := by
  induction w generalizing s s' with
  | nil => rfl
  | cons c w ih =>
    rw [List.all_cons, Bool.and_eq_true] at hw
    cases s with
    | nil =>
      rcases h.nil_or_exists_cons with rfl | ⟨d, t, rfl, hd⟩
      · rfl
      · have hne : (c == d) = false := by
          rw [beq_eq_false_iff_ne]
          rintro rfl
          rw [hd] at hw
          cases hw.1
        rw [List.isPrefixOf_cons_cons, hne]
        rfl
    | cons d s =>
      obtain ⟨t, rfl, ht⟩ := h.exists_cons
      rw [List.isPrefixOf_cons_cons, List.isPrefixOf_cons_cons, ih hw.2 ht]

theorem Extends.map_toLower (h : Extends b s s') :
    Extends b (s.map Char.toLower) (s'.map Char.toLower) := by
  cases h with
  | same => exact .same _
  | closed =>
    rw [List.map_append]
    exact .closed _
  | atBrace => exact .atBrace

/-- Characters of a class without the two are taken from both texts alike. -/
theorem Extends.span {accepts : Char → Bool} (hno : AvoidsTail accepts)
    (h : Extends b s s') : s'.takeWhile accepts = s.takeWhile accepts ∧
      Extends b (s.dropWhile accepts) (s'.dropWhile accepts) := by
  induction s generalizing s' with
  | nil =>
    rcases h.nil_or_exists_cons with rfl | ⟨c, t, rfl, hc⟩
    · exact ⟨rfl, h⟩
    · have hc := Bool.eq_false_iff.mp (hno.eq_false hc)
      rw [List.takeWhile_cons_of_neg hc, List.dropWhile_cons_of_neg hc]
      exact ⟨rfl, h⟩
  | cons c s ih =>
    obtain ⟨t, rfl, ht⟩ := h.exists_cons
    by_cases hc : accepts c = true
    · rw [List.takeWhile_cons_of_pos hc, List.takeWhile_cons_of_pos hc,
        List.dropWhile_cons_of_pos hc, List.dropWhile_cons_of_pos hc, (ih ht).1]
      exact ⟨rfl, (ih ht).2⟩
    · rw [List.takeWhile_cons_of_neg hc, List.takeWhile_cons_of_neg hc,
        List.dropWhile_cons_of_neg hc, List.dropWhile_cons_of_neg hc]
      exact ⟨rfl, h⟩

/-! ### Gaps -/

theorem throughClose?_closed (s : List Char) :
    throughClose? (s ++ ['\n', '\x7d']) = throughClose? s := by
  fun_induction throughClose? s with
  | case1 => rfl
  | case2 s => rfl
  | case3 c s hne ih =>
    rw [List.cons_append, throughClose?.eq_3, ih]
    -- a star at the end is followed by the line feed
    intro t hc ht
    cases s with
    | nil => cases ht
    | cons d s =>
      rw [List.cons_append, List.cons.injEq] at ht
      exact hne s hc (by rw [ht.1])

theorem takeWhile_line_closed (s : List Char) :
    (s ++ ['\n', '\x7d']).takeWhile (!isLineEnd ·) = s.takeWhile (!isLineEnd ·) := by
  induction s with
  | nil => rfl
  | cons c s ih => rw [List.cons_append, List.takeWhile_cons, List.takeWhile_cons, ih]

/-- What the closed text begins with, the two characters apart, the text begins with. -/
theorem exists_cons_of_closed {u : List Char} (hc : isTail c = false)
    (h : s ++ ['\n', '\x7d'] = c :: u) : ∃ t, s = c :: t ∧ t ++ ['\n', '\x7d'] = u := by
  cases s with
  | nil =>
    obtain rfl : '\n' = c := (List.cons.inj h).1
    cases hc
  | cons d s =>
    rw [List.cons_append, List.cons.injEq] at h
    exact ⟨s, by rw [h.1], h.2⟩

/-- The same comment begins in the closed text. -/
theorem commentAt?_closed (s : List Char) : commentAt? (s ++ ['\n', '\x7d']) = commentAt? s := by
  fun_cases commentAt? s with
  | case1 s => rw [List.cons_append, List.cons_append, commentAt?, throughClose?_closed]
  | case2 s => rw [List.cons_append, List.cons_append, commentAt?, takeWhile_line_closed]
  | case3 s => rfl
  | case4 s hne =>
    rw [List.cons_append, commentAt?.eq_4, takeWhile_line_closed]
    intro u hu
    obtain ⟨t, rfl, -⟩ := exists_cons_of_closed (by decide) hu
    exact hne t rfl
  | case5 s hblock hline hattribute hhash =>
    refine commentAt?.eq_5 _ (fun u hu => ?_) (fun u hu => ?_) (fun u hu => ?_) (fun u hu => ?_)
    · obtain ⟨t, rfl, ht⟩ := exists_cons_of_closed (by decide) hu
      obtain ⟨t, rfl, -⟩ := exists_cons_of_closed (by decide) ht
      exact hblock t rfl
    · obtain ⟨t, rfl, ht⟩ := exists_cons_of_closed (by decide) hu
      obtain ⟨t, rfl, -⟩ := exists_cons_of_closed (by decide) ht
      exact hline t rfl
    · obtain ⟨t, rfl, -⟩ := exists_cons_of_closed (by decide) hu
      exact hhash t rfl
    · obtain ⟨t, rfl, -⟩ := exists_cons_of_closed (by decide) hu
      exact hhash t rfl

theorem Extends.commentAt?_eq (h : Extends b (c :: s) s') :
    commentAt? s' = commentAt? (c :: s) := by
  cases h with
  | same => rfl
  | closed => exact commentAt?_closed (c :: s)

/-- A gap holds the same comments in both texts. -/
theorem Extends.gapFrom_eq {owed : Nat} (h : Extends b s s') (howed : owed ≤ s.length) :
    (gapFrom owed s').1 = (gapFrom owed s).1 ∧
      Extends b (gapFrom owed s).2 (gapFrom owed s').2 := by
  fun_induction gapFrom owed s generalizing s' with
  | case1 owed =>
    obtain rfl : owed = 0 := Nat.le_zero.mp howed
    cases h with
    | same => exact ⟨rfl, .same []⟩
    | closed => exact ⟨rfl, .atBrace⟩
    | atBrace => exact ⟨rfl, .atBrace⟩
  | case2 owed c s ih =>
    obtain ⟨t, rfl, ht⟩ := h.exists_cons
    exact ih ht (Nat.le_of_succ_le_succ howed)
  | case3 c s hc ih =>
    obtain ⟨t, rfl, ht⟩ := h.exists_cons
    rw [gapFrom_layout hc]
    exact ih ht (Nat.zero_le _)
  | case4 c s hc text htext others rest heq ih =>
    have htext' := h.commentAt?_eq.trans htext
    have hlength := (commentAt?_isPrefix htext).length_le
    obtain ⟨t, rfl, ht⟩ := h.exists_cons
    obtain ⟨hcomments, hrest⟩ := ih ht (Nat.sub_le_of_le_add hlength)
    rw [heq] at hcomments hrest
    rw [gapFrom_comment (by simpa using hc) htext', ← gapFrom_eq_drop, hcomments]
    exact ⟨rfl, hrest⟩
  | case5 c s hc htext =>
    have htext' := h.commentAt?_eq.trans htext
    obtain ⟨t, rfl, ht⟩ := h.exists_cons
    rw [gapFrom_token (by simpa using hc) htext']
    exact ⟨rfl, h⟩

namespace Reader

variable {α β : Type} {d d' n m L L' : Nat} {p p' q q' : Reader α} {f f' : α → Reader β}

/-- The second reply is the first one, unless that is a halt: both give the same value,
what they leave is one text and its extension, and at least the given number of
characters was read. -/
inductive Agrees (b : Bool) (length d : Nat) : Reply α → Reply α → Prop
  | ok {a r r'} (h : Extends b r r') (hlength : r.length + d ≤ length) :
      Agrees b length d (.ok a r) (.ok a r')
  | miss {r r'} : Agrees b length d (.miss r) (.miss r')
  | halt {e r reply} : Agrees b length d (.halt e r) reply

/-- On a text that is shorter than the bound, and on what extends it, the replies of the
two readers agree, and what they read has at least the given number of characters. -/
def Follows (b : Bool) (d L : Nat) (p p' : Reader α) : Prop :=
  ∀ ⦃s s'⦄, s.length < L → Extends b s s' → Agrees b s.length d (p s) (p' s')

/-! ### Combinators -/

/-- What was read of a shorter text was read of a longer one, with the characters that
the longer one has more. -/
theorem Agrees.mono {x y : Reply α} (h : Agrees b n d x y) (hle : n + d' ≤ m + d) :
    Agrees b m d' x y := by
  cases h with
  | ok hr hlength => exact .ok hr (by omega)
  | miss => exact .miss
  | halt => exact .halt

theorem Agrees.map {g : α → β} {x y : Reply α} (h : Agrees b n d x y) :
    Agrees b n d (x.map g) (y.map g) := by
  cases h with
  | ok hr hlength => exact .ok hr hlength
  | miss => exact .miss
  | halt => exact .halt

theorem Follows.mono (h : Follows b d L p p') (hd : d' ≤ d) (hL : L' ≤ L) :
    Follows b d' L' p p' := by
  intro s s' hs hext
  exact (h (Nat.lt_of_lt_of_le hs hL) hext).mono (Nat.add_le_add_left hd _)

/-- How much was read need not be known. -/
theorem Follows.weaken (h : Follows b d L p p') : Follows b 0 L p p' :=
  h.mono (Nat.zero_le d) (Nat.le_refl L)

/-- Behind a character that was read a shorter bound will do. -/
theorem Follows.pred (h : Follows b d L p p') : Follows b d (L - 1) p p' :=
  h.mono (Nat.le_refl d) (Nat.sub_le L 1)

theorem follows_pure (a : α) : Follows b 0 L (pure a) (pure a) :=
  fun _ _ _ hext => .ok hext (Nat.le_refl _)

theorem follows_bind (hp : Follows b 0 L p p') (hf : ∀ a, Follows b d L (f a) (f' a)) :
    Follows b d L (p >>= f) (p' >>= f') := by
  intro s s' hs hext
  rw [bind_apply, bind_apply]
  have hreply := hp hs hext
  generalize p s = x, p' s' = y at hreply ⊢
  cases hreply with
  | @ok a r r' hr hlength => exact (hf a (by omega) hr).mono (by omega)
  | miss => exact .miss
  | halt => exact .halt

/-- Where the first reader reads something, the others need a shorter bound. -/
theorem follows_bind_pred (hp : Follows b 1 L p p') (hf : ∀ a, Follows b 0 (L - 1) (f a) (f' a)) :
    Follows b 1 L (p >>= f) (p' >>= f') := by
  intro s s' hs hext
  rw [bind_apply, bind_apply]
  have hreply := hp hs hext
  generalize p s = x, p' s' = y at hreply ⊢
  cases hreply with
  | @ok a r r' hr hlength => exact (hf a (by omega) hr).mono (by omega)
  | miss => exact .miss
  | halt => exact .halt

theorem follows_map {g : α → β} (hp : Follows b d L p p') :
    Follows b d L (p >>= fun a => pure (g a)) (p' >>= fun a => pure (g a)) := by
  have hmap : ∀ (p : Reader α) (s : List Char),
      (p >>= fun a => pure (g a)) s = (p s).map g := by
    intro p s
    rw [bind_apply]
    cases p s <;> rfl
  intro s s' hs hext
  rw [hmap, hmap]
  exact (hp hs hext).map

theorem follows_orElse (hp : Follows b d L p p') (hq : Follows b d L q q') :
    Follows b d L (p <|> q) (p' <|> q') := by
  intro s s' hs hext
  rw [orElse_apply, orElse_apply]
  have hreply := hp hs hext
  generalize p s = x, p' s' = y at hreply ⊢
  cases hreply with
  | ok hr hlength => exact .ok hr hlength
  | miss => exact hq hs hext
  | halt => exact .halt

theorem follows_optional (hp : Follows b 0 L p p') : Follows b 0 L (optional p) (optional p') := by
  intro s s' hs hext
  rw [optional, optional]
  have hreply := hp hs hext
  generalize p s = x, p' s' = y at hreply ⊢
  cases hreply with
  | ok hr hlength => exact .ok hr hlength
  | miss => exact .ok hext (Nat.le_refl _)
  | halt => exact .halt

/-- Each round reads a character, so that no bound above the length is reached. -/
theorem follows_many (hp : Follows b 1 L p p') (hn : L ≤ n) (hm : L ≤ m) :
    Follows b 0 L (many p n) (many p' m) := by
  induction n generalizing m L with
  | zero =>
    intro s s' hs hext
    omega
  | succ n ih =>
    intro s s' hs hext
    obtain ⟨m, rfl⟩ := Nat.exists_eq_succ_of_ne_zero (n := m) (by omega)
    rw [many_succ, many_succ]
    have hreply := hp hs hext
    generalize p s = x, p' s' = y at hreply ⊢
    cases hreply with
    | @ok a r r' hr hlength =>
      have hmore := ih (L := L - 1) (m := m) hp.pred (by omega) (by omega) (by omega) hr
      dsimp only
      generalize many p n r = x, many p' m r' = y at hmore ⊢
      cases hmore with
      | ok ht hlength' => exact .ok ht (by omega)
      | miss => exact .miss
      | halt => exact .halt
    | miss => exact .ok hext (Nat.le_refl _)
    | halt => exact .halt

theorem follows_sepBy1 {separator : Reader Unit} (hp : Follows b 1 L p p')
    (hsep : Follows b 0 L separator separator) (hn : L ≤ n) (hm : L ≤ m) :
    Follows b 1 L (sepBy1 p separator n) (sepBy1 p' separator m) := by
  refine follows_bind_pred hp fun _ => follows_map ?_
  exact (follows_many (follows_bind hsep fun _ => hp) hn hm).pred

theorem follows_commit (hp : Follows b d L p p') : Follows b d L (commit p) (commit p') := by
  intro s s' hs hext
  rw [commit, commit]
  have hreply := hp hs hext
  generalize p s = x, p' s' = y at hreply ⊢
  cases hreply with
  | ok hr hlength => exact .ok hr hlength
  | miss => exact .halt
  | halt => exact .halt

theorem follows_require (hp : Follows b d L p p') (what : Expected) :
    Follows b d L (require what p) (require what p') := by
  intro s s' hs hext
  rw [require, require]
  have hreply := hp hs hext
  generalize p s = x, p' s' = y at hreply ⊢
  cases hreply with
  | ok hr hlength => exact .ok hr hlength
  | miss => exact .halt
  | halt => exact .halt

/-! ### Characters, words and literals -/

theorem follows_gap : Follows b 0 L gap gap := by
  intro s s' hs hext
  exact .ok (hext.gapFrom_eq (Nat.zero_le _)).2 (gapFrom_suffix 0 s).length_le

theorem follows_satisfy {accepts : Char → Bool} (hno : AvoidsTail accepts) :
    Follows b 1 L (satisfy accepts) (satisfy accepts) := by
  intro s s' hs hext
  cases s with
  | nil =>
    rcases hext.nil_or_exists_cons with rfl | ⟨c, t, rfl, hc⟩
    · exact .miss
    · rw [satisfy, satisfy, hno.eq_false hc]
      exact .miss
  | cons c s =>
    obtain ⟨t, rfl, ht⟩ := hext.exists_cons
    rw [satisfy, satisfy]
    split
    · exact .ok ht (Nat.le_refl _)
    · exact .miss

theorem follows_char {c : Char} (hc : isTail c = false) : Follows b 1 L (char c) (char c) := by
  intro s s' hs hext
  cases s with
  | nil =>
    rcases hext.nil_or_exists_cons with rfl | ⟨d, t, rfl, hd⟩
    · exact .miss
    · have hne : (d == c) = false := by
        rw [beq_eq_false_iff_ne]
        rintro rfl
        rw [hc] at hd
        cases hd
      rw [char, char, hne]
      exact .miss
  | cons d s =>
    obtain ⟨t, rfl, ht⟩ := hext.exists_cons
    rw [char, char]
    split
    · exact .ok ht (Nat.le_refl _)
    · exact .miss

/-- The closing brace has to stand in the first text. -/
theorem follows_closingBrace : Follows b 1 L (require .closingBrace (char '\x7d'))
    (require .closingBrace (char '\x7d')) := by
  intro s s' hs hext
  cases s with
  | nil => exact .halt
  | cons d s =>
    obtain ⟨t, rfl, ht⟩ := hext.exists_cons
    rw [require, require, char, char]
    by_cases hd : (d == '\x7d') = true
    · rw [if_pos hd, if_pos hd]
      exact .ok ht (Nat.le_refl _)
    · rw [if_neg hd, if_neg hd]
      exact .halt

theorem follows_token {text : List Char} (htext : IsSolid text) :
    Follows b 1 L (token text) (token text) := by
  intro s s' hs hext
  rw [token, token, hext.isPrefixOf_eq htext.2]
  by_cases h : text.isPrefixOf s = true
  · have hpos := List.length_pos_iff.mpr htext.1
    have hle := (List.isPrefixOf_iff_prefix.mp h).length_le
    rw [if_pos h, if_pos h]
    refine .ok (hext.drop hle) ?_
    rw [List.length_drop]
    omega
  · rw [if_neg h, if_neg h]
    exact .miss

/-- What may not come next comes next in both texts or in none. -/
theorem notNext_extends {refuses : Char → Bool} (hno : AvoidsTail refuses)
    (h : Extends b s s') :
    notNext refuses s = .ok () s ∧ notNext refuses s' = .ok () s' ∨
      notNext refuses s = .miss s ∧ notNext refuses s' = .miss s' := by
  cases s with
  | nil =>
    refine Or.inl ⟨rfl, ?_⟩
    rcases h.nil_or_exists_cons with rfl | ⟨c, t, rfl, hc⟩
    · rfl
    · rw [notNext, hno.eq_false hc]
      rfl
  | cons c s =>
    obtain ⟨t, rfl, -⟩ := h.exists_cons
    rw [notNext, notNext]
    by_cases hc : refuses c = true
    · rw [if_pos hc, if_pos hc]
      exact Or.inr ⟨rfl, rfl⟩
    · rw [if_neg hc, if_neg hc]
      exact Or.inl ⟨rfl, rfl⟩

theorem follows_notNext {refuses : Char → Bool} (hno : AvoidsTail refuses) :
    Follows b 0 L (notNext refuses) (notNext refuses) := by
  intro s s' hs hext
  rcases notNext_extends hno hext with ⟨h, h'⟩ | ⟨h, h'⟩
  · rw [h, h']
    exact .ok hext (Nat.le_refl _)
  · rw [h, h']
    exact .miss

theorem follows_span {accepts : Char → Bool} (hno : AvoidsTail accepts) :
    Follows b 0 L (span accepts) (span accepts) := by
  intro s s' hs hext
  obtain ⟨htake, hdrop⟩ := hext.span hno
  rw [span, span, htake]
  exact .ok hdrop (List.dropWhile_suffix accepts).length_le

/-- A word is read in both texts or in none; also where it is not, both readers stand at
the same place. -/
theorem keyword_extends (word : String) (hword : IsSolid word.toList) (h : Extends b s s') :
    ∃ r r', Extends b r r' ∧ r.length ≤ s.length ∧
      (keyword word s = .ok () r ∧ keyword word s' = .ok () r' ∧ r.length + 1 ≤ s.length ∨
        keyword word s = .miss r ∧ keyword word s' = .miss r') := by
  have hprefix := h.map_toLower.isPrefixOf_eq hword.2
  rw [keyword, bind_apply, bind_apply, letters_eq, letters_eq, hprefix]
  by_cases hfits : word.toList.isPrefixOf (s.map Char.toLower) = true
  · have hle := (List.isPrefixOf_iff_prefix.mp hfits).length_le
    rw [List.length_map] at hle
    have hdrop := h.drop hle
    have hlength : (s.drop word.toList.length).length + 1 ≤ s.length := by
      have hpos := List.length_pos_iff.mpr hword.1
      rw [List.length_drop]
      omega
    rw [if_pos hfits, if_pos hfits]
    refine ⟨_, _, hdrop, Nat.le_of_add_right_le hlength, ?_⟩
    have hno : AvoidsTail isWordChar := by decide
    rcases notNext_extends hno hdrop with ⟨h, h'⟩ | ⟨h, h'⟩
    · exact Or.inl ⟨h, h', hlength⟩
    · exact Or.inr ⟨h, h'⟩
  · rw [if_neg hfits, if_neg hfits]
    exact ⟨s, s', h, Nat.le_refl _, Or.inr ⟨rfl, rfl⟩⟩

theorem follows_keyword {word : String} (hword : IsSolid word.toList) :
    Follows b 1 L (keyword word) (keyword word) := by
  intro s s' hs hext
  obtain ⟨r, r', hr, -, ⟨h, h', hlength⟩ | ⟨h, h'⟩⟩ := keyword_extends word hword hext
  · rw [h, h']
    exact .ok hr hlength
  · rw [h, h']
    exact .miss

theorem follows_word {first further : Char → Bool} (hfirst : AvoidsTail first)
    (hfurther : AvoidsTail further) : Follows b 1 L (word first further) (word first further) :=
  follows_bind_pred (follows_satisfy hfirst) fun _ => follows_map (follows_span hfurther)

theorem follows_ident : Follows b 1 L ident ident := follows_word (by decide) (by decide)

theorem follows_name : Follows b 1 L name name := follows_word (by decide) (by decide)

theorem follows_digits : Follows b 1 L digits digits :=
  follows_bind_pred (follows_satisfy (by decide)) fun _ => follows_map (follows_span (by decide))

theorem rawText_quote {quote c : Char} (hquote : (c == quote) = true) (s : List Char) :
    rawText quote (c :: s) = .ok [] (c :: s) := by
  simp only [rawText.eq_def quote (c :: s), hquote, if_true]

theorem rawText_escaped {quote c d : Char} (hquote : (c == quote) = false) (hc : (c == '\\') = true)
    (s : List Char) :
    rawText quote (c :: d :: s) = (rawText quote s).map fun raw => c :: d :: raw := by
  simp only [rawText.eq_def quote (c :: d :: s), hquote, hc, Bool.false_eq_true, if_false, if_true]
  cases rawText quote s <;> rfl

theorem rawText_plain {quote c : Char} (hquote : (c == quote) = false) (hc : (c == '\\') = false)
    (s : List Char) : rawText quote (c :: s) = (rawText quote s).map (c :: ·) := by
  simp only [rawText.eq_def quote (c :: s), hquote, hc, Bool.false_eq_true, if_false]
  cases rawText quote s <;> rfl

/-- A string that is not closed is not closed by what follows. -/
theorem follows_rawText (q : Quote) : Follows b 0 L (rawText q.mark) (rawText q.mark) := by
  intro s s' hs hext
  clear hs
  induction hn : s.length using Nat.strongRecOn generalizing s s' with
  | ind n ih =>
    subst hn
    cases s with
    | nil =>
      cases hext with
      | same => exact .miss
      | closed => cases q <;> exact .miss
      | atBrace => cases q <;> exact .miss
    | cons c s =>
      obtain ⟨t, rfl, ht⟩ := hext.exists_cons
      by_cases hquote : (c == q.mark) = true
      · rw [rawText_quote hquote, rawText_quote hquote]
        exact .ok hext (Nat.le_refl _)
      · rw [Bool.not_eq_true] at hquote
        by_cases hslash : (c == '\\') = true
        · cases s with
          | nil =>
            -- the backslash takes the line feed with it, and the brace closes no string
            have hmiss : rawText q.mark [c] = .miss [] := by
              simp only [rawText, hquote, hslash, Bool.false_eq_true, if_false, if_true]
            rw [hmiss]
            cases ht with
            | same =>
              rw [hmiss]
              exact .miss
            | closed =>
              rw [List.nil_append, rawText_escaped hquote hslash]
              cases q <;> exact .miss
            | atBrace =>
              rw [rawText_escaped hquote hslash]
              exact .miss
          | cons d s =>
            obtain ⟨u, rfl, hu⟩ := ht.exists_cons
            rw [rawText_escaped hquote hslash, rawText_escaped hquote hslash]
            have hlt : s.length < (c :: d :: s).length := by
              rw [List.length_cons, List.length_cons]
              omega
            exact ((ih s.length hlt hu rfl).mono (by omega)).map
        · rw [Bool.not_eq_true] at hslash
          rw [rawText_plain hquote hslash, rawText_plain hquote hslash]
          have hlt : s.length < (c :: s).length := Nat.lt_succ_self _
          exact ((ih s.length hlt ht rfl).mono (by omega)).map

theorem follows_quotedBy (q : Quote) : Follows b 1 L (quotedBy q) (quotedBy q) := by
  have hmark : isTail q.mark = false := by cases q <;> decide
  exact follows_bind_pred (follows_char hmark) fun _ => follows_bind (follows_rawText q) fun _ =>
    follows_map (follows_char hmark).weaken

theorem follows_literal : Follows b 1 L literal literal := by
  refine follows_orElse (follows_map (follows_keyword (by decide)))
    (follows_orElse (follows_map (follows_keyword (by decide)))
      (follows_orElse (follows_map (follows_keyword (by decide)))
        (follows_orElse ?_ (follows_orElse (follows_map follows_digits)
          (follows_orElse (follows_quotedBy _) (follows_quotedBy _))))))
  exact follows_bind_pred follows_digits fun _ =>
    follows_bind (follows_char rfl).weaken fun _ => follows_map follows_digits.weaken

end Reader

end Casework
