import Casework.Proofs.Precedence

/-!
# Layout and parentheses around expressions

The text of an expression can be spaced out: between its tokens gaps are put in, and
any of its parts is put in further parentheses.  What is added is told node by node.
A spacing gives for each node, addressed by the way to it from the root, the gaps on
the inner sides of the parentheses that the printer writes around it, the pairs of
parentheses added around it, and the gaps between the tokens of the node itself.

However an expression is spaced out, the reader sees the same expression: each of
these texts is one of the ways to write it.

## Main definitions

* `Piece`, `Gap` — layout and complete comments, and gaps made of them.
* `Trim`, `Spacing` — what is added at one node, and at all of them.
* `Expr.spaced` — the text of an expression with what a spacing adds inside it.
* `Expr.spacedOut` — the same within the parentheses added around the whole.

## Main results

* `Gap.isGap` — reading passes over a gap and finds its comments.
* `Expr.spaced_plain` — where nothing is added, the text is that of the printer.
* `Expr.written_spaced` — a spaced text is one of the ways to write its expression.
* `Expr.parse_spacedOut` — **layout, comments and redundant parentheses do not change
  the expression that is read**.
-/

namespace Casework

/-! ### Gaps piece by piece -/

/-- What a gap is made of. -/
inductive Piece where
  /-- A space, a tab or an end of line. -/
  | layout (c : Char) (blank : isLayout c = true)
  /-- A comment between `/*` and `*/`, given by what stands behind its opening. -/
  | block (text : List Char) (closed : closesAtEnd text = true)
  /-- A comment behind `//` with the end of its line. -/
  | slashes (text : List Char) (lineEnd : Char) (inLine : text.all (!isLineEnd ·) = true)
      (ended : isLineEnd lineEnd = true)
  /-- A comment behind `#` with the end of its line; `#[` opens none. -/
  | hash (text : List Char) (lineEnd : Char) (inLine : text.all (!isLineEnd ·) = true)
      (ended : isLineEnd lineEnd = true) (opens : text.head? ≠ some '[')

namespace Piece

/-- The characters of the piece. -/
def text : Piece → List Char
  | layout c _ => [c]
  | block text _ => '/' :: '*' :: text
  | slashes text lineEnd _ _ => '/' :: '/' :: text ++ [lineEnd]
  | hash text lineEnd _ _ _ => '#' :: text ++ [lineEnd]

/-- The comment that the piece is, if it is one. -/
def comments : Piece → List Comment
  | layout _ _ => []
  | block text _ => [.ofChars ('/' :: '*' :: text)]
  | slashes text _ _ _ => [.ofChars ('/' :: '/' :: text)]
  | hash text _ _ _ _ => [.ofChars ('#' :: text)]

theorem text_ne_nil (piece : Piece) : piece.text ≠ [] := by
  cases piece <;> nofun

/-- Each piece is a gap. -/
theorem isGap (piece : Piece) : IsGap piece.text piece.comments := by
  cases piece with
  | layout c blank => exact isGap_layout blank
  | block text closed =>
    have hgap := isGap_of_commentAt? (t := '/' :: '*' :: text) isGap_nil fun rest => by
      rw [List.nil_append, List.cons_append, List.cons_append, commentAt?,
        throughClose?_append closed]
      rfl
    rwa [List.append_nil] at hgap
  | slashes text lineEnd inLine ended =>
    refine isGap_of_commentAt? (isGap_layout (isLayout_of_isLineEnd ended)) fun rest => ?_
    rw [List.singleton_append, List.cons_append, List.cons_append, commentAt?,
      takeWhile_line inLine ended]
  | hash text lineEnd inLine ended opens =>
    refine isGap_of_commentAt? (isGap_layout (isLayout_of_isLineEnd ended)) fun rest => ?_
    rw [List.singleton_append, List.cons_append, commentAt?.eq_4, takeWhile_line inLine ended]
    -- no bracket comes next, neither from the comment nor from the end of its line
    intro s hs
    cases text with
    | nil =>
      rw [List.nil_append, List.cons.injEq] at hs
      rw [hs.1] at ended
      cases ended
    | cons c text =>
      rw [List.cons_append, List.cons.injEq] at hs
      exact opens (by rw [hs.1, List.head?_cons])

end Piece

/-- Any sequence of layout and complete comments. -/
abbrev Gap := List Piece

namespace Gap

/-- The characters of the gap. -/
def text (g : Gap) : List Char := g.flatMap Piece.text

/-- The comments in the gap. -/
def comments (g : Gap) : List Comment := g.flatMap Piece.comments

/-- Reading passes over a gap and finds its comments. -/
theorem isGap (g : Gap) : IsGap g.text g.comments := by
  induction g with
  | nil => exact isGap_nil
  | cons piece g ih => exact piece.isGap.append ih

end Gap

/-! ### Spacings -/

/-- What is added to the text of one node. -/
structure Trim where
  /-- The gaps within the parentheses that the printer writes around the node, if it
  writes any. -/
  own : Gap × Gap
  /-- The parentheses added around the node, from the innermost pair out, with the
  gaps within each. -/
  extra : List (Gap × Gap)
  /-- The gaps between the tokens of the node, in the order of its text. -/
  gap : Nat → Gap

/-- What is added at each node, which is addressed by the numbers of the operands on
the way to it. -/
def Spacing := List Nat → Trim

namespace Spacing

/-- What is added in the operand of the given number. -/
def operand (σ : Spacing) (i : Nat) : Spacing := fun way => σ (i :: way)

/-- What is added at the node itself. -/
def here (σ : Spacing) : Trim := σ []

/-- Nothing is added. -/
def plain : Spacing := fun _ => ⟨([], []), [], fun _ => []⟩

@[simp] theorem operand_plain (i : Nat) : plain.operand i = plain := rfl

end Spacing

/-- The text in pairs of parentheses, the first of them innermost. -/
def enclose : List (Gap × Gap) → List Char → List Char
  | [], t => t
  | (g, h) :: pairs, t => enclose pairs ('(' :: (g.text ++ (t ++ (h.text ++ [')']))))

namespace Expr

/-- The text of an operand in its place: in the parentheses that the place asks for,
if any, and in those that are added. -/
def inPlace (place : Place) (strength : Nat) (trim : Trim) (t : List Char) : List Char :=
  enclose (if place.admits strength then trim.extra else trim.own :: trim.extra) t

mutual

/-- The text of an expression with what the spacing adds inside it. -/
def spaced : Expr → Spacing → List Char
  | array items, σ =>
    '[' :: ((σ.here.gap 0).text ++ (separated (spacedItems items σ 0) ++ [']']))
  | binary op a b, σ =>
    inPlace (leftPlace op) a.precedence (σ.operand 0).here (a.spaced (σ.operand 0)) ++ ' ' ::
      ((σ.here.gap 0).text ++ (op.text ++ ' ' :: ((σ.here.gap 1).text ++
        inPlace (.above op.precedence) b.precedence (σ.operand 1).here (b.spaced (σ.operand 1)))))
  | unary op a, σ =>
    op.text ++ ((σ.here.gap 0).text ++
      inPlace (.above 11) a.precedence (σ.operand 0).here (a.spaced (σ.operand 0)))
  | assign a b, σ =>
    inPlace (.above 1) a.precedence (σ.operand 0).here (a.spaced (σ.operand 0)) ++ ' ' ::
      ((σ.here.gap 0).text ++ '=' :: ' ' :: ((σ.here.gap 1).text ++
        inPlace (.atLeast 1) b.precedence (σ.operand 1).here (b.spaced (σ.operand 1))))
  | ternary a b c, σ =>
    inPlace (.above 2) a.precedence (σ.operand 0).here (a.spaced (σ.operand 0)) ++ ' ' ::
      ((σ.here.gap 0).text ++ '?' :: ' ' :: ((σ.here.gap 1).text ++
        (enclose (σ.operand 1).here.extra (b.spaced (σ.operand 1)) ++ ' ' ::
          ((σ.here.gap 2).text ++ ':' :: ' ' :: ((σ.here.gap 3).text ++
            inPlace (.above 2) c.precedence (σ.operand 2).here (c.spaced (σ.operand 2)))))))
  | call f args, σ =>
    inPlace (.atLeast 12) f.precedence (σ.operand 0).here (f.spaced (σ.operand 0)) ++ '(' ::
      ((σ.here.gap 0).text ++ (separated (spacedItems args σ 1) ++ [')']))
  | index a i, σ =>
    inPlace (.atLeast 12) a.precedence (σ.operand 0).here (a.spaced (σ.operand 0)) ++ '[' ::
      ((σ.here.gap 0).text ++ (enclose (σ.operand 1).here.extra (i.spaced (σ.operand 1)) ++
        ((σ.here.gap 1).text ++ [']'])))
  | prop a x, σ =>
    inPlace (.atLeast 12) a.precedence (σ.operand 0).here (a.spaced (σ.operand 0)) ++
      '-' :: '>' :: x.toList
  -- nothing is added inside the other expressions
  | var x, _ => (var x).text
  | name x, _ => (name x).text
  | lit l, _ => (lit l).text
  | «match» s arms, _ => («match» s arms).text

/-- The text of each item of a list with the gaps on its sides; the first item is the
operand of the given number. -/
def spacedItems : List Expr → Spacing → Nat → List (List Char)
  | [], _, _ => []
  | e :: es, σ, i =>
    ((σ.here.gap (2 * i + 1)).text ++
      (enclose (σ.operand i).here.extra (e.spaced (σ.operand i)) ++
        (σ.here.gap (2 * i + 2)).text)) :: spacedItems es σ (i + 1)

end

/-- The text of an expression with what the spacing adds, inside it and around it. -/
def spacedOut (e : Expr) (σ : Spacing) : List Char := enclose σ.here.extra (e.spaced σ)

/-! ### Nothing added -/

@[simp] theorem inPlace_plain (place : Place) (strength : Nat) (t : List Char) :
    inPlace place strength Spacing.plain.here t = bracket place strength t := by
  cases h : place.admits strength with
  | true => simp [inPlace, h, Spacing.here, Spacing.plain, enclose]
  | false => simp [inPlace, h, Spacing.here, Spacing.plain, enclose, Gap.text]

@[simp] theorem gap_plain (i : Nat) : (Spacing.plain.here.gap i).text = [] := rfl

@[simp] theorem enclose_plain (t : List Char) : enclose Spacing.plain.here.extra t = t := rfl

mutual

/-- Where nothing is added, the text is that of the printer. -/
theorem spaced_plain : ∀ e : Expr, e.spaced .plain = e.text
  | var _ | name _ | lit _ | «match» _ _ => rfl
  | array items => by simp [spaced, text, spacedItems_plain items 0]
  | binary op a b => by simp [spaced, text, spaced_plain a, spaced_plain b]
  | unary op a => by simp [spaced, text, spaced_plain a]
  | assign a b => by simp [spaced, text, spaced_plain a, spaced_plain b]
  | ternary a b c => by simp [spaced, text, spaced_plain a, spaced_plain b, spaced_plain c]
  | call f args => by simp [spaced, text, spaced_plain f, spacedItems_plain args 1]
  | index a i => by simp [spaced, text, spaced_plain a, spaced_plain i]
  | prop a x => by simp [spaced, text, spaced_plain a]

theorem spacedItems_plain : ∀ (es : List Expr) (i : Nat), spacedItems es .plain i = es.map text
  | [], _ => rfl
  | e :: es, i => by simp [spacedItems, spaced_plain e, spacedItems_plain es (i + 1)]

end

theorem spacedOut_plain (e : Expr) : e.spacedOut .plain = e.text := e.spaced_plain

/-! ### Spaced texts are ways to write -/

variable {e : Expr} {q : Nat} {t : List Char}

/-- In parentheses an expression binds as tight as can be, and without any its text
stays. -/
theorem exists_written_enclose (pairs : List (Gap × Gap)) (h : Written q e t) :
    ∃ p, Written p e (enclose pairs t) ∧ (p = 13 ∨ pairs = [] ∧ p = q) := by
  induction pairs generalizing q t with
  | nil => exact ⟨q, h, Or.inr ⟨rfl, rfl⟩⟩
  | cons pair pairs ih =>
    obtain ⟨p, hp, hpq⟩ := ih (.paren pair.1.isGap h pair.2.isGap)
    refine ⟨p, hp, Or.inl ?_⟩
    rcases hpq with hpq | ⟨-, hpq⟩ <;> exact hpq

/-- An operand in its place binds as tight as the place asks for. -/
theorem exists_written_inPlace (place : Place) (trim : Trim) (h : Written q e t)
    (hplace : place.admits 13 = true) :
    ∃ p, Written p e (inPlace place q trim t) ∧ place.admits p = true := by
  obtain ⟨p, hp, hpq⟩ := exists_written_enclose
    (if place.admits q then trim.extra else trim.own :: trim.extra) h
  refine ⟨p, hp, ?_⟩
  rcases hpq with rfl | ⟨hnil, rfl⟩
  · exact hplace
  · -- no parentheses are written only where the place admits the operand
    split at hnil
    · next hadmits => exact hadmits
    · cases hnil

/-- Behind a gap a text begins as before, or with the gap. -/
theorem head?_gap_append_ne {g : List Char} {k : List Comment} (hg : IsGap g k)
    (ht : t.head? ≠ some '-') : (g ++ t).head? ≠ some '-' := by
  cases g with
  | nil => exact ht
  | cons c g =>
    intro h
    obtain rfl : c = '-' := Option.some.inj h
    exact absurd hg.isGapStart_of_cons (by decide)

mutual

/-- A spaced text is one of the ways to write its expression, and it binds as tight
as the expression. -/
theorem written_spaced : ∀ (e : Expr) (σ : Spacing), e.validBy Literal.lexical = true →
    Written e.precedence e (e.spaced σ)
  | var x, σ, h => written_text (var x) h
  | name x, σ, h => written_text (name x) h
  | lit l, σ, h => written_text (lit l) h
  | array items, σ, h => by
    rw [validBy] at h
    have hitems := (items_spaced items σ 0 h).gap_append (σ.here.gap 0).isGap
    rw [spaced, ← List.append_assoc]
    exact .array hitems
  | binary op a b, σ, h => by
    rw [validBy, Bool.and_eq_true] at h
    obtain ⟨p, ha, hp⟩ := exists_written_inPlace (leftPlace op) (σ.operand 0).here
      (written_spaced a (σ.operand 0) h.1) (admits_leftPlace op)
    have habove : (Place.above op.precedence).admits 13 = true := by cases op <;> decide
    obtain ⟨q, hb, hq⟩ := exists_written_inPlace _ (σ.operand 1).here
      (written_spaced b (σ.operand 1) h.2) habove
    rw [spaced]
    exact .binary op ha hp (σ.here.gap 0).isGap (σ.here.gap 1).isGap hb (of_decide_eq_true hq)
  | unary op a, σ, h => by
    rw [validBy] at h
    obtain ⟨q, ha, hq⟩ := exists_written_inPlace (.above 11) (σ.operand 0).here
      (written_spaced a (σ.operand 0) h) rfl
    have hq := of_decide_eq_true hq
    have hhead : (inPlace (.above 11) a.precedence (σ.operand 0).here
        (a.spaced (σ.operand 0))).head? ≠ some '-' := by
      obtain ⟨c, s, heq, -, hne⟩ := ha.exists_cons
      rw [heq]
      exact fun h => (hne hq).2 (Option.some.inj h)
    rw [spaced]
    exact .unary op (σ.here.gap 0).isGap ha (Nat.le_of_lt hq) fun _ =>
      head?_gap_append_ne (σ.here.gap 0).isGap hhead
  | assign a b, σ, h => by
    rw [validBy, Bool.and_eq_true] at h
    obtain ⟨p, ha, hp⟩ := exists_written_inPlace (.above 1) (σ.operand 0).here
      (written_spaced a (σ.operand 0) h.1) rfl
    obtain ⟨q, hb, -⟩ := exists_written_inPlace (.atLeast 1) (σ.operand 1).here
      (written_spaced b (σ.operand 1) h.2) rfl
    rw [spaced]
    exact .assign ha (of_decide_eq_true hp) (σ.here.gap 0).isGap (σ.here.gap 1).isGap hb
  | ternary a b c, σ, h => by
    rw [validBy, Bool.and_eq_true, Bool.and_eq_true] at h
    obtain ⟨o, ha, ho⟩ := exists_written_inPlace (.above 2) (σ.operand 0).here
      (written_spaced a (σ.operand 0) h.1.1) rfl
    obtain ⟨p, hb, -⟩ := exists_written_enclose (σ.operand 1).here.extra
      (written_spaced b (σ.operand 1) h.1.2)
    obtain ⟨q, hc, hq⟩ := exists_written_inPlace (.above 2) (σ.operand 2).here
      (written_spaced c (σ.operand 2) h.2) rfl
    rw [spaced]
    exact .ternary ha (of_decide_eq_true ho) (σ.here.gap 0).isGap (σ.here.gap 1).isGap hb
      (σ.here.gap 2).isGap (σ.here.gap 3).isGap hc (of_decide_eq_true hq)
  | call f args, σ, h => by
    rw [validBy, Bool.and_eq_true] at h
    obtain ⟨q, hf, hq⟩ := exists_written_inPlace (.atLeast 12) (σ.operand 0).here
      (written_spaced f (σ.operand 0) h.1) rfl
    have hargs := (items_spaced args σ 1 h.2).gap_append (σ.here.gap 0).isGap
    rw [spaced, ← List.append_assoc (σ.here.gap 0).text]
    exact .call hf (of_decide_eq_true hq) hargs
  | index a i, σ, h => by
    rw [validBy, Bool.and_eq_true] at h
    obtain ⟨q, ha, hq⟩ := exists_written_inPlace (.atLeast 12) (σ.operand 0).here
      (written_spaced a (σ.operand 0) h.1) rfl
    obtain ⟨p, hi, -⟩ := exists_written_enclose (σ.operand 1).here.extra
      (written_spaced i (σ.operand 1) h.2)
    rw [spaced]
    exact .index ha (of_decide_eq_true hq) (σ.here.gap 0).isGap hi (σ.here.gap 1).isGap
  | prop a x, σ, h => by
    rw [validBy, Bool.and_eq_true] at h
    obtain ⟨q, ha, hq⟩ := exists_written_inPlace (.atLeast 12) (σ.operand 0).here
      (written_spaced a (σ.operand 0) h.1) rfl
    rw [spaced]
    exact .prop ha (of_decide_eq_true hq) h.2
  | «match» _ _, _, h => by cases h

theorem items_spaced : ∀ (es : List Expr) (σ : Spacing) (i : Nat),
    validListBy Literal.lexical es = true → Items Written es (separated (spacedItems es σ i))
  | [], _, _, _ => .nil isGap_nil
  | [e], σ, i, h => by
    rw [validListBy, Bool.and_eq_true] at h
    obtain ⟨q, he, -⟩ := exists_written_enclose (σ.operand i).here.extra
      (written_spaced e (σ.operand i) h.1)
    exact .one (σ.here.gap (2 * i + 1)).isGap he (σ.here.gap (2 * i + 2)).isGap
  | e :: e' :: es, σ, i, h => by
    rw [validListBy, Bool.and_eq_true] at h
    obtain ⟨q, he, -⟩ := exists_written_enclose (σ.operand i).here.extra
      (written_spaced e (σ.operand i) h.1)
    have hes := items_spaced (e' :: es) σ (i + 1) h.2
    rw [spacedItems] at hes ⊢
    rw [spacedItems, separated_cons_cons, List.append_assoc, List.append_assoc]
    exact .cons (σ.here.gap (2 * i + 1)).isGap he (σ.here.gap (2 * i + 2)).isGap hes

end

/-! ### Reading spaced texts -/

/-- Every expression ends before a gap that ends the text. -/
theorem ends_of_isGap {g : List Char} {k : List Comment} (hg : IsGap g k) : Ends 0 g := by
  have hahead : ahead g = [] := by
    have hend := hg.ahead_append []
    rwa [List.append_nil] at hend
  have hapart : Apart g := by
    cases g with
    | nil => exact apart_nil
    | cons c g => exact apart_of_isGapStart hg.isGapStart_of_cons g
  constructor
  · exact hapart
  · intro _
    rw [hahead]
    decide
  · intro level _
    rw [hahead]
    exact ends_nil.noOperator level (Nat.zero_le _)
  · intro _
    rw [hahead]
    decide
  · intro _
    rw [hahead]
    decide

/-- A text of an expression, in gaps, reads as the expression. -/
theorem parse_of_written {g h : List Char} {j k : List Comment} (hg : IsGap g j)
    (hwritten : Written q e t) (hh : IsGap h k) :
    Expr.parse (String.ofList (g ++ (t ++ h))) = .ok e := by
  have hlength : t.length < (g ++ (t ++ h)).length + 1 := by
    simp only [List.length_append]
    omega
  have hread := hwritten.expr_ok hlength (ends_of_isGap hh)
  have hexpr : Reader.expr ((g ++ (t ++ h)).length + 1) (g ++ (t ++ h)) = .ok e h := by
    rw [← hread]
    exact Reader.expression_gap hg _ .whole (t ++ h)
  have hahead : ahead h = [] := by
    have hend := hh.ahead_append []
    rwa [List.append_nil] at hend
  rw [parse_of_expr_ok hexpr, hahead]
  rfl

/-- **Layout, comments and redundant parentheses do not change the expression that is
read**: neither gaps between the tokens nor further parentheses around the parts, nor
gaps around the whole. -/
theorem parse_spacedOut (e : Expr) (h : e.lexical = true) (σ : Spacing) (front back : Gap) :
    Expr.parse (String.ofList (front.text ++ (e.spacedOut σ ++ back.text))) =
        Expr.parse (String.ofList e.text) ∧
      Expr.parse (String.ofList e.text) = .ok e := by
  have htext := parse_ofList_text e h
  obtain ⟨p, hwritten, -⟩ := exists_written_enclose σ.here.extra (written_spaced e σ h)
  rw [htext]
  exact ⟨parse_of_written front.isGap hwritten back.isGap, rfl⟩

/-- The expression `-$a / ($b + 1)`, read from a text with comments, ends of lines and a
pair of parentheses more. -/
theorem parse_spacedOut_quotient :
    let e := binary .div (unary .neg (var "a")) (binary .add (var "b") (lit (.int 1)))
    let space : Piece := .layout ' ' (by decide)
    let σ : Spacing := fun way =>
      { own := ([space], [.layout '\t' (by decide)])
        extra := if way = [0] then [([], [space])] else []
        gap := fun i =>
          if way = [0] then [.slashes " sign".toList '\n' (by decide) (by decide)]
          else if way = [] ∧ i = 1 then
            [.hash " by".toList '\r' (by decide) (by decide) (by decide)]
          else [] }
    let front : Gap := [.block "quotient*/".toList (by decide), space]
    e.lexical = true ∧
      front.text ++ (e.spacedOut σ ++ Gap.text []) =
        "/*quotient*/ (-// sign\n$a ) / # by\r( $b + 1\t)".toList ∧
      Expr.parse (String.ofList (front.text ++ (e.spacedOut σ ++ Gap.text []))) =
        Expr.parse (String.ofList e.text) :=
  ⟨by decide, by decide, (parse_spacedOut _ (by decide) _ _ []).1⟩

end Expr

end Casework
