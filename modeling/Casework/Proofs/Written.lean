import Casework.Proofs.Tower

/-!
# Texts of expressions

An expression can be written in many ways: with more parentheses than it needs
and with gaps between its tokens.  All of them are collected in one relation
between expressions and texts, which also keeps how tight a text binds, because
this decides where the text may stand as an operand.

Every such text reads back as its expression.  The proof is by the length of the
text.  A text is read at the tier of its own strength and passes from there
through the looser ones; where operators chain, the tier has read the left
operand when it comes to the operator, and grows it by the right one.

## Main definitions

* `Items` — texts with commas between them, with gaps around them.
* `Written` — the expression may be written as the text, which binds as tight as
  the given strength.

## Main results

* `Written.bare` — how a text that binds tight begins.
* `Written.tier_ok` — **a text is read back at every tier it may stand at**.
* `Written.expression_ok` — a text is read back as a nested expression.
-/

namespace Casework

/-! ### The relation -/

/-- The text holds the given expressions with commas between them; what may stand
for one expression is given. -/
inductive Items (W : Nat → Expr → List Char → Prop) : List Expr → List Char → Prop
  | nil {g k} (hg : IsGap g k) : Items W [] g
  | one {g h t : List Char} {j k q e} (hg : IsGap g j) (he : W q e t) (hh : IsGap h k) :
      Items W [e] (g ++ (t ++ h))
  | cons {g h t u : List Char} {j k q e f es} (hg : IsGap g j) (he : W q e t) (hh : IsGap h k)
      (hes : Items W (f :: es) u) : Items W (e :: f :: es) (g ++ (t ++ (h ++ ',' :: ' ' :: u)))

/-- The expression may be written as the text, and the text binds as tight as the
given strength. -/
inductive Written : Nat → Expr → List Char → Prop
  | var {x : String} (hx : isIdentifier x = true) : Written 13 (.var x) ('$' :: x.toList)
  | name {x : String} (hx : isName x = true) : Written 13 (.name x) x.toList
  | lit {l : Literal} (hl : l.lexical = true) : Written 13 (.lit l) l.text
  | array {es t} (hes : Items Written es t) : Written 13 (.array es) ('[' :: (t ++ [']']))
  | paren {g h t : List Char} {j k q e} (hg : IsGap g j) (he : Written q e t) (hh : IsGap h k) :
      Written 13 e ('(' :: (g ++ (t ++ (h ++ [')']))))
  | call {t u : List Char} {q f args} (hf : Written q f t) (hq : 12 ≤ q)
      (hargs : Items Written args u) : Written 12 (.call f args) (t ++ '(' :: (u ++ [')']))
  | index {g h t u : List Char} {j k p q e i} (he : Written q e t) (hq : 12 ≤ q) (hg : IsGap g j)
      (hi : Written p i u) (hh : IsGap h k) :
      Written 12 (.index e i) (t ++ '[' :: (g ++ (u ++ (h ++ [']']))))
  | prop {t : List Char} {q e} {x : String} (he : Written q e t) (hq : 12 ≤ q)
      (hx : isIdentifier x = true) : Written 12 (.prop e x) (t ++ '-' :: '>' :: x.toList)
  | unary {g t : List Char} {k q e} (op : UnaryOp) (hg : IsGap g k) (he : Written q e t)
      (hq : 11 ≤ q) (hop : op = .neg → (g ++ t).head? ≠ some '-') :
      Written 11 (.unary op e) (op.text ++ (g ++ t))
  | binary {g h t u : List Char} {j k p q a b} (op : BinOp) (ha : Written p a t)
      (hp : (Expr.leftPlace op).admits p = true) (hg : IsGap g j) (hh : IsGap h k)
      (hb : Written q b u) (hq : op.precedence < q) :
      Written op.precedence (.binary op a b) (t ++ ' ' :: (g ++ (op.text ++ ' ' :: (h ++ u))))
  | ternary {g h i j t u v : List Char} {k l m n o p q a b c} (ha : Written o a t) (ho : 2 < o)
      (hg : IsGap g k) (hh : IsGap h l) (hb : Written p b u) (hi : IsGap i m) (hj : IsGap j n)
      (hc : Written q c v) (hq : 2 < q) : Written 2 (.ternary a b c)
        (t ++ ' ' :: (g ++ '?' :: ' ' :: (h ++ (u ++ ' ' :: (i ++ ':' :: ' ' :: (j ++ v))))))
  | assign {g h t u : List Char} {j k p q a b} (ha : Written p a t) (hp : 1 < p) (hg : IsGap g j)
      (hh : IsGap h k) (hb : Written q b u) :
      Written 1 (.assign a b) (t ++ ' ' :: (g ++ '=' :: ' ' :: (h ++ u)))

/-- A gap may stand before a list. -/
theorem Items.gap_append {W : Nat → Expr → List Char → Prop} {es : List Expr} {g t : List Char}
    {k : List Comment} (h : Items W es t) (hg : IsGap g k) : Items W es (g ++ t) := by
  cases h with
  | nil hh => exact .nil (hg.append hh)
  | one hg' he hh =>
    rw [← List.append_assoc]
    exact .one (hg.append hg') he hh
  | cons hg' he hh hes =>
    rw [← List.append_assoc]
    exact .cons (hg.append hg') he hh hes

variable {p q n : Nat} {e : Expr} {t r : List Char}

/-- What holds of a text when it holds of the shorter ones holds of all. -/
theorem Written.byLength {motive : ∀ q e t, Written q e t → Prop}
    (step : ∀ q e t (h : Written q e t),
      (∀ {p a s} (hs : Written p a s), s.length < t.length → motive p a s hs) → motive q e t h)
    (h : Written q e t) : motive q e t h := by
  generalize hn : t.length = n
  induction n using Nat.strongRecOn generalizing q e t with
  | ind n ih =>
    subst hn
    exact step q e t h fun hs hlt => ih _ hlt hs rfl

/-! ### How a text begins -/

theorem Written.le_strength (h : Written q e t) : 1 ≤ q ∧ q ≤ 13 := by
  cases h with
  | binary op => cases op <;> decide
  | _ => decide

theorem ne_of_isNameChar {c : Char} (hc : isNameChar c = true) : c ≠ '!' ∧ c ≠ '-' := by
  constructor <;> rintro rfl <;> cases hc

theorem isOperandStart_of_isNameChar {c : Char} (hc : isNameChar c = true) :
    Reader.isOperandStart c = true := by
  simp only [isNameChar, isWordChar, Char.isAlphanum, Bool.or_eq_true] at hc
  rcases hc with ((hc | hc) | hc) | hc <;>
    simp [Reader.isOperandStart, Reader.isPrimaryStart, Reader.isAtomStart, isNameStart,
      isWordStart, hc]

theorem isGapStart_of_isOperandStart {c : Char} (hc : Reader.isOperandStart c = true) :
    isGapStart c = false := by
  rw [Bool.eq_false_iff]
  intro hgap
  simp only [isGapStart, isLayout, Bool.or_eq_true, beq_iff_eq] at hgap
  rcases hgap with ((((rfl | rfl) | rfl) | rfl) | rfl) | rfl <;> cases hc

/-- A literal is a word, or it begins with a quotation mark or a digit. -/
theorem Literal.text_mem_or_exists_cons {l : Literal} (hl : l.lexical = true) :
    l.text ∈ ["true", "false", "null"].map String.toList ∨
      ∃ c s, l.text = c :: s ∧ (c = '\'' ∨ c = '"' ∨ c.isDigit = true) := by
  have hdigits : ∀ {ds s : List Char}, ds ≠ [] → (∀ c ∈ ds, c.isDigit = true) →
      ∃ c u, ds ++ s = c :: u ∧ (c = '\'' ∨ c = '"' ∨ c.isDigit = true) := by
    intro ds s hne hds
    cases ds with
    | nil => exact absurd rfl hne
    | cons c ds => exact ⟨c, ds ++ s, rfl, Or.inr (Or.inr (hds c List.mem_cons_self))⟩
  cases l with
  | int n =>
    have hn : ¬ n.toInt < 0 := Int.not_lt.mpr (of_decide_eq_true hl)
    rw [Literal.text, intText, if_neg hn, ← List.append_nil (natText _)]
    exact Or.inr (hdigits (Magnitude.natText_ne_nil _) fun c hc =>
      Magnitude.isDigit_of_mem_natText hc)
  | float x =>
    cases x with
    | finite negative m =>
      obtain rfl : negative = false := Bool.not_eq_true' _ |>.mp hl
      obtain ⟨whole, fraction, htext, hwne, -, hw, -⟩ := Magnitude.exists_text_eq m
      have heq : (Literal.float (.finite false m)).text = whole ++ '.' :: fraction := by
        simp [Literal.text, Double.text, htext]
      rw [heq]
      exact Or.inr (hdigits hwne hw)
    | infinite _ => cases hl
    | nan => cases hl
  | str q raw =>
    cases q with
    | single => exact Or.inr ⟨_, _, rfl, Or.inl rfl⟩
    | double => exact Or.inr ⟨_, _, rfl, Or.inr (Or.inl rfl)⟩
  | bool b => cases b <;> exact Or.inl (by decide)
  | null => exact Or.inl (by decide)

/-- A literal begins with a quotation mark, a digit or a letter. -/
theorem Literal.exists_text_eq_cons {l : Literal} (hl : l.lexical = true) :
    ∃ c s, l.text = c :: s ∧ (c = '\'' ∨ c = '"' ∨ isNameChar c = true) := by
  rcases Literal.text_mem_or_exists_cons hl with hmem | ⟨c, s, hs, hc⟩
  · simp only [List.map_cons, List.map_nil, List.mem_cons, List.not_mem_nil, or_false] at hmem
    rcases hmem with hs | hs | hs <;> exact ⟨_, _, hs, Or.inr (Or.inr (by decide))⟩
  · refine ⟨c, s, hs, hc.imp_right (Or.imp_right fun hc => ?_)⟩
    exact isNameChar_of_isWordChar (isWordChar_of_isDigit hc)

/-- A text begins with a character that an expression may begin with, and when it
binds tighter than a unary operator, with none of those operators. -/
theorem Written.exists_cons (h : Written q e t) :
    ∃ c s, t = c :: s ∧ Reader.isOperandStart c = true ∧ (11 < q → c ≠ '!' ∧ c ≠ '-') := by
  induction h using Written.byLength with
  | step q e t h ih =>
  cases h with
  | var hx => exact ⟨_, _, rfl, by decide, by decide⟩
  | @name x hx =>
    cases hx' : x.toList with
    | nil => simp [isName, hx'] at hx
    | cons c cs =>
      have hc := Reader.isNameChar_of_mem hx c (by simp [hx'])
      exact ⟨c, cs, rfl, isOperandStart_of_isNameChar hc, fun _ => ne_of_isNameChar hc⟩
  | lit hl =>
    obtain ⟨c, s, hs, rfl | rfl | hc⟩ := Literal.exists_text_eq_cons hl
    · exact ⟨_, s, hs, by decide, by decide⟩
    · exact ⟨_, s, hs, by decide, by decide⟩
    · exact ⟨c, s, hs, isOperandStart_of_isNameChar hc, fun _ => ne_of_isNameChar hc⟩
  | array hes => exact ⟨_, _, rfl, by decide, by decide⟩
  | paren hg he hh => exact ⟨_, _, rfl, by decide, by decide⟩
  | call hf hq hargs =>
    obtain ⟨c, s, rfl, hc, hne⟩ := ih hf (by simp)
    exact ⟨c, _, rfl, hc, fun _ => hne hq⟩
  | index he hq hg hi hh =>
    obtain ⟨c, s, rfl, hc, hne⟩ := ih he (by simp)
    exact ⟨c, _, rfl, hc, fun _ => hne hq⟩
  | prop he hq hx =>
    obtain ⟨c, s, rfl, hc, hne⟩ := ih he (by simp)
    exact ⟨c, _, rfl, hc, fun _ => hne hq⟩
  | unary op hg he hq hop =>
    cases op <;> exact ⟨_, _, rfl, by decide, by simp⟩
  | binary op ha hp hg hh hb hq =>
    obtain ⟨c, s, rfl, hc, -⟩ := ih ha (by simp)
    have hop := op.precedence_bounds
    exact ⟨c, _, rfl, hc, fun h => absurd h (by omega)⟩
  | ternary ha ho hg hh hb hi hj hc hq =>
    obtain ⟨c, s, rfl, hc, -⟩ := ih ha (by simp)
    exact ⟨c, _, rfl, hc, fun h => absurd h (by decide)⟩
  | assign ha hp hg hh hb =>
    obtain ⟨c, s, rfl, hc, -⟩ := ih ha (by simp)
    exact ⟨c, _, rfl, hc, fun h => absurd h (by decide)⟩

/-- A text stands at a token. -/
theorem Written.atToken (h : Written q e t) (r : List Char) : AtToken (t ++ r) := by
  obtain ⟨c, s, rfl, hc, -⟩ := h.exists_cons
  exact atToken_cons (isGapStart_of_isOperandStart hc) (s ++ r)

/-- A text begins with no character that an expression cannot begin with. -/
theorem Written.head?_append_ne (h : Written q e t) {c : Char}
    (hc : Reader.isOperandStart c = false) (r : List Char) : (t ++ r).head? ≠ some c := by
  obtain ⟨d, s, rfl, hd, -⟩ := h.exists_cons
  rw [List.cons_append, List.head?_cons, Ne, Option.some.injEq]
  rintro rfl
  rw [hc] at hd
  cases hd

theorem Written.bare (h : Written q e t) (hq : 11 < q) (r : List Char) :
    Reader.Bare (t ++ r) := by
  refine ⟨h.atToken r, ?_⟩
  obtain ⟨c, s, rfl, -, hne⟩ := h.exists_cons
  have := hne hq
  simpa using this

theorem Written.length_pos (h : Written q e t) : 0 < t.length := by
  obtain ⟨c, s, rfl, -⟩ := h.exists_cons
  exact Nat.succ_pos _

namespace Reader

/-! ### Lists and brackets -/

section Brackets

variable {W : Nat → Expr → List Char → Prop} {whole : Reader Expr} {es : List Expr} {c : Char}

/-- What a bracketed expression or list has to know of the texts in it: they
stand at a token and read back. -/
def Reads (whole : Reader Expr) (e : Expr) (t : List Char) : Prop :=
  (∀ r, AtToken (t ++ r)) ∧ ∀ r, Ends 0 r → whole (t ++ r) = .ok e r

/-- A list is read item by item up to the gap before the closing bracket. -/
theorem exists_items_ok (hW : ∀ {q e s}, W q e s → s.length ≤ n → Reads whole e s)
    (hc : isClosing c = true) (hcomma : c ≠ ',') (ht : Items W (e :: es) t) (hn : t.length ≤ n)
    (fuel : Nat) (hfuel : es.length < fuel) (r : List Char) :
    ∃ h k s, IsGap h k ∧ (do gap; whole : Reader Expr) (t ++ c :: r) = .ok e s ∧
      many (do (do gap; char ','); gap; whole : Reader Expr) fuel s = .ok es (h ++ c :: r) := by
  generalize hes : e :: es = items at ht
  induction ht generalizing e es fuel with
  | nil => cases hes
  | @one g h t j k q e hg he hh =>
    cases hes
    have hlen : t.length ≤ n := by
      simp only [List.length_append] at hn
      omega
    obtain ⟨hat, hread⟩ := hW he hlen
    have hitem : (do gap; whole : Reader Expr) (g ++ (t ++ h) ++ c :: r) = .ok e (h ++ c :: r) := by
      rw [List.append_assoc, List.append_assoc, bind_ok (gap_ok hg (hat _)),
        hread _ (ends_closing hh hc r)]
    obtain ⟨m, rfl⟩ := Nat.exists_eq_succ_of_ne_zero (Nat.ne_of_gt hfuel)
    have hat' : AtToken (c :: r) := by
      refine atToken_cons ?_ r
      simp only [isClosing, Bool.or_eq_true, beq_iff_eq] at hc
      rcases hc with (((rfl | rfl) | rfl) | rfl) | rfl <;> decide
    have hstop : (do (do gap; char ','); gap; whole : Reader Expr).Misses (h ++ c :: r) :=
      bind_miss (misses_of_bind_ok (gap_ok hh hat') (char_miss (by simpa using hcomma)))
    exact ⟨h, k, _, hh, hitem, many_miss hstop⟩
  | @cons g h t u j k q e f es hg he hh hes' ih =>
    cases hes
    simp only [List.length_append, List.length_cons] at hn
    obtain ⟨hat, hread⟩ := hW he (by omega)
    obtain ⟨m, rfl⟩ := Nat.exists_eq_succ_of_ne_zero (Nat.ne_of_gt (Nat.zero_lt_of_lt hfuel))
    have hends := ends_closing hh (c := ',') rfl (' ' :: (u ++ c :: r))
    have hitem : (do gap; whole : Reader Expr) (g ++ (t ++ (h ++ ',' :: ' ' :: u)) ++ c :: r) =
        .ok e (h ++ ',' :: ' ' :: (u ++ c :: r)) := by
      simp only [List.append_assoc, List.cons_append]
      rw [bind_ok (gap_ok hg (hat _)), hread _ hends]
    obtain ⟨h', k', s, hh', hnext, hmany⟩ :=
      ih (by omega) m (Nat.lt_of_succ_lt_succ hfuel) rfl
    have hsep : (do gap; char ',' : Reader Unit) (h ++ ',' :: ' ' :: (u ++ c :: r)) =
        .ok () (' ' :: (u ++ c :: r)) := by
      rw [bind_ok (gap_ok hh (atToken_cons (by decide) _)), char_self]
    have hspace : (do gap; whole : Reader Expr) (' ' :: (u ++ c :: r)) = .ok f s := by
      rw [← hnext]
      exact bind_congr_text (gap_append (isGap_layout (by decide)) (u ++ c :: r))
    refine ⟨h', k', _, hh', hitem, many_ok ?_ hmany⟩
    rw [bind_ok hsep, hspace]

theorem atToken_of_isClosing (hc : isClosing c = true) (r : List Char) : AtToken (c :: r) := by
  refine atToken_cons ?_ r
  simp only [isClosing, Bool.or_eq_true, beq_iff_eq] at hc
  rcases hc with (((rfl | rfl) | rfl) | rfl) | rfl <;> decide

theorem isOperandStart_of_isClosing (hc : isClosing c = true) : isOperandStart c = false := by
  simp only [isClosing, Bool.or_eq_true, beq_iff_eq] at hc
  rcases hc with (((rfl | rfl) | rfl) | rfl) | rfl <;> decide

/-- A bracketed list is read back. -/
theorem listIn_ok (hW : ∀ {q e s}, W q e s → s.length ≤ n → Reads whole e s)
    (hmiss : ∀ {d s}, isClosing d = true → whole.Misses (d :: s)) (hc : isClosing c = true)
    (hcomma : c ≠ ',') (ht : Items W es t) (hn : t.length ≤ n) (o : Char) (fuel : Nat)
    (hfuel : es.length ≤ fuel) (r : List Char) :
    listIn (fuel + 1) o c whole (o :: (t ++ c :: r)) = .ok es r := by
  have hat := atToken_of_isClosing hc r
  have hclose : ∀ {h k}, IsGap h k →
      (do gap; char c; pure es : Reader (List Expr)) (h ++ c :: r) = .ok es r := by
    intro h k hh
    rw [bind_ok (gap_ok hh hat), bind_ok (char_self c r)]
    rfl
  cases es with
  | nil =>
    cases ht with
    | nil hg =>
      have hitems : optional (do
            let items ← sepBy1 (do gap; whole) (do gap; char ',') (fuel + 1)
            let _ ← optional (do gap; char ',')
            pure items) (c :: r) = .ok none (c :: r) :=
        optional_miss (bind_miss (bind_miss (misses_of_bind_ok (gap_atToken hat) (hmiss hc))))
      rw [listIn, bind_ok (char_self _ _), bind_ok (gap_ok hg hat), bind_ok hitems]
      exact hclose isGap_nil
  | cons e es =>
    obtain ⟨h, k, s, hh, hitem, hmany⟩ := exists_items_ok hW hc hcomma ht hn (fuel + 1)
      (Nat.lt_succ_of_le (Nat.le_of_succ_le hfuel)) r
    -- the gap behind the bracket is read before the first item asks for it
    have hitem' : (do gap; whole : Reader Expr) (ahead (t ++ c :: r)) = .ok e s := by
      rw [← hitem]
      exact bind_congr_text (gap_gapFrom _)
    have hcomma' : optional (do gap; char ',') (h ++ c :: r) = .ok none (h ++ c :: r) :=
      optional_miss (misses_of_bind_ok (gap_ok hh hat) (char_miss (by simpa using hcomma)))
    have hitems : optional (do
          let items ← sepBy1 (do gap; whole) (do gap; char ',') (fuel + 1)
          let _ ← optional (do gap; char ',')
          pure items) (ahead (t ++ c :: r)) = .ok (some (e :: es)) (h ++ c :: r) := by
      refine optional_ok ?_
      rw [sepBy1, bind_ok (a := e :: es) (r := h ++ c :: r), bind_ok hcomma']
      · rfl
      · rw [bind_ok hitem', bind_ok hmany]
        rfl
    have hgap : gap (t ++ c :: r) = .ok () (ahead (t ++ c :: r)) := rfl
    rw [listIn, bind_ok (char_self _ _), bind_ok hgap, bind_ok hitems]
    exact hclose hh

/-- A bracketed expression is read back. -/
theorem within_ok {g h : List Char} {j k : List Comment} (he : Reads whole e t) (hg : IsGap g j)
    (hh : IsGap h k) (hc : isClosing c = true) (o : Char) (r : List Char) :
    within o c whole (o :: (g ++ (t ++ (h ++ c :: r)))) = .ok e r := by
  obtain ⟨hat, hread⟩ := he
  rw [within, bind_ok (char_self _ _), bind_ok (gap_ok hg (hat _)),
    bind_ok (hread _ (ends_closing hh hc r)), bind_ok (gap_ok hh (atToken_of_isClosing hc r)),
    bind_ok (char_self _ _)]
  rfl

end Brackets

/-! ### Primary expressions and suffixes -/

section Primary

variable {fuel : Nat} {whole : Reader Expr} {x : String} {l : Literal}

theorem primary_var (hx : isIdentifier x = true) (hr : Apart r) :
    primary fuel whole ('$' :: (x.toList ++ r)) = .ok (.var x) r := by
  rw [primary, bind_ok (gap_atToken (atToken_cons (by decide) _)),
    orElse_miss (within_misses (by simp) _ _),
    orElse_miss (bind_miss (listIn_misses (by simp) _ _ _)), orElse_ok]
  rw [bind_ok (char_self _ _), bind_pure_ok (ident_ok hx hr.isWordChar)]

/-- Where no bracket and no variable stands, a primary expression is a literal or
a name. -/
theorem primary_of_ne {s : List Char} (hs : AtToken s) (hparen : s.head? ≠ some '(')
    (hsquare : s.head? ≠ some '[') (hdollar : s.head? ≠ some '$') :
    primary fuel whole s =
      ((do return .lit (← literal)) <|> (do return .name (← name)) : Reader Expr) s := by
  rw [primary, bind_ok (gap_atToken hs), orElse_miss (within_misses hparen _ _),
    orElse_miss (bind_miss (listIn_misses hsquare _ _ _)),
    orElse_miss (bind_miss (char_miss hdollar))]

theorem head?_ne_of_isNameChar {c d : Char} {s : List Char} (hc : isNameChar c = true)
    (hd : isNameChar d = false) : (c :: s).head? ≠ some d := by
  rw [List.head?_cons, Ne, Option.some.injEq]
  rintro rfl
  rw [hc] at hd
  cases hd

theorem primary_name (hx : isName x = true) (hr : Apart r) :
    primary fuel whole (x.toList ++ r) = .ok (.name x) r := by
  have hlit := literal_misses_of_isName hx hr
  have hname := name_ok hx fun c hc => (hr c hc).1
  have hmem := isNameChar_of_mem hx
  have hat := (Written.name hx).atToken r
  cases hchars : x.toList with
  | nil => simp [isName, hchars] at hx
  | cons c cs =>
    rw [hchars] at hlit hname hmem hat
    have hc := hmem c List.mem_cons_self
    rw [List.cons_append] at hlit hname hat ⊢
    rw [primary_of_ne hat (head?_ne_of_isNameChar hc (by decide))
      (head?_ne_of_isNameChar hc (by decide)) (head?_ne_of_isNameChar hc (by decide)),
      orElse_miss (bind_miss hlit), bind_pure_ok hname]

theorem primary_lit (hl : l.lexical = true) (hr : Apart r) :
    primary fuel whole (l.text ++ r) = .ok (.lit l) r := by
  have hread := literal_ok hl hr
  have hat := (Written.lit hl).atToken r
  obtain ⟨c, s, hs, hc⟩ := Literal.exists_text_eq_cons hl
  rw [hs, List.cons_append] at hread hat ⊢
  rw [primary_of_ne hat, orElse_ok (bind_pure_ok hread)]
  all_goals
    rcases hc with rfl | rfl | hc
    · simp
    · simp
    · exact head?_ne_of_isNameChar hc (by decide)

theorem primary_array {s : List Char} {es : List Expr}
    (hes : listIn fuel '[' ']' whole ('[' :: s) = .ok es r) :
    primary fuel whole ('[' :: s) = .ok (.array es) r := by
  rw [primary, bind_ok (gap_atToken (atToken_cons (by decide) _)),
    orElse_miss (within_misses (by simp) _ _), orElse_ok (bind_pure_ok hes)]

theorem primary_paren {s : List Char} (he : within '(' ')' whole ('(' :: s) = .ok e r) :
    primary fuel whole ('(' :: s) = .ok e r := by
  rw [primary, bind_ok (gap_atToken (atToken_cons (by decide) _)), orElse_ok he]

theorem suffix_call {s : List Char} {args : List Expr}
    (hargs : listIn fuel '(' ')' whole ('(' :: s) = .ok args r) :
    suffix fuel whole ('(' :: s) = .ok (.call args) r := by
  rw [suffix, bind_ok (gap_atToken (atToken_cons (by decide) _)), orElse_ok (bind_pure_ok hargs)]

theorem suffix_index {s : List Char} (hi : within '[' ']' whole ('[' :: s) = .ok e r) :
    suffix fuel whole ('[' :: s) = .ok (.index e) r := by
  rw [suffix, bind_ok (gap_atToken (atToken_cons (by decide) _)),
    orElse_miss (bind_miss (listIn_misses (by simp) _ _ _)), orElse_ok (bind_pure_ok hi)]

theorem suffix_prop (hx : isIdentifier x = true) (hr : Apart r) :
    suffix fuel whole ('-' :: '>' :: (x.toList ++ r)) = .ok (.prop x) r := by
  have hat : AtToken (x.toList ++ r) := by
    cases hchars : x.toList with
    | nil => simp [isIdentifier, hchars] at hx
    | cons c cs =>
      simp only [isIdentifier, hchars, Bool.and_eq_true] at hx
      have hc : isNameChar c = true := isNameChar_of_isNameStart (by simp [isNameStart, hx.1])
      exact atToken_cons (isGapStart_of_isOperandStart (isOperandStart_of_isNameChar hc)) _
  have htoken : token ['-', '>'] ('-' :: '>' :: (x.toList ++ r)) = .ok () (x.toList ++ r) :=
    token_append ['-', '>'] _
  rw [suffix, bind_ok (gap_atToken (atToken_cons (by decide) _)),
    orElse_miss (bind_miss (listIn_misses (by simp) _ _ _)),
    orElse_miss (bind_miss (within_misses (by simp) _ _)), bind_ok htoken,
    bind_ok (gap_atToken hat), bind_pure_ok (ident_ok hx hr.isWordChar)]

end Primary

/-! ### Growing to the right -/

/-- The tier of a level that chains has read the text when it comes to what stands
behind it, with rounds left for everything that may follow. -/
def GrowsAt (n : Nat) (level : Level) (e : Expr) (t : List Char) : Prop :=
  ∃ k ≤ t.length, ∀ r, Ends (level.strength + 1) r →
    tier (n + 1) (expression n) level.strength (t ++ r) =
      grow (step level (tier (n + 1) (expression n) (level.strength + 1))) attach (n + 1 - k) e r

/-- The same for the suffixes of a primary expression. -/
def GrowsBySuffix (n : Nat) (e : Expr) (t : List Char) : Prop :=
  ∃ k ≤ t.length, ∀ r, Apart r →
    suffixed (n + 1) (expression n .whole) (t ++ r) =
      grow (suffix (n + 1) (expression n .whole)) Suffix.apply (n + 1 - k) e r

theorem GrowsAt.tier_ok {level : Level} (h : GrowsAt n level e t) (hn : t.length ≤ n)
    (hr : Ends level.strength r) :
    tier (n + 1) (expression n) level.strength (t ++ r) = .ok e r := by
  obtain ⟨k, hk, hgrow⟩ := h
  have hround : n + 1 - k = (n - k) + 1 := by omega
  rw [hgrow r (hr.mono (Nat.le_succ _)), hround, grow_miss (step_misses hr (Nat.le_refl _) _)]

theorem GrowsBySuffix.suffixed_ok (h : GrowsBySuffix n e t) (hn : t.length ≤ n) (hr : Ends 12 r) :
    suffixed (n + 1) (expression n .whole) (t ++ r) = .ok e r := by
  obtain ⟨k, hk, hgrow⟩ := h
  have hround : n + 1 - k = (n - k) + 1 := by omega
  rw [hgrow r hr.apart, hround, grow_miss (suffix_misses hr (Nat.le_refl _) _ _)]

/-- A text that binds tighter than the level is the first operand. -/
theorem growsAt_of_tier_ok {level : Level} (hchains : level.chains = true)
    (h : ∀ r, Ends (level.strength + 1) r →
      tier (n + 1) (expression n) (level.strength + 1) (t ++ r) = .ok e r) :
    GrowsAt n level e t := by
  refine ⟨0, Nat.zero_le _, fun r hr => ?_⟩
  rw [tier_level, binary_of_chains hchains, bind_ok (h r hr)]
  rfl

theorem growsBySuffix_of_primary_ok (h : ∀ r, Apart r →
    primary (n + 1) (expression n .whole) (t ++ r) = .ok e r) : GrowsBySuffix n e t := by
  refine ⟨0, Nat.zero_le _, fun r hr => ?_⟩
  rw [suffixed_eq, bind_ok (h r hr)]
  rfl

/-- An operator is read with its right operand. -/
theorem step_ok {op : BinOp} {fuel : Nat} {nested : Entry → Reader Expr} {g h s : List Char}
    {j k : List Comment} (hg : IsGap g j) (hh : IsGap h k) {b : Expr}
    (hb : tier fuel nested p s = .ok b r) :
    step op.level (tier fuel nested p) (' ' :: (g ++ (op.text ++ ' ' :: (h ++ s)))) =
      .ok (op, b) r := by
  have hright : tier fuel nested p (' ' :: (h ++ s)) = .ok b r := by
    rw [← List.cons_append, tier_gap (hh.cons_layout (by decide)), hb]
  rw [step, ← List.cons_append,
    bind_ok (gap_ok (hg.cons_layout (by decide)) (op.atToken_text _)),
    bind_ok (Level.operator_ok op _), bind_ok hright]
  rfl

/-- The left operand of a level that chains grows by the operator and its right
operand. -/
theorem GrowsAt.binary {op : BinOp} {g h u : List Char} {j k : List Comment} {a b : Expr}
    (ha : GrowsAt n op.level a t) (hg : IsGap g j) (hh : IsGap h k)
    (hb : ∀ r, Ends (op.precedence + 1) r →
      tier (n + 1) (expression n) (op.precedence + 1) (u ++ r) = .ok b r)
    (hn : (t ++ ' ' :: (g ++ (op.text ++ ' ' :: (h ++ u)))).length ≤ n) :
    GrowsAt n op.level (.binary op a b) (t ++ ' ' :: (g ++ (op.text ++ ' ' :: (h ++ u)))) := by
  obtain ⟨k, hk, hgrow⟩ := ha
  simp only [List.length_append, List.length_cons] at hn
  refine ⟨k + 1, by simp; omega, fun r hr => ?_⟩
  have hround : n + 1 - k = (n + 1 - (k + 1)) + 1 := by omega
  simp only [BinOp.strength_level] at hgrow hr ⊢
  simp only [List.append_assoc, List.cons_append]
  rw [hgrow _ (ends_operator hg op _), hround, grow_ok (step_ok hg hh (hb r hr))]
  rfl

/-- A primary expression with suffixes grows by one more. -/
theorem GrowsBySuffix.suffix {u : List Char} (sfx : Suffix) (h : GrowsBySuffix n e t)
    (hu : ∀ r, Apart r → suffix (n + 1) (expression n .whole) (u ++ r) = .ok sfx r)
    (hapart : ∀ r, Apart (u ++ r)) (hne : 0 < u.length) (hn : (t ++ u).length ≤ n) :
    GrowsBySuffix n (sfx.apply e) (t ++ u) := by
  obtain ⟨k, hk, hgrow⟩ := h
  rw [List.length_append] at hn
  refine ⟨k + 1, by rw [List.length_append]; omega, fun r hr => ?_⟩
  have hround : n + 1 - k = (n + 1 - (k + 1)) + 1 := by omega
  rw [List.append_assoc, hgrow _ (hapart r), hround, grow_ok (hu r hr)]

/-! ### Reading back -/

/-- What is shown of a text by its length: it reads back at every tier it may
stand at, and where its own tier chains, it has been read when the tier comes to
what stands behind it. -/
structure ReadsBack (n : Nat) (q : Nat) (e : Expr) (t : List Char) : Prop where
  tier_ok : ∀ {p r}, p ≤ q → Ends p r → tier (n + 1) (expression n) p (t ++ r) = .ok e r
  grows : ∀ {level : Level}, level.chains = true → level.strength ≤ q → GrowsAt n level e t
  growsBySuffix : 12 ≤ q → GrowsBySuffix n e t

theorem ReadsBack.expression_ok (h : ReadsBack n q e t) (entry : Entry) (hq : entry.strength ≤ q)
    (hr : Ends entry.strength r) : expression (n + 1) entry (t ++ r) = .ok e r := by
  rw [expression_eq_tier, h.tier_ok hq hr]

/-- It is enough to read a text back at its own tier. -/
theorem readsBack_of_own (hW : Written q e t)
    (own : ∀ r, Ends q r → tier (n + 1) (expression n) q (t ++ r) = .ok e r)
    (hgrows : ∀ {level : Level}, level.chains = true → level.strength = q → GrowsAt n level e t)
    (hsuffix : q = 12 → GrowsBySuffix n e t) : ReadsBack n q e t := by
  have htier : ∀ {p r}, p ≤ q → Ends p r →
      tier (n + 1) (expression n) p (t ++ r) = .ok e r := fun {p r} hp hr =>
    tier_of_le hp hW.le_strength.2 (fun hq => hW.bare hq r) (own r (hr.mono hp)) hr
  refine ⟨htier, ?_, ?_⟩
  · intro level hchains hq
    rcases Nat.lt_or_eq_of_le hq with hlt | heq
    · exact growsAt_of_tier_ok hchains fun r hr => htier hlt hr
    · exact hgrows hchains heq
  · intro hq
    obtain heq | heq : q = 12 ∨ q = 13 := by have := hW.le_strength; omega
    · exact hsuffix heq
    · subst heq
      exact growsBySuffix_of_primary_ok fun r hr => own r (ends_of_apart hr)

/-- Where neither operators nor suffixes lengthen a text, reading it at its own tier is
all that is asked. -/
theorem readsBack_of_fixed (hW : Written q e t) (hq : q < 4 ∨ q = 11 ∨ q = 13)
    (own : ∀ r, Ends q r → tier (n + 1) (expression n) q (t ++ r) = .ok e r) :
    ReadsBack n q e t := by
  refine readsBack_of_own hW own (fun {level} _ hlevel => ?_) fun hsuffix => ?_
  · have hbounds : 4 ≤ level.strength ∧ level.strength ≤ 10 := by cases level <;> decide
    omega
  · omega

/-- A suffix reads back behind the text that it follows. -/
theorem readsBack_of_suffix {u : List Char} (sfx : Suffix)
    (hW : Written 12 (sfx.apply e) (t ++ u)) (hbase : GrowsBySuffix n e t)
    (hu : ∀ r, Apart r → suffix (n + 1) (expression n .whole) (u ++ r) = .ok sfx r)
    (hapart : ∀ r, Apart (u ++ r)) (hn : (t ++ u).length ≤ n) :
    ReadsBack n 12 (sfx.apply e) (t ++ u) := by
  have hne : u ≠ [] := by
    rintro rfl
    exact absurd (hapart ['a'] 'a' rfl).1 (by decide)
  have hgrows := hbase.suffix sfx hu hapart (List.length_pos_iff.mpr hne) hn
  refine readsBack_of_own hW (fun r hr => hgrows.suffixed_ok hn hr) ?_ fun _ => hgrows
  intro level _ hlevel
  cases level <;> cases hlevel

variable {s : List Char}

/-- A unary operator is read with its operand. -/
theorem unary_ok {g : List Char} {k : List Comment} {fuel : Nat} {nested : Entry → Reader Expr}
    (op : UnaryOp) (hg : IsGap g k) (hat : AtToken (t ++ r))
    (hop : op = .neg → (g ++ t).head? ≠ some '-') (ht : t ≠ [])
    (hnested : nested .operand (t ++ r) = .ok e r) :
    unary fuel nested (op.text ++ (g ++ (t ++ r))) = .ok (.unary op e) r := by
  cases op with
  | not =>
    show unary fuel nested ('!' :: (g ++ (t ++ r))) = _
    rw [unary, bind_ok (gap_atToken (atToken_cons (by decide) _)), orElse_ok]
    rw [bind_ok (char_self _ _), bind_ok (gap_ok hg hat), bind_pure_ok hnested]
  | neg =>
    have hnext : ∀ c ∈ (g ++ (t ++ r)).head?, (c == '-') = false := by
      intro c hc
      obtain ⟨d, u, hd⟩ := List.exists_cons_of_ne_nil (l := g ++ t) (by simp [ht])
      have hop := hop rfl
      rw [← List.append_assoc, hd] at hc
      rw [hd] at hop
      rw [beq_eq_false_iff_ne]
      rintro rfl
      exact hop hc
    show unary fuel nested ('-' :: (g ++ (t ++ r))) = _
    rw [unary, bind_ok (gap_atToken (atToken_cons (by decide) _)),
      orElse_miss (bind_miss (char_miss (by simp))), orElse_ok]
    rw [bind_ok (char_self _ _), bind_ok (notNext_ok hnext), bind_ok (gap_ok hg hat),
      bind_pure_ok hnested]

/-- An operator that does not chain is read with both its operands. -/
theorem tier_binary {op : BinOp} {fuel : Nat} {nested : Entry → Reader Expr} {g h u : List Char}
    {j k : List Comment} {a b : Expr} (hchains : op.chains = false)
    (ha : tier fuel nested (op.precedence + 1) s =
      .ok a (' ' :: (g ++ (op.text ++ ' ' :: (h ++ u)))))
    (hg : IsGap g j) (hh : IsGap h k) (hb : tier fuel nested (op.precedence + 1) u = .ok b r) :
    tier fuel nested op.precedence s = .ok (.binary op a b) r := by
  rw [← BinOp.chains_level] at hchains
  rw [← BinOp.strength_level] at ha hb ⊢
  rw [tier_level, binary_of_not_chains hchains, bind_ok ha,
    bind_ok (optional_ok (step_ok hg hh hb))]
  rfl

/-- An operator reads back with its operands, whether its level chains or not. -/
theorem readsBack_binary {op : BinOp} {g h u : List Char} {i j : List Comment} {a b : Expr}
    (hW : Written op.precedence (.binary op a b) (t ++ ' ' :: (g ++ (op.text ++ ' ' :: (h ++ u)))))
    (ha : ReadsBack n p a t) (hp : (Expr.leftPlace op).admits p = true) (hg : IsGap g i)
    (hh : IsGap h j) (hb : ReadsBack n q b u) (hq : op.precedence < q)
    (hn : (t ++ ' ' :: (g ++ (op.text ++ ' ' :: (h ++ u)))).length ≤ n) :
    ReadsBack n op.precedence (.binary op a b)
      (t ++ ' ' :: (g ++ (op.text ++ ' ' :: (h ++ u)))) := by
  have hright : ∀ r, Ends (op.precedence + 1) r →
      tier (n + 1) (expression n) (op.precedence + 1) (u ++ r) = .ok b r :=
    fun r hr => hb.tier_ok hq hr
  have hsuffix : op.precedence ≠ 12 := by
    have := op.precedence_bounds
    omega
  rcases Bool.eq_false_or_eq_true op.chains with hchains | hchains
  · -- the left operand may be of the level itself, and grows by one more operator
    have hleft : op.level.strength ≤ p := by
      rw [BinOp.strength_level]
      simpa [Expr.leftPlace, hchains, Expr.Place.admits] using hp
    have hgrows := (ha.grows (by rw [BinOp.chains_level, hchains]) hleft).binary hg hh hright hn
    refine readsBack_of_own hW (fun r hr => ?_) (fun {level} _ hlevel => ?_)
      fun h => absurd h hsuffix
    · rw [← BinOp.strength_level] at hr ⊢
      exact hgrows.tier_ok hn hr
    · rw [← BinOp.strength_level, Level.strength_inj] at hlevel
      rwa [hlevel]
  · -- both operands bind tighter, and the level reads one operator
    have hleft : op.precedence + 1 ≤ p := by
      simpa [Expr.leftPlace, hchains, Expr.Place.admits, Nat.succ_le_iff] using hp
    refine readsBack_of_own hW (fun r hr => ?_) (fun {level} hlevel heq => ?_)
      fun h => absurd h hsuffix
    · have hfirst := ha.tier_ok hleft (ends_operator hg op (h ++ (u ++ r)))
      simp only [List.append_assoc, List.cons_append]
      exact tier_binary hchains hfirst hg hh (hright r (hr.mono (Nat.le_succ _)))
    · rw [← BinOp.strength_level, Level.strength_inj] at heq
      rw [heq, BinOp.chains_level, hchains] at hlevel
      cases hlevel

/-- A choice is read with its condition and both its branches. -/
theorem ternary_ok {fuel : Nat} {nested : Entry → Reader Expr} {g i u v w : List Char}
    {j k : List Comment} {a b c : Expr}
    (ha : tier fuel nested 3 s = .ok a (' ' :: (g ++ '?' :: u)))
    (hg : IsGap g j) (hb : nested .whole u = .ok b (' ' :: (i ++ ':' :: v)))
    (hi : IsGap i k) (hc : nested .choice v = .ok c w) :
    tier fuel nested 2 s = .ok (.ternary a b c) w := by
  have ha : operation fuel nested s = .ok a (' ' :: (g ++ '?' :: u)) := ha
  have hbranches : optional (do
        gap
        char '?'
        let yes ← nested .whole
        gap
        char ':'
        let no ← commit (nested .choice)
        pure (yes, no)) (' ' :: (g ++ '?' :: u)) = .ok (some (b, c)) w := by
    refine optional_ok ?_
    rw [← List.cons_append,
      bind_ok (gap_ok (hg.cons_layout (by decide)) (atToken_cons (by decide) _)),
      bind_ok (char_self _ _), bind_ok hb, ← List.cons_append,
      bind_ok (gap_ok (hi.cons_layout (by decide)) (atToken_cons (by decide) _)),
      bind_ok (char_self _ _), bind_ok (commit_ok hc)]
    rfl
  show ternary fuel nested s = _
  rw [ternary, bind_ok ha, bind_ok hbranches]
  rfl

/-- An assignment is read with its target and its value. -/
theorem assign_ok {fuel : Nat} {nested : Entry → Reader Expr} {g u w : List Char}
    {j : List Comment} {a b : Expr}
    (ha : tier fuel nested 2 s = .ok a (' ' :: (g ++ '=' :: ' ' :: u)))
    (hg : IsGap g j) (hb : nested .whole (' ' :: u) = .ok b w) :
    tier fuel nested 1 s = .ok (.assign a b) w := by
  have ha : ternary fuel nested s = .ok a (' ' :: (g ++ '=' :: ' ' :: u)) := ha
  have hvalue : optional (do
        gap
        char '='
        notNext fun c => c == '=' || c == '>'
        nested .whole) (' ' :: (g ++ '=' :: ' ' :: u)) = .ok (some b) w := by
    refine optional_ok ?_
    rw [← List.cons_append,
      bind_ok (gap_ok (hg.cons_layout (by decide)) (atToken_cons (by decide) _)),
      bind_ok (char_self _ _), bind_ok (notNext_ok (by simp)), hb]
  show assign fuel nested s = _
  rw [assign, bind_ok ha, bind_ok hvalue]
  rfl

/-- Shorter texts read back as nested expressions. -/
theorem reads_nested (hW : Written q e s) (hs : s.length < n)
    (ih : ∀ m, s.length ≤ m → ReadsBack m q e s) : Reads (expression n .whole) e s := by
  obtain ⟨m, rfl⟩ := Nat.exists_eq_succ_of_ne_zero (Nat.ne_of_gt (Nat.zero_lt_of_lt hs))
  refine ⟨fun r => hW.atToken r, fun r hr => ?_⟩
  exact (ih m (Nat.le_of_lt_succ hs)).expression_ok .whole (Nat.zero_le q) hr

/-- Each expression of a list takes up at least one character. -/
theorem length_le_of_items {es : List Expr} (h : Items Written es t) : es.length ≤ t.length := by
  induction h with
  | nil => exact Nat.zero_le _
  | one hg he hh =>
    have := he.length_pos
    simp only [List.length_append, List.length_cons, List.length_nil]
    omega
  | cons hg he hh hes ih =>
    simp only [List.length_append, List.length_cons] at ih ⊢
    omega

/-- Bracketed lists of shorter texts are read back. -/
theorem listIn_nested {es : List Expr} {c : Char} (hes : Items Written es s) (hn : s.length < n)
    (ih : ∀ {q e u}, Written q e u → u.length ≤ s.length → ∀ m, u.length ≤ m → ReadsBack m q e u)
    (hc : isClosing c = true) (hcomma : c ≠ ',') (o : Char) (r : List Char) :
    listIn (n + 1) o c (expression n .whole) (o :: (s ++ c :: r)) = .ok es r := by
  refine listIn_ok (n := s.length) (fun hW hu => ?_) ?_ hc hcomma hes (Nat.le_refl _) o n ?_ r
  · exact reads_nested hW (Nat.lt_of_le_of_lt hu hn) fun m hm => ih hW hu m hm
  · intro d u hd
    refine expression_misses ?_ n .whole
    rw [ahead_of_atToken (atToken_of_isClosing hd u)]
    intro c' hc'
    obtain rfl : d = c' := Option.some.inj hc'
    exact isOperandStart_of_isClosing hd
  · have := length_le_of_items hes
    omega

end Reader

open Reader in
/-- **A text is read back at every tier it may stand at.** -/
theorem Written.readsBack (h : Written q e t) : ∀ n, t.length ≤ n → ReadsBack n q e t := by
  -- the parts of a text are shorter than it is, however they are nested
  induction h using Written.byLength with
  | step q e t h ih =>
  intro n hn
  have hW := h
  cases h with
  | var hx => exact readsBack_of_fixed hW (by decide) fun r hr => primary_var hx hr.apart
  | name hx => exact readsBack_of_fixed hW (by decide) fun r hr => primary_name hx hr.apart
  | lit hl => exact readsBack_of_fixed hW (by decide) fun r hr => primary_lit hl hr.apart
  | array hes =>
    refine readsBack_of_fixed hW (by decide) fun r hr => ?_
    simp only [List.append_assoc, List.cons_append, List.nil_append]
    simp only [List.length_cons, List.length_append, List.length_nil] at hn
    refine primary_array (listIn_nested hes (by omega) (fun hW hu => ?_) rfl (by decide) _ r)
    exact ih hW (by simp; omega)
  | paren hg he hh =>
    refine readsBack_of_fixed hW (by decide) fun r hr => ?_
    simp only [List.append_assoc, List.cons_append, List.nil_append]
    simp only [List.length_cons, List.length_append, List.length_nil] at hn
    have hin := reads_nested (n := n) he (by omega) (ih he (by simp; omega))
    exact primary_paren (within_ok hin hg hh rfl _ r)
  | @call t u q f args hf hq hargs =>
    have hlen := hn
    simp only [List.length_append, List.length_cons, List.length_nil] at hlen
    have hbase := (ih hf (by simp) n (by omega)).growsBySuffix hq
    refine readsBack_of_suffix (.call args) hW hbase (fun r hr => ?_)
      (fun r => apart_cons (by decide) _) hn
    simp only [List.append_assoc, List.cons_append, List.nil_append]
    refine suffix_call (listIn_nested hargs (by omega) (fun hW hu => ?_) rfl (by decide) _ r)
    exact ih hW (by simp; omega)
  | @index g h t u j k p q e i he hq hg hi hh =>
    have hlen := hn
    simp only [List.length_append, List.length_cons, List.length_nil] at hlen
    have hbase := (ih he (by simp) n (by omega)).growsBySuffix hq
    refine readsBack_of_suffix (.index i) hW hbase (fun r hr => ?_)
      (fun r => apart_cons (by decide) _) hn
    simp only [List.append_assoc, List.cons_append, List.nil_append]
    have hin := reads_nested (n := n) hi (by omega) (ih hi (by simp; omega))
    exact suffix_index (within_ok hin hg hh rfl _ r)
  | @prop t q e x he hq hx =>
    have hlen := hn
    simp only [List.length_append, List.length_cons] at hlen
    have hbase := (ih he (by simp) n (by omega)).growsBySuffix hq
    exact readsBack_of_suffix (.prop x) hW hbase (fun r hr => suffix_prop hx hr)
      (fun r => apart_cons (by decide) _) hn
  | @unary g t k q e op hg he hq hop =>
    refine readsBack_of_fixed hW (by decide) fun r hr => ?_
    simp only [List.length_append] at hn
    have hpos : 0 < op.text.length := by cases op <;> decide
    obtain ⟨m, rfl⟩ := Nat.exists_eq_succ_of_ne_zero (n := n) (by omega)
    have hnested := (ih he (by simp; omega) m (by omega)).expression_ok .operand hq hr
    have hat := he.atToken r
    rw [List.append_assoc, List.append_assoc]
    exact unary_ok op hg hat hop (List.ne_nil_of_length_pos he.length_pos) hnested
  | @binary g h t u j k p q a b op ha hp hg hh hb hq =>
    have hlen := hn
    simp only [List.length_append, List.length_cons] at hlen
    exact readsBack_binary hW (ih ha (by simp) n (by omega)) hp hg hh
      (ih hb (by simp; omega) n (by omega)) hq hn
  | @ternary g h i j t u v k l m n' o p q a b c ha ho hg hh hb hi hj hc hq =>
    refine readsBack_of_fixed hW (by decide) fun r hr => ?_
    simp only [List.length_append, List.length_cons] at hn
    simp only [List.append_assoc, List.cons_append]
    obtain ⟨n, rfl⟩ := Nat.exists_eq_succ_of_ne_zero (n := n) (by omega)
    have hcond := fun s => (ih ha (by simp) (n + 1) (by omega)).tier_ok ho (ends_question hg s)
    have hcolon := ends_closing (hi.cons_layout (c := ' ') rfl) (c := ':') rfl
    have hyes := fun s => (ih hb (by simp; omega) n (by omega)).expression_ok .whole
      (Nat.zero_le p) (hcolon s)
    have hno := (ih hc (by simp; omega) n (by omega)).expression_ok .choice
      (Nat.le_of_lt hq) hr
    refine ternary_ok (v := ' ' :: (j ++ (v ++ r))) (hcond _) hg ?_ hi ?_
    · rw [← List.cons_append, expression_gap (hh.cons_layout rfl)]
      exact hyes _
    · rw [← List.cons_append, expression_gap (hj.cons_layout rfl)]
      exact hno
  | @assign g h t u j k p q a b ha hp hg hh hb =>
    refine readsBack_of_fixed hW (by decide) fun r hr => ?_
    simp only [List.length_append, List.length_cons] at hn
    simp only [List.append_assoc, List.cons_append]
    obtain ⟨n, rfl⟩ := Nat.exists_eq_succ_of_ne_zero (n := n) (by omega)
    have htarget := fun s => (ih ha (by simp) (n + 1) (by omega)).tier_ok hp (ends_equals hg s)
    have hvalue := (ih hb (by simp; omega) n (by omega)).tier_ok hb.le_strength.1 hr
    refine assign_ok (htarget _) hg ?_
    rw [← List.cons_append, expression_gap (hh.cons_layout rfl)]
    exact hvalue

/-- A text is read back as a nested expression. -/
theorem Written.expression_ok (h : Written q e t) (entry : Entry) (hn : t.length < n)
    (hq : entry.strength ≤ q) (hr : Ends entry.strength r) :
    Reader.expression n entry (t ++ r) = .ok e r := by
  obtain ⟨m, rfl⟩ := Nat.exists_eq_succ_of_ne_zero (Nat.ne_of_gt (Nat.zero_lt_of_lt hn))
  exact (h.readsBack m (Nat.le_of_lt_succ hn)).expression_ok entry hq hr

/-- A text is read back as an expression of any strength. -/
theorem Written.expr_ok (h : Written q e t) (hn : t.length < n) (hr : Ends 0 r) :
    Reader.expr n (t ++ r) = .ok e r :=
  h.expression_ok .whole hn (Nat.zero_le q) hr

end Casework
