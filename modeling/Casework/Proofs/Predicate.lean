import Casework.Proofs.Residue
import Casework.Resolution

/-!
# Predicate texts are told apart

A condition that compares nothing is named by its predicate text, so two branches
get one key exactly when their conditions have one predicate text.  Here it is shown
that such conditions are the same expression.

A predicate text is either the text of an expression, or two predicate texts in
parentheses with a word between them.  The reader of expressions tells these apart:
the first it reads to its end, while in the second it comes to the word at most.  For
the same reason it finds where the first operand ends, so the texts of both operands
are known again from the whole.

## Main definitions

* `Literal.unescape` — a text without the backslashes that escape it.
* `Reader.StopsAtWord` — the reader comes to the word between two operands at most.
* `Expr.isComparison` — the condition compares by `==` or `===`.

## Main results

* `Literal.unescape_escape` — escaping loses nothing.
* `Written.trim_eq` — a text of an expression neither begins nor ends with white space.
* `Expr.stopsAtWord_joined` — two predicate texts in parentheses are no text of an
  expression.
* `Expr.predicate_append_inj` — a predicate text is known again before a parenthesis.
* `Expr.keys_resolve_eq_iff` — **conditions that compare nothing have the same key
  exactly when they are the same**.
-/

namespace Casework

/-! ### Escaped texts -/

namespace Literal

/-- The text without the backslash before each escaped character. -/
def unescape : List Char → List Char
  | [] => []
  | ['\\'] => ['\\']
  | '\\' :: c :: text => c :: unescape text
  | c :: text => c :: unescape text

/-- Escaping loses nothing. -/
theorem unescape_escape (text : List Char) : unescape (escape text) = text := by
  induction text with
  | nil => rfl
  | cons c text ih =>
    rw [escape]
    split
    · rw [unescape, ih]
    · next hc =>
      simp only [Bool.or_eq_true, beq_iff_eq, not_or] at hc
      rw [unescape.eq_4, ih]
      · exact fun h => absurd h hc.2
      · exact fun _ _ h => absurd h hc.2

/-- Different texts have different literals. -/
theorem quoted_inj {s t : List Char} (h : quoted s = quoted t) : s = t := by
  have hescape : escape s = escape t := by
    injection h with _ hraw
    exact String.ofList_injective hraw
  rw [← unescape_escape s, hescape, unescape_escape]

end Literal

/-! ### White space at the ends of a text -/

/-- The visible ASCII characters are no white space. -/
theorem isWhiteSpace_of_visible {c : Char} (hlow : 33 ≤ c.toNat) (hhigh : c.toNat ≤ 126) :
    isWhiteSpace c = false := by
  rw [Bool.eq_false_iff]
  intro h
  simp only [isWhiteSpace, inRanges, whiteSpaceRanges, List.any_cons, List.any_nil, Bool.or_false,
    Bool.or_eq_true, Bool.and_eq_true, decide_eq_true_eq] at h
  omega

/-- Letters are visible. -/
theorem visible_of_isAlpha {c : Char} (h : c.isAlpha = true) : 33 ≤ c.toNat ∧ c.toNat ≤ 126 := by
  rcases (Bool.or_eq_true _ _).mp h with h | h
  · have hupper : 65 ≤ c.toNat ∧ c.toNat ≤ 90 := of_decide_eq_true h
    omega
  · obtain ⟨hlow, hhigh⟩ := (Bool.and_eq_true _ _).mp h
    have hlower : 97 ≤ c.toNat ∧ c.toNat ≤ 122 := ⟨of_decide_eq_true hlow, of_decide_eq_true hhigh⟩
    omega

/-- Digits are visible. -/
theorem visible_of_isDigit {c : Char} (h : c.isDigit = true) : 33 ≤ c.toNat ∧ c.toNat ≤ 126 := by
  obtain ⟨hlow, hhigh⟩ := (Bool.and_eq_true _ _).mp h
  have hdigit : 48 ≤ c.toNat ∧ c.toNat ≤ 57 := ⟨of_decide_eq_true hlow, of_decide_eq_true hhigh⟩
  omega

/-- The characters that an expression may begin with are no white space. -/
theorem isWhiteSpace_of_isOperandStart {c : Char} (h : Reader.isOperandStart c = true) :
    isWhiteSpace c = false := by
  have hvisible : 33 ≤ c.toNat ∧ c.toNat ≤ 126 := by
    simp only [Reader.isOperandStart, Reader.isPrimaryStart, Reader.isAtomStart, isNameStart,
      isWordStart, Bool.or_eq_true, beq_iff_eq] at h
    rcases h with (rfl | rfl) | ((rfl | rfl) | rfl) | ((rfl | rfl) | hc) | (hc | rfl) | rfl
    case inr.inr.inl.inr => exact visible_of_isDigit hc
    case inr.inr.inr.inl.inl => exact visible_of_isAlpha hc
    all_goals decide
  exact isWhiteSpace_of_visible hvisible.1 hvisible.2

theorem isWhiteSpace_of_isNameChar {c : Char} (h : isNameChar c = true) : isWhiteSpace c = false :=
  isWhiteSpace_of_isOperandStart (isOperandStart_of_isNameChar h)

/-- The text ends in a character that is no white space. -/
def EndsVisibly (t : List Char) : Prop := ∃ s c, t = s ++ [c] ∧ isWhiteSpace c = false

variable {s t : List Char}

theorem endsVisibly_concat {c : Char} (hc : isWhiteSpace c = false) (s : List Char) :
    EndsVisibly (s ++ [c]) :=
  ⟨s, c, rfl, hc⟩

theorem endsVisibly_of_forall (hne : t ≠ []) (h : ∀ c ∈ t, isWhiteSpace c = false) :
    EndsVisibly t := by
  rcases List.eq_nil_or_concat t with rfl | ⟨s, c, rfl⟩
  · exact absurd rfl hne
  · rw [List.concat_eq_append] at h ⊢
    exact endsVisibly_concat (h c (by simp)) s

/-- How a text ends is seen from its last part. -/
theorem EndsVisibly.append (h : EndsVisibly t) (s : List Char) : EndsVisibly (s ++ t) := by
  obtain ⟨u, c, rfl, hc⟩ := h
  rw [← List.append_assoc]
  exact endsVisibly_concat hc (s ++ u)

theorem EndsVisibly.cons (h : EndsVisibly t) (c : Char) : EndsVisibly (c :: t) := h.append [c]

theorem endsVisibly_identifier {x : String} (hx : isIdentifier x = true) :
    EndsVisibly x.toList := by
  rw [isIdentifier] at hx
  split at hx
  · cases hx
  · next c cs heq =>
    rw [Bool.and_eq_true, List.all_eq_true] at hx
    rw [heq]
    refine endsVisibly_of_forall (List.cons_ne_nil c cs) fun d hd => ?_
    refine isWhiteSpace_of_isNameChar ?_
    rcases List.mem_cons.mp hd with rfl | hd
    · exact Reader.isNameChar_of_isNameStart (by rw [isNameStart, hx.1, Bool.true_or])
    · exact isNameChar_of_isWordChar (hx.2 d hd)

theorem endsVisibly_digits {ds : List Char} (hne : ds ≠ []) (hds : ∀ c ∈ ds, c.isDigit = true) :
    EndsVisibly ds :=
  endsVisibly_of_forall hne fun c hc =>
    isWhiteSpace_of_isNameChar (isNameChar_of_isWordChar (isWordChar_of_isDigit (hds c hc)))

/-- A literal ends in a quotation mark, a digit or a letter. -/
theorem Literal.endsVisibly_text {l : Literal} (hl : l.lexical = true) : EndsVisibly l.text := by
  cases l with
  | int n =>
    have hn : ¬ n.toInt < 0 := Int.not_lt.mpr (of_decide_eq_true hl)
    rw [Literal.text, intText, if_neg hn]
    exact endsVisibly_digits (Magnitude.natText_ne_nil _) fun c hc =>
      Magnitude.isDigit_of_mem_natText hc
  | float x =>
    cases x with
    | finite negative m =>
      obtain rfl : negative = false := Bool.not_eq_true' _ |>.mp hl
      obtain ⟨whole, fraction, htext, -, hfne, -, hf, -⟩ := Magnitude.exists_text_eq m
      have heq : (Literal.float (.finite false m)).text = whole ++ '.' :: fraction := by
        simp [Literal.text, Double.text, htext]
      rw [heq]
      exact ((endsVisibly_digits hfne hf).cons '.').append whole
    | infinite _ => cases hl
    | nan => cases hl
  | str q raw =>
    have hmark : isWhiteSpace q.mark = false := by cases q <;> decide
    exact (endsVisibly_concat hmark raw.toList).cons q.mark
  | bool b =>
    cases b with
    | true => exact ⟨['t', 'r', 'u'], 'e', rfl, by decide⟩
    | false => exact ⟨['f', 'a', 'l', 's'], 'e', rfl, by decide⟩
  | null => exact ⟨['n', 'u', 'l'], 'l', rfl, by decide⟩

namespace Written

variable {q : Nat} {e : Expr}

/-- A text of an expression does not end in white space. -/
theorem endsVisibly (h : Written q e t) : EndsVisibly t := by
  induction h using Written.byLength with
  | step q e t h ih =>
  cases h with
  | var hx => exact (endsVisibly_identifier hx).cons '$'
  | name hx =>
    refine endsVisibly_of_forall ?_ fun c hc =>
      isWhiteSpace_of_isNameChar (Reader.isNameChar_of_mem hx c hc)
    exact List.ne_nil_of_length_pos (Written.name hx).length_pos
  | lit hl => exact Literal.endsVisibly_text hl
  | array hes => exact (endsVisibly_concat (by decide) _).cons '['
  | @paren g h t j k q e hg he hh =>
    simpa using endsVisibly_concat (c := ')') (by decide) ('(' :: (g ++ (t ++ h)))
  | @call t u q f args hf hq hargs =>
    simpa using endsVisibly_concat (c := ')') (by decide) (t ++ '(' :: u)
  | @index g h t u j k p q e i he hq hg hi hh =>
    simpa using endsVisibly_concat (c := ']') (by decide) (t ++ '[' :: (g ++ (u ++ h)))
  | @prop t q e x he hq hx => exact (((endsVisibly_identifier hx).cons '>').cons '-').append t
  | @unary g t k q e op hg he hq hop =>
    have hpos : 0 < op.text.length := by cases op <;> decide
    exact ((ih he (by simp; omega)).append g).append op.text
  | @binary g h t u j k p q a b op ha hp hg hh hb hq =>
    have hright : EndsVisibly u := ih hb (by simp; omega)
    simpa using hright.append (t ++ ' ' :: (g ++ (op.text ++ ' ' :: h)))
  | @ternary g h i j t u v k l m n o p q a b c ha ho hg hh hb hi hj hc hq =>
    have hno : EndsVisibly v := ih hc (by simp; omega)
    simpa using hno.append
      (t ++ ' ' :: (g ++ '?' :: ' ' :: (h ++ (u ++ ' ' :: (i ++ ':' :: ' ' :: j)))))
  | @assign g h t u j k p q a b ha hp hg hh hb =>
    have hvalue : EndsVisibly u := ih hb (by simp; omega)
    simpa using hvalue.append (t ++ ' ' :: (g ++ '=' :: ' ' :: h))

/-- A text of an expression neither begins nor ends with white space. -/
theorem trim_eq (h : Written q e t) : trim t = t := by
  obtain ⟨c, s, hs, hc, -⟩ := h.exists_cons
  obtain ⟨u, d, hu, hd⟩ := h.endsVisibly
  have hdrop : t.dropWhile isWhiteSpace = t := by
    rw [hs, List.dropWhile_cons_of_neg]
    simp [isWhiteSpace_of_isOperandStart hc]
  rw [trim, hdrop, hu, trimEnd_eq_self hd]

end Written

/-! ### Predicate texts -/

/-- Every expression ends before the word between two operands. -/
theorem ends_word (c : Connective) (s : List Char) : Ends 0 (' ' :: (c.word ++ s)) := by
  have hat : AtToken (c.word ++ s) := by cases c <;> exact atToken_cons (by decide) _
  have hahead : ahead (' ' :: (c.word ++ s)) = c.word ++ s := isGap_nil.ahead_space_append hat
  constructor
  · exact apart_space _
  · intro _
    rw [hahead]
    cases c <;> exact ⟨by simp [Connective.word], by simp [Connective.word], rfl⟩
  · intro level _
    rw [hahead]
    cases c <;> cases level <;> exact ⟨_, rfl⟩
  · intro _
    rw [hahead]
    cases c <;> simp [Connective.word]
  · intro _
    rw [hahead]
    cases c <;> simp [Connective.word]

/-- The reader comes to the word between two operands at most. -/
def Reader.StopsAtWord (p : Reader Expr) (s : List Char) : Prop :=
  p.Misses s ∨ ∃ e r, ∃ c : Connective, p s = .ok e (' ' :: (c.word ++ r))

/-- Parentheses are not closed by a word. -/
theorem Reader.StopsAtWord.within_misses {whole : Reader Expr} (h : whole.StopsAtWord s)
    (hs : AtToken s) : (within '(' ')' whole).Misses ('(' :: s) := by
  refine misses_of_bind_ok (char_self _ _) (misses_of_bind_ok (gap_atToken hs) ?_)
  rcases h with h | ⟨e, r, c, h⟩
  · exact bind_miss h
  · have hat : AtToken (c.word ++ r) := by cases c <;> exact atToken_cons (by decide) _
    have hgap : gap (' ' :: (c.word ++ r)) = .ok () (c.word ++ r) :=
      gap_ok (isGap_layout (by decide)) hat
    refine misses_of_bind_ok h (misses_of_bind_ok hgap (bind_miss (char_miss ?_)))
    cases c <;> simp [Connective.word]

namespace Expr

open Reader

/-- The predicate text of a connective is made of those of its operands. -/
theorem predicate_binary_op (c : Connective) (a b : Expr) :
    (binary c.op a b).predicate = joined c a.predicate b.predicate := by
  cases c <;> rfl

/-- An expression is built from those whose predicate text is their own by the two
connectives. -/
theorem byConnective {motive : Expr → Prop}
    (logical : ∀ (c : Connective) (a b : Expr), motive a → motive b → motive (binary c.op a b))
    (plain : ∀ e, e.predicate = trim e.text → motive e) (e : Expr) : motive e := by
  fun_induction Expr.predicate e with
  | case1 a b iha ihb => exact logical .and a b iha ihb
  | case2 a b iha ihb => exact logical .or a b iha ihb
  | case3 e hand hor =>
    refine plain e ?_
    rw [predicate.eq_3 e hand hor]

theorem lexical_binary {op : BinOp} {a b : Expr} (h : (binary op a b).lexical = true) :
    a.lexical = true ∧ b.lexical = true := by
  rw [lexical, validBy, Bool.and_eq_true] at h
  exact h

theorem joined_append (c : Connective) (a b s : List Char) : joined c a b ++ s =
    '(' :: (a ++ ')' :: ' ' :: (c.word ++ ' ' :: '(' :: (b ++ ')' :: s))) := by
  simp [joined]

theorem length_lt_joined (c : Connective) (a b : List Char) :
    a.length + 2 < (joined c a b).length := by
  simp only [joined, List.length_cons, List.length_append]
  omega

/-- Where no connective stands, the predicate text is the text. -/
theorem predicate_eq_text {e : Expr} (h : e.lexical = true) (hplain : e.predicate = trim e.text) :
    e.predicate = e.text := by
  rw [hplain, (written_text e h).trim_eq]

/-- A predicate text begins where a token stands. -/
theorem atToken_predicate {e : Expr} (h : e.lexical = true) (s : List Char) :
    AtToken (e.predicate ++ s) := by
  cases e using byConnective with
  | logical c a b =>
    rw [predicate_binary_op]
    exact atToken_cons (by decide) _
  | plain e hplain =>
    rw [predicate_eq_text h hplain]
    exact (written_text e h).atToken s

/-- Two predicate texts in parentheses are no text of an expression: it is read up to
the word between them at most. -/
theorem stopsAtWord_joined {a : Expr} (ha : a.lexical = true) (c : Connective) (b s : List Char)
    {n : Nat} (hn : (joined c a.predicate b).length < n) :
    (expr n).StopsAtWord (joined c a.predicate b ++ s) := by
  induction a using byConnective generalizing c b s n with
  | logical d a₁ a₂ ih =>
    -- the first parenthesis holds two others with a word between them, so it is not closed
    have hlt := length_lt_joined c (binary d.op a₁ a₂).predicate b
    obtain ⟨n, rfl⟩ := Nat.exists_eq_succ_of_ne_zero (n := n) (by omega)
    have hat := fun u => atToken_predicate ha u
    rw [joined_append]
    rw [predicate_binary_op] at hlt hn hat ⊢
    have hinner := ih (lexical_binary ha).1 d a₂.predicate
      (')' :: ' ' :: (c.word ++ ' ' :: '(' :: (b ++ ')' :: s))) (n := n) (by omega)
    refine Or.inl (expression_misses_of_unary (n := n + 1) ?_ .whole)
    exact unary_misses_of_paren (atToken_cons (by decide) _) (hinner.within_misses (hat _))
  | plain a hplain =>
    rw [predicate_eq_text ha hplain] at hn ⊢
    have hlt := length_lt_joined c a.text b
    have hparen : Written 13 a ('(' :: ([] ++ (a.text ++ ([] ++ [')'])))) :=
      .paren isGap_nil (written_text a ha) isGap_nil
    have hread := hparen.expr_ok (n := n) (by simp; omega)
      (ends_word c (' ' :: '(' :: (b ++ ')' :: s)))
    refine Or.inr ⟨a, ' ' :: '(' :: (b ++ ')' :: s), c, ?_⟩
    rw [joined_append]
    simpa using hread

/-- The text of an expression is no predicate text of a connective. -/
theorem text_append_ne_joined {a e : Expr} (ha : a.lexical = true) (he : e.lexical = true)
    (c : Connective) (b s t : List Char) :
    e.text ++ ')' :: s ≠ joined c a.predicate b ++ t := by
  intro h
  have hlen : ∃ n, e.text.length < n ∧ (joined c a.predicate b).length < n :=
    ⟨e.text.length + (joined c a.predicate b).length + 1, by omega, by omega⟩
  obtain ⟨n, hn, hn'⟩ := hlen
  have hread := (written_text e he).expr_ok hn (ends_closing isGap_nil (c := ')') rfl s)
  rw [List.nil_append, h] at hread
  rcases stopsAtWord_joined ha c b t hn' with ⟨r, hmiss⟩ | ⟨v, r, d, hok⟩
  · rw [hread] at hmiss
    cases hmiss
  · rw [hread] at hok
    simp at hok

/-- A text is known again before a parenthesis. -/
theorem text_append_inj {a b : Expr} (ha : a.lexical = true) (hb : b.lexical = true)
    {s t : List Char} (h : a.text ++ ')' :: s = b.text ++ ')' :: t) : a = b ∧ s = t := by
  have hread : ∀ {e : Expr} (_ : e.lexical = true) (u : List Char),
      e.text.length ≤ a.text.length + b.text.length →
      expr (a.text.length + b.text.length + 1) (e.text ++ ')' :: u) = .ok e (')' :: u) :=
    fun {e} he u hle => (written_text e he).expr_ok (Nat.lt_succ_of_le hle)
      (ends_closing isGap_nil (c := ')') rfl u)
  have hreada := hread ha s (by omega)
  rw [h, hread hb t (by omega)] at hreada
  simp only [Reply.ok.injEq, List.cons.injEq, true_and] at hreada
  exact ⟨hreada.1.symm, hreada.2.symm⟩

/-- A predicate text is known again before a parenthesis. -/
theorem predicate_append_inj {a b : Expr} (ha : a.lexical = true) (hb : b.lexical = true)
    {s t : List Char} (h : a.predicate ++ ')' :: s = b.predicate ++ ')' :: t) : a = b ∧ s = t := by
  induction a using byConnective generalizing b s t with
  | logical c a₁ a₂ ih₁ ih₂ =>
    obtain ⟨ha₁, ha₂⟩ := lexical_binary ha
    rw [predicate_binary_op] at h
    cases b using byConnective with
    | logical d b₁ b₂ =>
      obtain ⟨hb₁, hb₂⟩ := lexical_binary hb
      rw [predicate_binary_op, joined_append, joined_append, List.cons.injEq] at h
      obtain ⟨rfl, hrest⟩ := ih₁ ha₁ hb₁ h.2
      rw [List.cons.injEq] at hrest
      -- the words differ in their first letters
      have hword : c = d := by
        have hhead := congrArg List.head? hrest.2
        cases c <;> cases d <;> simp [Connective.word] at hhead ⊢
      subst hword
      have hright := List.append_cancel_left hrest.2
      rw [List.cons.injEq, List.cons.injEq] at hright
      obtain ⟨rfl, hlast⟩ := ih₂ ha₂ hb₂ hright.2.2
      rw [List.cons.injEq] at hlast
      exact ⟨rfl, hlast.2⟩
    | plain b hplain =>
      rw [predicate_eq_text hb hplain] at h
      exact absurd h.symm (text_append_ne_joined ha₁ hb c _ t _)
  | plain a hplain =>
    rw [predicate_eq_text ha hplain] at h
    cases b using byConnective with
    | logical d b₁ b₂ =>
      rw [predicate_binary_op] at h
      exact absurd h (text_append_ne_joined (lexical_binary hb).1 ha d _ s _)
    | plain b hplain =>
      rw [predicate_eq_text hb hplain] at h
      exact text_append_inj ha hb h

/-! ### Keys -/

/-- The condition compares by `==` or `===`. -/
def isComparison : Expr → Bool
  | binary .equal _ _ | binary .identical _ _ => true
  | _ => false

/-- A condition that compares nothing has its predicate text as its key. -/
theorem key_of_not_isComparison {e : Expr} (h : e.isComparison = false) :
    e.key = lit (.quoted e.predicate) := by
  cases e with
  | binary op a b =>
    cases op with
    | equal => cases h
    | identical => cases h
    | _ => rfl
  | _ => rfl

/-- **Conditions that compare nothing have the same key exactly when they are the
same.**  The keys are those that two chains of conditions are resolved to. -/
theorem keys_resolve_eq_iff {cs ds : List Expr} {i j : Nat} {c d : Expr} (hc : cs[i]? = some c)
    (hd : ds[j]? = some d) (hcplain : c.isComparison = false) (hdplain : d.isComparison = false)
    (hclex : c.lexical = true) (hdlex : d.lexical = true) :
    (resolve cs).value.keys[i]? = some (lit (.quoted c.predicate)) ∧
      (resolve ds).value.keys[j]? = some (lit (.quoted d.predicate)) ∧
      ((resolve cs).value.keys[i]? = (resolve ds).value.keys[j]? ↔ c = d) := by
  have hkey : ∀ {es : List Expr} {k : Nat} {e : Expr}, es[k]? = some e → e.isComparison = false →
      (resolve es).value.keys[k]? = some (lit (.quoted e.predicate)) := by
    intro es k e he hplain
    rw [keys_resolve, List.getElem?_map, he, Option.map_some, key_of_not_isComparison hplain]
  refine ⟨hkey hc hcplain, hkey hd hdplain, ?_⟩
  rw [hkey hc hcplain, hkey hd hdplain]
  constructor
  · intro h
    have hpredicate : c.predicate = d.predicate := by
      simp only [Option.some.injEq, lit.injEq] at h
      exact Literal.quoted_inj h
    have happend : c.predicate ++ ')' :: [] = d.predicate ++ ')' :: [] := by rw [hpredicate]
    exact (predicate_append_inj hclex hdlex happend).1
  · rintro rfl
    rfl

/-- The conditions `($a || $b) && $c` and `'($a) or ($b)' && $c` of one chain. -/
theorem keys_resolve_eq_iff_quoted :
    let c := binary .and (binary .or (var "a") (var "b")) (var "c")
    let d := binary .and (lit (.str .single "($a) or ($b)")) (var "c")
    c.isComparison = false ∧ d.isComparison = false ∧ c.lexical = true ∧ d.lexical = true ∧
      ((resolve [c, d]).value.keys[0]? = (resolve [c, d]).value.keys[1]? ↔ c = d) := by
  intro c d
  have hc : c.isComparison = false ∧ c.lexical = true := by decide
  have hd : d.isComparison = false ∧ d.lexical = true := by decide
  have hfirst : [c, d][0]? = some c := rfl
  have hsecond : [c, d][1]? = some d := rfl
  have hkeys := keys_resolve_eq_iff hfirst hsecond hc.1 hd.1 hc.2 hd.2
  exact ⟨hc.1, hd.1, hc.2, hd.2, hkeys.2.2⟩

end Expr

end Casework
