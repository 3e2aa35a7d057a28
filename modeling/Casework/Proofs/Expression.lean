import Casework.Proofs.Written
import Casework.Reader.Program

/-!
# Expressions read back

The printer writes an expression in one of the ways it may be written, provided
its names, literals and strings are such that the reader knows them again.  So
the text of an expression reads back as the expression, alone or with something
behind it.

## Main definitions

* `Expr.validBy`, `Expr.lexical` — the names and literals of an expression are
  those of a text.

## Main results

* `Expr.written_text` — the text of an expression is one of the ways to write it.
* `Expr.parse_ofList_text` — **the text of an expression reads back as the expression**.
-/

namespace Casework

namespace Expr

/-! ### Valid expressions -/

mutual

/-- All names of the expression are names, all its literals are accepted, and no
`match` is in it. -/
def validBy (accepts : Literal → Bool) : Expr → Bool
  | var x => isIdentifier x
  | name x => isName x
  | lit l => accepts l
  | array items => validListBy accepts items
  | binary _ a b => a.validBy accepts && b.validBy accepts
  | unary _ a => a.validBy accepts
  | assign a b => a.validBy accepts && b.validBy accepts
  | ternary a b c => a.validBy accepts && b.validBy accepts && c.validBy accepts
  | call f args => f.validBy accepts && validListBy accepts args
  | index a i => a.validBy accepts && i.validBy accepts
  | prop a x => a.validBy accepts && isIdentifier x
  | «match» _ _ => false
termination_by structural e => e

/-- The same for every expression of a list. -/
def validListBy (accepts : Literal → Bool) : List Expr → Bool
  | [] => true
  | e :: es => e.validBy accepts && validListBy accepts es
termination_by structural es => es

end

/-- The expression has a text that stands for it. -/
def lexical (e : Expr) : Bool := e.validBy Literal.lexical

theorem validListBy_iff (accepts : Literal → Bool) (es : List Expr) :
    validListBy accepts es = true ↔ ∀ e ∈ es, e.validBy accepts = true := by
  induction es with
  | nil => simp [validListBy]
  | cons e es ih => simp [validListBy, ih]

/-! ### Literals replaced -/

mutual

/-- The expression with an expression in the place of each literal. -/
def mapLit (f : Literal → Expr) : Expr → Expr
  | var x => var x
  | name x => name x
  | lit l => f l
  | array items => array (mapLits f items)
  | binary op a b => binary op (a.mapLit f) (b.mapLit f)
  | unary op a => unary op (a.mapLit f)
  | assign a b => assign (a.mapLit f) (b.mapLit f)
  | ternary a b c => ternary (a.mapLit f) (b.mapLit f) (c.mapLit f)
  | call g args => call (g.mapLit f) (mapLits f args)
  | index a i => index (a.mapLit f) (i.mapLit f)
  | prop a x => prop (a.mapLit f) x
  | «match» s arms => «match» s arms
termination_by structural e => e

/-- The same for every expression of a list. -/
def mapLits (f : Literal → Expr) : List Expr → List Expr
  | [] => []
  | e :: es => e.mapLit f :: mapLits f es
termination_by structural es => es

end

mutual

/-- A literal in its own place changes nothing. -/
@[simp] theorem mapLit_lit : ∀ e : Expr, e.mapLit lit = e
  | var _ | name _ | lit _ | «match» _ _ => rfl
  | array items => by rw [mapLit, mapLits_lit items]
  | binary op a b => by rw [mapLit, mapLit_lit a, mapLit_lit b]
  | unary op a => by rw [mapLit, mapLit_lit a]
  | assign a b => by rw [mapLit, mapLit_lit a, mapLit_lit b]
  | ternary a b c => by rw [mapLit, mapLit_lit a, mapLit_lit b, mapLit_lit c]
  | call f args => by rw [mapLit, mapLit_lit f, mapLits_lit args]
  | index a i => by rw [mapLit, mapLit_lit a, mapLit_lit i]
  | prop a x => by rw [mapLit, mapLit_lit a]

@[simp] theorem mapLits_lit : ∀ es : List Expr, mapLits lit es = es
  | [] => rfl
  | e :: es => by rw [mapLits, mapLit_lit e, mapLits_lit es]

end

/-- The expression that is read where the literal is printed: the infinity reads as
a name. -/
def ofReadable (l : Literal) : Expr := if l.lexical then lit l else name "inf"

/-! ### The printer's text -/

variable {e : Expr} {q : Nat} {t : List Char}

/-- In parentheses or without, an operand binds as tight as its place asks for. -/
theorem exists_written_bracket (place : Place) (h : Written q e t)
    (hplace : place.admits 13 = true) :
    ∃ p, Written p e (bracket place q t) ∧ place.admits p = true := by
  rcases Bool.eq_false_or_eq_true (place.admits q) with hq | hq
  · rw [bracket_of_admits hq]
    exact ⟨q, h, hq⟩
  · rw [bracket_of_not_admits hq]
    exact ⟨13, .paren isGap_nil h isGap_nil, hplace⟩

theorem admits_leftPlace (op : BinOp) : (leftPlace op).admits 13 = true := by
  cases op <;> decide

section Printed

variable {accepts : Literal → Bool} {f : Literal → Expr}

mutual

/-- The text of an expression is one of the ways to write the expression that its
literals are read as, and it binds as tight as the expression. -/
theorem written_mapLit (hf : ∀ l, accepts l = true → Written 13 (f l) l.text) :
    ∀ e : Expr, e.validBy accepts = true → Written e.precedence (e.mapLit f) e.text
  | var x, h => by
    rw [validBy] at h
    rw [text]
    exact .var h
  | name x, h => by
    rw [validBy] at h
    rw [text]
    exact .name h
  | lit l, h => by
    rw [validBy] at h
    rw [text, mapLit]
    exact hf l h
  | array items, h => by
    rw [validBy] at h
    rw [text, texts_eq_map, mapLit]
    exact .array (items_mapLits hf items h)
  | binary op a b, h => by
    rw [validBy, Bool.and_eq_true] at h
    obtain ⟨p, ha, hp⟩ := exists_written_bracket _ (written_mapLit hf a h.1) (admits_leftPlace op)
    have habove : (Place.above op.precedence).admits 13 = true := by cases op <;> decide
    obtain ⟨q, hb, hq⟩ := exists_written_bracket _ (written_mapLit hf b h.2) habove
    rw [text]
    exact .binary op ha hp isGap_nil isGap_nil hb (of_decide_eq_true hq)
  | unary op a, h => by
    rw [validBy] at h
    obtain ⟨q, ha, hq⟩ := exists_written_bracket (.above 11) (written_mapLit hf a h) rfl
    have hq := of_decide_eq_true hq
    obtain ⟨c, s, heq, -, hne⟩ := ha.exists_cons
    rw [text]
    rw [heq] at ha ⊢
    refine .unary op isGap_nil ha (Nat.le_of_lt hq) fun _ hhead => ?_
    exact (hne hq).2 (Option.some.inj hhead)
  | assign a b, h => by
    rw [validBy, Bool.and_eq_true] at h
    obtain ⟨p, ha, hp⟩ := exists_written_bracket (.above 1) (written_mapLit hf a h.1) rfl
    obtain ⟨q, hb, -⟩ := exists_written_bracket (.atLeast 1) (written_mapLit hf b h.2) rfl
    rw [text]
    exact .assign ha (of_decide_eq_true hp) isGap_nil isGap_nil hb
  | ternary a b c, h => by
    rw [validBy, Bool.and_eq_true, Bool.and_eq_true] at h
    obtain ⟨o, ha, ho⟩ := exists_written_bracket (.above 2) (written_mapLit hf a h.1.1) rfl
    obtain ⟨q, hc, hq⟩ := exists_written_bracket (.above 2) (written_mapLit hf c h.2) rfl
    rw [text]
    exact .ternary ha (of_decide_eq_true ho) isGap_nil isGap_nil (written_mapLit hf b h.1.2)
      isGap_nil isGap_nil hc (of_decide_eq_true hq)
  | call g args, h => by
    rw [validBy, Bool.and_eq_true] at h
    obtain ⟨q, hg, hq⟩ := exists_written_bracket (.atLeast 12) (written_mapLit hf g h.1) rfl
    rw [text, texts_eq_map]
    exact .call hg (of_decide_eq_true hq) (items_mapLits hf args h.2)
  | index a i, h => by
    rw [validBy, Bool.and_eq_true] at h
    obtain ⟨q, ha, hq⟩ := exists_written_bracket (.atLeast 12) (written_mapLit hf a h.1) rfl
    rw [text]
    exact .index ha (of_decide_eq_true hq) isGap_nil (written_mapLit hf i h.2) isGap_nil
  | prop a x, h => by
    rw [validBy, Bool.and_eq_true] at h
    obtain ⟨q, ha, hq⟩ := exists_written_bracket (.atLeast 12) (written_mapLit hf a h.1) rfl
    rw [text]
    exact .prop ha (of_decide_eq_true hq) h.2
  | «match» _ _, h => by cases h

theorem items_mapLits (hf : ∀ l, accepts l = true → Written 13 (f l) l.text) :
    ∀ es : List Expr, validListBy accepts es = true →
      Items Written (mapLits f es) (separated (es.map text))
  | [], _ => .nil isGap_nil
  | [e], h => by
    rw [validListBy, Bool.and_eq_true] at h
    have hone := Items.one isGap_nil (written_mapLit hf e h.1) isGap_nil
    rwa [List.append_nil, List.nil_append] at hone
  | e :: e' :: es, h => by
    rw [validListBy, Bool.and_eq_true] at h
    rw [List.map_cons, List.map_cons, separated_cons_cons]
    exact .cons isGap_nil (written_mapLit hf e h.1) isGap_nil (items_mapLits hf (e' :: es) h.2)

end

end Printed

/-- The text of an expression is one of the ways to write it, and it binds as
tight as the expression. -/
theorem written_text (e : Expr) (h : e.validBy Literal.lexical = true) :
    Written e.precedence e e.text := by
  have hwritten := written_mapLit (f := lit) (fun l hl => .lit hl) e h
  rwa [mapLit_lit] at hwritten

theorem written_ofReadable {l : Literal} (h : l.readable = true) :
    Written 13 (ofReadable l) l.text := by
  unfold ofReadable
  split
  · next hl => exact .lit hl
  · next hl =>
    rw [Literal.readable, Bool.or_eq_true, beq_iff_eq] at h
    obtain rfl := h.resolve_left hl
    exact .name rfl

/-- **The text of an expression reads back as the expression.** -/
theorem parse_ofList_text (e : Expr) (h : e.lexical = true) :
    Expr.parse (String.ofList e.text) = .ok e := by
  have hread := (written_text e h).expr_ok (Nat.lt_succ_self _) ends_nil
  have hgap : Reader.gap [] = .ok () [] := rfl
  have hreader : (do let e ← Reader.expr (e.text.length + 1); Reader.gap; pure e : Reader Expr)
      e.text = .ok e [] := by
    rw [List.append_nil] at hread
    rw [Reader.bind_ok hread, Reader.bind_ok hgap]
    rfl
  unfold Expr.parse
  rw [String.toList_ofList]
  simp only [hreader, List.isEmpty_nil, if_true]

/-- The expression written `$a == 1 ? f\g('it\'s', [$b]) : -($c = null)->d`. -/
theorem parse_ofList_text_choice :
    let e := ternary (binary .equal (var "a") (lit (.int 1)))
      (call (name "f\\g") [lit (.str .single "it\\'s"), array [var "b"]])
      (unary .neg (prop (assign (var "c") (lit .null)) "d"))
    e.lexical = true ∧ Expr.parse (String.ofList e.text) = .ok e :=
  ⟨by decide, parse_ofList_text _ (by decide)⟩

end Expr

end Casework
