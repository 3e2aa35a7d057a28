import Casework.Tree.Stmt

/-!
# Printing expressions

An expression is written on one line with the fewest parentheses that keep its
shape.  An operand is parenthesised when it binds looser than its place allows;
some places also refuse an operand that binds equally tight.

## Main definitions

* `separated` — texts with `, ` between them.
* `Expr.text` — the text of an expression.
* `Expr.bracket` — a text in parentheses when its place asks for them.
* `Arm.text` — the text of one arm of a `match`.
-/

namespace Casework

/-- The given texts with a comma and a space between them. -/
def separated : List (List Char) → List Char
  | [] => []
  | [t] => t
  | t :: u :: ts => t ++ ',' :: ' ' :: separated (u :: ts)

@[simp] theorem separated_nil : separated [] = [] := rfl

@[simp] theorem separated_singleton (t : List Char) : separated [t] = t := rfl

theorem separated_cons_cons (t u : List Char) (ts : List (List Char)) :
    separated (t :: u :: ts) = t ++ ',' :: ' ' :: separated (u :: ts) := rfl

namespace Expr

/-! ### Parentheses -/

/-- How tight an operand has to bind in its place to go without parentheses. -/
inductive Place where
  /-- At least as tight as the given strength. -/
  | atLeast (strength : Nat)
  /-- Tighter than the given strength. -/
  | above (strength : Nat)

/-- An operand of the given strength goes without parentheses. -/
def Place.admits : Place → Nat → Bool
  | .atLeast n, strength => n ≤ strength
  | .above n, strength => n < strength

/-- The text of an operand, in parentheses unless its place admits it bare. -/
def bracket (place : Place) (strength : Nat) (text : List Char) : List Char :=
  if place.admits strength then text else '(' :: (text ++ [')'])

@[simp] theorem bracket_of_admits {place : Place} {strength : Nat} {text : List Char}
    (h : place.admits strength = true) : bracket place strength text = text := by
  simp [bracket, h]

@[simp] theorem bracket_of_not_admits {place : Place} {strength : Nat} {text : List Char}
    (h : place.admits strength = false) :
    bracket place strength text = '(' :: (text ++ [')']) := by
  simp [bracket, h]

/-- The place left of an operator: an operator that chains takes its own strength
there, one that compares does not. -/
def leftPlace (op : BinOp) : Place :=
  if op.chains then .atLeast op.precedence else .above op.precedence

/-! ### Expressions -/

/-- A `match` on one line, from the texts of its subject and its arms. -/
def matchText (subject : List Char) (arms : List (List Char)) : List Char :=
  "match (".toList ++ subject ++ ") \x7b ".toList ++ separated arms ++ " \x7d".toList

mutual

/-- The text of an expression, on one line. -/
def text : Expr → List Char
  | var x => '$' :: x.toList
  | name x => x.toList
  | lit l => l.text
  | array items => '[' :: (separated (texts items) ++ [']'])
  | binary op a b =>
    bracket (leftPlace op) a.precedence a.text ++ ' ' :: (op.text ++ ' ' ::
      bracket (.above op.precedence) b.precedence b.text)
  | unary op a => op.text ++ bracket (.above 11) a.precedence a.text
  | assign a b =>
    bracket (.above 1) a.precedence a.text ++ ' ' :: '=' :: ' ' ::
      bracket (.atLeast 1) b.precedence b.text
  | ternary a b c =>
    bracket (.above 2) a.precedence a.text ++ ' ' :: '?' :: ' ' :: (b.text ++
      ' ' :: ':' :: ' ' :: bracket (.above 2) c.precedence c.text)
  | call f args =>
    bracket (.atLeast 12) f.precedence f.text ++ '(' :: (separated (texts args) ++ [')'])
  | index a i => bracket (.atLeast 12) a.precedence a.text ++ '[' :: (i.text ++ [']'])
  | prop a x => bracket (.atLeast 12) a.precedence a.text ++ '-' :: '>' :: x.toList
  | «match» s arms => matchText s.text (armTexts arms)

/-- The text of each expression. -/
def texts : List Expr → List (List Char)
  | [] => []
  | e :: es => e.text :: texts es

/-- The conditions of an arm, or the word for the default arm. -/
def guardText : Option (List Expr) → List Char
  | some conds => separated (texts conds)
  | none => "default".toList

/-- The text of each arm; comments are not shown within a line. -/
def armTexts : List (Arm Expr) → List (List Char)
  | [] => []
  | ⟨_, conds, body⟩ :: arms =>
    (guardText conds ++ " => ".toList ++ body.text) :: armTexts arms

end

@[simp] theorem texts_eq_map (es : List Expr) : texts es = es.map text := by
  induction es with
  | nil => rfl
  | cons e es ih => simp [texts, ih]

end Expr

/-- The text of one arm, without its comments. -/
def Arm.text (arm : Arm Expr) : List Char :=
  Expr.guardText arm.conds ++ " => ".toList ++ arm.body.text

@[simp] theorem Expr.armTexts_eq_map (arms : List (Arm Expr)) :
    Expr.armTexts arms = arms.map Arm.text := by
  induction arms with
  | nil => rfl
  | cons a as ih => simp [Expr.armTexts, Arm.text, ih]

end Casework
