import Casework.Proofs.Dispatch
import Casework.Proofs.Predicate
import Casework.Proofs.Spacing

/-!
# Keys, one by one

A condition that compares nothing is named by a quoted text.  Quoting puts a backslash
before each quote and each backslash, and reading takes a backslash and the character
behind it together.  The two stay in step over every text, so a quoted text ends at its
own closing quote and the text is known again from it.

The keys of a chain and its subject are also what one pass over the conditions gathers:
each condition gives one more key, and proposes a subject, which is adopted only where
there is none yet.  What is gathered of the conditions behind the first one never changes
the subject, and no key depends on what was gathered before it.

## Main definitions

* `Gathering`, `Gathering.take` — what has been gathered, and one more condition.
* `Expr.sides?` — the two sides of a comparison.
* `Expr.loosened` — the condition with `==` in the place of `===`.

## Main results

* `Literal.parse_text_quoted` — **a quoted text reads as one literal and loses nothing**.
* `Gathering.resolution_foldl_take` — resolving is one pass over the conditions.
* `resolve_loosened` — it does not matter which of `==` and `===` a condition compares by.
* `resolve_pointwise` — **each key comes from its own condition and the subject from the
  first one**.
-/

namespace Casework

/-! ### Quoted texts -/

namespace Literal

/-- A quoted text is read up to its own closing quote, whatever stands behind it. -/
theorem literal_text_quoted (text rest : List Char) :
    Reader.literal ((quoted text).text ++ rest) = .ok (quoted text) rest :=
  Reader.literal_str (lexical_quoted text) rest

/-- **A quoted text reads as one literal and loses nothing.**  Its text reads back as the
literal, alone and before anything else; without the backslashes that escape it, what
stands between its quotes is the text; and different texts have different literals. -/
theorem parse_text_quoted (text : List Char) :
    Expr.parse (String.ofList (quoted text).text) = .ok (.lit (quoted text)) ∧
      (∀ rest, Reader.literal ((quoted text).text ++ rest) = .ok (quoted text) rest) ∧
      (∃ raw, quoted text = .str .single raw ∧ unescape raw.toList = text) ∧
      ∀ other, quoted other = quoted text ↔ other = text := by
  refine ⟨?_, literal_text_quoted text, ?_, ?_⟩
  · -- the literal is an expression, and every expression with a text reads back
    have hlex : (Expr.lit (quoted text)).lexical = true := by
      rw [Expr.lexical, Expr.validBy]
      exact lexical_quoted text
    have hparse := Expr.parse_of_written isGap_nil (Expr.written_text _ hlex) isGap_nil
    rwa [List.nil_append, List.append_nil, Expr.text] at hparse
  · refine ⟨String.ofList (escape text), rfl, ?_⟩
    rw [String.toList_ofList, unescape_escape]
  · intro other
    constructor
    · exact quoted_inj
    · rintro rfl
      rfl

end Literal

/-! ### Resolving in one pass -/

/-- What the conditions taken up so far have come to: the subject, once one is adopted,
and the keys and events in order. -/
structure Gathering where
  discriminant : Option Discriminant
  keys : List Expr
  events : List Event

namespace Gathering

/-- Nothing is gathered before the first condition. -/
def empty : Gathering := ⟨none, [], []⟩

/-- One more key and perhaps an event come last; the proposed subject is adopted only where
there is none yet. -/
def add (g : Gathering) (proposed : Discriminant) (key : Expr) (event : Option Event) :
    Gathering where
  discriminant := g.discriminant.or (some proposed)
  keys := g.keys ++ [key]
  events := g.events ++ event.toList

/-- What is gathered with one more condition, by the shape of the condition. -/
def take (g : Gathering) (cond : Expr) : Gathering :=
  match Condition.of cond with
  | .comparison _ left right => g.add (.subject left) right none
  | .logical c left right =>
    let predicate := joined c left.predicate right.predicate
    g.add .truthy (.lit (.quoted predicate)) (some (.fallback .logical predicate))
  | .other e =>
    let predicate := trim e.text
    g.add .truthy (.lit (.quoted predicate)) (some (.fallback .other predicate))

/-- The resolution that a chain comes to; without a condition its subject is the truth. -/
def resolution (g : Gathering) : Traced Resolution where
  value := ⟨g.discriminant.getD .truthy, g.keys⟩
  events := g.events

end Gathering

/-- Any other condition has its text as its predicate text. -/
theorem Expr.predicate_other {e a : Expr} (h : Condition.of e = .other a) :
    e.predicate = trim a.text := by
  unfold Condition.of at h
  split at h
  case h_5 hand hor =>
    cases h
    exact Expr.predicate.eq_3 e hand hor
  all_goals cases h

namespace Gathering

/-- Whatever its shape, a condition proposes its subject and gives its key and its event,
without regard to what was gathered before. -/
theorem take_eq (g : Gathering) (cond : Expr) :
    g.take cond = g.add (.of cond) cond.key cond.fallback? := by
  unfold take Discriminant.of Expr.key Expr.fallback?
  cases hcond : Condition.of cond with
  | comparison equality left right => rfl
  | logical c left right => simp only [Expr.predicate_logical hcond]
  | other e => simp only [Expr.predicate_other hcond]

/-- A whole pass: of the subjects that are proposed only the first can be adopted, and the
keys and events come behind those that were there. -/
theorem foldl_take (conds : List Expr) : ∀ g : Gathering, conds.foldl take g =
    ⟨g.discriminant.or (conds.head?.map .of), g.keys ++ conds.map Expr.key,
      g.events ++ conds.filterMap Expr.fallback?⟩ := by
  induction conds with
  | nil =>
    intro g
    simp
  | cons cond conds ih =>
    intro g
    -- behind the first condition a subject is there, and no other is adopted
    have hadopted : (g.discriminant.or (some (.of cond))).or (conds.head?.map .of) =
        g.discriminant.or (some (.of cond)) := by
      cases g.discriminant <;> rfl
    have hevents : (cond :: conds).filterMap Expr.fallback? =
        cond.fallback?.toList ++ conds.filterMap Expr.fallback? := by
      rw [List.filterMap_cons]
      cases cond.fallback? <;> rfl
    rw [List.foldl_cons, ih, take_eq, hevents]
    simp only [add, hadopted, List.append_assoc, List.singleton_append, List.head?_cons,
      Option.map_some, List.map_cons]

/-- **Resolving is one pass over the conditions.** -/
theorem resolution_foldl_take (conds : List Expr) :
    (conds.foldl take empty).resolution = resolve conds := by
  rw [foldl_take]
  rfl

end Gathering

/-! ### What a key and the subject depend on -/

namespace Expr

/-- The two sides of a comparison by `==` or `===`. -/
def sides? : Expr → Option (Expr × Expr)
  | binary .equal left right | binary .identical left right => some (left, right)
  | _ => none

/-- The condition with `==` in the place of `===`, where it compares by that. -/
def loosened : Expr → Expr
  | binary .identical left right => binary .equal left right
  | e => e

/-- The key is the right side of a comparison, and the quoted predicate text otherwise. -/
theorem key_eq (cond : Expr) :
    cond.key = (cond.sides?.map Prod.snd).getD (lit (.quoted cond.predicate)) := by
  cases cond with
  | binary op left right => cases op <;> rfl
  | _ => rfl

end Expr

/-- The subject that a condition proposes is its left side, if it is a comparison. -/
theorem Discriminant.of_eq (cond : Expr) :
    Discriminant.of cond = (cond.sides?.map fun sides => .subject sides.1).getD .truthy := by
  cases cond with
  | binary op left right => cases op <;> rfl
  | _ => rfl

/-- It does not matter to a condition which of `==` and `===` it compares by. -/
theorem Expr.resolves_loosened (cond : Expr) :
    cond.loosened.key = cond.key ∧ Discriminant.of cond.loosened = Discriminant.of cond ∧
      cond.loosened.fallback? = cond.fallback? := by
  cases cond with
  | binary op left right => cases op <;> exact ⟨rfl, rfl, rfl⟩
  | _ => exact ⟨rfl, rfl, rfl⟩

/-- It does not matter to a chain which of `==` and `===` its conditions compare by. -/
theorem resolve_loosened (conds : List Expr) :
    resolve (conds.map Expr.loosened) = resolve conds := by
  have hkeys : (conds.map Expr.loosened).map Expr.key = conds.map Expr.key := by
    rw [List.map_map]
    exact List.map_congr_left fun cond _ => cond.resolves_loosened.1
  have hevents : (conds.map Expr.loosened).filterMap Expr.fallback? =
      conds.filterMap Expr.fallback? := by
    rw [List.filterMap_map]
    exact congrArg (conds.filterMap ·) (funext fun cond => cond.resolves_loosened.2.2)
  have hsubject : (conds.map Expr.loosened).head?.map Discriminant.of =
      conds.head?.map Discriminant.of := by
    cases conds with
    | nil => rfl
    | cons cond conds => exact congrArg some cond.resolves_loosened.2.1
  simp only [resolve, hkeys, hevents, hsubject]

/-- **Each key comes from its own condition and the subject from the first one.**  There is
a key for each condition: the right side of a comparison, and otherwise the quoted
predicate text of the condition.  Two chains that have a condition in common have its key
in common, wherever else they differ.  The subject is the left side of the first condition
if that is a comparison, and otherwise the truth; two chains that begin alike have it in
common.  Which of `==` and `===` a condition compares by makes no difference. -/
theorem resolve_pointwise (conds : List Expr) :
    (conds.foldl Gathering.take .empty).resolution = resolve conds ∧
      (resolve conds).value.keys.length = conds.length ∧
      (∀ i : Nat, (resolve conds).value.keys[i]? = conds[i]?.map fun cond =>
        (cond.sides?.map Prod.snd).getD (.lit (.quoted cond.predicate))) ∧
      (∀ (others : List Expr) (i : Nat), others[i]? = conds[i]? →
        (resolve others).value.keys[i]? = (resolve conds).value.keys[i]?) ∧
      (resolve conds).value.discriminant =
        ((conds.head?.bind Expr.sides?).map fun sides => .subject sides.1).getD .truthy ∧
      (∀ others, others.head? = conds.head? →
        (resolve others).value.discriminant = (resolve conds).value.discriminant) ∧
      ∀ others, others.map Expr.loosened = conds.map Expr.loosened →
        resolve others = resolve conds := by
  refine ⟨Gathering.resolution_foldl_take conds, ?_, ?_, ?_, ?_, ?_, ?_⟩
  · rw [keys_resolve, List.length_map]
  · intro i
    rw [keys_resolve, List.getElem?_map]
    exact congrArg (conds[i]?.map ·) (funext Expr.key_eq)
  · intro others i hi
    rw [keys_resolve, keys_resolve, List.getElem?_map, List.getElem?_map, hi]
  · cases conds with
    | nil => rfl
    | cons cond conds =>
      rw [discriminant_resolve_cons, Discriminant.of_eq]
      rfl
  · intro others hhead
    simp only [resolve, hhead]
  · intro others hloosened
    rw [← resolve_loosened others, hloosened, resolve_loosened]

/-- Two chains that differ in how their comparisons are written, and a third with another
condition in the middle. -/
theorem resolve_pointwise_mixed :
    let x := Expr.var "x"
    let one := Expr.lit (.int 1)
    let both := Expr.binary .and x (.binary .less one x)
    let conds := [Expr.binary .identical x one, both, .binary .equal both x]
    let others := [Expr.binary .equal x one, both, .binary .identical both x]
    let apart := [Expr.binary .identical x one, .unary .not x, .binary .equal both x]
    resolve others = resolve conds ∧
      (resolve apart).value.discriminant = (resolve conds).value.discriminant ∧
      (resolve apart).value.keys[2]? = (resolve conds).value.keys[2]? ∧
      (resolve conds).value.keys =
        [one, .lit (.str .single "($x) and (1 < $x)"), x] := by
  intro x one both conds others apart
  obtain ⟨-, -, -, hkey, -, hsubject, hloosened⟩ := resolve_pointwise conds
  exact ⟨hloosened others rfl, hsubject apart rfl, hkey apart 2 rfl, by decide⟩

end Casework
