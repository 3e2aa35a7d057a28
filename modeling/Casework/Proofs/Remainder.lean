import Mathlib.Data.List.Induction
import Casework.Reader.Program
import Casework.Tree.Same

/-!
# What is left of a text

A failure is reported where its reader stood, and where a reader stands is told by
what it has left to read.  This is a place of the source only if every reader leaves
an end of the text that it is given: when it reads, when it misses and when it halts,
and also where it gives back what it had looked at.

The property is carried through the combinators and then through the readers in the
order of the grammar.  From it the offset of a fault is a number of bytes that some
characters of the source fill, so that its line and column are counted to just there.

## Main definitions

* `Reply.rest` — what a reply says is left to read.
* `Reader.LeavesSuffix` — whatever the reader replies, what is left is an end of what
  it was given.
* `Fault.StandsIn` — the fault stands behind a beginning of the source.

## Main results

* `Reader.leavesSuffix_expression`, `Reader.leavesSuffix_program` — the readers of the
  language leave an end of the text.
* `Position.line_after`, `Position.column_after` — line and column count line feeds
  and characters.
* `Fault.standsIn_of_reply` — a text that is not read to its end has a fault in it.
* `Fault.position_of_parse` — **a fault stands at a character of the source, and its
  line and column are counted up to there**.
-/

namespace Casework

/-- What is left to read, or was when the reader gave up. -/
def Reply.rest {α : Type} : Reply α → List Char
  | .ok _ r => r
  | .miss r => r
  | .halt _ r => r

/-- What stands behind a gap is an end of the text. -/
theorem gapFrom_suffix (owed : Nat) (s : List Char) : (gapFrom owed s).2 <:+ s := by
  fun_induction gapFrom owed s with
  | case1 => exact List.suffix_rfl
  | case2 owed c s ih => exact ih.trans (List.suffix_cons c s)
  | case3 c s hc ih => exact ih.trans (List.suffix_cons c s)
  | case4 c s hc text htext others rest heq ih =>
    rw [heq] at ih
    exact ih.trans (List.suffix_cons c s)
  | case5 c s hc htext => exact List.suffix_rfl

namespace Reader

variable {α β : Type} {p q : Reader α}

/-- Whatever the reader replies, what is left is an end of the text it was given. -/
def LeavesSuffix (p : Reader α) : Prop := ∀ s, (p s).rest <:+ s

/-! ### Combinators -/

theorem leavesSuffix_pure (a : α) : (pure a : Reader α).LeavesSuffix :=
  fun _ => List.suffix_rfl

theorem leavesSuffix_fail : (fail : Reader α).LeavesSuffix := fun _ => List.suffix_rfl

theorem leavesSuffix_bind {f : α → Reader β} (hp : p.LeavesSuffix)
    (hf : ∀ a, (f a).LeavesSuffix) : (p >>= f).LeavesSuffix := by
  intro s
  have hs := hp s
  rw [bind_apply]
  cases h : p s with
  | ok a r =>
    rw [h] at hs
    exact (hf a r).trans hs
  | miss r | halt _ r => rwa [h] at hs

theorem leavesSuffix_map {g : α → β} (hp : p.LeavesSuffix) :
    (p >>= fun a => pure (g a)).LeavesSuffix :=
  leavesSuffix_bind hp fun _ => leavesSuffix_pure _

theorem leavesSuffix_orElse (hp : p.LeavesSuffix) (hq : q.LeavesSuffix) :
    (p <|> q).LeavesSuffix := by
  intro s
  rw [orElse_apply]
  split
  · exact hq s
  · exact hp s

/-- Giving back what was looked at leaves the whole text. -/
theorem leavesSuffix_optional (hp : p.LeavesSuffix) : (optional p).LeavesSuffix := by
  intro s
  have hs := hp s
  rw [optional]
  split
  · next a r h => rwa [h] at hs
  · exact List.suffix_rfl
  · next e r h => rwa [h] at hs

theorem leavesSuffix_many (hp : p.LeavesSuffix) (n : Nat) : (many p n).LeavesSuffix := by
  induction n with
  | zero => exact fun _ => List.suffix_rfl
  | succ n ih =>
    intro s
    have hs := hp s
    rw [many_succ]
    cases h : p s with
    | ok a r =>
      rw [h] at hs
      -- the further rounds leave an end of what the first one has left
      have hmore := (ih r).trans hs
      dsimp only
      cases hmany : many p n r with
      | ok _ t | miss t | halt _ t => rwa [hmany] at hmore
    | miss r => exact List.suffix_rfl
    | halt e r => rwa [h] at hs

theorem leavesSuffix_sepBy1 (hp : p.LeavesSuffix) {separator : Reader Unit}
    (hsep : separator.LeavesSuffix) (n : Nat) : (sepBy1 p separator n).LeavesSuffix :=
  leavesSuffix_bind hp fun _ =>
    leavesSuffix_map (leavesSuffix_many (leavesSuffix_bind hsep fun _ => hp) n)

theorem leavesSuffix_commit (hp : p.LeavesSuffix) : (commit p).LeavesSuffix := by
  intro s
  have hs := hp s
  rw [commit]
  split
  · next r h => rwa [h] at hs
  · exact hs

theorem leavesSuffix_require (hp : p.LeavesSuffix) (what : Expected) :
    (require what p).LeavesSuffix := by
  intro s
  have hs := hp s
  rw [require]
  split
  · next a r h => rwa [h] at hs
  · next r h => rwa [h] at hs
  · next e r h => rwa [h] at hs

/-! ### Characters, words and literals -/

theorem leavesSuffix_gap : gap.LeavesSuffix := fun s => gapFrom_suffix 0 s

theorem leavesSuffix_satisfy (accepts : Char → Bool) : (satisfy accepts).LeavesSuffix := by
  intro s
  cases s with
  | nil => exact List.suffix_rfl
  | cons c s =>
    rw [satisfy]
    split
    · exact List.suffix_cons c s
    · exact List.suffix_rfl

theorem leavesSuffix_char (c : Char) : (char c).LeavesSuffix := by
  intro s
  cases s with
  | nil => exact List.suffix_rfl
  | cons d s =>
    rw [char]
    split
    · exact List.suffix_cons d s
    · exact List.suffix_rfl

theorem leavesSuffix_token (text : List Char) : (token text).LeavesSuffix := by
  intro s
  rw [token]
  split
  · exact List.drop_suffix _ s
  · exact List.suffix_rfl

theorem leavesSuffix_notNext (refuses : Char → Bool) : (notNext refuses).LeavesSuffix := by
  intro s
  cases s with
  | nil => exact List.suffix_rfl
  | cons c s =>
    rw [notNext]
    split <;> exact List.suffix_rfl

theorem leavesSuffix_span (accepts : Char → Bool) : (span accepts).LeavesSuffix :=
  fun _ => List.dropWhile_suffix accepts

theorem leavesSuffix_letters (word : List Char) : (letters word).LeavesSuffix := by
  intro s
  fun_induction letters word s with
  | case1 s => exact List.suffix_rfl
  | case2 => exact List.suffix_rfl
  | case3 w word c s hc a r hread ih =>
    rw [hread] at ih
    exact ih.trans (List.suffix_cons c s)
  | case4 => exact List.suffix_rfl
  | case5 => exact List.suffix_rfl

theorem leavesSuffix_keyword (word : String) : (keyword word).LeavesSuffix :=
  leavesSuffix_bind (leavesSuffix_letters _) fun _ => leavesSuffix_notNext _

theorem leavesSuffix_word (first further : Char → Bool) : (word first further).LeavesSuffix :=
  leavesSuffix_bind (leavesSuffix_satisfy _) fun _ => leavesSuffix_map (leavesSuffix_span _)

theorem leavesSuffix_digits : digits.LeavesSuffix :=
  leavesSuffix_bind (leavesSuffix_satisfy _) fun _ => leavesSuffix_map (leavesSuffix_span _)

/-- A string that is not closed is left at its end, or behind its last backslash. -/
theorem leavesSuffix_rawText (quote : Char) : (rawText quote).LeavesSuffix := by
  intro s
  fun_induction rawText quote s with
  | case1 => exact List.suffix_rfl
  | case2 c s hc => exact List.suffix_rfl
  | case3 c hquote hslash => exact List.suffix_cons c []
  | case4 c hquote hslash d t raw r hread ih =>
    rw [hread] at ih
    exact (ih.trans (List.suffix_cons d t)).trans (List.suffix_cons c _)
  | case5 c hquote hslash d t r hread ih =>
    rw [hread] at ih
    exact (ih.trans (List.suffix_cons d t)).trans (List.suffix_cons c _)
  | case6 c hquote hslash d t e r hread ih =>
    rw [hread] at ih
    exact (ih.trans (List.suffix_cons d t)).trans (List.suffix_cons c _)
  | case7 c s hquote hslash raw r hread ih =>
    rw [hread] at ih
    exact ih.trans (List.suffix_cons c s)
  | case8 c s hquote hslash r hread ih =>
    rw [hread] at ih
    exact ih.trans (List.suffix_cons c s)
  | case9 c s hquote hslash e r hread ih =>
    rw [hread] at ih
    exact ih.trans (List.suffix_cons c s)

theorem leavesSuffix_quotedBy (q : Quote) : (quotedBy q).LeavesSuffix :=
  leavesSuffix_bind (leavesSuffix_char _) fun _ =>
    leavesSuffix_bind (leavesSuffix_rawText _) fun _ => leavesSuffix_map (leavesSuffix_char _)

theorem leavesSuffix_literal : literal.LeavesSuffix := by
  have hword : ∀ (word : String) (l : Literal),
      (do keyword word; pure l : Reader Literal).LeavesSuffix :=
    fun word l => leavesSuffix_map (leavesSuffix_keyword word)
  refine leavesSuffix_orElse (hword _ _) (leavesSuffix_orElse (hword _ _)
    (leavesSuffix_orElse (hword _ _) (leavesSuffix_orElse ?_ (leavesSuffix_orElse ?_
      (leavesSuffix_orElse (leavesSuffix_quotedBy _) (leavesSuffix_quotedBy _))))))
  · exact leavesSuffix_bind leavesSuffix_digits fun _ =>
      leavesSuffix_bind (leavesSuffix_char _) fun _ => leavesSuffix_map leavesSuffix_digits
  · exact leavesSuffix_map leavesSuffix_digits

/-! ### Expressions -/

section Expressions

variable {whole operand : Reader Expr} {nested : Entry → Reader Expr} {fuel : Nat}

theorem leavesSuffix_operator (level : Level) : level.operator.LeavesSuffix := by
  have htoken : ∀ (text : List Char) (op : BinOp),
      (do token text; pure op : Reader BinOp).LeavesSuffix :=
    fun text op => leavesSuffix_map (leavesSuffix_token text)
  have hchar : ∀ (c : Char) (op : BinOp), (do char c; pure op : Reader BinOp).LeavesSuffix :=
    fun c op => leavesSuffix_map (leavesSuffix_char c)
  have hguarded : ∀ (c : Char) (refuses : Char → Bool) (op : BinOp),
      (do char c; notNext refuses; pure op : Reader BinOp).LeavesSuffix :=
    fun c refuses op => leavesSuffix_bind (leavesSuffix_char c) fun _ =>
      leavesSuffix_map (leavesSuffix_notNext refuses)
  cases level with
  | or => exact htoken _ _
  | and => exact htoken _ _
  | equality =>
    exact leavesSuffix_orElse (htoken _ _) (leavesSuffix_orElse (htoken _ _)
      (leavesSuffix_orElse (htoken _ _) (leavesSuffix_orElse (htoken _ _) (htoken _ _))))
  | relation =>
    exact leavesSuffix_orElse (htoken _ _) (leavesSuffix_orElse (htoken _ _)
      (leavesSuffix_orElse (hguarded _ _ _) (hchar _ _)))
  | concat => exact hguarded _ _ _
  | sum => exact leavesSuffix_orElse (hguarded _ _ _) (hguarded _ _ _)
  | product =>
    exact leavesSuffix_bind (leavesSuffix_orElse (hchar _ _)
      (leavesSuffix_orElse (hchar _ _) (hchar _ _))) fun _ =>
        leavesSuffix_map (leavesSuffix_notNext _)

theorem leavesSuffix_binary (hoperand : operand.LeavesSuffix) (fuel : Nat) (level : Level) :
    (binary fuel level operand).LeavesSuffix := by
  have hstep : (do
      gap
      let op ← level.operator
      let right ← operand
      pure (op, right) : Reader (BinOp × Expr)).LeavesSuffix :=
    leavesSuffix_bind leavesSuffix_gap fun _ => leavesSuffix_bind (leavesSuffix_operator level)
      fun _ => leavesSuffix_map hoperand
  unfold binary
  refine leavesSuffix_bind hoperand fun first => ?_
  dsimp only
  split
  · exact leavesSuffix_map (leavesSuffix_many hstep fuel)
  · refine leavesSuffix_bind (leavesSuffix_optional hstep) fun part => ?_
    cases part with
    | none => exact leavesSuffix_pure _
    | some part => exact leavesSuffix_pure _

theorem leavesSuffix_within (hwhole : whole.LeavesSuffix) (o c : Char) :
    (within o c whole).LeavesSuffix :=
  leavesSuffix_bind (leavesSuffix_char o) fun _ => leavesSuffix_bind leavesSuffix_gap fun _ =>
    leavesSuffix_bind hwhole fun _ => leavesSuffix_bind leavesSuffix_gap fun _ =>
      leavesSuffix_map (leavesSuffix_char c)

theorem leavesSuffix_comma : (do gap; char ',' : Reader Unit).LeavesSuffix :=
  leavesSuffix_bind leavesSuffix_gap fun _ => leavesSuffix_char ','

theorem leavesSuffix_items (hwhole : whole.LeavesSuffix) (fuel : Nat) :
    (sepBy1 (do gap; whole) (do gap; char ',') fuel).LeavesSuffix :=
  leavesSuffix_sepBy1 (leavesSuffix_bind leavesSuffix_gap fun _ => hwhole) leavesSuffix_comma fuel

theorem leavesSuffix_listIn (hwhole : whole.LeavesSuffix) (fuel : Nat) (o c : Char) :
    (listIn fuel o c whole).LeavesSuffix := by
  refine leavesSuffix_bind (leavesSuffix_char o) fun _ => leavesSuffix_bind leavesSuffix_gap
    fun _ => leavesSuffix_bind (leavesSuffix_optional ?_) fun _ =>
      leavesSuffix_bind leavesSuffix_gap fun _ => leavesSuffix_map (leavesSuffix_char c)
  exact leavesSuffix_bind (leavesSuffix_items hwhole fuel) fun _ =>
    leavesSuffix_map (leavesSuffix_optional leavesSuffix_comma)

theorem leavesSuffix_primary (hwhole : whole.LeavesSuffix) (fuel : Nat) :
    (primary fuel whole).LeavesSuffix :=
  leavesSuffix_bind leavesSuffix_gap fun _ => leavesSuffix_orElse (leavesSuffix_within hwhole _ _)
    (leavesSuffix_orElse (leavesSuffix_map (leavesSuffix_listIn hwhole fuel _ _))
      (leavesSuffix_orElse
        (leavesSuffix_bind (leavesSuffix_char _) fun _ => leavesSuffix_map (leavesSuffix_word _ _))
        (leavesSuffix_orElse (leavesSuffix_map leavesSuffix_literal)
          (leavesSuffix_map (leavesSuffix_word _ _)))))

theorem leavesSuffix_suffix (hwhole : whole.LeavesSuffix) (fuel : Nat) :
    (suffix fuel whole).LeavesSuffix :=
  leavesSuffix_bind leavesSuffix_gap fun _ =>
    leavesSuffix_orElse (leavesSuffix_map (leavesSuffix_listIn hwhole fuel _ _))
      (leavesSuffix_orElse (leavesSuffix_map (leavesSuffix_within hwhole _ _))
        (leavesSuffix_bind (leavesSuffix_token _) fun _ => leavesSuffix_bind leavesSuffix_gap
          fun _ => leavesSuffix_map (leavesSuffix_word _ _)))

theorem leavesSuffix_unary (hnested : ∀ entry, (nested entry).LeavesSuffix) (fuel : Nat) :
    (unary fuel nested).LeavesSuffix := by
  refine leavesSuffix_bind leavesSuffix_gap fun _ =>
    leavesSuffix_orElse ?_ (leavesSuffix_orElse ?_ ?_)
  · exact leavesSuffix_bind (leavesSuffix_char _) fun _ => leavesSuffix_bind leavesSuffix_gap
      fun _ => leavesSuffix_map (hnested .operand)
  · exact leavesSuffix_bind (leavesSuffix_char _) fun _ => leavesSuffix_bind
      (leavesSuffix_notNext _) fun _ => leavesSuffix_bind leavesSuffix_gap fun _ =>
        leavesSuffix_map (hnested .operand)
  · exact leavesSuffix_bind (leavesSuffix_primary (hnested .whole) fuel) fun _ =>
      leavesSuffix_map (leavesSuffix_many (leavesSuffix_suffix (hnested .whole) fuel) fuel)

theorem leavesSuffix_operation (hnested : ∀ entry, (nested entry).LeavesSuffix) (fuel : Nat) :
    (operation fuel nested).LeavesSuffix := by
  unfold operation
  induction Level.all with
  | nil => exact leavesSuffix_unary hnested fuel
  | cons level levels ih => exact leavesSuffix_binary ih fuel level

theorem leavesSuffix_ternary (hnested : ∀ entry, (nested entry).LeavesSuffix) (fuel : Nat) :
    (ternary fuel nested).LeavesSuffix := by
  refine leavesSuffix_bind (leavesSuffix_operation hnested fuel) fun cond =>
    leavesSuffix_bind (leavesSuffix_optional ?_) fun branches => ?_
  · exact leavesSuffix_bind leavesSuffix_gap fun _ => leavesSuffix_bind (leavesSuffix_char _)
      fun _ => leavesSuffix_bind (hnested .whole) fun _ => leavesSuffix_bind leavesSuffix_gap
        fun _ => leavesSuffix_bind (leavesSuffix_char _) fun _ =>
          leavesSuffix_map (leavesSuffix_commit (hnested .choice))
  · cases branches with
    | none => exact leavesSuffix_pure _
    | some b => exact leavesSuffix_pure _

theorem leavesSuffix_assign (hnested : ∀ entry, (nested entry).LeavesSuffix) (fuel : Nat) :
    (assign fuel nested).LeavesSuffix := by
  refine leavesSuffix_bind (leavesSuffix_ternary hnested fuel) fun target =>
    leavesSuffix_bind (leavesSuffix_optional ?_) fun value => ?_
  · exact leavesSuffix_bind leavesSuffix_gap fun _ => leavesSuffix_bind (leavesSuffix_char _)
      fun _ => leavesSuffix_bind (leavesSuffix_notNext _) fun _ => hnested .whole
  · cases value with
    | none => exact leavesSuffix_pure _
    | some value => exact leavesSuffix_pure _

/-- Expressions of any entry leave an end of the text. -/
theorem leavesSuffix_expression (n : Nat) : ∀ entry, (expression n entry).LeavesSuffix := by
  induction n with
  | zero => exact fun _ => leavesSuffix_fail
  | succ n ih =>
    intro entry
    rw [expression_succ]
    cases entry with
    | whole => exact leavesSuffix_assign ih _
    | choice => exact leavesSuffix_ternary ih _
    | operand => exact leavesSuffix_unary ih _

theorem leavesSuffix_expr (n : Nat) : (expr n).LeavesSuffix := leavesSuffix_expression n .whole

end Expressions

/-! ### Statements -/

section Statements

variable {nested : Led} (hnested : ∀ k, (nested k).LeavesSuffix)
include hnested

theorem leavesSuffix_statements (stop : Stop) (n : Nat) :
    (statements nested stop n).LeavesSuffix := by
  induction n with
  | zero => exact fun _ => List.suffix_rfl
  | succ n ih =>
    intro s
    have hgap := gapFrom_suffix 0 s
    have hfirst := hnested (gapFrom 0 s).1 (gapFrom 0 s).2
    rw [statements]
    split
    · exact hgap
    · split
      -- comments before a label are given back
      · exact List.suffix_rfl
      · cases h : nested (gapFrom 0 s).1 (gapFrom 0 s).2 with
        | ok stmt r =>
          rw [h] at hfirst
          have hmore := (ih r).trans (hfirst.trans hgap)
          dsimp only
          cases hrest : statements nested stop n r with
          | ok _ t | miss t | halt _ t => rwa [hrest] at hmore
        | miss r | halt _ r =>
          rw [h] at hfirst
          exact hfirst.trans hgap

theorem leavesSuffix_braced (fuel : Nat) : (braced fuel nested).LeavesSuffix :=
  leavesSuffix_bind (leavesSuffix_char _) fun _ =>
    leavesSuffix_bind (leavesSuffix_statements hnested _ fuel) fun _ =>
      leavesSuffix_map (leavesSuffix_require (leavesSuffix_char _) _)

theorem leavesSuffix_body (fuel : Nat) : (body fuel nested).LeavesSuffix := by
  refine leavesSuffix_bind leavesSuffix_gap fun _ => ?_
  intro s
  dsimp only
  split
  · exact leavesSuffix_braced hnested fuel _
  · exact leavesSuffix_map (hnested []) s

omit hnested in
theorem leavesSuffix_condition (fuel : Nat) : (condition fuel).LeavesSuffix :=
  leavesSuffix_require (leavesSuffix_bind leavesSuffix_gap fun _ =>
    leavesSuffix_within (leavesSuffix_expr fuel) _ _) _

theorem leavesSuffix_clauses (fuel n : Nat) : (clauses fuel nested n).LeavesSuffix := by
  have hbody := leavesSuffix_commit (leavesSuffix_body hnested fuel)
  induction n with
  | zero => exact fun _ => List.suffix_rfl
  | succ n ih =>
    intro s
    have hgap := gapFrom_suffix 0 s
    have helseif := leavesSuffix_keyword "elseif" (gapFrom 0 s).2
    rw [clauses]
    dsimp only
    cases h : keyword "elseif" (gapFrom 0 s).2 with
    | ok a r =>
      rw [h] at helseif
      refine List.IsSuffix.trans ?_ (helseif.trans hgap)
      exact leavesSuffix_bind (leavesSuffix_condition fuel) (fun _ => leavesSuffix_bind hbody
        fun _ => leavesSuffix_map ih) r
    | miss r | halt _ r =>
      -- wherever `elseif` was given up, `else` is looked for, and nothing is taken without it
      rw [h] at helseif
      have helse := leavesSuffix_keyword "else" r
      dsimp only
      cases hword : keyword "else" r with
      | ok a t =>
        rw [hword] at helse
        exact (leavesSuffix_map hbody t).trans (helse.trans (helseif.trans hgap))
      | miss t | halt _ t => exact List.suffix_rfl

omit hnested in
theorem leavesSuffix_label (fuel : Nat) : (label fuel).LeavesSuffix := by
  refine leavesSuffix_bind (leavesSuffix_require (leavesSuffix_orElse ?_ ?_) _) fun _ =>
    leavesSuffix_map (leavesSuffix_require ?_ _)
  · exact leavesSuffix_bind (leavesSuffix_keyword _) fun _ => leavesSuffix_bind leavesSuffix_gap
      fun _ => leavesSuffix_map (leavesSuffix_expr fuel)
  · exact leavesSuffix_map (leavesSuffix_keyword _)
  · exact leavesSuffix_bind leavesSuffix_gap fun _ => leavesSuffix_map (leavesSuffix_satisfy _)

theorem leavesSuffix_cases (fuel n : Nat) : (cases fuel nested n).LeavesSuffix := by
  induction n with
  | zero => exact fun _ => List.suffix_rfl
  | succ n ih =>
    intro s
    have hgap := gapFrom_suffix 0 s
    rw [cases]
    split
    · exact (List.tail_suffix _).trans hgap
    · refine List.IsSuffix.trans ?_ hgap
      exact leavesSuffix_bind (leavesSuffix_label fuel) (fun _ => leavesSuffix_bind
        (leavesSuffix_statements hnested .label fuel) fun _ => leavesSuffix_map ih) _

omit hnested in
theorem leavesSuffix_semicolon : semicolon.LeavesSuffix :=
  leavesSuffix_bind leavesSuffix_gap fun _ => leavesSuffix_require (leavesSuffix_char _) _

omit hnested in
theorem leavesSuffix_leaf (fuel : Nat) : (leaf fuel).LeavesSuffix := by
  have hjump : ∀ (word : String) (l : Leaf),
      (do keyword word; semicolon; return l : Reader Leaf).LeavesSuffix :=
    fun word l => leavesSuffix_bind (leavesSuffix_keyword word) fun _ =>
      leavesSuffix_map leavesSuffix_semicolon
  refine leavesSuffix_orElse ?_ (leavesSuffix_orElse ?_ (leavesSuffix_orElse (hjump _ _)
    (hjump _ _)))
  · exact leavesSuffix_bind (leavesSuffix_keyword _) fun _ => leavesSuffix_bind
      (leavesSuffix_commit (leavesSuffix_items (leavesSuffix_expr fuel) fuel)) fun _ =>
        leavesSuffix_map leavesSuffix_semicolon
  · exact leavesSuffix_bind (leavesSuffix_keyword _) fun _ => leavesSuffix_bind
      (leavesSuffix_optional (leavesSuffix_bind leavesSuffix_gap fun _ => leavesSuffix_expr fuel))
        fun _ => leavesSuffix_map leavesSuffix_semicolon

omit hnested in
theorem leavesSuffix_plain (fuel : Nat) : (plain fuel).LeavesSuffix :=
  leavesSuffix_orElse (leavesSuffix_map (leavesSuffix_char _))
    (leavesSuffix_bind (leavesSuffix_expr fuel) fun _ => leavesSuffix_map leavesSuffix_semicolon)

theorem leavesSuffix_kind (fuel : Nat) (k : List Comment) : (kind fuel nested k).LeavesSuffix := by
  have hbody := leavesSuffix_commit (leavesSuffix_body hnested fuel)
  have hcond := leavesSuffix_condition fuel
  refine leavesSuffix_orElse ?_ (leavesSuffix_orElse ?_ (leavesSuffix_orElse ?_
    (leavesSuffix_orElse (leavesSuffix_map (leavesSuffix_leaf fuel)) (leavesSuffix_orElse
      (leavesSuffix_map (leavesSuffix_braced hnested fuel))
      (leavesSuffix_map (leavesSuffix_plain fuel))))))
  · exact leavesSuffix_bind (leavesSuffix_keyword _) fun _ => leavesSuffix_bind hcond fun _ =>
      leavesSuffix_bind hbody fun _ => leavesSuffix_map (leavesSuffix_clauses hnested fuel fuel)
  · exact leavesSuffix_bind (leavesSuffix_keyword _) fun _ => leavesSuffix_bind hcond fun _ =>
      leavesSuffix_map hbody
  · exact leavesSuffix_bind (leavesSuffix_keyword _) fun _ => leavesSuffix_bind hcond fun _ =>
      leavesSuffix_bind (leavesSuffix_require (leavesSuffix_bind leavesSuffix_gap fun _ =>
        leavesSuffix_char _) _) fun _ => leavesSuffix_map (leavesSuffix_cases hnested fuel fuel)

end Statements

/-- Statements leave an end of the text, whatever comments lead them. -/
theorem leavesSuffix_statement (n : Nat) : ∀ k, (statement n k).LeavesSuffix := by
  induction n with
  | zero => exact fun _ => leavesSuffix_fail
  | succ n ih => exact fun k => leavesSuffix_kind ih (n + 1) k

/-- Programs leave an end of the text. -/
theorem leavesSuffix_program (fuel : Nat) : (program fuel).LeavesSuffix := by
  refine leavesSuffix_bind (leavesSuffix_map (leavesSuffix_optional ?_)) fun _ =>
    leavesSuffix_map (leavesSuffix_statements (leavesSuffix_statement fuel) _ fuel)
  exact leavesSuffix_bind (leavesSuffix_span _) fun _ => leavesSuffix_token _

end Reader

/-! ### Lines and columns -/

namespace Position

theorem after_concat (text : List Char) (c : Char) :
    after (text ++ [c]) = (after text).advance c := by
  rw [after_append]
  rfl

/-- The line counts the line feeds that were read. -/
theorem line_after (text : List Char) : (after text).line = 1 + text.count '\n' := by
  induction text using List.reverseRecOn with
  | nil => rfl
  | append_singleton text c ih =>
    rw [after_concat, advance, List.count_append]
    by_cases hc : c = '\n'
    · subst hc
      simp [ih, Nat.add_assoc]
    · simp [hc, ih]

/-- The column counts the characters since the last line feed. -/
theorem column_after (text : List Char) :
    (after text).column = 1 + (text.reverse.takeWhile (· != '\n')).length := by
  induction text using List.reverseRecOn with
  | nil => rfl
  | append_singleton text c ih =>
    rw [after_concat, advance, List.reverse_append]
    by_cases hc : c = '\n'
    · simp [hc]
    · simp [hc, ih, Nat.add_assoc]

end Position

/-! ### Where faults stand -/

namespace Fault

/-- The fault stands behind a beginning of the source. -/
def StandsIn (f : Fault) (source : List Char) : Prop :=
  ∃ read rest, source = read ++ rest ∧ f.position = .after read

variable {source rest : List Char}

theorem standsIn_failed (h : rest <:+ source) (expected : Option Expected) :
    (failed source expected rest).StandsIn source := by
  obtain ⟨read, rfl⟩ := h
  exact ⟨read, rest, rfl, Position.before_append read rest⟩

theorem leadingWhiteSpace_prefix (rest : List Char) : leadingWhiteSpace rest <+: rest := by
  unfold leadingWhiteSpace
  split
  · exact List.nil_prefix
  · exact List.takeWhile_prefix isWhiteSpace

/-- The white space that is passed over belongs to the rest, so the fault moves to a
place of the source. -/
theorem standsIn_leftOver (h : rest <:+ source) : (leftOver source rest).StandsIn source := by
  obtain ⟨read, rfl⟩ := h
  obtain ⟨behind, hbehind⟩ := leadingWhiteSpace_prefix rest
  refine ⟨read ++ leadingWhiteSpace rest, behind, ?_, ?_⟩
  · rw [List.append_assoc, hbehind]
  · have hoffset : byteSize (read ++ rest) - byteSize rest + byteSize (leadingWhiteSpace rest) =
        byteSize (read ++ leadingWhiteSpace rest) := by
      rw [byteSize_append, Nat.add_sub_cancel, byteSize_append]
    have hsource : read ++ rest = read ++ leadingWhiteSpace rest ++ behind := by
      rw [List.append_assoc, hbehind]
    rw [leftOver, hoffset, hsource, Position.ofOffset_append]

/-- A text that is not read to its end, or not at all, has a fault that stands in it. -/
theorem standsIn_of_reply {α : Type} {p : Reader α} {f : Fault} (hp : p.LeavesSuffix)
    (accepts : List Char → Bool) (h : (match p source with
      | .ok a rest => if accepts rest then .ok a else .error (.leftOver source rest)
      | .miss rest => .error (.failed source none rest)
      | .halt expected rest => .error (.failed source expected rest) : Except Fault α) = .error f) :
    f.StandsIn source := by
  have hrest := hp source
  cases hread : p source with
  | ok a rest =>
    rw [hread] at h hrest
    dsimp only at h
    split at h
    · cases h
    · cases h
      exact standsIn_leftOver hrest
  | miss rest =>
    rw [hread] at h hrest
    cases h
    exact standsIn_failed hrest none
  | halt expected rest =>
    rw [hread] at h hrest
    cases h
    exact standsIn_failed hrest expected

theorem standsIn_of_program_parse {text : String} {f : Fault}
    (h : Program.parse text = .error f) : f.StandsIn text.toList := by
  refine standsIn_of_reply (Reader.leavesSuffix_program (text.toList.length + 1))
    (·.all isWhiteSpace) (Eq.trans ?_ h)
  unfold Program.parse
  dsimp only
  cases Reader.program (text.toList.length + 1) text.toList <;> rfl

theorem standsIn_of_expr_parse {text : String} {f : Fault}
    (h : Expr.parse text = .error f) : f.StandsIn text.toList := by
  have hreader := Reader.leavesSuffix_bind (Reader.leavesSuffix_expr (text.toList.length + 1))
    fun e => Reader.leavesSuffix_map (g := fun _ => e) Reader.leavesSuffix_gap
  refine standsIn_of_reply hreader List.isEmpty (Eq.trans ?_ h)
  unfold Expr.parse
  dsimp only
  generalize (Reader.expr (text.toList.length + 1) >>= _ : Reader Expr) text.toList = reply
  cases reply <;> rfl

/-- **A fault stands at a character of the source**: its offset is the size of a beginning
of the source, which is all that fits into so many bytes; its line counts the line feeds
in there, and its column the characters behind the last of them. -/
theorem position_of_parse (source : String) (f : Fault)
    (h : Program.parse source = .error f ∨ Expr.parse source = .error f) :
    f.position.offset ≤ source.utf8ByteSize ∧
      String.Pos.Raw.IsValid source ⟨f.position.offset⟩ ∧
      ∃ read rest : String, source = read ++ rest ∧ read.utf8ByteSize = f.position.offset ∧
        firstBytes f.position.offset source.toList = read.toList ∧
        f.position.line = 1 + read.toList.count '\n' ∧
        f.position.column = 1 + (read.toList.reverse.takeWhile (· != '\n')).length := by
  obtain ⟨read, rest, hsource, hposition⟩ : f.StandsIn source.toList :=
    h.elim standsIn_of_program_parse standsIn_of_expr_parse
  have htext : source = String.ofList read ++ String.ofList rest := by
    rw [← String.ofList_append, ← hsource, String.ofList_toList]
  have hoffset : (String.ofList read).utf8ByteSize = f.position.offset := by
    rw [hposition, Position.offset_after, utf8ByteSize_ofList]
  refine ⟨?_, ?_, String.ofList read, String.ofList rest, htext, hoffset, ?_, ?_, ?_⟩
  · rw [htext, String.utf8ByteSize_append, ← hoffset]
    exact Nat.le_add_right _ _
  · rw [String.Pos.Raw.isValid_iff_exists_append]
    exact ⟨_, _, htext, String.Pos.Raw.ext hoffset.symm⟩
  · rw [hsource, ← hoffset, utf8ByteSize_ofList, firstBytes_append, String.toList_ofList]
  · rw [hposition, Position.line_after, String.toList_ofList]
  · rw [hposition, Position.column_after, String.toList_ofList]

/-- A brace too many, behind a string with a character of two bytes and, on the second
line, one of three. -/
theorem position_of_parse_brace :
    let source := "echo 'é';\n/* ∅ */ \x7d ;"
    let f : Fault := ⟨.trailing, ⟨21, 2, 9⟩⟩
    Program.parse source = .error f ∧ 21 ≤ source.utf8ByteSize ∧
      String.Pos.Raw.IsValid source ⟨21⟩ ∧
      ∃ read rest : String, source = read ++ rest ∧ read.utf8ByteSize = 21 ∧
        firstBytes 21 source.toList = read.toList ∧ 2 = 1 + read.toList.count '\n' ∧
        9 = 1 + (read.toList.reverse.takeWhile (· != '\n')).length := by
  intro source f
  have hread : Program.parse source = .error f := by decide +kernel
  exact ⟨hread, position_of_parse source f (Or.inl hread)⟩

end Fault

end Casework
