import Casework.Proofs.Comments
import Casework.Proofs.Statement

/-!
# Reading something

Expressions and statements, and the parts that loops repeat, read something wherever they
read at all.  Each of them begins with a character that has to be there, behind its gap, and
what follows never gives back more than it has taken.

So nothing has to be known of what is nested in them but that it leaves an end of the text.

## Main definitions

* `Reader.Shortens` — wherever the reader reads, a shorter end of the text is left.

## Main results

* `Reader.shortens_step`, `Reader.shortens_suffix`, `Reader.shortens_comma`,
  `Reader.shortens_spacedComment` — what is repeated reads something.
* `Reader.shortens_tier` — **expressions of every strength read something**.
* `Reader.shortens_kind` — **statements of every kind read something**.
-/

namespace Casework

namespace Reader

variable {α β : Type} {p q : Reader α} {f : α → Reader β}

/-! ### What was read

A reader that gives a value was made of readers that gave theirs. -/

theorem eq_ok_or_of_orElse {s r : List Char} {a : α} (h : (p <|> q) s = .ok a r) :
    p s = .ok a r ∨ q s = .ok a r := by
  rw [orElse_apply] at h
  split at h
  · exact Or.inr h
  · exact Or.inl h

theorem eq_ok_of_commit {s r : List Char} {a : α} (h : commit p s = .ok a r) : p s = .ok a r := by
  rw [commit] at h
  split at h
  · cases h
  · exact h

theorem eq_ok_of_require {what : Expected} {s r : List Char} {a : α}
    (h : require what p s = .ok a r) : p s = .ok a r := by
  rw [require] at h
  split at h
  · next b t hb =>
    cases h
    exact hb
  · cases h
  · cases h

theorem eq_cons_of_satisfy {accepts : Char → Bool} {s r : List Char} {c : Char}
    (h : satisfy accepts s = .ok c r) : s = c :: r ∧ accepts c = true := by
  cases s with
  | nil => cases h
  | cons d s =>
    rw [satisfy] at h
    split at h
    · next hd =>
      cases h
      exact ⟨rfl, hd⟩
    · cases h

theorem eq_cons_of_char {c : Char} {s r : List Char} {a : Unit} (h : char c s = .ok a r) :
    s = c :: r := by
  cases s with
  | nil => cases h
  | cons d s =>
    rw [char] at h
    split at h
    · next hd =>
      cases h
      rw [beq_iff_eq.mp hd]
    · cases h

/-! ### Reading something -/

/-- Wherever the reader reads, what is left is an end of the text, and a shorter one. -/
def Shortens (p : Reader α) : Prop :=
  ∀ ⦃s a r⦄, p s = .ok a r → r <:+ s ∧ r.length < s.length

theorem LeavesSuffix.of_ok {s r : List Char} {a : α} (hp : p.LeavesSuffix) (h : p s = .ok a r) :
    r <:+ s := by
  have hs := hp s
  rwa [h] at hs

/-- A sequence reads something if its first part does. -/
theorem shortens_bind (hp : p.Shortens) (hf : ∀ a, (f a).LeavesSuffix) : (p >>= f).Shortens := by
  intro s b r h
  obtain ⟨a, t, ha, hb⟩ := exists_of_bind_eq_ok h
  obtain ⟨hsuffix, hlt⟩ := hp ha
  have hrest := (hf a).of_ok hb
  exact ⟨hrest.trans hsuffix, Nat.lt_of_le_of_lt hrest.length_le hlt⟩

/-- A sequence reads something if what follows its first part does. -/
theorem shortens_skip (hp : p.LeavesSuffix) (hf : ∀ a, (f a).Shortens) : (p >>= f).Shortens := by
  intro s b r h
  obtain ⟨a, t, ha, hb⟩ := exists_of_bind_eq_ok h
  have hsuffix := hp.of_ok ha
  obtain ⟨hrest, hlt⟩ := hf a hb
  exact ⟨hrest.trans hsuffix, Nat.lt_of_lt_of_le hlt hsuffix.length_le⟩

theorem shortens_map {g : α → β} (hp : p.Shortens) : (p >>= fun a => pure (g a)).Shortens :=
  shortens_bind hp fun _ => leavesSuffix_pure _

theorem shortens_orElse (hp : p.Shortens) (hq : q.Shortens) : (p <|> q).Shortens :=
  fun _ _ _ h => (eq_ok_or_of_orElse h).elim (fun h => hp h) fun h => hq h

theorem shortens_require (hp : p.Shortens) (what : Expected) : (require what p).Shortens :=
  fun _ _ _ h => hp (eq_ok_of_require h)

theorem shortens_satisfy (accepts : Char → Bool) : (satisfy accepts).Shortens := by
  intro s c r h
  rw [(eq_cons_of_satisfy h).1]
  exact ⟨List.suffix_cons _ _, Nat.lt_succ_self _⟩

theorem shortens_char (c : Char) : (char c).Shortens := by
  intro s a r h
  rw [eq_cons_of_char h]
  exact ⟨List.suffix_cons _ _, Nat.lt_succ_self _⟩

/-- What is left behind a text that was taken is shorter. -/
theorem length_drop_lt {s t : List Char} (ht : t ≠ []) (hle : t.length ≤ s.length) :
    (s.drop t.length).length < s.length := by
  have hpos := List.length_pos_iff.mpr ht
  rw [List.length_drop]
  omega

theorem shortens_token {text : List Char} (htext : text ≠ []) : (token text).Shortens := by
  intro s a r h
  rw [token] at h
  split at h
  · next hfits =>
    cases h
    exact ⟨List.drop_suffix _ s,
      length_drop_lt htext (List.isPrefixOf_iff_prefix.mp hfits).length_le⟩
  · cases h

theorem shortens_keyword {word : String} (hword : word.toList ≠ []) : (keyword word).Shortens := by
  refine shortens_bind ?_ fun _ => leavesSuffix_notNext _
  intro s a r h
  rw [letters_eq] at h
  split at h
  · next hfits =>
    cases h
    have hle := (List.isPrefixOf_iff_prefix.mp hfits).length_le
    rw [List.length_map] at hle
    exact ⟨List.drop_suffix _ s, length_drop_lt hword hle⟩
  · cases h

theorem shortens_word (first further : Char → Bool) : (word first further).Shortens :=
  shortens_bind (shortens_satisfy _) fun _ => leavesSuffix_map (leavesSuffix_span _)

theorem shortens_digits : digits.Shortens :=
  shortens_bind (shortens_satisfy _) fun _ => leavesSuffix_map (leavesSuffix_span _)

theorem shortens_quotedBy (q : Quote) : (quotedBy q).Shortens :=
  shortens_bind (shortens_char _) fun _ =>
    leavesSuffix_bind (leavesSuffix_rawText _) fun _ => leavesSuffix_map (leavesSuffix_char _)

theorem shortens_literal : literal.Shortens := by
  refine shortens_orElse (shortens_map (shortens_keyword (by decide))) (shortens_orElse
    (shortens_map (shortens_keyword (by decide))) (shortens_orElse
      (shortens_map (shortens_keyword (by decide))) (shortens_orElse ?_ (shortens_orElse
        (shortens_map shortens_digits) (shortens_orElse (shortens_quotedBy _)
          (shortens_quotedBy _))))))
  exact shortens_bind shortens_digits fun _ =>
    leavesSuffix_bind (leavesSuffix_char _) fun _ => leavesSuffix_map leavesSuffix_digits

theorem shortens_comment : comment.Shortens := by
  intro s a r h
  rw [comment] at h
  split at h
  · next text htext =>
    cases h
    exact ⟨List.drop_suffix _ s,
      length_drop_lt (ne_nil_of_commentAt? htext) (commentAt?_isPrefix htext).length_le⟩
  · cases h

theorem shortens_spacedComment : spacedComment.Shortens :=
  shortens_skip (leavesSuffix_span _) fun _ => shortens_comment

/-! ### Expressions

What is nested in an expression stands behind a character of its own, so that nothing has
to be known of it. -/

section Expressions

variable {whole operand : Reader Expr} {nested : Entry → Reader Expr}

theorem shortens_operator (level : Level) : level.operator.Shortens := by
  have htoken : ∀ {text : List Char} {op : BinOp}, text ≠ [] →
      (do token text; pure op : Reader BinOp).Shortens :=
    fun htext => shortens_map (shortens_token htext)
  have hchar : ∀ (c : Char) (op : BinOp), (do char c; pure op : Reader BinOp).Shortens :=
    fun c op => shortens_map (shortens_char c)
  have hguarded : ∀ (c : Char) (refuses : Char → Bool) (op : BinOp),
      (do char c; notNext refuses; pure op : Reader BinOp).Shortens :=
    fun c refuses op => shortens_bind (shortens_char c) fun _ =>
      leavesSuffix_map (leavesSuffix_notNext refuses)
  cases level with
  | or => exact htoken (by decide)
  | and => exact htoken (by decide)
  | equality =>
    exact shortens_orElse (htoken (by decide)) (shortens_orElse (htoken (by decide))
      (shortens_orElse (htoken (by decide)) (shortens_orElse (htoken (by decide))
        (htoken (by decide)))))
  | relation =>
    exact shortens_orElse (htoken (by decide)) (shortens_orElse (htoken (by decide))
      (shortens_orElse (hguarded _ _ _) (hchar _ _)))
  | concat => exact hguarded _ _ _
  | sum => exact shortens_orElse (hguarded _ _ _) (hguarded _ _ _)
  | product =>
    exact shortens_bind (shortens_orElse (hchar _ _) (shortens_orElse (hchar _ _) (hchar _ _)))
      fun _ => leavesSuffix_map (leavesSuffix_notNext _)

/-- An operator with its operand reads something even where the operand does not. -/
theorem shortens_step (hoperand : operand.LeavesSuffix) (level : Level) :
    (step level operand).Shortens :=
  shortens_skip leavesSuffix_gap fun _ =>
    shortens_bind (shortens_operator level) fun _ => leavesSuffix_map hoperand

theorem leavesSuffix_step (hoperand : operand.LeavesSuffix) (level : Level) :
    (step level operand).LeavesSuffix :=
  leavesSuffix_bind leavesSuffix_gap fun _ =>
    leavesSuffix_bind (leavesSuffix_operator level) fun _ => leavesSuffix_map hoperand

theorem shortens_binary (hoperand : operand.Shortens) (hsuffix : operand.LeavesSuffix)
    (fuel : Nat) (level : Level) : (binary fuel level operand).Shortens := by
  have hstep := leavesSuffix_step hsuffix level
  cases hchains : level.chains with
  | true =>
    rw [binary_of_chains hchains]
    exact shortens_bind hoperand fun _ => leavesSuffix_map (leavesSuffix_many hstep fuel)
  | false =>
    rw [binary_of_not_chains hchains]
    refine shortens_bind hoperand fun first =>
      leavesSuffix_bind (leavesSuffix_optional hstep) fun part => ?_
    cases part with
    | none => exact leavesSuffix_pure _
    | some part => exact leavesSuffix_pure _

theorem shortens_within (hwhole : whole.LeavesSuffix) (o c : Char) :
    (within o c whole).Shortens :=
  shortens_bind (shortens_char o) fun _ => leavesSuffix_bind leavesSuffix_gap fun _ =>
    leavesSuffix_bind hwhole fun _ => leavesSuffix_bind leavesSuffix_gap fun _ =>
      leavesSuffix_map (leavesSuffix_char c)

theorem shortens_comma : (do gap; char ',' : Reader Unit).Shortens :=
  shortens_skip leavesSuffix_gap fun _ => shortens_char ','

theorem shortens_listIn (hwhole : whole.LeavesSuffix) (fuel : Nat) (o c : Char) :
    (listIn fuel o c whole).Shortens := by
  refine shortens_bind (shortens_char o) fun _ => leavesSuffix_bind leavesSuffix_gap fun _ =>
    leavesSuffix_bind (leavesSuffix_optional ?_) fun _ => leavesSuffix_bind leavesSuffix_gap
      fun _ => leavesSuffix_map (leavesSuffix_char c)
  exact leavesSuffix_bind (leavesSuffix_items hwhole fuel) fun _ =>
    leavesSuffix_map (leavesSuffix_optional leavesSuffix_comma)

theorem shortens_primary (hwhole : whole.LeavesSuffix) (fuel : Nat) :
    (primary fuel whole).Shortens :=
  shortens_skip leavesSuffix_gap fun _ => shortens_orElse (shortens_within hwhole _ _)
    (shortens_orElse (shortens_map (shortens_listIn hwhole fuel _ _))
      (shortens_orElse
        (shortens_bind (shortens_char _) fun _ => leavesSuffix_map (leavesSuffix_word _ _))
        (shortens_orElse (shortens_map shortens_literal) (shortens_map (shortens_word _ _)))))

theorem shortens_suffix (hwhole : whole.LeavesSuffix) (fuel : Nat) :
    (suffix fuel whole).Shortens :=
  shortens_skip leavesSuffix_gap fun _ =>
    shortens_orElse (shortens_map (shortens_listIn hwhole fuel _ _))
      (shortens_orElse (shortens_map (shortens_within hwhole _ _))
        (shortens_bind (shortens_token (by decide)) fun _ => leavesSuffix_bind leavesSuffix_gap
          fun _ => leavesSuffix_map (leavesSuffix_word _ _)))

theorem shortens_suffixed (hwhole : whole.LeavesSuffix) (fuel : Nat) :
    (suffixed fuel whole).Shortens :=
  shortens_bind (shortens_primary hwhole fuel) fun _ =>
    leavesSuffix_map (leavesSuffix_many (leavesSuffix_suffix hwhole fuel) fuel)

variable (hnested : ∀ entry, (nested entry).LeavesSuffix) (fuel : Nat)
include hnested

theorem shortens_unary : (unary fuel nested).Shortens := by
  refine shortens_skip leavesSuffix_gap fun _ => shortens_orElse ?_ (shortens_orElse ?_ ?_)
  · exact shortens_bind (shortens_char _) fun _ => leavesSuffix_bind leavesSuffix_gap
      fun _ => leavesSuffix_map (hnested .operand)
  · exact shortens_bind (shortens_char _) fun _ => leavesSuffix_bind (leavesSuffix_notNext _)
      fun _ => leavesSuffix_bind leavesSuffix_gap fun _ => leavesSuffix_map (hnested .operand)
  · exact shortens_suffixed (hnested .whole) fuel

/-- However many levels of binary operators are passed through, an operand is read first. -/
theorem shortens_levels (levels : List Level) :
    (levels.foldr (binary fuel) (unary fuel nested)).Shortens ∧
      (levels.foldr (binary fuel) (unary fuel nested)).LeavesSuffix := by
  induction levels with
  | nil => exact ⟨shortens_unary hnested fuel, leavesSuffix_unary hnested fuel⟩
  | cons level levels ih =>
    exact ⟨shortens_binary ih.1 ih.2 fuel level, leavesSuffix_binary ih.2 fuel level⟩

theorem shortens_ternary : (ternary fuel nested).Shortens := by
  refine shortens_bind (shortens_levels hnested fuel Level.all).1 fun cond =>
    leavesSuffix_bind (leavesSuffix_optional ?_) fun branches => ?_
  · exact leavesSuffix_bind leavesSuffix_gap fun _ => leavesSuffix_bind (leavesSuffix_char _)
      fun _ => leavesSuffix_bind (hnested .whole) fun _ => leavesSuffix_bind leavesSuffix_gap
        fun _ => leavesSuffix_bind (leavesSuffix_char _) fun _ =>
          leavesSuffix_map (leavesSuffix_commit (hnested .choice))
  · cases branches with
    | none => exact leavesSuffix_pure _
    | some branches => exact leavesSuffix_pure _

theorem shortens_assign : (assign fuel nested).Shortens := by
  refine shortens_bind (shortens_ternary hnested fuel) fun target =>
    leavesSuffix_bind (leavesSuffix_optional ?_) fun value => ?_
  · exact leavesSuffix_bind leavesSuffix_gap fun _ => leavesSuffix_bind (leavesSuffix_char _)
      fun _ => leavesSuffix_bind (leavesSuffix_notNext _) fun _ => hnested .whole
  · cases value with
    | none => exact leavesSuffix_pure _
    | some value => exact leavesSuffix_pure _

/-- Expressions of every strength read something. -/
theorem shortens_tier (strength : Nat) : (tier fuel nested strength).Shortens := by
  unfold tier
  split
  · exact shortens_assign hnested fuel
  · split
    · exact shortens_ternary hnested fuel
    · split
      · exact (shortens_levels hnested fuel _).1
      · split
        · exact shortens_suffixed (hnested .whole) fuel
        · exact shortens_primary (hnested .whole) fuel

theorem leavesSuffix_tier (strength : Nat) : (tier fuel nested strength).LeavesSuffix := by
  unfold tier
  split
  · exact leavesSuffix_assign hnested fuel
  · split
    · exact leavesSuffix_ternary hnested fuel
    · split
      · exact (shortens_levels hnested fuel _).2
      · split
        · exact leavesSuffix_bind (leavesSuffix_primary (hnested .whole) fuel) fun _ =>
            leavesSuffix_map (leavesSuffix_many (leavesSuffix_suffix (hnested .whole) fuel) fuel)
        · exact leavesSuffix_primary (hnested .whole) fuel

end Expressions

theorem shortens_expression (n : Nat) (entry : Entry) : (expression n entry).Shortens := by
  cases n with
  | zero => nofun
  | succ n =>
    rw [expression_eq_tier]
    exact shortens_tier (leavesSuffix_expression n) _ _

theorem shortens_expr (n : Nat) : (expr n).Shortens := shortens_expression n .whole

/-! ### Statements -/

section Statements

variable {nested : Led} (hnested : ∀ k, (nested k).LeavesSuffix) (fuel : Nat)
include hnested

theorem shortens_braced : (braced fuel nested).Shortens :=
  shortens_bind (shortens_char _) fun _ =>
    leavesSuffix_bind (leavesSuffix_statements hnested _ fuel) fun _ =>
      leavesSuffix_map (leavesSuffix_require (leavesSuffix_char _) _)

omit hnested in
theorem shortens_leaf : (leaf fuel).Shortens := by
  have hjump : ∀ {word : String} {l : Leaf}, word.toList ≠ [] →
      (do keyword word; semicolon; return l : Reader Leaf).Shortens :=
    fun hword => shortens_bind (shortens_keyword hword) fun _ =>
      leavesSuffix_map leavesSuffix_semicolon
  refine shortens_orElse ?_ (shortens_orElse ?_ (shortens_orElse (hjump (by decide))
    (hjump (by decide))))
  · exact shortens_bind (shortens_keyword (by decide)) fun _ => leavesSuffix_bind
      (leavesSuffix_commit (leavesSuffix_items (leavesSuffix_expr fuel) fuel)) fun _ =>
        leavesSuffix_map leavesSuffix_semicolon
  · exact shortens_bind (shortens_keyword (by decide)) fun _ => leavesSuffix_bind
      (leavesSuffix_optional (leavesSuffix_bind leavesSuffix_gap fun _ => leavesSuffix_expr fuel))
        fun _ => leavesSuffix_map leavesSuffix_semicolon

omit hnested in
theorem shortens_plain : (plain fuel).Shortens :=
  shortens_orElse (shortens_map (shortens_char _))
    (shortens_bind (shortens_expr fuel) fun _ => leavesSuffix_map leavesSuffix_semicolon)

/-- Statements of every kind read something. -/
theorem shortens_kind (k : List Comment) : (kind fuel nested k).Shortens := by
  have hbody := leavesSuffix_commit (leavesSuffix_body hnested fuel)
  have hcond := leavesSuffix_condition fuel
  refine shortens_orElse ?_ (shortens_orElse ?_ (shortens_orElse ?_
    (shortens_orElse (shortens_map (shortens_leaf fuel)) (shortens_orElse
      (shortens_map (shortens_braced hnested fuel)) (shortens_map (shortens_plain fuel))))))
  · exact shortens_bind (shortens_keyword (by decide)) fun _ => leavesSuffix_bind hcond fun _ =>
      leavesSuffix_bind hbody fun _ => leavesSuffix_map (leavesSuffix_clauses hnested fuel fuel)
  · exact shortens_bind (shortens_keyword (by decide)) fun _ => leavesSuffix_bind hcond fun _ =>
      leavesSuffix_map hbody
  · exact shortens_bind (shortens_keyword (by decide)) fun _ => leavesSuffix_bind hcond fun _ =>
      leavesSuffix_bind (leavesSuffix_require (leavesSuffix_bind leavesSuffix_gap fun _ =>
        leavesSuffix_char _) _) fun _ => leavesSuffix_map (leavesSuffix_cases hnested fuel fuel)

omit hnested in
theorem shortens_label : (label fuel).Shortens := by
  refine shortens_bind (shortens_require (shortens_orElse ?_ ?_) _) fun _ =>
    leavesSuffix_map (leavesSuffix_require (leavesSuffix_bind leavesSuffix_gap fun _ =>
      leavesSuffix_map (leavesSuffix_satisfy _)) _)
  · exact shortens_bind (shortens_keyword (by decide)) fun _ => leavesSuffix_bind leavesSuffix_gap
      fun _ => leavesSuffix_map (leavesSuffix_expr fuel)
  · exact shortens_map (shortens_keyword (by decide))

end Statements

theorem shortens_statement (n : Nat) (k : List Comment) : (statement n k).Shortens := by
  cases n with
  | zero => nofun
  | succ n => exact shortens_kind (leavesSuffix_statement n) (n + 1) k

end Reader

end Casework
