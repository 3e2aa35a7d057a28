import Casework.Proofs.Extension

/-!
# A closing brace behind the text

Expressions and statements are read the same with every bound above the length of the
text, and also when a closing brace follows the text on a line of its own.  Each reader
follows itself where the readers for what is nested in it do; behind a character that
was read, these need a bound that is one less, as it is given to them.

Where a list of statements ends with the text, it ends at the brace of the longer text,
and what was not closed in the text is closed there.  But that is a block or a switch,
and these halt at the end of the text.

## Main results

* `Reader.follows_expression`, `Reader.follows_statement` — **the readers of the
  language do not depend on the bound, nor on a closing brace behind the text**.
* `Reader.follows_statements` — the same for lists of statements.
* `Reader.statement_of_le` — a statement that is read is read with every larger bound.
-/

namespace Casework

namespace Reader

variable {b : Bool} {s s' : List Char} {n m L : Nat}

/-! ### Expressions -/

section Expressions

variable {whole whole' operand operand' : Reader Expr} {nested nested' : Entry → Reader Expr}

theorem follows_operator (level : Level) : Follows b 1 L level.operator level.operator := by
  have htoken : ∀ {text : List Char} {op : BinOp}, IsSolid text →
      Follows b 1 L (do token text; pure op : Reader BinOp) (do token text; pure op) :=
    fun htext => follows_map (follows_token htext)
  have hchar : ∀ {c : Char} {op : BinOp}, isTail c = false →
      Follows b 1 L (do char c; pure op : Reader BinOp) (do char c; pure op) :=
    fun hc => follows_map (follows_char hc)
  have hguarded : ∀ {c : Char} {refuses : Char → Bool} {op : BinOp}, isTail c = false →
      AvoidsTail refuses → Follows b 1 L (do char c; notNext refuses; pure op : Reader BinOp)
        (do char c; notNext refuses; pure op) :=
    fun hc hno => follows_bind_pred (follows_char hc) fun _ => follows_map (follows_notNext hno)
  cases level with
  | or => exact htoken (by decide)
  | and => exact htoken (by decide)
  | equality =>
    exact follows_orElse (htoken (by decide)) (follows_orElse (htoken (by decide))
      (follows_orElse (htoken (by decide)) (follows_orElse (htoken (by decide))
        (htoken (by decide)))))
  | relation =>
    exact follows_orElse (htoken (by decide)) (follows_orElse (htoken (by decide))
      (follows_orElse (hguarded rfl (by decide)) (hchar rfl)))
  | concat => exact hguarded rfl (by decide)
  | sum => exact follows_orElse (hguarded rfl (by decide)) (hguarded rfl (by decide))
  | product =>
    exact follows_bind_pred (follows_orElse (hchar rfl) (follows_orElse (hchar rfl) (hchar rfl)))
      fun _ => follows_map (follows_notNext (by decide))

theorem follows_binary (hoperand : Follows b 1 L operand operand') (hn : L ≤ n) (hm : L ≤ m)
    (level : Level) : Follows b 1 L (binary n level operand) (binary m level operand') := by
  have hstep : Follows b 1 L (do
      gap
      let op ← level.operator
      let right ← operand
      pure (op, right) : Reader (BinOp × Expr)) (do
      gap
      let op ← level.operator
      let right ← operand'
      pure (op, right)) :=
    follows_bind follows_gap fun _ => follows_bind_pred (follows_operator level) fun _ =>
      follows_map hoperand.weaken.pred
  unfold binary
  refine follows_bind_pred hoperand fun first => ?_
  dsimp only
  split
  · exact follows_map (follows_many hstep hn hm).pred
  · refine follows_bind (follows_optional hstep.weaken).pred fun part => ?_
    cases part with
    | none => exact follows_pure _
    | some part => exact follows_pure _

theorem follows_within {o c : Char} (hwhole : Follows b 1 (L - 1) whole whole')
    (ho : isTail o = false) (hc : isTail c = false) :
    Follows b 1 L (within o c whole) (within o c whole') :=
  follows_bind_pred (follows_char ho) fun _ => follows_bind follows_gap fun _ =>
    follows_bind hwhole.weaken fun _ => follows_bind follows_gap fun _ =>
      follows_map (follows_char hc).weaken

theorem follows_comma : Follows b 0 L (do gap; char ',' : Reader Unit) (do gap; char ',') :=
  follows_bind follows_gap fun _ => (follows_char rfl).weaken

theorem follows_items (hwhole : Follows b 1 L whole whole') (hn : L ≤ n) (hm : L ≤ m) :
    Follows b 1 L (sepBy1 (do gap; whole) (do gap; char ',') n)
      (sepBy1 (do gap; whole') (do gap; char ',') m) :=
  follows_sepBy1 (follows_bind follows_gap fun _ => hwhole) follows_comma hn hm

theorem follows_listIn {o c : Char} (hwhole : Follows b 1 (L - 1) whole whole') (hn : L ≤ n)
    (hm : L ≤ m) (ho : isTail o = false) (hc : isTail c = false) :
    Follows b 1 L (listIn n o c whole) (listIn m o c whole') := by
  have hitems := follows_items hwhole (n := n) (m := m) (by omega) (by omega)
  refine follows_bind_pred (follows_char ho) fun _ => follows_bind follows_gap fun _ =>
    follows_bind (follows_optional ?_) fun _ => follows_bind follows_gap fun _ =>
      follows_map (follows_char hc).weaken
  exact follows_bind hitems.weaken fun _ => follows_map (follows_optional follows_comma)

theorem follows_primary (hwhole : Follows b 1 (L - 1) whole whole') (hn : L ≤ n) (hm : L ≤ m) :
    Follows b 1 L (primary n whole) (primary m whole') :=
  follows_bind follows_gap fun _ =>
    follows_orElse (follows_within hwhole rfl rfl)
      (follows_orElse (follows_map (follows_listIn hwhole hn hm rfl rfl))
        (follows_orElse
          (follows_bind_pred (follows_char rfl) fun _ => follows_map follows_ident.weaken)
          (follows_orElse (follows_map follows_literal) (follows_map follows_name))))

theorem follows_suffix (hwhole : Follows b 1 (L - 1) whole whole') (hn : L ≤ n) (hm : L ≤ m) :
    Follows b 1 L (suffix n whole) (suffix m whole') :=
  follows_bind follows_gap fun _ =>
    follows_orElse (follows_map (follows_listIn hwhole hn hm rfl rfl))
      (follows_orElse (follows_map (follows_within hwhole rfl rfl))
        (follows_bind_pred (follows_token (by decide)) fun _ => follows_bind follows_gap fun _ =>
          follows_map follows_ident.weaken))

variable (hnested : ∀ entry, Follows b 1 (L - 1) (nested entry) (nested' entry)) (hn : L ≤ n)
  (hm : L ≤ m)
include hnested hn hm

theorem follows_unary : Follows b 1 L (unary n nested) (unary m nested') := by
  refine follows_bind follows_gap fun _ => follows_orElse ?_ (follows_orElse ?_ ?_)
  · exact follows_bind_pred (follows_char rfl) fun _ => follows_bind follows_gap fun _ =>
      follows_map (hnested .operand).weaken
  · exact follows_bind_pred (follows_char rfl) fun _ =>
      follows_bind (follows_notNext (by decide)) fun _ => follows_bind follows_gap fun _ =>
        follows_map (hnested .operand).weaken
  · exact follows_bind_pred (follows_primary (hnested .whole) hn hm) fun _ =>
      follows_map (follows_many (follows_suffix (hnested .whole) hn hm) hn hm).pred

theorem follows_operation : Follows b 1 L (operation n nested) (operation m nested') := by
  unfold operation
  induction Level.all with
  | nil => exact follows_unary hnested hn hm
  | cons level levels ih => exact follows_binary ih hn hm level

theorem follows_ternary : Follows b 1 L (ternary n nested) (ternary m nested') := by
  refine follows_bind_pred (follows_operation hnested hn hm) fun cond =>
    follows_bind (follows_optional ?_) fun branches => ?_
  · exact follows_bind follows_gap fun _ => follows_bind (follows_char rfl).weaken fun _ =>
      follows_bind (hnested .whole).weaken fun _ => follows_bind follows_gap fun _ =>
        follows_bind (follows_char rfl).weaken fun _ =>
          follows_map (follows_commit (hnested .choice)).weaken
  · cases branches with
    | none => exact follows_pure _
    | some branches => exact follows_pure _

theorem follows_assign : Follows b 1 L (assign n nested) (assign m nested') := by
  refine follows_bind_pred (follows_ternary hnested hn hm) fun target =>
    follows_bind (follows_optional ?_) fun value => ?_
  · exact follows_bind follows_gap fun _ => follows_bind (follows_char rfl).weaken fun _ =>
      follows_bind (follows_notNext (by decide)) fun _ => (hnested .whole).weaken
  · cases value with
    | none => exact follows_pure _
    | some value => exact follows_pure _

end Expressions

/-- Expressions do not depend on the bound, nor on a closing brace behind the text. -/
theorem follows_expression (hn : L ≤ n) (hm : L ≤ m) :
    ∀ entry, Follows b 1 L (expression n entry) (expression m entry) := by
  induction n generalizing m L with
  | zero =>
    intro entry s s' hs hext
    omega
  | succ n ih =>
    intro entry s s' hs hext
    obtain ⟨m, rfl⟩ := Nat.exists_eq_succ_of_ne_zero (n := m) (by omega)
    have hnested : ∀ entry, Follows b 1 (L - 1) (expression n entry) (expression m entry) :=
      ih (by omega) (by omega)
    rw [expression_succ, expression_succ]
    cases entry with
    | whole => exact follows_assign hnested hn hm hs hext
    | choice => exact follows_ternary hnested hn hm hs hext
    | operand => exact follows_unary hnested hn hm hs hext

theorem follows_expr (hn : L ≤ n) (hm : L ≤ m) : Follows b 1 L (expr n) (expr m) :=
  follows_expression hn hm .whole

/-! ### Statements -/

section Statements

variable {nested nested' : Led} {i j : Nat}

/-- Where a token stands, both texts end or are closed, or none of them. -/
theorem closes_extends (h : Extends b s s') (hat : AtToken s') :
    (s'.isEmpty || braceAhead s') = (s.isEmpty || braceAhead s) := by
  cases s with
  | nil =>
    cases h with
    | same => rfl
    | closed =>
      -- the line feed is part of a gap
      have hgap : gapFrom 0 ['\n', '\x7d'] = ([], ['\x7d']) := rfl
      exact absurd (hgap.symm.trans hat) (by simp)
    | atBrace => rfl
  | cons c s =>
    obtain ⟨t, rfl, -⟩ := h.exists_cons
    rfl

theorem labelAhead_extends (h : Extends b s s') : labelAhead s' = labelAhead s := by
  have hfits : ∀ word : String, IsSolid word.toList →
      (keyword word).fits s' = (keyword word).fits s := by
    intro word hword
    unfold fits
    obtain ⟨r, r', -, -, ⟨hr, hr', -⟩ | ⟨hr, hr'⟩⟩ := keyword_extends word hword h
    · rw [hr, hr']
    · rw [hr, hr']
  rw [labelAhead, labelAhead, hfits "case" (by decide), hfits "default" (by decide)]

theorem follows_statements (hnested : ∀ k, Follows b 1 L (nested k) (nested' k)) (hi : L ≤ i)
    (hj : L ≤ j) (stop : Stop) :
    Follows b 0 L (statements nested stop i) (statements nested' stop j) := by
  induction i generalizing j L with
  | zero =>
    intro s s' hs hext
    omega
  | succ i ih =>
    intro s s' hs hext
    obtain ⟨j, rfl⟩ := Nat.exists_eq_succ_of_ne_zero (n := j) (by omega)
    obtain ⟨hcomments, hrest⟩ := hext.gapFrom_eq (Nat.zero_le _)
    have hlength := (gapFrom_suffix 0 s).length_le
    have hcloses := closes_extends hrest (atToken_gapFrom 0 s')
    have hlabel := labelAhead_extends hrest
    rw [statements, statements, hcomments, hcloses, hlabel]
    split
    · exact .ok hrest hlength
    · split
      · exact .ok hext (Nat.le_refl _)
      · have hfirst := hnested (gapFrom 0 s).1 (Nat.lt_of_le_of_lt hlength hs) hrest
        generalize nested (gapFrom 0 s).1 (gapFrom 0 s).2 = x,
          nested' (gapFrom 0 s).1 (gapFrom 0 s').2 = y at hfirst ⊢
        cases hfirst with
        | @ok v r r' hr hread =>
          have hmore := ih (L := L - 1) (j := j) (fun k => (hnested k).pred) (by omega) (by omega)
            (by omega) hr
          dsimp only
          generalize statements nested stop i r = x, statements nested' stop j r' = y at hmore ⊢
          cases hmore with
          | ok ht hread' => exact .ok ht (by omega)
          | miss => exact .miss
          | halt => exact .halt
        | miss => exact .miss
        | halt => exact .halt

theorem follows_braced (hnested : ∀ k, Follows b 1 (L - 1) (nested k) (nested' k)) (hn : L ≤ n)
    (hm : L ≤ m) : Follows b 1 L (braced n nested) (braced m nested') :=
  follows_bind_pred (follows_char rfl) fun _ =>
    follows_bind (follows_statements hnested (by omega) (by omega) .brace) fun _ =>
      follows_map follows_closingBrace.weaken

theorem follows_body (hnested : ∀ k, Follows b 1 L (nested k) (nested' k)) (hn : L ≤ n)
    (hm : L ≤ m) : Follows b 1 L (body n nested) (body m nested') := by
  refine follows_bind follows_gap fun _ => ?_
  intro s s' hs hext
  have hsingle : Follows b 1 L (do return [← nested []] : Reader (List Stmt))
      (do return [← nested' []]) := follows_map (hnested [])
  have hbraced := follows_braced (fun k => (hnested k).pred) hn hm hs hext
  -- both texts begin with the same character, or the first one is empty
  cases s with
  | nil =>
    rcases hext.nil_or_exists_cons with rfl | ⟨c, t, rfl, hc⟩
    · exact hsingle hs hext
    · dsimp only
      split
      · next heq =>
        obtain rfl := (List.cons.inj heq).1
        cases hc
      · exact hsingle hs hext
  | cons c s =>
    obtain ⟨t, rfl, -⟩ := hext.exists_cons
    by_cases hc : c = '\x7b'
    · subst hc
      exact hbraced
    · dsimp only
      split
      · next heq => exact absurd (List.cons.inj heq).1 hc
      · split
        · next heq => exact absurd (List.cons.inj heq).1 hc
        · exact hsingle hs hext

theorem follows_condition (hn : L ≤ n) (hm : L ≤ m) :
    Follows b 1 L (condition n) (condition m) :=
  follows_require (follows_bind follows_gap fun _ =>
    follows_within (follows_expr hn hm).pred rfl rfl) _

theorem follows_clauses (hnested : ∀ k, Follows b 1 L (nested k) (nested' k)) (hn : L ≤ n)
    (hm : L ≤ m) (hi : L ≤ i) (hj : L ≤ j) :
    Follows b 0 L (clauses n nested i) (clauses m nested' j) := by
  induction i generalizing j L with
  | zero =>
    intro s s' hs hext
    omega
  | succ i ih =>
    intro s s' hs hext
    obtain ⟨j, rfl⟩ := Nat.exists_eq_succ_of_ne_zero (n := j) (by omega)
    obtain ⟨hcomments, hrest⟩ := hext.gapFrom_eq (Nat.zero_le _)
    have hlength := (gapFrom_suffix 0 s).length_le
    have hbody := follows_commit (follows_body hnested hn hm)
    rw [clauses, clauses, hcomments]
    obtain ⟨r, r', hr, hle, ⟨hword, hword', hread⟩ | ⟨hword, hword'⟩⟩ :=
      keyword_extends "elseif" (by decide) hrest
    · -- a clause, and further ones with a round less
      have hmore := ih (L := L - 1) (j := j) (fun k => (hnested k).pred) (by omega) (by omega)
        (by omega) (by omega)
      have hclause := fun k : List Comment =>
        follows_bind (follows_condition hn hm).weaken.pred fun cond =>
          follows_bind hbody.weaken.pred fun stmts =>
            follows_map (g := fun o => (⟨k, cond, stmts⟩ :: o.1, o.2)) hmore
      rw [hword, hword']
      exact (hclause _ (by omega) hr).mono (by omega)
    · -- the word `else` is looked for where both readers stand
      rw [hword, hword']
      obtain ⟨t, t', ht, hle', ⟨helse, helse', -⟩ | ⟨helse, helse'⟩⟩ :=
        keyword_extends "else" (by decide) hr
      · dsimp only
        rw [helse, helse']
        exact (follows_map hbody.weaken (by omega) ht).mono (by omega)
      · dsimp only
        rw [helse, helse']
        exact .ok hext (Nat.le_refl _)

theorem follows_label (hn : L ≤ n) (hm : L ≤ m) : Follows b 1 L (label n) (label m) := by
  have hcolon : Follows b 0 (L - 1)
      (require .colon do gap; let _ ← satisfy fun c => c == ':' || c == ';')
      (require .colon do gap; let _ ← satisfy fun c => c == ':' || c == ';') :=
    follows_require (follows_bind follows_gap fun _ =>
      follows_map (follows_satisfy (by decide)).weaken) _
  refine follows_bind_pred (follows_require (follows_orElse ?_ ?_) _) fun _ => follows_map hcolon
  · exact follows_bind_pred (follows_keyword (by decide)) fun _ =>
      follows_bind follows_gap fun _ => follows_map (follows_expr hn hm).weaken.pred
  · exact follows_map (follows_keyword (by decide))

theorem follows_cases (hnested : ∀ k, Follows b 1 L (nested k) (nested' k)) (hn : L ≤ n)
    (hm : L ≤ m) (hi : L ≤ i) (hj : L ≤ j) :
    Follows b 0 L (cases n nested i) (cases m nested' j) := by
  induction i generalizing j L with
  | zero =>
    intro s s' hs hext
    omega
  | succ i ih =>
    intro s s' hs hext
    obtain ⟨j, rfl⟩ := Nat.exists_eq_succ_of_ne_zero (n := j) (by omega)
    obtain ⟨hcomments, hrest⟩ := hext.gapFrom_eq (Nat.zero_le _)
    have hlength := (gapFrom_suffix 0 s).length_le
    have hmore := ih (L := L - 1) (j := j) (fun k => (hnested k).pred) (by omega) (by omega)
      (by omega) (by omega)
    have hcase := fun k : List Comment =>
      follows_bind_pred (follows_label hn hm) fun key =>
        follows_bind (follows_statements hnested hn hm .label).pred fun stmts =>
          follows_map (g := fun others => (⟨k, key, stmts⟩ :: others : List (Case Stmt))) hmore
    rw [cases, cases, hcomments]
    generalize (gapFrom 0 s).2 = u, (gapFrom 0 s').2 = u' at hrest hlength ⊢
    cases u with
    | nil =>
      -- the switch is not closed
      obtain ⟨e, r, hhalt⟩ : (do
          let key ← label n
          let stmts ← statements nested .label n
          let others ← cases n nested i
          pure (⟨(gapFrom 0 s).1, key, stmts⟩ :: others) : Reader _).Halts [] :=
        bind_halt (bind_halt ⟨_, _, rfl⟩)
      rw [hhalt]
      exact .halt
    | cons c u =>
      obtain ⟨t, rfl, ht⟩ := hrest.exists_cons
      have hbrace : braceAhead (c :: t) = braceAhead (c :: u) := rfl
      rw [hbrace]
      by_cases hc : braceAhead (c :: u) = true
      · rw [if_pos hc, if_pos hc]
        exact .ok ht (Nat.le_of_succ_le hlength)
      · rw [if_neg hc, if_neg hc]
        exact (hcase _ (by omega) hrest).mono (by omega)

/-! ### Kinds of statements -/

theorem follows_semicolon : Follows b 0 L semicolon semicolon :=
  follows_bind follows_gap fun _ => follows_require (follows_char rfl).weaken _

theorem follows_leaf (hn : L ≤ n) (hm : L ≤ m) : Follows b 1 L (leaf n) (leaf m) := by
  have hjump : ∀ {word : String} {l : Leaf}, IsSolid word.toList →
      Follows b 1 L (do keyword word; semicolon; return l : Reader Leaf)
        (do keyword word; semicolon; return l) :=
    fun hword => follows_bind_pred (follows_keyword hword) fun _ => follows_map follows_semicolon
  have hexpr := (follows_expr (b := b) hn hm).pred
  refine follows_orElse ?_ (follows_orElse ?_ (follows_orElse (hjump (by decide))
    (hjump (by decide))))
  · exact follows_bind_pred (follows_keyword (by decide)) fun _ =>
      follows_bind (follows_commit (follows_items hexpr (by omega) (by omega))).weaken fun _ =>
        follows_map follows_semicolon
  · exact follows_bind_pred (follows_keyword (by decide)) fun _ =>
      follows_bind (follows_optional (follows_bind follows_gap fun _ => hexpr.weaken)) fun _ =>
        follows_map follows_semicolon

theorem follows_plain (hn : L ≤ n) (hm : L ≤ m) : Follows b 1 L (plain n) (plain m) :=
  follows_orElse (follows_map (follows_char rfl))
    (follows_bind_pred (follows_expr hn hm) fun _ => follows_map follows_semicolon)

theorem follows_kind (hnested : ∀ k, Follows b 1 (L - 1) (nested k) (nested' k)) (hn : L ≤ n)
    (hm : L ≤ m) (k : List Comment) : Follows b 1 L (kind n nested k) (kind m nested' k) := by
  have hn' : L - 1 ≤ n := by omega
  have hm' : L - 1 ≤ m := by omega
  have hcond := (follows_condition (b := b) hn' hm').weaken
  have hbody := (follows_commit (follows_body hnested hn' hm')).weaken
  refine follows_orElse ?_ (follows_orElse ?_ (follows_orElse ?_ (follows_orElse
    (follows_map (follows_leaf hn hm)) (follows_orElse
      (follows_map (follows_braced hnested hn hm)) (follows_map (follows_plain hn hm))))))
  · exact follows_bind_pred (follows_keyword (by decide)) fun _ =>
      follows_bind hcond fun _ => follows_bind hbody fun _ =>
        follows_map (follows_clauses hnested hn' hm' hn' hm')
  · exact follows_bind_pred (follows_keyword (by decide)) fun _ =>
      follows_bind hcond fun _ => follows_map hbody
  · exact follows_bind_pred (follows_keyword (by decide)) fun _ =>
      follows_bind hcond fun _ => follows_bind (follows_require (follows_bind follows_gap fun _ =>
        (follows_char rfl).weaken) _) fun _ =>
          follows_map (follows_cases hnested hn' hm' hn' hm')

end Statements

/-- Statements do not depend on the bound, nor on a closing brace behind the text. -/
theorem follows_statement (hn : L ≤ n) (hm : L ≤ m) :
    ∀ k, Follows b 1 L (statement n k) (statement m k) := by
  induction n generalizing m L with
  | zero =>
    intro k s s' hs hext
    omega
  | succ n ih =>
    intro k s s' hs hext
    obtain ⟨m, rfl⟩ := Nat.exists_eq_succ_of_ne_zero (n := m) (by omega)
    have hnested : ∀ k, Follows b 1 (L - 1) (statement n k) (statement m k) :=
      ih (by omega) (by omega)
    exact follows_kind hnested hn hm k hs hext

/-- A statement that is read is read with every larger bound. -/
theorem statement_of_le {k : List Comment} {v : Stmt} {r : List Char}
    (h : statement n k s = .ok v r) (hs : s.length < n) (hm : n ≤ m) :
    statement m k s = .ok v r := by
  have hagrees := follows_statement (Nat.le_refl n) hm k hs (.same s)
  rw [h] at hagrees
  generalize statement m k s = reply at hagrees ⊢
  cases hagrees with
  | ok hext _ =>
    cases hext
    rfl

end Reader

end Casework
