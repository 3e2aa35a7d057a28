import Casework.Proofs.Residue
import Casework.Proofs.RoundTrip

/-!
# Expressions that begin like another statement

The printer leaves out parentheses around a name, and empty statements.  Without
them an expression may begin with a word that begins another statement: `(echo);`
is printed as `echo;`, which is no statement.  What such a word is taken for
depends on where the reader stands in a list.  A `case` is a label only within a
switch, and an `else` is a clause only behind a conditional that has none yet, with
nothing but empty statements between them.  So a list is walked through with one
bit: whether a clause may follow.

## Main definitions

* `Need` — what has to stand behind a word that begins a statement.
* `needs` — the words that the reader of a list knows, and what each needs.
* `Expr.advance` — where the reader of a list stands behind an expression, if it gets
  there.
* `Reader.Leaves` — what the reader of a list replies when it gets there, and when it
  does not.

## Main results

* `Reader.stands_word`, `Reader.leaves_clause`, `Reader.leaves_label` — a word is
  followed by what it needs, or the reader halts.
* `Reader.leaves_expr` — **an expression statement is passed exactly when the word it
  begins with gets what it needs**.
-/

namespace Casework

open Reader

/-! ### What words need -/

/-- What has to stand behind a word that begins a statement or one of its parts. -/
inductive Need where
  /-- The end of the statement. -/
  | nothing
  /-- An expression. -/
  | operand
  /-- A statement, or the end of it. -/
  | body
  /-- A condition in parentheses and a statement. -/
  | condition
  /-- A subject and braces, which are not in the text of an expression. -/
  | braces

/-- What is left behind the word is what the word needs. -/
def Need.holds (w : Residue) : Need → Bool
  | nothing => w.isEmpty
  | operand => w.isOperand
  | body => w.isBody
  | condition => w.behindCondition.any Residue.isBody
  | braces => false

/-- The words that statements begin with, what each needs, and whether a clause may
follow what has been read. -/
def statementNeeds : List (List Char × Need × Bool) :=
  [("if".toList, .condition, true), ("while".toList, .condition, false),
    ("switch".toList, .braces, false), ("echo".toList, .operand, false),
    ("return".toList, .body, false), ("break".toList, .nothing, false),
    ("continue".toList, .nothing, false)]

/-- The same for the words that clauses begin with. -/
def clauseNeeds : List (List Char × Need × Bool) :=
  [("elseif".toList, .condition, true), ("else".toList, .body, false),
    ("elseifelse".toList, .body, false)]

/-- The same for the words that labels begin with. -/
def labelNeeds : List (List Char × Need × Bool) :=
  [("case".toList, .operand, false), ("default".toList, .nothing, false)]

/-- The words that the reader of a list knows: those of labels within a switch, and
those of clauses where a clause may follow. -/
def needs (stop : Stop) (isOpen : Bool) : List (List Char × Need × Bool) :=
  statementNeeds ++ (if isOpen then clauseNeeds else []) ++
    (if stop = .label then labelNeeds else [])

/-! ### Passing an expression -/

/-- Where the reader of a list stands behind an expression: whether a clause may
follow, or nothing when it halts.  The bit says whether a clause may follow before
the expression. -/
def Expr.advance (stop : Stop) (isOpen : Bool) (e : Expr) : Option Bool :=
  match e.lead with
  | none => some false
  | some (x, fs) =>
    match (needs stop isOpen).lookup (leadWord x.toList) with
    | none => some false
    | some (need, next) => if need.holds (.of x fs) then some next else none

/-! ### Reading on -/

namespace Reader

/-- The bounds on the rounds of the three loops that read on. -/
structure Rounds where
  clauses : Nat
  list : Nat
  cases : Nat

/-- All rounds are enough for a text of the given length. -/
def Rounds.Cover (f : Rounds) (d : Nat) : Prop := d < f.clauses ∧ d < f.list ∧ d < f.cases

theorem Rounds.Cover.mono {f : Rounds} {d d' : Nat} (h : f.Cover d) (hd : d' ≤ d) : f.Cover d' :=
  ⟨Nat.lt_of_le_of_lt hd h.1, Nat.lt_of_le_of_lt hd h.2.1, Nat.lt_of_le_of_lt hd h.2.2⟩

/-- What follows a list: within a switch, the cases behind it. -/
def follow (m n : Nat) : Stop → Reader Unit
  | .brace => pure ()
  | .label => do let _ ← cases (m + 2) (statement (m + 1)) n

/-- Reads the rest of a list and what follows it. -/
def goOn (m : Nat) (f : Rounds) (stop : Stop) : Reader Unit := do
  let _ ← statements (statement (m + 1)) stop f.list
  follow m f.cases stop

/-- The same from where a clause may follow. -/
def resume (m : Nat) (f : Rounds) (stop : Stop) : Bool → Reader Unit
  | false => goOn m f stop
  | true => do
    let _ ← clauses (m + 1) (statement m) f.clauses
    goOn m f stop

/-- The reply for a statement, or a part of it, after which the reader of a list stands
as given: it halts, or it has read up to the rest, or it goes on to read clauses
there. -/
def Stands {α : Type} (m d : Nat) (r : List Char) : Option Bool → Reply α → Prop
  | none, reply => ∃ e t, reply = .halt e t
  | some false, reply => ∃ v, reply = .ok v r
  | some true, reply => ∃ c F, d < c ∧ reply = (clauses (m + 1) (statement m) c r).map F

/-- The reply when a list is read on until the reader stands as given: it halts, or
it is the reply for going on at the rest, with rounds left for a text of the given
length. -/
def Leaves (m : Nat) (stop : Stop) (d : Nat) (r : List Char) : Option Bool → Reply Unit → Prop
  | none, reply => ∃ e t, reply = .halt e t
  | some isOpen, reply => ∃ f g k, Rounds.Cover f d ∧ IsGap g k ∧
      reply = resume m f stop isOpen (g ++ r)

/-- Going on at the rest does not miss, however the reader stands. -/
def Settles (m : Nat) (stop : Stop) (d : Nat) (r : List Char) : Prop :=
  ∀ (f : Rounds) (isOpen : Bool) (g : List Char) (k : List Comment), f.Cover d → IsGap g k →
    ¬ (resume m f stop isOpen).Misses (g ++ r)

variable {α β : Type} {m d : Nat} {f : Rounds} {stop : Stop} {g r s t : List Char}
  {k : List Comment} {o : Option Bool}

theorem orElse_of_not_misses {p q : Reader α} (h : ¬ p.Misses s) : (p <|> q) s = p s := by
  rw [orElse_apply]
  split
  · next t ht => exact absurd ⟨t, ht⟩ h
  · rfl

/-- The reader reads up to the rest, or it halts, as the bit says. -/
def ReadsIf (b : Bool) (p : Reader α) (s r : List Char) : Prop :=
  if b then ∃ a, p s = .ok a r else p.Halts s

theorem ReadsIf.orElse {b : Bool} {p : Reader α} (h : ReadsIf b p s r) (q : Reader α) :
    ReadsIf b (p <|> q) s r := by
  cases b with
  | true =>
    obtain ⟨a, ha⟩ := h
    exact ⟨a, orElse_ok ha⟩
  | false => exact orElse_halt h

theorem ReadsIf.orElse_of_misses {b : Bool} {p q : Reader α} (h : ReadsIf b q s r)
    (hp : p.Misses s) : ReadsIf b (p <|> q) s r := by
  rw [ReadsIf, Halts, orElse_miss hp]
  exact h

/-- What is read first only matters for how far it comes. -/
theorem bind_of_eq_map {γ : Type} {p : Reader α} {q : Reader β} {u : Reader γ} {F : β → α}
    (h : p s = (q t).map F) : (p >>= fun _ => u) s = (q >>= fun _ => u) t := by
  rw [bind_apply, bind_apply, h]
  cases q t <;> rfl

/-- Where no clause begins, it does not matter whether one may follow. -/
theorem resume_of_noClause (h : NoClause s) (hf : f.Cover d) (isOpen : Bool) :
    resume m f stop isOpen s = goOn m f stop s := by
  cases isOpen with
  | false => rfl
  | true =>
    obtain ⟨c, hc⟩ := Nat.exists_eq_succ_of_ne_zero (Nat.ne_of_gt (Nat.zero_lt_of_lt hf.1))
    rw [resume, hc, bind_ok (clauses_none h)]

/-- Where reading clauses does not miss at the rest, nothing else is tried. -/
theorem Stands.orElse {p : Reader α} (h : Stands m d r o (p s))
    (hr : ∀ c, d < c → ¬ (clauses (m + 1) (statement m) c).Misses r) (q : Reader α) :
    Stands m d r o ((p <|> q) s) := by
  rw [orElse_of_not_misses]
  · exact h
  · rintro ⟨t, ht⟩
    rw [ht] at h
    cases o with
    | none =>
      obtain ⟨e, u, hu⟩ := h
      cases hu
    | some next =>
      cases next with
      | false =>
        obtain ⟨v, hv⟩ := h
        cases hv
      | true =>
        obtain ⟨c, F, hc, heq⟩ := h
        refine hr c hc ?_
        cases hclauses : clauses (m + 1) (statement m) c r with
        | miss u => exact ⟨u, hclauses⟩
        | _ => rw [hclauses] at heq; cases heq

theorem Stands.map {reply : Reply α} (h : Stands m d r o reply) (F : α → β) :
    Stands m d r o (reply.map F) := by
  cases o with
  | none =>
    obtain ⟨e, t, rfl⟩ := h
    exact ⟨e, t, rfl⟩
  | some next =>
    cases next with
    | false =>
      obtain ⟨v, rfl⟩ := h
      exact ⟨F v, rfl⟩
    | true =>
      obtain ⟨c, G, hc, rfl⟩ := h
      refine ⟨c, F ∘ G, hc, ?_⟩
      cases clauses (m + 1) (statement m) c r <;> rfl

/-- Where a case begins, its label is read, and then the list behind it. -/
theorem follow_label {n : Nat} (hg : IsGap g k) (hs : AtToken s) (hbrace : braceAhead s = false)
    (c : Nat) : follow m (n + 1) .label (g ++ s) = (do
      let _ ← label (m + 2)
      goOn m ⟨c, m + 2, n⟩ .label : Reader Unit) s := by
  rw [follow, bind_apply, cases_bind hg hs hbrace]
  simp only [bind_apply]
  cases label (m + 2) s with
  | ok key t =>
    dsimp only
    simp only [goOn, follow, bind_apply]
    cases statements (statement (m + 1)) .label (m + 2) t with
    | ok stmts u =>
      dsimp only
      cases cases (m + 2) (statement (m + 1)) n u <;> rfl
    | _ => rfl
  | _ => rfl

/-- What is read first decides whether the reader comes to what follows. -/
theorem ReadsIf.stands_bind {b : Bool} {p : Reader α} {q : α → Reader β} (h : ReadsIf b p s t)
    (hq : ∀ a, Stands m d r o (q a t)) : Stands m d r (if b then o else none) ((p >>= q) s) := by
  cases b with
  | true =>
    obtain ⟨a, ha⟩ := h
    rw [bind_ok ha]
    exact hq a
  | false => exact bind_halt h

/-- A list goes on with the statement that begins here. -/
theorem leaves_of_stands (hg : IsGap g k) (hs : Starts stop s) (hf : f.Cover (d + 1))
    (h : Stands m d ('\n' :: r) o (statement (m + 1) k s)) :
    Leaves m stop d r o (goOn m f stop (g ++ s)) := by
  obtain ⟨hclauses, hlist, hcases⟩ := hf
  obtain ⟨n, hn⟩ := Nat.exists_eq_succ_of_ne_zero (Nat.ne_of_gt (Nat.zero_lt_of_lt hlist))
  have hgo : goOn m f stop (g ++ s) =
      (do let _ ← statement (m + 1) k; goOn m ⟨f.clauses, n, f.cases⟩ stop : Reader Unit) s := by
    simp only [goOn, hn, bind_apply, statements_bind hg hs]
    cases statement (m + 1) k s with
    | ok v r =>
      dsimp only
      cases statements (statement (m + 1)) stop n r <;> rfl
    | _ => rfl
  have hline : IsGap ['\n'] [] := isGap_layout rfl
  rw [hgo]
  cases o with
  | none => exact bind_halt h
  | some next =>
    cases next with
    | false =>
      obtain ⟨v, hv⟩ := h
      refine ⟨⟨f.clauses, n, f.cases⟩, _, _, ⟨?_, ?_, ?_⟩, hline, bind_ok hv⟩ <;>
        dsimp only <;> omega
    | true =>
      obtain ⟨c, F, hc, hread⟩ := h
      refine ⟨⟨c, n, f.cases⟩, _, _, ⟨hc, ?_, ?_⟩, hline, bind_of_eq_map hread⟩ <;>
        dsimp only <;> omega

/-- Going on does not miss before a text where it does not miss behind it. -/
theorem not_misses_of_leaves {p : Reader Unit} (hr : Settles m stop d r)
    (h : Leaves m stop d r o (p s)) : ¬ p.Misses s := by
  rintro ⟨t, ht⟩
  cases o with
  | none =>
    obtain ⟨e, u, hu⟩ := h
    rw [ht] at hu
    cases hu
  | some isOpen =>
    obtain ⟨f, g, k, hf, hg, heq⟩ := h
    exact hr f isOpen g k hf hg ⟨t, heq.symm.trans ht⟩

/-- Where going on does not miss, reading clauses does not. -/
theorem Settles.clauses (hr : Settles m stop d r) (hg : IsGap g k) {c : Nat} (hc : d < c) :
    ¬ (Reader.clauses (m + 1) (statement m) c).Misses (g ++ r) :=
  fun hmiss => hr ⟨c, d + 1, d + 1⟩ true g k ⟨hc, Nat.lt_succ_self d, Nat.lt_succ_self d⟩ hg
    (bind_miss hmiss)

/-! ### Words that begin statements -/

section Words

variable {w : Residue} {γ : Type}

/-- A body is read exactly when what is left is one. -/
theorem commit_body (hw : w.IsValid) (hlen : w.text.length < m) (n : Nat) (r : List Char) :
    ReadsIf w.isBody (commit (body n (statement m))) (w.text ++ ';' :: r) r := by
  obtain ⟨m, rfl⟩ := Nat.exists_eq_succ_of_ne_zero (Nat.ne_of_gt (Nat.zero_lt_of_lt hlen))
  unfold ReadsIf
  split
  · next hbody =>
    obtain ⟨v, hv⟩ := Residue.body_ok (n := n) hw hbody (Nat.le_of_lt_succ hlen) r
    exact ⟨v, commit_ok hv⟩
  · next hbody =>
    refine commit_miss (Residue.body_misses hw (by simpa using hbody) (Nat.le_of_lt_succ hlen) r)

/-- A condition and a body are read exactly when what is left is both. -/
theorem condition_body (hw : w.IsValid) (hlen : w.text.length ≤ m)
    (next : Expr → List Stmt → Reader γ) (r : List Char) :
    if Need.condition.holds w then
      ∃ e v, (do
        let cond ← condition (m + 1)
        let stmts ← commit (body (m + 1) (statement m))
        next cond stmts : Reader γ) (w.text ++ ';' :: r) = next e v r
    else (do
        let cond ← condition (m + 1)
        let stmts ← commit (body (m + 1) (statement m))
        next cond stmts : Reader γ).Halts (w.text ++ ';' :: r) := by
  cases hbehind : w.behindCondition with
  | none =>
    have hneed : Need.condition.holds w = false := by rw [Need.holds, hbehind]; rfl
    rw [hneed]
    exact bind_halt (Residue.condition_halts hw hbehind (Nat.lt_succ_of_le hlen) r)
  | some w' =>
    have hneed : Need.condition.holds w = w'.isBody := by rw [Need.holds, hbehind]; rfl
    obtain ⟨hw', hshort, e, he⟩ := Residue.condition_ok hw hbehind (Nat.lt_succ_of_le hlen) r
    have hbody := commit_body hw' (Nat.lt_of_lt_of_le hshort hlen) (m + 1) r
    rw [hneed]
    cases his : w'.isBody with
    | true =>
      rw [his] at hbody
      obtain ⟨v, hv⟩ := hbody
      exact ⟨e, v, by rw [bind_ok he, bind_ok hv]⟩
    | false =>
      rw [his] at hbody
      exact halts_of_bind_ok he (bind_halt hbody)

/-- A gap before an expression is read twice. -/
theorem gap_expr (n : Nat) (s : List Char) :
    (do gap; expr (n + 1) : Reader Expr) s = expr (n + 1) s := by
  have hgap : gap s = .ok () (ahead s) := rfl
  rw [bind_ok hgap]
  exact tier_ahead (n + 1) (expression n) 0 s

variable (hw : w.IsValid) (hlen : w.text.length ≤ m)
  (hs : s.dropWhile isWordChar = w.text ++ ';' :: r)
include hw hlen hs

theorem stands_if (hlead : leadWord s = "if".toList) (hd : d ≤ m)
    (hr : ∀ c, d < c → ¬ (clauses (m + 1) (statement m) c).Misses r) (k : List Comment) :
    Stands m d r (if Need.condition.holds w then some true else none) (statement (m + 1) k s) := by
  have hread := condition_body hw hlen (fun cond stmts => do
    let c ← clauses (m + 1) (statement m) (m + 1)
    pure (Stmt.conditional k cond stmts c.1 c.2)) r
  have hword : conditional (m + 1) (statement m) k s = (do
      let cond ← condition (m + 1)
      let stmts ← commit (body (m + 1) (statement m))
      let c ← clauses (m + 1) (statement m) (m + 1)
      pure (Stmt.conditional k cond stmts c.1 c.2) : Reader Stmt)
        (w.text ++ ';' :: r) := by
    rw [← hs]
    exact bind_ok (keyword_ok hlead)
  rw [statement_succ, kind]
  split at hread
  · next hneed =>
    obtain ⟨e, v, hread⟩ := hread
    have hmap : conditional (m + 1) (statement m) k s =
        (clauses (m + 1) (statement m) (m + 1) r).map
          (fun c => Stmt.conditional k e v c.1 c.2) := by
      rw [hword, hread, bind_apply]
      cases clauses (m + 1) (statement m) (m + 1) r <;> rfl
    have hstands : Stands m d r (some true) (conditional (m + 1) (statement m) k s) :=
      ⟨m + 1, _, Nat.lt_succ_of_le hd, hmap⟩
    rw [if_pos hneed]
    exact hstands.orElse hr _
  · next hneed =>
    rw [if_neg hneed]
    refine orElse_halt ?_
    rw [Halts, hword]
    exact hread

theorem stands_while (hlead : leadWord s = "while".toList) (k : List Comment) :
    Stands m d r (if Need.condition.holds w then some false else none)
      (statement (m + 1) k s) := by
  have hread := condition_body hw hlen (fun cond stmts => pure (Stmt.while k cond stmts)) r
  have hword : loop (m + 1) (statement m) k s = (do
      let cond ← condition (m + 1)
      let stmts ← commit (body (m + 1) (statement m))
      pure (Stmt.while k cond stmts) : Reader Stmt) (w.text ++ ';' :: r) := by
    rw [← hs]
    exact bind_ok (keyword_ok hlead)
  rw [statement_succ, kind, orElse_miss (conditional_misses (by rw [hlead]; decide))]
  split at hread
  · next hneed =>
    obtain ⟨e, v, hread⟩ := hread
    rw [if_pos hneed]
    exact ⟨_, orElse_ok (hword.trans hread)⟩
  · next hneed =>
    rw [if_neg hneed]
    refine orElse_halt ?_
    rw [Halts, hword]
    exact hread

/-- No braces stand in the text of an expression behind a condition. -/
theorem stands_switch (hlead : leadWord s = "switch".toList) (k : List Comment) :
    Stands m d r none (statement (m + 1) k s) := by
  have hbrace : ∀ {w' : Residue}, w'.IsValid →
      (ahead (w'.text ++ ';' :: r)).head? ≠ some '\x7b' := by
    intro w' hw'
    rcases Bool.eq_false_or_eq_true w'.isEmpty with he | he
    · rw [Residue.text_of_isEmpty he, List.nil_append,
        ahead_of_atToken (atToken_cons (by decide) r)]
      simp
    · obtain ⟨c, u, hu, -, -, hc, -⟩ := Residue.exists_ahead_eq_cons hw' he (';' :: r)
      rw [hu]
      simpa using hc
  have hword : switch (m + 1) (statement m) k s = (do
      let subject ← condition (m + 1)
      require .openingBrace (do gap; char '\x7b')
      let cs ← cases (m + 1) (statement m) (m + 1)
      pure (Stmt.switch k subject cs) : Reader Stmt) (w.text ++ ';' :: r) := by
    rw [← hs]
    exact bind_ok (keyword_ok hlead)
  have hhalts : (switch (m + 1) (statement m) k).Halts s := by
    rw [Halts, hword]
    cases hbehind : w.behindCondition with
    | none => exact bind_halt (Residue.condition_halts hw hbehind (Nat.lt_succ_of_le hlen) r)
    | some w' =>
      obtain ⟨hw', -, e, he⟩ := Residue.condition_ok hw hbehind (Nat.lt_succ_of_le hlen) r
      have hgap : gap (w'.text ++ ';' :: r) = .ok () (ahead (w'.text ++ ';' :: r)) := rfl
      refine halts_of_bind_ok he (bind_halt (require_miss ?_))
      exact misses_of_bind_ok hgap (char_miss (hbrace hw'))
  rw [statement_succ, kind, orElse_miss (conditional_misses (by rw [hlead]; decide)),
    orElse_miss (loop_misses (by rw [hlead]; decide))]
  exact orElse_halt hhalts

theorem echo_of_need (hlead : leadWord s = "echo".toList) :
    ReadsIf w.isOperand (echo (m + 1)) s r := by
  have hword : echo (m + 1) s = (do
      let operands ← commit (sepBy1 (do gap; expr (m + 1)) (do gap; char ',') (m + 1))
      semicolon
      pure (Leaf.echo operands) : Reader Leaf) (w.text ++ ';' :: r) := by
    rw [← hs]
    exact bind_ok (keyword_ok hlead)
  have hat : AtToken (';' :: r) := atToken_cons (by decide) r
  unfold ReadsIf
  split
  · next hop =>
    obtain ⟨e, he⟩ := Residue.expr_ok hw hop (Nat.lt_succ_of_le hlen) r
    have hitem : (do gap; expr (m + 1) : Reader Expr) (w.text ++ ';' :: r) = .ok e (';' :: r) := by
      rw [gap_expr, he]
    have hcomma : (do (do gap; char ','); gap; expr (m + 1) : Reader Expr).Misses (';' :: r) :=
      bind_miss (misses_of_bind_ok (gap_atToken hat) (char_miss (by simp)))
    have hitems : sepBy1 (do gap; expr (m + 1)) (do gap; char ',') (m + 1) (w.text ++ ';' :: r) =
        .ok [e] (';' :: r) := by
      rw [sepBy1, bind_ok hitem, bind_ok (many_miss hcomma)]
      rfl
    have hsemicolon : semicolon (';' :: r) = .ok () r := semicolon_ok isGap_nil r
    refine ⟨.echo [e], ?_⟩
    rw [hword, bind_ok (commit_ok hitems), bind_ok hsemicolon]
    rfl
  · next hop =>
    obtain ⟨t, ht⟩ := Residue.expr_misses hw (by simpa using hop) (Nat.lt_succ_of_le hlen) r
    have hitem : (do gap; expr (m + 1) : Reader Expr).Misses (w.text ++ ';' :: r) :=
      ⟨t, by rw [gap_expr, ht]⟩
    rw [Halts, hword]
    exact bind_halt (commit_miss (bind_miss hitem))

theorem ret_of_need (hlead : leadWord s = "return".toList) :
    ReadsIf w.isBody (ret (m + 1)) s r := by
  have hword : ret (m + 1) s = (do
      let value ← optional (do gap; expr (m + 1))
      semicolon
      pure (Leaf.return value) : Reader Leaf) (w.text ++ ';' :: r) := by
    rw [← hs]
    exact bind_ok (keyword_ok hlead)
  rcases Bool.eq_false_or_eq_true w.isOperand with hop | hop
  · obtain ⟨e, he⟩ := Residue.expr_ok hw hop (Nat.lt_succ_of_le hlen) r
    have hvalue : optional (do gap; expr (m + 1)) (w.text ++ ';' :: r) = .ok (some e) (';' :: r) :=
      optional_ok (by rw [gap_expr, he])
    have hsemicolon : semicolon (';' :: r) = .ok () r := semicolon_ok isGap_nil r
    rw [ReadsIf, if_pos (by rw [Residue.isBody, hop, Bool.or_true])]
    refine ⟨.return (some e), ?_⟩
    rw [hword, bind_ok hvalue, bind_ok hsemicolon]
    rfl
  · obtain ⟨t, ht⟩ := Residue.expr_misses hw hop (Nat.lt_succ_of_le hlen) r
    have hvalue : optional (do gap; expr (m + 1)) (w.text ++ ';' :: r) =
        .ok none (w.text ++ ';' :: r) := optional_miss ⟨t, by rw [gap_expr, ht]⟩
    rw [ReadsIf, Residue.isBody, hop, Bool.or_false]
    split
    · next he =>
      refine ⟨.return none, ?_⟩
      rw [hword, bind_ok hvalue, bind_ok (Residue.semicolon_ok he r)]
      rfl
    · next he =>
      rw [Halts, hword]
      exact halts_of_bind_ok hvalue (bind_halt (Residue.semicolon_halts hw (by simpa using he) r))

omit hlen in
theorem jump_of_need {word : String} {l : Leaf} (hlead : leadWord s = word.toList) :
    ReadsIf w.isEmpty (do keyword word; semicolon; return l : Reader Leaf) s r := by
  have hword : (do keyword word; semicolon; return l : Reader Leaf) s =
      (do semicolon; return l : Reader Leaf) (w.text ++ ';' :: r) := by
    rw [← hs]
    exact bind_ok (keyword_ok hlead)
  rw [ReadsIf, Halts, hword]
  split
  · next he =>
    refine ⟨l, ?_⟩
    rw [bind_ok (Residue.semicolon_ok he r)]
    rfl
  · next he => exact bind_halt (Residue.semicolon_halts hw (by simpa using he) r)

end Words

/-- A leaf that begins with one of the four words is read or halts. -/
theorem stands_leaf {word : List Char} {b : Bool} (hlead : leadWord s = word)
    (hword : word ∉ ["if".toList, "while".toList, "switch".toList])
    (h : ReadsIf b (leaf (m + 1)) s r) (k : List Comment) :
    Stands m d r (if b then some false else none) (statement (m + 1) k s) := by
  simp only [← hlead, List.mem_cons, List.not_mem_nil, or_false, not_or] at hword
  obtain ⟨hif, hwhile, hswitch⟩ := hword
  rw [statement_succ, kind_of_leadWord hif hwhile hswitch]
  cases b with
  | true =>
    obtain ⟨l, hl⟩ := h
    exact ⟨.leaf k l, orElse_ok (bind_pure_ok hl)⟩
  | false => exact orElse_halt (bind_halt h)

section Words

variable {w : Residue} {word : List Char} {need : Need} {next : Bool}

/-- An expression that begins with the word of another statement is read as this
statement exactly when the word gets what it needs. -/
theorem stands_word (hmem : (word, need, next) ∈ statementNeeds) (hlead : leadWord s = word)
    (hw : w.IsValid) (hlen : w.text.length ≤ m)
    (hs : s.dropWhile isWordChar = w.text ++ ';' :: r) (hd : d ≤ m)
    (hr : ∀ c, d < c → ¬ (clauses (m + 1) (statement m) c).Misses r) (k : List Comment) :
    Stands m d r (if need.holds w then some next else none) (statement (m + 1) k s) := by
  simp only [statementNeeds, List.mem_cons, Prod.mk.injEq, List.not_mem_nil, or_false] at hmem
  rcases hmem with ⟨rfl, rfl, rfl⟩ | ⟨rfl, rfl, rfl⟩ | ⟨rfl, rfl, rfl⟩ | ⟨rfl, rfl, rfl⟩ |
    ⟨rfl, rfl, rfl⟩ | ⟨rfl, rfl, rfl⟩ | ⟨rfl, rfl, rfl⟩
  · exact stands_if hw hlen hs hlead hd hr k
  · exact stands_while hw hlen hs hlead k
  · exact stands_switch hw hlen hs hlead k
  · have hread : ReadsIf w.isOperand (leaf (m + 1)) s r :=
      (echo_of_need hw hlen hs hlead).orElse _
    exact stands_leaf hlead (by decide) hread k
  · have hecho : (echo (m + 1)).Misses s :=
      bind_miss (keyword_misses (by decide) (by rw [hlead]; decide))
    have hread : ReadsIf w.isBody (leaf (m + 1)) s r :=
      ((ret_of_need hw hlen hs hlead).orElse _).orElse_of_misses hecho
    exact stands_leaf hlead (by decide) hread k
  · have hecho : (echo (m + 1)).Misses s :=
      bind_miss (keyword_misses (by decide) (by rw [hlead]; decide))
    have hret : (ret (m + 1)).Misses s :=
      bind_miss (keyword_misses (by decide) (by rw [hlead]; decide))
    have hread : ReadsIf w.isEmpty (leaf (m + 1)) s r :=
      (((jump_of_need hw hs hlead).orElse _).orElse_of_misses hret).orElse_of_misses hecho
    exact stands_leaf hlead (by decide) hread k
  · have hecho : (echo (m + 1)).Misses s :=
      bind_miss (keyword_misses (by decide) (by rw [hlead]; decide))
    have hret : (ret (m + 1)).Misses s :=
      bind_miss (keyword_misses (by decide) (by rw [hlead]; decide))
    have hbreak : (do keyword "break"; semicolon; return .break : Reader Leaf).Misses s :=
      bind_miss (keyword_misses (by decide) (by rw [hlead]; decide))
    have hread : ReadsIf w.isEmpty (leaf (m + 1)) s r :=
      (((jump_of_need hw hs hlead).orElse_of_misses hbreak).orElse_of_misses
        hret).orElse_of_misses hecho
    exact stands_leaf hlead (by decide) hread k

/-- An expression that begins with the word of a clause is read as this clause, where
one may follow, exactly when the word gets what it needs. -/
theorem leaves_clause (hmem : (word, need, next) ∈ clauseNeeds) (hlead : leadWord s = word)
    (hat : AtToken s) (hw : w.IsValid) (hlen : w.text.length < m)
    (hs : s.dropWhile isWordChar = w.text ++ ';' :: '\n' :: r) (hg : IsGap g k)
    (hf : f.Cover (d + 1)) :
    Leaves m stop d r (if need.holds w then some next else none)
      (resume m f stop true (g ++ s)) := by
  obtain ⟨hclauses, hlist, hcases⟩ := hf
  obtain ⟨c, hc⟩ := Nat.exists_eq_succ_of_ne_zero (Nat.ne_of_gt (Nat.zero_lt_of_lt hclauses))
  have hline : IsGap ['\n'] [] := isGap_layout rfl
  have helse : leadWord s = "else".toList ∨ leadWord s = "elseifelse".toList →
      Leaves m stop d r (if w.isBody then some false else none)
        (resume m f stop true (g ++ s)) := by
    intro helse
    have hbody := commit_body hw hlen (m + 1) ('\n' :: r)
    rw [resume, hc, bind_apply, clauses_of_else hg hat helse, hs]
    cases his : w.isBody with
    | true =>
      rw [his] at hbody
      obtain ⟨v, hv⟩ := hbody
      refine ⟨f, _, _, ⟨?_, ?_, ?_⟩, hline, ?_⟩
      · omega
      · omega
      · omega
      · rw [bind_ok hv]
        rfl
    | false =>
      rw [his] at hbody
      obtain ⟨e, t, ht⟩ := bind_halt hbody (f := fun stmts =>
        pure (([] : List (Clause Stmt)), some (Otherwise.mk k stmts)))
      exact ⟨e, t, by rw [ht]⟩
  simp only [clauseNeeds, List.mem_cons, Prod.mk.injEq, List.not_mem_nil, or_false] at hmem
  rcases hmem with ⟨rfl, rfl, rfl⟩ | ⟨rfl, rfl, rfl⟩ | ⟨rfl, rfl, rfl⟩
  · have hread := condition_body hw (Nat.le_of_lt hlen) (fun cond stmts => do
      let o ← clauses (m + 1) (statement m) c
      pure (Clause.mk k cond stmts :: o.1, o.2)) ('\n' :: r)
    rw [← hs] at hread
    split at hread
    · next hneed =>
      obtain ⟨e, v, hread⟩ := hread
      have hmap : clauses (m + 1) (statement m) (c + 1) (g ++ s) =
          (clauses (m + 1) (statement m) c ('\n' :: r)).map
            (fun o => (Clause.mk k e v :: o.1, o.2)) := by
        rw [clauses_of_elseif hg hat hlead, hread, bind_apply]
        cases clauses (m + 1) (statement m) c ('\n' :: r) <;> rfl
      rw [if_pos hneed, resume, hc]
      refine ⟨⟨c, f.list, f.cases⟩, _, _, ⟨?_, ?_, ?_⟩, hline, bind_of_eq_map hmap⟩
      · show d < c
        omega
      · show d < f.list
        omega
      · show d < f.cases
        omega
    · next hneed =>
      rw [if_neg hneed, resume, hc]
      refine bind_halt ?_
      rw [Halts, clauses_of_elseif hg hat hlead]
      exact hread
  · exact helse (Or.inl hlead)
  · exact helse (Or.inr hlead)

/-- Behind `case` a label is read, with the semicolon for its colon, exactly when what is
left is an operand. -/
theorem case_of_need {n : Nat} (hlead : leadWord s = "case".toList) (hw : w.IsValid)
    (hlen : w.text.length ≤ n) (hs : s.dropWhile isWordChar = w.text ++ ';' :: r) :
    ReadsIf w.isOperand (label (n + 1)) s r := by
  have hword := keyword_ok hlead
  rw [hs] at hword
  unfold ReadsIf
  split
  · next hoperand =>
    obtain ⟨e, he⟩ := Residue.expr_ok hw hoperand (Nat.lt_succ_of_le hlen) r
    exact ⟨some e, label_ok (labelKey_case hword ((gap_expr n _).trans he)) (Or.inr rfl)⟩
  · next hoperand =>
    obtain ⟨t, ht⟩ := Residue.expr_misses hw (by simpa using hoperand) (Nat.lt_succ_of_le hlen) r
    have hgap : gap (w.text ++ ';' :: r) = .ok () (ahead (w.text ++ ';' :: r)) := rfl
    have hexpr : expr (n + 1) (ahead (w.text ++ ';' :: r)) = .miss t :=
      (tier_ahead (n + 1) (expression n) 0 _).trans ht
    have hcase : (do keyword "case"; gap; return some (← expr (n + 1)) :
        Reader (Option Expr)).Misses s :=
      misses_of_bind_ok hword (misses_of_bind_ok hgap (bind_miss ⟨t, hexpr⟩))
    have hdefault : (do keyword "default"; return none : Reader (Option Expr)).Misses s :=
      bind_miss (keyword_misses (by decide) (by rw [hlead]; decide))
    exact bind_halt (require_miss (orElse_misses hcase hdefault))

/-- Behind `default` a label is read exactly when nothing is left before the semicolon. -/
theorem default_of_need {n : Nat} (hlead : leadWord s = "default".toList) (hw : w.IsValid)
    (hs : s.dropWhile isWordChar = w.text ++ ';' :: r) :
    ReadsIf w.isEmpty (label (n + 1)) s r := by
  have hword := keyword_ok hlead
  rw [hs] at hword
  have hcase : (keyword "case").Misses s := keyword_misses (by decide) (by rw [hlead]; decide)
  have hkey : labelKey (n + 1) s = .ok none (w.text ++ ';' :: r) := labelKey_default hcase hword
  unfold ReadsIf
  split
  · next hempty =>
    rw [Residue.text_of_isEmpty hempty] at hkey
    exact ⟨none, label_ok hkey (Or.inr rfl)⟩
  · next hempty =>
    obtain ⟨c, u, hu, hsemicolon, hcolon, -⟩ :=
      Residue.exists_ahead_eq_cons hw (by simpa using hempty) (';' :: r)
    have hgap : gap (w.text ++ ';' :: r) = .ok () (c :: u) := by rw [← hu]; rfl
    refine halts_of_bind_ok (require_ok hkey) (bind_halt (require_miss (misses_of_bind_ok hgap ?_)))
    refine bind_miss (satisfy_miss fun d hd => ?_)
    cases hd
    simp [hsemicolon, hcolon]

/-- An expression that begins with the word of a label is read as this label, with the
semicolon for its colon, exactly when the word gets what it needs. -/
theorem label_of_need {n : Nat} (hmem : (word, need, next) ∈ labelNeeds)
    (hlead : leadWord s = word) (hw : w.IsValid) (hlen : w.text.length ≤ n)
    (hs : s.dropWhile isWordChar = w.text ++ ';' :: r) :
    ReadsIf (need.holds w) (label (n + 1)) s r := by
  simp only [labelNeeds, List.mem_cons, Prod.mk.injEq, List.not_mem_nil, or_false] at hmem
  rcases hmem with ⟨rfl, rfl, rfl⟩ | ⟨rfl, rfl, rfl⟩
  · exact case_of_need hlead hw hlen hs
  · exact default_of_need hlead hw hs

/-- The same within the list of a case, whose body ends before the label. -/
theorem leaves_label (hmem : (word, need, next) ∈ labelNeeds) (hlead : leadWord s = word)
    (hat : AtToken s) (hbrace : braceAhead s = false) (hw : w.IsValid) (hlen : w.text.length ≤ m)
    (hs : s.dropWhile isWordChar = w.text ++ ';' :: '\n' :: r) (hg : IsGap g k) (hd : d ≤ m)
    (hf : f.Cover (d + 1)) :
    Leaves m .label d r (if need.holds w then some next else none)
      (goOn m f .label (g ++ s)) := by
  obtain ⟨hclauses, hlist, hcases⟩ := hf
  obtain ⟨n, hn⟩ := Nat.exists_eq_succ_of_ne_zero (Nat.ne_of_gt (Nat.zero_lt_of_lt hlist))
  obtain ⟨j, hj⟩ := Nat.exists_eq_succ_of_ne_zero (Nat.ne_of_gt (Nat.zero_lt_of_lt hcases))
  have hline : IsGap ['\n'] [] := isGap_layout rfl
  have hahead : labelAhead s = true := by
    simp only [labelNeeds, List.mem_cons, Prod.mk.injEq, List.not_mem_nil, or_false] at hmem
    rcases hmem with ⟨rfl, -⟩ | ⟨rfl, -⟩
    · rw [labelAhead, Reader.fits, keyword_ok hlead]
      rfl
    · rw [labelAhead, Bool.or_comm, Reader.fits, keyword_ok hlead]
      rfl
  have hnext : next = false := by
    simp only [labelNeeds, List.mem_cons, Prod.mk.injEq, List.not_mem_nil, or_false] at hmem
    rcases hmem with ⟨-, -, hnext⟩ | ⟨-, -, hnext⟩ <;> exact hnext
  have hgo : goOn m f .label (g ++ s) = (do
      let _ ← label (m + 2)
      goOn m ⟨f.clauses, m + 2, j⟩ .label : Reader Unit) s := by
    rw [goOn, hn, bind_ok (statements_label hg hat hahead), hj]
    exact follow_label hg hat hbrace f.clauses
  have hread := label_of_need (n := m + 1) hmem hlead hw (Nat.le_succ_of_le hlen) hs
  rw [hgo, hnext]
  cases hneed : need.holds w with
  | true =>
    rw [hneed] at hread
    obtain ⟨key, hkey⟩ := hread
    refine ⟨⟨f.clauses, m + 2, j⟩, _, _, ⟨?_, ?_, ?_⟩, hline, bind_ok hkey⟩ <;> dsimp only <;> omega
  | false =>
    rw [hneed] at hread
    exact bind_halt hread

end Words

/-! ### Expression statements -/

/-- The words that the reader of a list knows anywhere. -/
def knownWords : List (List Char) := (needs .label true).map Prod.fst

theorem mem_knownWords_of_mem_needs {isOpen : Bool} {word : List Char} {a : Need × Bool}
    (h : (word, a) ∈ needs stop isOpen) : word ∈ knownWords := by
  refine List.mem_map.mpr ⟨(word, a), ?_, rfl⟩
  simp only [needs, List.mem_append] at h ⊢
  refine Or.imp (Or.imp_right fun h => ?_) (fun h => ?_) h
  · cases isOpen with
    | true => exact h
    | false => cases h
  · cases stop with
    | label => exact h
    | brace => cases h

/-- No word that begins a statement, a label or a clause stands before an expression
that does not begin with a name. -/
theorem leadWord_not_mem_knownWords {e : Expr} (he : IsValid e) (h : e.lead = none) :
    leadWord e.text ∉ knownWords := by
  intro hmem
  have hlower : ∀ word ∈ knownWords, word.all Char.isLower = true := by decide
  have hne : ∀ word ∈ knownWords, word ≠ [] := by decide
  have hlit : ∀ word ∈ knownWords, word ∉ ["true", "false", "null", "inf"].map String.toList := by
    decide
  exact leadWord_text_ne_of_lead (hlower _ hmem) (hne _ hmem) (hlit _ hmem) he h rfl

section Expressions

variable {e : Expr} {isOpen : Bool}

/-- Where no clause begins, a list goes on wherever the reader stands. -/
theorem resume_of_leadWord (hs : AtToken s) (hlead : leadWord s ∉ clauseWords) (hg : IsGap g k)
    (hf : f.Cover d) (isOpen : Bool) :
    resume m f stop isOpen (g ++ s) = goOn m f stop (g ++ s) := by
  apply resume_of_noClause _ hf
  rw [NoClause, hg.ahead_append, ahead_of_atToken hs]
  exact hlead

theorem labelAhead_of_not_mem (h : leadWord s ∉ labelNeeds.map Prod.fst) :
    labelAhead s = false := by
  simp only [labelNeeds, List.map_cons, List.map_nil, List.mem_cons, List.not_mem_nil, or_false,
    not_or] at h
  exact labelAhead_of_leadWord h.1 h.2

/-- An expression that begins with no word the reader knows is read as an expression. -/
theorem leaves_of_not_mem (he : IsValid e)
    (hlead : leadWord (e.text ++ ';' :: '\n' :: r) ∉ (needs stop isOpen).map Prod.fst)
    (hlen : e.text.length ≤ m) (hg : IsGap g k) (hf : f.Cover (d + 1)) :
    Leaves m stop d r (some false)
      (resume m f stop isOpen (g ++ (e.text ++ ';' :: '\n' :: r))) := by
  obtain ⟨e', hwritten⟩ := he.exists_written
  simp only [needs, List.map_append, List.mem_append, not_or] at hlead
  obtain ⟨⟨hstatement, hclause⟩, hlabel⟩ := hlead
  have hresume : resume m f stop isOpen (g ++ (e.text ++ ';' :: '\n' :: r)) =
      goOn m f stop (g ++ (e.text ++ ';' :: '\n' :: r)) := by
    cases isOpen with
    | false => rfl
    | true =>
      exact resume_of_leadWord (hwritten.atToken _) hclause hg hf true
  have hstarts : Starts stop (e.text ++ ';' :: '\n' :: r) := by
    apply starts_expr hwritten
    rintro rfl
    exact labelAhead_of_not_mem hlabel
  rw [hresume]
  exact leaves_of_stands hg hstarts hf
    ⟨_, kind_expr hstatement hwritten (Nat.lt_succ_of_le hlen)⟩

/-- A word that the reader knows is followed by what it needs, or the reader halts. -/
theorem leaves_of_mem {w : Residue} {word : List Char} {need : Need} {next : Bool}
    (hmem : (word, need, next) ∈ needs stop isOpen) (hlead : leadWord s = word) (hat : AtToken s)
    (hbrace : braceAhead s = false) (hw : w.IsValid) (hlen : w.text.length < m)
    (hs : s.dropWhile isWordChar = w.text ++ ';' :: '\n' :: r) (hd : d ≤ m) (hg : IsGap g k)
    (hf : f.Cover (d + 1)) (hr : Settles m stop d r) :
    Leaves m stop d r (if need.holds w then some next else none)
      (resume m f stop isOpen (g ++ s)) := by
  rw [needs, List.mem_append, List.mem_append] at hmem
  rcases hmem with (hmem | hmem) | hmem
  · have hapart : ∀ a ∈ statementNeeds, a.1 ∉ clauseWords ∧ a.1 ∉ labelNeeds.map Prod.fst := by
      decide
    obtain ⟨hclause, hlabel⟩ := hapart _ hmem
    have hstarts : Starts stop s := by
      refine ⟨hat, ?_, hbrace, fun _ => labelAhead_of_not_mem (hlead ▸ hlabel)⟩
      rintro rfl
      simp at hs
    have hline : IsGap ['\n'] [] := isGap_layout rfl
    have hstands := stands_word hmem hlead hw (Nat.le_of_lt hlen) hs hd
      (fun c hc => hr.clauses hline hc) k
    rw [resume_of_leadWord hat (hlead ▸ hclause) hg hf]
    exact leaves_of_stands hg hstarts hf hstands
  · cases isOpen with
    | false => cases hmem
    | true => exact leaves_clause hmem hlead hat hw hlen hs hg hf
  · cases stop with
    | brace => cases hmem
    | label =>
      have hapart : ∀ a ∈ labelNeeds, a.1 ∉ clauseWords := by decide
      have hclause : leadWord s ∉ clauseWords := by
        rw [hlead]
        exact hapart _ hmem
      rw [resume_of_leadWord hat hclause hg hf]
      exact leaves_label hmem hlead hat hbrace hw (Nat.le_of_lt hlen) hs hg hd hf

/-- **An expression statement is passed exactly when the word it begins with gets what
it needs**, and the reader halts otherwise. -/
theorem leaves_expr (he : IsValid e) (hlen : e.text.length < m) (hd : d ≤ m) (hg : IsGap g k)
    (hf : f.Cover (d + 1)) (hr : Settles m stop d r) :
    Leaves m stop d r (e.advance stop isOpen)
      (resume m f stop isOpen (g ++ (e.text ++ ';' :: '\n' :: r))) := by
  unfold Expr.advance
  split
  · next hnone =>
    apply leaves_of_not_mem he _ (Nat.le_of_lt hlen) hg hf
    rw [leadWord_append_of_not (by decide)]
    intro hmem
    obtain ⟨⟨word, a⟩, hmem, hword⟩ := List.mem_map.mp hmem
    apply leadWord_not_mem_knownWords he hnone
    rw [← hword]
    exact mem_knownWords_of_mem_needs hmem
  · next x fs hsome =>
    have hleads := leads_of_lead hsome
    have hword := Residue.leadWord_text hleads ('\n' :: r)
    have hrest := Residue.dropWhile_text hleads ('\n' :: r)
    have hvalid := Residue.isValid_of hleads he
    obtain ⟨e', hwritten⟩ := he.exists_written
    split
    · next hlookup =>
      apply leaves_of_not_mem he _ (Nat.le_of_lt hlen) hg hf
      rw [hword]
      intro hmem
      obtain ⟨⟨word, a⟩, hmem, heq⟩ := List.mem_map.mp hmem
      have hne := List.lookup_eq_none_iff.mp hlookup _ hmem
      rw [← heq] at hne
      simp at hne
    · next need next hlookup =>
      have hmem : (leadWord x.toList, need, next) ∈ needs stop isOpen := by
        obtain ⟨l, l', hsplit, -⟩ := List.lookup_eq_some_iff.mp hlookup
        rw [hsplit]
        simp
      have hshort : (Residue.of x fs).text.length ≤ e.text.length := by
        have hle := (List.dropWhile_sublist isWordChar (l := e.text ++ ';' :: '\n' :: r)).length_le
        rw [hrest, List.length_append, List.length_append] at hle
        exact Nat.le_of_add_le_add_right hle
      exact leaves_of_mem hmem hword (hwritten.atToken _)
        (braceAhead_of_head? (hwritten.head?_append_ne (by decide) _)) hvalid
        (Nat.lt_of_le_of_lt hshort hlen) hrest hd hg hf hr

end Expressions

end Reader

end Casework
