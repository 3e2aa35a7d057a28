import Casework.Proofs.Closing
import Casework.Proofs.RoundTrip

/-!
# Bodies with and without braces

A statement may be the body of a conditional as it stands or in braces.  In braces it
is read as a list of statements: the comments before it lead it, or become an empty
statement where nothing else stands.  As it stands, the comments before it are passed
over with the gap before the body, so that the statement is led by none, and comments
alone are no body.

So the two texts mean the same exactly when no comments lead the statement.

## Main definitions

* `Stmt.withComments` — the statement, led by other comments.
* `Reader.Relabels` — the comments only lead what is read.
* `ifText`, `bracedIfText` — a text as the body of a conditional, and in braces.

## Main results

* `Reader.relabels_statement` — a statement is read the same whatever leads it.
* `Reader.statements_brace_rest` — a list of statements ends at a closing brace or at
  the end of the text.
* `Program.parse_bracedIfText`, `Program.parse_ifText` — the conditional that is read.
* `Program.parse_ifText_eq_iff` — **a body reads the same in braces exactly when no
  comments lead it**.
-/

namespace Casework

/-! ### Statements led by other comments -/

/-- The statement, led by the given comments instead of its own. -/
def Stmt.withComments (k : List Comment) : Stmt → Stmt
  | leaf _ l => leaf k l
  | block _ body => block k body
  | «while» _ cond body => «while» k cond body
  | conditional _ cond body elseifs otherwise => conditional k cond body elseifs otherwise
  | switch _ subject cases => switch k subject cases

namespace Stmt

@[simp] theorem comments_withComments (k : List Comment) (s : Stmt) :
    (s.withComments k).comments = k := by
  cases s <;> rfl

@[simp] theorem withComments_withComments (j k : List Comment) (s : Stmt) :
    (s.withComments j).withComments k = s.withComments k := by
  cases s <;> rfl

theorem withComments_eq_self_iff {k : List Comment} {s : Stmt} :
    s.withComments k = s ↔ s.comments = k := by
  constructor
  · intro h
    rw [← h, comments_withComments]
  · rintro rfl
    cases s <;> rfl

end Stmt

namespace Reader

variable {α : Type} {fuel n : Nat} {nested p q : Led} {f : α → Led} {g s r : List Char}
  {k : List Comment} {v : Stmt} {stmts : List Stmt}

/-- The comments only lead what is read: with others the same is read, led by them. -/
def Relabels (p : Led) : Prop := ∀ k s, p k s = (p [] s).map (Stmt.withComments k)

theorem relabels_pure {h : List Comment → Stmt} (hh : ∀ k, h k = (h []).withComments k) :
    Relabels fun k => pure (h k) := by
  intro k s
  show Reply.ok (h k) s = .ok ((h []).withComments k) s
  rw [hh]

theorem relabels_bind {a : Reader α} (hf : ∀ x, Relabels (f x)) :
    Relabels fun k => a >>= fun x => f x k := by
  intro k s
  simp only [bind_apply]
  cases a s with
  | ok x r => exact hf x k r
  | miss r => rfl
  | halt e r => rfl

theorem relabels_orElse (hp : Relabels p) (hq : Relabels q) : Relabels fun k => p k <|> q k := by
  intro k s
  simp only [orElse_apply]
  rw [hp k s]
  cases p [] s with
  | ok v r => rfl
  | miss r => exact hq k s
  | halt e r => rfl

/-- Every kind of statement is read the same whatever comments lead it. -/
theorem relabels_kind (fuel : Nat) (nested : Led) : Relabels (kind fuel nested) := by
  refine relabels_orElse ?_ (relabels_orElse ?_ (relabels_orElse ?_ (relabels_orElse ?_
    (relabels_orElse ?_ ?_))))
  · exact relabels_bind fun _ => relabels_bind fun _ => relabels_bind fun _ =>
      relabels_bind fun _ => relabels_pure fun _ => rfl
  · exact relabels_bind fun _ => relabels_bind fun _ => relabels_bind fun _ =>
      relabels_pure fun _ => rfl
  · exact relabels_bind fun _ => relabels_bind fun _ => relabels_bind fun _ =>
      relabels_bind fun _ => relabels_pure fun _ => rfl
  · exact relabels_bind fun _ => relabels_pure fun _ => rfl
  · exact relabels_bind fun _ => relabels_pure fun _ => rfl
  · exact relabels_bind fun _ => relabels_pure fun _ => rfl

/-- A statement is read the same whatever comments lead it. -/
theorem relabels_statement (n : Nat) : Relabels (statement n) := by
  cases n with
  | zero => exact fun _ _ => rfl
  | succ n => exact relabels_kind (n + 1) (statement n)

/-- What was read with some comments is read with others. -/
theorem Relabels.relabel (hp : Relabels p) (h : p k s = .ok v r) (j : List Comment) :
    p j s = .ok (v.withComments j) r := by
  rw [hp] at h ⊢
  cases hread : p [] s with
  | ok v' r' =>
    rw [hread] at h
    cases h
    show Reply.ok _ _ = Reply.ok _ _
    rw [Stmt.withComments_withComments]
  | miss r' | halt _ r' =>
    rw [hread] at h
    cases h

/-! ### Lists up to a brace or the end -/

/-- What was read of a list: nothing but comments, up to a closing brace or the end, or a
statement and the list behind it. -/
theorem statements_brace_cases (h : statements nested .brace (n + 1) s = .ok stmts r) :
    stmts = dangling (gapFrom 0 s).1 ∧ r = ahead s ∧ (r = [] ∨ ∃ t, r = '\x7d' :: t) ∨
    ∃ v vs t, stmts = v :: vs ∧ ahead s ≠ [] ∧ nested (gapFrom 0 s).1 (ahead s) = .ok v t ∧
      statements nested .brace n t = .ok vs r := by
  have hahead : (gapFrom 0 s).2 = ahead s := rfl
  have hlabel : (Stop.brace == .label && labelAhead (ahead s)) = false := rfl
  rw [statements, hahead] at h
  by_cases hclose : ((ahead s).isEmpty || braceAhead (ahead s)) = true
  · rw [if_pos hclose] at h
    cases h
    refine Or.inl ⟨rfl, rfl, ?_⟩
    cases hrest : ahead s with
    | nil => exact Or.inl rfl
    | cons c t =>
      rw [hrest, List.isEmpty_cons, Bool.false_or] at hclose
      exact Or.inr ⟨t, by rw [beq_iff_eq.mp hclose]⟩
  · rw [if_neg hclose, hlabel, if_neg Bool.false_ne_true] at h
    have hne : ahead s ≠ [] := by
      intro hnil
      rw [hnil] at hclose
      exact hclose rfl
    cases hfirst : nested (gapFrom 0 s).1 (ahead s) with
    | ok v t =>
      rw [hfirst] at h
      dsimp only at h
      cases hmore : statements nested .brace n t with
      | ok vs u =>
        rw [hmore] at h
        cases h
        exact Or.inr ⟨v, vs, t, rfl, hne, rfl, hmore⟩
      | miss u | halt _ u =>
        rw [hmore] at h
        cases h
    | miss t | halt _ t =>
      rw [hfirst] at h
      cases h

/-- A list of statements ends at the end of the text or at a closing brace. -/
theorem statements_brace_rest (h : statements nested .brace n s = .ok stmts r) :
    r = [] ∨ ∃ t, r = '\x7d' :: t := by
  induction n generalizing s stmts with
  | zero => cases h
  | succ n ih =>
    obtain ⟨-, -, hrest⟩ | ⟨v, vs, t, -, -, -, hmore⟩ := statements_brace_cases h
    · exact hrest
    · exact ih hmore

/-- Nothing is read up to the end only where nothing stands. -/
theorem gapFrom_of_statements_nil (h : statements nested .brace n s = .ok [] []) :
    gapFrom 0 s = ([], []) := by
  cases n with
  | zero => cases h
  | succ n =>
    obtain ⟨hstmts, hrest, -⟩ | ⟨v, vs, t, hstmts, -⟩ := statements_brace_cases h
    · unfold dangling at hstmts
      split at hstmts
      · next hnil => exact Prod.ext (List.isEmpty_iff.mp hnil) hrest.symm
      · cases hstmts
    · cases hstmts

/-- A single statement up to the end is what comments alone become, or it is read behind
the comments that lead it, and nothing stands behind it. -/
theorem statements_brace_single (h : statements nested .brace (n + 1) s = .ok [v] []) :
    ahead s = [] ∧ (gapFrom 0 s).1 ≠ [] ∧ v = .leaf (gapFrom 0 s).1 .nop ∨
    ∃ t, ahead s ≠ [] ∧ nested (gapFrom 0 s).1 (ahead s) = .ok v t ∧ gapFrom 0 t = ([], []) := by
  obtain ⟨hstmts, hrest, -⟩ | ⟨w, vs, t, hstmts, hne, hread, hmore⟩ := statements_brace_cases h
  · unfold dangling at hstmts
    split at hstmts
    · cases hstmts
    · next hsome =>
      cases hstmts
      refine Or.inl ⟨hrest.symm, ?_, rfl⟩
      rwa [List.isEmpty_iff] at hsome
  · cases hstmts
    exact Or.inr ⟨t, hne, hread, gapFrom_of_statements_nil hmore⟩

/-- Layout before a list is passed over. -/
theorem statements_brace_gap (hg : IsGap g []) (s : List Char) :
    statements nested .brace (n + 1) (g ++ s) = statements nested .brace (n + 1) s := by
  have hgap : gapFrom 0 (g ++ s) = gapFrom 0 s := hg s
  rw [statements, statements, hgap]
  rfl

/-- What is read up to the end is read up to a closing brace on a line of its own. -/
theorem statements_brace_closed {i j : Nat} (h : statements (statement n) .brace n s = .ok stmts [])
    (hs : s.length < n) (hi : n ≤ i) (hj : n ≤ j) :
    statements (statement j) .brace i (s ++ ['\n', '\x7d']) = .ok stmts ['\x7d'] := by
  have hagrees := follows_statements (fun k => follows_statement (Nat.le_refl n) hj k)
    (Nat.le_refl n) hi .brace hs (.closed s)
  rw [h] at hagrees
  generalize hreply : statements (statement j) .brace i (s ++ ['\n', '\x7d']) = reply at hagrees
  cases hagrees with
  | ok hext _ =>
    cases hext with
    | closed =>
      -- a list does not end before layout
      rcases statements_brace_rest hreply with hnil | ⟨t, ht⟩
      · cases hnil
      · cases ht
    | atBrace => rfl

/-- Without an opening tag a program is a list of statements from its beginning. -/
theorem statements_of_program (h : Reader.program n s = .ok ⟨false, stmts⟩ r) :
    statements (statement n) .brace n s = .ok stmts r := by
  have hlist : ∀ {tag : Bool} {t : List Char},
      (do let vs ← statements (statement n) .brace n; pure ⟨tag, vs⟩ : Reader Program) t =
        .ok ⟨false, stmts⟩ r →
      tag = false ∧ statements (statement n) .brace n t = .ok stmts r := by
    intro tag t h
    rw [bind_apply] at h
    cases hread : statements (statement n) .brace n t with
    | ok vs u =>
      rw [hread] at h
      cases h
      exact ⟨rfl, rfl⟩
    | miss u | halt _ u =>
      rw [hread] at h
      cases h
  rw [Reader.program, bind_apply, openTag, bind_apply, optional] at h
  generalize (do let _ ← span isLayout; token "<?php".toList : Reader Unit) s = reply at h
  cases reply with
  | ok _ t => cases (hlist h).1
  | miss t => exact (hlist h).2
  | halt e t => cases h

/-! ### Conditionals with a single statement -/

variable {e : Expr} {m : Nat}

theorem starts_if (e : Expr) (s : List Char) : Starts .brace (headText "if" e ++ s) where
  atToken := atToken_cons (c := 'i') (by decide) _
  ne_nil := List.cons_ne_nil _ _
  noBrace := rfl
  noLabel := fun h => by cases h

theorem openTag_if (e : Expr) (s : List Char) :
    openTag (headText "if" e ++ s) = .ok false (headText "if" e ++ s) := by
  refine openTag_false ?_
  rw [ahead_of_atToken (starts_if e s).atToken]
  exact fun h => by cases h

/-- Nothing is no statement. -/
theorem statement_misses_nil (n : Nat) (k : List Comment) : (statement n k).Misses [] := by
  cases n with
  | zero => exact ⟨[], rfl⟩
  | succ n =>
    have hexpr : (expr (n + 1)).Misses [] := by
      refine expression_misses (fun c hc => ?_) (n + 1) .whole
      cases hc
    exact kind_misses (by decide) (by decide) (by decide) hexpr

/-- A conditional with a body that is read and nothing behind it is a program. -/
theorem program_if (he : e.lexical = true) (hm : e.text.length < m)
    (hbody : body (m + 1) (statement m) (' ' :: s) = .ok stmts r) (hr : gapFrom 0 r = ([], [])) :
    Reader.program (m + 1) (headText "if" e ++ s) =
      .ok ⟨false, [.conditional [] e stmts [] none]⟩ [] := by
  have hahead : ahead r = [] := by rw [ahead, hr]
  have hclauses : clauses (m + 1) (statement m) (m + 1) r = .ok ([], none) r := by
    refine clauses_none ?_
    rw [NoClause, hahead]
    exact Stmt.noClause_nil
  have hif : statement (m + 1) [] (headText "if" e ++ s) =
      .ok (.conditional [] e stmts [] none) r :=
    orElse_ok (conditional_ok (e.written_text he) (by omega) hbody hclauses)
  have hend : statements (statement (m + 1)) .brace m r = .ok [] [] := by
    obtain ⟨i, rfl⟩ := Nat.exists_eq_succ_of_ne_zero (Nat.ne_of_gt (Nat.zero_lt_of_lt hm))
    rw [statements, hr]
    rfl
  refine Program.program_ok (openTag_if e s) ?_
  have hstep := statements_step (n := m) isGap_nil (starts_if e s) hif
  rw [List.nil_append, hend] at hstep
  exact hstep

/-- Where no body can be read, no conditional is. -/
theorem program_if_halts (he : e.lexical = true) (hm : e.text.length < m)
    (hbody : (body (m + 1) (statement m)).Misses (' ' :: s)) :
    (Reader.program (m + 1)).Halts (headText "if" e ++ s) := by
  have hif : (statement (m + 1) []).Halts (headText "if" e ++ s) := by
    refine orElse_halt (halts_of_bind_ok (keyword_headText "if" (by decide) s) ?_)
    refine halts_of_bind_ok (condition_head (e.written_text he) (by omega) (' ' :: s)) ?_
    exact bind_halt (commit_miss hbody)
  have hlist : (statements (statement (m + 1)) .brace (m + 1)).Halts (headText "if" e ++ s) := by
    have hbind : statements (statement (m + 1)) .brace (m + 1) ([] ++ (headText "if" e ++ s)) = _ :=
      statements_bind isGap_nil (starts_if e s)
    rw [List.nil_append] at hbind
    rw [Halts, hbind]
    exact bind_halt hif
  exact halts_of_bind_ok (openTag_if e s) (bind_halt hlist)

end Reader

/-! ### Whole texts -/

/-- A conditional with the given text as its body. -/
def ifText (cond : Expr) (body : String) : String :=
  String.ofList ("if (".toList ++ (cond.text ++ (") ".toList ++ body.toList)))

/-- A conditional with the given text in braces, on lines of its own, as its body. -/
def bracedIfText (cond : Expr) (body : String) : String :=
  String.ofList ("if (".toList ++
    (cond.text ++ (") \x7b\n".toList ++ (body.toList ++ "\n\x7d".toList))))

theorem headText_if_append (cond : Expr) (s : List Char) :
    headText "if" cond ++ s = "if (".toList ++ (cond.text ++ (") ".toList ++ s)) := by
  have hhead : headText "if" cond = 'i' :: 'f' :: ' ' :: '(' :: (cond.text ++ [')', ' ']) := rfl
  have hopen : "if (".toList = ['i', 'f', ' ', '('] := rfl
  have hclose : ") ".toList = [')', ' '] := rfl
  rw [hhead, hopen, hclose]
  simp only [List.cons_append, List.nil_append, List.append_assoc]

theorem ifText_eq (cond : Expr) (body : String) :
    ifText cond body = String.ofList (headText "if" cond ++ body.toList) :=
  congrArg String.ofList (headText_if_append cond body.toList).symm

theorem bracedIfText_eq (cond : Expr) (body : String) :
    bracedIfText cond body = String.ofList (headText "if" cond ++
      '\x7b' :: '\n' :: (body.toList ++ ['\n', '\x7d'])) :=
  congrArg String.ofList (headText_if_append cond _).symm

namespace Program

open Reader

variable {cond : Expr} {body : String} {v : Stmt}

theorem exists_program_of_parse {p : Program} (h : Program.parse body = .ok p) :
    ∃ r, Reader.program (body.toList.length + 1) body.toList = .ok p r ∧
      r.all isWhiteSpace = true := by
  unfold Program.parse at h
  cases hread : Reader.program (body.toList.length + 1) body.toList with
  | ok q r =>
    simp only [hread] at h
    split at h
    · next hwhite =>
      cases h
      exact ⟨r, rfl, hwhite⟩
    · cases h
  | miss r | halt _ r =>
    simp only [hread] at h
    cases h

/-- A text that is read without an opening tag is a list of statements from its beginning
to its end. -/
theorem statements_of_parse {stmts : List Stmt} (h : Program.parse body = .ok ⟨false, stmts⟩) :
    statements (statement (body.toList.length + 1)) .brace (body.toList.length + 1) body.toList =
      .ok stmts [] := by
  obtain ⟨r, hprogram, hwhite⟩ := exists_program_of_parse h
  have hread := statements_of_program hprogram
  rcases statements_brace_rest hread with rfl | ⟨t, rfl⟩
  · exact hread
  · -- a brace that is left over is no white space
    cases hwhite

/-- In braces a statement is read with the comments that lead it. -/
theorem parse_bracedIfText (hcond : cond.lexical = true)
    (h : Program.parse body = .ok ⟨false, [v]⟩) :
    Program.parse (bracedIfText cond body) = .ok ⟨false, [.conditional [] cond [v] [] none]⟩ := by
  have hread := statements_of_parse h
  rw [bracedIfText_eq]
  generalize htext : headText "if" cond ++ '\x7b' :: '\n' :: (body.toList ++ ['\n', '\x7d']) = text
  have hlength : cond.text.length < text.length ∧ body.toList.length + 1 ≤ text.length := by
    have hhead := Stmt.length_headText "if" cond
    rw [← htext]
    simp only [List.length_cons, List.length_append]
    omega
  have hbraced : braced (text.length + 1) (statement text.length)
      ('\x7b' :: '\n' :: (body.toList ++ ['\n', '\x7d'])) = .ok [v] [] := by
    have hclosed := statements_brace_closed hread (Nat.lt_succ_self _) (i := text.length + 1)
      (by omega) hlength.2
    rw [← statements_brace_gap (isGap_layout (c := '\n') rfl)] at hclosed
    exact braced_ok hclosed
  have hbody : Reader.body (text.length + 1) (statement text.length)
      (' ' :: '\x7b' :: '\n' :: (body.toList ++ ['\n', '\x7d'])) = .ok [v] [] :=
    body_braced (isGap_layout (c := ' ') rfl) hbraced
  have hprogram := program_if hcond hlength.1 hbody rfl
  rw [htext] at hprogram
  exact parse_ofList hprogram

/-- Without braces, the statement that stands behind the comments is read. -/
theorem body_ifText {m : Nat} (hbrace : (ahead body.toList).head? ≠ some '\x7b') :
    Reader.body (m + 1) (statement m) (' ' :: body.toList) =
      (do return [← statement m []] : Reader (List Stmt)) (ahead body.toList) := by
  have hahead : ahead (' ' :: body.toList) = ahead body.toList :=
    (isGap_layout (c := ' ') rfl).ahead_append body.toList
  rw [← hahead] at hbrace ⊢
  exact body_of_not_brace hbrace

theorem length_lt_ifText (cond : Expr) (body : String) :
    cond.text.length < (headText "if" cond ++ body.toList).length ∧
      body.toList.length + 1 ≤ (headText "if" cond ++ body.toList).length := by
  have hhead := Stmt.length_headText "if" cond
  rw [List.length_append]
  omega

/-- Without braces a statement is read without the comments that lead it. -/
theorem parse_ifText (hcond : cond.lexical = true)
    (hbrace : (ahead body.toList).head? ≠ some '\x7b') {r : List Char} {k : List Comment}
    (hread : statement (body.toList.length + 1) k (ahead body.toList) = .ok v r)
    (hend : gapFrom 0 r = ([], [])) :
    Program.parse (ifText cond body) =
      .ok ⟨false, [.conditional [] cond [v.withComments []] [] none]⟩ := by
  rw [ifText_eq]
  obtain ⟨hcondition, hbody⟩ := length_lt_ifText cond body
  refine parse_ofList (program_if hcond hcondition ?_ hend)
  generalize (headText "if" cond ++ body.toList).length = m at hbody ⊢
  have hlength : (ahead body.toList).length ≤ body.toList.length :=
    (gapFrom_suffix 0 body.toList).length_le
  have hled := statement_of_le hread (Nat.lt_succ_of_le hlength) hbody
  rw [body_ifText hbrace]
  exact bind_pure_ok ((relabels_statement m).relabel hled [])

/-- Comments alone are no body without braces. -/
theorem exists_fault_ifText (hcond : cond.lexical = true) (hnil : ahead body.toList = []) :
    ∃ fault, Program.parse (ifText cond body) = .error fault := by
  have hbody : (Reader.body ((headText "if" cond ++ body.toList).length + 1)
      (statement (headText "if" cond ++ body.toList).length)).Misses (' ' :: body.toList) := by
    have hbrace : (ahead body.toList).head? ≠ some '\x7b' := by
      rw [hnil]
      intro h
      cases h
    rw [Misses, body_ifText hbrace, hnil]
    exact bind_miss (statement_misses_nil _ _)
  obtain ⟨what, t, ht⟩ := program_if_halts hcond (length_lt_ifText cond body).1 hbody
  rw [ifText_eq]
  unfold Program.parse
  rw [String.toList_ofList]
  simp only [ht]
  exact ⟨_, rfl⟩

/-- **A body reads the same in braces exactly when no comments lead it.**  In braces the
statement is read as it is; as it stands it is read without the comments that lead it,
and comments alone are not read. -/
theorem parse_ifText_eq_iff (cond : Expr) (hcond : cond.lexical = true) (body : String) (v : Stmt)
    (h : Program.parse body = .ok ⟨false, [v]⟩)
    (hbrace : (ahead body.toList).head? ≠ some '\x7b') :
    Program.parse (bracedIfText cond body) = .ok ⟨false, [.conditional [] cond [v] [] none]⟩ ∧
    (ahead body.toList ≠ [] → Program.parse (ifText cond body) =
      .ok ⟨false, [.conditional [] cond [v.withComments []] [] none]⟩) ∧
    (ahead body.toList = [] → ∃ fault, Program.parse (ifText cond body) = .error fault) ∧
    ((∃ p, Program.parse (ifText cond body) = .ok p ∧
      Program.parse (bracedIfText cond body) = .ok p) ↔ v.comments = []) := by
  have hbraced := parse_bracedIfText hcond h
  rw [hbraced]
  obtain ⟨hnil, hsome, rfl⟩ | ⟨r, hne, hread, hend⟩ :=
    statements_brace_single (statements_of_parse h)
  · obtain ⟨fault, hfault⟩ := exists_fault_ifText hcond hnil
    refine ⟨rfl, fun hne => absurd hnil hne, fun _ => ⟨fault, hfault⟩, ?_⟩
    constructor
    · rintro ⟨p, hp, -⟩
      rw [hfault] at hp
      cases hp
    · intro hcomments
      exact absurd hcomments hsome
  · have hif := parse_ifText hcond hbrace hread hend
    refine ⟨rfl, fun _ => hif, fun hnil => absurd hnil hne, ?_⟩
    rw [hif]
    constructor
    · rintro ⟨p, hp, hp'⟩
      cases hp
      simp only [Except.ok.injEq, Program.mk.injEq, List.cons.injEq, Stmt.conditional.injEq,
        true_and, and_true] at hp'
      exact Stmt.withComments_eq_self_iff.mp hp'.symm
    · intro hcomments
      rw [Stmt.withComments_eq_self_iff.mpr hcomments]
      exact ⟨_, rfl, rfl⟩

/-- A conditional that no comments lead is the same body in braces and without. -/
theorem parse_ifText_eq_iff_nested :
    let cond : Expr := .binary .less (.var "i") (.lit (.int 3))
    let body := "\nif ($d) /* one */ echo 1; else return;"
    Program.parse body = .ok ⟨false, [.conditional [] (.var "d")
      [.leaf [] (.echo [.lit (.int 1)])] [] (some ⟨[], [.leaf [] (.return none)]⟩)]⟩ ∧
      ∃ p, Program.parse (ifText cond body) = .ok p ∧
        Program.parse (bracedIfText cond body) = .ok p := by
  intro cond body
  have hread : Program.parse body = .ok ⟨false, [.conditional [] (.var "d")
      [.leaf [] (.echo [.lit (.int 1)])] [] (some ⟨[], [.leaf [] (.return none)]⟩)]⟩ := by
    decide +kernel
  have hall := parse_ifText_eq_iff cond (by decide) body _ hread (by decide +kernel)
  exact ⟨hread, hall.2.2.2.mpr rfl⟩

/-- The comment that leads the statement is lost without braces. -/
theorem parse_ifText_led :
    let cond : Expr := .var "c"
    let body := "// x\necho 1;"
    let v := fun k : List Comment => Stmt.leaf k (.echo [.lit (.int 1)])
    cond.lexical = true ∧ Program.parse body = .ok ⟨false, [v [⟨"// x"⟩]]⟩ ∧
      (ahead body.toList).head? ≠ some '\x7b' ∧
      Program.parse (ifText cond body) = .ok ⟨false, [.conditional [] cond [v []] [] none]⟩ ∧
      Program.parse (bracedIfText cond body) =
        .ok ⟨false, [.conditional [] cond [v [⟨"// x"⟩]] [] none]⟩ ∧
      Program.parse (ifText cond body) ≠ Program.parse (bracedIfText cond body) := by
  decide +kernel

end Program

end Casework
