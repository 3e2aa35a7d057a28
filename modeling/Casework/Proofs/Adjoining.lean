import Mathlib.Data.List.ModifyLast
import Mathlib.Data.List.TakeWhile
import Casework.Proofs.Body
import Casework.Proofs.Dispatch

/-!
# Texts behind the text of a program

What stands behind the text of a program is read as if it stood alone, and its statements
come behind those of the program.  There is one way in which the program reaches further:
when its last statement is a conditional without an `else` clause, it takes a clause that
stands behind it.

A call of a function whose name only begins with a keyword is no clause, and it is added
as it stands.  But the word `elseif` counts as passed over even where a longer word begins
with it, so the name `elseifelse` is taken for the word `else`, and what stands in the
parentheses of the call becomes the body of the clause.

## Main definitions

* `Program.isOpen` — a clause behind the program would belong to its last statement.
* `Stmt.closeWith` — an open conditional with an `else` clause added to it.
* `keywords` — the words that are no identifiers.

## Main results

* `Stmt.exists_statements_concat` — reading a list up to its last statement.
* `Program.parse_append` — **a text behind a program adds its statements**.
* `Program.parse_append_of_isOpen` — an open program takes the clause behind it.
* `Program.parse_append_call` — **a call of an identifier behind a program is one more
  statement, unless it is taken for a clause**.
-/

namespace Casework

open Reader

/-! ### Up to the last statement -/

namespace Stmt

variable {level m : Nat} {g r t : List Char} {k : List Comment} {s v : Stmt}
  {before : List Stmt}

/-- In a settled list nothing is empty before the last statement. -/
theorem settleFrom_of_settled_concat (hs : s.isNop = false)
    (h : settledList (before ++ [s]) = true) :
    settleFrom [] before = (before, []) ∧ s.settle s.comments = s := by
  induction before with
  | nil =>
    rw [List.nil_append, settledList, if_neg (by simp [hs]), Bool.and_eq_true] at h
    exact ⟨rfl, (settle_eq_iff s).mpr h.1⟩
  | cons u before ih =>
    rw [List.cons_append, settledList] at h
    have hu : u.isNop = false := by
      rw [Bool.eq_false_iff]
      intro hu
      rw [if_pos hu] at h
      simp at h
    rw [if_neg (by simp [hu]), Bool.and_eq_true] at h
    obtain ⟨hbefore, hlast⟩ := ih h.2
    refine ⟨?_, hlast⟩
    rw [settleFrom, if_neg (by simp [hu]), hbefore, List.nil_append, (settle_eq_iff u).mpr h.1]

/-- A list is read up to its last statement, and goes on behind whatever is read there. -/
theorem exists_statements_concat (stop : Stop) (hg : IsGap g k) (hs : s.isNop = false)
    (hlex : everyList .lexical (before ++ [s]) = true)
    (hunled : everyList .unled (before ++ [s]) = true)
    (hm : (render (listLines level (before ++ [s]))).length ≤ m)
    (hread : statement m ((settleFrom k before).2 ++ s.comments)
      (s.code level ++ '\n' :: r) = .ok v t) :
    ∃ j, j ≤ (render (listLines level (before ++ [s]))).length ∧ ∀ n,
      statements (statement m) stop (n + j) (g ++ (render (listLines level (before ++ [s])) ++ r)) =
        (statements (statement m) stop n t).map ((settleFrom k before).1 ++ v :: ·) := by
  have hlast := every_of_mem hlex (List.mem_append_right before (List.mem_singleton_self s))
  have hlastled := every_of_mem hunled (List.mem_append_right before (List.mem_singleton_self s))
  rw [everyList_append, Bool.and_eq_true] at hlex hunled
  have hcode := isCode_of_every hs hlast
  have hlength := length_listLines_cons level [] hcode
  have hopens := opens_code level hs hlast hlastled ('\n' :: r)
  -- the text of the last statement stands behind its own gap
  have htext : render (listLines level (before ++ [s])) ++ r =
      render (listLines level before) ++
        (render (commentLines level s.comments) ++ indent level ++
          (s.code level ++ '\n' :: r)) := by
    rw [listLines_append, render_append, List.append_assoc]
    simp [listLines, render_lines level hcode]
  have hlead : IsGap (render (commentLines level s.comments) ++ indent level) s.comments :=
    isGap_lead level isGap_nil hlast
  have hclause : NoClause (render (commentLines level s.comments) ++ indent level ++
      (s.code level ++ '\n' :: r)) := by
    rw [NoClause, hlead.ahead_append, ahead_of_atToken (hopens.starts .brace).atToken]
    exact hopens.noClause
  rw [listLines_append, render_append, List.length_append] at hm
  obtain ⟨h, j, hgap, hj, hbefore⟩ := rereads_of_every before hlex.1 hunled.1 level m stop hg
    hclause (by omega)
  refine ⟨j + 1, ?_, fun n => ?_⟩
  · rw [listLines_append, render_append, List.length_append]
    omega
  · have hstep := statements_step (n := n) (hgap.append hlead) (hopens.starts stop) hread
    rw [List.append_assoc] at hstep
    rw [htext, Nat.add_comm j 1, ← Nat.add_assoc, hbefore, hstep]
    cases statements (statement m) stop n t <;> rfl

end Stmt

/-! ### Programs with a text behind them -/

theorem Reader.statements_nil (nested : Led) (stop : Stop) (n : Nat) :
    statements nested stop (n + 1) [] = .ok [] [] :=
  statements_close isGap_nil (Or.inl rfl)

/-- A list that is read up to the end is read with every larger bound. -/
theorem Reader.statements_of_le {i j n : Nat} {s : List Char} {stmts : List Stmt}
    (h : statements (statement n) .brace n s = .ok stmts []) (hs : s.length < n) (hi : n ≤ i)
    (hj : n ≤ j) : statements (statement j) .brace i s = .ok stmts [] := by
  have hagrees := follows_statements (fun k => follows_statement (Nat.le_refl n) hj k)
    (Nat.le_refl n) hi .brace hs (.same s)
  rw [h] at hagrees
  generalize statements (statement j) .brace i s = reply at hagrees ⊢
  cases hagrees with
  | ok hext _ =>
    cases hext
    rfl

namespace Program

variable {p : Program} {stmts : List Stmt}

/-- A clause behind the program would belong to its last statement. -/
def isOpen (p : Program) : Bool := p.stmts.getLast?.any Stmt.isOpen

/-- A program that does not end in an empty statement has none, or a last one. -/
theorem eq_nil_or_exists_concat (hend : Stmt.endsInNop p.stmts = false) :
    p.stmts = [] ∨ ∃ before s, p.stmts = before ++ [s] ∧ s.isNop = false ∧
      p.isOpen = s.isOpen := by
  rcases List.eq_nil_or_concat p.stmts with hnil | ⟨before, s, hconcat⟩
  · exact Or.inl hnil
  · rw [List.concat_eq_append] at hconcat
    rw [hconcat, Stmt.endsInNop_append_singleton] at hend
    refine Or.inr ⟨before, s, hconcat, hend, ?_⟩
    rw [isOpen, hconcat, List.getLast?_concat]
    rfl

/-- A program with a text behind it is read up to its last statement, and goes on behind
whatever is read there. -/
theorem parse_append_last {before : List Stmt} {s v : Stmt} {r t : List Char}
    (hp : p.printable = true) (hconcat : p.stmts = before ++ [s]) (hs : s.isNop = false)
    (htag : (ahead r).head? ≠ some '<')
    (hread : ∀ m, (s.code 0).length + r.length < m →
      statement m s.comments (s.code 0 ++ '\n' :: r) = .ok v t)
    (hrest : ∀ m n, r.length < n → n ≤ m → statements (statement m) .brace n t = .ok stmts []) :
    Program.parse (String.ofList (p.chars ++ r)) = .ok ⟨p.openTag, before ++ v :: stmts⟩ := by
  obtain ⟨⟨hlex, hunled⟩, hsettled⟩ := printable_iff.mp hp
  refine parse_chars_append hlex hunled htag fun {g m} hg hm => ?_
  rw [settled, hconcat] at hsettled
  rw [every, hconcat] at hlex hunled
  rw [hconcat, List.length_append] at hm
  have hcode := Stmt.length_listLines_cons 0 [] (Stmt.isCode_of_every hs
    (Stmt.every_of_mem hlex (List.mem_append_right before (List.mem_singleton_self s))))
  have hlength : (s.code 0).length + r.length < m := by
    rw [Stmt.listLines_append, render_append, List.length_append] at hm
    omega
  have hbefore := (Stmt.settleFrom_of_settled_concat hs hsettled).1
  have hlast : statement m ((Stmt.settleFrom [] before).2 ++ s.comments)
      (s.code 0 ++ '\n' :: r) = .ok v t := by
    rw [hbefore]
    exact hread m hlength
  obtain ⟨j, hj, hlist⟩ := Stmt.exists_statements_concat .brace hg hs hlex hunled
    (by omega) hlast
  have hall := hlist (m - j)
  rw [Nat.sub_add_cancel (by omega), hrest m (m - j) (by omega) (by omega), hbefore] at hall
  rw [hconcat, hall]
  rfl

/-- **A text behind a program adds its statements**: they come behind those of the program,
unless the last statement of the program takes a clause that the text begins with. -/
theorem parse_append {source : String} (hp : p.printable = true)
    (hend : Stmt.endsInNop p.stmts = false) (h : Program.parse source = .ok ⟨false, stmts⟩)
    (htag : (ahead source.toList).head? ≠ some '<')
    (hclause : p.isOpen = true → NoClause source.toList) :
    Program.parse (String.ofList (p.chars ++ source.toList)) =
      .ok ⟨p.openTag, p.stmts ++ stmts⟩ := by
  have hsource := statements_of_parse h
  generalize source.toList = r at *
  obtain ⟨⟨hlex, hunled⟩, hsettled⟩ := printable_iff.mp hp
  rcases eq_nil_or_exists_concat hend with hnil | ⟨before, s, hconcat, hs, hopen⟩
  · refine parse_chars_append hlex hunled htag fun {g n} hg hn => ?_
    obtain ⟨n, rfl⟩ := Nat.exists_eq_succ_of_ne_zero (n := n) (by omega)
    rw [List.length_append] at hn
    rw [hnil, Stmt.listLines, render_nil, List.nil_append, statements_brace_gap hg]
    exact statements_of_le hsource (Nat.lt_succ_self _) (by omega) (by omega)
  · have hmem : s ∈ p.stmts := by simp [hconcat]
    have hline : IsGap ['\n'] [] := isGap_layout rfl
    -- what stands behind the last statement begins no clause that it would take
    have hrest : s.isOpen = true → NoClause ('\n' :: r) := by
      intro hs
      have hahead : ahead ('\n' :: r) = ahead r := hline.ahead_append r
      rw [NoClause, hahead]
      exact hclause (hopen.trans hs)
    rw [hconcat, List.append_assoc, List.singleton_append]
    refine parse_append_last (t := '\n' :: r) hp hconcat hs htag (fun m hm => ?_)
      fun m n hn hle => ?_
    · have hread := Stmt.rereadsAlone_of_every s (Stmt.every_of_mem hlex hmem)
        (Stmt.every_of_mem hunled hmem) hs 0 m s.comments hrest (by omega)
      rw [settled, hconcat] at hsettled
      rw [hread, (Stmt.settleFrom_of_settled_concat hs hsettled).2]
    · obtain ⟨n, rfl⟩ := Nat.exists_eq_succ_of_ne_zero (n := n) (by omega)
      have hgap : statements (statement m) .brace (n + 1) ('\n' :: r) =
          statements (statement m) .brace (n + 1) r := statements_brace_gap hline r
      rw [hgap]
      exact statements_of_le hsource (Nat.lt_succ_self _) (by omega) (by omega)

/-- An expression that begins like no other statement is a program. -/
theorem parse_expr_text {e : Expr} (he : e.lexical = true)
    (hlead : leadWord e.text ∉ statementWords) :
    Program.parse (String.ofList (e.text ++ [';'])) = .ok ⟨false, [.leaf [] (.expr e)]⟩ := by
  have hwritten := e.written_text he
  have hstarts : Starts .brace (e.text ++ [';']) := starts_expr hwritten fun h => by cases h
  have hword : leadWord (e.text ++ [';']) ∉ statementWords := by
    rw [leadWord_append_of_not (by decide)]
    exact hlead
  refine parse_ofList (program_ok (openTag_false ?_) ?_)
  · rw [ahead_of_atToken hstarts.atToken]
    exact hwritten.head?_append_ne (by decide) _
  · have hlength : (e.text ++ [';']).length = e.text.length + 1 := by simp
    have hread : statement ((e.text ++ [';']).length + 1) [] (e.text ++ [';']) =
        .ok (.leaf [] (.expr e)) [] := by
      rw [statement_succ]
      exact kind_expr hword hwritten (by omega)
    rw [hlength] at hread ⊢
    have hstep := statements_step (n := e.text.length + 1) isGap_nil hstarts hread
    rw [List.nil_append] at hstep
    rw [hstep, statements_nil]
    rfl

end Program

/-! ### Conditionals that take a clause -/

namespace Stmt

variable {m n : Nat} {r t : List Char} {k : List Comment} {cond : Expr} {body : List Stmt}
  {es others : List (Clause Stmt)} {o : Option (Otherwise Stmt)}

/-- The clauses behind those of a conditional without an `else` clause belong to it. -/
theorem clauses_append (level : Nat) (hlex : everyClauses .lexical es = true)
    (hunled : everyClauses .unled es = true) (hm : (clausesCode level es none).length ≤ m)
    (h : clauses (m + 1) (statement m) n r = .ok (others, o) t) :
    clauses (m + 1) (statement m) (n + es.length) (clausesCode level es none ++ r) =
      .ok (settleClauses es ++ others, o) t := by
  induction es with
  | nil => exact h
  | cons c es ih =>
    obtain ⟨k, cond, body⟩ := c
    simp only [everyClauses, Bool.and_eq_true] at hlex hunled
    have hhead := length_headText "elseif" cond
    simp only [clausesCode, List.length_append] at hm
    have hrest := ih hlex.2 hunled.2 (by omega)
    have hbody := (rereads_of_every body hlex.1.2 hunled.1.2).body level (m := m) (by omega)
      (clausesCode level es none ++ r)
    simp only [clausesCode, List.append_assoc]
    exact clauses_elseif (isGap_bridge level hlex.1.1.1) (cond.written_text hlex.1.1.2) (by omega)
      hbody hrest

/-- Each clause has a text. -/
theorem length_le_clausesCode (level : Nat) (es : List (Clause Stmt)) :
    es.length ≤ (clausesCode level es none).length := by
  induction es with
  | nil => exact Nat.zero_le _
  | cons c es ih =>
    obtain ⟨k, cond, body⟩ := c
    have hhead := length_headText "elseif" cond
    simp only [clausesCode, List.length_append, List.length_cons]
    omega

/-- An open conditional takes the `else` clause that is read behind it. -/
theorem statement_clause (level : Nat) {otherwise : Otherwise Stmt}
    (hlex : (conditional k cond body es none).every .lexical = true)
    (hunled : (conditional k cond body es none).every .unled = true)
    (hm : ((conditional k cond body es none).code level).length ≤ m + 1)
    (h : ∀ n, clauses (m + 1) (statement m) (n + 1) r = .ok ([], some otherwise) t) :
    statement (m + 1) k ((conditional k cond body es none).code level ++ r) =
      .ok (conditional k cond (withDangling (settleFrom [] body)) (settleClauses es)
        (some otherwise)) t := by
  simp only [every, Bool.and_eq_true] at hlex hunled
  have hhead := length_headText "if" cond
  have hcount := length_le_clausesCode level es
  rw [code, List.length_append, List.length_append] at hm
  have hbody := (rereads_of_every body hlex.1.1.2 hunled.1.1.2).body level (m := m) (by omega)
    (clausesCode level es none ++ r)
  obtain ⟨n, hn⟩ : ∃ n, m + 1 = n + 1 + es.length := ⟨m - es.length, by omega⟩
  have hclauses := clauses_append level hlex.1.2 hunled.1.2 (by omega) (h n)
  rw [← hn, List.append_nil] at hclauses
  have hread := conditional_ok (k := k) (cond.written_text hlex.1.1.1.2) (by omega) hbody hclauses
  rw [statement_succ, code, List.append_assoc, List.append_assoc, kind, orElse_ok hread]

end Stmt

/-- An expression in parentheses behind the word `else`, or behind the word that is taken
for it, is the body of the clause. -/
theorem Reader.clauses_paren {m n : Nat} {e : Expr} {w : List Char} (he : e.lexical = true)
    (hw : ∀ c ∈ w, isWordChar c = true)
    (hlead : w.map Char.toLower = "else".toList ∨ w.map Char.toLower = "elseifelse".toList)
    (hat : AtToken (w ++ '(' :: (e.text ++ [')', ';']))) (hm : e.text.length + 2 < m) :
    clauses (m + 1) (statement m) (n + 1) ('\n' :: (w ++ '(' :: (e.text ++ [')', ';']))) =
      .ok ([], some ⟨[], [.leaf [] (.expr e)]⟩) [] := by
  have hword : leadWord (w ++ '(' :: (e.text ++ [')', ';'])) = w.map Char.toLower :=
    leadWord_append hw (by simp; decide)
  have hdrop : (w ++ '(' :: (e.text ++ [')', ';'])).dropWhile isWordChar =
      '(' :: (e.text ++ [')', ';']) := by
    rw [List.dropWhile_append_of_pos hw]
    rfl
  have hparen : Written 13 e ('(' :: ([] ++ (e.text ++ ([] ++ [')'])))) :=
    .paren isGap_nil (e.written_text he) isGap_nil
  have hread : statement m [] ('(' :: (e.text ++ [')', ';'])) = .ok (.leaf [] (.expr e)) [] := by
    obtain ⟨m, rfl⟩ := Nat.exists_eq_succ_of_ne_zero (n := m) (by omega)
    have hnone : leadWord ('(' :: ([] ++ (e.text ++ ([] ++ [')']))) ++ [';']) ∉ statementWords := by
      rw [List.cons_append, leadWord_cons_of_not (by decide)]
      decide
    have hkind : kind (m + 1) (statement m) []
        ('(' :: ([] ++ (e.text ++ ([] ++ [')']))) ++ [';']) = .ok (.leaf [] (.expr e)) [] :=
      kind_expr hnone hparen (by simp; omega)
    rw [statement_succ]
    simpa using hkind
  have hahead : ahead ('(' :: (e.text ++ [')', ';'])) = '(' :: (e.text ++ [')', ';']) :=
    ahead_of_atToken (atToken_cons (by decide) _)
  have hbody : body (m + 1) (statement m) ('(' :: (e.text ++ [')', ';'])) =
      .ok [.leaf [] (.expr e)] [] := by
    rw [body_of_not_brace (by rw [hahead]; simp), hahead, bind_pure_ok hread]
  rw [← List.singleton_append, clauses_of_else (isGap_layout rfl) hat (by rwa [hword]), hdrop,
    bind_ok (commit_ok hbody)]
  rfl

theorem Stmt.exists_of_isOpen {s : Stmt} (h : s.isOpen = true) :
    ∃ k cond body elseifs, s = .conditional k cond body elseifs none := by
  cases s with
  | conditional k cond body elseifs otherwise =>
    cases otherwise with
    | none => exact ⟨k, cond, body, elseifs, rfl⟩
    | some clause => cases h
  | leaf | block | «while» | switch => cases h

/-- The statement with the clause behind it, if it is open. -/
def Stmt.closeWith (clause : Otherwise Stmt) : Stmt → Stmt
  | .conditional k cond body elseifs none => .conditional k cond body elseifs (some clause)
  | s => s

/-- An open program takes the `else` clause that the text behind it is read as. -/
theorem Program.parse_append_of_isOpen {p : Program} {r : List Char} {clause : Otherwise Stmt}
    (hp : p.printable = true) (hend : Stmt.endsInNop p.stmts = false) (hopen : p.isOpen = true)
    (htag : (ahead r).head? ≠ some '<')
    (h : ∀ m n, r.length ≤ m →
      clauses (m + 1) (statement m) (n + 1) ('\n' :: r) = .ok ([], some clause) []) :
    Program.parse (String.ofList (p.chars ++ r)) =
      .ok ⟨p.openTag, p.stmts.modifyLast (Stmt.closeWith clause)⟩ := by
  rcases eq_nil_or_exists_concat hend with hnil | ⟨before, s, hconcat, hs, hlast⟩
  · rw [isOpen, hnil] at hopen
    cases hopen
  · obtain ⟨k, cond, body, elseifs, rfl⟩ := Stmt.exists_of_isOpen (hlast.symm.trans hopen)
    rw [hconcat, List.modifyLast_concat]
    refine parse_append_last (t := []) hp hconcat hs htag (fun m hm => ?_) fun m n hn _ => ?_
    · obtain ⟨⟨hlex, hunled⟩, hsettled⟩ := printable_iff.mp hp
      rw [settled, hconcat] at hsettled
      rw [every, hconcat] at hlex hunled
      have hmem := List.mem_append_right before (List.mem_singleton_self
        (Stmt.conditional k cond body elseifs none))
      obtain ⟨m, rfl⟩ := Nat.exists_eq_succ_of_ne_zero (n := m) (by omega)
      have hread := Stmt.statement_clause 0 (Stmt.every_of_mem hlex hmem)
        (Stmt.every_of_mem hunled hmem) (by omega) fun n => h m n (by omega)
      -- nothing within the conditional is moved
      have hsettle := (Stmt.settleFrom_of_settled_concat hs hsettled).2
      obtain ⟨-, -, hbody, helseifs, -⟩ := Stmt.conditional.inj hsettle
      rw [hbody, helseifs] at hread
      exact hread
    · obtain ⟨n, rfl⟩ := Nat.exists_eq_succ_of_ne_zero (n := n) (by omega)
      exact statements_nil _ _ n

/-! ### Calls -/

/-- The words that are no identifiers. -/
def keywords : List (List Char) := reservedWords ++ "elseif".toList :: literalWords

section Call

variable {w : String} {e : Expr}

theorem isWordChar_of_isIdentifier (hw : isIdentifier w = true) :
    ∀ c ∈ w.toList, isWordChar c = true := by
  rw [isIdentifier] at hw
  split at hw
  · cases hw
  · next c cs heq =>
    rw [Bool.and_eq_true, List.all_eq_true] at hw
    rw [heq]
    intro d hd
    rcases List.mem_cons.mp hd with rfl | hd
    · have hstart := hw.1
      simp only [isWordStart, Bool.or_eq_true] at hstart
      rcases hstart with h | h
      · exact isWordChar_of_isAlpha h
      · simp [isWordChar, h]
    · exact hw.2 d hd

/-- An identifier is a name, unless it is a literal. -/
theorem isName_of_isIdentifier (hw : isIdentifier w = true)
    (hlit : w.toList.map Char.toLower ∉ literalWords) : isName w = true := by
  have hmem := isWordChar_of_isIdentifier hw
  have htake : w.toList.takeWhile (· != '\\') = w.toList := by
    rw [List.takeWhile_eq_self_iff]
    intro c hc
    have hword := hmem c hc
    rw [bne_iff_ne]
    rintro rfl
    exact absurd hword (by decide)
  rw [isIdentifier] at hw
  rw [isName]
  split at hw
  · cases hw
  · next c cs heq =>
    rw [heq] at hmem htake hlit
    rw [Bool.and_eq_true] at hw
    have hstart : isNameStart c = true := by rw [isNameStart, hw.1, Bool.true_or]
    have hrest : cs.all isNameChar = true := List.all_eq_true.mpr fun d hd =>
      isNameChar_of_isWordChar (hmem d (List.mem_cons_of_mem c hd))
    rw [htake, hstart, hrest]
    simpa using hlit

theorem Expr.text_call_name (w : String) (e : Expr) :
    (Expr.call (.name w) [e]).text = w.toList ++ '(' :: (e.text ++ [')']) := by
  simp [text, precedence, bracket, Place.admits]

end Call

/-- **A call of an identifier behind a program is one more statement, unless it is taken for
a clause**: behind an open conditional the name `elseifelse` is, in any case of its letters,
and then the argument becomes the body of an `else` clause. -/
theorem Program.parse_append_call {p : Program} {w : String} (hp : p.printable = true)
    (hend : Stmt.endsInNop p.stmts = false) (hw : isIdentifier w = true)
    (hkey : w.toList.map Char.toLower ∉ keywords) :
    Program.parse (p.text ++ w ++ "($x);") = .ok ⟨p.openTag,
      if w.toList.map Char.toLower = "elseifelse".toList ∧ p.isOpen = true then
        p.stmts.modifyLast (Stmt.closeWith ⟨[], [.leaf [] (.expr (.var "x"))]⟩)
      else p.stmts ++ [.leaf [] (.expr (.call (.name w) [.var "x"]))]⟩ := by
  have hmem := isWordChar_of_isIdentifier hw
  have hname : isName w = true :=
    isName_of_isIdentifier hw fun h => hkey (List.mem_append_right _ (List.mem_cons_of_mem _ h))
  have hcall : (Expr.call (.name w) [.var "x"]).lexical = true := by
    show (isName w && _) = true
    rw [hname]
    rfl
  have hwritten := Expr.written_text _ hcall
  have hlead : leadWord (Expr.call (.name w) [.var "x"]).text = w.toList.map Char.toLower := by
    rw [Expr.text_call_name, leadWord_append hmem (by simp; decide)]
  have htext : p.text ++ w ++ "($x);" =
      String.ofList (p.chars ++ ((Expr.call (.name w) [.var "x"]).text ++ [';'])) := by
    rw [Expr.text_call_name]
    apply String.toList_injective
    simp [Program.text, Expr.text]
  rw [htext]
  split
  · next htaken =>
    obtain ⟨hword, hopen⟩ := htaken
    refine parse_append_of_isOpen hp hend hopen ?_ fun m n hm => ?_
    · rw [ahead_of_atToken (hwritten.atToken _)]
      exact hwritten.head?_append_ne (by decide) _
    · have hat := hwritten.atToken [';']
      rw [Expr.text_call_name] at hat hm ⊢
      simp only [List.append_assoc, List.cons_append, List.nil_append] at hat hm ⊢
      simp only [List.length_append, List.length_cons, List.length_nil] at hm
      have hpos : 0 < w.toList.length := by
        rw [← List.length_map Char.toLower, hword]
        decide
      exact clauses_paren (by decide) hmem (Or.inr hword) hat (by omega)
  · next hnot =>
    have hwords : ∀ word ∈ statementWords, word ∈ keywords := by decide
    have hparse := parse_expr_text hcall (by rw [hlead]; exact fun h => hkey (hwords _ h))
    have hadd := parse_append hp hend hparse ?_ ?_
    · rwa [String.toList_ofList] at hadd
    · rw [String.toList_ofList, ahead_of_atToken (hwritten.atToken _)]
      exact hwritten.head?_append_ne (by decide) _
    · intro hopen
      rw [String.toList_ofList, NoClause, ahead_of_atToken (hwritten.atToken _),
        leadWord_append_of_not (by decide), hlead]
      have hclauses : ∀ word ∈ clauseWords, word ∈ keywords ∨ word = "elseifelse".toList := by decide
      intro h
      exact (hclauses _ h).elim hkey fun h => hnot ⟨h, hopen⟩

/-- Behind an open conditional, a longer name that begins with `elseif` is a name. -/
theorem Program.parse_append_call_open :
    let p : Program := ⟨true, [.leaf [⟨"// before"⟩] (.echo [.var "a"]),
      .conditional [] (.var "a") [.leaf [] (.echo [.var "b"])]
        [⟨[], .var "b", [.while [] (.var "c") []]⟩] none]⟩
    p.printable = true ∧ Stmt.endsInNop p.stmts = false ∧ isIdentifier "elseIfElsewhere" = true ∧
      "elseIfElsewhere".toList.map Char.toLower ∉ keywords ∧ p.isOpen = true ∧
      Program.parse (p.text ++ "elseIfElsewhere" ++ "($x);") =
        .ok ⟨true, p.stmts ++ [.leaf [] (.expr (.call (.name "elseIfElsewhere") [.var "x"]))]⟩ := by
  refine ⟨by decide, by decide, by decide, by decide, by decide, ?_⟩
  exact (parse_append_call (by decide) (by decide) (by decide) (by decide)).trans
    (by rw [if_neg (by decide)])

/-- Behind an open conditional, the name `elseifelse` is taken for the word `else`. -/
theorem Program.parse_append_call_taken :
    let p : Program := ⟨false, [.conditional [] (.var "a") [] [] none]⟩
    p.printable = true ∧ Stmt.endsInNop p.stmts = false ∧ isIdentifier "elseifelse" = true ∧
      "elseifelse".toList.map Char.toLower ∉ keywords ∧
      Program.parse (p.text ++ "elseifelse" ++ "($x);") = .ok ⟨false, [.conditional [] (.var "a") []
        [] (some ⟨[], [.leaf [] (.expr (.var "x"))]⟩)]⟩ ∧
      Program.parse (p.text ++ "elseifelse" ++ "($x);") ≠
        .ok ⟨false, p.stmts ++ [.leaf [] (.expr (.call (.name "elseifelse") [.var "x"]))]⟩ := by
  decide +kernel

end Casework
