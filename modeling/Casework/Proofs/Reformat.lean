import Casework.Proofs.Advance
import Casework.Tree.Same

/-!
# Programs that can be read, printed and read again

The text of a program that was read need not be accepted again, since an expression
may begin with a word that the reader takes for something else.  Whether it is
accepted is decided here statement by statement: a list is walked through the way
its reader does, and only expression statements can stop it.

## Main definitions

* `Stmt.advance` — where the reader of a list stands behind a statement, if it gets
  there.
* `Program.rereads` — every word at the front of an expression statement gets what
  it needs.

## Main results

* `Stmt.advances_of_every` — reading the text of a list goes on behind it exactly when
  every word gets what it needs, and halts otherwise.
* `Program.exists_parse_text_iff` — **the text of a program that was read can be read
  again exactly when every word gets what it needs**.
-/

namespace Casework

open Reader

/-! ### Walking through a list -/

/-- Where the reader of a list stands behind a leaf. -/
def Leaf.advance (stop : Stop) (isOpen : Bool) : Leaf → Option Bool
  | .nop => some isOpen
  | .expr e => e.advance stop isOpen
  | .echo _ | .return _ | .break | .continue => some false

namespace Stmt

mutual

/-- Where the reader of a list stands behind a statement. -/
def advance (stop : Stop) (isOpen : Bool) : Stmt → Option Bool
  | leaf _ l => l.advance stop isOpen
  | block _ body => if (advanceList .brace false body).isSome then some false else none
  | «while» _ _ body => if (advanceList .brace false body).isSome then some false else none
  | conditional _ _ body elseifs otherwise =>
    if (advanceList .brace false body).isSome && advanceClauses elseifs && advanceOtherwise otherwise
    then some otherwise.isNone else none
  | switch _ _ cases => if advanceCases cases then some false else none
termination_by structural s => s

/-- Where the reader of a list stands behind the statements. -/
def advanceList (stop : Stop) (isOpen : Bool) : List Stmt → Option Bool
  | [] => some isOpen
  | s :: ss =>
    match s.advance stop isOpen with
    | none => none
    | some next => advanceList stop next ss
termination_by structural ss => ss

/-- The bodies of the clauses are read to their ends. -/
def advanceClauses : List (Clause Stmt) → Bool
  | [] => true
  | ⟨_, _, body⟩ :: clauses => (advanceList .brace false body).isSome && advanceClauses clauses
termination_by structural clauses => clauses

/-- The body of the `else` clause is read to its end. -/
def advanceOtherwise : Option (Otherwise Stmt) → Bool
  | none => true
  | some ⟨_, body⟩ => (advanceList .brace false body).isSome
termination_by structural otherwise => otherwise

/-- The bodies of the cases are read to their ends. -/
def advanceCases : List (Case Stmt) → Bool
  | [] => true
  | ⟨_, _, body⟩ :: cases => (advanceList .label false body).isSome && advanceCases cases
termination_by structural cases => cases

end

end Stmt

/-- Every word at the front of an expression statement gets what it needs. -/
def Program.rereads (p : Program) : Bool := (Stmt.advanceList .brace false p.stmts).isSome

/-! ### Reading up to a brace -/

namespace Reader

variable {α : Type} {m d : Nat} {f : Rounds} {g h r s u : List Char} {j k : List Comment}
  {b : Bool} {o : Option Bool}

theorem ReadsIf.of_skip {p : Reader α} (h : ReadsIf b (do let _ ← p : Reader Unit) s r) :
    ReadsIf b p s r := by
  cases hp : p s with
  | ok a t =>
    have hskip : (do let _ ← p : Reader Unit) s = .ok () t := bind_ok hp
    cases b with
    | true =>
      obtain ⟨_, hr⟩ := h
      rw [hskip] at hr
      cases hr
      exact ⟨a, hp⟩
    | false =>
      obtain ⟨e, t, ht⟩ := h
      rw [hskip] at ht
      cases ht
  | miss t =>
    obtain ⟨u, hu⟩ : (do let _ ← p : Reader Unit).Misses s := bind_miss ⟨t, hp⟩
    cases b with
    | true =>
      obtain ⟨_, hr⟩ := h
      rw [hu] at hr
      cases hr
    | false =>
      obtain ⟨e, t, ht⟩ := h
      rw [hu] at ht
      cases ht
  | halt e t =>
    obtain ⟨e', u, hu⟩ : (do let _ ← p : Reader Unit).Halts s := bind_halt ⟨e, t, hp⟩
    cases b with
    | true =>
      obtain ⟨_, hr⟩ := h
      rw [hu] at hr
      cases hr
    | false => exact ⟨e, t, hp⟩

theorem ReadsIf.congr {p q : Reader α} (h : p s = q u) : ReadsIf b p s r ↔ ReadsIf b q u r := by
  rw [ReadsIf, ReadsIf, Halts, Halts, h]

theorem ReadsIf.not_misses {p : Reader α} (h : ReadsIf b p s r) : ¬ p.Misses s := by
  rintro ⟨t, ht⟩
  cases b with
  | true =>
    obtain ⟨a, ha⟩ := h
    rw [ht] at ha
    cases ha
  | false =>
    obtain ⟨e, u, hu⟩ := h
    rw [ht] at hu
    cases hu

theorem ReadsIf.commit {p : Reader α} (h : ReadsIf b p s r) : ReadsIf b (commit p) s r := by
  cases b with
  | true =>
    obtain ⟨a, ha⟩ := h
    exact ⟨a, commit_ok ha⟩
  | false => exact commit_halt h

/-- A list between braces, or the whole text, ends at a closing brace or at the end. -/
theorem resume_close (hg : IsGap g k) (hs : s = [] ∨ ∃ t, s = '\x7d' :: t) (hf : f.Cover d)
    (isOpen : Bool) : resume m f .brace isOpen (g ++ s) = .ok () s := by
  have hclause : AtToken s ∧ leadWord s ∉ clauseWords := by
    rcases hs with rfl | ⟨t, rfl⟩
    · exact ⟨atToken_nil, by decide⟩
    · refine ⟨atToken_cons (by decide) t, ?_⟩
      rw [leadWord_cons_of_not (by decide)]
      decide
  obtain ⟨n, hn⟩ := Nat.exists_eq_succ_of_ne_zero (Nat.ne_of_gt (Nat.zero_lt_of_lt hf.2.1))
  rw [resume_of_leadWord hclause.1 hclause.2 hg hf, goOn, hn, bind_ok (statements_close hg hs)]
  rfl

theorem settles_close (hh : IsGap h j) (hs : s = [] ∨ ∃ t, s = '\x7d' :: t) :
    Settles m .brace d (h ++ s) := by
  rintro f isOpen g k hf hg ⟨t, ht⟩
  rw [← List.append_assoc, resume_close (hg.append hh) hs hf] at ht
  cases ht

/-- A list that is passed is complete where it ends. -/
theorem readsIf_of_leaves (hh : IsGap h j) (hs : s = [] ∨ ∃ t, s = '\x7d' :: t)
    (hread : Leaves m .brace d (h ++ s) o (goOn m f .brace u)) :
    ReadsIf o.isSome (statements (statement (m + 1)) .brace f.list) u s := by
  apply ReadsIf.of_skip
  cases o with
  | none => exact hread
  | some isOpen =>
    obtain ⟨f', g, k, hf, hg, heq⟩ := hread
    refine ⟨(), ?_⟩
    rw [← List.append_assoc, resume_close (hg.append hh) hs hf] at heq
    exact heq

end Reader

/-! ### Statements and their parts -/

namespace Stmt

variable {level m d : Nat} {g r : List Char} {k : List Comment} {s : Stmt} {ss : List Stmt}

/-- Reading the text of the list goes on behind it exactly when the walk through the
list comes to its end, and it halts otherwise. -/
def Advances (ss : List Stmt) : Prop :=
  ∀ (level m d : Nat) (f : Rounds) (stop : Stop) (isOpen : Bool) {g r : List Char}
    {k : List Comment}, IsGap g k → (render (listLines level ss)).length + d ≤ m →
    f.Cover ((render (listLines level ss)).length + d) → Settles m stop d r →
    Leaves m stop d r (advanceList stop isOpen ss)
      (resume m f stop isOpen (g ++ (render (listLines level ss) ++ r)))

/-- The same for the text of a statement that is no expression, at which the reader
reads a statement wherever it stands. -/
def AdvancesAlone (s : Stmt) : Prop :=
  ∀ (level m d : Nat) (stop : Stop) (isOpen : Bool) (k : List Comment) {r : List Char},
    (s.code level).length + d ≤ m →
    (∀ c, d < c → ¬ (clauses (m + 1) (statement m) c).Misses r) →
    Stands m d r (s.advance stop isOpen) (statement (m + 1) k (s.code level ++ r))

/-- The same for the text behind the first branch of a conditional. -/
def AdvancesClauses (es : List (Clause Stmt)) (o : Option (Otherwise Stmt)) : Prop :=
  ∀ (level m n d : Nat) {r : List Char}, (clausesCode level es o).length ≤ m →
    (clausesCode level es o).length + d < n →
    Stands m d r (if advanceClauses es && advanceOtherwise o then some o.isNone else none)
      (clauses (m + 1) (statement m) n (clausesCode level es o ++ r))

/-- The same for the text of the cases of a switch, up to the closing brace. -/
def AdvancesCases (cs : List (Case Stmt)) : Prop :=
  ∀ (level m n : Nat) {g h : List Char} {k : List Comment}, IsGap g k → IsGap h [] →
    (render (caseLines level cs)).length ≤ m → (render (caseLines level cs)).length < n →
    ∀ r, ReadsIf (advanceCases cs) (follow m n .label)
      (g ++ (render (caseLines level cs) ++ (h ++ '\x7d' :: r))) r

/-! ### Bodies -/

theorem Advances.braced {body : List Stmt} (h : Advances body) (level : Nat)
    (hm : (bracedText level (listLines (level + 1) body)).length ≤ m + 1) (r : List Char) :
    ReadsIf (advanceList .brace false body).isSome (Reader.braced (m + 1) (statement m))
      (bracedText level (listLines (level + 1) body) ++ r) r := by
  have hlen := length_bracedText level (listLines (level + 1) body)
  obtain ⟨m, rfl⟩ := Nat.exists_eq_succ_of_ne_zero (n := m) (by omega)
  have hline : IsGap ['\n'] [] := isGap_layout rfl
  have hclose : '\x7d' :: r = [] ∨ ∃ t, '\x7d' :: r = '\x7d' :: t := Or.inr ⟨r, rfl⟩
  have htext : bracedText level (listLines (level + 1) body) ++ r = '\x7b' :: (['\n'] ++
      (render (listLines (level + 1) body) ++ (indent level ++ '\x7d' :: r))) := by
    simp [bracedText]
  have hread := readsIf_of_leaves (isGap_indent level) hclose
    (h (level + 1) m 0 ⟨m + 2, m + 2, m + 2⟩ .brace false hline (by omega)
      ⟨by dsimp only; omega, by dsimp only; omega, by dsimp only; omega⟩
      (settles_close (isGap_indent level) hclose))
  rw [htext]
  cases hpass : (advanceList .brace false body).isSome with
  | true =>
    rw [hpass] at hread
    obtain ⟨stmts, hstmts⟩ := hread
    exact ⟨stmts, braced_ok hstmts⟩
  | false =>
    rw [hpass] at hread
    exact halts_of_bind_ok (char_self _ _) (bind_halt hread)

/-- A body behind a space. -/
theorem Advances.body {body : List Stmt} (h : Advances body) (level : Nat)
    (hm : (bracedText level (listLines (level + 1) body)).length ≤ m + 1) (r : List Char) :
    ReadsIf (advanceList .brace false body).isSome
      (Reader.commit (Reader.body (m + 1) (statement m)))
      (' ' :: (bracedText level (listLines (level + 1) body) ++ r)) r := by
  apply ReadsIf.commit
  have hbody : Reader.body (m + 1) (statement m)
      (' ' :: (bracedText level (listLines (level + 1) body) ++ r)) =
        Reader.braced (m + 1) (statement m)
          (bracedText level (listLines (level + 1) body) ++ r) := by
    have hgap : gap (' ' :: (bracedText level (listLines (level + 1) body) ++ r)) =
        .ok () (bracedText level (listLines (level + 1) body) ++ r) :=
      gap_ok (isGap_layout (c := ' ') rfl) (atToken_cons (by decide) _)
    exact bind_ok hgap
  rw [ReadsIf, Halts, hbody]
  exact h.braced level hm r

/-! ### Statements of every kind -/

theorem advancesAlone_leaf {k : List Comment} {l : Leaf} (hl : l.validBy Literal.readable = true)
    (hworded : l.isWorded = true) : AdvancesAlone (leaf k l) := by
  intro level m d stop isOpen k' r hm hr
  have hadvance : (leaf k l).advance stop isOpen = some false := by
    rw [advance]
    cases l with
    | expr e => cases hworded
    | nop => cases hworded
    | _ => rfl
  rw [code] at hm
  rw [hadvance]
  exact ⟨_, kind_worded (fun _ => Expr.written_ofReadable) hl hworded (by omega) (statement m) k' r⟩

theorem advancesAlone_block {body : List Stmt} (h : Advances body) (k : List Comment) :
    AdvancesAlone (block k body) := by
  intro level m d stop isOpen k' r hm hr
  rw [code] at hm
  have hread : Stands m d r ((block k body).advance stop isOpen)
      ((do return .block k' (← Reader.braced (m + 1) (statement m)) : Reader Stmt)
        (bracedText level (listLines (level + 1) body) ++ r)) := by
    rw [advance]
    exact (h.braced level (by omega) r).stands_bind fun stmts => ⟨.block k' stmts, rfl⟩
  rw [statement_succ, code, kind_of_not_word (leadWord_bracedText level _ r)]
  exact hread.orElse hr _

theorem advancesAlone_while {cond : Expr} {body : List Stmt} (h : Advances body)
    (hcond : IsValid cond) (k : List Comment) : AdvancesAlone («while» k cond body) := by
  intro level m d stop isOpen k' r hm hr
  obtain ⟨cond', hwritten⟩ := hcond.exists_written
  have hhead := length_headText "while" cond
  have hlead := leadWord_headText "while" (by decide) (by decide) cond
  rw [code, List.length_append] at hm
  have hread : Stands m d r ((«while» k cond body).advance stop isOpen)
      (loop (m + 1) (statement m) k'
        (headText "while" cond ++ (bracedText level (listLines (level + 1) body) ++ r))) := by
    rw [advance, loop, bind_ok (keyword_headText _ (by decide) _),
      bind_ok (condition_head hwritten (by omega) _)]
    exact (h.body level (by omega) r).stands_bind fun stmts => ⟨.while k' cond' stmts, rfl⟩
  rw [statement_succ, code, List.append_assoc, kind,
    orElse_miss (conditional_misses (by rw [hlead]; decide))]
  exact hread.orElse hr _

theorem advancesAlone_conditional {cond : Expr} {body : List Stmt} {es : List (Clause Stmt)}
    {o : Option (Otherwise Stmt)} (h : Advances body) (hclauses : AdvancesClauses es o)
    (hcond : IsValid cond) (k : List Comment) : AdvancesAlone (conditional k cond body es o) := by
  intro level m d stop isOpen k' r hm hr
  obtain ⟨cond', hwritten⟩ := hcond.exists_written
  have hhead := length_headText "if" cond
  rw [code, List.length_append, List.length_append] at hm
  have hadvance : (conditional k cond body es o).advance stop isOpen =
      if (advanceList .brace false body).isSome then
        if advanceClauses es && advanceOtherwise o then some o.isNone else none
      else none := by
    rw [advance, Bool.and_assoc]
    cases (advanceList .brace false body).isSome <;> rfl
  have hread : Stands m d r ((conditional k cond body es o).advance stop isOpen)
      (Reader.conditional (m + 1) (statement m) k' (headText "if" cond ++
        (bracedText level (listLines (level + 1) body) ++ (clausesCode level es o ++ r)))) := by
    rw [hadvance, Reader.conditional, bind_ok (keyword_headText _ (by decide) _),
      bind_ok (condition_head hwritten (by omega) _)]
    apply (h.body level (by omega) _).stands_bind
    intro stmts
    have hrest := (hclauses level m (m + 1) d (r := r) (by omega) (by omega)).map
      fun c => Stmt.conditional k' cond' stmts c.1 c.2
    rw [bind_apply]
    cases hreply : clauses (m + 1) (statement m) (m + 1) (clausesCode level es o ++ r) <;>
      rw [hreply] at hrest <;> exact hrest
  rw [statement_succ, code, List.append_assoc, List.append_assoc, kind]
  exact hread.orElse hr _

theorem advancesAlone_switch {subject : Expr} {cs : List (Case Stmt)} (h : AdvancesCases cs)
    (hsubject : IsValid subject) (k : List Comment) : AdvancesAlone (switch k subject cs) := by
  intro level m d stop isOpen k' r hm hr
  obtain ⟨subject', hwritten⟩ := hsubject.exists_written
  have hhead := length_headText "switch" subject
  have hlen := length_bracedText level (caseLines (level + 1) cs)
  have hlead := leadWord_headText "switch" (by decide) (by decide) subject
  rw [code, List.length_append] at hm
  obtain ⟨m, rfl⟩ := Nat.exists_eq_succ_of_ne_zero (n := m) (by omega)
  have htext : bracedText level (caseLines (level + 1) cs) ++ r = '\x7b' :: (['\n'] ++
      (render (caseLines (level + 1) cs) ++ (indent level ++ '\x7d' :: r))) := by
    simp [bracedText]
  have hcases := (h (level + 1) m (m + 2) (isGap_layout (c := '\n') rfl) (isGap_indent level)
    (by omega) (by omega) r).of_skip
  have hread : Stands (m + 1) d r ((switch k subject cs).advance stop isOpen)
      (Reader.switch (m + 2) (statement (m + 1)) k'
        (headText "switch" subject ++ (bracedText level (caseLines (level + 1) cs) ++ r))) := by
    rw [advance, Reader.switch, bind_ok (keyword_headText _ (by decide) _),
      bind_ok (condition_head hwritten (by omega) _), htext, bind_ok (openingBrace_ok _)]
    exact hcases.stands_bind fun cs' => ⟨.switch k' subject' cs', rfl⟩
  rw [statement_succ, code, List.append_assoc, kind,
    orElse_miss (conditional_misses (by rw [hlead]; decide)),
    orElse_miss (loop_misses (by rw [hlead]; decide))]
  exact hread.orElse hr _

/-! ### Clauses and cases -/

theorem advancesClauses_nil {o : Option (Otherwise Stmt)}
    (hvalid : everyOtherwise (.validBy Literal.readable) o = true)
    (h : ∀ otherwise ∈ o, Advances otherwise.body) : AdvancesClauses [] o := by
  intro level m n d r hm hn
  obtain ⟨n, rfl⟩ := Nat.exists_eq_succ_of_ne_zero (Nat.ne_of_gt (Nat.zero_lt_of_lt hn))
  cases o with
  | none =>
    refine ⟨n + 1, id, by omega, ?_⟩
    show clauses (m + 1) (statement m) (n + 1) r = _
    cases clauses (m + 1) (statement m) (n + 1) r <;> rfl
  | some otherwise =>
    obtain ⟨k, body⟩ := otherwise
    rw [everyOtherwise, Bool.and_eq_true] at hvalid
    rw [clausesCode, List.length_append, List.length_append, List.length_cons] at hm
    have hbody : Advances body := h _ rfl
    have hat : AtToken
        ("else".toList ++ ' ' :: (bracedText level (listLines (level + 1) body) ++ r)) :=
      atToken_cons (c := 'e') (by decide) _
    rw [clausesCode, List.append_assoc, List.append_assoc, List.cons_append,
      clauses_of_else (isGap_bridge level hvalid.1) hat (Or.inl rfl)]
    exact (hbody.body level (by omega) r).stands_bind fun stmts => ⟨([], some ⟨k, stmts⟩), rfl⟩

theorem AdvancesClauses.cons {k : List Comment} {cond : Expr} {body : List Stmt}
    {es : List (Clause Stmt)} {o : Option (Otherwise Stmt)} (h : AdvancesClauses es o)
    (hbody : Advances body) (hk : k.all Comment.wellFormed = true) (hcond : IsValid cond) :
    AdvancesClauses (⟨k, cond, body⟩ :: es) o := by
  intro level m n d r hm hn
  obtain ⟨n, rfl⟩ := Nat.exists_eq_succ_of_ne_zero (Nat.ne_of_gt (Nat.zero_lt_of_lt hn))
  obtain ⟨cond', hwritten⟩ := hcond.exists_written
  have hhead := length_headText "elseif" cond
  simp only [clausesCode, List.length_append] at hm hn
  have hadvance : (if advanceClauses (⟨k, cond, body⟩ :: es) && advanceOtherwise o
        then some o.isNone else none) =
      if (advanceList .brace false body).isSome then
        if advanceClauses es && advanceOtherwise o then some o.isNone else none
      else none := by
    rw [advanceClauses, Bool.and_assoc]
    cases (advanceList .brace false body).isSome <;> rfl
  have hat : ∀ t, AtToken (headText "elseif" cond ++ t) :=
    fun t => atToken_cons (c := 'e') (by decide) _
  have hlead := leadWord_headText "elseif" (by decide) (by decide) cond
  have hdrop : ∀ t, (headText "elseif" cond ++ t).dropWhile isWordChar =
      ' ' :: '(' :: (cond.text ++ ')' :: ' ' :: t) := by
    intro t
    rw [headText, List.append_assoc]
    simp only [List.cons_append, List.append_assoc, List.nil_append]
    rfl
  simp only [clausesCode, List.append_assoc]
  rw [hadvance, clauses_of_elseif (isGap_bridge level hk) (hat _) (hlead _), hdrop,
    bind_ok (condition_head hwritten (by omega) _)]
  apply (hbody.body level (by omega) _).stands_bind
  intro stmts
  have hrest := (h level m n d (r := r) (by omega) (by omega)).map
    fun c => (Clause.mk k cond' stmts :: c.1, c.2)
  rw [bind_apply]
  cases hreply : clauses (m + 1) (statement m) n (clausesCode level es o ++ r) <;>
    rw [hreply] at hrest <;> exact hrest

/-- The list of a case ends where the next case begins, or before the brace. -/
theorem resume_caseLines {f : Rounds} {h : List Char} {cs : List (Case Stmt)}
    (hvalid : everyCases (.validBy Literal.readable) cs = true) (hg : IsGap g k) (hh : IsGap h [])
    (hf : f.Cover d) (isOpen : Bool) (level : Nat) (r : List Char) :
    resume m f .label isOpen (g ++ (render (caseLines level cs) ++ (h ++ '\x7d' :: r))) =
      follow m f.cases .label (g ++ (render (caseLines level cs) ++ (h ++ '\x7d' :: r))) := by
  obtain ⟨n, hn⟩ := Nat.exists_eq_succ_of_ne_zero (Nat.ne_of_gt (Nat.zero_lt_of_lt hf.2.1))
  obtain ⟨j, hj⟩ := Nat.exists_eq_succ_of_ne_zero (Nat.ne_of_gt (Nat.zero_lt_of_lt hf.2.2))
  cases cs with
  | nil =>
    have hgap := hg.append hh
    have hlist : statements (statement (m + 1)) .label (n + 1) (g ++ h ++ '\x7d' :: r) = _ :=
      statements_close hgap (Or.inr ⟨r, rfl⟩)
    have hend : ∀ {s : List Char} {k : List Comment}, IsGap s k →
        follow m (j + 1) .label (s ++ '\x7d' :: r) = .ok () r := by
      intro s k hs
      rw [follow, bind_ok (cases_nil hs r)]
      rfl
    show resume m f .label isOpen (g ++ (h ++ '\x7d' :: r)) =
      follow m f.cases .label (g ++ (h ++ '\x7d' :: r))
    rw [← List.append_assoc, resume_of_noClause (noClause_brace hgap r) hf, goOn, hn, hj,
      bind_ok hlist, hend hgap]
    exact hend isGap_nil
  | cons c cs =>
    obtain ⟨k', key, body⟩ := c
    simp only [everyCases, Bool.and_eq_true] at hvalid
    have hgap := hg.append (isGap_caseComments level hvalid.1.1.1)
    rw [render_caseLines_cons, ← List.append_assoc,
      resume_of_noClause (noClause_labelText key _ hgap) hf, goOn, hn,
      bind_ok (statements_label hgap (atToken_labelText key _) (labelAhead_labelText key _))]

theorem advancesCases_nil : AdvancesCases [] := by
  intro level m n g h k hg hh hm hn r
  obtain ⟨n, rfl⟩ := Nat.exists_eq_succ_of_ne_zero (Nat.ne_of_gt (Nat.zero_lt_of_lt hn))
  refine ⟨(), ?_⟩
  show follow m (n + 1) .label (g ++ (h ++ '\x7d' :: r)) = _
  rw [← List.append_assoc, follow, bind_ok (cases_nil (hg.append hh) r)]
  rfl

theorem AdvancesCases.cons {k : List Comment} {key : Option Expr} {body : List Stmt}
    {cs : List (Case Stmt)} (h : AdvancesCases cs) (hbody : Advances body)
    (hk : k.all Comment.wellFormed = true) (hkey : key.all (Expr.validBy Literal.readable) = true)
    (hcs : everyCases (.validBy Literal.readable) cs = true) :
    AdvancesCases (⟨k, key, body⟩ :: cs) := by
  intro level m n g g' k' hg hg' hm hn r
  obtain ⟨n, rfl⟩ := Nat.exists_eq_succ_of_ne_zero (Nat.ne_of_gt (Nat.zero_lt_of_lt hn))
  have hlen := congrArg List.length (render_caseLines_cons level k key body cs [])
  simp only [List.append_nil, List.length_append, List.length_singleton] at hlen
  have hline : IsGap ['\n'] [] := isGap_layout rfl
  -- behind the body stand the other cases, which are read or halt
  have hrest : ∀ (f : Rounds) (isOpen : Bool) {g : List Char} {k : List Comment},
      f.Cover (render (caseLines level cs)).length → IsGap g k →
      ReadsIf (advanceCases cs) (resume m f .label isOpen)
        (g ++ (render (caseLines level cs) ++ (g' ++ '\x7d' :: r))) r := by
    intro f isOpen g k hf hg
    rw [ReadsIf.congr (resume_caseLines hcs hg hg' hf isOpen level r)]
    exact h level m f.cases hg hg' (by omega) hf.2.2 r
  have hsettles : Settles m .label (render (caseLines level cs)).length
      (render (caseLines level cs) ++ (g' ++ '\x7d' :: r)) :=
    fun f isOpen g k hf hg => (hrest f isOpen hf hg).not_misses
  have hleaves := hbody (level + 1) m _ ⟨m + 1, m + 2, n⟩ .label false hline (by omega)
    ⟨by dsimp only; omega, by dsimp only; omega, by dsimp only; omega⟩ hsettles
  have hfollow : ∀ s, follow m (n + 1) .label
      (g ++ (render (commentLines level k) ++ indent level) ++ (labelText key ++ s)) =
        goOn m ⟨m + 1, m + 2, n⟩ .label s := by
    intro s
    have hlabel := label_labelText (m := m + 1) (fun _ => Expr.written_ofReadable) hkey
      (by omega) s
    rw [follow_label (hg.append (isGap_caseComments level hk)) (atToken_labelText key s)
      (braceAhead_labelText key s) (m + 1), bind_ok hlabel]
  rw [render_caseLines_cons, ← List.append_assoc, ReadsIf.congr (hfollow _), advanceCases]
  cases hpass : advanceList .label false body with
  | none =>
    rw [hpass] at hleaves
    exact hleaves
  | some isOpen =>
    rw [hpass] at hleaves
    obtain ⟨f, g₂, k₂, hf, hg₂, heq⟩ := hleaves
    exact (ReadsIf.congr heq).mpr (hrest f isOpen hf hg₂)

/-! ### Lists -/

/-- The reader of a list that stands before the text of the statement gets behind it
exactly when the walk does, and it halts otherwise. -/
def AdvancesStep (s : Stmt) : Prop :=
  ∀ (level m d : Nat) (f : Rounds) (stop : Stop) (isOpen : Bool) {g r : List Char}
    {k : List Comment}, IsGap g k → (s.code level).length + 1 + d ≤ m → f.Cover (d + 1) →
    Settles m stop d r →
    Leaves m stop d r (s.advance stop isOpen)
      (resume m f stop isOpen (g ++ (s.code level ++ '\n' :: r)))

theorem advancesStep_expr {e : Expr} (he : IsValid e) (k : List Comment) :
    AdvancesStep (leaf k (.expr e)) := by
  intro level m d f stop isOpen g r k' hg hm hf hr
  rw [code, Leaf.code_expr, List.length_append, List.length_singleton] at hm
  rw [code, Leaf.code_expr, List.append_assoc, List.singleton_append]
  exact leaves_expr he (by omega) (by omega) hg hf hr

theorem AdvancesAlone.step (h : AdvancesAlone s) (hs : s.isNop = false)
    (hne : ∀ k e, s ≠ .leaf k (.expr e)) : AdvancesStep s := by
  intro level m d f stop isOpen g r k hg hm hf hr
  have hopens := opens_code_of_ne level hs hne ('\n' :: r)
  have hline : IsGap ['\n'] [] := isGap_layout rfl
  have hstands := h level m d stop isOpen k (r := '\n' :: r) (by omega)
    fun c hc => hr.clauses hline hc
  rw [resume_of_leadWord (hopens.starts stop).atToken hopens.noClause hg hf]
  exact leaves_of_stands hg (hopens.starts stop) hf hstands

theorem advances_nil : Advances [] := by
  intro level m d f stop isOpen g r k hg hm hf hr
  rw [listLines, render_nil, List.length_nil, Nat.zero_add] at hf
  exact ⟨f, g, k, hf, hg, rfl⟩

/-- An empty statement leaves the reader where it stands. -/
theorem Advances.cons_nop (h : Advances ss) (hs : s.isNop = true)
    (hvalid : s.every (.validBy Literal.readable) = true) : Advances (s :: ss) := by
  intro level m d f stop isOpen g r k hg hm hf hr
  have hlen :
      (render (listLines level ss)).length ≤ (render (listLines level (s :: ss))).length := by
    rw [listLines, render_append, List.length_append]
    exact Nat.le_add_left _ _
  have hadvance : advanceList stop isOpen (s :: ss) = advanceList stop isOpen ss := by
    rw [eq_leaf_of_isNop hs, advanceList, advance]
    rfl
  rw [hadvance, render_listLines_nop hs]
  exact h level m d f stop isOpen (isGap_comments level hg hvalid) (by omega)
    (hf.mono (by omega)) hr

/-- Behind any other statement the reader goes on with the rest of the list. -/
theorem Advances.cons (h : Advances ss) (hstep : AdvancesStep s) (hs : s.isNop = false)
    (hvalid : s.every (.validBy Literal.readable) = true) : Advances (s :: ss) := by
  intro level m d f stop isOpen g r k hg hm hf hr
  have hcode := isCode_of_every hs hvalid
  have hlen := length_listLines_cons level ss hcode
  have hrest : ∀ (f : Rounds) (isOpen : Bool) (g : List Char) (k : List Comment),
      f.Cover ((render (listLines level ss)).length + d) → IsGap g k →
      Leaves m stop d r (advanceList stop isOpen ss)
        (resume m f stop isOpen (g ++ (render (listLines level ss) ++ r))) :=
    fun f isOpen g k hf hg => h level m d f stop isOpen hg (by omega) hf hr
  have hsettles : Settles m stop ((render (listLines level ss)).length + d)
      (render (listLines level ss) ++ r) :=
    fun f isOpen g k hf hg => not_misses_of_leaves hr (hrest f isOpen g k hf hg)
  have hleaves := hstep level m _ f stop isOpen (isGap_lead level hg hvalid) (by omega)
    (hf.mono (by omega)) hsettles
  rw [render_listLines_cons hcode, advanceList]
  cases hpass : s.advance stop isOpen with
  | none =>
    rw [hpass] at hleaves
    exact hleaves
  | some next =>
    rw [hpass] at hleaves
    obtain ⟨f', g', k', hf', hg', heq⟩ := hleaves
    have hgoOn := hrest f' next g' k' hf' hg'
    rw [← heq] at hgoOn
    exact hgoOn

/-! ### All programs -/

mutual

/-- The reader passes every statement that is not empty the way the walk does. -/
theorem advancesStep_of_every : ∀ s : Stmt, s.every (.validBy Literal.readable) = true →
    s.isNop = false → AdvancesStep s
  | leaf k l, hvalid, hs => by
    rw [every, Bool.and_eq_true] at hvalid
    have hl : l.validBy Literal.readable = true := hvalid.2
    cases l with
    | expr e => exact advancesStep_expr hl k
    | nop => cases hs
    | _ => exact (advancesAlone_leaf hl rfl).step hs nofun
  | block k body, hvalid, hs => by
    rw [every, Bool.and_eq_true] at hvalid
    exact (advancesAlone_block (advances_of_every body hvalid.2) k).step hs nofun
  | «while» k cond body, hvalid, hs => by
    simp only [every, Bool.and_eq_true] at hvalid
    exact (advancesAlone_while (advances_of_every body hvalid.2) hvalid.1.2 k).step hs nofun
  | conditional k cond body elseifs otherwise, hvalid, hs => by
    simp only [every, Bool.and_eq_true] at hvalid
    have hotherwise := advances_of_everyOtherwise otherwise hvalid.2
    have hclauses := advancesClauses_of_every elseifs hvalid.1.2 otherwise hvalid.2 hotherwise
    exact (advancesAlone_conditional (advances_of_every body hvalid.1.1.2) hclauses
      hvalid.1.1.1.2 k).step hs nofun
  | switch k subject cases, hvalid, hs => by
    simp only [every, Bool.and_eq_true] at hvalid
    exact (advancesAlone_switch (advancesCases_of_every cases hvalid.2) hvalid.1.2 k).step hs nofun

/-- Reading the text of a list goes on behind it exactly when every word gets what it
needs. -/
theorem advances_of_every : ∀ ss : List Stmt,
    everyList (.validBy Literal.readable) ss = true → Advances ss
  | [], _ => advances_nil
  | s :: ss, hvalid => by
    rw [everyList, Bool.and_eq_true] at hvalid
    have hss := advances_of_every ss hvalid.2
    have hstep := advancesStep_of_every s hvalid.1
    rcases Bool.eq_false_or_eq_true s.isNop with hs | hs
    · exact hss.cons_nop hs hvalid.1
    · exact hss.cons (hstep hs) hs hvalid.1

theorem advancesClauses_of_every : ∀ clauses : List (Clause Stmt),
    everyClauses (.validBy Literal.readable) clauses = true →
    ∀ o, everyOtherwise (.validBy Literal.readable) o = true →
      (∀ otherwise ∈ o, Advances otherwise.body) → AdvancesClauses clauses o
  | [], _ => fun _ hvalid h => advancesClauses_nil hvalid h
  | ⟨k, cond, body⟩ :: clauses, hvalid => by
    simp only [everyClauses, Bool.and_eq_true] at hvalid
    intro o ho h
    exact (advancesClauses_of_every clauses hvalid.2 o ho h).cons
      (advances_of_every body hvalid.1.2) hvalid.1.1.1 hvalid.1.1.2

theorem advances_of_everyOtherwise : ∀ o : Option (Otherwise Stmt),
    everyOtherwise (.validBy Literal.readable) o = true → ∀ otherwise ∈ o, Advances otherwise.body
  | none, _ => nofun
  | some ⟨k, body⟩, hvalid => by
    rw [everyOtherwise, Bool.and_eq_true] at hvalid
    intro otherwise ho
    rw [← Option.some.inj ho]
    exact advances_of_every body hvalid.2

theorem advancesCases_of_every : ∀ cases : List (Case Stmt),
    everyCases (.validBy Literal.readable) cases = true → AdvancesCases cases
  | [], _ => advancesCases_nil
  | ⟨k, key, body⟩ :: cases, hvalid => by
    simp only [everyCases, Bool.and_eq_true] at hvalid
    exact (advancesCases_of_every cases hvalid.2).cons (advances_of_every body hvalid.1.2)
      hvalid.1.1.1 hvalid.1.1.2 hvalid.2

end

/-- No statement begins like an opening tag. -/
theorem noTag_code (level : Nat) (hs : s.isNop = false)
    (hvalid : s.every (.validBy Literal.readable) = true) (t : List Char) :
    AtToken (s.code level ++ t) ∧ (s.code level ++ t).head? ≠ some '<' := by
  by_cases hne : ∃ k e, s = .leaf k (.expr e)
  · obtain ⟨k, e, rfl⟩ := hne
    rw [every, Bool.and_eq_true] at hvalid
    have he : IsValid e := hvalid.2
    obtain ⟨e', hwritten⟩ := he.exists_written
    rw [code, Leaf.code_expr, List.append_assoc]
    exact ⟨hwritten.atToken _, hwritten.head?_append_ne (by decide) _⟩
  · have hopens := opens_code_of_ne level hs (fun k e heq => hne ⟨k, e, heq⟩) t
    exact ⟨(hopens.starts .brace).atToken, hopens.noTag⟩

end Stmt

namespace Program

/-- The text of a program is read to its end, or its reader halts. -/
theorem readsIf_program {p : Program} (h : p.every (.validBy Literal.readable) = true) :
    ReadsIf p.rereads (Reader.program (p.chars.length + 1)) p.chars [] := by
  obtain ⟨tag, stmts⟩ := p
  have hadvances := Stmt.advances_of_every stmts h
  have hread : ∀ {g : List Char} {n : Nat}, IsGap g [] →
      (render (Stmt.listLines 0 stmts)).length ≤ n →
      ReadsIf (Program.mk tag stmts).rereads (statements (statement (n + 1)) .brace (n + 1))
        (g ++ render (Stmt.listLines 0 stmts)) [] := by
    intro g n hg hn
    have hleaves := hadvances 0 n 0 ⟨n + 1, n + 1, n + 1⟩ .brace false (r := [] ++ []) hg hn
      ⟨Nat.lt_succ_of_le hn, Nat.lt_succ_of_le hn, Nat.lt_succ_of_le hn⟩
      (settles_close isGap_nil (Or.inl rfl))
    have hstmts := readsIf_of_leaves isGap_nil (Or.inl rfl) hleaves
    rwa [List.append_nil, List.append_nil] at hstmts
  have hprogram : ∀ {n : Nat} {s r : List Char}, Reader.openTag s = .ok tag r →
      ReadsIf (Program.mk tag stmts).rereads (statements (statement n) .brace n) r [] →
      ReadsIf (Program.mk tag stmts).rereads (Reader.program n) s [] := by
    intro n s r htag hstmts
    cases hpass : (Program.mk tag stmts).rereads with
    | true =>
      rw [hpass] at hstmts
      obtain ⟨v, hv⟩ := hstmts
      exact ⟨⟨tag, v⟩, program_ok htag hv⟩
    | false =>
      rw [hpass] at hstmts
      exact halts_of_bind_ok htag (bind_halt hstmts)
  cases tag with
  | true =>
    have htext : (Program.mk true stmts).chars =
        "<?php".toList ++ (['\n', '\n'] ++ render (Stmt.listLines 0 stmts)) := rfl
    have hgap : IsGap ['\n', '\n'] [] := isGap_of_layout (by decide)
    rw [htext]
    apply hprogram (openTag_true _) (hread hgap _)
    simp only [List.length_append]
    omega
  | false =>
    have htext : (Program.mk false stmts).chars = render (Stmt.listLines 0 stmts) := rfl
    rw [htext]
    apply hprogram (openTag_false _) (hread isGap_nil (Nat.le_refl _))
    have hahead := Stmt.ahead_listLines (p := fun s => s.head? ≠ some '<') (r := []) 0 nofun stmts
      h (fun s hmem hs t => Stmt.noTag_code 0 hs (Stmt.every_of_mem h hmem) t) isGap_nil
    rwa [List.append_nil] at hahead

/-- **The text of a program that was read can be read again exactly when every word gets
what it needs.** -/
theorem exists_parse_text_iff {source : String} {p : Program} (h : Program.parse source = .ok p) :
    (∃ q, Program.parse p.text = .ok q) ↔ p.rereads = true := by
  have hread := readsIf_program (every_of_parse h)
  cases hpass : p.rereads with
  | true =>
    rw [hpass] at hread
    obtain ⟨q, hq⟩ := hread
    exact ⟨fun _ => rfl, fun _ => ⟨q, parse_ofList hq⟩⟩
  | false =>
    rw [hpass] at hread
    obtain ⟨e, t, ht⟩ := hread
    refine ⟨?_, nofun⟩
    rintro ⟨q, hq⟩
    unfold Program.parse at hq
    rw [Program.text, String.toList_ofList] at hq
    simp only [ht] at hq
    cases hq

/-- Without its parentheses the word is read with the operand that it needs. -/
theorem exists_parse_text_iff_operand :
    let p : Program := ⟨false, [.leaf [] (.expr (.call (.name "echo") [.lit (.int 1)]))]⟩
    Program.parse "(echo)(1);" = .ok p ∧ ∃ q, Program.parse p.text = .ok q := by
  intro p
  have hread : Program.parse "(echo)(1);" = .ok p := by decide +kernel
  exact ⟨hread, (exists_parse_text_iff hread).mpr (by decide)⟩

/-- Without its parentheses the word stands alone, and it is no statement. -/
theorem not_exists_parse_text_alone :
    let p : Program := ⟨false, [.leaf [] (.expr (.name "echo"))]⟩
    Program.parse "(echo);" = .ok p ∧ ¬ ∃ q, Program.parse p.text = .ok q := by
  intro p
  have hfault : (Program.parse p.text).toOption = none := by decide +kernel
  refine ⟨by decide +kernel, ?_⟩
  rintro ⟨q, hq⟩
  rw [hq] at hfault
  cases hfault

end Program

end Casework
