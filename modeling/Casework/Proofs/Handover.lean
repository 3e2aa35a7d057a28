import Casework.Proofs.Rounds
import Casework.Tree.Same

/-!
# Comments between the cases of a switch

The comments behind the last token of a case have two places to go to.  Before the label of
the next case they lead that case; before the closing brace they become an empty statement
at the end of the body.  Which of the two it is depends on what stands behind them, so the
list of statements that is the body has to see them first: it either keeps them or gives
them back.

Either way they are gone when the loop over the cases comes to the closing brace.  The only
comments that it can still hold there are those of a switch that has no case at all.

What counts as the last token is settled by the statements themselves.  Each of them stops
right behind a semicolon or a closing brace, however many clauses of a conditional have been
looked for behind it, and a label right behind its colon.

## Main definitions

* `Reader.StopsBehind` — the reader stops right behind the end of a label or statement.
* `Reader.CaseRound` — a round of the loop over the cases of a switch.
* `Reader.HandsOver` — where the comments behind a case go.

## Main results

* `Reader.stopsBehind_statement` — statements stop right behind their last token.
* `Reader.cases_eq_ok_iff` — the loop over the cases, round by round.
* `Reader.eq_nil_of_brace` — comments are only left at the brace of an empty switch.
* `Reader.cases_keep_comments` — **only an empty switch drops comments at its closing
  brace**.
* `Reader.switch_hands_over` — **a switch has the cases that its loop has collected, and each
  has the comments that were handed over to it**.
-/

namespace Casework

namespace Reader

variable {α β γ : Type} {p q : Reader α} {f : α → Reader β} {s r t : List Char}

/-! ### Right behind a token -/

/-- The characters that labels and statements end in. -/
def isFinal (c : Char) : Bool := c == ';' || c == ':' || c == '\x7d'

/-- The second text is what stands in the first right behind one of these characters. -/
def Behind (s r : List Char) : Prop := ∃ text c, s = text ++ c :: r ∧ isFinal c = true

/-- Wherever the reader reads, it stops right behind one of them. -/
def StopsBehind (p : Reader α) : Prop := ∀ ⦃s a r⦄, p s = .ok a r → Behind s r

theorem Behind.of_suffix (h : Behind t r) (hs : t <:+ s) : Behind s r := by
  obtain ⟨text, c, rfl, hc⟩ := h
  obtain ⟨front, rfl⟩ := hs
  exact ⟨front ++ text, c, by rw [List.append_assoc], hc⟩

theorem Behind.isSuffix (h : Behind s r) : r <:+ s := by
  obtain ⟨text, c, rfl, -⟩ := h
  exact ⟨text ++ [c], by simp⟩

theorem Behind.trans (h : Behind s t) (h' : Behind t r) : Behind s r := h'.of_suffix h.isSuffix

theorem stopsBehind_skip (hp : p.LeavesSuffix) (hf : ∀ a, (f a).StopsBehind) :
    (p >>= f).StopsBehind := by
  intro s b r h
  obtain ⟨a, t, ha, hb⟩ := exists_of_bind_eq_ok h
  exact (hf a hb).of_suffix (hp.of_ok ha)

theorem stopsBehind_map {g : α → β} (hp : p.StopsBehind) :
    (p >>= fun a => pure (g a)).StopsBehind := by
  intro s b r h
  obtain ⟨a, t, ha, hb⟩ := exists_of_bind_eq_ok h
  cases hb
  exact hp ha

theorem stopsBehind_orElse (hp : p.StopsBehind) (hq : q.StopsBehind) : (p <|> q).StopsBehind :=
  fun _ _ _ h => (eq_ok_or_of_orElse h).elim (fun h => hp h) fun h => hq h

theorem stopsBehind_commit (hp : p.StopsBehind) : (commit p).StopsBehind :=
  fun _ _ _ h => hp (eq_ok_of_commit h)

theorem stopsBehind_require (hp : p.StopsBehind) (what : Expected) :
    (require what p).StopsBehind :=
  fun _ _ _ h => hp (eq_ok_of_require h)

theorem stopsBehind_satisfy {accepts : Char → Bool} (h : ∀ c, accepts c = true → isFinal c = true) :
    (satisfy accepts).StopsBehind := by
  intro s c r hread
  obtain ⟨hs, hc⟩ := eq_cons_of_satisfy hread
  exact ⟨[], c, hs, h c hc⟩

theorem stopsBehind_char {c : Char} (h : isFinal c = true) : (char c).StopsBehind := by
  intro s a r hread
  exact ⟨[], c, eq_cons_of_char hread, h⟩

/-! ### Rounds that stop behind a token -/

section Rounds

variable {R : List Char → γ → List Char → Prop} {vs : List γ} {v : γ}

/-- Rounds of which each stops right behind a token do so, if there are any. -/
theorem Run.behind (hR : ∀ ⦃s v r⦄, R s v r → Behind s r) (h : Run R s vs r) :
    r = s ∨ Behind s r := by
  induction h with
  | nil s => exact Or.inl rfl
  | cons round rounds ih =>
    have hround := hR round
    rcases ih with rfl | hrest
    · exact Or.inr hround
    · exact Or.inr (hround.trans hrest)

theorem LedRound.behind {goesOn : List Char → Prop} {part : List Comment → Reader γ}
    (hpart : ∀ k, (part k).StopsBehind) (h : LedRound goesOn part s v r) : Behind s r :=
  (hpart _ h.read).of_suffix (gapFrom_suffix 0 s)

end Rounds

/-! ### Statements -/

section Statements

variable {nested : Led}

theorem stopsBehind_semicolon : semicolon.StopsBehind :=
  stopsBehind_skip leavesSuffix_gap fun _ => stopsBehind_require (stopsBehind_char rfl) _

theorem stopsBehind_label (fuel : Nat) : (label fuel).StopsBehind := by
  have hcolon : ∀ c, (c == ':' || c == ';') = true → isFinal c = true := by
    intro c hc
    rw [Bool.or_eq_true, beq_iff_eq, beq_iff_eq] at hc
    rcases hc with rfl | rfl <;> rfl
  refine stopsBehind_skip (leavesSuffix_require (leavesSuffix_orElse ?_ ?_) _) fun _ =>
    stopsBehind_map (stopsBehind_require (stopsBehind_skip leavesSuffix_gap fun _ =>
      stopsBehind_map (stopsBehind_satisfy hcolon)) _)
  · exact leavesSuffix_bind (leavesSuffix_keyword _) fun _ => leavesSuffix_bind leavesSuffix_gap
      fun _ => leavesSuffix_map (leavesSuffix_expr fuel)
  · exact leavesSuffix_map (leavesSuffix_keyword _)

theorem stopsBehind_leaf (fuel : Nat) : (leaf fuel).StopsBehind := by
  have hjump : ∀ (word : String) (l : Leaf),
      (do keyword word; semicolon; return l : Reader Leaf).StopsBehind :=
    fun word l => stopsBehind_skip (leavesSuffix_keyword word) fun _ =>
      stopsBehind_map stopsBehind_semicolon
  refine stopsBehind_orElse ?_ (stopsBehind_orElse ?_ (stopsBehind_orElse (hjump _ _)
    (hjump _ _)))
  · exact stopsBehind_skip (leavesSuffix_keyword _) fun _ => stopsBehind_skip
      (leavesSuffix_commit (leavesSuffix_items (leavesSuffix_expr fuel) fuel)) fun _ =>
        stopsBehind_map stopsBehind_semicolon
  · exact stopsBehind_skip (leavesSuffix_keyword _) fun _ => stopsBehind_skip
      (leavesSuffix_optional (leavesSuffix_bind leavesSuffix_gap fun _ => leavesSuffix_expr fuel))
        fun _ => stopsBehind_map stopsBehind_semicolon

theorem stopsBehind_plain (fuel : Nat) : (plain fuel).StopsBehind :=
  stopsBehind_orElse (stopsBehind_map (stopsBehind_char rfl))
    (stopsBehind_skip (leavesSuffix_expr fuel) fun _ => stopsBehind_map stopsBehind_semicolon)

/-- A brace that stands next is the first character. -/
theorem eq_cons_of_braceAhead (h : braceAhead s = true) : ∃ t, s = '\x7d' :: t := by
  cases s with
  | nil => cases h
  | cons c t => exact ⟨t, by rw [beq_iff_eq.mp h]⟩

variable (hbehind : ∀ k, (nested k).StopsBehind) (hsuffix : ∀ k, (nested k).LeavesSuffix)
  (fuel : Nat)

include hsuffix in
theorem stopsBehind_braced : (braced fuel nested).StopsBehind :=
  stopsBehind_skip (leavesSuffix_char _) fun _ =>
    stopsBehind_skip (leavesSuffix_statements hsuffix _ fuel) fun _ =>
      stopsBehind_map (stopsBehind_require (stopsBehind_char rfl) _)

include hsuffix in
/-- The cases of a switch stop right behind its closing brace. -/
theorem stopsBehind_cases (n : Nat) : (cases fuel nested n).StopsBehind := by
  induction n with
  | zero => nofun
  | succ n ih =>
    intro s cs r h
    refine Behind.of_suffix ?_ (gapFrom_suffix 0 s)
    rw [cases] at h
    split at h
    · next hbrace =>
      cases h
      obtain ⟨t, ht⟩ := eq_cons_of_braceAhead hbrace
      exact ⟨[], '\x7d', by rw [ht]; rfl, rfl⟩
    · exact stopsBehind_skip (leavesSuffix_label fuel) (fun _ => stopsBehind_skip
        (leavesSuffix_statements hsuffix .label fuel) fun _ => stopsBehind_map ih) h

include hbehind hsuffix

theorem stopsBehind_body : (body fuel nested).StopsBehind := by
  refine stopsBehind_skip leavesSuffix_gap fun _ => ?_
  intro s stmts r h
  dsimp only at h
  split at h
  · exact stopsBehind_braced hsuffix fuel h
  · exact stopsBehind_map (hbehind []) h

/-- The clauses of a conditional stop right behind a token too, but there may be none: the
comments before what is no clause are given back. -/
theorem behind_of_clauses {n : Nat} {c : List (Clause Stmt) × Option (Otherwise Stmt)}
    (h : clauses fuel nested n s = .ok c r) : r = s ∨ Behind s r := by
  have hbody := stopsBehind_commit (stopsBehind_body hbehind hsuffix fuel)
  induction n generalizing s c with
  | zero => cases h
  | succ n ih =>
    have hgap := gapFrom_suffix 0 s
    have helseif := leavesSuffix_keyword "elseif" (gapFrom 0 s).2
    rw [clauses] at h
    dsimp only at h
    cases hword : keyword "elseif" (gapFrom 0 s).2 with
    | ok a t =>
      rw [hword] at h helseif
      obtain ⟨cond, u, hcond, h⟩ := exists_of_bind_eq_ok h
      obtain ⟨stmts, v, hstmts, h⟩ := exists_of_bind_eq_ok h
      obtain ⟨others, w, hothers, h⟩ := exists_of_bind_eq_ok h
      cases h
      have hfront : u <:+ s :=
        ((leavesSuffix_condition fuel).of_ok hcond).trans (helseif.trans hgap)
      rcases ih hothers with rfl | hmore
      · exact Or.inr ((hbody hstmts).of_suffix hfront)
      · exact Or.inr (((hbody hstmts).trans hmore).of_suffix hfront)
    | miss t | halt e t =>
      rw [hword] at h helseif
      have helse := leavesSuffix_keyword "else" t
      dsimp only at h
      split at h
      · next u hu =>
        obtain ⟨stmts, v, hstmts, h⟩ := exists_of_bind_eq_ok h
        cases h
        rw [hu] at helse
        exact Or.inr ((hbody hstmts).of_suffix (helse.trans (helseif.trans hgap)))
      all_goals
        cases h
        exact Or.inl rfl

theorem stopsBehind_conditional (k : List Comment) :
    (conditional fuel nested k).StopsBehind := by
  intro s v r h
  obtain ⟨_, t, hword, h⟩ := exists_of_bind_eq_ok h
  obtain ⟨cond, u, hcond, h⟩ := exists_of_bind_eq_ok h
  obtain ⟨stmts, w, hstmts, h⟩ := exists_of_bind_eq_ok h
  obtain ⟨⟨es, o⟩, x, hclauses, h⟩ := exists_of_bind_eq_ok h
  cases h
  have hbody : Behind u w := stopsBehind_commit (stopsBehind_body hbehind hsuffix fuel) hstmts
  have hfront : u <:+ s :=
    ((leavesSuffix_condition fuel).of_ok hcond).trans ((leavesSuffix_keyword _).of_ok hword)
  rcases behind_of_clauses hbehind hsuffix fuel hclauses with rfl | hmore
  · exact hbody.of_suffix hfront
  · exact (hbody.trans hmore).of_suffix hfront

/-- Statements of every kind stop right behind their last token. -/
theorem stopsBehind_kind (k : List Comment) : (kind fuel nested k).StopsBehind := by
  refine stopsBehind_orElse (stopsBehind_conditional hbehind hsuffix fuel k) (stopsBehind_orElse ?_
    (stopsBehind_orElse ?_ (stopsBehind_orElse (stopsBehind_map (stopsBehind_leaf fuel))
      (stopsBehind_orElse (stopsBehind_map (stopsBehind_braced hsuffix fuel))
        (stopsBehind_map (stopsBehind_plain fuel))))))
  · exact stopsBehind_skip (leavesSuffix_keyword _) fun _ =>
      stopsBehind_skip (leavesSuffix_condition fuel) fun _ =>
        stopsBehind_map (stopsBehind_commit (stopsBehind_body hbehind hsuffix fuel))
  · exact stopsBehind_skip (leavesSuffix_keyword _) fun _ =>
      stopsBehind_skip (leavesSuffix_condition fuel) fun _ =>
        stopsBehind_skip (leavesSuffix_require (leavesSuffix_bind leavesSuffix_gap fun _ =>
          leavesSuffix_char _) _) fun _ => stopsBehind_map (stopsBehind_cases hsuffix fuel fuel)

end Statements

/-- Statements stop right behind their last token, whatever comments lead them. -/
theorem stopsBehind_statement (n : Nat) : ∀ k, (statement n k).StopsBehind := by
  induction n with
  | zero => nofun
  | succ n ih => exact stopsBehind_kind ih (leavesSuffix_statement n) (n + 1)

/-! ### The cases of a switch -/

/-- A round of the loop over the cases of a switch: the comments up to the next token, which
is no closing brace, and the case behind them. -/
abbrev CaseRound (fuel : Nat) (nested : Led) : List Char → Case Stmt → List Char → Prop :=
  LedRound (braceAhead · = false) (caseOf fuel nested)

/-- Where the comments go that stand behind the last token of a case: the statements of its
body leave the first text, and the loop over the cases goes on with the second. -/
inductive HandsOver (fuel : Nat) (nested : Led) (c : Case Stmt) (stmts : List Stmt)
    (p : List Char) : List Char → Prop
  /-- The text ends with them, and the switch is not closed. -/
  | atEnd (ended : ahead p = []) (body : c.body = stmts ++ dangling (gapFrom 0 p).1) :
      HandsOver fuel nested c stmts p []
  /-- Before the closing brace they become the last statement of the body. -/
  | toBody (g : Gap) (t : List Char) (place : p = g.text ++ '\x7d' :: t)
      (body : c.body = stmts ++ dangling g.comments) :
      HandsOver fuel nested c stmts p ('\x7d' :: t)
  /-- Before a label they lead the next case. -/
  | toNext (g : Gap) (t : List Char) (place : p = g.text ++ t) (token : ¬ BeginsGap t)
      (label : labelAhead t = true) (body : c.body = stmts)
      (next : ∀ c' r, CaseRound fuel nested p c' r → c'.comments = g.comments) :
      HandsOver fuel nested c stmts p p

section Cases

variable {fuel : Nat} {nested : Led} {c : Case Stmt} {cs : List (Case Stmt)} {k : List Comment}

/-- What stands before the next token is a gap. -/
theorem exists_gap_of_ahead (h : ahead s ≠ []) :
    ∃ g : Gap, s = g.text ++ ahead s ∧ gapFrom 0 s = (g.comments, ahead s) := by
  obtain ⟨g, r, rfl, hr | hr⟩ := exists_gap s
  · have hgap := g.isGap.gapFrom_append (atToken_iff.mpr hr)
    rw [ahead, hgap]
    exact ⟨g, rfl, rfl⟩
  · -- a comment that the text ends in leaves no token
    refine absurd ?_ h
    rw [ahead, g.isGap r, hr.gapFrom_eq]

/-- A list of statements stops behind the last of them: before a closing brace or the end of
the text with what becomes of the comments there, or before a label with nothing. -/
theorem exists_run_of_statements {stop : Stop} {n : Nat} {stmts : List Stmt}
    (h : statements nested stop n s = .ok stmts r) :
    ∃ vs p, Run (LedRound (Starts stop) nested) s vs p ∧
      (((ahead p).isEmpty || braceAhead (ahead p)) = true ∧
          stmts = vs ++ dangling (gapFrom 0 p).1 ∧ r = ahead p ∨
        labelAhead (ahead p) = true ∧ stmts = vs ∧ r = p) := by
  obtain ⟨vs, p, tail, hrun, -, hend, rfl⟩ :=
    (isLoop_statements nested stop).exists_run_of_ok (fun _ => rfl) h
  have hahead : (gapFrom 0 p).2 = ahead p := rfl
  refine ⟨vs, p, hrun, ?_⟩
  rw [statements] at hend
  simp only [hahead] at hend
  split at hend
  · next hclose =>
    cases hend
    exact Or.inl ⟨hclose, by simp, rfl⟩
  · split at hend
    · next hlabel =>
      cases hend
      exact Or.inr ⟨(Bool.and_eq_true_iff.mp hlabel).2, by simp, rfl⟩
    · -- a further statement would be another round
      split at hend
      · cases hend
      · cases hend
      · cases hend

/-- The loop over the cases comes to its end at a closing brace, behind the rounds that it
has made. -/
theorem cases_eq_ok_iff {m : Nat} : cases fuel nested m s = .ok cs t ↔
    ∃ r k, Run (CaseRound fuel nested) s cs r ∧ gapFrom 0 r = (k, '\x7d' :: t) ∧
      cs.length < m := by
  have hloop := isLoop_cases fuel nested
  constructor
  · intro h
    obtain ⟨vs, r, tail, hrun, hlength, hend, rfl⟩ := hloop.exists_run_of_ok (fun _ => rfl) h
    rw [cases] at hend
    split at hend
    · next hbrace =>
      cases hend
      obtain ⟨u, hu⟩ := eq_cons_of_braceAhead hbrace
      rw [List.foldr_cons_nil, hu, List.tail_cons]
      exact ⟨r, (gapFrom 0 r).1, hrun, Prod.ext rfl hu, hlength⟩
    · obtain ⟨key, u, -, hend⟩ := exists_of_bind_eq_ok hend
      obtain ⟨stmts, v, -, hend⟩ := exists_of_bind_eq_ok hend
      obtain ⟨others, w, hothers, -⟩ := exists_of_bind_eq_ok hend
      cases hothers
  · rintro ⟨r, k, hrun, hgap, hlength⟩
    obtain ⟨m, rfl⟩ : ∃ n, m = n + 1 + cs.length := ⟨m - cs.length - 1, by omega⟩
    have hbrace : braceAhead ('\x7d' :: t) = true := rfl
    rw [hloop.eq_of_run hrun, cases, hgap, if_pos hbrace, Reply.map, List.foldr_cons_nil,
      List.tail_cons]

/-- A case is a label, the statements behind it and what becomes of the comments behind
those. -/
theorem exists_of_caseRound (h : CaseRound fuel nested s c r) :
    ∃ u stmts p, label fuel (ahead s) = .ok c.key u ∧
      Run (LedRound (Starts .label) nested) u stmts p ∧
      (((ahead p).isEmpty || braceAhead (ahead p)) = true ∧
          c.body = stmts ++ dangling (gapFrom 0 p).1 ∧ r = ahead p ∨
        labelAhead (ahead p) = true ∧ c.body = stmts ∧ r = p) := by
  obtain ⟨key, u, hlabel, hread⟩ := exists_of_bind_eq_ok h.read
  obtain ⟨body, v, hbody, hread⟩ := exists_of_bind_eq_ok hread
  cases hread
  obtain ⟨stmts, p, hrun, hend⟩ := exists_run_of_statements hbody
  exact ⟨u, stmts, p, hlabel, hrun, hend⟩

/-- The comments that a case is led by are those before its label. -/
theorem comments_of_caseRound (h : CaseRound fuel nested s c r) : c.comments = (gapFrom 0 s).1 := by
  obtain ⟨key, u, -, hread⟩ := exists_of_bind_eq_ok h.read
  obtain ⟨body, v, -, hread⟩ := exists_of_bind_eq_ok hread
  cases hread
  rfl

/-- No label begins with a closing brace. -/
theorem labelAhead_brace (t : List Char) : labelAhead ('\x7d' :: t) = false := rfl

/-- Where the loop over the cases comes to a closing brace with comments, it has made no
round: behind a case that the brace follows nothing is left of the gap, and behind any other
a label follows. -/
theorem eq_nil_of_brace (h : Run (CaseRound fuel nested) s cs r)
    (hgap : gapFrom 0 r = (k, '\x7d' :: t)) (hk : k ≠ []) : cs = [] := by
  rcases List.eq_nil_or_concat cs with rfl | ⟨before, c, rfl⟩
  · rfl
  · rw [List.concat_eq_append] at h
    obtain ⟨q, -, hlast⟩ := h.exists_last
    obtain ⟨u, stmts, p, -, -, ⟨-, -, rfl⟩ | ⟨hlabel, -, rfl⟩⟩ := exists_of_caseRound hlast
    · have hat : AtToken (ahead p) := atToken_gapFrom 0 p
      rw [hat] at hgap
      exact absurd (Prod.mk.inj hgap).1.symm hk
    · rw [ahead, hgap, labelAhead_brace] at hlabel
      cases hlabel

/-- The comments behind the last token of a case are handed over. -/
theorem exists_handsOver (hbehind : ∀ k, (nested k).StopsBehind)
    (h : CaseRound fuel nested s c r) :
    ∃ u stmts p, label fuel (ahead s) = .ok c.key u ∧
      Run (LedRound (Starts .label) nested) u stmts p ∧ Behind (ahead s) p ∧
      HandsOver fuel nested c stmts p r := by
  obtain ⟨u, stmts, p, hlabel, hrun, hend⟩ := exists_of_caseRound h
  refine ⟨u, stmts, p, hlabel, hrun, ?_, ?_⟩
  · -- the last token is that of the last statement, or else that of the label
    have hfirst := stopsBehind_label fuel hlabel
    rcases hrun.behind fun _ _ _ => LedRound.behind hbehind with rfl | hmore
    · exact hfirst
    · exact hfirst.trans hmore
  · rcases hend with ⟨hclose, hbody, rfl⟩ | ⟨hahead, hbody, rfl⟩
    · cases hp : ahead p with
      | nil => exact .atEnd hp hbody
      | cons d t =>
        rw [hp] at hclose
        obtain rfl : d = '\x7d' := beq_iff_eq.mp hclose
        obtain ⟨g, hplace, hgap⟩ := exists_gap_of_ahead (s := p) (by rw [hp]; nofun)
        rw [hp] at hplace
        rw [hgap] at hbody
        exact .toBody g t hplace hbody
    · have hne : ahead r ≠ [] := by
        intro hnil
        rw [hnil] at hahead
        cases hahead
      obtain ⟨g, hplace, hgap⟩ := exists_gap_of_ahead hne
      refine .toNext g (ahead r) hplace (atToken_iff.mp (atToken_gapFrom 0 r)) hahead hbody ?_
      intro c' t hnext
      rw [comments_of_caseRound hnext, hgap]

end Cases

/-- **Only an empty switch drops comments at its closing brace.**  Behind the opening brace
of a switch, the loop over its cases makes its rounds up to a closing brace; if it holds any
comments when it comes there, it has collected no case.  And behind the last token of every
case that it has collected, which ends its last statement or else its label, the comments up
to the next token go to the next case, if that begins with a label, and otherwise to the end
of the body, as an empty statement. -/
theorem cases_keep_comments (fuel n : Nat) (s : List Char) :
    (∀ cs r m, Run (CaseRound fuel (statement n)) s cs r →
      cases fuel (statement n) (m + cs.length) s =
        (cases fuel (statement n) m r).map (cs ++ ·)) ∧
    (∀ m cs t, cases fuel (statement n) m s = .ok cs t ↔
      ∃ r k, Run (CaseRound fuel (statement n)) s cs r ∧ gapFrom 0 r = (k, '\x7d' :: t) ∧
        cs.length < m) ∧
    (∀ cs r k t, Run (CaseRound fuel (statement n)) s cs r →
      gapFrom 0 r = (k, '\x7d' :: t) → k ≠ [] → cs = []) ∧
    ∀ cs c r, Run (CaseRound fuel (statement n)) s (cs ++ [c]) r →
      ∃ q u stmts p, Run (CaseRound fuel (statement n)) s cs q ∧
        label fuel (ahead q) = .ok c.key u ∧
        Run (LedRound (Starts .label) (statement n)) u stmts p ∧ Behind (ahead q) p ∧
        HandsOver fuel (statement n) c stmts p r := by
  refine ⟨fun cs r m h => ?_, fun m cs t => cases_eq_ok_iff,
    fun cs r k t => eq_nil_of_brace, fun cs c r h => ?_⟩
  · have hloop := (isLoop_cases fuel (statement n)).eq_of_run h m
    simpa using hloop
  · obtain ⟨q, hrun, hlast⟩ := h.exists_last
    obtain ⟨u, stmts, p, hread⟩ := exists_handsOver (stopsBehind_statement n) hlast
    exact ⟨q, u, stmts, p, hrun, hread⟩

/-- One comment before a label and one before the brace stay in the cases; without a case
the comment before the brace is dropped. -/
theorem cases_keep_comments_two :
    let s := "case a:;/*x*/default:/*y*/\x7d".toList
    let first : Case Stmt := ⟨[], some (.name "a"), [.leaf [] .nop]⟩
    let last : Case Stmt := ⟨[⟨"/*x*/"⟩], none, [.leaf [⟨"/*y*/"⟩] .nop]⟩
    let empty := "/*z*/\x7d".toList
    (cases 3 (statement 2) 3 s = .ok [first, last] [] ∧
      ∃ r, Run (CaseRound 3 (statement 2)) s [first, last] r ∧ gapFrom 0 r = ([], ['\x7d']) ∧
        ∃ q u stmts p, Run (CaseRound 3 (statement 2)) s [first] q ∧
          label 3 (ahead q) = .ok none u ∧
          Run (LedRound (Starts .label) (statement 2)) u stmts p ∧ Behind (ahead q) p ∧
          HandsOver 3 (statement 2) last stmts p r) ∧
    gapFrom 0 empty = ([⟨"/*z*/"⟩], ['\x7d']) ∧ cases 3 (statement 2) 3 empty = .ok [] [] ∧
      ∀ cs, Run (CaseRound 3 (statement 2)) empty cs empty → cs = [] := by
  intro s first last empty
  have hread : cases 3 (statement 2) 3 s = .ok [first, last] [] := by decide +kernel
  have hempty : gapFrom 0 empty = ([⟨"/*z*/"⟩], ['\x7d']) := by decide +kernel
  obtain ⟨-, hend, hbrace, hover⟩ := cases_keep_comments 3 2 s
  obtain ⟨-, hend', hbrace', -⟩ := cases_keep_comments 3 2 empty
  obtain ⟨r, k, hrun, hgap, -⟩ := (hend 3 [first, last] []).mp hread
  have hk : k = [] := by
    by_contra hk
    cases hbrace _ r k [] hrun hgap hk
  refine ⟨⟨hread, r, hrun, hk ▸ hgap, hover [first] last r hrun⟩, hempty, ?_, ?_⟩
  · exact (hend' 3 [] []).mpr ⟨empty, _, .nil empty, hempty, Nat.succ_pos 2⟩
  · exact fun cs h => hbrace' cs empty _ [] h hempty (by nofun)

/-- The statement that a switch is read as has the cases that the loop behind its opening
brace has collected, as they are. -/
theorem exists_of_switch {fuel : Nat} {nested : Led} {k : List Comment} {stmt : Stmt}
    (h : switch fuel nested k s = .ok stmt t) : ∃ subject cs u, stmt = .switch k subject cs ∧
      '\x7b' :: u <:+ s ∧ cases fuel nested fuel u = .ok cs t := by
  obtain ⟨_, front, hword, h⟩ := exists_of_bind_eq_ok h
  obtain ⟨subject, behind, hsubject, h⟩ := exists_of_bind_eq_ok h
  obtain ⟨_, u, hbrace, h⟩ := exists_of_bind_eq_ok h
  obtain ⟨cs, r, hcases, h⟩ := exists_of_bind_eq_ok h
  cases h
  obtain ⟨_, opening, hgap, hopening⟩ := exists_of_bind_eq_ok (eq_ok_of_require hbrace)
  obtain rfl := eq_cons_of_char hopening
  refine ⟨subject, cs, u, rfl, ?_, hcases⟩
  exact (leavesSuffix_gap.of_ok hgap).trans
    (((leavesSuffix_condition fuel).of_ok hsubject).trans ((leavesSuffix_keyword _).of_ok hword))

/-- **A switch has the cases that its loop has collected, and each has the comments that were
handed over to it.**  The loop behind the opening brace has made one round for each case of
the statement.  Only where there is none did it hold comments at the closing brace, and those
behind the last token of any case were handed over. -/
theorem switch_hands_over {fuel n : Nat} {k : List Comment} {stmt : Stmt}
    (h : switch fuel (statement n) k s = .ok stmt t) :
    ∃ subject cs u r held, stmt = .switch k subject cs ∧ '\x7b' :: u <:+ s ∧
      Run (CaseRound fuel (statement n)) u cs r ∧ gapFrom 0 r = (held, '\x7d' :: t) ∧
      (held ≠ [] → cs = []) ∧
      ∀ before c after, cs = before ++ c :: after → ∃ q p stmts v,
        Run (CaseRound fuel (statement n)) u before q ∧ Behind (ahead q) p ∧
        HandsOver fuel (statement n) c stmts p v ∧
        Run (CaseRound fuel (statement n)) v after r := by
  obtain ⟨subject, cs, u, rfl, hopening, hcases⟩ := exists_of_switch h
  obtain ⟨r, held, hrun, hgap, -⟩ := cases_eq_ok_iff.mp hcases
  refine ⟨subject, cs, u, r, held, rfl, hopening, hrun, hgap, eq_nil_of_brace hrun hgap, ?_⟩
  rintro before c after rfl
  obtain ⟨q, hbefore, hrest⟩ := hrun.exists_append
  cases hrest with
  | cons round rounds =>
    obtain ⟨v, stmts, p, -, -, hlast, hover⟩ := exists_handsOver (stopsBehind_statement n) round
    exact ⟨q, p, stmts, _, hbefore, hlast, hover, rounds⟩

end Reader

end Casework
