import Casework.Proofs.Statement

/-!
# Programs read back

The text of a program reads back as the program with its comments settled.  The
reader of a list carries a gap with pending comments from one statement to the
next; each statement that is not empty takes the comments up, and what is pending
at the end of a list is left over to what stands behind it.

## Main definitions

* `Stmt.isOpen` — a clause behind the statement would belong to it.
* `Stmt.Rereads` — what is shown of each list of statements.
* `Program.printable` — the program has a text that stands for it.

## Main results

* `Stmt.rereads_of_every` — lists of statements read back, comments settled.
* `Program.parse_text_eq_settle` — **the text of a program reads back as the
  program with its comments settled**.
* `Program.parse_text_of_printable` — **the text of a printable program reads back as the
  program**.
-/

namespace Casework

open Reader

/-! ### How printed statements begin -/

theorem fits_of_misses {α : Type} {p : Reader α} {s : List Char} (h : p.Misses s) :
    p.fits s = false := by
  obtain ⟨r, h⟩ := h
  rw [Reader.fits, h]

theorem labelAhead_of_leadWord {s : List Char} (hcase : leadWord s ≠ "case".toList)
    (hdefault : leadWord s ≠ "default".toList) : labelAhead s = false := by
  rw [labelAhead, fits_of_misses (keyword_misses (by decide) hcase),
    fits_of_misses (keyword_misses (by decide) hdefault)]
  rfl

theorem braceAhead_of_head? {s : List Char} (h : s.head? ≠ some '\x7d') :
    braceAhead s = false := by
  cases s with
  | nil => rfl
  | cons c s =>
    rw [braceAhead, beq_eq_false_iff_ne]
    rintro rfl
    exact h rfl

/-- A statement begins here that is no label and no clause, and no opening tag. -/
structure Opens (s : List Char) : Prop where
  starts : ∀ stop, Starts stop s
  noClause : leadWord s ∉ clauseWords
  noTag : s.head? ≠ some '<'

theorem opens_of_leadWord {s : List Char} (hs : AtToken s) (hne : s ≠ [])
    (hbrace : braceAhead s = false) (htag : s.head? ≠ some '<') (hcase : leadWord s ≠ "case".toList)
    (hdefault : leadWord s ≠ "default".toList) (hclause : leadWord s ∉ clauseWords) : Opens s where
  starts := fun _ => ⟨hs, hne, hbrace, fun _ => labelAhead_of_leadWord hcase hdefault⟩
  noClause := hclause
  noTag := htag

theorem ne_of_isLed {t : List Char} {word : String} (h : isLed t = false)
    (hword : word.toList ∈ reservedWords) : leadWord t ≠ word.toList := by
  intro heq
  rw [isLed, heq, List.contains_iff_mem.mpr hword] at h
  cases h

theorem not_mem_clauseWords_of_isLed {t : List Char} (h : isLed t = false) :
    leadWord t ∉ clauseWords := by
  have hprefix : "elseif".toList.isPrefixOf (leadWord t) = false := by
    rw [isLed, Bool.or_eq_false_iff] at h
    exact h.2
  simp only [clauseWords, List.mem_cons, List.not_mem_nil, or_false]
  rintro (hlead | hlead | hlead)
  · rw [hlead] at hprefix
    cases hprefix
  · exact ne_of_isLed h (by decide) hlead
  · rw [hlead] at hprefix
    cases hprefix

/-- A word that begins no label and no clause begins a statement. -/
theorem opens_word {word : String} {c : Char}
    (hword : word ∈ ["if", "while", "switch", "echo", "return", "break", "continue"])
    (hc : isWordChar c = false) (s : List Char) : Opens (word.toList ++ c :: s) := by
  have hlead : leadWord (word.toList ++ c :: s) = leadWord word.toList :=
    leadWord_append_of_not hc _ _
  simp only [List.mem_cons, List.not_mem_nil, or_false] at hword
  rcases hword with rfl | rfl | rfl | rfl | rfl | rfl | rfl <;>
    exact opens_of_leadWord (atToken_cons (by decide) _) nofun rfl nofun (by rw [hlead]; decide)
      (by rw [hlead]; decide) (by rw [hlead]; decide)

/-- An expression begins a statement, unless a label may stand there and its word does. -/
theorem starts_expr {q : Nat} {e : Expr} {t : List Char} (h : Written q e t) {stop : Stop}
    {r : List Char} (hlabel : stop = .label → labelAhead (t ++ ';' :: r) = false) :
    Starts stop (t ++ ';' :: r) where
  atToken := h.atToken _
  ne_nil := by simp
  noBrace := braceAhead_of_head? (h.head?_append_ne (by decide) _)
  noLabel := hlabel

theorem opens_expr {e : Expr} (he : e.lexical = true) (hled : isLed e.text = false)
    (r : List Char) : Opens (e.text ++ ';' :: r) := by
  have hlead : leadWord (e.text ++ ';' :: r) = leadWord e.text :=
    leadWord_append_of_not (by decide) _ _
  have hwritten := e.written_text he
  refine ⟨fun stop => starts_expr hwritten fun _ => ?_, ?_, hwritten.head?_append_ne (by decide) _⟩
  · apply labelAhead_of_leadWord
    · rw [hlead]
      exact ne_of_isLed hled (by decide)
    · rw [hlead]
      exact ne_of_isLed hled (by decide)
  · rw [hlead]
    exact not_mem_clauseWords_of_isLed hled

namespace Stmt

theorem isCode_of_every {accepts : Literal → Bool} {s : Stmt} (hs : s.isNop = false)
    (h : s.every (.validBy accepts) = true) : s.isCode = true := by
  cases s with
  | leaf k l =>
    rw [every, Bool.and_eq_true] at h
    cases l with
    | expr e =>
      cases e with
      | «match» _ _ => cases h.2
      | _ => rfl
    | nop => cases hs
    | _ => rfl
  | _ => rfl

end Stmt

/-- Printed statements that are no expressions begin with words of their own or with a
brace. -/
theorem opens_code_of_ne {s : Stmt} (level : Nat) (hs : s.isNop = false)
    (hne : ∀ k e, s ≠ .leaf k (.expr e)) (r : List Char) : Opens (s.code level ++ r) := by
  cases s with
  | leaf k l =>
    rw [Stmt.code]
    cases l with
    | echo operands =>
      rw [Leaf.code_echo, List.append_assoc]
      exact opens_word (by decide) (by decide) _
    | expr e => exact absurd rfl (hne k e)
    | «return» value =>
      cases value with
      | none =>
        rw [Leaf.code_return_none, List.append_assoc]
        exact opens_word (by decide) (by decide) _
      | some e =>
        rw [Leaf.code_return_some, List.append_assoc]
        exact opens_word (by decide) (by decide) _
    | «break» =>
      rw [Leaf.code_break, List.append_assoc]
      exact opens_word (by decide) (by decide) _
    | «continue» =>
      rw [Leaf.code_continue, List.append_assoc]
      exact opens_word (by decide) (by decide) _
    | nop => cases hs
  | block k body =>
    apply opens_of_leadWord (atToken_cons (by decide) _)
    · intro h
      cases h
    · rfl
    · intro h
      cases h
    · intro h
      cases h
    · intro h
      cases h
    · show [] ∉ clauseWords
      decide
  | «while» k cond body =>
    rw [Stmt.code, headText, List.append_assoc, List.append_assoc]
    exact opens_word (by decide) (by decide) _
  | conditional k cond body elseifs otherwise =>
    rw [Stmt.code, headText, List.append_assoc, List.append_assoc]
    exact opens_word (by decide) (by decide) _
  | switch k subject cases =>
    rw [Stmt.code, headText, List.append_assoc, List.append_assoc]
    exact opens_word (by decide) (by decide) _

/-- A printed statement opens one. -/
theorem opens_code {s : Stmt} (level : Nat) (hs : s.isNop = false)
    (hlex : s.every .lexical = true) (hunled : s.every .unled = true) (r : List Char) :
    Opens (s.code level ++ r) := by
  by_cases hne : ∃ k e, s = .leaf k (.expr e)
  · obtain ⟨k, e, rfl⟩ := hne
    rw [Stmt.every, Bool.and_eq_true] at hlex hunled
    rw [Stmt.code, Leaf.code_expr, List.append_assoc]
    exact opens_expr hlex.2 (Bool.not_eq_true' _ |>.mp hunled.2) r
  · exact opens_code_of_ne level hs (fun k e heq => hne ⟨k, e, heq⟩) r

namespace Stmt

variable {level m : Nat} {g r : List Char} {k : List Comment} {s : Stmt} {ss : List Stmt}

/-- The first statement of a list stands behind a gap. -/
theorem render_listLines_cons (hs : s.isCode = true) :
    g ++ (render (listLines level (s :: ss)) ++ r) =
      g ++ (render (commentLines level s.comments) ++ indent level) ++
        (s.code level ++ (['\n'] ++ (render (listLines level ss) ++ r))) := by
  simp [listLines, render_lines level hs]

/-- An empty statement only lengthens the gap before the next one. -/
theorem render_listLines_nop (hs : s.isNop = true) :
    g ++ (render (listLines level (s :: ss)) ++ r) =
      g ++ render (commentLines level s.comments) ++ (render (listLines level ss) ++ r) := by
  simp [listLines, render_lines_nop level hs]

theorem length_listLines_cons (level : Nat) (ss : List Stmt) (hs : s.isCode = true) :
    (s.code level).length + 1 + (render (listLines level ss)).length ≤
      (render (listLines level (s :: ss))).length := by
  rw [listLines, render_append, List.length_append, render_lines level hs]
  simp only [List.length_append, List.length_cons, List.length_nil]
  omega

theorem isGap_comments {accepts : Literal → Bool} (level : Nat) (hg : IsGap g k)
    (hs : s.every (.validBy accepts) = true) :
    IsGap (g ++ render (commentLines level s.comments)) (k ++ s.comments) :=
  hg.append (isGap_commentLines level (List.all_eq_true.mp (comments_of_every hs)))

theorem isGap_lead {accepts : Literal → Bool} (level : Nat) (hg : IsGap g k)
    (hs : s.every (.validBy accepts) = true) :
    IsGap (g ++ (render (commentLines level s.comments) ++ indent level)) (k ++ s.comments) := by
  have hgap := (isGap_comments level hg hs).append (isGap_indent level)
  rwa [List.append_nil, List.append_assoc] at hgap

/-- What holds where each statement of a list begins and behind the list holds where
the first token of the list stands. -/
theorem ahead_listLines {accepts : Literal → Bool} {p : List Char → Prop} (level : Nat)
    (hr : p (ahead r)) (ss : List Stmt) (hlex : everyList (.validBy accepts) ss = true)
    (hcode : ∀ s ∈ ss, s.isNop = false → ∀ t, AtToken (s.code level ++ t) ∧ p (s.code level ++ t)) :
    ∀ {g : List Char} {k : List Comment}, IsGap g k →
      p (ahead (g ++ (render (listLines level ss) ++ r))) := by
  induction ss with
  | nil =>
    intro g k hg
    rw [hg.ahead_append]
    exact hr
  | cons s ss ih =>
    intro g k hg
    rw [everyList, Bool.and_eq_true] at hlex
    rcases Bool.eq_false_or_eq_true s.isNop with hs | hs
    · rw [render_listLines_nop hs]
      exact ih hlex.2 (fun s hs => hcode s (List.mem_cons_of_mem _ hs))
        (isGap_comments level hg hlex.1)
    · obtain ⟨hat, hp⟩ := hcode s List.mem_cons_self hs _
      rw [render_listLines_cons (isCode_of_every hs hlex.1),
        (isGap_lead level hg hlex.1).ahead_append, ahead_of_atToken hat]
      exact hp

theorem opens_of_mem (level : Nat) (hlex : everyList .lexical ss = true)
    (hunled : everyList .unled ss = true) (hmem : s ∈ ss) (hs : s.isNop = false) (t : List Char) :
    Opens (s.code level ++ t) :=
  opens_code level hs (every_of_mem hlex hmem) (every_of_mem hunled hmem) t

/-- No clause begins where the text of a list of statements stands. -/
theorem noClause_listLines (level : Nat) (hr : NoClause r) (hlex : everyList .lexical ss = true)
    (hunled : everyList .unled ss = true) (hg : IsGap g k) :
    NoClause (g ++ (render (listLines level ss) ++ r)) := by
  refine ahead_listLines (p := fun s => leadWord s ∉ clauseWords) level hr ss hlex
    (fun s hmem hs t => ?_) hg
  have hopens := opens_of_mem level hlex hunled hmem hs t
  exact ⟨(hopens.starts .brace).atToken, hopens.noClause⟩

/-! ### Lists and bodies -/

/-- The text of the list reads back as the statements with their comments settled,
and the reader goes on behind it with what is left over before it. -/
def Rereads (ss : List Stmt) : Prop :=
  ∀ (level m : Nat) (stop : Stop) {g r : List Char} {k : List Comment}, IsGap g k → NoClause r →
    (render (listLines level ss)).length ≤ m →
    ∃ h j, IsGap h (settleFrom k ss).2 ∧ j ≤ (render (listLines level ss)).length ∧
      ∀ n, statements (statement m) stop (n + j) (g ++ (render (listLines level ss) ++ r)) =
        (statements (statement m) stop n (h ++ r)).map ((settleFrom k ss).1 ++ ·)

/-- A clause behind the statement would belong to it: it is a conditional without an `else`
clause. -/
def isOpen : Stmt → Bool
  | conditional _ _ _ _ otherwise => otherwise.isNone
  | _ => false

/-- The text of the statement reads back as the statement with its comments settled. -/
def RereadsAlone (s : Stmt) : Prop :=
  ∀ (level m : Nat) (k : List Comment) {r : List Char}, (s.isOpen = true → NoClause r) →
    (s.code level).length ≤ m → statement m k (s.code level ++ r) = .ok (s.settle k) r

/-- The text behind the first branch of a conditional reads back as its clauses. -/
def RereadsClauses (es : List (Clause Stmt)) (o : Option (Otherwise Stmt)) : Prop :=
  ∀ (level m n : Nat) {r : List Char}, (o.isNone = true → NoClause r) →
    (clausesCode level es o).length ≤ m → (clausesCode level es o).length < n →
    clauses (m + 1) (statement m) n (clausesCode level es o ++ r) =
      .ok (settleClauses es, settleOtherwise o) r

/-- The text of the cases of a switch reads back up to the closing brace, and the
comments before it lead the first of them. -/
def RereadsCases (cs : List (Case Stmt)) : Prop :=
  ∀ (level m n : Nat) {g h : List Char} {k : List Comment}, IsGap g k → IsGap h [] →
    (render (caseLines level cs)).length ≤ m → (render (caseLines level cs)).length < n →
    ∀ r, cases (m + 1) (statement m) n
      (g ++ (render (caseLines level cs) ++ (h ++ '\x7d' :: r))) = .ok (settleCases k cs) r

theorem rereads_nil : Rereads [] := by
  intro level m stop g r k hg hr hm
  refine ⟨g, 0, hg, Nat.zero_le _, fun n => ?_⟩
  show statements (statement m) stop n (g ++ r) = _
  cases statements (statement m) stop n (g ++ r) <;> rfl

/-- An empty statement leaves its comments to what follows. -/
theorem Rereads.cons_nop (h : Rereads ss) (hs : s.isNop = true) (hlex : s.every .lexical = true) :
    Rereads (s :: ss) := by
  intro level m stop g r k hg hr hm
  have hlen : (render (listLines level (s :: ss))).length =
      (render (commentLines level s.comments)).length + (render (listLines level ss)).length := by
    rw [listLines, render_append, List.length_append, render_lines_nop level hs]
  obtain ⟨h', j, hgap, hj, hread⟩ :=
    h level m stop (isGap_comments level hg hlex) hr (by omega)
  rw [settleFrom, if_pos hs]
  refine ⟨h', j, hgap, by omega, fun n => ?_⟩
  rw [render_listLines_nop hs, hread n]

/-- Any other statement takes up the comments before it. -/
theorem Rereads.cons (h : Rereads ss) (halone : RereadsAlone s) (hs : s.isNop = false)
    (hlex : everyList .lexical (s :: ss) = true) (hunled : everyList .unled (s :: ss) = true) :
    Rereads (s :: ss) := by
  intro level m stop g r k hg hr hm
  rw [everyList, Bool.and_eq_true] at hlex hunled
  have hcode := isCode_of_every hs hlex.1
  have hlen := length_listLines_cons level ss hcode
  have hline : IsGap ['\n'] [] := isGap_layout rfl
  obtain ⟨h', j, hgap, hj, hread⟩ := h level m stop hline hr (by omega)
  have hrest := noClause_listLines level hr hlex.2 hunled.2 hline
  have hstmt := halone level m (k ++ s.comments) (fun _ => hrest) (by omega)
  have hopens := opens_code level hs hlex.1 hunled.1 (['\n'] ++ (render (listLines level ss) ++ r))
  rw [settleFrom, if_neg (by simp [hs])]
  refine ⟨h', j + 1, hgap, by omega, fun n => ?_⟩
  rw [render_listLines_cons hcode, ← Nat.add_assoc,
    statements_step (isGap_lead level hg hlex.1) (hopens.starts stop) hstmt, hread n]
  cases statements (statement m) stop n (h' ++ r) <;> rfl

theorem noClause_brace {g : List Char} {k : List Comment} (hg : IsGap g k) (s : List Char) :
    NoClause (g ++ '\x7d' :: s) := by
  rw [NoClause, hg.ahead_append, ahead_of_atToken (atToken_cons (by decide) s),
    leadWord_cons_of_not (by decide)]
  decide

theorem noClause_nil : NoClause [] := show [] ∉ clauseWords by decide

/-- A list before a closing brace becomes complete there. -/
theorem Rereads.close {body : List Stmt} (h : Rereads body) {g g' : List Char}
    {k : List Comment} (hg : IsGap g k) (hg' : IsGap g' []) {f : Nat} (stop : Stop)
    {s : List Char} (hs : s = [] ∨ ∃ t, s = '\x7d' :: t)
    (hm : (render (listLines level body)).length ≤ m)
    (hf : (render (listLines level body)).length < f) :
    statements (statement m) stop f (g ++ (render (listLines level body) ++ (g' ++ s))) =
      .ok (withDangling (settleFrom k body)) s := by
  have hr : NoClause (g' ++ s) := by
    rcases hs with rfl | ⟨t, rfl⟩
    · rw [NoClause, hg'.ahead_append]
      exact noClause_nil
    · exact noClause_brace hg' t
  obtain ⟨h', j, hgap, hj, hread⟩ := h level m stop hg hr hm
  obtain ⟨n, rfl⟩ : ∃ n, f = n + 1 + j := ⟨f - j - 1, by omega⟩
  have hgap' := hgap.append hg'
  rw [List.append_nil] at hgap'
  rw [hread (n + 1), ← List.append_assoc, statements_close hgap' hs]
  rfl

theorem length_bracedText (level : Nat) (lines : List Line) :
    (render lines).length + 2 < (bracedText level lines).length := by
  simp only [bracedText, List.length_cons, List.length_append, List.length_nil]
  omega

theorem leadWord_bracedText (level : Nat) (lines : List Line) (s : List Char) :
    leadWord (bracedText level lines ++ s) ∉ statementWords :=
  show [] ∉ statementWords by decide

theorem length_headText (word : String) (e : Expr) :
    e.text.length + 4 ≤ (headText word e).length := by
  simp only [headText, List.length_cons, List.length_append, List.length_nil]
  omega

/-- A body between braces reads back. -/
theorem Rereads.braced {body : List Stmt} (h : Rereads body) (level : Nat)
    (hm : (bracedText level (listLines (level + 1) body)).length ≤ m + 1) (r : List Char) :
    Reader.braced (m + 1) (statement m) (bracedText level (listLines (level + 1) body) ++ r) =
      .ok (withDangling (settleFrom [] body)) r := by
  have hlen := length_bracedText level (listLines (level + 1) body)
  have hm : (render (listLines (level + 1) body)).length ≤ m := by omega
  have hread := h.close (isGap_layout (c := '\n') rfl) (isGap_indent level) .brace
    (Or.inr ⟨r, rfl⟩) hm (Nat.lt_succ_of_le hm)
  have htext : bracedText level (listLines (level + 1) body) ++ r = '\x7b' :: (['\n'] ++
      (render (listLines (level + 1) body) ++ (indent level ++ '\x7d' :: r))) := by
    simp [bracedText]
  rw [htext]
  exact braced_ok hread

/-- A body behind a space reads back. -/
theorem Rereads.body {body : List Stmt} (h : Rereads body) (level : Nat)
    (hm : (bracedText level (listLines (level + 1) body)).length ≤ m + 1) (r : List Char) :
    Reader.body (m + 1) (statement m)
        (' ' :: (bracedText level (listLines (level + 1) body) ++ r)) =
      .ok (withDangling (settleFrom [] body)) r :=
  body_braced (isGap_layout (c := ' ') rfl) (h.braced level hm r)

/-! ### Labels -/

variable {key : Option Expr}

theorem label_labelText {accepts : Literal → Bool} {f : Literal → Expr}
    (hf : ∀ l, accepts l = true → Written 13 (f l) l.text)
    (hkey : key.all (Expr.validBy accepts) = true) (hm : (labelText key).length ≤ m)
    (s : List Char) : label (m + 1) (labelText key ++ s) = .ok (key.map (Expr.mapLit f)) s := by
  cases key with
  | none =>
    have htext : labelText none ++ s = "default".toList ++ ':' :: s := rfl
    rw [htext, label_default]
    rfl
  | some e =>
    have htext : labelText (some e) ++ s = "case".toList ++ ' ' :: (e.text ++ ':' :: s) := by
      show "case".toList ++ [' '] ++ e.text ++ [':'] ++ s = _
      simp
    have hlen : e.text.length < m + 1 := by
      have : (labelText (some e)).length = "case".toList.length + 1 + e.text.length + 1 := by
        show ("case".toList ++ [' '] ++ e.text ++ [':']).length = _
        simp only [List.length_append, List.length_cons, List.length_nil]
      omega
    rw [htext, label_case (e.written_mapLit hf hkey) hlen]
    rfl

theorem atToken_labelText (key : Option Expr) (s : List Char) : AtToken (labelText key ++ s) := by
  cases key with
  | none => exact atToken_cons (c := 'd') (by decide) _
  | some e => exact atToken_cons (c := 'c') (by decide) _

theorem braceAhead_labelText (key : Option Expr) (s : List Char) :
    braceAhead (labelText key ++ s) = false := by
  cases key <;> rfl

theorem labelAhead_labelText (key : Option Expr) (s : List Char) :
    labelAhead (labelText key ++ s) = true := by
  cases key <;> rfl

theorem noClause_labelText (key : Option Expr) (s : List Char) {g : List Char} {k : List Comment}
    (hg : IsGap g k) : NoClause (g ++ (labelText key ++ s)) := by
  rw [NoClause, hg.ahead_append, ahead_of_atToken (atToken_labelText key s)]
  cases key with
  | none =>
    have hlead : leadWord (labelText none ++ s) = "default".toList := rfl
    rw [hlead]
    decide
  | some e =>
    have hlead : leadWord (labelText (some e) ++ s) = "case".toList := rfl
    rw [hlead]
    decide

/-! ### Statements of every kind -/

theorem leadWord_headText (word : String) (hword : word.toList.all isWordChar = true)
    (hlower : word.toList.map Char.toLower = word.toList) (e : Expr) (s : List Char) :
    leadWord (headText word e ++ s) = word.toList := by
  rw [headText, List.append_assoc, leadWord_append (List.all_eq_true.mp hword) (by simp; decide),
    hlower]

/-- A leaf that begins with a word of its own is no control structure. -/
theorem leadWord_code_worded {l : Leaf} (hl : l.isWorded = true) (s : List Char) :
    leadWord (l.code ++ s) ∈ ["echo", "return", "break", "continue"].map String.toList := by
  cases l with
  | «return» value => cases value <;> exact List.mem_cons_of_mem _ List.mem_cons_self
  | expr e => cases hl
  | nop => cases hl
  | echo operands => exact List.mem_cons_self
  | «break» => exact List.mem_cons_of_mem _ (List.mem_cons_of_mem _ List.mem_cons_self)
  | «continue» =>
    exact List.mem_cons_of_mem _
      (List.mem_cons_of_mem _ (List.mem_cons_of_mem _ List.mem_cons_self))

/-- A leaf that begins with a word of its own reads back as a statement, with its
literals as they are read. -/
theorem kind_worded {accepts : Literal → Bool} {f : Literal → Expr}
    (hf : ∀ l, accepts l = true → Written 13 (f l) l.text) {l : Leaf}
    (hl : l.validBy accepts = true) (hworded : l.isWorded = true) (hm : l.code.length ≤ m)
    (nested : Led) (k : List Comment) (r : List Char) :
    kind m nested k (l.code ++ r) = .ok (.leaf k (l.mapLit f)) r := by
  have hlead := leadWord_code_worded hworded r
  have hread := leaf_ok hf hl hworded hm r
  rw [kind_of_leadWord (fun h => absurd (h ▸ hlead) (by decide))
    (fun h => absurd (h ▸ hlead) (by decide)) (fun h => absurd (h ▸ hlead) (by decide)),
    orElse_ok (bind_pure_ok hread)]

theorem length_code_pos {k : List Comment} {l : Leaf} (hs : (leaf k l).isNop = false) :
    0 < l.code.length := by
  cases l with
  | echo operands => simp [Leaf.code_echo]
  | expr e => simp [Leaf.code_expr]
  | «return» value => cases value <;> simp [Leaf.code_return_none, Leaf.code_return_some]
  | «break» => simp [Leaf.code_break]
  | «continue» => simp [Leaf.code_continue]
  | nop => cases hs

theorem rereadsAlone_leaf {k : List Comment} {l : Leaf} (hs : (leaf k l).isNop = false)
    (hlex : (leaf k l).every .lexical = true) (hunled : (leaf k l).every .unled = true) :
    RereadsAlone (leaf k l) := by
  intro level m k' r hr hm
  rw [every, Bool.and_eq_true] at hlex hunled
  have hl : l.validBy Literal.lexical = true := hlex.2
  have hne := length_code_pos hs
  rw [code] at hm
  obtain ⟨m, rfl⟩ := Nat.exists_eq_succ_of_ne_zero (n := m) (by omega)
  rw [statement_succ, code]
  rcases Bool.eq_false_or_eq_true l.isWorded with hworded | hworded
  · rw [kind_worded (f := .lit) (fun _ h => .lit h) hl hworded hm, Leaf.mapLit_lit]
    rfl
  · cases l with
    | expr e =>
      have hled : isLed e.text = false := Bool.not_eq_true' _ |>.mp hunled.2
      have hlead : leadWord (e.text ++ ';' :: r) = leadWord e.text :=
        leadWord_append_of_not (by decide) _ _
      have hword : leadWord (e.text ++ ';' :: r) ∉ statementWords := by
        rw [hlead]
        intro hmem
        rw [isLed, Bool.or_eq_false_iff] at hled
        refine absurd hled.1 ?_
        rw [Bool.not_eq_false, List.contains_iff_mem]
        have hsub : ∀ word ∈ statementWords, word ∈ reservedWords := by decide
        exact hsub _ hmem
      rw [Leaf.code_expr, List.length_append, List.length_singleton] at hm
      rw [Leaf.code_expr, List.append_assoc, List.singleton_append,
        kind_expr hword (e.written_text hl) (Nat.lt_of_succ_le hm)]
      rfl
    | nop => cases hs
    | _ => cases hworded

theorem rereadsAlone_block {body : List Stmt} (h : Rereads body) (k : List Comment) :
    RereadsAlone (block k body) := by
  intro level m k' r hr hm
  have hpos := length_bracedText level (listLines (level + 1) body)
  rw [code] at hm
  obtain ⟨m, rfl⟩ := Nat.exists_eq_succ_of_ne_zero (n := m) (by omega)
  have hread := h.braced level hm r
  rw [statement_succ, code, kind_of_not_word (leadWord_bracedText level _ r),
    orElse_ok (bind_pure_ok hread)]
  rfl

theorem rereadsAlone_while {cond : Expr} {body : List Stmt} (h : Rereads body)
    (hcond : cond.lexical = true) (k : List Comment) : RereadsAlone («while» k cond body) := by
  intro level m k' r hr hm
  have hhead := length_headText "while" cond
  rw [code, List.length_append] at hm
  obtain ⟨m, rfl⟩ := Nat.exists_eq_succ_of_ne_zero (n := m) (by omega)
  have hread := loop_ok (k := k') (cond.written_text hcond) (by omega)
    (h.body level (m := m) (by omega) r)
  have hlead := leadWord_headText "while" (by decide) (by decide) cond
  rw [statement_succ, code, List.append_assoc, kind,
    orElse_miss (conditional_misses (by rw [hlead]; decide)), orElse_ok hread]
  rfl

theorem rereadsAlone_conditional {cond : Expr} {body : List Stmt} {es : List (Clause Stmt)}
    {o : Option (Otherwise Stmt)} (h : Rereads body) (hclauses : RereadsClauses es o)
    (hcond : cond.lexical = true) (k : List Comment) :
    RereadsAlone (conditional k cond body es o) := by
  intro level m k' r hr hm
  have hhead := length_headText "if" cond
  rw [code, List.length_append, List.length_append] at hm
  obtain ⟨m, rfl⟩ := Nat.exists_eq_succ_of_ne_zero (n := m) (by omega)
  have hrest := hclauses level m (m + 1) hr (by omega) (by omega)
  have hread := conditional_ok (k := k') (cond.written_text hcond) (by omega)
    (h.body level (m := m) (by omega) (clausesCode level es o ++ r)) hrest
  rw [statement_succ, code, List.append_assoc, List.append_assoc, kind, orElse_ok hread]
  rfl

theorem rereadsAlone_switch {subject : Expr} {cs : List (Case Stmt)} (h : RereadsCases cs)
    (hsubject : subject.lexical = true) (k : List Comment) :
    RereadsAlone (switch k subject cs) := by
  intro level m k' r hr hm
  have hhead := length_headText "switch" subject
  have hlen := length_bracedText level (caseLines (level + 1) cs)
  rw [code, List.length_append] at hm
  obtain ⟨m, rfl⟩ := Nat.exists_eq_succ_of_ne_zero (n := m) (by omega)
  have hcases := h (level + 1) m (m + 1) (isGap_layout (c := '\n') rfl) (isGap_indent level)
    (by omega) (by omega) r
  have hread := switch_ok (k := k') (subject.written_text hsubject) (by omega) hcases
  have hlead := leadWord_headText "switch" (by decide) (by decide) subject
  have htext : bracedText level (caseLines (level + 1) cs) ++ r = '\x7b' :: (['\n'] ++
      (render (caseLines (level + 1) cs) ++ (indent level ++ '\x7d' :: r))) := by
    simp [bracedText]
  rw [statement_succ, code, List.append_assoc, htext, kind,
    orElse_miss (conditional_misses (by rw [hlead]; decide)),
    orElse_miss (loop_misses (by rw [hlead]; decide)), orElse_ok hread]
  rfl

/-! ### Clauses and cases -/

theorem rereadsClauses_nil {o : Option (Otherwise Stmt)} (hlex : everyOtherwise .lexical o = true)
    (h : ∀ otherwise ∈ o, Rereads otherwise.body) : RereadsClauses [] o := by
  intro level m n r hr hm hn
  obtain ⟨n, rfl⟩ := Nat.exists_eq_succ_of_ne_zero (Nat.ne_of_gt (Nat.zero_lt_of_lt hn))
  cases o with
  | none => exact clauses_none (hr rfl)
  | some otherwise =>
    obtain ⟨k, body⟩ := otherwise
    rw [everyOtherwise, Bool.and_eq_true] at hlex
    rw [clausesCode, List.length_append, List.length_append, List.length_cons] at hm
    have hbody : Rereads body := h _ rfl
    have hread := hbody.body level (m := m) (by omega) r
    rw [clausesCode, List.append_assoc, List.append_assoc]
    exact clauses_else (isGap_bridge level hlex.1) hread

theorem RereadsClauses.cons {k : List Comment} {cond : Expr} {body : List Stmt}
    {es : List (Clause Stmt)} {o : Option (Otherwise Stmt)} (h : RereadsClauses es o)
    (hbody : Rereads body) (hk : k.all Comment.wellFormed = true) (hcond : cond.lexical = true) :
    RereadsClauses (⟨k, cond, body⟩ :: es) o := by
  intro level m n r hr hm hn
  obtain ⟨n, rfl⟩ := Nat.exists_eq_succ_of_ne_zero (Nat.ne_of_gt (Nat.zero_lt_of_lt hn))
  have hhead := length_headText "elseif" cond
  simp only [clausesCode, List.length_append] at hm hn
  have hrest := h level m n hr (by omega) (by omega)
  have hread := hbody.body level (m := m) (by omega) (clausesCode level es o ++ r)
  simp only [clausesCode, List.append_assoc]
  exact clauses_elseif (isGap_bridge level hk) (cond.written_text hcond) (by omega) hread hrest

theorem rereadsCases_nil : RereadsCases [] := by
  intro level m n g h k hg hh hm hn r
  obtain ⟨n, rfl⟩ := Nat.exists_eq_succ_of_ne_zero (Nat.ne_of_gt (Nat.zero_lt_of_lt hn))
  have hgap := hg.append hh
  show cases (m + 1) (statement m) (n + 1) (g ++ (h ++ '\x7d' :: r)) = _
  rw [← List.append_assoc, cases_nil hgap]
  rfl

/-- A case stands behind a gap with its comments. -/
theorem render_caseLines_cons (level : Nat) (k : List Comment) (key : Option Expr)
    (body : List Stmt) (cs : List (Case Stmt)) (s : List Char) :
    render (caseLines level (⟨k, key, body⟩ :: cs)) ++ s =
      render (commentLines level k) ++ indent level ++ (labelText key ++ (['\n'] ++
        (render (listLines (level + 1) body) ++ (render (caseLines level cs) ++ s)))) := by
  simp [caseLines]

theorem isGap_caseComments (level : Nat) {k : List Comment}
    (hk : k.all Comment.wellFormed = true) :
    IsGap (render (commentLines level k) ++ indent level) k := by
  have hgap := (isGap_commentLines level (List.all_eq_true.mp hk)).append (isGap_indent level)
  rwa [List.append_nil] at hgap

/-- A body that another case follows leaves its last comments to that case. -/
theorem Rereads.beforeCase {body : List Stmt} (h : Rereads body) {k : List Comment}
    (hk : k.all Comment.wellFormed = true) (level : Nat) (key : Option Expr) (next : List Stmt)
    (cs : List (Case Stmt)) (hm : (render (listLines (level + 1) body)).length ≤ m)
    (s : List Char) :
    ∃ g, IsGap g (settleFrom [] body).2 ∧
      statements (statement m) .label (m + 1) (['\n'] ++ (render (listLines (level + 1) body) ++
        (render (caseLines level (⟨k, key, next⟩ :: cs)) ++ s))) =
      .ok (settleFrom [] body).1 (g ++ (render (caseLines level (⟨k, key, next⟩ :: cs)) ++ s)) := by
  have hgap := isGap_caseComments level hk
  have htext := render_caseLines_cons level k key next cs s
  have hrest : NoClause (render (caseLines level (⟨k, key, next⟩ :: cs)) ++ s) := by
    rw [htext]
    exact noClause_labelText key _ hgap
  obtain ⟨g, j, hg, hj, hread⟩ :=
    h (level + 1) m .label (isGap_layout (c := '\n') rfl) hrest hm
  obtain ⟨n, hn⟩ : ∃ n, m + 1 = n + 1 + j := ⟨m - j, by omega⟩
  have hlabel : statements (statement m) .label (n + 1)
      (g ++ (render (caseLines level (⟨k, key, next⟩ :: cs)) ++ s)) =
        .ok [] (g ++ (render (caseLines level (⟨k, key, next⟩ :: cs)) ++ s)) := by
    rw [htext, ← List.append_assoc]
    exact statements_label (hg.append hgap) (atToken_labelText key _) (labelAhead_labelText key _)
  refine ⟨g, hg, ?_⟩
  rw [hn, hread (n + 1), hlabel]
  show Reply.ok ((settleFrom [] body).1 ++ []) _ = _
  rw [List.append_nil]

theorem RereadsCases.cons {k : List Comment} {body : List Stmt} {cs : List (Case Stmt)}
    (h : RereadsCases cs) (hbody : Rereads body) (hk : k.all Comment.wellFormed = true)
    (hkey : key.all Expr.lexical = true) (hcs : everyCases .lexical cs = true) :
    RereadsCases (⟨k, key, body⟩ :: cs) := by
  intro level m n g g' k' hg hg' hm hn r
  obtain ⟨n, rfl⟩ := Nat.exists_eq_succ_of_ne_zero (Nat.ne_of_gt (Nat.zero_lt_of_lt hn))
  have hlen := congrArg List.length (render_caseLines_cons level k key body cs [])
  simp only [List.append_nil, List.length_append, List.length_singleton] at hlen
  rw [render_caseLines_cons, ← List.append_assoc]
  have hlabel : ∀ s, label (m + 1) (labelText key ++ s) = .ok key s := by
    intro s
    rw [label_labelText (f := .lit) (fun _ h => .lit h) hkey (by omega)]
    cases key with
    | none => rfl
    | some e =>
      show Reply.ok (some (e.mapLit .lit)) s = _
      rw [Expr.mapLit_lit]
  cases cs with
  | nil =>
    have hm : (render (listLines (level + 1) body)).length ≤ m := by omega
    have hread := hbody.close (isGap_layout (c := '\n') rfl) hg' .label (Or.inr ⟨r, rfl⟩) hm
      (Nat.lt_succ_of_le hm)
    have hend : cases (m + 1) (statement m) n ('\x7d' :: r) = .ok [] r := by
      obtain ⟨n, rfl⟩ := Nat.exists_eq_succ_of_ne_zero (n := n) (by omega)
      exact cases_nil isGap_nil r
    exact cases_cons (hg.append (isGap_caseComments level hk)) (atToken_labelText key _)
      (braceAhead_labelText key _) (hlabel _) hread hend
  | cons c cs =>
    obtain ⟨l, key', next⟩ := c
    simp only [everyCases, Bool.and_eq_true] at hcs
    obtain ⟨g₂, hg₂, hread⟩ := hbody.beforeCase (m := m) hcs.1.1.1 level key' next cs (by omega)
      (g' ++ '\x7d' :: r)
    have hrest := h level m n hg₂ hg' (by omega) (by omega) r
    exact cases_cons (hg.append (isGap_caseComments level hk)) (atToken_labelText key _)
      (braceAhead_labelText key _) (hlabel _) hread hrest

/-! ### All programs -/

mutual

/-- Every statement that is not empty reads back. -/
theorem rereadsAlone_of_every : ∀ s : Stmt, s.every .lexical = true → s.every .unled = true →
    s.isNop = false → RereadsAlone s
  | leaf k l, hlex, hunled, hs => rereadsAlone_leaf hs hlex hunled
  | block k body, hlex, hunled, _ => by
    rw [every, Bool.and_eq_true] at hlex hunled
    exact rereadsAlone_block (rereads_of_every body hlex.2 hunled.2) k
  | «while» k cond body, hlex, hunled, _ => by
    simp only [every, Bool.and_eq_true] at hlex hunled
    exact rereadsAlone_while (rereads_of_every body hlex.2 hunled.2) hlex.1.2 k
  | conditional k cond body elseifs otherwise, hlex, hunled, _ => by
    simp only [every, Bool.and_eq_true] at hlex hunled
    have hotherwise := rereads_of_everyOtherwise otherwise hlex.2 hunled.2
    have hclauses := rereadsClauses_of_every elseifs hlex.1.2 hunled.1.2 otherwise hlex.2 hotherwise
    exact rereadsAlone_conditional (rereads_of_every body hlex.1.1.2 hunled.1.1.2) hclauses
      hlex.1.1.1.2 k
  | switch k subject cases, hlex, hunled, _ => by
    simp only [every, Bool.and_eq_true] at hlex hunled
    exact rereadsAlone_switch (rereadsCases_of_every cases hlex.2 hunled.2) hlex.1.2 k

/-- Every list of statements reads back. -/
theorem rereads_of_every : ∀ ss : List Stmt, everyList .lexical ss = true →
    everyList .unled ss = true → Rereads ss
  | [], _, _ => rereads_nil
  | s :: ss, hlex, hunled => by
    have hlex' := hlex
    have hunled' := hunled
    rw [everyList, Bool.and_eq_true] at hlex' hunled'
    have hss := rereads_of_every ss hlex'.2 hunled'.2
    have halone := rereadsAlone_of_every s hlex'.1 hunled'.1
    rcases Bool.eq_false_or_eq_true s.isNop with hs | hs
    · exact hss.cons_nop hs hlex'.1
    · exact hss.cons (halone hs) hs hlex hunled

theorem rereadsClauses_of_every : ∀ clauses : List (Clause Stmt),
    everyClauses .lexical clauses = true → everyClauses .unled clauses = true →
    ∀ o, everyOtherwise .lexical o = true → (∀ otherwise ∈ o, Rereads otherwise.body) →
      RereadsClauses clauses o
  | [], _, _ => fun _ hlex h => rereadsClauses_nil hlex h
  | ⟨k, cond, body⟩ :: clauses, hlex, hunled => by
    simp only [everyClauses, Bool.and_eq_true] at hlex hunled
    intro o ho h
    exact (rereadsClauses_of_every clauses hlex.2 hunled.2 o ho h).cons
      (rereads_of_every body hlex.1.2 hunled.1.2) hlex.1.1.1 hlex.1.1.2

theorem rereads_of_everyOtherwise : ∀ o : Option (Otherwise Stmt),
    everyOtherwise .lexical o = true → everyOtherwise .unled o = true →
    ∀ otherwise ∈ o, Rereads otherwise.body
  | none, _, _ => nofun
  | some ⟨k, body⟩, hlex, hunled => by
    rw [everyOtherwise, Bool.and_eq_true] at hlex hunled
    intro otherwise ho
    rw [← Option.some.inj ho]
    exact rereads_of_every body hlex.2 hunled.2

theorem rereadsCases_of_every : ∀ cases : List (Case Stmt),
    everyCases .lexical cases = true → everyCases .unled cases = true → RereadsCases cases
  | [], _, _ => rereadsCases_nil
  | ⟨k, key, body⟩ :: cases, hlex, hunled => by
    simp only [everyCases, Bool.and_eq_true] at hlex hunled
    exact (rereadsCases_of_every cases hlex.2 hunled.2).cons
      (rereads_of_every body hlex.1.2 hunled.1.2) hlex.1.1.1 hlex.1.1.2 hlex.2

end

end Stmt

/-! ### Opening tags -/

/-- What stands behind layout and is no gap is the next token. -/
theorem ahead_eq_dropWhile {s : List Char} (h : "<?php".toList.isPrefixOf (s.dropWhile isLayout)) :
    ahead s = s.dropWhile isLayout := by
  induction s with
  | nil => cases h
  | cons c s ih =>
    rcases Bool.eq_false_or_eq_true (isLayout c) with hc | hc
    · rw [List.dropWhile_cons_of_pos hc] at h ⊢
      rw [← ih h, ahead, gapFrom_layout hc]
      rfl
    · rw [List.dropWhile_cons_of_neg (by simp [hc])] at h ⊢
      obtain ⟨t, ht⟩ := List.isPrefixOf_iff_prefix.mp h
      rw [← ht]
      exact ahead_of_atToken (atToken_cons (c := '<') (by decide) _)

theorem openTag_true (s : List Char) : openTag ("<?php".toList ++ s) = .ok true s := rfl

theorem openTag_false {s : List Char} (h : (ahead s).head? ≠ some '<') :
    openTag s = .ok false s := by
  have htag : (do let _ ← span isLayout; token "<?php".toList : Reader Unit).Misses s := by
    refine misses_of_bind_ok (a := s.takeWhile isLayout) (r := s.dropWhile isLayout) rfl ?_
    refine token_miss ?_
    rw [Bool.eq_false_iff]
    intro hp
    rw [ahead_eq_dropWhile hp] at h
    obtain ⟨t, ht⟩ := List.isPrefixOf_iff_prefix.mp hp
    rw [← ht] at h
    exact h rfl
  rw [openTag, bind_ok (optional_miss htag)]
  rfl

/-! ### Whole programs -/

namespace Program

theorem parse_ofList {s : List Char} {p : Program}
    (h : Reader.program (s.length + 1) s = .ok p []) : Program.parse (String.ofList s) = .ok p := by
  unfold Program.parse
  rw [String.toList_ofList]
  simp only [h, List.all_nil, if_true]

/-- Behind its opening tag, a program is read as a list of statements. -/
theorem program_ok {fuel : Nat} {s r : List Char} {tag : Bool} {stmts : List Stmt}
    (htag : Reader.openTag s = .ok tag r)
    (hstmts : statements (statement fuel) .brace fuel r = .ok stmts []) :
    Reader.program fuel s = .ok ⟨tag, stmts⟩ [] := by
  rw [Reader.program, bind_ok htag, bind_ok hstmts]
  rfl

/-- A program with a text behind it is read as the statements that stand behind its opening
tag. -/
theorem parse_chars_append {p : Program} (hlex : p.every .lexical = true)
    (hunled : p.every .unled = true) {r : List Char} (hr : (ahead r).head? ≠ some '<')
    {stmts : List Stmt} (hread : ∀ {g : List Char} {n : Nat}, IsGap g [] →
      (render (Stmt.listLines 0 p.stmts) ++ r).length < n →
      statements (statement n) .brace n (g ++ (render (Stmt.listLines 0 p.stmts) ++ r)) =
        .ok stmts []) :
    Program.parse (String.ofList (p.chars ++ r)) = .ok ⟨p.openTag, stmts⟩ := by
  obtain ⟨tag, body⟩ := p
  refine parse_ofList ?_
  cases tag with
  | true =>
    have htext : (Program.mk true body).chars ++ r =
        "<?php".toList ++ (['\n', '\n'] ++ (render (Stmt.listLines 0 body) ++ r)) := rfl
    have hgap : IsGap ['\n', '\n'] [] := isGap_of_layout (by decide)
    rw [htext]
    refine program_ok (openTag_true _) (hread hgap ?_)
    simp only [List.length_append]
    omega
  | false =>
    have htext : (Program.mk false body).chars ++ r = render (Stmt.listLines 0 body) ++ r := rfl
    rw [htext]
    refine program_ok (openTag_false ?_) (hread isGap_nil (Nat.lt_succ_self _))
    refine Stmt.ahead_listLines (p := fun s => s.head? ≠ some '<') 0 hr body hlex
      (fun s hmem hs t => ?_) isGap_nil
    have hopens := Stmt.opens_of_mem 0 hlex hunled hmem hs t
    exact ⟨(hopens.starts .brace).atToken, hopens.noTag⟩

/-- **The text of a program reads back as the program with its comments settled.** -/
theorem parse_text_eq_settle (p : Program) (hlex : p.every .lexical = true)
    (hunled : p.every .unled = true) : Program.parse p.text = .ok p.settle := by
  have hrereads := Stmt.rereads_of_every p.stmts hlex hunled
  have hparse : Program.parse (String.ofList (p.chars ++ [])) = .ok p.settle := by
    refine parse_chars_append hlex hunled (by decide) fun {g n} hg hn => ?_
    rw [List.append_nil] at hn
    exact hrereads.close hg isGap_nil .brace (Or.inl rfl) (Nat.le_of_lt hn) hn
  rwa [List.append_nil] at hparse

/-- The program has a text that stands for it: its names, literals and comments can
be read, no expression that stands as a statement begins like another statement, and
every empty statement carries comments, is the last of its list and does not end a
case that another one follows. -/
def printable (p : Program) : Bool := p.every .lexical && p.every .unled && p.settled

theorem printable_iff {p : Program} : p.printable = true ↔
    (p.every .lexical = true ∧ p.every .unled = true) ∧ p.settled = true := by
  rw [printable, Bool.and_eq_true, Bool.and_eq_true]

/-- **The text of a printable program reads back as the program**, with the same
opening tag, the same statements and the same comments on the same nodes. -/
theorem parse_text_of_printable (p : Program) (h : p.printable = true) : Program.parse p.text = .ok p := by
  rw [printable, Bool.and_eq_true, Bool.and_eq_true] at h
  rw [parse_text_eq_settle p h.1.1 h.1.2, (settle_eq_iff p).mpr h.2]

/-- A conditional whose clauses are led by comments, with a switch in it and comments
before two closing braces. -/
theorem parse_text_of_printable_nested :
    let p : Program := ⟨true, [.conditional [⟨"// first"⟩] (.binary .equal (.var "a") (.var "b"))
      [.leaf [] (.echo [.var "a", .lit .null]), .leaf [⟨"/* done */"⟩] .nop]
      [⟨[⟨"# second"⟩], .call (.name "f") [.lit (.int 2)],
        [.switch [] (.var "c")
          [⟨[], some (.lit (.str .single "x")), [.while [] (.var "d") [], .leaf [] .break]⟩,
            ⟨[⟨"// last"⟩], none, [.leaf [⟨"// nothing"⟩] .nop]⟩]]⟩]
      (some ⟨[⟨"// otherwise"⟩], [.block [] [.leaf [] (.expr (.assign (.var "a") (.var "c")))]]⟩)]⟩
    p.printable = true ∧ Program.parse p.text = .ok p :=
  ⟨by decide, parse_text_of_printable _ (by decide)⟩

end Program

end Casework
