import Casework.Proofs.Layout

/-!
# Running the readers of statements

For each kind of statement, what its reader gives follows from what the readers
for its parts give.  None of these facts speaks of the texts of the parts, so
they serve wherever the parts come from.

## Main definitions

* `Reader.Starts` — a statement begins here, and the list does not stop.
* `Reader.NoClause` — no clause of a conditional begins here.
* `Reader.labelKey` — the key of a label, without its colon.

## Main results

* `Reader.statements_step`, `Reader.statements_close`, `Reader.statements_label` —
  a list goes on with a statement, or stops.
* `Reader.conditional_ok`, `Reader.loop_ok`, `Reader.switch_ok` and their like —
  control structures from their parts.
* `Reader.leaf_ok`, `Reader.plain_ok` — leaves read back.
-/

namespace Casework

/-- The reply with its value changed. -/
def Reply.map {α β : Type} (f : α → β) : Reply α → Reply β
  | .ok a r => .ok (f a) r
  | .miss r => .miss r
  | .halt e r => .halt e r

namespace Reader

variable {fuel n : Nat} {nested : Led} {stop : Stop} {g s r t : List Char} {k : List Comment}
  {v : Stmt} {stmts : List Stmt} {e e' : Expr} {q : Nat}

/-! ### Lists of statements -/

/-- A statement begins here, and no place where the list stops. -/
structure Starts (stop : Stop) (s : List Char) : Prop where
  atToken : AtToken s
  ne_nil : s ≠ []
  noBrace : braceAhead s = false
  noLabel : stop = .label → labelAhead s = false

/-- A list goes on with the statement that begins here and those behind it. -/
theorem statements_bind (hg : IsGap g k) (hs : Starts stop s) :
    statements nested stop (n + 1) (g ++ s) =
      (do let v ← nested k; let vs ← statements nested stop n; pure (v :: vs) :
        Reader (List Stmt)) s := by
  have hlabel : (stop == .label && labelAhead s) = false := by
    cases stop with
    | brace => rfl
    | label => rw [hs.noLabel rfl]; rfl
  have hempty : s.isEmpty = false := by simpa using hs.ne_nil
  simp only [statements, hg.gapFrom_append hs.atToken, hempty, hs.noBrace, hlabel,
    Bool.or_self, Bool.false_eq_true, if_false, bind_apply]
  cases nested k s with
  | ok v r =>
    dsimp only
    cases statements nested stop n r <;> rfl
  | _ => rfl

/-- A list goes on behind a statement that was read. -/
theorem statements_step (hg : IsGap g k) (hs : Starts stop s) (h : nested k s = .ok v r) :
    statements nested stop (n + 1) (g ++ s) = (statements nested stop n r).map (v :: ·) := by
  rw [statements_bind hg hs, bind_ok h, bind_apply]
  cases statements nested stop n r <;> rfl

/-- A list stops at a closing brace or the end, and comments before it lead nothing. -/
theorem statements_close (hg : IsGap g k) (hs : s = [] ∨ ∃ t, s = '\x7d' :: t) :
    statements nested stop (n + 1) (g ++ s) = .ok (dangling k) s := by
  have hat : AtToken s := by
    rcases hs with rfl | ⟨t, rfl⟩
    · exact atToken_nil
    · exact atToken_cons (by decide) t
  have hclose : (s.isEmpty || braceAhead s) = true := by
    rcases hs with rfl | ⟨t, rfl⟩ <;> rfl
  simp only [statements, hg.gapFrom_append hat, hclose, if_true]

/-- A list stops before a label, and comments before it are left to the case. -/
theorem statements_label (hg : IsGap g k) (hs : AtToken s) (hlabel : labelAhead s = true) :
    statements nested .label (n + 1) (g ++ s) = .ok [] (g ++ s) := by
  have hopen : (s.isEmpty || braceAhead s) = false := by
    cases s with
    | nil => cases hlabel
    | cons c s =>
      rw [List.isEmpty_cons, Bool.false_or, Bool.eq_false_iff]
      intro hc
      obtain rfl : c = '\x7d' := beq_iff_eq.mp hc
      cases hlabel
  simp only [statements, hg.gapFrom_append hs, hopen, hlabel, Bool.false_eq_true, if_false,
    beq_self_eq_true, Bool.and_self, if_true]

theorem braced_ok (h : statements nested .brace fuel s = .ok stmts ('\x7d' :: r)) :
    braced fuel nested ('\x7b' :: s) = .ok stmts r := by
  rw [braced, bind_ok (char_self _ _), bind_ok h, bind_ok (require_ok (char_self _ _))]
  rfl

theorem body_braced (hg : IsGap g k) (h : braced fuel nested ('\x7b' :: s) = .ok stmts r) :
    body fuel nested (g ++ '\x7b' :: s) = .ok stmts r := by
  have hgap : gap (g ++ '\x7b' :: s) = .ok () ('\x7b' :: s) :=
    gap_ok hg (atToken_cons (by decide) s)
  exact (bind_ok hgap).trans h

/-! ### Conditions and heads -/

/-- A parenthesised condition is read, whatever way it is written. -/
theorem condition_ok (h : Written q e t) (ht : t.length < fuel) (hg : IsGap g k) (r : List Char) :
    condition fuel (g ++ '(' :: (t ++ ')' :: r)) = .ok e r := by
  have hread : Reads (expr fuel) e t := ⟨h.atToken, fun r hr => h.expr_ok ht hr⟩
  refine require_ok ?_
  rw [bind_ok (gap_ok hg (atToken_cons (by decide) _))]
  exact within_ok hread isGap_nil isGap_nil rfl '(' r

theorem keyword_headText (word : String) (hlower : word.toList.map Char.toLower = word.toList)
    (s : List Char) : keyword word (headText word e ++ s) =
      .ok () (' ' :: '(' :: (e.text ++ ')' :: ' ' :: s)) := by
  rw [headText, List.append_assoc]
  simp only [List.cons_append, List.append_assoc, List.nil_append]
  exact keyword_append hlower (by simp; decide)

theorem condition_head (he : Written q e' e.text) (hfuel : e.text.length < fuel) (s : List Char) :
    condition fuel (' ' :: '(' :: (e.text ++ ')' :: s)) = .ok e' s :=
  condition_ok he hfuel (isGap_layout rfl) s

/-! ### Conditionals -/

/-- The words that begin a clause.  Behind a longer word that begins with `elseif`
the word `else` is looked for in the rest of it. -/
def clauseWords : List (List Char) := ["elseif".toList, "else".toList, "elseifelse".toList]

/-- No word that begins a clause stands next. -/
def NoClause (s : List Char) : Prop := leadWord (ahead s) ∉ clauseWords

/-- Where `elseif` misses, `else` is looked for at the same place, or behind the letters
of `elseif` when a longer word begins with them. -/
theorem keyword_elseif_miss (h : leadWord s ≠ "elseif".toList) :
    ∃ t, keyword "elseif" s = .miss t ∧ t.dropWhile isWordChar = s.dropWhile isWordChar ∧
      (leadWord t = "else".toList ↔
        leadWord s = "else".toList ∨ leadWord s = "elseifelse".toList) := by
  by_cases hs : "elseif".toList.isPrefixOf (s.map Char.toLower) = true
  · obtain ⟨rest, hrest⟩ := List.isPrefixOf_iff_prefix.mp hs
    obtain ⟨text, r, rfl, htext, -⟩ := List.map_eq_append_iff.mp hrest.symm
    have hword := isWordChar_of_map_toLower (by decide) htext
    have hlead := leadWord_append_word hword r
    rw [htext] at hlead
    -- the word goes on, or it would be `elseif` itself
    obtain ⟨c, t, rfl, hc⟩ : ∃ c t, r = c :: t ∧ isWordChar c = true := by
      cases r with
      | nil => exact absurd (hlead.trans (List.append_nil _)) h
      | cons c t =>
        refine ⟨c, t, rfl, ?_⟩
        by_contra hc
        rw [leadWord_cons_of_not (by simpa using hc), List.append_nil] at hlead
        exact h hlead
    refine ⟨c :: t, ?_, ?_, ?_⟩
    · rw [keyword, bind_ok (letters_append htext _), notNext, if_pos hc]
    · rw [List.dropWhile_append_of_pos hword]
    · have hsplit : "elseifelse".toList = "elseif".toList ++ "else".toList := by decide
      rw [hlead, hsplit, List.append_cancel_left_eq]
      refine ⟨Or.inr, fun h => h.resolve_left fun h => ?_⟩
      have := congrArg List.length h
      simp at this
  · refine ⟨s, ?_, rfl, ⟨Or.inl, fun h => h.resolve_right fun h => hs ?_⟩⟩
    · rw [keyword, bind_apply, letters_eq, if_neg hs]
    · -- the letters of a longer word would fit
      have htake :
          s.map Char.toLower = leadWord s ++ (s.dropWhile isWordChar).map Char.toLower := by
        rw [leadWord, ← List.map_append, List.takeWhile_append_dropWhile]
      rw [htake, h, List.isPrefixOf_iff_prefix]
      exact ⟨"else".toList ++ (s.dropWhile isWordChar).map Char.toLower, by simp⟩

/-- Without a clause, what was passed over is given back. -/
theorem clauses_none (h : NoClause s) :
    clauses fuel nested (n + 1) s = .ok ([], none) s := by
  simp only [NoClause, clauseWords, List.mem_cons, List.not_mem_nil, or_false, not_or] at h
  obtain ⟨helseif, helse, hboth⟩ := h
  obtain ⟨t, hmiss, -, hiff⟩ := keyword_elseif_miss helseif
  have hne : leadWord t ≠ "else".toList := fun ht => (hiff.mp ht).elim helse hboth
  obtain ⟨r, hr⟩ : (keyword "else").Misses t := keyword_misses (by decide) hne
  have hahead : (gapFrom 0 s).2 = ahead s := rfl
  simp only [clauses, hahead, hmiss, hr]

variable {es : List (Clause Stmt)} {o : Option (Otherwise Stmt)} {cs : List (Case Stmt)}

/-- The word `elseif` is followed by a condition, a body and further clauses. -/
theorem clauses_of_elseif (hg : IsGap g k) (hs : AtToken s) (h : leadWord s = "elseif".toList) :
    clauses fuel nested (n + 1) (g ++ s) = (do
      let cond ← condition fuel
      let stmts ← commit (body fuel nested)
      let (others, otherwise) ← clauses fuel nested n
      pure (⟨k, cond, stmts⟩ :: others, otherwise) : Reader _) (s.dropWhile isWordChar) := by
  simp only [clauses, hg.gapFrom_append hs, keyword_ok h]

/-- The word `else` is followed by a body. -/
theorem clauses_of_else (hg : IsGap g k) (hs : AtToken s)
    (h : leadWord s = "else".toList ∨ leadWord s = "elseifelse".toList) :
    clauses fuel nested (n + 1) (g ++ s) = (do
      let stmts ← commit (body fuel nested)
      pure ([], some ⟨k, stmts⟩) : Reader _) (s.dropWhile isWordChar) := by
  have helseif : leadWord s ≠ "elseif".toList := by
    rcases h with h | h <;> rw [h] <;> decide
  obtain ⟨t, hmiss, hdrop, hiff⟩ := keyword_elseif_miss helseif
  simp only [clauses, hg.gapFrom_append hs, hmiss, keyword_ok (hiff.mpr h), hdrop]

/-- A clause with a condition and those behind it. -/
theorem clauses_elseif (hg : IsGap g k) (he : Written q e' e.text) (hfuel : e.text.length < fuel)
    (hbody : body fuel nested (' ' :: s) = .ok stmts r)
    (hrest : clauses fuel nested n r = .ok (es, o) t) :
    clauses fuel nested (n + 1) (g ++ (headText "elseif" e ++ s)) =
      .ok (⟨k, e', stmts⟩ :: es, o) t := by
  have hat : AtToken (headText "elseif" e ++ s) := atToken_cons (c := 'e') (by decide) _
  simp only [clauses, hg.gapFrom_append hat, keyword_headText "elseif" (by decide)]
  rw [bind_ok (condition_head he hfuel _), bind_ok (commit_ok hbody), bind_ok hrest]
  rfl

/-- A clause without a condition is the last one. -/
theorem clauses_else (hg : IsGap g k) (hbody : body fuel nested (' ' :: s) = .ok stmts r) :
    clauses fuel nested (n + 1) (g ++ ("else".toList ++ ' ' :: s)) =
      .ok ([], some ⟨k, stmts⟩) r := by
  have hat : AtToken ("else".toList ++ ' ' :: s) := atToken_cons (c := 'e') (by decide) _
  have hlead : leadWord ("else".toList ++ ' ' :: s) = "else".toList := rfl
  have hdrop : ("else".toList ++ ' ' :: s).dropWhile isWordChar = ' ' :: s := rfl
  rw [clauses_of_else hg hat (Or.inl hlead), hdrop, bind_ok (commit_ok hbody)]
  rfl

theorem conditional_ok (he : Written q e' e.text) (hfuel : e.text.length < fuel)
    (hbody : body fuel nested (' ' :: s) = .ok stmts r)
    (hclauses : clauses fuel nested fuel r = .ok (es, o) t) :
    conditional fuel nested k (headText "if" e ++ s) = .ok (.conditional k e' stmts es o) t := by
  rw [conditional, bind_ok (keyword_headText _ (by decide) s), bind_ok (condition_head he hfuel _),
    bind_ok (commit_ok hbody), bind_ok hclauses]
  rfl

/-! ### Loops and switches -/

theorem loop_ok (he : Written q e' e.text) (hfuel : e.text.length < fuel)
    (hbody : body fuel nested (' ' :: s) = .ok stmts r) :
    loop fuel nested k (headText "while" e ++ s) = .ok (.while k e' stmts) r := by
  rw [loop, bind_ok (keyword_headText _ (by decide) s), bind_ok (condition_head he hfuel _),
    bind_ok (commit_ok hbody)]
  rfl

/-- The brace of a switch stands behind a space. -/
theorem openingBrace_ok (s : List Char) :
    require .openingBrace (do gap; char '\x7b') (' ' :: '\x7b' :: s) = .ok () s := by
  have hgap : gap (' ' :: '\x7b' :: s) = .ok () ('\x7b' :: s) :=
    gap_ok (isGap_layout (c := ' ') rfl) (atToken_cons (by decide) s)
  refine require_ok ?_
  rw [bind_ok hgap, char_self]

theorem switch_ok (he : Written q e' e.text) (hfuel : e.text.length < fuel)
    (hcases : cases fuel nested fuel s = .ok cs r) :
    switch fuel nested k (headText "switch" e ++ '\x7b' :: s) = .ok (.switch k e' cs) r := by
  rw [switch, bind_ok (keyword_headText _ (by decide) _), bind_ok (condition_head he hfuel _),
    bind_ok (openingBrace_ok s), bind_ok hcases]
  rfl

/-- No case is left before the closing brace. -/
theorem cases_nil (hg : IsGap g k) (s : List Char) :
    cases fuel nested (n + 1) (g ++ '\x7d' :: s) = .ok [] s := by
  have hat : AtToken ('\x7d' :: s) := atToken_cons (by decide) s
  have hbrace : braceAhead ('\x7d' :: s) = true := rfl
  simp only [cases, hg.gapFrom_append hat, hbrace, if_true, List.tail_cons]

/-- Where a case begins, its label, its body and the cases behind it are read. -/
theorem cases_bind (hg : IsGap g k) (hs : AtToken s) (hbrace : braceAhead s = false) :
    cases fuel nested (n + 1) (g ++ s) = (do
      let key ← label fuel
      let stmts ← statements nested .label fuel
      let others ← cases fuel nested n
      pure (⟨k, key, stmts⟩ :: others) : Reader _) s := by
  simp only [cases, hg.gapFrom_append hs, hbrace, Bool.false_eq_true, if_false]

/-- A case and those behind it. -/
theorem cases_cons {key : Option Expr} (hg : IsGap g k) (hs : AtToken s)
    (hbrace : braceAhead s = false) (hlabel : label fuel s = .ok key r)
    (hbody : statements nested .label fuel r = .ok stmts t) {u : List Char}
    (hrest : cases fuel nested n t = .ok cs u) :
    cases fuel nested (n + 1) (g ++ s) = .ok (⟨k, key, stmts⟩ :: cs) u := by
  rw [cases_bind hg hs hbrace, bind_ok hlabel, bind_ok hbody, bind_ok hrest]
  rfl

/-- The key of a label: the value behind `case`, or none for `default`. -/
def labelKey (fuel : Nat) : Reader (Option Expr) :=
  (do keyword "case"; gap; return some (← expr fuel)) <|> (do keyword "default"; return none)

theorem labelKey_case (hword : keyword "case" s = .ok () t)
    (he : (do gap; expr fuel : Reader Expr) t = .ok e r) : labelKey fuel s = .ok (some e) r := by
  have hgap : gap t = .ok () (ahead t) := rfl
  rw [bind_ok hgap] at he
  refine orElse_ok ?_
  rw [bind_ok hword, bind_ok hgap, bind_pure_ok he]

theorem labelKey_default (hcase : (keyword "case").Misses s)
    (hword : keyword "default" s = .ok () r) : labelKey fuel s = .ok none r := by
  rw [labelKey, orElse_miss (bind_miss hcase), bind_pure_ok hword]

/-- A label is its key and a colon. -/
theorem label_eq (fuel : Nat) : label fuel = (do
    let key ← require .caseLabel (labelKey fuel)
    require .colon do
      gap
      let _ ← satisfy fun c => c == ':' || c == ';'
    pure key) := rfl

/-- A label ends behind its colon, for which a semicolon may stand. -/
theorem label_ok {key : Option Expr} {c : Char} (hkey : labelKey fuel s = .ok key (c :: r))
    (hc : c = ':' ∨ c = ';') : label fuel s = .ok key r := by
  have hat : AtToken (c :: r) := by rcases hc with rfl | rfl <;> exact atToken_cons (by decide) r
  have hend : (do gap; let _ ← satisfy fun c => c == ':' || c == ';' : Reader Unit) (c :: r) =
      .ok () r := by
    rw [bind_ok (gap_atToken hat), bind_ok (satisfy_ok (by simpa using hc))]
    rfl
  rw [label_eq, bind_ok (require_ok hkey), bind_ok (require_ok hend)]
  rfl

theorem label_case (he : Written q e' e.text) (hfuel : e.text.length < fuel) (s : List Char) :
    label fuel ("case".toList ++ ' ' :: (e.text ++ ':' :: s)) = .ok (some e') s := by
  have hword : keyword "case" ("case".toList ++ ' ' :: (e.text ++ ':' :: s)) =
      .ok () (' ' :: (e.text ++ ':' :: s)) := rfl
  have hgap : gap (' ' :: (e.text ++ ':' :: s)) = .ok () (e.text ++ ':' :: s) :=
    gap_ok (isGap_layout (c := ' ') rfl) (he.atToken _)
  have hexpr : expr fuel (e.text ++ ':' :: s) = .ok e' (':' :: s) :=
    he.expr_ok hfuel (ends_closing isGap_nil rfl s)
  exact label_ok (labelKey_case hword ((bind_ok hgap).trans hexpr)) (Or.inl rfl)

theorem label_default (fuel : Nat) (s : List Char) :
    label fuel ("default".toList ++ ':' :: s) = .ok none s := by
  have hcase : (keyword "case").Misses ("default".toList ++ ':' :: s) := ⟨_, rfl⟩
  have hword : keyword "default" ("default".toList ++ ':' :: s) = .ok () (':' :: s) := rfl
  exact label_ok (labelKey_default hcase hword) (Or.inl rfl)

/-! ### Leaves -/

theorem semicolon_ok (hg : IsGap g k) (s : List Char) : semicolon (g ++ ';' :: s) = .ok () s := by
  have hgap : gap (g ++ ';' :: s) = .ok () (';' :: s) := gap_ok hg (atToken_cons (by decide) s)
  rw [semicolon, bind_ok hgap, require_ok (char_self _ _)]

/-- Operands are read up to the semicolon, whatever way they are written. -/
theorem echo_ok {operands : List Expr} {f : Expr} (h : Items Written (f :: operands) t)
    (hfuel : t.length < fuel) (hg : ∀ c ∈ (t ++ ';' :: s).head?, isWordChar c = false)
    : echo fuel ("echo".toList ++ (t ++ ';' :: s)) = .ok (.echo (f :: operands)) s := by
  have hlen := length_le_of_items h
  have hreads : ∀ {q e u}, Written q e u → u.length ≤ t.length → Reads (expr fuel) e u :=
    fun hu hle => ⟨hu.atToken, fun r hr => hu.expr_ok (Nat.lt_of_le_of_lt hle hfuel) hr⟩
  obtain ⟨g, k, u, hgap, hitem, hmany⟩ := exists_items_ok (n := t.length) hreads (c := ';') rfl
    (by decide) h (Nat.le_refl _) fuel (Nat.lt_of_lt_of_le hlen (Nat.le_of_lt hfuel)) s
  have hitems : sepBy1 (do gap; expr fuel) (do gap; char ',') fuel (t ++ ';' :: s) =
      .ok (f :: operands) (g ++ ';' :: s) := by
    rw [sepBy1, bind_ok hitem, bind_ok hmany]
    rfl
  rw [echo, bind_ok (keyword_append (by decide) hg), bind_ok (commit_ok hitems),
    bind_ok (semicolon_ok hgap s)]
  rfl

theorem ret_some (h : Written q e t) (hfuel : t.length < fuel) (hg : IsGap g k)
    (hword : ∀ c ∈ (g ++ (t ++ ';' :: s)).head?, isWordChar c = false) :
    ret fuel ("return".toList ++ (g ++ (t ++ ';' :: s))) = .ok (.return (some e)) s := by
  have hvalue : optional (do gap; expr fuel) (g ++ (t ++ ';' :: s)) = .ok (some e) (';' :: s) := by
    refine optional_ok ?_
    rw [bind_ok (gap_ok hg (h.atToken _))]
    exact h.expr_ok hfuel (ends_closing isGap_nil (c := ';') rfl s)
  have hsemicolon : semicolon (';' :: s) = .ok () s := semicolon_ok isGap_nil s
  rw [ret, bind_ok (keyword_append (by decide) hword), bind_ok hvalue, bind_ok hsemicolon]
  rfl

theorem ret_none (fuel : Nat) (s : List Char) :
    ret fuel ("return".toList ++ ';' :: s) = .ok (.return none) s := by
  have hgap : gap (';' :: s) = .ok () (';' :: s) := gap_atToken (atToken_cons (by decide) s)
  have hvalue : optional (do gap; expr fuel) (';' :: s) = .ok none (';' :: s) := by
    refine optional_miss (misses_of_bind_ok hgap (expression_misses ?_ fuel .whole))
    rw [ahead_of_atToken (atToken_cons (by decide) s)]
    simp [isOperandStart]
    decide
  have hsemicolon : semicolon (';' :: s) = .ok () s := semicolon_ok isGap_nil s
  rw [ret, bind_ok (keyword_append (by decide) (by simp; decide)), bind_ok hvalue,
    bind_ok hsemicolon]
  rfl

theorem jump_ok {word : String} {l : Leaf} (hlower : word.toList.map Char.toLower = word.toList)
    (s : List Char) :
    (do keyword word; semicolon; return l : Reader Leaf) (word.toList ++ ';' :: s) = .ok l s := by
  have hsemicolon : semicolon (';' :: s) = .ok () s := semicolon_ok isGap_nil s
  rw [bind_ok (keyword_append hlower (by simp; decide)), bind_ok hsemicolon]
  rfl

/-- A leaf that begins with a word of its own reads back, with its literals as they
are read. -/
theorem leaf_ok {accepts : Literal → Bool} {f : Literal → Expr}
    (hf : ∀ l, accepts l = true → Written 13 (f l) l.text) {l : Leaf}
    (hl : l.validBy accepts = true) (hworded : l.isWorded = true) (hfuel : l.code.length ≤ fuel)
    (s : List Char) : leaf fuel (l.code ++ s) = .ok (l.mapLit f) s := by
  cases l with
  | echo operands =>
    cases operands with
    | nil => cases hl
    | cons e operands =>
      have hvalid : Expr.validListBy accepts (e :: operands) = true := hl
      have hitems := (Expr.items_mapLits hf _ hvalid).gap_append (isGap_layout (c := ' ') rfl)
      have hcode : (Leaf.echo (e :: operands)).code ++ s = "echo".toList ++
          ([' '] ++ separated ((e :: operands).map Expr.text) ++ ';' :: s) := by
        simp [Leaf.code_echo]
      have hlen : ([' '] ++ separated ((e :: operands).map Expr.text)).length < fuel := by
        rw [Leaf.code_echo] at hfuel
        simp only [List.length_append, List.length_cons, List.length_nil] at hfuel ⊢
        omega
      rw [hcode, leaf, orElse_ok (echo_ok hitems hlen (by simp; decide))]
      rfl
  | «return» value =>
    have hecho : ∀ s, (echo fuel).Misses ("return".toList ++ s) := fun s => bind_miss ⟨_, rfl⟩
    cases value with
    | none =>
      rw [Leaf.code_return_none, List.append_assoc, List.singleton_append, leaf,
        orElse_miss (hecho _), orElse_ok (ret_none fuel s)]
      rfl
    | some e =>
      have hlen : e.text.length < fuel := by
        rw [Leaf.code_return_some] at hfuel
        simp only [List.length_append, List.length_cons, List.length_nil] at hfuel
        omega
      have hret := ret_some (s := s) (e.written_mapLit hf hl) hlen (isGap_layout (c := ' ') rfl)
        (by simp; decide)
      have hcode : (Leaf.return (some e)).code ++ s =
          "return".toList ++ ([' '] ++ (e.text ++ ';' :: s)) := by
        simp [Leaf.code_return_some]
      rw [hcode, leaf, orElse_miss (hecho _), orElse_ok hret]
      rfl
  | «break» =>
    have hecho : (echo fuel).Misses ("break".toList ++ ';' :: s) := bind_miss ⟨_, rfl⟩
    have hret : (ret fuel).Misses ("break".toList ++ ';' :: s) := bind_miss ⟨_, rfl⟩
    rw [Leaf.code_break, List.append_assoc, List.singleton_append, leaf, orElse_miss hecho,
      orElse_miss hret, orElse_ok (jump_ok (by decide) s)]
    rfl
  | «continue» =>
    have hecho : (echo fuel).Misses ("continue".toList ++ ';' :: s) := bind_miss ⟨_, rfl⟩
    have hret : (ret fuel).Misses ("continue".toList ++ ';' :: s) := bind_miss ⟨_, rfl⟩
    have hbreak : (do keyword "break"; semicolon; return .break : Reader Leaf).Misses
        ("continue".toList ++ ';' :: s) := bind_miss ⟨_, rfl⟩
    rw [Leaf.code_continue, List.append_assoc, List.singleton_append, leaf, orElse_miss hecho,
      orElse_miss hret, orElse_miss hbreak, jump_ok (by decide) s]
    rfl
  | expr e => cases hworded
  | nop => cases hworded

/-- An expression reads back as a statement. -/
theorem plain_ok (h : Written q e t) (hfuel : t.length < fuel) (s : List Char) :
    plain fuel (t ++ ';' :: s) = .ok (.expr e) s := by
  have hempty : (do char ';'; return .nop : Reader Leaf).Misses (t ++ ';' :: s) :=
    bind_miss (char_miss (h.head?_append_ne (by decide) _))
  have hexpr := h.expr_ok hfuel (ends_closing isGap_nil (c := ';') rfl s)
  have hsemicolon : semicolon (';' :: s) = .ok () s := semicolon_ok isGap_nil s
  rw [List.nil_append] at hexpr
  rw [plain, orElse_miss hempty, bind_ok hexpr, bind_ok hsemicolon]
  rfl

/-! ### Kinds of statements -/

theorem conditional_misses (h : leadWord s ≠ "if".toList) : (conditional fuel nested k).Misses s :=
  bind_miss (keyword_misses (by decide) h)

theorem loop_misses (h : leadWord s ≠ "while".toList) : (loop fuel nested k).Misses s :=
  bind_miss (keyword_misses (by decide) h)

theorem switch_misses (h : leadWord s ≠ "switch".toList) : (switch fuel nested k).Misses s :=
  bind_miss (keyword_misses (by decide) h)

theorem leaf_misses (hecho : leadWord s ≠ "echo".toList) (hreturn : leadWord s ≠ "return".toList)
    (hbreak : leadWord s ≠ "break".toList) (hcontinue : leadWord s ≠ "continue".toList) :
    (leaf fuel).Misses s :=
  orElse_misses (bind_miss (keyword_misses (by decide) hecho))
    (orElse_misses (bind_miss (keyword_misses (by decide) hreturn))
      (orElse_misses (bind_miss (keyword_misses (by decide) hbreak))
        (bind_miss (keyword_misses (by decide) hcontinue))))

/-- Where no control structure begins, a statement is a leaf or a block. -/
theorem kind_of_leadWord (hif : leadWord s ≠ "if".toList) (hwhile : leadWord s ≠ "while".toList)
    (hswitch : leadWord s ≠ "switch".toList) :
    kind fuel nested k s =
      ((do return .leaf k (← leaf fuel)) <|> (do return .block k (← braced fuel nested)) <|>
        (do return .leaf k (← plain fuel)) : Reader Stmt) s := by
  rw [kind, orElse_miss (conditional_misses hif), orElse_miss (loop_misses hwhile),
    orElse_miss (switch_misses hswitch)]

/-- The words that statements begin with, other than expressions. -/
def statementWords : List (List Char) :=
  ["if", "while", "switch", "echo", "return", "break", "continue"].map String.toList

/-- Where no such word stands, a statement is a block, an expression or empty. -/
theorem kind_of_not_word (h : leadWord s ∉ statementWords) :
    kind fuel nested k s = ((do return .block k (← braced fuel nested)) <|>
      (do return .leaf k (← plain fuel)) : Reader Stmt) s := by
  have hne : ∀ word : String, word.toList ∈ statementWords → leadWord s ≠ word.toList :=
    fun word hword heq => h (heq ▸ hword)
  rw [kind_of_leadWord (hne "if" (by decide)) (hne "while" (by decide)) (hne "switch" (by decide)),
    orElse_miss (bind_miss (leaf_misses (hne "echo" (by decide)) (hne "return" (by decide))
      (hne "break" (by decide)) (hne "continue" (by decide))))]

/-- An expression is read as a statement where no other one begins. -/
theorem kind_expr (hlead : leadWord (t ++ ';' :: s) ∉ statementWords) (h : Written q e t)
    (hfuel : t.length < fuel) :
    kind fuel nested k (t ++ ';' :: s) = .ok (.leaf k (.expr e)) s := by
  have hbrace : (braced fuel nested).Misses (t ++ ';' :: s) :=
    bind_miss (char_miss (h.head?_append_ne (by decide) _))
  rw [kind_of_not_word hlead, orElse_miss (bind_miss hbrace), bind_pure_ok (plain_ok h hfuel s)]

theorem kind_nop (fuel : Nat) (nested : Led) (k : List Comment) (s : List Char) :
    kind fuel nested k (';' :: s) = .ok (.leaf k .nop) s := by
  have hlead : leadWord (';' :: s) ∉ statementWords := by
    rw [leadWord_cons_of_not (by decide)]
    decide
  have hplain : plain fuel (';' :: s) = .ok .nop s := by
    refine orElse_ok ?_
    rw [bind_ok (char_self _ _)]
    rfl
  have hbrace : (braced fuel nested).Misses (';' :: s) := bind_miss (char_miss (by simp))
  rw [kind_of_not_word hlead, orElse_miss (bind_miss hbrace), bind_pure_ok hplain]

theorem kind_misses (hlead : leadWord s ∉ statementWords) (hbrace : s.head? ≠ some '\x7b')
    (hsemicolon : s.head? ≠ some ';') (hexpr : (expr fuel).Misses s) :
    (kind fuel nested k).Misses s := by
  rw [Misses, kind_of_not_word hlead]
  exact orElse_misses (bind_miss (bind_miss (char_miss hbrace)))
    (bind_miss (orElse_misses (bind_miss (char_miss hsemicolon)) (bind_miss hexpr)))

/-- A body that does not begin with a brace is a single statement. -/
theorem body_of_not_brace (h : (ahead s).head? ≠ some '\x7b') :
    body fuel nested s = (do return [← nested []] : Reader (List Stmt)) (ahead s) := by
  have hgap : gap s = .ok () (ahead s) := rfl
  refine (bind_ok hgap).trans ?_
  split
  · next u hu =>
    rw [hu] at h
    exact absurd rfl h
  · rfl

end Reader

end Casework
