import Casework.Proofs.Settle

/-!
# What is read is valid

A reader may give any value it likes as far as its type goes.  Here it is shown
that the readers of the language only give trees whose names, literals and
comments are written as such, and with at least one operand behind an `echo`.
The one literal that has no text of its own is the infinity that a number
becomes when it is too large.

A property of the values is carried through the combinators without a look at
the text.  Only a name has to be looked at where it stands: it is none of the
words that are literals because the reader of literals missed there.

## Main definitions

* `Reader.Yields` — whatever the reader reads has the property.

## Main results

* `Reader.yields_bind`, `Reader.yields_orElse` and their like — properties of what
  combinators read.
* `Reader.yields_expression` — expressions that are read are valid.
* `Program.every_of_parse` — **programs that are read are valid**.
-/

namespace Casework

namespace Reader

variable {α β : Type} {p q : Reader α} {P : α → Prop} {Q : β → Prop} {n : Nat}

/-! ### Combinators -/

/-- Whatever the reader reads has the property. -/
def Yields (p : Reader α) (P : α → Prop) : Prop := ∀ s a r, p s = .ok a r → P a

theorem yields_true (p : Reader α) : p.Yields fun _ => True := fun _ _ _ _ => trivial

theorem yields_pure {a : α} (h : P a) : (pure a : Reader α).Yields P := by
  intro s b r hb
  cases hb
  exact h

/-- A sequence that reads has read both of its parts. -/
theorem exists_of_bind_eq_ok {f : α → Reader β} {s r : List Char} {b : β}
    (h : (p >>= f) s = .ok b r) : ∃ a t, p s = .ok a t ∧ f a t = .ok b r := by
  rw [bind_apply] at h
  split at h
  · next a t ha => exact ⟨a, t, ha, h⟩
  · cases h
  · cases h

theorem yields_bind {f : α → Reader β} (hp : p.Yields P) (hf : ∀ a, P a → (f a).Yields Q) :
    (p >>= f).Yields Q := by
  intro s b r h
  obtain ⟨a, t, ha, hb⟩ := exists_of_bind_eq_ok h
  exact hf a (hp s a t ha) t b r hb

/-- What is read first does not matter. -/
theorem yields_skip {f : α → Reader β} (hf : ∀ a, (f a).Yields Q) : (p >>= f).Yields Q :=
  yields_bind (yields_true p) fun a _ => hf a

theorem yields_map {g : α → β} (hp : p.Yields fun a => Q (g a)) :
    (p >>= fun a => pure (g a)).Yields Q :=
  yields_bind hp fun _ ha => yields_pure ha

/-- The second reader of a choice is only asked where the first one misses. -/
theorem yields_orElse_of_misses (hp : p.Yields P)
    (hq : ∀ s a r, p.Misses s → q s = .ok a r → P a) : (p <|> q).Yields P := by
  intro s a r h
  rw [orElse_apply] at h
  split at h
  · next t ht => exact hq s a r ⟨t, ht⟩ h
  · exact hp s a r h

theorem yields_orElse (hp : p.Yields P) (hq : q.Yields P) : (p <|> q).Yields P :=
  yields_orElse_of_misses hp fun s a r _ h => hq s a r h

theorem yields_optional (hp : p.Yields P) : (optional p).Yields fun o => ∀ a ∈ o, P a := by
  intro s o r h
  rw [optional] at h
  split at h
  · next a t ha =>
    cases h
    intro b hb
    cases hb
    exact hp s a r ha
  · cases h
    intro b hb
    cases hb
  · cases h

theorem yields_many (hp : p.Yields P) (n : Nat) : (many p n).Yields fun as => ∀ a ∈ as, P a := by
  induction n with
  | zero => nofun
  | succ n ih =>
    intro s as r h
    rw [many_succ] at h
    split at h
    · next a t ha =>
      split at h
      · next others u hothers =>
        cases h
        intro b hb
        rcases List.mem_cons.mp hb with rfl | hb
        · exact hp s b t ha
        · exact ih t others r hothers b hb
      · cases h
      · cases h
    · cases h
      nofun
    · cases h

theorem yields_sepBy1 (hp : p.Yields P) (separator : Reader Unit) (n : Nat) :
    (sepBy1 p separator n).Yields fun as => as ≠ [] ∧ ∀ a ∈ as, P a := by
  refine yields_bind hp fun a ha => yields_bind (yields_many (yields_skip fun _ => hp) n) ?_
  intro others hothers
  refine yields_pure ⟨nofun, fun b hb => ?_⟩
  rcases List.mem_cons.mp hb with rfl | hb
  · exact ha
  · exact hothers b hb

theorem yields_commit (hp : p.Yields P) : (commit p).Yields P := by
  intro s a r h
  rw [commit] at h
  split at h
  · cases h
  · exact hp s a r h

theorem yields_require (hp : p.Yields P) (what : Expected) : (require what p).Yields P := by
  intro s a r h
  rw [require] at h
  split at h
  · next b t hb =>
    cases h
    exact hp s a r hb
  · cases h
  · cases h

end Reader

/-! ### Comments -/

/-- The text up to the first `*/` ends there. -/
theorem closesAtEnd_of_throughClose? {s t : List Char} (h : throughClose? s = some t) :
    closesAtEnd t = true := by
  fun_induction throughClose? s generalizing t with
  | case1 => cases h
  | case2 s =>
    cases h
    rfl
  | case3 c s hne ih =>
    obtain ⟨u, hu, rfl⟩ := Option.map_eq_some_iff.mp h
    have hclose := ih hu
    -- the text that was taken begins as the text does, so no earlier `*/` appears
    have hstep : closesAtEnd (c :: u) = closesAtEnd u := by
      refine closesAtEnd.eq_3 _ _ fun v hc hv => ?_
      subst hv
      cases s with
      | nil => cases hu
      | cons d s =>
        have hd : d = '/' := by
          rw [throughClose?.eq_def] at hu
          split at hu
          · cases hu
          · cases hu
          · next d' s' _ heq =>
            obtain ⟨w, -, hw⟩ := Option.map_eq_some_iff.mp hu
            cases heq
            exact (List.cons.inj hw).1
        exact hne s hc (by rw [hd])
    rw [hstep]
    exact hclose

/-- Trimming leaves the text as it is up to where it ends. -/
theorem trimEnd_isPrefix (text : List Char) : trimEnd text <+: text := by
  rw [trimEnd, ← List.reverse_suffix, List.reverse_reverse]
  exact List.dropWhile_suffix _

theorem getLast?_trimEnd (text : List Char) : (trimEnd text).getLast?.any isWhiteSpace = false := by
  rw [trimEnd, List.getLast?_reverse]
  have hhead := List.head?_dropWhile_not isWhiteSpace text.reverse
  cases h : (text.reverse.dropWhile isWhiteSpace).head? with
  | none => rfl
  | some c =>
    rw [h] at hhead
    simpa using hhead

theorem trimEnd_cons {c : Char} (hc : isWhiteSpace c = false) (text : List Char) :
    trimEnd (c :: text) = c :: trimEnd text := by
  have hdrop : (text.reverse ++ [c]).dropWhile isWhiteSpace =
      text.reverse.dropWhile isWhiteSpace ++ [c] := by
    induction text.reverse with
    | nil => simp [hc]
    | cons d s ih =>
      by_cases hd : isWhiteSpace d = true
      · rw [List.cons_append, List.dropWhile_cons_of_pos hd, List.dropWhile_cons_of_pos hd, ih]
      · rw [List.cons_append, List.dropWhile_cons_of_neg hd, List.dropWhile_cons_of_neg hd,
          List.cons_append]
  rw [trimEnd, List.reverse_cons, hdrop, List.reverse_append]
  rfl

/-- A line without its end stays on its line. -/
theorem staysOnLine_trimEnd {text : List Char} (h : ∀ c ∈ text, isLineEnd c = false) :
    staysOnLine (trimEnd text) = true := by
  rw [staysOnLine, Bool.and_eq_true, List.all_eq_true, getLast?_trimEnd]
  refine ⟨fun c hc => ?_, rfl⟩
  rw [h c ((trimEnd_isPrefix text).subset hc)]
  rfl

theorem isLineEnd_of_mem_takeWhile {s : List Char} :
    ∀ c ∈ s.takeWhile (!isLineEnd ·), isLineEnd c = false := by
  intro c hc
  have := List.all_eq_true.mp List.all_takeWhile c hc
  simpa using this

/-- A comment that is read is well formed. -/
theorem Comment.wellFormed_of_commentAt? {s text : List Char} (h : commentAt? s = some text) :
    (Comment.ofChars text).wellFormed = true := by
  rw [Comment.wellFormed, Comment.ofChars, String.toList_ofList]
  unfold commentAt? at h
  split at h
  · next s =>
    obtain ⟨t, ht, rfl⟩ := Option.map_eq_some_iff.mp h
    have hclose := closesAtEnd_of_throughClose? ht
    have hlast : ('/' :: '*' :: t).getLast?.any isWhiteSpace = false := by
      cases t with
      | nil => cases hclose
      | cons c t =>
        rw [List.getLast?_cons_cons, List.getLast?_cons_cons, getLast?_of_closesAtEnd hclose]
        decide
    rw [trimEnd_of_getLast? hlast]
    exact hclose
  · next s =>
    cases h
    have hline : ∀ c ∈ '/' :: '/' :: s.takeWhile (!isLineEnd ·), isLineEnd c = false := by
      simp only [List.mem_cons, forall_eq_or_imp]
      exact ⟨by decide, by decide, isLineEnd_of_mem_takeWhile⟩
    have hstays := staysOnLine_trimEnd hline
    rw [trimEnd_cons (by decide), trimEnd_cons (by decide)] at hstays ⊢
    exact hstays
  · cases h
  · next s hne =>
    cases h
    have hline : ∀ c ∈ '#' :: s.takeWhile (!isLineEnd ·), isLineEnd c = false := by
      simp only [List.mem_cons, forall_eq_or_imp]
      exact ⟨by decide, isLineEnd_of_mem_takeWhile⟩
    have hstays := staysOnLine_trimEnd hline
    rw [trimEnd_cons (by decide)] at hstays ⊢
    -- what is left of the text begins as the text does, and not with a bracket
    have hhead : (trimEnd (s.takeWhile (!isLineEnd ·))).head? ≠ some '[' := by
      intro hhead
      obtain ⟨rest, hrest⟩ := trimEnd_isPrefix (s.takeWhile (!isLineEnd ·))
      cases htrim : trimEnd (s.takeWhile (!isLineEnd ·)) with
      | nil => rw [htrim] at hhead; cases hhead
      | cons c t =>
        rw [htrim] at hhead hrest
        cases hhead
        refine hne (t ++ rest ++ s.dropWhile (!isLineEnd ·)) ?_
        rw [← List.cons_append, ← List.cons_append, hrest, List.takeWhile_append_dropWhile]
    show (_ != some '[' && _) = true
    rw [hstays, Bool.and_true, bne_iff_ne]
    exact hhead
  · cases h

/-- The comments of a gap are well formed. -/
theorem wellFormed_gapFrom (owed : Nat) (s : List Char) :
    (gapFrom owed s).1.all Comment.wellFormed = true := by
  fun_induction gapFrom owed s with
  | case1 => rfl
  | case2 owed c s ih => exact ih
  | case3 c s hc ih => exact ih
  | case4 c s hc text htext others rest heq ih =>
    rw [heq] at ih
    rw [List.all_cons, Comment.wellFormed_of_commentAt? htext, Bool.true_and]
    exact ih
  | case5 c s hc htext => rfl

/-! ### Words and literals -/

/-- The double nearest to a fraction without a sign may be read. -/
theorem Literal.readable_ofFraction (num den : Nat) :
    (Literal.float (.ofFraction false num den)).readable = true := by
  rw [Double.ofFraction]
  cases Magnitude.nearest? num den with
  | none => rfl
  | some m => rfl

namespace Reader

variable {s r : List Char} {x : String}

theorem yields_satisfy (accepts : Char → Bool) :
    (satisfy accepts).Yields fun c => accepts c = true := by
  intro s c r h
  cases s with
  | nil => cases h
  | cons d s =>
    rw [satisfy] at h
    split at h
    · next hd =>
      cases h
      exact hd
    · cases h

theorem yields_span (accepts : Char → Bool) :
    (span accepts).Yields fun cs => cs.all accepts = true := by
  intro s cs r h
  cases h
  exact List.all_takeWhile

theorem yields_ident : ident.Yields fun x => isIdentifier x = true := by
  refine yields_bind (yields_satisfy _) fun c hc => yields_bind (yields_span _) fun cs hcs => ?_
  refine yields_pure ?_
  rw [isIdentifier, String.toList_ofList]
  show (isWordStart c && cs.all isWordChar) = true
  rw [hc, hcs]
  rfl

/-- A name takes all characters of a name that stand next. -/
theorem eq_of_name_eq_ok (h : name s = .ok x r) :
    ∃ c cs, x.toList = c :: cs ∧ isNameStart c = true ∧ cs.all isNameChar = true ∧
      s = x.toList ++ r ∧ ∀ d ∈ r.head?, isNameChar d = false := by
  obtain ⟨c, t, hc, h⟩ := exists_of_bind_eq_ok h
  obtain ⟨cs, u, hcs, h⟩ := exists_of_bind_eq_ok h
  cases hcs
  cases h
  have hstart := yields_satisfy isNameStart _ _ _ hc
  have hs : s = c :: t := by
    cases s with
    | nil => cases hc
    | cons d s =>
      rw [satisfy] at hc
      split at hc
      · cases hc
        rfl
      · cases hc
  refine ⟨c, _, String.toList_ofList, hstart, List.all_takeWhile, ?_, ?_⟩
  · rw [hs, String.toList_ofList, List.cons_append, List.takeWhile_append_dropWhile]
  · intro d hd
    have := List.head?_dropWhile_not isNameChar t
    rw [Option.mem_def.mp hd] at this
    simpa using this

/-- Where no literal is found, no word that is a literal stands next. -/
theorem not_mem_literalWords_of_misses (h : literal.Misses s) : leadWord s ∉ literalWords := by
  obtain ⟨t, ht⟩ := h
  intro hmem
  -- the first of the three words that fits is read
  have hmiss : ∀ {word : String} {l : Literal} {q : Reader Literal} {t : List Char},
      ((do keyword word; pure l) <|> q : Reader Literal) s = .miss t →
        leadWord s ≠ word.toList ∧ q s = .miss t := by
    intro word l q t h
    rw [orElse_apply] at h
    have hne : leadWord s ≠ word.toList := by
      intro heq
      rw [bind_pure_ok (keyword_ok heq)] at h
      cases h
    refine ⟨hne, ?_⟩
    split at h
    · exact h
    · next hne' => exact absurd h (hne' t)
  obtain ⟨htrue, ht⟩ := hmiss ht
  obtain ⟨hfalse, ht⟩ := hmiss ht
  obtain ⟨hnull, -⟩ := hmiss ht
  simp only [literalWords, List.mem_cons, List.not_mem_nil, or_false] at hmem
  rcases hmem with hmem | hmem | hmem
  · exact htrue hmem
  · exact hfalse hmem
  · exact hnull hmem

/-- What is read as a name where no literal is found is a name. -/
theorem isName_of_misses (hlit : literal.Misses s) (h : name s = .ok x r) : isName x = true := by
  obtain ⟨c, cs, hx, hc, hcs, rfl, hr⟩ := eq_of_name_eq_ok h
  have hmem : ∀ d ∈ x.toList, isNameChar d = true := by
    rw [hx]
    intro d hd
    rcases List.mem_cons.mp hd with rfl | hd
    · exact isNameChar_of_isNameStart hc
    · exact List.all_eq_true.mp hcs d hd
  have hword := not_mem_literalWords_of_misses hlit
  rw [leadWord_append_of_isNameChar hmem hr] at hword
  rw [hx] at hword
  rw [isName, hx]
  show (isNameStart c && cs.all isNameChar && _) = true
  rw [hc, hcs, Bool.true_and, Bool.true_and, Bool.not_eq_true', List.contains_eq_mem,
    decide_eq_false_iff_not]
  exact hword

/-- What is read between quotes may stand there. -/
theorem yields_rawText (q : Char) : (rawText q).Yields fun raw => wellEscaped q raw = true := by
  intro s raw r h
  fun_induction rawText q s generalizing raw r with
  | case1 => cases h
  | case2 c s hc =>
    cases h
    rfl
  | case3 => cases h
  | case4 c _ hc d t raw' r' hraw ih =>
    cases h
    obtain rfl : c = '\\' := by simpa using hc
    have hescaped := ih _ _ hraw
    exact hescaped
  | case5 => cases h
  | case6 => cases h
  | case7 c s hquote hslash raw' r' hraw ih =>
    cases h
    rw [wellEscaped.eq_4, ih _ _ hraw, Bool.and_true, bne_iff_ne]
    · simpa using hquote
    · exact fun hc => absurd hc (by simpa using hslash)
    · exact fun _ _ hc => absurd hc (by simpa using hslash)
  | case8 => cases h
  | case9 => cases h

theorem yields_quotedBy (q : Quote) : (quotedBy q).Yields fun l => l.readable = true := by
  refine yields_skip fun _ => yields_bind (yields_rawText _) fun raw hraw => yields_skip fun _ => ?_
  refine yields_pure (Literal.readable_of_lexical ?_)
  rw [Literal.lexical, String.toList_ofList]
  exact hraw

theorem readable_natLiteral (n : Nat) : (natLiteral n).readable = true := by
  rw [natLiteral]
  split
  · next hn =>
    refine Literal.readable_of_lexical ?_
    rw [Literal.lexical, toInt_ofNat_of_le_maxInt hn]
    exact decide_eq_true (Int.natCast_nonneg n)
  · exact Literal.readable_ofFraction n 1

theorem yields_literal : literal.Yields fun l => l.readable = true := by
  refine yields_orElse (yields_skip fun _ => yields_pure rfl) ?_
  refine yields_orElse (yields_skip fun _ => yields_pure rfl) ?_
  refine yields_orElse (yields_skip fun _ => yields_pure rfl) ?_
  refine yields_orElse ?_ (yields_orElse ?_ (yields_orElse (yields_quotedBy _) (yields_quotedBy _)))
  · refine yields_skip fun _ => yields_skip fun _ => yields_skip fun _ => yields_pure ?_
    exact Literal.readable_ofFraction _ _
  · exact yields_skip fun _ => yields_pure (readable_natLiteral _)

end Reader

/-! ### Expressions -/

/-- The expression is valid, for the literals that are read. -/
def IsValid (e : Expr) : Prop := e.validBy Literal.readable = true

theorem isValid_binary {op : BinOp} {a b : Expr} (ha : IsValid a) (hb : IsValid b) :
    IsValid (.binary op a b) := by
  rw [IsValid, Expr.validBy, ha, hb]
  rfl

namespace Reader

variable {fuel : Nat} {whole operand : Reader Expr} {nested : Entry → Reader Expr}

theorem yields_within (hwhole : whole.Yields IsValid) (o c : Char) :
    (within o c whole).Yields IsValid :=
  yields_skip fun _ => yields_skip fun _ => yields_bind hwhole fun _ he =>
    yields_skip fun _ => yields_skip fun _ => yields_pure he

theorem yields_listIn (hwhole : whole.Yields IsValid) (fuel : Nat) (o c : Char) :
    (listIn fuel o c whole).Yields fun es => Expr.validListBy Literal.readable es = true := by
  have hitem : (do gap; whole : Reader Expr).Yields IsValid := yields_skip fun _ => hwhole
  have hitems : (do
      let items ← sepBy1 (do gap; whole) (do gap; char ',') fuel
      let _ ← optional (do gap; char ',')
      pure items : Reader (List Expr)).Yields fun es => ∀ e ∈ es, IsValid e :=
    yields_bind (yields_sepBy1 hitem _ fuel) fun _ h => yields_skip fun _ => yields_pure h.2
  refine yields_skip fun _ => yields_skip fun _ => yields_bind (yields_optional hitems) ?_
  intro items h
  refine yields_skip fun _ => yields_skip fun _ => yields_pure ?_
  rw [Expr.validListBy_iff]
  cases items with
  | none => nofun
  | some es => exact h es rfl

theorem yields_primary (hwhole : whole.Yields IsValid) (fuel : Nat) :
    (primary fuel whole).Yields IsValid := by
  refine yields_skip fun _ => yields_orElse (yields_within hwhole _ _) ?_
  refine yields_orElse (yields_map (yields_listIn hwhole fuel _ _)) ?_
  refine yields_orElse (yields_skip fun _ => yields_map yields_ident) ?_
  refine yields_orElse_of_misses (yields_map yields_literal) fun s e r hmiss h => ?_
  -- the reader of literals has missed here, so the name is no word that is a literal
  have hlit : literal.Misses s := by
    obtain ⟨t, ht⟩ := hmiss
    rw [bind_apply] at ht
    split at ht
    · cases ht
    · next u hu => exact ⟨u, hu⟩
    · cases ht
  obtain ⟨x, t, hx, h⟩ := exists_of_bind_eq_ok h
  cases h
  exact isName_of_misses hlit hx

/-- The parts of the suffix are valid. -/
def Suffix.IsValid : Suffix → Prop
  | .call args => Expr.validListBy Literal.readable args = true
  | .index i => Casework.IsValid i
  | .prop x => isIdentifier x = true

theorem Suffix.isValid_apply {e : Expr} (he : Casework.IsValid e) {sfx : Suffix}
    (h : sfx.IsValid) : Casework.IsValid (sfx.apply e) := by
  rw [Casework.IsValid] at he ⊢
  cases sfx with
  | call args =>
    rw [Suffix.apply, Expr.validBy, he, Bool.true_and]
    exact h
  | index i =>
    rw [Suffix.apply, Expr.validBy, he, Bool.true_and]
    exact h
  | prop x =>
    rw [Suffix.apply, Expr.validBy, he, Bool.true_and]
    exact h

theorem yields_suffix (hwhole : whole.Yields IsValid) (fuel : Nat) :
    (suffix fuel whole).Yields Suffix.IsValid := by
  refine yields_skip fun _ => yields_orElse (yields_map (yields_listIn hwhole fuel _ _)) ?_
  refine yields_orElse (yields_map (yields_within hwhole _ _)) ?_
  exact yields_skip fun _ => yields_skip fun _ => yields_map yields_ident

theorem yields_suffixed (hwhole : whole.Yields IsValid) (fuel : Nat) :
    (suffixed fuel whole).Yields IsValid := by
  refine yields_bind (yields_primary hwhole fuel) fun base hbase => ?_
  refine yields_bind (yields_many (yields_suffix hwhole fuel) fuel) fun suffixes hsuffixes => ?_
  refine yields_pure ?_
  induction suffixes generalizing base with
  | nil => exact hbase
  | cons sfx suffixes ih =>
    refine ih (sfx.apply base) (Suffix.isValid_apply hbase (hsuffixes sfx List.mem_cons_self)) ?_
    exact fun t ht => hsuffixes t (List.mem_cons_of_mem _ ht)

theorem yields_unary (hnested : ∀ entry, (nested entry).Yields IsValid) (fuel : Nat) :
    (unary fuel nested).Yields IsValid := by
  have hoperand : (nested .operand).Yields fun e => IsValid (.unary .not e) ∧
      IsValid (.unary .neg e) := fun s e r h => ⟨hnested _ s e r h, hnested _ s e r h⟩
  refine yields_skip fun _ => yields_orElse ?_ (yields_orElse ?_ (yields_suffixed (hnested _) fuel))
  · exact yields_skip fun _ => yields_skip fun _ => yields_bind hoperand fun _ h => yields_pure h.1
  · exact yields_skip fun _ => yields_skip fun _ => yields_skip fun _ =>
      yields_bind hoperand fun _ h => yields_pure h.2

theorem yields_binary (hoperand : operand.Yields IsValid) (fuel : Nat) (level : Level) :
    (binary fuel level operand).Yields IsValid := by
  have hstep : (step level operand).Yields fun part => IsValid part.2 :=
    yields_skip fun _ => yields_skip fun _ => yields_bind hoperand fun _ h => yields_pure h
  rcases Bool.eq_false_or_eq_true level.chains with hchains | hchains
  · rw [binary_of_chains hchains]
    refine yields_bind hoperand fun first hfirst => yields_bind (yields_many hstep fuel) ?_
    intro steps hsteps
    refine yields_pure ?_
    induction steps generalizing first with
    | nil => exact hfirst
    | cons part steps ih =>
      refine ih (attach first part) (isValid_binary hfirst (hsteps part List.mem_cons_self)) ?_
      exact fun part hpart => hsteps part (List.mem_cons_of_mem _ hpart)
  · rw [binary_of_not_chains hchains]
    refine yields_bind hoperand fun first hfirst => yields_bind (yields_optional hstep) ?_
    intro part hpart
    cases part with
    | none => exact yields_pure hfirst
    | some part => exact yields_pure (isValid_binary hfirst (hpart part rfl))

theorem yields_operation (hnested : ∀ entry, (nested entry).Yields IsValid) (fuel : Nat) :
    (operation fuel nested).Yields IsValid := by
  rw [operation]
  induction Level.all with
  | nil => exact yields_unary hnested fuel
  | cons level levels ih => exact yields_binary ih fuel level

theorem yields_ternary (hnested : ∀ entry, (nested entry).Yields IsValid) (fuel : Nat) :
    (ternary fuel nested).Yields IsValid := by
  have hbranches : (do
      gap
      char '?'
      let yes ← nested .whole
      gap
      char ':'
      let no ← commit (nested .choice)
      pure (yes, no) : Reader (Expr × Expr)).Yields fun b => IsValid b.1 ∧ IsValid b.2 :=
    yields_skip fun _ => yields_skip fun _ => yields_bind (hnested _) fun _ hyes =>
      yields_skip fun _ => yields_skip fun _ => yields_bind (yields_commit (hnested _)) fun _ hno =>
        yields_pure ⟨hyes, hno⟩
  refine yields_bind (yields_operation hnested fuel) fun cond hcond => ?_
  refine yields_bind (yields_optional hbranches) fun branches h => ?_
  cases branches with
  | none => exact yields_pure hcond
  | some b =>
    obtain ⟨hyes, hno⟩ := h b rfl
    refine yields_pure ?_
    rw [IsValid, Expr.validBy, hcond, hyes, hno]
    rfl

theorem yields_assign (hnested : ∀ entry, (nested entry).Yields IsValid) (fuel : Nat) :
    (assign fuel nested).Yields IsValid := by
  have hvalue : (do
      gap
      char '='
      notNext fun c => c == '=' || c == '>'
      nested .whole : Reader Expr).Yields IsValid :=
    yields_skip fun _ => yields_skip fun _ => yields_skip fun _ => hnested _
  refine yields_bind (yields_ternary hnested fuel) fun target htarget => ?_
  refine yields_bind (yields_optional hvalue) fun value h => ?_
  cases value with
  | none => exact yields_pure htarget
  | some value =>
    refine yields_pure ?_
    rw [IsValid, Expr.validBy, htarget, h value rfl]
    rfl

/-- Every expression that is read is valid. -/
theorem yields_expression (n : Nat) : ∀ entry, (expression n entry).Yields IsValid := by
  induction n with
  | zero => nofun
  | succ n ih =>
    intro entry
    rw [expression_succ]
    cases entry with
    | whole => exact yields_assign ih _
    | choice => exact yields_ternary ih _
    | operand => exact yields_unary ih _

theorem yields_expr (n : Nat) : (expr n).Yields IsValid := yields_expression n .whole

/-! ### Statements -/

section Statements

variable {fuel : Nat} {nested : Led}

/-- Statements that are read are valid, when the comments that lead them are. -/
def YieldsValid (nested : Led) : Prop :=
  ∀ k : List Comment, k.all Comment.wellFormed = true →
    (nested k).Yields fun s => s.every (.validBy Literal.readable) = true

theorem everyList_dangling {k : List Comment} (hk : k.all Comment.wellFormed = true) :
    Stmt.everyList (.validBy Literal.readable) (dangling k) = true := by
  rw [dangling]
  split
  · rfl
  · rw [Stmt.everyList, Stmt.every, Stmt.everyList, Bool.and_true]
    show (k.all Comment.wellFormed && true) = true
    rw [hk]
    rfl

theorem yields_statements (hnested : YieldsValid nested) (stop : Stop) (n : Nat) :
    (statements nested stop n).Yields fun ss =>
      Stmt.everyList (.validBy Literal.readable) ss = true := by
  induction n with
  | zero => nofun
  | succ n ih =>
    intro s ss r h
    have hgap := wellFormed_gapFrom 0 s
    rw [statements] at h
    split at h
    · cases h
      exact everyList_dangling hgap
    · split at h
      · cases h
        rfl
      · split at h
        · next v t hv =>
          split at h
          · next vs u hvs =>
            cases h
            rw [Stmt.everyList, hnested _ hgap _ v t hv, ih t vs r hvs]
            rfl
          · cases h
          · cases h
        · cases h
        · cases h

theorem yields_braced (hnested : YieldsValid nested) (fuel : Nat) :
    (braced fuel nested).Yields fun ss =>
      Stmt.everyList (.validBy Literal.readable) ss = true :=
  yields_skip fun _ => yields_bind (yields_statements hnested _ fuel) fun _ h =>
    yields_skip fun _ => yields_pure h

theorem yields_body (hnested : YieldsValid nested) (fuel : Nat) :
    (body fuel nested).Yields fun ss =>
      Stmt.everyList (.validBy Literal.readable) ss = true := by
  refine yields_skip fun _ => ?_
  intro s ss r h
  dsimp only at h
  split at h
  · exact yields_braced hnested fuel _ ss r h
  · obtain ⟨v, t, hv, h⟩ := exists_of_bind_eq_ok h
    cases h
    rw [Stmt.everyList, hnested [] rfl _ v _ hv]
    rfl

theorem yields_condition (fuel : Nat) : (condition fuel).Yields IsValid :=
  yields_require (yields_skip fun _ => yields_within (yields_expr fuel) _ _) _

theorem yields_clauses (hnested : YieldsValid nested) (fuel n : Nat) :
    (clauses fuel nested n).Yields fun c =>
      Stmt.everyClauses (.validBy Literal.readable) c.1 = true ∧
        Stmt.everyOtherwise (.validBy Literal.readable) c.2 = true := by
  induction n with
  | zero => nofun
  | succ n ih =>
    intro s c r h
    have hgap := wellFormed_gapFrom 0 s
    have helse : ∀ t, (do
        let stmts ← commit (body fuel nested)
        pure ([], some ⟨(gapFrom 0 s).1, stmts⟩) : Reader (List (Clause Stmt) × _)) t = .ok c r →
          Stmt.everyClauses (.validBy Literal.readable) c.1 = true ∧
            Stmt.everyOtherwise (.validBy Literal.readable) c.2 = true := by
      intro t h
      obtain ⟨stmts, u, hstmts, h⟩ := exists_of_bind_eq_ok h
      cases h
      refine ⟨rfl, ?_⟩
      rw [Stmt.everyOtherwise, yields_commit (yields_body hnested fuel) _ _ _ hstmts,
        Bool.and_true]
      exact hgap
    rw [clauses] at h
    split at h
    · obtain ⟨cond, t, hcond, h⟩ := exists_of_bind_eq_ok h
      obtain ⟨stmts, u, hstmts, h⟩ := exists_of_bind_eq_ok h
      obtain ⟨⟨others, otherwise⟩, v, hothers, h⟩ := exists_of_bind_eq_ok h
      cases h
      obtain ⟨ho, hotherwise⟩ := ih _ _ _ hothers
      refine ⟨?_, hotherwise⟩
      have hcond : cond.validBy Literal.readable = true := yields_condition fuel _ _ _ hcond
      rw [Stmt.everyClauses, yields_commit (yields_body hnested fuel) _ _ _ hstmts, ho,
        Bool.and_true, Bool.and_true, Bool.and_eq_true]
      exact ⟨hgap, hcond⟩
    all_goals
      split at h
      · exact helse _ h
      all_goals
        cases h
        exact ⟨rfl, rfl⟩

theorem yields_label (fuel : Nat) : (label fuel).Yields fun key => ∀ e ∈ key, IsValid e := by
  refine yields_bind (P := fun key => ∀ e ∈ key, IsValid e) (yields_require (yields_orElse ?_ ?_) _)
    fun key hkey => yields_skip fun _ => yields_pure hkey
  · refine yields_skip fun _ => yields_skip fun _ => yields_bind (yields_expr fuel) fun e he => ?_
    refine yields_pure fun f hf => ?_
    cases hf
    exact he
  · exact yields_skip fun _ => yields_pure nofun

theorem yields_cases (hnested : YieldsValid nested) (fuel n : Nat) :
    (cases fuel nested n).Yields fun cs =>
      Stmt.everyCases (.validBy Literal.readable) cs = true := by
  induction n with
  | zero => nofun
  | succ n ih =>
    intro s cs r h
    have hgap := wellFormed_gapFrom 0 s
    rw [cases] at h
    split at h
    · cases h
      rfl
    · obtain ⟨key, t, hkey, h⟩ := exists_of_bind_eq_ok h
      obtain ⟨stmts, u, hstmts, h⟩ := exists_of_bind_eq_ok h
      obtain ⟨others, v, hothers, h⟩ := exists_of_bind_eq_ok h
      cases h
      have hvalid := yields_label fuel _ _ _ hkey
      rw [Stmt.everyCases, yields_statements hnested .label fuel _ _ _ hstmts, ih _ _ _ hothers,
        Bool.and_true, Bool.and_true, Bool.and_eq_true]
      refine ⟨hgap, ?_⟩
      cases key with
      | none => rfl
      | some e => exact hvalid e rfl

theorem yields_leaf (fuel : Nat) :
    (leaf fuel).Yields fun l => l.validBy Literal.readable = true := by
  have hitem : (do gap; expr fuel : Reader Expr).Yields IsValid :=
    yields_skip fun _ => yields_expr fuel
  refine yields_orElse ?_ (yields_orElse ?_ (yields_orElse ?_ ?_))
  · refine yields_skip fun _ => yields_bind (yields_commit (yields_sepBy1 hitem _ fuel)) ?_
    intro operands h
    refine yields_skip fun _ => yields_pure ?_
    have hlist := (Expr.validListBy_iff Literal.readable operands).mpr h.2
    rw [Leaf.validBy, hlist, Bool.and_true, Bool.not_eq_true', List.isEmpty_eq_false_iff]
    exact h.1
  · refine yields_skip fun _ => yields_bind (yields_optional hitem) fun value h => ?_
    refine yields_skip fun _ => yields_pure ?_
    cases value with
    | none => rfl
    | some e => exact h e rfl
  · exact yields_skip fun _ => yields_skip fun _ => yields_pure rfl
  · exact yields_skip fun _ => yields_skip fun _ => yields_pure rfl

theorem yields_plain (fuel : Nat) :
    (plain fuel).Yields fun l => l.validBy Literal.readable = true :=
  yields_orElse (yields_skip fun _ => yields_pure rfl)
    (yields_bind (yields_expr fuel) fun _ he => yields_skip fun _ => yields_pure he)

/-- A statement of any kind is valid when the comments that lead it and the
statements within it are. -/
theorem yields_kind (hnested : YieldsValid nested) (fuel : Nat) :
    YieldsValid (kind fuel nested) := by
  intro k hk
  have hbody := yields_commit (yields_body hnested fuel)
  refine yields_orElse ?_ (yields_orElse ?_ (yields_orElse ?_ (yields_orElse ?_
    (yields_orElse ?_ ?_))))
  · refine yields_skip fun _ => yields_bind (yields_condition fuel) fun cond hcond => ?_
    refine yields_bind hbody fun stmts hstmts => yields_bind (yields_clauses hnested fuel fuel) ?_
    rintro ⟨elseifs, otherwise⟩ ⟨helseifs, hotherwise⟩
    refine yields_pure ?_
    rw [Stmt.every, hstmts, helseifs, hotherwise]
    simp only [Bool.and_true, Bool.and_eq_true]
    exact ⟨hk, hcond⟩
  · refine yields_skip fun _ => yields_bind (yields_condition fuel) fun cond hcond => ?_
    refine yields_bind hbody fun stmts hstmts => yields_pure ?_
    rw [Stmt.every, hstmts, Bool.and_true, Bool.and_eq_true]
    exact ⟨hk, hcond⟩
  · refine yields_skip fun _ => yields_bind (yields_condition fuel) fun subject hsubject => ?_
    refine yields_skip fun _ => yields_bind (yields_cases hnested fuel fuel) fun cs hcs => ?_
    refine yields_pure ?_
    rw [Stmt.every, hcs, Bool.and_true, Bool.and_eq_true]
    exact ⟨hk, hsubject⟩
  · refine yields_bind (yields_leaf fuel) fun l hl => yields_pure ?_
    rw [Stmt.every, Bool.and_eq_true]
    exact ⟨hk, hl⟩
  · refine yields_bind (yields_braced hnested fuel) fun stmts hstmts => yields_pure ?_
    rw [Stmt.every, hstmts, Bool.and_true]
    exact hk
  · refine yields_bind (yields_plain fuel) fun l hl => yields_pure ?_
    rw [Stmt.every, Bool.and_eq_true]
    exact ⟨hk, hl⟩

/-- Every statement that is read is valid. -/
theorem yields_statement (n : Nat) : YieldsValid (statement n) := by
  induction n with
  | zero => exact fun _ _ => nofun
  | succ n ih => exact yields_kind ih (n + 1)

theorem yields_program (fuel : Nat) :
    (program fuel).Yields fun p => p.every (.validBy Literal.readable) = true :=
  yields_skip fun _ => yields_bind (yields_statements (yields_statement fuel) _ fuel) fun _ h =>
    yields_pure h

end Statements

end Reader

/-- **Programs that are read are valid.** -/
theorem Program.every_of_parse {source : String} {p : Program} (h : Program.parse source = .ok p) :
    p.every (.validBy Literal.readable) = true := by
  unfold Program.parse at h
  dsimp only at h
  split at h
  · next program rest hread =>
    split at h
    · cases h
      exact Reader.yields_program _ _ _ _ hread
    · cases h
  · cases h
  · cases h

end Casework
