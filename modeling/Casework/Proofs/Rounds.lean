import Casework.Proofs.Progress

/-!
# The rounds of the loops

The readers are full of loops: operators with their operands, suffixes, the items of a
list, comments, statements, the clauses of a conditional and the cases of a switch.  A
loop that went on without reading anything would never end.  But every part that a loop
goes on with reads something.

So each round leaves a shorter end of the text, and a loop goes on at most as many times
as there are characters left.  A bound above that number is never reached: with any two
such bounds the reply is the same, also where it is a fault.

## Main definitions

* `Reader.Run` — rounds that follow one another.
* `Reader.IsLoop` — a bounded reader that makes the given rounds.
* `Reader.Terminates` — such a loop comes to its end by itself.
* `Reader.manyChecked` — repetition that breaks off when a round reads nothing.
* `Reader.LedRound` — a round of the loops over parts that comments lead.
* `Reader.LoopsEnd` — all loops of the readers come to their end.

## Main results

* `Reader.IsLoop.terminates` — a loop whose rounds leave less comes to its end.
* `Reader.isLoop_many`, `Reader.isLoop_statements`, `Reader.isLoop_clauses`,
  `Reader.isLoop_cases` — the loops and their rounds.
* `Reader.loops_terminate` — **every loop of the readers comes to its end, whatever the
  text**.
-/

namespace Casework

namespace Reader

variable {α β γ : Type} {p : Reader α}

/-! ### Loops -/

/-- Rounds that follow one another, with what each of them reads. -/
inductive Run (R : List Char → γ → List Char → Prop) : List Char → List γ → List Char → Prop
  | nil (s : List Char) : Run R s [] s
  | cons {s v r vs t} (round : R s v r) (rounds : Run R r vs t) : Run R s (v :: vs) t

/-- The reader makes the given rounds as long as it can, with a bound on their number. -/
structure IsLoop (F : Nat → Reader β) (R : List Char → γ → List Char → Prop) (add : γ → β → β) :
    Prop where
  /-- Where a round can be made, the loop makes it and goes on behind it. -/
  goes : ∀ ⦃s v r⦄, R s v r → ∀ n, F (n + 1) s = (F n r).map (add v)
  /-- Elsewhere it ends, whatever bound is left. -/
  stops : ∀ ⦃s⦄, (∀ v r, ¬ R s v r) → ∀ n, F (n + 1) s = F 1 s

/-- The loop comes to its end by itself. -/
structure Terminates (F : Nat → Reader β) (R : List Char → γ → List Char → Prop)
    (add : γ → β → β) : Prop where
  isLoop : IsLoop F R add
  /-- Each round leaves a shorter end of the text. -/
  shortens : ∀ ⦃s v r⦄, R s v r → r <:+ s ∧ r.length < s.length
  /-- There are at most as many rounds as characters. -/
  rounds_le : ∀ ⦃s vs r⦄, Run R s vs r → vs.length ≤ s.length
  /-- From every text the loop comes to a place where there is no further round, and with
  any bound above the number of characters it gives the reply that it gives there. -/
  ends : ∀ s, ∃ vs r, Run R s vs r ∧ (∀ v t, ¬ R r v t) ∧
    ∀ n, s.length < n → F n s = (F 1 r).map (vs.foldr add)

section Loops

variable {F : Nat → Reader β} {R : List Char → γ → List Char → Prop} {add : γ → β → β}
  {s r t : List Char} {v : γ} {vs : List γ} {n : Nat}

/-- Of two lists of rounds one stands behind the other. -/
theorem Run.exists_append {ws : List γ} (h : Run R s (vs ++ ws) r) :
    ∃ t, Run R s vs t ∧ Run R t ws r := by
  induction vs generalizing s with
  | nil => exact ⟨s, .nil s, h⟩
  | cons w vs ih =>
    cases h with
    | cons round rounds =>
      obtain ⟨t, hfront, hback⟩ := ih rounds
      exact ⟨t, .cons round hfront, hback⟩

/-- The last of some rounds stands behind the others. -/
theorem Run.exists_last (h : Run R s (vs ++ [v]) r) : ∃ t, Run R s vs t ∧ R t v r := by
  obtain ⟨t, hfront, hback⟩ := h.exists_append
  cases hback with
  | cons round rounds =>
    cases rounds
    exact ⟨t, hfront, round⟩

/-- Rounds that leave less are at most as many as there are characters. -/
theorem Run.length_le (hR : ∀ ⦃s v r⦄, R s v r → r.length < s.length) (h : Run R s vs r) :
    vs.length ≤ s.length := by
  induction h with
  | nil s => exact Nat.zero_le _
  | cons round rounds ih =>
    have hlt := hR round
    rw [List.length_cons]
    omega

/-- Behind any of its rounds the loop goes on with the bound that is left. -/
theorem IsLoop.eq_of_run (h : IsLoop F R add) (hrun : Run R s vs r) (n : Nat) :
    F (n + vs.length) s = (F n r).map (vs.foldr add) := by
  induction hrun with
  | nil s =>
    rw [List.length_nil, Nat.add_zero]
    cases F n s <;> rfl
  | @cons s v r vs t round rounds ih =>
    rw [List.length_cons, ← Nat.add_assoc, h.goes round, ih]
    cases F n t <;> rfl

/-- Where each round leaves less, a place is reached where there is none. -/
theorem exists_run (hR : ∀ ⦃s v r⦄, R s v r → r.length < s.length) (s : List Char) :
    ∃ vs r, Run R s vs r ∧ ∀ v t, ¬ R r v t := by
  induction hlength : s.length using Nat.strongRecOn generalizing s with
  | ind length ih =>
    by_cases hround : ∃ v r, R s v r
    · obtain ⟨v, r, hround⟩ := hround
      have hlt := hR hround
      obtain ⟨vs, t, hrun, hend⟩ := ih r.length (by omega) r rfl
      exact ⟨v :: vs, t, .cons hround hrun, hend⟩
    · exact ⟨[], s, .nil s, fun v r h => hround ⟨v, r, h⟩⟩

/-- What a loop has read are its rounds, within their bound, and what it read at its end. -/
theorem IsLoop.exists_run_of_ok (h : IsLoop F R add) (hzero : ∀ s, F 0 s = .miss s) {w : β}
    (hread : F n s = .ok w t) : ∃ vs r w', Run R s vs r ∧ vs.length < n ∧ F 1 r = .ok w' t ∧
      vs.foldr add w' = w := by
  induction n generalizing s w with
  | zero =>
    rw [hzero] at hread
    cases hread
  | succ n ih =>
    by_cases hround : ∃ v r, R s v r
    · obtain ⟨v, r, hround⟩ := hround
      rw [h.goes hround] at hread
      cases hrest : F n r with
      | ok w' u =>
        rw [hrest] at hread
        cases hread
        obtain ⟨vs, u, w'', hrun, hlength, hend, rfl⟩ := ih hrest
        exact ⟨v :: vs, u, w'', .cons hround hrun, Nat.succ_lt_succ hlength, hend, rfl⟩
      | miss u | halt e u =>
        rw [hrest] at hread
        cases hread
    · rw [h.stops fun v r hR => hround ⟨v, r, hR⟩] at hread
      exact ⟨[], s, w, .nil s, Nat.succ_pos n, hread, rfl⟩

/-- A loop whose rounds leave less comes to its end. -/
theorem IsLoop.terminates (h : IsLoop F R add)
    (hR : ∀ ⦃s v r⦄, R s v r → r <:+ s ∧ r.length < s.length) : Terminates F R add where
  isLoop := h
  shortens := hR
  rounds_le := fun _ _ _ hrun => hrun.length_le fun _ _ _ hround => (hR hround).2
  ends := by
    intro s
    obtain ⟨vs, r, hrun, hend⟩ := exists_run (fun _ _ _ hround => (hR hround).2) s
    refine ⟨vs, r, hrun, hend, fun n hn => ?_⟩
    -- a bound above the number of characters leaves one for the end
    have hle := hrun.length_le fun _ _ _ hround => (hR hround).2
    obtain ⟨m, rfl⟩ : ∃ m, n = m + 1 + vs.length := ⟨n - vs.length - 1, by omega⟩
    rw [h.eq_of_run hrun, h.stops hend]

end Loops

/-! ### Repetition -/

theorem isLoop_many (p : Reader α) :
    IsLoop (many p) (fun s a r => p s = .ok a r) List.cons where
  goes := by
    intro s a r h n
    rw [many_succ, h]
    dsimp only
    cases many p n r <;> rfl
  stops := by
    intro s hno n
    rw [many_succ, many_succ]
    cases h : p s with
    | ok a r => exact absurd h (hno a r)
    | miss r | halt e r => rfl

/-- Reads as often as the reader fits, but gives no reply at all as soon as a round has read
nothing. -/
def manyChecked (p : Reader α) : Nat → List Char → Option (Reply (List α))
  | 0, s => some (.miss s)
  | n + 1, s =>
    match p s with
    | .ok a r =>
      if r.length = s.length then none else (manyChecked p n r).map (Reply.map (a :: ·))
    | .miss _ => some (.ok [] s)
    | .halt e r => some (.halt e r)

/-- Where every round reads something, checking for it changes nothing. -/
theorem Shortens.manyChecked_eq (hp : p.Shortens) (n : Nat) (s : List Char) :
    manyChecked p n s = some (many p n s) := by
  induction n generalizing s with
  | zero => rfl
  | succ n ih =>
    rw [manyChecked, many_succ]
    cases h : p s with
    | ok a r =>
      have hlt := (hp h).2
      dsimp only
      rw [if_neg (by omega), ih, Option.map_some]
      cases many p n r <;> rfl
    | miss r => rfl
    | halt e r => rfl

/-- The reader can be repeated as long as it fits, and that comes to its end. -/
structure Repeats (p : Reader α) : Prop where
  shortens : p.Shortens
  terminates : Terminates (many p) (fun s a r => p s = .ok a r) List.cons
  /-- No repetition is broken off for a round that has read nothing. -/
  checked : ∀ n s, manyChecked p n s = some (many p n s)

theorem Shortens.repeats (hp : p.Shortens) : Repeats p where
  shortens := hp
  terminates := (isLoop_many p).terminates hp
  checked := hp.manyChecked_eq

/-! ### Loops over parts that comments lead -/

/-- Readers in sequence may be grouped in any way. -/
instance : LawfulMonad Reader :=
  LawfulMonad.mk' Reader
    (fun p => by
      funext s
      show (p >>= fun a => pure a) s = p s
      rw [bind_apply]
      cases p s <;> rfl)
    (fun _ _ => rfl)
    (fun p _ _ => by
      funext s
      rw [bind_apply, bind_apply, bind_apply]
      cases p s <;> rfl)

/-- A round of a loop whose parts are led by the comments before them: at the next token
the loop goes on, and there a part is read. -/
structure LedRound (goesOn : List Char → Prop) (part : List Comment → Reader γ)
    (s : List Char) (v : γ) (r : List Char) : Prop where
  goesOn : goesOn (ahead s)
  read : part (gapFrom 0 s).1 (ahead s) = .ok v r

theorem LedRound.shortens {goesOn : List Char → Prop} {part : List Comment → Reader γ}
    (hpart : ∀ k, (part k).Shortens) {s r : List Char} {v : γ} (h : LedRound goesOn part s v r) :
    r <:+ s ∧ r.length < s.length := by
  have hgap : ahead s <:+ s := gapFrom_suffix 0 s
  obtain ⟨hsuffix, hlt⟩ := hpart _ h.read
  exact ⟨hsuffix.trans hgap, Nat.lt_of_lt_of_le hlt hgap.length_le⟩

/-- A loop that goes on with a part and with itself behind it makes rounds of this kind. -/
theorem isLoop_of_bind {F : Nat → Reader β} {goesOn : List Char → Prop}
    {part : List Comment → Reader γ} {add : γ → β → β}
    (hgoes : ∀ s n, goesOn (ahead s) → F (n + 1) s =
      (do let v ← part (gapFrom 0 s).1; let w ← F n; pure (add v w) : Reader β) (ahead s))
    (hstops : ∀ s n, ¬ goesOn (ahead s) → F (n + 1) s = F 1 s) :
    IsLoop F (LedRound goesOn part) add where
  goes := by
    intro s v r hround n
    rw [hgoes s n hround.goesOn, bind_ok hround.read, bind_apply]
    cases F n r <;> rfl
  stops := by
    intro s hno n
    by_cases hs : goesOn (ahead s)
    · rw [hgoes s n hs, hgoes s 0 hs, bind_apply, bind_apply]
      cases h : part (gapFrom 0 s).1 (ahead s) with
      | ok v r => exact absurd ⟨hs, h⟩ (hno v r)
      | miss r | halt e r => rfl
    · exact hstops s n hs

section Led

variable (fuel : Nat) (nested : Led)

/-- Reads a clause with a condition, which the given comments lead. -/
def clause (fuel : Nat) (nested : Led) (k : List Comment) : Reader (Clause Stmt) := do
  keyword "elseif"
  let cond ← condition fuel
  let stmts ← commit (body fuel nested)
  pure ⟨k, cond, stmts⟩

/-- Reads a case, which the given comments lead, up to where its statements end. -/
def caseOf (fuel : Nat) (nested : Led) (k : List Comment) : Reader (Case Stmt) := do
  let key ← label fuel
  let stmts ← statements nested .label fuel
  pure ⟨k, key, stmts⟩

/-- A list of statements goes on exactly where none of its stops is reached. -/
theorem starts_ahead_iff {stop : Stop} {s : List Char} : Starts stop (ahead s) ↔
    ((ahead s).isEmpty || braceAhead (ahead s)) = false ∧
      (stop == .label && labelAhead (ahead s)) = false := by
  constructor
  · intro h
    have hempty : (ahead s).isEmpty = false := by simpa using h.ne_nil
    refine ⟨by rw [hempty, h.noBrace]; rfl, ?_⟩
    cases stop with
    | brace => rfl
    | label => rw [h.noLabel rfl]; rfl
  · rintro ⟨hopen, hlabel⟩
    rw [Bool.or_eq_false_iff] at hopen
    refine ⟨atToken_gapFrom 0 s, by simpa using hopen.1, hopen.2, ?_⟩
    rintro rfl
    exact hlabel

theorem isLoop_statements (stop : Stop) :
    IsLoop (statements nested stop) (LedRound (Starts stop) nested) List.cons := by
  have hahead : ∀ s, (gapFrom 0 s).2 = ahead s := fun _ => rfl
  refine isLoop_of_bind (fun s n hs => ?_) fun s n hs => ?_
  · obtain ⟨hopen, hlabel⟩ := starts_ahead_iff.mp hs
    simp only [statements, hahead, hopen, hlabel, Bool.false_eq_true, if_false, bind_apply]
    cases nested (gapFrom 0 s).1 (ahead s) with
    | ok v r =>
      dsimp only
      cases statements nested stop n r <;> rfl
    | miss r | halt e r => rfl
  · by_cases hclose : ((ahead s).isEmpty || braceAhead (ahead s)) = true
    · simp only [statements, hahead, hclose, if_true]
    · rw [Bool.not_eq_true] at hclose
      have hlabel : (stop == .label && labelAhead (ahead s)) = true := by
        rw [← Bool.not_eq_false]
        exact fun hlabel => hs (starts_ahead_iff.mpr ⟨hclose, hlabel⟩)
      simp only [statements, hahead, hclose, hlabel, Bool.false_eq_true, if_false, if_true]

theorem isLoop_clauses : IsLoop (clauses fuel nested)
    (LedRound ((keyword "elseif").fits · = true) (clause fuel nested))
      fun c others => (c :: others.1, others.2) := by
  have hahead : ∀ s, (gapFrom 0 s).2 = ahead s := fun _ => rfl
  refine isLoop_of_bind (fun s n hs => ?_) fun s n hs => ?_
  · rw [fits] at hs
    split at hs
    · next r hword =>
      simp only [clauses, hahead, hword, clause, bind_assoc, pure_bind]
      rw [bind_ok hword]
    · cases hs
  · rw [fits] at hs
    simp only [clauses, hahead]
    split
    · next r hword =>
      rw [hword] at hs
      exact absurd rfl hs
    · rfl
    · rfl

theorem isLoop_cases : IsLoop (cases fuel nested)
    (LedRound (braceAhead · = false) (caseOf fuel nested)) List.cons := by
  have hahead : ∀ s, (gapFrom 0 s).2 = ahead s := fun _ => rfl
  refine isLoop_of_bind (fun s n hs => ?_) fun s n hs => ?_
  · simp only [cases, hahead, hs, Bool.false_eq_true, if_false, caseOf, bind_assoc, pure_bind]
  · rw [Bool.not_eq_false] at hs
    simp only [cases, hahead, hs, if_true]

variable {nested} (hnested : ∀ k, (nested k).LeavesSuffix)
include hnested

theorem shortens_clause (k : List Comment) : (clause fuel nested k).Shortens :=
  shortens_bind (shortens_keyword (by decide)) fun _ =>
    leavesSuffix_bind (leavesSuffix_condition fuel) fun _ =>
      leavesSuffix_map (leavesSuffix_commit (leavesSuffix_body hnested fuel))

theorem shortens_caseOf (k : List Comment) : (caseOf fuel nested k).Shortens :=
  shortens_bind (shortens_label fuel) fun _ =>
    leavesSuffix_map (leavesSuffix_statements hnested .label fuel)

end Led

/-! ### All loops -/

/-- What the loops are made of reads something, and the loops come to their end: with the
given bound on their rounds, and around expressions and statements of the given depth. -/
structure LoopsEnd (fuel n : Nat) : Prop where
  /-- Expressions of every strength. -/
  tiers : ∀ strength, (tier fuel (expression n) strength).Shortens
  /-- Expressions that stand in others, and whole ones. -/
  expressions : ∀ entry, (expression n entry).Shortens
  /-- Operators with their operands, on each level. -/
  steps : ∀ level : Level, Repeats (step level (tier fuel (expression n) (level.strength + 1)))
  /-- Calls, indices and properties. -/
  suffixes : Repeats (suffix fuel (expr n))
  /-- The items of a list. -/
  item : (do gap; expr n : Reader Expr).Shortens
  /-- The commas between them. -/
  comma : (do gap; char ',' : Reader Unit).Shortens
  /-- Commas with the items behind them. -/
  items : Repeats (do (do gap; char ','); (do gap; expr n) : Reader Expr)
  comment : comment.Shortens
  /-- The comments of a gap. -/
  gaps : Repeats spacedComment ∧ ∀ s m, s.length < m → comments s = (do
    let found ← many spacedComment m
    let _ ← span isLayout
    pure found : Reader (List Comment)) s
  /-- Statements of every kind. -/
  kinds : ∀ k, (kind fuel (statement n) k).Shortens
  /-- Lists of statements. -/
  lists : ∀ stop, Terminates (statements (statement n) stop)
    (LedRound (Starts stop) (statement n)) List.cons
  /-- The clauses of a conditional. -/
  clauses : Terminates (clauses fuel (statement n))
    (LedRound ((keyword "elseif").fits · = true) (clause fuel (statement n)))
    fun c others => (c :: others.1, others.2)
  /-- The cases of a switch. -/
  cases : Terminates (cases fuel (statement n))
    (LedRound (braceAhead · = false) (caseOf fuel (statement n))) List.cons

/-- **Every loop of the readers comes to its end, whatever the text.**  All parts that a
loop goes on with read something, so that each round leaves a shorter end of the text; a
loop makes at most as many rounds as there are characters, and no bound above that number
is reached, whether the text is well formed or not. -/
theorem loops_terminate (fuel n : Nat) : LoopsEnd fuel n := by
  have hexpression := leavesSuffix_expression n
  have hstatement := leavesSuffix_statement n
  have hitem : (do gap; expr n : Reader Expr).Shortens :=
    shortens_skip leavesSuffix_gap fun _ => shortens_expr n
  exact {
    tiers := shortens_tier hexpression fuel
    expressions := shortens_expression n
    steps := fun level => (shortens_step (leavesSuffix_tier hexpression fuel _) level).repeats
    suffixes := (shortens_suffix (leavesSuffix_expr n) fuel).repeats
    item := hitem
    comma := shortens_comma
    items := (shortens_skip leavesSuffix_comma fun _ => hitem).repeats
    comment := shortens_comment
    gaps := ⟨shortens_spacedComment.repeats, fun s m => comments_eq_many⟩
    kinds := shortens_kind hstatement fuel
    lists := fun stop => (isLoop_statements (statement n) stop).terminates fun _ _ _ =>
      LedRound.shortens (shortens_statement n)
    clauses := (isLoop_clauses fuel (statement n)).terminates fun _ _ _ =>
      LedRound.shortens (shortens_clause fuel hstatement)
    cases := (isLoop_cases fuel (statement n)).terminates fun _ _ _ =>
      LedRound.shortens (shortens_caseOf fuel hstatement) }

end Reader

end Casework
