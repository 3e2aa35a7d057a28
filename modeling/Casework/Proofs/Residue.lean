import Casework.Proofs.Lead
import Casework.Proofs.Statement

/-!
# Behind the first word of an expression

A reader that takes the word at the front of an expression for something else goes
on behind it, with the rest of the name and the frames.  Whether these read as an
expression is decided by what stands first: the rest of a qualified name, one
argument of a call, an index, and the right operand of a minus sign do, and nothing
else does.

## Main definitions

* `Residue` — what is left of an expression behind its first word.
* `Residue.isOperand`, `Residue.isBody`, `Residue.behindCondition` — what is left
  reads as an expression, as a statement, or as a condition and what follows it.

## Main results

* `Residue.exists_written`, `Residue.expr_misses` — **what is left reads as an
  expression exactly when it begins like an operand**.
* `Residue.body_ok`, `Residue.condition_ok` and their like — the same for
  statements and conditions.
-/

namespace Casework

open Casework.Expr (Place bracket leftPlace)

variable {e : Expr}

/-! ### Behind the first word -/

/-- What is left of an expression behind the word it begins with: the rest of a
qualified name, and the frames. -/
structure Residue where
  name : List Char
  frames : List Frame

/-- What is left behind the first word of the name. -/
def Residue.of (x : String) (fs : List Frame) : Residue := ⟨x.toList.dropWhile isWordChar, fs⟩

namespace Residue

/-- The text of what is left. -/
def text (w : Residue) : List Char := w.name ++ framesText w.frames

/-- Nothing is left. -/
def isEmpty (w : Residue) : Bool := w.name.isEmpty && w.frames.isEmpty

end Residue

/-- The frame reads as an operand by itself: one argument in parentheses, an index in
brackets, or a minus sign and what is subtracted. -/
def Frame.isOperand : Frame → Bool
  | .call [_] | .index _ | .binary .sub _ => true
  | _ => false

namespace Residue

/-- What is left begins like an operand. -/
def isOperand (w : Residue) : Bool := !w.name.isEmpty || w.frames.head?.any Frame.isOperand

theorem text_of_isEmpty {w : Residue} (h : w.isEmpty = true) : w.text = [] := by
  rw [isEmpty, Bool.and_eq_true, List.isEmpty_iff, List.isEmpty_iff] at h
  rw [text, h.1, h.2]
  rfl

/-- What is left stands behind the first word of a valid expression. -/
structure IsValid (w : Residue) : Prop where
  name : w.name = [] ∨ w.name.head? = some '\\' ∧ isName (String.ofList w.name) = true
  fits : Fits 13 w.frames
  frames : ∀ f ∈ w.frames, f.IsValid

/-- What stands behind the first word of a valid expression is valid. -/
theorem isValid_of {x : String} {fs : List Frame} (h : Leads x fs e) (he : Casework.IsValid e) :
    (Residue.of x fs).IsValid := by
  obtain ⟨hx, hfs⟩ := h.isValid he
  refine ⟨?_, h.fits, hfs⟩
  show x.toList.dropWhile isWordChar = [] ∨ _
  cases hrest : x.toList.dropWhile isWordChar with
  | nil => exact Or.inl rfl
  | cons c cs =>
    -- the first character of a name that is none of a word is a backslash
    have hmem : ∀ d ∈ c :: cs, isNameChar d = true := by
      rw [← hrest]
      exact fun d hd => Reader.isNameChar_of_mem hx d ((List.dropWhile_sublist _).subset hd)
    have hword : isWordChar c = false := by
      have := List.head?_dropWhile_not isWordChar x.toList
      rw [hrest] at this
      simpa using this
    obtain rfl : c = '\\' := by
      have := hmem c List.mem_cons_self
      simpa [isNameChar, hword] using this
    have hcs : cs.all isNameChar = true :=
      List.all_eq_true.mpr fun d hd => hmem d (List.mem_cons_of_mem _ hd)
    refine Or.inr ⟨?_, ?_⟩
    · show (x.toList.dropWhile isWordChar).head? = _
      rw [hrest]
      rfl
    · show isName (String.ofList (x.toList.dropWhile isWordChar)) = true
      rw [hrest, isName, String.toList_ofList]
      show (_ && cs.all isNameChar && _) = true
      rw [hcs]
      rfl

/-- The text behind the first word of an expression. -/
theorem dropWhile_text {x : String} {fs : List Frame} (h : Leads x fs e) (s : List Char) :
    (e.text ++ ';' :: s).dropWhile isWordChar = (Residue.of x fs).text ++ ';' :: s := by
  obtain ⟨c, u, hu, hc⟩ := exists_framesText_eq_cons fs s
  have htext : (Residue.of x fs).text ++ ';' :: s = x.toList.dropWhile isWordChar ++ c :: u := by
    rw [text, List.append_assoc, ← hu]
    rfl
  rw [htext, h.text_eq, List.append_assoc, hu, List.dropWhile_append]
  split
  · next hempty =>
    rw [List.dropWhile_cons_of_neg (by simp [hc]), List.isEmpty_iff.mp hempty, List.nil_append]
  · rfl

theorem leadWord_text {x : String} {fs : List Frame} (h : Leads x fs e) (s : List Char) :
    leadWord (e.text ++ ';' :: s) = leadWord x.toList := by
  obtain ⟨c, u, hu, hc⟩ := exists_framesText_eq_cons fs s
  rw [h.text_eq, List.append_assoc, hu, leadWord_append_of_not hc]

variable {w : Residue}

/-- What begins like an operand is one of the ways to write an expression, and no word
stands at its front. -/
theorem exists_written (h : w.IsValid) (hop : w.isOperand = true) :
    ∃ g k q e t, IsGap g k ∧ w.text = g ++ t ∧ Written q e t ∧ leadWord t = [] := by
  obtain ⟨y, fs⟩ := w
  obtain ⟨hname, hfits, hvalid⟩ := h
  rcases hname with rfl | ⟨hhead, hname⟩
  · cases fs with
    | nil => cases hop
    | cons f fs =>
      have hf := hvalid f List.mem_cons_self
      have hfs : ∀ f ∈ fs, f.IsValid := fun f hf => hvalid f (List.mem_cons_of_mem _ hf)
      have hrest : Fits f.strength fs := hfits.2
      rw [isOperand, List.head?_cons] at hop
      cases f with
      | call args =>
        match args with
        | [] => cases hop
        | [a] =>
          have ha : Casework.IsValid a := by
            have hargs : Expr.validListBy Literal.readable [a] = true := hf
            rwa [Expr.validListBy, Expr.validListBy, Bool.and_true] at hargs
          obtain ⟨a', ha⟩ := ha.exists_written
          obtain ⟨q, e', he'⟩ := exists_written_frames hrest hfs
            (.paren isGap_nil ha isGap_nil) (Nat.le_succ 12)
          exact ⟨[], [], q, e', _, isGap_nil, rfl, he', rfl⟩
        | _ :: _ :: _ => cases hop
      | index i =>
        obtain ⟨i', hi⟩ := IsValid.exists_written hf
        have hitem : Items Written [i'] i.text := by
          have hone := Items.one isGap_nil hi isGap_nil
          rwa [List.append_nil, List.nil_append] at hone
        obtain ⟨q, e', he'⟩ := exists_written_frames hrest hfs (.array hitem) (Nat.le_succ 12)
        exact ⟨[], [], q, e', _, isGap_nil, rfl, he', rfl⟩
      | binary op b =>
        cases op with
        | sub =>
          obtain ⟨b', hb⟩ := IsValid.exists_written hf
          obtain ⟨p, hb, hp⟩ := Expr.exists_written_bracket (.above 9) hb rfl
          obtain ⟨q, e', hq, he'⟩ := exists_written_neg hb (of_decide_eq_true hp)
          obtain ⟨q, e', he'⟩ := exists_written_frames hrest hfs he' (Nat.le_of_lt hq)
          exact ⟨[' '], [], q, e', _, isGap_layout rfl, rfl, he', rfl⟩
        | _ => cases hop
      | _ => cases hop
  · obtain ⟨q, e', he'⟩ := exists_written_frames hfits hvalid (.name hname) (Nat.le_refl _)
    rw [String.toList_ofList] at he'
    refine ⟨[], [], q, e', _, isGap_nil, rfl, he', ?_⟩
    cases y with
    | nil => cases hhead
    | cons c y =>
      cases hhead
      exact leadWord_cons_of_not (by decide) _

end Residue

/-! ### Where no operand begins -/

namespace Reader

variable {fuel n : Nat} {nested : Entry → Reader Expr} {s u : List Char} {args : List Expr}

/-- A unary operator without an operand is no expression. -/
theorem unary_misses_of_operator {c : Char} (hs : ahead s = c :: u) (hc : c = '!' ∨ c = '-')
    (h : (nested .operand).Misses (ahead u)) : (unary fuel nested).Misses s := by
  have hgap : gap s = .ok () (c :: u) := by rw [← hs]; rfl
  have hgap' : gap u = .ok () (ahead u) := rfl
  have hat : ahead (c :: u) = c :: u := by
    rw [← hs]
    exact ahead_of_atToken (atToken_gapFrom 0 s)
  have hsuffixed : (suffixed fuel (nested .whole)).Misses (c :: u) := by
    refine bind_miss (primary_misses ?_ fuel _)
    rw [hat]
    intro d hd
    cases hd
    rcases hc with rfl | rfl <;> decide
  refine misses_of_bind_ok hgap ?_
  rcases hc with rfl | rfl
  · refine orElse_misses (misses_of_bind_ok (char_self _ _) ?_)
      (orElse_misses (bind_miss (char_miss (by simp))) hsuffixed)
    exact misses_of_bind_ok hgap' (bind_miss h)
  · refine orElse_misses (bind_miss (char_miss (by simp))) (orElse_misses ?_ hsuffixed)
    refine misses_of_bind_ok (char_self _ _) ?_
    by_cases hnext : ∀ c ∈ u.head?, (c == '-') = false
    · exact misses_of_bind_ok (notNext_ok hnext) (misses_of_bind_ok hgap' (bind_miss h))
    · cases u with
      | nil => exact absurd nofun hnext
      | cons d u =>
        refine bind_miss (notNext_miss ?_)
        simpa using hnext

/-- Parentheses that hold no expression are none. -/
theorem unary_misses_of_paren (hs : AtToken ('(' :: u))
    (h : (within '(' ')' (nested .whole)).Misses ('(' :: u)) :
    (unary fuel nested).Misses ('(' :: u) := by
  have hatom : ∀ c ∈ ('(' :: u).head?, isAtomStart c = false := by
    intro c hc
    cases hc
    decide
  rw [Misses, unary_bare ⟨hs, by simp, by simp⟩]
  refine bind_miss (misses_of_bind_ok (gap_atToken hs) (orElse_misses h ?_))
  exact orElse_misses (bind_miss (listIn_misses (by simp) _ _ _))
    (orElse_misses (bind_miss (char_miss (by simp)))
      (orElse_misses (bind_miss (literal_misses hatom)) (bind_miss (name_misses hatom))))

/-- The arguments of a call are no expression in parentheses, unless there is one. -/
theorem within_misses_of_args (hargs : Expr.validListBy Literal.readable args = true)
    (hone : args.length ≠ 1) (hn : (separated (args.map Expr.text)).length < n) (s : List Char) :
    (within '(' ')' (expr n)).Misses ('(' :: (separated (args.map Expr.text) ++ ')' :: s)) := by
  match args with
  | [] =>
    have hclosing : AtToken (')' :: s) := atToken_cons (by decide) s
    refine misses_of_bind_ok (char_self _ _) (misses_of_bind_ok (gap_atToken hclosing) ?_)
    exact bind_miss (expression_misses_of_ahead (ahead_of_atToken hclosing) (by decide) n .whole)
  | [_] => exact absurd rfl hone
  | a :: b :: rest =>
    rw [Expr.validListBy, Bool.and_eq_true] at hargs
    obtain ⟨a', ha⟩ := IsValid.exists_written hargs.1
    rw [List.map_cons, List.map_cons, separated_cons_cons] at hn ⊢
    simp only [List.length_append, List.length_cons] at hn
    simp only [List.append_assoc, List.cons_append]
    have hread := ha.expr_ok (n := n) (by omega)
      (ends_closing isGap_nil (c := ',') rfl
        (' ' :: (separated (b.text :: rest.map Expr.text) ++ ')' :: s)))
    rw [List.nil_append] at hread
    refine misses_of_bind_ok (char_self _ _) (misses_of_bind_ok (gap_atToken (ha.atToken _)) ?_)
    refine misses_of_bind_ok hread (misses_of_bind_ok (gap_atToken (atToken_cons (by decide) _)) ?_)
    exact bind_miss (char_miss (by simp))

end Reader

/-- The operator is what stands first in the frame of an operation. -/
theorem Frame.ahead_binary (op : BinOp) (b : Expr) (s : List Char) :
    ahead ((Frame.binary op b).text ++ s) =
      op.text ++ ' ' :: (bracket (.above op.precedence) b.precedence b.text ++ s) := by
  rw [Frame.text, List.cons_append, List.append_assoc, List.cons_append]
  exact isGap_nil.ahead_space_append (op.atToken_text _)

namespace Residue

open Reader

variable {n : Nat} {w : Residue}

/-- Behind the first word stands neither a semicolon nor a colon, unless nothing is
left. -/
theorem exists_ahead_eq_cons (h : w.IsValid) (hne : w.isEmpty = false) (s : List Char) :
    ∃ c u, ahead (w.text ++ s) = c :: u ∧ c ≠ ';' ∧ c ≠ ':' ∧ c ≠ '\x7b' ∧
      isWordChar c = false := by
  obtain ⟨y, fs⟩ := w
  rcases h.name with hy | ⟨hhead, -⟩
  · obtain rfl : y = [] := hy
    cases fs with
    | nil => cases hne
    | cons f fs =>
      rw [text, List.nil_append, framesText_cons, List.append_assoc]
      cases f with
      | binary op b =>
        rw [Frame.ahead_binary]
        cases op <;> exact ⟨_, _, rfl, by decide, by decide, by decide, by decide⟩
      | assign b => exact ⟨'=', _, rfl, by decide, by decide, by decide, by decide⟩
      | ternary b c => exact ⟨'?', _, rfl, by decide, by decide, by decide, by decide⟩
      | call args => exact ⟨'(', _, rfl, by decide, by decide, by decide, by decide⟩
      | index i => exact ⟨'[', _, rfl, by decide, by decide, by decide, by decide⟩
      | prop x => exact ⟨'-', _, rfl, by decide, by decide, by decide, by decide⟩
  · cases y with
    | nil => cases hhead
    | cons c y =>
      cases hhead
      exact ⟨'\\', _, rfl, by decide, by decide, by decide, by decide⟩

/-- What begins like an operand reads as an expression. -/
theorem expr_ok (h : w.IsValid) (hop : w.isOperand = true) (hn : w.text.length < n)
    (s : List Char) : ∃ e, expr n (w.text ++ ';' :: s) = .ok e (';' :: s) := by
  obtain ⟨g, k, q, e, t, hg, htext, hwritten, -⟩ := exists_written h hop
  rw [htext, List.length_append] at hn
  obtain ⟨n, rfl⟩ := Nat.exists_eq_succ_of_ne_zero (n := n) (by omega)
  have hread := hwritten.expr_ok (n := n + 1) (by omega) (ends_closing isGap_nil (c := ';') rfl s)
  refine ⟨e, ?_⟩
  rw [htext, List.append_assoc]
  exact (expression_gap hg n .whole _).trans hread

/-- Nothing else reads as an expression. -/
theorem expr_misses (h : w.IsValid) (hop : w.isOperand = false) (hn : w.text.length < n)
    (s : List Char) : (expr n).Misses (w.text ++ ';' :: s) := by
  obtain ⟨y, fs⟩ := w
  obtain rfl : y = [] := by
    rw [isOperand, Bool.or_eq_false_iff, Bool.not_eq_false', List.isEmpty_iff] at hop
    exact hop.1
  rw [text, List.nil_append] at hn ⊢
  cases fs with
  | nil =>
    have hat : AtToken (';' :: s) := atToken_cons (by decide) s
    exact expression_misses_of_ahead (ahead_of_atToken hat) (by decide) n .whole
  | cons f fs =>
    have hf := h.frames f List.mem_cons_self
    rw [framesText_cons, List.append_assoc]
    cases f with
    | binary op b =>
      have hahead := Frame.ahead_binary op b (framesText fs ++ ';' :: s)
      -- only the operators that begin with an exclamation mark begin like an operand
      cases op with
      | sub => cases hop
      | notEqual =>
        refine expression_misses_of_unary (unary_misses_of_operator hahead (Or.inl rfl) ?_) .whole
        exact expression_misses_of_ahead (r := _ :: _) rfl (by decide) _ .operand
      | notIdentical =>
        refine expression_misses_of_unary (unary_misses_of_operator hahead (Or.inl rfl) ?_) .whole
        exact expression_misses_of_ahead (r := _ :: _) rfl (by decide) _ .operand
      | _ => exact expression_misses_of_ahead hahead (by decide) n .whole
    | assign b => exact expression_misses_of_ahead (c := '=') rfl (by decide) n .whole
    | ternary b c => exact expression_misses_of_ahead (c := '?') rfl (by decide) n .whole
    | call args =>
      have hone : args.length ≠ 1 := by
        intro hone
        obtain ⟨a, rfl⟩ := List.length_eq_one_iff.mp hone
        cases hop
      rw [framesText_cons, List.length_append] at hn
      have hlen : (separated (args.map Expr.text)).length < n - 1 := by
        simp only [Frame.text, List.length_cons, List.length_append, List.length_nil] at hn
        omega
      have htext : (Frame.call args).text ++ (framesText fs ++ ';' :: s) =
          '(' :: (separated (args.map Expr.text) ++ ')' :: (framesText fs ++ ';' :: s)) := by
        simp [Frame.text]
      rw [htext]
      refine expression_misses_of_unary
        (unary_misses_of_paren (atToken_cons (by decide) _) ?_) .whole
      exact within_misses_of_args hf hone hlen _
    | index i => cases hop
    | prop x =>
      have hahead : ahead ((Frame.prop x).text ++ (framesText fs ++ ';' :: s)) =
          '-' :: '>' :: (x.toList ++ (framesText fs ++ ';' :: s)) := rfl
      refine expression_misses_of_unary (unary_misses_of_operator hahead (Or.inr rfl) ?_) .whole
      exact expression_misses_of_ahead (c := '>') rfl (by decide) _ .operand

/-- Where nothing is left, the statement ends. -/
theorem semicolon_ok (he : w.isEmpty = true) (s : List Char) :
    semicolon (w.text ++ ';' :: s) = .ok () s := by
  rw [text_of_isEmpty he]
  exact Reader.semicolon_ok isGap_nil s

theorem semicolon_halts (h : w.IsValid) (he : w.isEmpty = false) (s : List Char) :
    semicolon.Halts (w.text ++ ';' :: s) := by
  obtain ⟨c, u, hu, hc, -⟩ := exists_ahead_eq_cons h he (';' :: s)
  have hgap : gap (w.text ++ ';' :: s) = .ok () (c :: u) := by rw [← hu]; rfl
  exact halts_of_bind_ok hgap (require_miss (char_miss (by simpa using hc)))

/-! ### Bodies and conditions -/

/-- What is left reads as a statement. -/
def isBody (w : Residue) : Bool := w.isEmpty || w.isOperand

theorem body_ok {m : Nat} (h : w.IsValid) (hbody : w.isBody = true) (hm : w.text.length ≤ m)
    (s : List Char) : ∃ v, body n (statement (m + 1)) (w.text ++ ';' :: s) = .ok v s := by
  rw [isBody, Bool.or_eq_true] at hbody
  rcases hbody with he | hop
  · have hat : ahead (';' :: s) = ';' :: s := ahead_of_atToken (atToken_cons (by decide) s)
    have hread := kind_nop (m + 1) (statement m) [] s
    refine ⟨[.leaf [] .nop], ?_⟩
    rw [text_of_isEmpty he, List.nil_append, body_of_not_brace (by rw [hat]; simp), hat]
    exact bind_pure_ok hread
  · obtain ⟨g, k, q, e, t, hg, htext, hwritten, hlead⟩ := exists_written h hop
    rw [htext, List.length_append] at hm
    have hahead : ahead (w.text ++ ';' :: s) = t ++ ';' :: s := by
      rw [htext, List.append_assoc, hg.ahead_append, ahead_of_atToken (hwritten.atToken _)]
    have hword : leadWord (t ++ ';' :: s) ∉ statementWords := by
      rw [leadWord_append_of_not (by decide), hlead]
      decide
    have hread : kind (m + 1) (statement m) [] (t ++ ';' :: s) = .ok (.leaf [] (.expr e)) s :=
      kind_expr hword hwritten (by omega)
    refine ⟨[.leaf [] (.expr e)], ?_⟩
    rw [body_of_not_brace, hahead]
    · exact bind_pure_ok hread
    · rw [hahead]
      exact hwritten.head?_append_ne (by decide) _

theorem body_misses {m : Nat} (h : w.IsValid) (hbody : w.isBody = false) (hm : w.text.length ≤ m)
    (s : List Char) : (body n (statement (m + 1))).Misses (w.text ++ ';' :: s) := by
  rw [isBody, Bool.or_eq_false_iff] at hbody
  obtain ⟨he, hop⟩ := hbody
  obtain ⟨c, u, hu, hsemicolon, -, hbrace, hc⟩ := exists_ahead_eq_cons h he (';' :: s)
  have hexpr : (expr (m + 1)).Misses (c :: u) := by
    obtain ⟨t, ht⟩ := expr_misses h hop (Nat.lt_succ_of_le hm) s
    have hcongr := tier_ahead (m + 1) (expression m) 0 (w.text ++ ';' :: s)
    rw [hu] at hcongr
    exact ⟨t, hcongr.trans ht⟩
  have hword : leadWord (c :: u) ∉ statementWords := by
    rw [leadWord_cons_of_not hc]
    decide
  rw [Misses, body_of_not_brace (by rw [hu]; simpa using hbrace), hu]
  exact bind_miss (kind_misses hword (by simpa using hbrace) (by simpa using hsemicolon) hexpr)

/-- What is left behind a condition in parentheses. -/
def behindCondition : Residue → Option Residue
  | ⟨[], .call [_] :: fs⟩ => some ⟨[], fs⟩
  | _ => none

theorem condition_ok {w' : Residue} (h : w.IsValid) (hw : w.behindCondition = some w')
    (hn : w.text.length < n) (s : List Char) :
    w'.IsValid ∧ w'.text.length < w.text.length ∧
      ∃ e, condition n (w.text ++ ';' :: s) = .ok e (w'.text ++ ';' :: s) := by
  unfold behindCondition at hw
  split at hw
  · next a fs =>
    cases hw
    have ha : Casework.IsValid a := by
      have hargs : Expr.validListBy Literal.readable [a] = true := h.frames _ List.mem_cons_self
      rwa [Expr.validListBy, Expr.validListBy, Bool.and_true] at hargs
    have hlen : (Residue.mk [] (.call [a] :: fs)).text.length =
        a.text.length + 2 + (Residue.mk [] fs).text.length := by
      simp [text, Frame.text]
      omega
    obtain ⟨a', ha⟩ := ha.exists_written
    have hread : condition n ([] ++ '(' :: (a.text ++ ')' :: (framesText fs ++ ';' :: s))) =
        .ok a' (framesText fs ++ ';' :: s) := Reader.condition_ok ha (by omega) isGap_nil _
    refine ⟨⟨Or.inl rfl, ?_, ?_⟩, by omega, a', ?_⟩
    · exact Fits.mono h.fits.2 (Nat.le_succ 12)
    · exact fun f hf => h.frames f (List.mem_cons_of_mem _ hf)
    · simpa [text, Frame.text] using hread
  · cases hw

theorem condition_halts (h : w.IsValid) (hw : w.behindCondition = none)
    (hn : w.text.length < n) (s : List Char) : (condition n).Halts (w.text ++ ';' :: s) := by
  refine require_miss ?_
  have hgap : gap (w.text ++ ';' :: s) = .ok () (ahead (w.text ++ ';' :: s)) := rfl
  by_cases hparen : (ahead (w.text ++ ';' :: s)).head? = some '('
  · -- a parenthesis is the one of a call, which has none or several arguments
    obtain ⟨y, fs⟩ := w
    obtain rfl : y = [] := by
      refine h.name.resolve_right fun hname => ?_
      obtain ⟨c, y, rfl⟩ := List.exists_cons_of_ne_nil (l := y) (by rintro rfl; cases hname.1)
      obtain rfl : c = '\\' := by simpa using hname.1
      cases hparen
    cases fs with
    | nil => cases hparen
    | cons f fs =>
      cases f with
      | call args =>
        have hone : args.length ≠ 1 := by
          intro hone
          obtain ⟨a, rfl⟩ := List.length_eq_one_iff.mp hone
          cases hw
        have htext : (Residue.mk [] (.call args :: fs)).text ++ ';' :: s =
            '(' :: (separated (args.map Expr.text) ++ ')' :: (framesText fs ++ ';' :: s)) := by
          simp [text, Frame.text]
        have hlen : (separated (args.map Expr.text)).length < n := by
          simp only [text, framesText_cons, Frame.text, List.length_append, List.length_cons] at hn
          omega
        rw [htext]
        refine misses_of_bind_ok (gap_atToken (atToken_cons (by decide) _)) ?_
        exact within_misses_of_args (h.frames _ List.mem_cons_self) hone hlen _
      | binary op b =>
        rw [text, List.nil_append, framesText_cons, List.append_assoc, Frame.ahead_binary] at hparen
        cases op <;> cases hparen
      | _ => cases hparen
  · exact misses_of_bind_ok hgap (within_misses hparen _ _)

end Residue

end Casework
