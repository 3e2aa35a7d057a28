import Casework.Proofs.Valid

/-!
# Expressions that begin with a name

Where the left operand of an expression goes without parentheses, the text of the
expression begins with that of the operand.  Going on to the left, one comes to a
primary expression.  When this is a name, the text is the name and behind it one
frame after the other: what each node writes behind its left operand.

## Main definitions

* `Frame` — what a node writes behind its left operand.
* `Expr.lead` — the name that an expression begins with, and the frames behind it.

## Main results

* `Leads.text_eq` — the text is the name and the frames.
* `exists_written_frames` — **frames may be written behind anything that binds tight
  enough**.
* `exists_written_neg` — a minus sign may be written before anything that binds
  tighter than a sum.
-/

namespace Casework

open Casework.Expr (Place bracket leftPlace)

/-! ### Frames -/

/-- What a node writes behind its left operand. -/
inductive Frame where
  | binary (op : BinOp) (right : Expr)
  | assign (value : Expr)
  | ternary (yes no : Expr)
  | call (args : List Expr)
  | index (index : Expr)
  | prop (name : String)

namespace Frame

/-- The node with its left operand. -/
def plug (left : Expr) : Frame → Expr
  | binary op b => .binary op left b
  | assign b => .assign left b
  | ternary b c => .ternary left b c
  | call args => .call left args
  | index i => .index left i
  | prop x => .prop left x

/-- The place of the left operand. -/
def place : Frame → Place
  | binary op _ => leftPlace op
  | assign _ => .above 1
  | ternary _ _ => .above 2
  | call _ | index _ | prop _ => .atLeast 12

/-- How tight the node binds. -/
def strength : Frame → Nat
  | binary op _ => op.precedence
  | assign _ => 1
  | ternary _ _ => 2
  | call _ | index _ | prop _ => 12

/-- The text of the frame. -/
def text : Frame → List Char
  | binary op b =>
    ' ' :: (op.text ++ ' ' :: bracket (.above op.precedence) b.precedence b.text)
  | assign b => ' ' :: '=' :: ' ' :: bracket (.atLeast 1) b.precedence b.text
  | ternary b c =>
    ' ' :: '?' :: ' ' :: (b.text ++ ' ' :: ':' :: ' ' :: bracket (.above 2) c.precedence c.text)
  | call args => '(' :: (separated (args.map Expr.text) ++ [')'])
  | index i => '[' :: (i.text ++ [']'])
  | prop x => '-' :: '>' :: x.toList

/-- All parts of the frame are valid. -/
def IsValid : Frame → Prop
  | binary _ b => Casework.IsValid b
  | assign b => Casework.IsValid b
  | ternary b c => Casework.IsValid b ∧ Casework.IsValid c
  | call args => Expr.validListBy Literal.readable args = true
  | index i => Casework.IsValid i
  | prop x => isIdentifier x = true

theorem text_plug (f : Frame) (a : Expr) :
    (f.plug a).text = bracket f.place a.precedence a.text ++ f.text := by
  cases f with
  | call args => rw [plug, Expr.text, Expr.texts_eq_map]; rfl
  | _ => rw [plug, Expr.text]; rfl

@[simp] theorem precedence_plug (f : Frame) (a : Expr) : (f.plug a).precedence = f.strength := by
  cases f <;> rfl

theorem isValid_plug {f : Frame} {a : Expr} (h : Casework.IsValid (f.plug a)) :
    Casework.IsValid a ∧ f.IsValid := by
  cases f with
  | ternary b c =>
    rw [plug, Casework.IsValid, Expr.validBy, Bool.and_eq_true, Bool.and_eq_true] at h
    exact ⟨h.1.1, h.1.2, h.2⟩
  | _ =>
    rw [plug, Casework.IsValid, Expr.validBy, Bool.and_eq_true] at h
    exact h

end Frame

/-! ### Writing behind an operand -/

/-- The text of a valid expression is one of the ways to write an expression. -/
theorem IsValid.exists_written {e : Expr} (h : IsValid e) :
    ∃ f, Written e.precedence f e.text :=
  ⟨_, e.written_mapLit (fun _ => Expr.written_ofReadable) h⟩

theorem exists_items {es : List Expr} (h : Expr.validListBy Literal.readable es = true) :
    ∃ fs, Items Written fs (separated (es.map Expr.text)) :=
  ⟨_, Expr.items_mapLits (fun _ => Expr.written_ofReadable) es h⟩

/-- A place admits what binds tighter than something it admits. -/
theorem admits_mono {place : Place} {p q : Nat} (h : place.admits p = true) (hpq : p ≤ q) :
    place.admits q = true := by
  cases place with
  | atLeast n => exact decide_eq_true (Nat.le_trans (of_decide_eq_true h) hpq)
  | above n => exact decide_eq_true (Nat.lt_of_lt_of_le (of_decide_eq_true h) hpq)

variable {q : Nat} {e : Expr} {t : List Char}

/-- A frame may be written behind an operand that its place admits. -/
theorem Frame.exists_written {f : Frame} (hf : f.IsValid) (h : Written q e t)
    (hq : f.place.admits q = true) : ∃ e', Written f.strength e' (t ++ f.text) := by
  cases f with
  | binary op b =>
    obtain ⟨b', hb⟩ := IsValid.exists_written hf
    have habove : (Place.above op.precedence).admits 13 = true := by cases op <;> decide
    obtain ⟨p, hb, hp⟩ := Expr.exists_written_bracket _ hb habove
    exact ⟨_, .binary op h hq isGap_nil isGap_nil hb (of_decide_eq_true hp)⟩
  | assign b =>
    obtain ⟨b', hb⟩ := IsValid.exists_written hf
    obtain ⟨p, hb, -⟩ := Expr.exists_written_bracket (.atLeast 1) hb rfl
    exact ⟨_, .assign h (of_decide_eq_true hq) isGap_nil isGap_nil hb⟩
  | ternary b c =>
    obtain ⟨b', hb⟩ := IsValid.exists_written hf.1
    obtain ⟨c', hc⟩ := IsValid.exists_written hf.2
    obtain ⟨p, hc, hp⟩ := Expr.exists_written_bracket (.above 2) hc rfl
    exact ⟨_, .ternary h (of_decide_eq_true hq) isGap_nil isGap_nil hb isGap_nil isGap_nil hc
      (of_decide_eq_true hp)⟩
  | call args =>
    obtain ⟨args', hargs⟩ := exists_items hf
    exact ⟨_, .call h (of_decide_eq_true hq) hargs⟩
  | index i =>
    obtain ⟨i', hi⟩ := IsValid.exists_written hf
    exact ⟨_, .index h (of_decide_eq_true hq) isGap_nil hi isGap_nil⟩
  | prop x => exact ⟨_, .prop h (of_decide_eq_true hq) hf⟩

/-- The frames, innermost first, go without parentheses around what is before them,
the first of which binds as tight as the given strength. -/
def Fits : Nat → List Frame → Prop
  | _, [] => True
  | q, f :: fs => f.place.admits q = true ∧ Fits f.strength fs

theorem Fits.mono {p : Nat} {fs : List Frame} (h : Fits p fs) (hpq : p ≤ q) : Fits q fs := by
  cases fs with
  | nil => trivial
  | cons f fs => exact ⟨admits_mono h.1 hpq, h.2⟩

/-- The texts of the frames, one behind the other. -/
def framesText (fs : List Frame) : List Char := fs.flatMap Frame.text

@[simp] theorem framesText_nil : framesText [] = [] := rfl

@[simp] theorem framesText_cons (f : Frame) (fs : List Frame) :
    framesText (f :: fs) = f.text ++ framesText fs := rfl

/-- Frames may be written behind anything that binds as tight as what they stand
behind. -/
theorem exists_written_frames {p : Nat} {fs : List Frame} (hfs : Fits p fs)
    (hvalid : ∀ f ∈ fs, f.IsValid) (h : Written q e t) (hpq : p ≤ q) :
    ∃ q' e', Written q' e' (t ++ framesText fs) := by
  induction fs generalizing p q e t with
  | nil =>
    rw [framesText_nil, List.append_nil]
    exact ⟨q, e, h⟩
  | cons f fs ih =>
    obtain ⟨hplace, hrest⟩ := hfs
    obtain ⟨e', he'⟩ := f.exists_written (hvalid f List.mem_cons_self) h (admits_mono hplace hpq)
    rw [framesText_cons, ← List.append_assoc]
    exact ih hrest (fun f hf => hvalid f (List.mem_cons_of_mem _ hf)) he' (Nat.le_refl _)

/-- A minus sign before a text that binds tighter than a sum takes its first operand. -/
theorem exists_written_neg (h : Written q e t) (hq : 9 < q) :
    ∃ p e', 9 < p ∧ Written p e' ('-' :: ' ' :: t) := by
  induction h using Written.byLength with
  | step q e t h ih =>
  by_cases hunary : 11 ≤ q
  · refine ⟨11, .unary .neg e, by decide, ?_⟩
    exact .unary (g := [' ']) .neg (isGap_layout rfl) h hunary fun _ => nofun
  · -- what is left are products, whose first operand is shorter
    cases h with
    | @binary g h t u j k p q a b op ha hp hg hh hb hop =>
      have hten : op.precedence = 10 := by omega
      have hplace : ∀ p, (leftPlace op).admits p = true ↔ 10 ≤ p := by
        intro p
        cases op <;> first | exact absurd hten (by decide) | exact decide_eq_true_iff
      obtain ⟨p', a', hp', ha'⟩ := ih ha (by simp) ((hplace p).mp hp)
      exact ⟨_, _, hq, .binary op ha' ((hplace p').mpr hp') hg hh hb hop⟩
    | ternary => exact absurd hq (by decide)
    | assign => exact absurd hq (by decide)
    | _ => exact absurd (by decide) hunary

/-! ### The name at the front -/

/-- The frames with one more around them, where it writes no parentheses around an
operand of the given strength. -/
def Frame.extend (f : Frame) (strength : Nat) (lead : Option (String × List Frame)) :
    Option (String × List Frame) :=
  if f.place.admits strength then lead.map fun l => (l.1, l.2 ++ [f]) else none

/-- The name that the text of an expression begins with, if it does, and the frames
behind it, innermost first. -/
def Expr.lead : Expr → Option (String × List Frame)
  | name x => some (x, [])
  | binary op a b => (Frame.binary op b).extend a.precedence a.lead
  | assign a b => (Frame.assign b).extend a.precedence a.lead
  | ternary a b c => (Frame.ternary b c).extend a.precedence a.lead
  | call f args => (Frame.call args).extend f.precedence f.lead
  | index a i => (Frame.index i).extend a.precedence a.lead
  | prop a x => (Frame.prop x).extend a.precedence a.lead
  | var _ | lit _ | array _ | unary _ _ | «match» _ _ => none

/-- The expression is the name with the frames around it, and its text begins with
the name. -/
inductive Leads (x : String) : List Frame → Expr → Prop
  | name : Leads x [] (.name x)
  | plug {fs a} (h : Leads x fs a) (f : Frame) (hf : f.place.admits a.precedence = true) :
      Leads x (fs ++ [f]) (f.plug a)

section Leads

variable {x : String} {fs : List Frame}

theorem leads_of_extend {f : Frame} {a : Expr} (ih : ∀ {fs}, a.lead = some (x, fs) → Leads x fs a)
    (h : f.extend a.precedence a.lead = some (x, fs)) : Leads x fs (f.plug a) := by
  rw [Frame.extend] at h
  split at h
  · next hplace =>
    obtain ⟨⟨y, gs⟩, ha, heq⟩ := Option.map_eq_some_iff.mp h
    cases heq
    exact .plug (ih ha) f hplace
  · cases h

theorem leads_of_lead {e : Expr} {fs : List Frame} (h : e.lead = some (x, fs)) :
    Leads x fs e := by
  cases e with
  | name y =>
    cases h
    exact .name
  | binary op a b => exact leads_of_extend (f := .binary op b) leads_of_lead h
  | assign a b => exact leads_of_extend (f := .assign b) leads_of_lead h
  | ternary a b c => exact leads_of_extend (f := .ternary b c) leads_of_lead h
  | call a args => exact leads_of_extend (f := .call args) leads_of_lead h
  | index a i => exact leads_of_extend (f := .index i) leads_of_lead h
  | prop a y => exact leads_of_extend (f := .prop y) leads_of_lead h
  | _ => cases h

/-- The text is the name and the frames. -/
theorem Leads.text_eq (h : Leads x fs e) : e.text = x.toList ++ framesText fs := by
  induction h with
  | name => rw [Expr.text, framesText_nil, List.append_nil]
  | plug h f hf ih =>
    rw [Frame.text_plug, Expr.bracket_of_admits hf, ih, framesText, framesText, List.flatMap_append,
      List.append_assoc]
    simp

/-- Whatever goes without parentheses around the expression does so around the
frames. -/
theorem Leads.fits_append (h : Leads x fs e) {gs : List Frame} (hgs : Fits e.precedence gs) :
    Fits 13 (fs ++ gs) := by
  induction h generalizing gs with
  | name => exact hgs
  | plug h f hf ih =>
    rw [List.append_assoc]
    refine ih ⟨hf, ?_⟩
    rwa [Frame.precedence_plug] at hgs

theorem Leads.fits (h : Leads x fs e) : Fits 13 fs := by
  have hfits : Fits 13 (fs ++ []) := h.fits_append trivial
  rwa [List.append_nil] at hfits

theorem Leads.isValid (h : Leads x fs e) (he : IsValid e) :
    isName x = true ∧ ∀ f ∈ fs, f.IsValid := by
  induction h with
  | name => exact ⟨he, nofun⟩
  | plug h f hf ih =>
    obtain ⟨ha, hframe⟩ := Frame.isValid_plug he
    refine ⟨(ih ha).1, fun g hg => ?_⟩
    rcases List.mem_append.mp hg with hg | hg
    · exact (ih ha).2 g hg
    · rw [List.mem_singleton.mp hg]
      exact hframe

end Leads

/-- Nothing that lengthens a word stands at the front of a frame. -/
theorem Frame.exists_text_eq_cons (f : Frame) : ∃ c s, f.text = c :: s ∧ isWordChar c = false := by
  cases f <;> exact ⟨_, _, rfl, by decide⟩

/-! ### Words at the front -/

section Words

open Reader (leadWord_ne_of_not_isAlpha)

variable {word : List Char}

/-- A literal begins with none of the words that do not name one. -/
theorem Literal.leadWord_text_ne {l : Literal} (hl : l.readable = true)
    (hlower : word.all Char.isLower = true) (hne : word ≠ [])
    (hword : word ∉ ["true", "false", "null", "inf"].map String.toList) :
    leadWord l.text ≠ word := by
  simp only [List.map_cons, List.map_nil, List.mem_cons, List.not_mem_nil, or_false,
    not_or] at hword
  obtain ⟨htrue, hfalse, hnull, hinf⟩ := hword
  rw [Literal.readable, Bool.or_eq_true, beq_iff_eq] at hl
  rcases hl with hl | rfl
  · rcases Literal.text_mem_or_exists_cons hl with hmem | ⟨c, s, hs, hc⟩
    · simp only [List.map_cons, List.map_nil, List.mem_cons, List.not_mem_nil, or_false] at hmem
      rcases hmem with hs | hs | hs <;> rw [hs]
      · exact fun h => htrue h.symm
      · exact fun h => hfalse h.symm
      · exact fun h => hnull h.symm
    · rw [hs]
      refine leadWord_ne_of_not_isAlpha hlower hne ?_ s
      rcases hc with rfl | rfl | hc
      · decide
      · decide
      · exact Reader.isAlpha_of_isDigit hc
  · exact fun h => hinf h.symm

theorem Frame.leadWord_plug_ne {f : Frame} {a : Expr} (hlower : word.all Char.isLower = true)
    (hne : word ≠ []) (ih : Casework.IsValid a → a.lead = none → leadWord a.text ≠ word)
    (he : Casework.IsValid (f.plug a)) (h : f.extend a.precedence a.lead = none) :
    leadWord (f.plug a).text ≠ word := by
  rw [Frame.text_plug]
  by_cases hplace : f.place.admits a.precedence = true
  · rw [Frame.extend, if_pos hplace, Option.map_eq_none_iff] at h
    obtain ⟨c, s, hs, hc⟩ := f.exists_text_eq_cons
    rw [Expr.bracket_of_admits hplace, hs, leadWord_append_of_not hc]
    exact ih (Frame.isValid_plug he).1 h
  · rw [Expr.bracket_of_not_admits (by simpa using hplace)]
    exact leadWord_ne_of_not_isAlpha hlower hne (by decide) _

/-- An expression that does not begin with a name begins with no word that does not
name a literal. -/
theorem leadWord_text_ne_of_lead (hlower : word.all Char.isLower = true) (hne : word ≠ [])
    (hword : word ∉ ["true", "false", "null", "inf"].map String.toList) :
    ∀ {e : Expr}, IsValid e → e.lead = none → leadWord e.text ≠ word
  | .name x, _, h => by cases h
  | .var x, _, _ => leadWord_ne_of_not_isAlpha hlower hne (by decide) _
  | .lit l, he, _ => by
    rw [Expr.text]
    exact Literal.leadWord_text_ne he hlower hne hword
  | .array es, _, _ => leadWord_ne_of_not_isAlpha hlower hne (by decide) _
  | .unary op a, _, _ => by
    cases op <;> exact leadWord_ne_of_not_isAlpha hlower hne (by decide) _
  | .match s arms, he, _ => by cases he
  | .binary op a b, he, h => Frame.leadWord_plug_ne (f := .binary op b) hlower hne
      (leadWord_text_ne_of_lead hlower hne hword) he h
  | .assign a b, he, h => Frame.leadWord_plug_ne (f := .assign b) hlower hne
      (leadWord_text_ne_of_lead hlower hne hword) he h
  | .ternary a b c, he, h => Frame.leadWord_plug_ne (f := .ternary b c) hlower hne
      (leadWord_text_ne_of_lead hlower hne hword) he h
  | .call a args, he, h => Frame.leadWord_plug_ne (f := .call args) hlower hne
      (leadWord_text_ne_of_lead hlower hne hword) he h
  | .index a i, he, h => Frame.leadWord_plug_ne (f := .index i) hlower hne
      (leadWord_text_ne_of_lead hlower hne hword) he h
  | .prop a x, he, h => Frame.leadWord_plug_ne (f := .prop x) hlower hne
      (leadWord_text_ne_of_lead hlower hne hword) he h

end Words

theorem exists_framesText_eq_cons (fs : List Frame) (s : List Char) :
    ∃ c u, framesText fs ++ ';' :: s = c :: u ∧ isWordChar c = false := by
  cases fs with
  | nil => exact ⟨_, _, rfl, by decide⟩
  | cons f fs =>
    obtain ⟨c, u, hu, hc⟩ := f.exists_text_eq_cons
    rw [framesText_cons, hu]
    exact ⟨c, _, rfl, hc⟩

end Casework
