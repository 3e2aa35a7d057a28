import Casework.Text.Printable

/-!
# Quoted texts

A text within a message stands in double quotes, so that its ends can be seen.
Inside, the quote and the backslash carry a backslash, the usual blanks have
their short names, and a character that would not show is given by its code
point.

## Main definitions

* `escapeChar` — one character inside quotes.
* `quote` — a text in quotes.

## Main results

* `escapeChar_cases` — a character stands for itself, or has a short escape, or is given by
  its code point.
* `quote_append_inj` — **a quoted text ends at its own closing quote and loses nothing**.
-/

namespace Casework

/-! ### Quoting -/

/-- One character as it stands inside double quotes. -/
def escapeChar (c : Char) : List Char :=
  if c == '"' then ['\\', '"']
  else if c == '\\' then ['\\', '\\']
  else if c == '\n' then ['\\', 'n']
  else if c == '\r' then ['\\', 'r']
  else if c == '\t' then ['\\', 't']
  else if c.toNat == 0 then ['\\', '0']
  else if isPrintable c then [c]
  else '\\' :: 'u' :: '\x7b' :: (Nat.toDigits 16 c.toNat ++ ['\x7d'])

/-- The text in double quotes. -/
def quote (text : List Char) : List Char :=
  '"' :: (text.flatMap escapeChar ++ ['"'])

/-! ### Escapes -/

/-- The characters that have a short escape, with what stands behind the backslash. -/
def shortEscapes : List (Char × Char) :=
  [('"', '"'), ('\\', '\\'), ('\n', 'n'), ('\r', 'r'), ('\t', 't'), ('\x00', '0')]

/-- Inside quotes a character stands for itself, or has a short escape, or is given by its
code point. -/
theorem escapeChar_cases (c : Char) :
    escapeChar c = [c] ∧ c ≠ '\\' ∧ c ≠ '"' ∨
      (∃ d, escapeChar c = ['\\', d] ∧ (c, d) ∈ shortEscapes) ∨
      escapeChar c = '\\' :: 'u' :: '\x7b' :: (Nat.toDigits 16 c.toNat ++ ['\x7d']) := by
  by_cases hmem : c ∈ shortEscapes.map Prod.fst
  · refine Or.inr (Or.inl ?_)
    simp only [shortEscapes, List.map_cons, List.map_nil, List.mem_cons, List.not_mem_nil,
      or_false] at hmem
    rcases hmem with rfl | rfl | rfl | rfl | rfl | rfl <;> exact ⟨_, rfl, by decide⟩
  · simp only [shortEscapes, List.map_cons, List.map_nil, List.mem_cons, List.not_mem_nil,
      or_false, not_or] at hmem
    obtain ⟨hquote, hslash, hn, hr, ht, hzero⟩ := hmem
    have hnat : c.toNat ≠ 0 := fun h => hzero (Char.toNat_inj.mp h)
    have heq : escapeChar c = if isPrintable c then [c]
        else '\\' :: 'u' :: '\x7b' :: (Nat.toDigits 16 c.toNat ++ ['\x7d']) := by
      simp only [escapeChar, beq_iff_eq, hquote, hslash, hn, hr, ht, hnat, if_false]
    rw [heq]
    split
    · exact Or.inl ⟨rfl, hslash, hquote⟩
    · exact Or.inr (Or.inr rfl)

/-! ### Code points -/

/-- The digits of a code point are not the brace behind them. -/
theorem brace_notMem_toDigits (n : Nat) : '\x7d' ∉ Nat.toDigits 16 n := by
  induction n using Nat.strongRecOn with
  | ind n ih =>
    have hdigit : ∀ d : Nat, '\x7d' ≠ d.digitChar := fun d => (Nat.digitChar_ne _ (by decide)).symm
    rw [Nat.toDigits_eq_if (by decide)]
    split
    · simp [hdigit]
    · simp [hdigit, ih (n / 16) (by omega)]

/-- A number's last digit, and the digits before it if there are any. -/
theorem toDigits_eq_append (n : Nat) : Nat.toDigits 16 n =
    (if n < 16 then [] else Nat.toDigits 16 (n / 16)) ++ [(n % 16).digitChar] := by
  rw [Nat.toDigits_eq_if (by decide)]
  split
  · next h => rw [Nat.mod_eq_of_lt h, List.nil_append]
  · rfl

/-- Different numbers have different digits. -/
theorem toDigits_inj {m n : Nat} (h : Nat.toDigits 16 m = Nat.toDigits 16 n) : m = n := by
  have hdigit : ∀ a < 16, ∀ b < 16, Nat.digitChar a = Nat.digitChar b → a = b := by decide
  induction m using Nat.strongRecOn generalizing n with
  | ind m ih =>
    rw [toDigits_eq_append m, toDigits_eq_append n] at h
    obtain ⟨hfront, hlast⟩ := List.append_inj' h rfl
    have hmod : m % 16 = n % 16 :=
      hdigit _ (Nat.mod_lt m (by decide)) _ (Nat.mod_lt n (by decide)) (List.singleton_inj.mp hlast)
    split at hfront
    · next hm =>
      split at hfront
      · next hn => omega
      · exact absurd hfront.symm Nat.toDigits_ne_nil
    · next hm =>
      split at hfront
      · exact absurd hfront Nat.toDigits_ne_nil
      · next hn =>
        have hdiv : m / 16 = n / 16 := ih (m / 16) (by omega) hfront
        omega

/-- A number is known from its digits and the brace behind them. -/
theorem toDigits_append_inj {m n : Nat} {s t : List Char}
    (h : Nat.toDigits 16 m ++ '\x7d' :: s = Nat.toDigits 16 n ++ '\x7d' :: t) : m = n ∧ s = t := by
  -- up to the brace both texts are digits
  have hfront : ∀ (k : Nat) (r : List Char),
      (Nat.toDigits 16 k ++ '\x7d' :: r).takeWhile (· != '\x7d') = Nat.toDigits 16 k := by
    intro k r
    have hdigits : ∀ c ∈ Nat.toDigits 16 k, (c != '\x7d') = true := by
      intro c hc
      rw [bne_iff_ne]
      rintro rfl
      exact brace_notMem_toDigits k hc
    rw [List.takeWhile_append_of_pos hdigits]
    simp
  have hdigits := congrArg (List.takeWhile (· != '\x7d')) h
  rw [hfront m s, hfront n t] at hdigits
  obtain rfl := toDigits_inj hdigits
  exact ⟨rfl, (List.cons.inj (List.append_cancel_left h)).2⟩

/-! ### Quoted texts are told apart -/

/-- An escaped character is known from the text that it begins, and so is the rest. -/
theorem escapeChar_append_inj {c d : Char} {s t : List Char}
    (h : escapeChar c ++ s = escapeChar d ++ t) : c = d ∧ s = t := by
  -- no two characters share a short escape, and none of them looks like a code point
  have hshort : ∀ x ∈ shortEscapes, ∀ y ∈ shortEscapes, x.2 = y.2 → x.1 = y.1 := by decide
  have hu : ∀ x ∈ shortEscapes, x.2 ≠ 'u' := by decide
  rcases escapeChar_cases c with ⟨hc, hslash, -⟩ | ⟨x, hc, hx⟩ | hc <;>
    rcases escapeChar_cases d with ⟨hd, hslash', -⟩ | ⟨y, hd, hy⟩ | hd <;>
    rw [hc, hd] at h
  · simpa using h
  · cases h
    exact absurd rfl hslash
  · cases h
    exact absurd rfl hslash
  · cases h
    exact absurd rfl hslash'
  · cases h
    exact ⟨hshort _ hx _ hy rfl, rfl⟩
  · cases h
    exact absurd rfl (hu _ hx)
  · cases h
    exact absurd rfl hslash'
  · cases h
    exact absurd rfl (hu _ hy)
  · simp only [List.cons_append, List.append_assoc, List.nil_append, List.cons.injEq,
      true_and] at h
    obtain ⟨hdigits, hrest⟩ := toDigits_append_inj h
    exact ⟨Char.toNat_inj.mp hdigits, hrest⟩

/-- No escaped character begins like the closing quote. -/
theorem escapeChar_append_ne (c : Char) (s t : List Char) : escapeChar c ++ s ≠ '"' :: t := by
  intro h
  rcases escapeChar_cases c with ⟨hc, -, hquote⟩ | ⟨x, hc, -⟩ | hc <;> rw [hc] at h <;> cases h
  exact hquote rfl

/-- **A quoted text is known from the text that it begins**, and so is the rest. -/
theorem quote_append_inj {a b s t : List Char} (h : quote a ++ s = quote b ++ t) :
    a = b ∧ s = t := by
  simp only [quote, List.cons_append, List.append_assoc, List.nil_append, List.cons.injEq,
    true_and] at h
  induction a generalizing b with
  | nil =>
    cases b with
    | nil => exact ⟨rfl, (List.cons.inj h).2⟩
    | cons d b =>
      rw [List.flatMap_cons, List.append_assoc] at h
      exact absurd h.symm (escapeChar_append_ne d _ s)
  | cons c a ih =>
    cases b with
    | nil =>
      rw [List.flatMap_cons, List.append_assoc] at h
      exact absurd h (escapeChar_append_ne c _ t)
    | cons d b =>
      simp only [List.flatMap_cons, List.append_assoc] at h
      obtain ⟨rfl, hrest⟩ := escapeChar_append_inj h
      obtain ⟨rfl, rfl⟩ := ih hrest
      exact ⟨rfl, rfl⟩

theorem quote_inj {a b : List Char} : quote a = quote b ↔ a = b := by
  refine ⟨fun h => ?_, congrArg quote⟩
  exact (quote_append_inj (s := []) (t := []) (by rw [h])).1

end Casework
