import Casework.Reader.Token

/-!
# Running readers on known texts

Each combinator has an equation for every reply of the readers it is made of, so
that a reader is run on a text step by step without opening its definition.

A reader that missed may be replaced, one that halted may not: a halt passes
through every combinator.

## Main definitions

* `Reader.Misses`, `Reader.Halts` — the reader misses, or halts, on a text.
* `Reader.grow` — reading further parts of what has been read so far.

## Main results

* `Reader.bind_ok`, `Reader.orElse_miss`, `Reader.many_ok` and their like — the
  reply of a combinator from the replies of its parts.
* `Reader.grow_ok`, `Reader.grow_miss` — one more part, or none.
-/

namespace Casework
namespace Reader

variable {α β : Type} {p q : Reader α} {s r t : List Char} {a : α}

/-- The reader misses on the text. -/
def Misses (p : Reader α) (s : List Char) : Prop := ∃ r, p s = .miss r

/-- The reader halts on the text. -/
def Halts (p : Reader α) (s : List Char) : Prop := ∃ e r, p s = .halt e r

/-! ### Sequence -/

theorem bind_ok {f : α → Reader β} (h : p s = .ok a r) : (p >>= f) s = f a r := by
  rw [bind_apply, h]

theorem bind_pure_ok {g : α → β} (h : p s = .ok a r) :
    (p >>= fun x => pure (g x)) s = .ok (g a) r := by
  rw [bind_ok h]
  rfl

theorem bind_miss {f : α → Reader β} (h : p.Misses s) : (p >>= f).Misses s := by
  obtain ⟨r, h⟩ := h
  exact ⟨r, by rw [bind_apply, h]⟩

theorem bind_halt {f : α → Reader β} (h : p.Halts s) : (p >>= f).Halts s := by
  obtain ⟨e, r, h⟩ := h
  exact ⟨e, r, by rw [bind_apply, h]⟩

theorem misses_of_bind_ok {f : α → Reader β} (h : p s = .ok a r) (hf : (f a).Misses r) :
    (p >>= f).Misses s := by
  obtain ⟨t, ht⟩ := hf
  exact ⟨t, by rw [bind_ok h, ht]⟩

theorem halts_of_bind_ok {f : α → Reader β} (h : p s = .ok a r) (hf : (f a).Halts r) :
    (p >>= f).Halts s := by
  obtain ⟨e, t, ht⟩ := hf
  exact ⟨e, t, by rw [bind_ok h, ht]⟩

/-! ### Choice -/

theorem orElse_ok (h : p s = .ok a r) : (p <|> q) s = .ok a r := by
  rw [orElse_apply, h]

theorem orElse_miss (h : p.Misses s) : (p <|> q) s = q s := by
  obtain ⟨r, h⟩ := h
  rw [orElse_apply, h]

theorem orElse_halt (h : p.Halts s) : (p <|> q).Halts s := by
  obtain ⟨e, r, h⟩ := h
  exact ⟨e, r, by rw [orElse_apply, h]⟩

theorem orElse_misses (hp : p.Misses s) (hq : q.Misses s) : (p <|> q).Misses s := by
  obtain ⟨r, hq⟩ := hq
  exact ⟨r, by rw [orElse_miss hp, hq]⟩

theorem optional_ok (h : p s = .ok a r) : optional p s = .ok (some a) r := by
  simp only [optional, h]

theorem optional_miss (h : p.Misses s) : optional p s = .ok none s := by
  obtain ⟨r, h⟩ := h
  simp only [optional, h]

/-! ### Repetition -/

theorem many_ok {n : Nat} {as : List α} (h : p s = .ok a r) (hs : many p n r = .ok as t) :
    many p (n + 1) s = .ok (a :: as) t := by
  rw [many_succ, h]
  simp only [hs]

theorem many_miss {n : Nat} (h : p.Misses s) : many p (n + 1) s = .ok [] s := by
  obtain ⟨r, h⟩ := h
  rw [many_succ, h]

/-- Reads further parts and attaches them one by one to what has been read so far. -/
def grow (p : Reader β) (attach : α → β → α) (n : Nat) (a : α) : Reader α := do
  let bs ← many p n
  pure (bs.foldl attach a)

/-- One more part is attached. -/
theorem grow_ok {p : Reader β} {attach : α → β → α} {n : Nat} {a : α} {b : β}
    (h : p s = .ok b r) : grow p attach (n + 1) a s = grow p attach n (attach a b) r := by
  simp only [grow, bind_apply, many_succ, h]
  cases many p n r <;> rfl

/-- No part follows. -/
theorem grow_miss {p : Reader β} {attach : α → β → α} {n : Nat} {a : α} (h : p.Misses s) :
    grow p attach (n + 1) a s = .ok a s := by
  rw [grow, bind_ok (many_miss h)]
  rfl

/-! ### Certainty -/

theorem commit_ok (h : p s = .ok a r) : commit p s = .ok a r := by
  simp only [commit, h]

theorem commit_miss (h : p.Misses s) : (commit p).Halts s := by
  obtain ⟨r, h⟩ := h
  exact ⟨none, r, by simp only [commit, h]⟩

theorem commit_halt (h : p.Halts s) : (commit p).Halts s := by
  obtain ⟨e, r, h⟩ := h
  exact ⟨e, r, by simp only [commit, h]⟩

theorem require_ok {what : Expected} (h : p s = .ok a r) : require what p s = .ok a r := by
  simp only [require, h]

theorem require_miss {what : Expected} (h : p.Misses s) : (require what p).Halts s := by
  obtain ⟨r, h⟩ := h
  exact ⟨some what, r, by simp only [require, h]⟩

/-! ### Characters -/

@[simp] theorem char_self (c : Char) (s : List Char) : char c (c :: s) = .ok () s := by
  simp [char]

theorem char_miss {c : Char} (h : s.head? ≠ some c) : (char c).Misses s := by
  cases s with
  | nil => exact ⟨[], rfl⟩
  | cons d s =>
    have hd : d ≠ c := fun hd => h (by rw [hd]; rfl)
    exact ⟨d :: s, by simp [char, hd]⟩

theorem token_append (text : List Char) (s : List Char) : token text (text ++ s) = .ok () s := by
  simp [token]

theorem token_miss {text : List Char} (h : text.isPrefixOf s = false) : (token text).Misses s :=
  ⟨s, by simp [token, h]⟩

theorem notNext_ok {refuses : Char → Bool} (h : ∀ c ∈ s.head?, refuses c = false) :
    notNext refuses s = .ok () s := by
  cases s with
  | nil => rfl
  | cons c s => simp [notNext, h c rfl]

theorem notNext_miss {refuses : Char → Bool} {c : Char} (h : refuses c = true) :
    (notNext refuses).Misses (c :: s) :=
  ⟨c :: s, by simp [notNext, h]⟩

theorem satisfy_ok {accepts : Char → Bool} {c : Char} (h : accepts c = true) :
    satisfy accepts (c :: s) = .ok c s := by
  simp [satisfy, h]

theorem satisfy_miss {accepts : Char → Bool} (h : ∀ c ∈ s.head?, accepts c = false) :
    (satisfy accepts).Misses s := by
  cases s with
  | nil => exact ⟨[], rfl⟩
  | cons c s => exact ⟨c :: s, by simp [satisfy, h c rfl]⟩

/-- A run of characters of a class is read up to a character that is not of it. -/
theorem span_append {accepts : Char → Bool} {text : List Char}
    (htext : ∀ c ∈ text, accepts c = true) (hrest : ∀ c ∈ s.head?, accepts c = false) :
    span accepts (text ++ s) = .ok text s := by
  have htake : s.takeWhile accepts = [] := by
    cases s with
    | nil => rfl
    | cons c s => simp [hrest c rfl]
  have hdrop : s.dropWhile accepts = s := by
    cases s with
    | nil => rfl
    | cons c s => simp [hrest c rfl]
  rw [span, List.takeWhile_append_of_pos htext, List.dropWhile_append_of_pos htext, htake, hdrop,
    List.append_nil]

end Reader
end Casework
