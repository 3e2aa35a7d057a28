import Casework.Proofs.Decimal
import Casework.Proofs.Gap

/-!
# Words, names and literals read back

What a keyword fits is decided by the word a text begins with.  A name is read as
a name because this word is none of the three that are literals, and a literal is
read back from its own text, whatever the rest, as long as the rest does not
lengthen it.

## Main definitions

* `leadWord` — the word that a text begins with, in lower case.
* `isIdentifier`, `isName`, `wellEscaped` — what may stand in a tree as an
  identifier, as a name and between the quotes of a string.
* `Literal.lexical`, `Literal.readable` — the literal has a text that stands for it,
  or at least one that it is read from.
* `Apart` — the rest does not lengthen a word or a number.

## Main results

* `Reader.keyword_ok`, `Reader.keyword_misses` — a keyword fits exactly when the
  text begins with it.
* `Reader.ident_ok`, `Reader.name_ok`, `Reader.literal_ok` — what is valid reads
  back.
* `Reader.literal_misses_of_isName` — no literal is found where a name stands.
-/

namespace Casework

/-! ### Words -/

/-- The word that the text begins with, in lower case. -/
def leadWord (s : List Char) : List Char := (s.takeWhile isWordChar).map Char.toLower

/-- The rest does not lengthen a word, a name or a number. -/
def Apart (rest : List Char) : Prop := ∀ c ∈ rest.head?, isNameChar c = false ∧ c ≠ '.'

/-- Only letters become lower-case letters. -/
theorem isAlpha_of_isLower_toLower {c : Char} (h : c.toLower.isLower = true) :
    c.isAlpha = true := by
  unfold Char.toLower at h
  split at h
  · next hc =>
    have hupper : c.isUpper = true := decide_eq_true hc
    show (c.isUpper || c.isLower) = true
    rw [hupper, Bool.true_or]
  · show (c.isUpper || c.isLower) = true
    rw [h, Bool.or_true]

theorem isWordChar_of_isAlpha {c : Char} (h : c.isAlpha = true) : isWordChar c = true := by
  simp [isWordChar, Char.isAlphanum, h]

theorem isWordChar_of_isDigit {c : Char} (h : c.isDigit = true) : isWordChar c = true := by
  simp [isWordChar, Char.isAlphanum, h]

theorem Apart.isWordChar {r : List Char} (h : Apart r) :
    ∀ c ∈ r.head?, Casework.isWordChar c = false := by
  intro c hc
  have hname := (h c hc).1
  rw [isNameChar, Bool.or_eq_false_iff] at hname
  exact hname.1

theorem isNameChar_of_isWordChar {c : Char} (h : isWordChar c = true) : isNameChar c = true := by
  simp [isNameChar, h]

/-- A word goes on in what stands behind it. -/
theorem leadWord_append_word {w : List Char} (hw : ∀ c ∈ w, isWordChar c = true) (s : List Char) :
    leadWord (w ++ s) = w.map Char.toLower ++ leadWord s := by
  rw [leadWord, List.takeWhile_append_of_pos hw, List.map_append, leadWord]

/-- A word is read to its end. -/
theorem leadWord_append {w s : List Char} (hw : ∀ c ∈ w, isWordChar c = true)
    (hs : ∀ c ∈ s.head?, isWordChar c = false) : leadWord (w ++ s) = w.map Char.toLower := by
  have htake : s.takeWhile isWordChar = [] := by
    cases s with
    | nil => rfl
    | cons c s => simp [hs c rfl]
  rw [leadWord_append_word hw, leadWord, htake, List.map_nil, List.append_nil]

theorem leadWord_cons_of_not {c : Char} (hc : isWordChar c = false) (s : List Char) :
    leadWord (c :: s) = [] := by
  simp [leadWord, hc]

/-- What lengthens no word does not change the word that a text begins with. -/
theorem leadWord_append_of_not {c : Char} (hc : isWordChar c = false) (t s : List Char) :
    leadWord (t ++ c :: s) = leadWord t := by
  have htake : (t ++ c :: s).takeWhile isWordChar = t.takeWhile isWordChar := by
    induction t with
    | nil => simp [hc]
    | cons d t ih => simp only [List.cons_append, List.takeWhile_cons, ih]
  rw [leadWord, leadWord, htake]

namespace Reader

/-- The letters of a word fit where they stand next, in any case, and otherwise
nothing is passed over. -/
theorem letters_eq (word : List Char) : ∀ s : List Char, letters word s =
    if word.isPrefixOf (s.map Char.toLower) then .ok () (s.drop word.length) else .miss s := by
  induction word with
  | nil => intro s; simp [letters]
  | cons w word ih =>
    intro s
    cases s with
    | nil => simp [letters]
    | cons c s =>
      by_cases hc : c.toLower = w
      · rcases Bool.eq_false_or_eq_true (word.isPrefixOf (s.map Char.toLower)) with hs | hs
        · simp [letters, ih s, hc, hs]
        · simp [letters, ih s, hc, hs]
      · simp [letters, hc, Ne.symm hc]

theorem letters_append {text word : List Char} (h : text.map Char.toLower = word)
    (r : List Char) : letters word (text ++ r) = .ok () r := by
  have hlen : word.length = text.length := by rw [← h, List.length_map]
  have hfits : word.isPrefixOf ((text ++ r).map Char.toLower) = true := by
    rw [List.map_append, h, List.isPrefixOf_iff_prefix]
    exact List.prefix_append _ _
  rw [letters_eq, if_pos hfits, hlen, List.drop_left]

variable {word : String} {s r : List Char}

/-- The characters that the letters of a word fit are word characters. -/
theorem isWordChar_of_map_toLower {text lower : List Char}
    (hlower : lower.all Char.isLower = true) (h : text.map Char.toLower = lower) :
    ∀ c ∈ text, isWordChar c = true := by
  intro c hc
  have hmem : c.toLower ∈ lower := h ▸ List.mem_map_of_mem hc
  exact isWordChar_of_isAlpha (isAlpha_of_isLower_toLower (List.all_eq_true.mp hlower _ hmem))

/-- A keyword fits where it is the whole word that stands next. -/
theorem keyword_ok (h : leadWord s = word.toList) :
    keyword word s = .ok () (s.dropWhile isWordChar) := by
  have hletters : letters word.toList s = .ok () (s.dropWhile isWordChar) := by
    have := letters_append h (s.dropWhile isWordChar)
    rwa [List.takeWhile_append_dropWhile] at this
  rw [keyword, bind_ok hletters]
  refine notNext_ok fun c hc => ?_
  have := List.head?_dropWhile_not isWordChar s
  rw [Option.mem_def.mp hc] at this
  simpa using this

/-- A keyword fits its own text where no longer word begins. -/
theorem keyword_append (hlower : word.toList.map Char.toLower = word.toList)
    (hr : ∀ c ∈ r.head?, isWordChar c = false) : keyword word (word.toList ++ r) = .ok () r := by
  rw [keyword, bind_ok (letters_append hlower r), notNext_ok hr]

/-- A keyword misses where another word stands next. -/
theorem keyword_misses (hlower : word.toList.all Char.isLower = true)
    (h : leadWord s ≠ word.toList) : (keyword word).Misses s := by
  rcases Bool.eq_false_or_eq_true (word.toList.isPrefixOf (s.map Char.toLower)) with hs | hs
  · -- the letters fit, so the word goes on behind them
    obtain ⟨rest, hrest⟩ := List.isPrefixOf_iff_prefix.mp hs
    obtain ⟨text, r, rfl, htext, -⟩ := List.map_eq_append_iff.mp hrest.symm
    refine misses_of_bind_ok (letters_append htext r) ?_
    cases r with
    | nil =>
      refine absurd ?_ h
      rw [leadWord_append (isWordChar_of_map_toLower hlower htext) (by simp), htext]
    | cons c r =>
      rcases Bool.eq_false_or_eq_true (isWordChar c) with hc | hc
      · exact notNext_miss hc
      · refine absurd ?_ h
        rw [leadWord_append (isWordChar_of_map_toLower hlower htext) (by simpa using hc), htext]
  · refine bind_miss ⟨s, ?_⟩
    rw [letters_eq, hs]
    rfl

/-- Where no letter stands next, neither does a word of letters. -/
theorem leadWord_ne_of_not_isAlpha {c : Char} {word : List Char}
    (hlower : word.all Char.isLower = true) (hne : word ≠ []) (hc : c.isAlpha = false)
    (s : List Char) : leadWord (c :: s) ≠ word := by
  intro h
  by_cases hw : isWordChar c = true
  · have hmem : c.toLower ∈ word := by
      rw [← h, leadWord, List.takeWhile_cons_of_pos hw]
      simp
    have := isAlpha_of_isLower_toLower (List.all_eq_true.mp hlower _ hmem)
    rw [hc] at this
    cases this
  · rw [leadWord_cons_of_not (by simpa using hw)] at h
    exact hne h.symm

/-- A keyword misses where no letter stands next. -/
theorem keyword_misses_of_not_isAlpha {c : Char} (hlower : word.toList.all Char.isLower = true)
    (hne : word.toList ≠ []) (hc : c.isAlpha = false) : (keyword word).Misses (c :: s) :=
  keyword_misses hlower (leadWord_ne_of_not_isAlpha hlower hne hc s)

end Reader

/-! ### Identifiers and names -/

/-- The text may stand as a variable or a property. -/
def isIdentifier (x : String) : Bool :=
  match x.toList with
  | [] => false
  | c :: cs => isWordStart c && cs.all isWordChar

/-- The words that are literals. -/
def literalWords : List (List Char) := ["true".toList, "false".toList, "null".toList]

/-- The text may stand as a name: what comes before its first backslash is none of
the words that are literals. -/
def isName (x : String) : Bool :=
  match x.toList with
  | [] => false
  | c :: cs =>
    isNameStart c && cs.all isNameChar &&
      !literalWords.contains (((c :: cs).takeWhile (· != '\\')).map Char.toLower)

namespace Reader

variable {x : String} {r : List Char}

theorem word_ok {first further : Char → Bool} {c : Char} {cs : List Char} (hc : first c = true)
    (hcs : ∀ d ∈ cs, further d = true) (hr : ∀ d ∈ r.head?, further d = false) :
    word first further (c :: (cs ++ r)) = .ok (String.ofList (c :: cs)) r := by
  rw [word, bind_ok (satisfy_ok hc), bind_ok (span_append hcs hr)]
  rfl

/-- An identifier reads back. -/
theorem ident_ok (hx : isIdentifier x = true) (hr : ∀ c ∈ r.head?, isWordChar c = false) :
    ident (x.toList ++ r) = .ok x r := by
  rw [isIdentifier] at hx
  split at hx
  · cases hx
  · next c cs heq =>
    rw [Bool.and_eq_true, List.all_eq_true] at hx
    rw [heq, List.cons_append, ident, word_ok hx.1 hx.2 hr, ← heq, String.ofList_toList]

/-- A name reads back. -/
theorem name_ok (hx : isName x = true) (hr : ∀ c ∈ r.head?, isNameChar c = false) :
    name (x.toList ++ r) = .ok x r := by
  rw [isName] at hx
  split at hx
  · cases hx
  · next c cs heq =>
    rw [Bool.and_eq_true, Bool.and_eq_true, List.all_eq_true] at hx
    rw [heq, List.cons_append, name, word_ok hx.1.1 hx.1.2 hr, ← heq, String.ofList_toList]

/-- No character that a name begins with is a digit. -/
theorem isDigit_of_isNameStart {c : Char} (h : isNameStart c = true) : c.isDigit = false := by
  rw [Bool.eq_false_iff]
  intro hd
  simp only [Char.isDigit, Bool.and_eq_true, decide_eq_true_eq, UInt32.le_iff_toNat_le] at hd
  simp only [isNameStart, isWordStart, Bool.or_eq_true, beq_iff_eq] at h
  rcases h with (h | rfl) | rfl
  · rcases (Bool.or_eq_true _ _).mp h with h | h
    · have hle := UInt32.le_iff_toNat_le.mp (of_decide_eq_true h).1
      exact absurd (Nat.le_trans hle hd.2) (by decide)
    · obtain ⟨h, -⟩ := (Bool.and_eq_true _ _).mp h
      have hle := UInt32.le_iff_toNat_le.mp (of_decide_eq_true h)
      exact absurd (Nat.le_trans hle hd.2) (by decide)
  · exact absurd hd (by decide)
  · exact absurd hd (by decide)

theorem isNameChar_of_isNameStart {c : Char} (h : isNameStart c = true) : isNameChar c = true := by
  simp only [isNameStart, isWordStart, Bool.or_eq_true] at h
  rcases h with (h | h) | h
  · exact isNameChar_of_isWordChar (isWordChar_of_isAlpha h)
  · simp [isNameChar, isWordChar, h]
  · simp [isNameChar, h]

/-- All characters of a name may stand in one. -/
theorem isNameChar_of_mem (hx : isName x = true) : ∀ c ∈ x.toList, isNameChar c = true := by
  rw [isName] at hx
  split at hx
  · cases hx
  · next c cs heq =>
    rw [Bool.and_eq_true, Bool.and_eq_true, List.all_eq_true] at hx
    rw [heq]
    intro d hd
    rcases List.mem_cons.mp hd with rfl | hd
    · exact isNameChar_of_isNameStart hx.1.1
    · exact hx.1.2 d hd

/-- The word that the characters of a name begin with ends at the first backslash. -/
theorem leadWord_append_of_isNameChar {text : List Char} (hmem : ∀ c ∈ text, isNameChar c = true)
    (hr : ∀ c ∈ r.head?, isNameChar c = false) :
    leadWord (text ++ r) = (text.takeWhile (· != '\\')).map Char.toLower := by
  induction text with
  | nil =>
    cases r with
    | nil => rfl
    | cons c r =>
      have hc : isWordChar c = false := by
        have := hr c rfl
        rw [isNameChar, Bool.or_eq_false_iff] at this
        exact this.1
      exact leadWord_cons_of_not hc r
  | cons c text ih =>
    have ih := ih fun d hd => hmem d (List.mem_cons_of_mem c hd)
    by_cases hc : c = '\\'
    · subst hc
      exact leadWord_cons_of_not (by decide) _
    · have hword : isWordChar c = true := by
        have := hmem c List.mem_cons_self
        simpa [isNameChar, hc] using this
      rw [leadWord] at ih ⊢
      rw [List.cons_append, List.takeWhile_cons_of_pos hword,
        List.takeWhile_cons_of_pos (by simpa using hc), List.map_cons, List.map_cons, ih]

theorem leadWord_name (hx : isName x = true) (hr : ∀ c ∈ r.head?, isNameChar c = false) :
    leadWord (x.toList ++ r) = (x.toList.takeWhile (· != '\\')).map Char.toLower :=
  leadWord_append_of_isNameChar (isNameChar_of_mem hx) hr

end Reader

/-! ### Literals -/

/-- The text may stand between the given quotes: a quote stands in it only behind
a backslash, and a backslash takes the next character with it. -/
def wellEscaped (quote : Char) : List Char → Bool
  | [] => true
  | ['\\'] => false
  | '\\' :: _ :: s => wellEscaped quote s
  | c :: s => c != quote && wellEscaped quote s

/-- The literal has a text that stands for it: no integer is negative, and a
double is finite and does not carry a minus sign. -/
def Literal.lexical : Literal → Bool
  | .int n => 0 ≤ n.toInt
  | .float (.finite negative _) => !negative
  | .float (.infinite _) | .float .nan => false
  | .str q raw => wellEscaped q.mark raw.toList
  | .bool _ | .null => true

/-- The literals that are read: those that have a text, and the infinity that a
number too large becomes. -/
def Literal.readable (l : Literal) : Bool := l.lexical || l == .float (.infinite false)

theorem Literal.readable_of_lexical {l : Literal} (h : l.lexical = true) : l.readable = true := by
  rw [Literal.readable, h, Bool.true_or]

namespace Reader

variable {x : String} {r : List Char}

/-- A run of digits is read to its end. -/
theorem digits_ok {ds : List Char} (hne : ds ≠ []) (hds : ∀ c ∈ ds, c.isDigit = true)
    (hr : ∀ c ∈ r.head?, c.isDigit = false) : digits (ds ++ r) = .ok ds r := by
  cases ds with
  | nil => exact absurd rfl hne
  | cons c ds =>
    rw [List.cons_append, digits, bind_ok (satisfy_ok (hds c List.mem_cons_self)),
      bind_ok (span_append (fun d hd => hds d (List.mem_cons_of_mem c hd)) hr)]
    rfl

theorem digits_misses {c : Char} {s : List Char} (hc : c.isDigit = false) :
    digits.Misses (c :: s) :=
  bind_miss (satisfy_miss (by simpa using hc))

/-- The text between quotes is read up to the closing one. -/
theorem rawText_ok {q : Char} (hq : q ≠ '\\') {raw : List Char}
    (hraw : wellEscaped q raw = true) (r : List Char) :
    rawText q (raw ++ q :: r) = .ok raw (q :: r) := by
  fun_induction wellEscaped q raw with
  | case1 => simp [rawText.eq_def]
  | case2 => cases hraw
  | case3 c s ih => simp [rawText, Ne.symm hq, ih hraw]
  | case4 c s hlone hpair ih =>
    rw [Bool.and_eq_true, bne_iff_ne] at hraw
    have hc : c ≠ '\\' := by
      rintro rfl
      cases s with
      | nil => exact hlone rfl rfl
      | cons d s => exact hpair d s rfl rfl
    rw [List.cons_append, rawText.eq_def]
    simp [hraw.1, hc, ih hraw.2]

/-- A string reads back. -/
theorem quotedBy_ok {q : Quote} {raw : String} (hraw : wellEscaped q.mark raw.toList = true)
    (r : List Char) : quotedBy q (q.mark :: (raw.toList ++ q.mark :: r)) = .ok (.str q raw) r := by
  have hq : q.mark ≠ '\\' := by cases q <;> decide
  rw [quotedBy, bind_ok (char_self _ _), bind_ok (rawText_ok hq hraw r), bind_ok (char_self _ _),
    String.ofList_toList]
  rfl

/-- The three words that are literals are not found where no letter stands. -/
theorem literal_of_not_isAlpha {c : Char} {s : List Char} (hc : c.isAlpha = false) :
    literal (c :: s) =
      (float <|> int <|> quotedBy .single <|> quotedBy .double : Reader Literal) (c :: s) := by
  rw [literal,
    orElse_miss (bind_miss (keyword_misses_of_not_isAlpha (by decide) (by decide) hc)),
    orElse_miss (bind_miss (keyword_misses_of_not_isAlpha (by decide) (by decide) hc)),
    orElse_miss (bind_miss (keyword_misses_of_not_isAlpha (by decide) (by decide) hc))]

theorem isAlpha_of_isDigit {c : Char} (h : c.isDigit = true) : c.isAlpha = false := by
  rw [Bool.eq_false_iff]
  intro halpha
  have hstart : isNameStart c = true := by simp [isNameStart, isWordStart, halpha]
  rw [isDigit_of_isNameStart hstart] at h
  cases h

theorem float_misses {c : Char} {s : List Char} (hc : c.isDigit = false) : float.Misses (c :: s) :=
  bind_miss (digits_misses hc)

theorem int_misses {c : Char} {s : List Char} (hc : c.isDigit = false) : int.Misses (c :: s) :=
  bind_miss (digits_misses hc)

theorem not_isDigit_of_apart (hr : Apart r) : ∀ c ∈ r.head?, c.isDigit = false := by
  intro c hc
  rw [Bool.eq_false_iff]
  intro hd
  have := (hr c hc).1
  rw [isNameChar_of_isWordChar (isWordChar_of_isDigit hd)] at this
  cases this

/-- A run of digits reads as the number it denotes. -/
theorem literal_digits {ds : List Char} (hne : ds ≠ []) (hds : ∀ c ∈ ds, c.isDigit = true)
    (hr : Apart r) : literal (ds ++ r) = .ok (natLiteral (Nat.ofDigitChars 10 ds 0)) r := by
  have hdigits := digits_ok hne hds (not_isDigit_of_apart hr)
  have hfloat : float.Misses (ds ++ r) :=
    misses_of_bind_ok hdigits (bind_miss (char_miss fun h => (hr '.' h).2 rfl))
  have hint : int (ds ++ r) = .ok (natLiteral (Nat.ofDigitChars 10 ds 0)) r := by
    rw [int, bind_ok hdigits]
    rfl
  cases ds with
  | nil => exact absurd rfl hne
  | cons c ds =>
    rw [List.cons_append] at hfloat hint ⊢
    rw [literal_of_not_isAlpha (isAlpha_of_isDigit (hds c List.mem_cons_self)),
      orElse_miss hfloat, orElse_ok hint]

/-- Digits, a point and digits read as the double nearest to what they denote. -/
theorem literal_fraction {whole fraction : List Char} (hwne : whole ≠ []) (hfne : fraction ≠ [])
    (hw : ∀ c ∈ whole, c.isDigit = true) (hf : ∀ c ∈ fraction, c.isDigit = true) (hr : Apart r) :
    literal (whole ++ '.' :: (fraction ++ r)) =
      .ok (.float (.ofFraction false (Nat.ofDigitChars 10 (whole ++ fraction) 0)
        (10 ^ fraction.length))) r := by
  have hfloat : float (whole ++ '.' :: (fraction ++ r)) = .ok (.float (.ofFraction false
      (Nat.ofDigitChars 10 (whole ++ fraction) 0) (10 ^ fraction.length))) r := by
    have hpoint : ∀ c ∈ ('.' :: (fraction ++ r)).head?, c.isDigit = false := by
      simp
    rw [float, bind_ok (digits_ok hwne hw hpoint), bind_ok (char_self _ _),
      bind_ok (digits_ok hfne hf (not_isDigit_of_apart hr))]
    rfl
  cases whole with
  | nil => exact absurd rfl hwne
  | cons c whole =>
    rw [List.cons_append] at hfloat ⊢
    rw [literal_of_not_isAlpha (isAlpha_of_isDigit (hw c List.mem_cons_self)), orElse_ok hfloat]

/-- An integer that is not negative reads back, for it is not larger than the largest one. -/
theorem literal_int {n : Int64} (hn : 0 ≤ n.toInt) (hr : Apart r) :
    literal ((Literal.int n).text ++ r) = .ok (.int n) r := by
  have hmax : n.toInt.natAbs ≤ maxInt := by
    have hle := Int64.toInt_le n
    have hval : Int64.maxValue.toInt = 2 ^ 63 - 1 := by decide
    rw [hval] at hle
    show n.toInt.natAbs ≤ 2 ^ 63 - 1
    omega
  have hback : Int64.ofNat n.toInt.natAbs = n := by
    rw [← Int64.toInt_inj, toInt_ofNat_of_le_maxInt hmax]
    omega
  rw [Literal.text, intText, if_neg (Int.not_lt.mpr hn),
    literal_digits (Magnitude.natText_ne_nil _) (fun c hc => Magnitude.isDigit_of_mem_natText hc)
      hr,
    Magnitude.ofDigitChars_natText, natLiteral, if_pos hmax, hback]

/-- A double without a sign reads back. -/
theorem literal_magnitude (m : Magnitude) (hr : Apart r) :
    literal ((Literal.float (.finite false m)).text ++ r) = .ok (.float (.finite false m)) r := by
  obtain ⟨whole, fraction, htext, hwne, hfne, hw, hf, hnear⟩ := Magnitude.exists_text_eq m
  have heq : (Literal.float (.finite false m)).text ++ r = whole ++ '.' :: (fraction ++ r) := by
    simp [Literal.text, Double.text, htext]
  rw [heq, literal_fraction hwne hfne hw hf hr, Double.ofFraction_of_nearest? false hnear]

/-- A string reads back, whatever stands behind its closing quote. -/
theorem literal_str {q : Quote} {raw : String} (hraw : wellEscaped q.mark raw.toList = true)
    (r : List Char) : literal ((Literal.str q raw).text ++ r) = .ok (.str q raw) r := by
  have hquoted := quotedBy_ok hraw r
  have heq : (Literal.str q raw).text ++ r = q.mark :: (raw.toList ++ q.mark :: r) := by
    simp [Literal.text]
  rw [heq]
  cases q with
  | single =>
    rw [literal_of_not_isAlpha (by decide), orElse_miss (float_misses (by decide)),
      orElse_miss (int_misses (by decide)), orElse_ok hquoted]
  | double =>
    have hsingle : (quotedBy .single).Misses
        (Quote.double.mark :: (raw.toList ++ Quote.double.mark :: r)) :=
      bind_miss (char_miss (by simp [Quote.mark]))
    rw [literal_of_not_isAlpha (by decide), orElse_miss (float_misses (by decide)),
      orElse_miss (int_misses (by decide)), orElse_miss hsingle, hquoted]

/-- A literal reads back from its text. -/
theorem literal_ok {l : Literal} (hl : l.lexical = true) (hr : Apart r) :
    literal (l.text ++ r) = .ok l r := by
  have hword := hr.isWordChar
  have hlead : ∀ {word : List Char}, word.all isWordChar = true →
      leadWord (word ++ r) = word.map Char.toLower :=
    fun h => leadWord_append (List.all_eq_true.mp h) hword
  cases l with
  | int n => exact literal_int (of_decide_eq_true hl) hr
  | float x =>
    cases x with
    | finite negative m =>
      obtain rfl : negative = false := Bool.not_eq_true' _ |>.mp hl
      exact literal_magnitude m hr
    | infinite _ => cases hl
    | nan => cases hl
  | str q raw => exact literal_str hl r
  | bool b =>
    cases b with
    | true =>
      have hkey : keyword "true" ("true".toList ++ r) = .ok () r := keyword_append (by decide) hword
      rw [Literal.text, literal, orElse_ok (bind_pure_ok hkey)]
    | false =>
      have hkey : keyword "false" ("false".toList ++ r) = .ok () r :=
        keyword_append (by decide) hword
      have htrue : (keyword "true").Misses ("false".toList ++ r) :=
        keyword_misses (by decide) (by rw [hlead (by decide)]; decide)
      rw [Literal.text, literal, orElse_miss (bind_miss htrue), orElse_ok (bind_pure_ok hkey)]
  | null =>
    have hkey : keyword "null" ("null".toList ++ r) = .ok () r := keyword_append (by decide) hword
    have htrue : (keyword "true").Misses ("null".toList ++ r) :=
      keyword_misses (by decide) (by rw [hlead (by decide)]; decide)
    have hfalse : (keyword "false").Misses ("null".toList ++ r) :=
      keyword_misses (by decide) (by rw [hlead (by decide)]; decide)
    rw [Literal.text, literal, orElse_miss (bind_miss htrue), orElse_miss (bind_miss hfalse),
      orElse_ok (bind_pure_ok hkey)]

/-- No literal is found where a name stands. -/
theorem literal_misses_of_isName (hx : isName x = true) (hr : Apart r) :
    literal.Misses (x.toList ++ r) := by
  have hlead := leadWord_name hx fun c hc => (hr c hc).1
  rw [isName] at hx
  split at hx
  · cases hx
  · next c cs heq =>
    rw [← heq, Bool.and_eq_true, Bool.and_eq_true, ← hlead, Bool.not_eq_true',
      List.contains_eq_mem, decide_eq_false_iff_not] at hx
    have hkey : ∀ word : String, word.toList ∈ literalWords →
        word.toList.all Char.isLower = true → (keyword word).Misses (x.toList ++ r) :=
      fun word hmem hlower => keyword_misses hlower fun h => hx.2 (h ▸ hmem)
    have hdigit := isDigit_of_isNameStart hx.1.1
    have hquote : ∀ q : Quote, (quotedBy q).Misses (x.toList ++ r) := by
      intro q
      refine bind_miss (char_miss fun h => ?_)
      rw [heq, List.cons_append, List.head?_cons, Option.some.injEq] at h
      subst h
      cases q <;> exact absurd hx.1.1 (by decide)
    have hnumber : float.Misses (x.toList ++ r) ∧ int.Misses (x.toList ++ r) := by
      rw [heq]
      exact ⟨float_misses hdigit, int_misses hdigit⟩
    exact orElse_misses (bind_miss (hkey "true" (by decide) (by decide)))
      (orElse_misses (bind_miss (hkey "false" (by decide) (by decide)))
        (orElse_misses (bind_miss (hkey "null" (by decide) (by decide)))
          (orElse_misses hnumber.1 (orElse_misses hnumber.2
            (orElse_misses (hquote .single) (hquote .double))))))

end Reader
end Casework
