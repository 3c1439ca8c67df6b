import Mathlib.Data.List.TakeDrop
import Mathlib.Data.List.TakeWhile
import SlotVm.Json.Printer
import SlotVm.Json.Reader

/-!
# Numbers and texts read back

What the printer writes for a number or a text, the reader takes from the
front of a longer text and leaves what follows.  A text ends at its closing
quote.  A number has no end of its own, so it is read back only in front of
a separator (`Closed`).

* Numbers: `Number.Written` is the grammar.  The reader keeps it
  (`scanNumber_written`) and reads it back (`scanNumber_chars`); integers
  satisfy it and keep their value (`Number.ofInt_written`,
  `Number.int?_ofInt`).
* Texts: one escaped character adds itself to what has been read
  (`scanText_escapedChar`), and a whole text follows by induction
  (`scanText_escaped`).
-/

namespace SlotVm.Json

/-! ## What stands behind a value -/

/-- Nothing follows, or a comma or a line feed does. -/
def Closed (cs : List Char) : Prop :=
  ∀ c rest, cs = c :: rest → c = ',' ∨ c = '\n'

theorem closed_nil : Closed [] := by
  intro c rest h
  cases h

theorem closed_comma (rest : List Char) : Closed (',' :: rest) := by
  intro c rest' h
  cases h
  exact .inl rfl

theorem closed_newline (depth : Nat) (rest : List Char) :
    Closed (newline depth ++ rest) := by
  intro c rest' h
  cases h
  exact .inr rfl

/-- A separator is no part of a number. -/
theorem Closed.not_isDigit {rest : List Char} (h : Closed rest) :
    ∀ c tail, rest = c :: tail → c.isDigit = false := by
  intro c tail hc
  rcases h c tail hc with rfl | rfl <;> rfl

/-! ## Numbers -/

/-- Digits, at least one. -/
def IsDigits (cs : List Char) : Prop :=
  cs ≠ [] ∧ ∀ c ∈ cs, c.isDigit = true

namespace Number

/-- The exponent is missing, or it is digits with or without a sign. -/
def ExponentWritten (cs : List Char) : Prop :=
  cs = [] ∨ ∃ sign digits, (sign = [] ∨ sign = ['+'] ∨ sign = ['-'])
    ∧ IsDigits digits ∧ cs = sign ++ digits

/-- The number follows the grammar. -/
structure Written (n : Number) : Prop where
  whole : IsDigits n.whole
  /-- The first of several digits is not a zero. -/
  leading : n.whole.head? = some '0' → n.whole.length = 1
  fraction : ∀ c ∈ n.fraction, c.isDigit = true
  exponent : ExponentWritten n.exponent

end Number

theorem isBlank_of_isDigit {c : Char} (h : c.isDigit = true) :
    isBlank c = false := by
  simp only [isBlank, Bool.or_eq_false_iff, beq_eq_false_iff_ne]
  refine ⟨⟨⟨?_, ?_⟩, ?_⟩, ?_⟩ <;> rintro rfl <;> cases h

/-- A list without blanks. -/
theorem not_isBlank_of_any {cs : List Char} (h : cs.any isBlank = false) :
    ∀ c ∈ cs, isBlank c = false :=
  fun c hc => Bool.eq_false_iff.2 (List.any_eq_false.1 h c hc)

theorem span_digits {cs digits rest : List Char}
    (h : cs.span Char.isDigit = (digits, rest)) :
    ∀ c ∈ digits, c.isDigit = true := by
  rw [List.span_eq_takeWhile_dropWhile, Prod.mk.injEq] at h
  rw [← h.1]
  exact fun c hc => List.mem_takeWhile_imp hc

/-- A span of digits ends where no digit follows. -/
theorem span_digits_append {digits tail : List Char}
    (hdigits : ∀ c ∈ digits, c.isDigit = true)
    (htail : ∀ c rest, tail = c :: rest → c.isDigit = false) :
    (digits ++ tail).span Char.isDigit = (digits, tail) := by
  have hstop :
      tail.takeWhile Char.isDigit = [] ∧ tail.dropWhile Char.isDigit = tail := by
    rcases tail with _ | ⟨c, tail⟩
    · exact ⟨rfl, rfl⟩
    · simp [htail c tail rfl]
  rw [List.span_eq_takeWhile_dropWhile, List.takeWhile_append_of_pos hdigits,
    List.dropWhile_append_of_pos hdigits, hstop.1, hstop.2, List.append_nil]

/-! ### What the reader takes -/

theorem scanFraction_digits {cs digits rest : List Char}
    (h : scanFraction cs = some (digits, rest)) :
    ∀ c ∈ digits, c.isDigit = true := by
  unfold scanFraction at h
  split at h
  · rename_i after
    rcases hs : after.span Char.isDigit with ⟨taken, behind⟩
    simp only [hs] at h
    split at h
    · cases h
    · cases h
      exact span_digits hs
  · cases h
    intro c hc
    cases hc

theorem scanExponentDigits_written {sign cs exponent rest : List Char}
    (hsign : sign = [] ∨ sign = ['+'] ∨ sign = ['-'])
    (h : scanExponentDigits sign cs = some (exponent, rest)) :
    Number.ExponentWritten exponent := by
  unfold scanExponentDigits at h
  rcases hs : List.span Char.isDigit cs with ⟨taken, after⟩
  simp only [hs] at h
  split at h
  · cases h
  · rename_i hne
    cases h
    refine .inr ⟨sign, taken, hsign, ⟨?_, span_digits hs⟩, rfl⟩
    rintro rfl
    exact hne rfl

theorem scanExponent_written {cs exponent rest : List Char}
    (h : scanExponent cs = some (exponent, rest)) :
    Number.ExponentWritten exponent := by
  unfold scanExponent at h
  split at h
  · split at h
    · split at h
      · exact scanExponentDigits_written (.inr (.inl rfl)) h
      · exact scanExponentDigits_written (.inr (.inr rfl)) h
      · exact scanExponentDigits_written (.inl rfl) h
    · cases h
      exact .inl rfl
  · cases h
    exact .inl rfl

theorem scanMagnitude_written {negative : Bool} {cs rest : List Char}
    {n : Number} (h : scanMagnitude negative cs = some (n, rest)) :
    n.Written := by
  unfold scanMagnitude at h
  rcases hs : List.span Char.isDigit cs with ⟨whole, after⟩
  simp only [hs] at h
  split at h
  · cases h
  · rename_i hwhole
    simp only [Bool.or_eq_true, Bool.and_eq_true, not_or, not_and,
      List.isEmpty_iff, beq_iff_eq, bne_iff_ne, ne_eq, Decidable.not_not]
      at hwhole
    simp only [Option.pure_def, Option.bind_eq_bind,
      Option.bind_eq_some_iff] at h
    obtain ⟨⟨fraction, _⟩, hfraction, ⟨exponent, _⟩, hexponent, h⟩ := h
    cases h
    exact ⟨⟨hwhole.1, span_digits hs⟩, hwhole.2,
      scanFraction_digits hfraction, scanExponent_written hexponent⟩

/-- The reader takes numbers that follow the grammar. -/
theorem scanNumber_written {cs rest : List Char} {n : Number}
    (h : scanNumber cs = some (n, rest)) : n.Written := by
  unfold scanNumber at h
  split at h <;> exact scanMagnitude_written h

/-! ### Reading a number back -/

theorem scanExponentDigits_append (sign : List Char) {digits rest : List Char}
    (hdigits : IsDigits digits) (hrest : Closed rest) :
    scanExponentDigits sign (digits ++ rest) = some (sign ++ digits, rest) := by
  unfold scanExponentDigits
  rw [span_digits_append hdigits.2 hrest.not_isDigit]
  simp [hdigits.1]

/-- The written form of an exponent. -/
def Number.exponentChars (exponent : List Char) : List Char :=
  if exponent.isEmpty then [] else 'e' :: exponent

theorem scanExponent_append {exponent rest : List Char}
    (h : Number.ExponentWritten exponent) (hrest : Closed rest) :
    scanExponent (Number.exponentChars exponent ++ rest)
      = some (exponent, rest) := by
  rcases h with rfl | ⟨sign, digits, hsign, hdigits, rfl⟩
  · rcases rest with _ | ⟨c, rest⟩
    · rfl
    · rcases hrest c rest rfl with rfl | rfl <;> rfl
  · have hchars : Number.exponentChars (sign ++ digits)
        = 'e' :: (sign ++ digits) := by
      simp [Number.exponentChars, hdigits.1]
    rw [hchars]
    rcases hsign with rfl | rfl | rfl
    · -- without a sign the first digit must not be taken for one
      obtain ⟨c, cs, rfl⟩ := List.exists_cons_of_ne_nil hdigits.1
      have hc : c.isDigit = true := hdigits.2 c List.mem_cons_self
      have hplus : c ≠ '+' := by rintro rfl; cases hc
      have hminus : c ≠ '-' := by rintro rfl; cases hc
      have := scanExponentDigits_append [] hdigits hrest
      simpa [scanExponent, hplus, hminus] using this
    · exact scanExponentDigits_append _ hdigits hrest
    · exact scanExponentDigits_append _ hdigits hrest

/-- Behind the digits in front of the point stands no digit. -/
theorem exponentChars_append_not_isDigit (exponent : List Char)
    {rest : List Char} (hrest : Closed rest) :
    ∀ c tail, Number.exponentChars exponent ++ rest = c :: tail →
      c.isDigit = false ∧ c ≠ '.' := by
  intro c tail h
  unfold Number.exponentChars at h
  split at h
  · rcases hrest c tail h with rfl | rfl <;> decide
  · cases h
    decide

/-- The written form of a fraction. -/
def Number.fractionChars (fraction : List Char) : List Char :=
  if fraction.isEmpty then [] else '.' :: fraction

theorem scanFraction_append {fraction tail : List Char}
    (hfraction : ∀ c ∈ fraction, c.isDigit = true)
    (htail : ∀ c rest, tail = c :: rest → c.isDigit = false ∧ c ≠ '.') :
    scanFraction (Number.fractionChars fraction ++ tail)
      = some (fraction, tail) := by
  unfold Number.fractionChars
  split
  · rename_i hempty
    rw [List.isEmpty_iff.mp hempty, List.nil_append]
    rcases tail with _ | ⟨c, tail⟩
    · rfl
    · simp [scanFraction, (htail c tail rfl).2]
  · rename_i hempty
    have hspan := span_digits_append hfraction fun c rest h => (htail c rest h).1
    simp only [List.cons_append, scanFraction, hspan]
    simp [hempty]

theorem fractionChars_append_not_isDigit (fraction : List Char)
    {tail : List Char} (htail : ∀ c rest, tail = c :: rest → c.isDigit = false ∧ c ≠ '.') :
    ∀ c rest, Number.fractionChars fraction ++ tail = c :: rest →
      c.isDigit = false := by
  intro c rest h
  unfold Number.fractionChars at h
  split at h
  · exact (htail c rest h).1
  · cases h
    rfl

theorem Number.chars_eq (n : Number) :
    n.chars = (if n.negative then ['-'] else []) ++ n.whole
      ++ Number.fractionChars n.fraction ++ Number.exponentChars n.exponent :=
  rfl

theorem scanMagnitude_append {n : Number} (h : n.Written) {rest : List Char}
    (hrest : Closed rest) :
    scanMagnitude n.negative (n.whole ++ (Number.fractionChars n.fraction
      ++ (Number.exponentChars n.exponent ++ rest))) = some (n, rest) := by
  have hexponent := exponentChars_append_not_isDigit n.exponent hrest
  have hspan := span_digits_append h.whole.2
    (fractionChars_append_not_isDigit n.fraction hexponent)
  have hstart : (n.whole.isEmpty
      || (n.whole.head? == some '0' && n.whole.length != 1)) = false := by
    have hlead := h.leading
    have hne := h.whole.1
    simp only [Bool.or_eq_false_iff, List.isEmpty_eq_false_iff, ne_eq]
    refine ⟨hne, ?_⟩
    by_cases hzero : n.whole.head? = some '0'
    · simp [hlead hzero]
    · simp [hzero]
  simp only [scanMagnitude, hspan, hstart]
  simp [scanFraction_append h.fraction hexponent,
    scanExponent_append h.exponent hrest]

/-- The reader takes a written number from the front of a text. -/
theorem scanNumber_chars {n : Number} (h : n.Written) {rest : List Char}
    (hrest : Closed rest) : scanNumber (n.chars ++ rest) = some (n, rest) := by
  have hscan := scanMagnitude_append h hrest
  rw [Number.chars_eq]
  by_cases hneg : n.negative
  · simpa [scanNumber, hneg] using hscan
  · obtain ⟨c, cs, hcs⟩ := List.exists_cons_of_ne_nil h.whole.1
    have hc : c.isDigit = true := h.whole.2 c (hcs ▸ List.mem_cons_self)
    have hminus : c ≠ '-' := by rintro rfl; cases hc
    simpa [scanNumber, hneg, hcs, hminus] using hscan

/-- A written number starts with its sign or with a digit. -/
theorem Number.Written.chars_cons {n : Number} (h : n.Written) :
    ∃ c cs, n.chars = c :: cs ∧ (c = '-' ∨ c.isDigit = true) := by
  obtain ⟨c, cs, hcs⟩ := List.exists_cons_of_ne_nil h.whole.1
  have hc : c.isDigit = true := h.whole.2 c (hcs ▸ List.mem_cons_self)
  rw [Number.chars_eq, hcs]
  by_cases hneg : n.negative
  · exact ⟨'-', _, by simp [hneg]; rfl, .inl rfl⟩
  · exact ⟨c, _, by simp [hneg]; rfl, .inr hc⟩

/-! ### Integers -/

theorem natOfDigits_toDigits (n : Nat) : natOfDigits (Nat.toDigits 10 n) = n := by
  have h : natOfDigits (Nat.toDigits 10 n)
      = Nat.ofDigitChars 10 (Nat.toDigits 10 n) 0 := by
    rw [Nat.ofDigitChars_eq_foldl]
    simp only [natOfDigits, Nat.mul_comm]
  rw [h, Nat.ofDigitChars_ten_toDigits]

theorem isDigits_toDigits (n : Nat) : IsDigits (Nat.toDigits 10 n) :=
  ⟨Nat.toDigits_ne_nil, fun _ hc =>
    Nat.isDigit_of_mem_toDigits (by decide) (by decide) hc⟩

/-- Only zero is written with a leading zero. -/
theorem toDigits_leading (n : Nat) (h : (Nat.toDigits 10 n).head? = some '0') :
    (Nat.toDigits 10 n).length = 1 := by
  induction n using Nat.strongRecOn with
  | ind n ih =>
    by_cases hn : n < 10
    · rw [Nat.toDigits_of_lt_base hn]
      rfl
    · exfalso
      have hfront : (Nat.toDigits 10 (n / 10)).head? = some '0' := by
        rw [Nat.toDigits_of_base_le (by decide) (by omega)] at h
        rw [List.head?_append] at h
        simpa [List.head?_eq_some_head Nat.toDigits_ne_nil] using h
      have hone := ih (n / 10) (by omega) hfront
      have hsmall : n / 10 < 10 := by
        by_cases hs : n / 10 < 10
        · exact hs
        · rw [Nat.toDigits_of_base_le (by decide) (by omega),
            List.length_append] at hone
          have := Nat.length_toDigits_pos (b := 10) (n := n / 10 / 10)
          simp at hone
      have hzero : n / 10 = 0 := by
        rw [Nat.toDigits_of_lt_base hsmall] at hfront
        have hd : ∀ d < 10, Nat.digitChar d = '0' → d = 0 := by decide
        exact hd _ hsmall (by simpa using hfront)
      omega

theorem Number.ofInt_written (n : Int) : (Number.ofInt n).Written where
  whole := isDigits_toDigits _
  leading := toDigits_leading _
  fraction := by simp [Number.ofInt]
  exponent := .inl rfl

/-- An integer that is written keeps its value. -/
theorem Number.int?_ofInt (n : Int) : (Number.ofInt n).int? = some n := by
  have hvalue : natOfDigits (Number.ofInt n).whole = n.natAbs :=
    natOfDigits_toDigits _
  have hwhole : (Number.ofInt n).isWhole = true := rfl
  have hsign : (Number.ofInt n).negative = decide (n < 0) := rfl
  unfold Number.int?
  simp only [hvalue, hwhole, hsign]
  by_cases hneg : n < 0
  · have hne : n.natAbs ≠ 0 := by omega
    have habs : -(n.natAbs : Int) = n := by omega
    simp only [hneg, decide_true, Bool.not_true, Bool.false_eq_true, if_false,
      if_neg hne, habs]
  · have habs : (n.natAbs : Int) = n := by omega
    simp only [hneg, decide_false, Bool.not_true, Bool.not_false,
      Bool.false_eq_true, if_false, if_true, habs]

/-! ## Texts -/

/-- The digits of a control character's escape write its number. -/
theorem hexUnit?_digitChars : ∀ n < 32,
    hexUnit? '0' '0' (Nat.digitChar (n / 16)) (Nat.digitChar (n % 16))
      = some n := by
  decide

theorem TextSoFar.pushUnit_small (t : TextSoFar) {c : Char} (hc : c < ' ') :
    t.pushUnit c.toNat = t.push c := by
  have hn : c.toNat < 32 := hc
  have hhigh : isHighSurrogate c.toNat = false := by
    simp only [isHighSurrogate, Bool.and_eq_false_iff, decide_eq_false_iff_not]
    omega
  have hlow : isLowSurrogate c.toNat = false := by
    simp only [isLowSurrogate, Bool.and_eq_false_iff, decide_eq_false_iff_not]
    omega
  simp [pushUnit, hhigh, hlow]

theorem scanText_plain (t : TextSoFar) {c : Char} (rest : List Char)
    (hquote : c ≠ '"') (hbackslash : c ≠ '\\') (hcontrol : ¬ c < ' ') :
    scanText t (c :: rest) = scanText (t.push c) rest := by
  rw [scanText]
  · exact if_neg hcontrol
  · exact hquote
  · rintro _ _ _ _ _ rfl
    exact absurd rfl hbackslash
  · rintro _ _ rfl
    exact absurd rfl hbackslash

/-- The reader adds an escaped character to what it has read. -/
theorem scanText_escapedChar (t : TextSoFar) (c : Char) (rest : List Char) :
    scanText t (escapedChar c ++ rest) = scanText (t.push c) rest := by
  unfold escapedChar
  split
  · simp [scanText, letterEscape?]
  · simp [scanText, letterEscape?]
  · simp [scanText, letterEscape?]
  · simp [scanText, letterEscape?]
  · simp [scanText, letterEscape?]
  · simp [scanText, letterEscape?]
  · simp [scanText, letterEscape?]
  · split
    · rename_i hcontrol
      have hn : c.toNat < 32 := hcontrol
      simp [controlEscape, scanText, hexUnit?_digitChars _ hn,
        t.pushUnit_small hcontrol]
    · rename_i hquote hbackslash _ _ _ _ _ hcontrol
      exact scanText_plain t rest hquote hbackslash hcontrol

/-- A whole text is read back up to its closing quote. -/
theorem scanText_escaped (cs latest rest : List Char) :
    scanText ⟨latest, none, true⟩ (cs.flatMap escapedChar ++ '"' :: rest)
      = some (some (String.ofList (latest.reverse ++ cs)), rest) := by
  induction cs generalizing latest with
  | nil => simp [scanText, TextSoFar.content]
  | cons c cs ih =>
    have hpush : TextSoFar.push ⟨latest, none, true⟩ c
        = ⟨c :: latest, none, true⟩ := rfl
    rw [List.flatMap_cons, List.append_assoc, scanText_escapedChar, hpush, ih]
    simp

/-- What stands behind the opening quote of a printed text is that text. -/
theorem scanText_quotedText (s : String) (rest : List Char) :
    scanText .empty (s.toList.flatMap escapedChar ++ '"' :: rest)
      = some (some s, rest) := by
  simpa [TextSoFar.empty] using scanText_escaped s.toList [] rest

end SlotVm.Json
