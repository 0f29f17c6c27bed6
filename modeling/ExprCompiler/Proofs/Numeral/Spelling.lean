import ExprCompiler.Numeral.Layout
import ExprCompiler.Proofs.Json.RoundTrip
import ExprCompiler.Proofs.Numeral.Digits
import ExprCompiler.Proofs.Numeral.Finite
import ExprCompiler.Proofs.Numeral.Shortest

/-!
# Spelled numbers

The text of a finite double in any layout is a number of the grammar of documents, and reading it
gives the double back (`Numeral.exists_spelling_text`). Main statements for documents:
`Numeral.readFloat_document` and `Numeral.isNumberText_document`.
-/

namespace ExprCompiler.Numeral

open Json (isNumberText NumberPart)

/-- The parts of a decimal text: the digits before the point, those after it and the power of ten.
No zero stands before other digits. -/
structure Spelling where
  whole : List Char
  places : List Char
  scale : Option Int
  isDigit_whole : ∀ c ∈ whole, c.isDigit = true
  isDigit_places : ∀ c ∈ places, c.isDigit = true
  lead : whole = ['0'] ∨ ∃ c cs, whole = c :: cs ∧ c ≠ '0'

namespace Spelling

variable (s : Spelling)

def fractionChars : List Char := if s.places = [] then [] else '.' :: s.places

def scaleChars (width : Nat) : List Char :=
  match s.scale with
  | none => []
  | some e => 'e' :: exponentText width e

def chars (width : Nat) : List Char := s.whole ++ (s.fractionChars ++ s.scaleChars width)

/-- All digits as one number. -/
def numerator : Nat := Nat.ofDigitChars 10 (s.whole ++ s.places) 0

/-- The power of ten that the number of all digits is scaled by. -/
def exponent : Int := s.scale.getD 0 - s.places.length

def value : ℚ := s.numerator * 10 ^ s.exponent

/-- The digits of a natural number. -/
def ofNat (n : Nat) : Spelling where
  whole := Nat.toDigits 10 n
  places := []
  scale := none
  isDigit_whole := isDigit_toDigits n
  isDigit_places := by simp
  lead := by
    rcases Nat.eq_zero_or_pos n with rfl | hn
    · exact .inl rfl
    · obtain ⟨c, cs, h⟩ := List.exists_cons_of_ne_nil (Nat.toDigits_ne_nil (n := n) (b := 10))
      refine .inr ⟨c, cs, h, ?_⟩
      rintro rfl
      exact head_toDigits_ne_zero hn cs h

theorem chars_ofNat (n width : Nat) : (ofNat n).chars width = Nat.toDigits 10 n := by
  simp [chars, ofNat, fractionChars, scaleChars]

theorem numerator_ofNat (n : Nat) : (ofNat n).numerator = n := by
  simp [numerator, ofNat, Nat.ofDigitChars_ten_toDigits]

end Spelling

/-! ## Grammar -/

/-- The text of an exponent is a sign and digits. -/
theorem isDigit_exponentText (width : Nat) (e : Int) :
    ∃ sign ds, exponentText width e = sign :: ds ∧ (sign = '-' ∨ sign = '+') ∧ ds ≠ [] ∧
      ∀ c ∈ ds, c.isDigit = true := by
  refine ⟨_, _, rfl, ?_, ?_, ?_⟩
  · split_ifs
    · exact .inl rfl
    · exact .inr rfl
  · simp [Nat.toDigits_ne_nil]
  · intro c hc
    rcases List.mem_append.1 hc with hc | hc
    · obtain rfl := List.eq_of_mem_replicate hc
      rfl
    · exact isDigit_toDigits _ c hc

/-- A part that takes every digit is not changed by digits. -/
theorem after?_digits {p : NumberPart} (hp : ∀ c : Char, c.isDigit = true → p.next? c = some p)
    {ds : List Char} (hds : ∀ c ∈ ds, c.isDigit = true) (rest : List Char) :
    p.after? (ds ++ rest) = p.after? rest := by
  induction ds with
  | nil => rfl
  | cons c ds ih =>
      obtain ⟨hc, hds⟩ := List.forall_mem_cons.1 hds
      rw [List.cons_append, NumberPart.after?, hp c hc]
      exact ih hds

namespace Spelling

variable (s : Spelling) (width : Nat)

/-- After the digits before the point, a point or a mark may follow. -/
theorem after?_whole (rest : List Char) :
    ∃ p : NumberPart, p.final = true ∧ p.next? '.' = some .point ∧ p.next? 'e' = some .mark ∧
      NumberPart.after? .minus (s.whole ++ rest) = p.after? rest ∧
      ∃ c cs, s.whole = c :: cs ∧
        (NumberPart.first? c).bind (NumberPart.after? · (cs ++ rest)) = p.after? rest := by
  rcases s.lead with h | ⟨c, cs, h, hc⟩
  · refine ⟨.zero, rfl, rfl, rfl, ?_, '0', [], h, rfl⟩
    rw [h]
    rfl
  · have hdigits := s.isDigit_whole
    rw [h] at hdigits
    obtain ⟨hdigit, hcs⟩ := List.forall_mem_cons.1 hdigits
    have hafter := after?_digits (p := .whole) (fun c hc ↦ by simp [NumberPart.next?, hc]) hcs rest
    have hminus : c ≠ '-' := ne_of_isDigit hdigit rfl
    refine ⟨.whole, rfl, rfl, rfl, ?_, c, cs, h, ?_⟩
    · rw [h, List.cons_append, NumberPart.after?]
      simp [NumberPart.next?, hc, hdigit, hafter]
    · simp [NumberPart.first?, hminus, hc, hdigit, hafter]

theorem after?_scaleChars {p : NumberPart} (hfinal : p.final = true)
    (hmark : p.next? 'e' = some .mark) :
    (p.after? (s.scaleChars width)).any NumberPart.final = true := by
  rw [scaleChars]
  cases s.scale with
  | none => simpa [NumberPart.after?] using hfinal
  | some e =>
      obtain ⟨sign, ds, htext, hsign, hne, hds⟩ := isDigit_exponentText width e
      obtain ⟨c, cs, rfl⟩ := List.exists_cons_of_ne_nil hne
      obtain ⟨hc, hcs⟩ := List.forall_mem_cons.1 hds
      have hafter := after?_digits (p := .scale) (fun c hc ↦ by simp [NumberPart.next?, hc]) hcs []
      rw [List.append_nil] at hafter
      have hsign' : NumberPart.mark.next? sign = some .markSign := by
        rcases hsign with rfl | rfl
        · rfl
        · rfl
      have hfirst : NumberPart.markSign.next? c = some .scale := by simp [NumberPart.next?, hc]
      simp only [htext, NumberPart.after?, hmark, hsign', hfirst, Option.bind_some, hafter]
      rfl

theorem after?_fractionChars {p : NumberPart} (hfinal : p.final = true)
    (hpoint : p.next? '.' = some .point) (hmark : p.next? 'e' = some .mark) :
    (p.after? (s.fractionChars ++ s.scaleChars width)).any NumberPart.final = true := by
  rw [fractionChars]
  split_ifs with hplaces
  · exact s.after?_scaleChars width hfinal hmark
  · obtain ⟨c, cs, h⟩ := List.exists_cons_of_ne_nil hplaces
    have hdigits := s.isDigit_places
    rw [h] at hdigits ⊢
    obtain ⟨hc, hcs⟩ := List.forall_mem_cons.1 hdigits
    have hafter := after?_digits (p := .places) (fun c hc ↦ by simp [NumberPart.next?, hc]) hcs
      (s.scaleChars width)
    have hfirst : NumberPart.point.next? c = some .places := by simp [NumberPart.next?, hc]
    simp only [List.cons_append, NumberPart.after?, hpoint, hfirst, Option.bind_some, hafter]
    exact s.after?_scaleChars width rfl rfl

/-- A spelling is a number of the grammar, with or without a minus. -/
theorem isNumberText_signed (negative : Bool) :
    isNumberText (signed negative (s.chars width)).toList = true := by
  obtain ⟨p, hfinal, hpoint, hmark, hminus, c, cs, hwhole, hfirst⟩ :=
    s.after?_whole (s.fractionChars ++ s.scaleChars width)
  have hp := s.after?_fractionChars width hfinal hpoint hmark
  rw [signed, String.toList_ofList]
  cases negative with
  | true =>
      simp only [if_true, isNumberText, chars]
      change (NumberPart.after? .minus _).any _ = true
      rw [hminus]
      exact hp
  | false =>
      simp only [Bool.false_eq_true, if_false, chars]
      rw [hwhole, List.cons_append, isNumberText, hfirst]
      exact hp

/-! ## Reading -/

theorem readMantissa_point {m : Mantissa} (h : m.point = false) (rest : List Char) :
    readMantissa 10 m ('.' :: rest) = readMantissa 10 { m with point := true } rest := by
  rw [readMantissa]
  simp [h]

theorem head?_scaleChars : ∀ c ∈ (s.scaleChars width).head?, c = 'e' := by
  rw [scaleChars]
  cases s.scale <;> simp

/-- The digits are read as one number, up to the power of ten. -/
theorem readMantissa_chars :
    ∃ m : Mantissa, readMantissa 10 {} (s.chars width) = (m, s.scaleChars width) ∧
      m.seen = true ∧ m.value = s.numerator ∧ m.places = s.places.length := by
  have hend (m : Mantissa) : readMantissa 10 m (s.scaleChars width) = (m, s.scaleChars width) := by
    apply readMantissa_end
    intro c hc
    obtain rfl := s.head?_scaleChars width c hc
    exact ⟨by decide, fun h ↦ absurd h (by decide), by decide⟩
  have hne : s.whole ≠ [] := by
    rcases s.lead with h | ⟨c, cs, h, -⟩
    · simp [h]
    · simp [h]
  have hseen : (Mantissa.extend {} s.whole).seen = true := by simpa [Mantissa.extend] using hne
  rw [chars, readMantissa_digits _ s.isDigit_whole, fractionChars, numerator]
  split_ifs with hplaces
  · refine ⟨_, hend _, hseen, ?_, ?_⟩
    · simp [Mantissa.extend, hplaces]
    · simp [Mantissa.extend, hplaces]
  · rw [List.cons_append, readMantissa_point rfl, readMantissa_digits _ s.isDigit_places]
    refine ⟨_, hend _, ?_, ?_, ?_⟩
    · simp [Mantissa.extend, hne]
    · simp [Mantissa.extend, Nat.ofDigitChars_append]
    · simp [Mantissa.extend]

end Spelling

/-- An exponent below the cap is read exactly. -/
theorem cappedExponent_digits {ds : List Char} (hds : ∀ c ∈ ds, c.isDigit = true) {n : Nat}
    (h : Nat.ofDigitChars 10 ds n < 10000) :
    cappedExponent n ds = (Nat.ofDigitChars 10 ds n, []) := by
  induction ds generalizing n with
  | nil => rfl
  | cons c ds ih =>
      obtain ⟨hc, hds⟩ := List.forall_mem_cons.1 hds
      have hn : n < 10000 := by
        rw [Nat.ofDigitChars_eq_ofDigitChars_zero] at h
        have := Nat.le_mul_of_pos_left n (Nat.pow_pos (n := (c :: ds).length) (show 0 < 10 by decide))
        omega
      rw [Nat.ofDigitChars_cons, Nat.mul_comm] at h ⊢
      have hunderscore : c ≠ '_' := ne_of_isDigit hc rfl
      rw [cappedExponent]
      simp only [beq_iff_eq, hunderscore, if_false, hc, if_true, hn]
      exact ih hds h

/-- A power of ten is read as it is written, unless it is beyond all doubles. -/
theorem readExponent_exponentText (width : Nat) {e : Int} (he : e.natAbs < 10000) :
    readExponent 'e' ('e' :: exponentText width e) = some (some e, []) := by
  obtain ⟨ds, hds⟩ : ∃ ds, ds = zeros (width - (Nat.toDigits 10 e.natAbs).length) ++
      Nat.toDigits 10 e.natAbs := ⟨_, rfl⟩
  have hvalue : Nat.ofDigitChars 10 ds 0 = e.natAbs := by
    rw [hds, zeros, Nat.ofDigitChars_append, Nat.ofDigitChars_replicate_zero, Nat.mul_zero,
      Nat.ofDigitChars_ten_toDigits]
  have hsign : takeSign (exponentText width e) = (decide (e < 0), ds) := by
    rw [exponentText, hds]
    by_cases hneg : e < 0
    · simp [hneg, takeSign]
    · simp [hneg, takeSign]
  obtain ⟨sign, ds', htext, hminus, hne, hdigits⟩ := isDigit_exponentText width e
  obtain rfl : ds' = ds := by
    rw [htext] at hsign
    rcases hminus with rfl | rfl
    · exact (Prod.mk.inj hsign).2
    · exact (Prod.mk.inj hsign).2
  obtain ⟨c, cs, rfl⟩ := List.exists_cons_of_ne_nil hne
  have hcapped := cappedExponent_digits hdigits (n := 0) (by omega)
  have hcast : (if decide (e < 0) = true then -(e.natAbs : Int) else e.natAbs) = e := by
    split_ifs with h
    · have := of_decide_eq_true h
      omega
    · have := of_decide_eq_false (Bool.eq_false_of_not_eq_true h)
      omega
  simp only [readExponent, hsign, hdigits c (by simp), if_true, hcapped, hvalue, hcast]
  rfl

/-- Whether a character has no part in words, hexadecimal numbers and groups of digits. -/
def IsDecimalChar (c : Char) : Prop := c.toLower ≠ 'n' ∧ c.toLower ≠ 'x' ∧ c ≠ '_'

theorem isDecimalChar_of_isDigit {c : Char} (hc : c.isDigit = true) : IsDecimalChar c := by
  obtain ⟨d, hd, rfl⟩ := exists_digitChar hc
  rw [IsDecimalChar]
  interval_cases d <;> decide

/-- Spellings are made of decimal characters. -/
theorem Spelling.isDecimalChar (s : Spelling) (width : Nat) :
    ∀ c ∈ s.chars width, IsDecimalChar c := by
  intro c hc
  rw [chars, List.mem_append, List.mem_append] at hc
  rcases hc with hc | hc | hc
  · exact isDecimalChar_of_isDigit (s.isDigit_whole c hc)
  · rw [fractionChars] at hc
    split_ifs at hc
    · cases hc
    · rcases List.mem_cons.1 hc with rfl | hc
      · exact ⟨by decide, by decide, by decide⟩
      · exact isDecimalChar_of_isDigit (s.isDigit_places c hc)
  · rw [scaleChars] at hc
    cases hscale : s.scale with
    | none => simp [hscale] at hc
    | some e =>
        obtain ⟨sign, ds, htext, hsign, -, hds⟩ := isDigit_exponentText width e
        simp only [hscale, htext, List.mem_cons] at hc
        rcases hc with rfl | rfl | hc
        · exact ⟨by decide, by decide, by decide⟩
        · rcases hsign with rfl | rfl
          · exact ⟨by decide, by decide, by decide⟩
          · exact ⟨by decide, by decide, by decide⟩
        · exact isDecimalChar_of_isDigit (hds c hc)

/-- Every word has an `n`. -/
theorem readWord?_eq_none {cs body : List Char} {negative : Bool}
    (hsign : takeSign cs = (negative, body)) (hcs : ∀ c ∈ cs, IsDecimalChar c)
    (hbody : ∀ c ∈ body, IsDecimalChar c) : readWord? cs = none := by
  have hword (word : String) (hn : 'n' ∈ word.toList) {l : List Char}
      (hl : ∀ c ∈ l, IsDecimalChar c) : (String.ofList (l.map Char.toLower) == word) = false := by
    rw [beq_eq_false_iff_ne]
    rintro rfl
    rw [String.toList_ofList, List.mem_map] at hn
    obtain ⟨c, hc, hn⟩ := hn
    exact (hl c hc).1 hn
  simp [readWord?, hsign, hword "inf" (by decide) hbody, hword "infinity" (by decide) hbody,
    hword "nan" (by decide) hcs]

/-- A spelling begins with a digit. -/
theorem Spelling.exists_chars_eq (s : Spelling) (width : Nat) :
    ∃ c cs, s.chars width = c :: cs ∧ c.isDigit = true := by
  obtain ⟨c, cs, hwhole⟩ : ∃ c cs, s.whole = c :: cs := by
    rcases s.lead with h | ⟨c, cs, h, -⟩
    · exact ⟨_, _, h⟩
    · exact ⟨_, _, h⟩
  exact ⟨c, _, by rw [chars, hwhole, List.cons_append], s.isDigit_whole c (by simp [hwhole])⟩

/-- The sign of a spelling comes off as it was put on. -/
theorem Spelling.takeSign_signed (s : Spelling) (width : Nat) (negative : Bool) :
    takeSign (signed negative (s.chars width)).toList = (negative, s.chars width) := by
  rw [signed, String.toList_ofList]
  cases negative with
  | true => rfl
  | false =>
      obtain ⟨c, cs, hchars, hc⟩ := s.exists_chars_eq width
      rw [if_neg Bool.false_ne_true, hchars]
      unfold takeSign
      split
      · rename_i h
        cases h
        cases hc
      · rename_i h
        cases h
        cases hc
      · rfl

/-- The exponent of a spelling is read back. -/
theorem Spelling.readExponent_scaleChars (s : Spelling) (width : Nat)
    (hscale : ∀ e ∈ s.scale, e.natAbs < 10000) :
    readExponent 'e' (s.scaleChars width) = some (s.scale, []) := by
  rw [scaleChars]
  cases h : s.scale with
  | none => rfl
  | some e => exact readExponent_exponentText width (hscale e (by simp [h]))

/-- A spelling without a sign is the double nearest to its value. -/
theorem Spelling.decimal_chars (s : Spelling) (width : Nat)
    (hscale : ∀ e ∈ s.scale, e.natAbs < 10000) :
    decimal (s.chars width) = scaleTen s.numerator s.exponent := by
  obtain ⟨m, hmantissa, -, hvalue, hplaces⟩ := s.readMantissa_chars width
  simp only [decimal, hmantissa, s.readExponent_scaleChars width hscale, Option.bind_some, hvalue,
    hplaces]
  rfl

/-- A spelling is read as the double nearest to its value. -/
theorem readFloat_signed (s : Spelling) (width : Nat) (negative : Bool)
    (hscale : ∀ e ∈ s.scale, e.natAbs < 10000) :
    readFloat (signed negative (s.chars width)) =
      (finite (scaleTen s.numerator s.exponent)).map fun x ↦ if negative then -x else x := by
  have hsign := s.takeSign_signed width negative
  have hbody := s.isDecimalChar width
  obtain ⟨m, hmantissa, hseen, hvalue, hplaces⟩ := s.readMantissa_chars width
  have hexponent := s.readExponent_scaleChars width hscale
  generalize hcs : (signed negative (s.chars width)).toList = cs at hsign
  have hmem : ∀ c ∈ cs, IsDecimalChar c := by
    intro c hc
    rw [← hcs, signed, String.toList_ofList] at hc
    split_ifs at hc
    · rcases List.mem_cons.1 hc with rfl | hc
      · exact ⟨by decide, by decide, by decide⟩
      · exact hbody c hc
    · exact hbody c hc
  have hword := readWord?_eq_none hsign hmem hbody
  have hhex : isHex (s.chars width) = false := by
    unfold isHex
    split
    · rename_i c _ _ h
      rw [beq_eq_false_iff_ne]
      exact (hbody c (by simp [h])).2.1
    · rfl
  have hunderscore : cs.contains '_' = false := by
    rw [Bool.eq_false_iff, ne_eq, List.contains_iff_mem]
    exact fun h ↦ (hmem '_' h).2.2 rfl
  simp only [readFloat, hcs, hword, hsign, hunderscore, hhex, Bool.false_and, Bool.false_eq_true,
    if_false, hmantissa, hseen, hexponent, hvalue, hplaces]
  rw [Spelling.exponent]
  cases finite (scaleTen s.numerator (s.scale.getD 0 - s.places.length)) with
  | error e => rfl
  | ok x => rfl

/-! ## Writing -/

namespace Decimal

variable {d : Decimal}

theorem exists_chars_eq (hd : 0 < d.digits) :
    ∃ c cs, d.chars = c :: cs ∧ c ≠ '0' ∧ ∀ c' ∈ c :: cs, c'.isDigit = true := by
  obtain ⟨c, cs, h⟩ := List.exists_cons_of_ne_nil (Nat.toDigits_ne_nil (n := d.digits) (b := 10))
  refine ⟨c, cs, h, ?_, ?_⟩
  · rintro rfl
    exact head_toDigits_ne_zero hd cs h
  · rw [← h]
    exact isDigit_toDigits d.digits

theorem ofDigitChars_chars (d : Decimal) : Nat.ofDigitChars 10 d.chars 0 = d.digits :=
  Nat.ofDigitChars_ten_toDigits

theorem isDigit_zeros (n : Nat) : ∀ c ∈ zeros n, c.isDigit = true := by
  intro c hc
  rw [List.eq_of_mem_replicate hc]
  rfl

/-- The scientific layout spells the value of the decimal. -/
theorem exists_spelling_scientific (width : Nat) (hd : 0 < d.digits) :
    ∃ s : Spelling, s.chars width = d.scientific width ∧ s.value = d.value ∧
      ∀ e ∈ s.scale, e = d.leading := by
  obtain ⟨c, cs, hchars, hc, hdigits⟩ := exists_chars_eq hd
  obtain ⟨hdigit, hcs⟩ := List.forall_mem_cons.1 hdigits
  refine ⟨⟨[c], cs, some d.leading, by simpa using hdigit, hcs, .inr ⟨c, [], rfl, hc⟩⟩, ?_, ?_, ?_⟩
  · simp only [Spelling.chars, Spelling.fractionChars, Spelling.scaleChars, scientific, hchars]
    cases cs with
    | nil => rfl
    | cons c' cs => rfl
  · have hnumerator := ofDigitChars_chars d
    rw [hchars] at hnumerator
    simp only [Spelling.value, Spelling.numerator, Spelling.exponent, List.singleton_append,
      hnumerator, value, leading, hchars, Option.getD_some, List.length_cons]
    congr 2
    push_cast
    ring
  · rintro e ⟨⟩
    rfl

theorem exists_spelling_positional (width : Nat) (hd : 0 < d.digits) :
    ∃ s : Spelling, s.chars width = d.positional ∧ s.value = d.value ∧ s.scale = none := by
  obtain ⟨c, cs, hchars, hc, hdigits⟩ := exists_chars_eq hd
  have hnumerator := ofDigitChars_chars d
  rw [← hchars] at hdigits
  rw [positional]
  split_ifs with hexponent
  · obtain ⟨k, hk⟩ := Int.eq_ofNat_of_zero_le hexponent
    refine ⟨⟨d.chars ++ zeros k, [], none, ?_, by simp, .inr ⟨c, cs ++ zeros k, ?_, hc⟩⟩, ?_, ?_, rfl⟩
    · exact List.forall_mem_append.2 ⟨hdigits, isDigit_zeros k⟩
    · rw [hchars]
      rfl
    · simp [Spelling.chars, Spelling.fractionChars, Spelling.scaleChars, hk]
    · simp only [Spelling.value, Spelling.numerator, Spelling.exponent, value, hk, List.append_nil,
        zeros, Nat.ofDigitChars_append, hnumerator, Nat.ofDigitChars_replicate_zero]
      simp [mul_comm]
  · obtain ⟨k, hk⟩ := Int.eq_ofNat_of_zero_le (show 0 ≤ -d.exponent by omega)
    have hexponent' : d.exponent = -k := by omega
    rw [hk, Int.toNat_natCast]
    dsimp only
    split_ifs with hlength
    · have hne : zeros (k - d.chars.length) ++ d.chars ≠ [] := by simp [hchars]
      refine ⟨⟨['0'], zeros (k - d.chars.length) ++ d.chars, none, by simp, ?_, .inl rfl⟩, ?_, ?_, rfl⟩
      · exact List.forall_mem_append.2 ⟨isDigit_zeros _, hdigits⟩
      · simp only [Spelling.chars, Spelling.fractionChars, if_neg hne, Spelling.scaleChars,
          List.append_nil]
        rfl
      · have hall : Nat.ofDigitChars 10 (['0'] ++ (zeros (k - d.chars.length) ++ d.chars)) 0 =
            d.digits := by
          rw [Nat.ofDigitChars_append, Nat.ofDigitChars_append, zeros,
            Nat.ofDigitChars_replicate_zero]
          exact hnumerator
        have hplaces : (zeros (k - d.chars.length) ++ d.chars).length = k := by
          rw [List.length_append, zeros, List.length_replicate]
          omega
        simp only [Spelling.value, Spelling.numerator, Spelling.exponent, value, hall, hplaces,
          hexponent', Option.getD_none, zero_sub]
    · obtain ⟨n, hn⟩ : ∃ n, d.chars.length - k = n + 1 := ⟨d.chars.length - k - 1, by omega⟩
      have hplaces : (d.chars.drop (n + 1)).length = k := by
        rw [List.length_drop]
        omega
      have hne : d.chars.drop (n + 1) ≠ [] := by
        rw [← List.length_pos_iff_ne_nil, hplaces]
        omega
      rw [hn]
      refine ⟨⟨d.chars.take (n + 1), d.chars.drop (n + 1), none, ?_, ?_, .inr ⟨c, cs.take n, ?_, hc⟩⟩,
        ?_, ?_, rfl⟩
      · exact fun c' hc' ↦ hdigits c' (List.mem_of_mem_take hc')
      · exact fun c' hc' ↦ hdigits c' (List.mem_of_mem_drop hc')
      · rw [hchars, List.take_succ_cons]
      · simp only [Spelling.chars, Spelling.fractionChars, if_neg hne, Spelling.scaleChars,
          List.append_nil]
      · simp only [Spelling.value, Spelling.numerator, Spelling.exponent, value,
          List.take_append_drop, hnumerator, hplaces, hexponent', Option.getD_none, zero_sub]

/-- Every layout of a number that is not zero spells its value. -/
theorem exists_spelling (l : Layout) (hd : 0 < d.digits) :
    ∃ s : Spelling, s.chars l.exponentWidth = d.text l ∧ s.value = d.value ∧
      ∀ e ∈ s.scale, e = d.leading := by
  rw [text, if_neg (by simpa using hd.ne')]
  split_ifs
  · exact exists_spelling_scientific l.exponentWidth hd
  · obtain ⟨s, hs, hvalue, hscale⟩ := exists_spelling_positional l.exponentWidth hd
    exact ⟨s, hs, hvalue, by simp [hscale]⟩

end Decimal

/-- The number of digits tells a number up to a factor of ten. -/
theorem length_toDigits_bounds {m : Nat} (hm : 0 < m) (e : Int) :
    (10 : ℚ) ^ (e + (Nat.toDigits 10 m).length - 1) ≤ m * 10 ^ e ∧
      (m : ℚ) * 10 ^ e < 10 ^ (e + (Nat.toDigits 10 m).length) := by
  obtain ⟨k, hk⟩ : ∃ k, (Nat.toDigits 10 m).length = k + 1 :=
    Nat.exists_eq_succ_of_ne_zero (by simp [Nat.toDigits_ne_nil])
  have hpow : (0 : ℚ) < 10 ^ e := by positivity
  have hlow : 10 ^ k ≤ m := by
    rcases Nat.eq_zero_or_pos k with rfl | hpos
    · exact hm
    · rw [← Nat.not_lt, ← Nat.length_toDigits_le_iff (by decide) hpos]
      omega
  have hhigh : m < 10 ^ (k + 1) := by
    rw [← Nat.length_toDigits_le_iff (by decide) (Nat.succ_pos k)]
    omega
  have hlow : (10 : ℚ) ^ k ≤ m := by exact_mod_cast hlow
  have hhigh : (m : ℚ) < 10 ^ (k + 1) := by exact_mod_cast hhigh
  rw [hk]
  constructor
  · rw [show e + ((k + 1 : Nat) : Int) - 1 = k + e by push_cast; ring, zpow_add₀ (by norm_num),
      zpow_natCast]
    gcongr
  · rw [Int.add_comm e, zpow_add₀ (by norm_num), zpow_natCast]
    gcongr

namespace Binary

variable {b : Binary}

/-- What rounds to a finite double lies within the powers of ten that are looked at. -/
theorem Rounds.range (hb : b.Canonical) (hbound : b.exponent ≤ 971) {v : ℚ} (h : b.Rounds v) :
    (10 : ℚ) ^ (-325 : Int) ≤ v ∧ v < 10 ^ (310 : Int) := by
  have hpow : (0 : ℚ) < 2 ^ b.exponent := by positivity
  have hm : (1 : ℚ) ≤ b.mantissa := by exact_mod_cast hb.pos
  have hm' : (b.mantissa : ℚ) + 1 ≤ 2 * leadingBit := by exact_mod_cast hb.below
  constructor
  · calc (10 : ℚ) ^ (-325 : Int) ≤ 2 ^ (-1075 : Int) :=
          ten_zpow_le_two_zpow (by decide) (by decide) (by decide)
      _ ≤ 2 ^ (b.exponent - 1) := zpow_le_zpow_right₀ one_le_two (by linarith [hb.least])
      _ = 1 / 2 * 2 ^ b.exponent := by
          rw [zpow_sub_one₀ two_ne_zero]
          ring
      _ ≤ (b.mantissa - b.gap) * 2 ^ b.exponent := by
          gcongr
          linarith [b.gap_le]
      _ ≤ v := h.low
  · calc v ≤ (b.mantissa + 1 / 2) * 2 ^ b.exponent := h.high
      _ < 2 * leadingBit * 2 ^ b.exponent := by
          gcongr
          linarith
      _ = 2 ^ (b.exponent + 53) := by
          rw [cast_leadingBit, zpow_add₀ two_ne_zero]
          norm_num
          ring
      _ ≤ 2 ^ (1024 : Int) := zpow_le_zpow_right₀ one_le_two (by linarith)
      _ ≤ 10 ^ (310 : Int) := by
          rw [← inv_le_inv₀ (by positivity) (by positivity), ← zpow_neg, ← zpow_neg]
          exact ten_zpow_le_two_zpow (by decide) (by decide) (by decide)

/-- What rounds to a canonical double is positive. -/
theorem Rounds.pos (hb : b.Canonical) (hbound : b.exponent ≤ 971) {v : ℚ} (h : b.Rounds v) :
    0 < v :=
  lt_of_lt_of_le (by positivity) (h.range hb hbound).1

end Binary

/-- Scaling by a power of ten gives the double that the product rounds to. -/
theorem scaleTen_of_rounds {b : Binary} (hb : b.Canonical) (hbound : b.exponent ≤ 971) {m : Nat}
    {e : Int} (h : b.Rounds (m * 10 ^ e)) :
    scaleTen m e = assemble b.mantissa b.exponent := by
  obtain ⟨hleast, hmost⟩ := h.range hb hbound
  have hm : 0 < m := by
    rcases Nat.eq_zero_or_pos m with rfl | hm
    · have := h.pos hb hbound
      simp at this
    · exact hm
  obtain ⟨hlow, hhigh⟩ := length_toDigits_bounds hm e
  have hten : (1 : ℚ) < 10 := by norm_num
  have hlow := (zpow_lt_zpow_iff_right₀ hten).1 (hlow.trans_lt hmost)
  have hhigh := (zpow_lt_zpow_iff_right₀ hten).1 (hleast.trans_lt hhigh)
  rw [scaleTen, if_neg (by simpa using hm.ne'), if_neg (by omega), if_neg (by omega)]
  split_ifs with he
  · obtain ⟨k, rfl⟩ := Int.eq_ofNat_of_zero_le he
    refine nearestQuotient_of_rounds hb (Nat.mul_pos hm (Nat.pow_pos (by decide))) Nat.one_pos ?_
    simpa using h
  · obtain ⟨k, hk⟩ := Int.eq_ofNat_of_zero_le (show 0 ≤ -e by omega)
    obtain rfl : e = -k := by omega
    refine nearestQuotient_of_rounds hb hm (Nat.pow_pos (by decide)) ?_
    simpa [div_eq_mul_inv] using h

/-! ## Whole numbers -/

/-- A number of more than 310 digits is beyond all doubles. -/
theorem nearestQuotient_of_large {n : Nat} (h : 10 ^ 310 ≤ n) :
    nearestQuotient n 1 = 1.0 / 0.0 := by
  have hlog : 1029 ≤ n.log2 := by
    rw [Nat.le_log2 (by omega)]
    exact le_trans (by decide +kernel) h
  have hexponent : 973 ≤ unitExponent n 1 := by
    have hone : Nat.log2 1 = 0 := by decide
    simp only [unitExponent, hone]
    split_ifs <;> omega
  have hfield : 2047 ≤ (unitExponent n 1 + 1074).toNat := by omega
  rw [nearestQuotient_eq (by omega) Nat.one_pos, assemble,
    if_pos (le_add_right (Nat.mul_le_mul_right leadingBit hfield))]
  decide +kernel

theorem scaleTen_zero (n : Nat) : scaleTen n 0 = nearestQuotient n 1 := by
  rcases Nat.eq_zero_or_pos n with rfl | hn
  · rfl
  rw [scaleTen, if_neg (by simpa using hn.ne')]
  split_ifs with hlarge hsmall hnonneg
  · rw [nearestQuotient_of_large]
    rw [← Nat.not_lt, ← Nat.length_toDigits_le_iff (by decide) (by decide)]
    omega
  · omega
  · simp
  · exact absurd le_rfl hnonneg

/-- The digits of a natural number are read as the double nearest to it. -/
theorem decimal_toDigits (n : Nat) : decimal (Nat.toDigits 10 n) = nearestQuotient n 1 := by
  rw [← Spelling.chars_ofNat n 0, Spelling.decimal_chars _ _ (by simp [Spelling.ofNat]),
    Spelling.numerator_ofNat]
  exact scaleTen_zero n

theorem nearest_intCast (z : Int) :
    nearest z = if z < 0 then -nearestQuotient z.natAbs 1 else nearestQuotient z.natAbs 1 := by
  rw [nearest, Rat.num_intCast, Rat.den_intCast]

theorem nearest_natCast (n : Nat) : nearest n = nearestQuotient n 1 := by
  rw [nearest, Rat.num_natCast, Rat.den_natCast, if_neg (by omega), Int.natAbs_natCast]

/-! ## Doubles -/

/-- The digits of a finite double that is not zero, in any layout, spell what rounds to it. -/
theorem exists_spelling_shortest (l : Layout) {b : Binary} (hb : b.Canonical)
    (hbound : b.exponent ≤ 971) :
    ∃ s : Spelling, b.shortest.text l = s.chars l.exponentWidth ∧ b.Rounds s.value ∧
      ∀ e ∈ s.scale, e.natAbs < 10000 := by
  have hrounds := Binary.rounds_shortest hb hbound
  have hdigits : 0 < b.shortest.digits := by
    have := hrounds.pos hb hbound
    rcases Nat.eq_zero_or_pos b.shortest.digits with hzero | hdigits
    · simp [Decimal.value, hzero] at this
    · exact hdigits
  obtain ⟨s, hs, hvalue, hscale⟩ := Decimal.exists_spelling l hdigits
  refine ⟨s, hs.symm, hvalue ▸ hrounds, ?_⟩
  intro e he
  rw [hscale e he]
  obtain ⟨hleast, hmost⟩ := hrounds.range hb hbound
  obtain ⟨hlow, hhigh⟩ := length_toDigits_bounds hdigits b.shortest.exponent
  have hten : (1 : ℚ) < 10 := by norm_num
  have hlow := (zpow_lt_zpow_iff_right₀ hten).1 (hlow.trans_lt hmost)
  have hhigh := (zpow_lt_zpow_iff_right₀ hten).1 (hleast.trans_lt hhigh)
  rw [Decimal.leading, Decimal.chars]
  omega

/-- The text of a finite double in any layout is a sign before a spelling of its magnitude. -/
theorem exists_spelling_text (l : Layout) {x : Float} (hnan : x.isNaN = false)
    (hinf : x.isInf = false) :
    ∃ (negative : Bool) (s : Spelling),
      withDigits (fun b ↦ b.shortest.text l) x = signed negative (s.chars l.exponentWidth) ∧
      (∀ e ∈ s.scale, e.natAbs < 10000) ∧ (scaleTen s.numerator s.exponent).isInf = false ∧
      x = if negative then -scaleTen s.numerator s.exponent
        else scaleTen s.numerator s.exponent := by
  obtain ⟨b, hb⟩ := exists_ofFloat? hnan hinf
  simp only [withDigits, hb]
  rcases Nat.eq_zero_or_pos b.mantissa with hzero | hpos
  · have htext : b.shortest.text l = ['0'] := by simp [Binary.shortest, hzero, Decimal.text]
    refine ⟨b.negative, .ofNat 0, by rw [htext]; rfl, by simp [Spelling.ofNat], ?_, ?_⟩
    · decide +kernel
    · rw [eq_zero hb hzero]
      rfl
  · obtain ⟨-, hfinite⟩ := unpack_of_ofFloat? hb
    have hcanonical := hfinite.canonical hpos
    obtain ⟨s, htext, hrounds, hscale⟩ := exists_spelling_shortest l hcanonical hfinite.bound
    have hscaled := scaleTen_of_rounds hcanonical hfinite.bound hrounds
    refine ⟨b.negative, s, by rw [htext], hscale, ?_, ?_⟩
    · rw [hscaled]
      exact isInf_eq_false (ofFloat?_assemble hcanonical hfinite.bound)
    · rw [hscaled]
      exact eq_assemble hb hpos

/-- The text of a finite double in a document is read as the double. -/
theorem readFloat_document {x : Float} (hnan : x.isNaN = false) (hinf : x.isInf = false) :
    readFloat (document x) = .ok x := by
  obtain ⟨negative, s, htext, hscale, hfinite, hx⟩ := exists_spelling_text .document hnan hinf
  rw [document, htext, readFloat_signed s _ negative hscale, finite, hfinite, hx]
  rfl

/-- The text of a finite double in a document is a number of the document's grammar. -/
theorem isNumberText_document {x : Float} (hnan : x.isNaN = false) (hinf : x.isInf = false) :
    isNumberText (document x).toList = true := by
  obtain ⟨negative, s, htext, -, -, -⟩ := exists_spelling_text .document hnan hinf
  rw [document, htext]
  exact s.isNumberText_signed _ negative

end ExprCompiler.Numeral
