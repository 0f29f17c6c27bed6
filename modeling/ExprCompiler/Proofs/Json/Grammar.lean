import ExprCompiler.Json.Reader
import Mathlib.Data.List.Basic

/-!
# The grammar of documents

`Spells` says which texts are those of a document, production by production and without regard to
how they are read. Main statement: the characters that the reader takes for a number are a numeral
of the grammar, and the other way round (`isNumberText_iff`).
-/

namespace ExprCompiler.Json

/-! ## Blanks -/

def Blank (cs : List Char) : Prop := ∀ c ∈ cs, isBlank c = true

theorem blank_nil : Blank [] := List.forall_mem_nil _

theorem blank_singleton {c : Char} (h : isBlank c = true) : Blank [c] :=
  List.forall_mem_singleton.2 h

theorem blank_append {cs ds : List Char} (hcs : Blank cs) (hds : Blank ds) : Blank (cs ++ ds) :=
  List.forall_mem_append.2 ⟨hcs, hds⟩

/-! ## Numbers -/

/-- Digits, and at least one. -/
def IsDigits (cs : List Char) : Prop := cs ≠ [] ∧ ∀ c ∈ cs, c.isDigit = true

/-- A zero alone, or digits of which the first is none. -/
inductive IsWhole : List Char → Prop
  | zero : IsWhole ['0']
  | digits {c : Char} {cs : List Char} (hne : c ≠ '0') (h : ∀ d ∈ c :: cs, d.isDigit = true) :
      IsWhole (c :: cs)

/-- What stands behind the point, if there is one. -/
inductive IsPlaces : List Char → Prop
  | none : IsPlaces []
  | some {ds : List Char} (h : IsDigits ds) : IsPlaces ('.' :: ds)

/-- Digits with a sign or without. -/
inductive IsSigned : List Char → Prop
  | bare {ds : List Char} (h : IsDigits ds) : IsSigned ds
  | plus {ds : List Char} (h : IsDigits ds) : IsSigned ('+' :: ds)
  | minus {ds : List Char} (h : IsDigits ds) : IsSigned ('-' :: ds)

/-- The power of ten by which a number is scaled, if there is one. -/
inductive IsScale : List Char → Prop
  | none : IsScale []
  | some {mark : Char} {cs : List Char} (hmark : mark = 'e' ∨ mark = 'E') (h : IsSigned cs) :
      IsScale (mark :: cs)

inductive IsNumeral : List Char → Prop
  | mk {sign whole places scale : List Char} (hsign : sign = [] ∨ sign = ['-'])
      (hwhole : IsWhole whole) (hplaces : IsPlaces places) (hscale : IsScale scale) :
      IsNumeral (sign ++ (whole ++ (places ++ scale)))

/-! ## Strings -/

/-- The characters that stand for another one behind a backslash, with its code. -/
def shortEscapes : List (Char × Nat) :=
  [('b', 0x08), ('f', 0x0c), ('n', 0x0a), ('r', 0x0d), ('t', 0x09), ('"', 0x22), ('\\', 0x5c),
    ('/', 0x2f)]

/-- The number that hexadecimal digits spell behind those of `n`. -/
def hexValue? (n : Nat) : List Char → Option Nat
  | [] => some n
  | c :: cs => (Numeral.digitBelow? 16 c).bind fun digit ↦ hexValue? (n * 16 + digit) cs

/-- The texts of a code unit: the character itself, unless it has to be escaped, a short escape or
four hexadecimal digits. -/
inductive SpellsUnit : Nat → List Char → Prop
  | plain {c : Char} (hquote : c ≠ '"') (hslash : c ≠ '\\') (h : 0x20 ≤ c.toNat) :
      SpellsUnit c.toNat [c]
  | short {c : Char} {unit : Nat} (h : (c, unit) ∈ shortEscapes) : SpellsUnit unit ['\\', c]
  | long {cs : List Char} {unit : Nat} (hlength : cs.length = 4) (h : hexValue? 0 cs = some unit) :
      SpellsUnit unit ('\\' :: 'u' :: cs)

inductive SpellsUnits : List Nat → List Char → Prop
  | nil : SpellsUnits [] []
  | cons {unit : Nat} {units : List Nat} {cs ds : List Char} (h : SpellsUnit unit cs)
      (hs : SpellsUnits units ds) : SpellsUnits (unit :: units) (cs ++ ds)

/-- The texts of a string without the quotation marks around it. -/
inductive SpellsString : String → List Char → Prop
  | mk {units : List Nat} {cs : List Char} (h : SpellsUnits units cs) :
      SpellsString (String.ofList (decodeUnits units)) cs

/-! ## Documents -/

/-- Texts of things with commas between them; if there are no things, blanks. -/
inductive Separated {α : Type} (P : α → List Char → Prop) : List α → List Char → Prop
  | none {cs : List Char} (h : Blank cs) : Separated P [] cs
  | one {a : α} {cs : List Char} (h : P a cs) : Separated P [a] cs
  | more {a b : α} {as : List α} {cs ds : List Char} (h : P a cs) (hs : Separated P (b :: as) ds) :
      Separated P (a :: b :: as) (cs ++ ',' :: ds)

mutual

/-- The texts of a document. -/
inductive Spells : Json → List Char → Prop
  | null : Spells .null ['n', 'u', 'l', 'l']
  | yes : Spells (.bool true) ['t', 'r', 'u', 'e']
  | no : Spells (.bool false) ['f', 'a', 'l', 's', 'e']
  | number {cs : List Char} (h : IsNumeral cs) : Spells (.number (String.ofList cs)) cs
  | string {s : String} {cs : List Char} (h : SpellsString s cs) :
      Spells (.string s) ('"' :: (cs ++ ['"']))
  | array {items : List Json} {cs : List Char} (h : Separated SpellsItem items cs) :
      Spells (.array items) ('[' :: (cs ++ [']']))
  | object {fields : List (String × Json)} {cs : List Char} (h : Separated SpellsField fields cs) :
      Spells (.object fields) ('\x7b' :: (cs ++ ['\x7d']))

/-- The texts of a document with blanks around it. -/
inductive SpellsItem : Json → List Char → Prop
  | mk {j : Json} {before cs after : List Char} (hbefore : Blank before) (h : Spells j cs)
      (hafter : Blank after) : SpellsItem j (before ++ (cs ++ after))

/-- The texts of a field. -/
inductive SpellsField : String × Json → List Char → Prop
  | mk {name : String} {j : Json} {before cs after ds : List Char} (hbefore : Blank before)
      (hname : SpellsString name cs) (hafter : Blank after) (h : SpellsItem j ds) :
      SpellsField (name, j) (before ++ '"' :: (cs ++ '"' :: (after ++ ':' :: ds)))

end

/-! ## Numbers, character by character -/

namespace NumberPart

/-- The part of a number that its first character opens. -/
def first? (c : Char) : Option NumberPart :=
  if c == '-' then some .minus
  else if c == '0' then some .zero
  else if c.isDigit then some .whole
  else none

/-- The part of a number that the characters lead to from another part. -/
def after? : NumberPart → List Char → Option NumberPart
  | p, [] => some p
  | p, c :: cs => (p.next? c).bind (after? · cs)

/-- Whether a number that came to a part may end with the characters. -/
def Accepts (p : NumberPart) (cs : List Char) : Prop := (p.after? cs).any final = true

theorem accepts_nil {p : NumberPart} : p.Accepts [] ↔ p.final = true := by
  simp [Accepts, after?]

/-- A part accepts a text if the next part accepts the rest. -/
theorem accepts_cons {p : NumberPart} {c : Char} {cs : List Char} :
    p.Accepts (c :: cs) ↔ ∃ q, p.next? c = some q ∧ q.Accepts cs := by
  simp only [Accepts, after?]
  cases p.next? c <;> simp

/-- The exponent marks are those of either case. -/
theorem toLower_eq_e {c : Char} : c.toLower = 'e' ↔ c = 'e' ∨ c = 'E' := by
  constructor
  · intro h
    unfold Char.toLower at h
    split at h
    · refine .inr (Char.ext (UInt32.toNat_inj.1 ?_))
      have hval : c.val + 32 = 101 := congrArg Char.val h
      have hnat : (c.val.toNat + 32) % 4294967296 = 101 := by
        simpa [UInt32.toNat_add] using congrArg UInt32.toNat hval
      have hlt : c.val.toNat < 4294967296 := c.val.toNat_lt
      change c.val.toNat = 69
      omega
    · exact .inl h
  · rintro (rfl | rfl) <;> decide

theorem isDigit_of_toLower {c : Char} (h : c.toLower = 'e') : c.isDigit = false := by
  rcases toLower_eq_e.1 h with rfl | rfl <;> decide

/-- After the first digit of an exponent there are only digits. -/
theorem accepts_scale {cs : List Char} : Accepts .scale cs ↔ ∀ c ∈ cs, c.isDigit = true := by
  induction cs with
  | nil => simp [accepts_nil, final]
  | cons c cs ih =>
      rw [accepts_cons, List.forall_mem_cons, ← ih]
      cases hc : c.isDigit <;> simp [next?, hc]

/-- After the sign of an exponent there are digits. -/
theorem accepts_markSign {cs : List Char} : Accepts .markSign cs ↔ IsDigits cs := by
  cases cs with
  | nil => simp [accepts_nil, final, IsDigits]
  | cons c cs =>
      rw [accepts_cons, IsDigits, List.forall_mem_cons, ← accepts_scale]
      cases hc : c.isDigit <;> simp [next?, hc]

/-- After the mark of an exponent there is a signed run of digits. -/
theorem accepts_mark {cs : List Char} : Accepts .mark cs ↔ IsSigned cs := by
  cases cs with
  | nil =>
      simp only [accepts_nil, final, Bool.false_eq_true, false_iff]
      rintro (⟨hne, -⟩ | _ | _)
      exact hne rfl
  | cons c cs =>
      rw [accepts_cons]
      by_cases hplus : c = '+'
      · subst hplus
        simp only [next?, accepts_markSign, beq_self_eq_true, Bool.true_or, if_true,
          Option.some.injEq, exists_eq_left']
        refine ⟨.plus, ?_⟩
        rintro (⟨-, h⟩ | h | h)
        · exact absurd (h '+' List.mem_cons_self) (by decide)
        · exact h
      · by_cases hminus : c = '-'
        · subst hminus
          simp only [next?, accepts_markSign, beq_self_eq_true, Bool.or_true, if_true,
            Option.some.injEq, exists_eq_left']
          refine ⟨.minus, ?_⟩
          rintro (⟨-, h⟩ | h | h)
          · exact absurd (h '-' List.mem_cons_self) (by decide)
          · exact h
        · have hsigned : IsSigned (c :: cs) ↔ IsDigits (c :: cs) := by
            refine ⟨?_, .bare⟩
            rintro (h | h | h)
            · exact h
            · exact absurd rfl hplus
            · exact absurd rfl hminus
          rw [hsigned, IsDigits, List.forall_mem_cons, ← accepts_scale]
          cases hc : c.isDigit <;> simp [next?, hc, hplus, hminus]

theorem isScale_cons {c : Char} {cs : List Char} :
    IsScale (c :: cs) ↔ c.toLower = 'e' ∧ IsSigned cs := by
  rw [toLower_eq_e]
  constructor
  · rintro (_ | ⟨hmark, h⟩)
    exact ⟨hmark, h⟩
  · rintro ⟨hmark, h⟩
    exact .some hmark h

/-- A part that goes on with digits accepts any number of them, and then what it accepts without
one. -/
theorem accepts_digits {p : NumberPart} {P : List Char → Prop} (hfinal : p.final = true)
    (hdigit : ∀ c, c.isDigit = true → p.next? c = some p) (hnil : P [])
    (hcons : ∀ c cs, P (c :: cs) ↔
      c.isDigit = false ∧ ∃ q, p.next? c = some q ∧ q.Accepts cs) {cs : List Char} :
    p.Accepts cs ↔ ∃ ds rest, cs = ds ++ rest ∧ (∀ d ∈ ds, d.isDigit = true) ∧ P rest := by
  induction cs with
  | nil => exact iff_of_true (accepts_nil.2 hfinal) ⟨[], [], rfl, by simp, hnil⟩
  | cons c cs ih =>
      rw [accepts_cons]
      constructor
      · rintro ⟨q, hq, h⟩
        cases hc : c.isDigit with
        | false => exact ⟨[], c :: cs, rfl, by simp, (hcons c cs).2 ⟨hc, q, hq, h⟩⟩
        | true =>
            obtain rfl := Option.some.inj ((hdigit c hc).symm.trans hq)
            obtain ⟨ds, rest, rfl, hds, hrest⟩ := ih.1 h
            exact ⟨c :: ds, rest, rfl, List.forall_mem_cons.2 ⟨hc, hds⟩, hrest⟩
      · rintro ⟨ds, rest, hcs, hds, hrest⟩
        rcases List.cons_eq_append_iff.1 hcs with ⟨rfl, rfl⟩ | ⟨ds', rfl, rfl⟩
        · exact ((hcons c cs).1 hrest).2
        · obtain ⟨hc, hds'⟩ := List.forall_mem_cons.1 hds
          exact ⟨p, hdigit c hc, ih.2 ⟨ds', rest, rfl, hds', hrest⟩⟩

/-- After the first decimal there are decimals and perhaps an exponent. -/
theorem accepts_places {cs : List Char} : Accepts .places cs ↔
    ∃ ds scale, cs = ds ++ scale ∧ (∀ d ∈ ds, d.isDigit = true) ∧ IsScale scale := by
  refine accepts_digits rfl (fun c hc ↦ by simp [next?, hc]) .none fun c cs ↦ ?_
  rw [isScale_cons, ← accepts_mark]
  by_cases hmark : c.toLower = 'e'
  · simp [next?, isDigit_of_toLower hmark, hmark]
  · cases hc : c.isDigit <;> simp [next?, hc, hmark]

/-- After the point there is at least one decimal. -/
theorem accepts_point {cs : List Char} : Accepts .point cs ↔
    ∃ ds scale, cs = ds ++ scale ∧ IsDigits ds ∧ IsScale scale := by
  constructor
  · intro h
    cases cs with
    | nil => simp [accepts_nil, final] at h
    | cons c cs =>
        obtain ⟨q, hq, h⟩ := accepts_cons.1 h
        obtain ⟨hdigit, rfl⟩ : c.isDigit = true ∧ NumberPart.places = q := by
          simpa [next?] using hq
        obtain ⟨ds, scale, rfl, hds, hscale⟩ := accepts_places.1 h
        exact ⟨c :: ds, scale, rfl, ⟨by simp, List.forall_mem_cons.2 ⟨hdigit, hds⟩⟩, hscale⟩
  · rintro ⟨ds, scale, rfl, ⟨hne, hds⟩, hscale⟩
    cases ds with
    | nil => exact absurd rfl hne
    | cons d ds =>
        obtain ⟨hdigit, hds⟩ := List.forall_mem_cons.1 hds
        exact accepts_cons.2 ⟨.places, by simp [next?, hdigit],
          accepts_places.2 ⟨ds, scale, rfl, hds, hscale⟩⟩

/-- What may follow the whole part of a number. -/
def IsRemainder (cs : List Char) : Prop :=
  ∃ places scale, cs = places ++ scale ∧ IsPlaces places ∧ IsScale scale

theorem isRemainder_cons {c : Char} {cs : List Char} : IsRemainder (c :: cs) ↔
    c = '.' ∧ Accepts .point cs ∨ c.toLower = 'e' ∧ Accepts .mark cs := by
  rw [accepts_point, accepts_mark, ← isScale_cons]
  constructor
  · rintro ⟨places, scale, hcs, hplaces, hscale⟩
    rcases hplaces with _ | ⟨hds⟩
    · exact .inr (hcs ▸ hscale)
    · obtain ⟨rfl, rfl⟩ := List.cons.inj hcs
      exact .inl ⟨rfl, _, scale, rfl, hds, hscale⟩
  · rintro (⟨rfl, ds, scale, rfl, hds, hscale⟩ | hscale)
    · exact ⟨'.' :: ds, scale, rfl, .some hds, hscale⟩
    · exact ⟨[], c :: cs, rfl, .none, hscale⟩

/-- After a leading zero there are no digits before the point. -/
theorem accepts_zero {cs : List Char} : Accepts .zero cs ↔ IsRemainder cs := by
  cases cs with
  | nil => exact iff_of_true (by simp [accepts_nil, final]) ⟨[], [], rfl, .none, .none⟩
  | cons c cs =>
      rw [accepts_cons, isRemainder_cons]
      by_cases hpoint : c = '.'
      · subst hpoint
        simp [next?]
      · simp only [next?, beq_iff_eq, hpoint, if_false, false_and, false_or]
        by_cases hmark : c.toLower = 'e' <;> simp [hmark]

/-- After a leading digit other than zero there are digits and a remainder. -/
theorem accepts_whole {cs : List Char} : Accepts .whole cs ↔
    ∃ ds rest, cs = ds ++ rest ∧ (∀ d ∈ ds, d.isDigit = true) ∧ IsRemainder rest := by
  refine accepts_digits rfl (fun c hc ↦ by simp [next?, hc]) ⟨[], [], rfl, .none, .none⟩
    fun c cs ↦ ?_
  rw [isRemainder_cons]
  by_cases hpoint : c = '.'
  · subst hpoint
    simp [next?]
  · by_cases hmark : c.toLower = 'e'
    · simp [next?, isDigit_of_toLower hmark, hmark, hpoint]
    · cases hc : c.isDigit <;> simp [next?, hc, hmark, hpoint]

/-- After the minus sign there is a whole part and a remainder. -/
theorem accepts_minus {cs : List Char} : Accepts .minus cs ↔
    ∃ whole rest, cs = whole ++ rest ∧ IsWhole whole ∧ IsRemainder rest := by
  constructor
  · intro h
    cases cs with
    | nil => simp [accepts_nil, final] at h
    | cons c cs =>
        obtain ⟨q, hq, h⟩ := accepts_cons.1 h
        rw [next?] at hq
        split at hq
        · rename_i hzero
          cases hq
          obtain rfl : c = '0' := by simpa using hzero
          exact ⟨['0'], cs, rfl, .zero, accepts_zero.1 h⟩
        · rename_i hzero
          split at hq
          · rename_i hdigit
            cases hq
            obtain ⟨ds, rest, rfl, hds, hrest⟩ := accepts_whole.1 h
            exact ⟨c :: ds, rest, rfl,
              .digits (by simpa using hzero) (List.forall_mem_cons.2 ⟨hdigit, hds⟩), hrest⟩
          · cases hq
  · rintro ⟨whole, rest, rfl, hwhole, hrest⟩
    rcases hwhole with _ | ⟨hne, hds⟩
    · exact accepts_cons.2 ⟨.zero, rfl, accepts_zero.2 hrest⟩
    · obtain ⟨hdigit, hds⟩ := List.forall_mem_cons.1 hds
      exact accepts_cons.2 ⟨.whole, by simp [next?, hne, hdigit],
        accepts_whole.2 ⟨_, rest, rfl, hds, hrest⟩⟩

end NumberPart

/-- Whether characters are those of a number. -/
def isNumberText : List Char → Bool
  | [] => false
  | c :: cs => ((NumberPart.first? c).bind (NumberPart.after? · cs)).any NumberPart.final

/-- A number text begins with a part that accepts the rest. -/
theorem isNumberText_cons {c : Char} {cs : List Char} : isNumberText (c :: cs) = true ↔
    ∃ p, NumberPart.first? c = some p ∧ p.Accepts cs := by
  rw [isNumberText]
  cases NumberPart.first? c <;> simp [NumberPart.Accepts]

theorem isNumberText_minus {cs : List Char} :
    isNumberText ('-' :: cs) = true ↔ NumberPart.Accepts .minus cs := by
  simp [isNumberText_cons, NumberPart.first?]

/-- Without a sign a number goes on as if there had been one. -/
theorem isNumberText_of_ne {c : Char} {cs : List Char} (hc : c ≠ '-') :
    isNumberText (c :: cs) = true ↔ NumberPart.Accepts .minus (c :: cs) := by
  rw [isNumberText_cons, NumberPart.accepts_cons]
  simp [NumberPart.first?, NumberPart.next?, hc]

/-- The reader's way through a number follows the grammar. -/
theorem isNumberText_iff {cs : List Char} : isNumberText cs = true ↔ IsNumeral cs := by
  constructor
  · intro h
    cases cs with
    | nil => cases h
    | cons c cs =>
        by_cases hc : c = '-'
        · subst hc
          obtain ⟨whole, _, rfl, hwhole, places, scale, rfl, hplaces, hscale⟩ :=
            NumberPart.accepts_minus.1 (isNumberText_minus.1 h)
          exact .mk (.inr rfl) hwhole hplaces hscale
        · obtain ⟨whole, _, hcs, hwhole, places, scale, rfl, hplaces, hscale⟩ :=
            NumberPart.accepts_minus.1 ((isNumberText_of_ne hc).1 h)
          rw [hcs]
          exact .mk (.inl rfl) hwhole hplaces hscale
  · rintro ⟨hsign, hwhole, hplaces, hscale⟩
    have haccepts := NumberPart.accepts_minus.2 ⟨_, _, rfl, hwhole, _, _, rfl, hplaces, hscale⟩
    rcases hsign with rfl | rfl
    · rcases hwhole with _ | ⟨hne, hds⟩
      · exact (isNumberText_of_ne (by decide)).2 haccepts
      · refine (isNumberText_of_ne ?_).2 haccepts
        rintro rfl
        exact absurd (hds '-' List.mem_cons_self) (by decide)
    · exact isNumberText_minus.2 haccepts

end ExprCompiler.Json
