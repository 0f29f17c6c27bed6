import ExprCompiler.Numeral.Shortest

/-!
# Number text

How the digits of a double are laid out. A `Layout` says which powers of ten are written
positionally and how wide an exponent is at least.
-/

namespace ExprCompiler.Numeral

/-- Where positional notation begins and ends, by the power of ten of the first digit. -/
structure Layout where
  least : Int
  bound : Int
  exponentWidth : Nat
deriving DecidableEq, Repr

/-- Positional from `0.0001` up to, but not including, a million. -/
def Layout.general : Layout := ⟨-4, 6, 2⟩

/-- Positional from a millionth up to, but not including, `10^21`. -/
def Layout.document : Layout := ⟨-6, 21, 1⟩

def zeros (n : Nat) : List Char := List.replicate n '0'

/-- The exponent with its sign and at least `width` digits. -/
def exponentText (width : Nat) (e : Int) : List Char :=
  let ds := Nat.toDigits 10 e.natAbs
  (if e < 0 then '-' else '+') :: (zeros (width - ds.length) ++ ds)

/-- `d.ddde±xx`, without the point if there is only one digit. -/
def Decimal.scientific (width : Nat) (d : Decimal) : List Char :=
  match d.chars with
  | [] => []
  | [c] => c :: 'e' :: exponentText width d.leading
  | c :: cs => c :: '.' :: (cs ++ 'e' :: exponentText width d.leading)

/-- Digits around a decimal point, which is left out of a whole number. -/
def Decimal.positional (d : Decimal) : List Char :=
  let ds := d.chars
  if 0 ≤ d.exponent then ds ++ zeros d.exponent.toNat
  else
    let places := (-d.exponent).toNat
    if ds.length ≤ places then '0' :: '.' :: (zeros (places - ds.length) ++ ds)
    else ds.take (ds.length - places) ++ '.' :: ds.drop (ds.length - places)

def Decimal.text (l : Layout) (d : Decimal) : List Char :=
  if d.digits == 0 then ['0']
  else if d.leading < l.least || l.bound ≤ d.leading then d.scientific l.exponentWidth
  else d.positional

def signed (negative : Bool) (cs : List Char) : String :=
  String.ofList (if negative then '-' :: cs else cs)

/-- The texts of the doubles that are not numbers of any layout. -/
def nonFinite (x : Float) : String :=
  if x.isNaN then "NaN" else if x < 0 then "-Inf" else "+Inf"

def withDigits (f : Binary → List Char) (x : Float) : String :=
  match Binary.ofFloat? x with
  | none => nonFinite x
  | some b => signed b.negative (f b)

/-- The text of a double in messages and renderings. -/
def general (x : Float) : String := withDigits (fun b ↦ b.shortest.text .general) x

/-- The text of a finite double in a document. -/
def document (x : Float) : String := withDigits (fun b ↦ b.shortest.text .document) x

/-- The shortest digits without an exponent, whatever the magnitude. -/
def plain (x : Float) : String :=
  withDigits (fun b ↦ if b.mantissa == 0 then ['0'] else b.shortest.positional) x

/-- Exactly `n` significant digits and an exponent. -/
def significant (n : Nat) (x : Float) : String :=
  withDigits (fun b ↦
    if b.mantissa == 0 then
      '0' :: ((if n ≤ 1 then [] else '.' :: zeros (n - 1)) ++ ['e', '+', '0', '0'])
    else (b.rounded n).scientific 2) x

end ExprCompiler.Numeral
