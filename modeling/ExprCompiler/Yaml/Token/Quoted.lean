import ExprCompiler.Yaml.Token

/-!
# Quoted texts

A quoted text may run over lines. The blanks around the end of a line fall away, a single end
becomes a blank, and of several ends all but one stay. Between double quotes a backslash starts an
escape; one at the end of a line joins it to the next.
-/

namespace ExprCompiler.Yaml

/-- A quoted text while it is read. -/
structure Quoting where
  /-- The characters so far, the last one first. -/
  value : List Char := []
  /-- Whether a line has ended and only gaps have followed. -/
  leading : Bool := false
  line : Nat
  /-- The column of the character to come. -/
  column : Nat
  /-- Whether a line has ended at all. -/
  crossed : Bool := false

namespace Quoting

def push (q : Quoting) (c : Char) (width : Nat) : Quoting :=
  { q with value := c :: q.value, leading := false, column := q.column + width }

def nextLine (q : Quoting) : Quoting :=
  { q with leading := true, line := q.line + 1, column := 1, crossed := true }

def breakLine (q : Quoting) : Quoting :=
  let kept := q.value.dropWhile (· == ' ')
  { q.nextLine with value := (if q.leading then '\n' else ' ') :: kept }

/-- Whether a gap in front of a line falls away; a tab there must be right of a column. -/
def gap? (q : Quoting) (indentation : Nat) (c : Char) : Option (Option Quoting) :=
  let skipped := { q with column := q.column + 1 }
  if !q.leading then some none
  else if c == ' ' then some (some skipped)
  else if c == '\t' then if indentation < q.column then some (some skipped) else none
  else some none

/-- Reads a text behind its opening single quote; a quote inside is written twice. -/
def single? (indentation : Nat) (q : Quoting) : List Char → Option (Quoting × List Char)
  | [] => none
  | '\'' :: '\'' :: rest =>
    single? indentation { q with value := '\'' :: q.value, column := q.column + 2 } rest
  | c :: rest =>
    if isBreak c then
      if startsWithMarker rest then none else single? indentation q.breakLine rest
    else
      match q.gap? indentation c with
      | none => none
      | some (some skipped) => single? indentation skipped rest
      | some none =>
        if c == '\'' then some ({ q with column := q.column + 1 }, rest)
        else single? indentation (q.push c 1) rest

/-! ## Escapes -/

/-- The characters that may follow a backslash alone, with their meanings. -/
def escapes : List (Char × Nat) := [
  ('0', 0x00), ('a', 0x07), ('b', 0x08), ('t', 0x09), ('\t', 0x09), ('n', 0x0a), ('v', 0x0b),
  ('f', 0x0c), ('r', 0x0d), ('e', 0x1b), (' ', 0x20), ('"', 0x22), ('/', 0x2f), ('\\', 0x5c),
  ('N', 0x85), ('_', 0xa0), ('L', 0x2028), ('P', 0x2029)]

/-- The weight of a character in a code, by its distance from the zero if it is no letter of a
digit. -/
def codeDigit (c : Char) : Int :=
  if 'A' ≤ c && c ≤ 'F' then c.toNat - 55
  else if 'a' ≤ c && c ≤ 'f' then c.toNat - 87
  else c.toNat - 48

def code (cs : List Char) : Int := cs.foldl (fun n c ↦ 16 * n + codeDigit c) 0

/-- The character of a code of 32 bits, or the replacement character if there is none. -/
def charOf (n : Int) : Char :=
  let low := (n.emod 0x100000000).toNat
  if low.isValidChar then Char.ofNat low else Char.ofNat 0xfffd

/-- The character of four digits at the front; the first half of a surrogate pair needs the
second behind it. -/
def unit? (cs : List Char) : Option (Char × Nat) :=
  let high := code (cs.take 4)
  if cs.length < 4 then none
  else if high < 0xd800 || 0xdbff < high then some (charOf high, 4)
  else
    match cs.drop 4 with
    | '\\' :: 'u' :: rest =>
      let low := code (rest.take 4)
      if rest.length < 4 || low < 0xdc00 || 0xdfff < low then none
      else some (charOf ((high - 0xd800) * 0x400 + (low - 0xdc00) + 0x10000), 10)
    | _ => none

/-- The character of an escape behind the backslash, and how many characters it takes. -/
def escape? : List Char → Option (Char × Nat)
  | [] => none
  | 'x' :: rest =>
    if rest.length < 2 then some ('x', 1) else some (charOf (code (rest.take 2)), 3)
  | 'u' :: rest => (unit? rest).map fun e ↦ (e.1, e.2 + 1)
  | 'U' :: rest => if rest.length < 8 then none else some (charOf (code (rest.take 8)), 9)
  | c :: _ => (escapes.lookup c).map fun n ↦ (Char.ofNat n, 1)

/-- Reads a text behind its opening double quote; `skip` counts the characters that an escape has
already taken. -/
def double? (indentation skip : Nat) (q : Quoting) : List Char → Option (Quoting × List Char)
  | [] => none
  | c :: rest =>
    match skip with
    | n + 1 => double? indentation n q rest
    | 0 =>
      if isBreak c then
        if startsWithMarker rest then none else double? indentation 0 q.breakLine rest
      else
        match q.gap? indentation c with
        | none => none
        | some (some skipped) => double? indentation 0 skipped rest
        | some none =>
          if c == '"' then some ({ q with column := q.column + 1 }, rest)
          else if c != '\\' then double? indentation 0 (q.push c 1) rest
          else
            match rest with
            | '\n' :: _ => double? indentation 1 q.nextLine rest
            | '\r' :: '\n' :: _ => double? indentation 2 q.nextLine rest
            | '\r' :: _ => double? indentation 1 q.nextLine rest
            | _ =>
              match escape? rest with
              | some (d, taken) => double? indentation taken (q.push d (taken + 1)) rest
              | none => none

end Quoting

end ExprCompiler.Yaml
