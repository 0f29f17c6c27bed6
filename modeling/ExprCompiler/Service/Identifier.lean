import ExprCompiler.Text.Quoted

/-!
# Request identifiers

An identifier for a request that brings none: sixteen random bytes in hexadecimal, in five groups,
with the marks of the fourth version and the common variant of universally unique identifiers.
-/

namespace ExprCompiler.Service

/-- How many digits each group has. -/
def identifierGroups : List Nat := [8, 4, 4, 4, 12]

/-- Sets the marks on the bytes at their places. -/
def markBytes (bytes : List UInt8) : List UInt8 :=
  bytes.mapIdx fun i b ↦
    if i == 6 then b &&& 0x0f ||| 0x40 else if i == 8 then b &&& 0x3f ||| 0x80 else b

/-- Cuts a list into groups of given sizes. -/
def cut (cs : List Char) : List Nat → List (List Char)
  | [] => []
  | n :: ns => cs.take n :: cut (cs.drop n) ns

/-- The identifier of sixteen bytes. -/
def identifier (bytes : List UInt8) : String :=
  let digits := (markBytes bytes).flatMap fun b ↦ Text.hex 2 b.toNat
  "-".intercalate ((cut digits identifierGroups).map String.ofList)

end ExprCompiler.Service
