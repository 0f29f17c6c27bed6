/-!
# Tables

Finite maps from names, kept as the list of their entries. Overlaying replaces entries in place
and adds the new ones at the end, and leaves both tables as they were.
-/

namespace ExprCompiler

/-- Entries by name; of two entries with one name the first counts. -/
abbrev Table (α : Type) := List (String × α)

namespace Table

variable {α : Type}

def get? (t : Table α) (name : String) : Option α :=
  (t.find? fun e ↦ e.1 == name).map Prod.snd

def contains (t : Table α) (name : String) : Bool := (t.get? name).isSome

/-- Sets one entry. -/
def insert (t : Table α) (name : String) (a : α) : Table α :=
  match t with
  | [] => [(name, a)]
  | e :: rest => if e.1 == name then (name, a) :: rest else e :: insert rest name a

/-- The first table with the entries of the second over it. -/
def overlay (base upper : Table α) : Table α :=
  upper.foldl (fun t e ↦ insert t e.1 e.2) base

/-- The entries in the order of their names. -/
def sorted (t : Table α) : Table α := t.mergeSort fun a b ↦ decide (a.1 ≤ b.1)

end Table

end ExprCompiler
