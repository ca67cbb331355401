import RecordSearch.Proofs.Query.Document

/-! Which documents a query document matches, and what a request asks of them. -/
namespace RecordSearch.Query
open RecordSearch.Json

section Meaning
variable {D : Type} (leaf : Value → D → Prop) (d : D)

mutual
/-- Whether a clause holds of a document, given what it means where it is a leaf. A bool clause
holds if every clause of its `must` and `filter` lists does. -/
def Holds : Value → Prop
  | .obj [("bool", .obj parts)] => HoldsParts parts
  | clause => leaf clause d

def HoldsParts : List (String × Value) → Prop
  | [] => True
  | ("must", .arr clauses) :: rest => HoldsAll clauses ∧ HoldsParts rest
  | ("filter", .arr clauses) :: rest => HoldsAll clauses ∧ HoldsParts rest
  | _ :: rest => HoldsParts rest

def HoldsAll : List Value → Prop
  | [] => True
  | clause :: rest => Holds clause ∧ HoldsAll rest
end

variable {leaf d}

namespace Compiled
variable (c : Compiled)

end Compiled

variable (p : Policy) (fields : List String) {r : Request}

end Meaning

end RecordSearch.Query
