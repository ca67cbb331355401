import RecordSearch.Json.Decode

/-! The engine's answer to a search. -/
namespace RecordSearch.Response
open RecordSearch.Json

inductive Total
  | related (value : UInt64) (relation : Option String)
  | bare (value : UInt64)
deriving DecidableEq

def Total.value : Total → UInt64
  | .related value _ => value
  | .bare value => value

def Total.isLowerBound : Total → Bool
  | .related _ (some relation) => relation == "gte"
  | _ => false

structure Hit where
  id : String
  index : Option String := none
  score : Option Float := none
  source : Option Value := none

structure Hits where
  total : Option Total := none
  maxScore : Option Float := none
  hits : List Hit := []

/-- The whole answer. Members that have no field of their own are kept in `extra`. -/
structure Search where
  hits : Hits := {}
  took : Option UInt64 := none
  timedOut : Option Bool := none
  extra : KeyMap Value := KeyMap.empty

namespace Search

def ids (s : Search) : List String := s.hits.hits.map (·.id)

def reportedTotal (s : Search) : Option Nat := s.hits.total.map (·.value.toNat)

def totalCount (s : Search) : Nat := s.reportedTotal.getD s.hits.hits.length

def isEmpty (s : Search) : Bool := s.hits.hits.isEmpty

/-- Whether the count is a lower bound; nothing is known where no total is reported. -/
def lowerBound (s : Search) : Option Bool := s.hits.total.map (·.isLowerBound)

end Search
end RecordSearch.Response
