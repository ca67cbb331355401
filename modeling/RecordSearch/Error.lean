import RecordSearch.Json.Tree

/-! Why an operation fails. -/
namespace RecordSearch

inductive Error
  | transport
  | engine (status : UInt16) (reason : String) (body : Option String)
  | unsupported (operation : String)
  | invalidResponse (fault : Json.Fault)
  | store (cause : String)
  | config (cause : String)

namespace Error

def status? : Error → Option UInt16
  | .engine status _ _ => some status
  | _ => none

def reason? : Error → Option String
  | .engine _ reason _ => some reason
  | _ => none

def isNotFound (e : Error) : Bool := e.status? == some 404

def message? : Error → Option String
  | .transport => none
  | .engine status reason _ => some ("Search engine error (" ++ toString status ++ "): " ++ reason)
  | .unsupported operation => some ("Unsupported operation: " ++ operation)
  | .invalidResponse _ => none
  | .store cause => some ("Record store error: " ++ cause)
  | .config cause => some ("Configuration error: " ++ cause)

theorem isNotFound_iff (e : Error) : e.isNotFound = true ↔ e.status? = some 404 := by
  simp [isNotFound]

end Error
end RecordSearch
