import RecordSearch.Json.Value

/-! Records of the application, and the store that holds them. -/
namespace RecordSearch
open Json

abbrev Payload := KeyMap Value

/-- What the application says about one type of records: where they are indexed, by which fields
they are found, and what each of them holds. Soft-delete metadata is for records that can be
trashed. -/
structure RecordType (R : Type) where
  indexName : String
  fields : List String := []
  key : R → String
  payload : R → Payload
  softDelete : R → Option Payload := fun _ => none
  index : R → String := fun _ => indexName

/-- Finds records by their keys. They come in any order, and some may be missing. -/
abbrev RecordStore (R : Type) := List String → Except String (List R)

end RecordSearch
