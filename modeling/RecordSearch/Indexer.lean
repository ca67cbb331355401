import RecordSearch.Client

/-! Batches of records put into the engine and taken out of it. A batch is not undone when it fails
half way. -/
namespace RecordSearch
open Json

/-- The document of a record. Soft-delete metadata goes over the payload before it is asked whether
there is anything to index; the key is added as `id` unless there is one already. -/
def document {R : Type} (type : RecordType R) (softDelete : Bool) (record : R) : Option Payload :=
  let base :=
    if softDelete then (type.payload record).override ((type.softDelete record).getD KeyMap.empty)
    else type.payload record
  if base.isEmpty then none
  else if (base.get? "id").isSome then some base
  else some (base.insert "id" (.str (type.key record)))

structure Indexer where
  client : Client
  softDelete : Bool
  bulk : Bool

namespace Indexer
variable {R : Type}

def ofSettings (client : Client) (s : Settings) : Indexer := ⟨client, s.softDelete, s.bulk⟩

def documents (i : Indexer) (type : RecordType R) (records : List R) : List (String × Payload) :=
  records.filterMap fun r => (document type i.softDelete r).map fun payload => (type.key r, payload)

/-- Puts in every document of a batch. All go to the index of the first record. -/
def index (i : Indexer) (type : RecordType R) (records : List R) : Run Unit := do
  match records with
  | [] => return
  | first :: _ =>
    let target := type.index first
    let documents := i.documents type records
    let skipped := records.length - documents.length
    if 0 < skipped then
      Run.say .debug ("Skipping " ++ toString skipped ++ " records with empty payloads")
    if documents.isEmpty then return
    if i.bulk then
      i.client.bulk (documents.map fun d => .index target d.1 d.2)
      Run.say .info ("Indexed " ++ toString documents.length ++ " documents into " ++
        target ++ " (bulk)")
    else
      documents.forM fun d => i.client.upsert target d.1 d.2
      Run.say .info ("Indexed " ++ toString documents.length ++ " documents into " ++ target)

def unindex (i : Indexer) (type : RecordType R) (records : List R) : Run Unit := do
  match records with
  | [] => return
  | first :: _ =>
    let target := type.index first
    if i.bulk then i.client.bulk (records.map fun r => .delete target (type.key r))
    else records.forM fun r => i.client.delete target (type.key r)
    Run.say .info ("Removed " ++ toString records.length ++ " documents from " ++ target)

end Indexer
end RecordSearch
