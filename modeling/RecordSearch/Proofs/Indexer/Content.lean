import RecordSearch.Indexer
import RecordSearch.Proofs.KeyMap

/-! What stands in the document of a record, key by key. -/
namespace RecordSearch
open Json

section Document
variable {R : Type} (type : RecordType R) (softDelete : Bool) (record : R)

/-- What a record has to be indexed under a key: what its metadata say, where they count, and else
its payload. -/
def RecordType.content (key : String) : Option Value :=
  ((if softDelete then type.softDelete record else none).bind (·.get? key)).or
    ((type.payload record).get? key)

private def contents : Payload :=
  if softDelete then (type.payload record).override ((type.softDelete record).getD KeyMap.empty)
  else type.payload record

private theorem get?_contents (key : String) :
    (contents type softDelete record).get? key = type.content softDelete record key := by
  unfold contents RecordType.content
  cases softDelete with
  | false => rfl
  | true =>
    rw [if_pos rfl, if_pos rfl, KeyMap.get?_override]
    cases type.softDelete record <;> rfl

private theorem document_eq : document type softDelete record =
    if (contents type softDelete record).isEmpty then none
    else if ((contents type softDelete record).get? "id").isSome
    then some (contents type softDelete record)
    else some ((contents type softDelete record).insert "id" (.str (type.key record))) := rfl

/-- The key of a record is not content: it does not make a document of a record without any. -/
theorem document_eq_none_iff :
    document type softDelete record = none ↔ ∀ key, type.content softDelete record key = none := by
  simp only [← get?_contents, ← KeyMap.isEmpty_iff]
  rw [document_eq]
  split
  · next h => exact iff_of_true rfl h
  · next h => split <;> exact iff_of_false nofun h

variable {type softDelete record} {d : Payload}

theorem get?_document (h : document type softDelete record = some d) (key : String) :
    d.get? key = (type.content softDelete record key).or
      (if key = "id" then some (.str (type.key record)) else none) := by
  rw [← get?_contents]
  rw [document_eq] at h
  split at h
  · exact nomatch h
  · split at h
    · next hid =>
      obtain rfl := Option.some.inj h
      by_cases hkey : key = "id"
      · obtain ⟨value, hvalue⟩ := Option.isSome_iff_exists.1 hid
        rw [hkey, hvalue]
        rfl
      · rw [if_neg hkey, Option.or_none]
    · next hid =>
      obtain rfl := Option.some.inj h
      rw [KeyMap.get?_insert]
      by_cases hkey : key = "id"
      · rw [if_pos hkey.symm, if_pos hkey, hkey, Option.not_isSome_iff_eq_none.1 hid]
        rfl
      · rw [if_neg fun he => hkey he.symm, if_neg hkey, Option.or_none]

end Document

/-- A record has a document unless there is nothing in its payload, nor in its metadata where soft
deletion is on. The document holds just this content, in which metadata go before payload, and the
key of the record as its `id` if the content has none. So no metadata are lost, and of the payload
only what they replace. -/
theorem documents_hold_content {R : Type} (type : RecordType R) (softDelete : Bool) (record : R) :
    (document type softDelete record = none ↔ ∀ key, type.content softDelete record key = none) ∧
    ∀ d, document type softDelete record = some d →
      (∀ key,
        d.get? key = (type.content softDelete record key).or
        (if key = "id" then some (.str (type.key record)) else none)) ∧
      (∀ metadata key value, softDelete = true → type.softDelete record = some metadata →
        metadata.get? key = some value →
        d.get? key = some value) ∧
      ∀ key value, (type.payload record).get? key = some value → d.get? key = some value ∨
        softDelete = true ∧
        ∃ metadata, type.softDelete record = some metadata ∧ (metadata.get? key).isSome = true := by
  refine ⟨document_eq_none_iff type softDelete record, fun d hd => ⟨get?_document hd, ?_, ?_⟩⟩
  · intro metadata key value hon hmetadata hvalue
    rw [get?_document hd, RecordType.content, hon, hmetadata, if_pos rfl, Option.bind_some, hvalue]
    rfl
  · intro key value hvalue
    rw [get?_document hd, RecordType.content, hvalue]
    cases hmeta : (if softDelete then type.softDelete record else none).bind (·.get? key) with
    | none => exact .inl rfl
    | some replacement =>
      obtain ⟨metadata, hmetadata, hget⟩ := Option.bind_eq_some_iff.1 hmeta
      split at hmetadata
      · next hon => exact .inr ⟨hon, metadata, hmetadata, by rw [hget]; rfl⟩
      · exact nomatch hmetadata

/-- A null given as `id` stays, metadata replace the title, and a key alone makes no document. -/
theorem null_id_is_kept :
    let trashed : RecordType String :=
      { indexName := "books"
        key := id
        payload := fun title => .ofList [("id", .null), ("title", .str title)]
        softDelete := fun _ => some (.ofList [("__soft_deleted", .nat 1), ("title", .null)]) }
    let bare : RecordType String :=
      { indexName := "books"
        key := id
        payload := fun _ => .empty
        softDelete := fun _ => some .empty }
    (∃ d, document trashed true "dune" = some d ∧ d.get? "id" = some .null ∧
      d.get? "title" = some .null ∧
      d.get? "__soft_deleted" = some (.nat 1) ∧ d.get? "author" = none) ∧
    document bare true "dune" = none := by
  intro trashed bare
  refine ⟨?_, (documents_hold_content bare true "dune").1.2 fun _ => rfl⟩
  obtain ⟨hnone, hsome⟩ := documents_hold_content trashed true "dune"
  cases hd : document trashed true "dune" with
  | none => exact nomatch hnone.1 hd "id"
  | some d =>
    obtain ⟨hget, hmetadata, -⟩ := hsome d hd
    exact ⟨d, rfl, hget "id", hmetadata _ "title" _ rfl rfl rfl,
      hmetadata _ "__soft_deleted" _ rfl rfl rfl, hget "author"⟩

end RecordSearch
