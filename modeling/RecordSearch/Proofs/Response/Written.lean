import RecordSearch.Proofs.Bulk.Written
import RecordSearch.Proofs.Response.ReadBack

/-! Answers in writing that hold ids and a total, and nothing else. -/
namespace RecordSearch
open Json

namespace Response

def Hits.ofIds (ids : List String) (count : UInt64) : Hits where
  total := some (.bare count)
  hits := ids.map fun id => { id }

variable (ids : List String) (count : UInt64)

theorem Search.ids_ofIds : Search.ids { hits := .ofIds ids count } = ids := by
  rw [Search.ids, Hits.ofIds, List.map_map]
  exact List.map_id ids

def Hits.members (hits : Hits) : List (String × Value) := [("hits", hits.toValue)]

theorem legible_members_ofIds : Value.LegibleMembers (Hits.ofIds ids count).members := by
  have hitems : Value.LegibleItems ((Hits.ofIds ids count).hits.map Hit.toValue) := by
    unfold Hits.ofIds
    induction ids with
    | nil => trivial
    | cons id ids ih => exact ⟨⟨trivial, trivial⟩, ih⟩
  exact ⟨⟨hitems, Reader.legible_int _ _, trivial⟩, trivial⟩

theorem decode_ofIds :
    Search.decode ⟨.ofValue (.obj (Hits.ofIds ids count).members), .fresh⟩ =
      .ok { hits := .ofIds ids count } := by
  have hkept : Search.Kept .fresh { hits := .ofIds ids count } := by
    refine ⟨⟨nofun, fun hit hm => ?_⟩, List.forall_mem_nil _⟩
    obtain ⟨id, -, rfl⟩ := List.mem_map.1 hm
    exact ⟨nofun, nofun⟩
  exact Search.decode_toValue hkept (by decide)

/-- The octets of such an answer are read back. -/
theorem decodeText_ofIds :
    decodeText Search.decode
      (String.ofList (Text.Utf8.decodeBody (Bulk.Verdict.octets (Hits.ofIds ids count).members))) =
    .ok { hits := .ofIds ids count } :=
  ((Bulk.Verdict.writes_octets (legible_members_ofIds ids count)).decodeText _).trans
    (decode_ofIds ids count)

end Response
end RecordSearch
