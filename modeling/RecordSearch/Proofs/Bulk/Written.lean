import RecordSearch.Proofs.Bulk.Delivery
import RecordSearch.Proofs.Json.ReadBack
import RecordSearch.Proofs.Text.Utf8

/-! Verdicts in writing. -/
namespace RecordSearch.Bulk.Verdict
open Json

def octets (members : List (String × Value)) : List UInt8 :=
  Text.Utf8.encode (Value.obj members).chars

/-- The octets of an object are its text. -/
theorem writes_octets {members : List (String × Value)} (h : Value.LegibleMembers members) :
    Writes (String.ofList (Text.Utf8.decodeBody (octets members))) (.obj members) := by
  have hhead : (Value.obj members).chars.head? ≠ some '\ufeff' :=
    fun he => absurd (Option.some.inj he) (by decide)
  have hbody : Text.Utf8.decodeBody (octets members) = (Value.obj members).chars :=
    Text.Utf8.decodeBody_encode hhead
  rw [hbody]
  exact Reader.document_text (.obj members) h

theorem legible_nat (n : UInt32) : (Value.nat n).Legible := Reader.legible_int _ _

variable (o : Verdict)

def errorMembers : List (String × Value) := o.error.toList.map ("error", ·)

private theorem lookup_errorMembers : lookup "error" o.errorMembers = o.error := by
  rw [errorMembers]
  cases o.error <;> rfl

def written (action : String) : Value :=
  .obj [(action, .obj (("status", .nat o.status.toUInt32) :: o.errorMembers))]

private theorem distinct_errorMembers : Distinct o.errorMembers := by
  unfold errorMembers Distinct
  cases o.error <;> simp

private theorem legible_errorMembers (h : ∀ e, o.error = some e → e.Legible) :
    Value.LegibleMembers o.errorMembers := by
  unfold errorMembers
  cases he : o.error with
  | none => trivial
  | some e => exact ⟨h e he, trivial⟩

/-- A body with nothing but the error tells a verdict. -/
theorem answers_octets (h : ∀ e, o.error = some e → e.Legible) :
    o.Answers (some (octets o.errorMembers)) := by
  refine fun _ => ⟨_, o.errorMembers, rfl, writes_octets (o.legible_errorMembers h),
    o.distinct_errorMembers, o.lookup_errorMembers, fun e he hne => ?_⟩
  obtain ⟨v, -, rfl⟩ := List.mem_map.1 he
  contradiction

theorem listed_written (action : String) : o.Listed (o.written action) := by
  refine ⟨action, _, rfl, List.pairwise_cons.2 ⟨fun e he => ?_, o.distinct_errorMembers⟩, rfl, ?_⟩
  · obtain ⟨v, -, rfl⟩ := List.mem_map.1 he
    exact (by decide : "status" ≠ "error")
  · rw [lookup, if_neg (by decide), lookup_errorMembers]

def report (verdicts : List Verdict) (action : String) : List (String × Value) :=
  [("errors", .bool (verdicts.any failed)), ("items", .arr (verdicts.map (·.written action)))]

/-- An answer with nothing but the items lists the verdicts. -/
theorem listedIn_report {verdicts : List Verdict}
    (h : ∀ o ∈ verdicts, ∀ e, o.error = some e → e.Legible) (action : String) :
    ListedIn verdicts (String.ofList (Text.Utf8.decodeBody (octets (report verdicts action)))) := by
  have hitems : Value.LegibleItems (verdicts.map (·.written action)) := by
    induction verdicts with
    | nil => trivial
    | cons o verdicts ih =>
      rw [List.forall_mem_cons] at h
      exact ⟨⟨⟨legible_nat _, o.legible_errorMembers h.1⟩, trivial⟩, ih h.2⟩
  refine ⟨_, verdicts.map (·.written action), writes_octets ⟨trivial, hitems, trivial⟩,
    ?_, rfl, rfl, ?_⟩
  · simp [report, Distinct]
  · rw [List.forall₂_map_right_iff]
    exact List.forall₂_same.2 fun o _ => o.listed_written action

end RecordSearch.Bulk.Verdict
