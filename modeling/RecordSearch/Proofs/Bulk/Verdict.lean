import RecordSearch.Proofs.Json.Members
import RecordSearch.Proofs.Text.Digits
import RecordSearch.Client

/-! The engine's verdict on an operation, told by itself or among others. -/
namespace RecordSearch.Bulk
open Json

/-- What the engine says of one operation: a status, and perhaps an error as it is written. A
success has none. -/
structure Verdict where
  status : UInt16
  error : Option Value
  isStatus : 100 ≤ status ∧ status ≤ 999
  error_of_success : Http.isSuccess status = true → error = none

namespace Verdict

def failed (o : Verdict) : Bool := !Http.isSuccess o.status

def depth (o : Verdict) : Nat := (o.error.map Value.depth).getD 0

def explained (o : Verdict) : Option String :=
  o.error.bind fun e => (e.ordered.get? "reason").bind Value.asText?

def told (o : Verdict) : Option String :=
  match o.error with
  | some (.str text) => some text
  | _ => o.explained

def reasonAlone (o : Verdict) : String :=
  (if Http.isBodiless o.status then none else o.told).getD
    ((Http.phrase? o.status).getD (toString o.status))

def reasonTogether (o : Verdict) : String :=
  o.explained.getD ((Http.phrase? o.status).getD "bulk item failed")

/-- Failures that have one reason in both cases. -/
def ToldAlike (o : Verdict) : Prop :=
  if Http.isBodiless o.status then ∀ reason ∈ o.explained, Http.phrase? o.status = some reason
  else match o.error with
    | some (.str text) => text = (Http.phrase? o.status).getD "bulk item failed"
    | _ => o.explained.isSome ∨ (Http.phrase? o.status).isSome

/-- The outcome that is made of a verdict. An error that is null counts for none. -/
def item (o : Verdict) : Item where
  status := o.status
  error := (o.error.map Value.ordered).filter fun e => !e.isNull

variable (o : Verdict)

theorem error_of_not_failed (h : o.failed = false) : o.error = none :=
  o.error_of_success (by simpa [failed] using h)

theorem failed_item : o.item.failed = o.failed := by
  rw [Item.failed]
  cases hf : o.failed with
  | false =>
    simp [item, error_of_not_failed o hf,
      show Http.isSuccess o.status = true by simpa [failed] using hf]
  | true => simp [item, show Http.isSuccess o.status = false by simpa [failed] using hf]

theorem reason_item : o.item.reason = o.reasonTogether := by
  have he : (o.item.error.bind fun e => (e.get? "reason").bind Value.asText?) = o.explained := by
    rw [item, explained]
    cases o.error with
    | none => rfl
    | some e => cases e <;> rfl
  rw [Item.reason, he, reasonTogether]
  cases o.explained <;> rfl

private theorem toString_status_ne (status : UInt16) : toString status ≠ "bulk item failed" := by
  intro h
  have hchars : Nat.toDigits 10 status.toNat = "bulk item failed".toList :=
    String.ofList_injective (h.trans String.ofList_toList.symm)
  have hdigits (c : Char) (hc : c ∈ Nat.toDigits 10 status.toNat) : c.isDigit = true :=
    Text.forall_decimal (p := fun c => c.isDigit = true) (by decide) hc
  exact absurd (hdigits 'b' (hchars ▸ by decide)) (by decide)

private theorem phrase_of_bodiless {o : Verdict} (hf : o.failed = true)
    (hb : Http.isBodiless o.status = true) :
    ∃ phrase, Http.phrase? o.status = some phrase := by
  rw [Http.isBodiless, Bool.or_eq_true, Bool.or_eq_true, beq_iff_eq, beq_iff_eq, beq_iff_eq] at hb
  rcases hb with (h | h) | h
  · exact ⟨"Switching Protocols", by rw [h]; decide⟩
  · rw [failed, h] at hf
    contradiction
  · exact ⟨"Not Modified", by rw [h]; decide⟩

/-- The two reasons are the same for exactly those failures. -/
theorem reasonAlone_eq_reasonTogether_iff (hf : o.failed = true) :
    o.reasonAlone = o.reasonTogether ↔ o.ToldAlike := by
  unfold ToldAlike
  by_cases hs : Http.isBodiless o.status = true
  · obtain ⟨phrase, hphrase⟩ := phrase_of_bodiless hf hs
    rw [if_pos hs, reasonAlone, reasonTogether, if_pos hs, hphrase]
    cases o.explained with
    | none => simp
    | some reason => simp
  · rw [if_neg hs, reasonAlone, reasonTogether, if_neg hs]
    split
    · next text he =>
      rw [told, explained, he]
      rfl
    · next hne =>
      have htold : o.told = o.explained := by
        unfold told
        split
        · next text he => exact absurd he (hne text)
        · rfl
      rw [htold]
      cases o.explained with
      | some reason => simp
      | none =>
        cases Http.phrase? o.status with
        | some phrase => simp
        | none => simpa using toString_status_ne o.status

end Verdict
end RecordSearch.Bulk
