import Mathlib.Data.List.Forall2
import RecordSearch.Proofs.Bulk.Verdict
import RecordSearch.Proofs.Json.Decode
import RecordSearch.Proofs.Json.Strict

/-! Verdicts as they come: as an answer each, or as the items of one answer to all. -/
namespace RecordSearch

namespace Bulk
open Json

namespace Verdict
variable (o : Verdict)

/-- A body that tells the verdict: an object with the error, and nothing else in it that nests too
deep to be read. -/
def Told (body : Option (List UInt8)) : Prop :=
  ∃ octets members, body = some octets ∧
    Writes (String.ofList (Text.Utf8.decodeBody octets)) (.obj members) ∧ Distinct members ∧
    lookup "error" members = o.error ∧ ∀ e ∈ members, e.1 ≠ "error" → e.2.depth ≤ 126

def Listed (v : Value) : Prop :=
  ∃ action members, v = .obj [(action, .obj members)] ∧ Distinct members ∧
    lookup "status" members = some (.nat o.status.toUInt32) ∧
    lookup "error" members = o.error

/-- What is told by itself comes with a body that tells it, unless the status rules bodies out. -/
def Answers (body : Option (List UInt8)) : Prop := Http.isBodiless o.status = false → o.Told body

private theorem decode_told {body : Option (List UInt8)} (h : o.Told body) (hd : o.depth ≤ 126) :
    ∃ octets members, body = some octets ∧ Distinct members ∧ lookup "error" members = o.error ∧
      decodeText Decode.free (String.ofList (Text.Utf8.decodeBody octets)) =
        .ok (Value.ordered (.obj members)) := by
  obtain ⟨octets, members, rfl, hw, hm, he, hother⟩ := h
  have hdepth : (Value.obj members).depth ≤ 127 := by
    refine Nat.succ_le_succ (Value.membersDepth_le fun e hmem => ?_)
    by_cases hname : e.1 = "error"
    · have herror : o.error = some e.2 := he.symm.trans (hname ▸ hm.lookup_of_mem hmem)
      rw [depth, herror] at hd
      exact hd
    · exact hother e hmem hname
  exact ⟨octets, members, rfl, hm, he,
    (hw.decodeText _).trans ((Tree.value_ofValue _ (.text 127)).trans (if_pos hdepth))⟩

/-- An empty body tells nothing. -/
private theorem refusal_empty (status : UInt16) :
    refusal status (some "") =
      .engine status ((Http.phrase? status).getD (toString status)) (some "") := by
  simp [refusal, decodeText_free_empty, Except.toOption]

/-- The error that is made of such an answer. -/
theorem refusal_eq {body : Option (List UInt8)} (h : o.Answers body) (hd : o.depth ≤ 126) :
    refusal o.status (Client.bodyText o.status body) =
      .engine o.status o.reasonAlone (Client.bodyText o.status body) := by
  rw [reasonAlone]
  cases hb : Http.isBodiless o.status with
  | true =>
    have htext : Client.bodyText o.status body = some "" := by
      rw [Client.bodyText, hb]
      rfl
    rw [htext, refusal_empty]
    rfl
  | false =>
    obtain ⟨octets, members, rfl, hm, he, hdecode⟩ := o.decode_told (h hb) hd
    have htext : Client.bodyText o.status (some octets) =
        some (String.ofList (Text.Utf8.decodeBody octets)) := by
      rw [Client.bodyText, hb]
      rfl
    unfold refusal
    rw [htext]
    simp only [bind, Option.bind_some, hdecode, Except.toOption, Value.get?_ordered hm, he]
    rw [told, explained]
    cases o.error with
    | none => rfl
    | some e => cases e <;> rfl

private theorem member_unknown (d : Item.Draft) (name : String) (c : Cursor)
    (h : (name == "status" || name == "error") = false) :
    Item.member d name c = (do Decode.ignored c; return d) := by
  unfold Item.member
  split
  · contradiction
  · contradiction
  · rfl

private theorem member_status (d : Item.Draft) (hd : d.status = none) (origin : Tree.Origin) :
    Item.member d "status" ⟨.ofValue (.nat o.status.toUInt32), origin⟩ =
      .ok { d with status := some o.status } := by
  change (do return { d with status := some (← Decode.once d.status Decode.word16 _) }) = _
  rw [hd, Decode.once, Decode.word16_nat]
  rfl

private theorem member_error (d : Item.Draft) (hd : d.error = none) (e : Value) (n : Nat) :
    Item.member d "error" ⟨.ofValue e, .text n⟩ =
      if e.depth ≤ n then .ok { d with error := some ((some e.ordered).filter fun e => !e.isNull) }
      else .error .malformed := by
  change (do
      return { d with error := some (← Decode.once d.error (Decode.optional Decode.free) _) }) = _
  rw [hd, Decode.once, Decode.optional_free]
  split <;> rfl

/-- The two members that an item is made of, in either order. -/
private theorem memberwise_item {members : List (String × Value)} (hd : Distinct members)
    (hs : lookup "status" members = some (.nat o.status.toUInt32))
    (he : lookup "error" members = o.error) (n : Nat) :
    Decode.memberwise Item.member (.text n) {} (Tree.ofMembers members) =
      if o.depth ≤ n then
        .ok ⟨some o.status, o.error.map fun e => (some e.ordered).filter fun e => !e.isNull⟩
      else .error .malformed := by
  unfold depth
  have hstatus := o.member_status {} rfl (.text n)
  have hne : "status" ≠ "error" := by decide
  cases hx : o.error with
  | none =>
    rw [Decode.memberwise_one member_unknown hne hd hs (he.trans hx) hstatus]
    exact (if_pos (Nat.zero_le n)).symm
  | some e =>
    change _ = if e.depth ≤ n then _ else _
    have herror (d : Item.Draft) (hd : d.error = none) := member_error d hd e n
    by_cases hr : e.depth ≤ n
    · simp only [if_pos hr] at herror ⊢
      exact Decode.memberwise_two member_unknown hne hd hs (he.trans hx) hstatus (herror _ rfl)
        (herror {} rfl) (o.member_status _ rfl _)
    · simp only [if_neg hr] at herror ⊢
      exact Decode.memberwise_two_error member_unknown hne hd hs (he.trans hx) hstatus
        (herror _ rfl) (herror {} rfl)

/-- An item is read as its verdict where there is room for the error. -/
theorem decode_item {members : List (String × Value)} (hd : Distinct members)
    (hs : lookup "status" members = some (.nat o.status.toUInt32))
    (he : lookup "error" members = o.error) (n : Nat) :
    Item.decode ⟨.ofValue (.obj members), .text (n + 1)⟩ =
      if o.depth ≤ n then .ok o.item else .error .malformed := by
  have hm := o.memberwise_item hd hs he n
  unfold Item.decode
  rw [Tree.ofValue]
  simp only [Decode.record, Decode.object, Tree.Origin.enter, bind, Except.bind, hm]
  by_cases hr : o.depth ≤ n
  · rw [if_pos hr, if_pos hr, item]
    cases o.error <;> rfl
  · rw [if_neg hr, if_neg hr]

private theorem decode_table {o : Verdict} {v : Value} (h : o.Listed v) (n : Nat) :
    ∃ m : KeyMap Item, m.entries.map (·.2) = [o.item] ∧
    Decode.table Item.decode ⟨.ofValue v, .text (n + 2)⟩ =
      if o.depth ≤ n then .ok m else .error .malformed := by
  obtain ⟨action, members, rfl, hd, hs, he⟩ := h
  have hitem := o.decode_item hd hs he n
  refine ⟨.ofList [(action, o.item)], rfl, ?_⟩
  unfold Decode.table Decode.entryList
  rw [Tree.ofValue, Tree.ofMembers, Tree.ofMembers]
  simp only [Tree.Origin.enter, Decode.entries, Tree.key, bind, Except.bind, hitem]
  by_cases hr : o.depth ≤ n
  · rw [if_pos hr, if_pos hr]
    rfl
  · rw [if_neg hr, if_neg hr]
    rfl

/-- Items are read one by one, and one that cannot be read spoils the whole. -/
private theorem decode_items {verdicts : List Verdict} {items : List Value}
    (h : List.Forall₂ Listed verdicts items) (n : Nat) :
    ∃ maps : List (KeyMap Item), (maps.flatMap fun m => m.entries.map (·.2)) = verdicts.map item ∧
      Decode.items (Decode.table Item.decode) (.text (n + 2)) (Tree.ofItems items) =
        if ∀ o ∈ verdicts, o.depth ≤ n then .ok maps else .error .malformed := by
  induction h with
  | nil => exact ⟨[], rfl, (if_pos (by simp)).symm⟩
  | @cons o v verdicts items ho hrest ih =>
    obtain ⟨m, hm, htable⟩ := decode_table ho n
    obtain ⟨maps, hmaps, hitems⟩ := ih
    refine ⟨m :: maps, by rw [List.flatMap_cons, hm, hmaps]; rfl, ?_⟩
    rw [Tree.ofItems, Decode.items]
    simp only [bind, Except.bind, htable, hitems, List.forall_mem_cons]
    by_cases hr : o.depth ≤ n
    · by_cases hrs : ∀ o ∈ verdicts, o.depth ≤ n
      · rw [if_pos hr, if_pos hrs, if_pos ⟨hr, hrs⟩]
      · rw [if_pos hr, if_neg hrs, if_neg fun h => hrs h.2]
    · have hn : ¬(o.depth ≤ n ∧ ∀ o ∈ verdicts, o.depth ≤ n) := fun h => hr h.1
      rw [if_neg hr, if_neg hn]

/-- The text of an answer to all: the verdicts in order, and whether there is a failure among
them. -/
def ListedIn (verdicts : List Verdict) (text : String) : Prop :=
  ∃ members items, Writes text (.obj members) ∧ Distinct members ∧
    lookup "errors" members = some (.bool (verdicts.any failed)) ∧
    lookup "items" members = some (.arr items) ∧ List.Forall₂ Listed verdicts items

private theorem reply_unknown (d : Reply.Draft) (name : String) (c : Cursor)
    (h : (name == "errors" || name == "items") = false) :
    Reply.member d name c = (do Decode.ignored c; return d) := by
  unfold Reply.member
  split
  · contradiction
  · contradiction
  · rfl

private theorem reply_errors (d : Reply.Draft) (hd : d.errors = none) (b : Bool)
    (origin : Tree.Origin) :
    Reply.member d "errors" ⟨.ofValue (.bool b), origin⟩ = .ok { d with errors := some b } := by
  change (do return { d with errors := some (← Decode.once d.errors Decode.flag _) }) = _
  rw [hd]
  rfl

private theorem reply_items (d : Reply.Draft) (hd : d.items = none) {verdicts : List Verdict}
    {items : List Value} {n : Nat} {maps : List (KeyMap Item)}
    (h : Decode.items (Decode.table Item.decode) (.text (n + 2)) (Tree.ofItems items) =
        if ∀ o ∈ verdicts, o.depth ≤ n then .ok maps else .error .malformed) :
    Reply.member d "items" ⟨.ofValue (.arr items), .text (n + 3)⟩ =
      if ∀ o ∈ verdicts, o.depth ≤ n then .ok { d with items := some maps }
      else .error .malformed := by
  change (do
      return { d with
        items := some (← Decode.once d.items (Decode.list (Decode.table Item.decode)) _) }) = _
  rw [hd, Decode.once, Decode.list, Tree.ofValue]
  simp only [Tree.Origin.enter, bind, Except.bind, h]
  by_cases hr : ∀ o ∈ verdicts, o.depth ≤ n
  · rw [if_pos hr, if_pos hr]
    rfl
  · rw [if_neg hr, if_neg hr]

/-- An answer to all is read as its verdicts where no error in it nests deeper than 123 levels; else
it is not read at all. -/
theorem decode_listed {verdicts : List Verdict} {text : String} (h : ListedIn verdicts text) :
    ∃ reply : Reply, reply.errors = verdicts.any failed ∧ reply.outcomes = verdicts.map item ∧
      decodeText Reply.decode text = if ∀ o ∈ verdicts, o.depth ≤ 123 then .ok reply
      else .error .malformed := by
  obtain ⟨members, items, hw, hd, he, hi, hl⟩ := h
  obtain ⟨maps, hmaps, hitems⟩ := decode_items hl 123
  refine ⟨⟨verdicts.any failed, maps⟩, rfl, hmaps, ?_⟩
  rw [hw.decodeText]
  have hmembers : Decode.memberwise Reply.member (.text 126) {} (Tree.ofMembers members) =
      if ∀ o ∈ verdicts, o.depth ≤ 123 then .ok ⟨some (verdicts.any failed), some maps⟩
      else .error .malformed := by
    have herrors := reply_errors {} rfl (verdicts.any failed) (.text 126)
    have hne : "errors" ≠ "items" := by decide
    have hlist (d : Reply.Draft) (hd : d.items = none) := reply_items d hd hitems
    by_cases hr : ∀ o ∈ verdicts, o.depth ≤ 123
    · simp only [if_pos hr] at hlist ⊢
      exact Decode.memberwise_two reply_unknown hne hd he hi herrors (hlist _ rfl) (hlist {} rfl)
        (reply_errors _ rfl _ _)
    · simp only [if_neg hr] at hlist ⊢
      exact Decode.memberwise_two_error reply_unknown hne hd he hi herrors (hlist _ rfl)
        (hlist {} rfl)
  unfold Reply.decode
  rw [Tree.ofValue]
  simp only [Decode.record, Decode.object, Tree.Origin.fresh, Tree.Origin.enter, bind,
    Except.bind, hmembers]
  by_cases hr : ∀ o ∈ verdicts, o.depth ≤ 123
  · rw [if_pos hr, if_pos hr]
    rfl
  · rw [if_neg hr, if_neg hr]

/-- The first failure that an answer reports is the first verdict that is one. -/
theorem firstFailure_eq {verdicts : List Verdict} {reply : Reply}
    (he : reply.errors = verdicts.any failed) (ho : reply.outcomes = verdicts.map item) :
    reply.firstFailure = (verdicts.find? failed).map fun o => (o.status, o.reasonTogether) := by
  have hfind : reply.outcomes.find? Item.failed = (verdicts.find? failed).map item := by
    rw [ho, List.find?_map]
    exact congrArg (fun p => (verdicts.find? p).map item) (funext failed_item)
  unfold Reply.firstFailure
  rw [hfind, he]
  cases h : verdicts.find? failed with
  | none =>
    have hany : verdicts.any failed = false := by simpa using h
    rw [hany]
    rfl
  | some o =>
    rw [Option.map_some, Option.map_some]
    exact congrArg (fun reason => some (o.status, reason)) o.reason_item

end Verdict
end Bulk
end RecordSearch
