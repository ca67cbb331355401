import RecordSearch.Proofs.Json.Depth
import RecordSearch.Proofs.Steps

/-! Texts that the strict reader accepts, and what it makes of names that come more than once. -/
namespace RecordSearch.Json

/-- A text is a value in writing, with any blanks and with the members of objects in any order. -/
def Writes (text : String) (v : Value) : Prop := Reader.document text = ⟨.ofValue v, false⟩

theorem Writes.decodeText {α : Type} {text : String} {v : Value} (h : Writes text v)
    (p : Decoder α) :
    decodeText p text = p ⟨.ofValue v, .fresh⟩ := by
  unfold Json.decodeText
  rw [h]
  dsimp only
  cases p ⟨.ofValue v, .fresh⟩ with
  | error f => rfl
  | ok x => rfl

/-- A text is accepted as a value: it is that value in writing, and nests no deeper than a text may.
The members of objects come as they are written, in their order and with names that come more than
once. -/
structure Accepts (text : String) (v : Value) : Prop where
  writes : Writes text v
  room : v.depth ≤ 127

namespace Tree

theorem eq_str_of_key {t : Tree} {k : String} (h : t.key = .ok k) : t = .str (some k) := by
  cases t with
  | cut begun used skipped => cases begun <;> exact nomatch h
  | str s =>
    cases s with
    | none => exact nomatch h
    | some s => exact congrArg (fun s => str (some s)) (Except.ok.inj h)
  | null => exact nomatch h
  | bool b => exact nomatch h
  | num n => exact nomatch h
  | arr items stop => exact nomatch h
  | obj members stop => exact nomatch h

theorem eq_none_of_stopped {stop : Option Fault} {u : Unit}
    (h : stopped stop = .ok u) : stop = none := by
  cases stop with
  | none => rfl
  | some f => exact nomatch h

mutual
/-- Only the tree of a value is read as one. -/
theorem exists_ofValue {t : Tree} {origin : Origin} {w : Value}
    (h : t.value origin = .ok w) : ∃ v, t = ofValue v := by
  cases t with
  | cut begun used skipped => exact nomatch h
  | null => exact ⟨.null, rfl⟩
  | bool b => exact ⟨.bool b, rfl⟩
  | num n =>
    cases n with
    | none => exact nomatch h
    | some n => exact ⟨.num n, rfl⟩
  | str s =>
    cases s with
    | none => exact nomatch h
    | some s => exact ⟨.str s, rfl⟩
  | arr items stop =>
    obtain ⟨inner, -, h⟩ := ok_of_bind h
    obtain ⟨ws, hws, h⟩ := ok_of_bind h
    obtain ⟨_, hstop, -⟩ := ok_of_bind h
    obtain rfl := eq_none_of_stopped hstop
    obtain ⟨vs, rfl⟩ := exists_ofItems hws
    exact ⟨.arr vs, rfl⟩
  | obj members stop =>
    obtain ⟨inner, -, h⟩ := ok_of_bind h
    obtain ⟨m, hm, h⟩ := ok_of_bind h
    obtain ⟨_, hstop, -⟩ := ok_of_bind h
    obtain rfl := eq_none_of_stopped hstop
    obtain ⟨vs, rfl⟩ := exists_ofMembers hm
    exact ⟨.obj vs, rfl⟩

theorem exists_ofItems {ts : List Tree} {origin : Origin} {ws : List Value}
    (h : itemValues origin ts = .ok ws) :
    ∃ vs, ts = ofItems vs := by
  cases ts with
  | nil => exact ⟨[], rfl⟩
  | cons t ts =>
    obtain ⟨w, hw, h⟩ := ok_of_bind h
    obtain ⟨ws, hws, -⟩ := ok_of_bind h
    obtain ⟨v, rfl⟩ := exists_ofValue hw
    obtain ⟨vs, rfl⟩ := exists_ofItems hws
    exact ⟨v :: vs, rfl⟩

theorem exists_ofMembers {ts : List (Tree × Tree)} {origin : Origin} {m n : KeyMap Value}
    (h : memberValues origin m ts = .ok n) :
    ∃ members, ts = ofMembers members := by
  cases ts with
  | nil => exact ⟨[], rfl⟩
  | cons t ts =>
    obtain ⟨key, value⟩ := t
    obtain ⟨k, hk, hvalue⟩ := ok_of_bind h
    obtain ⟨w, hw, hrest⟩ := ok_of_bind hvalue
    obtain rfl := eq_str_of_key hk
    obtain ⟨v, rfl⟩ := exists_ofValue hw
    obtain ⟨members, rfl⟩ := exists_ofMembers hrest
    exact ⟨(k, v) :: members, rfl⟩
end

end Tree

/-- The strict reader takes accepted texts and no others, and puts their members in order. -/
theorem decodeText_free_eq_ok_iff {text : String} {w : Value} :
    decodeText Decode.free text = .ok w ↔ ∃ v, Accepts text v ∧ v.ordered = w := by
  constructor
  · intro h
    obtain ⟨x, hx, h⟩ := ok_of_bind h
    cases hd : Reader.document text with
    | mk tree trailing =>
      rw [hd] at hx h
      cases trailing with
      | true => exact nomatch h
      | false =>
        obtain rfl := Except.ok.inj h
        obtain ⟨v, rfl⟩ := Tree.exists_ofValue hx
        have hread := (Tree.value_ofValue v .fresh).symm.trans hx
        split at hread
        · next hroom => exact ⟨v, ⟨hd, hroom⟩, Except.ok.inj hread⟩
        · exact nomatch hread
  · rintro ⟨v, h, rfl⟩
    exact (h.writes.decodeText _).trans ((Tree.value_ofValue v .fresh).trans (if_pos h.room))

theorem decodeText_free_empty : decodeText Decode.free "" = .error .ended := by
  have hdocument : Reader.document "" = ⟨.cut .nothing .ended .ended, false⟩ := by
    simp [Reader.document, Reader.skipSpace, Reader.value, Reader.nowhere]
  unfold decodeText
  rw [hdocument]
  rfl

theorem not_accepts_empty (v : Value) : ¬Accepts "" v :=
  fun h => nomatch decodeText_free_empty.symm.trans (decodeText_free_eq_ok_iff.2 ⟨v, h, rfl⟩)

namespace Value

def last? (name : String) : Value → Option Value
  | .obj members => lookupLast name members
  | _ => none

/-- Of members with one name the last is found. -/
theorem get?_ordered_last (v : Value) (name : String) :
    v.ordered.get? name = (v.last? name).map ordered := by
  cases v with
  | obj members =>
    rw [ordered, orderedMembers_eq_map, last?, ← lookupLast_map]
    exact KeyMap.get?_ofList_last _ name
  | null => rfl
  | bool b => rfl
  | num n => rfl
  | str s => rfl
  | arr items => rfl

theorem asText?_eq_some_iff {v : Value} {s : String} : v.asText? = some s ↔ v = .str s := by
  constructor
  · intro h
    cases v with
    | str t => exact congrArg str (Option.some.inj h)
    | null => exact nomatch h
    | bool b => exact nomatch h
    | num n => exact nomatch h
    | arr items => exact nomatch h
    | obj members => exact nomatch h
  · rintro rfl
    rfl

theorem ordered_eq_str_iff {v : Value} {s : String} : v.ordered = .str s ↔ v = .str s := by
  constructor
  · intro h
    cases v with
    | str t => exact h
    | null => exact nomatch h
    | bool b => exact nomatch h
    | num n => exact nomatch h
    | arr items => exact nomatch h
    | obj members => exact nomatch h
  · rintro rfl
    rfl

/-- A text is found under a name if it stands there last. -/
theorem get?_asText?_ordered_iff {v : Value} {name s : String} :
    (v.ordered.get? name).bind asText? = some s ↔ v.last? name = some (.str s) := by
  rw [get?_ordered_last, Option.bind_map, Option.bind_eq_some_iff]
  simp only [Function.comp_apply, asText?_eq_some_iff, ordered_eq_str_iff, exists_eq_right]

end Value
end RecordSearch.Json
