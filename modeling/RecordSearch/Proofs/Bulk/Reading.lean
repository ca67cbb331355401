import RecordSearch.Proofs.Json.Decode
import RecordSearch.Bulk.Reply

/-! What the text of an answer says, and what is read of it. -/
namespace RecordSearch.Bulk
open Json

/-- A status as it is read: an integer in writing, of sixteen bits. What is absent counts as
zero. -/
inductive StatusIn : Option Tree → UInt16 → Prop
  | absent : StatusIn none 0
  | given {status : UInt16}
      (hrange : -9223372036854775808 ≤ (status.toNat : Int) ∧
        (status.toNat : Int) < 18446744073709551616) :
      StatusIn (some (.num (some (.int status.toNat hrange)))) status

/-- An error as it is read: any value. Null counts as absent. -/
inductive ErrorIn : Option Tree → Option Value → Prop
  | absent : ErrorIn none none
  | null : ErrorIn (some .null) none
  | given {v : Value} (h : v ≠ .null) : ErrorIn (some (.ofValue v)) (some v.ordered)

structure Item.StandsIn (t : Tree) (i : Item) : Prop where
  record : t.IsRecord
  status : StatusIn (t.field? ["status", "error"] "status") i.status
  error : ErrorIn (t.field? ["status", "error"] "error") i.error

/-- The outcomes under one item, each under its key. Of outcomes with one key the last stays. -/
def ItemStandsIn (t : Tree) (m : KeyMap Item) : Prop :=
  ∃ members entries, t = .obj members none ∧
    List.Forall₂ (fun member e => member.1 = .str (some e.1) ∧ Item.StandsIn member.2 e.2) members
      entries ∧ KeyMap.ofList entries = m

inductive ErrorsIn : Option Tree → Bool → Prop
  | absent : ErrorsIn none false
  | given {b : Bool} : ErrorsIn (some (.bool b)) b

inductive ItemsIn : Option Tree → List (KeyMap Item) → Prop
  | absent : ItemsIn none []
  | given {ts : List Tree} {items : List (KeyMap Item)} (h : List.Forall₂ ItemStandsIn ts items) :
      ItemsIn (some (.arr ts none)) items

structure Reply.StandsIn (t : Tree) (r : Reply) : Prop where
  record : t.IsRecord
  errors : ErrorsIn (t.field? ["errors", "items"] "errors") r.errors
  items : ItemsIn (t.field? ["errors", "items"] "items") r.items

def StatusAt (t u : Tree) : Prop :=
  ∃ ts stop, t.field? ["errors", "items"] "items" = some (.arr ts stop) ∧
    ∃ members stop', .obj members stop' ∈ ts ∧
    ∃ member ∈ members, member.2.field? ["status", "error"] "status" = some u

section Items
variable {d e : Item.Draft} {name : String} {c : Cursor}

private theorem status_member (h : Item.member d "status" c = .ok e) :
    ∃ x, Decode.once d.status Decode.word16 c = .ok x ∧ e.status = some x :=
  Decode.of_member (fun _ => rfl) h

private theorem status_other (hne : name ≠ "status")
    (h : Item.member d name c = .ok e) : e.status = d.status := by
  unfold Item.member at h
  split at h
  case h_1 => contradiction
  all_goals exact Decode.of_other h fun _ => rfl

private theorem error_member (h : Item.member d "error" c = .ok e) :
    ∃ x, Decode.once d.error (Decode.optional Decode.free) c = .ok x ∧ e.error = some x :=
  Decode.of_member (fun _ => rfl) h

private theorem error_other (hne : name ≠ "error")
    (h : Item.member d name c = .ok e) : e.error = d.error := by
  unfold Item.member at h
  split at h
  case h_2 => contradiction
  all_goals exact Decode.of_other h fun _ => rfl

private theorem statusIn_of_reads {origin : Tree.Origin} {t : Option Tree} {x : Option UInt16}
    (h : Decode.Reads Decode.word16 origin t x) :
    StatusIn t (x.getD 0) := by
  cases h with
  | absent => exact .absent
  | @given t n h =>
    obtain ⟨hrange, htree⟩ := Decode.of_word16 h
    obtain rfl : t = _ := htree
    exact .given hrange

private theorem errorIn_of_reads {origin : Tree.Origin} {t : Option Tree}
    {x : Option (Option Value)}
    (h : Decode.Reads (Decode.optional Decode.free) origin t x) : ErrorIn t (x.getD none) := by
  cases h with
  | absent => exact .absent
  | @given t y h =>
    obtain ⟨v, htree, rfl⟩ := Decode.exists_of_optional_free h
    obtain rfl : t = _ := htree
    cases v with
    | null => exact .null
    | bool b => exact .given nofun
    | num n => exact .given nofun
    | str s => exact .given nofun
    | arr items => exact .given nofun
    | obj members => exact .given nofun

/-- What is read of an item stands in it. -/
theorem Item.standsIn_of_decode {i : Item} (h : Item.decode c = .ok i) : i.StandsIn c.tree := by
  obtain ⟨d, hd, h⟩ := ok_of_bind h
  obtain rfl := Except.ok.inj h
  obtain ⟨_, -, hstatus⟩ :=
    Decode.record_field Draft.status (fun _ _ _ => status_member)
      (fun _ _ _ _ => status_other) rfl hd
  obtain ⟨_, -, herror⟩ :=
    Decode.record_field Draft.error (fun _ _ _ => error_member) (fun _ _ _ _ => error_other) rfl hd
  exact ⟨Decode.isRecord_of_record hd, statusIn_of_reads hstatus, errorIn_of_reads herror⟩

theorem itemStandsIn_of_decode {m : KeyMap Item}
    (h : Decode.table Item.decode c = .ok m) : ItemStandsIn c.tree m := by
  obtain ⟨_, members, entries, -, htree, hread, rfl⟩ := Decode.forall₂_of_table h
  exact ⟨members, entries, htree, hread.imp fun _ _ h => h.imp_right Item.standsIn_of_decode, rfl⟩

end Items

section Replies
variable {d e : Reply.Draft} {name : String} {c : Cursor}

private theorem errors_member (h : Reply.member d "errors" c = .ok e) :
    ∃ x, Decode.once d.errors Decode.flag c = .ok x ∧ e.errors = some x :=
  Decode.of_member (fun _ => rfl) h

private theorem errors_other (hne : name ≠ "errors")
    (h : Reply.member d name c = .ok e) : e.errors = d.errors := by
  unfold Reply.member at h
  split at h
  case h_1 => contradiction
  all_goals exact Decode.of_other h fun _ => rfl

private theorem items_member (h : Reply.member d "items" c = .ok e) :
    ∃ x, Decode.once d.items (Decode.list (Decode.table Item.decode)) c = .ok x ∧
    e.items = some x :=
  Decode.of_member (fun _ => rfl) h

private theorem items_other (hne : name ≠ "items")
    (h : Reply.member d name c = .ok e) : e.items = d.items := by
  unfold Reply.member at h
  split at h
  case h_2 => contradiction
  all_goals exact Decode.of_other h fun _ => rfl

private theorem errorsIn_of_reads {origin : Tree.Origin} {t : Option Tree} {x : Option Bool}
    (h : Decode.Reads Decode.flag origin t x) :
    ErrorsIn t (x.getD false) := by
  cases h with
  | absent => exact .absent
  | @given t b h =>
    obtain rfl : t = .bool b := Decode.of_flag h
    exact .given

private theorem itemsIn_of_reads {origin : Tree.Origin} {t : Option Tree}
    {x : Option (List (KeyMap Item))}
    (h : Decode.Reads (Decode.list (Decode.table Item.decode)) origin t x) :
    ItemsIn t (x.getD []) := by
  cases h with
  | absent => exact .absent
  | @given t items h =>
    obtain ⟨_, ts, -, htree, hread⟩ := Decode.forall₂_of_list h
    obtain rfl : t = _ := htree
    exact .given (hread.imp fun _ _ => itemStandsIn_of_decode)

/-- What is read of an answer stands in it. -/
theorem Reply.standsIn_of_decode {r : Reply} (h : Reply.decode c = .ok r) : r.StandsIn c.tree := by
  obtain ⟨d, hd, h⟩ := ok_of_bind h
  obtain rfl := Except.ok.inj h
  obtain ⟨_, -, herrors⟩ :=
    Decode.record_field Draft.errors (fun _ _ _ => errors_member)
      (fun _ _ _ _ => errors_other) rfl hd
  obtain ⟨_, -, hitems⟩ :=
    Decode.record_field Draft.items (fun _ _ _ => items_member) (fun _ _ _ _ => items_other) rfl hd
  exact ⟨Decode.isRecord_of_record hd, errorsIn_of_reads herrors, itemsIn_of_reads hitems⟩

/-- Whatever stands as a status in an answer that has been read can be read as one. -/
theorem Reply.StandsIn.statusIn {r : Reply} {t u : Tree} (h : r.StandsIn t) (hu : StatusAt t u) :
    ∃ status, StatusIn (some u) status := by
  obtain ⟨ts, stop, hitems, members, stop', hmem, member, hmember, hstatus⟩ := hu
  have hread := h.items
  rw [hitems] at hread
  cases hread with
  | given hread =>
    obtain ⟨_, _, entries, htree, hentries, -⟩ := Decode.exists_of_forall₂ hread.flip _ hmem
    obtain ⟨rfl, -⟩ := Tree.obj.inj htree
    obtain ⟨e, -, he⟩ := Decode.exists_of_forall₂ hentries.flip member hmember
    exact ⟨e.2.status, hstatus ▸ he.status⟩

end Replies
end RecordSearch.Bulk
