import Mathlib.Data.List.Forall2
import RecordSearch.Proofs.Decimal.Finite
import RecordSearch.Proofs.Json.Canonical
import RecordSearch.Proofs.Json.Members

/-! What decoders make of values, part by part. -/
namespace RecordSearch.Json

namespace Tree

def member? (name : String) : List (Tree × Tree) → Option Tree
  | [] => none
  | (k, t) :: rest => if k.key.toOption = some name then some t else member? name rest

theorem member?_ofMembers (name : String) (members : List (String × Value)) :
    member? name (ofMembers members) = (lookup name members).map ofValue := by
  induction members with
  | nil => rfl
  | cons e rest ih =>
    rw [ofMembers, member?, lookup, ih]
    simp only [key, Except.toOption, Option.some.injEq]
    split <;> rfl

/-- What stands under a name: in an object the first member with it, in a list the item in its place
among the names. -/
def field? (names : List String) (name : String) : Tree → Option Tree
  | .obj members _ => member? name members
  | .arr items _ => lookup name (names.zip items)
  | _ => none

inductive IsRecord : Tree → Prop
  | obj (members : List (Tree × Tree)) : IsRecord (.obj members none)
  | arr (items : List Tree) : IsRecord (.arr items none)

end Tree

namespace Decode
variable {α : Type} {p : Decoder α} {origin inner : Tree.Origin}

section Scalars

theorem natural_num {bound n : Nat} {x : Number} (h : x.toNat? bound = some n)
    (origin : Tree.Origin) :
    natural bound ⟨.num (some x), origin⟩ = .ok n := by
  unfold natural
  simp only [h]

theorem natural_nat {bound : Nat} {n : UInt32} (h : n.toNat < bound) (origin : Tree.Origin) :
    natural bound ⟨.ofValue (.nat n), origin⟩ = .ok n.toNat := by
  have hn : Number.toNat? bound (.ofUInt32 n) = some n.toNat := by
    simp [Number.toNat?, Number.ofUInt32, h]
  exact natural_num hn origin

theorem word16_nat (n : UInt16) (origin : Tree.Origin) :
    word16 ⟨.ofValue (.nat n.toUInt32), origin⟩ = .ok n := by
  have h : n.toUInt32.toNat < UInt16.size := by
    rw [UInt16.toNat_toUInt32]
    exact n.toNat_lt
  rw [word16, natural_nat h, UInt16.toNat_toUInt32]
  exact congrArg Except.ok UInt16.ofNat_toNat

theorem word32_nat (n : UInt32) (origin : Tree.Origin) :
    word32 ⟨.ofValue (.nat n), origin⟩ = .ok n := by
  rw [word32, natural_nat n.toNat_lt]
  exact congrArg Except.ok UInt32.ofNat_toNat

theorem word64_ofUInt64 (n : UInt64) (origin : Tree.Origin) :
    word64 ⟨.num (some (.ofUInt64 n)), origin⟩ = .ok n := by
  rw [word64, natural_num (Number.toNat?_ofUInt64 n)]
  exact congrArg Except.ok UInt64.ofNat_toNat

theorem optional_word64 (n : UInt64) (origin : Tree.Origin) :
    optional word64 ⟨.ofValue (.num (.ofUInt64 n)), origin⟩ = .ok (some n) := by
  have hread := word64_ofUInt64 n origin
  change some <$> word64 _ = _
  rw [Tree.ofValue, hread]
  rfl

theorem of_flag {c : Cursor} {b : Bool} (h : flag c = .ok b) : c.tree = .bool b := by
  unfold flag at h
  split at h
  · next htree => exact htree.trans (congrArg _ (Except.ok.inj h))
  · exact nomatch h

private theorem natural_num_none {bound : Nat} {x : Number} (h : x.toNat? bound = none)
    (origin : Tree.Origin) :
    natural bound ⟨.num (some x), origin⟩ = .error .shape := by
  unfold natural
  simp only [h]

private theorem num_of_natural {bound n : Nat} {c : Cursor} (h : natural bound c = .ok n) :
    ∃ x, c.tree = .num (some x) ∧ x.toNat? bound = some n := by
  obtain ⟨tree, origin⟩ := c
  cases tree with
  | num x =>
    cases x with
    | none => exact nomatch h
    | some x =>
      cases hx : x.toNat? bound with
      | none => exact nomatch (natural_num_none hx origin).symm.trans h
      | some k =>
        exact ⟨x, rfl,
          hx.trans (congrArg some (Except.ok.inj ((natural_num hx origin).symm.trans h)))⟩
  | cut begun used skipped => exact nomatch h
  | null => exact nomatch h
  | bool b => exact nomatch h
  | str s => exact nomatch h
  | arr items stop => exact nomatch h
  | obj members stop => exact nomatch h

/-- A number that has been read as a natural one is an integer in writing, and below the bound. -/
theorem of_natural {bound n : Nat} {c : Cursor} (h : natural bound c = .ok n) :
    n < bound ∧ ∃ hrange, c.tree = .num (some (.int n hrange)) := by
  obtain ⟨x, htree, hx⟩ := num_of_natural h
  cases x with
  | double x hfinite => exact nomatch hx
  | int i hrange =>
    rw [Number.toNat?] at hx
    split at hx
    · next hbound =>
      obtain ⟨k, rfl⟩ := Int.eq_ofNat_of_zero_le hbound.1
      obtain rfl : k = n := Option.some.inj hx
      exact ⟨Int.ofNat_lt.1 hbound.2, hrange, htree⟩
    · contradiction

theorem of_word16 {c : Cursor} {n : UInt16} (h : word16 c = .ok n) :
    ∃ hrange, c.tree = .num (some (.int n.toNat hrange)) := by
  obtain ⟨k, hk, rfl⟩ := ok_of_map h
  obtain ⟨hlt, htree⟩ := of_natural hk
  rw [UInt16.toNat_ofNat_of_lt' hlt]
  exact htree

/-- A finite double is read back, and all that is read is finite. -/
theorem double_double {x : Float} (h : x.isFinite = true) (origin : Tree.Origin) :
    double ⟨.ofValue (.double x), origin⟩ = .ok x := by
  rw [Value.double, Number.ofFloat?, dif_pos h]
  rfl

theorem optional_double {x : Float} (h : x.isFinite = true) (origin : Tree.Origin) :
    optional double ⟨.ofValue (.double x), origin⟩ = .ok (some x) := by
  rw [Value.double, Number.ofFloat?, dif_pos h]
  rfl

theorem isFinite_of_double {c : Cursor} {x : Float} (h : double c = .ok x) : x.isFinite = true := by
  unfold double at h
  split at h
  · exact Except.ok.inj h ▸ Number.isFinite_toFloat _
  · exact nomatch h

end Scalars

/-- What may be null and is there has been read as what it is. -/
theorem of_optional {c : Cursor} {x : α} (h : optional p c = .ok (some x)) : p c = .ok x := by
  unfold optional at h
  split at h
  · exact nomatch h
  · obtain ⟨y, hy, he⟩ := ok_of_map h
    exact Option.some.inj he ▸ hy

section Free

/-- A free value that may be null, read where there is room for it. -/
theorem optional_free_holds (v : Value) (origin : Tree.Origin) :
    optional free ⟨.ofValue v, origin⟩ =
    if origin.Holds v.depth then .ok ((some v.ordered).filter fun e => !e.isNull)
    else .error .malformed := by
  have hfree : free ⟨.ofValue v, origin⟩ =
      if origin.Holds v.depth then .ok v.ordered else .error .malformed :=
    Tree.value_ofValue v origin
  cases v with
  | null => exact (if_pos origin.holds_zero).symm
  | bool b => exact (if_pos origin.holds_zero).symm
  | num x => exact (if_pos origin.holds_zero).symm
  | str s => exact (if_pos origin.holds_zero).symm
  | arr items =>
    change (some <$> free _) = _
    rw [hfree]
    split <;> rfl
  | obj members =>
    change (some <$> free _) = _
    rw [hfree]
    split <;> rfl

theorem optional_free (v : Value) (n : Nat) : optional free ⟨.ofValue v, .text n⟩ =
    if v.depth ≤ n then .ok ((some v.ordered).filter fun e => !e.isNull) else .error .malformed :=
  optional_free_holds v (.text n)

theorem optional_free_ofValue {v : Value} (h : v.Canonical) :
    optional free ⟨.ofValue v, .value⟩ = .ok ((some v).filter fun e => !e.isNull) := by
  rw [optional_free_holds, Value.ordered_of_canonical h]
  exact if_pos trivial

theorem optional_free_some {v : Value} (hc : v.Canonical) (hnull : v ≠ .null)
    (hroom : origin.Holds v.depth) :
    optional free ⟨.ofValue v, origin⟩ = .ok (some v) := by
  rw [optional_free_holds, if_pos hroom, Value.ordered_of_canonical hc]
  cases v with
  | null => contradiction
  | bool b => rfl
  | num n => rfl
  | str s => rfl
  | arr items => rfl
  | obj members => rfl

theorem free_ofValue {v : Value} (h : v.Canonical) : free ⟨.ofValue v, .value⟩ = .ok v :=
  Tree.value_ofValue_of_canonical h

/-- A value that is in order is read as it is where there is room for it. -/
theorem free_of_kept {v : Value} (h : v.Canonical ∧ origin.Holds v.depth) :
    free ⟨.ofValue v, origin⟩ = .ok v := by
  have hfree : free ⟨.ofValue v, origin⟩ =
      if origin.Holds v.depth then .ok v.ordered else .error .malformed :=
    Tree.value_ofValue v origin
  rw [hfree, if_pos h.2, Value.ordered_of_canonical h.1]

/-- A free value that may be null is no null where it is there. -/
theorem of_optional_free {c : Cursor} {v : Value}
    (h : optional free c = .ok (some v)) : v.Canonical ∧ v ≠ .null := by
  have hread := of_optional h
  refine ⟨Tree.canonical_of_value hread, ?_⟩
  rintro rfl
  obtain ⟨tree, origin⟩ := c
  obtain rfl : tree = .null := Tree.eq_ofValue_of_value rfl hread
  exact nomatch h

/-- A free value that may be null is read from the tree of some value. -/
theorem exists_of_optional_free {c : Cursor} {x : Option Value} (h : optional free c = .ok x) :
    ∃ v, c.tree = .ofValue v ∧ x = (some v.ordered).filter fun e => !e.isNull := by
  obtain ⟨tree, origin⟩ := c
  have htree : ∃ v, tree = .ofValue v := by
    unfold optional at h
    split at h
    · next hnull => exact ⟨.null, hnull⟩
    · obtain ⟨w, hw, -⟩ := ok_of_map h
      exact Tree.exists_ofValue hw
  obtain ⟨v, rfl⟩ := htree
  rw [optional_free_holds] at h
  split at h
  · exact ⟨v, rfl, (Except.ok.inj h).symm⟩
  · exact nomatch h

theorem holds_of_optional_free {c : Cursor} {v : Value}
    (h : optional free c = .ok (some v)) : c.origin.Holds v.depth :=
  (Tree.kept_of_value (of_optional h)).2

end Free

section Containers

theorem items_map {xs : List α} {encode : α → Value}
    (h : ∀ x ∈ xs, p ⟨.ofValue (encode x), origin⟩ = .ok x) :
    items p origin (Tree.ofItems (xs.map encode)) = .ok xs := by
  induction xs with
  | nil => rfl
  | cons x xs ih =>
    rw [List.forall_mem_cons] at h
    rw [List.map_cons, Tree.ofItems, items]
    simp only [bind, Except.bind, h.1, ih h.2]

/-- A list is read back if each of its items is. -/
theorem list_map (henter : origin.enter = .ok inner) {xs : List α} {encode : α → Value}
    (h : ∀ x ∈ xs, p ⟨.ofValue (encode x), inner⟩ = .ok x) :
    list p ⟨.ofValue (.arr (xs.map encode)), origin⟩ = .ok xs := by
  rw [Tree.ofValue, list]
  simp only [henter, bind, Except.bind, items_map h]
  rfl

private theorem of_items {ts : List Tree} {xs : List α} (h : items p origin ts = .ok xs) :
    List.Forall₂ (fun t x => p ⟨t, origin⟩ = .ok x) ts xs := by
  induction ts generalizing xs with
  | nil =>
    obtain rfl := Except.ok.inj h
    exact .nil
  | cons t ts ih =>
    obtain ⟨x, hx, h⟩ := ok_of_bind h
    obtain ⟨xs, hxs, h⟩ := ok_of_bind h
    obtain rfl := Except.ok.inj h
    exact .cons hx (ih hxs)

/-- A list is read from a whole one, item by item and one level further in. -/
theorem forall₂_of_list {c : Cursor} {xs : List α} (h : list p c = .ok xs) :
    ∃ inner ts, c.origin.enter = .ok inner ∧ c.tree = .arr ts none ∧
    List.Forall₂ (fun t x => p ⟨t, inner⟩ = .ok x) ts xs := by
  unfold list at h
  split at h
  · next ts stop htree =>
    obtain ⟨inner, hinner, h⟩ := ok_of_bind h
    obtain ⟨ys, hys, h⟩ := ok_of_bind h
    obtain ⟨_, hstop, h⟩ := ok_of_bind h
    obtain rfl := Except.ok.inj h
    obtain rfl := Tree.eq_none_of_stopped hstop
    exact ⟨inner, ts, hinner, htree, of_items hys⟩
  · exact nomatch h

theorem exists_of_forall₂ {β γ : Type} {R : β → γ → Prop} {bs : List β} {cs : List γ}
    (h : List.Forall₂ R bs cs) :
    ∀ c ∈ cs, ∃ b, R b c := by
  induction h with
  | nil => exact List.forall_mem_nil _
  | cons hbc _ ih => exact List.forall_mem_cons.2 ⟨⟨_, hbc⟩, ih⟩

/-- A list holds nothing that has not been read one level further in. -/
theorem of_list {c : Cursor} {xs : List α} (h : list p c = .ok xs) :
    ∀ x ∈ xs, ∃ inner t, c.origin.enter = .ok inner ∧ p ⟨t, inner⟩ = .ok x := by
  obtain ⟨inner, ts, hinner, -, hread⟩ := forall₂_of_list h
  intro x hx
  obtain ⟨t, ht⟩ := exists_of_forall₂ hread x hx
  exact ⟨inner, t, hinner, ht⟩

theorem list_free {vs : List Value} (h : (Value.arr vs).Canonical) :
    list free ⟨.ofValue (.arr vs), .value⟩ = .ok vs := by
  have hitems : ∀ v ∈ vs, free ⟨.ofValue (id v), .value⟩ = .ok v :=
    fun v hv => free_ofValue (Value.canonicalItems_iff.1 h v hv)
  have henter : Tree.Origin.value.enter = .ok .value := rfl
  rw [← list_map henter hitems, List.map_id]

private theorem entries_map {members : List (String × Value)} {f : Value → α}
    (h : ∀ e ∈ members, p ⟨.ofValue e.2, origin⟩ = .ok (f e.2)) :
    entries p origin (Tree.ofMembers members) = .ok (members.map fun e => (e.1, f e.2)) := by
  induction members with
  | nil => rfl
  | cons e members ih =>
    rw [List.forall_mem_cons] at h
    rw [Tree.ofMembers, entries, Tree.key]
    simp only [bind, Except.bind, h.1, ih h.2]
    rfl

/-- A map is read entry by entry. -/
theorem table_ofMap (henter : origin.enter = .ok inner) {m : KeyMap Value} {f : Value → α}
    (h : ∀ e ∈ m.entries, p ⟨.ofValue e.2, inner⟩ = .ok (f e.2)) :
    table p ⟨.ofValue (.ofMap m), origin⟩ = .ok (m.map f) := by
  rw [table, Value.ofMap, Tree.ofValue, entryList]
  simp only [henter, bind, Except.bind, entries_map h]
  exact congrArg Except.ok (KeyMap.ofList_entries (m.map f))

private theorem of_entries {ts : List (Tree × Tree)} {es : List (String × α)}
    (h : entries p origin ts = .ok es) :
    List.Forall₂ (fun t e => t.1 = .str (some e.1) ∧ p ⟨t.2, origin⟩ = .ok e.2) ts es := by
  induction ts generalizing es with
  | nil =>
    obtain rfl := Except.ok.inj h
    exact .nil
  | cons t ts ih =>
    obtain ⟨k, hk, h⟩ := ok_of_bind h
    obtain ⟨x, hx, h⟩ := ok_of_bind h
    obtain ⟨xs, hxs, h⟩ := ok_of_bind h
    obtain rfl := Except.ok.inj h
    exact .cons ⟨Tree.eq_str_of_key hk, hx⟩ (ih hxs)

/-- A map is read from a whole object, entry by entry and one level further in. -/
theorem forall₂_of_table {c : Cursor} {m : KeyMap α} (h : table p c = .ok m) :
    ∃ inner ts es, c.origin.enter = .ok inner ∧ c.tree = .obj ts none ∧
      List.Forall₂ (fun t e => t.1 = .str (some e.1) ∧ p ⟨t.2, inner⟩ = .ok e.2) ts es ∧
      KeyMap.ofList es = m := by
  obtain ⟨es, hes, rfl⟩ := ok_of_map h
  unfold entryList at hes
  split at hes
  · next ts stop htree =>
    obtain ⟨inner, hinner, hes⟩ := ok_of_bind hes
    obtain ⟨xs, hxs, hes⟩ := ok_of_bind hes
    obtain ⟨_, hstop, hes⟩ := ok_of_bind hes
    obtain rfl := Except.ok.inj hes
    obtain rfl := Tree.eq_none_of_stopped hstop
    exact ⟨inner, ts, _, hinner, htree, of_entries hxs, rfl⟩
  · exact nomatch hes

/-- A map holds nothing that has not been read. -/
theorem of_table {c : Cursor} {m : KeyMap α} (h : table p c = .ok m) :
    ∀ e ∈ m.entries, ∃ c, p c = .ok e.2 := by
  obtain ⟨inner, ts, es, -, -, hread, rfl⟩ := forall₂_of_table h
  intro e he
  obtain ⟨t, -, ht⟩ := exists_of_forall₂ hread e (KeyMap.mem_of_mem_ofList he)
  exact ⟨_, ht⟩

theorem obj_of_table {v : Value} {m : KeyMap α} (h : table p ⟨.ofValue v, origin⟩ = .ok m) :
    ∃ members, v = .obj members := by
  cases v with
  | obj members => exact ⟨members, rfl⟩
  | null => exact nomatch h
  | bool b => exact nomatch h
  | num n => exact nomatch h
  | str s => exact nomatch h
  | arr items => exact nomatch h

end Containers

inductive Reads (p : Decoder α) (origin : Tree.Origin) : Option Tree → Option α → Prop
  | absent : Reads p origin none none
  | given {t : Tree} {x : α} (h : p ⟨t, origin⟩ = .ok x) : Reads p origin (some t) (some x)

theorem Reads.of_none {x : Option α} (h : Reads p origin none x) : x = none := by
  cases h with
  | absent => rfl

theorem Reads.of_some {t : Tree} {x : Option α} (h : Reads p origin (some t) x) :
    ∃ y, p ⟨t, origin⟩ = .ok y ∧ x = some y := by
  cases h with
  | given h => exact ⟨_, h, rfl⟩

section Records

variable {σ : Type} {step : σ → String → Decoder σ} {start s t : σ} {P : σ → Prop}

theorem of_once {before : Option α} {c : Cursor} {x : α} (h : once before p c = .ok x) :
    before = none ∧ p c = .ok x := by
  cases before with
  | none => exact ⟨rfl, h⟩
  | some y => exact nomatch h

/-- Outside texts a record is read from an object member by member. -/
theorem record_ofValue (names : List String) (required : Nat) (step : σ → String → Decoder σ)
    (start : σ) (members : List (String × Value)) :
    record names required step start ⟨.ofValue (.obj members), .value⟩ =
      memberwise step .value start (Tree.ofMembers members) := by
  rw [Tree.ofValue]
  simp only [record, object, Tree.Origin.enter, bind, Except.bind]
  cases memberwise step .value start (Tree.ofMembers members) with
  | error f => rfl
  | ok s => rfl

/-- A member that is read once is there afterwards. -/
theorem of_member {before : Option α} {c : Cursor} {set : α → σ} {get : σ → Option α}
    (hget : ∀ x, get (set x) = some x) (h : (do return set (← once before p c)) = Except.ok t) :
    ∃ x, once before p c = .ok x ∧ get t = some x := by
  obtain ⟨x, hx, h⟩ := ok_of_bind h
  obtain rfl := Except.ok.inj h
  exact ⟨x, hx, hget x⟩

/-- What is read of another member makes no difference to it. -/
theorem of_other {β : Type} {x : Except Fault β} {set : β → σ} {get : σ → Option α}
    (h : (do return set (← x)) = Except.ok t)
    (hget : ∀ y, get (set y) = get s) : get t = get s := by
  obtain ⟨y, -, h⟩ := ok_of_bind h
  obtain rfl := Except.ok.inj h
  exact hget y

theorem isRecord_of_record {names : List String} {required : Nat} {c : Cursor}
    (h : record names required step start c = .ok t) :
    c.tree.IsRecord := by
  unfold record at h
  split at h
  · next ts stop htree =>
    obtain ⟨_, -, h⟩ := ok_of_bind h
    obtain ⟨_, -, h⟩ := ok_of_bind h
    obtain ⟨_, hstop, -⟩ := ok_of_bind h
    obtain rfl := Tree.eq_none_of_stopped hstop
    exact htree ▸ .arr ts
  · unfold object at h
    split at h
    · next ts stop htree =>
      obtain ⟨_, -, h⟩ := ok_of_bind h
      obtain ⟨_, -, h⟩ := ok_of_bind h
      obtain ⟨_, hstop, -⟩ := ok_of_bind h
      obtain rfl := Tree.eq_none_of_stopped hstop
      exact htree ▸ .obj ts
    · exact nomatch h

section Invariant

private theorem memberwise_preserves
    (hstep : ∀ s name tree t, P s → step s name ⟨tree, origin⟩ = .ok t → P t)
    {ts : List (Tree × Tree)} (hs : P s) (h : memberwise step origin s ts = .ok t) : P t := by
  induction ts generalizing s with
  | nil => exact Except.ok.inj h ▸ hs
  | cons m ts ih =>
    obtain ⟨k, -, h⟩ := ok_of_bind h
    obtain ⟨u, hu, h⟩ := ok_of_bind h
    exact ih (hstep s k _ u hs hu) h

private theorem positional_preserves
    (hstep : ∀ s name tree t, P s → step s name ⟨tree, origin⟩ = .ok t → P t) {names : List String}
    {ts : List Tree} (hs : P s) (h : positional step origin s names ts = .ok t) : P t := by
  induction ts generalizing s names with
  | nil =>
    cases names <;> exact Except.ok.inj h ▸ hs
  | cons m ts ih =>
    cases names with
    | nil => exact nomatch h
    | cons name names =>
      obtain ⟨u, hu, h⟩ := ok_of_bind h
      exact ih (hstep s name _ u hs hu) h

section Inside

variable {c : Cursor}
  (hstep : ∀ inner, c.origin.enter = .ok inner →
    ∀ s name tree t, P s → step s name ⟨tree, inner⟩ = .ok t → P t)
include hstep

/-- What every member keeps up one level further in holds of an object that has been read. -/
theorem object_preserves_inside (hs : P start) (h : object step start c = .ok t) : P t := by
  unfold object at h
  split at h
  · obtain ⟨inner, hinner, h⟩ := ok_of_bind h
    obtain ⟨u, hu, h⟩ := ok_of_bind h
    obtain ⟨_, -, h⟩ := ok_of_bind h
    exact Except.ok.inj h ▸ memberwise_preserves (hstep inner hinner) hs hu
  · exact nomatch h

/-- The same of a record, read as an object or as a list. -/
theorem record_preserves_inside {names : List String} {required : Nat} (hs : P start)
    (h : record names required step start c = .ok t) :
    P t := by
  unfold record at h
  split at h
  · obtain ⟨inner, hinner, h⟩ := ok_of_bind h
    obtain ⟨u, hu, h⟩ := ok_of_bind h
    obtain ⟨_, -, h⟩ := ok_of_bind h
    split at h
    · exact nomatch h
    · exact Except.ok.inj h ▸ positional_preserves (hstep inner hinner) hs hu
  · exact object_preserves_inside hstep hs h

end Inside

/-- What every member keeps up holds of a record that has been read, as an object or as a list. -/
theorem record_preserves (hstep : ∀ s name c t, P s → step s name c = .ok t → P t)
    {names : List String} {required : Nat} {c : Cursor} (hs : P start)
    (h : record names required step start c = .ok t) : P t :=
  record_preserves_inside (fun inner _ s name tree => hstep s name ⟨tree, inner⟩) hs h

end Invariant

section Member

variable {name : String} {get : σ → Option α}
  (hname : ∀ s c t, step s name c = .ok t → ∃ x, once (get s) p c = .ok x ∧ get t = some x)
  (hother : ∀ s other c t, other ≠ name → step s other c = .ok t → get t = get s)
include hname hother

/-- Once a member has been read it stays: a second one of its name would be a fault. -/
private theorem step_read {x : α} {other : String} {c : Cursor} (hs : get s = some x)
    (h : step s other c = .ok t) : get t = some x := by
  by_cases hk : other = name
  · obtain ⟨y, hy, -⟩ := hname s c t (hk ▸ h)
    exact absurd (hs.symm.trans (of_once hy).1) (Option.some_ne_none x)
  · exact (hother s other c t hk h).trans hs

private theorem memberwise_field {ts : List (Tree × Tree)} (hs : get s = none)
    (h : memberwise step origin s ts = .ok t) :
    Reads p origin (Tree.member? name ts) (get t) := by
  induction ts generalizing s with
  | nil =>
    obtain rfl := Except.ok.inj h
    exact hs ▸ .absent
  | cons m ts ih =>
    obtain ⟨key, tree⟩ := m
    obtain ⟨k, hkey, hstep⟩ := ok_of_bind h
    obtain ⟨u, hu, hrest⟩ := ok_of_bind hstep
    rw [Tree.member?, hkey]
    by_cases hk : k = name
    · obtain ⟨x, hx, hget⟩ := hname s _ u (hk ▸ hu)
      have hread : get t = some x :=
        memberwise_preserves (P := fun s => get s = some x)
          (fun _ _ _ _ => step_read hname hother) hget hrest
      rw [Except.toOption, if_pos (congrArg some hk), hread]
      exact .given (of_once hx).2
    · rw [Except.toOption, if_neg fun he => hk (Option.some.inj he)]
      exact ih ((hother s k _ u hk hu).trans hs) hrest

private theorem positional_field {names : List String} {ts : List Tree} (hs : get s = none)
    (h : positional step origin s names ts = .ok t) :
    Reads p origin (lookup name (names.zip ts)) (get t) := by
  induction ts generalizing s names with
  | nil =>
    rw [List.zip_nil_right]
    cases names with
    | nil => exact Except.ok.inj h ▸ hs ▸ .absent
    | cons n names => exact Except.ok.inj h ▸ hs ▸ .absent
  | cons tree ts ih =>
    cases names with
    | nil => exact nomatch h
    | cons n names =>
      obtain ⟨u, hu, hrest⟩ := ok_of_bind h
      rw [List.zip_cons_cons, lookup]
      by_cases hk : n = name
      · obtain ⟨x, hx, hget⟩ := hname s _ u (hk ▸ hu)
        have hread : get t = some x :=
          positional_preserves (P := fun s => get s = some x)
            (fun _ _ _ _ => step_read hname hother) hget hrest
        rw [if_pos hk, hread]
        exact .given (of_once hx).2
      · rw [if_neg hk]
        exact ih ((hother s n _ u hk hu).trans hs) hrest

variable (get) in
/-- A member of a record is read from what stands under its name. -/
theorem record_field {names : List String} {required : Nat} {c : Cursor} (hs : get start = none)
    (h : record names required step start c = .ok t) :
    ∃ inner, c.origin.enter = .ok inner ∧ Reads p inner (c.tree.field? names name) (get t) := by
  unfold record at h
  split at h
  · next ts stop htree =>
    obtain ⟨inner, hinner, h⟩ := ok_of_bind h
    obtain ⟨u, hu, h⟩ := ok_of_bind h
    obtain ⟨_, -, h⟩ := ok_of_bind h
    split at h
    · exact nomatch h
    · obtain rfl := Except.ok.inj h
      rw [htree]
      exact ⟨inner, hinner, positional_field hname hother hs hu⟩
  · unfold object at h
    split at h
    · next ts stop htree =>
      obtain ⟨inner, hinner, h⟩ := ok_of_bind h
      obtain ⟨u, hu, h⟩ := ok_of_bind h
      obtain ⟨_, -, h⟩ := ok_of_bind h
      obtain rfl := Except.ok.inj h
      rw [htree]
      exact ⟨inner, hinner, memberwise_field hname hother hs hu⟩
    · exact nomatch h

/-- A member of a record is read from the value that stands under its name. -/
theorem memberwise_member {members : List (String × Value)} (hs : get s = none)
    (h : memberwise step origin s (Tree.ofMembers members) = .ok t) :
    match lookup name members with
    | none => get t = none
    | some v => ∃ x, p ⟨.ofValue v, origin⟩ = .ok x ∧ get t = some x := by
  have hreads := memberwise_field hname hother hs h
  rw [Tree.member?_ofMembers] at hreads
  cases hv : lookup name members with
  | none =>
    rw [hv] at hreads
    exact hreads.of_none
  | some v =>
    rw [hv] at hreads
    exact hreads.of_some

end Member

/-- Members of different names are all read if each of them can be read as long as none of its name
has been. -/
theorem memberwise_ready {ready : σ → String → Prop} {members : List (String × Value)}
    (hd : Distinct members)
    (hstep : ∀ e ∈ members, ∀ s, ready s e.1 →
      ∃ t, step s e.1 ⟨.ofValue e.2, origin⟩ = .ok t ∧
      ∀ other, other ≠ e.1 → ready s other → ready t other)
    (hs : ∀ e ∈ members, ready s e.1) :
    ∃ t, memberwise step origin s (Tree.ofMembers members) = .ok t := by
  induction members generalizing s with
  | nil => exact ⟨s, rfl⟩
  | cons e members ih =>
    obtain ⟨hfirst, hrest⟩ := List.forall_mem_cons.1 hs
    obtain ⟨t, ht, hready⟩ := hstep e List.mem_cons_self s hfirst
    obtain ⟨u, hu⟩ := ih hd.of_cons (fun d hd => hstep d (List.mem_cons_of_mem _ hd)) fun d hm =>
      hready d.1 (List.rel_of_pairwise_cons hd hm).symm (hrest d hm)
    exact ⟨u, (memberwise_cons ht members).trans hu⟩

end Records
end Decode
end RecordSearch.Json
