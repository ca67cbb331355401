import RecordSearch.Proofs.Json.Strict

/-! Values as they are kept: each object with its keys in ascending order. -/
namespace RecordSearch.Json

namespace Value

theorem canonicalMembers_iff {members : List (String × Value)} :
    CanonicalMembers members ↔ ∀ e ∈ members, e.2.Canonical := by
  induction members with
  | nil => exact ⟨fun _ => List.forall_mem_nil _, fun _ => trivial⟩
  | cons e rest ih => rw [List.forall_mem_cons, ← ih]; rfl

theorem canonicalItems_iff {items : List Value} :
    CanonicalItems items ↔ ∀ v ∈ items, v.Canonical := by
  induction items with
  | nil => exact ⟨fun _ => List.forall_mem_nil _, fun _ => trivial⟩
  | cons v rest ih => rw [List.forall_mem_cons, ← ih]; rfl

mutual
/-- A value that is kept is in order. -/
theorem ordered_of_canonical {v : Value} (h : v.Canonical) : v.ordered = v := by
  cases v with
  | null => rfl
  | bool b => rfl
  | num n => rfl
  | str s => rfl
  | arr items => rw [ordered, orderedItems_of_canonical h]
  | obj members =>
    obtain ⟨hkeys, hvalues⟩ := h
    rw [ordered, orderedMembers_of_canonical hvalues]
    exact congrArg ofMap (KeyMap.ofList_entries ⟨members, hkeys⟩)

theorem orderedItems_of_canonical {items : List Value}
    (h : CanonicalItems items) : orderedItems items = items := by
  cases items with
  | nil => rfl
  | cons v rest => rw [orderedItems, ordered_of_canonical h.1, orderedItems_of_canonical h.2]

theorem orderedMembers_of_canonical {members : List (String × Value)}
    (h : CanonicalMembers members) : orderedMembers members = members := by
  cases members with
  | nil => rfl
  | cons e rest => rw [orderedMembers, ordered_of_canonical h.1, orderedMembers_of_canonical h.2]
end

end Value

namespace Tree
open Value

section Kept
variable {origin inner : Origin} (henter : origin.enter = .ok inner)
include henter

/-- A list is in order and has room if this is so of its items, one level further in. -/
theorem kept_arr {items : List Value} (h : ∀ v ∈ items, v.Canonical ∧ inner.Holds v.depth) :
    (Value.arr items).Canonical ∧ origin.Holds (Value.arr items).depth :=
  ⟨canonicalItems_iff.2 fun v hv => (h v hv).1,
    (Origin.holds_succ_iff henter _).2 (Origin.holds_itemsDepth fun v hv => (h v hv).2)⟩

theorem kept_obj {members : List (String × Value)} (hkeys : members.Pairwise (·.1 < ·.1))
    (h : ∀ e ∈ members, e.2.Canonical ∧ inner.Holds e.2.depth) :
    (Value.obj members).Canonical ∧ origin.Holds (Value.obj members).depth :=
  ⟨⟨hkeys, canonicalMembers_iff.2 fun e he => (h e he).1⟩,
    (Origin.holds_succ_iff henter _).2 (Origin.holds_membersDepth fun e he => (h e he).2)⟩

end Kept

theorem of_value_obj {ts : List (Tree × Tree)} {stop : Option Fault} {origin : Origin} {v : Value}
    (h : value origin (.obj ts stop) = .ok v) :
    ∃ inner m, origin.enter = .ok inner ∧ memberValues inner KeyMap.empty ts = .ok m ∧
    v = .ofMap m := by
  obtain ⟨inner, hinner, h⟩ := ok_of_bind h
  obtain ⟨m, hm, h⟩ := ok_of_bind h
  obtain ⟨_, -, h⟩ := ok_of_bind h
  exact ⟨inner, m, hinner, hm, (Except.ok.inj h).symm⟩

mutual
/-- Whatever is read as a free value is kept in order, and there was room for it. -/
theorem kept_of_value {t : Tree} {origin : Origin} {v : Value} (h : t.value origin = .ok v) :
    v.Canonical ∧ origin.Holds v.depth := by
  cases t with
  | cut begun used skipped => exact nomatch h
  | null => obtain ⟨⟩ := h; exact ⟨trivial, origin.holds_zero⟩
  | bool b => obtain ⟨⟩ := h; exact ⟨trivial, origin.holds_zero⟩
  | num n =>
    cases n with
    | none => exact nomatch h
    | some n => obtain ⟨⟩ := h; exact ⟨trivial, origin.holds_zero⟩
  | str s =>
    cases s with
    | none => exact nomatch h
    | some s => obtain ⟨⟩ := h; exact ⟨trivial, origin.holds_zero⟩
  | arr items stop =>
    obtain ⟨inner, hinner, h⟩ := ok_of_bind h
    obtain ⟨vs, hvs, h⟩ := ok_of_bind h
    obtain ⟨_, -, h⟩ := ok_of_bind h
    obtain rfl := Except.ok.inj h
    exact kept_arr hinner (kept_of_itemValues hvs)
  | obj members stop =>
    obtain ⟨inner, m, hinner, hm, rfl⟩ := of_value_obj h
    exact kept_obj hinner m.ascending (kept_of_memberValues (List.forall_mem_nil _) hm)

theorem kept_of_itemValues {ts : List Tree} {origin : Origin} {vs : List Value}
    (h : itemValues origin ts = .ok vs) :
    ∀ v ∈ vs, v.Canonical ∧ origin.Holds v.depth := by
  cases ts with
  | nil =>
    obtain rfl := Except.ok.inj h
    exact List.forall_mem_nil _
  | cons t ts =>
    obtain ⟨v, hv, h⟩ := ok_of_bind h
    obtain ⟨vs, hvs, h⟩ := ok_of_bind h
    obtain rfl := Except.ok.inj h
    exact List.forall_mem_cons.2 ⟨kept_of_value hv, kept_of_itemValues hvs⟩

theorem kept_of_memberValues {ts : List (Tree × Tree)} {origin : Origin} {m n : KeyMap Value}
    (hm : ∀ e ∈ m.entries, e.2.Canonical ∧ origin.Holds e.2.depth)
    (h : memberValues origin m ts = .ok n) :
    ∀ e ∈ n.entries, e.2.Canonical ∧ origin.Holds e.2.depth := by
  cases ts with
  | nil => exact Except.ok.inj h ▸ hm
  | cons t ts =>
    obtain ⟨k, -, h⟩ := ok_of_bind h
    obtain ⟨v, hv, h⟩ := ok_of_bind h
    refine kept_of_memberValues (fun e he => ?_) h
    rcases mem_insertEntry he with rfl | he
    · exact kept_of_value hv
    · exact hm e he
end

theorem canonical_of_value {t : Tree} {origin : Origin} {v : Value}
    (h : t.value origin = .ok v) : v.Canonical :=
  (kept_of_value h).1

/-- A value that holds no others is read from no tree but its own. -/
theorem eq_ofValue_of_value {t : Tree} {origin : Origin} {v : Value} (hv : v.depth = 0)
    (h : t.value origin = .ok v) : t = .ofValue v := by
  obtain ⟨w, rfl⟩ := exists_ofValue h
  rw [value_ofValue] at h
  split at h
  · obtain rfl := Except.ok.inj h
    cases w with
    | arr items => exact nomatch hv
    | obj members => exact nomatch hv
    | null => rfl
    | bool b => rfl
    | num n => rfl
    | str s => rfl
  · exact nomatch h

/-- Outside texts a value that is kept is read from its own tree, however deep it nests. -/
theorem value_ofValue_of_canonical {v : Value} (h : v.Canonical) :
    (ofValue v).value .value = .ok v := by
  rw [value_ofValue, ordered_of_canonical h]
  exact if_pos trivial

end Tree
end RecordSearch.Json
