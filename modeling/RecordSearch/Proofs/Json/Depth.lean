import RecordSearch.Proofs.KeyMap
import RecordSearch.Json.Decode

/-! How deep values nest, and what is read of them as free values. -/
namespace RecordSearch.Json

namespace Value

mutual
def depth : Value → Nat
  | .arr items => itemsDepth items + 1
  | .obj members => membersDepth members + 1
  | _ => 0

def itemsDepth : List Value → Nat
  | [] => 0
  | v :: rest => max v.depth (itemsDepth rest)

def membersDepth : List (String × Value) → Nat
  | [] => 0
  | (_, v) :: rest => max v.depth (membersDepth rest)
end

mutual
/-- A value as it is kept: members in ascending order, and of members with one key the last. -/
def ordered : Value → Value
  | .arr items => .arr (orderedItems items)
  | .obj members => .ofMap (KeyMap.ofList (orderedMembers members))
  | v => v

def orderedItems : List Value → List Value
  | [] => []
  | v :: rest => v.ordered :: orderedItems rest

def orderedMembers : List (String × Value) → List (String × Value)
  | [] => []
  | (k, v) :: rest => (k, v.ordered) :: orderedMembers rest
end

theorem orderedMembers_eq_map (members : List (String × Value)) :
    orderedMembers members = members.map fun e => (e.1, e.2.ordered) := by
  induction members with
  | nil => rfl
  | cons e rest ih => rw [orderedMembers, ih]; rfl

theorem lookup_orderedMembers (key : String) (members : List (String × Value)) :
    lookup key (orderedMembers members) = (lookup key members).map ordered := by
  induction members with
  | nil => rfl
  | cons e rest ih =>
    obtain ⟨k, v⟩ := e
    rw [orderedMembers, lookup, lookup, ih]
    split <;> rfl

/-- The members of an object are found as they were written, whatever their order. -/
theorem get?_ordered {members : List (String × Value)} (h : Distinct members) (key : String) :
    (ordered (.obj members)).get? key = (lookup key members).map ordered := by
  have hd : Distinct (orderedMembers members) :=
    orderedMembers_eq_map members ▸ h.map_values fun _ => rfl
  rw [ordered, ← lookup_orderedMembers]
  exact KeyMap.get?_ofList hd key

theorem membersDepth_le {n : Nat} {members : List (String × Value)}
    (h : ∀ e ∈ members, e.2.depth ≤ n) : membersDepth members ≤ n := by
  induction members with
  | nil => exact Nat.zero_le n
  | cons m rest ih =>
    exact Nat.max_le.2 ⟨h m List.mem_cons_self, ih fun e he => h e (List.mem_cons_of_mem _ he)⟩

end Value

namespace Tree
open Value

mutual
/-- Nothing is wrong with the tree of a value when it is skipped. -/
theorem skip_ofValue (v : Value) : (ofValue v).skip = .ok () := by
  cases v with
  | null => rfl
  | bool b => rfl
  | num n => rfl
  | str s => rfl
  | arr items => rw [ofValue, skip, skipItems_ofItems items]; rfl
  | obj members => rw [ofValue, skip, skipMembers_ofMembers members]; rfl

theorem skipItems_ofItems (items : List Value) : skipItems (ofItems items) = .ok () := by
  cases items with
  | nil => rfl
  | cons v rest =>
    rw [ofItems, skipItems, skip_ofValue v, skipItems_ofItems rest]
    rfl

theorem skipMembers_ofMembers (members : List (String × Value)) :
    skipMembers (ofMembers members) = .ok () := by
  cases members with
  | nil => rfl
  | cons m rest =>
    obtain ⟨k, v⟩ := m
    rw [ofMembers, skipMembers, skip_ofValue v, skipMembers_ofMembers rest]
    rfl
end

/-- There is room for a value of this depth. Only texts are bounded. -/
def Origin.Holds : Origin → Nat → Prop
  | .text n, d => d ≤ n
  | .value, _ => True

instance : (origin : Origin) → (d : Nat) → Decidable (origin.Holds d)
  | .text n, d => inferInstanceAs (Decidable (d ≤ n))
  | .value, _ => inferInstanceAs (Decidable True)

theorem Origin.holds_zero (origin : Origin) : origin.Holds 0 := by
  cases origin with
  | text n => exact Nat.zero_le n
  | value => trivial

theorem Origin.holds_max {origin : Origin} {d e : Nat} :
    origin.Holds (max d e) ↔ origin.Holds d ∧ origin.Holds e := by
  cases origin with
  | text n => exact Nat.max_le
  | value => exact (and_self_iff).symm

/-- A container is entered exactly if there is room for it, and takes one level away. -/
theorem Origin.enter_cases (origin : Origin) :
    (origin.enter = .error .malformed ∧ ∀ d, ¬origin.Holds (d + 1)) ∨
    ∃ inner : Origin, origin.enter = .ok inner ∧ ∀ d, origin.Holds (d + 1) ↔ inner.Holds d := by
  cases origin with
  | text n =>
    cases n with
    | zero => exact .inl ⟨rfl, Nat.not_succ_le_zero⟩
    | succ n => exact .inr ⟨.text n, rfl, fun d => Nat.succ_le_succ_iff⟩
  | value => exact .inr ⟨.value, rfl, fun d => Iff.rfl⟩

theorem Origin.holds_succ_iff {origin inner : Origin} (h : origin.enter = .ok inner) (d : Nat) :
    origin.Holds (d + 1) ↔ inner.Holds d := by
  rcases origin.enter_cases with ⟨he, -⟩ | ⟨inner', he, hinner⟩
  · exact nomatch h.symm.trans he
  · obtain rfl := Except.ok.inj (h.symm.trans he)
    exact hinner d

theorem Origin.exists_enter {origin : Origin} {d : Nat} (h : origin.Holds (d + 1)) :
    ∃ inner, origin.enter = .ok inner ∧ inner.Holds d := by
  rcases origin.enter_cases with ⟨-, hno⟩ | ⟨inner, he, hinner⟩
  · exact absurd h (hno d)
  · exact ⟨inner, he, (hinner d).1 h⟩

theorem Origin.holds_itemsDepth {origin : Origin} {items : List Value}
    (h : ∀ v ∈ items, origin.Holds v.depth) :
    origin.Holds (itemsDepth items) := by
  induction items with
  | nil => exact origin.holds_zero
  | cons v rest ih =>
    obtain ⟨hv, hrest⟩ := List.forall_mem_cons.1 h
    exact holds_max.2 ⟨hv, ih hrest⟩

theorem Origin.holds_membersDepth {origin : Origin} {members : List (String × Value)}
    (h : ∀ e ∈ members, origin.Holds e.2.depth) :
    origin.Holds (membersDepth members) := by
  induction members with
  | nil => exact origin.holds_zero
  | cons e rest ih =>
    obtain ⟨he, hrest⟩ := List.forall_mem_cons.1 h
    exact holds_max.2 ⟨he, ih hrest⟩

mutual
/-- A value is read from its own tree exactly if there is room for its depth. -/
theorem value_ofValue (v : Value) (origin : Origin) :
    (ofValue v).value origin = if origin.Holds v.depth then .ok v.ordered
    else .error .malformed := by
  cases v with
  | null => exact (if_pos origin.holds_zero).symm
  | bool b => exact (if_pos origin.holds_zero).symm
  | num n => exact (if_pos origin.holds_zero).symm
  | str s => exact (if_pos origin.holds_zero).symm
  | arr items =>
    rcases origin.enter_cases with ⟨he, hno⟩ | ⟨inner, he, hinner⟩
    · simp only [ofValue, value, he, bind, Except.bind]
      exact (if_neg (hno _)).symm
    · have hv := itemValues_ofItems items inner
      simp only [ofValue, value, he, depth, hinner, bind, Except.bind, hv]
      by_cases hd : inner.Holds (itemsDepth items)
      · rw [if_pos hd, if_pos hd]
        rfl
      · rw [if_neg hd, if_neg hd]
  | obj members =>
    rcases origin.enter_cases with ⟨he, hno⟩ | ⟨inner, he, hinner⟩
    · simp only [ofValue, value, he, bind, Except.bind]
      exact (if_neg (hno _)).symm
    · have hv := memberValues_ofMembers members inner KeyMap.empty
      simp only [ofValue, value, he, depth, hinner, bind, Except.bind, hv]
      by_cases hd : inner.Holds (membersDepth members)
      · rw [if_pos hd, if_pos hd]
        rfl
      · rw [if_neg hd, if_neg hd]

theorem itemValues_ofItems (items : List Value) (origin : Origin) :
    itemValues origin (ofItems items) =
      if origin.Holds (itemsDepth items) then .ok (orderedItems items) else .error .malformed := by
  cases items with
  | nil => exact (if_pos origin.holds_zero).symm
  | cons v rest =>
    have hv := value_ofValue v origin
    have hr := itemValues_ofItems rest origin
    simp only [ofItems, itemValues, itemsDepth, Origin.holds_max, bind, Except.bind, hv, hr]
    by_cases hd : origin.Holds v.depth
    · by_cases hd' : origin.Holds (itemsDepth rest)
      · rw [if_pos hd, if_pos hd', if_pos ⟨hd, hd'⟩]
        rfl
      · rw [if_pos hd, if_neg hd', if_neg fun h => hd' h.2]
    · have hn : ¬(origin.Holds v.depth ∧ origin.Holds (itemsDepth rest)) := fun h => hd h.1
      rw [if_neg hd, if_neg hn]

theorem memberValues_ofMembers (members : List (String × Value)) (origin : Origin)
    (m : KeyMap Value) :
    memberValues origin m (ofMembers members) =
      if origin.Holds (membersDepth members)
      then .ok ((orderedMembers members).foldl (fun m e => m.insert e.1 e.2) m)
      else .error .malformed := by
  cases members with
  | nil => exact (if_pos origin.holds_zero).symm
  | cons e rest =>
    obtain ⟨k, v⟩ := e
    have hv := value_ofValue v origin
    have hr := memberValues_ofMembers rest origin (m.insert k v.ordered)
    simp only [ofMembers, memberValues, key, membersDepth, Origin.holds_max, bind, Except.bind, hv,
      orderedMembers, List.foldl_cons]
    by_cases hd : origin.Holds v.depth
    · rw [if_pos hd]
      dsimp only
      rw [hr]
      by_cases hd' : origin.Holds (membersDepth rest)
      · rw [if_pos hd', if_pos ⟨hd, hd'⟩]
      · rw [if_neg hd', if_neg fun h => hd' h.2]
    · rw [if_neg hd, if_neg fun h => hd h.1]
end

end Tree
end RecordSearch.Json
