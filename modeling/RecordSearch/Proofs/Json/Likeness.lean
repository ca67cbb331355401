import Mathlib.Data.List.Forall2
import RecordSearch.Json.Value

/-! Ways to compare values through and through. -/
namespace RecordSearch.Json

/-- A comparison that takes flags, texts and whole numbers as they are, lists item by item and
objects member by member. -/
structure Likeness (E : Value → Value → Prop) : Prop where
  bool : ∀ {a b : Bool}, E (.bool a) (.bool b) ↔ a = b
  str : ∀ {a b : String}, E (.str a) (.str b) ↔ a = b
  nat : ∀ {m n : UInt32}, E (.nat m) (.nat n) ↔ m = n
  arr : ∀ {vs ws : List Value}, E (.arr vs) (.arr ws) ↔ List.Forall₂ E vs ws
  obj : ∀ {ms ns : List (String × Value)}, E (.obj ms) (.obj ns) ↔
    List.Forall₂ (fun m n => m.1 = n.1 ∧ E m.2 n.2) ms ns

theorem Value.nat_inj {m n : UInt32} : Value.nat m = .nat n ↔ m = n := by
  simp only [Value.nat, Number.ofUInt32, Value.num.injEq, Number.int.injEq]
  rw [Int.ofNat_inj, UInt32.toNat_inj]

/-- Equality is such a comparison. -/
theorem Likeness.eq : Likeness (· = ·) where
  bool := by simp
  str := by simp
  nat := Value.nat_inj
  arr := by simp
  obj := by simp [← Prod.ext_iff]

namespace Value

theorem sameItems_iff (vs ws : List Value) :
    sameItems vs ws = true ↔ List.Forall₂ (fun v w => (v == w) = true) vs ws := by
  induction vs generalizing ws with
  | nil => cases ws <;> simp [sameItems]
  | cons v vs ih =>
    cases ws with
    | nil => simp [sameItems]
    | cons w ws =>
      rw [sameItems, Bool.and_eq_true, ih, List.forall₂_cons]
      rfl

theorem sameMembers_iff (ms ns : List (String × Value)) :
    sameMembers ms ns = true ↔ List.Forall₂ (fun m n => m.1 = n.1 ∧ (m.2 == n.2) = true) ms ns := by
  induction ms generalizing ns with
  | nil => cases ns <;> simp [sameMembers]
  | cons m ms ih =>
    obtain ⟨j, v⟩ := m
    cases ns with
    | nil => simp [sameMembers]
    | cons n ns =>
      obtain ⟨k, w⟩ := n
      rw [sameMembers, Bool.and_eq_true, Bool.and_eq_true, beq_iff_eq, ih, List.forall₂_cons]
      rfl

end Value

/-- So is the comparison that takes doubles as numbers. -/
theorem Likeness.same : Likeness fun v w => (v == w) = true where
  bool {a b} := (beq_iff_eq : (a == b) = true ↔ a = b)
  str {a b} := (beq_iff_eq : (a == b) = true ↔ a = b)
  nat {m n} := by
    change ((m.toNat : Int) == (n.toNat : Int)) = true ↔ m = n
    rw [beq_iff_eq, Int.ofNat_inj, UInt32.toNat_inj]
  arr {vs ws} := Value.sameItems_iff vs ws
  obj {ms ns} := Value.sameMembers_iff ms ns

end RecordSearch.Json
