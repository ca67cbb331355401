/-! The digits of a number. -/
namespace RecordSearch.Text

theorem mem_toDigits {base n : Nat} {c : Char} (hb : 1 < base) (h : c ∈ Nat.toDigits base n) :
    ∃ d < base, c = Nat.digitChar d := by
  induction n using Nat.strongRecOn with
  | ind n ih =>
    rw [Nat.toDigits_eq_if hb] at h
    split at h
    · next hn => exact ⟨n, hn, by simpa using h⟩
    · next hn =>
      rcases List.mem_append.1 h with h | h
      · exact ih _ (Nat.div_lt_self (by omega) hb) h
      · exact ⟨n % base, Nat.mod_lt _ (by omega), by simpa using h⟩

/-- A property of all digits of a base of at most sixteen is checked one by one. -/
theorem forall_toDigits {p : Char → Prop} (hp : ∀ d < 16, p (Nat.digitChar d)) {base n : Nat}
    (hb : 1 < base) (h16 : base ≤ 16) {c : Char} (h : c ∈ Nat.toDigits base n) : p c := by
  obtain ⟨d, hd, rfl⟩ := mem_toDigits hb h
  exact hp d (by omega)

/-- Decimal digits are checked one by one. -/
theorem forall_decimal {p : Char → Prop} (hp : ∀ d < 10, p (Nat.digitChar d)) {n : Nat} {c : Char}
    (h : c ∈ Nat.toDigits 10 n) : p c := by
  obtain ⟨d, hd, rfl⟩ := mem_toDigits (by decide) h
  exact hp d hd

/-- Digits folded into a number give the number back. -/
theorem foldl_toDigits {base : Nat} (hb : 1 < base) {f : Nat → Char → Nat}
    (hf : ∀ n, ∀ d < base, f n (Nat.digitChar d) = n * base + d) (n : Nat) :
    (Nat.toDigits base n).foldl f 0 = n := by
  induction n using Nat.strongRecOn with
  | ind n ih =>
    rw [Nat.toDigits_eq_if hb]
    split
    · next hn => rw [List.foldl_cons, List.foldl_nil, hf 0 n hn, Nat.zero_mul, Nat.zero_add]
    · next hn =>
      rw [List.foldl_append, ih (n / base) (Nat.div_lt_self (by omega) hb), List.foldl_cons,
        List.foldl_nil, hf _ _ (Nat.mod_lt _ (by omega)), Nat.div_add_mod']

/-- Only zero begins with a zero. -/
theorem toDigits_head {base n : Nat} (hb : 1 < base) (hn : n ≠ 0) :
    ∃ d s, 0 < d ∧ d < base ∧ Nat.toDigits base n = Nat.digitChar d :: s := by
  induction n using Nat.strongRecOn with
  | ind n ih =>
    rw [Nat.toDigits_eq_if hb]
    split
    · next hlt => exact ⟨n, [], Nat.pos_of_ne_zero hn, hlt, rfl⟩
    · next hle =>
      have hq : n / base ≠ 0 := Nat.ne_of_gt (Nat.div_pos (Nat.le_of_not_lt hle) (by omega))
      obtain ⟨d, s, hd, hlt, he⟩ := ih (n / base) (Nat.div_lt_self (by omega) hb) hq
      exact ⟨d, _, hd, hlt, by rw [he, List.cons_append]⟩

end RecordSearch.Text
