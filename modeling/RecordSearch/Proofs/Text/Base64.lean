import RecordSearch.Text.Base64

/-! Octets are read back from their characters in base64. -/
namespace RecordSearch.Text.Base64

/-- The characters of the alphabet are checked one by one. -/
private theorem digit_checked :
    ∀ n < 64, value? (digit n) = some n ∧ digit n ≠ '=' := by decide +kernel

private theorem value?_digit {n : Nat} (h : n < 64) : value? (digit n) = some n :=
  (digit_checked n h).1
private theorem digit_ne_padding {n : Nat} (h : n < 64) : digit n ≠ '=' := (digit_checked n h).2

private theorem ofNat_eq {n : Nat} {b : UInt8} (h : n % 256 = b.toNat) : UInt8.ofNat n = b :=
  UInt8.toNat_inj.1 ((UInt8.toNat_ofNat' ..).trans h)

private theorem decode?_one (a : UInt8) : decode? (encode [a]) = some [a] := by
  have ha := a.toNat_lt
  have hsum : a.toNat / 4 * 64 + a.toNat % 4 * 16 = a.toNat * 16 := by omega
  rw [encode, decode?, value?_digit (by omega), value?_digit (by omega)]
  simp only [bind, Option.bind_some, hsum]
  rw [if_pos (by omega), ofNat_eq (b := a) (by omega)]

private theorem decode?_two (a b : UInt8) : decode? (encode [a, b]) = some [a, b] := by
  have ha := a.toNat_lt
  have hb := b.toNat_lt
  have hthird := digit_ne_padding (n := (a.toNat * 1024 + b.toNat * 4) % 64) (by omega)
  have hsum :
      (a.toNat * 1024 + b.toNat * 4) / 4096 * 4096 + (a.toNat * 1024 + b.toNat * 4) / 64 % 64 * 64 +
        (a.toNat * 1024 + b.toNat * 4) % 64 = a.toNat * 1024 + b.toNat * 4 := by omega
  rw [encode, decode?, value?_digit (by omega), value?_digit (by omega), value?_digit (by omega)]
  · simp only [bind, Option.bind_some, hsum]
    rw [if_pos (by omega), ofNat_eq (b := a) (by omega), ofNat_eq (b := b) (by omega)]
  · exact hthird

private theorem sextets_sum (n : Nat) :
    n / 262144 * 262144 + n / 4096 % 64 * 4096 + n / 64 % 64 * 64 + n % 64 = n := by omega

/-- Three octets make four characters, none of which is padding, and the rest goes on after them. -/
private theorem decode?_three (a b c : UInt8) (bs : List UInt8) :
    decode? (encode (a :: b :: c :: bs)) =
      (decode? (encode bs)).map fun ds => a :: b :: c :: ds := by
  have ha := a.toNat_lt
  have hb := b.toNat_lt
  have hc := c.toNat_lt
  rw [encode]
  generalize hn : a.toNat * 65536 + b.toNat * 256 + c.toNat = n
  have hlast := digit_ne_padding (n := n % 64) (by omega)
  rw [decode?, value?_digit (by omega), value?_digit (by omega), value?_digit (by omega),
    value?_digit (by omega)]
  · simp only [bind, Option.bind_some, sextets_sum]
    rw [ofNat_eq (b := a) (by omega), ofNat_eq (b := b) (by omega), ofNat_eq (b := c) (by omega)]
    cases decode? (encode bs) <;> rfl
  · exact fun _ h _ => hlast h
  · exact fun h _ => hlast h

theorem decode?_encode (bs : List UInt8) : decode? (encode bs) = some bs := by
  induction bs using encode.induct with
  | case1 a b c bs ih => rw [decode?_three, ih, Option.map_some]
  | case2 a b => exact decode?_two a b
  | case3 a => exact decode?_one a
  | case4 => rfl

end RecordSearch.Text.Base64
