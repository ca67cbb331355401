import Mathlib.Tactic.SplitIfs
import RecordSearch.Text.Utf8

/-! The order of texts is also the order of their octets in UTF-8. -/
namespace RecordSearch.Text.Utf8

private theorem octet_lt_iff {m n : Nat} {bs cs : List UInt8} (hm : m < 256) (hn : n < 256) :
    UInt8.ofNat m :: bs < UInt8.ofNat n :: cs ↔ m < n ∨ m = n ∧ bs < cs := by
  rw [List.cons_lt_cons_iff, UInt8.lt_iff_toNat_lt, ← UInt8.toNat_inj, UInt8.toNat_ofNat_of_lt' hm,
    UInt8.toNat_ofNat_of_lt' hn]

/-- The last six bits of a number matter only where the bits before them agree. -/
private theorem bits_lt {m n : Nat} (h : m < n) :
    m / 64 < n / 64 ∨ m / 64 = n / 64 ∧ m % 64 < n % 64 := by
  omega

/-- The octets of a lesser character are less, whatever follows: a longer character has a greater
first octet, and those of one length are compared by six bits at a time. -/
theorem utf8EncodeChar_lt {c d : Char} (h : c < d) (bs cs : List UInt8) :
    String.utf8EncodeChar c ++ bs < String.utf8EncodeChar d ++ cs := by
  have hc : c.val.toNat < 0x110000 := by rcases c.valid with hc | hc <;> omega
  have hd : d.val.toNat < 0x110000 := by rcases d.valid with hd | hd <;> omega
  have hlt : c.val.toNat < d.val.toNat := UInt32.lt_iff_toNat_lt.1 h
  unfold String.utf8EncodeChar
  generalize c.val.toNat = m at *
  generalize d.val.toNat = n at *
  have hbits : m / 64 / 64 / 64 < n / 64 / 64 / 64 ∨ m / 64 / 64 / 64 = n / 64 / 64 / 64 ∧
      (m / 64 / 64 % 64 < n / 64 / 64 % 64 ∨ m / 64 / 64 % 64 = n / 64 / 64 % 64 ∧
        (m / 64 % 64 < n / 64 % 64 ∨ m / 64 % 64 = n / 64 % 64 ∧ m % 64 < n % 64)) := by
    rcases bits_lt hlt with hlt | hlast
    · rcases bits_lt hlt with hlt | hlast
      · rcases bits_lt hlt with hlt | hlast <;> omega
      · omega
    · omega
  have htwo (k : Nat) : k / 4096 = k / 64 / 64 := (Nat.div_div_eq_div_mul k 64 64).symm
  have hthree (k : Nat) : k / 262144 = k / 64 / 64 / 64 := by
    rw [Nat.div_div_eq_div_mul, Nat.div_div_eq_div_mul]
  simp only [htwo, hthree]
  split_ifs <;> simp (disch := omega) only [List.cons_append, List.nil_append, octet_lt_iff] <;>
    omega

theorem encode_lt_encode {a b : List Char} (h : a < b) : encode a < encode b := by
  induction a generalizing b with
  | nil =>
    cases b with
    | nil => exact absurd h (List.lt_irrefl [])
    | cons d ds =>
      obtain ⟨o, os, ho⟩ := List.exists_cons_of_ne_nil (String.utf8EncodeChar_ne_nil (c := d))
      rw [encode_cons, ho]
      exact List.nil_lt_cons ..
  | cons c cs ih =>
    cases b with
    | nil => exact absurd h (List.not_lt_nil _)
    | cons d ds =>
      rcases List.cons_lt_cons_iff.1 h with hlt | ⟨rfl, hrest⟩
      · exact utf8EncodeChar_lt hlt ..
      · exact List.append_left_lt (ih hrest)

end RecordSearch.Text.Utf8
