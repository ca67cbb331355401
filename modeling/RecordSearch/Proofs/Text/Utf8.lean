import RecordSearch.Text.Utf8

/-! Every text is read back from its octets. -/
namespace RecordSearch.Text.Utf8

private theorem toNat_octet {n : Nat} (h : n < 256) : (UInt8.ofNat n).toNat = n :=
  UInt8.toNat_ofNat_of_lt' h

private theorem opening_one {b : UInt8} (h : b.toNat < 0x80) :
    Opening.of b = .whole (Char.ofNat b.toNat) :=
  if_pos (UInt8.lt_iff_toNat_lt.2 h)

private theorem opening_two {b : UInt8} (hl : 0xC2 ≤ b.toNat) (hh : b.toNat ≤ 0xDF) :
    Opening.of b = .long ⟨b.toNat - 0xC0, 1, 0x80, 0xBF⟩ := by
  rw [Opening.of, if_neg, if_pos] <;> simp [UInt8.lt_iff_toNat_lt, UInt8.le_iff_toNat_le] <;> omega

private theorem opening_three {b : UInt8} (hl : 0xE0 ≤ b.toNat) (hh : b.toNat ≤ 0xEF) :
    Opening.of b =
      .long ⟨b.toNat - 0xE0, 2, if b == 0xE0 then 0xA0 else 0x80,
        if b == 0xED then 0x9F else 0xBF⟩ := by
  rw [Opening.of, if_neg, if_neg, if_pos] <;>
    simp [UInt8.lt_iff_toNat_lt, UInt8.le_iff_toNat_le] <;> omega

private theorem opening_four {b : UInt8} (hl : 0xF0 ≤ b.toNat) (hh : b.toNat ≤ 0xF4) :
    Opening.of b =
      .long ⟨b.toNat - 0xF0, 3, if b == 0xF0 then 0x90 else 0x80,
        if b == 0xF4 then 0x8F else 0xBF⟩ := by
  rw [Opening.of, if_neg, if_neg, if_neg, if_pos] <;>
    simp [UInt8.lt_iff_toNat_lt, UInt8.le_iff_toNat_le] <;> omega

private theorem scan_first {b : UInt8} {p : Begun} (h : Opening.of b = .long p) (bs : List UInt8) :
    scanFrom none (b :: bs) = scanFrom (some p) bs := by
  rw [scanFrom, h]

/-- The last octet of a character that has been begun. -/
private theorem scan_last {bits : Nat} {low high b : UInt8} (hl : low.toNat ≤ b.toNat)
    (hh : b.toNat ≤ high.toNat) (bs : List UInt8) :
    scanFrom (some ⟨bits, 1, low, high⟩) (b :: bs) =
      some (Char.ofNat (bits * 64 + (b.toNat - 0x80))) :: scanFrom none bs := by
  rw [scanFrom, if_pos (by simp [UInt8.le_iff_toNat_le, hl, hh])]
  rfl

/-- An octet in the middle of a character. -/
private theorem scan_inner {bits owed : Nat} {low high b : UInt8} (hl : low.toNat ≤ b.toNat)
    (hh : b.toNat ≤ high.toNat) (bs : List UInt8) :
    scanFrom (some ⟨bits, owed + 2, low, high⟩) (b :: bs) =
      scanFrom (some ⟨bits * 64 + (b.toNat - 0x80), owed + 1, 0x80, 0xBF⟩) bs := by
  rw [scanFrom, if_pos (by simp [UInt8.le_iff_toNat_le, hl, hh])]
  simp

/-- A bound that hangs on the first octet. -/
private theorem bound_ite {p : Nat → Prop} {a k x y : UInt8} (hx : a.toNat = k.toNat → p x.toNat)
    (hy : a.toNat ≠ k.toNat → p y.toNat) : p (if a == k then x else y).toNat := by
  by_cases h : a = k
  · rw [if_pos (beq_iff_eq.2 h)]
    exact hx (congrArg UInt8.toNat h)
  · rw [if_neg (by simpa using h)]
    exact hy fun hn => h (UInt8.toNat_inj.1 hn)

private theorem toNat_cases (c : Char) :
    c.toNat < 0xD800 ∨ (0xDFFF < c.toNat ∧ c.toNat < 0x110000) :=
  c.valid

/-- The octets of a character are read as that character. -/
private theorem scan_char (c : Char) (bs : List UInt8) :
    scanFrom none (String.utf8EncodeChar c ++ bs) = some c :: scanFrom none bs := by
  have hc := toNat_cases c
  have hof : Char.ofNat c.toNat = c := Char.ofNat_toNat c
  unfold String.utf8EncodeChar
  generalize hn : c.val.toNat = n
  have hn : c.toNat = n := hn
  rw [hn] at hc hof
  dsimp only
  split
  · have ha := toNat_octet (n := n) (by omega)
    rw [List.cons_append, List.nil_append, scanFrom, opening_one (by omega), ha, hof]
  split
  · have ha := toNat_octet (n := n / 64 % 32 + 0xC0) (by omega)
    have hb := toNat_octet (n := n % 64 + 0x80) (by omega)
    rw [List.cons_append, scan_first (opening_two (by omega) (by omega)), List.cons_append,
      List.nil_append, scan_last (by rw [hb]; simp) (by rw [hb]; simp; omega), ha, hb,
      show (n / 64 % 32 + 0xC0 - 0xC0) * 64 + (n % 64 + 0x80 - 0x80) = n by omega, hof]
  split
  · have ha := toNat_octet (n := n / 4096 % 16 + 0xE0) (by omega)
    have hb := toNat_octet (n := n / 64 % 64 + 0x80) (by omega)
    have hd := toNat_octet (n := n % 64 + 0x80) (by omega)
    have hlow : (if UInt8.ofNat (n / 4096 % 16 + 0xE0) == 0xE0 then 0xA0 else 0x80 : UInt8).toNat ≤
        n / 64 % 64 + 0x80 := by
      refine bound_ite (p := (· ≤ n / 64 % 64 + 0x80)) ?_ ?_ <;> rw [ha] <;> simp
      omega
    have hhigh : n / 64 % 64 + 0x80 ≤
        (if UInt8.ofNat (n / 4096 % 16 + 0xE0) == 0xED then 0x9F else 0xBF : UInt8).toNat := by
      refine bound_ite (p := (n / 64 % 64 + 0x80 ≤ ·)) ?_ ?_ <;> rw [ha] <;> simp <;> omega
    rw [List.cons_append, scan_first (opening_three (by omega) (by omega)), List.cons_append,
      scan_inner (by rwa [hb]) (by rwa [hb]), List.cons_append, List.nil_append,
      scan_last (by rw [hd]; simp) (by rw [hd]; simp; omega), ha, hb, hd,
      show ((n / 4096 % 16 + 0xE0 - 0xE0) * 64 + (n / 64 % 64 + 0x80 - 0x80)) * 64 +
      (n % 64 + 0x80 - 0x80) = n by omega, hof]
  · have ha := toNat_octet (n := n / 262144 % 8 + 0xF0) (by omega)
    have hb := toNat_octet (n := n / 4096 % 64 + 0x80) (by omega)
    have hd := toNat_octet (n := n / 64 % 64 + 0x80) (by omega)
    have he := toNat_octet (n := n % 64 + 0x80) (by omega)
    have hlow : (if UInt8.ofNat (n / 262144 % 8 + 0xF0) == 0xF0 then 0x90 else 0x80 : UInt8).toNat ≤
        n / 4096 % 64 + 0x80 := by
      refine bound_ite (p := (· ≤ n / 4096 % 64 + 0x80)) ?_ ?_ <;> rw [ha] <;> simp
      omega
    have hhigh : n / 4096 % 64 + 0x80 ≤
        (if UInt8.ofNat (n / 262144 % 8 + 0xF0) == 0xF4 then 0x8F else 0xBF : UInt8).toNat := by
      refine bound_ite (p := (n / 4096 % 64 + 0x80 ≤ ·)) ?_ ?_ <;> rw [ha] <;> simp <;> omega
    rw [List.cons_append, scan_first (opening_four (by omega) (by omega)), List.cons_append,
      scan_inner (by rwa [hb]) (by rwa [hb]), List.cons_append,
      scan_inner (by rw [hd]; simp) (by rw [hd]; simp; omega), List.cons_append, List.nil_append,
      scan_last (by rw [he]; simp) (by rw [he]; simp; omega), ha, hb, hd, he,
      show (((n / 262144 % 8 + 0xF0 - 0xF0) * 64 + (n / 4096 % 64 + 0x80 - 0x80)) * 64 +
        (n / 64 % 64 + 0x80 - 0x80)) * 64 + (n % 64 + 0x80 - 0x80) = n by omega, hof]

theorem scan_encode (cs : List Char) : scan (encode cs) = cs.map some := by
  unfold scan
  induction cs with
  | nil => rfl
  | cons c cs ih => rw [encode_cons, scan_char, ih, List.map_cons]

@[simp] theorem decode?_encode (cs : List Char) : decode? (encode cs) = some cs := by
  rw [decode?, scan_encode]
  induction cs with
  | nil => rfl
  | cons c cs ih => simp [List.mapM_cons, ih]

theorem encode_injective {a b : List Char} (h : encode a = encode b) : a = b := by
  simpa using congrArg decode? h

/-- A body is its text again, unless that starts with a mark for the byte order. -/
theorem decodeBody_encode {cs : List Char} (h : cs.head? ≠ some '\ufeff') :
    decodeBody (encode cs) = cs := by
  have hl : decodeLossy (encode cs) = cs := by
    rw [decodeLossy, scan_encode, List.map_map]
    exact List.map_id cs
  unfold decodeBody
  rw [hl]
  split
  · exact absurd rfl h
  · rfl

end RecordSearch.Text.Utf8
