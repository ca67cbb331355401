import RecordSearch.Proofs.Text.Utf8
import RecordSearch.Text.Percent

/-! What percent-encoding leaves alone, what it writes, and how it is undone. -/
namespace RecordSearch.Text

/-- A property of all ASCII characters is checked one by one. -/
theorem forall_ascii {p : Char → Prop} (h : ∀ n < 128, p (Char.ofNat n)) {c : Char}
    (hc : c.toNat < 128) : p c := by
  simpa only [Char.ofNat_toNat] using h c.toNat hc

/-- Letters and digits are ASCII characters. -/
theorem toNat_lt_of_isAlphanum {c : Char} (h : c.isAlphanum = true) : c.toNat < 128 := by
  have hcases : (('A'.val ≤ c.val ∧ c.val ≤ 'Z'.val) ∨ ('a'.val ≤ c.val ∧ c.val ≤ 'z'.val)) ∨
      ('0'.val ≤ c.val ∧ c.val ≤ '9'.val) := by
    rcases Bool.or_eq_true_iff.1 h with h | h
    · rcases Bool.or_eq_true_iff.1 h with h | h
      · exact .inl (.inl (of_decide_eq_true h))
      · exact .inl (.inr (by simpa using Bool.and_eq_true_iff.1 h))
    · exact .inr (by simpa using Bool.and_eq_true_iff.1 h)
  rcases hcases with (h | h) | h
  · exact Nat.lt_of_le_of_lt (UInt32.le_iff_toNat_le.1 h.2) (by decide)
  · exact Nat.lt_of_le_of_lt (UInt32.le_iff_toNat_le.1 h.2) (by decide)
  · exact Nat.lt_of_le_of_lt (UInt32.le_iff_toNat_le.1 h.2) (by decide)

namespace Percent

def isOctetChar (c : Char) : Bool := c == '%' || ('0' ≤ c && c ≤ '9') || ('A' ≤ c && c ≤ 'F')

theorem isOctetChar_hexDigit : ∀ n < 16, isOctetChar (hexDigit n) = true := by decide

theorem lt_of_isOctetChar {c : Char} (h : isOctetChar c = true) : c.toNat < 128 := by
  simp only [isOctetChar, Bool.or_eq_true, beq_iff_eq, Bool.and_eq_true, decide_eq_true_eq,
    Char.le_def, UInt32.le_iff_toNat_le] at h
  rcases h with (rfl | h) | h
  · decide
  · exact Nat.lt_of_le_of_lt h.2 (by decide)
  · exact Nat.lt_of_le_of_lt h.2 (by decide)

theorem isOctetChar_of_mem_encodeOctet {b : UInt8} {c : Char}
    (h : c ∈ encodeOctet b) : isOctetChar c = true := by
  have hb := b.toNat_lt
  simp only [encodeOctet, List.mem_cons, List.not_mem_nil, or_false] at h
  rcases h with rfl | rfl | rfl
  · decide
  · exact isOctetChar_hexDigit _ (by omega)
  · exact isOctetChar_hexDigit _ (by omega)

/-- Nothing but kept characters and written octets. -/
theorem mem_encode {keep : Char → Bool} {cs : List Char} {c : Char} (h : c ∈ encode keep cs) :
    (c ∈ cs ∧ keep c = true) ∨ isOctetChar c = true := by
  obtain ⟨d, hd, hc⟩ := List.mem_flatMap.1 h
  unfold encodeChar at hc
  split at hc
  · next hk =>
    rw [List.mem_singleton] at hc
    exact .inl ⟨hc ▸ hd, hc ▸ hk⟩
  · obtain ⟨b, -, hb⟩ := List.mem_flatMap.1 hc
    exact .inr (isOctetChar_of_mem_encodeOctet hb)

/-- Where the characters of written octets are kept, all is kept. -/
theorem keep_of_mem_encode {keep : Char → Bool} (hk : ∀ c, isOctetChar c = true → keep c = true)
    {cs : List Char} {c : Char} (h : c ∈ encode keep cs) : keep c = true := by
  rcases mem_encode h with ⟨-, hc⟩ | ho
  · exact hc
  · exact hk c ho

theorem encode_eq_nil_iff {keep : Char → Bool} {cs : List Char} :
    encode keep cs = [] ↔ cs = [] := by
  constructor
  · intro h
    cases cs with
    | nil => rfl
    | cons c cs =>
      obtain ⟨hc, -⟩ := List.append_eq_nil_iff.1 (h : encodeChar keep c ++ encode keep cs = [])
      unfold encodeChar at hc
      split at hc
      · contradiction
      · obtain ⟨b, bs, hb⟩ := List.exists_cons_of_ne_nil (String.utf8EncodeChar_ne_nil (c := c))
        rw [hb, List.flatMap_cons] at hc
        contradiction
  · rintro rfl
    rfl

/-- A text of kept characters is its own encoding. -/
theorem encode_of_kept {keep : Char → Bool} {cs : List Char}
    (h : ∀ c ∈ cs, keep c = true) : encode keep cs = cs := by
  induction cs with
  | nil => rfl
  | cons c cs ih =>
    have hc : encodeChar keep c = [c] := if_pos (h c List.mem_cons_self)
    rw [encode, List.flatMap_cons, hc, ← encode, ih fun d hd => h d (List.mem_cons_of_mem _ hd)]
    rfl

@[simp] theorem decode_nil : decode [] = [] := rfl

theorem decode_cons_of_ne {c : Char} (h : c ≠ '%') (cs : List Char) :
    decode (c :: cs) = String.utf8EncodeChar c ++ decode cs := by
  rw [decode]
  intro a b ds hc
  exact absurd hc h

theorem decode_encodeOctet_append (b : UInt8) (cs : List Char) :
    decode (encodeOctet b ++ cs) = b :: decode cs := by
  have hb := b.toNat_lt
  have hn : 16 * (b.toNat / 16) + b.toNat % 16 = b.toNat := Nat.div_add_mod ..
  simp only [encodeOctet, List.cons_append, List.nil_append, decode,
    hexValue?_hexDigit _ (show b.toNat / 16 < 16 by omega),
    hexValue?_hexDigit _ (show b.toNat % 16 < 16 by omega), hn, UInt8.ofNat_toNat]

theorem decode_encodeOctets_append (bs : List UInt8) (cs : List Char) :
    decode (bs.flatMap encodeOctet ++ cs) = bs ++ decode cs := by
  induction bs with
  | nil => rfl
  | cons b bs ih =>
    rw [List.flatMap_cons, List.append_assoc, decode_encodeOctet_append, ih, List.cons_append]

/-- Decoding gives the octets of the text back, as long as no percent sign is kept. -/
theorem decode_encode {keep : Char → Bool} (hk : keep '%' = false) (cs : List Char) :
    decode (encode keep cs) = Utf8.encode cs := by
  induction cs with
  | nil => simp
  | cons c cs ih =>
    rw [encode, List.flatMap_cons, ← encode, Utf8.encode_cons, ← ih]
    unfold encodeChar
    split
    · next hc =>
      have hne : c ≠ '%' := by
        rintro rfl
        rw [hk] at hc
        contradiction
      exact decode_cons_of_ne hne _
    · exact decode_encodeOctets_append ..

def IsPlain (c : Char) : Prop :=
  ('A' ≤ c ∧ c ≤ 'Z') ∨ ('a' ≤ c ∧ c ≤ 'z') ∨ ('0' ≤ c ∧ c ≤ '9') ∨ c ∈ ['-', '_', '.', '~']

instance (c : Char) : Decidable (IsPlain c) := inferInstanceAs (Decidable (_ ∨ _ ∨ _ ∨ _))

def IsHex (c : Char) : Prop := ('0' ≤ c ∧ c ≤ '9') ∨ ('A' ≤ c ∧ c ≤ 'F')

instance (c : Char) : Decidable (IsHex c) := inferInstanceAs (Decidable (_ ∨ _))

inductive Written : List Char → Prop
  | nil : Written []
  | plain {c : Char} {cs : List Char} (h : IsPlain c) (hs : Written cs) : Written (c :: cs)
  | triple {a b : Char} {cs : List Char} (ha : IsHex a) (hb : IsHex b)
      (hs : Written cs) : Written ('%' :: a :: b :: cs)

theorem Written.append {a b : List Char} (ha : Written a) (hb : Written b) : Written (a ++ b) := by
  induction ha with
  | nil => exact hb
  | plain h _ ih => exact .plain h ih
  | triple h h' _ ih => exact .triple h h' ih

theorem Written.flatMap {α : Type} {f : α → List Char} (hf : ∀ x, Written (f x))
    (xs : List α) : Written (xs.flatMap f) := by
  induction xs with
  | nil => exact .nil
  | cons x xs ih =>
    rw [List.flatMap_cons]
    exact (hf x).append ih

theorem toNat_lt_of_isUnreserved {c : Char} (h : isUnreserved c = true) : c.toNat < 128 := by
  simp only [isUnreserved, Bool.or_eq_true, beq_iff_eq] at h
  rcases h with (((h | rfl) | rfl) | rfl) | rfl
  · exact toNat_lt_of_isAlphanum h
  all_goals decide

theorem isPlain_of_isUnreserved {c : Char} (h : isUnreserved c = true) : IsPlain c :=
  forall_ascii (p := fun c => isUnreserved c = true → IsPlain c) (by decide)
    (toNat_lt_of_isUnreserved h) h

theorem isHex_hexDigit : ∀ n < 16, IsHex (hexDigit n) := by decide

/-- One segment is made of plain characters and triples. -/
theorem written_encode (cs : List Char) : Written (encode isUnreserved cs) := by
  refine Written.flatMap (fun c => ?_) cs
  unfold encodeChar
  split
  · next h => exact .plain (isPlain_of_isUnreserved h) .nil
  · refine Written.flatMap (fun b => ?_) _
    have hb := b.toNat_lt
    exact .triple (isHex_hexDigit _ (by omega)) (isHex_hexDigit _ (by omega)) .nil

/-- A text that has been written as one path segment is read back whole. -/
theorem decode?_segment (cs : List Char) :
    Utf8.decode? (decode (encode isUnreserved cs)) = some cs := by
  rw [decode_encode (by decide), Utf8.decode?_encode]

/-- A text without percent signs stands for its own octets. -/
theorem decode_of_no_percent {cs : List Char}
    (h : ∀ c ∈ cs, c ≠ '%') : decode cs = Utf8.encode cs := by
  induction cs with
  | nil => simp
  | cons c cs ih =>
    rw [decode_cons_of_ne (h c List.mem_cons_self), ih fun d hd => h d (List.mem_cons_of_mem _ hd),
      Utf8.encode_cons]

end Percent
end RecordSearch.Text
