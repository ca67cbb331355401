import RecordSearch.Json.Number

/-! Which doubles are finite: all that a number is rounded to, however great it is. -/
namespace RecordSearch.Decimal
open Float.Model (Format UnpackedFloat)
open Float.Model.UnpackedFloat (unpackExponent unpackMantissa)

private theorem toNat_lt_of_ne {e : BitVec 11} (h : e ≠ -1#11) : e.toNat < 2047 := by
  have hlt := e.isLt
  refine Nat.lt_of_le_of_ne (Nat.le_of_lt_succ hlt) fun he => h ?_
  exact BitVec.eq_of_toNat_eq he

/-- Packing is never so far up that a finite number becomes infinite. -/
private theorem unpackExponent_pack {x : UnpackedFloat} (hx : x.isFinite = true)
    (hsmall : ∀ s m e hm, x = .finite s m e hm → e ≤ 971) :
    unpackExponent (UnpackedFloat.pack Format.binary64 x) ≠ -1#11 := by
  cases x with
  | notANumber => contradiction
  | infinity s => contradiction
  | zero s =>
    change unpackExponent (UnpackedFloat.packComponents Format.binary64 s 0 0) ≠ -1#11
    rw [UnpackedFloat.unpackExponent_packComponents]
    decide
  | finite s m e hm =>
    have he := hsmall s m e hm rfl
    have hpack : UnpackedFloat.pack Format.binary64 (.finite s m e hm) =
        if 2048 ≤ (e + (1023 : Nat) + (52 : Nat)).toNat + 1 then
          UnpackedFloat.packedInfinity Format.binary64 s
        else if m.log2 + 1 = 53 then
          UnpackedFloat.packComponents Format.binary64 s
            (BitVec.ofNat 11 (e + (1023 : Nat) + (52 : Nat)).toNat) (BitVec.ofNat 52 m)
        else UnpackedFloat.packComponents Format.binary64 s 0#11 (BitVec.ofNat 52 m) := rfl
    have hbias : (e + (1023 : Nat) + (52 : Nat)).toNat < 2047 := by omega
    generalize (e + (1023 : Nat) + (52 : Nat)).toNat = biased at hpack hbias
    rw [hpack, if_neg (by omega)]
    split
    · rw [UnpackedFloat.unpackExponent_packComponents]
      intro h
      have h := congrArg BitVec.toNat h
      rw [BitVec.toNat_ofNat] at h
      change biased % 2 ^ 11 = 2047 at h
      omega
    · rw [UnpackedFloat.unpackExponent_packComponents]
      decide

/-- What is unpacked is finite, with an exponent that fits, unless its exponent is the one of
infinity. -/
private theorem of_unpackExponent {b : BitVec 64} (h : @unpackExponent Format.binary64 b ≠ -1#11) :
    (UnpackedFloat.unpack Format.binary64 b).isFinite = true ∧
    ∀ s m e hm, UnpackedFloat.unpack Format.binary64 b = .finite s m e hm → e ≤ 971 := by
  have hlt := toNat_lt_of_ne h
  unfold UnpackedFloat.unpack
  rw [if_neg h]
  by_cases hzero : @unpackExponent Format.binary64 b = 0#11
  · rw [if_pos hzero]
    by_cases hmantissa : @unpackMantissa Format.binary64 b = 0#52
    · rw [dif_pos hmantissa]
      refine ⟨rfl, fun s m e hm he => ?_⟩
      contradiction
    · rw [dif_neg hmantissa]
      refine ⟨rfl, fun s m e hm he => ?_⟩
      obtain ⟨-, -, rfl⟩ := UnpackedFloat.finite.inj he
      rw [hzero]
      decide
  · rw [if_neg hzero]
    refine ⟨rfl, fun s m e hm he => ?_⟩
    obtain ⟨-, -, rfl⟩ := UnpackedFloat.finite.inj he
    change ((@unpackExponent Format.binary64 b).toNat : Int) - ((1023 : Nat) + (52 : Nat)) ≤ 971
    omega

/-- Bits whose exponent is not that of infinity are those of a finite double. -/
theorem isFinite_ofBits {bits : UInt64} (h : bits.toNat / Binary.unit % 2048 ≠ 2047) :
    (Float.ofBits bits).isFinite = true := by
  have hexponent : (@unpackExponent Format.binary64 bits.toBitVec).toNat =
      bits.toNat / Binary.unit % 2048 := by
    simp [unpackExponent, Binary.unit, Nat.shiftRight_eq_div_pow]
  have hne : @unpackExponent Format.binary64 bits.toBitVec ≠ -1#11 := by
    intro he
    rw [he] at hexponent
    exact h hexponent.symm
  obtain ⟨hfinite, hsmall⟩ := of_unpackExponent hne
  exact (of_unpackExponent (unpackExponent_pack hfinite hsmall)).1

structure Binary.Fits (b : Binary) : Prop where
  mantissa : b.mantissa < 2 * unit
  exponent : b.exponent ≤ greatest

theorem Binary.Fits.zero : Fits ⟨0, least⟩ := ⟨by decide, by decide⟩

theorem Binary.Fits.isFinite_toFloat {b : Binary} (h : b.Fits) (negative : Bool) :
    (b.toFloat negative).isFinite = true := by
  obtain ⟨hm, he⟩ := h
  apply isFinite_ofBits
  have hmagnitude :
      (if b.mantissa < unit then b.mantissa
        else (b.exponent + 1075).toNat * unit + (b.mantissa - unit)) < 2047 * unit := by
    unfold greatest at he
    unfold unit at hm ⊢
    split <;> omega
  have hsign : (if negative then signBit else 0) = 0 ∨
      (if negative then signBit else 0) = 2048 * unit := by
    cases negative
    · exact .inl rfl
    · exact .inr rfl
  generalize (if b.mantissa < unit then b.mantissa
    else (b.exponent + 1075).toNat * unit + (b.mantissa - unit)) = magnitude at hmagnitude ⊢
  have hbits : (UInt64.ofNat ((if negative then signBit else 0) + magnitude)).toNat =
      (if negative then signBit else 0) + magnitude := by
    rw [UInt64.toNat_ofNat']
    refine Nat.mod_eq_of_lt ?_
    unfold unit at hmagnitude hsign
    omega
  rw [hbits]
  unfold unit at hmagnitude hsign ⊢
  omega

/-- At an exponent this large the whole quotient is a mantissa. -/
private theorem scaled_lt {num den : Nat} (hden : den ≠ 0) {e : Int}
    (he : (num.log2 : Int) - den.log2 - 52 ≤ e) :
    (scaled num den e).1 / (scaled num den e).2 < 2 * Binary.unit := by
  have hnum : num < 2 ^ (num.log2 + 1) := Nat.lt_log2_self
  have hlog : 2 ^ den.log2 ≤ den := Nat.log2_self_le hden
  have hunit : 2 * Binary.unit = 2 ^ 53 := rfl
  apply Nat.div_lt_of_lt_mul
  rw [hunit, scaled]
  split
  · calc num < 2 ^ (num.log2 + 1) := hnum
      _ ≤ 2 ^ (den.log2 + e.toNat + 53) := Nat.pow_le_pow_right (by decide) (by omega)
      _ = 2 ^ den.log2 * 2 ^ e.toNat * 2 ^ 53 := by rw [Nat.pow_add, Nat.pow_add]
      _ ≤ den * 2 ^ e.toNat * 2 ^ 53 := Nat.mul_le_mul_right _ (Nat.mul_le_mul_right _ hlog)
  · calc num * 2 ^ (-e).toNat
      _ < 2 ^ (num.log2 + 1) * 2 ^ (-e).toNat :=
        Nat.mul_lt_mul_of_pos_right hnum (Nat.two_pow_pos _)
      _ = 2 ^ (num.log2 + 1 + (-e).toNat) := (Nat.pow_add ..).symm
      _ ≤ 2 ^ (den.log2 + 53) := Nat.pow_le_pow_right (by decide) (by omega)
      _ = 2 ^ den.log2 * 2 ^ 53 := Nat.pow_add ..
      _ ≤ den * 2 ^ 53 := Nat.mul_le_mul_right _ hlog

private theorem roundQuotient_le (num den : Nat) : roundQuotient num den ≤ num / den + 1 := by
  unfold roundQuotient
  dsimp only
  split
  · exact Nat.le_refl _
  · exact Nat.le_succ _

theorem fits_of_nearestQuotient {num den : Nat} (hden : den ≠ 0) {b : Binary}
    (h : nearestQuotient num den = some b) : b.Fits := by
  unfold nearestQuotient at h
  extract_lets first at_ exponent s m rounded at h
  have hquotient : s.1 / s.2 < 2 * Binary.unit := by
    unfold s exponent
    split
    · refine scaled_lt hden ?_
      unfold first
      simp only [Int.ofNat_eq_natCast]
      omega
    · next hsmall => exact Nat.not_le.1 hsmall
  have hm : m ≤ 2 * Binary.unit := Nat.le_trans (roundQuotient_le s.1 s.2) hquotient
  split at h
  · contradiction
  · next he =>
    obtain rfl := Option.some.inj h
    refine ⟨?_, Int.not_lt.1 he⟩
    unfold rounded
    split
    · exact (by decide : Binary.unit < 2 * Binary.unit)
    · next hne => exact Nat.lt_of_le_of_ne hm hne

theorem fits_of_nearest {m : Nat} {e : Int} {b : Binary} (h : nearest m e = some b) : b.Fits := by
  unfold nearest at h
  split at h
  · exact Option.some.inj h ▸ .zero
  split at h
  · contradiction
  split at h
  · exact Option.some.inj h ▸ .zero
  split at h
  · exact fits_of_nearestQuotient Nat.one_ne_zero h
  · exact fits_of_nearestQuotient (Nat.ne_of_gt (Nat.pow_pos (by decide))) h

end RecordSearch.Decimal

namespace RecordSearch.Json.Number

/-- The double that is nearest to a number is finite. -/
theorem isFinite_toFloat (n : Number) : n.toFloat.isFinite = true := by
  cases n with
  | double x finite => exact finite
  | int i h =>
    rw [toFloat]
    cases hb : Decimal.nearest i.natAbs 0 with
    | none => exact Decimal.Binary.Fits.zero.isFinite_toFloat _
    | some b => exact (Decimal.fits_of_nearest hb).isFinite_toFloat _

end RecordSearch.Json.Number
