import RecordSearch.Client

/-! Which timeouts are spans of time. -/
namespace RecordSearch
open Float.Model

/-- Numbers compared the other way round: the answer is the opposite one, and none where one of them
is no number. -/
private theorem compare_swap (a b : UnpackedFloat) :
    b.compare a = (a.compare b).map Ordering.swap := by
  cases a with
  | notANumber => cases b <;> rfl
  | infinity s =>
    cases b with
    | infinity t => cases s <;> cases t <;> rfl
    | _ => cases s <;> rfl
  | zero s =>
    cases b with
    | infinity t => cases t <;> rfl
    | finite t => cases t <;> rfl
    | _ => rfl
  | finite s m e _ =>
    cases b with
    | infinity t => cases t <;> rfl
    | notANumber => rfl
    | zero t => cases s <;> rfl
    | finite t n f _ =>
      have hsize : (compare f e).then (compare n m) = ((compare e f).then (compare m n)).swap := by
        rw [Ordering.swap_then, ← Std.OrientedOrd.eq_swap, ← Std.OrientedOrd.eq_swap]
      cases s with
      | positive =>
        cases t with
        | positive => exact congrArg some hsize
        | negative => rfl
      | negative =>
        cases t with
        | positive => rfl
        | negative => exact congrArg (fun o => some o.swap) hsize

theorem not_lt_of_float_lt {x y : Float} (h : x < y) : ¬y < x := by
  intro hyx
  have hxy : x.toModel.unpack.compare y.toModel.unpack = some .lt := eq_of_beq (of_decide_eq_true h)
  have hyx : y.toModel.unpack.compare x.toModel.unpack = some .lt :=
    eq_of_beq (of_decide_eq_true hyx)
  rw [compare_swap, hxy] at hyx
  contradiction

variable {seconds : Float}

/-- Nothing but its length can be wrong with a positive timeout. -/
theorem timeoutFault_of_pos (h : 0 < seconds) :
    timeoutFault seconds = if seconds < 18446744073709551616 then none
    else some "cannot convert float seconds to Duration: value is either too big or NaN" := by
  rw [timeoutFault, if_neg (not_lt_of_float_lt h)]

end RecordSearch
