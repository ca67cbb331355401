/-! Texts cut at separators. -/
namespace RecordSearch.Text

def pieces (p : Char → Bool) : List Char → List (List Char)
  | [] => [[]]
  | c :: cs =>
    if p c then [] :: pieces p cs
    else
      match pieces p cs with
      | [] => [[c]]
      | s :: ss => (c :: s) :: ss

theorem pieces_ne_nil (p : Char → Bool) (cs : List Char) : pieces p cs ≠ [] := by
  induction cs with
  | nil => simp [pieces]
  | cons c cs ih =>
    simp only [pieces]
    split
    · simp
    · split <;> simp

/-- A text without separators is one piece. -/
theorem pieces_of_none (p : Char → Bool) (cs : List Char)
    (h : ∀ c ∈ cs, p c = false) : pieces p cs = [cs] := by
  induction cs with
  | nil => rfl
  | cons c cs ih =>
    have hc := h c List.mem_cons_self
    simp [pieces, hc, ih fun x hx => h x (List.mem_cons_of_mem _ hx)]

/-- The first piece ends at the first separator. -/
theorem pieces_append (p : Char → Bool) (cs : List Char) (d : Char) (rest : List Char)
    (h : ∀ c ∈ cs, p c = false) (hd : p d = true) :
    pieces p (cs ++ d :: rest) = cs :: pieces p rest := by
  induction cs with
  | nil => simp [pieces, hd]
  | cons c cs ih =>
    have hc := h c List.mem_cons_self
    simp [pieces, hc, ih fun x hx => h x (List.mem_cons_of_mem _ hx)]

end RecordSearch.Text
