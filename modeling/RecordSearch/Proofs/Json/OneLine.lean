import RecordSearch.Proofs.Json.Numeral

/-! The text of a value is a single line, and the value is read back from it. -/
namespace RecordSearch.Json

private theorem lowerHexDigit_ne_line_feed : ∀ d < 16, lowerHexDigit d ≠ '\n' := by decide

private theorem not_line_feed_escape (c : Char) : '\n' ∉ escape c := by
  unfold escape
  split
  · decide
  · decide
  · decide
  · decide
  · decide
  · decide
  · decide
  · next hline _ _ =>
    split
    · next hc =>
      have hn : c.toNat < 32 := UInt32.lt_iff_toNat_lt.1 hc
      have hhigh := lowerHexDigit_ne_line_feed (c.toNat / 16) (by omega)
      have hlow := lowerHexDigit_ne_line_feed (c.toNat % 16) (by omega)
      simp only [List.mem_cons, List.not_mem_nil, or_false, not_or]
      exact ⟨by decide, by decide, by decide, by decide, hhigh.symm, hlow.symm⟩
    · exact fun h => hline (List.mem_singleton.1 h).symm

private theorem not_line_feed_quoted (s : String) : '\n' ∉ quoted s := by
  refine List.not_mem_cons_of_ne_of_not_mem (by decide)
    (List.not_mem_append (fun h => ?_) (by decide))
  obtain ⟨c, -, hc⟩ := List.mem_flatMap.1 h
  exact not_line_feed_escape c hc

namespace Value

mutual
/-- No line feed stands in the text of a value, whatever stands in the value. -/
theorem not_line_feed_chars (v : Value) : '\n' ∉ v.chars := by
  cases v with
  | null => decide
  | bool b => cases b <;> decide
  | num n =>
    exact fun h => n.forall_text (p := (· ≠ '\n')) (by decide) (by decide) (by decide) _ h rfl
  | str s => exact not_line_feed_quoted s
  | arr items =>
    exact List.not_mem_cons_of_ne_of_not_mem (by decide) (not_line_feed_itemChars items)
  | obj members =>
    exact List.not_mem_cons_of_ne_of_not_mem (by decide) (not_line_feed_memberChars members)
termination_by sizeOf v

theorem not_line_feed_itemChars (items : List Value) : '\n' ∉ itemChars items := by
  match items with
  | [] => decide
  | [v] => exact List.not_mem_append (not_line_feed_chars v) (by decide)
  | v :: w :: rest =>
    have hrest : '\n' ∉ ',' :: itemChars (w :: rest) :=
      List.not_mem_cons_of_ne_of_not_mem (by decide) (not_line_feed_itemChars (w :: rest))
    exact List.not_mem_append (not_line_feed_chars v) hrest
termination_by sizeOf items

theorem not_line_feed_memberChars
    (members : List (String × Value)) : '\n' ∉ memberChars members := by
  match members with
  | [] => decide
  | [(k, v)] =>
    have hv : '\n' ∉ v.chars ++ ['}'] := List.not_mem_append (not_line_feed_chars v) (by decide)
    exact List.not_mem_append (not_line_feed_quoted k)
      (List.not_mem_cons_of_ne_of_not_mem (by decide) hv)
  | (k, v) :: m :: rest =>
    have hrest : '\n' ∉ ',' :: memberChars (m :: rest) :=
      List.not_mem_cons_of_ne_of_not_mem (by decide) (not_line_feed_memberChars (m :: rest))
    have hv : '\n' ∉ v.chars ++ ',' :: memberChars (m :: rest) :=
      List.not_mem_append (not_line_feed_chars v) hrest
    exact List.not_mem_append (not_line_feed_quoted k)
      (List.not_mem_cons_of_ne_of_not_mem (by decide) hv)
termination_by sizeOf members
end

mutual
def numbers : Value → List Number
  | .num n => [n]
  | .arr items => itemNumbers items
  | .obj members => memberNumbers members
  | _ => []

def itemNumbers : List Value → List Number
  | [] => []
  | v :: rest => v.numbers ++ itemNumbers rest

def memberNumbers : List (String × Value) → List Number
  | [] => []
  | (_, v) :: rest => v.numbers ++ memberNumbers rest
end

mutual
theorem legible_of_numbers {v : Value} (h : ∀ n ∈ v.numbers, Reader.Legible n) : v.Legible := by
  cases v with
  | null => trivial
  | bool b => trivial
  | num n => exact h n List.mem_cons_self
  | str s => trivial
  | arr items => exact legibleItems_of_numbers h
  | obj members => exact legibleMembers_of_numbers h

theorem legibleItems_of_numbers {items : List Value}
    (h : ∀ n ∈ itemNumbers items, Reader.Legible n) : LegibleItems items := by
  cases items with
  | nil => trivial
  | cons v rest =>
    obtain ⟨hv, hrest⟩ := List.forall_mem_append.1 h
    exact ⟨legible_of_numbers hv, legibleItems_of_numbers hrest⟩

theorem legibleMembers_of_numbers {members : List (String × Value)}
    (h : ∀ n ∈ memberNumbers members, Reader.Legible n) :
    LegibleMembers members := by
  cases members with
  | nil => trivial
  | cons e rest =>
    obtain ⟨hv, hrest⟩ := List.forall_mem_append.1 h
    exact ⟨legible_of_numbers hv, legibleMembers_of_numbers hrest⟩
end

def DoublesReadBack (v : Value) : Prop :=
  ∀ x finite, .double x finite ∈ v.numbers → (Number.double x finite).ReadsBack

theorem legible_of_doublesReadBack {v : Value} (h : v.DoublesReadBack) : v.Legible := by
  refine legible_of_numbers fun n hn => ?_
  cases n with
  | int i range => exact Reader.legible_int i range
  | double x finite => exact Number.legible_of_readsBack (h x finite hn)

/-- A value that is kept is read back from its text, however deep it nests. -/
theorem readDeep_text {v : Value} (h : v.Canonical)
    (hread : v.DoublesReadBack) : readDeep v.text = .ok v := by
  rw [readDeep, Reader.document_text v (legible_of_doublesReadBack hread)]
  dsimp only
  rw [Tree.value_ofValue_of_canonical h]
  rfl

end Value
end RecordSearch.Json
