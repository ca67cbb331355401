import RecordSearch.Text.Pieces

/-! What the pieces of a text hold. -/
namespace RecordSearch.Text

/-- No piece holds a separator. -/
theorem not_separator_of_mem_pieces {p : Char → Bool} {cs piece : List Char}
    (h : piece ∈ pieces p cs) :
    ∀ c ∈ piece, p c = false := by
  induction cs generalizing piece with
  | nil =>
    obtain rfl : piece = [] := by simpa [pieces] using h
    simp
  | cons d cs ih =>
    unfold pieces at h
    split at h
    · rcases List.mem_cons.1 h with rfl | h
      · simp
      · exact ih h
    · next hd =>
      split at h
      · obtain rfl : piece = [d] := by simpa using h
        simpa using hd
      · next s ss he =>
        rcases List.mem_cons.1 h with rfl | h
        · intro c hc
          rcases List.mem_cons.1 hc with rfl | hc
          · simpa using hd
          · exact ih (he ▸ List.mem_cons_self) c hc
        · exact ih (he ▸ List.mem_cons_of_mem _ h)

/-- Texts without separators, put behind one another with a separator before each, are the
pieces. -/
theorem pieces_flatMap {p : Char → Bool} {d : Char} (hd : p d = true) {s : List Char}
    {ss : List (List Char)} (hs : ∀ c ∈ s, p c = false) (hss : ∀ t ∈ ss, ∀ c ∈ t, p c = false) :
    pieces p (s ++ ss.flatMap (d :: ·)) = s :: ss := by
  induction ss generalizing s with
  | nil => rw [List.flatMap_nil, List.append_nil, pieces_of_none p s hs]
  | cons t ss ih =>
    rw [List.flatMap_cons, List.cons_append, pieces_append p s d _ hs hd,
      ih (hss t List.mem_cons_self) fun u hu => hss u (List.mem_cons_of_mem _ hu)]

/-- Texts without separators, put behind one another with a separator after each, are the pieces
before an empty last one. -/
theorem pieces_flatMap_concat {p : Char → Bool} {d : Char} (hd : p d = true) {ss : List (List Char)}
    (hss : ∀ t ∈ ss, ∀ c ∈ t, p c = false) : pieces p (ss.flatMap (· ++ [d])) = ss ++ [[]] := by
  induction ss with
  | nil => rfl
  | cons t ss ih =>
    obtain ⟨ht, hss⟩ := List.forall_mem_cons.1 hss
    rw [List.flatMap_cons, List.append_assoc, List.singleton_append, pieces_append p t d _ ht hd,
      ih hss, List.cons_append]

/-- What follows a text and does not go on like it makes no difference to where the text is cut. -/
theorem cut_append_right {p : Char → Bool} (s : List Char) {rest : List Char}
    (hr : ∀ c ∈ rest.head?, p c = false) :
    (s ++ rest).takeWhile p = s.takeWhile p ∧ (s ++ rest).dropWhile p = s.dropWhile p ++ rest := by
  induction s with
  | nil =>
    cases rest with
    | nil => exact ⟨rfl, rfl⟩
    | cons c cs => simp [hr c rfl]
  | cons c s ih =>
    cases hc : p c with
    | true => simp [hc, ih]
    | false => simp [hc]

/-- A text is cut where its front ends, if what follows does not go on like it. -/
theorem cut_append {p : Char → Bool} {front rest : List Char} (hf : ∀ c ∈ front, p c = true)
    (hr : ∀ c ∈ rest.head?, p c = false) :
    (front ++ rest).takeWhile p = front ∧ (front ++ rest).dropWhile p = rest := by
  rw [List.takeWhile_append_of_pos hf, List.dropWhile_append_of_pos hf]
  simpa using cut_append_right [] hr

end RecordSearch.Text
