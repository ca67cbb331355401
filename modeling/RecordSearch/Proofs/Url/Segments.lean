import RecordSearch.Proofs.Url.Path
import RecordSearch.Text.Blank

/-! Paths that names are added to, each written as one segment. -/
namespace RecordSearch.Url
open RecordSearch.Text

def written (name : String) : List Char := Percent.encode Percent.isUnreserved name.toList

def IsDots (name : String) : Prop := name = "." ∨ name = ".."

instance (name : String) : Decidable (IsDots name) := inferInstanceAs (Decidable (_ ∨ _))

def Names (segment : List Char) (name : String) : Prop :=
  Utf8.decode? (Percent.decode segment) = some name.toList

theorem names_written (name : String) : Names (written name) name := Percent.decode?_segment _

/-- An empty segment stands for the empty name only. -/
theorem names_nil_iff (name : String) : Names [] name ↔ name = "" := by
  have hd : Utf8.decode? (Percent.decode []) = some [] := Utf8.decode?_encode []
  rw [Names, hd, Option.some_inj, eq_comm, String.toList_eq_nil_iff]

private theorem of_isUnreserved {c : Char} (h : Percent.isUnreserved c = true) :
    keepsInPath c = true ∧ (c == '/' || c == '\\') = false := by
  exact forall_ascii
    (p := fun c => Percent.isUnreserved c = true →
      keepsInPath c = true ∧
      (c == '/' || c == '\\') = false) (by decide) (Percent.toNat_lt_of_isUnreserved h) h

theorem keepsInPath_of_mem_written {name : String} {c : Char}
    (h : c ∈ written name) : keepsInPath c = true := by
  rcases Percent.mem_encode h with ⟨-, hk⟩ | ho
  · exact (of_isUnreserved hk).1
  · exact keepsInPath_of_isOctetChar ho

theorem not_slash_of_mem_written {name : String} {c : Char} (h : c ∈ written name) :
    (c == '/' || c == '\\') = false := by
  rcases Percent.mem_encode h with ⟨-, hk⟩ | ho
  · exact (of_isUnreserved hk).2
  · exact not_slash_of_isOctetChar ho

private theorem toList_eq_iff (a b : String) : a.toList = b.toList ↔ a = b := String.toList_inj

theorem isSingleDot_written (name : String) : isSingleDot (written name) = decide (name = ".") := by
  rw [written, isSingleDot_segment]
  exact decide_eq_decide.2 (toList_eq_iff name ".")

theorem isDoubleDot_written (name : String) :
    isDoubleDot (written name) = decide (name = "..") := by
  rw [written, isDoubleDot_segment]
  exact decide_eq_decide.2 (toList_eq_iff name "..")

/-- A name that is no dots stays as it is written. -/
theorem settled_written {name : String} (h : ¬IsDots name) : Settled (written name) where
  kept _ := keepsInPath_of_mem_written
  noSlash _ := not_slash_of_mem_written
  noDot := by simpa [isSingleDot_written] using fun he => h (.inl he)
  noDots := by simpa [isDoubleDot_written] using fun he => h (.inr he)

private theorem encode_written (name : String) :
    Percent.encode keepsInPath (written name) = written name :=
  Percent.encode_of_kept fun _ => keepsInPath_of_mem_written

/-- A dot is passed over. At the end it leaves an empty segment. -/
theorem resolve_dot (port : Nat) (done rest : List (List Char)) :
    resolve (.special port) done (written "." :: rest) =
    resolve (.special port) (if rest.isEmpty then [] :: done else done) rest := by
  rw [resolve_cons, encode_written, isDoubleDot_written, isSingleDot_written]
  rfl

/-- Two dots take the segment before them away. At the end they leave an empty segment. -/
theorem resolve_dots (port : Nat) (done rest : List (List Char)) :
    resolve (.special port) done (written ".." :: rest) =
    resolve (.special port) (if rest.isEmpty then [] :: shorten done else shorten done) rest := by
  rw [resolve_cons, encode_written, isDoubleDot_written]
  rfl

def stem (segments : List (List Char)) : List (List Char) := segments.rdropWhile List.isEmpty

theorem mem_of_mem_stem {segments : List (List Char)} {s : List Char}
    (h : s ∈ stem segments) : s ∈ segments :=
  (List.rdropWhile_prefix _ _).mem h

/-- What is dropped from the end ends at a character that stays. -/
theorem dropEnd_append {p : Char → Bool} {front : List Char}
    (hf : ∀ c ∈ front.getLast?, p c = false) (back : List Char) :
    dropEnd p (front ++ back) = front ++ dropEnd p back := by
  have hfront : front.reverse.dropWhile p = front.reverse := by
    cases hr : front.reverse with
    | nil => rfl
    | cons c cs =>
      have hc : p c = false := hf c (by rw [← List.head?_reverse, hr]; rfl)
      rw [List.dropWhile_cons_of_neg (by simp [hc])]
  unfold dropEnd
  rw [List.reverse_append, List.dropWhile_append]
  split
  · next he =>
      rw [List.isEmpty_iff.1 he, hfront, List.reverse_reverse, List.reverse_nil, List.append_nil]
  · rw [List.reverse_append, List.reverse_reverse]

/-- Slashes at the end of a path go with its empty segments there. -/
theorem dropEnd_slash (segments : List (List Char)) (hs : ∀ s ∈ segments, ∀ c ∈ s, c ≠ '/') :
    dropEnd (· == '/') (segments.flatMap ('/' :: ·)) = (stem segments).flatMap ('/' :: ·) := by
  change List.rdropWhile _ _ = _
  induction segments using List.reverseRecOn with
  | nil => rfl
  | append_singleton ss s ih =>
    rw [List.flatMap_append, List.flatMap_singleton]
    by_cases hn : s = []
    · rw [stem, List.rdropWhile_concat_pos _ _ _ (by simp [hn]), hn,
        List.rdropWhile_concat_pos _ _ _ (by simp)]
      exact ih fun t ht => hs t (List.mem_append_left _ ht)
    · have hl := hs s (by simp) _ (List.getLast_mem hn)
      rw [stem, List.rdropWhile_concat_neg _ _ _ (by simpa using hn), List.flatMap_append,
        List.flatMap_singleton, List.rdropWhile_eq_self_iff]
      intro hne
      rw [List.getLast_append_of_ne_nil _ (by simp), List.getLast_cons hn]
      simpa using hl

section Documents

def follow (done : List (List Char)) (name : String) : List (List Char) :=
  if name = "." then done else if name = ".." then shorten done else written name :: done

private theorem resolve_written (port : Nat) (done : List (List Char)) (name : String)
    {rest : List (List Char)} (hr : rest ≠ []) :
    resolve (.special port) done (written name :: rest) =
      resolve (.special port) (follow done name) rest := by
  have he : rest.isEmpty = false := by simpa using hr
  unfold follow
  split
  · next hn => rw [hn, resolve_dot, he]; rfl
  split
  · next hn => rw [hn, resolve_dots, he]; rfl
  · next hdot hdots =>
      exact resolve_settled port done (settled_written (not_or.2 ⟨hdot, hdots⟩)) rest

private theorem stem_concat_nil (segments : List (List Char)) :
    stem (segments ++ [[]]) = stem segments :=
  List.rdropWhile_concat_pos _ _ _ rfl

private theorem stem_concat {s : List Char} (hs : s ≠ []) (segments : List (List Char)) :
    stem (segments ++ [s]) = segments ++ [s] :=
  List.rdropWhile_concat_neg _ _ _ (by simpa using hs)

private theorem length_follow_le {name : String} (h : IsDots name) (done : List (List Char)) :
    (follow done name).length ≤ done.length := by
  rcases h with rfl | rfl
  · exact Nat.le_refl _
  · change (shorten done).length ≤ _
    unfold shorten
    split
    · exact Nat.le_refl _
    · split
      · exact Nat.le_refl _
      · exact Nat.le_succ _

/-- The path of a document under a base path. Dots are steps in it. -/
def documentPath (base : List (List Char)) (target id : String) : List (List Char) :=
  let index := (follow base.reverse target).reverse
  if id = "." then index ++ [written "_doc", []]
  else if id = ".." then index ++ [[]]
  else index ++ [written "_doc", written id]

theorem resolve_document (port : Nat) (base : List (List Char)) (target id : String) :
    resolve (.special port) base.reverse [written target, written "_doc", written id] =
      documentPath base target id := by
  have hdoc : ¬IsDots "_doc" := by decide
  have hshort (done : List (List Char)) : shorten (written "_doc" :: done) = done := by
    rw [shorten, if_neg (by decide)]
  rw [resolve_written port _ target (by simp), resolve_settled port _ (settled_written hdoc)]
  unfold documentPath
  split
  · next hn =>
    rw [hn, resolve_dot, resolve]
    simp
  split
  · next hn =>
    rw [hn, resolve_dots, hshort, resolve]
    simp
  · next hdot hdots =>
    rw [resolve_settled port _ (settled_written (not_or.2 ⟨hdot, hdots⟩)), resolve]
    simp

/-- A path of three more segments than its base, which stand for an index, the fixed name, and a
key. -/
def Addresses (base : List (List Char)) (path : Path) (target id : String) : Prop :=
  ∃ a b c, path = .rooted (base ++ [a, b, c]) ∧ Names a target ∧ Names b "_doc" ∧ Names c id

theorem documentPath_of_not_dots (base : List (List Char)) {target id : String}
    (ht : ¬IsDots target) (hi : ¬IsDots id) :
    documentPath base target id = base ++ [written target, written "_doc", written id] := by
  obtain ⟨htd, htds⟩ := not_or.1 ht
  obtain ⟨hid, hids⟩ := not_or.1 hi
  simp [documentPath, follow, htd, htds, hid, hids]

/-- The path leads to the document unless the index or the key is dots. -/
theorem addresses_documentPath_iff (base : List (List Char)) (target id : String) :
    Addresses base (.rooted (documentPath base target id)) target id ↔
    ¬IsDots target ∧ ¬IsDots id := by
  constructor
  · rintro ⟨a, b, c, hp, -, -, hc⟩
    have hp : documentPath base target id = base ++ [a, b, c] := by simpa using hp
    have hi : ¬IsDots id := by
      intro hi
      have hlast : (documentPath base target id).getLast? = some [] := by
        rcases hi with rfl | rfl <;> simp [documentPath]
      obtain rfl : c = [] := by simpa [hp] using hlast
      have he := (names_nil_iff id).1 hc
      rcases hi with rfl | rfl <;> exact absurd he (by decide)
    refine ⟨fun ht => ?_, hi⟩
    obtain ⟨hid, hids⟩ := not_or.1 hi
    have hlen := congrArg List.length hp
    have hle := length_follow_le ht base.reverse
    simp only [documentPath, if_neg hid, if_neg hids, List.length_append, List.length_reverse,
      List.length_cons, List.length_nil] at hlen hle
    omega
  · rintro ⟨ht, hi⟩
    exact ⟨_, _, _, congrArg Path.rooted (documentPath_of_not_dots base ht hi), names_written _,
      names_written _, names_written _⟩

/-- Only one key takes the path back to the index, and it does so for every index. -/
theorem stem_documentPath_eq_iff (base : List (List Char)) {target : String} (ht : ¬IsDots target)
    (id : String) :
    stem (documentPath base target id) = stem (base ++ [written target]) ↔ id = ".." := by
  obtain ⟨htd, htds⟩ := not_or.1 ht
  have hdoc : written "_doc" ≠ [] := by decide
  have hindex : documentPath base target ".." = (base ++ [written target]) ++ [[]] := by
    simp [documentPath, follow, htd, htds]
  constructor
  · intro he
    by_contra hid
    obtain ⟨last, hp⟩ : ∃ last, documentPath base target id =
      base ++ [written target] ++ [written "_doc"] ++ [last] := by
      by_cases hd : id = "."
      · exact ⟨[], by simp [documentPath, follow, htd, htds, hd]⟩
      · exact ⟨written id, by simp [documentPath, follow, htd, htds, hd, hid]⟩
    have hlong : (base ++ [written target] ++ [written "_doc"]).length ≤
        (stem (documentPath base target id)).length := by
      rw [hp]
      by_cases hn : last = []
      · rw [hn, stem_concat_nil, stem_concat hdoc]
      · rw [stem_concat hn]
        exact (List.prefix_append _ _).length_le
    have hshort : (stem (base ++ [written target])).length ≤ (base ++ [written target]).length :=
      (List.rdropWhile_prefix _ _).length_le
    rw [he] at hlong
    simp only [List.length_append, List.length_cons, List.length_nil] at hlong hshort
    omega
  · rintro rfl
    rw [hindex, stem_concat_nil]

end Documents
end RecordSearch.Url
