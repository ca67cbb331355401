import Mathlib.Data.List.DropRight
import RecordSearch.Proofs.Text.Percent
import RecordSearch.Proofs.Text.Pieces
import RecordSearch.Url.Reader

/-! Paths of web addresses that are read a second time. -/
namespace RecordSearch.Url
open RecordSearch.Text

@[simp] theorem isSlash_special (port : Nat) (c : Char) :
    isSlash (.special port) c = (c == '/' || c == '\\') :=
  rfl

/-- The characters that an octet is written with stand for themselves in a user and in a path. -/
theorem keepsInUser_of_isOctetChar {c : Char}
    (h : Percent.isOctetChar c = true) : keepsInUser c = true :=
  forall_ascii (p := fun c => Percent.isOctetChar c = true → keepsInUser c = true) (by decide)
    (Percent.lt_of_isOctetChar h) h

theorem keepsInPath_of_isOctetChar {c : Char}
    (h : Percent.isOctetChar c = true) : keepsInPath c = true :=
  forall_ascii (p := fun c => Percent.isOctetChar c = true → keepsInPath c = true) (by decide)
    (Percent.lt_of_isOctetChar h) h

theorem not_slash_of_isOctetChar {c : Char} (h : Percent.isOctetChar c = true) :
    (c == '/' || c == '\\') = false :=
  forall_ascii (p := fun c => Percent.isOctetChar c = true → (c == '/' || c == '\\') = false)
    (by decide)
    (Percent.lt_of_isOctetChar h) h

structure Settled (s : List Char) : Prop where
  kept : ∀ c ∈ s, keepsInPath c = true
  noSlash : ∀ c ∈ s, (c == '/' || c == '\\') = false
  noDot : isSingleDot s = false
  noDots : isDoubleDot s = false

theorem settled_nil : Settled [] := ⟨by simp, by simp, by decide, by decide⟩

/-- Drive letters mean nothing in a web address. -/
theorem resolve_cons (port : Nat) (done : List (List Char)) (raw : List Char)
    (rest : List (List Char)) :
    resolve (.special port) done (raw :: rest) =
      if isDoubleDot (Percent.encode keepsInPath raw) then
        resolve (.special port) (if rest.isEmpty then [] :: shorten done else shorten done) rest
      else if isSingleDot (Percent.encode keepsInPath raw) then
        resolve (.special port) (if rest.isEmpty then [] :: done else done) rest
      else resolve (.special port) (Percent.encode keepsInPath raw :: done) rest := by
  rw [resolve]
  nofun

/-- A settled segment is put behind those read before. -/
theorem resolve_settled (port : Nat) (done : List (List Char)) {s : List Char} (h : Settled s)
    (rest : List (List Char)) :
    resolve (.special port) done (s :: rest) = resolve (.special port) (s :: done) rest := by
  rw [resolve_cons, Percent.encode_of_kept h.kept, h.noDot, h.noDots]
  rfl

theorem resolve_settled_append (port : Nat) (done : List (List Char)) {ss : List (List Char)}
    (h : ∀ s ∈ ss, Settled s) (rest : List (List Char)) :
    resolve (.special port) done (ss ++ rest) =
      resolve (.special port) (ss.reverse ++ done) rest := by
  induction ss generalizing done with
  | nil => rfl
  | cons s ss ih =>
    rw [List.cons_append, resolve_settled port done (h s List.mem_cons_self),
      ih _ fun t ht => h t (List.mem_cons_of_mem _ ht), List.reverse_cons, List.append_assoc,
      List.cons_append, List.nil_append]

theorem mem_of_mem_shorten {s : List Char} {done : List (List Char)}
    (h : s ∈ shorten done) : s ∈ done := by
  unfold shorten at h
  split at h
  · exact h
  · split at h
    · exact h
    · exact List.mem_cons_of_mem _ h

/-- What is read is settled. -/
theorem settled_of_mem_resolve {port : Nat} {done raws : List (List Char)}
    (hd : ∀ s ∈ done, Settled s) (hr : ∀ raw ∈ raws, ∀ c ∈ raw, (c == '/' || c == '\\') = false) :
    ∀ s ∈ resolve (.special port) done raws, Settled s := by
  induction raws generalizing done with
  | nil => simpa [resolve] using hd
  | cons raw rest ih =>
    have hrest := fun r hm => hr r (List.mem_cons_of_mem _ hm)
    rw [resolve_cons]
    split
    · apply ih _ hrest
      intro s hs
      split at hs
      · rcases List.mem_cons.1 hs with rfl | hs
        · exact settled_nil
        · exact hd s (mem_of_mem_shorten hs)
      · exact hd s (mem_of_mem_shorten hs)
    split
    · apply ih _ hrest
      intro s hs
      split at hs
      · rcases List.mem_cons.1 hs with rfl | hs
        · exact settled_nil
        · exact hd s hs
      · exact hd s hs
    · next hdots hdot =>
      apply ih _ hrest
      intro s hs
      rcases List.mem_cons.1 hs with rfl | hs
      · refine ⟨fun c hc => ?_, fun c hc => ?_, by simpa using hdot, by simpa using hdots⟩
        · rcases Percent.mem_encode hc with ⟨-, hk⟩ | ho
          · exact hk
          · exact keepsInPath_of_isOctetChar ho
        · rcases Percent.mem_encode hc with ⟨hm, -⟩ | ho
          · exact hr raw List.mem_cons_self c hm
          · exact not_slash_of_isOctetChar ho
      · exact hd s hs

theorem settled_of_mem_segments {port : Nat} {cs s : List Char}
    (h : s ∈ segments (.special port) cs) : Settled s :=
  settled_of_mem_resolve (by simp) (fun _ hr => not_separator_of_mem_pieces hr) s h

private theorem toNat_of_toLower {c : Char} (h : c.toLower.toNat < 128) : c.toNat < 128 := by
  unfold Char.toLower at h
  split at h
  · next hu => exact Nat.lt_of_le_of_lt (UInt32.le_iff_toNat_le.1 hu.2) (by decide)
  · exact h

/-- What goes for all characters with the small form `d` is checked on the ASCII ones. -/
private theorem of_toLower {q : Char → Prop} {c d : Char} (hd : d.toNat < 128)
    (hq : ∀ n < 128, (Char.ofNat n).toLower = d → q (Char.ofNat n)) (h : c.toLower = d) : q c :=
  forall_ascii (p := fun c => c.toLower = d → q c) hq (toNat_of_toLower (h ▸ hd)) h

private theorem of_toLower_dot {c : Char} (h : c.toLower = '.') : c = '.' :=
  of_toLower (q := (· = '.')) (by decide) (by decide) h

private theorem of_toLower_percent {c : Char} (h : c.toLower = '%') : c = '%' :=
  of_toLower (q := (· = '%')) (by decide) (by decide) h

private theorem of_toLower_two {c : Char} (h : c.toLower = '2') : c = '2' :=
  of_toLower (q := (· = '2')) (by decide) (by decide) h

private theorem of_toLower_e {c : Char} (h : c.toLower = 'e') : c = 'e' ∨ c = 'E' :=
  of_toLower (q := fun c => c = 'e' ∨ c = 'E') (by decide) (by decide) h

private theorem decode_dot {s ds : List Char} (h : s.map Char.toLower = '.' :: ds) :
    ∃ t, t.map Char.toLower = ds ∧ Percent.decode s = 0x2E :: Percent.decode t := by
  obtain ⟨a, t, rfl, ha, ht⟩ := List.map_eq_cons_iff.1 h
  rw [of_toLower_dot ha]
  exact ⟨t, ht, Percent.decode_cons_of_ne (by decide) t⟩

private theorem decode_dot_octet {s ds : List Char}
    (h : s.map Char.toLower = '%' :: '2' :: 'e' :: ds) :
    ∃ t, t.map Char.toLower = ds ∧ Percent.decode s = 0x2E :: Percent.decode t := by
  obtain ⟨a, _, rfl, ha, h⟩ := List.map_eq_cons_iff.1 h
  obtain ⟨b, _, rfl, hb, h⟩ := List.map_eq_cons_iff.1 h
  obtain ⟨c, t, rfl, hc, ht⟩ := List.map_eq_cons_iff.1 h
  rw [of_toLower_percent ha, of_toLower_two hb]
  rcases of_toLower_e hc with rfl | rfl <;> exact ⟨t, ht, rfl⟩

theorem decode_of_isSingleDot {s : List Char} (h : isSingleDot s = true) :
    Percent.decode s = Utf8.encode ['.'] := by
  have last {t : List Char} (ht : t.map Char.toLower = []) : Percent.decode t = [] := by
    rw [List.map_eq_nil_iff.1 ht, Percent.decode_nil]
  rw [isSingleDot, Bool.or_eq_true, beq_iff_eq, beq_iff_eq] at h
  rcases h with h | h
  · obtain ⟨t, ht, hs⟩ := decode_dot h
    rw [hs, last ht]
    rfl
  · obtain ⟨t, ht, hs⟩ := decode_dot_octet h
    rw [hs, last ht]
    rfl

theorem decode_of_isDoubleDot {s : List Char} (h : isDoubleDot s = true) :
    Percent.decode s = Utf8.encode ['.', '.'] := by
  have last {t : List Char} (ht : t.map Char.toLower = []) : Percent.decode t = [] := by
    rw [List.map_eq_nil_iff.1 ht, Percent.decode_nil]
  simp only [isDoubleDot, List.any_cons, List.any_nil, Bool.or_false, Bool.or_eq_true,
    beq_iff_eq] at h
  rcases h with h | h | h | h
  · obtain ⟨t, ht, hs⟩ := decode_dot h
    obtain ⟨u, hu, hs'⟩ := decode_dot ht
    rw [hs, hs', last hu]
    rfl
  · obtain ⟨t, ht, hs⟩ := decode_dot h
    obtain ⟨u, hu, hs'⟩ := decode_dot_octet ht
    rw [hs, hs', last hu]
    rfl
  · obtain ⟨t, ht, hs⟩ := decode_dot_octet h
    obtain ⟨u, hu, hs'⟩ := decode_dot ht
    rw [hs, hs', last hu]
    rfl
  · obtain ⟨t, ht, hs⟩ := decode_dot_octet h
    obtain ⟨u, hu, hs'⟩ := decode_dot_octet ht
    rw [hs, hs', last hu]
    rfl

/-- A written segment is a dot only if its text is. -/
theorem isSingleDot_segment (cs : List Char) :
    isSingleDot (Percent.encode Percent.isUnreserved cs) = decide (cs = ['.']) := by
  rw [Bool.eq_iff_iff, decide_eq_true_eq]
  constructor
  · intro h
    have hd := decode_of_isSingleDot h
    rw [Percent.decode_encode (by decide)] at hd
    exact Utf8.encode_injective hd
  · rintro rfl
    decide

theorem isDoubleDot_segment (cs : List Char) :
    isDoubleDot (Percent.encode Percent.isUnreserved cs) = decide (cs = ['.', '.']) := by
  rw [Bool.eq_iff_iff, decide_eq_true_eq]
  constructor
  · intro h
    have hd := decode_of_isDoubleDot h
    rw [Percent.decode_encode (by decide)] at hd
    exact Utf8.encode_injective hd
  · rintro rfl
    decide

end RecordSearch.Url
