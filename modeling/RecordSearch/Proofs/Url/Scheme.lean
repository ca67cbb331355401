import RecordSearch.Proofs.Url.Segments
import RecordSearch.Proofs.Url.Web

/-! Schemes, and the text behind them. -/
namespace RecordSearch.Url
open RecordSearch.Text

def IsWeb (scheme : List Char) (standard : Nat) : Prop :=
  scheme = "http".toList ∧ standard = 80 ∨ scheme = "https".toList ∧ standard = 443

theorem IsWeb.kind {scheme : List Char} {standard : Nat} (h : IsWeb scheme standard) :
    Kind.of scheme = .special standard := by
  rcases h with ⟨rfl, rfl⟩ | ⟨rfl, rfl⟩ <;> rfl

private theorem scheme_of_bind {α : Type} {x : Except Fault α} {f : α → Except Fault Url} {u : Url}
    {scheme : List Char} (h : x >>= f = .ok u)
    (hf : ∀ a, f a = .ok u → u.scheme = scheme) : u.scheme = scheme := by
  obtain ⟨a, -, ha⟩ := ok_of_bind h
  exact hf a ha

private theorem scheme_of_ok {u v : Url}
    (h : (.ok v : Except Fault Url) = .ok u) : u.scheme = v.scheme := by
  rw [Except.ok.inj h]

theorem readFile_scheme {s : List Char} {u : Url}
    (h : readFile s = .ok u) : u.scheme = "file".toList := by
  unfold readFile at h
  dsimp only at h
  split at h
  · split at h
    · split at h
      · exact scheme_of_bind h fun _ => scheme_of_ok
      split at h
      · exact scheme_of_bind h fun _ => scheme_of_ok
      · exact scheme_of_bind h fun _ h => scheme_of_bind h fun _ => scheme_of_ok
    · exact scheme_of_bind h fun _ => scheme_of_ok
  · exact scheme_of_bind h fun _ => scheme_of_ok

theorem readAuthority_scheme {scheme : List Char} {kind : Kind} {s : List Char} {u : Url}
    (h : readAuthority scheme kind s = .ok u) :
    u.scheme = scheme := by
  unfold readAuthority at h
  dsimp only at h
  split at h
  · contradiction
  split at h
  · contradiction
  split at h <;> refine scheme_of_bind h fun host h => ?_
  all_goals
    split at h
    · contradiction
    split at h
    · exact scheme_of_bind h fun _ => scheme_of_ok
    · exact scheme_of_bind h fun _ => scheme_of_ok

private theorem scheme_of_kind {scheme : List Char}
    (h : Kind.of scheme = .file) : scheme = "file".toList := by
  unfold Kind.of at h
  split at h
  · next hs => rw [← hs, String.toList_ofList]
  all_goals contradiction

/-- The scheme of a text is that of its address. -/
theorem read_scheme {s scheme rest : List Char} (hs : splitScheme (cleaned s) = some (scheme, rest))
    {u : Url} (h : read s = .ok u) :
    u.scheme = scheme := by
  unfold read at h
  rw [hs] at h
  dsimp only at h
  split at h
  · next hk =>
    exact (readFile_scheme h).trans (scheme_of_kind hk).symm
  · exact readAuthority_scheme h
  · split at h
    · exact readAuthority_scheme h
    · exact scheme_of_ok h

/-- What is read with one of these schemes is settled. -/
theorem read_settled {s : List Char} {u : Url} (h : read s = .ok u) {standard : Nat}
    (hw : IsWeb u.scheme standard) :
    SettledUrl standard u := by
  cases hs : splitScheme (cleaned s) with
  | none =>
    rw [read, hs] at h
    contradiction
  | some found =>
    obtain ⟨scheme, rest⟩ := found
    obtain rfl := read_scheme hs h
    simp only [read, hs, hw.kind] at h
    exact (readAuthority_settled h).2

structure SettledScheme (scheme : List Char) : Prop where
  alpha : ∃ a s, scheme = a :: s ∧ a.isAlpha = true
  chars : ∀ c ∈ scheme, isSchemeChar c = true ∧ c.toLower = c

private theorem toNat_lt_of_isSchemeChar {c : Char}
    (h : isSchemeChar c = true) : c.toNat < 128 := by
  simp only [isSchemeChar, Bool.or_eq_true, beq_iff_eq] at h
  rcases h with ((h | rfl) | rfl) | rfl
  · exact toNat_lt_of_isAlphanum h
  all_goals decide

theorem of_isSchemeChar {c : Char} (h : isSchemeChar c = true) :
    isSchemeChar c.toLower = true ∧ c.toLower.toLower = c.toLower ∧
    (c.isAlpha = true → c.toLower.isAlpha = true) ∧ ¬c ≤ ' ' ∧
      (['\t', '\n', '\r'].contains c) = false :=
  forall_ascii (p := fun c => isSchemeChar c = true →
    isSchemeChar c.toLower = true ∧ c.toLower.toLower = c.toLower ∧
    (c.isAlpha = true → c.toLower.isAlpha = true) ∧ ¬c ≤ ' ' ∧
      (['\t', '\n', '\r'].contains c) = false) (by decide)
    (toNat_lt_of_isSchemeChar h) h

theorem splitScheme_settled {s scheme rest : List Char}
    (h : splitScheme s = some (scheme, rest)) : SettledScheme scheme := by
  unfold splitScheme at h
  split at h
  · next c t _ _ =>
    split at h
    · next ha =>
      obtain ⟨rfl, -⟩ := Prod.mk.inj (Option.some.inj h)
      have hc : isSchemeChar c = true := by simp [isSchemeChar, Char.isAlphanum, ha]
      refine ⟨⟨c.toLower, (t.takeWhile isSchemeChar).map Char.toLower, ?_,
        (of_isSchemeChar hc).2.2.1 ha⟩, fun d hd => ?_⟩
      · rw [List.takeWhile_cons_of_pos hc, List.map_cons]
      · obtain ⟨e, he, rfl⟩ := List.mem_map.1 hd
        have hm := of_isSchemeChar (List.mem_takeWhile_imp he)
        exact ⟨hm.1, hm.2.1⟩
    · contradiction
  · contradiction

theorem splitScheme_append {scheme : List Char} (h : SettledScheme scheme) (rest : List Char) :
    splitScheme (scheme ++ ':' :: rest) = some (scheme, rest) := by
  have hend : ∀ c ∈ (':' :: rest).head?, isSchemeChar c = false := by
    simp
    decide
  obtain ⟨htake, hdrop⟩ := cut_append (fun c hc => (h.chars c hc).1) hend
  have hlower : scheme.map Char.toLower = scheme := by
    rw [List.map_congr_left fun c hm => (h.chars c hm).2, List.map_id']
  obtain ⟨a, s, rfl, ha⟩ := h.alpha
  unfold splitScheme
  rw [htake, hdrop, hlower, List.cons_append]
  exact if_pos ha

/-- Nothing is taken from a scheme when its text is cleaned. -/
theorem cleaned_append {scheme : List Char} (h : SettledScheme scheme) (rest : List Char) :
    ∃ rest', cleaned (scheme ++ ':' :: rest) = scheme ++ ':' :: rest' := by
  have hstart : (scheme ++ ':' :: rest).dropWhile (· ≤ ' ') = scheme ++ ':' :: rest := by
    obtain ⟨a, s, rfl, ha⟩ := h.alpha
    have hle := (of_isSchemeChar (h.chars a List.mem_cons_self).1).2.2.2.1
    rw [List.cons_append, List.dropWhile_cons_of_neg (by simpa using hle)]
  have hkept : scheme.filter (fun c => !(['\t', '\n', '\r'].contains c)) = scheme :=
    List.filter_eq_self.2 fun c hc => by rw [(of_isSchemeChar (h.chars c hc).1).2.2.2.2]; rfl
  refine ⟨(dropEnd (· ≤ ' ') rest).filter fun c => !(['\t', '\n', '\r'].contains c), ?_⟩
  rw [cleaned, hstart, List.append_cons, dropEnd_append (by simp), List.filter_append,
    List.filter_append, hkept, List.append_assoc]
  rfl

/-- A text without white space and control characters is clean. -/
theorem cleaned_of_visible {s : List Char} (h : ∀ c ∈ s, ' ' < c) : cleaned s = s := by
  have hstart : s.dropWhile (· ≤ ' ') = s := by
    cases s with
    | nil => rfl
    | cons c s => rw [List.dropWhile_cons_of_neg (by simpa using h c List.mem_cons_self)]
  have hend : dropEnd (· ≤ ' ') s = s := by
    have hlast : ∀ c ∈ s.getLast?, decide (c ≤ ' ') = false :=
      fun c hc => by simpa using h c (List.mem_of_getLast? hc)
    simpa [dropEnd] using dropEnd_append hlast []
  rw [cleaned, hstart, hend, List.filter_eq_self]
  intro c hc
  have hlt := h c hc
  simp only [List.contains_cons, List.contains_nil, Bool.or_false, Bool.not_eq_true',
    Bool.or_eq_false_iff, beq_eq_false_iff_ne]
  refine ⟨?_, ?_, ?_⟩ <;> (rintro rfl; exact absurd hlt (by decide))

end RecordSearch.Url
