import Mathlib.Data.List.TakeWhile
import RecordSearch.Text.Blank

/-! What trimming leaves of a text. -/
namespace RecordSearch.Text
variable {cs : List Char}

structure Trimmed (cs inner : List Char) : Prop where
  around : ∃ before after, cs = before ++ inner ++ after ∧ (∀ c ∈ before, isBlank c = true) ∧
    ∀ c ∈ after, isBlank c = true
  first : ∃ c, inner.head? = some c ∧ isBlank c = false
  last : ∃ c, inner.getLast? = some c ∧ isBlank c = false

/-- Nothing is left of a text only if all of it is blank. -/
theorem trim_eq_nil_iff : trim cs = [] ↔ ∀ c ∈ cs, isBlank c = true := by
  simp only [trim, dropEnd, List.reverse_eq_nil_iff, List.dropWhile_eq_nil_iff, List.mem_reverse]
  constructor
  · intro h
    rw [← List.takeWhile_append_dropWhile (p := isBlank) (l := cs), List.forall_mem_append]
    exact ⟨fun c hc => List.mem_takeWhile_imp hc, h⟩
  · exact fun h c hc => h c ((List.dropWhile_suffix isBlank).subset hc)

private theorem trim_append_takeWhile (cs : List Char) :
    trim cs ++ ((cs.dropWhile isBlank).reverse.takeWhile isBlank).reverse =
      cs.dropWhile isBlank := by
  rw [trim, dropEnd, ← List.reverse_append, List.takeWhile_append_dropWhile, List.reverse_reverse]

theorem trimmed_trim (h : trim cs ≠ []) : Trimmed cs (trim cs) where
  around := by
    refine ⟨cs.takeWhile isBlank, ((cs.dropWhile isBlank).reverse.takeWhile isBlank).reverse, ?_,
      fun c hc => List.mem_takeWhile_imp hc,
      fun c hc => List.mem_takeWhile_imp (List.mem_reverse.1 hc)⟩
    rw [List.append_assoc, trim_append_takeWhile, List.takeWhile_append_dropWhile]
  first := by
    obtain ⟨c, rest, hcons⟩ := List.exists_cons_of_ne_nil h
    have hfront := trim_append_takeWhile cs
    rw [hcons, List.cons_append] at hfront
    have hhead := List.head?_dropWhile_not isBlank cs
    rw [← hfront] at hhead
    exact ⟨c, by rw [hcons]; rfl, hhead⟩
  last := ⟨(trim cs).getLast h, List.getLast?_eq_some_getLast h, getLast_trim cs h⟩

end RecordSearch.Text
