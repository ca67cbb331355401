import RecordSearch.Decimal.Layout
import RecordSearch.Proofs.Text.Digits

/-! The characters that doubles are written with. -/
namespace RecordSearch.Decimal.Layout
variable {p : Char → Prop} (hdigit : ∀ d < 10, p (Nat.digitChar d))
  (hmark : p '.' ∧ p 'e' ∧ p '-' ∧ p '+')
include hdigit hmark

private theorem forall_write (f : Layout) {ds : List Char} (hds : ∀ c ∈ ds, p c)
    (lead : Int) : ∀ c ∈ f.write ds lead, p c := by
  obtain ⟨hpoint, he, hminus, hplus⟩ := hmark
  have hzeros (n : Nat) : ∀ c ∈ List.replicate n '0', p c :=
    fun c hc => (List.mem_replicate.1 hc).2 ▸ hdigit 0 (by decide)
  have hwhole (n m : Nat) : ∀ c ∈ ds.take n ++ List.replicate m '0', p c :=
    List.forall_mem_append.2 ⟨fun c hc => hds c (List.mem_of_mem_take hc), hzeros m⟩
  unfold write
  extract_lets positional n whole mantissa
  clear_value positional
  cases positional with
  | true =>
    rw [if_pos rfl]
    split
    · exact List.forall_mem_cons.2
        ⟨hdigit 0 (by decide),
          List.forall_mem_cons.2 ⟨hpoint, List.forall_mem_append.2 ⟨hzeros _, hds⟩⟩⟩
    · split
      · split
        · exact List.forall_mem_append.2
            ⟨hwhole _ _,
              List.forall_mem_cons.2 ⟨hpoint, List.forall_mem_singleton.2 (hdigit 0 (by decide))⟩⟩
        · exact hwhole _ _
      · exact List.forall_mem_append.2
          ⟨hwhole _ _, List.forall_mem_cons.2 ⟨hpoint, fun c hc => hds c (List.mem_of_mem_drop hc)⟩⟩
  | false =>
    rw [if_neg Bool.false_ne_true]
    refine List.forall_mem_append.2
      ⟨?_, List.forall_mem_cons.2 ⟨he, List.forall_mem_cons.2 ⟨?_, ?_⟩⟩⟩
    · unfold mantissa
      split
      · obtain ⟨hd, hrest⟩ := List.forall_mem_cons.1 hds
        exact List.forall_mem_cons.2 ⟨hd, List.forall_mem_cons.2 ⟨hpoint, hrest⟩⟩
      · exact hds
    · split
      · exact hminus
      · exact hplus
    · exact fun c => Text.forall_decimal hdigit

/-- What holds of digits, of the marks of a number and of the letters of what is none holds of all
that a double is written with. -/
theorem forall_text (hletter : p 'N' ∧ p 'a' ∧ p 'i' ∧ p 'n' ∧ p 'f') (f : Layout)
    (x : Float) : ∀ c ∈ f.text x, p c := by
  obtain ⟨hN, ha, hi, hn, hf⟩ := hletter
  have hsign : ∀ c ∈ (if Binary.isNegative x then ['-'] else []), p c := by
    split
    · exact List.forall_mem_singleton.2 hmark.2.2.1
    · exact List.forall_mem_nil _
  unfold text
  split
  · change ∀ c ∈ ['N', 'a', 'N'], p c
    exact List.forall_mem_cons.2 ⟨hN, List.forall_mem_cons.2 ⟨ha, List.forall_mem_singleton.2 hN⟩⟩
  · dsimp only
    split
    · refine List.forall_mem_append.2 ⟨hsign, ?_⟩
      change ∀ c ∈ ['i', 'n', 'f'], p c
      exact List.forall_mem_cons.2 ⟨hi, List.forall_mem_cons.2 ⟨hn, List.forall_mem_singleton.2 hf⟩⟩
    · refine List.forall_mem_append.2 ⟨hsign, forall_write hdigit hmark f ?_ _⟩
      split
      · exact List.forall_mem_singleton.2 (hdigit 0 (by decide))
      · next ds _ _ =>
        intro c hc
        rw [List.mem_reverse] at hc
        exact Text.forall_decimal hdigit (List.mem_reverse.1 ((List.dropWhile_sublist _).mem hc))

end RecordSearch.Decimal.Layout
