import RecordSearch.Proofs.Decimal.Layout
import RecordSearch.Proofs.Json.Canonical
import RecordSearch.Proofs.Json.ReadBack

/-! Numbers that are read back by themselves are read back wherever they stand. -/
namespace RecordSearch.Json

namespace Reader
open Text

/-- A reader of a part of a text takes a front of it, and takes the same front when something else
follows that ends a number. -/
def TakesFront {α : Type} (read : List Char → Part α) : Prop :=
  ∀ s x rest, read s = .read x rest →
    ∃ front, s = front ++ rest ∧ ∀ other, Ends other → read (front ++ other) = .read x other

theorem Ends.not_digit {rest : List Char} (h : Ends rest) : ∀ c ∈ rest.head?, isDigit c = false :=
  fun c hc => (h c hc).1

private theorem exponentPart_of_ends (negative : Bool) (whole : List Char)
    (fraction : Option (List Char)) {rest : List Char} (h : Ends rest) :
    exponentPart negative whole fraction rest = .read ⟨negative, whole, fraction, none⟩ rest := by
  cases rest with
  | nil => rfl
  | cons c rest =>
    obtain ⟨-, -, he, hE⟩ := h c rfl
    have hmark : ¬(c == 'e' || c == 'E') = true := by simp [he, hE]
    rw [exponentPart, if_neg hmark]

/-- A sign in front of digits is read by itself. -/
private theorem exponentSign_front (s : List Char) :
    ∃ sign, s = sign ++ (exponentSign s).2 ∧
    ∀ d ds, isDigit d = true → exponentSign (sign ++ d :: ds) = ((exponentSign s).1, d :: ds) := by
  unfold exponentSign
  split
  · exact ⟨['-'], rfl, fun _ _ _ => rfl⟩
  · exact ⟨['+'], rfl, fun _ _ _ => rfl⟩
  · refine ⟨[], rfl, fun d ds hd => ?_⟩
    rw [List.nil_append]
    split
    · next he =>
      obtain ⟨rfl, -⟩ := List.cons.inj he
      exact absurd hd (by decide)
    · next he =>
      obtain ⟨rfl, -⟩ := List.cons.inj he
      exact absurd hd (by decide)
    · rfl

private theorem takesFront_exponentPart (negative : Bool) (whole : List Char)
    (fraction : Option (List Char)) :
    TakesFront (exponentPart negative whole fraction) := by
  intro s x rest h
  cases s with
  | nil =>
    obtain ⟨rfl, rfl⟩ := Part.read.inj h
    exact ⟨[], rfl, fun other ho => exponentPart_of_ends negative whole fraction ho⟩
  | cons c s =>
    rw [exponentPart] at h
    split at h
    · next hmark =>
      dsimp only at h
      obtain ⟨sign, hs, hsign⟩ := exponentSign_front s
      generalize (exponentSign s).1 = minus at h hsign
      generalize (exponentSign s).2 = t at h hs
      split at h
      · contradiction
      · next hne =>
        obtain ⟨rfl, rfl⟩ := Part.read.inj h
        obtain ⟨d, ds, hds⟩ :=
          List.exists_cons_of_ne_nil (l := t.takeWhile isDigit) (by simpa using hne)
        have hdigits : ∀ c ∈ t.takeWhile isDigit, isDigit c = true :=
          fun c => List.all_eq_true.1 List.all_takeWhile c
        refine ⟨c :: (sign ++ t.takeWhile isDigit), ?_, fun other ho => ?_⟩
        · rw [hs, List.cons_append, List.append_assoc, List.takeWhile_append_dropWhile]
        · obtain ⟨htake, hdrop⟩ := cut_append hdigits ho.not_digit
          have hread : exponentSign (sign ++ (t.takeWhile isDigit ++ other)) =
              (minus, t.takeWhile isDigit ++ other) := by
            rw [hds]
            exact hsign d _ (hdigits d (hds ▸ List.mem_cons_self))
          rw [List.cons_append, List.append_assoc, exponentPart, if_pos hmark, hread]
          dsimp only
          rw [htake, hdrop, if_neg hne]
    · obtain ⟨rfl, rfl⟩ := Part.read.inj h
      exact ⟨[], rfl, fun other ho => exponentPart_of_ends negative whole fraction ho⟩

/-- A point begins a fraction, and nothing else does. -/
private theorem fractionPart_of_ne (negative : Bool) (whole : List Char) {s : List Char}
    (h : ∀ t, s ≠ '.' :: t) :
    fractionPart negative whole s = exponentPart negative whole none s := by
  unfold fractionPart
  split
  · next t => exact absurd rfl (h t)
  · rfl

private theorem Ends.ne_point {rest : List Char} (h : Ends rest)
    (t : List Char) : rest ≠ '.' :: t := by
  rintro rfl
  exact (h '.' rfl).2.1 rfl

/-- Where digits stop, they also stop when the rest is changed for one that ends a number. -/
private theorem stop_of_front {t front rest other : List Char}
    (h : t.dropWhile isDigit = front ++ rest) (ho : Ends other) :
    ∀ c ∈ (front ++ other).head?, isDigit c = false := by
  cases front with
  | nil => exact ho.not_digit
  | cons d front =>
    intro c hc
    obtain rfl := Option.some.inj hc
    have hhead := List.head?_dropWhile_not isDigit t
    rw [h] at hhead
    exact Bool.eq_false_iff.2 (by simpa using hhead)

private theorem takesFront_fractionPart (negative : Bool) (whole : List Char) :
    TakesFront (fractionPart negative whole) := by
  intro s x rest h
  by_cases hpoint : ∃ t, s = '.' :: t
  · obtain ⟨t, rfl⟩ := hpoint
    rw [fractionPart] at h
    split at h
    · contradiction
    · next hne =>
      obtain ⟨front, hs, hfront⟩ := takesFront_exponentPart negative whole _ _ _ _ h
      have hdigits : ∀ c ∈ t.takeWhile isDigit, isDigit c = true :=
        fun c => List.all_eq_true.1 List.all_takeWhile c
      refine ⟨'.' :: (t.takeWhile isDigit ++ front), ?_, fun other ho => ?_⟩
      · rw [List.cons_append, List.append_assoc, ← hs, List.takeWhile_append_dropWhile]
      · obtain ⟨htake, hdrop⟩ := cut_append hdigits (stop_of_front hs ho)
        rw [List.cons_append, List.append_assoc, fractionPart]
        rw [htake, hdrop, if_neg hne, hfront other ho]
  · rw [not_exists] at hpoint
    rw [fractionPart_of_ne negative whole hpoint] at h
    obtain ⟨front, rfl, hfront⟩ := takesFront_exponentPart negative whole none _ _ _ h
    refine ⟨front, rfl, fun other ho => ?_⟩
    rw [fractionPart_of_ne, hfront other ho]
    cases front with
    | nil => exact ho.ne_point
    | cons d front =>
      intro t ht
      obtain ⟨rfl, -⟩ := List.cons.inj ht
      exact hpoint _ rfl

private theorem numeral_zero (negative : Bool) {s : List Char}
    (h : ∀ c ∈ s.head?, isDigit c = false) :
    numeral negative ('0' :: s) = fractionPart negative ['0'] s := by
  cases s with
  | nil => rfl
  | cons d s =>
    change (if isDigit d = true then _ else fractionPart negative ['0'] (d :: s)) = _
    rw [h d rfl, if_neg Bool.false_ne_true]

private theorem numeral_digit (negative : Bool) {c : Char} (hc : isDigit c = true) (hz : c ≠ '0')
    (s : List Char) :
    numeral negative (c :: s) =
      fractionPart negative ((c :: s).takeWhile isDigit) ((c :: s).dropWhile isDigit) := by
  unfold numeral
  split
  · contradiction
  · next he => exact absurd (List.cons.inj he).1 hz
  · next he =>
    obtain ⟨rfl, -⟩ := List.cons.inj he
    rw [if_pos hc]

/-- What numerals begin with. -/
private theorem numeral_cases {negative : Bool} {s rest : List Char} {x : Numeral}
    (h : numeral negative s = .read x rest) :
    (∃ t, s = '0' :: t ∧ ∀ c ∈ t.head?, isDigit c = false) ∨
    ∃ c t, s = c :: t ∧ isDigit c = true ∧ c ≠ '0' := by
  cases s with
  | nil => exact nomatch h
  | cons c s =>
    by_cases hz : c = '0'
    · subst hz
      refine .inl ⟨s, rfl, fun d hd => ?_⟩
      cases s with
      | nil => exact nomatch hd
      | cons d s =>
        obtain rfl := Option.some.inj hd
        refine Bool.eq_false_iff.2 fun hdigit => ?_
        change (if isDigit d = true then _ else _) = _ at h
        rw [if_pos hdigit] at h
        exact nomatch h
    · refine .inr ⟨c, s, rfl, ?_, hz⟩
      unfold numeral at h
      split at h
      · exact nomatch h
      · next he => exact absurd (List.cons.inj he).1 hz
      · next he =>
        obtain ⟨rfl, -⟩ := List.cons.inj he
        split at h
        · assumption
        · exact nomatch h

theorem takesFront_numeral (negative : Bool) : TakesFront (numeral negative) := by
  intro s x rest h
  rcases numeral_cases h with ⟨t, rfl, ht⟩ | ⟨c, t, rfl, hc, hz⟩
  · rw [numeral_zero negative ht] at h
    obtain ⟨front, rfl, hfront⟩ := takesFront_fractionPart negative ['0'] _ _ _ h
    refine ⟨'0' :: front, rfl, fun other ho => ?_⟩
    rw [List.cons_append, numeral_zero, hfront other ho]
    cases front with
    | nil => exact ho.not_digit
    | cons d front => exact ht
  · rw [numeral_digit negative hc hz] at h
    obtain ⟨front, hs, hfront⟩ := takesFront_fractionPart negative _ _ _ _ h
    have hdigits : ∀ d ∈ (c :: t).takeWhile isDigit, isDigit d = true :=
      fun d => List.all_eq_true.1 List.all_takeWhile d
    refine ⟨(c :: t).takeWhile isDigit ++ front, ?_, fun other ho => ?_⟩
    · rw [List.append_assoc, ← hs, List.takeWhile_append_dropWhile]
    · obtain ⟨htake, hdrop⟩ := cut_append hdigits (stop_of_front hs ho)
      have hcons : (c :: t).takeWhile isDigit = c :: t.takeWhile isDigit :=
        List.takeWhile_cons_of_pos hc
      rw [List.append_assoc]
      rw [hcons, List.cons_append] at htake hdrop ⊢
      rw [numeral_digit negative hc hz, htake, hdrop, ← hcons, hfront other ho]

private theorem value_of_minus (s : List Char) :
    value ('-' :: s) = scalar .other (fun n => .num n.number?) ('-' :: s) (numeral true s)
      fun _ _ h => Nat.le_succ_of_le (length_rest_numeral h) := by
  rw [value]

private theorem read_of_scalar {α : Type} {begun : Begun} {make : α → Tree} {s rest : List Char}
    {p : Part α} {h : ∀ x r, p = .read x r → r.length ≤ s.length} {n : Option Number}
    (htree : (scalar begun make s p h).1 = .num n) (hrest : (scalar begun make s p h).2.1 = rest) :
    ∃ x, p = .read x rest ∧ make x = .num n := by
  cases p with
  | read x r =>
    obtain rfl : r = rest := hrest
    exact ⟨x, rfl, htree⟩
  | cut used skipped => exact nomatch htree

private theorem scalar_ne_num {α : Type} {begun : Begun} {make : α → Tree} {s : List Char}
    {p : Part α} {h : ∀ x r, p = .read x r → r.length ≤ s.length} {n : Option Number}
    (hmake : ∀ x, make x ≠ .num n) :
    (scalar begun make s p h).1 ≠ .num n := by
  intro htree
  obtain ⟨x, -, hx⟩ := read_of_scalar htree rfl
  exact hmake x hx

/-- A number begins with a sign or a digit. -/
private theorem head_of_num {s : List Char} {n : Option Number} (h : (value s).1 = .num n) :
    (∃ t, s = '-' :: t) ∨ ∃ c t, s = c :: t ∧ isDigit c = true := by
  unfold value at h
  split at h
  · contradiction
  · exact absurd h (scalar_ne_num fun _ hn => Tree.noConfusion hn)
  · split at h
    · contradiction
    · split at h <;> contradiction
  · split at h
    · contradiction
    · split at h <;> contradiction
  · exact .inl ⟨_, rfl⟩
  · split at h
    · exact .inr ⟨_, _, rfl, by assumption⟩
    · split at h
      · exact absurd h (scalar_ne_num fun _ hn => Tree.noConfusion hn)
      · split at h
        · exact absurd h (scalar_ne_num fun _ hn => Tree.noConfusion hn)
        · split at h
          · exact absurd h (scalar_ne_num fun _ hn => Tree.noConfusion hn)
          · contradiction

/-- A number that is read from the front of a text is read from it wherever it stands. -/
theorem reads_num_front {s rest : List Char} {n : Option Number} (h : Reads s (.num n) rest) :
    ∃ front, s = front ++ rest ∧ ∀ other, Ends other → Reads (front ++ other) (.num n) other := by
  obtain ⟨htree, hrest⟩ := h
  rcases head_of_num htree with ⟨t, rfl⟩ | ⟨c, t, rfl, hc⟩
  · rw [value_of_minus] at htree hrest
    obtain ⟨x, hx, hn⟩ := read_of_scalar htree hrest
    obtain ⟨front, rfl, hfront⟩ := takesFront_numeral true t x rest hx
    refine ⟨'-' :: front, rfl, fun other ho => ?_⟩
    rw [List.cons_append]
    constructor
    · rw [value_of_minus, (scalar_of_read (hfront other ho) _).1, hn]
    · rw [value_of_minus, (scalar_of_read (hfront other ho) _).2]
  · rw [value_of_digit hc] at htree hrest
    obtain ⟨x, hx, hn⟩ := read_of_scalar htree hrest
    obtain ⟨front, hs, hfront⟩ := takesFront_numeral false (c :: t) x rest hx
    refine ⟨front, hs, fun other ho => ?_⟩
    have hread := hfront other ho
    cases front with
    | nil => exact nomatch hfront [] nofun
    | cons d front =>
      obtain ⟨rfl, -⟩ := List.cons.inj hs
      rw [List.cons_append] at hread ⊢
      constructor
      · rw [value_of_digit hc, (scalar_of_read hread _).1, hn]
      · rw [value_of_digit hc, (scalar_of_read hread _).2]

theorem skipSpace_of_none {s : List Char} (h : ∀ c ∈ s, isSpace c = false) : skipSpace s = s := by
  cases s with
  | nil => rfl
  | cons c s => exact List.dropWhile_cons_of_neg (by simp [h c List.mem_cons_self])

/-- A text without leading blanks is read from its first character on. -/
theorem document_ofList {s : List Char} (h : skipSpace s = s) :
    document (String.ofList s) = ⟨(value s).1, !(skipSpace (value s).2.1).isEmpty⟩ := by
  have hs : document (String.ofList s) = ⟨(value (skipSpace (String.ofList s).toList)).1,
    !(skipSpace (value (skipSpace (String.ofList s).toList)).2.1).isEmpty⟩ := rfl
  rw [hs, String.toList_ofList, h]

end Reader

namespace Number

def ReadsBack (n : Number) : Prop := readDeep (String.ofList n.text) = .ok (.num n)

/-- What holds of digits, of the marks of a number and of the letters of what is none holds of all
that a number is written with. -/
theorem forall_text {p : Char → Prop} (hdigit : ∀ d < 10, p (Nat.digitChar d))
    (hmark : p '.' ∧ p 'e' ∧ p '-' ∧ p '+') (hletter : p 'N' ∧ p 'a' ∧ p 'i' ∧ p 'n' ∧ p 'f')
    (n : Number) : ∀ c ∈ n.text, p c := by
  cases n with
  | int i h =>
    rw [Reader.text_int]
    split
    · exact List.forall_mem_cons.2 ⟨hmark.2.2.1, fun c => Text.forall_decimal hdigit⟩
    · exact fun c => Text.forall_decimal hdigit
  | double x h => exact Decimal.Layout.forall_text hdigit hmark hletter Decimal.Layout.data x

private theorem not_space_text (n : Number) : ∀ c ∈ n.text, Reader.isSpace c = false :=
  forall_text (by decide) (by decide) (by decide) n

private theorem document_text (n : Number) :
    Reader.document (String.ofList n.text) =
      ⟨(Reader.value n.text).1, !(Reader.skipSpace (Reader.value n.text).2.1).isEmpty⟩ :=
  Reader.document_ofList (Reader.skipSpace_of_none n.not_space_text)

theorem readsBack_of_reads {n : Number}
    (h : Reader.Reads n.text (.num (some n)) []) : n.ReadsBack := by
  rw [ReadsBack, readDeep, n.document_text, h.tree, h.rest]
  rfl

/-- A number that is read back by itself is read as itself wherever it stands. -/
theorem legible_of_readsBack {n : Number} (h : n.ReadsBack) : Reader.Legible n := by
  obtain ⟨v, hv, h⟩ := ok_of_bind h
  rw [n.document_text] at hv h
  dsimp only at hv h
  split at h
  · exact nomatch h
  · next hrest =>
    obtain rfl := Except.ok.inj h
    obtain ⟨front, hfront, hread⟩ := Reader.reads_num_front ⟨Tree.eq_ofValue_of_value rfl hv, rfl⟩
    have hnone : (Reader.value n.text).2.1 = [] := by
      rw [Reader.skipSpace_of_none fun c hc =>
        n.not_space_text c (hfront ▸ List.mem_append_right front hc)] at hrest
      simpa using hrest
    rw [hnone, List.append_nil] at hfront
    rw [Reader.Legible, hfront]
    exact hread

end Number
end RecordSearch.Json
