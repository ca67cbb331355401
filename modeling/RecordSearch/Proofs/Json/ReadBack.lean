import RecordSearch.Proofs.Text.Digits
import RecordSearch.Proofs.Text.Pieces
import RecordSearch.Json.Printer
import RecordSearch.Json.Reader

/-! Values are read back from their text. -/
namespace RecordSearch.Json
open Text

namespace Reader

/-- What a value is read as from the start of a text, and what it leaves. -/
structure Reads (s : List Char) (tree : Tree) (rest : List Char) : Prop where
  tree : (value s).1 = tree
  rest : (value s).2.1 = rest

structure ReadsItems (s : List Char) (items : List Tree) (rest : List Char) : Prop where
  items : (elements s).1 = items
  stop : (elements s).2.1 = none
  rest : (elements s).2.2.1 = rest

structure ReadsMembers (s : List Char) (entries : List (Tree × Tree))
    (rest : List Char) : Prop where
  entries : (members s).1 = entries
  stop : (members s).2.1 = none
  rest : (members s).2.2.1 = rest

section Texts

private theorem hexValue?_lowerHexDigit :
    ∀ n < 16, hexValue? (lowerHexDigit n) = some n := by decide

private theorem codeUnit?_control {n : Nat} (h : n < 32) :
    codeUnit? '0' '0' (lowerHexDigit (n / 16)) (lowerHexDigit (n % 16)) = some n := by
  have hz : hexValue? '0' = some 0 := by decide
  have hhigh := hexValue?_lowerHexDigit (n / 16) (by omega)
  have hlow := hexValue?_lowerHexDigit (n % 16) (by omega)
  simp [codeUnit?, hz, hhigh, hlow]
  omega

/-- An escaped character is read as itself. -/
theorem quotedRest_escape (done : List Char) (c : Char) (s : List Char) :
    quotedRest (some done) (escape c ++ s) = quotedRest (some (c :: done)) s := by
  have short {e d : Char} (he : shortEscape? e = some d) (hu : e ≠ 'u') :
      quotedRest (some done) ('\\' :: e :: s) = quotedRest (some (d :: done)) s := by
    rw [quotedRest, he]
    · rfl
    all_goals simp [hu]
  unfold escape
  split
  · exact short rfl (by decide)
  · exact short rfl (by decide)
  · exact short rfl (by decide)
  · exact short rfl (by decide)
  · exact short rfl (by decide)
  · exact short rfl (by decide)
  · exact short rfl (by decide)
  · next hquote hslash _ _ _ _ _ =>
    split
    · next hc =>
      have hn : c.toNat < 32 := UInt32.lt_iff_toNat_lt.1 hc
      simp only [List.cons_append, List.nil_append]
      rw [quotedRest, codeUnit?_control hn]
      dsimp only
      rw [if_pos (.inl (by omega)), Char.ofNat_toNat]
      rfl
    · next hc =>
      rw [List.singleton_append, quotedRest, if_neg hc]
      · rfl
      · exact fun he => hquote he
      all_goals exact fun _ => by simp_all

theorem quotedRest_escapes (done s rest : List Char) :
    quotedRest (some done) (s.flatMap escape ++ '"' :: rest) =
      .read (some (String.ofList (done.reverse ++ s))) rest := by
  induction s generalizing done with
  | nil => simp [quotedRest]
  | cons c s ih => rw [List.flatMap_cons, List.append_assoc, quotedRest_escape, ih]; simp

theorem scalar_of_read {α : Type} {begun : Begun} {make : α → Tree} {s : List Char} {p : Part α}
    {x : α} {r : List Char} (hp : p = .read x r) (h : ∀ x r, p = .read x r → r.length ≤ s.length) :
    (scalar begun make s p h).1 = make x ∧ (scalar begun make s p h).2.1 = r := by
  subst hp
  exact ⟨rfl, rfl⟩

theorem reads_quoted (s : String) (rest : List Char) :
    Reads (quoted s ++ rest) (.str (some s)) rest := by
  have hq : quotedRest (some []) (s.toList.flatMap escape ++ '"' :: rest) =
      .read (some s) rest := by
    rw [quotedRest_escapes]
    simp
  have hs : quoted s ++ rest = '"' :: (s.toList.flatMap escape ++ '"' :: rest) := by simp [quoted]
  rw [hs]
  constructor
  · rw [value]
    exact (scalar_of_read hq _).1
  · rw [value]
    exact (scalar_of_read hq _).2

private theorem reads_word (rest : List Char) :
    Reads ('n' :: 'u' :: 'l' :: 'l' :: rest) .null rest ∧
    Reads ('t' :: 'r' :: 'u' :: 'e' :: rest) (.bool true) rest ∧
    Reads ('f' :: 'a' :: 'l' :: 's' :: 'e' :: rest) (.bool false) rest := by
  refine ⟨⟨?_, ?_⟩, ⟨?_, ?_⟩, ⟨?_, ?_⟩⟩ <;> (rw [value]; rfl; all_goals decide)

end Texts

section Numbers

def Ends (rest : List Char) : Prop :=
  ∀ c ∈ rest.head?, isDigit c = false ∧ c ≠ '.' ∧ c ≠ 'e' ∧ c ≠ 'E'

private theorem fractionPart_of_ends (negative : Bool) (whole : List Char) {rest : List Char}
    (h : Ends rest) :
    fractionPart negative whole rest = .read ⟨negative, whole, none, none⟩ rest := by
  cases rest with
  | nil => rfl
  | cons c rest =>
    obtain ⟨-, hpoint, he, hE⟩ := h c rfl
    have hmark : ¬(c == 'e' || c == 'E') = true := by simp [he, hE]
    rw [fractionPart, exponentPart, if_neg hmark]
    exact fun _ hc => hpoint (List.cons.inj hc).1

private theorem isDigit_of_mem {n : Nat} : ∀ c ∈ Nat.toDigits 10 n, isDigit c = true := fun _ h =>
  forall_decimal (p := fun c => isDigit c = true) (by decide) h

private theorem numeral_toDigits (negative : Bool) (n : Nat) {rest : List Char} (h : Ends rest) :
    numeral negative (Nat.toDigits 10 n ++ rest) =
      .read ⟨negative, Nat.toDigits 10 n, none, none⟩ rest := by
  by_cases hn : n = 0
  · subst hn
    change numeral negative ('0' :: rest) = .read ⟨negative, ['0'], none, none⟩ rest
    cases rest with
    | nil => exact fractionPart_of_ends negative _ h
    | cons d rest =>
      change (if isDigit d = true then _ else fractionPart negative ['0'] (d :: rest)) = _
      rw [(h d rfl).1, if_neg (by decide), fractionPart_of_ends negative _ h]
  · obtain ⟨htake, hdrop⟩ := cut_append (isDigit_of_mem (n := n)) fun c hc => (h c hc).1
    obtain ⟨d, s, hd, hlt, hs⟩ := toDigits_head (by decide : 1 < 10) hn
    have hdigit : isDigit (Nat.digitChar d) = true :=
      isDigit_of_mem _ (by rw [hs]; exact List.mem_cons_self)
    have hzero : Nat.digitChar d ≠ '0' :=
      (by decide : ∀ d < 10, 0 < d → Nat.digitChar d ≠ '0') d hlt hd
    rw [hs, List.cons_append] at htake hdrop ⊢
    unfold numeral
    split
    · contradiction
    · next he =>
      exact absurd (List.cons.inj he).1 hzero
    · next he =>
      obtain ⟨rfl, -⟩ := List.cons.inj he
      rw [if_pos hdigit, htake, hdrop, fractionPart_of_ends negative _ h]

private theorem digitsValue_toDigits (n : Nat) : digitsValue (Nat.toDigits 10 n) = n := by
  have digit : ∀ d < 10, (Nat.digitChar d).toNat - 48 = d := by decide
  exact foldl_toDigits (by decide) (fun n d hd => by rw [digit d hd, Nat.mul_comm]) n

theorem value_of_digit {c : Char} {s : List Char} (hc : isDigit c = true) :
    value (c :: s) =
      scalar .other (fun n => .num n.number?) _ (numeral false (c :: s))
      fun _ _ h => length_rest_numeral h := by
  rw [value, if_pos hc]
  all_goals
    rintro rfl
    exact absurd hc (by decide)

def Legible (n : Number) : Prop := ∀ rest, Ends rest → Reads (n.text ++ rest) (.num (some n)) rest

theorem text_int (i : Int) (h : -9223372036854775808 ≤ i ∧ i < 18446744073709551616) :
    (Number.int i h).text = if i < 0 then '-' :: Nat.toDigits 10 i.natAbs
    else Nat.toDigits 10 i.natAbs := by
  rw [Number.text, Int.toString_eq_repr]
  cases i with
  | ofNat n => simp [Int.repr, Nat.repr]
  | negSucc n => simp [Int.repr, Nat.repr, Int.negSucc_lt_zero]

private theorem number?_toDigits (negative : Bool) {m : Nat} {i : Int}
    (h : -9223372036854775808 ≤ i ∧ i < 18446744073709551616)
    (hi : (if negative then -Int.ofNat m else Int.ofNat m) = i) (hz : negative = true → m ≠ 0) :
    (Numeral.mk negative (Nat.toDigits 10 m) none none).number? = some (.int i h) := by
  have hminus : ¬(negative && m == 0) = true := by
    cases negative with
    | true => simpa using hz rfl
    | false => exact Bool.false_ne_true
  subst hi
  unfold Numeral.number?
  dsimp only
  rw [digitsValue_toDigits, if_neg hminus, Number.ofInt?, dif_pos h, Option.some_or]

/-- Integers are always read as themselves. -/
theorem legible_int (i : Int)
    (h : -9223372036854775808 ≤ i ∧ i < 18446744073709551616) : Legible (.int i h) := by
  intro rest hr
  rw [text_int]
  split
  · next hneg =>
    have habs : -Int.ofNat i.natAbs = i := by
      change -(i.natAbs : Int) = i
      omega
    have hnumber := number?_toDigits true h habs (by omega)
    have hn := numeral_toDigits true i.natAbs hr
    rw [List.cons_append, ← hnumber]
    constructor
    · rw [value]
      exact (scalar_of_read hn _).1
    · rw [value]
      exact (scalar_of_read hn _).2
  · next hpos =>
    have habs : Int.ofNat i.natAbs = i := by
      change (i.natAbs : Int) = i
      omega
    have hnumber := number?_toDigits false h habs (by simp)
    have hn := numeral_toDigits false i.natAbs hr
    obtain ⟨c, s, hs⟩ := List.exists_cons_of_ne_nil (Nat.toDigits_ne_nil (b := 10) (n := i.natAbs))
    have hc : isDigit c = true := isDigit_of_mem c (by rw [hs]; exact List.mem_cons_self)
    rw [hs, List.cons_append] at hn
    rw [← hnumber, hs, List.cons_append]
    constructor
    · rw [value_of_digit hc]
      exact (scalar_of_read hn _).1
    · rw [value_of_digit hc]
      exact (scalar_of_read hn _).2

end Numbers
section Values

/-- A text that a value is read from starts with no blank, and not with the end of a list. -/
private theorem reads_head {s rest : List Char} {v : Value} (h : Reads s (.ofValue v) rest) :
    skipSpace s = s ∧ ∃ c t, s = c :: t ∧ c ≠ ']' := by
  have hcut {begun : Begun} {used skipped : Fault} : Tree.ofValue v ≠ .cut begun used skipped := by
    cases v <;> nofun
  have hv := h.tree
  cases s with
  | nil =>
    rw [value] at hv
    exact absurd hv.symm hcut
  | cons c s =>
    refine ⟨List.dropWhile_cons_of_neg fun hc => ?_, c, s, rfl, ?_⟩
    · simp only [isSpace, Bool.or_eq_true, beq_iff_eq] at hc
      rcases hc with ((rfl | rfl) | rfl) | rfl <;>
        (rw [value] at hv; exact absurd hv.symm hcut; all_goals decide)
    · rintro rfl
      rw [value] at hv
      · exact absurd hv.symm hcut
      all_goals decide

end Values
end Reader

namespace Value

mutual
def Legible : Value → Prop
  | .num n => Reader.Legible n
  | .arr items => LegibleItems items
  | .obj members => LegibleMembers members
  | _ => True

def LegibleItems : List Value → Prop
  | [] => True
  | v :: rest => v.Legible ∧ LegibleItems rest

def LegibleMembers : List (String × Value) → Prop
  | [] => True
  | (_, v) :: rest => v.Legible ∧ LegibleMembers rest
end

end Value

namespace Reader

theorem ends_of_head {c : Char} (h : isDigit c = false ∧ c ≠ '.' ∧ c ≠ 'e' ∧ c ≠ 'E')
    (rest : List Char) : Ends (c :: rest) := by
  intro d hd
  obtain rfl := Option.some.inj hd
  exact h

private theorem reads_arr_nil (rest : List Char) :
    Reads ('[' :: ']' :: rest) (.arr [] none) rest := by
  constructor <;> (rw [value]; rfl)

private theorem reads_obj_nil (rest : List Char) :
    Reads ('{' :: '}' :: rest) (.obj [] none) rest := by
  constructor <;> (rw [value]; rfl)

private theorem reads_arr {s r rest : List Char} {v : Value} {items : List Tree}
    (hv : Reads s (.ofValue v) r) (h : ReadsItems s items rest) :
    Reads ('[' :: s) (.arr items none) rest := by
  obtain ⟨hspace, c, t, hs, hc⟩ := reads_head hv
  have heq : (value ('[' :: s)).1 = .arr (elements s).1 (elements s).2.1 ∧
      (value ('[' :: s)).2.1 = (elements s).2.2.1 := by
    rw [value]
    split
    · next he =>
      rw [hspace, hs] at he
      contradiction
    · next d u he =>
      obtain ⟨rfl, rfl⟩ := List.cons.inj (hs.symm.trans (hspace.symm.trans he))
      rw [if_neg (by simpa using hc)]
      exact ⟨rfl, rfl⟩
  exact ⟨by rw [heq.1, h.items, h.stop], by rw [heq.2, h.rest]⟩

private theorem reads_obj {s rest : List Char} {c : Char} {t : List Char}
    {entries : List (Tree × Tree)} (hs : skipSpace s = c :: t) (hc : c ≠ '}')
    (h : ReadsMembers s entries rest) : Reads ('{' :: s) (.obj entries none) rest := by
  have heq : (value ('{' :: s)).1 = .obj (members s).1 (members s).2.1 ∧
      (value ('{' :: s)).2.1 = (members s).2.2.1 := by
    rw [value]
    split
    · next he => simp [hs] at he
    · next d u he =>
      obtain ⟨rfl, rfl⟩ := List.cons.inj (hs.symm.trans he)
      rw [if_neg (by simpa using hc)]
      exact ⟨rfl, rfl⟩
  exact ⟨by rw [heq.1, h.entries, h.stop], by rw [heq.2, h.rest]⟩

private theorem skipSpace_cons {c : Char} (hc : isSpace c = false)
    (s : List Char) : skipSpace (c :: s) = c :: s :=
  List.dropWhile_cons_of_neg (by simp [hc])

private theorem readsItems_last {s r rest : List Char} {item : Tree}
    (h : Reads (skipSpace s) item r) (hr : skipSpace r = ']' :: rest) :
    ReadsItems s [item] rest := by
  obtain ⟨rfl, rfl⟩ := h
  have heq : (elements s).1 = [(value (skipSpace s)).1] ∧ (elements s).2.1 = none ∧
      (elements s).2.2.1 = rest := by
    rw [elements]
    dsimp only
    split
    · next he => simp [hr] at he
    · next d u he =>
      obtain ⟨rfl, rfl⟩ := List.cons.inj (hr.symm.trans he)
      exact ⟨rfl, rfl, rfl⟩
  exact ⟨heq.1, heq.2.1, heq.2.2⟩

private theorem readsItems_next {s r t rest : List Char} {item : Tree} {items : List Tree}
    (h : Reads (skipSpace s) item r) (hr : skipSpace r = ',' :: t) (ht : ReadsItems t items rest) :
    ReadsItems s (item :: items) rest := by
  obtain ⟨rfl, rfl⟩ := h
  have heq : (elements s).1 = (value (skipSpace s)).1 :: (elements t).1 ∧
      (elements s).2.1 = (elements t).2.1 ∧ (elements s).2.2.1 = (elements t).2.2.1 := by
    rw [elements]
    dsimp only
    split
    · next he => simp [hr] at he
    · next d u he =>
      obtain ⟨rfl, rfl⟩ := List.cons.inj (hr.symm.trans he)
      exact ⟨rfl, rfl, rfl⟩
  exact ⟨by rw [heq.1, ht.items], by rw [heq.2.1, ht.stop], by rw [heq.2.2, ht.rest]⟩

private theorem readsMembers_last {s r t u rest : List Char} {key : String} {item : Tree}
    (hk : Reads (skipSpace s) (.str (some key)) r) (hr : skipSpace r = ':' :: t)
    (h : Reads (skipSpace t) item u) (hu : skipSpace u = '}' :: rest) :
    ReadsMembers s [(.str (some key), item)] rest := by
  obtain ⟨hkey, rfl⟩ := hk
  obtain ⟨rfl, rfl⟩ := h
  have heq : (members s).1 = [((value (skipSpace s)).1, (value (skipSpace t)).1)] ∧
      (members s).2.1 = none ∧ (members s).2.2.1 = rest := by
    rw [members]
    dsimp only
    split
    · split
      · next he => simp [hr] at he
      · next c v he =>
        obtain ⟨rfl, rfl⟩ := List.cons.inj (hr.symm.trans he)
        rw [if_pos (by decide)]
        split
        · next he => simp [hu] at he
        · next d w he =>
          obtain ⟨rfl, rfl⟩ := List.cons.inj (hu.symm.trans he)
          exact ⟨rfl, rfl, rfl⟩
    · next hx => exact absurd hkey (hx _)
  exact ⟨by rw [heq.1, hkey], heq.2.1, heq.2.2⟩

private theorem readsMembers_next {s r t u w rest : List Char} {key : String} {item : Tree}
    {entries : List (Tree × Tree)} (hk : Reads (skipSpace s) (.str (some key)) r)
    (hr : skipSpace r = ':' :: t) (h : Reads (skipSpace t) item u) (hu : skipSpace u = ',' :: w)
    (hw : ReadsMembers w entries rest) :
    ReadsMembers s ((.str (some key), item) :: entries) rest := by
  obtain ⟨hkey, rfl⟩ := hk
  obtain ⟨rfl, rfl⟩ := h
  have heq : (members s).1 = ((value (skipSpace s)).1, (value (skipSpace t)).1) :: (members w).1 ∧
      (members s).2.1 = (members w).2.1 ∧ (members s).2.2.1 = (members w).2.2.1 := by
    rw [members]
    dsimp only
    split
    · split
      · next he => simp [hr] at he
      · next c v he =>
        obtain ⟨rfl, rfl⟩ := List.cons.inj (hr.symm.trans he)
        rw [if_pos (by decide)]
        split
        · next he => simp [hu] at he
        · next d w' he =>
          obtain ⟨rfl, rfl⟩ := List.cons.inj (hu.symm.trans he)
          exact ⟨rfl, rfl, rfl⟩
    · next hx => exact absurd hkey (hx _)
  exact ⟨by rw [heq.1, hkey, hw.entries], by rw [heq.2.1, hw.stop], by rw [heq.2.2, hw.rest]⟩

private theorem skipSpace_quoted (k : String) (rest : List Char) :
    skipSpace (quoted k ++ rest) = quoted k ++ rest :=
  skipSpace_cons (by decide) _

mutual
/-- A value is read from the start of its text. -/
theorem reads_chars (v : Value) (h : v.Legible) {rest : List Char} (hr : Ends rest) :
    Reads (v.chars ++ rest) (.ofValue v) rest := by
  cases v with
  | null => exact (reads_word rest).1
  | bool b =>
    cases b with
    | true => exact (reads_word rest).2.1
    | false => exact (reads_word rest).2.2
  | num n => exact h rest hr
  | str s => exact reads_quoted s rest
  | arr items =>
    cases items with
    | nil => exact reads_arr_nil rest
    | cons v items =>
      obtain ⟨⟨r, hv⟩, hitems⟩ := readsItems_chars (v :: items) (List.cons_ne_nil _ _) h rest
      exact reads_arr hv hitems
  | obj members =>
    cases members with
    | nil => exact reads_obj_nil rest
    | cons m members =>
      obtain ⟨⟨t, hs⟩, hmembers⟩ := readsMembers_chars (m :: members) (List.cons_ne_nil _ _) h rest
      exact reads_obj hs (by decide) hmembers
termination_by sizeOf v

theorem readsItems_chars (items : List Value) (hne : items ≠ []) (h : Value.LegibleItems items)
    (rest : List Char) :
    (∃ r, Reads (Value.itemChars items ++ rest) (.ofValue (items.head hne)) r) ∧
      ReadsItems (Value.itemChars items ++ rest) (Tree.ofItems items) rest := by
  match items with
  | [v] =>
    have hends : Ends (']' :: rest) := ends_of_head (by decide) _
    have hv := reads_chars v h.1 hends
    have hs : Value.itemChars [v] ++ rest = v.chars ++ ']' :: rest := List.append_assoc ..
    rw [← hs] at hv
    refine ⟨⟨_, hv⟩, readsItems_last ?_ (skipSpace_cons (by decide) rest)⟩
    rwa [(reads_head hv).1]
  | v :: w :: items =>
    have hends : Ends (',' :: (Value.itemChars (w :: items) ++ rest)) := ends_of_head (by decide) _
    have hv := reads_chars v h.1 hends
    have hs : Value.itemChars (v :: w :: items) ++ rest =
        v.chars ++ ',' :: (Value.itemChars (w :: items) ++ rest) :=
      List.append_assoc ..
    have hw := readsItems_chars (w :: items) (List.cons_ne_nil _ _) h.2 rest
    rw [← hs] at hv
    refine ⟨⟨_, hv⟩, readsItems_next ?_ (skipSpace_cons (by decide) _) hw.2⟩
    rwa [(reads_head hv).1]
termination_by sizeOf items

theorem readsMembers_chars (members : List (String × Value)) (hne : members ≠ [])
    (h : Value.LegibleMembers members) (rest : List Char) :
    (∃ t, skipSpace (Value.memberChars members ++ rest) = '"' :: t) ∧
      ReadsMembers (Value.memberChars members ++ rest) (Tree.ofMembers members) rest := by
  match members with
  | [(k, v)] =>
    have hk := reads_quoted k (':' :: (v.chars ++ '}' :: rest))
    have hends : Ends ('}' :: rest) := ends_of_head (by decide) _
    have hv := reads_chars v h.1 hends
    have hs : Value.memberChars [(k, v)] ++ rest = quoted k ++ ':' :: (v.chars ++ '}' :: rest) := by
      simp [Value.memberChars]
    rw [← skipSpace_quoted] at hk
    rw [← (reads_head hv).1] at hv
    rw [hs]
    exact ⟨⟨_, skipSpace_quoted k _⟩,
      readsMembers_last hk (skipSpace_cons (by decide) _) hv (skipSpace_cons (by decide) rest)⟩
  | (k, v) :: m :: members =>
    have hk :=
      reads_quoted k (':' :: (v.chars ++ ',' :: (Value.memberChars (m :: members) ++ rest)))
    have hends : Ends (',' :: (Value.memberChars (m :: members) ++ rest)) :=
      ends_of_head (by decide) _
    have hv := reads_chars v h.1 hends
    have hm := readsMembers_chars (m :: members) (List.cons_ne_nil _ _) h.2 rest
    have hs : Value.memberChars ((k, v) :: m :: members) ++ rest =
        quoted k ++ ':' :: (v.chars ++ ',' :: (Value.memberChars (m :: members) ++ rest)) := by
      simp [Value.memberChars]
    rw [← skipSpace_quoted] at hk
    rw [← (reads_head hv).1] at hv
    rw [hs]
    exact ⟨⟨_, skipSpace_quoted k _⟩,
      readsMembers_next hk (skipSpace_cons (by decide) _) hv (skipSpace_cons (by decide) _) hm.2⟩
termination_by sizeOf members
end

/-- The text of a value is read as the value, with nothing after it. -/
theorem document_text (v : Value) (h : v.Legible) : document v.text = ⟨.ofValue v, false⟩ := by
  have hends : Ends [] := fun c hc => by contradiction
  have hv := reads_chars v h hends
  rw [List.append_nil] at hv
  have hspace := (reads_head hv).1
  have hs : (value (skipSpace v.text.toList)).1 = .ofValue v ∧
      (value (skipSpace v.text.toList)).2.1 = [] := by
    rw [Value.text, String.toList_ofList, hspace]
    exact ⟨hv.tree, hv.rest⟩
  rw [document]
  simp only [hs.1, hs.2]
  rfl

end Reader
end RecordSearch.Json
