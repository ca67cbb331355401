import RecordSearch.Json.Tree

/-! Reading data texts. Every step returns the rest of the text together with the fact that it is no
longer than before. -/
namespace RecordSearch.Json.Reader

abbrev Rest (s : List Char) := { r : List Char // r.length ≤ s.length }

def isSpace (c : Char) : Bool := c == ' ' || c == '\t' || c == '\n' || c == '\r'

def skipSpace (s : List Char) : List Char := s.dropWhile isSpace

def isDigit (c : Char) : Bool := '0' ≤ c && c ≤ '9'

theorem length_dropWhile_le (p : Char → Bool) (s : List Char) : (s.dropWhile p).length ≤ s.length :=
  (List.dropWhile_sublist p).length_le

theorem length_skipSpace_le (s : List Char) : (skipSpace s).length ≤ s.length :=
  length_dropWhile_le ..

def hexValue? (c : Char) : Option Nat :=
  if isDigit c then some (c.toNat - 48)
  else if 'a' ≤ c && c ≤ 'f' then some (c.toNat - 87)
  else if 'A' ≤ c && c ≤ 'F' then some (c.toNat - 55)
  else none

def codeUnit? (a b c d : Char) : Option Nat := do
  some (4096 * (← hexValue? a) + 256 * (← hexValue? b) + 16 * (← hexValue? c) + (← hexValue? d))

/-- A part of a text: read, with the rest, or not, with a fault for a value in use and for a skipped
one. -/
inductive Part (α : Type)
  | read (content : α) (rest : List Char)
  | cut (used skipped : Fault)

/-- The fault of four missing hex digits. Fewer than four octets before the end of the text count as
an early end. -/
def missingUnit (s : List Char) : Fault :=
  if (s.take 4).foldl (fun n c => n + c.utf8Size) 0 < 4 then .ended else .malformed

def shortEscape? : Char → Option Char
  | '"' => some '"'
  | '\\' => some '\\'
  | '/' => some '/'
  | 'b' => some '\x08'
  | 'f' => some '\x0c'
  | 'n' => some '\n'
  | 'r' => some '\r'
  | 't' => some '\t'
  | _ => none

/-- The fault of a text in use whose content is already lost comes before any later fault. -/
def usedFault (content : Option (List Char)) (f : Fault) : Fault :=
  if content.isSome then f else .malformed

/-- The rest of a quoted text after the characters read so far, the last of them first. An unpaired
surrogate escape loses the content, but a skipped text may hold one. -/
def quotedRest (content : Option (List Char)) : List Char → Part (Option String)
  | [] => .cut (usedFault content .ended) .ended
  | '"' :: s => .read (content.map fun cs => String.ofList cs.reverse) s
  | '\\' :: 'u' :: a :: b :: c :: d :: s =>
    match codeUnit? a b c d with
    | none => .cut .malformed .malformed
    | some u =>
      if u < 0xD800 ∨ 0xDFFF < u then quotedRest (content.map (Char.ofNat u :: ·)) s
      else if 0xDC00 ≤ u then quotedRest none s
      else
        match _hs : s with
        | '\\' :: 'u' :: a :: b :: c :: d :: t =>
          match codeUnit? a b c d with
          | none => .cut .malformed .malformed
          | some v =>
            if 0xDC00 ≤ v ∧ v ≤ 0xDFFF then
              quotedRest
                (content.map (Char.ofNat (0x10000 + (u - 0xD800) * 0x400 + (v - 0xDC00)) :: ·)) t
            else quotedRest none s
        | '\\' :: 'u' :: t => .cut (usedFault content (missingUnit t)) (missingUnit t)
        | ['\\'] => .cut (usedFault content .ended) .ended
        | [] => .cut (usedFault content .ended) .ended
        | _ => quotedRest none s
  | '\\' :: 'u' :: s => .cut (usedFault content (missingUnit s)) (missingUnit s)
  | ['\\'] => .cut (usedFault content .ended) .ended
  | '\\' :: e :: s =>
    match shortEscape? e with
    | some c => quotedRest (content.map (c :: ·)) s
    | none => .cut .malformed .malformed
  | c :: s => if c < ' ' then .cut .malformed .malformed else quotedRest (content.map (c :: ·)) s
termination_by s => s.length
decreasing_by all_goals simp_all <;> omega

theorem length_rest_quotedRest (content : Option (List Char)) (s : List Char) {x : Option String}
    {r : List Char} (h : quotedRest content s = .read x r) : r.length < s.length := by
  fun_induction quotedRest content s generalizing x r with
  | case2 content s =>
    simp only [Part.read.injEq] at h
    simp [← h.2]
  | case4 | case5 | case7 | case8 | case12 | case15 | case18 =>
    rename_i ih
    have := ih h
    simp at this ⊢
    omega
  | case1 | case3 | case6 | case9 | case10 | case11 | case13 | case14 | case16 | case17 => simp at h

def exponentSign : List Char → Bool × List Char
  | '-' :: s => (true, s)
  | '+' :: s => (false, s)
  | s => (false, s)

theorem length_exponentSign_le (s : List Char) : (exponentSign s).2.length ≤ s.length := by
  fun_cases exponentSign s <;> simp

def exponentPart (negative : Bool) (whole : List Char) (fraction : Option (List Char))
    (s : List Char) : Part Numeral :=
  match s with
  | [] => .read ⟨negative, whole, fraction, none⟩ []
  | c :: r =>
    if c == 'e' || c == 'E' then
      let signed := exponentSign r
      let ds := signed.2.takeWhile isDigit
      if ds.isEmpty then .cut (if signed.2.isEmpty then .ended else .malformed) .malformed
      else .read ⟨negative, whole, fraction, some (signed.1, ds)⟩ (signed.2.dropWhile isDigit)
    else .read ⟨negative, whole, fraction, none⟩ (c :: r)

def fractionPart (negative : Bool) (whole s : List Char) : Part Numeral :=
  match s with
  | '.' :: r =>
    let ds := r.takeWhile isDigit
    if ds.isEmpty then .cut (if r.isEmpty then .ended else .malformed) .malformed
    else exponentPart negative whole (some ds) (r.dropWhile isDigit)
  | s => exponentPart negative whole none s

def numeral (negative : Bool) (s : List Char) : Part Numeral :=
  match s with
  | [] => .cut .ended .malformed
  | '0' :: r =>
    match r with
    | d :: _ => if isDigit d then .cut .malformed .malformed else fractionPart negative ['0'] r
    | [] => fractionPart negative ['0'] r
  | c :: _ =>
    if isDigit c then fractionPart negative (s.takeWhile isDigit) (s.dropWhile isDigit)
    else .cut .malformed .malformed

theorem length_rest_exponentPart {negative : Bool} {whole : List Char}
    {fraction : Option (List Char)} {s : List Char} {n : Numeral} {r : List Char}
    (h : exponentPart negative whole fraction s = .read n r) : r.length ≤ s.length := by
  unfold exponentPart at h
  split at h
  · simp only [Part.read.injEq] at h
    simp [← h.2]
  · next c t =>
    simp only at h
    split at h
    · split at h
      · simp at h
      · simp only [Part.read.injEq] at h
        have h1 := length_exponentSign_le t
        have h2 := length_dropWhile_le isDigit (exponentSign t).2
        simp only [← h.2, List.length_cons]
        omega
    · simp only [Part.read.injEq] at h
      simp [← h.2]

theorem length_rest_fractionPart {negative : Bool} {whole s : List Char} {n : Numeral}
    {r : List Char} (h : fractionPart negative whole s = .read n r) : r.length ≤ s.length := by
  unfold fractionPart at h
  split at h
  · next t =>
    simp only at h
    split at h
    · simp at h
    · have := length_rest_exponentPart h
      have := length_dropWhile_le isDigit t
      simp; omega
  · exact length_rest_exponentPart h

theorem length_rest_numeral {negative : Bool} {s : List Char} {n : Numeral} {r : List Char}
    (h : numeral negative s = .read n r) : r.length ≤ s.length := by
  unfold numeral at h
  split at h
  · simp at h
  · split at h
    · split at h
      · simp at h
      · exact Nat.le_succ_of_le (length_rest_fractionPart h)
    · exact Nat.le_succ_of_le (length_rest_fractionPart h)
  · next c t _ =>
    split at h
    · exact Nat.le_trans (length_rest_fractionPart h) (length_dropWhile_le isDigit (c :: t))
    · simp at h

def word (expected : List Char) (s : List Char) : Part Unit :=
  match expected, s with
  | [], s => .read () s
  | _ :: _, [] => .cut .ended .ended
  | e :: es, c :: r => if e == c then word es r else .cut .malformed .malformed

theorem length_rest_word {expected s : List Char} {x : Unit} {r : List Char}
    (h : word expected s = .read x r) :
    r.length ≤ s.length := by
  fun_induction word expected s with
  | case1 => simp_all
  | case2 => simp at h
  | case3 e es c t _ ih => have := ih h; simp; omega
  | case4 => simp at h

/-- Where a value cannot be read the text ends for the reader, so that nothing is read after a
fault. -/
def scalar {α : Type} (begun : Begun) (make : α → Tree) (s : List Char) (p : Part α)
    (h : ∀ x r, p = .read x r → r.length ≤ s.length) : Tree × Rest s :=
  match p with
  | .read x r => (make x, ⟨r, h x r rfl⟩)
  | .cut used skipped => (.cut begun used skipped, ⟨[], Nat.zero_le _⟩)

theorem tail_le {s r : List Char} {c : Char} (h : skipSpace s = c :: r) : r.length < s.length := by
  have := length_skipSpace_le s
  rw [h] at this
  exact this

def nowhere (s : List Char) : Rest s := ⟨[], Nat.zero_le _⟩

mutual
def value (s : List Char) : Tree × Rest s :=
  match hs : s with
  | [] => (.cut .nothing .ended .ended, nowhere _)
  | '"' :: r =>
    scalar .quote .str _ (quotedRest (some []) r)
      fun _ _ h => Nat.le_succ_of_le (Nat.le_of_lt (length_rest_quotedRest _ _ h))
  | '[' :: r =>
    match hr : skipSpace r with
    | [] => (.arr [] (some .ended), nowhere _)
    | c :: t =>
      if c == ']' then (.arr [] none, ⟨t, by have := tail_le hr; simp; omega⟩)
      else
        let (items, stop, rest) := elements r
        (.arr items stop, ⟨rest.1, Nat.le_succ_of_le rest.2⟩)
  | '{' :: r =>
    match hr : skipSpace r with
    | [] => (.obj [] (some .ended), nowhere _)
    | c :: t =>
      if c == '}' then (.obj [] none, ⟨t, by have := tail_le hr; simp; omega⟩)
      else
        let (members, stop, rest) := members r
        (.obj members stop, ⟨rest.1, Nat.le_succ_of_le rest.2⟩)
  | '-' :: r =>
    scalar .other (fun n => .num n.number?) _ (numeral true r)
      fun _ _ h => Nat.le_succ_of_le (length_rest_numeral h)
  | c :: r =>
    if isDigit c then
      scalar .other (fun n => .num n.number?) _ (numeral false (c :: r))
        fun _ _ h => length_rest_numeral h
    else if c == 'n' then
      scalar .other (fun _ => .null) _ (word ['u', 'l', 'l'] r)
        fun _ _ h => Nat.le_succ_of_le (length_rest_word h)
    else if c == 't' then
      scalar .other (fun _ => .bool true) _ (word ['r', 'u', 'e'] r)
        fun _ _ h => Nat.le_succ_of_le (length_rest_word h)
    else if c == 'f' then
      scalar .other (fun _ => .bool false) _ (word ['a', 'l', 's', 'e'] r)
        fun _ _ h => Nat.le_succ_of_le (length_rest_word h)
    else (.cut .other .malformed .malformed, nowhere _)
termination_by (s.length, 0)

def elements (s : List Char) : List Tree × Option Fault × Rest s :=
  let (item, rest) := value (skipSpace s)
  have hle : rest.1.length ≤ s.length := Nat.le_trans rest.2 (length_skipSpace_le s)
  match hr : skipSpace rest.1 with
  | [] => ([item], some .ended, nowhere _)
  | c :: t =>
    have ht : t.length < s.length := Nat.lt_of_lt_of_le (tail_le hr) hle
    if c == ',' then
      let (items, stop, last) := elements t
      (item :: items, stop, ⟨last.1, by have := last.2; omega⟩)
    else if c == ']' then ([item], none, ⟨t, Nat.le_of_lt ht⟩)
    else ([item], some .malformed, nowhere _)
termination_by (s.length, 1)
decreasing_by
  · have := length_skipSpace_le s
    rcases Nat.lt_or_eq_of_le this with h | h
    · exact Prod.Lex.left _ _ h
    · rw [h]; exact Prod.Lex.right _ (by omega)
  · exact Prod.Lex.left _ _ ht

def members (s : List Char) : List (Tree × Tree) × Option Fault × Rest s :=
  let (key, afterKey) := value (skipSpace s)
  have hk : afterKey.1.length ≤ s.length := Nat.le_trans afterKey.2 (length_skipSpace_le s)
  match key with
  | .str _ =>
    match hc : skipSpace afterKey.1 with
    | [] => ([(key, .cut .nothing .ended .ended)], none, nowhere _)
    | c :: v =>
      have hv : v.length < s.length := Nat.lt_of_lt_of_le (tail_le hc) hk
      if c == ':' then
        let (item, rest) := value (skipSpace v)
        have hle : rest.1.length ≤ v.length := Nat.le_trans rest.2 (length_skipSpace_le v)
        match hr : skipSpace rest.1 with
        | [] => ([(key, item)], some .ended, nowhere _)
        | d :: t =>
          have ht : t.length < s.length := Nat.lt_trans (Nat.lt_of_lt_of_le (tail_le hr) hle) hv
          if d == ',' then
            let (more, stop, last) := members t
            ((key, item) :: more, stop, ⟨last.1, by have := last.2; omega⟩)
          else if d == '}' then ([(key, item)], none, ⟨t, Nat.le_of_lt ht⟩)
          else ([(key, item)], some .malformed, nowhere _)
      else ([(key, .cut .other .malformed .malformed)], none, nowhere _)
  | key => ([(key, .cut .other .malformed .malformed)], none, nowhere _)
termination_by (s.length, 1)
decreasing_by
  · have := length_skipSpace_le s
    rcases Nat.lt_or_eq_of_le this with h | h
    · exact Prod.Lex.left _ _ h
    · rw [h]; exact Prod.Lex.right _ (by omega)
  · have := length_skipSpace_le v
    exact Prod.Lex.left _ _ (by omega)
  · exact Prod.Lex.left _ _ ht
end

def document (s : String) : Document :=
  let (tree, rest) := value (skipSpace s.toList)
  ⟨tree, !(skipSpace rest.1).isEmpty⟩

end RecordSearch.Json.Reader
