import Mathlib.Algebra.Group.Nat.Defs
import RecordSearch.Proofs.Text.Digits
import RecordSearch.Proofs.Text.Pieces
import RecordSearch.Url.Address

/-! Network addresses are read back from their text. -/
namespace RecordSearch.Url
open RecordSearch.Text

private theorem hexValue?_digitChar :
    ∀ d < 16, Json.Reader.hexValue? (Nat.digitChar d) = some d := by decide

/-- A number is read back from its digits. -/
theorem number?_toDigits {base : Nat} (hb : 1 < base) (h16 : base ≤ 16) (n : Nat) :
    number? base (Nat.toDigits base n) = some n := by
  have digit {d : Nat} (hd : d < base) : digitValue? base (Nat.digitChar d) = some d := by
    simp [digitValue?, hexValue?_digitChar d (by omega), hd]
  induction n using Nat.strongRecOn with
  | ind n ih =>
    rw [Nat.toDigits_eq_if hb]
    split
    · next hn => simp [number?, digit hn]
    · next hn =>
      have hi := ih (n / base) (Nat.div_lt_self (by omega) hb)
      unfold number? at hi ⊢
      rw [List.foldlM_append, hi]
      simp [digit (Nat.mod_lt n (show 0 < base by omega)), Nat.div_add_mod']

private theorem digitValue?_lt {base v : Nat} {c : Char}
    (h : digitValue? base c = some v) : v < base := by
  unfold digitValue? at h
  obtain ⟨w, -, hw⟩ := Option.bind_eq_some_iff.1 h
  split at hw
  · next hlt =>
    obtain rfl : w = v := by simpa using hw
    exact hlt
  · contradiction

/-- Digits stand for a number below the power of the base to their count. -/
theorem number?_lt {base n : Nat} {ds : List Char}
    (h : number? base ds = some n) : n < base ^ ds.length := by
  have from_start : ∀ (start : Nat),
      ds.foldlM (fun n c => do return n * base + (← digitValue? base c)) start = some n →
      n + 1 ≤ (start + 1) * base ^ ds.length := by
    clear h
    induction ds with
    | nil =>
      intro start h
      obtain rfl : start = n := by simpa using h
      simp
    | cons d ds ih =>
      intro start h
      rw [List.foldlM_cons] at h
      obtain ⟨next, hn, h⟩ := Option.bind_eq_some_iff.1 h
      obtain ⟨v, hv, rfl⟩ : ∃ v, digitValue? base d = some v ∧ start * base + v = next := by
        simpa [Option.bind_eq_some_iff] using hn
      have hlt := digitValue?_lt hv
      calc n + 1 ≤ (start * base + v + 1) * base ^ ds.length := ih _ h
        _ ≤ ((start + 1) * base) * base ^ ds.length :=
          Nat.mul_le_mul_right _ (by rw [Nat.succ_mul]; omega)
        _ = (start + 1) * base ^ (d :: ds).length := by
          rw [List.length_cons, Nat.pow_succ', Nat.mul_assoc]
  have hzero := from_start 0 h
  rwa [Nat.zero_add, Nat.one_mul] at hzero

/-- What goes for every result of a step goes for all of them together. -/
private theorem forall_of_mapM {α β : Type} {f : α → Option β} {p : β → Prop} {l : List α}
    {r : List β} (hf : ∀ a ∈ l, ∀ b, f a = some b → p b)
    (h : l.mapM f = some r) : ∀ b ∈ r, p b := by
  induction l generalizing r with
  | nil =>
    obtain rfl : [] = r := by simpa using h
    simp
  | cons a l ih =>
    rw [List.mapM_cons] at h
    obtain ⟨b, hb, h⟩ := Option.bind_eq_some_iff.1 h
    obtain ⟨bs, hbs, h⟩ := Option.bind_eq_some_iff.1 h
    obtain rfl : b :: bs = r := by simpa using h
    intro x hx
    rcases List.mem_cons.1 hx with rfl | hx
    · exact hf a List.mem_cons_self _ hb
    · exact ih (fun c hc => hf c (List.mem_cons_of_mem _ hc)) hbs x hx

private theorem length_of_mapM {α β : Type} {f : α → Option β} {l : List α} {r : List β}
    (h : l.mapM f = some r) :
    r.length = l.length := by
  induction l generalizing r with
  | nil =>
    obtain rfl : [] = r := by simpa using h
    rfl
  | cons a l ih =>
    rw [List.mapM_cons] at h
    obtain ⟨b, hb, h⟩ := Option.bind_eq_some_iff.1 h
    obtain ⟨bs, hbs, h⟩ := Option.bind_eq_some_iff.1 h
    obtain rfl : b :: bs = r := by simpa using h
    rw [List.length_cons, List.length_cons, ih hbs]

section Dotted

private theorem ipv4Part?_decimal : ∀ n < 256, ipv4Part? (decimal n) = some n := by decide +kernel

private theorem ipv4Text_eq (address : Nat) :
    ipv4Text address = decimal (address / 16777216 % 256) ++
    ([address / 65536 % 256, address / 256 % 256, address % 256].map decimal).flatMap
      ('.' :: ·) := by
  simp [ipv4Text, octets, List.intercalate]

/-- Decimal digits with dots between them. -/
theorem forall_ipv4Text {p : Char → Prop} (hd : p '.') (hp : ∀ d < 16, p (Nat.digitChar d))
    {address : Nat} {c : Char} (h : c ∈ ipv4Text address) : p c := by
  rw [ipv4Text_eq, List.mem_append] at h
  rcases h with h | h
  · exact forall_toDigits hp (by decide) (by decide) h
  · obtain ⟨t, ht, h⟩ := List.mem_flatMap.1 h
    obtain ⟨n, -, rfl⟩ := List.mem_map.1 ht
    rcases List.mem_cons.1 h with rfl | h
    · exact hd
    · exact forall_toDigits hp (by decide) (by decide) h

theorem ipv4Text_ne_nil (address : Nat) : ipv4Text address ≠ [] := by
  simp [ipv4Text_eq, decimal, Nat.toDigits_ne_nil]

private theorem decimal_no_dot (n : Nat) : ∀ c ∈ decimal n, (c == '.') = false :=
  fun _ h => forall_toDigits (p := fun c => (c == '.') = false) (by decide)
    (by decide) (by decide) h

private theorem pieces_ipv4Text (address : Nat) :
    pieces (· == '.') (ipv4Text address) = (octets address).map decimal := by
  rw [ipv4Text_eq, pieces_flatMap rfl (decimal_no_dot _)]
  · rfl
  · intro t ht
    obtain ⟨n, -, rfl⟩ := List.mem_map.1 ht
    exact decimal_no_dot n

private theorem dottedParts_ipv4Text (address : Nat) :
    dottedParts (ipv4Text address) = (octets address).map decimal := by
  have hl : decimal (address % 256) ≠ [] := Nat.toDigits_ne_nil
  simp [dottedParts, pieces_ipv4Text, octets, hl]

theorem endsInNumber_ipv4Text (address : Nat) : endsInNumber (ipv4Text address) = true := by
  have hp : ipv4Part? (decimal (address % 256)) = some (address % 256) :=
    ipv4Part?_decimal _ (Nat.mod_lt _ (by decide))
  simp [endsInNumber, dottedParts_ipv4Text, octets, hp]

/-- An address of four octets is read back. -/
theorem ipv4?_ipv4Text {address : Nat} (h : address < 4294967296) :
    ipv4? (ipv4Text address) = some address := by
  have part (n : Nat) : ipv4Part? (decimal (n % 256)) = some (n % 256) :=
    ipv4Part?_decimal _ (Nat.mod_lt _ (by decide))
  simp [ipv4?, dottedParts_ipv4Text, octets, part]
  omega

theorem ipv4?_lt {name : List Char} {address : Nat}
    (h : ipv4? name = some address) : address < 4294967296 := by
  have hc : ∃ (numbers : List Nat) (last : Nat),
      numbers.length ≤ 4 ∧ numbers.getLast? = some last ∧ (∀ n ∈ numbers.dropLast, n ≤ 255) ∧
      last < 256 ^ (4 - (numbers.length - 1)) ∧
      numbers.dropLast.foldl (fun n k => n * 256 + k) 0 * 256 ^ (4 - (numbers.length - 1)) + last =
        address := by
    simp [ipv4?, Option.bind_eq_some_iff] at h
    obtain ⟨hl, numbers, hm, last, hlast, ⟨hf, hlt⟩, he⟩ := h
    exact ⟨numbers, last, length_of_mapM hm ▸ hl, hlast, hf, hlt, he⟩
  obtain ⟨numbers, last, hl, hlast, hf, hlt, rfl⟩ := hc
  clear h
  rcases numbers with _ | ⟨a, _ | ⟨b, _ | ⟨c, _ | ⟨d, _ | ⟨e, numbers⟩⟩⟩⟩⟩
  · simp at hlast
  · simp at hlast hlt ⊢
    omega
  · simp at hlast hf hlt ⊢
    omega
  · simp at hlast hf hlt ⊢
    omega
  · simp at hlast hf hlt ⊢
    omega
  · simp only [List.length_cons] at hl
    omega

end Dotted

section Grouped

structure IsGroups (groups : List Nat) : Prop where
  length_eq : groups.length = 8
  lt : ∀ n ∈ groups, n < 65536

private theorem plainOctet?_le {part : List Char} {n : Nat}
    (h : plainOctet? part = some n) : n ≤ 255 := by
  unfold plainOctet? at h
  split at h
  · contradiction
  · obtain ⟨m, -, h⟩ := Option.bind_eq_some_iff.1 h
    split at h
    · next hle =>
      obtain rfl : m = n := by simpa using h
      exact hle
    · contradiction

private theorem dottedEnd?_lt {part : List Char} {groups : List Nat}
    (h : dottedEnd? part = some groups) :
    ∀ n ∈ groups, n < 65536 := by
  obtain ⟨os, hm, h⟩ := Option.bind_eq_some_iff.1 h
  have hle : ∀ n ∈ os, n ≤ 255 := forall_of_mapM (fun _ _ _ hb => plainOctet?_le hb) hm
  split at h
  · obtain rfl := Option.some.inj h
    simp only [List.mem_cons, List.not_mem_nil, or_false, forall_eq_or_imp, forall_eq] at hle ⊢
    omega
  · contradiction

private theorem groups?_lt {dotted : Bool} {parts : List (List Char)} {groups : List Nat}
    (h : groups? dotted parts = some groups) :
    ∀ n ∈ groups, n < 65536 := by
  induction parts generalizing groups with
  | nil =>
    obtain rfl : [] = groups := by simpa [groups?] using h
    simp
  | cons part rest ih =>
    unfold groups? at h
    split at h
    · exact dottedEnd?_lt h
    split at h
    · contradiction
    · next hl =>
      obtain ⟨n, hn, h⟩ := Option.bind_eq_some_iff.1 h
      obtain ⟨ns, hns, h⟩ := Option.bind_eq_some_iff.1 h
      obtain rfl := Option.some.inj h
      intro k hk
      rcases List.mem_cons.1 hk with rfl | hk
      · have hl4 : part.length ≤ 4 := by simp at hl; omega
        exact Nat.lt_of_lt_of_le (number?_lt hn) (Nat.pow_le_pow_right (n := 16) (by decide) hl4)
      · exact ih hns k hk

private theorem side?_lt {dotted : Bool} {s : List Char} {groups : List Nat}
    (h : side? dotted s = some groups) :
    ∀ n ∈ groups, n < 65536 := by
  unfold side? at h
  split at h
  · obtain rfl := Option.some.inj h
    simp
  · exact groups?_lt h

theorem ipv6?_isGroups {s : List Char} {groups : List Nat}
    (h : ipv6? s = some groups) : IsGroups groups := by
  unfold ipv6? at h
  split at h
  · next front back _ =>
    obtain ⟨a, ha, h⟩ := Option.bind_eq_some_iff.1 h
    obtain ⟨b, hb, h⟩ := Option.bind_eq_some_iff.1 h
    split at h
    · contradiction
    · next hl =>
      obtain rfl := Option.some.inj h
      refine ⟨by simp; omega, fun n hn => ?_⟩
      rcases List.mem_append.1 hn with hn | hn
      · rcases List.mem_append.1 hn with hn | hn
        · exact side?_lt ha n hn
        · rw [List.eq_of_mem_replicate hn]
          decide
      · exact side?_lt hb n hn
  · obtain ⟨a, ha, h⟩ := Option.bind_eq_some_iff.1 h
    split at h
    · next hl =>
      obtain rfl := Option.some.inj h
      exact ⟨hl, side?_lt ha⟩
    · contradiction

private theorem hexGroups_cons (n : Nat) (ns : List Nat) :
    hexGroups (n :: ns) = Nat.toDigits 16 n ++ (ns.map (Nat.toDigits 16)).flatMap (':' :: ·) := by
  induction ns generalizing n with
  | nil => simp [hexGroups, List.intercalate]
  | cons m ns ih =>
    have hi := ih m
    simp only [hexGroups, List.intercalate, List.map_cons, List.intersperse_cons_cons,
      List.flatten_cons, List.flatMap_cons] at hi ⊢
    rw [hi]
    rfl

private theorem hex_no_colon (n : Nat) : ∀ c ∈ Nat.toDigits 16 n, (c == ':') = false :=
  fun _ h => forall_toDigits (p := fun c => (c == ':') = false) (by decide)
    (by decide) (by decide) h

private theorem groups?_hex {dotted : Bool} {ns : List Nat} (h : ∀ n ∈ ns, n < 65536) :
    groups? dotted (ns.map (Nat.toDigits 16)) = some ns := by
  induction ns with
  | nil => rfl
  | cons n ns ih =>
    have hdot : '.' ∉ Nat.toDigits 16 n := by
      intro hm
      exact forall_toDigits (p := (· ≠ '.')) (by decide) (by decide) (by decide) hm rfl
    have hlen : (Nat.toDigits 16 n).length ≤ 4 :=
      (Nat.length_toDigits_le_iff (by decide) (by decide)).2 (h n List.mem_cons_self)
    have hne : (Nat.toDigits 16 n).isEmpty = false := by simp [Nat.toDigits_ne_nil]
    have hn := number?_toDigits (by decide : 1 < 16) (by decide) n
    have hr := ih fun m hm => h m (List.mem_cons_of_mem _ hm)
    simp [groups?, hdot, hne, hn, hr, Nat.not_lt.2 hlen]

private theorem side?_hexGroups (dotted : Bool) {ns : List Nat} (h : ∀ n ∈ ns, n < 65536) :
    side? dotted (hexGroups ns) = some ns := by
  cases ns with
  | nil => rfl
  | cons n ns =>
    have hne : (hexGroups (n :: ns)).isEmpty = false := by
      simp [hexGroups_cons, Nat.toDigits_ne_nil]
    have hp : pieces (· == ':') (hexGroups (n :: ns)) = (n :: ns).map (Nat.toDigits 16) := by
      rw [hexGroups_cons, pieces_flatMap rfl (hex_no_colon n)]
      · rfl
      · intro t ht
        obtain ⟨m, -, rfl⟩ := List.mem_map.1 ht
        exact hex_no_colon m
    rw [side?, hne, hp]
    exact groups?_hex h

private theorem atGap_append {t : List Char} (h : ∀ c ∈ t, (c == ':') = false) (s : List Char) :
    atGap (t ++ s) = (atGap s).map fun (a, b) => (t ++ a, b) := by
  induction t with
  | nil => simp
  | cons c t ih =>
    have hc : c ≠ ':' := by simpa using h c List.mem_cons_self
    rw [List.cons_append, atGap, ih fun d hd => h d (List.mem_cons_of_mem _ hd), Option.map_map]
    · rfl
    · intro rest he
      exact absurd he hc

/-- Groups with single colons between them hold no gap. -/
private theorem atGap_hexGroups (ns : List Nat) (s : List Char) :
    atGap (hexGroups ns ++ s) = (atGap s).map fun (a, b) => (hexGroups ns ++ a, b) := by
  have behind (ns : List Nat) : atGap ((ns.map (Nat.toDigits 16)).flatMap (':' :: ·) ++ s) =
      (atGap s).map fun (a, b) => ((ns.map (Nat.toDigits 16)).flatMap (':' :: ·) ++ a, b) := by
    induction ns with
    | nil => simp
    | cons n ns ih =>
      have hc := hex_no_colon n
      obtain ⟨d, ds, hd⟩ := List.exists_cons_of_ne_nil (Nat.toDigits_ne_nil (b := 16) (n := n))
      rw [List.map_cons, List.flatMap_cons, List.append_assoc, List.cons_append, hd,
        List.cons_append, atGap, ← List.cons_append, ← hd, atGap_append hc, ih, Option.map_map,
        Option.map_map]
      · simp [Function.comp_def]
      · intro rest _ he
        obtain ⟨rfl, -⟩ : d = ':' ∧ _ := by simpa using he
        simp [hd] at hc
  cases ns with
  | nil => simp [hexGroups]
  | cons n ns => simp [hexGroups_cons, atGap_append (hex_no_colon n), behind ns, Function.comp_def]

/-- A run is counted from its place. -/
private theorem drop_of_zeroRuns {ps : List Nat} {i k : Nat} (h : (zeroRuns ps)[i]? = some k) :
    ps.drop i = List.replicate k 0 ++ ps.drop (i + k) := by
  induction ps generalizing i k with
  | nil => simp [zeroRuns] at h
  | cons n ps ih =>
    cases i with
    | zero =>
      obtain rfl : (if n = 0 then (zeroRuns ps).headD 0 + 1 else 0) = k := by
        simpa [zeroRuns] using h
      split
      · next hn =>
        have hrest :
            ps = List.replicate ((zeroRuns ps).headD 0) 0 ++ ps.drop ((zeroRuns ps).headD 0) := by
          cases hz : zeroRuns ps with
          | nil => simp
          | cons r rs => simpa using ih (i := 0) (k := r) (by simp [hz])
        rw [Nat.zero_add, List.drop_zero, List.drop_succ_cons, List.replicate_succ,
          List.cons_append, ← hrest, hn]
      · simp
    | succ i => simpa [Nat.succ_add] using ih (i := i) (by simpa [zeroRuns] using h)

private theorem foldl_max_mem (l : List Nat) (a : Nat) : l.foldl max a = a ∨ l.foldl max a ∈ l := by
  induction l generalizing a with
  | nil => exact .inl rfl
  | cons b l ih =>
    rw [List.foldl_cons]
    rcases ih (max a b) with h | h
    · rcases Nat.le_total a b with hab | hab
      · exact .inr (by rw [h, Nat.max_eq_right hab]; exact List.mem_cons_self)
      · exact .inl (by rw [h, Nat.max_eq_left hab])
    · exact .inr (List.mem_cons_of_mem _ h)

/-- The gap stands for zeros: what is written before and after it are the other groups. -/
private theorem ipv6Text_cases (ps : List Nat) : ipv6Text ps = hexGroups ps ∨ ∃ (i k : Nat), 2 ≤ k ∧
    ps = ps.take i ++ List.replicate k 0 ++ ps.drop (i + k) ∧
    ipv6Text ps = hexGroups (ps.take i) ++ ':' :: ':' :: hexGroups (ps.drop (i + k)) := by
  by_cases hlong : (zeroRuns ps).foldl max 0 < 2
  · exact .inl (if_pos hlong)
  ·
    refine .inr ⟨(zeroRuns ps).idxOf ((zeroRuns ps).foldl max 0), (zeroRuns ps).foldl max 0,
      by omega, ?_, by simp [ipv6Text, hlong]⟩
    have hm : (zeroRuns ps).foldl max 0 ∈ zeroRuns ps := by
      rcases foldl_max_mem (zeroRuns ps) 0 with h | h
      · omega
      · exact h
    have hrun :=
      drop_of_zeroRuns (List.getElem?_eq_some_iff.2
        ⟨List.idxOf_lt_length_of_mem hm, List.getElem_idxOf _⟩)
    rw [List.append_assoc, ← hrun, List.take_append_drop]

/-- Hex digits and colons. -/
theorem forall_ipv6Text {p : Char → Prop} (hc : p ':') (hp : ∀ d < 16, p (Nat.digitChar d))
    {ps : List Nat} {c : Char} (h : c ∈ ipv6Text ps) : p c := by
  have groups {ns : List Nat} (h : c ∈ hexGroups ns) : p c := by
    cases ns with
    | nil => simp [hexGroups] at h
    | cons n ns =>
      rw [hexGroups_cons, List.mem_append] at h
      rcases h with h | h
      · exact forall_toDigits hp (by decide) (by decide) h
      · obtain ⟨t, ht, h⟩ := List.mem_flatMap.1 h
        obtain ⟨m, -, rfl⟩ := List.mem_map.1 ht
        rcases List.mem_cons.1 h with rfl | h
        · exact hc
        · exact forall_toDigits hp (by decide) (by decide) h
  rcases ipv6Text_cases ps with ht | ⟨i, k, -, -, ht⟩
  · exact groups (ht ▸ h)
  · rw [ht, List.mem_append, List.mem_cons, List.mem_cons] at h
    rcases h with h | rfl | rfl | h
    · exact groups h
    · exact hc
    · exact hc
    · exact groups h

/-- An address of eight groups is read back, whichever zeros are left out. -/
theorem ipv6?_ipv6Text {ps : List Nat} (h : IsGroups ps) : ipv6? (ipv6Text ps) = some ps := by
  rcases ipv6Text_cases ps with ht | ⟨i, k, hk, hz, ht⟩
  · have hg : atGap (hexGroups ps) = none := by simpa [atGap] using atGap_hexGroups ps []
    simp [ht, ipv6?, hg, side?_hexGroups _ h.lt, h.length_eq]
  · have hg : atGap (ipv6Text ps) = some (hexGroups (ps.take i), hexGroups (ps.drop (i + k))) := by
      rw [ht, atGap_hexGroups]
      simp [atGap]
    have hl : (ps.take i).length + k + (ps.drop (i + k)).length = 8 := by
      have hlen := congrArg List.length hz
      simp only [List.length_append, List.length_replicate, h.length_eq] at hlen
      exact hlen.symm
    have hf := side?_hexGroups false fun n (hn : n ∈ ps.take i) => h.lt n (List.mem_of_mem_take hn)
    have hb :=
      side?_hexGroups true fun n (hn : n ∈ ps.drop (i + k)) => h.lt n (List.mem_of_mem_drop hn)
    have hgap : 8 - (ps.take i).length - (ps.drop (i + k)).length = k := by omega
    have hle : ¬ 7 < (ps.take i).length + (ps.drop (i + k)).length := by omega
    simp only [ipv6?, hg, hf, hb, Option.bind_eq_bind, Option.bind_some, gt_iff_lt,
      if_neg hle, hgap, ← hz]

end Grouped
end RecordSearch.Url
