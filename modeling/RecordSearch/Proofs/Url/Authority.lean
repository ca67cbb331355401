import RecordSearch.Proofs.Url.Address
import RecordSearch.Proofs.Url.Path

/-! User, host and port, read from the text that they are written as. -/
namespace RecordSearch.Url
open RecordSearch.Text

section Hosts

inductive SettledHost : Host → Prop
  | named {name : List Char} (hne : name ≠ [])
      (hc : ∀ c ∈ name, isForbiddenInName c = false ∧ c.toLower = c)
      (hn : endsInNumber name = false) : SettledHost (.named name)
  | ipv4 {address : Nat} (h : address < 4294967296) : SettledHost (.ipv4 address)
  | ipv6 {groups : List Nat} (h : IsGroups groups) : SettledHost (.ipv6 groups)

private theorem toLower_toLower (c : Char) : c.toLower.toLower = c.toLower := by
  by_cases h : c.toNat < 128
  · exact forall_ascii (p := fun c => c.toLower.toLower = c.toLower) (by decide) h
  · have hc : c.toLower = c := by
      unfold Char.toLower
      split
      · next hu => exact absurd (Nat.lt_of_le_of_lt (UInt32.le_iff_toNat_le.1 hu.2) (by decide)) h
      · rfl
    rw [hc, hc]

private theorem bracketed_settled {s : List Char} {host : Host}
    (h : bracketed s = .ok host) : SettledHost host := by
  unfold bracketed at h
  split at h
  · next hg =>
    obtain rfl := Except.ok.inj h
    exact .ipv6 (ipv6?_isGroups hg)
  · contradiction

theorem namedHost_settled {s : List Char} {host : Host}
    (h : namedHost s = .ok host) : SettledHost host := by
  unfold namedHost at h
  split at h
  · exact bracketed_settled h
  split at h
  · contradiction
  · next decoded _ =>
    dsimp only at h
    split at h
    · contradiction
    · next hf =>
      split at h
      · contradiction
      · next he =>
        split at h
        · split at h
          · next ha =>
            obtain rfl := Except.ok.inj h
            exact .ipv4 (ipv4?_lt ha)
          · contradiction
        · next hn =>
          obtain rfl := Except.ok.inj h
          refine .named (by simpa using he) (fun c hc => ⟨?_, ?_⟩) (by simpa using hn)
          · simpa using List.any_eq_false.1 (Bool.eq_false_iff.2 hf) c hc
          · obtain ⟨d, -, rfl⟩ := List.mem_map.1 hc
            exact toLower_toLower d

/-- A name in lower case without forbidden characters is looked at as it stands. -/
private theorem namedHost_of_name {name : List Char} (hne : name ≠ [])
    (hc : ∀ c ∈ name, isForbiddenInName c = false ∧ c.toLower = c) :
    namedHost name = if endsInNumber name then
      match ipv4? name with
      | some address => .ok (.ipv4 address)
      | none => .error .ipv4
    else .ok (.named name) := by
  have hpercent : ∀ c ∈ name, c ≠ '%' := by
    rintro c hm rfl
    exact absurd (hc _ hm).1 (by decide)
  have hlower : name.map Char.toLower = name := by
    rw [List.map_congr_left fun c hm => (hc c hm).2, List.map_id']
  have hforbidden : name.any isForbiddenInName = false :=
    List.any_eq_false.2 fun c hm => by simp [(hc c hm).1]
  have hempty : name.isEmpty = false := by simpa using hne
  unfold namedHost
  split
  · exact absurd (hc _ List.mem_cons_self).1 (by decide)
  · rw [Percent.decode_of_no_percent hpercent, Utf8.decode?_encode]
    dsimp only
    rw [hlower, hforbidden, hempty]
    rfl

private theorem bracketed_ipv6Text {groups : List Nat} (h : IsGroups groups) :
    bracketed (ipv6Text groups ++ [']']) = .ok (.ipv6 groups) := by
  simp [bracketed, ipv6?_ipv6Text h]

theorem namedHost_chars {host : Host} (h : SettledHost host) : namedHost host.chars = .ok host := by
  cases h with
  | named hne hc hn => simp [Host.chars, namedHost_of_name hne hc, hn]
  | @ipv4 address h =>
    have hc : ∀ c ∈ ipv4Text address, isForbiddenInName c = false ∧ c.toLower = c :=
      fun _ => forall_ipv4Text (p := fun c => isForbiddenInName c = false ∧ c.toLower = c)
        (by decide) (by decide)
    rw [Host.chars, namedHost_of_name (ipv4Text_ne_nil address) hc, endsInNumber_ipv4Text,
      ipv4?_ipv4Text h]
    rfl
  | ipv6 h => exact bracketed_ipv6Text h

theorem hostChars_ne_nil {host : Host} (h : SettledHost host) : host.chars ≠ [] := by
  cases h with
  | named hne _ _ => exact hne
  | ipv4 _ => exact ipv4Text_ne_nil _
  | ipv6 _ => exact List.cons_ne_nil _ _

/-- A host is written with characters that are not forbidden, and three more in brackets. -/
theorem forall_hostChars {p : Char → Prop} (hp : ∀ c, isForbiddenInName c = false → p c)
    (hopen : p '[') (hcolon : p ':') (hclose : p ']') {host : Host}
    (h : SettledHost host) : ∀ c ∈ host.chars, p c := by
  intro c hm
  have hdigits : ∀ d < 16, p (Nat.digitChar d) := fun d hd =>
    hp _ ((by decide : ∀ d < 16, isForbiddenInName (Nat.digitChar d) = false) d hd)
  cases h with
  | named _ hc _ => exact hp c (hc c hm).1
  | ipv4 _ => exact forall_ipv4Text (hp '.' (by decide)) hdigits hm
  | ipv6 _ =>
    rcases List.mem_append.1 hm with hm | hm
    · rcases List.mem_cons.1 hm with rfl | hm
      · exact hopen
      · exact forall_ipv6Text hcolon hdigits hm
    · rw [List.mem_singleton.1 hm]
      exact hclose

end Hosts

section Ports

private theorem splitPort_append {inside : Bool} {s : List Char}
    (h : ∀ c ∈ s, c ≠ '[' ∧ c ≠ ']' ∧ (inside = true ∨ c ≠ ':')) (rest : List Char) :
    splitPort inside (s ++ rest) = (s ++ (splitPort inside rest).1, (splitPort inside rest).2) := by
  induction s with
  | nil => rfl
  | cons c s ih =>
    obtain ⟨hopen, hclose, hcolon⟩ := h c List.mem_cons_self
    have hc : (c == ':' && !inside) = false := by
      rcases hcolon with rfl | hcolon
      · exact Bool.and_false _
      · simp [hcolon]
    simp [splitPort, hc, hopen, hclose, ih fun d hd => h d (List.mem_cons_of_mem _ hd)]

/-- No colon of the host is taken for the one before a port. -/
theorem splitPort_hostChars {host : Host} (h : SettledHost host) (rest : List Char) :
    splitPort false (host.chars ++ rest) =
      (host.chars ++ (splitPort false rest).1, (splitPort false rest).2) := by
  have plain {c : Char} (hc : isForbiddenInName c = false) :
      c ≠ '[' ∧ c ≠ ']' ∧ (false = true ∨ c ≠ ':') := by
    refine ⟨?_, ?_, .inr ?_⟩ <;> (rintro rfl; exact absurd hc (by decide))
  cases h with
  | named _ hc _ => exact splitPort_append (fun c hm => plain (hc c hm).1) rest
  | ipv4 _ =>
    refine splitPort_append (fun c hm => ?_) rest
    exact forall_ipv4Text (p := fun c => c ≠ '[' ∧ c ≠ ']' ∧ (false = true ∨ c ≠ ':')) (by decide)
      (by decide) hm
  | @ipv6 groups _ =>
    have hin : ∀ c ∈ ipv6Text groups, c ≠ '[' ∧ c ≠ ']' ∧ (true = true ∨ c ≠ ':') := fun c hm =>
      forall_ipv6Text (p := fun c => c ≠ '[' ∧ c ≠ ']' ∧ (true = true ∨ c ≠ ':')) (by decide)
        (by decide) hm
    simp [Host.chars, splitPort, splitPort_append hin]

private theorem isDigit_of_mem_decimal {n : Nat} {c : Char} (h : c ∈ decimal n) :
    isDigit c = true :=
  forall_decimal (p := fun c => isDigit c = true) (by decide) h

private theorem foldl_decimal (n : Nat) :
    (decimal n).foldl (fun n c => n * 10 + (c.toNat - 48)) 0 = n := by
  have digit : ∀ d < 10, (Nat.digitChar d).toNat - 48 = d := by decide
  exact foldl_toDigits (by decide) (fun n d hd => by rw [digit d hd]) n

/-- A port that is kept is no more than sixteen bits, and not the default one. -/
def SettledPort (standard port : Nat) : Prop := port ≤ 65535 ∧ port ≠ standard

theorem readPort_decimal {standard port : Nat} (h : SettledPort standard port) :
    readPort (.special standard) (decimal port) = .ok (some port, []) := by
  have hall : ∀ c ∈ decimal port, isDigit c = true := fun _ => isDigit_of_mem_decimal
  have hne : decimal port ≠ [] := Nat.toDigits_ne_nil
  have hlt : ¬65535 < port := Nat.not_lt.2 h.1
  have hd : standard ≠ port := h.2.symm
  simp [readPort, List.takeWhile_eq_self_iff.2 hall, List.dropWhile_eq_nil_iff.2 hall,
    foldl_decimal, hlt, hne, hd]

theorem readPort_settled {standard port : Nat} {s rest : List Char}
    (h : readPort (.special standard) s = .ok (some port, rest)) :
    SettledPort standard port := by
  unfold readPort at h
  dsimp only at h
  split at h
  · contradiction
  · next hlt =>
    split at h
    · contradiction
    · obtain ⟨hp, -⟩ := Prod.mk.inj (Except.ok.inj h)
      split at hp
      · contradiction
      · next hd =>
        obtain rfl := Option.some.inj hp
        refine ⟨Nat.le_of_not_lt hlt, fun he => hd ?_⟩
        simp [he]

end Ports
section Users

structure SettledUser (u : Url) : Prop where
  username : ∀ c ∈ u.username, keepsInUser c = true
  password : ∀ p ∈ u.password, p ≠ [] ∧ ∀ c ∈ p, keepsInUser c = true

theorem ne_of_keepsInUser {c : Char} (h : keepsInUser c = true) : c ≠ ':' ∧ c ≠ '@' := by
  constructor <;> (rintro rfl; exact absurd h (by decide))

theorem readUser_settled {s name : List Char} {password : Option (List Char)}
    (h : readUser s = (name, password)) :
    (∀ c ∈ name, keepsInUser c = true) ∧
    ∀ p ∈ password, p ≠ [] ∧ ∀ c ∈ p, keepsInUser c = true := by
  have kept {s : List Char} : ∀ c ∈ Percent.encode keepsInUser s, keepsInUser c = true :=
    fun _ => Percent.keep_of_mem_encode (fun _ => keepsInUser_of_isOctetChar)
  unfold readUser at h
  dsimp only at h
  split at h
  · obtain ⟨rfl, rfl⟩ := Prod.mk.inj h
    exact ⟨kept, by simp⟩
  · next hne =>
    obtain ⟨rfl, rfl⟩ := Prod.mk.inj h
    refine ⟨kept, fun p hp => ?_⟩
    obtain rfl := Option.some.inj hp
    exact ⟨by simpa [Percent.encode_eq_nil_iff] using hne, kept⟩

private theorem takeWhile_ne {d : Char} {s : List Char} (h : ∀ c ∈ s, c ≠ d) (t : List Char) :
    (s ++ d :: t).takeWhile (· != d) = s := by
  rw [List.takeWhile_append_of_pos fun c hc => by simpa using h c hc]
  simp

private theorem dropWhile_ne {d : Char} {s : List Char} (h : ∀ c ∈ s, c ≠ d) (t : List Char) :
    (s ++ d :: t).dropWhile (· != d) = d :: t := by
  rw [List.dropWhile_append_of_pos fun c hc => by simpa using h c hc]
  simp

private theorem readUser_name {name : List Char} (h : ∀ c ∈ name, keepsInUser c = true) :
    readUser name = (name, none) := by
  have hc : ∀ c ∈ name, (c != ':') = true :=
    fun c hm => by simpa using (ne_of_keepsInUser (h c hm)).1
  simp [readUser, List.takeWhile_eq_self_iff.2 hc, List.dropWhile_eq_nil_iff.2 hc,
    Percent.encode_of_kept h]

private theorem readUser_password {name password : List Char} (h : ∀ c ∈ name, keepsInUser c = true)
    (hne : password ≠ []) (hp : ∀ c ∈ password, keepsInUser c = true) :
    readUser (name ++ ':' :: password) = (name, some password) := by
  have hc : ∀ c ∈ name, c ≠ ':' := fun c hm => (ne_of_keepsInUser (h c hm)).1
  obtain ⟨a, s, rfl⟩ := List.exists_cons_of_ne_nil hne
  simp [readUser, takeWhile_ne hc, dropWhile_ne hc, Percent.encode_of_kept h,
    Percent.encode_of_kept hp]

private theorem splitUser_append (front : List Char) {back : List Char} (h : ∀ c ∈ back, c ≠ '@') :
    splitUser (front ++ '@' :: back) = some (front, back) := by
  have hr : ∀ c ∈ back.reverse, c ≠ '@' := fun c hc => h c (List.mem_reverse.1 hc)
  simp [splitUser, takeWhile_ne hr, dropWhile_ne hr]

/-- User name and password are read from what stands before the host. -/
theorem split_userChars {u : Url} (h : SettledUser u) {back : List Char}
    (hb : ∀ c ∈ back, c ≠ '@') :
    ∃ user, (splitUser (u.userChars ++ back)).getD ([], u.userChars ++ back) = (user, back) ∧
      readUser user = (u.username, u.password) := by
  unfold userChars
  split
  · next hn hp =>
    have hat : splitUser back = none := by
      rw [splitUser, if_neg]
      simpa using fun hm => hb _ hm rfl
    refine ⟨[], by simp [hat], ?_⟩
    rw [hn, hp]
    rfl
  · next hp _ =>
    refine ⟨u.username, ?_, ?_⟩
    · rw [List.append_assoc, List.singleton_append, splitUser_append _ hb]
      rfl
    · rw [readUser_name h.username, hp]
  · next password hp =>
    obtain ⟨hne, hc⟩ := h.password password hp
    refine ⟨u.username ++ ':' :: password, ?_, ?_⟩
    · rw [← List.cons_append, ← List.append_assoc, List.append_assoc, List.singleton_append,
        splitUser_append _ hb]
      rfl
    · rw [readUser_password h.username hne hc, hp]

end Users
end RecordSearch.Url
