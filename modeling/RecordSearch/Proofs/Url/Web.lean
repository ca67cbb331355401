import RecordSearch.Proofs.Steps
import RecordSearch.Proofs.Url.Authority

/-! Addresses with a host: what is read of them, and how it is read back. -/
namespace RecordSearch.Url
open RecordSearch.Text

structure SettledUrl (standard : Nat) (u : Url) : Prop extends SettledUser u where
  host : ∃ host, u.host = some host ∧ SettledHost host
  port : ∀ port ∈ u.port, SettledPort standard port
  path : ∃ segments, u.path = .rooted segments ∧ segments ≠ [] ∧ ∀ s ∈ segments, Settled s
  query : ∀ q ∈ u.query, ∀ c ∈ q, keepsInSpecialQuery c = true
  fragment : ∀ f ∈ u.fragment, ∀ c ∈ f, keepsInFragment c = true

private theorem resolve_ne_nil (port : Nat) {raws : List (List Char)} (h : raws ≠ [])
    (done : List (List Char)) :
    resolve (.special port) done raws ≠ [] := by
  induction raws generalizing done with
  | nil => contradiction
  | cons raw rest ih =>
    rw [resolve_cons]
    cases rest with
    | nil => split <;> [skip; split] <;> simp [resolve]
    | cons next rest =>
      split
      · exact ih (List.cons_ne_nil _ _) _
      · split <;> exact ih (List.cons_ne_nil _ _) _

theorem segments_ne_nil (port : Nat) (s : List Char) : segments (.special port) s ≠ [] :=
  resolve_ne_nil port (pieces_ne_nil _ _) []

/-- The parts of an octet stand for themselves in a query and a fragment too. -/
private theorem keeps_of_isOctetChar {c : Char} (h : Percent.isOctetChar c = true) :
    keepsInSpecialQuery c = true ∧ keepsInFragment c = true :=
  forall_ascii (p := fun c => Percent.isOctetChar c = true →
    keepsInSpecialQuery c = true ∧ keepsInFragment c = true) (by decide)
    (Percent.lt_of_isOctetChar h) h

private theorem tail_settled (standard : Nat) (s : List Char) :
    (∀ q ∈ (tail (.special standard) s).1, ∀ c ∈ q, keepsInSpecialQuery c = true) ∧
      ∀ f ∈ (tail (.special standard) s).2, ∀ c ∈ f, keepsInFragment c = true := by
  have kept {g f : List Char} (h : some (Percent.encode keepsInFragment g) = some f) :
      ∀ c ∈ f, keepsInFragment c = true := by
    obtain rfl := Option.some.inj h
    exact fun _ => Percent.keep_of_mem_encode fun _ ho => (keeps_of_isOctetChar ho).2
  unfold tail
  dsimp only
  split
  · refine ⟨fun q hq => ?_, fun f hf => ?_⟩
    · obtain rfl := Option.some.inj hq
      exact fun _ => Percent.keep_of_mem_encode fun _ ho => (keeps_of_isOctetChar ho).1
    · simp only [Option.mem_def] at hf
      split at hf
      · exact kept hf
      · contradiction
  · refine ⟨by simp, fun f hf => ?_⟩
    simp only [Option.mem_def] at hf
    split at hf
    · exact kept hf
    · contradiction

/-- What is read after two slashes is settled. -/
theorem readAuthority_settled {scheme : List Char} {standard : Nat} {s : List Char} {u : Url}
    (h : readAuthority scheme (.special standard) s = .ok u) :
    u.scheme = scheme ∧ SettledUrl standard u := by
  unfold readAuthority at h
  rcases hs : (splitUser (s.takeWhile fun c => !isTerminator (.special standard) c)).getD
    ([], s.takeWhile fun c => !isTerminator (.special standard) c) with ⟨user, hostPort⟩
  rcases hu : readUser user with ⟨username, password⟩
  rcases hp : splitPort false hostPort with ⟨hostText, portText⟩
  simp only [hs, hu, hp, Kind.isSpecial, Bool.true_and, if_true, Bool.true_or] at h
  split at h
  · contradiction
  split at h
  · contradiction
  obtain ⟨host, hhost, h⟩ := ok_of_bind h
  split at h
  · contradiction
  obtain ⟨hname, hpassword⟩ := readUser_settled hu
  have settled {port : Option Nat} {rest pathText : List Char}
    (hport : ∀ p ∈ port, SettledPort standard p)
      (h : (.ok {
          scheme, username, password, host := some host, port,
            path := .rooted (segments (.special standard) pathText)
          query := (tail (.special standard) rest).1,
            fragment := (tail (.special standard) rest).2 } : Except Fault Url) = .ok u) :
      u.scheme = scheme ∧ SettledUrl standard u := by
    obtain rfl := Except.ok.inj h
    exact ⟨rfl,
      ⟨⟨hname, hpassword⟩, ⟨host, rfl, namedHost_settled hhost⟩, hport,
        ⟨_, rfl, segments_ne_nil standard pathText, fun _ => settled_of_mem_segments⟩,
        (tail_settled standard rest).1, (tail_settled standard rest).2⟩⟩
  split at h
  · next p =>
    obtain ⟨⟨port, more⟩, hport, h⟩ := ok_of_bind h
    refine settled (fun p hp => ?_) h
    obtain rfl : port = some p := hp
    exact readPort_settled hport
  · exact settled (by simp) h

theorem toNat_lt_of_isPrintable {c : Char} (h : isPrintable c = true) : c.toNat < 128 := by
  simp only [isPrintable, Bool.and_eq_true, decide_eq_true_eq] at h
  exact Nat.lt_of_le_of_lt (UInt32.le_iff_toNat_le.1 h.2) (by decide)

private theorem toNat_lt_of_not_forbidden {c : Char}
    (h : isForbiddenInName c = false) : c.toNat < 128 := by
  simp only [isForbiddenInName, Bool.or_eq_false_iff, decide_eq_false_iff_not] at h
  have hlt : ¬ '\x7f'.toNat ≤ c.toNat := fun hle => h.2 (UInt32.le_iff_toNat_le.2 hle)
  exact Nat.lt_succ_of_lt (Nat.lt_of_not_le hlt)

def isInAuthority (c : Char) : Bool := ' ' < c && !(c == '/' || c == '\\' || c == '?' || c == '#')

private theorem isInAuthority_of_keepsInUser {c : Char}
    (h : keepsInUser c = true) : isInAuthority c = true := by
  have hp : isPrintable c = true := by
    simp only [keepsInUser, keepsInPath, keepsInFragment, Bool.and_eq_true] at h
    exact h.1.1.1
  exact forall_ascii (p := fun c => keepsInUser c = true → isInAuthority c = true) (by decide)
    (toNat_lt_of_isPrintable hp) h

def portChars (port : Option Nat) : List Char :=
  match port with
  | some port => ':' :: decimal port
  | none => []

private theorem forall_hostPort {p : Char → Prop}
    (hp : ∀ n < 128, isForbiddenInName (Char.ofNat n) = false → p (Char.ofNat n)) (hopen : p '[')
    (hcolon : p ':') (hclose : p ']') {host : Host} (h : SettledHost host) (port : Option Nat) :
    ∀ c ∈ host.chars ++ portChars port, p c := by
  have hname (c : Char) (hc : isForbiddenInName c = false) : p c :=
    forall_ascii (p := fun c => isForbiddenInName c = false → p c) hp
      (toNat_lt_of_not_forbidden hc) hc
  intro c hc
  rcases List.mem_append.1 hc with hc | hc
  · exact forall_hostChars hname hopen hcolon hclose h c hc
  · cases port with
    | none => contradiction
    | some port =>
      rcases List.mem_cons.1 hc with rfl | hc
      · exact hcolon
      · exact forall_toDigits (fun d hd =>
          hname _ ((by decide : ∀ d < 16, isForbiddenInName (Nat.digitChar d) = false) d hd))
          (by decide) (by decide) hc

private theorem authorityChars_eq (u : Url) (host : Host) :
    u.authorityChars host = u.userChars ++ (host.chars ++ portChars u.port) := List.append_assoc ..

theorem isInAuthority_of_mem {u : Url} (hu : SettledUser u) {host : Host} (h : SettledHost host) :
    ∀ c ∈ u.authorityChars host, isInAuthority c = true := by
  intro c hc
  rw [authorityChars_eq, List.mem_append] at hc
  rcases hc with hc | hc
  · unfold userChars at hc
    split at hc
    · contradiction
    · rcases List.mem_append.1 hc with hc | hc
      · exact isInAuthority_of_keepsInUser (hu.username c hc)
      · rw [List.mem_singleton.1 hc]
        decide
    · next password hpw =>
      rcases List.mem_append.1 hc with hc | hc
      · exact isInAuthority_of_keepsInUser (hu.username c hc)
      · rcases List.mem_cons.1 hc with rfl | hc
        · decide
        · rcases List.mem_append.1 hc with hc | hc
          · exact isInAuthority_of_keepsInUser ((hu.password password hpw).2 c hc)
          · rw [List.mem_singleton.1 hc]
            decide
  · exact forall_hostPort (p := fun c => isInAuthority c = true) (by decide) (by decide) (by decide)
      (by decide) h u.port c hc

def Follows (rest : List Char) : Prop := ∀ c ∈ rest.head?, c = '/' ∨ c = '?' ∨ c = '#'

/-- User, host and port are read back, whatever path, query and fragment come after them. -/
theorem readAuthority_append (scheme : List Char) {standard : Nat} {u : Url} {host : Host}
    (hu : SettledUser u) (hh : SettledHost host) (hport : ∀ p ∈ u.port, SettledPort standard p)
    {rest : List Char} (hr : Follows rest) :
    readAuthority scheme (.special standard) (u.authorityChars host ++ rest) = .ok {
      scheme, username := u.username, password := u.password, host := some host, port := u.port
      path := .rooted (segments (.special standard)
        (dropSlash (.special standard) (rest.takeWhile isPathChar)))
      query := (tail (.special standard) (rest.dropWhile isPathChar)).1
      fragment := (tail (.special standard) (rest.dropWhile isPathChar)).2 } := by
  have hin : ∀ c ∈ u.authorityChars host, (!isTerminator (.special standard) c) = true := by
    intro c hc
    have ha := isInAuthority_of_mem hu hh c hc
    simp only [isInAuthority, Bool.and_eq_true] at ha
    simpa [isTerminator] using ha.2
  have hend : ∀ c ∈ rest.head?, (!isTerminator (.special standard) c) = false := by
    intro c hc
    rcases hr c hc with rfl | rfl | rfl <;> rfl
  obtain ⟨htake, hdrop⟩ := cut_append hin hend
  have hat : ∀ c ∈ host.chars ++ portChars u.port, c ≠ '@' :=
    forall_hostPort (p := (· ≠ '@')) (by decide) (by decide) (by decide) (by decide) hh u.port
  obtain ⟨user, hsplit, huser⟩ := split_userChars hu hat
  have hne := hostChars_ne_nil hh
  have hempty : (host.chars ++ portChars u.port).isEmpty = false := by simp [hne]
  have hhost : host.chars.isEmpty = false := by simpa using hne
  have hp : splitPort false (host.chars ++ portChars u.port) =
      (host.chars, u.port.map decimal) := by
    rw [splitPort_hostChars hh]
    cases u.port <;> simp [portChars, splitPort]
  rw [authorityChars_eq] at htake hdrop ⊢
  unfold readAuthority
  simp only [htake, hdrop, hsplit, huser, hp, hempty, hhost, namedHost_chars hh, Kind.isSpecial,
    Bool.and_false, Bool.false_and, if_true, Bool.true_or, Bool.false_eq_true, if_false]
  cases hpo : u.port with
  | none => rfl
  | some port =>
    simp only [Option.map_some, readPort_decimal (hport port hpo)]
    rfl

end RecordSearch.Url
