import RecordSearch.Proofs.Url.Scheme

/-! Addresses that are read, written with names after them, and read again. -/
namespace RecordSearch.Url
open RecordSearch.Text

def extended (u : Url) (names : List String) : List Char :=
  dropEnd (· == '/') u.chars ++ names.flatMap fun name => '/' :: written name

theorem IsWeb.settledScheme {scheme : List Char} {standard : Nat}
    (h : IsWeb scheme standard) : SettledScheme scheme := by
  have settled {word : List Char}
      (hw : (word.all fun c => isSchemeChar c && c.toLower == c) = true) :
      ∀ c ∈ word, isSchemeChar c = true ∧ c.toLower = c :=
    fun c hc => by simpa using List.all_eq_true.1 hw c hc
  rcases h with ⟨rfl, -⟩ | ⟨rfl, -⟩
  · exact ⟨⟨_, _, rfl, by decide⟩, settled (by decide)⟩
  · exact ⟨⟨_, _, rfl, by decide⟩, settled (by decide)⟩

/-- The scheme stays, whatever else comes of the second reading. -/
theorem read_extended_scheme {s : List Char} {u v : Url} (hu : read s = .ok u) {names : List String}
    (hv : read (extended u names) = .ok v) : v.scheme = u.scheme := by
  have hscheme : SettledScheme u.scheme := by
    cases hs : splitScheme (cleaned s) with
    | none =>
      rw [read, hs] at hu
      contradiction
    | some found =>
      obtain ⟨scheme, rest⟩ := found
      rw [read_scheme hs hu]
      exact splitScheme_settled hs
  obtain ⟨rest, hrest⟩ : ∃ rest, extended u names = u.scheme ++ ':' :: rest := by
    obtain ⟨more, hmore⟩ : ∃ more, u.chars = u.scheme ++ ':' :: more := ⟨_, rfl⟩
    refine ⟨dropEnd (· == '/') more ++ names.flatMap fun name => '/' :: written name, ?_⟩
    rw [extended, hmore, List.append_cons, dropEnd_append (by simp), List.append_assoc,
      List.append_assoc]
    rfl
  obtain ⟨rest', hclean⟩ := cleaned_append hscheme rest
  exact read_scheme (by rw [hrest, hclean, splitScheme_append hscheme]) hv

section Web
variable {standard : Nat} {u : Url}

private theorem keepsInPath_visible {c : Char} (h : keepsInPath c = true) :
    ' ' < c ∧ isPathChar c = true := by
  have hp : isPrintable c = true := by
    simp only [keepsInPath, keepsInFragment, Bool.and_eq_true] at h
    exact h.1.1
  exact forall_ascii (p := fun c => keepsInPath c = true → ' ' < c ∧ isPathChar c = true)
    (by decide) (toNat_lt_of_isPrintable hp) h

private theorem keepsInQuery_visible {c : Char} (h : keepsInSpecialQuery c = true) : ' ' < c := by
  have hp : isPrintable c = true := by
    simp only [keepsInSpecialQuery, keepsInQuery, Bool.and_eq_true] at h
    exact h.1.1
  exact forall_ascii (p := fun c => keepsInSpecialQuery c = true → ' ' < c) (by decide)
    (toNat_lt_of_isPrintable hp) h

private theorem keepsInFragment_visible {c : Char} (h : keepsInFragment c = true) : ' ' < c := by
  have hp : isPrintable c = true := by
    simp only [keepsInFragment, Bool.and_eq_true] at h
    exact h.1
  exact forall_ascii (p := fun c => keepsInFragment c = true → ' ' < c) (by decide)
    (toNat_lt_of_isPrintable hp) h

/-- A settled address is read from its own scheme and authority, with what follows them. -/
theorem read_append (hw : IsWeb u.scheme standard) {host : Host} (hu : SettledUser u)
    (hh : SettledHost host) (hport : ∀ p ∈ u.port, SettledPort standard p) {rest : List Char}
    (hr : Follows rest) (hv : ∀ c ∈ rest, ' ' < c) :
    read (u.scheme ++ ':' :: '/' :: '/' :: (u.authorityChars host ++ rest)) = .ok { u with
      host := some host
      path := .rooted (segments (.special standard)
        (dropSlash (.special standard) (rest.takeWhile isPathChar)))
      query := (tail (.special standard) (rest.dropWhile isPathChar)).1
      fragment := (tail (.special standard) (rest.dropWhile isPathChar)).2 } := by
  have hin := isInAuthority_of_mem hu hh
  have hvisible :
      ∀ c ∈ u.scheme ++ ':' :: '/' :: '/' :: (u.authorityChars host ++ rest), ' ' < c := by
    intro c hc
    rcases List.mem_append.1 hc with hc | hc
    · exact Char.not_le.1 (of_isSchemeChar (hw.settledScheme.chars c hc).1).2.2.2.1
    · rcases List.mem_cons.1 hc with rfl | hc
      · decide
      rcases List.mem_cons.1 hc with rfl | hc
      · decide
      rcases List.mem_cons.1 hc with rfl | hc
      · decide
      rcases List.mem_append.1 hc with hc | hc
      · have ha := hin c hc
        simp only [isInAuthority, Bool.and_eq_true, decide_eq_true_eq] at ha
        exact ha.1
      · exact hv c hc
  have hslash :
      ('/' :: '/' :: (u.authorityChars host ++ rest)).dropWhile (isSlash (.special standard)) =
        u.authorityChars host ++ rest := by
    have hne : u.authorityChars host ≠ [] := by simp [authorityChars, hostChars_ne_nil hh]
    obtain ⟨a, t, ht⟩ := List.exists_cons_of_ne_nil hne
    have ha := hin a (by simp [ht])
    simp only [isInAuthority, Bool.and_eq_true, Bool.not_eq_true', Bool.or_eq_false_iff] at ha
    rw [ht]
    simp [ha.2.1.1.1, ha.2.1.1.2]
  rw [read, cleaned_of_visible hvisible, splitScheme_append hw.settledScheme]
  simp only [hw.kind, hslash]
  exact readAuthority_append u.scheme hu hh hport hr

def back (u : Url) : List Char :=
  dropEnd (· == '/') (u.path.chars ++ marked '?' u.query ++ marked '#' u.fragment)

private theorem extended_eq (hu : SettledUser u) {host : Host} (hhost : u.host = some host)
    (hh : SettledHost host) (names : List String) :
    extended u names = u.scheme ++ ':' :: '/' :: '/' ::
      (u.authorityChars host ++ (back u ++ names.flatMap fun name => '/' :: written name)) := by
  have hchars : u.chars = ((u.scheme ++ [':', '/', '/']) ++ u.authorityChars host) ++
      (u.path.chars ++ marked '?' u.query ++ marked '#' u.fragment) := by
    simp [chars, hhost]
  have hne : u.authorityChars host ≠ [] := by simp [authorityChars, hostChars_ne_nil hh]
  have hlast : ∀ c ∈ ((u.scheme ++ [':', '/', '/']) ++ u.authorityChars host).getLast?,
      (c == '/') = false := by
    intro c hc
    rw [List.getLast?_append, List.getLast?_eq_some_getLast hne, Option.some_or] at hc
    have ha := isInAuthority_of_mem hu hh c (Option.some.inj hc ▸ List.getLast_mem hne)
    simp only [isInAuthority, Bool.and_eq_true, Bool.not_eq_true', Bool.or_eq_false_iff] at ha
    exact ha.2.1.1.1
  rw [extended, hchars, dropEnd_append hlast, ← back]
  simp

private theorem back_isPrefix (u : Url) :
    back u <+: u.path.chars ++ marked '?' u.query ++ marked '#' u.fragment :=
  List.rdropWhile_prefix _ _

private theorem follows_back (hu : SettledUrl standard u) (names : List String) :
    Follows (back u ++ names.flatMap fun name => '/' :: written name) := by
  intro c hc
  refine .inl ?_
  rw [List.head?_append] at hc
  cases hb : (back u).head? with
  | none =>
    rw [hb, Option.none_or] at hc
    cases names with
    | nil => contradiction
    | cons name names => exact (Option.some.inj hc).symm
  | some d =>
    rw [hb, Option.some_or] at hc
    obtain rfl := Option.some.inj hc
    obtain ⟨segments, hp, hne, -⟩ := hu.path
    obtain ⟨s, ss, rfl⟩ := List.exists_cons_of_ne_nil hne
    obtain ⟨more, hmore⟩ := back_isPrefix u
    have hd := congrArg List.head? hmore
    rw [List.head?_append, hb, hp] at hd
    exact Option.some.inj hd

private theorem back_visible (hu : SettledUrl standard u) : ∀ c ∈ back u, ' ' < c := by
  have hmarked {mark : Char} {part : Option (List Char)} (hm : ' ' < mark)
      (hp : ∀ p ∈ part, ∀ c ∈ p, ' ' < c) : ∀ c ∈ marked mark part, ' ' < c := by
    intro c hc
    cases part with
    | none => contradiction
    | some p =>
      rcases List.mem_cons.1 hc with rfl | hc
      · exact hm
      · exact hp p rfl c hc
  intro c hc
  obtain ⟨segments, hp, -, hs⟩ := hu.path
  rcases List.mem_append.1 ((back_isPrefix u).mem hc) with hc | hc
  · rcases List.mem_append.1 hc with hc | hc
    · rw [hp, Path.chars] at hc
      obtain ⟨s, hm, hc⟩ := List.mem_flatMap.1 hc
      rcases List.mem_cons.1 hc with rfl | hc
      · decide
      · exact (keepsInPath_visible ((hs s hm).kept c hc)).1
    · exact hmarked (by decide) (fun q hq c hc => keepsInQuery_visible (hu.query q hq c hc)) c hc
  · exact hmarked (by decide) (fun f hf c hc => keepsInFragment_visible (hu.fragment f hf c hc)) c
      hc

private theorem names_visible (names : List String) :
    ∀ c ∈ names.flatMap fun name => '/' :: written name, ' ' < c := by
  intro c hc
  obtain ⟨name, -, hc⟩ := List.mem_flatMap.1 hc
  rcases List.mem_cons.1 hc with rfl | hc
  · decide
  · exact (keepsInPath_visible (keepsInPath_of_mem_written hc)).1

private theorem read_extended_eq (hw : IsWeb u.scheme standard) (hu : SettledUrl standard u)
    (names : List String) {rest : List Char}
    (hrest : rest = back u ++ names.flatMap fun name => '/' :: written name) :
    read (extended u names) = .ok { u with
      path := .rooted (segments (.special standard)
        (dropSlash (.special standard) (rest.takeWhile isPathChar)))
      query := (tail (.special standard) (rest.dropWhile isPathChar)).1
      fragment := (tail (.special standard) (rest.dropWhile isPathChar)).2 } := by
  obtain ⟨host, hhost, hh⟩ := hu.host
  subst hrest
  have hvisible : ∀ c ∈ back u ++ names.flatMap fun name => '/' :: written name, ' ' < c :=
    fun c hc => (List.mem_append.1 hc).elim (back_visible hu c) (names_visible names c)
  rw [extended_eq hu.toSettledUser hhost hh,
    read_append hw hu.toSettledUser hh hu.port (follows_back hu names) hvisible, ← hhost]

/-- With names after it an address is read with the same scheme, user, host and port. -/
theorem read_extended (hw : IsWeb u.scheme standard) (hu : SettledUrl standard u)
    (names : List String) :
    ∃ path query fragment, read (extended u names) = .ok { u with path, query, fragment } :=
  ⟨_, _, _, read_extended_eq hw hu names rfl⟩

/-- Without query and fragment all that is left with the names behind it is segments. -/
private theorem back_append (hu : SettledUrl standard u) (hq : u.query = none)
    (hf : u.fragment = none) (names : List String) :
    back u ++ names.flatMap (fun name => '/' :: written name) =
      (stem u.path.segments ++ names.map written).flatMap ('/' :: ·) := by
  obtain ⟨ss, hp, -, hs⟩ := hu.path
  have hdrop := dropEnd_slash ss fun s hm c hc he => by
    have hslash := (hs s hm).noSlash c hc
    rw [he] at hslash
    contradiction
  have hback : back u = (stem ss).flatMap ('/' :: ·) := by
    simpa [back, hq, hf, hp, marked, Path.chars] using hdrop
  rw [hback, hp, Path.segments, List.flatMap_append, List.flatMap_map]

private theorem settled_of_mem_stem (hu : SettledUrl standard u) :
    ∀ s ∈ stem u.path.segments, Settled s := by
  obtain ⟨ss, hp, -, hs⟩ := hu.path
  rw [hp]
  exact fun s hm => hs s (mem_of_mem_stem hm)

/-- Segments behind one another are read as a path. -/
private theorem read_extended_rooted (hw : IsWeb u.scheme standard) (hu : SettledUrl standard u)
    (hq : u.query = none) (hf : u.fragment = none) (names : List String) :
    read (extended u names) = .ok { u with
      path := .rooted (segments (.special standard) (dropSlash (.special standard)
        ((stem u.path.segments ++ names.map written).flatMap ('/' :: ·)))) } := by
  have hpath : ∀ c ∈ (stem u.path.segments ++ names.map written).flatMap ('/' :: ·),
      isPathChar c = true := by
    intro c hc
    obtain ⟨s, hm, hc⟩ := List.mem_flatMap.1 hc
    rcases List.mem_cons.1 hc with rfl | hc
    · decide
    rcases List.mem_append.1 hm with hm | hm
    · exact (keepsInPath_visible ((settled_of_mem_stem hu s hm).kept c hc)).2
    · obtain ⟨name, -, rfl⟩ := List.mem_map.1 hm
      exact (keepsInPath_visible (keepsInPath_of_mem_written hc)).2
  rw [read_extended_eq hw hu names (back_append hu hq hf names).symm,
    List.takeWhile_eq_self_iff.2 hpath, List.dropWhile_eq_nil_iff.2 hpath, hq, hf]
  rfl

/-- The segments of a path are read back one by one. -/
private theorem segments_flatMap {ss : List (List Char)}
    (hs : ∀ s ∈ ss, ∀ c ∈ s, (c == '/' || c == '\\') = false) (hne : ss ≠ []) :
    segments (.special standard) (dropSlash (.special standard) (ss.flatMap ('/' :: ·))) =
      resolve (.special standard) [] ss := by
  obtain ⟨s, rest, rfl⟩ := List.exists_cons_of_ne_nil hne
  have hpieces : pieces (isSlash (.special standard)) (s ++ rest.flatMap ('/' :: ·)) = s :: rest :=
    pieces_flatMap rfl (hs s List.mem_cons_self) fun t ht => hs t (List.mem_cons_of_mem _ ht)
  have hdrop : dropSlash (.special standard) ((s :: rest).flatMap ('/' :: ·)) =
      s ++ rest.flatMap ('/' :: ·) := rfl
  rw [hdrop, segments, hpieces]

private theorem resolve_of_settled {ss : List (List Char)} (hs : ∀ s ∈ ss, Settled s) :
    resolve (.special standard) [] ss = ss := by
  have hresolve := resolve_settled_append standard [] hs []
  rwa [List.append_nil, List.append_nil, resolve, List.reverse_reverse] at hresolve

/-- Without query and fragment the names are added to the path, where dots are steps. -/
theorem read_extended_path (hw : IsWeb u.scheme standard) (hu : SettledUrl standard u)
    (hq : u.query = none) (hf : u.fragment = none) {names : List String} (hn : names ≠ []) :
    read (extended u names) =
      .ok { u with
        path := .rooted (resolve (.special standard) (stem u.path.segments).reverse
          (names.map written)) } := by
  have hnoSlash : ∀ s ∈ stem u.path.segments ++ names.map written,
      ∀ c ∈ s, (c == '/' || c == '\\') = false := by
    intro s hm
    rcases List.mem_append.1 hm with hm | hm
    · exact (settled_of_mem_stem hu s hm).noSlash
    · obtain ⟨name, -, rfl⟩ := List.mem_map.1 hm
      exact fun c => not_slash_of_mem_written
  rw [read_extended_rooted hw hu hq hf, segments_flatMap hnoSlash (by simp [hn]),
    resolve_settled_append standard [] (settled_of_mem_stem hu), List.append_nil]

/-- The path that names lead to: that of the address without slashes at its end, and each name as
one segment. A path is never empty. -/
def pathUnder (u : Url) (names : List String) : List Char :=
  match dropEnd (· == '/') u.path.chars ++ names.flatMap fun name => '/' :: written name with
  | [] => ['/']
  | path => path

/-- Without query and fragment names that are no dots are added to the path as they are. -/
theorem read_extended_names (hw : IsWeb u.scheme standard) (hu : SettledUrl standard u)
    (hq : u.query = none) (hf : u.fragment = none) {names : List String}
    (hn : ∀ name ∈ names, ¬IsDots name) :
    ∃ path, read (extended u names) = .ok { u with path } ∧ path.chars = u.pathUnder names := by
  have hsettled : ∀ s ∈ stem u.path.segments ++ names.map written, Settled s := by
    intro s hm
    rcases List.mem_append.1 hm with hm | hm
    · exact settled_of_mem_stem hu s hm
    · obtain ⟨name, hname, rfl⟩ := List.mem_map.1 hm
      exact settled_written (hn name hname)
  have hunder : dropEnd (· == '/') u.path.chars ++ names.flatMap (fun name => '/' :: written name) =
      (stem u.path.segments ++ names.map written).flatMap ('/' :: ·) := by
    rw [← back_append hu hq hf, back, hq, hf, marked, marked, List.append_nil, List.append_nil]
  refine ⟨_, read_extended_rooted hw hu hq hf names, ?_⟩
  rw [pathUnder, hunder, Path.chars]
  cases hss : stem u.path.segments ++ names.map written with
  | nil => rfl
  | cons s ss =>
    rw [hss] at hsettled
    rw [segments_flatMap (fun t ht => (hsettled t ht).noSlash) (List.cons_ne_nil s ss),
      resolve_of_settled hsettled]
    rfl

/-- The text of names, each after a slash, that are put behind something. -/
private theorem kept_of_mem_names {names : List String} {c : Char}
    (h : c ∈ names.flatMap fun name => '/' :: written name) :
    keepsInSpecialQuery c = true ∧ keepsInFragment c = true := by
  obtain ⟨name, -, hc⟩ := List.mem_flatMap.1 h
  rcases List.mem_cons.1 hc with rfl | hc
  · decide
  have hp : keepsInPath c = true := keepsInPath_of_mem_written hc
  have hkept : (Percent.isUnreserved c || Percent.isOctetChar c) = true := by
    rw [Bool.or_eq_true]
    exact (Percent.mem_encode hc).imp And.right id
  simp only [keepsInPath, Bool.and_eq_true] at hp
  have hprint : isPrintable c = true := by
    have hf := hp.1
    simp only [keepsInFragment, Bool.and_eq_true] at hf
    exact hf.1
  exact ⟨forall_ascii
    (p := fun c => (Percent.isUnreserved c || Percent.isOctetChar c) = true →
      keepsInSpecialQuery c = true) (by decide) (toNat_lt_of_isPrintable hprint) hkept, hp.1⟩

private theorem tail_marked (standard : Nat) {query fragment : Option (List Char)}
    (hq : ∀ q ∈ query, ∀ c ∈ q, keepsInSpecialQuery c = true)
    (hf : ∀ f ∈ fragment, ∀ c ∈ f, keepsInFragment c = true) :
    tail (.special standard) (marked '?' query ++ marked '#' fragment) = (query, fragment) := by
  cases query with
  | none =>
    cases fragment with
    | none => rfl
    | some f => exact congrArg (fun f => (none, some f)) (Percent.encode_of_kept (hf f rfl))
  | some q =>
    have hin : ∀ c ∈ q, (c != '#') = true := by
      intro c hc
      have hk := hq q rfl c hc
      rw [bne_iff_ne]
      rintro rfl
      exact absurd hk (by decide)
    have hend : ∀ c ∈ (marked '#' fragment).head?, (c != '#') = false := by
      intro c hc
      cases fragment with
      | none => contradiction
      | some f =>
        obtain rfl := Option.some.inj hc
        rfl
    obtain ⟨htake, hdrop⟩ := cut_append hin hend
    unfold tail
    simp only [marked, List.cons_append, Kind.isSpecial, if_true] at htake hdrop ⊢
    rw [htake, hdrop, Percent.encode_of_kept (hq q rfl)]
    cases fragment with
    | none => rfl
    | some f => exact congrArg (fun f => (some q, some f)) (Percent.encode_of_kept (hf f rfl))

/-- Behind a mark names are no part of the path. -/
private theorem read_extended_marked (hw : IsWeb u.scheme standard) (hu : SettledUrl standard u)
    {names : List String} {query fragment : Option (List Char)}
    (hq : ∀ q ∈ query, ∀ c ∈ q, keepsInSpecialQuery c = true)
    (hf : ∀ f ∈ fragment, ∀ c ∈ f, keepsInFragment c = true)
    (hback : (back u ++ names.flatMap fun name => '/' :: written name) =
        u.path.chars ++ (marked '?' query ++ marked '#' fragment)) :
    read (extended u names) = .ok { u with query, fragment } := by
  obtain ⟨ss, hp, hne, hs⟩ := hu.path
  have hpath : ∀ c ∈ u.path.chars, isPathChar c = true := by
    intro c hc
    rw [hp, Path.chars] at hc
    obtain ⟨s, hm, hc⟩ := List.mem_flatMap.1 hc
    rcases List.mem_cons.1 hc with rfl | hc
    · decide
    · exact (keepsInPath_visible ((hs s hm).kept c hc)).2
  have hend : ∀ c ∈ (marked '?' query ++ marked '#' fragment).head?, isPathChar c = false := by
    intro c hc
    cases query with
    | some q =>
      obtain rfl := Option.some.inj hc
      rfl
    | none =>
      cases fragment with
      | none => contradiction
      | some f =>
        obtain rfl := Option.some.inj hc
        rfl
  obtain ⟨htake, hdrop⟩ := cut_append hpath hend
  rw [read_extended_eq hw hu names hback.symm, htake, hdrop, tail_marked standard hq hf, hp,
    Path.chars, segments_flatMap (fun s hm => (hs s hm).noSlash) hne, resolve_of_settled hs, ← hp]

/-- Names behind a fragment are added to the fragment. -/
theorem read_extended_fragment (hw : IsWeb u.scheme standard) (hu : SettledUrl standard u)
    {f : List Char} (hf : u.fragment = some f) (names : List String) :
    read (extended u names) =
      .ok { u with
        fragment :=
          some (dropEnd (· == '/') f ++ names.flatMap fun name => '/' :: written name) } := by
  refine read_extended_marked hw hu hu.query ?_ ?_
  · intro g hg c hc
    obtain rfl := Option.some.inj hg
    rcases List.mem_append.1 hc with hc | hc
    · exact hu.fragment f hf c ((List.rdropWhile_prefix _ _).mem hc)
    · exact (kept_of_mem_names hc).2
  · have hback : back u = u.path.chars ++ marked '?' u.query ++ ['#'] ++ dropEnd (· == '/') f := by
      rw [back, hf, ← dropEnd_append (by simp), marked, List.append_assoc _ ['#'],
        List.singleton_append]
    rw [hback]
    simp [marked]

/-- Names behind a query are added to the query. -/
theorem read_extended_query (hw : IsWeb u.scheme standard) (hu : SettledUrl standard u)
    {q : List Char} (hq : u.query = some q) (hf : u.fragment = none) (names : List String) :
    read (extended u names) =
      .ok { u with
        query :=
          some (dropEnd (· == '/') q ++ names.flatMap fun name => '/' :: written name) } := by
  have hkept : ∀ r ∈ some (dropEnd (· == '/') q ++ names.flatMap fun name => '/' :: written name),
      ∀ c ∈ r, keepsInSpecialQuery c = true := by
    intro r hr c hc
    obtain rfl := Option.some.inj hr
    rcases List.mem_append.1 hc with hc | hc
    · exact hu.query q hq c ((List.rdropWhile_prefix _ _).mem hc)
    · exact (kept_of_mem_names hc).1
  have hback : back u = u.path.chars ++ ['?'] ++ dropEnd (· == '/') q := by
    rw [back, hq, hf, ← dropEnd_append (by simp)]
    simp [marked]
  have hnone : ∀ f ∈ (none : Option (List Char)), ∀ c ∈ f, keepsInFragment c = true := nofun
  rw [read_extended_marked hw hu hkept hnone (by simp [hback, marked]), hf]

end Web
end RecordSearch.Url
