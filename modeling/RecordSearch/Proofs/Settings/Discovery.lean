import RecordSearch.Proofs.Steps
import RecordSearch.Settings.Discovery

/-! Settings come from one place, the first where something stands, and the environment has the last
word. -/
namespace RecordSearch.Settings

/-- Settings that stand for `start` where the environment says nothing, and for the environment
where it does. -/
structure Merged (env : String → Option String) (start s : Settings) : Prop where
  url : s.engine.url = (env "OPENSEARCH_HOST").getD start.engine.url
  username : s.engine.username = (env "OPENSEARCH_USER").or start.engine.username
  password : s.engine.password = (env "OPENSEARCH_PASS").or start.engine.password
  softDelete_of_some : ∀ text, env "OPENSEARCH_SOFT_DELETE" = some text →
    (s.softDelete = true ↔ text = "true")
  softDelete_of_none : env "OPENSEARCH_SOFT_DELETE" = none → s.softDelete = start.softDelete
  others : s = { start with
    engine := { start.engine with
      url := s.engine.url, username := s.engine.username, password := s.engine.password }
    softDelete := s.softDelete }

theorem merged_overlay (env : String → Option String) (start : Settings) :
    Merged env start (start.overlay (.ofEnvironment env)) := by
  refine ⟨rfl, rfl, rfl, fun text h => ?_, fun h => ?_, rfl⟩
  · rw [overlay, Overlay.ofEnvironment, h]
    exact beq_iff_eq
  · rw [overlay, Overlay.ofEnvironment, h]

def settle (o : Overlay) (start : Settings) : Except LoadFault Settings :=
  match (start.overlay o).validate with
  | .ok () => .ok (start.overlay o)
  | .error reason => .error (.invalid reason)

theorem settle_of_invalid {o : Overlay} {start : Settings} {reason : Invalid}
    (h : (start.overlay o).validate = .error reason) :
    settle o start = .error (.invalid reason) := by
  rw [settle, h]

theorem of_settle {o : Overlay} {start s : Settings} (h : settle o start = .ok s) :
    s.validate = .ok () ∧ s = start.overlay o := by
  unfold settle at h
  split at h
  · next hv =>
    obtain rfl := Except.ok.inj h
    exact ⟨hv, rfl⟩
  · contradiction

namespace Surroundings
variable {w : Surroundings} {path : String}

/-- All places where settings can be, in the order in which they are looked for. -/
def candidates (w : Surroundings) : List String :=
  (w.env "OPENSEARCH_SETTINGS_PATH").toList ++ ["opensearch.yml", "config/opensearch.yml"] ++
    (w.userDirectory.map (· ++ "/scout-opensearch/opensearch.yml")).toList

/-- Something stands at `path` and nothing at any place before it. -/
structure First (w : Surroundings) (path : String) : Prop where
  present : w.present path = true
  before : ∃ before after, w.candidates = before ++ path :: after ∧
    ∀ other ∈ before, w.present other = false

theorem chosen_eq_find? (w : Surroundings) : w.chosen = w.candidates.find? w.present := by
  rw [chosen, candidates, List.append_assoc]
  rfl

theorem chosen_eq_some_iff : w.chosen = some path ↔ w.First path := by
  rw [chosen_eq_find?, List.find?_eq_some_iff_append]
  simp only [Bool.not_eq_true']
  exact ⟨fun ⟨present, before⟩ => ⟨present, before⟩, fun ⟨present, before⟩ => ⟨present, before⟩⟩

theorem chosen_eq_none_iff : w.chosen = none ↔ ∀ path ∈ w.candidates, w.present path = false := by
  rw [chosen_eq_find?, List.find?_eq_none]
  exact forall₂_congr fun path _ => Bool.eq_false_iff.symm

end Surroundings

variable {w : Surroundings} {path : String}

theorem discover_of_first (h : w.First path) :
    discover w = ofFile (w.entry path) >>= settle (.ofEnvironment w.env) := by
  rw [discover, Surroundings.chosen_eq_some_iff.2 h]
  rfl

theorem discover_of_absent (h : ∀ path ∈ w.candidates, w.present path = false) :
    discover w = settle (.ofEnvironment w.env) {} := by
  rw [discover, Surroundings.chosen_eq_none_iff.2 h]
  rfl

/-- What is discovered is valid, and merged from one start. -/
theorem of_discover {s : Settings} (h : discover w = .ok s) : s.validate = .ok () ∧
    ∃ start, ((∃ path, w.First path ∧ ofFile (w.entry path) = .ok start) ∨
      ((∀ path ∈ w.candidates, w.present path = false) ∧ start = {})) ∧
      s = start.overlay (.ofEnvironment w.env) := by
  cases hc : w.chosen with
  | none =>
    have habsent := Surroundings.chosen_eq_none_iff.1 hc
    obtain ⟨hv, hs⟩ := of_settle ((discover_of_absent habsent).symm.trans h)
    exact ⟨hv, {}, .inr ⟨habsent, rfl⟩, hs⟩
  | some path =>
    have hfirst := Surroundings.chosen_eq_some_iff.1 hc
    obtain ⟨start, hstart, h⟩ := ok_of_bind ((discover_of_first hfirst).symm.trans h)
    obtain ⟨hv, hs⟩ := of_settle h
    exact ⟨hv, start, .inl ⟨path, hfirst, hstart⟩, hs⟩

/-- The first place where something stands decides, with what the environment says, and nothing else
does: a file that cannot be read, is no settings file or is not valid under the environment is an
error, whatever stands behind it. Where nothing stands anywhere, the defaults are taken. What is
discovered is valid, differs from its start in what the environment says and nowhere else, and is
not changed by saying that again. -/
theorem first_place_decides (w : Surroundings) :
    let o := Overlay.ofEnvironment w.env
    (∀ path, w.First path →
      discover w = (ofFile (w.entry path) >>= settle o) ∧
      (∀ fault, readText (w.entry path) = .error fault → discover w = .error (.unreadable fault)) ∧
      ∀ text, readText (w.entry path) = .ok text →
        (ofText? text = none → discover w = .error .malformed) ∧
        ∀ start reason, ofText? text = some start → (start.overlay o).validate = .error reason →
          discover w = .error (.invalid reason)) ∧
    ((∀ path ∈ w.candidates, w.present path = false) → discover w = settle o {}) ∧
    ∀ s, discover w = .ok s → s.validate = .ok () ∧ s.overlay o = s ∧
      ∃ start, ((∃ path, w.First path ∧ ofFile (w.entry path) = .ok start) ∨
        ((∀ path ∈ w.candidates, w.present path = false) ∧ start = {})) ∧ Merged w.env start s := by
  intro o
  refine ⟨fun path hfirst => ?_, discover_of_absent, fun s h => ?_⟩
  · have hd := discover_of_first hfirst
    refine ⟨hd, fun fault hf => ?_, fun text ht => ⟨fun hm => ?_, fun start reason hs hv => ?_⟩⟩
    · rw [hd, ofFile, hf]
      rfl
    · rw [hd, ofFile, ht]
      dsimp only
      rw [hm]
      rfl
    · rw [hd, ofFile, ht]
      dsimp only
      rw [hs]
      exact settle_of_invalid hv
  · obtain ⟨hv, start, hstart, rfl⟩ := of_discover h
    exact ⟨hv, overlay_overlay start o, start, hstart, merged_overlay w.env start⟩

def Surroundings.trial (entry : FileEntry) (host : Option String) : Surroundings where
  env name := if name = "OPENSEARCH_HOST" then host else none
  entry path := if path = "opensearch.yml" then entry
    else if path = "config/opensearch.yml" then .file "soft_delete: true".toUTF8.data.toList
    else .missing
  userDirectory := none

/-- The good file is never looked at: not behind a directory, nor behind a text that is no settings
file or names an address that cannot be used. The environment repairs the last of them, and still
the good file has no say. -/
theorem later_file_has_no_say :
    let file (text : String) := FileEntry.file text.toUTF8.data.toList
    discover (.trial .directory none) = .error (.unreadable .directory) ∧
    discover (.trial (file "engine: [") none) = .error .malformed ∧
    discover (.trial (file "engine:\n  url: old\n") none) = .error (.invalid (.url .relative)) ∧
    (∃ s, discover (.trial (file "engine:\n  url: old\n") (some "http://new")) = .ok s ∧
      s.validate = .ok () ∧
      s.engine.url = "http://new" ∧ s.softDelete = false) ∧
    discover ⟨fun _ => none, fun _ => .missing, none⟩ = settle {} {} := by
  intro file
  have hfirst (text : String) (host : Option String) :
      (Surroundings.trial (file text) host).First "opensearch.yml" :=
    ⟨rfl, [], ["config/opensearch.yml"], rfl, nofun⟩
  refine ⟨?_, ?_, ?_, ?_, ?_⟩
  · exact ((first_place_decides (.trial .directory none)).1 "opensearch.yml"
      ⟨rfl, [], ["config/opensearch.yml"], rfl, nofun⟩).2.1 _ rfl
  · refine (((first_place_decides _).1 _ (hfirst _ none)).2.2 "engine: [".toList ?_).1
      (by decide +kernel)
    rfl
  · obtain ⟨start, hs, hurl⟩ := Option.map_eq_some_iff.1
      (by decide +kernel : (ofText? "engine:\n  url: old\n".toList).map (·.engine.url) = some "old")
    refine (((first_place_decides _).1 _ (hfirst _ none)).2.2 "engine:\n  url: old\n".toList ?_).2
      start _ hs ?_
    · rfl
    · change Settings.validate { start with
          engine := { start.engine with url := start.engine.url } } = _
      unfold validate
      rw [hurl]
      rfl
  · have hok :
        (discover (.trial (file "engine:\n  url: old\n") (some "http://new"))).toOption.map
          (·.softDelete) = some false := by
      decide +kernel
    obtain ⟨s, hs, hsoft⟩ := Option.map_eq_some_iff.1 hok
    cases hd : discover (.trial (file "engine:\n  url: old\n") (some "http://new")) with
    | error fault =>
      rw [hd] at hs
      contradiction
    | ok t =>
      rw [hd] at hs
      obtain rfl := Option.some.inj hs
      obtain ⟨hv, -, start, -, hmerged⟩ := (first_place_decides _).2.2 t hd
      exact ⟨t, rfl, hv, hmerged.url, hsoft⟩
  · exact (first_place_decides _).2.1 fun _ _ => rfl

end RecordSearch.Settings
