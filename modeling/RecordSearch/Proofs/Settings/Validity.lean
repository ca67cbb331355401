import RecordSearch.Proofs.Client.Target
import RecordSearch.Proofs.Settings.Timeout

/-! Which settings are valid, and what a client makes of them. -/
namespace RecordSearch
namespace Settings
variable {s : Settings} {u : Url}

private theorem hasOtherScheme_iff (u : Url) :
    (String.ofList u.scheme != "http" && String.ofList u.scheme != "https") = true ↔
    ¬u.Sendable := by
  have hname (name : String) : String.ofList u.scheme = name ↔ u.scheme = name.toList :=
    ⟨fun h => by rw [← h, String.toList_ofList], fun h => by rw [h, String.ofList_toList]⟩
  rw [Bool.and_eq_true, bne_iff_ne, bne_iff_ne, ← not_or, hname, hname]
  rfl

/-- Valid are settings with an address that requests can be sent to and a timeout that is finite and
positive. -/
theorem validate_eq_ok_iff :
    s.validate = .ok () ↔ (∃ u, Url.ofText s.engine.url = .ok u ∧ u.Sendable) ∧
    s.engine.requestTimeout.isFinite = true ∧ 0 < s.engine.requestTimeout := by
  unfold validate
  split
  · next hu => exact ⟨nofun, fun ⟨⟨u, h, _⟩, _⟩ => nomatch hu.symm.trans h⟩
  · next u hu =>
    have hsend : (∃ v, Url.ofText s.engine.url = .ok v ∧ v.Sendable) ↔ u.Sendable := by
      rw [hu]
      exact ⟨fun ⟨v, hv, hs⟩ => Except.ok.inj hv ▸ hs, fun hs => ⟨u, rfl, hs⟩⟩
    rw [hsend]
    dsimp only
    split
    · next h => exact ⟨nofun, fun ⟨hs, _⟩ => absurd hs ((hasOtherScheme_iff u).1 h)⟩
    · next h =>
      have hs : u.Sendable := not_not.1 (mt (hasOtherScheme_iff u).2 h)
      split
      · next ht =>
        rw [Bool.and_eq_true, decide_eq_true_iff] at ht
        exact ⟨fun _ => ⟨hs, ht⟩, fun _ => rfl⟩
      · next ht =>
        rw [Bool.and_eq_true, decide_eq_true_iff] at ht
        exact ⟨nofun, fun h => absurd h.2 ht⟩

/-- Valid settings have an address that requests can be sent to. -/
theorem sendable_of_validate (h : s.validate = .ok ())
    (hu : Url.ofText s.engine.url = .ok u) : u.Sendable := by
  obtain ⟨⟨v, hv, hs⟩, -⟩ := validate_eq_ok_iff.1 h
  exact Except.ok.inj (hv.symm.trans hu) ▸ hs

theorem validate_default : Settings.validate {} = .ok () :=
  validate_eq_ok_iff.2 ⟨⟨localUrl, by decide +kernel⟩, by decide +kernel⟩

end Settings

namespace Client
variable {e : EngineSettings} {u : Url}

/-- With an address that is read and a positive timeout, a client is made as long as the timeout is
a span of time. -/
theorem ofEngine_of_read (hu : Url.ofText e.url = .ok u) (ht : 0 < e.requestTimeout) :
    ofEngine e = if e.requestTimeout < 18446744073709551616
      then .ok { base := baseText u, username := e.username, password := e.password }
      else .error (.config ("invalid request_timeout " ++ Settings.secondsText e.requestTimeout ++
        ": cannot convert float seconds to Duration: value is either too big or NaN")) := by
  unfold ofEngine
  rw [hu]
  dsimp only
  rw [timeoutFault_of_pos ht]
  by_cases h : e.requestTimeout < 18446744073709551616
  · rw [if_pos h, if_pos h]
  · have hjoin : ": cannot convert float seconds to Duration: value is either too big or NaN" =
        ": " ++ "cannot convert float seconds to Duration: value is either too big or NaN" := rfl
    rw [if_neg h, if_neg h, hjoin, ← String.append_assoc]

/-- Valid settings make a client if their timeout is a span of time. -/
theorem exists_ofSettings {s : Settings} (hv : s.validate = .ok ())
    (ht : s.engine.requestTimeout < 18446744073709551616) :
    ∃ c, ofEngine s.engine = .ok c ∧ ofSettings s = .ok { c with mappings := s.mappings } := by
  obtain ⟨⟨u, hu, -⟩, -, hpos⟩ := Settings.validate_eq_ok_iff.1 hv
  have hmade := ofEngine_of_read hu hpos
  rw [if_pos ht] at hmade
  exact ⟨_, hmade, by rw [ofSettings, hmade]; rfl⟩

end Client
end RecordSearch
