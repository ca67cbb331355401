import RecordSearch.Proofs.Bulk.Reading
import RecordSearch.Proofs.Client.Acknowledgement

/-! What becomes of operations sent together, for every answer. -/
namespace RecordSearch
open Json

namespace Bulk

/-- What comes of an answer that has been read: a success if nothing has failed, else an error with
the whole text. Where each item has one outcome at most it is that of the first failing item; where
only the whole is said to have failed it has a status of its own. -/
structure Reply.Settles (r : Reply) (text : String) (x : Except Error Unit) : Prop where
  success : x = .ok () ↔ ¬r.Fails
  error : ∀ e, x = .error e → ∃ status reason, e = .engine status reason (some text)
  first : (∀ m ∈ r.items, m.entries.length ≤ 1) → (∃ m ∈ r.items, ∃ e ∈ m.entries, ¬e.2.Succeeded) →
    ∃ i reason, FirstFailing r.items i ∧ i.Explains reason ∧
      x = .error (.engine i.status reason (some text))
  flagged : (∀ m ∈ r.items, ∀ e ∈ m.entries, e.2.Succeeded) → r.errors = true →
    x = .error (.engine 500 "bulk request reported errors" (some text))

/-- How operations end that are answered: an answer that is no success is the error that it is for
every call, one that does not arrive whole is a failure of the transport, one that cannot be read is
an error too, and any other is settled by what stands in it. -/
inductive Ends (status : UInt16) (text : Option String) : Except Error Unit → Prop
  | refused {reason : String} (hs : Http.isSuccess status = false)
      (h : refusal status text = .engine status reason text) :
      Ends status text (.error (.engine status reason text))
  | cut (hs : Http.isSuccess status = true) (ht : text = none) :
      Ends status text (.error .transport)
  | unread {t : String} {fault : Fault} (hs : Http.isSuccess status = true) (ht : text = some t)
      (hd : decodeText Reply.decode t = .error fault) :
      Ends status text (.error (.invalidResponse fault))
  | settled {t : String} {r : Reply} {x : Except Error Unit} (hs : Http.isSuccess status = true)
      (ht : text = some t) (hd : decodeText Reply.decode t = .ok r)
      (hr : r.StandsIn (Reader.document t).tree) (hx : r.Settles t x) : Ends status text x

private def outcome (text : String) : Option (UInt16 × String) → Except Error Unit
  | some (status, reason) => .error (.engine status reason (some text))
  | none => .ok ()

private theorem settles_outcome {r : Reply} {visited : List Item} (h : Visits r.items visited)
    (text : String) :
    r.Settles text (outcome text (failureAmong r.errors visited)) := by
  refine ⟨?_, fun e he => ?_, fun hone hfails => ?_, fun hall herrors => ?_⟩
  · rw [← failureAmong_eq_none_iff_not_fails h]
    cases failureAmong r.errors visited with
    | none => exact iff_of_true rfl rfl
    | some failure => exact iff_of_false nofun nofun
  · cases hfailure : failureAmong r.errors visited with
    | none =>
      rw [hfailure] at he
      exact nomatch he
    | some failure =>
      rw [hfailure] at he
      exact ⟨failure.1, failure.2, (Except.error.inj he).symm⟩
  · obtain ⟨i, hi, hfailure⟩ := failureAmong_of_firstFailing h hone hfails
    exact ⟨i, i.reason, hi, i.explains_reason, congrArg (outcome text) hfailure⟩
  · have hvisited : ∀ i ∈ visited, i.Succeeded := by
      intro i hi
      obtain ⟨m, hm, e, he, rfl⟩ := (h.mem_iff i).1 hi
      exact hall m hm e he
    rw [herrors]
    exact congrArg (outcome text) (failureAmong_of_flag hvisited)

private theorem standsIn_document {t : String} {r : Reply} (h : decodeText Reply.decode t = .ok r) :
    r.StandsIn (Reader.document t).tree := by
  obtain ⟨x, hx, h⟩ := ok_of_bind h
  split at h
  · exact nomatch h
  · obtain rfl := Except.ok.inj h
    exact Reply.standsIn_of_decode hx

theorem Ends.settles {status : UInt16} {t : String} {x : Except Error Unit} {r : Reply}
    (h : Ends status (some t) x) (hs : Http.isSuccess status = true)
    (hd : decodeText Reply.decode t = .ok r) : r.Settles t x := by
  cases h with
  | refused hs' _ => exact absurd (hs'.symm.trans hs) Bool.false_ne_true
  | cut _ ht => exact nomatch ht
  | unread _ ht hf =>
    obtain rfl := Option.some.inj ht
    exact nomatch hf.symm.trans hd
  | settled _ ht hr _ hx =>
    obtain rfl := Option.some.inj ht
    exact Except.ok.inj (hr.symm.trans hd) ▸ hx

/-- An answer in which something stands as a status that is none cannot be read. -/
theorem Ends.invalid_of_statusAt {status : UInt16} {t : String} {x : Except Error Unit} {u : Tree}
    (h : Ends status (some t) x) (hs : Http.isSuccess status = true)
    (hu : StatusAt (Reader.document t).tree u) (hn : ∀ code, ¬StatusIn (some u) code) :
    ∃ fault, x = .error (.invalidResponse fault) := by
  cases h with
  | refused hs' _ => exact absurd (hs'.symm.trans hs) Bool.false_ne_true
  | cut _ ht => exact nomatch ht
  | unread _ _ _ => exact ⟨_, rfl⟩
  | settled _ ht _ hr _ =>
    obtain rfl := Option.some.inj ht
    obtain ⟨code, hcode⟩ := hr.statusIn hu
    exact absurd hcode (hn code)

end Bulk

namespace Client
variable {c : Client} {operations : List Bulk.Operation} {visit : Bulk.Reply → List Bulk.Item}
  {request : Http.Request} {s : Session} {status : UInt16} {body : Option (List UInt8)}

private theorem ends_bulkBy (hne : operations ≠ [])
    (hv : ∀ r : Bulk.Reply, Bulk.Visits r.items (visit r))
    (h : c.request? (.bulk operations) = some request)
    (hp : s.peer (s.calls ++ [.bulk operations]) = .answered status body) :
    ((c.bulkBy visit operations).result s).2.exchanges =
      s.exchanges ++ [⟨.bulk operations, request⟩] ∧
      Bulk.Ends status (bodyText status body) ((c.bulkBy visit operations).result s).1 := by
  cases hs : Http.isSuccess status with
  | false =>
    rw [result_bulkBy_of_error hne (result_send_of_refusal h hp hs)]
    exact ⟨rfl, .refused hs rfl⟩
  | true =>
    cases ht : bodyText status body with
    | none =>
      rw [result_bulkBy_of_unread hne h hp hs (result_decoded_of_cut ht)]
      exact ⟨rfl, .cut hs rfl⟩
    | some t =>
      cases hd : decodeText Bulk.Reply.decode t with
      | error fault =>
        rw [result_bulkBy_of_unread hne h hp hs (result_decoded_of_fault ht hd)]
        exact ⟨rfl, .unread hs rfl hd⟩
      | ok r =>
        have hsettles := Bulk.settles_outcome (hv r) t
        cases hf : Bulk.failureAmong r.errors (visit r) with
        | none =>
          obtain ⟨hresult, hsent⟩ := result_bulkBy_of_none hne h hp hs ht hd hf
          rw [hf] at hsettles
          exact ⟨hsent, hresult ▸ .settled hs rfl hd (Bulk.standsIn_document hd) hsettles⟩
        | some failure =>
          obtain ⟨hresult, hsent⟩ := result_bulkBy_of_some hne h hp hs ht hd hf
          rw [hf] at hsettles
          exact ⟨hsent, hresult ▸ .settled hs rfl hd (Bulk.standsIn_document hd) hsettles⟩

end Client

/-- Operations sent together are one request, and every answer to it is told by what stands in it,
in whatever order the outcomes under one item are visited: no failure in an answer is passed over,
and nothing but a failure makes an error of an answer that can be read. -/
theorem answers_are_classified (c : Client) {operations : List Bulk.Operation}
    (hne : operations ≠ []) :
    (c.bulkBy Bulk.Reply.outcomes operations = c.bulk operations ∧
      ∀ r : Bulk.Reply, Bulk.Visits r.items r.outcomes) ∧
    ∀ visit : Bulk.Reply → List Bulk.Item, (∀ r : Bulk.Reply, Bulk.Visits r.items (visit r)) →
      ∀ request s status body, c.request? (.bulk operations) = some request →
        s.peer (s.calls ++ [.bulk operations]) = .answered status body →
        let text := Client.bodyText status body
        let ended := (c.bulkBy visit operations).result s
        ended.2.exchanges = s.exchanges ++ [⟨.bulk operations, request⟩] ∧
        Bulk.Ends status text ended.1 ∧
        ∀ t u, Http.isSuccess status = true → text = some t →
          Bulk.StatusAt (Reader.document t).tree u →
          (∀ code, ¬Bulk.StatusIn (some u) code) →
            ∃ fault, ended.1 = .error (.invalidResponse fault) := by
  refine ⟨⟨Client.bulkBy_outcomes c operations, Bulk.Reply.visits_outcomes⟩,
    fun visit hv request s status body hr hp => ?_⟩
  obtain ⟨hsent, hends⟩ := Client.ends_bulkBy hne hv hr hp
  refine ⟨hsent, hends, fun t u hs ht hu hn => ?_⟩
  rw [ht] at hends
  exact hends.invalid_of_statusAt hs hu hn

/-- An item without a status has failed, even if nothing else says so. A status of more than sixteen
bits is none. -/
theorem absent_status_is_failure :
    let silent := Session.answering [("items", .arr [.obj [("delete", .obj [])]])]
    let excessive :=
      Session.answering [("items", .arr [.obj [("delete", .obj [("status", .nat 70000)])]])]
    let backwards (r : Bulk.Reply) := r.items.flatMap fun m => (m.entries.map (·.2)).reverse
    (∃ text, ((localClient.bulkBy backwards [.delete "books" "emma"]).result silent).1 =
      .error (.engine 0 "bulk item failed" (some text))) ∧
      ∃ fault, ((localClient.bulk [.delete "books" "emma"]).result excessive).1 =
        .error (.invalidResponse fault) := by
  intro silent excessive backwards
  have hne : [Bulk.Operation.delete "books" "emma"] ≠ [] := List.cons_ne_nil _ _
  obtain ⟨request, hr⟩ :=
    Client.exists_request localClient_isFor (.inl rfl) (.bulk [.delete "books" "emma"])
  obtain ⟨⟨hbulk, houtcomes⟩, hclassified⟩ := answers_are_classified localClient hne
  constructor
  · have hvisits (r : Bulk.Reply) : Bulk.Visits r.items (backwards r) :=
      .flatMap (fun m => List.reverse_perm _) r.items
    have hwrites : Writes _ (.obj [("items", .arr [.obj [("delete", .obj [])]])]) :=
      Bulk.Verdict.writes_octets ⟨⟨⟨trivial, trivial⟩, trivial⟩, trivial⟩
    obtain ⟨-, hends, -⟩ := hclassified backwards hvisits request silent 200 _ hr rfl
    have hsettles :=
      hends.settles (r := ⟨false, [.ofList [("delete", {})]]⟩) (by decide) (hwrites.decodeText _)
    obtain ⟨i, reason, ⟨before, m, after, key, hitems, hentries, -⟩, hexplains, herror⟩ :=
      hsettles.first (by decide) ⟨_, List.mem_singleton_self _, ("delete", {}),
        List.mem_singleton_self _, fun h => absurd h.1 (by decide)⟩
    have hm : m ∈ before ++ m :: after := List.mem_append_right before List.mem_cons_self
    rw [← hitems] at hm
    obtain rfl := List.mem_singleton.1 hm
    obtain ⟨rfl, rfl⟩ := Prod.mk.inj (List.cons.inj hentries).1
    cases hexplains with
    | told h _ => exact nomatch h
    | untold _ => exact ⟨_, herror⟩
  · have hwrites :
        Writes _ (.obj [("items", .arr [.obj [("delete", .obj [("status", .nat 70000)])]])]) :=
      Bulk.Verdict.writes_octets ⟨⟨⟨⟨Bulk.Verdict.legible_nat 70000, trivial⟩, trivial⟩, trivial⟩,
        trivial⟩
    obtain ⟨-, -, hinvalid⟩ := hclassified _ houtcomes request excessive 200 _ hr rfl
    rw [hbulk] at hinvalid
    refine hinvalid _ (.ofValue (.nat 70000)) (by decide) rfl ?_ fun code hcode => ?_
    · rw [hwrites]
      exact ⟨_, _, rfl, _, _, List.mem_singleton_self _, _, List.mem_singleton_self _, rfl⟩
    · generalize hu : Tree.ofValue (.nat 70000) = u at hcode
      cases hcode with
      | given hrange =>
        have hvalue : (70000 : Int) = code.toNat :=
          Number.int.inj (Option.some.inj (Tree.num.inj hu))
        have hlt := code.toNat_lt
        omega

end RecordSearch
