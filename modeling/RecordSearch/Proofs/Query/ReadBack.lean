import RecordSearch.Proofs.Json.Decode
import RecordSearch.Query.Request

/-! Requests are read back from their written form where it can carry them. -/
namespace RecordSearch.Query
open Json

namespace FilterValue

/-- A filter is read from a value as if it were made of it, whichever kind is tried first. -/
theorem decode_eq (c : Cursor) : decode c = ofValue <$> Decode.free c := by
  unfold decode Decode.anyOf
  cases hv : Decode.free c with
  | error f => rfl
  | ok v =>
    have hcanonical : v.Canonical := Tree.canonical_of_value hv
    have hfree : Decode.free ⟨.ofValue v, .value⟩ = .ok v := Decode.free_ofValue hcanonical
    change Decode.firstOf ⟨.ofValue v, .value⟩ _ = .ok (ofValue v)
    cases v with
    | null => rfl
    | arr vs =>
      have hlist : Decode.list Decode.free ⟨.ofValue (.arr vs), .value⟩ = .ok vs :=
        Decode.list_free hcanonical
      simp only [Decode.firstOf, hlist]
      rfl
    | bool b => rfl
    | num n => rfl
    | str s => rfl
    | obj members =>
      simp only [Decode.firstOf, hfree]
      rfl

theorem decode_ofValue {v : Value} (h : v.Canonical) :
    decode ⟨.ofValue v, .value⟩ = .ok (ofValue v) := by
  rw [decode_eq, Decode.free_ofValue h]
  rfl

/-- What the written form tells from all other filters: no null and no list is given as the one
value. -/
def Carried (f : FilterValue) : Prop := ∀ v, f = .scalar v → v.isNull = false ∧ ∀ vs, v ≠ .arr vs

theorem carried_ofValue (v : Value) : (ofValue v).Carried :=
  (ofValue_toValue_iff _).1 (congrArg ofValue (toValue_ofValue v))

end FilterValue

namespace Request

structure Canonical (r : Request) : Prop where
  filters : ∀ e ∈ r.filters.entries, e.2.toValue.Canonical
  raw : ∀ v ∈ r.raw, v.Canonical

/-- What the written form tells from all other requests. A null is no raw document in it. -/
structure Carried (r : Request) : Prop where
  filters : ∀ e ∈ r.filters.entries, e.2.Carried
  raw : r.raw ≠ some .null

section Written

private theorem decode_sort (s : SortDirective) :
    SortDirective.decode ⟨.ofValue s.toValue, .value⟩ = .ok s := by
  cases s with
  | mk field direction => cases direction <;> rfl

def reread (r : Request) : Request :=
  { r with
    filters := (r.filters.map FilterValue.toValue).map .ofValue,
    raw := r.raw.filter fun v => !v.isNull }

private theorem decode_filters {m : KeyMap Value} (h : ∀ e ∈ m.entries, e.2.Canonical) :
    Decode.table FilterValue.decode ⟨.ofValue (.ofMap m), .value⟩ = .ok (m.map .ofValue) :=
  Decode.table_ofMap rfl fun e he => FilterValue.decode_ofValue (h e he)

private theorem canonical_filters {r : Request} (h : r.Canonical) :
    ∀ e ∈ (r.filters.map FilterValue.toValue).entries, e.2.Canonical := by
  intro e he
  obtain ⟨d, hd, rfl⟩ := List.mem_map.1 he
  exact h.filters d hd

theorem decode_toValue {r : Request} (h : r.Canonical) :
    decodeValue Request.decode r.toValue = .ok r.reread := by
  have hfilters := decode_filters (canonical_filters h)
  have hpage (n : Option UInt32) :
      Decode.optional Decode.word32 ⟨.ofValue (Value.orNull .nat n), .value⟩ = .ok n := by
    cases n with
    | none => rfl
    | some n =>
      change some <$> Decode.word32 ⟨.ofValue (.nat n), .value⟩ = _
      rw [Decode.word32_nat]
      rfl
  have hquery : Decode.optional Decode.text ⟨.ofValue (Value.orNull .str r.query), .value⟩ =
      .ok r.query := by
    cases r.query <;> rfl
  have hraw : Decode.optional Decode.free ⟨.ofValue (r.raw.getD .null), .value⟩ =
      .ok (r.raw.filter fun v => !v.isNull) := by
    cases hv : r.raw with
    | none => rfl
    | some v => exact Decode.optional_free_ofValue (h.raw v hv)
  have hsort :
      Decode.list SortDirective.decode
        ⟨.ofValue (.arr (r.sort.map SortDirective.toValue)), .value⟩ = .ok r.sort :=
    Decode.list_map rfl fun s _ => decode_sort s
  rw [decodeValue, toValue, Tree.ofValue]
  unfold Request.decode
  simp only [Decode.record, Decode.object, Tree.Origin.enter, Decode.memberwise, Tree.ofMembers,
    Tree.key, member, Decode.once, bind, Except.bind, hfilters, hpage, hquery, hraw, hsort]
  rfl

theorem reread_eq_iff {r : Request} : r.reread = r ↔ r.Carried := by
  have hfilters : (r.filters.map FilterValue.toValue).map .ofValue = r.filters ↔
      ∀ e ∈ r.filters.entries, e.2.Carried := by
    simp only [KeyMap.map_map, KeyMap.map_eq_self_iff, FilterValue.ofValue_toValue_iff,
      FilterValue.Carried]
  have hraw : (r.raw.filter fun v => !v.isNull) = r.raw ↔ r.raw ≠ some .null := by
    cases r.raw with
    | none => simp
    | some v => cases v <;> simp [Value.isNull]
  have hboth : r.reread = r ↔ (r.filters.map FilterValue.toValue).map .ofValue = r.filters ∧
      (r.raw.filter fun v => !v.isNull) = r.raw := by
    cases r
    simp only [reread, mk.injEq, true_and]
  rw [hboth, hfilters, hraw]
  constructor
  · rintro ⟨hf, hr⟩
    exact ⟨hf, hr⟩
  · rintro ⟨hf, hr⟩
    exact ⟨hf, hr⟩

end Written

section Read

structure Draft.Sound (d : Draft) : Prop where
  filters : ∀ m ∈ d.filters, ∀ e ∈ m.entries, ∃ v : Value, v.Canonical ∧ e.2 = .ofValue v
  raw : ∀ x ∈ d.raw, ∀ v ∈ x, v.Canonical ∧ v ≠ .null

private theorem of_decode_filter {c : Cursor} {f : FilterValue} (h : FilterValue.decode c = .ok f) :
    ∃ v : Value, v.Canonical ∧ f = .ofValue v := by
  rw [FilterValue.decode_eq] at h
  obtain ⟨v, hv, rfl⟩ := ok_of_map h
  exact ⟨v, Tree.canonical_of_value hv, rfl⟩

private theorem sound_member {d e : Draft} {name : String} {c : Cursor} (hd : d.Sound)
    (h : member d name c = .ok e) : e.Sound := by
  unfold member at h
  split at h
  case h_3 =>
    obtain ⟨m, hm, h⟩ := ok_of_bind h
    obtain rfl := Except.ok.inj h
    refine ⟨fun n hn f hf => ?_, hd.raw⟩
    obtain rfl := Option.some.inj hn
    obtain ⟨c, hc⟩ := Decode.of_table (Decode.of_once hm).2 f hf
    exact of_decode_filter hc
  case h_6 =>
    obtain ⟨x, hx, h⟩ := ok_of_bind h
    obtain rfl := Except.ok.inj h
    refine ⟨hd.filters, fun y hy v hv => ?_⟩
    obtain rfl := Option.some.inj hy
    obtain rfl := hv
    exact Decode.of_optional_free (Decode.of_once hx).2
  all_goals
    obtain ⟨x, -, h⟩ := ok_of_bind h
    obtain rfl := Except.ok.inj h
    exact ⟨hd.filters, hd.raw⟩

/-- Whatever has been read, from a text or a value, as an object or as a list, can be written and
read again. -/
theorem of_decode {c : Cursor} {r : Request}
    (h : Request.decode c = .ok r) : r.Canonical ∧ r.Carried := by
  obtain ⟨d, hd, h⟩ := ok_of_bind h
  obtain rfl := Except.ok.inj h
  have hstart : Draft.Sound {} :=
    ⟨fun _ hm => absurd hm (Option.not_mem_none _), fun _ hx => absurd hx (Option.not_mem_none _)⟩
  have hsound : d.Sound := Decode.record_preserves (fun _ _ _ _ => sound_member) hstart hd
  have hfilter : ∀ e ∈ (d.filters.getD KeyMap.empty).entries,
      ∃ v : Value, v.Canonical ∧ e.2 = .ofValue v := by
    cases hm : d.filters with
    | none => exact List.forall_mem_nil _
    | some m => exact hsound.filters m hm
  have hraw : ∀ v ∈ d.raw.getD none, v.Canonical ∧ v ≠ .null := by
    cases hx : d.raw with
    | none => exact fun v hv => absurd hv (Option.not_mem_none v)
    | some x => exact hsound.raw x hx
  refine ⟨⟨fun e he => ?_, fun v hv => (hraw v hv).1⟩,
    ⟨fun e he => ?_, fun hnull => (hraw .null hnull).2 rfl⟩⟩
  · obtain ⟨v, hv, hf⟩ := hfilter e he
    rwa [hf, FilterValue.toValue_ofValue]
  · obtain ⟨v, -, hf⟩ := hfilter e he
    exact hf ▸ FilterValue.carried_ofValue v

/-- Reading the filters from an object looks at nothing but the member of that name. -/
private theorem filters_member {d e : Draft} {c : Cursor} (h : member d "filters" c = .ok e) :
    ∃ m, Decode.once d.filters (Decode.table FilterValue.decode) c = .ok m ∧ e.filters = some m :=
  Decode.of_member (fun _ => rfl) h

private theorem filters_other {d e : Draft} {name : String} {c : Cursor} (hne : name ≠ "filters")
    (h : member d name c = .ok e) :
    e.filters = d.filters := by
  unfold member at h
  split at h
  case h_3 => contradiction
  all_goals exact Decode.of_other h fun _ => rfl

/-- The filters of a request that has been read from an object are made of the values under their
fields. -/
theorem filters_of_decode {members : List (String × Value)} {r : Request}
    (hc : (Value.obj members).Canonical) (h : decodeValue Request.decode (.obj members) = .ok r)
    (field : String) :
    r.filters.get? field = ((lookup "filters" members).bind (·.get? field)).map .ofValue := by
  obtain ⟨d, hd, h⟩ := ok_of_bind h
  obtain rfl := Except.ok.inj h
  change (d.filters.getD KeyMap.empty).get? field = _
  obtain ⟨_, hinner, hd⟩ := ok_of_bind hd
  obtain rfl := Except.ok.inj hinner
  obtain ⟨e, hmembers, hd⟩ := ok_of_bind hd
  obtain ⟨_, -, hd⟩ := ok_of_bind hd
  obtain rfl := Except.ok.inj hd
  have hmember :=
    Decode.memberwise_member (fun _ _ _ => filters_member)
      (fun _ _ _ _ => filters_other) rfl hmembers
  cases hv : lookup "filters" members with
  | none =>
    rw [hv] at hmember
    rw [hmember]
    rfl
  | some v =>
    rw [hv] at hmember
    obtain ⟨m, hm, hget⟩ := hmember
    obtain ⟨entries, rfl⟩ := Decode.obj_of_table hm
    obtain ⟨hascending, hvalues⟩ : (Value.obj entries).Canonical :=
      Value.canonicalMembers_iff.1 hc.2 _ (mem_of_lookup hv)
    obtain rfl :=
      Except.ok.inj
        (hm.symm.trans (decode_filters (m := ⟨entries, hascending⟩)
          (Value.canonicalMembers_iff.1 hvalues)))
    rw [hget]
    exact KeyMap.get?_map ⟨entries, hascending⟩ FilterValue.ofValue field

end Read

/-- A request is read back from its written form exactly if it gives no null and no list as one
value and no null as its raw document; every request that has been read is such, and its filters are
made of the values that stand under their fields. -/
theorem written_form_carries :
    (∀ r : Request, r.Canonical →
      ∃ s, decodeValue Request.decode r.toValue = .ok s ∧ (s = r ↔ r.Carried)) ∧
      (∀ c r, Request.decode c = .ok r →
        r.Canonical ∧ r.Carried ∧ decodeValue Request.decode r.toValue = .ok r) ∧
      ∀ members r, (Value.obj members).Canonical →
      decodeValue Request.decode (.obj members) = .ok r →
        ∀ field, r.filters.get? field =
          ((lookup "filters" members).bind (·.get? field)).map FilterValue.ofValue := by
  refine ⟨fun r h => ⟨r.reread, decode_toValue h, reread_eq_iff⟩, fun c r h => ?_,
    fun members r hc h => filters_of_decode hc h⟩
  obtain ⟨hcanonical, hcarried⟩ := of_decode h
  refine ⟨hcanonical, hcarried, ?_⟩
  rw [decode_toValue hcanonical, reread_eq_iff.2 hcarried]

def ambiguous : Request where
  query := some "x"
  filters := ⟨[("ids", .many [.nat 1]), ("owner", .scalar .null)], List.pairwise_pair.2 (by decide)⟩
  raw := some .null

def sent : List (String × Value) :=
  [("filters", .obj [("ids", .arr [.nat 1, .nat 2]), ("owner", .null), ("status", .str "open")]),
    ("query", .str "x")]

theorem null_is_not_carried :
    ambiguous.Canonical ∧
    (∃ s, decodeValue Request.decode ambiguous.toValue = .ok s ∧ s ≠ ambiguous) ∧
    (Value.obj sent).Canonical ∧ ∃ r, decodeValue Request.decode (.obj sent) = .ok r ∧ r.Carried ∧
      r.filters.get? "owner" = some .null ∧
      r.filters.get? "ids" = some (.many [.nat 1, .nat 2]) := by
  have hambiguous : ambiguous.Canonical := by
    refine ⟨?_, fun v hv => ?_⟩
    · exact List.forall_mem_cons.2 ⟨⟨trivial, trivial⟩, List.forall_mem_singleton.2 trivial⟩
    · obtain rfl := Option.some.inj hv
      trivial
  have hsent : (Value.obj sent).Canonical :=
    ⟨List.pairwise_pair.2 (by decide),
      ⟨by decide, ⟨trivial, trivial, trivial⟩, trivial, trivial, trivial⟩, trivial, trivial⟩
  obtain ⟨hwritten, hread, hfilters⟩ := written_form_carries
  obtain ⟨s, hs, hiff⟩ := hwritten ambiguous hambiguous
  refine ⟨hambiguous, ⟨s, hs, fun he => (hiff.1 he).raw rfl⟩, hsent, ?_⟩
  cases hr : decodeValue Request.decode (.obj sent) with
  | error f => exact nomatch hr
  | ok r =>
    have hfilter := hfilters sent r hsent hr
    exact ⟨r, rfl, (hread _ r hr).2.1, (hfilter "owner").trans rfl, (hfilter "ids").trans rfl⟩

end Request
end RecordSearch.Query
