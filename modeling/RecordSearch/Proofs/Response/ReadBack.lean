import RecordSearch.Proofs.Json.Decode
import RecordSearch.Proofs.Json.OneLine
import RecordSearch.Response.Codec

/-! Answers are read back from their written form, and what has no field of its own stays as it
is. -/
namespace RecordSearch.Response
open Json

section Present
variable {α σ : Type} {name : String} {f : α → Value} {x : Option α} {origin : Tree.Origin}
  {step : σ → String → Decoder σ}

private theorem names_present (name : String) (f : α → Value) (x : Option α) :
    ((present name f x).map Prod.fst).Sublist [name] := by
  cases x with
  | none => exact List.nil_sublist _
  | some y => exact List.Sublist.refl _

private theorem of_mem_present {e : String × Value}
    (h : e ∈ present name f x) : ∃ y ∈ x, e = (name, f y) := by
  cases x with
  | none => contradiction
  | some y => exact ⟨y, rfl, List.mem_singleton.1 h⟩

private theorem kept_present (name : String)
    (h : ∀ y ∈ x, (f y).Canonical ∧ origin.Holds (f y).depth) :
    ∀ e ∈ present name f x, e.2.Canonical ∧ origin.Holds e.2.depth := by
  intro e he
  obtain ⟨y, hy, rfl⟩ := of_mem_present he
  exact h y hy

/-- A member that may be left out is read as it was, and as absent where it is left out. `set` puts
it in its place in the draft. -/
theorem memberwise_present (set : Option (Option α) → σ)
    (h : ∀ y ∈ x, step (set none) name ⟨.ofValue (f y), origin⟩ = .ok (set (some (some y))))
    (rest : List (String × Value)) :
    Decode.memberwise step origin (set none) (Tree.ofMembers (present name f x ++ rest)) =
      Decode.memberwise step origin (set (x.map some)) (Tree.ofMembers rest) := by
  cases x with
  | none => rfl
  | some y => exact Decode.memberwise_cons (h y rfl) rest

theorem memberwise_last (set : Option (Option α) → σ)
    (h : ∀ y ∈ x, step (set none) name ⟨.ofValue (f y), origin⟩ = .ok (set (some (some y)))) :
    Decode.memberwise step origin (set none) (Tree.ofMembers (present name f x)) =
      .ok (set (x.map some)) := by
  rw [← List.append_nil (present name f x), memberwise_present set h, Decode.memberwise_nil]

private theorem getD_map_some (x : Option α) : (x.map some).getD none = x := by
  cases x <;> rfl

end Present

private theorem ascending_of_names (names : List String) {members : List (String × Value)}
    (hn : names.Pairwise (· < ·))
    (h : (members.map Prod.fst).Sublist names) : members.Pairwise (·.1 < ·.1) :=
  List.pairwise_map.1 (hn.sublist h)

private theorem kept_double (x : Float) (origin : Tree.Origin) :
    (Value.double x).Canonical ∧ origin.Holds (Value.double x).depth := by
  unfold Value.double
  split <;> exact ⟨trivial, origin.holds_zero⟩

section Total

private theorem Total.decode_num (x : Number) (origin : Tree.Origin) :
    Total.decode ⟨.num (some x), origin⟩ = Total.bare <$> Decode.word64 ⟨.num (some x), origin⟩ :=
  rfl

theorem Total.kept_toValue (t : Total) {origin : Tree.Origin} (hroom : origin.Holds 1) :
    t.toValue.Canonical ∧ origin.Holds t.toValue.depth := by
  obtain ⟨inner, henter, -⟩ := Tree.Origin.exists_enter hroom
  cases t with
  | bare value => exact ⟨trivial, origin.holds_zero⟩
  | related value relation =>
    refine Tree.kept_obj henter (ascending_of_names ["relation", "value"] (by decide) ?_)
      (List.forall_mem_append.2 ⟨?_, ?_⟩)
    · rw [List.map_append]
      exact (names_present ..).append (List.Sublist.refl _)
    · exact kept_present "relation" fun _ _ => ⟨trivial, inner.holds_zero⟩
    · exact List.forall_mem_singleton.2 ⟨trivial, inner.holds_zero⟩

theorem Total.decode_toValue (t : Total) {origin : Tree.Origin} (hroom : origin.Holds 1) :
    Total.decode ⟨.ofValue t.toValue, origin⟩ = .ok t := by
  obtain ⟨inner, henter, -⟩ := Tree.Origin.exists_enter hroom
  have hfree := Decode.free_of_kept (t.kept_toValue hroom)
  cases t with
  | bare value =>
    rw [Total.toValue, Tree.ofValue, decode_num, Decode.word64_ofUInt64]
    rfl
  | related value relation =>
    have hvalue :
        Total.member { relation := relation.map some } "value"
          ⟨.ofValue (.num (.ofUInt64 value)), inner⟩ =
          .ok { value := some value, relation := relation.map some } := by
      change (do
          return {
            value := some (← Decode.once none Decode.word64 _), relation := _ : Total.Draft }) = _
      rw [Decode.once, Tree.ofValue, Decode.word64_ofUInt64]
      rfl
    have hmembers : Decode.memberwise Total.member inner {}
        (Tree.ofMembers (present "relation" .str relation ++ [("value", .num (.ofUInt64 value))])) =
        .ok { value := some value, relation := relation.map some } := by
      rw [memberwise_present (fun x => ({ relation := x } : Total.Draft)) fun y _ => rfl,
        Decode.memberwise_cons hvalue, Decode.memberwise_nil]
    unfold Total.decode
    simp only [hfree, bind, Except.bind]
    rw [Total.toValue, Tree.ofValue]
    simp only [Decode.object, henter, hmembers, bind, Except.bind, Tree.stopped, Decode.required,
      getD_map_some]
    rfl

end Total

section Hits

/-- What is kept of a hit, so many levels further in than `origin`: a finite score, and a source
that is in order, is no null, and that there is room for. -/
structure Hit.Kept (origin : Tree.Origin) (level : Nat) (h : Hit) : Prop where
  score : ∀ x ∈ h.score, x.isFinite = true
  source : ∀ v ∈ h.source, v.Canonical ∧ v ≠ .null ∧ origin.Holds (v.depth + level)

theorem Hit.kept_succ_iff {origin inner : Tree.Origin} (henter : origin.enter = .ok inner)
    {level : Nat} {h : Hit} :
    h.Kept origin (level + 1) ↔ h.Kept inner level := by
  have hroom (v : Value) : origin.Holds (v.depth + (level + 1)) ↔ inner.Holds (v.depth + level) :=
    Tree.Origin.holds_succ_iff henter _
  constructor
  · rintro ⟨hscore, hsource⟩
    exact ⟨hscore, fun v hv => (hsource v hv).imp_right fun h => h.imp_right (hroom v).1⟩
  · rintro ⟨hscore, hsource⟩
    exact ⟨hscore, fun v hv => (hsource v hv).imp_right fun h => h.imp_right (hroom v).2⟩

/-- The members of a hit, each after those with lesser names. -/
private theorem Hit.toValue_eq (h : Hit) :
    h.toValue = .obj (("_id", .str h.id) :: (present "_index" .str h.index ++
      (present "_score" .double h.score ++ present "_source" (fun v => v) h.source))) := by
  simp only [toValue, List.cons_append, List.nil_append, List.append_assoc]

theorem Hit.kept_toValue {h : Hit} {origin : Tree.Origin} (hk : h.Kept origin 1)
    (hroom : origin.Holds 1) :
    h.toValue.Canonical ∧ origin.Holds h.toValue.depth := by
  obtain ⟨inner, henter, -⟩ := Tree.Origin.exists_enter hroom
  have hkept := (kept_succ_iff henter).1 hk
  rw [toValue_eq]
  refine Tree.kept_obj henter (ascending_of_names ["_id", "_index", "_score", "_source"]
    (by decide) ?_) ?_
  · simp only [List.map_cons, List.map_append]
    exact ((names_present ..).append ((names_present ..).append (names_present ..))).cons_cons "_id"
  · simp only [List.forall_mem_cons, List.forall_mem_append]
    exact ⟨⟨trivial, inner.holds_zero⟩,
      kept_present "_index" fun _ _ => ⟨trivial, inner.holds_zero⟩,
      kept_present "_score" fun x _ => kept_double x inner,
      kept_present "_source" fun v hv => ⟨(hkept.source v hv).1, (hkept.source v hv).2.2⟩⟩

theorem Hit.decode_toValue {h : Hit} {origin : Tree.Origin} (hk : h.Kept origin 1)
    (hroom : origin.Holds 1) :
    Hit.decode ⟨.ofValue h.toValue, origin⟩ = .ok h := by
  obtain ⟨inner, henter, -⟩ := Tree.Origin.exists_enter hroom
  have hkept := (kept_succ_iff henter).1 hk
  have hid : Hit.member {} "_id" ⟨.ofValue (.str h.id), inner⟩ = .ok { id := some h.id } := rfl
  have hindex : ∀ name ∈ h.index,
      Hit.member { id := some h.id } "_index" ⟨.ofValue (.str name), inner⟩ =
        .ok { id := some h.id, index := some (some name) } := fun _ _ => rfl
  have hscore : ∀ x ∈ h.score,
      Hit.member { id := some h.id, index := h.index.map some } "_score"
        ⟨.ofValue (.double x), inner⟩ =
        .ok { id := some h.id, index := h.index.map some, score := some (some x) } := by
    intro x hx
    change (do
        return {
          id := _, index := _,
          score := some (← Decode.once none (Decode.optional Decode.double) _) : Hit.Draft }) = _
    rw [Decode.once, Decode.optional_double (hkept.score x hx)]
    rfl
  have hsource : ∀ v ∈ h.source,
      Hit.member { id := some h.id, index := h.index.map some, score := h.score.map some } "_source"
        ⟨.ofValue v, inner⟩ =
        .ok {
          id := some h.id, index := h.index.map some, score := h.score.map some,
          source := some (some v) } := by
    intro v hv
    obtain ⟨hc, hnull, hdepth⟩ := hkept.source v hv
    change (do
        return {
          id := _, index := _, score := _,
          source := some (← Decode.once none (Decode.optional Decode.free) _) : Hit.Draft }) = _
    rw [Decode.once, Decode.optional_free_some hc hnull hdepth]
    rfl
  have hmembers :
      Decode.memberwise Hit.member inner {}
        (Tree.ofMembers (("_id", .str h.id) :: (present "_index" .str h.index ++
          (present "_score" .double h.score ++ present "_source" (fun v => v) h.source)))) =
        .ok {
          id := some h.id, index := h.index.map some, score := h.score.map some,
          source := h.source.map some } := by
    rw [Decode.memberwise_cons hid,
      memberwise_present (fun x => ({ id := some h.id, index := x } : Hit.Draft)) hindex,
      memberwise_present
        (fun x => ({ id := some h.id, index := h.index.map some, score := x } : Hit.Draft)) hscore,
      memberwise_last
        (fun x => ({
          id := some h.id, index := h.index.map some, score := h.score.map some,
          source := x } : Hit.Draft)) hsource]
  rw [toValue_eq, Tree.ofValue]
  unfold Hit.decode
  simp only [Decode.record, Decode.object, henter, bind, Except.bind, hmembers, Tree.stopped,
    Decode.required, getD_map_some]
  rfl

def Hit.Draft.hit (d : Draft) : Hit :=
  { id := "", score := d.score.getD none, source := d.source.getD none }

private theorem Hit.kept_member {origin inner : Tree.Origin} (henter : origin.enter = .ok inner)
    {d e : Draft} {name : String} {tree : Tree} (hd : d.hit.Kept origin 1)
    (h : member d name ⟨tree, inner⟩ = .ok e) : e.hit.Kept origin 1 := by
  unfold member at h
  split at h
  case h_3 =>
    obtain ⟨x, hx, h⟩ := ok_of_bind h
    obtain rfl := Except.ok.inj h
    refine ⟨fun y hy => ?_, hd.source⟩
    obtain rfl : x = some y := hy
    exact Decode.isFinite_of_double (Decode.of_optional (Decode.of_once hx).2)
  case h_4 =>
    obtain ⟨x, hx, h⟩ := ok_of_bind h
    obtain rfl := Except.ok.inj h
    refine ⟨hd.score, fun v hv => ?_⟩
    obtain rfl : x = some v := hv
    obtain ⟨hc, hnull⟩ := Decode.of_optional_free (Decode.of_once hx).2
    exact ⟨hc, hnull,
      (Tree.Origin.holds_succ_iff henter _).2 (Decode.holds_of_optional_free (Decode.of_once hx).2)⟩
  all_goals
    obtain ⟨x, -, h⟩ := ok_of_bind h
    obtain rfl := Except.ok.inj h
    exact ⟨hd.score, hd.source⟩

/-- What is read of a hit is kept, whether it is an object or a list. -/
theorem Hit.kept_of_decode {c : Cursor} {hit : Hit}
    (h : Hit.decode c = .ok hit) : hit.Kept c.origin 1 := by
  obtain ⟨d, hd, h⟩ := ok_of_bind h
  obtain ⟨id, -, h⟩ := ok_of_bind h
  obtain rfl := Except.ok.inj h
  have hstart : Kept c.origin 1 (Draft.hit {}) := ⟨nofun, nofun⟩
  have hkept : d.hit.Kept c.origin 1 :=
    Decode.record_preserves_inside (P := fun d => Kept c.origin 1 d.hit)
      (fun inner henter _ _ _ _ => kept_member henter) hstart hd
  exact ⟨hkept.score, hkept.source⟩

structure Hits.Kept (origin : Tree.Origin) (level : Nat) (h : Hits) : Prop where
  maxScore : ∀ x ∈ h.maxScore, x.isFinite = true
  hits : ∀ hit ∈ h.hits, hit.Kept origin level

theorem Hits.kept_succ_iff {origin inner : Tree.Origin} (henter : origin.enter = .ok inner)
    {level : Nat} {h : Hits} :
    h.Kept origin (level + 1) ↔ h.Kept inner level := by
  constructor
  · rintro ⟨hscore, hhits⟩
    exact ⟨hscore, fun hit hm => (Hit.kept_succ_iff henter).1 (hhits hit hm)⟩
  · rintro ⟨hscore, hhits⟩
    exact ⟨hscore, fun hit hm => (Hit.kept_succ_iff henter).2 (hhits hit hm)⟩

private theorem optional_total (t : Total) {origin : Tree.Origin} (hroom : origin.Holds 1) :
    Decode.optional Total.decode ⟨.ofValue t.toValue, origin⟩ = .ok (some t) := by
  have hread := t.decode_toValue hroom
  cases t with
  | bare value =>
    change (some <$> Total.decode _) = _
    rw [hread]
    rfl
  | related value relation =>
    change (some <$> Total.decode _) = _
    rw [hread]
    rfl

private theorem Hits.toValue_eq (h : Hits) :
    h.toValue = .obj (("hits", .arr (h.hits.map Hit.toValue)) ::
      (present "max_score" .double h.maxScore ++ present "total" Total.toValue h.total)) := by
  simp only [toValue, List.cons_append, List.nil_append]

theorem Hits.kept_toValue {h : Hits} {origin : Tree.Origin} (hk : h.Kept origin 3)
    (hroom : origin.Holds 3) :
    h.toValue.Canonical ∧ origin.Holds h.toValue.depth := by
  obtain ⟨inner, henter, hinner⟩ := Tree.Origin.exists_enter hroom
  obtain ⟨innermost, henter', hinnermost⟩ := Tree.Origin.exists_enter hinner
  have hkept := (kept_succ_iff henter').1 ((kept_succ_iff henter).1 hk)
  have hitems : ∀ v ∈ h.hits.map Hit.toValue, v.Canonical ∧ innermost.Holds v.depth := by
    intro v hv
    obtain ⟨hit, hm, rfl⟩ := List.mem_map.1 hv
    exact Hit.kept_toValue (hkept.hits hit hm) hinnermost
  have htotal : inner.Holds 1 := (Tree.Origin.holds_succ_iff henter' 0).2 innermost.holds_zero
  rw [toValue_eq]
  refine Tree.kept_obj henter (ascending_of_names ["hits", "max_score", "total"] (by decide) ?_) ?_
  · simp only [List.map_cons, List.map_append]
    exact ((names_present ..).append (names_present ..)).cons_cons "hits"
  · simp only [List.forall_mem_cons, List.forall_mem_append]
    exact ⟨Tree.kept_arr henter' hitems, kept_present "max_score" fun x _ => kept_double x inner,
      kept_present "total" fun t _ => t.kept_toValue htotal⟩

theorem Hits.decode_toValue {h : Hits} {origin : Tree.Origin} (hk : h.Kept origin 3)
    (hroom : origin.Holds 3) :
    Hits.decode ⟨.ofValue h.toValue, origin⟩ = .ok h := by
  obtain ⟨inner, henter, hinner⟩ := Tree.Origin.exists_enter hroom
  obtain ⟨innermost, henter', hinnermost⟩ := Tree.Origin.exists_enter hinner
  have hlist : Decode.list Hit.decode ⟨.ofValue (.arr (h.hits.map Hit.toValue)), inner⟩ =
      .ok h.hits := by
    refine Decode.list_map henter' fun hit hm => Hit.decode_toValue ?_ hinnermost
    exact (Hit.kept_succ_iff henter').1 ((Hit.kept_succ_iff henter).1 (hk.hits hit hm))
  have hhits : Hits.member {} "hits" ⟨.ofValue (.arr (h.hits.map Hit.toValue)), inner⟩ =
      .ok { hits := some h.hits } := by
    change (do
        return { hits := some (← Decode.once none (Decode.list Hit.decode) _) : Hits.Draft }) = _
    rw [Decode.once, hlist]
    rfl
  have hscore : ∀ x ∈ h.maxScore,
      Hits.member { hits := some h.hits } "max_score" ⟨.ofValue (.double x), inner⟩ =
        .ok { hits := some h.hits, maxScore := some (some x) } := by
    intro x hx
    change (do
        return {
          hits := _, maxScore := some (← Decode.once none (Decode.optional Decode.double) _) :
            Hits.Draft }) = _
    rw [Decode.once, Decode.optional_double (hk.maxScore x hx)]
    rfl
  have htotal : ∀ t ∈ h.total,
      Hits.member { hits := some h.hits, maxScore := h.maxScore.map some } "total"
        ⟨.ofValue t.toValue, inner⟩ =
        .ok { hits := some h.hits, maxScore := h.maxScore.map some, total := some (some t) } := by
    intro t _
    change (do
        return {
          hits := _, maxScore := _,
          total := some (← Decode.once none (Decode.optional Total.decode) _) : Hits.Draft }) = _
    rw [Decode.once,
      optional_total t ((Tree.Origin.holds_succ_iff henter' 0).2 innermost.holds_zero)]
    rfl
  have hmembers :
      Decode.memberwise Hits.member inner {}
        (Tree.ofMembers (("hits", .arr (h.hits.map Hit.toValue)) ::
          (present "max_score" .double h.maxScore ++ present "total" Total.toValue h.total))) =
        .ok {
          hits := some h.hits, maxScore := h.maxScore.map some, total := h.total.map some } := by
    rw [Decode.memberwise_cons hhits,
      memberwise_present (fun x => ({ hits := some h.hits, maxScore := x } : Hits.Draft)) hscore,
      memberwise_last
        (fun x => ({
          hits := some h.hits, maxScore := h.maxScore.map some, total := x } : Hits.Draft)) htotal]
  rw [toValue_eq, Tree.ofValue]
  unfold Hits.decode
  simp only [Decode.record, Decode.object, henter, bind, Except.bind, hmembers, Tree.stopped,
    getD_map_some]
  rfl

def Hits.Draft.known (d : Draft) : Hits :=
  { maxScore := d.maxScore.getD none, hits := d.hits.getD [] }

private theorem Hits.kept_member {origin inner : Tree.Origin} (henter : origin.enter = .ok inner)
    {d e : Draft} {name : String} {tree : Tree} (hd : d.known.Kept origin 3)
    (h : member d name ⟨tree, inner⟩ = .ok e) : e.known.Kept origin 3 := by
  unfold member at h
  split at h
  case h_2 =>
    obtain ⟨x, hx, h⟩ := ok_of_bind h
    obtain rfl := Except.ok.inj h
    refine ⟨fun y hy => ?_, hd.hits⟩
    obtain rfl : x = some y := hy
    exact Decode.isFinite_of_double (Decode.of_optional (Decode.of_once hx).2)
  case h_3 =>
    obtain ⟨hits, hhits, h⟩ := ok_of_bind h
    obtain rfl := Except.ok.inj h
    refine ⟨hd.maxScore, fun hit hm => (Hit.kept_succ_iff henter).2 ?_⟩
    obtain ⟨innermost, t, henter', hhit⟩ := Decode.of_list (Decode.of_once hhits).2 hit hm
    exact (Hit.kept_succ_iff henter').2 (Hit.kept_of_decode hhit)
  all_goals
    obtain ⟨x, -, h⟩ := ok_of_bind h
    obtain rfl := Except.ok.inj h
    exact ⟨hd.maxScore, hd.hits⟩

theorem Hits.kept_of_decode {c : Cursor} {hits : Hits}
    (h : Hits.decode c = .ok hits) : hits.Kept c.origin 3 := by
  obtain ⟨d, hd, h⟩ := ok_of_bind h
  obtain rfl := Except.ok.inj h
  have hstart : Kept c.origin 3 (Draft.known {}) := ⟨nofun, nofun⟩
  have hkept : d.known.Kept c.origin 3 :=
    Decode.record_preserves_inside (P := fun d => Kept c.origin 3 d.known)
      (fun inner henter _ _ _ _ => kept_member henter) hstart hd
  exact ⟨hkept.maxScore, hkept.hits⟩

end Hits

namespace Search

def IsField (name : String) : Prop := name = "hits" ∨ name = "took" ∨ name = "timed_out"

instance (name : String) : Decidable (IsField name) := inferInstanceAs (Decidable (_ ∨ _ ∨ _))

section Read
variable {d e : Draft} {name : String} {c : Cursor}

/-- All that reading one member can do. -/
theorem member_cases (h : member d name c = .ok e) :
    (name = "hits" ∧
      ∃ x, Decode.once d.hits Hits.decode c = .ok x ∧ e = { d with hits := some x }) ∨
    (name = "took" ∧
      ∃ x, Decode.once d.took (Decode.optional Decode.word64) c = .ok x ∧
        e = { d with took := some x }) ∨
    (name = "timed_out" ∧
      ∃ x, Decode.once d.timedOut (Decode.optional Decode.flag) c = .ok x ∧
        e = { d with timedOut := some x }) ∨
    (¬IsField name ∧
      ∃ v, Decode.free c = .ok v ∧ e = { d with extra := d.extra.insert name v }) := by
  unfold member at h
  split at h
  · obtain ⟨x, hx, h⟩ := ok_of_bind h
    exact .inl ⟨rfl, x, hx, (Except.ok.inj h).symm⟩
  · obtain ⟨x, hx, h⟩ := ok_of_bind h
    exact .inr (.inl ⟨rfl, x, hx, (Except.ok.inj h).symm⟩)
  · obtain ⟨x, hx, h⟩ := ok_of_bind h
    exact .inr (.inr (.inl ⟨rfl, x, hx, (Except.ok.inj h).symm⟩))
  · next hhits htook htimed =>
    obtain ⟨v, hv, h⟩ := ok_of_bind h
    exact .inr
      (.inr (.inr ⟨not_or.2 ⟨hhits, not_or.2 ⟨htook, htimed⟩⟩, v, hv, (Except.ok.inj h).symm⟩))

theorem member_other (hn : ¬IsField name) {v : Value} (hv : Decode.free c = .ok v) :
    member d name c = .ok { d with extra := d.extra.insert name v } := by
  unfold member
  split
  · exact absurd (.inl rfl) hn
  · exact absurd (.inr (.inl rfl)) hn
  · exact absurd (.inr (.inr rfl)) hn
  · rw [hv]
    rfl

private theorem hits_member (h : member d "hits" c = .ok e) :
    ∃ x, Decode.once d.hits Hits.decode c = .ok x ∧ e.hits = some x :=
  Decode.of_member (fun _ => rfl) h

private theorem hits_other (hne : name ≠ "hits")
    (h : member d name c = .ok e) : e.hits = d.hits := by
  rcases member_cases h with ⟨hn, -⟩ | ⟨-, x, -, rfl⟩ | ⟨-, x, -, rfl⟩ | ⟨-, v, -, rfl⟩
  · exact absurd hn hne
  all_goals rfl

private theorem took_member (h : member d "took" c = .ok e) :
    ∃ x, Decode.once d.took (Decode.optional Decode.word64) c = .ok x ∧ e.took = some x :=
  Decode.of_member (fun _ => rfl) h

private theorem took_other (hne : name ≠ "took")
    (h : member d name c = .ok e) : e.took = d.took := by
  rcases member_cases h with ⟨-, x, -, rfl⟩ | ⟨hn, -⟩ | ⟨-, x, -, rfl⟩ | ⟨-, v, -, rfl⟩
  case inr.inl => exact absurd hn hne
  all_goals rfl

private theorem timedOut_member (h : member d "timed_out" c = .ok e) :
    ∃ x, Decode.once d.timedOut (Decode.optional Decode.flag) c = .ok x ∧ e.timedOut = some x :=
  Decode.of_member (fun _ => rfl) h

private theorem timedOut_other (hne : name ≠ "timed_out")
    (h : member d name c = .ok e) : e.timedOut = d.timedOut := by
  rcases member_cases h with ⟨-, x, -, rfl⟩ | ⟨-, x, -, rfl⟩ | ⟨hn, -⟩ | ⟨-, v, -, rfl⟩
  case inr.inr.inl => exact absurd hn hne
  all_goals rfl

/-- What is kept next to the fields is what a free value would be found to have there. -/
theorem get?_extra {origin : Tree.Origin} {ts : List (Tree × Tree)} {m n : KeyMap Value}
    (h : Decode.memberwise member origin d ts = .ok e)
    (hfree : Tree.memberValues origin m ts = .ok n)
    (hd : ∀ key, d.extra.get? key = if IsField key then none else m.get? key) (key : String) :
    e.extra.get? key = if IsField key then none else n.get? key := by
  induction ts generalizing d m with
  | nil =>
    obtain rfl := Except.ok.inj h
    obtain rfl := Except.ok.inj hfree
    exact hd key
  | cons t ts ih =>
    obtain ⟨k, hk, h⟩ := ok_of_bind h
    obtain ⟨u, hu, h⟩ := ok_of_bind h
    obtain ⟨k', hk', hfree⟩ := ok_of_bind hfree
    obtain ⟨v, hv, hfree⟩ := ok_of_bind hfree
    obtain rfl := Except.ok.inj (hk.symm.trans hk')
    refine ih h hfree fun key => ?_
    have hfield (hn : IsField k) (hextra : u.extra = d.extra) :
        u.extra.get? key = if IsField key then none else (m.insert k v).get? key := by
      rw [hextra, hd, KeyMap.get?_insert]
      by_cases hkey : k = key
      · rw [if_pos (hkey ▸ hn), if_pos (hkey ▸ hn)]
      · rw [if_neg hkey]
    rcases member_cases hu with
      ⟨hn, x, -, rfl⟩ | ⟨hn, x, -, rfl⟩ | ⟨hn, x, -, rfl⟩ | ⟨hn, w, hw, rfl⟩
    · exact hfield (.inl hn) rfl
    · exact hfield (.inr (.inl hn)) rfl
    · exact hfield (.inr (.inr hn)) rfl
    · obtain rfl := Except.ok.inj (hv.symm.trans hw)
      rw [KeyMap.get?_insert, KeyMap.get?_insert, hd]
      by_cases hkey : k = key
      · rw [if_pos hkey, if_pos hkey, if_neg (hkey ▸ hn)]
      · rw [if_neg hkey, if_neg hkey]

end Read

section Kept
variable {s : Search} {origin inner : Tree.Origin} {c : Cursor}

/-- What is kept of an answer: its hits, and members that have no field, are in order and that there
is room for. -/
structure Kept (origin : Tree.Origin) (s : Search) : Prop where
  hits : s.hits.Kept origin 4
  extra : ∀ e ∈ s.extra.entries, ¬IsField e.1 ∧ e.2.Canonical ∧ origin.Holds (e.2.depth + 1)

def Draft.known (d : Draft) : Search := { hits := d.hits.getD {}, extra := d.extra }

private theorem kept_member (henter : origin.enter = .ok inner) {d e : Draft} {name : String}
    {tree : Tree} (hd : d.known.Kept origin)
    (h : member d name ⟨tree, inner⟩ = .ok e) : e.known.Kept origin := by
  rcases member_cases h with ⟨-, x, hx, rfl⟩ | ⟨-, x, -, rfl⟩ | ⟨-, x, -, rfl⟩ | ⟨hn, v, hv, rfl⟩
  · exact ⟨(Hits.kept_succ_iff henter).2 (Hits.kept_of_decode (Decode.of_once hx).2), hd.extra⟩
  · exact ⟨hd.hits, hd.extra⟩
  · exact ⟨hd.hits, hd.extra⟩
  · refine ⟨hd.hits, fun m hm => ?_⟩
    rcases mem_insertEntry hm with rfl | hm
    · obtain ⟨hc, hroom⟩ := Tree.kept_of_value hv
      exact ⟨hn, hc, (Tree.Origin.holds_succ_iff henter _).2 hroom⟩
    · exact hd.extra m hm

theorem kept_of_decode (h : Search.decode c = .ok s) : s.Kept c.origin := by
  obtain ⟨d, hd, h⟩ := ok_of_bind h
  obtain rfl := Except.ok.inj h
  have hstart : Kept c.origin (Draft.known {}) :=
    ⟨⟨nofun, List.forall_mem_nil _⟩, List.forall_mem_nil _⟩
  have hkept : d.known.Kept c.origin :=
    Decode.object_preserves_inside (P := fun d => Kept c.origin d.known)
      (fun inner henter _ _ _ _ => kept_member henter) hstart hd
  exact ⟨hkept.hits, hkept.extra⟩

end Kept

section Written
variable (s : Search)

def fields : List (String × Value) :=
  ("hits", s.hits.toValue) ::
    (present "timed_out" .bool s.timedOut ++ present "took" (fun n => .num (.ofUInt64 n)) s.took)

def members : KeyMap Value := s.extra.override (KeyMap.ofList s.fields)

theorem toValue_eq : s.toValue = .ofMap s.members := rfl

private theorem ascending_fields : s.fields.Pairwise (·.1 < ·.1) := by
  refine ascending_of_names ["hits", "timed_out", "took"] (by decide) ?_
  simp only [fields, List.map_cons, List.map_append]
  exact ((names_present ..).append (names_present ..)).cons_cons "hits"

theorem get?_members (key : String) :
    s.members.get? key = (lookup key s.fields).or (s.extra.get? key) := by
  rw [members, KeyMap.get?_override,
    KeyMap.get?_ofList (KeyMap.distinct ⟨s.fields, s.ascending_fields⟩)]

theorem lookup_fields_hits : lookup "hits" s.fields = some s.hits.toValue := rfl

theorem lookup_fields_timedOut : lookup "timed_out" s.fields = s.timedOut.map .bool := by
  obtain ⟨hits, took, timedOut, extra⟩ := s
  cases timedOut <;> cases took <;> rfl

theorem lookup_fields_took : lookup "took" s.fields = s.took.map fun n => .num (.ofUInt64 n) := by
  obtain ⟨hits, took, timedOut, extra⟩ := s
  cases timedOut <;> cases took <;> rfl

variable {s}

private theorem mem_fields {e : String × Value} (h : e ∈ s.fields) : e = ("hits", s.hits.toValue) ∨
    (∃ b ∈ s.timedOut, e = ("timed_out", .bool b)) ∨
    ∃ n ∈ s.took, e = ("took", .num (.ofUInt64 n)) := by
  rcases List.mem_cons.1 h with h | h
  · exact .inl h
  rcases List.mem_append.1 h with h | h
  · exact .inr (.inl (of_mem_present h))
  · exact .inr (.inr (of_mem_present h))

private theorem isField_of_mem {e : String × Value} (h : e ∈ s.fields) : IsField e.1 := by
  rcases mem_fields h with rfl | ⟨b, -, rfl⟩ | ⟨n, -, rfl⟩
  · exact .inl rfl
  · exact .inr (.inr rfl)
  · exact .inr (.inl rfl)

theorem get?_members_of_not {key : String} (hn : ¬IsField key) :
    s.members.get? key = s.extra.get? key := by
  have hnone : lookup key s.fields = none := by
    refine lookup_eq_none fun e he hk => hn ?_
    rw [← hk]
    exact isField_of_mem he
  rw [get?_members, hnone, Option.none_or]

variable {origin inner : Tree.Origin}

/-- Outside texts there is room for everything. -/
theorem Kept.outside (hk : s.Kept origin) : s.Kept .value := by
  refine ⟨⟨hk.hits.maxScore, fun hit hm => ⟨(hk.hits.hits hit hm).score, fun v hv => ?_⟩⟩,
    fun e he => ?_⟩
  · obtain ⟨hc, hnull, -⟩ := (hk.hits.hits hit hm).source v hv
    exact ⟨hc, hnull, trivial⟩
  · obtain ⟨hn, hc, -⟩ := hk.extra e he
    exact ⟨hn, hc, trivial⟩

theorem Kept.get?_extra (hk : s.Kept origin) {key : String}
    (hf : IsField key) : s.extra.get? key = none := by
  cases h : s.extra.get? key with
  | none => rfl
  | some v => exact absurd hf (hk.extra _ (mem_of_lookup h)).1

theorem Kept.get?_members (hk : s.Kept origin) {key : String} (hf : IsField key) :
    s.members.get? key = lookup key s.fields := by
  rw [Search.get?_members, hk.get?_extra hf, Option.or_none]

private theorem mem_members {e : String × Value} (h : e ∈ s.members.entries) :
    e ∈ s.extra.entries ∨ e ∈ s.fields :=
  (KeyMap.mem_foldl_insert h).imp_right KeyMap.mem_of_mem_ofList

theorem kept_toValue (hk : s.Kept origin) (hroom : origin.Holds 4) :
    s.toValue.Canonical ∧ origin.Holds s.toValue.depth := by
  obtain ⟨inner, henter, hinner⟩ := Tree.Origin.exists_enter hroom
  refine Tree.kept_obj henter s.members.ascending fun e he => ?_
  rcases mem_members he with he | he
  · obtain ⟨-, hc, hdepth⟩ := hk.extra e he
    exact ⟨hc, (Tree.Origin.holds_succ_iff henter _).1 hdepth⟩
  · rcases mem_fields he with rfl | ⟨b, -, rfl⟩ | ⟨n, -, rfl⟩
    · exact Hits.kept_toValue ((Hits.kept_succ_iff henter).1 hk.hits) hinner
    · exact ⟨trivial, inner.holds_zero⟩
    · exact ⟨trivial, inner.holds_zero⟩

def Draft.Awaits (d : Draft) (name : String) : Prop :=
  (name = "hits" → d.hits = none) ∧ (name = "took" → d.took = none) ∧
    (name = "timed_out" → d.timedOut = none)

private theorem getD_of_read {α : Type} {p : Decoder α} {f : α → Value} {x : Option α}
    {found : Option Value} {y : Option (Option α)}
    (h : match found with
      | none => y = none
      | some v => ∃ z, Decode.optional p ⟨.ofValue v, origin⟩ = .ok z ∧ y = some z)
    (hfound : found = x.map f)
    (hp : ∀ z ∈ x, Decode.optional p ⟨.ofValue (f z), origin⟩ = .ok (some z)) :
    y.getD none = x := by
  subst hfound
  cases x with
  | none =>
    obtain rfl : y = none := h
    rfl
  | some z =>
    obtain ⟨w, hw, rfl⟩ := h
    exact Except.ok.inj (hw.symm.trans (hp z rfl))

/-- Each member of an answer can be read as long as none of its name has been. -/
private theorem member_reads (hk : s.Kept origin) (henter : origin.enter = .ok inner)
    (hinner : inner.Holds 3) {e : String × Value} (he : e ∈ s.members.entries) {d : Draft}
    (hd : d.Awaits e.1) :
    ∃ t, member d e.1 ⟨.ofValue e.2, inner⟩ = .ok t ∧
    ∀ other, other ≠ e.1 → d.Awaits other → t.Awaits other := by
  rcases mem_members he with he | he
  · obtain ⟨hn, hc, hdepth⟩ := hk.extra e he
    exact ⟨_,
      member_other hn (Decode.free_of_kept ⟨hc, (Tree.Origin.holds_succ_iff henter _).1 hdepth⟩),
      fun _ _ h => h⟩
  rcases mem_fields he with rfl | ⟨b, -, rfl⟩ | ⟨n, -, rfl⟩
  · refine ⟨{ d with hits := some s.hits }, ?_, fun other hne h => ⟨fun ho => absurd ho hne, h.2⟩⟩
    change (do return { d with hits := some (← Decode.once d.hits Hits.decode _) }) = _
    rw [hd.1 rfl, Decode.once, Hits.decode_toValue ((Hits.kept_succ_iff henter).1 hk.hits) hinner]
    rfl
  · refine ⟨{ d with timedOut := some (some b) }, ?_,
      fun other hne h => ⟨h.1, h.2.1, fun ho => absurd ho hne⟩⟩
    change (do
        return { d with
          timedOut := some (← Decode.once d.timedOut (Decode.optional Decode.flag) _) }) = _
    rw [hd.2.2 rfl]
    rfl
  · refine ⟨{ d with took := some (some n) }, ?_,
      fun other hne h => ⟨h.1, fun ho => absurd ho hne, h.2.2⟩⟩
    change (do
        return { d with took := some (← Decode.once d.took (Decode.optional Decode.word64) _) }) = _
    rw [hd.2.1 rfl, Decode.once, Decode.optional_word64]
    rfl

theorem decode_toValue (hk : s.Kept origin) (hroom : origin.Holds 4) :
    Search.decode ⟨.ofValue s.toValue, origin⟩ = .ok s := by
  obtain ⟨inner, henter, hinner⟩ := Tree.Origin.exists_enter hroom
  obtain ⟨t, ht⟩ : ∃ t,
    Decode.memberwise member inner {} (Tree.ofMembers s.members.entries) = .ok t :=
    Decode.memberwise_ready s.members.distinct
      (fun e he d hd => member_reads hk henter hinner he hd)
      fun e _ => ⟨fun _ => rfl, fun _ => rfl, fun _ => rfl⟩
  have hhits : t.hits = some s.hits := by
    have h := Decode.memberwise_member (fun _ _ _ => hits_member) (fun _ _ _ _ => hits_other) rfl ht
    have hlookup : lookup "hits" s.members.entries = _ :=
      (hk.get?_members (.inl rfl)).trans s.lookup_fields_hits
    rw [hlookup] at h
    obtain ⟨x, hx, hget⟩ := h
    rw [Hits.decode_toValue ((Hits.kept_succ_iff henter).1 hk.hits) hinner] at hx
    rw [hget, ← Except.ok.inj hx]
  have htook : t.took.getD none = s.took :=
    getD_of_read (Decode.memberwise_member (fun _ _ _ => took_member)
      (fun _ _ _ _ => took_other) rfl ht)
      ((hk.get?_members (.inr (.inl rfl))).trans s.lookup_fields_took)
        fun n _ => Decode.optional_word64 n inner
  have htimed : t.timedOut.getD none = s.timedOut :=
    getD_of_read (Decode.memberwise_member (fun _ _ _ => timedOut_member)
      (fun _ _ _ _ => timedOut_other) rfl ht)
      ((hk.get?_members (.inr (.inr rfl))).trans s.lookup_fields_timedOut) fun _ _ => rfl
  have hextra : t.extra = s.extra := by
    have hfree : Tree.memberValues inner KeyMap.empty (Tree.ofMembers s.members.entries) =
        .ok s.members := by
      obtain ⟨inner', m, henter', hm, he⟩ :=
        Tree.of_value_obj (Decode.free_of_kept (kept_toValue hk hroom))
      obtain rfl := Except.ok.inj (henter.symm.trans henter')
      exact hm.trans (congrArg Except.ok (KeyMap.ext (Value.obj.inj he)).symm)
    refine KeyMap.ext_get? fun key => ?_
    rw [get?_extra ht hfree fun key => (ite_self _).symm]
    by_cases hf : IsField key
    · rw [if_pos hf, hk.get?_extra hf]
    · rw [if_neg hf, get?_members_of_not hf]
  rw [toValue_eq, Value.ofMap, Tree.ofValue]
  unfold Search.decode
  simp only [Decode.object, henter, bind, Except.bind, ht, Tree.stopped, hhits, htook,
    htimed, hextra]
  rfl

end Written

/-- What is kept next to the fields is all that the answer has there as a free value. -/
theorem extra_of_decode {c : Cursor} {s : Search} (h : Search.decode c = .ok s) {v : Value}
    (hv : Decode.free c = .ok v) (key : String) :
    s.extra.get? key = if IsField key then none else v.get? key := by
  obtain ⟨tree, origin⟩ := c
  obtain ⟨d, hd, h⟩ := ok_of_bind h
  obtain rfl := Except.ok.inj h
  unfold Decode.object at hd
  split at hd
  · next ts stop htree =>
    obtain rfl : tree = .obj ts stop := htree
    obtain ⟨inner, henter, hd⟩ := ok_of_bind hd
    obtain ⟨e, he, hd⟩ := ok_of_bind hd
    obtain ⟨_, -, hd⟩ := ok_of_bind hd
    obtain rfl := Except.ok.inj hd
    obtain ⟨inner', m, henter', hm, rfl⟩ := Tree.of_value_obj hv
    obtain rfl := Except.ok.inj (henter.symm.trans henter')
    exact get?_extra he hm (fun key => (ite_self _).symm) key
  · exact nomatch hd

/-- An answer that has been read is read back as it is from its written form, and from the text of
that. Next to its fields it has the members that the whole has beside hits, took and timed out, each
with the same value, and so has its written form. -/
theorem decoded_answer_is_kept {c : Cursor} {s : Search} (h : Search.decode c = .ok s) :
    (s.toValue.Canonical ∧ decodeValue Search.decode s.toValue = .ok s) ∧
    (c.origin = .fresh → s.toValue.DoublesReadBack →
      decodeText Search.decode s.toValue.text = .ok s) ∧
    ∀ v, Decode.free c = .ok v → ∀ key,
      s.extra.get? key = (if IsField key then none else v.get? key) ∧
      (¬IsField key → s.toValue.get? key = v.get? key) := by
  have hkept := kept_of_decode h
  refine ⟨⟨(kept_toValue hkept.outside trivial).1, decode_toValue hkept.outside trivial⟩,
    fun horigin hdoubles => ?_, fun v hv key => ?_⟩
  · rw [horigin] at hkept
    rw [decodeText, Reader.document_text _ (Value.legible_of_doublesReadBack hdoubles)]
    dsimp only
    rw [decode_toValue hkept (by decide)]
    rfl
  · have hextra := extra_of_decode h hv key
    refine ⟨hextra, fun hn => ?_⟩
    rw [if_neg hn] at hextra
    exact (get?_members_of_not hn).trans hextra

def mixed : Value := .obj [
  ("aggregations", .obj [("hits", .null)]),
  ("hits", .obj [
    ("hits", .arr [
      .arr [.str "b", .null, .nat 5],
      .obj [("_id", .str "a"), ("_source", .null), ("sort", .arr [])]]),
    ("max_score", .null),
    ("total", .obj [("relation", .str "gte"), ("value", .nat 57)])]),
  ("timed_out", .bool false),
  ("took", .null)]

def ofMixed : Search where
  hits :=
    { total := some (.related 57 (some "gte"))
      hits := [{ id := "b", score := some (Number.ofUInt32 5).toFloat }, { id := "a" }] }
  timedOut := some false
  extra := ⟨[("aggregations", .obj [("hits", .null)])], List.pairwise_singleton _ _⟩

private theorem decode_mixed : Search.decode ⟨.ofValue mixed, .fresh⟩ = .ok ofMixed := rfl

private theorem five_finite : (5.0 : Float).isFinite = true := by decide +kernel

private theorem five : (Number.ofUInt32 5).toFloat = 5.0 := by decide +kernel

private theorem double_five :
    Value.double (Number.ofUInt32 5).toFloat = .num (.double 5.0 five_finite) := by
  rw [five, Value.double, Number.ofFloat?, dif_pos five_finite]

private theorem five_readsBack : (Number.double 5.0 five_finite).ReadsBack := by
  have htext : (Number.double 5.0 five_finite).text = ['5', '.', '0'] := by decide +kernel
  apply Number.readsBack_of_reads
  rw [htext]
  constructor <;> (rw [Reader.value_of_digit (by decide)]; rfl)

private theorem doublesReadBack_mixed : ofMixed.toValue.DoublesReadBack := by
  have hnumbers : ofMixed.toValue.numbers =
      (Value.double (Number.ofUInt32 5).toFloat).numbers ++ [.ofUInt64 57] := rfl
  intro x finite h
  rw [hnumbers, double_five] at h
  rcases List.mem_cons.1 h with h | h
  · obtain ⟨⟩ := h
    exact five_readsBack
  · exact nomatch List.mem_singleton.1 h

/-- The list, the nulls and the unknown member are gone after the first reading. Nothing else goes,
then or later. -/
theorem whole_score_is_kept :
    Search.decode ⟨.ofValue mixed, .fresh⟩ = .ok ofMixed ∧ ofMixed.ids = ["b", "a"] ∧
    decodeValue Search.decode ofMixed.toValue = .ok ofMixed ∧
    decodeText Search.decode ofMixed.toValue.text = .ok ofMixed ∧
    ofMixed.extra.get? "aggregations" = mixed.get? "aggregations" ∧
    ofMixed.extra.get? "hits" = none := by
  obtain ⟨⟨-, hvalue⟩, htext, hextra⟩ := decoded_answer_is_kept decode_mixed
  have hfree : Decode.free ⟨.ofValue mixed, .fresh⟩ = .ok mixed := rfl
  exact ⟨decode_mixed, rfl, hvalue, htext rfl doublesReadBack_mixed,
    (hextra mixed hfree "aggregations").1, (hextra mixed hfree "hits").1⟩

end Search
end RecordSearch.Response
