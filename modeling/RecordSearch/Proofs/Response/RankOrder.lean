import Mathlib.Data.List.Dedup
import RecordSearch.Proofs.Run
import RecordSearch.Response.Reconcile

/-! The order of reconciled records: a walk over the ranked ids that keeps the last place of
each. -/
namespace RecordSearch.Response
variable {R : Type}

/-- Sorting by number keeps the entries under one number as they came. -/
private theorem filter_mergeSort (l : List (Nat × R)) (n : Nat) :
    (l.mergeSort fun a b => a.1 ≤ b.1).filter (·.1 == n) = l.filter (·.1 == n) := by
  have hp : (l.filter (·.1 == n)).Pairwise fun a b => decide (a.1 ≤ b.1) = true := by
    apply List.pairwise_of_forall_mem_list
    intro a ha b hb
    simp only [List.mem_filter, beq_iff_eq] at ha hb
    simp [ha.2, hb.2]
  have hs : (l.filter (·.1 == n)).Sublist (l.mergeSort fun a b => a.1 ≤ b.1) :=
    List.sublist_mergeSort (fun a b c => by simpa using Nat.le_trans)
      (fun a b => by simpa using Nat.le_total ..)
      hp List.filter_sublist
  have hf := hs.filter (·.1 == n)
  rw [List.filter_filter] at hf
  simp only [Bool.and_self] at hf
  exact (hf.eq_of_length (((List.mergeSort_perm l _).filter _).length_eq.symm)).symm

/-- Two lists in ascending order with the same entries under every number are equal. -/
private theorem eq_of_ascending {l m : List (Nat × R)} (hl : l.Pairwise (·.1 ≤ ·.1))
    (hm : m.Pairwise (·.1 ≤ ·.1)) (h : ∀ n, l.filter (·.1 == n) = m.filter (·.1 == n)) : l = m := by
  induction l generalizing m with
  | nil =>
    cases m with
    | nil => rfl
    | cons y m => simpa using h y.1
  | cons x l ih =>
    cases m with
    | nil => simpa using h x.1
    | cons y m =>
      have hx : x ∈ y :: m :=
        (List.mem_filter.1 (h x.1 ▸ List.mem_filter.2 ⟨List.mem_cons_self, by simp⟩)).1
      have hy : y ∈ x :: l :=
        (List.mem_filter.1 ((h y.1).symm ▸ List.mem_filter.2 ⟨List.mem_cons_self, by simp⟩)).1
      have hn : x.1 = y.1 := by
        apply Nat.le_antisymm
        · rcases List.mem_cons.1 hy with rfl | hy
          · exact Nat.le_refl _
          · exact List.rel_of_pairwise_cons hl hy
        · rcases List.mem_cons.1 hx with rfl | hx
          · exact Nat.le_refl _
          · exact List.rel_of_pairwise_cons hm hx
      obtain ⟨rfl, -⟩ : x = y ∧ l.filter (·.1 == x.1) = m.filter (·.1 == x.1) := by
        have hxy := h x.1
        rwa [List.filter_cons_of_pos (by simp), List.filter_cons_of_pos (by simp [hn]),
          List.cons.injEq] at hxy
      rw [ih hl.of_cons hm.of_cons fun n => ?_]
      have hxn := h n
      by_cases hc : x.1 = n
      · rwa [List.filter_cons_of_pos (by simp [hc]), List.filter_cons_of_pos (by simp [hc]),
          List.cons.injEq, and_iff_right rfl] at hxn
      · rwa [List.filter_cons_of_neg (by simpa using hc),
          List.filter_cons_of_neg (by simpa using hc)] at hxn

private def buckets (n : Nat) (l : List (Nat × R)) : List (Nat × R) :=
  (List.range n).flatMap fun i => l.filter (·.1 == i)

private theorem buckets_ascending (n : Nat) (l : List (Nat × R)) :
    (buckets n l).Pairwise (·.1 ≤ ·.1) := by
  rw [buckets, List.pairwise_flatMap]
  refine ⟨fun i _ => ?_, List.pairwise_lt_range.imp fun {i j} hij a ha b hb => ?_⟩
  · apply List.pairwise_of_forall_mem_list
    intro a ha b hb
    simp only [List.mem_filter, beq_iff_eq] at ha hb
    exact Nat.le_of_eq (ha.2.trans hb.2.symm)
  · simp only [List.mem_filter, beq_iff_eq] at ha hb
    omega

private theorem filter_bucket (l : List (Nat × R)) (i k : Nat) :
    (l.filter (·.1 == i)).filter (·.1 == k) = if i = k then l.filter (·.1 == k) else [] := by
  rw [List.filter_filter]
  split
  · next h => simp [h]
  · next h =>
    rw [List.filter_eq_nil_iff]
    intro e _
    simp only [Bool.and_eq_true, beq_iff_eq]
    omega

private theorem filter_buckets (n : Nat) (l : List (Nat × R)) (k : Nat) :
    (buckets n l).filter (·.1 == k) = if k < n then l.filter (·.1 == k) else [] := by
  induction n with
  | zero => simp [buckets]
  | succ n ih =>
    have hs : buckets (n + 1) l = buckets n l ++ l.filter (·.1 == n) := by
      simp [buckets, List.range_succ]
    rw [hs, List.filter_append, ih, filter_bucket]
    by_cases hk : k < n
    · rw [if_pos hk, if_neg (by omega), if_pos (by omega), List.append_nil]
    · by_cases hn : n = k
      · rw [if_neg hk, if_pos hn, if_pos (by omega), List.nil_append]
      · rw [if_neg hk, if_neg hn, if_neg (by omega), List.nil_append]

/-- A stable sort by number goes through the numbers one after another. -/
private theorem mergeSort_eq_buckets {n : Nat} {l : List (Nat × R)} (h : ∀ e ∈ l, e.1 < n) :
    (l.mergeSort fun a b => a.1 ≤ b.1) = buckets n l := by
  have hs : (l.mergeSort fun a b => a.1 ≤ b.1).Pairwise fun a b => decide (a.1 ≤ b.1) = true :=
    List.pairwise_mergeSort (fun a b c => by simpa using Nat.le_trans)
      (fun a b => by simpa using Nat.le_total ..) l
  apply eq_of_ascending (hs.imp fun h => of_decide_eq_true h) (buckets_ascending n l)
  intro k
  rw [filter_mergeSort, filter_buckets]
  split
  · rfl
  · rw [List.filter_eq_nil_iff]
    intro e he
    have := h e he
    simp only [beq_iff_eq]
    omega

/-- The last place of a key: behind the first id if it stands there at all, else possibly the first
place. -/
theorem rank?_cons (id : String) (rest : List String) (key : String) :
    rank? (id :: rest) key = if key ∈ rest then (rank? rest key).map (· + 1)
    else if id = key then some 0 else none := by
  have hr : (id :: rest).reverse.idxOf? key =
      (rest.reverse.idxOf? key).or (if id = key then some rest.length else none) := by
    simp only [List.idxOf?, List.reverse_cons, List.findIdx?_append, List.length_reverse]
    by_cases h : id = key <;> simp [h]
  unfold rank?
  rw [hr]
  cases hi : rest.reverse.idxOf? key with
  | none =>
    have hn : key ∉ rest := by simpa using List.idxOf?_eq_none_iff.1 hi
    by_cases h : id = key <;> simp [hn, h]
  | some i =>
    have hm : key ∈ rest := by
      by_contra hn
      rw [List.idxOf?_eq_none_iff.2 (by simpa using hn)] at hi
      contradiction
    have hlt : i < rest.length := by
      have := List.idxOf?_eq_some_iff.1 hi
      simpa using this.1
    simp only [hm, if_true, Option.some_or, Option.map_some, List.length_cons]
    congr 1
    omega

theorem rank?_lt {ids : List String} {key : String} {n : Nat}
    (h : rank? ids key = some n) : n < ids.length := by
  unfold rank? at h
  split at h
  · next i hi =>
    have : i < ids.reverse.length := (List.idxOf?_eq_some_iff.1 hi).1
    simp only [List.length_reverse, Option.some.injEq] at this h
    omega
  · contradiction

theorem rank?_isSome (ids : List String) (key : String) :
    (rank? ids key).isSome = decide (key ∈ ids) := by
  induction ids with
  | nil => rfl
  | cons id rest ih =>
    rw [rank?_cons]
    by_cases hm : key ∈ rest
    · simp [hm, ih]
    · by_cases h : id = key
      · simp [hm, h]
      · simp [hm, h, Ne.symm h]

/-- The records under each id, at the last place of the id and as they came. -/
def inRankOrder (key : R → String) (ids : List String) (records : List R) : List R :=
  ids.dedup.flatMap fun id => records.filter (key · == id)

/-- Place by place the records come out in rank order. -/
private theorem flatMap_places (key : R → String) (ids : List String) (records : List R) :
    ((List.range ids.length).flatMap fun i => records.filter fun r => rank? ids (key r) == some i) =
      inRankOrder key ids records := by
  induction ids with
  | nil => rfl
  | cons id rest ih =>
    have first : (records.filter fun r => rank? (id :: rest) (key r) == some 0) =
        if id ∈ rest then [] else records.filter (key · == id) := by
      split
      · next hm =>
        rw [List.filter_eq_nil_iff]
        intro r _ h
        rw [beq_iff_eq, rank?_cons] at h
        split at h
        · cases hr : rank? rest (key r) <;> simp [hr] at h
        · next hn =>
          split at h
          · next he => exact hn (he ▸ hm)
          · contradiction
      · next hm =>
        apply List.filter_congr
        intro r _
        rw [Bool.eq_iff_iff, beq_iff_eq, beq_iff_eq, rank?_cons]
        by_cases he : id = key r
        · simp [← he, hm]
        · cases hr : rank? rest (key r) <;> simp [he, Ne.symm he]
    have later (i : Nat) : (records.filter fun r => rank? (id :: rest) (key r) == some (i + 1)) =
        records.filter fun r => rank? rest (key r) == some i := by
      apply List.filter_congr
      intro r _
      have hs := rank?_isSome rest (key r)
      rw [Bool.eq_iff_iff, beq_iff_eq, beq_iff_eq, rank?_cons]
      by_cases hm : key r ∈ rest
      · simp [hm]
      · rw [decide_eq_false hm, Option.isSome_eq_false_iff, Option.isNone_iff_eq_none] at hs
        rw [if_neg hm, hs]
        split <;> simp
    rw [List.length_cons, List.range_succ_eq_map, List.flatMap_cons, List.flatMap_map]
    simp only [first, later, ih]
    by_cases hm : id ∈ rest
    · rw [if_pos hm, inRankOrder, inRankOrder, List.dedup_cons_of_mem hm, List.nil_append]
    · rw [if_neg hm, inRankOrder, inRankOrder, List.dedup_cons_of_notMem hm, List.flatMap_cons]

/-- The records of one place. -/
private theorem map_filter_ranked (key : R → String) (ids : List String) (records : List R)
    (i : Nat) :
    ((records.filterMap fun r => (rank? ids (key r)).map fun rank => (rank, r)).filter
      (·.1 == i)).map (·.2) =
      records.filter fun r => rank? ids (key r) == some i := by
  induction records with
  | nil => rfl
  | cons r records ih =>
    cases hr : rank? ids (key r) with
    | none => simpa [hr] using ih
    | some n => by_cases hn : n = i <;> simpa [hr, hn] using ih

theorem orderByIds_eq_inRankOrder (key : R → String) (ids : List String) (records : List R) :
    orderByIds key ids records = inRankOrder key ids records := by
  have hb : ∀ e ∈ records.filterMap fun r => (rank? ids (key r)).map fun rank => (rank, r),
      e.1 < ids.length := by
    intro e he
    obtain ⟨r, -, hr⟩ := List.mem_filterMap.1 he
    obtain ⟨n, hn, rfl⟩ := Option.map_eq_some_iff.1 hr
    exact rank?_lt hn
  rw [orderByIds, mergeSort_eq_buckets hb, buckets, List.map_flatMap]
  simp only [map_filter_ranked]
  exact flatMap_places key ids records

/-- No record under one of the ids is lost or doubled, and no other one appears. -/
theorem inRankOrder_perm (key : R → String) (ids : List String) (records : List R) :
    (inRankOrder key ids records).Perm (records.filter fun r => key r ∈ ids) := by
  have hm : (records.filterMap fun r => (rank? ids (key r)).map fun rank => (rank, r)).map (·.2) =
      records.filter fun r => key r ∈ ids := by
    induction records with
    | nil => rfl
    | cons r records ih =>
      have hs := rank?_isSome ids (key r)
      cases hr : rank? ids (key r) <;> rw [hr] at hs <;> simpa [hr, ← hs] using ih
  rw [← orderByIds_eq_inRankOrder, ← hm]
  exact (List.mergeSort_perm _ _).map _

/-- Where no two records share a key, the order in which they came does not matter. -/
theorem inRankOrder_congr {key : R → String} {records others : List R} (ids : List String)
    (hp : others.Perm records) (hk : (records.map key).Nodup) :
    inRankOrder key ids others = inRankOrder key ids records := by
  have same (id : String) : others.filter (key · == id) = records.filter (key · == id) := by
    have hf := hp.filter (key · == id)
    have hn : ((records.filter (key · == id)).map key).Nodup :=
      hk.sublist (List.filter_sublist.map key)
    have he : ∀ r ∈ records.filter (key · == id), key r = id :=
      fun r hr => by simpa using (List.mem_filter.1 hr).2
    cases hr : records.filter (key · == id) with
    | nil => exact (hr ▸ hf).eq_nil
    | cons a rest =>
      cases rest with
      | nil => exact List.perm_singleton.1 (hr ▸ hf)
      | cons b rest =>
        rw [hr] at hn he
        simp [he a (by simp), he b (by simp)] at hn
  simp only [inRankOrder, same]

def Search.totalIsExact (answer : Search) : Bool :=
  match answer.lowerBound with
  | some lower => !lower
  | none => false

private def reconciledLine (hits records fetched : Nat) : String :=
  "Reconciled " ++ toString hits ++ " hits into " ++ toString records ++ " records (" ++
    toString fetched ++ " fetched)"

private theorem reconcile_result {type : RecordType R} {store : RecordStore R} {answer : Search}
    {fetched : List R} (hne : answer.ids ≠ []) (hf : store answer.ids = .ok fetched) (s : Session) :
    (reconcile type store answer).result s =
      (.ok ⟨inRankOrder type.key answer.ids fetched, answer.totalCount, answer.totalIsExact⟩,
        { s with lookups := s.lookups ++ [answer.ids] }.reporting .debug
          (reconciledLine answer.ids.length (inRankOrder type.key answer.ids fetched).length
            fetched.length)) := by
  have he : answer.ids.isEmpty = false := by simpa using hne
  unfold reconcile
  simp only [he, Bool.false_eq_true, if_false]
  rw [Run.result_bind_ok (Run.result_lookUp_ok hf s), Run.result_bind_ok (Run.result_say ..),
    Run.result_pure, orderByIds_eq_inRankOrder]
  rfl

/-- The page that is made of an answer, whether there are hits to look up or not. -/
theorem result_reconcile {type : RecordType R} {store : RecordStore R} {answer : Search}
    {fetched : List R} (hf : answer.ids ≠ [] → store answer.ids = .ok fetched) (s : Session) :
    ∃ t, (reconcile type store answer).result s =
      (.ok ⟨inRankOrder type.key answer.ids fetched, answer.totalCount, answer.totalIsExact⟩, t) ∧
      t.peer = s.peer := by
  by_cases hne : answer.ids = []
  · refine ⟨s, ?_, rfl⟩
    unfold reconcile
    rw [hne]
    rfl
  · exact ⟨_, reconcile_result hne (hf hne) s, rfl⟩

/-- The store is asked only where there are hits, once, for their ids as they stand; its failure is
that of the whole. -/
theorem reconcile_cases (type : RecordType R) (store : RecordStore R) (answer : Search)
    (s : Session) :
    (answer.ids = [] ∧
      (reconcile type store answer).result s =
        (.ok ⟨[], answer.totalCount, answer.totalIsExact⟩, s)) ∨
    (∃ cause, answer.ids ≠ [] ∧ store answer.ids = .error cause ∧
      (reconcile type store answer).result s =
        (.error (.store cause), { s with lookups := s.lookups ++ [answer.ids] })) ∨
    ∃ fetched t, answer.ids ≠ [] ∧ store answer.ids = .ok fetched ∧
      (reconcile type store answer).result s =
        (.ok ⟨inRankOrder type.key answer.ids fetched, answer.totalCount, answer.totalIsExact⟩, t) ∧
      t.lookups = s.lookups ++ [answer.ids] ∧ t.exchanges = s.exchanges := by
  by_cases hne : answer.ids = []
  · refine .inl ⟨hne, ?_⟩
    unfold reconcile
    rw [hne]
    rfl
  · cases hf : store answer.ids with
    | ok fetched => exact .inr (.inr ⟨fetched, _, hne, rfl, reconcile_result hne hf s, rfl, rfl⟩)
    | error cause =>
      refine .inr (.inl ⟨cause, hne, rfl, ?_⟩)
      have he : answer.ids.isEmpty = false := by simpa using hne
      unfold reconcile
      simp only [he, Bool.false_eq_true, if_false]
      rw [Run.result_bind_error (Run.result_lookUp_error hf s)]

/-- Where the store has just one record for each id, they come in the order of the ids. -/
theorem inRankOrder_map {key : R → String} {record : String → R} {ids : List String}
    (hids : ids.Nodup) (hkey : ∀ id ∈ ids, key (record id) = id) {fetched : List R}
    (hf : fetched.Perm (ids.map record)) :
    inRankOrder key ids fetched = ids.map record := by
  have hmap : (ids.map record).map key = ids := by
    rw [List.map_map]
    exact (List.map_congr_left hkey).trans (List.map_id ids)
  have hone (id : String) (hid : id ∈ ids) :
      (ids.map record).filter (key · == id) = [record id] := by
    have hids' : ids.filter (fun x => key (record x) == id) = ids.filter (· == id) :=
      List.filter_congr fun x hx => by rw [hkey x hx]
    rw [List.filter_map]
    change (ids.filter fun x => key (record x) == id).map record = _
    rw [hids', List.filter_beq, List.count_eq_one_of_mem hids hid]
    rfl
  calc inRankOrder key ids fetched
      = inRankOrder key ids (ids.map record) := inRankOrder_congr ids hf (hmap.symm ▸ hids)
    _ = ids.flatMap fun id => (ids.map record).filter (key · == id) := by
      rw [inRankOrder, hids.dedup]
    _ = ids.flatMap fun id => [record id] := List.flatMap_congr hone
    _ = ids.map record := List.map_eq_flatMap.symm

/-- Reconciled records follow the hits: each id counts at its last place only, and the records under
it stand there as the store gave them. None of them is lost or doubled and no other record appears.
Where no two records share a key, the order of the store's answer leaves no trace at all. -/
theorem reconcile_follows_hits (type : RecordType R) (store : RecordStore R) (answer : Search)
    (fetched : List R) (hits : answer.hits.hits ≠ []) (hf : store answer.ids = .ok fetched)
    (s : Session) :
    ∃ page t, (reconcile type store answer).result s = (.ok page, t) ∧
      page.records = (answer.ids.dedup.flatMap fun id => fetched.filter (type.key · == id)) ∧
      page.records.Perm (fetched.filter fun r => type.key r ∈ answer.ids) ∧
      ((fetched.map type.key).Nodup → ∀ (other : RecordStore R) (others : List R),
        other answer.ids = .ok others → others.Perm fetched →
        (reconcile type other answer).result s = (.ok page, t)) := by
  have hne : answer.ids ≠ [] := by simpa [Search.ids] using hits
  refine ⟨_, _, reconcile_result hne hf s, rfl, inRankOrder_perm .., ?_⟩
  intro hk other others ho hp
  have hr := inRankOrder_congr answer.ids hp hk
  rw [reconcile_result hne ho s, hr, hp.length_eq]

/-- An id that is hit twice, a record nobody asked for, and two records under one key. -/
theorem reconcile_follows_repeated_hits :
    let type : RecordType (String × Nat) :=
      { indexName := "books", key := Prod.fst, payload := fun _ => KeyMap.empty }
    let fetched := [("a", 1), ("x", 2), ("b", 3), ("b", 4)]
    let answer : Search :=
      { hits := {
          hits := [⟨"b", none, none, none⟩, ⟨"a", none, none, none⟩, ⟨"b", none, none, none⟩] } }
    answer.hits.hits ≠ [] ∧
    (fun _ => .ok fetched : RecordStore (String × Nat)) answer.ids = .ok fetched ∧
    ∃ page t, (reconcile type (fun _ => .ok fetched) answer).result { peer := Peer.unreachable } =
      (.ok page, t) ∧
      page.records = [("a", 1), ("b", 3), ("b", 4)] := by
  intro type fetched answer
  have hits : answer.hits.hits ≠ [] := by simp [answer]
  obtain ⟨page, t, hr, ho, -⟩ :=
    reconcile_follows_hits type (fun _ => .ok fetched) answer fetched hits rfl
      { peer := Peer.unreachable }
  exact ⟨hits, rfl, page, t, hr, ho.trans (by decide)⟩

end RecordSearch.Response
