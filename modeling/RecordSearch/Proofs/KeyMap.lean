import RecordSearch.KeyMap

/-! Looking up entries that are all under different keys. -/
namespace RecordSearch
variable {α β : Type}

theorem lookup_eq_none {key : String} {entries : List (String × α)}
    (h : ∀ e ∈ entries, e.1 ≠ key) : lookup key entries = none := by
  induction entries with
  | nil => rfl
  | cons e rest ih =>
    rw [lookup, if_neg (h e List.mem_cons_self), ih fun d hd => h d (List.mem_cons_of_mem _ hd)]

theorem mem_of_lookup {key : String} {value : α} {entries : List (String × α)}
    (h : lookup key entries = some value) :
    (key, value) ∈ entries := by
  induction entries with
  | nil => exact nomatch h
  | cons e rest ih =>
    rw [lookup] at h
    split at h
    · next hk =>
      obtain rfl := Option.some.inj h
      exact hk ▸ List.mem_cons_self
    · exact List.mem_cons_of_mem _ (ih h)

def lookupLast (key : String) : List (String × α) → Option α
  | [] => none
  | (k, v) :: rest => (lookupLast key rest).or (if k = key then some v else none)

theorem lookupLast_map (key : String) (entries : List (String × α)) (f : α → β) :
    lookupLast key (entries.map fun e => (e.1, f e.2)) = (lookupLast key entries).map f := by
  induction entries with
  | nil => rfl
  | cons e rest ih =>
    rw [List.map_cons, lookupLast, lookupLast, ih, Option.map_or]
    split <;> rfl

def Distinct (entries : List (String × α)) : Prop := entries.Pairwise (·.1 ≠ ·.1)

instance (entries : List (String × α)) : Decidable (Distinct entries) :=
  inferInstanceAs (Decidable (List.Pairwise ..))

theorem Distinct.lookup_tail {e : String × α} {rest : List (String × α)}
    (h : Distinct (e :: rest)) : lookup e.1 rest = none :=
  lookup_eq_none fun _ hd => (List.rel_of_pairwise_cons h hd).symm

theorem Distinct.lookup_of_mem {entries : List (String × α)} (h : Distinct entries) {e : String × α}
    (hm : e ∈ entries) :
    lookup e.1 entries = some e.2 := by
  induction entries with
  | nil => contradiction
  | cons d rest ih =>
    rw [lookup]
    rcases List.mem_cons.1 hm with rfl | hm
    · exact if_pos rfl
    · rw [if_neg (List.rel_of_pairwise_cons h hm), ih h.of_cons hm]

theorem Distinct.map_values {entries : List (String × α)} (h : Distinct entries)
    {f : String × α → String × β} (hf : ∀ e, (f e).1 = e.1) :
    Distinct (entries.map f) :=
  List.pairwise_map.2 (h.imp fun hne => by rwa [hf, hf])

namespace KeyMap

/-- Distinct entries are found next to what was there before, in whatever order they are put in. -/
theorem get?_foldl_insert {entries : List (String × α)} (h : Distinct entries) (m : KeyMap α)
    (key : String) :
    (entries.foldl (fun m e => m.insert e.1 e.2) m).get? key =
      (lookup key entries).or (m.get? key) := by
  induction entries generalizing m with
  | nil => rfl
  | cons e rest ih =>
    rw [List.foldl_cons, ih h.of_cons, get?_insert, lookup]
    by_cases hk : e.1 = key
    · rw [if_pos hk, if_pos hk, ← hk, h.lookup_tail]
      rfl
    · rw [if_neg hk, if_neg hk]

theorem get?_ofList {entries : List (String × α)} (h : Distinct entries) (key : String) :
    (ofList entries).get? key = lookup key entries :=
  (get?_foldl_insert h empty key).trans (Option.or_none ..)

/-- Whatever is put in, under one key the last of it stays. -/
theorem get?_foldl_insert_last (entries : List (String × α)) (m : KeyMap α) (key : String) :
    (entries.foldl (fun m e => m.insert e.1 e.2) m).get? key =
      (lookupLast key entries).or (m.get? key) := by
  induction entries generalizing m with
  | nil => rfl
  | cons e rest ih =>
    rw [List.foldl_cons, ih, get?_insert, lookupLast, Option.or_assoc]
    split <;> rfl

theorem get?_ofList_last (entries : List (String × α)) (key : String) :
    (ofList entries).get? key = lookupLast key entries :=
  (get?_foldl_insert_last entries empty key).trans (Option.or_none ..)

theorem get?_map (m : KeyMap α) (f : α → β) (key : String) :
    (m.map f).get? key = (m.get? key).map f := by
  obtain ⟨entries, h⟩ := m
  change lookup key (entries.map fun e => (e.1, f e.2)) = (lookup key entries).map f
  clear h
  induction entries with
  | nil => rfl
  | cons e rest ih =>
    rw [List.map_cons, lookup, lookup, ih]
    split <;> rfl

theorem map_map {γ : Type} (m : KeyMap α) (f : α → β) (g : β → γ) :
    (m.map f).map g = m.map fun x => g (f x) :=
  ext (List.map_map ..)

theorem map_eq_self_iff {m : KeyMap α} {f : α → α} :
    m.map f = m ↔ ∀ e ∈ m.entries, f e.2 = e.2 := by
  have hentry (e : String × α) : (e.1, f e.2) = e ↔ f e.2 = e.2 := by simp [Prod.ext_iff]
  rw [KeyMap.ext_iff]
  change m.entries.map (fun e => (e.1, f e.2)) = m.entries ↔ _
  simp only [← hentry]
  generalize m.entries = entries
  induction entries with
  | nil => simp
  | cons e rest ih => rw [List.map_cons, List.cons.injEq, ih, List.forall_mem_cons]

private theorem insertEntry_of_lt {key : String} {entries : List (String × α)}
    (h : ∀ e ∈ entries, e.1 < key) (value : α) :
    insertEntry key value entries = entries ++ [(key, value)] := by
  induction entries with
  | nil => rfl
  | cons e rest ih =>
    obtain ⟨hlt, hrest⟩ := List.forall_mem_cons.1 h
    have hne : key ≠ e.1 := fun he => String.lt_irrefl key (he ▸ hlt)
    rw [insertEntry, if_neg (String.not_lt.2 (Std.le_of_lt hlt)), if_neg hne, ih hrest,
      List.cons_append]

private theorem foldl_insert_of_ascending {before entries : List (String × α)}
    (h : (before ++ entries).Pairwise (·.1 < ·.1)) {m : KeyMap α} (hm : m.entries = before) :
    (entries.foldl (fun m e => m.insert e.1 e.2) m).entries = before ++ entries := by
  induction entries generalizing before m with
  | nil => rw [List.foldl_nil, hm, List.append_nil]
  | cons e rest ih =>
    have hlt : ∀ d ∈ before, d.1 < e.1 :=
      fun d hd => (List.pairwise_append.1 h).2.2 d hd e List.mem_cons_self
    rw [List.append_cons] at h ⊢
    refine ih h ?_
    change insertEntry e.1 e.2 m.entries = _
    rw [hm, insertEntry_of_lt hlt]

theorem distinct (m : KeyMap α) : Distinct m.entries := by
  refine m.ascending.imp fun hlt he => ?_
  rw [he] at hlt
  exact String.lt_irrefl _ hlt

theorem get?_override (m n : KeyMap α) (key : String) :
    (m.override n).get? key = (n.get? key).or (m.get? key) :=
  get?_foldl_insert n.distinct m key

theorem mem_entries_iff {m : KeyMap α} {key : String} {value : α} :
    (key, value) ∈ m.entries ↔ m.get? key = some value :=
  ⟨m.distinct.lookup_of_mem, mem_of_lookup⟩

theorem isEmpty_iff {m : KeyMap α} : m.isEmpty = true ↔ ∀ key, m.get? key = none := by
  rw [isEmpty, List.isEmpty_iff, List.eq_nil_iff_forall_not_mem]
  constructor
  · exact fun h key => Option.eq_none_iff_forall_ne_some.2
      fun value hvalue => h _ (mem_entries_iff.2 hvalue)
  · intro h e he
    have hget : m.get? e.1 = some e.2 := mem_entries_iff.1 he
    exact nomatch (h e.1).symm.trans hget

/-- Maps in which the same is found under every key are one. -/
theorem ext_get? {m n : KeyMap α} (h : ∀ key, m.get? key = n.get? key) : m = n := by
  have hnodup (m : KeyMap α) : m.entries.Nodup :=
    m.distinct.imp fun hne he => hne (congrArg Prod.fst he)
  have hperm : m.entries.Perm n.entries :=
    (List.perm_ext_iff_of_nodup (hnodup m) (hnodup n)).2 fun e => by
      rw [mem_entries_iff, mem_entries_iff, h]
  exact ext (hperm.eq_of_pairwise
    (fun d e _ _ hde hed => absurd (String.lt_trans hde hed) (String.lt_irrefl _))
    m.ascending n.ascending)

/-- Ascending entries are put in as they are. -/
theorem ofList_entries (m : KeyMap α) : ofList m.entries = m :=
  ext (foldl_insert_of_ascending m.ascending rfl)

theorem mem_foldl_insert {entries : List (String × α)} {m : KeyMap α} {e : String × α}
    (h : e ∈ (entries.foldl (fun m e => m.insert e.1 e.2) m).entries) :
    e ∈ m.entries ∨ e ∈ entries := by
  induction entries generalizing m with
  | nil => exact .inl h
  | cons d rest ih =>
    rcases ih h with h | h
    · rcases mem_insertEntry h with rfl | h
      · exact .inr List.mem_cons_self
      · exact .inl h
    · exact .inr (List.mem_cons_of_mem _ h)

/-- A map has no entries but those that are put in. -/
theorem mem_of_mem_ofList {entries : List (String × α)} {e : String × α}
    (h : e ∈ (ofList entries).entries) : e ∈ entries :=
  (mem_foldl_insert h).resolve_left List.not_mem_nil

end KeyMap
end RecordSearch
