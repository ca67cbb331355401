import RecordSearch.Proofs.Json.Depth

/-! Objects of which only two members are looked at. -/
namespace RecordSearch.Json.Decode
variable {σ : Type}

variable {step : σ → String → Decoder σ} {origin : Tree.Origin} {s t : σ} {name : String}
  {v : Value}

theorem memberwise_nil (step : σ → String → Decoder σ) (origin : Tree.Origin) (s : σ) :
    memberwise step origin s (Tree.ofMembers []) = .ok s := rfl

theorem memberwise_cons (h : step s name ⟨.ofValue v, origin⟩ = .ok t)
    (members : List (String × Value)) :
    memberwise step origin s (Tree.ofMembers ((name, v) :: members)) =
      memberwise step origin t (Tree.ofMembers members) := by
  rw [Tree.ofMembers, memberwise, Tree.key]
  simp only [bind, Except.bind, h]

/-- The members after a fault are not looked at. -/
theorem memberwise_cons_error {f : Fault} (h : step s name ⟨.ofValue v, origin⟩ = .error f)
    (members : List (String × Value)) :
    memberwise step origin s (Tree.ofMembers ((name, v) :: members)) = .error f := by
  rw [Tree.ofMembers, memberwise, Tree.key]
  simp only [bind, Except.bind, h]

/-- Members whose names are not known are passed over, whatever they hold. -/
theorem memberwise_filter {known : String → Bool}
    (hstep : ∀ s name c, known name = false → step s name c = (do ignored c; return s)) (s : σ)
    (members : List (String × Value)) :
    memberwise step origin s (Tree.ofMembers members) =
      memberwise step origin s (Tree.ofMembers (members.filter fun e => known e.1)) := by
  induction members generalizing s with
  | nil => rfl
  | cons e members ih =>
    obtain ⟨name, v⟩ := e
    rw [List.filter_cons]
    cases hk : known name with
    | true =>
      rw [if_pos rfl]
      cases hs : step s name ⟨.ofValue v, origin⟩ with
      | error f => rw [memberwise_cons_error hs, memberwise_cons_error hs]
      | ok t => rw [memberwise_cons hs, memberwise_cons hs, ih]
    | false =>
      have hs : step s name ⟨.ofValue v, origin⟩ = .ok s := by
        rw [hstep s name _ hk, ignored, Tree.skip_ofValue]
        rfl
      rw [if_neg Bool.false_ne_true, memberwise_cons hs, ih]

private def pick (name : String) (members : List (String × Value)) : List (String × Value) :=
  (lookup name members).toList.map (name, ·)

private theorem pick_of_some {members : List (String × Value)} (h : lookup name members = some v) :
    pick name members = [(name, v)] := by
  rw [pick, h]
  rfl

private theorem pick_of_none {members : List (String × Value)}
    (h : lookup name members = none) : pick name members = [] := by
  rw [pick, h]
  rfl

/-- The members of two names come in one order or the other. -/
private theorem filter_two {a b : String} (hne : a ≠ b) {members : List (String × Value)}
    (hd : Distinct members) :
    members.filter (fun e => e.1 == a || e.1 == b) = pick a members ++ pick b members ∨
      members.filter (fun e => e.1 == a || e.1 == b) = pick b members ++ pick a members := by
  induction members with
  | nil => exact .inl rfl
  | cons e members ih =>
    obtain ⟨name, v⟩ := e
    have hnone : lookup name members = none := hd.lookup_tail
    specialize ih hd.of_cons
    unfold pick at ih ⊢
    rw [lookup, lookup]
    by_cases ha : name = a
    · subst ha
      rw [hnone] at ih
      rw [List.filter_cons_of_pos (by simp), if_pos rfl, if_neg hne]
      exact .inl (congrArg _ (by simpa using ih))
    · by_cases hb : name = b
      · subst hb
        rw [hnone] at ih
        rw [List.filter_cons_of_pos (by simp), if_neg ha, if_pos rfl]
        exact .inr (congrArg _ (by simpa using ih))
      · rw [List.filter_cons_of_neg (by simp [ha, hb]), if_neg ha, if_neg hb]
        exact ih

section Two
variable {a b : String} {members : List (String × Value)} {va vb : Value} {sa sb : σ} {f : Fault}
  (hstep : ∀ s name c, (name == a || name == b) = false → step s name c = (do ignored c; return s))
  (hne : a ≠ b) (hd : Distinct members)
include hstep hne hd

theorem memberwise_one (ha : lookup a members = some va) (hb : lookup b members = none)
    (h : step s a ⟨.ofValue va, origin⟩ = .ok t) :
    memberwise step origin s (Tree.ofMembers members) = .ok t := by
  have horder := filter_two hne hd
  rw [pick_of_some ha, pick_of_none hb] at horder
  have hone : members.filter (fun e => e.1 == a || e.1 == b) = [(a, va)] := horder.elim id id
  rw [memberwise_filter hstep, hone, memberwise_cons h, memberwise_nil]

/-- Two members in either order come to the same if their steps do. -/
theorem memberwise_two (ha : lookup a members = some va) (hb : lookup b members = some vb)
    (h : step s a ⟨.ofValue va, origin⟩ = .ok sa) (hab : step sa b ⟨.ofValue vb, origin⟩ = .ok t)
    (h' : step s b ⟨.ofValue vb, origin⟩ = .ok sb) (hba : step sb a ⟨.ofValue va, origin⟩ = .ok t) :
    memberwise step origin s (Tree.ofMembers members) = .ok t := by
  have horder := filter_two hne hd
  rw [pick_of_some ha, pick_of_some hb] at horder
  rw [memberwise_filter hstep]
  rcases horder with ho | ho
  · rw [ho, List.singleton_append, memberwise_cons h, memberwise_cons hab, memberwise_nil]
  · rw [ho, List.singleton_append, memberwise_cons h', memberwise_cons hba, memberwise_nil]

theorem memberwise_two_error (ha : lookup a members = some va) (hb : lookup b members = some vb)
    (h : step s a ⟨.ofValue va, origin⟩ = .ok sa) (hab : step sa b ⟨.ofValue vb, origin⟩ = .error f)
    (h' : step s b ⟨.ofValue vb, origin⟩ = .error f) :
    memberwise step origin s (Tree.ofMembers members) = .error f := by
  have horder := filter_two hne hd
  rw [pick_of_some ha, pick_of_some hb] at horder
  rw [memberwise_filter hstep]
  rcases horder with ho | ho
  · rw [ho, List.singleton_append, memberwise_cons h, memberwise_cons_error hab]
  · rw [ho, List.singleton_append, memberwise_cons_error h']

end Two

end RecordSearch.Json.Decode
