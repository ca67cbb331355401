/-! Maps with text keys, held as their entries in ascending key order. Two maps with the same entry
under every key are equal. -/
namespace RecordSearch

def lookup {α : Type} (key : String) : List (String × α) → Option α
  | [] => none
  | (k, v) :: rest => if k = key then some v else lookup key rest

def insertEntry {α : Type} (key : String) (value : α) : List (String × α) → List (String × α)
  | [] => [(key, value)]
  | (k, v) :: rest =>
    if key < k then (key, value) :: (k, v) :: rest
    else if key = k then (key, value) :: rest
    else (k, v) :: insertEntry key value rest

theorem mem_insertEntry {α : Type} {key : String} {value : α} {entry : String × α}
    {entries : List (String × α)} (h : entry ∈ insertEntry key value entries) :
    entry = (key, value) ∨ entry ∈ entries := by
  fun_induction insertEntry key value entries with
  | case1 => simpa using h
  | case2 => simpa using h
  | case3 => simp at h ⊢; exact h.imp_right .inr
  | case4 k v rest _ _ ih =>
    rcases List.mem_cons.1 h with h | h
    · exact .inr (h ▸ List.mem_cons_self)
    · exact (ih h).imp_right (List.mem_cons_of_mem _)

private theorem lt_of_not_lt_of_ne {a b : String} (h : ¬ a < b) (hne : a ≠ b) : b < a :=
  String.not_le.1 fun hle => hne (String.le_antisymm hle (String.not_lt.1 h))

theorem pairwise_insertEntry {α : Type} (key : String) (value : α) {entries : List (String × α)}
    (h : entries.Pairwise (·.1 < ·.1)) : (insertEntry key value entries).Pairwise (·.1 < ·.1) := by
  fun_induction insertEntry key value entries with
  | case1 => simp
  | case2 k v rest hlt =>
    refine List.pairwise_cons.2 ⟨fun e he => ?_, h⟩
    rcases List.mem_cons.1 he with rfl | he
    · exact hlt
    · exact String.lt_trans hlt (List.rel_of_pairwise_cons h he)
  | case3 v rest _ =>
    exact List.pairwise_cons.2 ⟨fun e he => List.rel_of_pairwise_cons h he, h.of_cons⟩
  | case4 k v rest hlt hne ih =>
    refine List.pairwise_cons.2 ⟨fun e he => ?_, ih h.of_cons⟩
    rcases mem_insertEntry he with rfl | he
    · exact lt_of_not_lt_of_ne hlt hne
    · exact List.rel_of_pairwise_cons h he

/-- An entry that has been put in is found, and no other look-up changes. Order plays no part. -/
theorem lookup_insertEntry {α : Type} (key : String) (value : α) (entries : List (String × α))
    (k : String) :
    lookup k (insertEntry key value entries) =
      if key = k then some value else lookup k entries := by
  fun_induction insertEntry key value entries with
  | case1 => simp [lookup]
  | case2 => simp [lookup]
  | case3 => simp only [lookup]; split <;> simp_all
  | case4 a v rest _ hne ih => simp only [lookup, ih]; split <;> split <;> simp_all

/-- A map with text keys. Keys ascend by code point, which is also the order of their octets in
UTF-8. -/
structure KeyMap (α : Type) where
  entries : List (String × α)
  ascending : entries.Pairwise (·.1 < ·.1)

namespace KeyMap
variable {α β : Type}

@[ext] theorem ext {a b : KeyMap α} (h : a.entries = b.entries) : a = b := by
  cases a; cases b; cases h; rfl

def empty : KeyMap α := ⟨[], .nil⟩

instance : Inhabited (KeyMap α) := ⟨empty⟩

def isEmpty (m : KeyMap α) : Bool := m.entries.isEmpty

def get? (m : KeyMap α) (key : String) : Option α := lookup key m.entries

def insert (m : KeyMap α) (key : String) (value : α) : KeyMap α :=
  ⟨insertEntry key value m.entries, pairwise_insertEntry key value m.ascending⟩

def ofList (entries : List (String × α)) : KeyMap α :=
  entries.foldl (fun m e => m.insert e.1 e.2) empty

def override (m n : KeyMap α) : KeyMap α := n.entries.foldl (fun m e => m.insert e.1 e.2) m

def filter (p : String → α → Bool) (m : KeyMap α) : KeyMap α :=
  ⟨m.entries.filter fun e => p e.1 e.2, m.ascending.filter _⟩

def map (f : α → β) (m : KeyMap α) : KeyMap β :=
  ⟨m.entries.map fun e => (e.1, f e.2), List.pairwise_map.2 m.ascending⟩

theorem get?_insert (m : KeyMap α) (key : String) (value : α) (k : String) :
    (m.insert key value).get? k = if key = k then some value else m.get? k := lookup_insertEntry ..

end KeyMap
end RecordSearch
