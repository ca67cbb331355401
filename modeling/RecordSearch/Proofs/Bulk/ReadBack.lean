import RecordSearch.Bulk.Operation
import RecordSearch.Proofs.Json.OneLine

/-! Operations sent together are read back from their text, line by line. -/
namespace RecordSearch.Bulk
open Json

def Operation.payload? : Operation → Option Payload
  | .index _ _ payload => some payload
  | .delete _ _ => none

/-- A body is held with the keys of all its objects ascending, and its doubles are read back from
their own texts. -/
structure Operation.Readable (o : Operation) : Prop where
  canonical : ∀ payload ∈ o.payload?, (Value.ofMap payload).Canonical
  doubles : ∀ payload ∈ o.payload?, (Value.ofMap payload).DoublesReadBack

theorem readable_delete (target id : String) : (Operation.delete target id).Readable :=
  ⟨nofun, nofun⟩

theorem readable_index {target id : String} {payload : Payload}
    (hc : (Value.ofMap payload).Canonical) (hd : (Value.ofMap payload).DoublesReadBack) :
    (Operation.index target id payload).Readable := by
  constructor
  · intro p hp
    exact Option.some.inj hp ▸ hc
  · intro p hp
    exact Option.some.inj hp ▸ hd

section Lines

/-- The name of a document is held with its keys ascending. -/
private theorem canonical_name (target id : String) :
    (Value.obj [("_id", .str id), ("_index", .str target)]).Canonical :=
  have hkeys : "_id" < "_index" := by decide
  ⟨List.pairwise_pair.2 hkeys, trivial, trivial, trivial⟩

private theorem canonical_action (o : Operation) : o.action.Canonical := by
  cases o with
  | index target id payload =>
    exact ⟨List.pairwise_singleton _ _, canonical_name target id, trivial⟩
  | delete target id => exact ⟨List.pairwise_singleton _ _, canonical_name target id, trivial⟩

private theorem doublesReadBack_action (o : Operation) : o.action.DoublesReadBack := by
  cases o <;> exact fun _ _ h => absurd h List.not_mem_nil

/-- Each line of an operation is read by itself as what was written on it. -/
theorem Operation.Readable.readDeep_lines {o : Operation} (h : o.Readable) :
    ∀ v ∈ o.lines, readDeep v.text = .ok v := by
  have haction : readDeep o.action.text = .ok o.action :=
    Value.readDeep_text (canonical_action o) (doublesReadBack_action o)
  cases o with
  | delete target id => exact List.forall_mem_singleton.2 haction
  | index target id payload =>
    have hbody : readDeep (Value.ofMap payload).text = .ok (Value.ofMap payload) :=
      Value.readDeep_text (h.canonical payload rfl) (h.doubles payload rfl)
    exact List.forall_mem_cons.2 ⟨haction, List.forall_mem_singleton.2 hbody⟩

/-- After an action that puts in a document the next line is its body, whatever it looks like. -/
private theorem ofLines?_lines (o : Operation) (rest : List Value) :
    ofLines? (o.lines ++ rest) = (ofLines? rest).map (o :: ·) := by
  cases o with
  | delete target id =>
    change (do let operations ← ofLines? rest; some (Operation.delete target id :: operations)) = _
    cases ofLines? rest <;> rfl
  | index target id payload =>
    have hbody : ofEntries? payload.entries = some payload := dif_pos payload.ascending
    change (do
      let payload ← ofEntries? payload.entries
      let operations ← ofLines? rest
      some (Operation.index target id payload :: operations)) = _
    rw [hbody]
    cases ofLines? rest <;> rfl

theorem ofLines?_flatMap_lines (operations : List Operation) :
    ofLines? (operations.flatMap Operation.lines) = some operations := by
  induction operations with
  | nil => rfl
  | cons o operations ih => rw [List.flatMap_cons, ofLines?_lines, ih]; rfl

/-- Two lines for each document that is put in, one for each that is taken out. -/
theorem length_flatMap_lines (operations : List Operation) :
    (operations.flatMap Operation.lines).length =
    2 * operations.countP (·.payload?.isSome) + operations.countP (·.payload?.isNone) := by
  induction operations with
  | nil => rfl
  | cons o operations ih =>
    rw [List.flatMap_cons, List.length_append, ih, List.countP_cons, List.countP_cons]
    cases o with
    | index target id payload =>
      change 2 + _ = 2 * (_ + 1) + (_ + 0)
      omega
    | delete target id =>
      change 1 + _ = 2 * (_ + 0) + (_ + 1)
      omega

end Lines

section Text

/-- The lines of the text, each ended by a line feed. -/
private theorem toList_text (operations : List Operation) :
    (text operations).toList =
      ((operations.flatMap Operation.lines).map Value.chars).flatMap (· ++ ['\n']) := by
  rw [text, String.toList_ofList, List.flatMap_map, List.flatMap_assoc]

private theorem pieces_text (operations : List Operation) :
    Text.pieces (· == '\n') (text operations).toList =
      (operations.flatMap Operation.lines).map Value.chars ++ [[]] := by
  have hline : ∀ line ∈ (operations.flatMap Operation.lines).map Value.chars,
      ∀ c ∈ line, (c == '\n') = false := by
    intro line hline c hc
    obtain ⟨v, -, rfl⟩ := List.mem_map.1 hline
    exact beq_eq_false_iff_ne.2 fun he => v.not_line_feed_chars (he ▸ hc)
  rw [toList_text, Text.pieces_flatMap_concat rfl hline]

private theorem getLast?_text {operations : List Operation} (h : operations ≠ []) :
    (text operations).toList.getLast? = some '\n' := by
  have hlines : (operations.flatMap Operation.lines).map Value.chars ≠ [] := by
    obtain ⟨o, rest, rfl⟩ := List.exists_cons_of_ne_nil h
    cases o <;> exact List.cons_ne_nil _ _
  rw [toList_text, ← List.dropLast_concat_getLast hlines, List.flatMap_append,
    List.flatMap_singleton, ← List.append_assoc, List.getLast?_concat]

private theorem mapM_readDeep {values : List Value} (h : ∀ v ∈ values, readDeep v.text = .ok v) :
    (values.map Value.chars).mapM (fun line => (readDeep (String.ofList line)).toOption) =
      some values := by
  induction values with
  | nil => rfl
  | cons v values ih =>
    obtain ⟨hv, hvalues⟩ := List.forall_mem_cons.1 h
    have hline : readDeep (String.ofList v.chars) = .ok v := hv
    rw [List.map_cons, List.mapM_cons, hline, ih hvalues]
    rfl

/-- The text of operations has two lines for a document that is put in and one for a document that
is taken out, each a data text that is read as it was written, and every operation is read back from
them. -/
theorem text_reads_back (operations : List Operation) (h : ∀ o ∈ operations, o.Readable) :
    ofText? (text operations) = some operations ∧ (text operations = "" ↔ operations = []) ∧
      (operations ≠ [] → (text operations).toList.getLast? = some '\n') ∧
      ∃ lines, Text.pieces (· == '\n') (text operations).toList = lines ++ [[]] ∧
        lines.length = 2 * operations.countP (·.payload?.isSome) +
          operations.countP (·.payload?.isNone) ∧
        lines.map (fun line => readDeep (String.ofList line)) =
          (operations.flatMap Operation.lines).map .ok := by
  have hread : ∀ v ∈ operations.flatMap Operation.lines, readDeep v.text = .ok v := by
    intro v hv
    obtain ⟨o, ho, hv⟩ := List.mem_flatMap.1 hv
    exact (h o ho).readDeep_lines v hv
  refine ⟨?_, ⟨fun he => ?_, fun he => he ▸ text_nil⟩, getLast?_text, _,
    pieces_text operations, ?_, ?_⟩
  · rw [ofText?, pieces_text]
    simp [mapM_readDeep hread, ofLines?_flatMap_lines]
  · refine Decidable.byContradiction fun hne => ?_
    have hlast := getLast?_text hne
    rw [he] at hlast
    exact nomatch hlast
  · rw [List.length_map, length_flatMap_lines]
  · rw [List.map_map]
    exact List.map_congr_left hread

def lookalike : Payload :=
  ⟨[("delete", .obj [("_id", .str "\n"), ("_index", .str "records")])], List.pairwise_singleton _ _⟩

private theorem small_finite : (2.5e-7 : Float).isFinite = true := by decide +kernel

private theorem small_readsBack : (Number.double 2.5e-7 small_finite).ReadsBack := by
  have htext : (Number.double 2.5e-7 small_finite).text = ['2', '.', '5', 'e', '-', '7'] := by
    decide +kernel
  apply Number.readsBack_of_reads
  rw [htext]
  constructor <;> (rw [Reader.value_of_digit (by decide)]; rfl)

def small : Payload := ⟨[("rank", .num (.double 2.5e-7 small_finite))], List.pairwise_singleton _ _⟩

def mixed : List Operation :=
  [.index "a\n" "\"" lookalike, .delete "a\n" "\\", .index "" "\x01" small]

private theorem readable_lookalike (target id : String) :
    (Operation.index target id lookalike).Readable :=
  readable_index ⟨lookalike.ascending, canonical_name _ _, trivial⟩
    fun _ _ h => absurd h List.not_mem_nil

private theorem readable_small (target id : String) :
    (Operation.index target id small).Readable := by
  refine readable_index ⟨small.ascending, trivial, trivial⟩ fun x finite h => ?_
  obtain ⟨⟩ := List.mem_singleton.1 h
  exact small_readsBack

theorem lookalike_reads_back : (∀ o ∈ mixed, o.Readable) ∧ ofText? (text mixed) = some mixed ∧
    (text mixed).toList.getLast? = some '\n' ∧
    ∃ lines, Text.pieces (· == '\n') (text mixed).toList = lines ++ [[]] ∧ lines.length = 5 := by
  have h : ∀ o ∈ mixed, o.Readable := by
    simp only [mixed, List.forall_mem_cons]
    exact ⟨readable_lookalike _ _, readable_delete _ _, readable_small _ _, List.forall_mem_nil _⟩
  obtain ⟨hread, -, hlast, lines, hpieces, hlength, -⟩ := text_reads_back mixed h
  exact ⟨h, hread, hlast (List.cons_ne_nil _ _), lines, hpieces, hlength⟩

end Text
end RecordSearch.Bulk
