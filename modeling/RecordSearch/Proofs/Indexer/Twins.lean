import RecordSearch.Indexer
import RecordSearch.Proofs.Client.Twins

/-! Batches of two clients that differ in nothing but their credentials. -/
namespace RecordSearch.Indexer
variable {a b : List String} {c d : Client} {R : Type}

theorem twins_index (h : c.Twins a b d) (softDelete bulk : Bool) (type : RecordType R)
    (records : List R) :
    Run.Twins a b (Indexer.index ⟨c, softDelete, bulk⟩ type records)
      (Indexer.index ⟨d, softDelete, bulk⟩ type records) := by
  unfold Indexer.index
  cases records with
  | nil => exact .pure _
  | cons first rest =>
    refine .ite (.bind (.say _ _) fun _ => ?_) ?_
    all_goals
      exact .ite (.pure _) (.ite (.bind (h.bulk _) fun _ => .say _ _)
        (.bind (.forM fun _ _ => h.upsert _ _ _) fun _ => .say _ _))

theorem twins_unindex (h : c.Twins a b d) (softDelete bulk : Bool) (type : RecordType R)
    (records : List R) :
    Run.Twins a b (Indexer.unindex ⟨c, softDelete, bulk⟩ type records)
      (Indexer.unindex ⟨d, softDelete, bulk⟩ type records) := by
  unfold Indexer.unindex
  cases records with
  | nil => exact .pure _
  | cons first rest =>
    exact .ite (.bind (h.bulk _) fun _ => .say _ _)
      (.bind (.forM fun _ _ => h.delete _ _) fun _ => .say _ _)

/-- The other side stays the same while a batch is put in. -/
theorem peer_index {u : Url} (h : c.IsFor u) (softDelete bulk : Bool) (type : RecordType R)
    (records : List R) (s : Session) :
    ((Indexer.index ⟨c, softDelete, bulk⟩ type records).result s).2.peer = s.peer :=
  (twins_index (h.twins c.username c.password) softDelete bulk type records s s rfl).first.peer

end RecordSearch.Indexer
