import Mathlib.Data.List.Forall2
import RecordSearch.Proofs.Client.Target
import RecordSearch.Proofs.Text.Pieces

/-! The pieces of an address: what a client writes for segments, and how they are read from it. -/
namespace RecordSearch
open Url

namespace Url

def name? (segment : List Char) : Option String :=
  (Text.Utf8.decode? (Text.Percent.decode segment)).map String.ofList

theorem name?_eq_some_iff {segment : List Char} {name : String} :
    name? segment = some name ↔ Names segment name := by
  rw [name?, Names, Option.map_eq_some_iff]
  constructor
  · rintro ⟨cs, h, rfl⟩
    rw [h, String.toList_ofList]
  · exact fun h => ⟨_, h, String.ofList_toList⟩

/-- Names are read back one by one. -/
theorem mapM_name?_written (names : List String) : (names.map written).mapM name? = some names := by
  induction names with
  | nil => rfl
  | cons name names ih =>
    have hname : name? (written name) = some name := name?_eq_some_iff.2 (names_written name)
    rw [List.map_cons, List.mapM_cons, hname, ih]
    rfl

/-- Names put behind one another, with a slash before each, are the pieces after an empty one. -/
theorem pieces_names (names : List String) :
    Text.pieces (· == '/') (names.flatMap fun name => '/' :: written name) =
      [] :: names.map written := by
  have hwritten : ∀ piece ∈ names.map written, ∀ c ∈ piece, (c == '/') = false := by
    intro piece hp c hc
    obtain ⟨name, -, rfl⟩ := List.mem_map.1 hp
    exact (Bool.or_eq_false_iff.1 (not_slash_of_mem_written hc)).1
  have hflat : (names.flatMap fun name => '/' :: written name) =
      [] ++ (names.map written).flatMap ('/' :: ·) := by
    rw [List.nil_append, List.flatMap_map]
  rw [hflat, Text.pieces_flatMap rfl (List.forall_mem_nil _) hwritten]

end Url

namespace Client

theorem toList_url (c : Client) (segments : List String) :
    (c.url segments).toList = c.base.toList ++ segments.flatMap fun name => '/' :: written name :=
  String.toList_ofList

/-- Different segments make different addresses: the pieces behind the base tell them apart. -/
theorem url_injective (c : Client) : Function.Injective c.url := by
  intro segments others h
  have hrest :=
    List.append_cancel_left ((c.toList_url segments).symm.trans
      ((congrArg String.toList h).trans (c.toList_url others)))
  have hpieces : segments.map written = others.map written := by
    have h := congrArg (Text.pieces (· == '/')) hrest
    rw [pieces_names, pieces_names] at h
    exact (List.cons.inj h).2
  rw [← Option.some_inj, ← mapM_name?_written segments, hpieces, mapM_name?_written]

/-- An address is its base, and behind it, cut at the slashes, one empty piece and then one for each
segment: plain characters and triples, from which the segment is read back. So addresses differ as
soon as their segments do, and what is read from one makes it again. -/
theorem address_spells_segments (c : Client) (segments : List String) : ∃ rest pieces,
    (c.url segments).toList = c.base.toList ++ rest ∧ Text.pieces (· == '/') rest = [] :: pieces ∧
    List.Forall₂ (fun piece segment => Text.Percent.Written piece ∧ name? piece = some segment)
      pieces segments ∧
    (pieces.mapM name?).map c.url = some (c.url segments) ∧
    ∀ others, c.url others = c.url segments ↔ others = segments := by
  refine ⟨_, segments.map written, c.toList_url segments, pieces_names segments, ?_, ?_,
    fun others => c.url_injective.eq_iff⟩
  · rw [List.forall₂_map_left_iff]
    exact List.forall₂_same.2 fun name _ =>
      ⟨Text.Percent.written_encode _, name?_eq_some_iff.2 (names_written name)⟩
  · rw [mapM_name?_written, Option.map_some]

/-- An empty segment, and characters that would cut the address or start a triple. -/
example : localClient.url ["books", "", "a/b c", "100%?#é"] =
    "http://localhost:9200/books//a%2Fb%20c/100%25%3F%23%C3%A9" := by decide +kernel

end Client
end RecordSearch
