import ChantSearch.Schema.Basic

/-!
# The schema of the chant database

The fields of chants, sources, indexers and the records they refer to. The fields that hold
the ids of cross-references can be searched too.
-/

namespace ChantSearch

/-- The fields that records of the chant database are described by. -/
def catalogueFields : List String :=
  ["id", "name", "description", "mass_or_office", "date", "feast_code", "incipit", "source",
   "marginalia", "folio", "sequence", "office", "genre", "position", "cantus_id", "feast",
   "mode", "differentia", "finalis", "full_text", "full_text_manuscript", "proofread_fulltext",
   "volpiano", "notes", "cao_concordances", "siglum", "proofreader", "melody_id", "title",
   "rism", "provenance", "century", "notation_style", "editors", "indexers", "summary",
   "liturgical_occasion", "indexing_notes", "indexing_date", "display_name", "given_name",
   "family_name", "institution", "city", "country", "type", "proofread_fulltext_manuscript"]

def catalogueCrossRefs : List (String × CrossRef) :=
  [("feast", ⟨"feast", "feast_id"⟩),
   ("genre", ⟨"genre", "genre_id"⟩),
   ("office", ⟨"office", "office_id"⟩),
   ("source", ⟨"source", "source_id"⟩),
   ("provenance", ⟨"provenance", "provenance_id"⟩),
   ("century", ⟨"century", "century_id"⟩),
   ("notation_style", ⟨"notation", "notation_style_id"⟩),
   ("segment", ⟨"segment", "segment_id"⟩),
   ("source_status", ⟨"source_status", "source_status_id"⟩),
   ("indexers", ⟨"indexer", "indexers"⟩),
   ("editors", ⟨"indexer", "editors"⟩),
   ("proofreaders", ⟨"indexer", "proofreaders"⟩)]

def Schema.catalogue : Schema :=
  ⟨catalogueFields ++ catalogueCrossRefs.map fun (_, ref) => ref.idField, catalogueCrossRefs⟩

end ChantSearch
