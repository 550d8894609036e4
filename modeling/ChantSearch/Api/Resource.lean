/-!
# Resources

The types of record that can be searched, each under a path of its own.
-/

namespace ChantSearch.Api

/-- A type of record: the word for many of them in paths, and its name in the index. -/
structure Resource where
  plural : String
  typeName : String
  deriving DecidableEq, Repr

namespace Resource

def everything : Resource := ⟨"browse", "*"⟩

def all : List Resource :=
  [⟨"centuries", "century"⟩,
   ⟨"chants", "chant"⟩,
   ⟨"feasts", "feast"⟩,
   ⟨"genres", "genre"⟩,
   ⟨"indexers", "indexer"⟩,
   ⟨"notations", "notation"⟩,
   ⟨"offices", "office"⟩,
   ⟨"portfolia", "portfolio"⟩,
   ⟨"provenances", "provenance"⟩,
   ⟨"sigla", "siglum"⟩,
   ⟨"segments", "segment"⟩,
   ⟨"sources", "source"⟩,
   ⟨"statii", "source_status"⟩]

def ofPlural? (plural : String) : Option Resource :=
  (everything :: all).find? (·.plural == plural)

def url (resource : Resource) : String :=
  s!"/{resource.plural}/"

end Resource

end ChantSearch.Api
