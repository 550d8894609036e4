import ChantSearch.Json.Record
import ChantSearch.Schema.Basic

/-!
# Schemas as JSON

A schema is a record of its fields, an array of names, and its cross-references, an object
with a record for every name. Of cross-references with equal names the last one stays.
-/

namespace ChantSearch

open Json (Reader)

/-- A cross-reference that is partly read. -/
structure PartialCrossRef where
  resourceType? : Option String
  idField? : Option String

def readCrossRef : Reader CrossRef := do
  let s ← Reader.record
    [Reader.slot "resource_type" PartialCrossRef.resourceType?
       (fun s t => { s with resourceType? := some t }) Reader.text,
     Reader.slot "id_field" PartialCrossRef.idField?
       (fun s t => { s with idField? := some t }) Reader.text]
    ⟨none, none⟩
  pure ⟨← Reader.demand s.resourceType?, ← Reader.demand s.idField?⟩

/-- A schema that is partly read. -/
structure PartialSchema where
  fields? : Option (List String)
  crossRefs? : Option (List (String × CrossRef))

def readSchema : Reader Schema := do
  let s ← Reader.record
    [Reader.slot "fields" PartialSchema.fields?
       (fun s fields => { s with fields? := some fields })
       (do Reader.expect 0x5b; Reader.items Reader.text),
     Reader.slot "xrefs" PartialSchema.crossRefs?
       (fun s refs => { s with crossRefs? := some refs })
       (do Reader.expect 0x7b; Reader.members readCrossRef)]
    ⟨none, none⟩
  pure ⟨← Reader.demand s.fields?, ← Reader.demand s.crossRefs?⟩

def Schema.parse (input : String) : Option Schema :=
  readSchema.run? input.toUTF8.toList

end ChantSearch
