import AudienceFilter.FilterQuery

/-!
# Query definitions

The result of a conversion: a main query, and filter queries in the order of their texts, each
text once.

* `mem_filterTexts_make`: no text is lost.
-/

namespace AudienceFilter

/-- A main query with the filter queries that narrow it down. -/
structure Definition where
  mainQuery : String
  filterQueries : List FilterQuery
  uniqueKeyField : String
deriving DecidableEq, Repr

namespace Definition

/-- The query for all documents. -/
def allDocuments : String := "*:*"

/-- Sorts the filter queries by their texts and keeps the first of those with the same text. -/
def make (mainQuery : String) (queries : List FilterQuery) (uniqueKeyField : String) :
    Definition where
  mainQuery := mainQuery
  filterQueries := Sorted.dedupBy (fun a b => a.text == b.text)
    (Sorted.sortBy (fun a b => (compare a.text b.text).isLE) queries)
  uniqueKeyField := uniqueKeyField

/-- The texts of the filter queries. -/
def filterTexts (d : Definition) : List String := d.filterQueries.map FilterQuery.text

/-- Sorting and dropping duplicates loses no text. -/
theorem mem_filterTexts_make {mainQuery uniqueKeyField : String} {queries : List FilterQuery}
    {text : String} : text ∈ (make mainQuery queries uniqueKeyField).filterTexts ↔
      text ∈ queries.map FilterQuery.text := by
  rw [filterTexts, make, Sorted.mem_map_dedupBy]
  simp only [List.mem_map, Sorted.mem_sortBy]

/-- Whether two definitions ask the same: their filter queries have the same texts. -/
def same (a b : Definition) : Bool :=
  a.mainQuery == b.mainQuery && a.filterTexts == b.filterTexts &&
    a.uniqueKeyField == b.uniqueKeyField

/-- The definition as request parameters, one a line. -/
def text (d : Definition) : String :=
  String.intercalate "\n" (("q=" ++ d.mainQuery) :: d.filterTexts.map ("fq=" ++ ·))

end Definition

end AudienceFilter
