import HebrewCorpus.Link.Basic
import HebrewCorpus.Overlay.Record
import HebrewCorpus.Schema.Record

/-! # Documents

A document is a book before its import: its schema, its content, and what else is known of it.

* **`Document`**: a book to be imported.
* **`Document.titles`**: the titles by which citations may name it.
* **`Document.isBaseText`**: whether other books depend on it rather than it on others.
* **`Document.ofJson`**: the document of a record. -/

namespace HebrewCorpus

/-- **A book to be imported.** -/
structure Document where
  titleEn : Text
  titleHe : Text
  categories : List Text
  schema : SchemaNode
  content : Json
  overlays : List Overlay
  authors : List Text
  /-- How the book depends on another one, when it is a commentary or a targum. -/
  dependence : Option LinkKind
  /-- Whether the book is a base text, when that is said. -/
  isBase : Option Bool
  deriving Repr

namespace Document

/-- The titles by which citations may name the book. -/
def titles (d : Document) : List Text := [d.titleEn, d.titleHe].filter (!Text.isBlank ·)

/-- Whether the book is a base text: as it says itself, else when it depends on no other. -/
def isBaseText (d : Document) : Bool := d.isBase.getD d.dependence.isNone

/-- **The document of a record.** -/
def ofJson : Json → Checked Document :=
  readRecord fun fields => do
    let (titleEn, titleHe, categories, schema, overlays, authors, dependence, isBase) ←
      (fields.required "title_en" readText).zip
        ((fields.withDefault "title_he" readText []).zip
          ((fields.withDefault "categories" (readList readText) []).zip
            ((fields.required "schema_node" SchemaNode.ofJson).zip
              ((fields.withDefault "alt_structures" (readList Overlay.ofJson) []).zip
                ((fields.withDefault "authors" (readList readText) []).zip
                  ((fields.withDefault "dependence" (readOptional LinkKind.ofJson) none).zip
                    (fields.withDefault "is_base_book" (readOptional readTruth) none)))))))
    let content := (fields.lookup "content".toList).getD .null
    return { titleEn, titleHe, categories, schema, content, overlays, authors, dependence, isBase }

end Document

end HebrewCorpus
