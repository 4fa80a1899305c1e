import HebrewCorpus.Book.Outline
import HebrewCorpus.Link.Basic
import HebrewCorpus.Overlay.Tree

/-! # Deliveries

An import hands over what it makes piece by piece.

* **`BookRecord`**: a book as it is handed over.
* **`Delivery`**: one piece. -/

namespace HebrewCorpus

/-- **A book as it is handed over.** -/
structure BookRecord where
  id : Int
  title : Text
  titleEn : Text
  categories : List Text
  authors : List Text
  isBase : Bool
  lineCount : Int
  hasOverlays : Bool
  deriving DecidableEq, Repr

/-- **One piece of what an import makes.** -/
inductive Delivery
  | book (record : BookRecord)
  | lines (lines : List Line)
  | outline (outline : Outline)
  | overlay (tree : OverlayTree)
  | links (links : List Link)
  /-- Whether a book that was handed over before has overlays. -/
  | overlayMark (book : Int) (value : Bool)
  deriving DecidableEq, Repr

end HebrewCorpus
