import HebrewCorpus.Book.Content
import HebrewCorpus.Book.Flat
import HebrewCorpus.Book.Flatten
import HebrewCorpus.Book.LineMap
import HebrewCorpus.Book.Outline
import HebrewCorpus.Citation.Basic
import HebrewCorpus.Citation.Canonical
import HebrewCorpus.Citation.Index
import HebrewCorpus.Citation.Resolve
import HebrewCorpus.Corpus.FileTree
import HebrewCorpus.Corpus.LinkFile
import HebrewCorpus.Corpus.Machine
import HebrewCorpus.Corpus.Reader
import HebrewCorpus.Csv.Reader
import HebrewCorpus.Import.Batch
import HebrewCorpus.Import.Corpus
import HebrewCorpus.Import.Counters
import HebrewCorpus.Import.Document
import HebrewCorpus.Import.Progress
import HebrewCorpus.Import.Run
import HebrewCorpus.Json.Basic
import HebrewCorpus.Json.Binary64
import HebrewCorpus.Json.Display
import HebrewCorpus.Json.Reader
import HebrewCorpus.Json.Writer
import HebrewCorpus.Link.Basic
import HebrewCorpus.Link.Resolve
import HebrewCorpus.Numeral.Daf
import HebrewCorpus.Numeral.Decimal
import HebrewCorpus.Numeral.Gematria
import HebrewCorpus.Overlay.Branch
import HebrewCorpus.Overlay.Label
import HebrewCorpus.Overlay.Node
import HebrewCorpus.Overlay.Record
import HebrewCorpus.Overlay.Source
import HebrewCorpus.Overlay.Tree
import HebrewCorpus.Proofs.Text.LowerCase
import HebrewCorpus.Proofs.Text.Words
import HebrewCorpus.Record.Fault
import HebrewCorpus.Record.Field
import HebrewCorpus.Schema.AddressKind
import HebrewCorpus.Schema.Node
import HebrewCorpus.Schema.Record
import HebrewCorpus.Schema.Source
import HebrewCorpus.Settings.Basic
import HebrewCorpus.Settings.Record
import HebrewCorpus.Store.Collection
import HebrewCorpus.Store.Database
import HebrewCorpus.Store.Delivery
import HebrewCorpus.Store.Row
import HebrewCorpus.Store.Table
import HebrewCorpus.Text.Basic
import HebrewCorpus.Text.Blank
import HebrewCorpus.Text.Digit
import HebrewCorpus.Text.Encoding
import HebrewCorpus.Text.LowerCase
import HebrewCorpus.Text.LowerCase.Table
import HebrewCorpus.Text.Order
import HebrewCorpus.Text.Printable
import HebrewCorpus.Proofs.Citation.Canonical
import HebrewCorpus.Proofs.Numeral.Gematria
import HebrewCorpus.Proofs.Schema.Labels
import HebrewCorpus.Proofs.Book.Flat
import HebrewCorpus.Proofs.Book.Places
import HebrewCorpus.Proofs.Citation.Lookup
import HebrewCorpus.Proofs.Citation.PlaceKeys
import HebrewCorpus.Proofs.Citation.SourceBook
import HebrewCorpus.Proofs.Citation.OwnReference
import HebrewCorpus.Proofs.Citation.AddressKeys
import HebrewCorpus.Proofs.Citation.LeafResolution
import HebrewCorpus.Proofs.Book.LineMap
import HebrewCorpus.Proofs.Book.Outline
import HebrewCorpus.Proofs.Import.Books
import HebrewCorpus.Proofs.Import.Contents
import HebrewCorpus.Proofs.Import.Layout
import HebrewCorpus.Proofs.Import.Integrity
import HebrewCorpus.Proofs.Citation.Locality
import HebrewCorpus.Proofs.Overlay.Locality
import HebrewCorpus.Proofs.Import.Appending
import HebrewCorpus.Proofs.Link.Accounting
import HebrewCorpus.Proofs.Import.Accounting
import HebrewCorpus.Proofs.Overlay.Preorder
import HebrewCorpus.Proofs.Overlay.Draft
import HebrewCorpus.Proofs.Overlay.Sheet
import HebrewCorpus.Proofs.Overlay.Drafting
import HebrewCorpus.Proofs.Overlay.Walk
import HebrewCorpus.Proofs.Overlay.Written
import HebrewCorpus.Proofs.Overlay.Anchoring
import HebrewCorpus.Proofs.Citation.Registration
import HebrewCorpus.Proofs.Text.Digit
import HebrewCorpus.Proofs.Citation.Ranges
import HebrewCorpus.Proofs.Citation.HebrewKeys
import HebrewCorpus.Proofs.Citation.HebrewReference
import HebrewCorpus.Proofs.Corpus.SourceValues
import HebrewCorpus.Proofs.Record.Misuse
import HebrewCorpus.Proofs.Corpus.SchemaTable
import HebrewCorpus.Proofs.Corpus.Documents
import HebrewCorpus.Proofs.Corpus.Rewriting
import HebrewCorpus.Proofs.Corpus.Completeness
import HebrewCorpus.Proofs.Store.Changes
import HebrewCorpus.Proofs.Store.Mirror
import HebrewCorpus.Proofs.Store.Rows
import HebrewCorpus.Proofs.Json.Texts
import HebrewCorpus.Proofs.Store.Columns
import HebrewCorpus.Proofs.Import.Stored
import HebrewCorpus.Proofs.Import.BatchSizes
import HebrewCorpus.Proofs.Book.Leaf
import HebrewCorpus.Proofs.Book.Composition
import HebrewCorpus.Proofs.Book.LineStarts
import HebrewCorpus.Proofs.Book.Parents
import HebrewCorpus.Proofs.Book.Tree
import HebrewCorpus.Proofs.Book.References
import HebrewCorpus.Proofs.Link.Orientation
import HebrewCorpus.Proofs.Text.Trim
import HebrewCorpus.Proofs.Citation.RoundTrip
import HebrewCorpus.Proofs.Book.Walk
import HebrewCorpus.Proofs.Schema.Reading
import HebrewCorpus.Proofs.Import.Failures
import HebrewCorpus.Proofs.Book.Blanks
import HebrewCorpus.Proofs.Book.Alignment
import HebrewCorpus.Proofs.Citation.Depth
import HebrewCorpus.Proofs.Citation.Growth
import HebrewCorpus.Proofs.Citation.NormalForms
import HebrewCorpus.Proofs.Citation.Leeway
import HebrewCorpus.Proofs.Citation.Sections
import HebrewCorpus.Proofs.Citation.Points
import HebrewCorpus.Proofs.Citation.LongestTitle
import HebrewCorpus.Proofs.Citation.TitleOrder
import HebrewCorpus.Proofs.Book.Drawing
import HebrewCorpus.Proofs.Book.Anchors
import HebrewCorpus.Proofs.Overlay.Addresses
import HebrewCorpus.Proofs.Overlay.Neighbours
import HebrewCorpus.Proofs.Overlay.Origins
import HebrewCorpus.Proofs.Schema.Nodes
import HebrewCorpus.Proofs.Schema.Trimmed
import HebrewCorpus.Proofs.Schema.Fitting
import HebrewCorpus.Proofs.Schema.WrittenForm
import HebrewCorpus.Proofs.Text.LineEnds
import HebrewCorpus.Proofs.Text.Repair
import HebrewCorpus.Proofs.Csv.Written
import HebrewCorpus.Proofs.Corpus.LinkTable
import HebrewCorpus.Proofs.Import.Blocks
import HebrewCorpus.Proofs.Numeral.Reading
import HebrewCorpus.Proofs.Citation.PageSides
import HebrewCorpus.Proofs.Citation.Countdown
