import HebrewCorpus.Proofs.Import.Books

/-! # Links of an import

The third stage of an import delivers the links of one link file after the other.

* **`LinkContext.linksOf`**, **`LinkContext.reportOf`**: the links of a file, and what is counted of
  it.
* **`Progress.withLinks`**: an import after some more link files; `deliverAllLinks_never` is the
  whole stage. -/

namespace HebrewCorpus

/-- A link file, if it could be read. -/
abbrev LinkFile := Option (List RawLink)

namespace LinkContext

variable (ctx : LinkContext)

/-- The links of a file. -/
def linksOf (file : LinkFile) : List Link := (file.map fun raws => (ctx.resolveAll raws).1).getD []

/-- **What is delivered of a file.** -/
def deliveriesOf (linkBatch : Int) (file : LinkFile) : List Delivery :=
  (file.map fun raws => (pieces linkBatch (ctx.resolveAll raws).1).map Delivery.links).getD []

/-- The tally of some files. -/
def tallyOf : List LinkFile → LinkTally
  | [] => .empty
  | file :: rest => ((file.map fun raws => (ctx.resolveAll raws).2).getD .empty).merge (tallyOf rest)

/-- The number of files that could not be read. -/
def unreadable (files : List LinkFile) : Nat := files.countP (·.isNone)

end LinkContext

/-- **The progress after some more link files.** -/
def Progress.withLinks (linkBatch : Int) (ctx : LinkContext) (files : List LinkFile) (p : Progress) :
    Progress :=
  { p with
    deliveries := p.deliveries ++ files.flatMap (ctx.deliveriesOf linkBatch)
    report := { p.report with
      links := p.report.links.merge (ctx.tallyOf files)
      linkFilesFailed := p.report.linkFilesFailed + LinkContext.unreadable files } }

section Stage

variable {linkBatch : Int} (ctx : LinkContext)

/-- No files change nothing. -/
theorem Progress.withLinks_nil (p : Progress) : p.withLinks linkBatch ctx [] = p := by
  simp [Progress.withLinks, LinkContext.tallyOf, LinkContext.unreadable]

/-- **Files come one after the other.** -/
theorem Progress.withLinks_cons (file : LinkFile) (files : List LinkFile) (p : Progress) :
    (p.withLinks linkBatch ctx [file]).withLinks linkBatch ctx files =
      p.withLinks linkBatch ctx (file :: files) := by
  simp [Progress.withLinks, LinkContext.tallyOf, LinkContext.unreadable, LinkTally.merge_assoc,
    List.countP_cons, Nat.add_comm, Nat.add_left_comm]

/-- **One file is delivered**, unless its links are to be handed over in empty batches. -/
theorem deliverLinks_eq_ok (hbatch : linkBatch ≠ 0) (file : LinkFile) (p : Progress) :
    deliverLinks linkBatch ctx file p = .ok (p.withLinks linkBatch ctx [file]) := by
  cases file with
  | none =>
    simp [deliverLinks, Progress.withLinks, LinkContext.deliveriesOf, LinkContext.tallyOf,
      LinkContext.unreadable]
  | some raws =>
    rw [deliverLinks]
    dsimp only
    rw [batches_eq_ok hbatch]
    simp [Progress.withLinks, LinkContext.deliveriesOf, LinkContext.tallyOf, LinkContext.unreadable,
      bind, Except.bind, pure, Except.pure]

/-- A file that is delivered is delivered in these batches. -/
theorem withLinks_of_deliverLinks {file : LinkFile} {p p' : Progress}
    (h : deliverLinks linkBatch ctx file p = .ok p') : p' = p.withLinks linkBatch ctx [file] := by
  by_cases hbatch : linkBatch = 0
  · subst hbatch
    cases file with
    | none =>
      -- what cannot be read needs no batches
      have hone : deliverLinks 0 ctx none p = deliverLinks 1 ctx none p := rfl
      rw [hone, deliverLinks_eq_ok ctx Int.one_ne_zero] at h
      exact (Except.ok.inj h).symm
    | some raws =>
      simp [deliverLinks, batches, bind, Except.bind] at h
  · rw [deliverLinks_eq_ok ctx hbatch] at h
    exact (Except.ok.inj h).symm

/-- **All files are delivered**, one after the other. -/
theorem deliverAllLinks_never (hbatch : linkBatch ≠ 0) (files : List LinkFile) (p : Progress) :
    deliverAllLinks linkBatch ctx .never p files = .ok (p.withLinks linkBatch ctx files) := by
  induction files generalizing p with
  | nil => exact congrArg Except.ok (p.withLinks_nil ctx).symm
  | cons file files ih =>
    rw [deliverAllLinks, if_neg (by simp [Halt.never]), deliverLinks_eq_ok ctx hbatch]
    dsimp only [bind, Except.bind]
    rw [ih, Progress.withLinks_cons]

/-- Files that are delivered are delivered one after the other. -/
theorem withLinks_of_deliverAllLinks {files : List LinkFile} {p p' : Progress}
    (h : deliverAllLinks linkBatch ctx .never p files = .ok p') :
    p' = p.withLinks linkBatch ctx files := by
  induction files generalizing p with
  | nil => exact (Except.ok.inj h).symm.trans (p.withLinks_nil ctx).symm
  | cons file files ih =>
    rw [deliverAllLinks, if_neg (by simp [Halt.never])] at h
    obtain ⟨q, hq, h⟩ := exists_of_bind_eq_ok h
    rw [ih h, withLinks_of_deliverLinks ctx hq, Progress.withLinks_cons]

end Stage

end HebrewCorpus
