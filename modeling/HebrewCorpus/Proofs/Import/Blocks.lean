import HebrewCorpus.Proofs.Import.Numbers

/-! # Blocks of numbers

Counters are asked for one block after the other, of any kinds and in any order; a book and an
overlay are blocks of one number. Between the blocks of a kind there may be any blocks of the others.

* **`IdCounters.handOut`**: the blocks that counters hand out, request by request.
* **`Adjoin`**: blocks one behind the other; `Tile` says what that means for their numbers.
* **`IdCounters.tile_handOut`**: the blocks of each kind tile what its counter has passed. -/

namespace HebrewCorpus

/-- **A block of neighbouring numbers** of one kind. -/
structure IdBlock where
  kind : IdKind
  first : Int
  count : Nat
  deriving DecidableEq, Repr

namespace IdBlock

/-- The numbers of a block. -/
def numbers (b : IdBlock) : List Int := numbersFrom b.first b.count

/-- The first number behind a block. -/
def behind (b : IdBlock) : Int := b.first + b.count

@[simp] theorem mem_numbers {b : IdBlock} {n : Int} : n ∈ b.numbers ↔ b.first ≤ n ∧ n < b.behind :=
  mem_numbersFrom

end IdBlock

namespace IdCounters

/-- **The blocks that counters hand out**, one for each request for a kind and a count, and the
counters after them. -/
def handOut (c : IdCounters) : (requests : List (IdKind × Nat)) → List IdBlock × IdCounters
  | [] => ([], c)
  | (kind, count) :: requests =>
    let (first, c) := c.take kind count
    let (blocks, c) := c.handOut requests
    (⟨kind, first, count⟩ :: blocks, c)

end IdCounters

/-- The blocks of a kind, in their order. -/
def blocksOf (kind : IdKind) (blocks : List IdBlock) : List IdBlock := blocks.filter (·.kind = kind)

/-- The requests for a kind, in their order. -/
def requestsOf (kind : IdKind) (requests : List (IdKind × Nat)) : List (IdKind × Nat) :=
  requests.filter (·.1 = kind)

/-! ### Blocks without gaps -/

/-- **Blocks one behind the other**, from one number up to another. -/
def Adjoin : (first : Int) → List IdBlock → (last : Int) → Prop
  | first, [], last => first = last
  | first, b :: blocks, last => b.first = first ∧ Adjoin b.behind blocks last

/-- **Blocks tile the numbers from one up to another**: they stand one behind the other, no number is
in two of them, and all numbers in between are in one. -/
structure Tile (first : Int) (blocks : List IdBlock) (last : Int) : Prop where
  adjoin : Adjoin first blocks last
  apart : blocks.Pairwise fun a b => ∀ n ∈ a.numbers, n ∉ b.numbers
  covered : ∀ n, (∃ b ∈ blocks, n ∈ b.numbers) ↔ first ≤ n ∧ n < last

namespace Adjoin

variable {first last : Int} {blocks : List IdBlock}

/-- Blocks lead upwards. -/
theorem le (h : Adjoin first blocks last) : first ≤ last := by
  induction blocks generalizing first with
  | nil => exact Int.le_of_eq h
  | cons b blocks ih =>
    obtain ⟨hfirst, hrest⟩ := h
    have hlast := ih hrest
    rw [IdBlock.behind] at hlast
    omega

/-- The numbers in blocks are all those from the first up to the last. -/
theorem covered (h : Adjoin first blocks last) (n : Int) :
    (∃ b ∈ blocks, n ∈ b.numbers) ↔ first ≤ n ∧ n < last := by
  induction blocks generalizing first with
  | nil =>
    obtain rfl : first = last := h
    simp only [List.not_mem_nil, false_and, exists_false, false_iff]
    omega
  | cons b blocks ih =>
    obtain ⟨hfirst, hrest⟩ := h
    have hlast := hrest.le
    have hcount : b.first ≤ b.behind := by
      rw [IdBlock.behind]
      omega
    simp only [List.mem_cons, exists_eq_or_imp]
    rw [ih hrest, IdBlock.mem_numbers]
    omega

/-- **Blocks one behind the other tile their numbers.** -/
theorem tile (h : Adjoin first blocks last) : Tile first blocks last := by
  refine ⟨h, ?_, h.covered⟩
  induction blocks generalizing first with
  | nil => exact .nil
  | cons b blocks ih =>
    obtain ⟨-, hrest⟩ := h
    refine .cons ?_ (ih hrest)
    -- what comes later starts behind the block
    intro later hlater n hn hn'
    have hbehind := ((hrest.covered n).1 ⟨later, hlater, hn'⟩).1
    have := (IdBlock.mem_numbers.1 hn).2
    omega

end Adjoin

/-! ### Requests -/

namespace IdCounters

variable (c : IdCounters) (kind other : IdKind) (count : Nat) (requests : List (IdKind × Nat))

/-- **A request for a kind** is answered by a block from its counter on. -/
theorem handOut_cons :
    c.handOut ((kind, count) :: requests) =
      (⟨kind, c.next kind, count⟩ :: ((c.advance count kind).handOut requests).1,
        ((c.advance count kind).handOut requests).2) :=
  rfl

/-- **The blocks of a kind stand one behind the other**, from where its counter was to where it is. -/
theorem adjoin_handOut :
    Adjoin (c.next kind) (blocksOf kind (c.handOut requests).1)
      ((c.handOut requests).2.next kind) := by
  induction requests generalizing c with
  | nil => exact rfl
  | cons request requests ih =>
    obtain ⟨asked, count⟩ := request
    have hrest := ih (c.advance count asked)
    rw [handOut_cons, blocksOf]
    by_cases h : asked = kind
    · subst h
      rw [next_advance_self] at hrest
      rw [List.filter_cons_of_pos (by simp)]
      exact ⟨rfl, hrest⟩
    · rw [next_advance_of_ne (Ne.symm h)] at hrest
      rw [List.filter_cons_of_neg (by simpa using h)]
      exact hrest

/-- Blocks are handed out by kind and count as they are asked for. -/
theorem map_handOut : (c.handOut requests).1.map (fun b => (b.kind, b.count)) = requests := by
  induction requests generalizing c with
  | nil => rfl
  | cons request requests ih =>
    rw [handOut_cons, List.map_cons, ih]

/-- **Requests for other kinds change nothing**: counters that agree on a kind hand out the same
blocks of it, whether the other requests are made or not. -/
theorem handOut_requestsOf {c' : IdCounters} (h : c'.next kind = c.next kind) :
    blocksOf kind (c.handOut requests).1 = (c'.handOut (requestsOf kind requests)).1 ∧
      (c.handOut requests).2.next kind = (c'.handOut (requestsOf kind requests)).2.next kind := by
  induction requests generalizing c c' with
  | nil => exact ⟨rfl, h.symm⟩
  | cons request requests ih =>
    obtain ⟨asked, count⟩ := request
    rw [handOut_cons, blocksOf, requestsOf]
    by_cases hk : asked = kind
    · subst hk
      have hnext : (c'.advance count asked).next asked = (c.advance count asked).next asked := by
        rw [next_advance_self, next_advance_self, h]
      obtain ⟨hblocks, hlast⟩ := ih (c.advance count asked) hnext
      rw [List.filter_cons_of_pos (by simp), List.filter_cons_of_pos (by simp), handOut_cons, h]
      exact ⟨congrArg _ hblocks, hlast⟩
    · have hnext : c'.next kind = (c.advance count asked).next kind := by
        rw [next_advance_of_ne (Ne.symm hk), h]
      rw [List.filter_cons_of_neg (by simpa using hk), List.filter_cons_of_neg (by simpa using hk)]
      exact ih (c.advance count asked) hnext

/-- **The blocks of each kind tile what its counter has passed.** From any counters on and for any
requests, each request for a kind is answered by a block with its count; the blocks of the kind stand
one behind the other, share no number, and hold all numbers from where the counter was to where it
is; and they are the same blocks as without the requests for other kinds. -/
theorem tile_handOut (c : IdCounters) (kind : IdKind) (requests : List (IdKind × Nat)) :
    (c.handOut requests).1.map (fun b => (b.kind, b.count)) = requests ∧
      Tile (c.next kind) (blocksOf kind (c.handOut requests).1) ((c.handOut requests).2.next kind) ∧
        blocksOf kind (c.handOut requests).1 = (c.handOut (requestsOf kind requests)).1 ∧
          (c.handOut requests).2.next kind = (c.handOut (requestsOf kind requests)).2.next kind :=
  ⟨c.map_handOut requests, (c.adjoin_handOut kind requests).tile,
    c.handOut_requestsOf kind requests rfl⟩

/-- Two books with their lines, the first without any. -/
example :
    (({} : IdCounters).handOut [(.book, 1), (.line, 0), (.book, 1), (.line, 3)]).1 =
      [⟨.book, 1, 1⟩, ⟨.line, 1, 0⟩, ⟨.book, 2, 1⟩, ⟨.line, 1, 3⟩] := by
  decide

end IdCounters

end HebrewCorpus
