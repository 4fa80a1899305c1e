import HebrewCorpus.Overlay.Label
import Mathlib.Data.List.Nodup

/-! # Addresses that count up

The parts of a node without addresses of their own are addressed by counting: one step for each
part from a base on, and none for an address that is skipped. So the address of a part says how many
parts and how many skipped addresses are before it, and is the only number that does.

* **`passedOver`**: how many skipped addresses lie between two numbers.
* **`PartAddress`**: the address of a part, by what is before it; `PartAddress.lt_iff` compares two.
* **`countUp`**: the steps of the count.
* **`OverlayItem.addressAt_of_base`**: the address of a part that counts from a base. -/

namespace HebrewCorpus

/-! ### Skipped addresses -/

/-- **How many skipped addresses are after `base`** and not after a value. -/
def passedOver (skipped : List Int) (base value : Int) : Nat :=
  skipped.countP fun s => base < s ∧ s ≤ value

/-- One more number is counted as often as it occurs. -/
theorem countP_eq_add_count {p q : Int → Prop} [DecidablePred p] [DecidablePred q] {n : Int}
    (hn : ¬ q n) (h : ∀ s, p s ↔ q s ∨ s = n) (ns : List Int) :
    ns.countP (fun s => p s) = ns.countP (fun s => q s) + ns.count n := by
  induction ns with
  | nil => rfl
  | cons s ns ih =>
    have hp := h s
    rw [List.countP_cons, List.countP_cons, List.count_cons, ih]
    by_cases hs : s = n
    · subst hs
      simp only [hn, or_true, iff_true] at hp
      simp [hn, hp, Nat.add_assoc]
    · simp only [hs, or_false] at hp
      simp [hs, hp, Nat.add_right_comm]

section PassedOver

variable {skipped : List Int} {base value : Int}

/-- Nothing is between a number and itself. -/
@[simp] theorem passedOver_self (skipped : List Int) (base : Int) :
    passedOver skipped base base = 0 := by
  rw [passedOver, List.countP_eq_zero]
  intro s _
  simp

/-- The next number is passed over as well if it is skipped. -/
theorem passedOver_succ (h : base ≤ value) : passedOver skipped base (value + 1) =
    passedOver skipped base value + skipped.count (value + 1) :=
  countP_eq_add_count (by omega) (fun s => by omega) skipped

/-- The number after the base is passed over if it is skipped. -/
theorem passedOver_base (h : base < value) : passedOver skipped base value =
    passedOver skipped (base + 1) value + skipped.count (base + 1) :=
  countP_eq_add_count (by omega) (fun s => by omega) skipped

/-- Where no address is skipped twice, one step passes over one address at most. -/
theorem passedOver_add_le (hnodup : skipped.Nodup) (h : base ≤ value) (n : Nat) :
    passedOver skipped base (value + n) ≤ passedOver skipped base value + n := by
  induction n with
  | zero => simp
  | succ n ih =>
    have hone := List.nodup_iff_count_le_one.1 hnodup (value + n + 1)
    rw [Int.natCast_succ, ← Int.add_assoc, passedOver_succ (by omega)]
    omega

/-- **A step that is not skipped passes over nothing.** -/
theorem passedOver_lt (hnodup : skipped.Nodup) (h : base ≤ value) {later : Int}
    (hlt : value < later) (hkept : later ∉ skipped) :
    passedOver skipped base later + value < passedOver skipped base value + later := by
  obtain ⟨n, rfl⟩ : ∃ n : Nat, later = value + n + 1 := ⟨(later - value - 1).toNat, by omega⟩
  have hle := passedOver_add_le hnodup h n
  rw [passedOver_succ (by omega), List.count_eq_zero.2 hkept]
  omega

end PassedOver

/-! ### Addresses -/

/-- **The address of part `k`** when addresses count up from a base: one after the base, the parts
before it, and the skipped addresses that are passed over. -/
structure PartAddress (skipped : List Int) (base : Int) (k : Nat) (value : Int) : Prop where
  after : base < value
  kept : value ∉ skipped
  place : value = base + 1 + k + passedOver skipped base value

namespace PartAddress

variable {skipped : List Int} {base u v : Int} {j k : Nat}

/-- The part before a later address is an earlier part. -/
theorem lt_of_lt (hnodup : skipped.Nodup) (hu : PartAddress skipped base j u)
    (hv : PartAddress skipped base k v) (h : u < v) : j < k := by
  have hgap := passedOver_lt hnodup (Int.le_of_lt hu.after) h hv.kept
  have hu := hu.place
  have hv := hv.place
  omega

/-- **Later parts have greater addresses.** -/
theorem lt_iff (hnodup : skipped.Nodup) (hu : PartAddress skipped base j u)
    (hv : PartAddress skipped base k v) : u < v ↔ j < k := by
  refine ⟨hu.lt_of_lt hnodup hv, fun h => ?_⟩
  rcases Int.lt_trichotomy u v with hlt | rfl | hgt
  · exact hlt
  · have hu := hu.place
    have hv := hv.place
    omega
  · exact absurd (hv.lt_of_lt hnodup hu hgt) (by omega)

/-- **A part has one address.** -/
theorem unique (hnodup : skipped.Nodup) (hu : PartAddress skipped base k u)
    (hv : PartAddress skipped base k v) : u = v := by
  have huv := hu.lt_iff hnodup hv
  have hvu := hv.lt_iff hnodup hu
  omega

/-- **A number that is not skipped is the address of an earlier part.** -/
theorem exists_of_lt (hnodup : skipped.Nodup) (hv : PartAddress skipped base k v)
    (hafter : base < u) (hlt : u < v) (hkept : u ∉ skipped) :
    ∃ j < k, PartAddress skipped base j u := by
  -- fewer addresses are skipped than there are numbers up to this one
  have hgap := passedOver_lt hnodup (Int.le_refl base) hafter hkept
  rw [passedOver_self] at hgap
  have hu : PartAddress skipped base (u - base - 1 - passedOver skipped base u).toNat u :=
    ⟨hafter, hkept, by omega⟩
  exact ⟨_, hu.lt_of_lt hnodup hv hlt, hu⟩

end PartAddress

/-! ### Counting -/

/-- Past a skipped address fewer of them are ahead. -/
theorem countP_lt_of_mem {skipped : List Int} {n : Int} (h : n + 1 ∈ skipped) :
    skipped.countP (n + 1 < ·) < skipped.countP (n < ·) := by
  have hahead : skipped.countP (n < ·) = skipped.countP (n + 1 < ·) + skipped.count (n + 1) :=
    countP_eq_add_count (by omega) (fun s => by omega) skipped
  have hpos := List.count_pos_iff.2 h
  omega

/-- **The count in single steps**: the next number is passed over when it is skipped, and is else
the address when no more parts are before it. -/
def countUp (skipped : List Int) (current : Int) (parts : Nat) : Int :=
  if current + 1 ∈ skipped then countUp skipped (current + 1) parts
  else
    match parts with
    | 0 => current + 1
    | parts + 1 => countUp skipped (current + 1) parts
termination_by (parts, skipped.countP (current < ·))
decreasing_by
  · next h => exact Prod.Lex.right _ (countP_lt_of_mem h)
  · exact Prod.Lex.left _ _ (Nat.lt_succ_self _)

/-- **The count ends at the address of the part.** -/
theorem partAddress_countUp {skipped : List Int} (hnodup : skipped.Nodup) (base : Int) (k : Nat) :
    PartAddress skipped base k (countUp skipped base k) := by
  fun_induction countUp skipped base k with
  | case1 base k hskip ih =>
    have hone : skipped.count (base + 1) = 1 := List.count_eq_one_of_mem hnodup hskip
    have hafter := ih.after
    have hplace := ih.place
    refine ⟨by omega, ih.kept, ?_⟩
    rw [passedOver_base (by omega), hone]
    omega
  | case2 base hkept =>
    refine ⟨by omega, hkept, ?_⟩
    rw [passedOver_base (by omega), passedOver_self, List.count_eq_zero.2 hkept]
    omega
  | case3 base hkept k ih =>
    have hafter := ih.after
    have hplace := ih.place
    refine ⟨by omega, ih.kept, ?_⟩
    rw [passedOver_base (by omega), List.count_eq_zero.2 hkept]
    omega

/-- What a number moved up past ascending skipped ones comes to. -/
theorem skipPast_spec {skipped : List Int} (h : skipped.Pairwise (· < ·)) (value : Int) :
    value ≤ skipPast value skipped ∧ skipPast value skipped ∉ skipped ∧
      skipPast value skipped = value + skipped.countP (· ≤ skipPast value skipped) := by
  induction skipped generalizing value with
  | nil => exact ⟨Int.le_refl _, List.not_mem_nil, (Int.add_zero _).symm⟩
  | cons s skipped ih =>
    obtain ⟨hfirst, hrest⟩ := List.pairwise_cons.1 h
    unfold skipPast
    split
    · next hle =>
      obtain ⟨hge, hnot, hcount⟩ := ih hrest (value + 1)
      have hs : s ≤ skipPast (value + 1) skipped := by omega
      refine ⟨by omega, ?_, ?_⟩
      · rw [List.mem_cons, not_or]
        exact ⟨by omega, hnot⟩
      · rw [List.countP_cons_of_pos (by simpa using hs)]
        omega
    · next hlt =>
      -- the first skipped number is after the value, and so are all others
      have hlater : ∀ t ∈ s :: skipped, value < t := by
        intro t ht
        rcases List.mem_cons.1 ht with rfl | ht
        · omega
        · have := hfirst t ht
          omega
      refine ⟨Int.le_refl _, fun hmem => Int.lt_irrefl _ (hlater _ hmem), ?_⟩
      have hzero : (s :: skipped).countP (· ≤ value) = 0 := by
        rw [List.countP_eq_zero]
        intro t ht
        simpa using hlater t ht
      rw [hzero]
      omega

namespace OverlayItem

section Address

variable {i : OverlayItem} {base : Int} {k : Nat}

/-- **The walk goes to the address of the part.** -/
theorem partAddress_walk (i : OverlayItem) (base : Int) (k : Nat) :
    PartAddress i.skipped.numbers base k (i.walk base k) := by
  obtain ⟨hge, hnot, hcount⟩ :=
    skipPast_spec (i.skipped.ascends.filter (base < ·)) (base + 1 + k)
  rw [← OverlayItem.walk] at hge hnot hcount
  refine ⟨by omega, fun hmem => hnot (List.mem_filter.2 ⟨hmem, ?_⟩), ?_⟩
  · simp only [decide_eq_true_eq]
    omega
  · rw [List.countP_filter] at hcount
    rw [passedOver]
    simp only [Bool.decide_and, Bool.and_comm] at hcount ⊢
    exact hcount

/-- A part without an address of its own has the one that counts up from the base. -/
theorem addressAt_eq_walk (hbase : i.base = .ok (some base)) (hnonneg : 0 ≤ base)
    (hk : i.addresses.length ≤ k) : i.addressAt k = .ok (some (i.walk base k)) := by
  rw [addressAt, List.getElem?_eq_none hk, hbase]
  simp [Except.map, hnonneg]

/-- Addresses count up from the offset, or from before the starting position. -/
theorem base_eq_of_start (h : i.offset = some base ∨
    i.offset = none ∧ i.startingPosition = .ok (some (base + 1))) : i.base = .ok (some base) := by
  rcases h with h | ⟨h, hstart⟩
  · rw [OverlayItem.base, h]
  · rw [OverlayItem.base, h, hstart]
    simp [Except.map]

/-- **The address of a part that counts from a base.** With the offset of the node as the base, or
the number before its starting position, a part behind those with addresses of their own has the one
address that has the right number of parts and skipped addresses before it, and single steps come to
it. Later parts have greater addresses; and when no part has an address of its own, every number
between the base and the address is skipped or the address of an earlier part. -/
theorem addressAt_of_base (hbase : i.offset = some base ∨
      i.offset = none ∧ i.startingPosition = .ok (some (base + 1)))
    (hnonneg : 0 ≤ base) (hk : i.addresses.length ≤ k) :
    ∃ v, i.addressAt k = .ok (some v) ∧ countUp i.skipped.numbers base k = v ∧
      PartAddress i.skipped.numbers base k v ∧ (∀ u, PartAddress i.skipped.numbers base k u → u = v) ∧
      (∀ j u, i.addresses.length ≤ j → i.addressAt j = .ok (some u) → (u < v ↔ j < k)) ∧
      (i.addresses = [] → ∀ u, base < u → u < v →
        u ∈ i.skipped.numbers ∨ ∃ j < k, i.addressAt j = .ok (some u)) := by
  have haddress (j : Nat) (hj : i.addresses.length ≤ j) :
      i.addressAt j = .ok (some (i.walk base j)) :=
    addressAt_eq_walk (base_eq_of_start hbase) hnonneg hj
  have hwalk := i.partAddress_walk base
  have hnodup := i.skipped.nodup
  refine ⟨i.walk base k, haddress k hk,
    (partAddress_countUp hnodup base k).unique hnodup (hwalk k), hwalk k,
    fun u hu => hu.unique hnodup (hwalk k), ?_, ?_⟩
  · intro j u hj hu
    rw [haddress j hj] at hu
    obtain rfl := Option.some.inj (Except.ok.inj hu)
    exact (hwalk j).lt_iff hnodup (hwalk k)
  · intro hnone u hafter hlt
    refine or_iff_not_imp_left.2 fun hkept => ?_
    obtain ⟨j, hj, hu⟩ := (hwalk k).exists_of_lt hnodup hafter hlt hkept
    refine ⟨j, hj, ?_⟩
    rw [haddress j (by rw [hnone]; exact Nat.zero_le j), hu.unique hnodup (hwalk j)]

end Address

/-- A node whose first part is on the number 2, and of whose skipped addresses some are before it,
some are neighbours and one is far behind. -/
def skippingItem : OverlayItem where
  title := none
  heTitle := none
  wholeRef := none
  refs := []
  addressTypes := []
  childLabel := none
  addresses := []
  skipped := ascending [7, -3, 1, 40, 3, 4, 3]
  startingAddress := some "2".toList
  offset := none

/-- Its parts have the addresses 2, 5, 6 and 8. -/
theorem addressAt_of_base_skipping :
    skippingItem.offset = none ∧
      skippingItem.startingPosition = .ok (some 2) ∧
      skippingItem.addressAt 3 = .ok (some 8) ∧ countUp skippingItem.skipped.numbers 1 3 = 8 ∧
      PartAddress skippingItem.skipped.numbers 1 3 8 ∧
      (∀ j u, skippingItem.addressAt j = .ok (some u) → (u < 8 ↔ j < 3)) ∧
      ∀ u, 1 < u → u < 8 → u ∈ skippingItem.skipped.numbers ∨
        ∃ j < 3, skippingItem.addressAt j = .ok (some u) := by
  have hstart : skippingItem.startingPosition = .ok (some 2) := by decide +kernel
  have hthird : skippingItem.addressAt 3 = .ok (some 8) := by decide +kernel
  obtain ⟨v, haddress, hcount, hplace, -, hlt, hbetween⟩ :=
    addressAt_of_base (.inr ⟨rfl, hstart⟩) (by decide : (0 : Int) ≤ 1) (Nat.zero_le 3)
  obtain rfl : 8 = v := by
    rw [hthird] at haddress
    exact Option.some.inj (Except.ok.inj haddress)
  exact ⟨rfl, hstart, hthird, hcount, hplace, fun j u => hlt j u (Nat.zero_le j),
    hbetween rfl⟩

end OverlayItem

end HebrewCorpus
