import Mathlib.Algebra.BigOperators.Group.Finset.Basic
import Mathlib.Algebra.BigOperators.Group.Finset.Piecewise
import Mathlib.Algebra.Order.BigOperators.Group.Finset
import Mathlib.Order.Interval.Finset.Nat

/-!
Counts by owner, and counts of intervals.

Every member of a finite set has an owner and a count; the tally of an owner is the sum over its
members.

* `tally_congr`: what has no count may change its owner.
* `tally_succ`: one count and one tally go up, or down, together.
* `tally_eq_zero`: a tally without counts.
* `length_mul_le`: disjoint intervals of one length fill no more than the range they lie in.
-/

namespace Tally

variable {ι κ : Type*} [DecidableEq ι] [DecidableEq κ] {s : Finset ι} {owner owner' : ι → κ}
  {count count' : ι → ℕ} {i : ι}

/-- The sum of the counts of the members `k` owns. -/
def tally (s : Finset ι) (owner : ι → κ) (count : ι → ℕ) (k : κ) : ℕ :=
  ∑ i ∈ s with owner i = k, count i

omit [DecidableEq ι] in
lemma tally_eq_sum_ite (s : Finset ι) (owner : ι → κ) (count : ι → ℕ) (k : κ) :
    tally s owner count k = ∑ i ∈ s, if owner i = k then count i else 0 :=
  Finset.sum_filter _ _

omit [DecidableEq ι] in
/-- The same counts, under the same owners where they are not zero. -/
theorem tally_congr (hcount : ∀ i ∈ s, count' i = count i)
    (howner : ∀ i ∈ s, count i ≠ 0 → owner' i = owner i) (k : κ) :
    tally s owner' count' k = tally s owner count k := by
  rw [tally_eq_sum_ite, tally_eq_sum_ite]
  refine Finset.sum_congr rfl fun i hi => ?_
  rw [hcount i hi]
  by_cases h0 : count i = 0
  · simp [h0]
  · rw [howner i hi h0]

/-- One member's count goes up, and with it its owner's tally and no other. -/
theorem tally_succ (hi : i ∈ s) (hcount : count' i = count i + 1)
    (hrest : ∀ j ∈ s, j ≠ i → count' j = count j) (k : κ) :
    tally s owner count' k = tally s owner count k + if owner i = k then 1 else 0 := by
  rw [tally_eq_sum_ite, tally_eq_sum_ite, ← Finset.add_sum_erase s _ hi,
    ← Finset.add_sum_erase s (fun j => if owner j = k then count j else 0) hi]
  have herase : ∑ j ∈ s.erase i, (if owner j = k then count' j else 0) =
      ∑ j ∈ s.erase i, if owner j = k then count j else 0 := by
    refine Finset.sum_congr rfl fun j hj => ?_
    obtain ⟨hji, hjs⟩ := Finset.mem_erase.mp hj
    rw [hrest j hjs hji]
  rw [herase, hcount]
  split_ifs <;> omega

omit [DecidableEq ι] in
lemma tally_eq_zero {k : κ} :
    tally s owner count k = 0 ↔ ∀ i ∈ s, owner i = k → count i = 0 := by
  rw [tally, Finset.sum_eq_zero_iff]
  simp only [Finset.mem_filter, and_imp]

/-- Starts that are `w` apart, each with `w` places below `z`. -/
theorem length_mul_le {l : List ℕ} {w z : ℕ} (hnd : l.Nodup) (hin : ∀ x ∈ l, x + w ≤ z)
    (hap : ∀ x ∈ l, ∀ y ∈ l, x ≠ y → x + w ≤ y ∨ y + w ≤ x) : l.length * w ≤ z := by
  have hdisjoint : (l.toFinset : Set ℕ).PairwiseDisjoint fun x => Finset.Ico x (x + w) := by
    intro x hx y hy hne
    refine Finset.disjoint_left.mpr fun i hi hj => ?_
    rw [Finset.mem_Ico] at hi hj
    have hxy := hap x (by simpa using hx) y (by simpa using hy) hne
    omega
  have hsub : l.toFinset.biUnion (fun x => Finset.Ico x (x + w)) ⊆ Finset.range z := by
    intro i hi
    obtain ⟨x, hx, hi⟩ := Finset.mem_biUnion.mp hi
    have hend := hin x (List.mem_toFinset.mp hx)
    rw [Finset.mem_Ico] at hi
    exact Finset.mem_range.mpr (by omega)
  calc l.length * w
      = ∑ x ∈ l.toFinset, (Finset.Ico x (x + w)).card := by
        simp [List.toFinset_card_of_nodup hnd]
    _ = (l.toFinset.biUnion fun x => Finset.Ico x (x + w)).card :=
        (Finset.card_biUnion hdisjoint).symm
    _ ≤ z := (Finset.card_le_card hsub).trans_eq (Finset.card_range z)

end Tally
