import PondMerge.Model.Widths
import PondMerge.Operations.Moves

/-!
`move_block` in the widths of the source is `memmove`.

* `copyBytes_disjoint`: a byte loop is a `memcpy`, good on disjoint ranges only.
* `moveBlockW_eq_moveBlock`: for ranges of the address space no sum wraps, and the disjoint
  ranges are those `memcpy` is given.
* `moveBlockW_eq`: whatever the overlap and the alignment, the memory is the one `memmove`
  leaves.
-/

namespace PondMerge

open ByteMemory

/-! ### `memcpy` -/

/-- What the library promises of `memcpy`: it copies between disjoint ranges. -/
def CopiesDisjoint (memcpy : Mem → ℕ → ℕ → ℕ → Mem) : Prop :=
  ∀ m dst src n, dst + n ≤ src ∨ src + n ≤ dst → memcpy m dst src n = memmove m dst src n

/-- The bytes in ascending order, one after the other. -/
def copyBytes (m : Mem) (dst src : ℕ) : ℕ → Mem
  | 0 => m
  | k + 1 => Function.update (copyBytes m dst src k) (dst + k) (copyBytes m dst src k (src + k))

/-- The byte loop on disjoint ranges, after `k` bytes. -/
lemma copyBytes_apply (m : Mem) {dst src n : ℕ} (h : dst + n ≤ src ∨ src + n ≤ dst) {k : ℕ}
    (hk : k ≤ n) (x : ℕ) : copyBytes m dst src k x =
      if dst ≤ x ∧ x < dst + k then m (src + (x - dst)) else m x := by
  induction k generalizing x with
  | zero => rw [copyBytes, if_neg (by omega)]
  | succ k ih =>
      have hread : copyBytes m dst src k (src + k) = m (src + k) := by
        rw [ih (by omega), if_neg (by omega)]
      rw [copyBytes, hread]
      by_cases hx : x = dst + k
      · rw [hx, Function.update_self, if_pos (by omega)]
        congr 1
        omega
      · rw [Function.update_of_ne hx, ih (by omega)]
        refine if_congr ?_ rfl rfl
        omega

lemma copyBytes_disjoint : CopiesDisjoint copyBytes := fun m _ _ _ h =>
  funext fun x => copyBytes_apply m h le_rfl x

/-! ### `move_block` -/

/-- Ranges that end below the top of the address space are told apart by the wrapping sums,
and `memcpy` is given disjoint ones only. -/
lemma moveBlockW_eq_moveBlock {w : ℕ} {memcpy : Mem → ℕ → ℕ → ℕ → Mem}
    (hcpy : CopiesDisjoint memcpy) (m : Mem) {dst src size : ℕ} (hdst : dst + size < 2 ^ w)
    (hsrc : src + size < 2 ^ w) :
    moveBlockW w memcpy m dst src size = moveBlock m dst src size := by
  have hsize : size % 2 ^ w = size := Nat.mod_eq_of_lt (by omega)
  rw [moveBlockW, moveBlock]
  dsimp only
  rw [hsize, Nat.mod_eq_of_lt hdst, Nat.mod_eq_of_lt hsrc]
  split_ifs with h1 h2
  · rfl
  · exact hcpy m dst src size h2
  all_goals rfl

/-- **`move_block` is `memmove`**: for every memory, all addresses and every size, over any
`memcpy` that is correct on disjoint ranges.  A range ends below the top of the address
space, where its one-past-the-end pointer still is an address. -/
theorem moveBlockW_eq {w : ℕ} {memcpy : Mem → ℕ → ℕ → ℕ → Mem} (hcpy : CopiesDisjoint memcpy)
    (m : Mem) {dst src size : ℕ} (hdst : dst + size < 2 ^ w) (hsrc : src + size < 2 ^ w) :
    moveBlockW w memcpy m dst src size = memmove m dst src size :=
  (moveBlockW_eq_moveBlock hcpy m hdst hsrc).trans (moveBlock_eq m dst src size)

/-- Overlapping ranges in either direction, over the byte loop, which is no `memmove`. -/
theorem moveBlockW_eq_overlapping :
    moveBlockW 32 copyBytes (fun x => UInt8.ofNat x) 8 16 24
        = memmove (fun x => UInt8.ofNat x) 8 16 24
      ∧ moveBlockW 32 copyBytes (fun x => UInt8.ofNat x) 16 8 24
        = memmove (fun x => UInt8.ofNat x) 16 8 24 :=
  ⟨moveBlockW_eq copyBytes_disjoint _ (by decide) (by decide),
    moveBlockW_eq copyBytes_disjoint _ (by decide) (by decide)⟩

end PondMerge
