import PondMerge.Model.Slots

/-!
The loops of `collect_live_sorted` behind its walk, on arrays and in place.

An array is a function on indices of which only the first `n` entries matter; `s_ord_key`
and `out` keep whatever they held beyond them.  `sortPackedKeys`, `sortSlotsByAddress`,
`collectSort` and `distinctAddresses` are the same steps on lists.
-/

namespace PondMerge

open HeapSort

/-! ### `sort_packed_keys` -/

/-- The direction scan from index `k` on, with `left` pairs to go: the two flags, and the
early exit when neither stands. -/
def directionScan (a : ℕ → ℕ) : ℕ → ℕ → Bool → Bool → Bool × Bool
  | 0, _, ascending, descending => (ascending, descending)
  | left + 1, k, ascending, descending =>
    let ascending := if a (k - 1) > a k then false else ascending
    let descending := if a (k - 1) < a k then false else descending
    if !ascending && !descending then (ascending, descending)
    else directionScan a left (k + 1) ascending descending

/-- The reversal from index `i` on, with `left` exchanges to go. -/
def reverseInPlace (n : ℕ) : ℕ → ℕ → (ℕ → ℕ) → ℕ → ℕ
  | 0, _, a => a
  | left + 1, i, a => reverseInPlace n left (i + 1) (swap a i (n - 1 - i))

/-- `sort_packed_keys`. -/
def sortPackedArray (a : ℕ → ℕ) (n : ℕ) : ℕ → ℕ :=
  if n < 2 then a
  else
    let scan := directionScan a (n - 1) 1 true true
    if scan.1 then a
    else if scan.2 then reverseInPlace n (n / 2) 0 a
    else heapSort (fun x y => decide (x < y)) a n

/-! ### The two paths -/

/-- A loop that stores `f i` at every index `i < n`. -/
def storeEach (f a : ℕ → ℕ) : ℕ → ℕ → ℕ
  | 0 => a
  | n + 1 => Function.update (storeEach f a n) n (f n)

/-- `(off << 8) | slot` with the 32-bit zone offset `off`. -/
def packedWord (G : GlobalState) (slot : ℕ) : ℕ :=
  u32 (((((G.objects slot).address : ℤ) - G.zone) % 2 ^ 32).toNat <<< 8) ||| slot

/-- The packed-key path: `out` after `s_ord_key`, which held `keys`, was filled from it,
sorted, and unpacked into it. -/
def packedPath (G : GlobalState) (keys out : ℕ → ℕ) (n : ℕ) : ℕ → ℕ :=
  let sOrdKey := sortPackedArray (storeEach (fun i => packedWord G (out i)) keys n) n
  storeEach (fun i => sOrdKey i &&& 0xFF) out n

/-- The comparator path, `sort_slots_by_address`. -/
def comparedPath (G : GlobalState) (out : ℕ → ℕ) (n : ℕ) : ℕ → ℕ :=
  heapSort (slotLess G) out n

/-- The final check from index `i` on, with `left` pairs to go. -/
def addressesDiffer (G : GlobalState) (out : ℕ → ℕ) : ℕ → ℕ → Bool
  | 0, _ => true
  | left + 1, i =>
    if (G.objects (out i)).address = (G.objects (out (i - 1))).address then false
    else addressesDiffer G out left (i + 1)

/-- The end of `collect_live_sorted`: the status, and with `Ok` the `n` entries of `out`. -/
def collectFinish (G : GlobalState) (out : ℕ → ℕ) (n : ℕ) : Except Status (List ℕ) :=
  if addressesDiffer G out (n - 1) 1 then .ok (listOf out n) else .error .corruptMetadata

end PondMerge
