import PondMerge.Guarantees.Representation
import PondMerge.Guarantees.Reuse

/-!
When `create_pool` succeeds, and what it makes.

* `createPool_refused`, `createPool_opened`: the outcomes, by what the zone and the table
  hold.
* `reachable_createPool_iff`: it succeeds exactly if there is an Empty entry and a long enough
  run of unowned segments, and takes the lowest one.
-/

namespace PondMerge

open ByteMemory Tiling

variable [PmConfig]

section Outcomes

variable {G : GlobalState} {Ls : ℕ → List Piece} {n : ℕ}

/-- Some pool entry is Empty. -/
def HasEntry (G : GlobalState) : Prop := ∃ i < pmMaxPools, (G.pools i).state = .empty

lemma hasEntry_iff : HasEntry G ↔ ∃ i, firstEmptyPool G = some i := by
  cases hent : firstEmptyPool G with
  | none =>
      have hall := firstEmptyPool_none.mp hent
      exact ⟨fun ⟨i, hi, he⟩ => absurd he (hall i hi).2, fun ⟨i, hi⟩ => by cases hi⟩
  | some i =>
      obtain ⟨hi, he, -⟩ := firstEmptyPool_some hent
      exact ⟨fun _ => ⟨i, rfl⟩, fun _ => ⟨i, hi, he⟩⟩

/-- Without an entry or without a run, `create_pool` reports `NoSpace`. -/
lemma createPool_refused (h : GlobalInv G Ls)
    (hno : ¬ (1 ≤ n ∧ HasEntry G ∧ ∃ base, FreeRun G base n)) :
    createPool G n = (.noSpace, none, G) := by
  by_cases hn : 1 ≤ n
  · rw [createPool_eq h hn]
    cases hrun : findRun G n G.segmentCount 0 0 with
    | none => rfl
    | some base =>
        cases hent : firstEmptyPool G with
        | none => rfl
        | some i =>
            exact absurd ⟨hn, hasEntry_iff.mpr ⟨i, hent⟩, base, ((findRun_iff hn).mp hrun).1⟩ hno
  · rw [createPool, if_neg (by simp [h.zone.init]), if_pos (by omega)]

/-- With both it opens the first Empty entry over the lowest run. -/
lemma createPool_opened (h : GlobalInv G Ls) (hn : 1 ≤ n) (hentry : HasEntry G)
    (hrun : ∃ base, FreeRun G base n) :
    ∃ i base, createPool G n = (.ok, some i, openPool G i base n)
      ∧ i < pmMaxPools ∧ (G.pools i).state = .empty
      ∧ FreeRun G base n ∧ ∀ b < base, ¬ FreeRun G b n := by
  obtain ⟨i, hent⟩ := hasEntry_iff.mp hentry
  obtain ⟨hi, he, -⟩ := firstEmptyPool_some hent
  cases hfind : findRun G n G.segmentCount 0 0 with
  | none => exact absurd hrun ((findRun_none hn).mp hfind)
  | some base =>
      refine ⟨i, base, ?_, hi, he, (findRun_iff hn).mp hfind⟩
      rw [createPool_eq h hn, hfind]
      dsimp only
      rw [hent]

end Outcomes

/-- What a pool of `n` segments looks like when `create_pool` has made it: it owns the window
from segment `base` on, apart from every other pool, as one binned free block. -/
structure FreshPool (G : GlobalState) (i base n : ℕ) : Prop where
  running : (G.pools i).state = .running
  first : (G.pools i).segmentFirst = base
  count : (G.pools i).segmentCount = n
  apart : ∀ q, Active G q → q ≠ i → SegmentsApart (G.pools i) (G.pools q)
  capacity : poolCapacity G (G.pools i) = n * G.segmentSize
  block : Represents G i [.free (n * G.segmentSize)]
  offsets : freeOffsets G (G.pools i) = [base * G.segmentSize]

lemma openPool_fresh {G : GlobalState} {Ls : ℕ → List Piece} (h : GlobalInv G Ls) {i base n : ℕ}
    (hi : i < pmMaxPools) (hempty : (G.pools i).state = .empty) (hn : 1 ≤ n)
    (hrun : FreeRun G base n) : FreshPool (openPool G i base n) i base n := by
  obtain ⟨hinv, -⟩ := openPool_inv h hi hempty hn hrun.1 hrun.2
  have hseg := h.zone.count
  have hsegs := PmConfig.maxSegments_le
  have hle := hrun.1
  have hentry : (openPool G i base n).pools i = { newPool G base n with
      bins := ((openPool G i base n).pools i).bins } := by
    rw [openPool_eq, GlobalState.setPool_pools, Function.update_self]
  have hstate : ((openPool G i base n).pools i).state = .running := by
    rw [hentry]
    rfl
  have hfirst : ((openPool G i base n).pools i).segmentFirst = base := by
    rw [hentry]
    exact u16_of_lt (by omega)
  have hcount : ((openPool G i base n).pools i).segmentCount = n := by
    rw [hentry]
    exact u16_of_lt (by omega)
  have hact : Active (openPool G i base n) i := ⟨hi, by rw [hstate]; decide⟩
  have hpool := hinv.pool i hact
  -- the layout of the new pool is one free block
  have hlayout : Function.update Ls i [.free (n * G.segmentSize)] i
      = [.free (n * G.segmentSize)] := Function.update_self ..
  have hsize : (openPool G i base n).segmentSize = G.segmentSize := rfl
  rw [hlayout] at hpool
  refine ⟨hstate, hfirst, hcount, fun q hq hne => hinv.apart i q hact hq hne.symm, ?_, ?_, ?_⟩
  · rw [hpool.capacity hinv.zone, hsize]
    simp [Tiling.total, Piece.len]
  · have hrep := PoolInv.represents hinv hact
    rw [hlayout] at hrep
    exact hrep
  · have hperm := hpool.freeOffsets_perm hinv.zone
    rw [freeSpots_free, freeSpots_nil, List.map_singleton, List.perm_singleton] at hperm
    have hzone := hinv.zone.zoneSize_lt
    have hwin := hpool.window_le hinv.zone
    have hoff : poolStartOff (openPool G i base n) ((openPool G i base n).pools i)
        = base * G.segmentSize := by
      rw [poolStartOff, hfirst]
      rfl
    rw [hperm, offOf, poolStart_eq, Nat.add_sub_cancel_left, u32_of_lt (by omega), hoff,
      hsize]

/-- **`create_pool` is exact.**  In every reachable state it returns `Ok` exactly if the count
is positive, some entry is Empty and the zone has a run of that many segments owned by no
pool; it then fills in an Empty entry, over the lowest such run, and otherwise reports
`NoSpace` and changes nothing. -/
theorem reachable_createPool_iff {G : GlobalState} (h : Reachable G) (n : ℕ) :
    ((createPool G n).1 = .ok ↔ 1 ≤ n ∧ HasEntry G ∧ ∃ base, FreeRun G base n)
      ∧ ((createPool G n).1 ≠ .ok → createPool G n = (.noSpace, none, G))
      ∧ ((createPool G n).1 = .ok → ∃ i base, (createPool G n).2.1 = some i
        ∧ i < pmMaxPools ∧ (G.pools i).state = .empty
        ∧ FreeRun G base n ∧ (∀ b < base, ¬ FreeRun G b n)
        ∧ FreshPool (createPool G n).2.2 i base n) := by
  obtain ⟨Ls, hinv⟩ := h.healthy
  by_cases hcan : 1 ≤ n ∧ HasEntry G ∧ ∃ base, FreeRun G base n
  · obtain ⟨hn, hentry, hrun⟩ := hcan
    obtain ⟨i, base, heq, hi, he, hfree, hleast⟩ := createPool_opened hinv hn hentry hrun
    rw [heq]
    exact ⟨⟨fun _ => ⟨hn, hentry, hrun⟩, fun _ => rfl⟩, fun hne => absurd rfl hne,
      fun _ => ⟨i, base, rfl, hi, he, hfree, hleast, openPool_fresh hinv hi he hn hfree⟩⟩
  · rw [createPool_refused hinv hcan]
    exact ⟨⟨fun hok => (by cases hok), fun hyes => absurd hyes hcan⟩, fun _ => rfl,
      fun hok => by cases hok⟩

omit [PmConfig] in
/-- In a zone of four segments with a pool of three, one segment is left. -/
theorem reachable_createPool_onePool :
    letI := defaultConfig
    (createPool onePool 1).1 = .ok ∧ createPool onePool 2 = (.noSpace, none, onePool) := by
  let _ := defaultConfig
  obtain ⟨hiff, -, -⟩ := reachable_createPool_iff onePool_reachable 1
  obtain ⟨-, hno, -⟩ := reachable_createPool_iff onePool_reachable 2
  refine ⟨hiff.mpr ⟨le_rfl, ⟨1, by decide, by decide +kernel⟩, 3, by decide +kernel, ?_⟩,
    hno (by decide +kernel)⟩
  intro t h₁ h₂
  obtain rfl : t = 3 := by omega
  decide +kernel

end PondMerge
