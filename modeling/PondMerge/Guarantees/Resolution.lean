import PondMerge.Model.Widths
import PondMerge.Model.Run
import PondMerge.Operations.References

/-!
Reference resolution over arbitrary descriptors and pools.

* `checkRefW_eq`: no sum, difference or product of `check_ref` leaves its type.
* `checkRef_contained`: an accepted access lies in the payload of a live object of the named
  generation, the payload in the owner's window, and the window in the zone.
-/

namespace PondMerge

variable [PmConfig] {G : GlobalState}

/-- The fields `check_ref` reads fit their types, and an initialised zone is a range of
addresses. -/
structure FieldWidths (G : GlobalState) : Prop where
  zone : G.initialized = true → 8 ≤ G.zoneSize ∧ G.zone + G.zoneSize < 2 ^ 64
  zoneSize : G.zoneSize < 2 ^ 32
  segmentSize : G.segmentSize < 2 ^ 32
  segmentFirst : ∀ p < pmMaxPools, (G.pools p).segmentFirst < 2 ^ 16
  segmentCount : ∀ p < pmMaxPools, (G.pools p).segmentCount < 2 ^ 16
  address : ∀ i < pmMaxObjects, (G.objects i).address < 2 ^ 64
  size : ∀ i < pmMaxObjects, (G.objects i).size < 2 ^ 32
  blockSize : ∀ i < pmMaxObjects, (G.objects i).blockSize < 2 ^ 32

/-- What an accepted access of `n` bytes at `addr` has to be. -/
structure Contained (G : GlobalState) (ref : RawRef) (n a addr : ℕ) (requireRunning : Bool) :
    Prop where
  index : ref.index < pmMaxObjects
  live : (G.objects ref.index).state = .live
  generation : ref.generation ≠ 0 ∧ (G.objects ref.index).generation = ref.generation
  owner : Active G (G.objects ref.index).poolId
  hint : ref.poolHint = crossHint ∨ ref.poolHint = (G.objects ref.index).poolId
  running : requireRunning = true → (G.pools (G.objects ref.index).poolId).state = .running
  access : (G.objects ref.index).address ≤ addr
    ∧ addr + n ≤ (G.objects ref.index).address + (G.objects ref.index).size
  payload : poolStart G (G.pools (G.objects ref.index).poolId) ≤ (G.objects ref.index).address
    ∧ (G.objects ref.index).address + (G.objects ref.index).size ≤
      poolEnd G (G.pools (G.objects ref.index).poolId)
  window : G.zone ≤ poolStart G (G.pools (G.objects ref.index).poolId)
    ∧ poolEnd G (G.pools (G.objects ref.index).poolId) ≤ G.zone + G.zoneSize
  aligned : a ∣ addr

/-! ### Checked arithmetic -/

omit [PmConfig] in
lemma addW_eq {w a b : ℕ} (h : a + b < 2 ^ w) : addW w a b = some (a + b) := if_pos h

omit [PmConfig] in
lemma subW_eq {a b : ℕ} (h : b ≤ a) : subW a b = some (a - b) := if_pos h

omit [PmConfig] in
lemma mulW_eq {w a b : ℕ} (h : a * b < 2 ^ w) : mulW w a b = some (a * b) := if_pos h

lemma descBlockConsistentW_eq (d : ObjectDesc) :
    descBlockConsistentW d = some (descBlockConsistent d) := by
  have hmin := PmConfig.minBlock_ge
  rw [descBlockConsistentW, descBlockConsistent]
  by_cases h1 : d.blockSize < pmMinBlock
  · rw [if_pos h1, decide_eq_false fun h => absurd h.1 (by omega)]
  rw [if_neg h1]
  by_cases h2 : d.blockSize % 8 ≠ 0
  · rw [if_pos h2, decide_eq_false fun h => h2 h.2.1]
  rw [if_neg h2, subW_eq (by omega)]
  refine congrArg some (decide_eq_decide.mpr ?_)
  omega

omit [PmConfig] in
/-- The window proof of `pool_geometry_ok`, in numbers. -/
lemma poolGeometryOk_iff {P : Pool} :
    poolGeometryOk G P = true ↔ P.segmentFirst + P.segmentCount ≤ G.segmentCount
      ∧ P.segmentFirst * G.segmentSize + P.segmentCount * G.segmentSize ≤ G.zoneSize := by
  rw [poolGeometryOk, decide_eq_true_eq, Nat.add_mul]

section Widths

variable {p i : ℕ}

lemma poolGeometryOkW_eq (h : FieldWidths G) (hp : p < pmMaxPools) :
    poolGeometryOkW G (G.pools p) = some (poolGeometryOk G (G.pools p)) := by
  have hfirst := h.segmentFirst p hp
  have hcount := h.segmentCount p hp
  have hprod : ((G.pools p).segmentFirst + (G.pools p).segmentCount) * G.segmentSize <
      2 ^ 17 * 2 ^ 32 :=
    Nat.mul_lt_mul'' (by omega) h.segmentSize
  rw [poolGeometryOkW, addW_eq (by omega), poolGeometryOk]
  show (if _ then _ else _) = _
  by_cases hle : G.segmentCount < (G.pools p).segmentFirst + (G.pools p).segmentCount
  · rw [if_pos hle, decide_eq_false fun hh => absurd hh.1 (by omega)]
  · rw [if_neg hle, mulW_eq (by omega)]
    exact congrArg some (decide_eq_decide.mpr ⟨fun hh => ⟨by omega, hh⟩, fun hh => hh.2⟩)

omit [PmConfig] in
/-- The window of a pool with a proven geometry. -/
lemma window_of_geometry (hgeo : poolGeometryOk G (G.pools p) = true)
    (hsize : G.zoneSize < 2 ^ 32) :
    poolCapacity G (G.pools p) = (G.pools p).segmentCount * G.segmentSize
      ∧ poolStart G (G.pools p) = G.zone + (G.pools p).segmentFirst * G.segmentSize
      ∧ poolEnd G (G.pools p) =
        poolStart G (G.pools p) + (G.pools p).segmentCount * G.segmentSize
      ∧ poolEnd G (G.pools p) ≤ G.zone + G.zoneSize := by
  obtain ⟨-, hle⟩ := poolGeometryOk_iff.mp hgeo
  have hend : poolEnd G (G.pools p) =
      poolStart G (G.pools p) + (G.pools p).segmentCount * G.segmentSize := by
    rw [poolEnd, poolStart, segBase, segBase, Nat.add_mul, Nat.add_assoc]
  refine ⟨?_, rfl, hend, ?_⟩
  · rw [poolCapacity, u32_of_lt (by omega)]
  · rw [hend, poolStart, segBase]
    omega

lemma blockInWindowW_eq (h : FieldWidths G) (hinit : G.initialized = true)
    (hgeo : poolGeometryOk G (G.pools p) = true) (hi : i < pmMaxObjects) :
    blockInWindowW G (G.pools p) (G.objects i) =
      some (blockInWindow G (G.pools p) (G.objects i)) := by
  obtain ⟨hge, hend⟩ := h.zone hinit
  obtain ⟨hcap, hstart, hstop, hle⟩ := window_of_geometry hgeo h.zoneSize
  have haddr := h.address i hi
  have hsz := h.size i hi
  have hzs := h.zoneSize
  rw [hstop, hstart] at hle
  rw [blockInWindowW, addW_eq (by omega), blockInWindow, hcap, poolStartOff]
  show (if _ then _ else _) = _
  by_cases hlow : (G.objects i).address < G.zone + 8
  · rw [if_pos hlow, decide_eq_false fun hh => absurd hh.1 (by omega)]
  rw [if_neg hlow, subW_eq (by omega)]
  show (subW _ 8).bind _ = _
  rw [subW_eq (by omega), poolStartW, mulW_eq (by omega)]
  show ((addW 64 _ _).bind _) = _
  rw [addW_eq (by omega)]
  show ((subW _ _).bind _) = _
  rw [subW_eq (by omega), Nat.add_sub_cancel_left]
  show ((mulW 32 _ _).bind _) = _
  rw [mulW_eq (by omega)]
  show ((addW 64 _ _).bind _) = _
  rw [addW_eq (by omega)]
  show (if _ then _ else _) = _
  generalize hB : (G.objects i).address - G.zone - 8 = boff
  generalize (G.pools p).segmentFirst * G.segmentSize = pstart at *
  generalize (G.pools p).segmentCount * G.segmentSize = cap at *
  by_cases hin : boff < pstart ∨ pstart + cap ≤ boff
  · rw [if_pos hin, decide_eq_false]
    omega
  rw [if_neg hin, subW_eq (by omega)]
  show (if _ then _ else _) = _
  by_cases hroom : pstart + cap - boff < (G.objects i).blockSize
  · rw [if_pos hroom, decide_eq_false]
    omega
  rw [if_neg hroom, addW_eq (by omega)]
  refine congrArg some (decide_eq_decide.mpr ?_)
  omega

lemma alignmentOkW_eq (a : ℕ) : alignmentOkW a = some (alignmentOk a) := by
  rw [alignmentOkW, alignmentOk]
  by_cases ha : a = 0
  · rw [if_pos ha, decide_eq_false fun hh => hh.1 ha]
  · rw [if_neg ha, subW_eq (by omega)]
    exact congrArg some (decide_eq_decide.mpr ⟨fun hh => ⟨ha, hh⟩, fun hh => hh.2⟩)

/-- The end of `check_ref`, behind its pool-range proof. -/
lemma accessW_eq (h : FieldWidths G) (hinit : G.initialized = true)
    (hgeo : poolGeometryOk G (G.pools p) = true)
    (hin : blockInWindow G (G.pools p) (G.objects i) = true) (offset n : ℕ) {a : ℕ}
    (ha : alignmentOk a = true) :
    accessW (G.objects i) offset n a =
      some (if (G.objects i).size < offset ∨ (G.objects i).size - offset < n then
          .error .invalidRef
        else if ((G.objects i).address + offset) &&& (a - 1) ≠ 0 then .error .invalidAlignment
        else .ok ((G.objects i).address + offset)) := by
  obtain ⟨hge, hend⟩ := h.zone hinit
  obtain ⟨hcap, hstart, hstop, hle⟩ := window_of_geometry hgeo h.zoneSize
  rw [blockInWindow, hcap, poolStartOff, decide_eq_true_eq] at hin
  rw [alignmentOk, decide_eq_true_eq] at ha
  rw [hstop, hstart] at hle
  rw [accessW]
  by_cases hoff : (G.objects i).size < offset
  · rw [if_pos hoff, if_pos (Or.inl hoff)]
  rw [if_neg hoff, subW_eq (by omega)]
  show (if _ then _ else _) = _
  by_cases hroom : (G.objects i).size - offset < n
  · rw [if_pos hroom, if_pos (Or.inr hroom)]
  rw [if_neg hroom, if_neg (by omega), addW_eq (by omega)]
  show ((subW _ _).bind _) = _
  rw [subW_eq (by omega)]
  rfl

/-- No computation of `check_ref` leaves its type, whatever the reference and the request. -/
theorem checkRefW_eq (h : FieldWidths G) (ref : RawRef) (n a : ℕ) (rr : Bool) :
    checkRefW G ref n a rr = some (checkRef G ref n a rr) := by
  rw [checkRefW, checkRef]
  by_cases h1 : (!G.initialized) = true
  · rw [if_pos h1, if_pos h1]
  rw [if_neg h1, if_neg h1]
  by_cases h2 : pmMaxObjects ≤ ref.index ∨ ref.generation = 0
  · rw [if_pos h2, if_pos h2]
  rw [if_neg h2, if_neg h2]
  by_cases h3 : (G.objects ref.index).state ≠ .live
  · rw [if_pos h3, if_pos h3]
  rw [if_neg h3, if_neg h3]
  by_cases h4 : (G.objects ref.index).generation ≠ ref.generation
  · rw [if_pos h4, if_pos h4]
  rw [if_neg h4, if_neg h4, descBlockConsistentW_eq]
  show (if _ then _ else _) = _
  by_cases h5 : (!descBlockConsistent (G.objects ref.index)) = true
  · rw [if_pos h5, if_pos h5]
  rw [if_neg h5, if_neg h5]
  by_cases h6 : (!linksInTable (G.objects ref.index)) = true
  · rw [if_pos h6, if_pos h6]
  rw [if_neg h6, if_neg h6]
  cases hpool : poolAt G (G.objects ref.index).poolId with
  | none => rfl
  | some P =>
      obtain ⟨hact, rfl⟩ := poolAt_eq_some.mp hpool
      dsimp only
      rw [poolGeometryOkW_eq h hact.1]
      show (if _ then _ else _) = _
      have hinit : G.initialized = true := by simpa using h1
      by_cases h7 : (!poolGeometryOk G (G.pools (G.objects ref.index).poolId)) = true
      · rw [if_pos h7, if_pos h7]
      -- with the geometry checked, the window no longer wraps
      have hgeo : poolGeometryOk G (G.pools (G.objects ref.index).poolId) = true := by
        simpa using h7
      rw [if_neg h7, if_neg h7, blockInWindowW_eq h hinit hgeo (by omega)]
      show (if _ then _ else _) = _
      by_cases h8 : (!blockInWindow G (G.pools (G.objects ref.index).poolId)
          (G.objects ref.index)) = true
      · rw [if_pos h8, if_pos h8]
      rw [if_neg h8, if_neg h8]
      by_cases h9 : ref.poolHint ≠ crossHint ∧ ref.poolHint ≠ (G.objects ref.index).poolId
      · rw [if_pos h9, if_pos h9]
      rw [if_neg h9, if_neg h9]
      by_cases h10 : rr = true ∧ (G.pools (G.objects ref.index).poolId).state ≠ .running
      · rw [if_pos h10, if_pos h10]
      rw [if_neg h10, if_neg h10, alignmentOkW_eq]
      show (if _ then _ else _) = _
      by_cases h11 : (!alignmentOk a) = true
      · rw [if_pos h11, if_pos h11]
      rw [if_neg h11, if_neg h11,
        accessW_eq h hinit hgeo (by simpa using h8) ref.offset n (by simpa using h11)]

end Widths

/-! ### Containment -/

omit [PmConfig] in
/-- The mask of a power of two tests divisibility. -/
lemma dvd_of_and_pred {a v : ℕ} (ha : a ≠ 0) (hpow : a &&& (a - 1) = 0)
    (hv : v &&& (a - 1) = 0) : a ∣ v := by
  obtain ⟨k, rfl⟩ := (Nat.and_sub_one_eq_zero_iff_isPowerOfTwo ha).mp hpow
  rw [Nat.and_two_pow_sub_one_eq_mod] at hv
  exact Nat.dvd_of_mod_eq_zero hv

/-- **Containment.**  Whatever the descriptors and the pools hold, no computation of
`check_ref` wraps, and an access it accepts lies in the payload of the live object that the
reference names, inside the owner's window, inside the zone. -/
theorem checkRef_contained (h : FieldWidths G) (ref : RawRef) (n a : ℕ) (rr : Bool) :
    checkRefW G ref n a rr = some (checkRef G ref n a rr)
      ∧ ∀ addr, checkRef G ref n a rr = .ok addr → Contained G ref n a addr rr := by
  refine ⟨checkRefW_eq h ref n a rr, fun addr hok => ?_⟩
  obtain ⟨href, rfl⟩ := checkRef_ok hok
  rw [checkRef] at hok
  obtain ⟨-, hok⟩ := of_guard hok
  obtain ⟨-, hok⟩ := of_guard hok
  obtain ⟨-, hok⟩ := of_guard hok
  obtain ⟨-, hok⟩ := of_guard hok
  obtain ⟨-, hok⟩ := of_guard hok
  obtain ⟨-, hok⟩ := of_guard hok
  rw [poolAt_eq_some.mpr ⟨href.owner, rfl⟩] at hok
  obtain ⟨hgeo, hok⟩ := of_guard hok
  obtain ⟨hin, hok⟩ := of_guard hok
  obtain ⟨-, hok⟩ := of_guard hok
  obtain ⟨-, hok⟩ := of_guard hok
  obtain ⟨hal, hok⟩ := of_guard hok
  obtain ⟨-, hok⟩ := of_guard hok
  obtain ⟨hmask, -⟩ := of_guard hok
  rw [Bool.not_eq_true', Bool.not_eq_false] at hgeo hin hal
  obtain ⟨hcap, hstart, hstop, hle⟩ := window_of_geometry hgeo h.zoneSize
  rw [blockInWindow, hcap, poolStartOff, decide_eq_true_eq] at hin
  rw [alignmentOk, decide_eq_true_eq] at hal
  have hinside := href.inside
  refine ⟨href.index, href.live, ⟨href.generationPos, href.generation⟩, href.owner, href.hint,
    href.running, ⟨by omega, by omega⟩, ⟨?_, ?_⟩, ⟨?_, hle⟩,
    dvd_of_and_pred hal.1 hal.2.1 (not_not.mp hmask)⟩
  · rw [hstart]
    omega
  · rw [hstop, hstart]
    omega
  · rw [hstart]
    omega

/-- Every pool entry names the same window, and every descriptor the same block in it. -/
def forged : GlobalState :=
  { GlobalState.zero with
    zone := 8
    zoneSize := 4096
    segmentSize := 1024
    segmentCount := 4
    pools := fun _ => { Pool.zero with state := .running, segmentFirst := 3, segmentCount := 1 }
    objects := fun _ =>
      { ObjectDesc.zero with
        address := 3096
        size := 40
        blockSize := 48
        generation := 5
        poolId := 2
        addrPrev := noOrder
        addrNext := noOrder
        state := .live }
    initialized := true }

omit [PmConfig] in
/-- A forged reference into forged metadata is accepted, and contained. -/
theorem checkRef_contained_forged :
    letI := defaultConfig
    checkRef forged ⟨700, 5, crossHint, 24⟩ 8 8 true = .ok 3120
      ∧ Contained forged ⟨700, 5, crossHint, 24⟩ 8 8 3120 true := by
  let _ := defaultConfig
  have hok : checkRef forged ⟨700, 5, crossHint, 24⟩ 8 8 true = .ok 3120 := by decide +kernel
  have hwidths : FieldWidths forged :=
    ⟨fun _ => by decide, by decide, by decide, fun _ _ => (by decide : 3 < 2 ^ 16),
      fun _ _ => (by decide : 1 < 2 ^ 16), fun _ _ => (by decide : 3096 < 2 ^ 64),
      fun _ _ => (by decide : 40 < 2 ^ 32), fun _ _ => (by decide : 48 < 2 ^ 32)⟩
  exact ⟨hok, (checkRef_contained hwidths _ 8 8 true).2 3120 hok⟩

end PondMerge
