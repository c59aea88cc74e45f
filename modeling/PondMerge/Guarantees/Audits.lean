import PondMerge.Operations.Reads
import PondMerge.Guarantees.Containment

/-!
How far damaged metadata can make `validate` and `get_stats` read.

* `AuditsInside`: the two auditors end within their step caps and read only inside the zone
  and the arrays.
* `WindowSound`: the screens of the two auditors admit no offset near or past the end of the
  zone, a condition on the window alone.
* `audits_inside_iff`: a window is sound exactly if the auditors stay inside over all
  contents of its pool.
-/

namespace PondMerge

open ByteMemory

variable [PmConfig] {G : GlobalState}

/-- `validate` and `get_stats` of pool `p` end, and every read is inside. -/
def AuditsInside (G : GlobalState) (p : ℕ) : Prop :=
  validateZ G p = some (validate G p)
    ∧ getStatsZ G p = some ((poolAt G p).map (freeStats G))

/-- Other contents over the window of pool `p`: the zone and the segment fields are those of
`G`, and a bin head is a 32-bit word. -/
structure SameWindow (G G' : GlobalState) (p : ℕ) : Prop where
  zone : SameZone G G'
  first : (G'.pools p).segmentFirst = (G.pools p).segmentFirst
  count : (G'.pools p).segmentCount = (G.pools p).segmentCount
  heads : ∀ f s, (G'.pools p).bins.head f s < 2 ^ 32

/-- The lower and the upper bound of the 32-bit screen of `get_stats`. -/
def statsLo (G : GlobalState) (P : Pool) : ℕ := u32 (poolStartOff G P)

def statsHi (G : GlobalState) (P : Pool) : ℕ :=
  sub32 (u32 (poolStartOff G P + poolCapacity G P)) 8

/-- No offset the auditors admit is near or past the end of the zone: neither one between the
bounds of `get_stats`, nor a 32-bit cursor in the window, nor the block of a descriptor. -/
def WindowSound (G : GlobalState) (P : Pool) : Prop :=
  (statsHi G P < statsLo G P ∨ statsHi G P + 16 ≤ G.zoneSize)
    ∧ (0 < poolCapacity G P → poolStartOff G P < 2 ^ 32 →
        poolStartOff G P + poolCapacity G P < G.zoneSize)
    ∧ (pmMinBlock ≤ poolCapacity G P →
        poolStartOff G P + poolCapacity G P ≤ G.zoneSize)

instance (G : GlobalState) (P : Pool) : Decidable (WindowSound G P) :=
  inferInstanceAs (Decidable (_ ∧ _ ∧ _))

/-! ### Windows -/

omit [PmConfig] in
lemma SameWindow.startOff {G' : GlobalState} {p : ℕ} (h : SameWindow G G' p) :
    poolStartOff G' (G'.pools p) = poolStartOff G (G.pools p) := by
  rw [poolStartOff, poolStartOff, h.first, h.zone.segmentSize]

omit [PmConfig] in
lemma SameWindow.capacity {G' : GlobalState} {p : ℕ} (h : SameWindow G G' p) :
    poolCapacity G' (G'.pools p) = poolCapacity G (G.pools p) := by
  rw [poolCapacity, poolCapacity, h.count, h.zone.segmentSize]

lemma SameWindow.sound {G' : GlobalState} {p : ℕ} (h : SameWindow G G' p) :
    WindowSound G' (G'.pools p) ↔ WindowSound G (G.pools p) := by
  rw [WindowSound, WindowSound, statsHi, statsHi, statsLo, statsLo, h.startOff, h.capacity,
    h.zone.zoneSize]

/-- Window bounds are multiples of eight. -/
lemma ZoneOk.window_mod (hz : ZoneOk G) (P : Pool) :
    poolStartOff G P % 8 = 0 ∧ poolCapacity G P % 8 = 0 := by
  have hseg := hz.segMod
  constructor
  · rw [poolStartOff, Nat.mul_mod, hseg, Nat.mul_zero, Nat.zero_mod]
  · have hmul : P.segmentCount * G.segmentSize % 8 = 0 := by
      rw [Nat.mul_mod, hseg, Nat.mul_zero, Nat.zero_mod]
    rw [poolCapacity, u32]
    omega

lemma ZoneOk.zoneSize_mod (hz : ZoneOk G) : G.zoneSize % 8 = 0 := by
  rw [hz.size, Nat.mul_mod, hz.segMod, Nat.mul_zero, Nat.zero_mod]

/-- In a window that `pool_geometry_ok` accepts, what matters is whether the zone goes on
behind it. -/
lemma windowSound_iff (hz : ZoneOk G) {P : Pool} (hgeo : poolGeometryOk G P = true)
    (hcap : 0 < poolCapacity G P) :
    WindowSound G P ↔ poolStartOff G P + poolCapacity G P < G.zoneSize := by
  obtain ⟨hstart, hsize⟩ := hz.window_mod P
  obtain ⟨hend, hle, -⟩ := hz.window hgeo
  rw [poolStart_eq] at hend
  have hlt := hz.zoneSize_lt
  have hzone := hz.zoneSize_mod
  have hhi : statsHi G P = poolStartOff G P + poolCapacity G P - 8 := by
    rw [statsHi, u32_of_lt (by omega), sub32]
    omega
  rw [WindowSound, hhi, statsLo, u32_of_lt (by omega)]
  omega

/-! ### Sound windows -/

/-- The offsets a list walk can meet are 32-bit words. -/
lemma ListCursor.lt {P : Pool} (hheads : ∀ f s, P.bins.head f s < 2 ^ 32) {o : ℕ}
    (h : ListCursor G P o) : o < 2 ^ 32 := by
  cases h with
  | head hf hs => exact hheads _ _
  | next ho hne => exact load32_lt _ _

/-- A 32-bit offset the window of a sound pool admits is sixteen bytes away from the end of
the zone. -/
lemma WindowSound.leavesRoom (hz : ZoneOk G) {P : Pool} (h : WindowSound G P) {o : ℕ}
    (ho : o < 2 ^ 32) : LeavesRoom G P o := by
  intro hlo hhi
  obtain ⟨hstart, hsize⟩ := hz.window_mod P
  have hzone := hz.zoneSize_mod
  have := h.2.1 (by omega) (by omega)
  omega

/-- The auditors stay inside where the window fits and its lists are roomy. -/
lemma audits_of_room {p : ℕ} (hwin : WindowFits G (G.pools p))
    (hroom : ListsLeaveRoom G (G.pools p))
    (hscreen : ∀ o, ListCursor G (G.pools p) o → o ≠ nullOff → statsLo G (G.pools p) ≤ o →
      o ≤ statsHi G (G.pools p) → o + 16 ≤ G.zoneSize) : AuditsInside G p := by
  refine ⟨validateZ_eq hwin hroom, ?_⟩
  rw [getStatsZ]
  cases hp : poolAt G p with
  | none => rfl
  | some P =>
      obtain ⟨-, rfl⟩ := poolAt_eq_some.mp hp
      dsimp only
      rw [freeStatsZ_eq hscreen]
      rfl

lemma WindowSound.audits {p : ℕ} (hz : ZoneOk G)
    (hheads : ∀ f s, (G.pools p).bins.head f s < 2 ^ 32) (h : WindowSound G (G.pools p)) :
    AuditsInside G p := by
  refine audits_of_room h.2.2 (fun o ho => ⟨h.leavesRoom hz (ho.lt hheads), fun _ => ?_⟩)
    fun o _ _ hlo hhi => ?_
  · exact h.leavesRoom hz (load32_lt _ _)
  · have := h.1
    omega

/-! ### Unsound windows -/

/-- Contents whose only list head is that of the smallest bin. -/
def loneHead (G : GlobalState) (p o : ℕ) : GlobalState :=
  G.setPool p { G.pools p with
    state := .running
    usedBytes := 0
    freeBytes := poolCapacity G (G.pools p)
    liveObjects := 0
    orderHead := noOrder
    bins :=
      { flBitmap := 1
        slBitmap := fun f => if f = 0 then 1 else 0
        head := fun f s => if f = 0 ∧ s = 0 then o else nullOff } }

omit [PmConfig] in
lemma loneHead_window {p o : ℕ} (ho : o < 2 ^ 32) : SameWindow G (loneHead G p o) p := by
  refine ⟨⟨rfl, rfl, rfl, rfl, rfl⟩, ?_, ?_, fun f s => ?_⟩
  · rw [loneHead, GlobalState.setPool_pools, Function.update_self]
  · rw [loneHead, GlobalState.setPool_pools, Function.update_self]
  · rw [loneHead, GlobalState.setPool_pools, Function.update_self]
    dsimp only
    split_ifs with h
    · exact ho
    · decide

/-- The first bin the auditors look at is the smallest. -/
lemma allBins_eq_cons : ∃ l, allBins = (0, 0) :: l := by
  have hf : 0 < flCount := by
    have := PmConfig.flMax_gt
    rw [flCount]
    omega
  have hs : 0 < pmSlCount := by
    have := PmConfig.slCount_ge
    omega
  obtain ⟨f, hf⟩ := Nat.exists_eq_succ_of_ne_zero hf.ne'
  obtain ⟨s, hs⟩ := Nat.exists_eq_succ_of_ne_zero hs.ne'
  rw [allBins, hf, hs, List.range_succ_eq_map, List.range_succ_eq_map]
  exact ⟨_, rfl⟩

/-- `get_stats` follows a head that passes its screen. -/
lemma loneHead_stats {p o : ℕ} (hp : p < pmMaxPools) (hne : o ≠ nullOff)
    (hlo : statsLo G (G.pools p) ≤ o) (hhi : o ≤ statsHi G (G.pools p))
    (hbad : G.zoneSize < o + 16) : getStatsZ (loneHead G p o) p = none := by
  obtain ⟨l, hl⟩ := allBins_eq_cons
  have hcons := hl ▸ (fun fs hfs => mem_allBins.mp hfs :
    ∀ fs ∈ allBins, fs.1 < flCount ∧ fs.2 < pmSlCount)
  obtain ⟨hf, hs⟩ := hcons (0, 0) (by simp)
  have hat : poolAt (loneHead G p o) p = some ((loneHead G p o).pools p) :=
    poolAt_eq_some.mpr ⟨⟨hp, by simp [loneHead]⟩, rfl⟩
  have hhead : ((loneHead G p o).pools p).bins.head 0 0 = o := by simp [loneHead]
  have hwalk : ∀ fuel, statsWalkZ (loneHead G p o) (statsLo G (G.pools p))
      (statsHi G (G.pools p)) (fuel + 1) 0 o = none := by
    intro fuel
    rw [statsWalkZ, if_neg hne, if_neg (by omega),
      loadZ_beyond (k := 12) (show (loneHead G p o).zoneSize < o + 12 + 4 from hbad)]
    cases loadZ (loneHead G p o) (ptrOf (loneHead G p o).zone o) with
    | none => rfl
    | some header => rfl
  have hw : SameWindow G (loneHead G p o) p :=
    loneHead_window (lt_of_le_of_lt hhi (Nat.mod_lt _ (Nat.two_pow_pos 32)))
  rw [getStatsZ, hat]
  dsimp only
  rw [freeStatsZ, hl, statsBinsZ, headZ_eq hf hs, hhead, hw.startOff, hw.capacity]
  simp only [Option.bind_eq_bind, Option.bind_some]
  rw [show u32 (poolStartOff G (G.pools p)) = statsLo G (G.pools p) from rfl,
    show sub32 (u32 (poolStartOff G (G.pools p) + poolCapacity G (G.pools p))) 8
      = statsHi G (G.pools p) from rfl, hwalk]
  rfl

/-- The bins audit reads the header of a head in the window. -/
lemma loneHead_audit (hz : ZoneOk G) {p o : ℕ} (hp : p < pmMaxPools) (ho : o < nullOff)
    (hlo : poolStartOff G (G.pools p) ≤ o)
    (hhi : o + 8 ≤ poolStartOff G (G.pools p) + poolCapacity G (G.pools p))
    (hbad : G.zoneSize ≤ o) : validateZ (loneHead G p o) p = none := by
  obtain ⟨l, hl⟩ := allBins_eq_cons
  have hcons := hl ▸ (fun fs hfs => mem_allBins.mp hfs :
    ∀ fs ∈ allBins, fs.1 < flCount ∧ fs.2 < pmSlCount)
  obtain ⟨hf, hs⟩ := hcons (0, 0) (by simp)
  have hat : poolAt (loneHead G p o) p = some ((loneHead G p o).pools p) :=
    poolAt_eq_some.mpr ⟨⟨hp, by simp [loneHead]⟩, rfl⟩
  have hw : SameWindow G (loneHead G p o) p := loneHead_window (by rw [nullOff] at ho; omega)
  -- the walk of the bin makes at least one step
  have hsteps : ∃ k, u32 (poolCapacity G (G.pools p) / pmMinBlock + 1) = k + 1 := by
    refine Nat.exists_eq_succ_of_ne_zero ?_
    have hcap := u32_lt ((G.pools p).segmentCount * G.segmentSize)
    have hge := PmConfig.minBlock_ge
    have hdiv : poolCapacity G (G.pools p) / pmMinBlock ≤ poolCapacity G (G.pools p) / 16 :=
      Nat.div_le_div_left hge (by omega)
    rw [← poolCapacity] at hcap
    rw [u32_of_lt (lt_of_le_of_lt (Nat.succ_le_succ hdiv) (by omega))]
    exact Nat.succ_ne_zero _
  obtain ⟨k, hk⟩ := hsteps
  -- that step reads behind the zone
  have hblock : auditBlockZ (loneHead G p o) (poolStartOff G (G.pools p))
      (poolStartOff G (G.pools p) + poolCapacity G (G.pools p)) 0 0 o = none := by
    rw [auditBlockZ, if_neg (by simp [rangeInPool]; omega)]
    have hnone : loadZ (loneHead G p o) (ptrOf (loneHead G p o).zone o) = none :=
      loadZ_beyond (k := 0) (show (loneHead G p o).zoneSize < o + 0 + 4 from by
        show G.zoneSize < o + 0 + 4
        omega)
    rw [hnone]
    rfl
  have hbins : auditPoolBinsZ (loneHead G p o) ((loneHead G p o).pools p) = none := by
    rw [auditPoolBinsZ, hw.startOff, hw.capacity, hk, hl, auditBinsZ, headZ_eq hf hs,
      slBitmapZ_eq hf]
    have hhead : ((loneHead G p o).pools p).bins.head 0 0 = o := by simp [loneHead]
    have hrow : ((loneHead G p o).pools p).bins.slBitmap 0 = 1 := by simp [loneHead]
    have hbit : decide (o ≠ nullOff) = (1 : ℕ).testBit 0 := by simp [ho.ne]
    simp only [hhead, hrow, Option.bind_eq_bind, Option.bind_some]
    rw [if_neg (not_not.mpr hbit), auditWalkZ, if_neg ho.ne, hblock]
    rfl
  -- what comes before the bins passes, as the pool has no objects
  have hcol : collectLiveSorted (loneHead G p o) ((loneHead G p o).pools p) p pmMaxObjects
      = some [] := by
    have hhead : ((loneHead G p o).pools p).orderHead = noOrder := by simp [loneHead]
    have hwalk : collectWalk (loneHead G p o) p (pmMaxObjects + 1) pmMaxObjects noOrder noOrder
        = some [] := by rw [collectWalk, if_pos rfl]
    have hsort : collectSort (loneHead G p o) [] = [] :=
      (collectSort_perm _ (by simp)).eq_nil
    rw [collectLiveSorted, hhead, hwalk]
    dsimp only
    rw [hsort]
    rfl
  have hcap : sub32 (poolCapacity G (G.pools p)) 0 = poolCapacity G (G.pools p) :=
    sub32_of_le (Nat.zero_le _) (u32_lt _)
  have hused : ((loneHead G p o).pools p).usedBytes = 0 := by simp [loneHead]
  have hlive : ((loneHead G p o).pools p).liveObjects = 0 := by simp [loneHead]
  have hfree : ((loneHead G p o).pools p).freeBytes = poolCapacity G (G.pools p) := by
    simp [loneHead]
  rw [validateZ, if_neg (by simp [loneHead, hz.init]), hat]
  dsimp only
  rw [collectLiveSortedZ_eq, hcol, Option.bind_eq_bind, Option.bind_some, hw.capacity]
  dsimp only
  rw [validateLiveZ, Option.bind_eq_bind, Option.bind_some]
  dsimp only
  rw [if_neg (by simp [hused, hlive]), if_neg (by simp [hfree, hcap]), hbins]
  rfl

/-- Contents with one listed object, whose smallest possible block starts the window. -/
def loneObject (G : GlobalState) (p : ℕ) : GlobalState :=
  (G.setPool p { G.pools p with
    state := .running
    orderHead := 0
    bins := .reset }).setObj 0
    ⟨G.zone + poolStartOff G (G.pools p) + 8, 1, pmMinBlock, 0, p, 0, 1, 0, 0, 0, noOrder, noOrder,
      none, .live⟩

lemma loneObject_window (p : ℕ) : SameWindow G (loneObject G p) p := by
  refine ⟨⟨rfl, rfl, rfl, rfl, rfl⟩, ?_, ?_, fun f s => ?_⟩
  · rw [loneObject, GlobalState.setObj_pools, GlobalState.setPool_pools, Function.update_self]
  · rw [loneObject, GlobalState.setObj_pools, GlobalState.setPool_pools, Function.update_self]
  · rw [loneObject, GlobalState.setObj_pools, GlobalState.setPool_pools, Function.update_self]
    show nullOff < 2 ^ 32
    decide

/-- Phase 1 reads the header of a block in the window. -/
lemma loneObject_audit (hz : ZoneOk G) {p : ℕ} (hp : p < pmMaxPools)
    (hmin : pmMinBlock ≤ poolCapacity G (G.pools p))
    (hbad : G.zoneSize < poolStartOff G (G.pools p)) : validateZ (loneObject G p) p = none := by
  have hge := PmConfig.minBlock_ge
  have hmod := minBlock_mod
  have haligned := hz.aligned
  obtain ⟨hstart, -⟩ := hz.window_mod (G.pools p)
  have hat : poolAt (loneObject G p) p = some ((loneObject G p).pools p) :=
    poolAt_eq_some.mpr ⟨⟨hp, by simp [loneObject]⟩, rfl⟩
  have hw := loneObject_window (G := G) p
  have hobj : (loneObject G p).objects 0 = ⟨G.zone + poolStartOff G (G.pools p) + 8, 1,
      pmMinBlock, 0, p, 0, 1, 0, 0, 0, noOrder, noOrder, none, .live⟩ := by
    rw [loneObject, GlobalState.setObj_objects, Function.update_self]
  -- the walk of the object list finds the one object
  have hcol : collectLiveSorted (loneObject G p) ((loneObject G p).pools p) p pmMaxObjects
      = some [0] := by
    have hhead : ((loneObject G p).pools p).orderHead = 0 := by simp [loneObject]
    have hlt : ∀ i ∈ [0], i < pmMaxObjects := by simpa using PmConfig.maxObjects_pos
    have hwalk : collectWalk (loneObject G p) p (pmMaxObjects + 1) pmMaxObjects noOrder 0
        = some [0] := by
      have hprev : ((loneObject G p).objects 0).addrPrev = noOrder := by rw [hobj]
      have hnext : ((loneObject G p).objects 0).addrNext = noOrder := by rw [hobj]
      have hgen : ((loneObject G p).objects 0).generation ≠ 0 := by
        rw [hobj]
        exact one_ne_zero
      refine collectWalk_complete ⟨rfl, by decide, hprev, hnext⟩ ?_ ?_ ?_
      · intro i hi
        obtain rfl := List.mem_singleton.mp hi
        exact ⟨PmConfig.maxObjects_pos, by rw [hobj], by rw [hobj], hgen⟩
      · exact PmConfig.maxObjects_pos
      · exact Nat.le_add_left _ _
    rw [collectLiveSorted, hhead, hwalk]
    dsimp only
    rw [List.perm_singleton.mp (collectSort_perm (loneObject G p) hlt)]
    rfl
  -- its header lies behind the zone
  have hslot : validateSlotZ (loneObject G p) (poolStartOff G (G.pools p))
      (poolStartOff G (G.pools p) + poolCapacity G (G.pools p)) (poolStartOff G (G.pools p))
      ((loneObject G p).objects 0) = none := by
    have hzone : (loneObject G p).zone = G.zone := rfl
    have hoff : G.zone + poolStartOff G (G.pools p) + 8 - G.zone
        = poolStartOff G (G.pools p) + 8 := by omega
    rw [validateSlotZ, hobj]
    dsimp only
    rw [hzone, hoff, Nat.add_sub_cancel, if_neg (by simp [descBlockConsistent]; omega),
      if_neg (by omega), if_neg (by simp [rangeInPool]; omega), if_neg (by omega)]
    rw [loadZ, if_neg (by
      show ¬ (G.zone ≤ _ ∧ _ ≤ G.zone + G.zoneSize)
      omega)]
    rfl
  rw [validateZ, if_neg (by simp [loneObject, hz.init]), hat]
  dsimp only
  rw [collectLiveSortedZ_eq, hcol, Option.bind_eq_bind, Option.bind_some, hw.capacity,
    hw.startOff]
  dsimp only
  rw [validateLiveZ, descZ_eq PmConfig.maxObjects_pos]
  simp only [Option.bind_eq_bind, Option.bind_some]
  rw [hslot]
  rfl

/-! ### The equivalence -/

/-- Contents over an unsound window that lead an auditor outside. -/
lemma exists_unsound (hz : ZoneOk G) {p : ℕ} (hp : p < pmMaxPools)
    (h : ¬ WindowSound G (G.pools p)) : ∃ G', SameWindow G G' p ∧ ¬ AuditsInside G' p := by
  obtain ⟨hstart, hsize⟩ := hz.window_mod (G.pools p)
  have hzone := hz.zoneSize_mod
  have hlt := hz.zoneSize_lt
  have hge := PmConfig.minBlock_ge
  have hhi : statsHi G (G.pools p) < nullOff := by
    rw [statsHi, sub32, u32, nullOff]
    omega
  by_cases hstats : statsHi G (G.pools p) < statsLo G (G.pools p)
      ∨ statsHi G (G.pools p) + 16 ≤ G.zoneSize
  swap
  · -- the last offset `get_stats` admits
    refine ⟨_, loneHead_window (hhi.trans (by decide)), fun hin => ?_⟩
    have hnone := loneHead_stats (G := G) hp hhi.ne (by omega) le_rfl (by omega)
    cases hnone.symm.trans hin.2
  by_cases hword : poolStartOff G (G.pools p) < 2 ^ 32
  · -- a cursor past the end of the zone
    have hend : 0 < poolCapacity G (G.pools p)
        ∧ G.zoneSize < poolStartOff G (G.pools p) + poolCapacity G (G.pools p) := by
      by_contra hno
      refine h ⟨hstats, fun hcap _ => ?_, fun hmin => by omega⟩
      have heq : poolStartOff G (G.pools p) + poolCapacity G (G.pools p) ≠ G.zoneSize := by
        intro heq
        rw [statsHi, statsLo, heq, u32_of_lt (by omega), u32_of_lt (by omega),
          sub32_of_le (by omega) (by omega)] at hstats
        omega
      omega
    have ho : max (poolStartOff G (G.pools p)) G.zoneSize < nullOff := by
      rw [nullOff]
      omega
    refine ⟨_, loneHead_window (ho.trans (by decide)), fun hin => ?_⟩
    have hnone := loneHead_audit hz hp ho (le_max_left _ _) (by omega) (le_max_right _ _)
    cases hnone.symm.trans hin.1
  · -- a block behind the reach of 32-bit cursors
    have hmin : pmMinBlock ≤ poolCapacity G (G.pools p) := by
      by_contra hno
      exact h ⟨hstats, fun _ hlo => absurd hlo hword, fun hmin => absurd hmin hno⟩
    refine ⟨_, loneObject_window p, fun hin => ?_⟩
    have hnone := loneObject_audit hz hp hmin (by omega)
    cases hnone.symm.trans hin.1

/-- **Where the auditors read.**  Over arbitrary contents of a pool's metadata, of the
descriptor table and of the zone bytes, `validate` and `get_stats` end within their step caps
and read only inside the zone and the arrays, exactly for the windows that are sound.

Over a window inside the zone, sound or not, they do so for all contents whose list cursors
and back links are sixteen bytes away from the end of the zone when they are eight bytes away
from the end of the window. -/
theorem audits_inside_iff (hz : ZoneOk G) {p : ℕ} (hp : p < pmMaxPools) :
    ((∀ G', SameWindow G G' p → AuditsInside G' p) ↔ WindowSound G (G.pools p))
      ∧ (poolGeometryOk G (G.pools p) = true → 0 < poolCapacity G (G.pools p) →
        (WindowSound G (G.pools p) ↔
          poolStartOff G (G.pools p) + poolCapacity G (G.pools p) < G.zoneSize)
        ∧ (ListsLeaveRoom G (G.pools p) → AuditsInside G p)) := by
  refine ⟨⟨fun hall => ?_, fun h G' hw => ?_⟩, fun hgeo hcap => ⟨windowSound_iff hz hgeo hcap,
    fun hroom => ?_⟩⟩
  · by_contra hbad
    obtain ⟨G', hw, hout⟩ := exists_unsound hz hp hbad
    exact hout (hall G' hw)
  · exact (hw.sound.mpr h).audits (hz.of_same hw.zone) hw.heads
  · obtain ⟨hend, hle, -⟩ := hz.window hgeo
    obtain ⟨hstart, hsize⟩ := hz.window_mod (G.pools p)
    have hlt := hz.zoneSize_lt
    rw [poolStart_eq] at hend
    refine audits_of_room (fun _ => by omega) hroom fun o ho _ hlo hhi => ?_
    rw [statsLo, u32_of_lt (by omega)] at hlo
    rw [statsHi, u32_of_lt (by omega), sub32_of_le (by omega) (by omega)] at hhi
    exact (hroom o ho).1 hlo (by omega)

/-- Two pools that share the whole zone. -/
def fullZone : GlobalState :=
  letI := defaultConfig
  runOps (init .zero smallZone).2 [.createPool 1, .createPool 3]

/-- The free block of the second pool names the last eight bytes of the zone as its
successor. -/
def linkedToLast : GlobalState := fullZone.forge 1044 4088

omit [PmConfig] in
lemma fullZone_zone : letI := defaultConfig; ZoneOk fullZone := by
  let _ := defaultConfig
  have hreach : Reachable fullZone := smallZone_runOps _
  obtain ⟨Ls, hinv⟩ := hreach.healthy
  exact hinv.zone

omit [PmConfig] in
/-- Both auditors of the second pool read behind the zone. -/
theorem linkedToLast_outside :
    letI := defaultConfig
    ZoneOk linkedToLast ∧ poolGeometryOk linkedToLast (linkedToLast.pools 1) = true
      ∧ validateZ linkedToLast 1 = none ∧ getStatsZ linkedToLast 1 = none
      ∧ ¬ AuditsInside linkedToLast 1 := by
  let _ := defaultConfig
  have hnone : validateZ linkedToLast 1 = none := by decide +kernel
  refine ⟨?_, by decide +kernel, hnone, by decide +kernel, fun hin => ?_⟩
  · rw [linkedToLast]
    exact fullZone_zone.of_same (sameZone_forge _ _ _)
  · cases hnone.symm.trans hin.1

omit [PmConfig] in
/-- The first pool of the zone is audited inside over all contents; the last one is not. -/
theorem audits_inside_fullZone :
    letI := defaultConfig
    (∀ G', SameWindow fullZone G' 0 → AuditsInside G' 0)
      ∧ ¬ ∀ G', SameWindow fullZone G' 1 → AuditsInside G' 1 := by
  let _ := defaultConfig
  refine ⟨(audits_inside_iff fullZone_zone (p := 0) (by decide)).1.mpr (by decide +kernel),
    fun hall => ?_⟩
  have hsound := (audits_inside_iff fullZone_zone (p := 1) (by decide)).1.mp hall
  exact absurd hsound (by decide +kernel)

end PondMerge
