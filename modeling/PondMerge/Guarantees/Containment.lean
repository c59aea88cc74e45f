import PondMerge.Operations.Containment
import PondMerge.Operations.Search
import PondMerge.Guarantees.Reuse

/-!
How far damaged free lists can make `alloc` and `free` write.

* `free_verified`, `binsFind_readable`: what the two operations have proved before they write.
* `free_contained`: the writes of `free` stay in the pool's window exactly where the links of
  the merged blocks and the head of the receiving bin lead into it.
* `alloc_contained`: the same for `alloc`, its chosen block and the remainder.
-/

namespace PondMerge

open ByteMemory

variable [PmConfig] {G : GlobalState}

/-- A window whose geometry has been proved. -/
lemma ZoneOk.window (hz : ZoneOk G) {P : Pool} (hgeo : poolGeometryOk G P = true) :
    poolEnd G P = poolStart G P + poolCapacity G P ∧ poolEnd G P ≤ G.zone + G.zoneSize
      ∧ poolEnd G P % 8 = 0 := by
  have hlt := hz.zoneSize_lt
  have haligned := hz.aligned
  rw [poolGeometryOk, decide_eq_true_eq] at hgeo
  obtain ⟨-, hle⟩ := hgeo
  have hmod : (P.segmentFirst + P.segmentCount) * G.segmentSize % 8 = 0 := by
    rw [Nat.mul_mod, hz.segMod, Nat.mul_zero, Nat.zero_mod]
  rw [poolEnd, poolStart, segBase, segBase, poolCapacity]
  rw [Nat.add_mul] at hle hmod ⊢
  rw [u32_of_lt (by omega)]
  omega

/-! ### `free` -/

/-- What `check_ref` and `verify_neighbours` have shown when `free` starts to write. -/
lemma free_verified (hz : ZoneOk G) {ref : RawRef} {a : ℕ}
    (hck : checkRef G ref 0 1 true = .ok a)
    (hver : verifyNeighbours G (G.pools (G.objects ref.index).poolId) (G.objects ref.index)
      (G.objects ref.index).block (poolStart G (G.pools (G.objects ref.index).poolId))
      (poolEnd G (G.pools (G.objects ref.index).poolId)) = true) :
    Verified G.zone (poolStart G (G.pools (G.objects ref.index).poolId))
      (poolEnd G (G.pools (G.objects ref.index).poolId)) G.mem (G.objects ref.index).block
      (G.objects ref.index).blockSize := by
  obtain ⟨hcons, hgeo, hin⟩ := checkRef_screens hck
  generalize G.objects ref.index = d at *
  obtain ⟨hend, hzone, hmod⟩ := hz.window hgeo
  have hlt := hz.zoneSize_lt
  have hge := PmConfig.minBlock_ge
  have haligned := hz.aligned
  have hstart := poolStart_eq G (G.pools d.poolId)
  rw [descBlockConsistent, decide_eq_true_eq] at hcons
  rw [blockInWindow] at hin
  simp only [decide_eq_true_eq] at hin
  rw [verifyNeighbours] at hver
  simp only [decide_eq_true_eq] at hver
  -- `verify_neighbors` vouches for the two blocks beside this one
  obtain ⟨-, -, hprev, hnext⟩ := hver
  rw [verifyPrev] at hprev
  rw [verifyNext] at hnext
  simp only [decide_eq_true_eq] at hprev hnext
  have hblock : d.block = d.address - 8 := rfl
  refine ⟨⟨by omega, by omega, hmod⟩, by omega, fun hne => ?_, fun hp => ?_, fun hn => ?_⟩
  · obtain ⟨h₁, h₂, h₃, -⟩ := hprev.resolve_left hne
    exact ⟨hge.trans h₁, h₂, h₃⟩
  · have hbin := (hprev.resolve_left hp.1).2.2.2.2 hp.2
    rw [freeBlockBinned] at hbin
    simp only [decide_eq_true_eq] at hbin
    obtain ⟨-, -, hlink, hlink'⟩ := hbin
    refine ⟨fun hne => ?_, fun hne => (hlink' hne).2⟩
    rw [PondMerge.prevBlock] at hne ⊢
    rw [if_pos hne] at hlink
    exact hlink.2
  · obtain ⟨h₁, h₂, h₃, -⟩ := hnext hn
    exact ⟨hge.trans h₁, h₂, h₃⟩

/-- **Containment of `free`.**  Over arbitrary bins and zone bytes, a `free` without a destroy
callback that does not succeed writes nothing.

One that does makes the zone writes `freeWrites`.  As long as no link word it writes tears a
word it reads afterwards, they lie in the pool's window exactly where the links of the merged
blocks and the head of the receiving bin lead into it. -/
theorem free_contained (hz : ZoneOk G) (run : Callback) (ref : RawRef)
    (hfn : (G.objects ref.index).destroyFn = none) :
    let d := G.objects ref.index
    let P := G.pools d.poolId
    let ws := freeWrites G.zone (poolEnd G P) P.bins G.mem d.block d.blockSize
    ((free run G ref).1 ≠ .ok → (free run G ref).2 = G)
      ∧ ((free run G ref).1 = .ok → (free run G ref).2.mem = replay G.mem ws
        ∧ (Untorn G.zone (poolEnd G P) G.mem d.block d.blockSize →
          (AllWithin (poolStart G P) (poolEnd G P) ws ↔
            FreeRoom G.zone (poolStart G P) (poolEnd G P) P.bins G.mem d.block d.blockSize))) := by
  dsimp only
  rw [free]
  split_ifs with hinit hoff
  · exact ⟨fun _ => rfl, fun h => by cases h⟩
  · exact ⟨fun _ => rfl, fun h => by cases h⟩
  cases hck : checkRef G ref 0 1 true with
  | error e =>
      refine ⟨fun _ => rfl, fun h => ?_⟩
      obtain rfl : e = .ok := h
      exact absurd hck (checkRef_ne_ok G ref 0 1 true)
  | ok a =>
      dsimp only
      split_ifs with hb hver
      · exact ⟨fun _ => rfl, fun h => by cases h⟩
      · exact ⟨fun _ => rfl, fun h => by cases h⟩
      · rw [hfn]
        dsimp only
        refine ⟨fun h => absurd rfl h, fun _ => ⟨?_, fun ht => ?_⟩⟩
        · rw [freeCommit_mem, freeResult, freeBlock_replay]
        · exact freeWrites_within_iff (free_verified hz hck (by simpa using hver)) ht

/-- Two pools side by side; the first has a free block in front of the object in slot `1`. -/
def besideFree : GlobalState :=
  letI := defaultConfig
  runOps (init .zero smallZone).2 [.createPool 1, .createPool 1, .alloc 0 24 8 0 7,
    .alloc 0 24 8 0 7, .free ⟨0, 1, 0, 0⟩ []]

/-- The same zone with another word at `a`. -/
def GlobalState.forge (G : GlobalState) (a v : ℕ) : GlobalState :=
  { G with mem := store32 G.mem a v }

/-- The free block's `prev` link names the last eight bytes of the window. -/
def linkedToEnd : GlobalState := besideFree.forge 16 1016

omit [PmConfig] in
lemma besideFree_zone : letI := defaultConfig; ZoneOk besideFree := by
  let _ := defaultConfig
  have hreach : Reachable besideFree := smallZone_runOps _
  obtain ⟨Ls, hinv⟩ := hreach.healthy
  exact hinv.zone

omit [PmConfig] in
lemma sameZone_forge (G : GlobalState) (a v : ℕ) : SameZone G (G.forge a v) :=
  ⟨rfl, rfl, rfl, rfl, rfl⟩

omit [PmConfig] in
/-- `free` succeeds, and has written into the first block of the second pool. -/
theorem linkedToEnd_leaks :
    letI := defaultConfig
    let G' := (free (writingCallback []) linkedToEnd ⟨1, 1, 0, 0⟩).2
    ZoneOk linkedToEnd ∧ (linkedToEnd.objects 1).destroyFn = none
      ∧ (free (writingCallback []) linkedToEnd ⟨1, 1, 0, 0⟩).1 = .ok
      ∧ poolEnd linkedToEnd (linkedToEnd.pools 0) ≤ 1036
      ∧ load32 G'.mem 1036 ≠ load32 linkedToEnd.mem 1036 := by
  let _ := defaultConfig
  refine ⟨?_, by decide +kernel⟩
  rw [linkedToEnd]
  exact besideFree_zone.of_same (sameZone_forge _ _ _)

omit [PmConfig] in
/-- Without damage all writes of the same `free` lie in the window. -/
theorem free_contained_besideFree :
    letI := defaultConfig
    let d := besideFree.objects (⟨1, 1, 0, 0⟩ : RawRef).index
    let P := besideFree.pools d.poolId
    AllWithin (poolStart besideFree P) (poolEnd besideFree P)
      (freeWrites besideFree.zone (poolEnd besideFree P) P.bins besideFree.mem d.block
        d.blockSize) := by
  let _ := defaultConfig
  have hok : (free (writingCallback []) besideFree ⟨1, 1, 0, 0⟩).1 = .ok := by decide +kernel
  have hfn : (besideFree.objects (⟨1, 1, 0, 0⟩ : RawRef).index).destroyFn = none := by
    decide +kernel
  have hcon := free_contained besideFree_zone (writingCallback []) ⟨1, 1, 0, 0⟩ hfn
  obtain ⟨-, hiff⟩ := hcon.2 hok
  have hall := (hiff ⟨fun _ => ⟨Or.inl ?_, Or.inl ?_⟩, fun _ _ => ⟨Or.inl ?_, Or.inl ?_⟩,
    fun _ _ => Or.inl ?_, fun _ _ => Or.inl ?_, fun _ => ⟨Or.inl ?_, Or.inl ?_, Or.inl ?_⟩⟩).mpr
    ⟨fun _ => ⟨Or.inl ?_, Or.inl ?_⟩, fun _ => ⟨Or.inl ?_, Or.inl ?_⟩, Or.inr (Or.inl ?_)⟩
  · exact hall
  all_goals decide +kernel

/-! ### `alloc` -/

/-- Every block the search finds is a readable cursor of the zone. -/
lemma binsFind_readable {b : TlsfBins} {need blk : ℕ} (h : binsFind G b need = some blk) :
    ∃ off, off + 8 ≤ G.zoneSize ∧ blk = ptrOf G.zone off := by
  -- every cursor of the walk has passed `zone_off_readable`
  have hwalk : ∀ left off, binsFindWalk G need left off = .found blk →
      ∃ off, off + 8 ≤ G.zoneSize ∧ blk = ptrOf G.zone off := by
    intro left
    induction left with
    | zero =>
        intro off h
        rw [binsFindWalk] at h
        split_ifs at h
    | succ left ih =>
        intro off h
        rw [binsFindWalk] at h
        split_ifs at h with h₁ h₂ h₃
        · rw [Bool.not_eq_true', Bool.not_eq_false, zoneOffReadable, decide_eq_true_eq] at h₂
          exact ⟨off, h₂, (Search.found.inj h).symm⟩
        · exact ih _ h
  have hrow : ∀ f ss left, binsFindRow G b need f ss left = .found blk →
      ∃ off, off + 8 ≤ G.zoneSize ∧ blk = ptrOf G.zone off := by
    intro f ss
    induction ss with
    | nil => exact fun left h => by cases h
    | cons s ss ih =>
        intro left h
        rw [binsFindRow] at h
        cases hw : binsFindWalk G need left (b.head f s) with
        | found x =>
            rw [hw] at h
            exact hwalk _ _ (hw.trans h)
        | refused =>
            rw [hw] at h
            cases h
        | missed left' =>
            rw [hw] at h
            exact ih _ h
  have hrows : ∀ fs left, binsFindRows G b need fs left = .found blk →
      ∃ off, off + 8 ≤ G.zoneSize ∧ blk = ptrOf G.zone off := by
    intro fs
    induction fs with
    | nil => exact fun left h => by cases h
    | cons f fs ih =>
        intro left h
        rw [binsFindRows] at h
        cases hr : binsFindRow G b need f (bitsFrom 16 0 (b.slBitmap f)) left with
        | found x =>
            rw [hr] at h
            exact hrow _ _ _ (hr.trans h)
        | refused =>
            rw [hr] at h
            cases h
        | missed left' =>
            rw [hr] at h
            exact ih _ h
  rw [binsFind] at h
  split_ifs at h
  dsimp only at h
  -- the row of the request's own class first, then the rows above
  cases hfirst : binsFindRow G b need (flBin need)
      (bitsFrom 16 (slBin need) (b.slBitmap (flBin need))) (G.zoneSize / pmMinBlock + 1) with
  | found x =>
      rw [hfirst] at h
      exact hrow _ _ _ (hfirst.trans (congrArg Search.found (Option.some.inj h)))
  | refused =>
      rw [hfirst] at h
      cases h
  | missed left =>
      rw [hfirst] at h
      dsimp only at h
      cases hrest : binsFindRows G b need (bitsFrom 32 (flBin need + 1) b.flBitmap) left with
      | found x =>
          rw [hrest] at h
          exact hrows _ _ (hrest.trans (congrArg Search.found (Option.some.inj h)))
      | refused =>
          rw [hrest] at h
          cases h
      | missed left' =>
          rw [hrest] at h
          cases h

/-- **Containment of `alloc`.**  Over arbitrary bins and zone bytes, an `alloc` is refused and
changes nothing, or takes a block `blk` that its search has found and makes the zone writes
`allocWrites`.

As long as no link word it writes tears a word of the block it reads afterwards, they lie in
the pool's window exactly where the block, its links, the remainder and the head of the
remainder's bin do. -/
theorem alloc_contained (hz : ZoneOk G) (p size alignment flags tag : ℕ) :
    let r := alloc G p size alignment flags tag
    (r.1 ≠ .ok → r.2.2 = G)
      ∧ (r.1 = .ok → ∃ need blk, allocNeed size = some need
        ∧ binsFind (popSlot G) (G.pools p).bins need = some blk
        ∧ r.2.2.mem = replay G.mem (allocWrites G p blk need size (allocFlags flags))
        ∧ (AllocUntorn G.zone G.mem blk →
          (AllWithin (poolStart G (G.pools p)) (poolEnd G (G.pools p))
              (allocWrites G p blk need size (allocFlags flags)) ↔
            AllocRoom G.zone (poolStart G (G.pools p)) (poolEnd G (G.pools p)) (G.pools p).bins
              G.mem blk need size (allocFlags flags)))) := by
  dsimp only
  rcases alloc_cases G p size alignment flags tag with ⟨st, hst, heq⟩ | ⟨need, blk, ha, heq⟩
  · rw [heq]
    exact ⟨fun _ => rfl, fun h => absurd h hst⟩
  · rw [heq]
    refine ⟨fun h => absurd rfl h, fun _ => ⟨need, blk, ha.needEq, ?_, ?_, fun ht => ?_⟩⟩
    · exact ha.found
    · rw [allocCommit_mem, allocResult, allocBlock_replay, allocWrites, replay_append]
      split_ifs <;> rfl
    · obtain ⟨hmin, hmod, hsize, -⟩ := allocNeed_spec ha.needEq
      have hge := PmConfig.minBlock_ge
      have hlt := hz.zoneSize_lt
      have hstart := poolStart_eq G (G.pools p)
      -- the block of the search is readable and passes `off_in_pool`
      obtain ⟨off, hoff, rfl⟩ := binsFind_readable ha.found
      have hpool := ha.inPool
      have hzs : (popSlot G).zoneSize = G.zoneSize := rfl
      have hzone : (popSlot G).zone = G.zone := rfl
      rw [hzone] at hpool ⊢
      rw [offOf_ptrOf (by omega), offInPool] at hpool
      simp only [decide_eq_true_eq] at hpool
      refine allocWrites_within_iff ?_ ha.large (by omega) (by omega) ha.sizePos ht
      rw [ptrOf]
      omega

/-- Two fresh pools side by side. -/
def besideFresh : GlobalState :=
  letI := defaultConfig
  runOps (init .zero smallZone).2 [.createPool 1, .createPool 1]

/-- The first pool's free block claims a predecessor in the second pool. -/
def linkedAway : GlobalState := besideFresh.forge 16 2000

omit [PmConfig] in
lemma besideFresh_zone : letI := defaultConfig; ZoneOk besideFresh := by
  let _ := defaultConfig
  have hreach : Reachable besideFresh := smallZone_runOps _
  obtain ⟨Ls, hinv⟩ := hreach.healthy
  exact hinv.zone

omit [PmConfig] in
/-- `alloc` succeeds, and has written into the free block of the second pool. -/
theorem linkedAway_leaks :
    letI := defaultConfig
    let r := alloc linkedAway 0 24 8 0 7
    ZoneOk linkedAway ∧ r.1 = .ok ∧ poolEnd linkedAway (linkedAway.pools 0) ≤ 2020
      ∧ load32 r.2.2.mem 2020 ≠ load32 linkedAway.mem 2020 := by
  let _ := defaultConfig
  refine ⟨?_, by decide +kernel⟩
  rw [linkedAway]
  exact besideFresh_zone.of_same (sameZone_forge _ _ _)

omit [PmConfig] in
/-- Without damage all writes of the same `alloc` lie in the window. -/
theorem alloc_contained_besideFresh :
    letI := defaultConfig
    let P := besideFresh.pools 0
    AllWithin (poolStart besideFresh P) (poolEnd besideFresh P)
      (allocWrites besideFresh 0 8 32 24 0) := by
  let _ := defaultConfig
  have hok : (alloc besideFresh 0 24 8 0 7).1 = .ok := by decide +kernel
  have hneed : allocNeed 24 = some 32 := by decide
  have hfound : binsFind (popSlot besideFresh) (besideFresh.pools 0).bins 32 = some 8 := by
    decide +kernel
  obtain ⟨need, blk, hneed', hfound', -, hiff⟩ :=
    (alloc_contained besideFresh_zone 0 24 8 0 7).2 hok
  obtain rfl : 32 = need := Option.some.inj (hneed.symm.trans hneed')
  obtain rfl : 8 = blk := Option.some.inj (hfound.symm.trans hfound')
  refine (hiff ⟨Or.inl (by decide +kernel), Or.inl (by decide +kernel),
    Or.inl (by decide +kernel)⟩).mpr ⟨by decide +kernel, ⟨Or.inl (by decide +kernel),
    Or.inl (by decide +kernel)⟩, fun h => absurd h (by decide +kernel),
    fun _ => ⟨by decide +kernel, ?_⟩,
    fun _ => by decide +kernel⟩
  exact Or.inr (Or.inl (by decide +kernel))

end PondMerge
