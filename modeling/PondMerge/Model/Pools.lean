import PondMerge.Model.Audit

/-!
Life of the library and of its pools: `init`, `create_pool`, `destroy_pool`, `pause`,
`resume`, `get_stats` and `global_stats`.
-/

namespace PondMerge

open ByteMemory

/-- `struct Config`, the argument of `init`.  The zone is a pointer, `0` being null. -/
structure InitConfig where
  zone : ℕ
  zoneSize : ℕ
  segmentSize : ℕ

variable [PmConfig]

/-- The descriptor table after `init`: every slot free, chained in index order. -/
def initObject (i : ℕ) : ObjectDesc :=
  { ObjectDesc.zero with
    addrPrev := noOrder
    addrNext := noOrder
    nextFreeSlot := if i + 1 < pmMaxObjects then i + 1 else noSlot }

/-- The global state a successful `init` leaves, over the bytes it finds. -/
def initState (cfg : InitConfig) (m : Mem) : GlobalState where
  zone := cfg.zone
  zoneSize := cfg.zoneSize / cfg.segmentSize * cfg.segmentSize
  segmentSize := cfg.segmentSize
  segmentCount := cfg.zoneSize / cfg.segmentSize
  pools := fun _ => Pool.zero
  objects := initObject
  freeSlotHead := 0
  liveObjectCount := 0
  maxLiveObjects := 0
  maxBorrowCount := 0
  maxFragmentBytes := 0
  maxBytesMoved := 0
  maxCompactTimeUs := 0
  initialized := true
  mem := m

/-- `init`. -/
def init (G : GlobalState) (cfg : InitConfig) : Status × GlobalState :=
  if G.initialized then (.busy, G)
  else if cfg.zone = 0 then (.invalidAlignment, G)
  else if cfg.segmentSize < 1024 then (.invalidAlignment, G)
  else if cfg.segmentSize &&& (cfg.segmentSize - 1) ≠ 0 then (.invalidAlignment, G)
  else if cfg.zoneSize < cfg.segmentSize then (.invalidAlignment, G)
  else if cfg.zone % 8 ≠ 0 then (.invalidAlignment, G)
  else if pmMaxSegments < cfg.zoneSize / cfg.segmentSize then (.noSpace, G)
  else if cfg.zoneSize / cfg.segmentSize = 0 then (.noSpace, G)
  else if (2 ^ 32 - 1) / cfg.segmentSize < cfg.zoneSize / cfg.segmentSize then (.noSpace, G)
  else if 2 ^ pmFlMax ≤ cfg.zoneSize / cfg.segmentSize * cfg.segmentSize then (.noSpace, G)
  else (.ok, initState cfg G.mem)

/-! ### Pools -/

/-- The final contents of `used[]` in `create_pool`: some pool's window holds segment `s`. -/
def segmentUsed (G : GlobalState) (s : ℕ) : Bool :=
  (List.range pmMaxPools).any fun i =>
    (G.pools i).state ≠ .empty ∧ (G.pools i).segmentFirst ≤ s
      ∧ s < (G.pools i).segmentFirst + (G.pools i).segmentCount

/-- The run search of `create_pool`: the start of the lowest run of `want` unused segments,
from segment `s` on and with `run` unused ones just before it. -/
def findRun (G : GlobalState) (want : ℕ) : ℕ → ℕ → ℕ → Option ℕ
  | 0, _, _ => none
  | left + 1, s, run =>
    if segmentUsed G s then findRun G want left (s + 1) 0
    else if want ≤ run + 1 then some (s + 1 - want)
    else findRun G want left (s + 1) (run + 1)

/-- The first Empty pool entry. -/
def firstEmptyPool (G : GlobalState) : Option ℕ :=
  (List.range pmMaxPools).find? fun i => decide ((G.pools i).state = .empty)

/-- The entry `create_pool` fills in before it bins the initial free block. -/
def newPool (G : GlobalState) (base count : ℕ) : Pool :=
  { Pool.zero with
    state := .running
    segmentFirst := u16 base
    segmentCount := u16 count
    structureEpoch := 1
    orderHead := noOrder
    freeBytes := u32 (u16 count * G.segmentSize)
    bins := .reset }

/-- The commit of `create_pool`: one binned free block over the whole window. -/
def openPool (G : GlobalState) (i base count : ℕ) : GlobalState :=
  let P := newPool G base count
  let blk := poolStart G P
  let m := store32 G.mem blk (poolCapacity G P ||| blockFreeBit)
  let m := store32 m (blk + 4) 0
  let m := store32 m (blk + 12) nullOff
  let m := store32 m (blk + 8) nullOff
  let bm := binsInsert G.zone P.bins m blk
  { G.setPool i { P with bins := bm.1 } with mem := bm.2 }

/-- `create_pool`: the status, the new pool's id where it is `Ok`, and the state.  The id is
16-bit; the first Empty entry is below `PM_MAX_SEGMENTS`, as every pool owns a segment. -/
def createPool (G : GlobalState) (segmentCount : ℕ) : Status × Option ℕ × GlobalState :=
  if !G.initialized then (.notInitialized, none, G)
  else if segmentCount = 0 then (.noSpace, none, G)
  else if G.segmentCount < segmentCount then (.noSpace, none, G)
  else if (List.range pmMaxPools).any fun i =>
      (G.pools i).state ≠ .empty ∧ !poolGeometryOk G (G.pools i) then
    (.corruptMetadata, none, G)
  else match findRun G segmentCount G.segmentCount 0 0 with
  | none => (.noSpace, none, G)
  | some base =>
    match firstEmptyPool G with
    | none => (.noSpace, none, G)
    | some i => (.ok, some i, openPool G i base segmentCount)

/-- `destroy_pool`. -/
def destroyPool (G : GlobalState) (id : ℕ) : Status × GlobalState :=
  if !G.initialized then (.notInitialized, G)
  else match poolAt G id with
  | none => (.invalidPool, G)
  | some P =>
    if P.liveObjects ≠ 0 ∨ P.borrowCount ≠ 0 then (.busy, G)
    else if poolInMaintenance P then (.busy, G)
    else (.ok, G.setPool id Pool.zero)

/-- `pause`. -/
def pause (G : GlobalState) (id : ℕ) : Status × GlobalState :=
  match poolAt G id with
  | none => (.invalidPool, G)
  | some P =>
    if P.state = .paused then (.alreadyPaused, G)
    else if P.state ≠ .running then (.busy, G)
    else (.ok, G.setPool id { P with state := .paused })

/-- `resume`. -/
def resume (G : GlobalState) (id : ℕ) : Status × GlobalState :=
  match poolAt G id with
  | none => (.invalidPool, G)
  | some P =>
    if P.state = .running then (.ok, G)
    else if P.state ≠ .paused then (.busy, G)
    else (.ok, G.setPool id { P with state := .running })

/-! ### Statistics -/

/-- The fields of `struct PoolStats` that `get_stats` computes rather than copies. -/
structure FreeStats where
  valid : Bool
  largestFreeBlock : ℕ
  deriving DecidableEq, Repr

/-- The walk of one bin in `get_stats`: the largest block so far, or `none` for a refused
cursor or a cyclic list.  `steps` counts the blocks already passed. -/
def statsWalk (G : GlobalState) (lo hi : ℕ) : ℕ → ℕ → ℕ → Option ℕ
  | 0, largest, off => if off = nullOff then some largest else none
  | fuel + 1, largest, off =>
    if off = nullOff then some largest
    else if off < lo ∨ hi < off then none
    else
      let b := ptrOf G.zone off
      statsWalk G lo hi fuel
        (if largest < blkSizeOf G.mem b then blkSizeOf G.mem b else largest) (blkNext G.mem b)

/-- The double loop of `get_stats`. -/
def statsBins (G : GlobalState) (P : Pool) (lo hi fuel : ℕ) : List (ℕ × ℕ) → ℕ → Option ℕ
  | [], largest => some largest
  | (f, s) :: l, largest =>
    match statsWalk G lo hi fuel largest (P.bins.head f s) with
    | none => none
    | some largest => statsBins G P lo hi fuel l largest

/-- The free-list part of `get_stats` for an existing pool: `max_steps + 1` blocks of a bin
are admitted, and a refusal reports `valid == 0` and no largest block. -/
def freeStats (G : GlobalState) (P : Pool) : FreeStats :=
  let startOff := poolStartOff G P
  let endOff := startOff + poolCapacity G P
  match statsBins G P (u32 startOff) (sub32 (u32 endOff) 8)
      (poolCapacity G P / pmMinBlock + 1 + 1) allBins 0 with
  | none => ⟨false, 0⟩
  | some largest => ⟨true, largest⟩

/-- `struct PoolStats`. -/
structure PoolStats where
  state : PoolState
  valid : Bool
  segmentFirst : ℕ
  segmentCount : ℕ
  usedBytes : ℕ
  freeBytes : ℕ
  largestFreeBlock : ℕ
  fragmentBytes : ℕ
  objectCount : ℕ
  borrowCount : ℕ
  structureEpoch : ℕ
  objectsMoved : ℕ
  bytesMoved : ℕ
  compactTimeUs : ℕ
  deriving DecidableEq, Repr

/-- `get_stats`. -/
def getStats (G : GlobalState) (id : ℕ) : PoolStats :=
  match poolAt G id with
  | none => ⟨.empty, false, 0, 0, 0, 0, 0, 0, 0, 0, 0, 0, 0, 0⟩
  | some P =>
    { state := P.state
      valid := (freeStats G P).valid
      segmentFirst := P.segmentFirst
      segmentCount := P.segmentCount
      usedBytes := P.usedBytes
      freeBytes := P.freeBytes
      largestFreeBlock := (freeStats G P).largestFreeBlock
      fragmentBytes := P.fragmentBytes
      objectCount := P.liveObjects
      borrowCount := P.borrowCount
      structureEpoch := P.structureEpoch
      objectsMoved := P.objectsMoved
      bytesMoved := P.bytesMoved
      compactTimeUs := P.compactTimeUs }

/-- `struct GlobalStats`, without `metadata_bytes`: the sizes of the static objects. -/
structure GlobalStats where
  maxLiveObjects : ℕ
  maxBorrowCount : ℕ
  maxFragmentBytes : ℕ
  maxBytesMoved : ℕ
  maxCompactTimeUs : ℕ
  deriving DecidableEq, Repr

/-- `global_stats`. -/
def globalStats (G : GlobalState) : GlobalStats where
  maxLiveObjects := G.maxLiveObjects
  maxBorrowCount := G.maxBorrowCount
  maxFragmentBytes := G.maxFragmentBytes
  maxBytesMoved := G.maxBytesMoved
  maxCompactTimeUs := G.maxCompactTimeUs

end PondMerge
