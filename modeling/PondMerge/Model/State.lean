import PondMerge.Model.Config
import PondMerge.Library.ByteMemory

/-!
`internal.h` and the data types of `pondmerge.hpp`: statuses, references, descriptors,
bins, pools and the global state.

Addresses are absolute, so `mem` is the memory of the whole address space and the Auto
Zone is its interval `[zone, zone + zoneSize)`; a zone offset is an address minus `zone`.
The fixed arrays are functions on indices; what an index out of their range would reach is
left unspecified.  Every field holds the value of the C++ field as a natural number.
-/

namespace PondMerge

open ByteMemory

/-- `enum class Status`. -/
inductive Status where
  | ok | busy | noSpace | invalidPool | invalidRef | invalidAlignment | pinnedConflict
  | notRelocatable | poolChanged | alreadyPaused | corruptMetadata | notInitialized
  | invalidRequest
  deriving DecidableEq, Repr

/-- `struct RawRef`, a logical reference. -/
structure RawRef where
  index : ℕ
  generation : ℕ
  poolHint : ℕ
  offset : ℕ
  deriving DecidableEq, Repr

/-- `RawRef{}`: generation `0` is never valid. -/
def RawRef.null : RawRef := ⟨0, 0, 0, 0⟩

/-! ### Object flags -/

/-- `PM_PINNED`. -/
def pmPinned : ℕ := 2

/-- `PM_DMA | PM_EXTERNAL`, the flags that imply `PM_PINNED`. -/
def pmDmaExternal : ℕ := 12

/-- `PM_ZERO_INIT`. -/
def pmZeroInit : ℕ := 16

/-- The complement, in 16 bits, of all the flags of `ObjectFlags`. -/
def pmUnknownFlags : ℕ := 0xFFE0

/-! ### Descriptors, bins and pools -/

/-- `enum class ObjState`. -/
inductive ObjState where
  | free | live | destroying
  deriving DecidableEq, Repr

/-- `struct ObjectDesc`.  A destroy callback is known by an identifier. -/
structure ObjectDesc where
  address : ℕ
  size : ℕ
  blockSize : ℕ
  userTag : ℕ
  poolId : ℕ
  flags : ℕ
  generation : ℕ
  addressEpoch : ℕ
  activeBorrows : ℕ
  nextFreeSlot : ℕ
  addrPrev : ℕ
  addrNext : ℕ
  destroyFn : Option ℕ
  state : ObjState
  deriving DecidableEq, Repr

/-- A descriptor of zero bytes. -/
def ObjectDesc.zero : ObjectDesc :=
  ⟨0, 0, 0, 0, 0, 0, 0, 0, 0, 0, 0, 0, none, .free⟩

/-- `d.flags & PM_PINNED`. -/
def ObjectDesc.pinned (d : ObjectDesc) : Bool := d.flags &&& pmPinned ≠ 0

/-- The start of the block a descriptor names: the payload follows an 8-byte header. -/
def ObjectDesc.block (d : ObjectDesc) : ℕ := d.address - 8

/-- `struct TlsfBins`. -/
structure TlsfBins where
  flBitmap : ℕ
  slBitmap : ℕ → ℕ
  head : ℕ → ℕ → ℕ

/-- Bins of zero bytes, as in an Empty pool entry; a usable one is reset first. -/
def TlsfBins.zero : TlsfBins := ⟨0, fun _ => 0, fun _ _ => 0⟩

/-- `TlsfBins::reset`: zone offset `0` is valid, so an empty head is `NULL_OFF`. -/
def TlsfBins.reset : TlsfBins := ⟨0, fun _ => 0, fun _ _ => nullOff⟩

/-- `enum class PoolState`. -/
inductive PoolState where
  | empty | running | paused | compacting | merging | splitting
  deriving DecidableEq, Repr

/-- `struct Pool`. -/
structure Pool where
  state : PoolState
  segmentFirst : ℕ
  segmentCount : ℕ
  borrowCount : ℕ
  structureEpoch : ℕ
  usedBytes : ℕ
  freeBytes : ℕ
  fragmentBytes : ℕ
  liveObjects : ℕ
  objectsMoved : ℕ
  bytesMoved : ℕ
  compactTimeUs : ℕ
  bins : TlsfBins
  orderHead : ℕ

/-- A pool entry of zero bytes, the Empty entry. -/
def Pool.zero : Pool := ⟨.empty, 0, 0, 0, 0, 0, 0, 0, 0, 0, 0, 0, .zero, 0⟩

/-- `struct GlobalState`, with the memory it manages. -/
@[ext]
structure GlobalState where
  zone : ℕ
  zoneSize : ℕ
  segmentSize : ℕ
  segmentCount : ℕ
  pools : ℕ → Pool
  objects : ℕ → ObjectDesc
  freeSlotHead : ℕ
  liveObjectCount : ℕ
  maxLiveObjects : ℕ
  maxBorrowCount : ℕ
  maxFragmentBytes : ℕ
  maxBytesMoved : ℕ
  maxCompactTimeUs : ℕ
  initialized : Bool
  mem : Mem

namespace GlobalState

/-- Overwrites one pool entry. -/
def setPool (G : GlobalState) (p : ℕ) (P : Pool) : GlobalState :=
  { G with pools := Function.update G.pools p P }

/-- Overwrites one descriptor. -/
def setObj (G : GlobalState) (i : ℕ) (d : ObjectDesc) : GlobalState :=
  { G with objects := Function.update G.objects i d }

section Fields

variable (G : GlobalState) (k : ℕ) (P : Pool) (d : ObjectDesc)

@[simp] lemma setPool_pools : (G.setPool k P).pools = Function.update G.pools k P := rfl
@[simp] lemma setPool_objects : (G.setPool k P).objects = G.objects := rfl
@[simp] lemma setPool_mem : (G.setPool k P).mem = G.mem := rfl
@[simp] lemma setPool_zone : (G.setPool k P).zone = G.zone := rfl
@[simp] lemma setPool_zoneSize : (G.setPool k P).zoneSize = G.zoneSize := rfl
@[simp] lemma setPool_segmentSize : (G.setPool k P).segmentSize = G.segmentSize := rfl
@[simp] lemma setPool_segmentCount : (G.setPool k P).segmentCount = G.segmentCount := rfl
@[simp] lemma setPool_initialized : (G.setPool k P).initialized = G.initialized := rfl
@[simp] lemma setPool_freeSlotHead : (G.setPool k P).freeSlotHead = G.freeSlotHead := rfl
@[simp] lemma setPool_liveObjectCount :
    (G.setPool k P).liveObjectCount = G.liveObjectCount := rfl

@[simp] lemma setObj_objects : (G.setObj k d).objects = Function.update G.objects k d := rfl
@[simp] lemma setObj_pools : (G.setObj k d).pools = G.pools := rfl
@[simp] lemma setObj_mem : (G.setObj k d).mem = G.mem := rfl
@[simp] lemma setObj_zone : (G.setObj k d).zone = G.zone := rfl
@[simp] lemma setObj_zoneSize : (G.setObj k d).zoneSize = G.zoneSize := rfl
@[simp] lemma setObj_segmentSize : (G.setObj k d).segmentSize = G.segmentSize := rfl
@[simp] lemma setObj_segmentCount : (G.setObj k d).segmentCount = G.segmentCount := rfl
@[simp] lemma setObj_initialized : (G.setObj k d).initialized = G.initialized := rfl
@[simp] lemma setObj_freeSlotHead : (G.setObj k d).freeSlotHead = G.freeSlotHead := rfl
@[simp] lemma setObj_liveObjectCount :
    (G.setObj k d).liveObjectCount = G.liveObjectCount := rfl

end Fields

end GlobalState

/-! ### Blocks in memory -/

/-- `blk_size_of`: the header word with the free bit cleared. -/
def blkSizeOf (m : Mem) (hdr : ℕ) : ℕ := load32 m hdr / 2 * 2

/-- `blk_is_free`: the free bit of the header word. -/
def blkIsFree (m : Mem) (hdr : ℕ) : Bool := load32 m hdr % 2 = 1

/-- `off_of`: the zone offset of an address. -/
def offOf (zone a : ℕ) : ℕ := u32 (a - zone)

/-- `ptr_of`: the address at a zone offset. -/
def ptrOf (zone off : ℕ) : ℕ := zone + off

/-- `zone_off_readable`: eight bytes at the offset lie inside the zone. -/
def zoneOffReadable (G : GlobalState) (off : ℕ) : Bool := off + 8 ≤ G.zoneSize

/-- `seg_base`. -/
def segBase (G : GlobalState) (first : ℕ) : ℕ := G.zone + first * G.segmentSize

/-- `pool_start_off`: the window's zone offset, without forming a pointer. -/
def poolStartOff (G : GlobalState) (P : Pool) : ℕ := P.segmentFirst * G.segmentSize

/-- `pool_start`. -/
def poolStart (G : GlobalState) (P : Pool) : ℕ := segBase G P.segmentFirst

/-- `pool_end`. -/
def poolEnd (G : GlobalState) (P : Pool) : ℕ := segBase G (P.segmentFirst + P.segmentCount)

/-- `pool_capacity`, in 32 bits. -/
def poolCapacity (G : GlobalState) (P : Pool) : ℕ := u32 (P.segmentCount * G.segmentSize)

/-- `pool_geometry_ok`: the window lies inside the zone. -/
def poolGeometryOk (G : GlobalState) (P : Pool) : Bool :=
  P.segmentFirst + P.segmentCount ≤ G.segmentCount
    ∧ (P.segmentFirst + P.segmentCount) * G.segmentSize ≤ G.zoneSize

/-- `pool_at`: the entry of a pool id that names a non-Empty pool. -/
def poolAt [PmConfig] (G : GlobalState) (id : ℕ) : Option Pool :=
  if id < pmMaxPools ∧ (G.pools id).state ≠ .empty then some (G.pools id) else none

end PondMerge
