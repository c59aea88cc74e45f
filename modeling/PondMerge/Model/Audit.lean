import PondMerge.Model.Bins
import PondMerge.Model.Slots

/-!
The read-only proofs of `core.cpp` that gate every mutation: reference validation, the
anchored membership proof of a free block, the descriptor audit of the maintenance
operations, the bins audit, and the bitmap check of a refused allocation.
-/

namespace PondMerge

open ByteMemory

variable [PmConfig]

/-! ### References -/

/-- `desc_block_consistent`: the descriptor can describe a real block. -/
def descBlockConsistent (d : ObjectDesc) : Bool :=
  pmMinBlock ≤ d.blockSize ∧ d.blockSize % 8 = 0 ∧ d.size ≤ d.blockSize - 8 ∧ d.size ≠ 0
    ∧ d.address % 8 = 0

/-- The link screen of `check_ref`: `order_unlink` dereferences these links. -/
def linksInTable (d : ObjectDesc) : Bool :=
  (d.addrPrev = noOrder ∨ d.addrPrev < pmMaxObjects)
    ∧ (d.addrNext = noOrder ∨ d.addrNext < pmMaxObjects)

/-- The pool-range proof of `check_ref`, in zone offsets: block and payload lie inside the
window of `P`. -/
def blockInWindow (G : GlobalState) (P : Pool) (d : ObjectDesc) : Bool :=
  let aoff := d.address - G.zone
  let boff := aoff - 8
  let pstart := poolStartOff G P
  let pend := pstart + poolCapacity G P
  G.zone + 8 ≤ d.address ∧ pstart ≤ boff ∧ boff < pend ∧ d.blockSize ≤ pend - boff
    ∧ aoff + d.size ≤ pend

/-- A power of two no larger than `PM_MAX_ALIGNMENT`. -/
def alignmentOk (a : ℕ) : Bool := a ≠ 0 ∧ a &&& (a - 1) = 0 ∧ a ≤ pmMaxAlignment

/-- `check_ref`: the address a reference resolves to, or the status that refuses it.  The
pool and the descriptor it names are those of `G.objects ref.index`. -/
def checkRef (G : GlobalState) (ref : RawRef) (accessSize accessAlign : ℕ)
    (requireRunning : Bool) : Except Status ℕ :=
  let d := G.objects ref.index
  if !G.initialized then .error .notInitialized
  else if pmMaxObjects ≤ ref.index ∨ ref.generation = 0 then .error .invalidRef
  else if d.state ≠ .live then .error .invalidRef
  else if d.generation ≠ ref.generation then .error .invalidRef
  else if !descBlockConsistent d then .error .corruptMetadata
  else if !linksInTable d then .error .corruptMetadata
  else match poolAt G d.poolId with
  | none => .error .corruptMetadata
  | some P =>
    if !poolGeometryOk G P then .error .corruptMetadata
    else if !blockInWindow G P d then .error .corruptMetadata
    else if ref.poolHint ≠ crossHint ∧ ref.poolHint ≠ d.poolId then .error .poolChanged
    else if requireRunning ∧ P.state ≠ .running then .error .busy
    else if !alignmentOk accessAlign then .error .invalidAlignment
    else if d.size < ref.offset ∨ d.size - ref.offset < accessSize then .error .invalidRef
    else if (d.address + ref.offset) &&& (accessAlign - 1) ≠ 0 then .error .invalidAlignment
    else .ok (d.address + ref.offset)

/-- `pool_maintainable`. -/
def poolMaintainable (P : Pool) : Bool := P.state = .running ∨ P.state = .paused

/-- The pool is inside a maintenance operation. -/
def poolInMaintenance (P : Pool) : Bool :=
  P.state = .compacting ∨ P.state = .merging ∨ P.state = .splitting

/-! ### The anchored link proof of `free` -/

/-- The `in_pool` screen of `free_block_binned`: eight bytes inside the window. -/
def offInPool (G : GlobalState) (P : Pool) (off : ℕ) : Bool :=
  poolStartOff G P ≤ off ∧ off + 8 ≤ poolStartOff G P + poolCapacity G P

/-- `free_block_binned`: the links of `fb` reciprocate its list position, and without a
predecessor it is the head of the bin its own size selects. -/
def freeBlockBinned (G : GlobalState) (P : Pool) (fb : ℕ) : Bool :=
  let m := G.mem
  let off := offOf G.zone fb
  let head := P.bins.head (flBin (blkSizeOf m fb)) (slBin (blkSizeOf m fb))
  let prev := blkPrev m fb
  let next := blkNext m fb
  offInPool G P off
    ∧ (head = nullOff ∨ offInPool G P head)
    ∧ (if prev ≠ nullOff then
        offInPool G P prev ∧ blkNext m (ptrOf G.zone prev) = off
      else head = off)
    ∧ (next ≠ nullOff → offInPool G P next ∧ blkPrev m (ptrOf G.zone next) = off)

/-! ### The descriptor audit -/

/-- One descriptor of `precheck_pool`: a sane block between `prevEnd` and `stop` whose
header agrees. -/
def precheckSlot (G : GlobalState) (start stop prevEnd : ℕ) (d : ObjectDesc) : Bool :=
  pmMinBlock ≤ d.blockSize ∧ d.blockSize % 8 = 0 ∧ d.size ≤ d.blockSize - 8
    ∧ start + 8 ≤ d.address ∧ d.address % 8 = 0
    ∧ d.block < stop ∧ d.address ≤ stop ∧ d.blockSize ≤ stop - d.block
    ∧ d.size ≤ stop - d.address ∧ prevEnd ≤ d.block
    ∧ blkIsFree G.mem d.block = false ∧ blkSizeOf G.mem d.block = d.blockSize

/-- The loop of `precheck_pool`: the bytes in use, or `none` for a refused descriptor. -/
def precheckWalk (G : GlobalState) (start stop : ℕ) : List ℕ → ℕ → ℕ → Option ℕ
  | [], _, used => some used
  | i :: l, prevEnd, used =>
    let d := G.objects i
    if !precheckSlot G start stop prevEnd d then none
    else precheckWalk G start stop l (d.block + d.blockSize) (u32 (used + d.blockSize))

/-- `precheck_pool`: the audited, address-ordered slots of pool `pid` for the window
`[start, stop)`, or `none` for `CorruptMetadata`. -/
def precheckPool (G : GlobalState) (P : Pool) (pid start stop cap : ℕ) : Option (List ℕ) :=
  if !poolGeometryOk G P then none
  else match collectLiveSorted G P pid cap with
  | none => none
  | some l =>
    match precheckWalk G start stop l start 0 with
    | none => none
    | some used =>
      if l.length ≠ P.liveObjects ∨ used ≠ P.usedBytes then none
      else if P.freeBytes ≠ sub32 (u32 (stop - start)) used then none
      else some l

/-! ### The bins audit -/

/-- `prev_link_ok`: the `prev_size` of the block at zone offset `boff` is `0` or the own
size of the block that many bytes before it. -/
def prevLinkOk (G : GlobalState) (boff startOff : ℕ) : Bool :=
  let psize := load32 G.mem (G.zone + boff + 4)
  psize = 0 ∨ (pmMinBlock ≤ psize ∧ psize ≤ boff - startOff
    ∧ blkSizeOf G.mem (G.zone + (boff - psize)) = psize)

/-- The `in_pool` screen of `audit_pool_bins` and `validate`. -/
def rangeInPool (startOff endOff off len : ℕ) : Bool :=
  startOff ≤ off ∧ off ≤ endOff ∧ len ≤ endOff - off

/-- One block of `audit_pool_bins`, found at zone offset `off` in bin `(f, s)`. -/
def auditBlock (G : GlobalState) (startOff endOff f s off : ℕ) : Bool :=
  let m := G.mem
  let b := ptrOf G.zone off
  let bsize := blkSizeOf m b
  let next := blkNext m b
  let prev := blkPrev m b
  rangeInPool startOff endOff off 8
    ∧ pmMinBlock ≤ bsize ∧ bsize % 8 = 0
    ∧ rangeInPool startOff endOff off bsize
    ∧ blkIsFree m b
    ∧ flBin bsize = f ∧ slBin bsize = s
    ∧ (next ≠ nullOff →
        rangeInPool startOff endOff next 8 ∧ blkPrev m (ptrOf G.zone next) = off)
    ∧ (prev ≠ nullOff →
        rangeInPool startOff endOff prev 8 ∧ blkNext m (ptrOf G.zone prev) = off)
    ∧ prevLinkOk G off startOff

/-- The walk of one bin in `audit_pool_bins`: the bytes of its blocks. -/
def auditWalk (G : GlobalState) (startOff endOff f s : ℕ) : ℕ → ℕ → Option ℕ
  | 0, off => if off = nullOff then some 0 else none
  | fuel + 1, off =>
    if off = nullOff then some 0
    else if !auditBlock G startOff endOff f s off then none
    else (auditWalk G startOff endOff f s fuel (blkNext G.mem (ptrOf G.zone off))).map
      (blkSizeOf G.mem (ptrOf G.zone off) + ·)

/-- All bins, row by row. -/
def allBins : List (ℕ × ℕ) :=
  (List.range flCount).flatMap fun f => (List.range pmSlCount).map fun s => (f, s)

/-- The double loop of `audit_pool_bins`. -/
def auditBins (G : GlobalState) (P : Pool) (startOff endOff steps : ℕ) :
    List (ℕ × ℕ) → Option ℕ
  | [] => some 0
  | (f, s) :: l =>
    let off := P.bins.head f s
    if decide (off ≠ nullOff) ≠ (P.bins.slBitmap f).testBit s then none
    else match auditWalk G startOff endOff f s steps off with
    | none => none
    | some n => (auditBins G P startOff endOff steps l).map (n + ·)

/-- `flcheck`: the first-level bitmap the second-level rows call for. -/
def flCheck (P : Pool) : ℕ :=
  (List.range flCount).foldl
    (fun acc f => if P.bins.slBitmap f ≠ 0 then acc ||| 2 ^ f else acc) 0

/-- `audit_pool_bins`: the total of the binned bytes, or `none` for `CorruptMetadata`. -/
def auditPoolBins (G : GlobalState) (P : Pool) : Option ℕ :=
  let startOff := poolStartOff G P
  let endOff := startOff + poolCapacity G P
  match auditBins G P startOff endOff (u32 (poolCapacity G P / pmMinBlock + 1)) allBins with
  | none => none
  | some total => if flCheck P ≠ P.bins.flBitmap then none else some total

/-- `bins_bitmap_consistent`, one bin: the bit agrees with the head, and a head is a free
block of the window whose own size selects the bin. -/
def headConsistent (G : GlobalState) (P : Pool) (f s : ℕ) : Bool :=
  let off := P.bins.head f s
  let bit := (P.bins.slBitmap f).testBit s
  let b := ptrOf G.zone off
  if off = nullOff then !bit
  else bit ∧ offInPool G P off ∧ blkIsFree G.mem b
    ∧ flBin (blkSizeOf G.mem b) = f ∧ slBin (blkSizeOf G.mem b) = s

/-- `bins_bitmap_consistent`. -/
def binsBitmapConsistent (G : GlobalState) (P : Pool) : Bool :=
  allBins.all (fun fs => headConsistent G P fs.1 fs.2)
    && (List.range flCount).all fun f =>
      decide (P.bins.slBitmap f ≠ 0) == P.bins.flBitmap.testBit f

end PondMerge
