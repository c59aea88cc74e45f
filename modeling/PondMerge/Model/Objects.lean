import PondMerge.Model.Audit

/-!
Objects: `alloc`, `free`, `set_destroy_fn`, and the borrow accounting.
-/

namespace PondMerge

open ByteMemory

variable [PmConfig]

/-! ### Allocation -/

/-- The overflow-safe size math of `alloc`: the block a payload of `size` bytes needs, or
`none` where the request is refused. -/
def allocNeed (size : ℕ) : Option ℕ :=
  if 2 ^ 32 - 1 - 7 < size then none
  else if 2 ^ 32 - 1 - 8 < alignUpU size 8 then none
  else
    let need := if alignUpU size 8 + 8 < pmMinBlock then pmMinBlock else alignUpU size 8 + 8
    if 2 ^ pmFlMax ≤ need then none else some need

/-- `alloc` after `bins_remove`: splits the block at `blk` of `blksize` bytes where the
remainder holds a minimal block, and absorbs it into the allocation otherwise.  The result
is the bins, the memory and the final block size. -/
def allocSplit (zone poolStop : ℕ) (b : TlsfBins) (m : Mem) (blk blksize need : ℕ) :
    TlsfBins × Mem × ℕ :=
  let after := blk + blksize
  let rest := sub32 blksize need
  if pmMinBlock ≤ rest then
    let rem := blk + need
    let m := store32 m rem (rest ||| blockFreeBit)
    let m := store32 m (rem + 4) need
    let m := store32 m (rem + 12) nullOff
    let m := store32 m (rem + 8) nullOff
    let bm := binsInsert zone b m rem
    (bm.1, if after < poolStop then store32 bm.2 (after + 4) rest else bm.2, need)
  else (b, if after < poolStop then store32 m (after + 4) blksize else m, blksize)

/-- The block part of `alloc`'s mutation phase: takes the block at `blk` out of its bin,
splits it, and writes the header of the allocation.  The result is the bins, the memory and
the final block size. -/
def allocBlock (zone poolStop : ℕ) (b : TlsfBins) (m : Mem) (blk need : ℕ) :
    TlsfBins × Mem × ℕ :=
  let bm := binsRemove zone b m blk
  let oldPrev := load32 bm.2 (blk + 4)
  let r := allocSplit zone poolStop bm.1 bm.2 blk (blkSizeOf bm.2 blk) need
  (r.1, store32 (store32 r.2.1 blk r.2.2) (blk + 4) oldPrev, r.2.2)

/-- The descriptor of a fresh allocation; the links are those `order_append` has set. -/
def freshDesc (old : ObjectDesc) (address size blockSize userTag poolId flags gen : ℕ) :
    ObjectDesc :=
  { ObjectDesc.zero with
    address := address
    size := size
    blockSize := blockSize
    userTag := userTag
    poolId := poolId
    flags := flags
    generation := gen
    addressEpoch := 1
    addrPrev := old.addrPrev
    addrNext := old.addrNext
    state := .live }

/-- The statistics at the end of `alloc`. -/
def allocStats (G : GlobalState) (p blksize : ℕ) : GlobalState :=
  let P := G.pools p
  let used := u32 (P.usedBytes + blksize)
  let live := u32 (G.liveObjectCount + 1)
  { G.setPool p { P with
      usedBytes := used
      freeBytes := sub32 (poolCapacity G P) used
      liveObjects := u32 (P.liveObjects + 1) } with
    liveObjectCount := live
    maxLiveObjects := if G.maxLiveObjects < live then live else G.maxLiveObjects
    maxFragmentBytes :=
      if G.maxFragmentBytes < P.fragmentBytes then P.fragmentBytes else G.maxFragmentBytes }

/-- The first writes of `alloc`'s mutation phase: a blank descriptor with the payload's
address heads the live-slot list. -/
def allocOrder (G : GlobalState) (p slot blk : ℕ) : GlobalState :=
  orderAppend (G.setObj slot { ObjectDesc.zero with address := blk + 8 }) p slot

/-- The mutation phase of `alloc`, which cannot fail: slot `slot` becomes the allocation in
the binned free block `blk`. -/
def allocCommit (G : GlobalState) (p slot blk need size flags userTag : ℕ) : GlobalState :=
  let gen := nextGeneration (G.objects slot).generation
  let G := allocOrder G p slot blk
  let P := G.pools p
  let r := allocBlock G.zone (poolEnd G P) P.bins G.mem blk need
  let G := G.setPool p { P with bins := r.1 }
  let G := G.setObj slot
    (freshDesc (G.objects slot) (blk + 8) size r.2.2 userTag p flags gen)
  let m := if flags &&& pmZeroInit ≠ 0 then memset r.2.1 (blk + 8) 0 size else r.2.1
  allocStats { G with mem := m } p r.2.2

/-- `flags |= PM_PINNED` for DMA and external objects. -/
def allocFlags (flags : ℕ) : ℕ :=
  if flags &&& pmDmaExternal ≠ 0 then flags ||| pmPinned else flags

/-- The block search of `alloc` once a slot has been popped from `G₀`: every refusal gives
the slot back. -/
def allocFrom (G : GlobalState) (slot p need size flags userTag : ℕ) :
    Status × RawRef × GlobalState :=
  let P := G.pools p
  match binsFind G P.bins need with
  | none =>
    (if binsBitmapConsistent G P then .noSpace else .corruptMetadata, .null,
      slotRelease G slot)
  | some blk =>
    if !offInPool G P (offOf G.zone blk) ∨ !blkIsFree G.mem blk then
      (.corruptMetadata, .null, slotRelease G slot)
    else if blkSizeOf G.mem blk < need then (.noSpace, .null, slotRelease G slot)
    else
      (.ok, ⟨slot, nextGeneration (G.objects slot).generation, p, 0⟩,
        allocCommit G p slot blk need size flags userTag)

/-- `alloc`: the status, the reference written to `out`, and the state. -/
def alloc (G : GlobalState) (p size alignment flags userTag : ℕ) :
    Status × RawRef × GlobalState :=
  if !G.initialized then (.notInitialized, .null, G)
  else match poolAt G p with
  | none => (.invalidPool, .null, G)
  | some P =>
    if P.state ≠ .running then (.busy, .null, G)
    else if P.orderHead ≠ noOrder ∧ pmMaxObjects ≤ P.orderHead then
      (.corruptMetadata, .null, G)
    else if !poolGeometryOk G P then (.corruptMetadata, .null, G)
    else if size = 0 then (.invalidRef, .null, G)
    else if !alignmentOk alignment then (.invalidAlignment, .null, G)
    else if flags &&& pmUnknownFlags ≠ 0 then (.invalidRef, .null, G)
    else match allocNeed size with
    | none => (.noSpace, .null, G)
    | some need =>
      if (slotAlloc G).1 = noSlot then (.noSpace, .null, G)
      else allocFrom (slotAlloc G).2 (slotAlloc G).1 p need size (allocFlags flags) userTag

/-! ### Free -/

/-- `verify_neighbours`, backward: the `prev_size` chain closes on a real block, and a free
predecessor is binned. -/
def verifyPrev (G : GlobalState) (P : Pool) (block start : ℕ) : Bool :=
  let psize := load32 G.mem (block + 4)
  psize = 0 ∨ (pmMinBlock ≤ psize ∧ psize % 8 = 0 ∧ psize ≤ block - start
    ∧ blkSizeOf G.mem (block - psize) = psize
    ∧ (blkIsFree G.mem (block - psize) → freeBlockBinned G P (block - psize)))

/-- `verify_neighbours`, forward: a successor that claims to be free is a sane, binned free
block. -/
def verifyNext (G : GlobalState) (P : Pool) (fwd stop : ℕ) : Bool :=
  (fwd < stop ∧ blkIsFree G.mem fwd) →
    (pmMinBlock ≤ blkSizeOf G.mem fwd ∧ blkSizeOf G.mem fwd % 8 = 0
      ∧ blkSizeOf G.mem fwd ≤ stop - fwd ∧ freeBlockBinned G P fwd)

/-- The `verify_neighbours` of `free`, for the block at `block` in `[start, stop)`. -/
def verifyNeighbours (G : GlobalState) (P : Pool) (d : ObjectDesc) (block start stop : ℕ) :
    Bool :=
  blkIsFree G.mem block = false ∧ blkSizeOf G.mem block = d.blockSize
    ∧ verifyPrev G P block start ∧ verifyNext G P (block + d.blockSize) stop

/-- The backward merge of `free`: bins, memory, block start and block size. -/
def mergePrev (zone : ℕ) (b : TlsfBins) (m : Mem) (block bsize : ℕ) :
    TlsfBins × Mem × ℕ × ℕ :=
  let psize := load32 m (block + 4)
  if psize ≠ 0 ∧ blkIsFree m (block - psize) then
    let bm := binsRemove zone b m (block - psize)
    (bm.1, bm.2, block - psize, u32 (bsize + psize))
  else (b, m, block, bsize)

/-- The forward merge of `free`: bins, memory and block size. -/
def mergeNext (zone stop : ℕ) (b : TlsfBins) (m : Mem) (block bsize : ℕ) :
    TlsfBins × Mem × ℕ :=
  let next := block + bsize
  if next < stop ∧ blkIsFree m next then
    let bm := binsRemove zone b m next
    (bm.1, bm.2, u32 (bsize + blkSizeOf bm.2 next))
  else (b, m, bsize)

/-- The free block `free` leaves, binned, and its successor's `prev_size`. -/
def putMerged (zone stop : ℕ) (b : TlsfBins) (m : Mem) (block bsize : ℕ) : TlsfBins × Mem :=
  let m := store32 m block (bsize ||| blockFreeBit)
  let m := store32 m (block + 12) nullOff
  let m := store32 m (block + 8) nullOff
  let bm := binsInsert zone b m block
  (bm.1, if block + bsize < stop then store32 bm.2 (block + bsize + 4) bsize else bm.2)

/-- The block part of `free`'s mutation phase: coalesces the block at `block` with its free
neighbours and bins the result. -/
def freeBlock (zone stop : ℕ) (b : TlsfBins) (m : Mem) (block bsize : ℕ) : TlsfBins × Mem :=
  let back := mergePrev zone b m block bsize
  let fwd := mergeNext zone stop back.1 back.2.1 back.2.2.1 back.2.2.2
  putMerged zone stop fwd.1 fwd.2.1 back.2.2.1 fwd.2.2

/-- The descriptor of a freed object: its links are those `order_unlink` has cleared. -/
def freedDesc (d : ObjectDesc) : ObjectDesc :=
  { d with
    state := .free
    generation := nextGeneration d.generation
    address := 0
    activeBorrows := 0
    destroyFn := none }

/-- The first writes of `free`'s mutation phase: bins and zone bytes. -/
def freeHeap (G : GlobalState) (p idx block stop : ℕ) : GlobalState :=
  let bm := freeBlock G.zone stop (G.pools p).bins G.mem block (G.objects idx).blockSize
  { G.setPool p { G.pools p with bins := bm.1 } with mem := bm.2 }

/-- The mutation phase of `free`, which cannot fail. -/
def freeCommit (G : GlobalState) (p idx block stop : ℕ) : GlobalState :=
  let d := G.objects idx
  let G := orderUnlink (freeHeap G p idx block stop) p idx
  let P := G.pools p
  let used := sub32 P.usedBytes d.blockSize
  let G := { G.setPool p { P with
      usedBytes := used
      freeBytes := sub32 (poolCapacity G P) used
      liveObjects := sub32 P.liveObjects 1 } with
    liveObjectCount := sub32 G.liveObjectCount 1 }
  slotRelease (G.setObj idx (freedDesc (G.objects idx))) idx

/-- What running destroy callback `fn` on a payload address does to the state. -/
abbrev Callback := ℕ → ℕ → GlobalState → GlobalState

/-- The callback unit of `free`: the state turns Destroying, the callback runs, and the
proof is repeated; `none` is `CorruptMetadata` and keeps what the callback did. -/
def runDestroy (run : Callback) (G : GlobalState) (p idx block start stop fn : ℕ) :
    Option GlobalState × GlobalState :=
  let d := G.objects idx
  let G := run fn d.address (G.setObj idx { d with state := .destroying })
  if (G.objects idx).state ≠ .destroying then (none, G)
  else if !verifyNeighbours G (G.pools p) (G.objects idx) block start stop then (none, G)
  else (some G, G)

/-- `free`. -/
def free (run : Callback) (G : GlobalState) (ref : RawRef) : Status × GlobalState :=
  if !G.initialized then (.notInitialized, G)
  else if ref.offset ≠ 0 then (.invalidRef, G)
  else match checkRef G ref 0 1 true with
  | .error e => (e, G)
  | .ok _ =>
    let idx := ref.index
    let d := G.objects idx
    let p := d.poolId
    let start := poolStart G (G.pools p)
    let stop := poolEnd G (G.pools p)
    let block := d.block
    if d.activeBorrows ≠ 0 then (.busy, G)
    else if !verifyNeighbours G (G.pools p) d block start stop then (.corruptMetadata, G)
    else match d.destroyFn with
    | none => (.ok, freeCommit G p idx block stop)
    | some fn =>
      match runDestroy run G p idx block start stop fn with
      | (none, G) => (.corruptMetadata, G)
      | (some G, _) => (.ok, freeCommit G p idx block stop)

/-! ### Callbacks, borrows and resolution -/

/-- `set_destroy_fn`. -/
def setDestroyFn (G : GlobalState) (ref : RawRef) (fn : Option ℕ) : Status × GlobalState :=
  match checkRef G ref 0 1 false with
  | .error e => (e, G)
  | .ok _ =>
    if !(G.objects ref.index).pinned then (.notRelocatable, G)
    else (.ok, G.setObj ref.index { G.objects ref.index with destroyFn := fn })

/-- The counter updates of a successful `borrow_begin`. -/
def borrowCommit (G : GlobalState) (p idx : ℕ) : GlobalState :=
  let n := u32 ((G.pools p).borrowCount + 1)
  let G := G.setPool p { G.pools p with borrowCount := n }
  let G := G.setObj idx
    { G.objects idx with activeBorrows := u32 ((G.objects idx).activeBorrows + 1) }
  { G with maxBorrowCount := if G.maxBorrowCount < n then n else G.maxBorrowCount }

/-- `borrow_begin`: the status, `out_addr` (`0` for `nullptr`), and the state. -/
def borrowBegin (G : GlobalState) (ref : RawRef) (accessSize accessAlign : ℕ) :
    Status × ℕ × GlobalState :=
  match checkRef G ref accessSize accessAlign true with
  | .error e => (e, 0, G)
  | .ok addr => (.ok, addr, borrowCommit G (G.objects ref.index).poolId ref.index)

/-- The token check of `borrow_end`. -/
def borrowEndOk (G : GlobalState) (ref : RawRef) : Bool :=
  let d := G.objects ref.index
  G.initialized ∧ ref.index < pmMaxObjects ∧ d.state = .live ∧ d.generation ≠ 0
    ∧ d.generation = ref.generation
    ∧ (ref.poolHint = crossHint ∨ ref.poolHint = d.poolId)
    ∧ (poolAt G d.poolId).isSome ∧ 0 < d.activeBorrows ∧ 0 < (G.pools d.poolId).borrowCount

/-- `borrow_end` of a Release build: a token that does not match changes nothing. -/
def borrowEnd (G : GlobalState) (ref : RawRef) : GlobalState :=
  if borrowEndOk G ref then
    let d := G.objects ref.index
    let G := G.setObj ref.index { d with activeBorrows := d.activeBorrows - 1 }
    G.setPool d.poolId
      { G.pools d.poolId with borrowCount := (G.pools d.poolId).borrowCount - 1 }
  else G

/-- `resolve`: the status and `out_addr`; the state is untouched. -/
def resolve (G : GlobalState) (ref : RawRef) (accessSize accessAlign : ℕ) : Status × ℕ :=
  match checkRef G ref accessSize accessAlign true with
  | .error e => (e, 0)
  | .ok addr => (.ok, addr)

end PondMerge
