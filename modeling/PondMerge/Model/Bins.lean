import PondMerge.Model.State

/-!
The TLSF bins of `core.cpp`: size classes, insertion, removal and search.

A free block starts with four words: header, `prev_size`, and the bin links `prev` and
`next`, which are zone offsets.  A block is known by its address.
-/

namespace PondMerge

open ByteMemory

variable [PmConfig]

/-- `fl_index`: the first level of a size, saturating at `PM_FL_MAX - 1`. -/
def flIndex (size : ℕ) : ℕ :=
  if size < 2 ^ 4 then 4
  else if Nat.log2 size < pmFlMax then Nat.log2 size else pmFlMax - 1

/-- `sl_index`: the second level of a size.  The difference and the product are 32-bit. -/
def slIndex (size fl : ℕ) : ℕ :=
  if u32 (sub32 size (2 ^ fl) * pmSlCount) / 2 ^ fl < pmSlCount then
    u32 (sub32 size (2 ^ fl) * pmSlCount) / 2 ^ fl
  else pmSlCount - 1

/-- The row of the bin a block's own size selects: `fl_index(size) - MIN_FL`. -/
def flBin (size : ℕ) : ℕ := flIndex size - 4

/-- The column of the bin a block's own size selects. -/
def slBin (size : ℕ) : ℕ := slIndex size (flIndex size)

/-- The `prev` link of a free block. -/
def blkPrev (m : Mem) (blk : ℕ) : ℕ := load32 m (blk + 8)

/-- The `next` link of a free block. -/
def blkNext (m : Mem) (blk : ℕ) : ℕ := load32 m (blk + 12)

namespace TlsfBins

/-- Overwrites one list head. -/
def setHead (b : TlsfBins) (f s off : ℕ) : TlsfBins :=
  { b with head := Function.update b.head f (Function.update (b.head f) s off) }

/-- `sl_bitmap[f] |= 1 << s; fl_bitmap |= 1 << f`. -/
def setBits (b : TlsfBins) (f s : ℕ) : TlsfBins :=
  { b with
    slBitmap := Function.update b.slBitmap f (b.slBitmap f ||| 2 ^ s)
    flBitmap := b.flBitmap ||| 2 ^ f }

/-- `sl_bitmap[f] &= ~(1 << s)`, and the first-level bit too once no second-level bit of
the row is left. -/
def clearBits (b : TlsfBins) (f s : ℕ) : TlsfBins :=
  let row := b.slBitmap f &&& (2 ^ 16 - 1 - 2 ^ s)
  { b with
    slBitmap := Function.update b.slBitmap f row
    flBitmap := if row = 0 then b.flBitmap &&& (2 ^ 32 - 1 - 2 ^ f) else b.flBitmap }

end TlsfBins

/-- `bins_insert`: pushes a block onto the front of the bin its size selects. -/
def binsInsert (zone : ℕ) (b : TlsfBins) (m : Mem) (blk : ℕ) : TlsfBins × Mem :=
  let f := flBin (blkSizeOf m blk)
  let s := slBin (blkSizeOf m blk)
  let old := b.head f s
  let m := store32 m (blk + 8) nullOff
  let m := store32 m (blk + 12) old
  let m := if old ≠ nullOff then store32 m (ptrOf zone old + 8) (offOf zone blk) else m
  ((b.setHead f s (offOf zone blk)).setBits f s, m)

/-- `bins_remove`: unlinks a block from the bin its size selects. -/
def binsRemove (zone : ℕ) (b : TlsfBins) (m : Mem) (blk : ℕ) : TlsfBins × Mem :=
  let f := flBin (blkSizeOf m blk)
  let s := slBin (blkSizeOf m blk)
  let prev := blkPrev m blk
  let m₁ := if prev ≠ nullOff then store32 m (ptrOf zone prev + 12) (blkNext m blk) else m
  let b₁ := if prev ≠ nullOff then b else b.setHead f s (blkNext m blk)
  let next := blkNext m₁ blk
  let m₂ := if next ≠ nullOff then store32 m₁ (ptrOf zone next + 8) (blkPrev m₁ blk) else m₁
  let b₂ := if b₁.head f s = nullOff then b₁.clearBits f s else b₁
  let m₃ := store32 m₂ (blk + 12) nullOff
  (b₂, store32 m₃ (blk + 8) nullOff)

/-! ### The search -/

/-- What one list walk, one row or the whole search of `bins_find` comes to: a block, the
early `return nullptr` of a damaged list, or nothing so far and the hops still allowed. -/
inductive Search where
  | found (blk : ℕ)
  | refused
  | missed (left : ℕ)
  deriving DecidableEq, Repr

/-- The first-fit walk of one bin.  `left` is what `max_hops` still allows. -/
def binsFindWalk (G : GlobalState) (need : ℕ) : ℕ → ℕ → Search
  | 0, off => if off = nullOff then .missed 0 else .refused
  | left + 1, off =>
    if off = nullOff then .missed (left + 1)
    else if !zoneOffReadable G off then .refused
    else if need ≤ blkSizeOf G.mem (ptrOf G.zone off) then .found (ptrOf G.zone off)
    else binsFindWalk G need left (blkNext G.mem (ptrOf G.zone off))

/-- The bins of one row, in ascending order of the bits of `sl_map`. -/
def binsFindRow (G : GlobalState) (b : TlsfBins) (need f : ℕ) : List ℕ → ℕ → Search
  | [], left => .missed left
  | s :: ss, left =>
    match binsFindWalk G need left (b.head f s) with
    | .missed left => binsFindRow G b need f ss left
    | r => r

/-- The set bits of a bitmap of `w` bits from `lo` on, in the ascending order in which
`__builtin_ctz` and clearing the bit it returned visit them. -/
def bitsFrom (w lo map : ℕ) : List ℕ :=
  (List.range w).filter fun i => lo ≤ i && map.testBit i

/-- The rows above the first: each scans all its second-level bits. -/
def binsFindRows (G : GlobalState) (b : TlsfBins) (need : ℕ) : List ℕ → ℕ → Search
  | [], left => .missed left
  | f :: fs, left =>
    match binsFindRow G b need f (bitsFrom 16 0 (b.slBitmap f)) left with
    | .missed left => binsFindRows G b need fs left
    | r => r

/-- `bins_find`: the first fit in the rows from the request's own class on. -/
def binsFind (G : GlobalState) (b : TlsfBins) (need : ℕ) : Option ℕ :=
  if 2 ^ pmFlMax ≤ need then none
  else
    let f := flBin need
    let first := binsFindRow G b need f (bitsFrom 16 (slBin need) (b.slBitmap f))
      (G.zoneSize / pmMinBlock + 1)
    let r := match first with
      | .missed left => binsFindRows G b need (bitsFrom 32 (f + 1) b.flBitmap) left
      | r => r
    match r with
    | .found blk => some blk
    | _ => none

end PondMerge
