import PondMerge.Model.Audit

/-!
The two writers of the maintenance operations: `move_block`, which relocates a block, and
`finalize_layout`, which rebuilds headers, slack, free blocks and bins of a window.
-/

namespace PondMerge

open ByteMemory

variable [PmConfig]

/-! ### The relocation copy -/

/-- The forward word loop of `move_block`, from word `i` on: `k` words are left. -/
def copyWordsUp (m : Mem) (dst src : ℕ) : ℕ → ℕ → Mem
  | 0, _ => m
  | k + 1, i => copyWordsUp (store32 m (dst + 4 * i) (load32 m (src + 4 * i))) dst src k (i + 1)

/-- The backward word loop of `move_block`: words `k - 1`, …, `0`. -/
def copyWordsDown (m : Mem) (dst src : ℕ) : ℕ → Mem
  | 0 => m
  | k + 1 => copyWordsDown (store32 m (dst + 4 * k) (load32 m (src + 4 * k))) dst src k

/-- `move_block`.  The library's `memcpy` on disjoint ranges and its `memmove` are both
`memmove`. -/
def moveBlock (m : Mem) (dst src size : ℕ) : Mem :=
  if dst = src ∨ size = 0 then m
  else if dst + size ≤ src ∨ src + size ≤ dst then memmove m dst src size
  else if (dst ||| src ||| size) &&& 7 ≠ 0 then memmove m dst src size
  else if dst < src then copyWordsUp m dst src (size / 4) 0
  else copyWordsDown m dst src (size / 4)

/-! ### Rebuilding a window -/

/-- The loop state of `finalize_layout`: `prevOwn` is the size of the block that ends at
`prevEnd`, `0` for none or slack. -/
structure Rebuild where
  bins : TlsfBins
  mem : Mem
  prevEnd : ℕ
  prevOwn : ℕ
  used : ℕ
  fragment : ℕ

/-- Writes the free block `[a, a + n)` and bins it. -/
def putFree (zone : ℕ) (r : Rebuild) (a n : ℕ) : TlsfBins × Mem :=
  let m := store32 r.mem a (n ||| blockFreeBit)
  let m := store32 m (a + 4) r.prevOwn
  let m := store32 m (a + 12) nullOff
  let m := store32 m (a + 8) nullOff
  binsInsert zone r.bins m a

/-- What `finalize_layout` makes of the `gap` bytes from `prevEnd` on: a binned free block,
slack with a zero first word, or nothing. -/
def fillGap (zone : ℕ) (r : Rebuild) (gap : ℕ) : Rebuild :=
  if pmMinBlock ≤ gap then
    let bm := putFree zone r r.prevEnd gap
    { r with bins := bm.1, mem := bm.2, prevOwn := gap }
  else if 0 < gap then
    { r with
      mem := store32 r.mem r.prevEnd 0
      prevOwn := 0
      fragment := u32 (r.fragment + gap) }
  else r

/-- The live block of one descriptor, after its gap. -/
def putLive (r : Rebuild) (bstart bsize : ℕ) : Rebuild :=
  { r with
    mem := store32 (store32 r.mem bstart bsize) (bstart + 4) r.prevOwn
    prevEnd := bstart + bsize
    prevOwn := bsize
    used := u32 (r.used + bsize) }

/-- The loop of `finalize_layout` over the address-ordered slots; entries outside
`[start, stop)` belong to the other half of a split. -/
def finalizeLoop (zone start stop : ℕ) (objects : ℕ → ObjectDesc) :
    List ℕ → Rebuild → Rebuild
  | [], r => r
  | i :: l, r =>
    let d := objects i
    if d.block < start ∨ stop < d.block + d.blockSize then
      finalizeLoop zone start stop objects l r
    else
      let r := fillGap zone r (d.block - r.prevEnd)
      finalizeLoop zone start stop objects l (putLive r d.block d.blockSize)

/-- `finalize_layout` for pool `p` and the window `[start, stop)`. -/
def finalizeLayout (G : GlobalState) (p start stop : ℕ) (slots : List ℕ) : GlobalState :=
  let r := finalizeLoop G.zone start stop G.objects slots ⟨.reset, G.mem, start, 0, 0, 0⟩
  let r := fillGap G.zone r (stop - r.prevEnd)
  { G.setPool p { G.pools p with
      bins := r.bins
      usedBytes := r.used
      freeBytes := sub32 (u32 (stop - start)) r.used
      fragmentBytes := r.fragment } with mem := r.mem }

end PondMerge
