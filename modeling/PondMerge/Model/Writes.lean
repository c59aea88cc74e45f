import PondMerge.Model.Objects
import PondMerge.Library.WriteLog

/-!
The zone writes of `alloc` and `free`, store by store, in the order in which the source
makes them.
-/

namespace PondMerge

open ByteMemory

variable [PmConfig]

/-! ### Bins -/

/-- The writes of `bins_insert`. -/
def binsInsertWrites (zone : ℕ) (b : TlsfBins) (m : Mem) (blk : ℕ) : List Write :=
  let old := b.head (flBin (blkSizeOf m blk)) (slBin (blkSizeOf m blk))
  [.word (blk + 8) nullOff, .word (blk + 12) old]
    ++ if old ≠ nullOff then [.word (ptrOf zone old + 8) (offOf zone blk)] else []

/-- The write of `bins_remove` to the predecessor's `next` link. -/
def unlinkPrevWrites (zone : ℕ) (m : Mem) (blk : ℕ) : List Write :=
  if blkPrev m blk ≠ nullOff then [.word (ptrOf zone (blkPrev m blk) + 12) (blkNext m blk)]
  else []

/-- The write of `bins_remove` to the successor's `prev` link. -/
def unlinkNextWrites (zone : ℕ) (m : Mem) (blk : ℕ) : List Write :=
  if blkNext m blk ≠ nullOff then [.word (ptrOf zone (blkNext m blk) + 8) (blkPrev m blk)]
  else []

/-- The writes of `bins_remove`; the links are read again after the first one. -/
def binsRemoveWrites (zone : ℕ) (m : Mem) (blk : ℕ) : List Write :=
  unlinkPrevWrites zone m blk
    ++ unlinkNextWrites zone (replay m (unlinkPrevWrites zone m blk)) blk
    ++ [.word (blk + 12) nullOff, .word (blk + 8) nullOff]

/-! ### `alloc` -/

/-- The writes of `allocSplit`. -/
def allocSplitWrites (zone poolStop : ℕ) (b : TlsfBins) (m : Mem) (blk blksize need : ℕ) :
    List Write :=
  let after := blk + blksize
  let rest := sub32 blksize need
  if pmMinBlock ≤ rest then
    let rem := blk + need
    let stamp := [.word rem (rest ||| blockFreeBit), .word (rem + 4) need,
      .word (rem + 12) nullOff, .word (rem + 8) nullOff]
    stamp ++ binsInsertWrites zone b (replay m stamp) rem
      ++ if after < poolStop then [.word (after + 4) rest] else []
  else if after < poolStop then [.word (after + 4) blksize] else []

/-- The writes of `allocBlock`. -/
def allocBlockWrites (zone poolStop : ℕ) (b : TlsfBins) (m : Mem) (blk need : ℕ) :
    List Write :=
  let bm := binsRemove zone b m blk
  let r := allocSplit zone poolStop bm.1 bm.2 blk (blkSizeOf bm.2 blk) need
  binsRemoveWrites zone m blk
    ++ allocSplitWrites zone poolStop bm.1 bm.2 blk (blkSizeOf bm.2 blk) need
    ++ [.word blk r.2.2, .word (blk + 4) (load32 bm.2 (blk + 4))]

/-- The zone writes of `alloc`'s mutation phase. -/
def allocWrites (G : GlobalState) (p blk need size flags : ℕ) : List Write :=
  allocBlockWrites G.zone (poolEnd G (G.pools p)) (G.pools p).bins G.mem blk need
    ++ if flags &&& pmZeroInit ≠ 0 then [.fill (blk + 8) 0 size] else []

/-! ### `free` -/

/-- The writes of `mergePrev`. -/
def mergePrevWrites (zone : ℕ) (m : Mem) (block : ℕ) : List Write :=
  let psize := load32 m (block + 4)
  if psize ≠ 0 ∧ blkIsFree m (block - psize) then binsRemoveWrites zone m (block - psize)
  else []

/-- The writes of `mergeNext`. -/
def mergeNextWrites (zone stop : ℕ) (m : Mem) (block bsize : ℕ) : List Write :=
  if block + bsize < stop ∧ blkIsFree m (block + bsize) then
    binsRemoveWrites zone m (block + bsize)
  else []

/-- The writes of `putMerged`. -/
def putMergedWrites (zone stop : ℕ) (b : TlsfBins) (m : Mem) (block bsize : ℕ) : List Write :=
  let stamp := [.word block (bsize ||| blockFreeBit), .word (block + 12) nullOff,
    .word (block + 8) nullOff]
  stamp ++ binsInsertWrites zone b (replay m stamp) block
    ++ if block + bsize < stop then [.word (block + bsize + 4) bsize] else []

/-- The zone writes of `free`'s mutation phase. -/
def freeWrites (zone stop : ℕ) (b : TlsfBins) (m : Mem) (block bsize : ℕ) : List Write :=
  let back := mergePrev zone b m block bsize
  let fwd := mergeNext zone stop back.1 back.2.1 back.2.2.1 back.2.2.2
  mergePrevWrites zone m block
    ++ mergeNextWrites zone stop back.2.1 back.2.2.1 back.2.2.2
    ++ putMergedWrites zone stop fwd.1 fwd.2.1 back.2.2.1 fwd.2.2

/-! ### The memory is that of the writes -/

section Replay

variable {zone stop blk : ℕ} {b : TlsfBins} {m : Mem}

lemma binsInsert_replay :
    (binsInsert zone b m blk).2 = replay m (binsInsertWrites zone b m blk) := by
  rw [binsInsert, binsInsertWrites]
  dsimp only
  split_ifs <;> rfl

lemma binsRemove_replay :
    (binsRemove zone b m blk).2 = replay m (binsRemoveWrites zone m blk) := by
  have hprev : replay m (unlinkPrevWrites zone m blk) =
      if blkPrev m blk ≠ nullOff then store32 m (ptrOf zone (blkPrev m blk) + 12) (blkNext m blk)
      else m := by
    rw [unlinkPrevWrites]
    split_ifs <;> rfl
  rw [binsRemove, binsRemoveWrites, replay_append, replay_append, hprev]
  generalize (if blkPrev m blk ≠ nullOff then
    store32 m (ptrOf zone (blkPrev m blk) + 12) (blkNext m blk) else m) = m₁
  rw [unlinkNextWrites]
  dsimp only
  split_ifs <;> rfl

lemma allocSplit_replay {blksize need : ℕ} :
    (allocSplit zone stop b m blk blksize need).2.1 =
      replay m (allocSplitWrites zone stop b m blk blksize need) := by
  rw [allocSplit, allocSplitWrites]
  dsimp only
  split_ifs
  · rw [replay_append, replay_append, ← binsInsert_replay]
    rfl
  · rw [replay_append, replay_append, ← binsInsert_replay]
    rfl
  · rfl
  · rfl

lemma allocBlock_replay {need : ℕ} :
    (allocBlock zone stop b m blk need).2.1 =
      replay m (allocBlockWrites zone stop b m blk need) := by
  rw [allocBlock, allocBlockWrites]
  dsimp only
  rw [replay_append, replay_append, ← @binsRemove_replay _ zone blk b, ← allocSplit_replay]
  rfl

lemma freeBlock_replay {bsize : ℕ} :
    (freeBlock zone stop b m blk bsize).2 = replay m (freeWrites zone stop b m blk bsize) := by
  have hback : (mergePrev zone b m blk bsize).2.1 = replay m (mergePrevWrites zone m blk) := by
    rw [mergePrev, mergePrevWrites]
    dsimp only
    split_ifs
    · exact @binsRemove_replay _ zone _ b m
    · rfl
  rw [freeBlock, freeWrites]
  rw [replay_append, replay_append, ← hback]
  generalize mergePrev zone b m blk bsize = back
  have hfwd : (mergeNext zone stop back.1 back.2.1 back.2.2.1 back.2.2.2).2.1 =
      replay back.2.1 (mergeNextWrites zone stop back.2.1 back.2.2.1 back.2.2.2) := by
    rw [mergeNext, mergeNextWrites]
    dsimp only
    split_ifs
    · exact @binsRemove_replay _ zone _ back.1 _
    · rfl
  rw [← hfwd]
  generalize mergeNext zone stop back.1 back.2.1 back.2.2.1 back.2.2.2 = fwd
  rw [putMerged, putMergedWrites]
  dsimp only
  rw [replay_append, replay_append, ← binsInsert_replay]
  split_ifs <;> rfl

end Replay

end PondMerge
