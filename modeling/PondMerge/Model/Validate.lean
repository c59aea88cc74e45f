import PondMerge.Model.Audit

/-!
`validate`: the live-slot audit, the bins audit, the coverage sweep over the union of live
and free blocks, and the reconciliation of the counters.
-/

namespace PondMerge

open ByteMemory

variable [PmConfig]

/-- `kFreeOffCap`, the size of the free-block scratch of `validate`. -/
def kFreeOffCap : ℕ := pmMaxObjects + 1

/-- One live descriptor of `validate`, phase 1: a consistent descriptor whose block lies in
the pool at or after `prevEnd`, with an agreeing header and `prev_size` chain. -/
def validateSlot (G : GlobalState) (startOff endOff prevEnd : ℕ) (d : ObjectDesc) : Bool :=
  let aoff := d.address - G.zone
  let boff := aoff - 8
  descBlockConsistent d
    ∧ G.zone + 8 ≤ d.address
    ∧ rangeInPool startOff endOff boff d.blockSize ∧ rangeInPool startOff endOff aoff d.size
    ∧ prevEnd ≤ boff
    ∧ blkIsFree G.mem (G.zone + boff) = false
    ∧ blkSizeOf G.mem (G.zone + boff) = d.blockSize
    ∧ prevLinkOk G boff startOff

/-- Phase 1 of `validate`: the bytes in use, or `none` for a refused descriptor. -/
def validateLive (G : GlobalState) (startOff endOff : ℕ) : List ℕ → ℕ → ℕ → Option ℕ
  | [], _, used => some used
  | i :: l, prevEnd, used =>
    let d := G.objects i
    if !validateSlot G startOff endOff prevEnd d then none
    else validateLive G startOff endOff l (d.address - G.zone - 8 + d.blockSize)
      (u32 (used + d.blockSize))

/-- The offsets of one bin, in list order.  `fuel` is the step cap of the bins audit, which
has passed over the same list. -/
def binOffsets (G : GlobalState) : ℕ → ℕ → List ℕ
  | 0, _ => []
  | fuel + 1, off =>
    if off = nullOff then []
    else off :: binOffsets G fuel (blkNext G.mem (ptrOf G.zone off))

/-- `for_each_free`: the offsets of all binned free blocks. -/
def freeOffsets (G : GlobalState) (P : Pool) : List ℕ :=
  allBins.flatMap fun fs =>
    binOffsets G (u32 (poolCapacity G P / pmMinBlock + 1)) (P.bins.head fs.1 fs.2)

/-- A block of the sweep: its start and its end, as zone offsets. -/
abbrev Extent := ℕ × ℕ

/-- The blocks of the sweep that start at `s`, and the rest of an ordered list. -/
def takeGroup (s : ℕ) (l : List Extent) : List Extent × List Extent :=
  (l.takeWhile fun e => e.1 = s, l.dropWhile fun e => e.1 = s)

/-- The largest end of a group of blocks. -/
def groupEnd (e : ℕ) (l : List Extent) : ℕ := l.foldl (fun acc x => max acc x.2) e

/-- Where the next group of the sweep starts: the lower of the two cursors, of which an
exhausted one counts for nothing. -/
def groupStart : List Extent → List Extent → ℕ
  | x :: _, y :: _ => min x.1 y.1
  | x :: _, [] => x.1
  | [], y :: _ => y.1
  | [], [] => 0

/-- The `linear_sweep` loop of `validate`, over live blocks and free blocks in ascending
order.  `runMaxEnd` is the highest end so far and `prevFree` whether the last group held a
free block; the result is the final `runMaxEnd` and the slack. -/
def sweep : ℕ → List Extent → List Extent → ℕ → Bool → ℕ → Option (ℕ × ℕ)
  | 0, _, _, _, _, _ => none
  | fuel + 1, live, free, runMaxEnd, prevFree, slack =>
    if live.isEmpty ∧ free.isEmpty then some (runMaxEnd, slack)
    else
      let s := groupStart live free
      let gap := s - runMaxEnd
      let lg := takeGroup s live
      let fg := takeGroup s free
      if s < runMaxEnd ∨ pmMinBlock ≤ gap then none
      else if 1 < fg.1.length then none
      else if 1 ≤ fg.1.length ∧ prevFree ∧ gap = 0 then none
      else sweep fuel lg.2 fg.2 (groupEnd (groupEnd runMaxEnd lg.1) fg.1)
        (decide (1 ≤ fg.1.length)) (slack + gap * (lg.1.length + fg.1.length))

/-- The live blocks of the sweep. -/
def liveExtent (G : GlobalState) (i : ℕ) : Extent :=
  let boff := (G.objects i).address - G.zone - 8
  (boff, boff + (G.objects i).blockSize)

/-- The free blocks of the sweep. -/
def freeExtent (G : GlobalState) (off : ℕ) : Extent :=
  (off, off + blkSizeOf G.mem (ptrOf G.zone off))

/-- `validate`. -/
def validate (G : GlobalState) (id : ℕ) : Status :=
  if !G.initialized then .notInitialized
  else match poolAt G id with
  | none => .invalidPool
  | some P =>
    let capacity := poolCapacity G P
    let startOff := poolStartOff G P
    let endOff := startOff + capacity
    match collectLiveSorted G P id pmMaxObjects with
    | none => .corruptMetadata
    | some slots =>
      match validateLive G startOff endOff slots startOff 0 with
      | none => .corruptMetadata
      | some used =>
        if slots.length ≠ P.liveObjects ∨ used ≠ P.usedBytes then .corruptMetadata
        else if P.freeBytes ≠ sub32 capacity used then .corruptMetadata
        else match auditPoolBins G P with
        | none => .corruptMetadata
        | some freeTotal =>
          let offs := freeOffsets G P
          if kFreeOffCap < offs.length then .corruptMetadata
          else match sweep (slots.length + offs.length + 1) (slots.map (liveExtent G))
              ((sortU32Asc offs).map (freeExtent G)) startOff false 0 with
          | none => .corruptMetadata
          | some (maxEnd, slack) =>
            if endOff < maxEnd ∨ pmMinBlock ≤ endOff - maxEnd then .corruptMetadata
            else if used + freeTotal + (slack + (endOff - maxEnd)) ≠ capacity then
              .corruptMetadata
            else if P.freeBytes < P.fragmentBytes
                ∨ freeTotal ≠ P.freeBytes - P.fragmentBytes then .corruptMetadata
            else .ok

end PondMerge
