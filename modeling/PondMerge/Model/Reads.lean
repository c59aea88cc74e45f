import PondMerge.Model.Validate
import PondMerge.Model.Pools

/-!
`validate` and `get_stats` with every dereference checked: `none` stands for a read outside
the zone, for an index outside the array it is used on, and for a loop past its step cap.
-/

namespace PondMerge

open ByteMemory

variable [PmConfig]

/-! ### Checked accesses -/

/-- A 32-bit load at `a`, which has to lie in the zone. -/
def loadZ (G : GlobalState) (a : ℕ) : Option ℕ :=
  if G.zone ≤ a ∧ a + 4 ≤ G.zone + G.zoneSize then some (load32 G.mem a) else none

/-- The descriptor at index `i` of the table. -/
def descZ (G : GlobalState) (i : ℕ) : Option ObjectDesc :=
  if i < pmMaxObjects then some (G.objects i) else none

/-- The head of bin `(f, s)`. -/
def headZ (P : Pool) (f s : ℕ) : Option ℕ :=
  if f < flCount ∧ s < pmSlCount then some (P.bins.head f s) else none

/-- The second-level bitmap of row `f`. -/
def slBitmapZ (P : Pool) (f : ℕ) : Option ℕ :=
  if f < flCount then some (P.bins.slBitmap f) else none

/-! ### The live-slot list -/

/-- `collect_live_sorted`, the walk. -/
def collectWalkZ (G : GlobalState) (pid : ℕ) : ℕ → ℕ → ℕ → ℕ → Option (Option (List ℕ))
  | 0, _, _, idx => some (if idx = noOrder then some [] else none)
  | fuel + 1, cap, prev, idx =>
    if idx = noOrder then some (some [])
    else if pmMaxObjects ≤ idx then some none
    else do
      let d ← descZ G idx
      if d.state ≠ .live ∨ d.poolId ≠ pid ∨ d.generation = 0 then some none
      else if d.addrPrev ≠ prev then some none
      else if cap = 0 then some none
      else do
        let rest ← collectWalkZ G pid fuel (cap - 1) idx d.addrNext
        some (rest.map (idx :: ·))

/-- `collect_live_sorted`.  The sort and the final check read the addresses of the listed
descriptors. -/
def collectLiveSortedZ (G : GlobalState) (P : Pool) (pid cap : ℕ) : Option (Option (List ℕ)) := do
  match ← collectWalkZ G pid (pmMaxObjects + 1) cap noOrder P.orderHead with
  | none => some none
  | some l => do
    let _ ← l.mapM (descZ G)
    let _ ← (collectSort G l).mapM (descZ G)
    some (if distinctAddresses G (collectSort G l) then some (collectSort G l) else none)

/-! ### Blocks -/

/-- `prev_link_ok`. -/
def prevLinkOkZ (G : GlobalState) (boff startOff : ℕ) : Option Bool := do
  let psize ← loadZ G (G.zone + boff + 4)
  if psize = 0 then some true
  else if psize < pmMinBlock ∨ boff - startOff < psize then some false
  else do
    let header ← loadZ G (G.zone + (boff - psize))
    some (decide (header / 2 * 2 = psize))

/-- One live descriptor of `validate`, phase 1. -/
def validateSlotZ (G : GlobalState) (startOff endOff prevEnd : ℕ) (d : ObjectDesc) :
    Option Bool :=
  let aoff := d.address - G.zone
  let boff := aoff - 8
  if !descBlockConsistent d then some false
  else if d.address < G.zone + 8 then some false
  else if !rangeInPool startOff endOff boff d.blockSize
      ∨ !rangeInPool startOff endOff aoff d.size then some false
  else if boff < prevEnd then some false
  else do
    let header ← loadZ G (G.zone + boff)
    if header % 2 = 1 ∨ header / 2 * 2 ≠ d.blockSize then some false
    else prevLinkOkZ G boff startOff

/-- Phase 1 of `validate`. -/
def validateLiveZ (G : GlobalState) (startOff endOff : ℕ) :
    List ℕ → ℕ → ℕ → Option (Option ℕ)
  | [], _, used => some (some used)
  | i :: l, prevEnd, used => do
    let d ← descZ G i
    let ok ← validateSlotZ G startOff endOff prevEnd d
    if !ok then some none
    else
      validateLiveZ G startOff endOff l (d.address - G.zone - 8 + d.blockSize)
        (u32 (used + d.blockSize))

/-- The check of one neighbour link of `audit_pool_bins`: the neighbour's word at `k` names
the block again. -/
def linkOkZ (G : GlobalState) (startOff endOff off link k : ℕ) : Option Bool :=
  if link = nullOff then some true
  else if !rangeInPool startOff endOff link 8 then some false
  else do
    let back ← loadZ G (ptrOf G.zone link + k)
    some (decide (back = off))

/-- One block of `audit_pool_bins`. -/
def auditBlockZ (G : GlobalState) (startOff endOff f s off : ℕ) : Option Bool :=
  let b := ptrOf G.zone off
  if !rangeInPool startOff endOff off 8 then some false
  else do
    let header ← loadZ G b
    let bsize := header / 2 * 2
    if bsize < pmMinBlock ∨ bsize % 8 ≠ 0 then some false
    else if !rangeInPool startOff endOff off bsize then some false
    else if header % 2 ≠ 1 then some false
    else if flBin bsize ≠ f ∨ slBin bsize ≠ s then some false
    else do
      let next ← loadZ G (b + 12)
      let nextOk ← linkOkZ G startOff endOff off next 8
      if !nextOk then some false
      else do
        let prev ← loadZ G (b + 8)
        let prevOk ← linkOkZ G startOff endOff off prev 12
        if !prevOk then some false
        else prevLinkOkZ G off startOff

/-- The walk of one bin in `audit_pool_bins`. -/
def auditWalkZ (G : GlobalState) (startOff endOff f s : ℕ) : ℕ → ℕ → Option (Option ℕ)
  | 0, off => some (if off = nullOff then some 0 else none)
  | fuel + 1, off =>
    if off = nullOff then some (some 0)
    else do
      let ok ← auditBlockZ G startOff endOff f s off
      if !ok then some none
      else do
        let header ← loadZ G (ptrOf G.zone off)
        let next ← loadZ G (ptrOf G.zone off + 12)
        let rest ← auditWalkZ G startOff endOff f s fuel next
        some (rest.map (header / 2 * 2 + ·))

/-- The double loop of `audit_pool_bins`. -/
def auditBinsZ (G : GlobalState) (P : Pool) (startOff endOff steps : ℕ) :
    List (ℕ × ℕ) → Option (Option ℕ)
  | [] => some (some 0)
  | (f, s) :: l => do
    let off ← headZ P f s
    let row ← slBitmapZ P f
    if decide (off ≠ nullOff) ≠ row.testBit s then some none
    else match ← auditWalkZ G startOff endOff f s steps off with
    | none => some none
    | some n => do
      let rest ← auditBinsZ G P startOff endOff steps l
      some (rest.map (n + ·))

/-- `audit_pool_bins`. -/
def auditPoolBinsZ (G : GlobalState) (P : Pool) : Option (Option ℕ) := do
  let startOff := poolStartOff G P
  let endOff := startOff + poolCapacity G P
  match ← auditBinsZ G P startOff endOff (u32 (poolCapacity G P / pmMinBlock + 1)) allBins with
  | none => some none
  | some total => do
    let _ ← (List.range flCount).mapM (slBitmapZ P)
    some (if flCheck P ≠ P.bins.flBitmap then none else some total)

/-! ### `validate` -/

/-- The offsets of one bin.  `for_each_free` has no cap of its own: a list longer than `fuel`
is `none` as well. -/
def binOffsetsZ (G : GlobalState) : ℕ → ℕ → Option (List ℕ)
  | 0, off => if off = nullOff then some [] else none
  | fuel + 1, off =>
    if off = nullOff then some []
    else do
      let next ← loadZ G (ptrOf G.zone off + 12)
      let rest ← binOffsetsZ G fuel next
      some (off :: rest)

/-- `for_each_free` over some of the bins. -/
def freeOffsetsZ (G : GlobalState) (P : Pool) (steps : ℕ) : List (ℕ × ℕ) → Option (List ℕ)
  | [] => some []
  | (f, s) :: l => do
    let off ← headZ P f s
    let offs ← binOffsetsZ G steps off
    let rest ← freeOffsetsZ G P steps l
    some (offs ++ rest)

/-- A free block of the sweep. -/
def freeExtentZ (G : GlobalState) (off : ℕ) : Option Extent := do
  let header ← loadZ G (ptrOf G.zone off)
  some (off, off + header / 2 * 2)

/-- `validate`.  The blocks of the sweep are read before it starts. -/
def validateZ (G : GlobalState) (id : ℕ) : Option Status :=
  if !G.initialized then some .notInitialized
  else match poolAt G id with
  | none => some .invalidPool
  | some P => do
    let capacity := poolCapacity G P
    let startOff := poolStartOff G P
    let endOff := startOff + capacity
    match ← collectLiveSortedZ G P id pmMaxObjects with
    | none => some .corruptMetadata
    | some slots =>
      match ← validateLiveZ G startOff endOff slots startOff 0 with
      | none => some .corruptMetadata
      | some used =>
        if slots.length ≠ P.liveObjects ∨ used ≠ P.usedBytes then some .corruptMetadata
        else if P.freeBytes ≠ sub32 capacity used then some .corruptMetadata
        else match ← auditPoolBinsZ G P with
        | none => some .corruptMetadata
        | some freeTotal => do
          let offs ← freeOffsetsZ G P (u32 (capacity / pmMinBlock + 1)) allBins
          if kFreeOffCap < offs.length then some .corruptMetadata
          else do
            let _ ← slots.mapM (descZ G)
            let free ← (sortU32Asc offs).mapM (freeExtentZ G)
            match sweep (slots.length + offs.length + 1) (slots.map (liveExtent G)) free startOff
                false 0 with
            | none => some .corruptMetadata
            | some (maxEnd, slack) =>
              if endOff < maxEnd ∨ pmMinBlock ≤ endOff - maxEnd then some .corruptMetadata
              else if used + freeTotal + (slack + (endOff - maxEnd)) ≠ capacity then
                some .corruptMetadata
              else if P.freeBytes < P.fragmentBytes
                  ∨ freeTotal ≠ P.freeBytes - P.fragmentBytes then some .corruptMetadata
              else some .ok

/-! ### `get_stats` -/

/-- The walk of one bin in `get_stats`. -/
def statsWalkZ (G : GlobalState) (lo hi : ℕ) : ℕ → ℕ → ℕ → Option (Option ℕ)
  | 0, largest, off => some (if off = nullOff then some largest else none)
  | fuel + 1, largest, off =>
    if off = nullOff then some (some largest)
    else if off < lo ∨ hi < off then some none
    else do
      let header ← loadZ G (ptrOf G.zone off)
      let next ← loadZ G (ptrOf G.zone off + 12)
      statsWalkZ G lo hi fuel
        (if largest < header / 2 * 2 then header / 2 * 2 else largest) next

/-- The double loop of `get_stats`. -/
def statsBinsZ (G : GlobalState) (P : Pool) (lo hi fuel : ℕ) :
    List (ℕ × ℕ) → ℕ → Option (Option ℕ)
  | [], largest => some (some largest)
  | (f, s) :: l, largest => do
    let off ← headZ P f s
    match ← statsWalkZ G lo hi fuel largest off with
    | none => some none
    | some largest => statsBinsZ G P lo hi fuel l largest

/-- The free-list part of `get_stats`. -/
def freeStatsZ (G : GlobalState) (P : Pool) : Option FreeStats := do
  let startOff := poolStartOff G P
  let endOff := startOff + poolCapacity G P
  match ← statsBinsZ G P (u32 startOff) (sub32 (u32 endOff) 8)
      (poolCapacity G P / pmMinBlock + 1 + 1) allBins 0 with
  | none => some ⟨false, 0⟩
  | some largest => some ⟨true, largest⟩

/-- `get_stats`: the free-list part of an existing pool, or nothing to walk. -/
def getStatsZ (G : GlobalState) (id : ℕ) : Option (Option FreeStats) :=
  match poolAt G id with
  | none => some none
  | some P => (freeStatsZ G P).map some

end PondMerge
