import PondMerge.Model.Layout

/-!
`check_ref` and `move_block` in the integer widths of the source.

In `check_ref` every sum, difference and product is computed in the type the code gives it,
and `none` stands for one that leaves its type; a pointer and a `uintptr_t` are 64 bits
wide.  In `move_block` the width of a `uintptr_t` is a parameter, and its sums wrap.
-/

namespace PondMerge

open ByteMemory

variable [PmConfig]

/-! ### Checked arithmetic -/

/-- A sum of `w`-bit unsigned integers. -/
def addW (w a b : ℕ) : Option ℕ := if a + b < 2 ^ w then some (a + b) else none

/-- A difference of unsigned integers. -/
def subW (a b : ℕ) : Option ℕ := if b ≤ a then some (a - b) else none

/-- A product of `w`-bit unsigned integers. -/
def mulW (w a b : ℕ) : Option ℕ := if a * b < 2 ^ w then some (a * b) else none

/-! ### The screens -/

/-- `desc_block_consistent`. -/
def descBlockConsistentW (d : ObjectDesc) : Option Bool :=
  if d.blockSize < pmMinBlock then some false
  else if d.blockSize % 8 ≠ 0 then some false
  else do
    let room ← subW d.blockSize 8
    some (decide (d.size ≤ room ∧ d.size ≠ 0 ∧ d.address % 8 = 0))

/-- `pool_geometry_ok`. -/
def poolGeometryOkW (G : GlobalState) (P : Pool) : Option Bool := do
  let segEnd ← addW 64 P.segmentFirst P.segmentCount
  if G.segmentCount < segEnd then some false
  else do
    let bytes ← mulW 64 segEnd G.segmentSize
    some (decide (bytes ≤ G.zoneSize))

/-- `pool_start`: `seg_base` of the first segment. -/
def poolStartW (G : GlobalState) (P : Pool) : Option ℕ := do
  let off ← mulW 64 P.segmentFirst G.segmentSize
  addW 64 G.zone off

/-- The pool-range proof of `check_ref`. -/
def blockInWindowW (G : GlobalState) (P : Pool) (d : ObjectDesc) : Option Bool := do
  let low ← addW 64 G.zone 8
  if d.address < low then some false
  else do
    let aoff ← subW d.address G.zone
    let boff ← subW aoff 8
    let base ← poolStartW G P
    let pstart ← subW base G.zone
    let cap ← mulW 32 P.segmentCount G.segmentSize
    let pend ← addW 64 pstart cap
    if boff < pstart ∨ pend ≤ boff then some false
    else do
      let room ← subW pend boff
      if room < d.blockSize then some false
      else do
        let top ← addW 64 aoff d.size
        some (decide (top ≤ pend))

/-- The alignment screen of `check_ref`. -/
def alignmentOkW (a : ℕ) : Option Bool :=
  if a = 0 then some false
  else do
    let low ← subW a 1
    some (decide (a &&& low = 0 ∧ a ≤ pmMaxAlignment))

/-- The end of `check_ref`: the access lies in the payload and is aligned. -/
def accessW (d : ObjectDesc) (offset accessSize accessAlign : ℕ) : Option (Except Status ℕ) :=
  if d.size < offset then some (.error .invalidRef)
  else do
    let room ← subW d.size offset
    if room < accessSize then some (.error .invalidRef)
    else do
      let addr ← addW 64 d.address offset
      let low ← subW accessAlign 1
      some (if addr &&& low ≠ 0 then .error .invalidAlignment else .ok addr)

/-- `check_ref`. -/
def checkRefW (G : GlobalState) (ref : RawRef) (accessSize accessAlign : ℕ)
    (requireRunning : Bool) : Option (Except Status ℕ) :=
  let d := G.objects ref.index
  if !G.initialized then some (.error .notInitialized)
  else if pmMaxObjects ≤ ref.index ∨ ref.generation = 0 then some (.error .invalidRef)
  else if d.state ≠ .live then some (.error .invalidRef)
  else if d.generation ≠ ref.generation then some (.error .invalidRef)
  else do
    let consistent ← descBlockConsistentW d
    if !consistent then some (.error .corruptMetadata)
    else if !linksInTable d then some (.error .corruptMetadata)
    else match poolAt G d.poolId with
    | none => some (.error .corruptMetadata)
    | some P => do
      let geometry ← poolGeometryOkW G P
      if !geometry then some (.error .corruptMetadata)
      else do
        let inWindow ← blockInWindowW G P d
        if !inWindow then some (.error .corruptMetadata)
        else if ref.poolHint ≠ crossHint ∧ ref.poolHint ≠ d.poolId then
          some (.error .poolChanged)
        else if requireRunning ∧ P.state ≠ .running then some (.error .busy)
        else do
          let aligned ← alignmentOkW accessAlign
          if !aligned then some (.error .invalidAlignment)
          else accessW d ref.offset accessSize accessAlign

/-! ### `move_block` -/

/-- `move_block` with addresses of `w` bits, over the library's `memcpy` and a `memmove`
that is one. -/
def moveBlockW (w : ℕ) (memcpy : Mem → ℕ → ℕ → ℕ → Mem) (m : Mem) (dst src size : ℕ) : Mem :=
  if dst = src ∨ size = 0 then m
  else
    let n := size % 2 ^ w
    if (dst + n) % 2 ^ w ≤ src ∨ (src + n) % 2 ^ w ≤ dst then memcpy m dst src size
    else if (dst ||| src ||| n) &&& 7 ≠ 0 then memmove m dst src size
    else if dst < src then copyWordsUp m dst src (size / 4) 0
    else copyWordsDown m dst src (size / 4)

end PondMerge
