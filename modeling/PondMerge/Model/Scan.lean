import PondMerge.Model.Bins

/-!
`bins_find` loop by loop, on bins and zone bytes that may hold anything.

Every place it reads is named, and `ok` says which places may be read: `Access.inside` admits
the elements of the arrays and the bytes of the zone, and `fun _ => true` every place, the value
beyond an array being whatever the bins hold there.  `fuel` bounds the iterations of all loops.
-/

namespace PondMerge

open ByteMemory

variable [PmConfig]

/-- A place `bins_find` reads: the bitmap of a row, the head of a list, or the four bytes at a
zone offset. -/
inductive Access where
  | slBitmap (f : ℕ)
  | head (f s : ℕ)
  | word (off : ℕ)
  deriving DecidableEq, Repr

/-- Why a run comes to no result. -/
inductive Fault where
  | access (a : Access)
  | fuel
  deriving DecidableEq, Repr

/-- The places inside the arrays and inside the zone. -/
def Access.inside (G : GlobalState) : Access → Bool
  | .slBitmap f => f < flCount
  | .head f s => f < flCount ∧ s < pmSlCount
  | .word off => off + 4 ≤ G.zoneSize

/-- Reads a place whose value is `v`. -/
def fetch (ok : Access → Bool) (a : Access) (v : ℕ) : Except Fault ℕ :=
  if ok a then .ok v else .error (.access a)

/-- `__builtin_ctz` of a nonzero 32-bit value. -/
def ctz (n : ℕ) : ℕ := ((List.range 32).find? fun i => n.testBit i).getD 32

/-- `max_hops`. -/
def maxHops (G : GlobalState) : ℕ := G.zoneSize / pmMinBlock + 1

/-- The `for` loop over one list: the hops when the loop ends, or what it returns from
`bins_find`, `none` being `nullptr`. -/
def findList (ok : Access → Bool) (G : GlobalState) (need : ℕ) :
    ℕ → ℕ → ℕ → Except Fault (ℕ ⊕ Option ℕ)
  | 0, _, _ => .error .fuel
  | fuel + 1, hops, off =>
    if off = nullOff then .ok (.inl hops)
    else if maxHops G < hops + 1 then .ok (.inr none)
    else if !zoneOffReadable G off then .ok (.inr none)
    else do
      let header ← fetch ok (.word off) (load32 G.mem (ptrOf G.zone off))
      if need ≤ header / 2 * 2 then .ok (.inr (some (ptrOf G.zone off)))
      else do
        let next ← fetch ok (.word (off + 12)) (load32 G.mem (ptrOf G.zone off + 12))
        findList ok G need fuel (hops + 1) next

/-- The loop over the bits of `sl_map`. -/
def findRow (ok : Access → Bool) (G : GlobalState) (b : TlsfBins) (need f : ℕ) :
    ℕ → ℕ → ℕ → Except Fault (ℕ ⊕ Option ℕ)
  | 0, _, _ => .error .fuel
  | fuel + 1, slMap, hops =>
    if slMap = 0 then .ok (.inl hops)
    else do
      let s := ctz slMap
      let head ← fetch ok (.head f s) (b.head f s)
      match ← findList ok G need fuel hops head with
      | .inl hops => findRow ok G b need f fuel (slMap &&& (2 ^ 32 - 1 - 2 ^ s)) hops
      | .inr r => .ok (.inr r)

/-- `(uint16_t)(0xFFFFu << sl)`. -/
def slMask (sl : ℕ) : ℕ := u16 (0xFFFF <<< sl)

/-- `~((2u << fli) - 1u)`. -/
def flMask (f : ℕ) : ℕ := 2 ^ 32 - 1 - sub32 (u32 (2 <<< f)) 1

/-- The loop over the rows. -/
def findRows (ok : Access → Bool) (G : GlobalState) (b : TlsfBins) (need : ℕ) :
    ℕ → ℕ → ℕ → ℕ → Except Fault (Option ℕ)
  | 0, _, _, _ => .error .fuel
  | fuel + 1, f, sl, hops => do
    let row ← fetch ok (.slBitmap f) (b.slBitmap f)
    match ← findRow ok G b need f fuel (row &&& slMask sl) hops with
    | .inl hops =>
      let flMap := b.flBitmap &&& flMask f
      if flMap = 0 then .ok none
      else findRows ok G b need fuel (ctz flMap) 0 hops
    | .inr r => .ok r

/-- `bins_find`. -/
def findBlock (ok : Access → Bool) (G : GlobalState) (b : TlsfBins) (need fuel : ℕ) :
    Except Fault (Option ℕ) :=
  if 2 ^ pmFlMax ≤ need then .ok none
  else findRows ok G b need fuel (flBin need) (slBin need) 0

end PondMerge
