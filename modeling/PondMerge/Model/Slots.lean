import PondMerge.Model.State
import PondMerge.Library.HeapSort

/-!
The live-slot lists, their address-ordered enumeration, and the descriptor slots of
`core.cpp`.
-/

namespace PondMerge

open HeapSort

variable [PmConfig]

/-! ### The live-slot list -/

/-- `order_unlink`: takes descriptor `idx` out of the live-slot list of pool `p`. -/
def orderUnlink (G : GlobalState) (p idx : ℕ) : GlobalState :=
  let d := G.objects idx
  let G := if d.addrPrev ≠ noOrder then
      G.setObj d.addrPrev { G.objects d.addrPrev with addrNext := d.addrNext }
    else G.setPool p { G.pools p with orderHead := d.addrNext }
  let d := G.objects idx
  let G := if d.addrNext ≠ noOrder then
      G.setObj d.addrNext { G.objects d.addrNext with addrPrev := d.addrPrev }
    else G
  G.setObj idx { G.objects idx with addrPrev := noOrder, addrNext := noOrder }

/-- `order_append`: pushes descriptor `idx` onto the front of the live-slot list of `p`. -/
def orderAppend (G : GlobalState) (p idx : ℕ) : GlobalState :=
  let head := (G.pools p).orderHead
  let G := G.setObj idx { G.objects idx with addrPrev := noOrder, addrNext := head }
  let G := if head ≠ noOrder then
      G.setObj head { G.objects head with addrPrev := idx }
    else G
  G.setPool p { G.pools p with orderHead := idx }

/-! ### Sorting by address -/

/-- An array read off a list, and the first `n` entries of an array as a list. -/
def arrayOf (l : List ℕ) : ℕ → ℕ := fun i => l.getD i 0

def listOf (a : ℕ → ℕ) (n : ℕ) : List ℕ := (List.range n).map a

/-- The `less` of `sort_slots_by_address`: by address, ties by slot index. -/
def slotLess (G : GlobalState) (x y : ℕ) : Bool :=
  if (G.objects x).address ≠ (G.objects y).address then
    (G.objects x).address < (G.objects y).address
  else x < y

/-- `sort_slots_by_address`. -/
def sortSlotsByAddress (G : GlobalState) (l : List ℕ) : List ℕ :=
  listOf (heapSort (slotLess G) (arrayOf l) l.length) l.length

/-- `sort_u32_asc`. -/
def sortU32Asc (l : List ℕ) : List ℕ :=
  listOf (heapSort (fun x y => decide (x < y)) (arrayOf l) l.length) l.length

/-- The direction scan of `sort_packed_keys`: no neighbouring pair is out of order. -/
def scanAscending : List ℕ → Bool
  | x :: y :: l => x ≤ y && scanAscending (y :: l)
  | _ => true

/-- The direction scan of `sort_packed_keys` for the reversed order. -/
def scanDescending : List ℕ → Bool
  | x :: y :: l => y ≤ x && scanDescending (y :: l)
  | _ => true

/-- `sort_packed_keys`: untouched when ascending, reversed when descending, else
heapsorted. -/
def sortPackedKeys (l : List ℕ) : List ℕ :=
  if l.length < 2 then l
  else if scanAscending l then l
  else if scanDescending l then l.reverse
  else sortU32Asc l

/-- The packed key `(zone_offset << 8) | slot`, in 32 bits; the slot fits its 8 bits. -/
def packedKey (G : GlobalState) (slot : ℕ) : ℕ :=
  ((((G.objects slot).address : ℤ) - G.zone) % 2 ^ 32).toNat * 2 ^ 8 % 2 ^ 32 + slot

/-- `collect_live_sorted`, the walk: at most `PM_MAX_OBJECTS + 1` steps and `cap` slots. -/
def collectWalk (G : GlobalState) (pid : ℕ) : ℕ → ℕ → ℕ → ℕ → Option (List ℕ)
  | 0, _, _, idx => if idx = noOrder then some [] else none
  | fuel + 1, cap, prev, idx =>
    if idx = noOrder then some []
    else if pmMaxObjects ≤ idx then none
    else if (G.objects idx).state ≠ .live ∨ (G.objects idx).poolId ≠ pid
        ∨ (G.objects idx).generation = 0 then none
    else if (G.objects idx).addrPrev ≠ prev then none
    else if cap = 0 then none
    else (collectWalk G pid fuel (cap - 1) idx (G.objects idx).addrNext).map (idx :: ·)

/-- The final check of `collect_live_sorted`: neighbours differ in address. -/
def distinctAddresses (G : GlobalState) : List ℕ → Bool
  | i :: j :: l =>
    (G.objects j).address ≠ (G.objects i).address && distinctAddresses G (j :: l)
  | _ => true

/-- `collect_live_sorted`, the sort: packed keys where they fit, the comparator otherwise. -/
def collectSort (G : GlobalState) (l : List ℕ) : List ℕ :=
  if G.zoneSize ≤ 2 ^ 24 ∧ pmMaxObjects ≤ 256 then
    (sortPackedKeys (l.map (packedKey G))).map (· % 2 ^ 8)
  else sortSlotsByAddress G l

/-- `collect_live_sorted`: the live descriptors of pool `pid` in address order, or `none`
for `CorruptMetadata`. -/
def collectLiveSorted (G : GlobalState) (P : Pool) (pid cap : ℕ) : Option (List ℕ) :=
  match collectWalk G pid (pmMaxObjects + 1) cap noOrder P.orderHead with
  | none => none
  | some l =>
    if distinctAddresses G (collectSort G l) then some (collectSort G l) else none

/-! ### Descriptor slots -/

/-- `slot_alloc`: pops the free-slot list. -/
def slotAlloc (G : GlobalState) : ℕ × GlobalState :=
  if G.freeSlotHead = noSlot then (noSlot, G)
  else (G.freeSlotHead,
    { G with freeSlotHead := (G.objects G.freeSlotHead).nextFreeSlot })

/-- `slot_release`: pushes a slot back. -/
def slotRelease (G : GlobalState) (s : ℕ) : GlobalState :=
  { G.setObj s { G.objects s with nextFreeSlot := G.freeSlotHead } with freeSlotHead := s }

/-- `next_generation`: a 16-bit increment that skips `0`. -/
def nextGeneration (gen : ℕ) : ℕ := if u16 (gen + 1) = 0 then 1 else u16 (gen + 1)

/-- `bump_epoch`: a 32-bit increment that skips `0`. -/
def bumpEpoch (epoch : ℕ) : ℕ := if u32 (epoch + 1) = 0 then 1 else u32 (epoch + 1)

end PondMerge
