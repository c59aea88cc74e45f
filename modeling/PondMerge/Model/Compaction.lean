import PondMerge.Model.Layout

/-!
`compact_impl` and `compact`: address-ordered packing between pinned barriers, planned in
full before any byte moves, in arming, body and commit.
-/

namespace PondMerge

open ByteMemory

variable [PmConfig]

/-- `struct CompactionRequest`. -/
structure CompactionRequest where
  requestedSize : ℕ
  requestedAlignment : ℕ
  requestedFlags : ℕ
  userTag : ℕ
  maxMoveBytes : ℕ
  maxMoveObjects : ℕ
  deriving DecidableEq, Repr

/-- `struct MovePlanEntry`; the destination is kept as an address. -/
structure MovePlanEntry where
  slot : ℕ
  dst : ℕ
  size : ℕ
  deriving DecidableEq, Repr

/-- One step of the execution loops: relocates a block and its descriptor. -/
def execMove (G : GlobalState) (e : MovePlanEntry) : GlobalState :=
  let d := G.objects e.slot
  { G.setObj e.slot
      { d with address := e.dst + 8, addressEpoch := bumpEpoch d.addressEpoch } with
    mem := moveBlock G.mem e.dst d.block e.size }

/-- The execution loops. -/
def execMoves (G : GlobalState) (plan : List MovePlanEntry) : GlobalState :=
  plan.foldl execMove G

/-! ### Planning -/

/-- The pinned barriers of an address-ordered slot array. -/
def barriersOf (G : GlobalState) (slots : List ℕ) : List ℕ :=
  (slots.filter fun i => (G.objects i).pinned).map fun i => (G.objects i).block

/-- The screen of the barrier loops: a pinned object inside `[start, stop)`. -/
def barriersOk (G : GlobalState) (start stop : ℕ) (slots : List ℕ) : Bool :=
  slots.all fun i =>
    !(G.objects i).pinned
      || ((start + 8 ≤ (G.objects i).address)
        && (G.objects i).address + (G.objects i).size ≤ stop)

/-- `suffix_max_hole`: for every slot the largest original hole behind it, the tail after
the last one included. -/
def suffixMaxHole (G : GlobalState) (stop : ℕ) : List ℕ → List ℕ
  | [] => []
  | [i] => [stop - ((G.objects i).block + (G.objects i).blockSize)]
  | i :: j :: l =>
    let rest := suffixMaxHole G stop (j :: l)
    max ((G.objects j).block - ((G.objects i).block + (G.objects i).blockSize))
      (rest.headD 0) :: rest

/-- The target's `need`: `roundup8(requested_size + 8)` in 32 bits, `0` for no target. -/
def targetNeed (req : Option CompactionRequest) : ℕ :=
  match req with
  | none => 0
  | some r => if r.requestedSize = 0 then 0 else u32 (u32 (r.requestedSize + 8) + 7) / 8 * 8

/-- The alignment of a target is `0` or admissible. -/
def requestOk (req : Option CompactionRequest) : Bool :=
  match req with
  | none => true
  | some r =>
    r.requestedSize = 0 ∨ r.requestedAlignment = 0
      ∨ (r.requestedAlignment &&& (r.requestedAlignment - 1) = 0
        ∧ r.requestedAlignment ≤ pmMaxAlignment)

/-- A budget, `0` meaning none, that `spent` would exceed. -/
def overBudget (budget spent : ℕ) : Bool := budget ≠ 0 ∧ budget < spent

/-- The planning loop of `compact_impl`.  Every slot comes with its suffix maximum; `bars`
are the barriers not yet passed.  The result is the move list and whether the target check
stopped the plan. -/
def compactPlan (G : GlobalState) (req : Option CompactionRequest) (stop : ℕ) :
    List (ℕ × ℕ) → ℕ → List ℕ → ℕ → ℕ → Except Status (List MovePlanEntry × Bool)
  | [], _, _, _, _ => .ok ([], false)
  | (i, hole) :: l, cursor, bars, movedB, movedO =>
    let d := G.objects i
    if d.pinned then
      if d.block < cursor then .error .pinnedConflict
      else compactPlan G req stop l (d.block + d.blockSize) bars.tail movedB movedO
    else if bars.headD stop < cursor + d.blockSize then
      if req.isSome then .ok ([], false)
      else .error (if bars.isEmpty then .noSpace else .pinnedConflict)
    else if targetNeed req ≠ 0 ∧ targetNeed req ≤ max (d.block - cursor) hole then
      .ok ([], true)
    else if overBudget (req.elim 0 (·.maxMoveBytes)) (movedB + d.blockSize)
        ∨ overBudget (req.elim 0 (·.maxMoveObjects)) (movedO + 1) then
      .ok ([], false)
    else if d.block = cursor then
      compactPlan G req stop l (cursor + d.blockSize) bars movedB movedO
    else match compactPlan G req stop l (cursor + d.blockSize) bars (movedB + d.blockSize)
        (movedO + 1) with
      | .error e => .error e
      | .ok (plan, met) => .ok (⟨i, cursor, d.blockSize⟩ :: plan, met)

/-- The audit and the plan of `compact_impl`: the audited slots, the move list and
`met`. -/
def compactAudit (G : GlobalState) (p : ℕ) (req : Option CompactionRequest) :
    Except Status (List ℕ × List MovePlanEntry × Bool) :=
  let P := G.pools p
  let start := poolStart G P
  let stop := poolEnd G P
  if P.borrowCount ≠ 0 then .error .busy
  else match precheckPool G P p start stop pmMaxObjects with
  | none => .error .corruptMetadata
  | some slots =>
    if !barriersOk G start stop slots then .error .corruptMetadata
    else if !requestOk req then .error .invalidRequest
    else match compactPlan G req stop (slots.zip (suffixMaxHole G stop slots)) start
        (barriersOf G slots) 0 0 with
      | .error e => .error e
      | .ok (plan, met) => .ok (slots, plan, targetNeed req = 0 ∨ met)

/-! ### Execution -/

/-- The bytes a plan moves. -/
def planBytes (plan : List MovePlanEntry) : ℕ := u32 (plan.map (·.size)).sum

/-- The statistics at the end of `compact_impl`; the clock has advanced by `elapsed`. -/
def compactStats (G : GlobalState) (p : ℕ) (plan : List MovePlanEntry) (elapsed : ℕ) :
    GlobalState :=
  let P := G.pools p
  { G.setPool p { P with
      objectsMoved := plan.length
      bytesMoved := planBytes plan
      compactTimeUs := elapsed } with
    maxBytesMoved := if G.maxBytesMoved < planBytes plan then planBytes plan
      else G.maxBytesMoved
    maxCompactTimeUs := if G.maxCompactTimeUs < elapsed then elapsed else G.maxCompactTimeUs
    maxFragmentBytes := if G.maxFragmentBytes < P.fragmentBytes then P.fragmentBytes
      else G.maxFragmentBytes }

/-- The rebuild of `compact_impl`, after the moves. -/
def compactRebuild (G : GlobalState) (p : ℕ) (slots : List ℕ) (plan : List MovePlanEntry)
    (elapsed : ℕ) : GlobalState :=
  compactStats (finalizeLayout G p (poolStart G (G.pools p)) (poolEnd G (G.pools p)) slots)
    p plan elapsed

/-- `compact_impl`: the status, `met`, and the state. -/
def compactImpl (G : GlobalState) (p : ℕ) (req : Option CompactionRequest) (elapsed : ℕ) :
    Status × Bool × GlobalState :=
  match compactAudit G p req with
  | .error e => (e, false, G)
  | .ok (slots, plan, met) =>
    (.ok, met, compactRebuild (execMoves G plan) p slots plan elapsed)

/-- The arming block of `compact`, under the lock: pause first, then check borrows.  The
result is the status and the state; a refused compact leaves a Running pool Paused. -/
def compactArm (G : GlobalState) (p : ℕ) : Status × GlobalState :=
  let P := G.pools p
  if poolInMaintenance P then (.busy, G)
  else
    let P := if P.state = .running then { P with state := .paused } else P
    let G := G.setPool p P
    if P.state ≠ .paused then (.busy, G)
    else if P.borrowCount ≠ 0 then (.busy, G)
    else (.ok, G.setPool p { P with state := .compacting })

/-- The final commit of `compact`, under the lock. -/
def compactCommit (G : GlobalState) (p : ℕ) (r : Status) (wasPaused : Bool) : GlobalState :=
  let P := G.pools p
  if r = .ok then
    G.setPool p { P with structureEpoch := u32 (P.structureEpoch + 1), state := .running }
  else G.setPool p { P with state := if wasPaused then .paused else .running }

/-- `compact`: the status, `target_met`, and the state. -/
def compact (G : GlobalState) (p : ℕ) (req : Option CompactionRequest) (elapsed : ℕ) :
    Status × Bool × GlobalState :=
  if !G.initialized then (.notInitialized, false, G)
  else match poolAt G p with
  | none => (.invalidPool, false, G)
  | some P =>
    let wasPaused := decide (P.state = .paused)
    match compactArm G p with
    | (.ok, G) =>
      let r := compactImpl G p req elapsed
      (r.1, decide (r.1 = .ok) && r.2.1, compactCommit r.2.2 p r.1 wasPaused)
    | (e, G) => (e, false, G)

end PondMerge
