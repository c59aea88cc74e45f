import PondMerge.Model.Compaction

/-!
`merge` and `split`, each in arming, audit and plan, execution, and commit.
-/

namespace PondMerge

open ByteMemory

variable [PmConfig]

/-! ### Merge -/

/-- The source window lies just below the target's. -/
def sourceBelow (S T : Pool) : Bool := T.segmentFirst = S.segmentFirst + S.segmentCount

/-- The source window lies just above the target's. -/
def sourceAbove (S T : Pool) : Bool := S.segmentFirst = T.segmentFirst + T.segmentCount

/-- The arming block of `merge`, under the lock. -/
def mergeArm (G : GlobalState) (source target : ℕ) : Status × GlobalState :=
  match poolAt G source, poolAt G target with
  | some S, some T =>
    if !poolMaintainable S ∨ !poolMaintainable T then (.busy, G)
    else if S.borrowCount ≠ 0 ∨ T.borrowCount ≠ 0 then (.busy, G)
    else if !sourceAbove S T ∧ !sourceBelow S T then (.noSpace, G)
    else
      let G := G.setPool source { S with state := .merging }
      (.ok, G.setPool target { G.pools target with state := .merging })
  | _, _ => (.invalidPool, G)

/-- The planning loop of `merge`: pinned blocks get an entry at their own address. -/
def mergePlan (G : GlobalState) (stop : ℕ) :
    List ℕ → ℕ → List ℕ → Except Status (List MovePlanEntry)
  | [], _, _ => .ok []
  | i :: l, cursor, bars =>
    let d := G.objects i
    if d.pinned then
      if d.block < cursor then .error .pinnedConflict
      else match mergePlan G stop l (d.block + d.blockSize) bars.tail with
        | .error e => .error e
        | .ok plan => .ok (⟨i, d.block, d.blockSize⟩ :: plan)
    else if bars.headD stop < cursor + d.blockSize then
      .error (if bars.isEmpty then .noSpace else .pinnedConflict)
    else match mergePlan G stop l (cursor + d.blockSize) bars with
      | .error e => .error e
      | .ok plan => .ok (⟨i, cursor, d.blockSize⟩ :: plan)

/-- The pool whose window is the lower one, and the other. -/
def lowerPool (G : GlobalState) (source target : ℕ) : ℕ :=
  if sourceBelow (G.pools source) (G.pools target) then source else target

def upperPool (G : GlobalState) (source target : ℕ) : ℕ :=
  if sourceBelow (G.pools source) (G.pools target) then target else source

/-- The audit and the plan of `merge`: the audited slots of the lower and of the upper pool,
and the plan. -/
def mergeAudit (G : GlobalState) (source target : ℕ) :
    Except Status (List ℕ × List ℕ × List MovePlanEntry) :=
  let lo := lowerPool G source target
  let hi := upperPool G source target
  let start := poolStart G (G.pools lo)
  let stop := poolEnd G (G.pools hi)
  match precheckPool G (G.pools lo) lo start (poolEnd G (G.pools lo)) pmMaxObjects with
  | none => .error .corruptMetadata
  | some l =>
    match precheckPool G (G.pools hi) hi (poolStart G (G.pools hi)) stop
        (pmMaxObjects - l.length) with
    | none => .error .corruptMetadata
    | some u =>
      if (auditPoolBins G (G.pools source)).isNone ∨ (auditPoolBins G (G.pools target)).isNone
      then .error .corruptMetadata
      else if !barriersOk G start stop (l ++ u) then .error .corruptMetadata
      else match mergePlan G stop (l ++ u) start (barriersOf G (l ++ u)) with
        | .error e => .error e
        | .ok plan => .ok (l, u, plan)

/-- One step of the execution loop of `merge`: the move, and for an object of the source
the new owner, with an epoch of its own. -/
def mergeMove (target : ℕ) (fromSource : Bool) (G : GlobalState) (e : MovePlanEntry) :
    GlobalState :=
  let G := if e.dst ≠ (G.objects e.slot).block then execMove G e else G
  let d := G.objects e.slot
  if fromSource then
    G.setObj e.slot { d with poolId := target, addressEpoch := bumpEpoch d.addressEpoch }
  else G

/-- The execution loop of `merge`.  The first `nLower` entries of the plan are the lower
pool's, so the source's are this prefix when the source is below and the rest otherwise. -/
def mergeMoves (G : GlobalState) (target : ℕ) (below : Bool) (nLower : ℕ)
    (plan : List MovePlanEntry) : GlobalState :=
  (plan.drop nLower).foldl (mergeMove target !below)
    ((plan.take nLower).foldl (mergeMove target below) G)

/-- Rebuilds a live-slot list from an array of slots, in the array's order; `prev` is the
slot before it. -/
def relink (objects : ℕ → ObjectDesc) (prev : ℕ) : List ℕ → (ℕ → ObjectDesc)
  | [] => objects
  | i :: l =>
    relink (Function.update objects i
      { objects i with addrPrev := prev, addrNext := l.headD noOrder }) i l

/-- The rebuild of `merge`, after the moves: the target's list, window and layout. -/
def mergeRebuild (G : GlobalState) (source target : ℕ) (slots : List ℕ)
    (plan : List MovePlanEntry) : GlobalState :=
  let lo := lowerPool G source target
  let hi := upperPool G source target
  let start := poolStart G (G.pools lo)
  let stop := poolEnd G (G.pools hi)
  let S := G.pools source
  let T := G.pools target
  let order := plan.map (·.slot)
  let G := { G with objects := relink G.objects noOrder order }
  let G := G.setPool target { T with
    orderHead := order.headD noOrder
    segmentFirst := if sourceBelow S T then S.segmentFirst else T.segmentFirst
    segmentCount := u16 (S.segmentCount + T.segmentCount)
    liveObjects := plan.length }
  let G := G.setPool source { S with orderHead := noOrder }
  finalizeLayout G target start stop slots

/-- The final commit of `merge`, under the lock. -/
def mergeCommit (G : GlobalState) (source target : ℕ) : GlobalState :=
  let G := G.setPool source Pool.zero
  let T := G.pools target
  G.setPool target { T with structureEpoch := u32 (T.structureEpoch + 1), state := .running }

/-- `fail_restore` of `merge`: the entry states. -/
def mergeRestore (G : GlobalState) (source target : ℕ) (S T : PoolState) : GlobalState :=
  let G := G.setPool source { G.pools source with state := S }
  G.setPool target { G.pools target with state := T }

/-- `merge`. -/
def merge (G : GlobalState) (source target : ℕ) : Status × GlobalState :=
  if !G.initialized then (.notInitialized, G)
  else if source = target then (.invalidPool, G)
  else
    let S := (G.pools source).state
    let T := (G.pools target).state
    match mergeArm G source target with
    | (.ok, G) =>
      match mergeAudit G source target with
      | .error e => (e, mergeRestore G source target S T)
      | .ok (l, u, plan) =>
        let below := sourceBelow (G.pools source) (G.pools target)
        (.ok, mergeCommit
          (mergeRebuild (mergeMoves G target below l.length plan) source target (l ++ u) plan)
          source target)
    | (e, G) => (e, G)

/-! ### Split -/

/-- The arming block of `split`, under the lock; it also claims the new pool's entry. -/
def splitArm (G : GlobalState) (source newSegments : ℕ) :
    Status × Option ℕ × GlobalState :=
  match poolAt G source with
  | none => (.invalidPool, none, G)
  | some S =>
    if !poolMaintainable S then (.busy, none, G)
    else if S.borrowCount ≠ 0 then (.busy, none, G)
    else if newSegments = 0 ∨ S.segmentCount ≤ newSegments then (.noSpace, none, G)
    else match (List.range pmMaxPools).find? fun i => decide ((G.pools i).state = .empty) with
      | none => (.noSpace, none, G)
      | some nid =>
        let G := G.setPool source { S with state := .splitting }
        (.ok, some nid, G.setPool nid { G.pools nid with state := .splitting })

/-- The plan of `split`: the lower moves, the upper moves, and how many of the upper ones
go to the right, a prefix of them. -/
structure SplitPlan where
  low : List MovePlanEntry
  up : List MovePlanEntry
  right : ℕ

/-- The planning loop of `split` with its two cursors.  `bars` are the barriers not yet
passed, shared by both sides. -/
def splitPlan (G : GlobalState) (boundary stop : ℕ) :
    List ℕ → ℕ → ℕ → List ℕ → Except Status SplitPlan
  | [], _, _, _ => .ok ⟨[], [], 0⟩
  | i :: l, lowCursor, upCursor, bars =>
    let d := G.objects i
    let upper := decide (boundary ≤ d.block ∨ boundary < d.block + d.blockSize)
    if d.pinned then
      if d.block < boundary ∧ boundary < d.block + d.blockSize then .error .pinnedConflict
      else if d.block < (if upper then upCursor else lowCursor) then .error .pinnedConflict
      else if upper then splitPlan G boundary stop l lowCursor (d.block + d.blockSize) bars.tail
      else splitPlan G boundary stop l (d.block + d.blockSize) upCursor bars.tail
    else if !upper then
      let barred := decide (bars.headD boundary < boundary)
      if (if barred then bars.headD boundary else boundary) < lowCursor + d.blockSize then
        .error (if barred then .pinnedConflict else .noSpace)
      else match splitPlan G boundary stop l (lowCursor + d.blockSize) upCursor bars with
        | .error e => .error e
        | .ok r => .ok { r with low := ⟨i, lowCursor, d.blockSize⟩ :: r.low }
    else if bars.headD stop < upCursor + d.blockSize then
      .error (if bars.isEmpty then .noSpace else .pinnedConflict)
    else match splitPlan G boundary stop l lowCursor (upCursor + d.blockSize) bars with
      | .error e => .error e
      | .ok r =>
        .ok { r with
          up := ⟨i, upCursor, d.blockSize⟩ :: r.up
          right := r.right + if d.block < upCursor then 1 else 0 }

/-- The audit and the plan of `split`. -/
def splitAudit (G : GlobalState) (source newSegments : ℕ) :
    Except Status (List ℕ × SplitPlan) :=
  let S := G.pools source
  let start := poolStart G S
  let stop := poolEnd G S
  let boundary := segBase G (S.segmentFirst + (S.segmentCount - newSegments))
  match precheckPool G S source start stop pmMaxObjects with
  | none => .error .corruptMetadata
  | some slots =>
    match splitPlan G boundary stop slots start boundary (barriersOf G slots) with
    | .error e => .error e
    | .ok plan => .ok (slots, plan)

/-- The moves of `split` in the order they are executed: the rightward prefix of the upper
plan descending, then its leftward suffix and the lower side ascending. -/
def SplitPlan.moves (plan : SplitPlan) : List MovePlanEntry :=
  (plan.up.take plan.right).reverse ++ plan.up.drop plan.right ++ plan.low

/-- The objects the commit of `split` hands to the new pool. -/
def aboveBoundary (G : GlobalState) (boundary i : ℕ) : Bool :=
  boundary ≤ (G.objects i).address

/-- The commit loop of `split`: the new owners. -/
def rehome (objects : ℕ → ObjectDesc) (nid : ℕ) : List ℕ → (ℕ → ObjectDesc)
  | [] => objects
  | i :: l => rehome (Function.update objects i { objects i with poolId := nid }) nid l

/-- The rebuild of `split`, after the moves: both live-slot lists, both windows and both
layouts. -/
def splitRebuild (G : GlobalState) (source nid newSegments : ℕ) (slots : List ℕ) :
    GlobalState :=
  let S := G.pools source
  let start := poolStart G S
  let stop := poolEnd G S
  let keep := S.segmentCount - newSegments
  let boundary := segBase G (S.segmentFirst + keep)
  let above := slots.filter (aboveBoundary G boundary)
  let below := slots.filter fun i => !aboveBoundary G boundary i
  let objects := rehome G.objects nid above
  let G := { G with objects := relink (relink objects noOrder below) noOrder above }
  let G := G.setPool nid { G.pools nid with
    segmentFirst := u16 (S.segmentFirst + keep)
    segmentCount := u16 newSegments
    orderHead := above.headD noOrder
    liveObjects := above.length }
  let G := G.setPool source { S with
    segmentCount := u16 keep
    orderHead := below.headD noOrder
    liveObjects := sub32 S.liveObjects above.length }
  finalizeLayout (finalizeLayout G source start boundary slots) nid boundary stop slots

/-- The final commit of `split`, under the lock. -/
def splitCommit (G : GlobalState) (source nid : ℕ) : GlobalState :=
  let S := G.pools source
  let G := G.setPool source
    { S with structureEpoch := u32 (S.structureEpoch + 1), state := .running }
  G.setPool nid { G.pools nid with structureEpoch := 1, state := .running }

/-- `fail_restore` of `split`: the entry state, and the claimed entry given back. -/
def splitRestore (G : GlobalState) (source nid : ℕ) (S : PoolState) : GlobalState :=
  (G.setPool source { G.pools source with state := S }).setPool nid Pool.zero

/-- `split`: the status, the new pool's id where it is `Ok`, and the state. -/
def split (G : GlobalState) (source newSegments : ℕ) : Status × Option ℕ × GlobalState :=
  if !G.initialized then (.notInitialized, none, G)
  else match splitArm G source newSegments with
  | (.ok, some nid, G') =>
    match splitAudit G' source newSegments with
    | .error e => (e, none, splitRestore G' source nid (G.pools source).state)
    | .ok (slots, plan) =>
      (.ok, some nid, splitCommit
        (splitRebuild (execMoves G' plan.moves) source nid newSegments slots) source nid)
  | (e, _, G) => (e, none, G)

end PondMerge
