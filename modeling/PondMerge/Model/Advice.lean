import PondMerge.Model.Compaction
import PondMerge.Model.Pools
import PondMerge.Model.Objects

/-!
The compaction advice: `analyze_compaction` and `poll_compaction_advice`, with the
per-pool cache of what the caller was last told.  The cache and the thresholds are state
of their own and never allocator metadata.
-/

namespace PondMerge

variable [PmConfig]

/-- `enum class CompactionVerdict`. -/
inductive CompactionVerdict where
  | noAction | compactRecommended | compactBlocked | compactUnlikelyToHelp | invalidMetadata
  | invalidRequest
  deriving DecidableEq, Repr

/-- `struct CompactionThresholds`. -/
structure CompactionThresholds where
  fragmentRatioPermille : ℕ
  fragmentMinBytes : ℕ
  deriving DecidableEq, Repr

/-- `COMPACTION_ESTIMATE_UNKNOWN`. -/
def compactionEstimateUnknown : ℕ := 0xFFFFFFFF

/-- `struct CompactionAdvice`. -/
structure CompactionAdvice where
  verdict : CompactionVerdict
  poolState : PoolState
  capacity : ℕ
  usedBytes : ℕ
  freeBytes : ℕ
  largestFreeBlock : ℕ
  fragmentBytes : ℕ
  fragmentRatioPermille : ℕ
  liveObjects : ℕ
  borrowCount : ℕ
  hasPinnedObjects : Bool
  estimatedMovedObjects : ℕ
  estimatedMovedBytes : ℕ
  statsValid : Bool
  expectedRequestSize : ℕ
  expectedRequestAlignment : ℕ
  requestFlags : ℕ
  requestTag : ℕ
  requestCanFitNow : Bool
  requestCanFitAfterCompactionEstimate : Bool
  callerMustEstablishQuiescence : Bool
  deriving DecidableEq, Repr

/-- `struct AdviceCache`. -/
structure AdviceCache where
  valid : Bool
  verdict : CompactionVerdict
  structureEpoch : ℕ
  borrowCount : ℕ
  largestFreeBlock : ℕ
  fragmentBytes : ℕ
  requestSize : ℕ
  requestAlignment : ℕ
  poolState : PoolState
  hasPinned : Bool
  statsValid : Bool
  usedBytes : ℕ
  freeBytes : ℕ
  liveObjects : ℕ
  requestFlags : ℕ
  requestTag : ℕ
  thrRatioPermille : ℕ
  thrMinBytes : ℕ
  deriving DecidableEq, Repr

/-- A cache entry of zero bytes. -/
def AdviceCache.zero : AdviceCache :=
  ⟨false, .noAction, 0, 0, 0, 0, 0, 0, .empty, false, false, 0, 0, 0, 0, 0, 0, 0⟩

/-- `s_advice_thresholds` and `s_advice_cache`. -/
structure AdviceState where
  thresholds : CompactionThresholds
  cache : ℕ → AdviceCache

/-- The static storage of the advice before any call: the documented default thresholds and a
zeroed cache. -/
def AdviceState.static : AdviceState := ⟨⟨100, 512⟩, fun _ => .zero⟩

/-- The advice before anything is known: what every early return of `analyze_compaction`
reports beside its verdict. -/
def blankAdvice (expected : Option CompactionRequest) : CompactionAdvice where
  verdict := .invalidMetadata
  poolState := .empty
  capacity := 0
  usedBytes := 0
  freeBytes := 0
  largestFreeBlock := 0
  fragmentBytes := 0
  fragmentRatioPermille := 0
  liveObjects := 0
  borrowCount := 0
  hasPinnedObjects := false
  estimatedMovedObjects := compactionEstimateUnknown
  estimatedMovedBytes := compactionEstimateUnknown
  statsValid := false
  expectedRequestSize := expected.elim 0 (·.requestedSize)
  expectedRequestAlignment := expected.elim 0 (·.requestedAlignment)
  requestFlags := expected.elim 0 (·.requestedFlags)
  requestTag := expected.elim 0 (·.userTag)
  requestCanFitNow := false
  requestCanFitAfterCompactionEstimate := false
  callerMustEstablishQuiescence := false

/-- The cache entry `store` writes for an advice. -/
def AdviceState.entry (A : AdviceState) (a : CompactionAdvice) (epoch : ℕ) : AdviceCache where
  valid := true
  verdict := a.verdict
  structureEpoch := epoch
  borrowCount := a.borrowCount
  largestFreeBlock := a.largestFreeBlock
  fragmentBytes := a.fragmentBytes
  requestSize := a.expectedRequestSize
  requestAlignment := a.expectedRequestAlignment
  poolState := a.poolState
  hasPinned := a.hasPinnedObjects
  statsValid := a.statsValid
  usedBytes := a.usedBytes
  freeBytes := a.freeBytes
  liveObjects := a.liveObjects
  requestFlags := a.requestFlags
  requestTag := a.requestTag
  thrRatioPermille := A.thresholds.fragmentRatioPermille
  thrMinBytes := A.thresholds.fragmentMinBytes

/-- The lambda `store` of `analyze_compaction`. -/
def AdviceState.store (A : AdviceState) (p : ℕ) (a : CompactionAdvice) (epoch : ℕ) :
    AdviceState :=
  if pmMaxPools ≤ p then A
  else { A with cache := Function.update A.cache p (A.entry a epoch) }

/-- The request validation of `analyze_compaction`: the block a request needs, `0` without
a request, or `none` for `INVALID_REQUEST`.  Its size math is that of `alloc`. -/
def adviceNeed (expected : Option CompactionRequest) : Option ℕ :=
  match expected with
  | none => some 0
  | some r =>
    if r.requestedSize = 0 then none
    else if !alignmentOk (if r.requestedAlignment = 0 then 8 else r.requestedAlignment) then
      none
    else allocNeed r.requestedSize

/-- The packing simulation of `analyze_compaction` over the address-ordered slots: the
number and the bytes of the objects a compaction would move. -/
def simulatePacking (G : GlobalState) : List ℕ → ℕ → ℕ × ℕ
  | [], _ => (0, 0)
  | i :: l, cursor =>
    let d := G.objects i
    if d.pinned then simulatePacking G l (d.block + d.blockSize)
    else
      let r := simulatePacking G l (cursor + d.blockSize)
      if cursor ≠ d.block then (r.1 + 1, r.2 + d.blockSize) else r

/-- The counter audit of `analyze_compaction`. -/
def countersOk (a : CompactionAdvice) (walkedLive : ℕ) : Bool :=
  a.usedBytes ≤ a.capacity ∧ a.freeBytes ≤ a.capacity ∧ a.usedBytes + a.freeBytes = a.capacity
    ∧ a.fragmentBytes ≤ a.freeBytes ∧ a.largestFreeBlock ≤ a.freeBytes - a.fragmentBytes
    ∧ walkedLive = a.liveObjects

/-- The verdict of `analyze_compaction` on audited counters; `need` is `0` without a
request. -/
def adviceVerdict (A : AdviceState) (P : Pool) (a : CompactionAdvice) (haveRequest : Bool) :
    CompactionVerdict × Bool :=
  let stranded := a.freeBytes - a.fragmentBytes - a.largestFreeBlock
  let fragmented := A.thresholds.fragmentMinBytes ≤ stranded ∧ a.capacity ≠ 0
    ∧ A.thresholds.fragmentRatioPermille * a.capacity ≤ stranded * 1000
  if P.borrowCount ≠ 0 ∨ !poolMaintainable P then (.compactBlocked, false)
  else if haveRequest then
    if a.requestCanFitNow then (.noAction, false)
    else if !a.requestCanFitAfterCompactionEstimate then (.compactUnlikelyToHelp, false)
    else (.compactRecommended, true)
  else if fragmented then (.compactRecommended, true)
  else (.noAction, false)

/-- The advice of `analyze_compaction` for an existing pool and a valid request. -/
def advicePool (G : GlobalState) (A : AdviceState) (p : ℕ) (P : Pool)
    (expected : Option CompactionRequest) (need : ℕ) : CompactionAdvice :=
  let cap := poolCapacity G P
  let a := { blankAdvice expected with
    poolState := P.state
    capacity := cap
    usedBytes := P.usedBytes
    freeBytes := P.freeBytes
    liveObjects := P.liveObjects
    borrowCount := P.borrowCount
    fragmentBytes := P.fragmentBytes
    fragmentRatioPermille := if cap ≠ 0 then u32 (P.fragmentBytes * 1000 / cap) else 0 }
  match collectLiveSorted G P p pmMaxObjects with
  | none => a
  | some slots =>
    let moved := simulatePacking G slots (poolStart G P)
    let st := getStats G p
    let a := { a with
      hasPinnedObjects := slots.any fun i => (G.objects i).pinned
      largestFreeBlock := st.largestFreeBlock
      statsValid := st.valid }
    if !st.valid then a
    else if !countersOk a slots.length then a
    else
      let a := if expected.isSome then { a with
          requestCanFitNow := need ≤ a.largestFreeBlock
          requestCanFitAfterCompactionEstimate := need ≤ a.freeBytes - a.fragmentBytes }
        else a
      let v := adviceVerdict A P a expected.isSome
      { a with
        verdict := v.1
        callerMustEstablishQuiescence := v.2
        estimatedMovedObjects := moved.1
        estimatedMovedBytes :=
          if moved.2 ≤ 0xFFFFFFFE then moved.2 else compactionEstimateUnknown }

/-- `analyze_compaction`: the advice and the refreshed cache. -/
def analyzeCompaction (G : GlobalState) (A : AdviceState) (p : ℕ)
    (expected : Option CompactionRequest) : CompactionAdvice × AdviceState :=
  if !G.initialized then (blankAdvice expected, A.store p (blankAdvice expected) 0)
  else match adviceNeed expected with
  | none => ({ blankAdvice expected with verdict := .invalidRequest }, A)
  | some need =>
    match poolAt G p with
    | none => (blankAdvice expected, A.store p (blankAdvice expected) 0)
    | some P =>
      let a := advicePool G A p P expected need
      (a, A.store p a P.structureEpoch)

/-- The comparison of `poll_compaction_advice`: whether an advice, the epoch it was given at or
the thresholds differ from what a cache entry has recorded. -/
def adviceChanged (A : AdviceState) (prev : AdviceCache) (a : CompactionAdvice) (epoch : ℕ) :
    Bool :=
  !prev.valid ∨ prev.verdict ≠ a.verdict ∨ prev.poolState ≠ a.poolState
    ∨ prev.structureEpoch ≠ epoch ∨ prev.borrowCount ≠ a.borrowCount
    ∨ prev.usedBytes ≠ a.usedBytes ∨ prev.freeBytes ≠ a.freeBytes
    ∨ prev.liveObjects ≠ a.liveObjects ∨ prev.largestFreeBlock ≠ a.largestFreeBlock
    ∨ prev.fragmentBytes ≠ a.fragmentBytes ∨ prev.hasPinned ≠ a.hasPinnedObjects
    ∨ prev.statsValid ≠ a.statsValid ∨ prev.requestSize ≠ a.expectedRequestSize
    ∨ prev.requestAlignment ≠ a.expectedRequestAlignment ∨ prev.requestFlags ≠ a.requestFlags
    ∨ prev.requestTag ≠ a.requestTag ∨ prev.thrRatioPermille ≠ A.thresholds.fragmentRatioPermille
    ∨ prev.thrMinBytes ≠ A.thresholds.fragmentMinBytes

/-- `poll_compaction_advice`: the advice, `changed`, and the refreshed cache.  The comparison is
with the entry the cache held before. -/
def pollCompactionAdvice (G : GlobalState) (A : AdviceState) (p : ℕ)
    (expected : Option CompactionRequest) : CompactionAdvice × Bool × AdviceState :=
  let prev := if p < pmMaxPools then A.cache p else .zero
  let r := analyzeCompaction G A p expected
  let changed := if r.1.verdict = .invalidRequest then true
    else adviceChanged A prev r.1 ((poolAt G p).elim 0 (·.structureEpoch))
  (r.1, changed, r.2)

end PondMerge
