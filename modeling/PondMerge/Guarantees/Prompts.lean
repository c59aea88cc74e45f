import PondMerge.Operations.Advice
import PondMerge.Guarantees.Representation
import PondMerge.Guarantees.Reuse
import PondMerge.Model.AdviceRun

/-!
Prompt suppression: what `poll_compaction_advice` hides when it reports no change.

* `AdviceCache.recall`: the advice a cache entry stands for; only the move estimate is missing.
* `Recalled`: an advice is that of its entry, and its estimate counts the displaced blocks.
* `analyze_recalled`: so is every advice of a run.
* `CacheOk`: the cache holds the advice the caller was last given.
* `poll_unchanged_iff`: a suppressed poll repeats that advice exactly if its pool has as many
  displaced blocks as then, of the same size altogether.
-/

namespace PondMerge

open ByteMemory Tiling

variable [PmConfig]

/-! ### Entries and advice -/

/-- The advice an entry has recorded, with the move estimate, which it has not. -/
def AdviceCache.recall (c : AdviceCache) (movedObjects movedBytes : ℕ) : CompactionAdvice where
  verdict := c.verdict
  poolState := c.poolState
  capacity := c.usedBytes + c.freeBytes
  usedBytes := c.usedBytes
  freeBytes := c.freeBytes
  largestFreeBlock := c.largestFreeBlock
  fragmentBytes := c.fragmentBytes
  fragmentRatioPermille :=
    if c.usedBytes + c.freeBytes ≠ 0 then
      u32 (c.fragmentBytes * 1000 / (c.usedBytes + c.freeBytes))
    else 0
  liveObjects := c.liveObjects
  borrowCount := c.borrowCount
  hasPinnedObjects := c.hasPinned
  estimatedMovedObjects := movedObjects
  estimatedMovedBytes := movedBytes
  statsValid := c.statsValid
  expectedRequestSize := c.requestSize
  expectedRequestAlignment := c.requestAlignment
  requestFlags := c.requestFlags
  requestTag := c.requestTag
  requestCanFitNow :=
    c.requestSize ≠ 0 && (allocNeed c.requestSize).any (decide <| · ≤ c.largestFreeBlock)
  requestCanFitAfterCompactionEstimate :=
    c.requestSize ≠ 0
      && (allocNeed c.requestSize).any (decide <| · ≤ c.freeBytes - c.fragmentBytes)
  callerMustEstablishQuiescence := c.verdict = .compactRecommended

omit [PmConfig] in
/-- The key of the comparison is the whole entry. -/
lemma adviceChanged_eq_false {A : AdviceState} {prev : AdviceCache} {a : CompactionAdvice}
    {epoch : ℕ} : adviceChanged A prev a epoch = false ↔ prev = A.entry a epoch := by
  obtain ⟨valid, verdict, structureEpoch, borrowCount, largest, fragment, size, alignment,
    poolState, pinned, statsValid, used, free, live, flags, tag, ratio, bytes⟩ := prev
  rw [adviceChanged, AdviceState.entry]
  simp only [decide_eq_false_iff_not, not_or, not_not, ne_eq, Bool.not_eq_true', Bool.not_eq_false,
    AdviceCache.mk.injEq]
  tauto

/-- What an advice says about a request depends on the size it echoes. -/
lemma adviceNeed_echo {expected : Option CompactionRequest} {need : ℕ}
    (h : adviceNeed expected = some need) (bound : ℕ) :
    (expected.isSome && decide (need ≤ bound)) =
      (decide (expected.elim 0 (·.requestedSize) ≠ 0)
        && (allocNeed (expected.elim 0 (·.requestedSize))).any (decide <| · ≤ bound)) := by
  cases expected with
  | none => rfl
  | some r =>
      obtain ⟨hsize, -, hneed⟩ := adviceNeed_some h
      simp [hsize.ne', hneed]

/-- What every advice about pool `p` of a state satisfies: it is the one its entry stands for, and
its estimate is the number and the bytes of the displaced blocks. -/
structure Recalled (G : GlobalState) (p : ℕ) (a : CompactionAdvice) : Prop where
  entry : ∀ (A : AdviceState) (epoch : ℕ),
    (A.entry a epoch).recall a.estimatedMovedObjects a.estimatedMovedBytes = a
  valid : a.statsValid = true ↔ Active G p
  absent : ¬ Active G p → a.estimatedMovedObjects = compactionEstimateUnknown
    ∧ a.estimatedMovedBytes = compactionEstimateUnknown
  represents : Active G p → ∃ L, Represents G p L
  moved : Active G p → ∀ L, Represents G p L →
    a.estimatedMovedObjects = (displaced G.objects L 0).length
      ∧ a.estimatedMovedBytes = (displaced G.objects L 0).sum

/-- The advice about no pool. -/
lemma recalled_blank {G : GlobalState} {p : ℕ} (hp : ¬ Active G p)
    (expected : Option CompactionRequest) : Recalled G p (blankAdvice expected) := by
  refine ⟨fun A epoch => ?_, by simp [blankAdvice, hp], fun _ => ⟨rfl, rfl⟩,
    fun h => absurd h hp, fun h => absurd h hp⟩
  have hnone : ∀ size, (allocNeed size).any (decide <| · = 0) = false := by
    intro size
    cases hneed : allocNeed size with
    | none => rfl
    | some need =>
        have hmin := (allocNeed_spec hneed).1
        have h16 := PmConfig.minBlock_ge
        simp only [Option.any_some, decide_eq_false_iff_not]
        omega
  simp [AdviceCache.recall, AdviceState.entry, blankAdvice, hnone]

section Healthy

variable {G : GlobalState} {Ls : ℕ → List Piece} {p : ℕ}

omit [PmConfig] in
/-- Audited counters have no verdict on the request itself. -/
lemma adviceVerdict_known [PmConfig] (A : AdviceState) (P : Pool) (a : CompactionAdvice)
    (r : Bool) : (adviceVerdict A P a r).1 ≠ .invalidRequest := by
  rw [adviceVerdict]
  split_ifs <;> decide

omit [PmConfig] in
/-- The caller owes a window of quiescence exactly for a recommended compaction. -/
lemma adviceVerdict_quiescence [PmConfig] (A : AdviceState) (P : Pool) (a : CompactionAdvice)
    (r : Bool) :
    (adviceVerdict A P a r).2 = decide ((adviceVerdict A P a r).1 = .compactRecommended) := by
  rw [adviceVerdict]
  split_ifs <;> rfl

/-- The advice about an existing pool. -/
lemma recalled_audited (h : GlobalInv G Ls) (hp : Active G p) (A : AdviceState)
    {expected : Option CompactionRequest} {need : ℕ} (hneed : adviceNeed expected = some need) :
    Recalled G p (auditedAdvice G A p expected need (liveSlots (Ls p))) := by
  have hpool := h.pool p hp
  have hrep := PoolInv.represents h hp
  refine ⟨fun A' epoch => ?_, iff_of_true rfl hp, fun hno => absurd hp hno, fun _ => ⟨_, hrep⟩,
    fun _ L hL => ?_⟩
  · have hcap : (G.pools p).usedBytes + (G.pools p).freeBytes = poolCapacity G (G.pools p) := by
      have := hpool.capacity h.zone
      have := total_eq (Ls p)
      have := hpool.used
      have := hpool.free
      omega
    simp only [AdviceCache.recall, AdviceState.entry, auditedAdvice, blankAdvice, hcap,
      adviceNeed_echo hneed, adviceVerdict_quiescence]
  · have hmoves := @packMoves_displaced G.objects (poolStart G (G.pools p)) _ L
      (fun hx => ⟨(hL.descriptor hx).start, (hL.descriptor hx).block⟩) le_rfl
    rw [Nat.sub_self, hL.liveSlots_eq hrep] at hmoves
    rw [← hmoves, List.length_map]
    exact ⟨rfl, rfl⟩

end Healthy

/-! ### The states of a run -/

/-- The zeroed state a `deinit` leaves. -/
def Shut (G : GlobalState) : Prop := ∃ m, G = { GlobalState.zero with mem := m }

/-- A state of a run with advice. -/
def Observed (G : GlobalState) : Prop := Reachable G ∨ Shut G

lemma Shut.poolAt {G : GlobalState} (h : Shut G) (p : ℕ) : PondMerge.poolAt G p = none := by
  obtain ⟨m, rfl⟩ := h
  exact poolAt_eq_none.mpr fun hp => hp.2 rfl

/-- Without `init`, no operation does anything. -/
lemma Shut.step {G : GlobalState} (h : Shut G) (op : Op) : PondMerge.step G op = G := by
  have hpool := h.poolAt
  have hinit : G.initialized = false := by
    obtain ⟨m, rfl⟩ := h
    rfl
  have hfree : ∀ i, (G.objects i).state = .free := by
    obtain ⟨m, rfl⟩ := h
    exact fun _ => rfl
  have hcheck : ∀ ref n a run, checkRef G ref n a run = .error .notInitialized := by
    intro ref n a run
    rw [checkRef, if_pos (by simp [hinit])]
  cases op with
  | pause p => simp only [PondMerge.step, pause, hpool]
  | resume p => simp only [PondMerge.step, resume, hpool]
  | write w => simp [PondMerge.step, clientWrite, hfree]
  | setDestroyFn ref fn => simp only [PondMerge.step, setDestroyFn, hcheck]
  | borrowBegin ref n a => simp only [PondMerge.step, borrowBegin, hcheck]
  | borrowEnd ref => simp [PondMerge.step, borrowEnd, borrowEndOk, hinit]
  | _ => simp [PondMerge.step, createPool, destroyPool, alloc, free, compact, merge, split, hinit]

lemma Observed.init {G : GlobalState} {cfg : InitConfig} (h : (init G cfg).1 = .ok) :
    Observed (init G cfg).2 := Or.inl (.init G cfg h)

lemma Observed.step {G : GlobalState} (h : Observed G) (op : Op) :
    Observed (PondMerge.step G op) := by
  cases h with
  | inl hr => exact Or.inl (hr.step op)
  | inr hs =>
      rw [hs.step op]
      exact Or.inr hs

lemma Observed.deinit {G : GlobalState} (h : Observed G) : Observed (deinit G).2 := by
  rw [PondMerge.deinit]
  split_ifs
  · exact h
  · exact h
  · exact Or.inr ⟨G.mem, rfl⟩

/-- The epoch an advice is cached under. -/
def epochOf (G : GlobalState) (p : ℕ) : ℕ := (poolAt G p).elim 0 (·.structureEpoch)

/-- What `analyze_compaction` does in a run: an `INVALID_REQUEST` leaves the cache alone, and any
other advice is what its entry stands for, and stored. -/
theorem analyze_recalled {G : GlobalState} (h : Observed G) (A : AdviceState) (p : ℕ)
    (expected : Option CompactionRequest) :
    (analyzeCompaction G A p expected).1.verdict = .invalidRequest
      ∧ (analyzeCompaction G A p expected).2 = A
    ∨ (analyzeCompaction G A p expected).1.verdict ≠ .invalidRequest
      ∧ Recalled G p (analyzeCompaction G A p expected).1
      ∧ (analyzeCompaction G A p expected).2 =
        A.store p (analyzeCompaction G A p expected).1 (epochOf G p) := by
  have hblank : ¬ Active G p → (blankAdvice expected).verdict ≠ .invalidRequest
      ∧ Recalled G p (blankAdvice expected)
      ∧ A.store p (blankAdvice expected) 0 = A.store p (blankAdvice expected) (epochOf G p) := by
    intro hp
    refine ⟨by simp [blankAdvice], recalled_blank hp expected, ?_⟩
    rw [epochOf, poolAt_eq_none.mpr hp]
    rfl
  cases h with
  | inr hs =>
      have hinit : G.initialized = false := by
        obtain ⟨m, rfl⟩ := hs
        rfl
      rw [analyzeCompaction, if_pos (by simp [hinit])]
      exact Or.inr (hblank (poolAt_eq_none.mp (hs.poolAt p)))
  | inl hr =>
      obtain ⟨Ls, hinv⟩ := hr.healthy
      cases hneed : adviceNeed expected with
      | none =>
          rw [analyzeCompaction, if_neg (by simp [hinv.zone.init]), hneed]
          exact Or.inl ⟨rfl, rfl⟩
      | some need =>
          by_cases hp : Active G p
          · rw [hinv.analyze_audited hp A hneed]
            refine Or.inr ⟨?_, recalled_audited hinv hp A hneed, ?_⟩
            · exact adviceVerdict_known _ _ _ _
            · rw [epochOf, poolAt_eq_some.mpr ⟨hp, rfl⟩]
              rfl
          · rw [analyzeCompaction, if_neg (by simp [hinv.zone.init]), hneed,
              poolAt_eq_none.mpr hp]
            exact Or.inr (hblank hp)

/-! ### The cache -/

/-- A valid entry is that of the advice the caller was last given. -/
structure CacheOk (R : AdviceRun) : Prop where
  observed : Observed R.state
  entry : ∀ p < pmMaxPools, (R.advice.cache p).valid = true → ∃ G a A epoch,
    R.told p = some (G, a) ∧ Recalled G p a ∧ R.advice.cache p = AdviceState.entry A a epoch

section Runs

variable {R : AdviceRun}

lemma CacheOk.start {G : GlobalState} (h : Observed G) (A : AdviceState) :
    CacheOk (.start G A) := ⟨h, fun p _ hvalid => absurd hvalid (by simp [AdviceRun.start,
  AdviceCache.zero])⟩

/-- A call that tells what it stores. -/
lemma CacheOk.tell (h : CacheOk R) (p : ℕ) (expected : Option CompactionRequest) :
    CacheOk (R.tell p (analyzeCompaction R.state R.advice p expected).1
      (analyzeCompaction R.state R.advice p expected).2) := by
  rcases analyze_recalled h.observed R.advice p expected with ⟨hverdict, hA⟩ | ⟨hverdict, ha, hA⟩
  · rw [AdviceRun.tell, if_pos hverdict, hA]
    exact h
  · rw [AdviceRun.tell, if_neg hverdict, hA]
    generalize (analyzeCompaction R.state R.advice p expected).1 = a at *
    refine ⟨h.observed, fun q hq hvalid => ?_⟩
    rw [AdviceState.store] at hvalid ⊢
    by_cases hqp : q = p
    · subst hqp
      rw [if_neg (by omega)] at hvalid ⊢
      dsimp only at hvalid ⊢
      rw [Function.update_self, Function.update_self]
      exact ⟨R.state, a, R.advice, epochOf R.state q, rfl, ha, rfl⟩
    · dsimp only
      rw [Function.update_of_ne hqp]
      split_ifs at hvalid ⊢
      · exact h.entry q hq hvalid
      · dsimp only at hvalid ⊢
        rw [Function.update_of_ne hqp] at hvalid ⊢
        exact h.entry q hq hvalid

/-- What one step preserves. -/
lemma CacheOk.step (h : CacheOk R) (op : AdviceOp) : CacheOk (R.step op) := by
  cases op with
  | init cfg =>
      rw [AdviceRun.step]
      split_ifs with hok
      · exact .start (.init hok) _
      · exact h
  | deinit => exact ⟨h.observed.deinit, h.entry⟩
  | op op => exact ⟨h.observed.step op, h.entry⟩
  | setThresholds t => exact ⟨h.observed, h.entry⟩
  | analyze p expected => exact h.tell p expected
  | poll p expected => exact h.tell p expected

/-- In every run, the cache holds what the caller was last given. -/
theorem AdviceReachable.cacheOk (h : AdviceReachable R) : CacheOk R := by
  induction h with
  | start G cfg A hok => exact .start (.init hok) A
  | step op _ ih => exact ih.step op

end Runs

/-! ### Suppressed polls -/

/-- If pool `p` exists, it has as many displaced blocks in both states, of the same size
altogether. -/
def SameDisplaced (G₀ G : GlobalState) (p : ℕ) : Prop :=
  Active G p → ∀ L₀ L, Represents G₀ p L₀ → Represents G p L →
    (displaced G₀.objects L₀ 0).length = (displaced G.objects L 0).length
      ∧ (displaced G₀.objects L₀ 0).sum = (displaced G.objects L 0).sum

/-- **What suppression hides.**  In every run, a poll that reports no change is about a pool its
caller has been given an advice on before.  It repeats that advice, field by field, exactly if
the pool has as many displaced blocks as it had then, of the same size altogether. -/
theorem poll_unchanged_iff {R : AdviceRun} (h : AdviceReachable R) {p : ℕ}
    {expected : Option CompactionRequest}
    (hkeep : (pollCompactionAdvice R.state R.advice p expected).2.1 = false) :
    ∃ G₀ a₀, R.told p = some (G₀, a₀)
      ∧ ((pollCompactionAdvice R.state R.advice p expected).1 = a₀ ↔
        SameDisplaced G₀ R.state p) := by
  obtain ⟨hobserved, hentry⟩ := h.cacheOk
  rw [pollCompactionAdvice] at hkeep ⊢
  dsimp only at hkeep ⊢
  rcases analyze_recalled hobserved R.advice p expected with ⟨hbad, -⟩ | ⟨hverdict, ha, -⟩
  · rw [if_pos hbad] at hkeep
    cases hkeep
  rw [if_neg hverdict, adviceChanged_eq_false] at hkeep
  generalize (analyzeCompaction R.state R.advice p expected).1 = a at *
  have hp : p < pmMaxPools := by
    by_contra hno
    rw [if_neg hno] at hkeep
    cases hkeep
  rw [if_pos hp] at hkeep
  have hvalid : (R.advice.cache p).valid = true := by
    rw [hkeep]
    rfl
  obtain ⟨G₀, a₀, A₀, epoch, htold, ha₀, hcache⟩ := hentry p hp hvalid
  refine ⟨G₀, a₀, htold, ?_⟩
  rw [hkeep] at hcache
  -- the key covers every other field, so two advices differ in the estimates alone
  have hmoved : a = a₀ ↔ a.estimatedMovedObjects = a₀.estimatedMovedObjects
      ∧ a.estimatedMovedBytes = a₀.estimatedMovedBytes := by
    constructor
    · rintro rfl
      exact ⟨rfl, rfl⟩
    · rintro ⟨hobjects, hbytes⟩
      rw [← ha.entry R.advice (epochOf R.state p), ← ha₀.entry A₀ epoch, hobjects, hbytes,
        ← hcache]
      rfl
  have hactive : Active R.state p ↔ Active G₀ p := by
    rw [← ha.valid, ← ha₀.valid]
    exact iff_of_eq (congrArg (· = true) (congrArg AdviceCache.statsValid hcache))
  rw [hmoved]
  -- an absent pool has no displaced blocks
  by_cases hact : Active R.state p
  · obtain ⟨L₀, hL₀⟩ := ha₀.represents (hactive.mp hact)
    obtain ⟨L, hL⟩ := ha.represents hact
    constructor
    · rintro ⟨hobjects, hbytes⟩ - M₀ M hM₀ hM
      obtain ⟨h₁, h₂⟩ := ha₀.moved (hactive.mp hact) M₀ hM₀
      obtain ⟨h₃, h₄⟩ := ha.moved hact M hM
      exact ⟨by omega, by omega⟩
    · intro hsame
      obtain ⟨h₁, h₂⟩ := ha₀.moved (hactive.mp hact) L₀ hL₀
      obtain ⟨h₃, h₄⟩ := ha.moved hact L hL
      obtain ⟨h₅, h₆⟩ := hsame hact L₀ L hL₀ hL
      exact ⟨by omega, by omega⟩
  · obtain ⟨h₁, h₂⟩ := ha.absent hact
    obtain ⟨h₃, h₄⟩ := ha₀.absent fun h₀ => hact (hactive.mpr h₀)
    exact iff_of_true ⟨by omega, by omega⟩ fun hact' => absurd hact' hact

/-- A pool of four blocks, the second of which has been freed; its caller has been told. -/
def holeTold : AdviceRun :=
  letI := defaultConfig
  ([.op (.createPool 3), .op (.alloc 0 24 8 0 0), .op (.alloc 0 24 8 0 1),
    .op (.alloc 0 24 8 0 2), .op (.alloc 0 24 8 0 3), .op (.free ⟨1, 1, crossHint, 0⟩ []),
    .poll 0 none] : List AdviceOp).foldl AdviceRun.step (.start (init .zero smallZone).2 .static)

omit [PmConfig] in
lemma holeTold_reachable : letI := defaultConfig; AdviceReachable holeTold :=
  letI := defaultConfig
  (AdviceReachable.start .zero smallZone .static (by decide)).steps _

/-- The hole has been filled and freed again since. -/
def holeRefilled : AdviceRun :=
  letI := defaultConfig
  ([.op (.alloc 0 24 8 0 4), .op (.free ⟨1, 3, crossHint, 0⟩ [])] : List AdviceOp).foldl
    AdviceRun.step holeTold

omit [PmConfig] in
lemma holeRefilled_reachable : letI := defaultConfig; AdviceReachable holeRefilled :=
  letI := defaultConfig
  holeTold_reachable.steps _

omit [PmConfig] in
set_option maxRecDepth 100000 in
/-- No change is reported, and the advice is the one that its caller has. -/
lemma holeRefilled_unchanged :
    letI := defaultConfig
    (pollCompactionAdvice holeRefilled.state holeRefilled.advice 0 none).2.1 = false
      ∧ (holeRefilled.told 0).map Prod.snd =
        some (pollCompactionAdvice holeRefilled.state holeRefilled.advice 0 none).1 := by
  decide +kernel

omit [PmConfig] in
/-- So the blocks a compaction would move are those of the state it was given in. -/
theorem poll_unchanged_iff_holeRefilled :
    letI := defaultConfig
    ∃ G₀ a₀, holeRefilled.told 0 = some (G₀, a₀)
      ∧ (pollCompactionAdvice holeRefilled.state holeRefilled.advice 0 none).1 = a₀
      ∧ SameDisplaced G₀ holeRefilled.state 0 := by
  let _ := defaultConfig
  obtain ⟨hkeep, htold⟩ := holeRefilled_unchanged
  obtain ⟨G₀, a₀, heq, hiff⟩ := poll_unchanged_iff holeRefilled_reachable hkeep
  rw [heq] at htold
  have hsame := (Option.some.inj htold).symm
  exact ⟨G₀, a₀, heq, hsame, hiff.mp hsame⟩

/-- The hole has been filled again, and the third block freed. -/
def holeMoved : AdviceRun :=
  letI := defaultConfig
  ([.op (.alloc 0 24 8 0 4), .op (.free ⟨2, 1, crossHint, 0⟩ [])] : List AdviceOp).foldl
    AdviceRun.step holeTold

omit [PmConfig] in
set_option maxRecDepth 100000 in
/-- Counters, largest block and epoch are as before: no change is reported, although a compaction
would now move one object and not two. -/
theorem holeMoved_suppressed :
    letI := defaultConfig
    AdviceReachable holeMoved
      ∧ (pollCompactionAdvice holeMoved.state holeMoved.advice 0 none).2.1 = false
      ∧ ∃ G₀ a₀, holeMoved.told 0 = some (G₀, a₀) ∧ a₀.estimatedMovedObjects = 2
        ∧ (pollCompactionAdvice holeMoved.state holeMoved.advice 0 none).1 ≠ a₀ := by
  let _ := defaultConfig
  have htold : letI := defaultConfig
      (holeMoved.told 0).map (·.2.estimatedMovedObjects) = some 2 := by decide +kernel
  have hnow : letI := defaultConfig
      (pollCompactionAdvice holeMoved.state holeMoved.advice 0 none).1.estimatedMovedObjects =
        1 := by
    decide +kernel
  obtain ⟨⟨G₀, a₀⟩, heq, htwo⟩ := Option.map_eq_some_iff.mp htold
  refine ⟨letI := defaultConfig; holeTold_reachable.steps _, by decide +kernel, G₀, a₀, heq, htwo,
    fun hsame => ?_⟩
  dsimp only at htwo
  rw [hsame, htwo] at hnow
  cases hnow

end PondMerge
