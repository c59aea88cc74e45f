import PondMerge.Guarantees.Targets

/-!
The compaction advice, against what the allocator then does.

* `reachable_estimate_exact`: the move estimate is that of the full compaction that follows.
* `reachable_verdict_iff`: when the verdict on a request is truthful; slack next to a block that
  has been freed is what it misjudges.
-/

namespace PondMerge

open ByteMemory Tiling

variable [PmConfig]

/-! ### The move estimate -/

section Estimate

variable {G : GlobalState} {Ls : ℕ → List Piece} {p : ℕ}

/-- The move statistics of a successful `compact` are those of its plan. -/
lemma compactDone_moved (hp : Active G p) (slots : List ℕ) (plan : List MovePlanEntry)
    (elapsed : ℕ) :
    (getStats (compactDone G p slots plan elapsed) p).objectsMoved = plan.length
      ∧ (getStats (compactDone G p slots plan elapsed) p).bytesMoved = planBytes plan := by
  obtain ⟨-, hrun⟩ := compactDone_heap G p slots plan elapsed
  have hact : Active (compactDone G p slots plan elapsed) p := ⟨hp.1, by rw [hrun]; decide⟩
  rw [getStats, poolAt_eq_some.mpr ⟨hact, rfl⟩]
  exact compactDone_entry G p slots plan elapsed

/-- The bytes of a full compaction do not wrap. -/
lemma PoolInv.planBytes_eq {L : List Piece} (hz : ZoneOk G) (h : PoolInv G p L) :
    planBytes (packMoves G.objects (liveSlots L) (poolStart G (G.pools p))) =
      moveBytes (packMoves G.objects (liveSlots L) (poolStart G (G.pools p))) := by
  have hbytes := moveBytes_le (c := poolStart G (G.pools p)) h.fits
  have hwin := h.window_lt hz
  have hend := h.end_eq
  rw [planBytes, ← moveBytes, u32_of_lt (by omega)]

end Estimate

/-- **The move estimate is exact.**  In a reachable state, what `analyze_compaction` estimates
for a pool without borrows, with no request or any valid one, is what the full `compact` that
follows moves; and that `compact` succeeds. -/
theorem reachable_estimate_exact {G : GlobalState} (h : Reachable G) {p : ℕ} (hp : Active G p)
    (hb : (G.pools p).borrowCount = 0) (A : AdviceState) {expected : Option CompactionRequest}
    (hreq : adviceNeed expected ≠ none) (elapsed : ℕ) :
    ∃ G', compact G p none elapsed = (.ok, true, G')
      ∧ (analyzeCompaction G A p expected).1.estimatedMovedObjects = (getStats G' p).objectsMoved
      ∧ (analyzeCompaction G A p expected).1.estimatedMovedBytes = (getStats G' p).bytesMoved := by
  obtain ⟨Ls, hinv⟩ := h.healthy
  obtain ⟨need, hneed⟩ := Option.ne_none_iff_exists'.mp hreq
  have hcompact := compact_eq hinv hp hb (rfl : requestOk none = true) elapsed
  have hplan := planOf_none G p (liveSlots (Ls p))
  have hmet := metOf_none G p (liveSlots (Ls p))
  obtain ⟨hobjects, hbytes⟩ := compactDone_moved hp (liveSlots (Ls p))
    (planOf G p none (liveSlots (Ls p))).1 elapsed
  refine ⟨_, by rw [hcompact, hmet], ?_, ?_⟩
  · rw [hinv.analyze_audited hp A hneed, hobjects, hplan]
    rfl
  · rw [hinv.analyze_audited hp A hneed, hbytes, hplan, (hinv.pool p hp).planBytes_eq hinv.zone]
    rfl

omit [PmConfig] in
theorem reachable_estimate_exact_neighbours :
    letI := defaultConfig
    ∃ G', compact neighbours 0 none 5 = (.ok, true, G')
      ∧ (analyzeCompaction neighbours .static 0 none).1.estimatedMovedObjects =
        (getStats G' 0).objectsMoved
      ∧ (analyzeCompaction neighbours .static 0 none).1.estimatedMovedBytes =
        (getStats G' 0).bytesMoved := by
  let _ := defaultConfig
  exact reachable_estimate_exact neighbours_reachable neighbours_active neighbours_running.2.1
    .static (by decide) 5

/-! ### The verdict on a request -/

/-- What a verdict on a request promises: `NO_ACTION`, that `alloc` serves it now;
`COMPACT_UNLIKELY_TO_HELP`, that it fails now and after a full compaction. -/
def VerdictTruthful (G : GlobalState) (A : AdviceState) (p : ℕ) (req : CompactionRequest)
    (flags tag : ℕ) : Prop :=
  ((analyzeCompaction G A p (some req)).1.verdict = .noAction →
    (alloc G p req.requestedSize (targetAlignment req) flags tag).1 = .ok)
  ∧ ((analyzeCompaction G A p (some req)).1.verdict = .compactUnlikelyToHelp →
    (alloc G p req.requestedSize (targetAlignment req) flags tag).1 ≠ .ok
      ∧ ∀ elapsed, (compact G p none elapsed).1 = .ok →
        (alloc (compact G p none elapsed).2.2 p req.requestedSize (targetAlignment req) flags
          tag).1 ≠ .ok)

section Verdict

variable {G : GlobalState} {Ls : ℕ → List Piece} {p : ℕ}

/-- A free block is no slack. -/
lemma PoolInv.free_le {L : List Piece} (h : PoolInv G p L) {n : ℕ} (hn : .free n ∈ L) :
    n ≤ (G.pools p).freeBytes - (G.pools p).fragmentBytes := by
  have hle := free_le_freeOf hn
  have htotal := total_eq L
  have hfree := h.free
  have hlost := h.lost
  omega

/-- The verdict on a request, in a Running pool without borrows: the largest free block decides
about now, all free bytes but the slack about the time after a compaction. -/
lemma GlobalInv.verdict_spec (h : GlobalInv G Ls) (hp : Active G p)
    (hrun : (G.pools p).state = .running) (hb : (G.pools p).borrowCount = 0) (A : AdviceState)
    {req : CompactionRequest} {need : ℕ} (hneed : adviceNeed (some req) = some need) :
    ((analyzeCompaction G A p (some req)).1.verdict = .noAction ↔ ∃ n, .free n ∈ Ls p ∧ need ≤ n)
      ∧ ((analyzeCompaction G A p (some req)).1.verdict = .compactUnlikelyToHelp ↔
        (G.pools p).freeBytes - (G.pools p).fragmentBytes < need) := by
  have hpool := h.pool p hp
  have hpos := (allocNeed_spec (adviceNeed_some hneed).2.2).1
  have hmin := PmConfig.minBlock_ge
  obtain ⟨-, hmax, hlargest, -⟩ := hpool.getStats_spec h.zone hp
  have hlarge : (∃ n, .free n ∈ Ls p ∧ need ≤ n) ↔ need ≤ (getStats G p).largestFreeBlock := by
    constructor
    · rintro ⟨n, hn, hle⟩
      exact hle.trans (hmax n hn)
    · intro hle
      exact ⟨_, hlargest.resolve_left (by omega), hle⟩
  have hbelow : (getStats G p).largestFreeBlock ≤
      (G.pools p).freeBytes - (G.pools p).fragmentBytes := by
    cases hlargest with
    | inl h0 => omega
    | inr hm => exact hpool.free_le hm
  rw [h.analyze_audited hp A hneed, auditedAdvice, hlarge]
  dsimp only
  rw [adviceVerdict, if_neg (by simp [poolMaintainable, hrun, hb])]
  by_cases hnow : need ≤ (getStats G p).largestFreeBlock
  · have hnot : ¬ (G.pools p).freeBytes - (G.pools p).fragmentBytes < need := by omega
    simp [hnow, hnot]
  · by_cases hafter : (G.pools p).freeBytes - (G.pools p).fragmentBytes < need
    · simp [hnow, hafter]
    · simp [hnow, hafter]

/-- The free blocks a full compaction leaves, as far as a request can use them, are the room of
the stretches. -/
lemma GlobalInv.compact_rooms (h : GlobalInv G Ls) (hp : Active G p)
    (hb : (G.pools p).borrowCount = 0) (elapsed : ℕ) :
    ∃ G' L', compact G p none elapsed = (.ok, true, G')
      ∧ GlobalInv G' (Function.update Ls p L') ∧ (G'.pools p).state = .running
      ∧ (∀ i, (G'.objects i).state = (G.objects i).state)
      ∧ ∀ n, pmMinBlock ≤ n → (.free n ∈ L' ↔ n ∈ rooms G.objects (Ls p) 0) := by
  have hpool := h.pool p hp
  have haud := hpool.audited h.zone
  have hplan := planOf_none G p (liveSlots (Ls p))
  have hcompact := compact_eq h hp hb (rfl : requestOk none = true) elapsed
  obtain ⟨-, hpack, hdst⟩ := compactPlan_slots h.zone haud none
  obtain ⟨hinv, hdone⟩ := compactDone_inv h hp hpack hdst elapsed
  have hplaced := @compactDone_placed _ G p _ haud.nodup _ hpack.sublist elapsed
  obtain ⟨hstart, hstop⟩ := (compactDone_spec h.zone haud hpack hdst elapsed).2.window
  have hmet := metOf_none G p (liveSlots (Ls p))
  refine ⟨_, _, by rw [hcompact, hmet], hinv, hdone.running, fun i => ?_, fun n hn => ?_⟩
  · by_cases hi : i ∈ liveSlots (Ls p)
    · exact (hdone.relocated.kept i hi).state
    · rw [hdone.relocated.other i hi]
  · have hmin := PmConfig.minBlock_ge
    rw [hplan] at hplaced
    rw [packedLayout, hstart, hstop, hpool.end_eq, free_mem_packed hn, hplan,
      mem_gaps_rooms (fun hx => ⟨(hpool.desc hx).start, (hpool.desc hx).block⟩) le_rfl
        (hplaced.packedFrom haud.nodup) hplaced.size (by omega), Nat.sub_self]

end Verdict

/-- **When a verdict is truthful.**  In a reachable state, for a Running pool without borrows, a
free descriptor slot and a valid request, it is so exactly if

* one of the free blocks that could hold the request is in no lower bin, if there are any, and
* no stretch between pinned blocks has room for it in such a bin, if the free bytes that are no
slack do not suffice. -/
theorem reachable_verdict_iff {G : GlobalState} (h : Reachable G) {p : ℕ} (hp : p < pmMaxPools)
    (hrun : (G.pools p).state = .running) (hb : (G.pools p).borrowCount = 0)
    (hslot : ∃ i < pmMaxObjects, (G.objects i).state = .free) {req : CompactionRequest}
    {need : ℕ} (hneed : adviceNeed (some req) = some need) {flags : ℕ}
    (hflags : flags &&& pmUnknownFlags = 0) (A : AdviceState) (tag : ℕ) :
    ∃ L, Represents G p L ∧ (VerdictTruthful G A p req flags tag ↔
      ((∃ n, .free n ∈ L ∧ need ≤ n) → ∃ n, .free n ∈ L ∧ need ≤ n ∧ ClassBelow need n)
      ∧ ((G.pools p).freeBytes - (G.pools p).fragmentBytes < need →
        ∀ n ∈ rooms G.objects L 0, need ≤ n → ¬ ClassBelow need n)) := by
  obtain ⟨Ls, hinv⟩ := h.healthy
  have hact : Active G p := ⟨hp, by rw [hrun]; decide⟩
  have hpool := hinv.pool p hact
  obtain ⟨hsize, halign, hallocNeed⟩ := adviceNeed_some hneed
  have hmin := (allocNeed_spec hallocNeed).1
  have hmin16 := PmConfig.minBlock_ge
  have hask : AllocAsked G p req.requestedSize (targetAlignment req) flags :=
    ⟨hact, hrun, hsize, halign, hflags⟩
  refine ⟨Ls p, PoolInv.represents hinv hact, ?_⟩
  -- `alloc`, now
  have hnow : (alloc G p req.requestedSize (targetAlignment req) flags tag).1 = .ok ↔
      ∃ n, .free n ∈ Ls p ∧ need ≤ n ∧ ClassBelow need n := by
    rw [(alloc_ok_iff_free hinv hslot hask tag).1, hallocNeed]
    simp only [Option.some.injEq, exists_eq_left']
  -- `alloc`, after a full compaction
  have hafter : ∀ elapsed, (compact G p none elapsed).1 = .ok
      ∧ ((alloc (compact G p none elapsed).2.2 p req.requestedSize (targetAlignment req) flags
          tag).1 = .ok ↔ ∃ n ∈ rooms G.objects (Ls p) 0, need ≤ n ∧ ClassBelow need n) := by
    intro elapsed
    obtain ⟨G', L', heq, hinv', hrun', hstates, hrooms⟩ := hinv.compact_rooms hact hb elapsed
    have hask' : AllocAsked G' p req.requestedSize (targetAlignment req) flags :=
      ⟨⟨hp, by rw [hrun']; decide⟩, hrun', hsize, halign, hflags⟩
    rw [heq]
    refine ⟨rfl, ?_⟩
    rw [(alloc_ok_iff_free hinv' (by simpa only [hstates] using hslot) hask' tag).1, hallocNeed,
      Function.update_self]
    constructor
    · rintro ⟨k, hk, n, hn, hle, hclass⟩
      obtain rfl := Option.some.inj hk
      exact ⟨n, (hrooms n (hmin.trans hle)).mp hn, hle, hclass⟩
    · rintro ⟨n, hn, hle, hclass⟩
      exact ⟨need, rfl, n, (hrooms n (hmin.trans hle)).mpr hn, hle, hclass⟩
  obtain ⟨hnoAction, hunlikely⟩ := hinv.verdict_spec hact hrun hb A hneed
  rw [VerdictTruthful, hnoAction, hunlikely, hnow]
  refine and_congr_right fun _ => imp_congr_right fun hfew => ⟨fun h n hn hle hclass => ?_, ?_⟩
  · exact h.2 0 (hafter 0).1 ((hafter 0).2.mpr ⟨n, hn, hle, hclass⟩)
  · intro h
    refine ⟨fun hok => ?_, fun elapsed _ hok => ?_⟩
    · obtain ⟨n, hn, hle, -⟩ := hnow.mp hok
      have := hpool.free_le hn
      omega
    · obtain ⟨n, hn, hle, hclass⟩ := (hafter elapsed).2.mp hok
      exact h n hn hle hclass

/-- A request of `size` bytes with the default alignment and no budget. -/
def plainRequest (size : ℕ) : CompactionRequest := ⟨size, 0, 0, 0, 0, 0⟩

omit [PmConfig] in
set_option maxRecDepth 100000 in
/-- On 64 bytes the verdict is `NO_ACTION`, and `alloc` serves them. -/
lemma neighbours_truthful :
    letI := defaultConfig
    (analyzeCompaction neighbours .static 0 (some (plainRequest 64))).1.verdict = .noAction
      ∧ VerdictTruthful neighbours .static 0 (plainRequest 64) 0 7 := by
  obtain ⟨hverdict, hno, halloc⟩ : letI := defaultConfig
      (analyzeCompaction neighbours .static 0 (some (plainRequest 64))).1.verdict = .noAction
        ∧ (analyzeCompaction neighbours .static 0 (some (plainRequest 64))).1.verdict ≠
          .compactUnlikelyToHelp
        ∧ (alloc neighbours 0 (plainRequest 64).requestedSize
          (targetAlignment (plainRequest 64)) 0 7).1 = .ok := by decide +kernel
  exact ⟨hverdict, fun _ => halloc, fun hunlikely => absurd hunlikely hno⟩

omit [PmConfig] in
theorem reachable_verdict_iff_neighbours :
    letI := defaultConfig
    VerdictTruthful neighbours .static 0 (plainRequest 64) 0 7
      ∧ ∃ L, Represents neighbours 0 L
        ∧ ((∃ n, .free n ∈ L ∧ 72 ≤ n) → ∃ n, .free n ∈ L ∧ 72 ≤ n ∧ ClassBelow 72 n)
        ∧ ((neighbours.pools 0).freeBytes - (neighbours.pools 0).fragmentBytes < 72 →
          ∀ n ∈ rooms neighbours.objects L 0, 72 ≤ n → ¬ ClassBelow 72 n) := by
  let _ := defaultConfig
  have hneed : adviceNeed (some (plainRequest 64)) = some 72 := by decide
  have hflags : 0 &&& pmUnknownFlags = 0 := by decide
  obtain ⟨hrun, hborrow, -, hslot⟩ := neighbours_running
  obtain ⟨L, hL, hiff⟩ := reachable_verdict_iff neighbours_reachable (by decide) hrun hborrow
    ⟨5, by decide, hslot⟩ hneed hflags .static 7
  exact ⟨neighbours_truthful.2, L, hL, hiff.mp neighbours_truthful.2⟩

/-- The lower half of a split pool: eight bytes of slack at its end, behind a block that has been
freed since. -/
def slackBehind : GlobalState :=
  letI := defaultConfig
  runOps (init .zero smallZone).2 [.createPool 2, .alloc 0 976 8 0 1, .alloc 0 24 8 0 2,
    .split 0 1, .free ⟨1, 1, crossHint, 0⟩ []]

omit [PmConfig] in
set_option maxRecDepth 100000 in
/-- Of its 40 bytes behind the last block, 8 are slack: the verdict on a block of 40 bytes is
`COMPACT_UNLIKELY_TO_HELP`, and `alloc` serves it after a full compaction. -/
theorem slackBehind_verdict :
    letI := defaultConfig
    Reachable slackBehind ∧ (slackBehind.pools 0).state = .running
      ∧ (slackBehind.pools 0).borrowCount = 0
      ∧ (∃ i < pmMaxObjects, (slackBehind.objects i).state = .free)
      ∧ adviceNeed (some (plainRequest 32)) = some 40
      ∧ ¬ VerdictTruthful slackBehind .static 0 (plainRequest 32) 0 7 := by
  obtain ⟨hrun, hborrow, hslot, hverdict, hcompact, halloc⟩ : letI := defaultConfig
      (slackBehind.pools 0).state = .running ∧ (slackBehind.pools 0).borrowCount = 0
        ∧ (slackBehind.objects 5).state = .free
        ∧ (analyzeCompaction slackBehind .static 0 (some (plainRequest 32))).1.verdict =
          .compactUnlikelyToHelp
        ∧ (compact slackBehind 0 none 0).1 = .ok
        ∧ (alloc (compact slackBehind 0 none 0).2.2 0 (plainRequest 32).requestedSize
          (targetAlignment (plainRequest 32)) 0 7).1 = .ok := by decide +kernel
  exact ⟨smallZone_runOps _, hrun, hborrow, ⟨5, by decide, hslot⟩, by decide,
    fun htruth => (htruth.2 hverdict).2 0 hcompact halloc⟩

end PondMerge
