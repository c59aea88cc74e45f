import PondMerge.Guarantees.Preservation
import PondMerge.Guarantees.Representation
import PondMerge.Operations.Advice

/-!
Availability: what a healthy run never refuses, and what `alloc` admits.

* `PoolInv.noUndersized_iff`: when a pool holds a free block below `PM_MIN_BLOCK`.
* `GlobalInv.advice_valid`: `analyze_compaction` finds nothing wrong.
* `NeverSpurious`: no operation fails without a reason a caller could know.
* `reachable_neverSpurious_iff`: exactly when, which is a matter of `merge` alone.
* `alloc_ok_iff`: `alloc` succeeds exactly up to `largest_free_block`.
-/

namespace PondMerge

open ByteMemory Tiling

variable [PmConfig]

/-! ### Undersized pools -/

/-- The bytes a pool counts as free are all slack, or its window holds a minimal block. -/
def Roomy (G : GlobalState) (p : ℕ) : Prop :=
  pmMinBlock ≤ poolCapacity G (G.pools p) ∨ (G.pools p).freeBytes = (G.pools p).fragmentBytes

section Pool

variable {G : GlobalState} {p : ℕ} {L : List Piece}

/-- A free block below `PM_MIN_BLOCK` is a whole window. -/
lemma PoolInv.noUndersized_iff (hz : ZoneOk G) (h : PoolInv G p L) :
    NoUndersized L ↔ Roomy G p := by
  have hcap := h.capacity hz
  have htotal := total_eq L
  have hfree := h.free
  have hlost := h.lost
  rw [Roomy]
  constructor
  · intro hno
    by_contra hnot
    rw [not_or, not_le] at hnot
    -- free bytes that are no slack lie in some free block
    have hpos : freeOf L ≠ 0 := fun h0 => hnot.2 (by omega)
    obtain ⟨⟨x, n⟩, hx⟩ : ∃ u, u ∈ freeSpots 0 L := by
      refine List.exists_mem_of_ne_nil _ fun hnil => hpos ?_
      rw [freeOf, hnil]
      rfl
    have hn := mem_of_mem_place (mem_freeSpots.mp hx)
    have := hno n hn
    have := free_le_freeOf hn
    omega
  · rintro hok n hn
    rcases h.layout.minBlock n hn with hle | rfl
    · exact hle
    · have h16 : 16 ≤ n := (h.layout.pieces _ hn).1
      have hfreeOf := free_le_freeOf hn
      have hlen : Tiling.total Piece.len [.free n] = n := rfl
      omega

end Pool

/-! ### The advice -/

section Advice

variable {G : GlobalState} {Ls : ℕ → List Piece}

omit [PmConfig] in
/-- Audited counters have no invalid verdict. -/
lemma adviceVerdict_valid (A : AdviceState) (P : Pool) (a : CompactionAdvice) (r : Bool) :
    (adviceVerdict A P a r).1 ≠ .invalidMetadata := by
  rw [adviceVerdict]
  split_ifs <;> decide

/-- `analyze_compaction` of an existing pool passes its own audits. -/
theorem GlobalInv.advice_valid (h : GlobalInv G Ls) {p : ℕ} (hp : Active G p) (A : AdviceState)
    (expected : Option CompactionRequest) :
    (analyzeCompaction G A p expected).1.verdict ≠ .invalidMetadata := by
  cases hneed : adviceNeed expected with
  | none =>
      rw [analyzeCompaction, if_neg (by simp [h.zone.init]), hneed]
      simp
  | some need =>
      rw [h.analyze_audited hp A hneed]
      exact adviceVerdict_valid _ _ _ _

end Advice

/-! ### No spurious failure -/

/-- What a caller may rely on in state `G`. -/
structure NeverSpurious (G : GlobalState) : Prop where
  compacts : ∀ p req elapsed, Active G p → (G.pools p).borrowCount = 0 → requestOk req = true →
    (compact G p req elapsed).1 = .ok
  merges : ∀ s t, MergeReady G s t → (merge G s t).1 = .ok
  frees : ∀ i hint ws, LiveObject G i → (G.objects i).activeBorrows = 0 →
    (G.pools (G.objects i).poolId).state = .running →
    hint = crossHint ∨ hint = (G.objects i).poolId →
    (free (writingCallback ws) G ⟨i, (G.objects i).generation, hint, 0⟩).1 = .ok
  allocSane : ∀ p size alignment flags tag,
    (alloc G p size alignment flags tag).1 ≠ .corruptMetadata
  freeSane : ∀ ref ws, (free (writingCallback ws) G ref).1 ≠ .corruptMetadata
  borrowSane : ∀ ref n a, (borrowBegin G ref n a).1 ≠ .corruptMetadata
  resolveSane : ∀ ref n a, (resolve G ref n a).1 ≠ .corruptMetadata
  createSane : ∀ n, (createPool G n).1 ≠ .corruptMetadata
  compactSane : ∀ p req elapsed, (compact G p req elapsed).1 ≠ .corruptMetadata
  mergeSane : ∀ s t, (merge G s t).1 ≠ .corruptMetadata
  splitSane : ∀ s n, (split G s n).1 ≠ .corruptMetadata
  adviceSane : ∀ A p expected, Active G p →
    (analyzeCompaction G A p expected).1.verdict ≠ .invalidMetadata

section Sane

variable {G : GlobalState} {Ls : ℕ → List Piece}

/-- A root reference to a live object without borrows frees it. -/
lemma free_root (h : GlobalInv G Ls) (halign : 0 < pmMaxAlignment) {i hint : ℕ}
    (ws : List PayloadWrite) (hi : LiveObject G i) (hb : (G.objects i).activeBorrows = 0)
    (hrun : (G.pools (G.objects i).poolId).state = .running)
    (hhint : hint = crossHint ∨ hint = (G.objects i).poolId) :
    (free (writingCallback ws) G ⟨i, (G.objects i).generation, hint, 0⟩).1 = .ok := by
  obtain ⟨x, n, hact, hx, -⟩ := h.payload hi.1 hi.2
  have hgen := ((h.pool _ hact).desc hx).generation
  have hck : checkRef G ⟨i, (G.objects i).generation, hint, 0⟩ 0 1 true =
      .ok ((G.objects i).address + 0) := by
    have hone : alignmentOk 1 = true := by
      rw [alignmentOk]
      simp only [decide_eq_true_eq]
      exact ⟨by omega, rfl, halign⟩
    rw [checkRef_healthy h]
    dsimp only
    rw [if_neg, if_neg (by tauto), if_neg (by simp [hrun]), if_neg (by simp [hone]),
      if_neg (by omega), if_neg (by simp)]
    rintro (hbad | hbad | hbad | hbad)
    · have := hi.1
      omega
    · exact hgen hbad
    · exact hbad hi.2
    · exact hbad rfl
  rw [free_healthy h]
  dsimp only
  rw [if_neg (not_not.mpr rfl), hck]
  dsimp only
  rw [if_neg (not_not.mpr hb)]

lemma checkRef_sane {α : Type*} (h : GlobalInv G Ls) {ref : RawRef} {n a : ℕ} {rr : Bool}
    {f : Status → Status × α} {g : ℕ → Status × α} (hf : ∀ e, (f e).1 = e)
    (hg : ∀ x, (g x).1 = .ok) :
    (match checkRef G ref n a rr with
      | .error e => f e
      | .ok x => g x).1 ≠ .corruptMetadata := by
  cases hck : checkRef G ref n a rr with
  | error e =>
      dsimp only
      rw [hf]
      exact (checkRef_error h hck).2
  | ok x =>
      dsimp only
      rw [hg]
      decide

/-- Everything but `merge` is never spurious; `merge` is exactly where no free block of the
two pools is undersized. -/
theorem neverSpurious_iff (h : GlobalInv G Ls) (halign : SomeLive G → 0 < pmMaxAlignment) :
    NeverSpurious G ↔ ∀ s t, MergeReady G s t → Roomy G s ∧ Roomy G t := by
  have hsize : ∀ {s t}, MergeReady G s t →
      (NoUndersized (Ls s) ∧ NoUndersized (Ls t) ↔ Roomy G s ∧ Roomy G t) := by
    intro s t hr
    rw [(h.pool s hr.source).noUndersized_iff h.zone, (h.pool t hr.target).noUndersized_iff h.zone]
  constructor
  · intro hnever s t hr
    -- a ready merge can only be refused for an undersized block
    by_contra hnot
    obtain ⟨st, heq, hst, -⟩ := merge_refused h (s := s) (t := t)
      fun hyes => hnot ((hsize hr).mp hyes.2)
    have := hnever.merges s t hr
    rw [heq] at this
    exact hst this
  · intro hmerge
    -- conversely, each operation by the list of its outcomes
    refine ⟨fun p req elapsed hp hb hreq => ?_, fun s t hr => ?_, fun i hint ws hi hb hrun hhint =>
      free_root h (halign ⟨i, hi⟩) ws hi hb hrun hhint, fun p size alignment flags tag => ?_,
      fun ref ws => ?_, fun ref n a => ?_, fun ref n a => ?_, fun n => ?_,
      fun p req elapsed => ?_, fun s t => ?_, fun s n => ?_,
      fun A p expected hp => h.advice_valid hp A expected⟩
    · obtain ⟨met, G', L', heq, -⟩ := compact_ok h hp hb hreq elapsed
      rw [heq]
    · obtain ⟨G', L', heq, -⟩ := merge_ok h hr ((hsize hr).mpr (hmerge s t hr))
      rw [heq]
    · obtain ⟨hno, hask⟩ := alloc_healthy h p size alignment flags tag
      by_cases ha : AllocAsked G p size alignment flags
      · rcases hask ha with ⟨need, blk, -, heq⟩ | ⟨heq, -⟩
        · rw [heq]
          simp
        · rw [heq]
          simp
      · obtain ⟨st, -, hst, heq⟩ := hno ha
        rwa [heq]
    · rcases free_cases h ref ws with ⟨st, -, hst, heq⟩ | ⟨-, -, heq⟩
      · rwa [heq]
      · rw [heq]
        simp
    · exact checkRef_sane h (fun _ => rfl) fun _ => rfl
    · exact checkRef_sane h (fun _ => rfl) fun _ => rfl
    · rcases createPool_cases h n with ⟨st, -, hst, heq⟩ | ⟨i, base, heq, -⟩
      · rwa [heq]
      · rw [heq]
        simp
    · by_cases hyes : Active G p ∧ (G.pools p).borrowCount = 0 ∧ requestOk req = true
      · obtain ⟨met, G', L', heq, -⟩ := compact_ok h hyes.1 hyes.2.1 hyes.2.2 elapsed
        rw [heq]
        simp
      · obtain ⟨st, G', heq, -, hst, -⟩ := compact_refused h hyes elapsed
        rw [heq]
        rcases hst with rfl | rfl | rfl <;> simp
    · by_cases hr : MergeReady G s t
      · obtain ⟨G', L', heq, -⟩ := merge_ok h hr ((hsize hr).mpr (hmerge s t hr))
        rw [heq]
        simp
      · obtain ⟨st, heq, -, hst⟩ := merge_refused h (s := s) (t := t) fun hyes => hr hyes.1
        rw [heq]
        exact fun hbad => hr (hst.mp hbad)
    · by_cases hyes : ∃ nid G', split G s n = (.ok, some nid, G')
      · obtain ⟨nid, G', heq⟩ := hyes
        rw [heq]
        simp
      · push Not at hyes
        obtain ⟨st, heq, -, hst⟩ := split_refused h hyes
        rwa [heq]

end Sane

/-- A reachable state never fails spuriously, exactly where no two pools ready to be merged
hold a window smaller than `PM_MIN_BLOCK` with a free block. -/
theorem reachable_neverSpurious_iff {G : GlobalState} (h : Reachable G) :
    NeverSpurious G ↔ ∀ s t, MergeReady G s t → Roomy G s ∧ Roomy G t := by
  obtain ⟨Ls, hinv⟩ := h.healthy
  exact neverSpurious_iff hinv h.maxAlignment_pos

omit [PmConfig] in
set_option maxRecDepth 100000 in
lemma neighbours_capacity : ∀ p < 16, (neighbours.pools p).state ≠ .empty →
    16 ≤ poolCapacity neighbours (neighbours.pools p) := by
  decide +kernel

omit [PmConfig] in
theorem reachable_neverSpurious_neighbours : letI := defaultConfig; NeverSpurious neighbours :=
  letI := defaultConfig
  (reachable_neverSpurious_iff neighbours_reachable).mpr fun s t hr =>
    ⟨Or.inl (neighbours_capacity s hr.source.1 hr.source.2),
      Or.inl (neighbours_capacity t hr.target.1 hr.target.2)⟩

/-- A configuration whose minimal block is larger than the smallest segment. -/
@[reducible] def wideBlocks : PmConfig :=
  { defaultConfig with
    pmMinBlock := 2048
    minBlock_pow := by decide
    minBlock_ge := by decide
    minBlock_lt := by decide }

/-- Two fresh pools of one segment each. -/
def undersized : GlobalState :=
  letI := wideBlocks
  runOps (init .zero smallZone).2 [.createPool 1, .createPool 1]

omit [PmConfig] in
set_option maxRecDepth 100000 in
/-- `create_pool` makes pools whose merge is refused as corruption. -/
theorem undersized_spurious :
    letI := wideBlocks
    Reachable undersized ∧ MergeReady undersized 0 1
      ∧ (merge undersized 0 1).1 = .corruptMetadata ∧ ¬ NeverSpurious undersized := by
  let _ := wideBlocks
  have hreach : Reachable undersized := (Reachable.init .zero smallZone (by decide)).runOps _
  have hready : MergeReady undersized 0 1 :=
    ⟨by decide, ⟨by decide, by decide +kernel⟩, ⟨by decide, by decide +kernel⟩,
      by decide +kernel, by decide +kernel, Or.inl (by decide +kernel)⟩
  have hbad : (merge undersized 0 1).1 = .corruptMetadata := by decide +kernel
  refine ⟨hreach, hready, hbad, fun hnever => ?_⟩
  exact hnever.mergeSane 0 1 hbad

/-! ### What `alloc` admits -/

/-- The block a payload of `size` bytes needs, without wrap. -/
def blockNeed (size : ℕ) : ℕ := max pmMinBlock ((size + 7) / 8 * 8 + 8)

/-- The 32-bit size math of `alloc` refuses exactly what the bins cannot hold. -/
lemma allocNeed_eq (size : ℕ) :
    allocNeed size = if blockNeed size < 2 ^ pmFlMax then some (blockNeed size) else none := by
  have hpow : 2 ^ pmFlMax ≤ 2 ^ 31 := Nat.pow_le_pow_right (by omega) PmConfig.flMax_le
  rw [allocNeed, blockNeed]
  by_cases hbig : 2 ^ 32 - 1 - 7 < size
  · rw [if_pos hbig, if_neg (by omega)]
  have halign : alignUpU size 8 = (size + 7) / 8 * 8 := by
    rw [alignUpU, u32_of_lt (by omega)]
    rfl
  rw [if_neg hbig, halign]
  by_cases hwrap : 2 ^ 32 - 1 - 8 < (size + 7) / 8 * 8
  · rw [if_pos hwrap, if_neg (by omega)]
  have hmax : (if (size + 7) / 8 * 8 + 8 < pmMinBlock then pmMinBlock
      else (size + 7) / 8 * 8 + 8) = max pmMinBlock ((size + 7) / 8 * 8 + 8) := by
    split_ifs <;> omega
  rw [if_neg hwrap, hmax]
  dsimp only
  by_cases hle : 2 ^ pmFlMax ≤ max pmMinBlock ((size + 7) / 8 * 8 + 8)
  · rw [if_pos hle, if_neg (by omega)]
  · rw [if_neg hle, if_pos (by omega)]

/-- With the default second levels, `alloc` in a Running pool of a reachable state succeeds
exactly where `largest_free_block` holds the block it needs and the bins can represent it;
otherwise there is no space. -/
theorem reachable_alloc_iff {G : GlobalState} (h : Reachable G) (hSL : pmSlCount = 4)
    (hFL : pmFlMax = 24) {p size alignment flags : ℕ} (hp : p < pmMaxPools)
    (hrun : (G.pools p).state = .running)
    (hslot : ∃ i < pmMaxObjects, (G.objects i).state = .free) (hsize : 1 ≤ size)
    (halign : alignmentOk alignment = true) (hflags : flags &&& pmUnknownFlags = 0) (tag : ℕ) :
    ((alloc G p size alignment flags tag).1 = .ok ↔
      blockNeed size ≤ (getStats G p).largestFreeBlock ∧ blockNeed size < 2 ^ pmFlMax)
    ∧ ((alloc G p size alignment flags tag).1 ≠ .ok →
      alloc G p size alignment flags tag = (.noSpace, .null, G))
    ∧ ∃ L, Represents G p L ∧ (∀ n, .free n ∈ L → n ≤ (getStats G p).largestFreeBlock)
      ∧ ((getStats G p).largestFreeBlock = 0 ∨ .free (getStats G p).largestFreeBlock ∈ L) := by
  obtain ⟨Ls, hinv⟩ := h.healthy
  have hact : Active G p := ⟨hp, by rw [hrun]; decide⟩
  have hpool := hinv.pool p hact
  obtain ⟨-, hmax, hlargest, -⟩ := hpool.getStats_spec hinv.zone hact
  -- with four columns the sizes of all classes fit 32 bits
  have hfit : pmSlCount * 2 ^ (pmFlMax - 1) ≤ 2 ^ 32 := by
    rw [hSL, hFL]
    decide
  have hge : 16 ≤ blockNeed size := PmConfig.minBlock_ge.trans (le_max_left _ _)
  have hneed := allocNeed_eq size
  have hask : AllocAsked G p size alignment flags := ⟨hact, hrun, hsize, halign, hflags⟩
  obtain ⟨hok, hno⟩ := alloc_ok_iff_free hinv hslot hask tag
  refine ⟨hok.trans ⟨?_, ?_⟩, hno, Ls p, PoolInv.represents hinv hact, hmax, hlargest⟩
  · rintro ⟨need, heq, n, hn, hle, -⟩
    rw [heq] at hneed
    split_ifs at hneed with hlt
    rw [Option.some.injEq] at hneed
    have := hmax n hn
    omega
  · rintro ⟨hle, hlt⟩
    rw [if_pos hlt] at hneed
    cases hlargest with
    | inl h0 => omega
    | inr hm =>
        refine ⟨_, hneed, _, hm, hle, class_mono hfit hge hle ?_⟩
        exact (hpool.free_lt hinv.zone hm).2

omit [PmConfig] in
set_option maxRecDepth 100000 in
/-- Forty bytes fit into the largest free block of this pool, a thousand do not. -/
theorem reachable_alloc_iff_neighbours :
    letI := defaultConfig
    (blockNeed 40 ≤ (getStats neighbours 0).largestFreeBlock
        ∧ (alloc neighbours 0 40 8 0 7).1 = .ok)
      ∧ (getStats neighbours 0).largestFreeBlock < blockNeed 1000
      ∧ alloc neighbours 0 1000 8 0 7 = (.noSpace, .null, neighbours) := by
  let _ := defaultConfig
  obtain ⟨hrun, -, -, hslot⟩ := neighbours_running
  have halign : alignmentOk 8 = true := by decide
  have hflags : 0 &&& pmUnknownFlags = 0 := by decide
  have hask := fun size (hsize : 1 ≤ size) =>
    reachable_alloc_iff neighbours_reachable rfl rfl (by decide) hrun ⟨5, by decide, hslot⟩
      hsize halign hflags 7
  have hlargest : blockNeed 40 ≤ (getStats neighbours 0).largestFreeBlock
      ∧ (getStats neighbours 0).largestFreeBlock < blockNeed 1000 := by
    decide +kernel
  refine ⟨⟨hlargest.1, (hask 40 (by decide)).1.mpr ⟨hlargest.1, by decide⟩⟩, hlargest.2,
    (hask 1000 (by decide)).2.1 fun hok => ?_⟩
  exact absurd ((hask 1000 (by decide)).1.mp hok).1 (not_le.mpr hlargest.2)

end PondMerge
