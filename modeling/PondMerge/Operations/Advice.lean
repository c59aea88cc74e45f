import PondMerge.Operations.Admission
import PondMerge.Operations.Compact
import PondMerge.Model.Advice

/-!
`analyze_compaction` on a healthy state.

* `simulatePacking_eq`: its packing simulation counts the moves of a full compaction.
* `auditedAdvice`: the advice of a pool that passes the audits, field by field.
* `analyze_audited`: every existing pool passes them.
-/

namespace PondMerge

open ByteMemory Tiling

variable [PmConfig]

/-! ### The move estimate -/

omit [PmConfig] in
/-- The packing simulation counts the moves of a full compaction and their bytes. -/
lemma simulatePacking_eq (G : GlobalState) (l : List ℕ) (c : ℕ) :
    simulatePacking G l c =
      ((packMoves G.objects l c).length, moveBytes (packMoves G.objects l c)) := by
  induction l generalizing c with
  | nil => rfl
  | cons i l ih =>
      rw [simulatePacking, packMoves]
      split_ifs with hp hne hb
      · exact ih _
      · exact absurd hb.symm hne
      · rw [ih, List.length_cons, moveBytes_cons]
        exact Prod.ext rfl (Nat.add_comm _ _)
      · exact ih _
      · exact absurd (Ne.symm (by assumption)) hne

omit [PmConfig] in
/-- The moved blocks lie in the window. -/
lemma moveBytes_le {obj : ℕ → ObjectDesc} {stop e c : ℕ} {l : List ℕ} (h : Fits obj stop e l) :
    moveBytes (packMoves obj l c) + e ≤ stop := by
  induction l generalizing e c with
  | nil =>
      have hle : e ≤ stop := h
      simpa [packMoves, moveBytes] using hle
  | cons i l ih =>
      obtain ⟨hle, h'⟩ := h
      rw [packMoves]
      split_ifs
      · have := ih h' (c := (obj i).block + (obj i).blockSize)
        omega
      · have := ih h' (c := c + (obj i).blockSize)
        omega
      · have := ih h' (c := c + (obj i).blockSize)
        rw [moveBytes_cons]
        dsimp only
        omega

/-! ### The advice -/

/-- A valid request has the size and the alignment of an `alloc`. -/
lemma adviceNeed_some {req : CompactionRequest} {need : ℕ}
    (h : adviceNeed (some req) = some need) :
    0 < req.requestedSize
      ∧ alignmentOk (if req.requestedAlignment = 0 then 8 else req.requestedAlignment) = true
      ∧ allocNeed req.requestedSize = some need := by
  rw [adviceNeed] at h
  generalize (if req.requestedAlignment = 0 then 8 else req.requestedAlignment) = align at *
  split_ifs at h with hsize halign
  exact ⟨Nat.pos_of_ne_zero hsize, by simpa using halign, h⟩

/-- The advice of a pool that passes the audits of `analyze_compaction`; `slots` are its
address-ordered live slots. -/
def auditedAdvice (G : GlobalState) (A : AdviceState) (p : ℕ)
    (expected : Option CompactionRequest) (need : ℕ) (slots : List ℕ) : CompactionAdvice :=
  let P := G.pools p
  let moves := packMoves G.objects slots (poolStart G P)
  let a := { blankAdvice expected with
    poolState := P.state
    capacity := poolCapacity G P
    usedBytes := P.usedBytes
    freeBytes := P.freeBytes
    liveObjects := P.liveObjects
    borrowCount := P.borrowCount
    fragmentBytes := P.fragmentBytes
    fragmentRatioPermille :=
      if poolCapacity G P ≠ 0 then u32 (P.fragmentBytes * 1000 / poolCapacity G P) else 0
    hasPinnedObjects := slots.any fun i => (G.objects i).pinned
    largestFreeBlock := (getStats G p).largestFreeBlock
    statsValid := true
    requestCanFitNow := expected.isSome && decide (need ≤ (getStats G p).largestFreeBlock)
    requestCanFitAfterCompactionEstimate :=
      expected.isSome && decide (need ≤ P.freeBytes - P.fragmentBytes)
    estimatedMovedObjects := moves.length
    estimatedMovedBytes := moveBytes moves }
  let v := adviceVerdict A P a expected.isSome
  { a with verdict := v.1, callerMustEstablishQuiescence := v.2 }

section Audited

variable {G : GlobalState} {Ls : ℕ → List Piece} {p : ℕ}

omit [PmConfig] in
lemma free_le_freeOf {n : ℕ} {L : List Piece} (h : .free n ∈ L) : n ≤ freeOf L := by
  obtain ⟨x, hx⟩ := exists_mem_place 0 h
  obtain ⟨l₁, l₂, hl⟩ := List.append_of_mem (mem_freeSpots.mpr hx)
  rw [freeOf, hl, List.map_append, List.map_cons, List.sum_append, List.sum_cons]
  omega

/-- `get_stats` walks a healthy pool's bins and finds their largest block. -/
lemma PoolInv.getStats_spec {L : List Piece} (hz : ZoneOk G) (hp : Active G p)
    (h : PoolInv G p L) :
    (getStats G p).valid = true ∧ (∀ n, .free n ∈ L → n ≤ (getStats G p).largestFreeBlock)
      ∧ ((getStats G p).largestFreeBlock = 0 ∨ .free (getStats G p).largestFreeBlock ∈ L)
      ∧ (getStats G p).largestFreeBlock ≤ freeOf L := by
  obtain ⟨hvalid, hmax, hlargest⟩ := h.freeStats_spec hz
  have hstats : (getStats G p).valid = (freeStats G (G.pools p)).valid
      ∧ (getStats G p).largestFreeBlock = (freeStats G (G.pools p)).largestFreeBlock := by
    rw [getStats, poolAt_eq_some.mpr ⟨hp, rfl⟩]
    exact ⟨rfl, rfl⟩
  rw [hstats.1, hstats.2]
  refine ⟨hvalid, hmax, hlargest, ?_⟩
  cases hlargest with
  | inl h0 => exact h0 ▸ Nat.zero_le _
  | inr hm => exact free_le_freeOf hm

/-- `analyze_compaction` of an existing pool passes its own audits. -/
theorem GlobalInv.analyze_audited (h : GlobalInv G Ls) (hp : Active G p) (A : AdviceState)
    {expected : Option CompactionRequest} {need : ℕ} (hneed : adviceNeed expected = some need) :
    analyzeCompaction G A p expected =
      (auditedAdvice G A p expected need (liveSlots (Ls p)),
        A.store p (auditedAdvice G A p expected need (liveSlots (Ls p)))
          (G.pools p).structureEpoch) := by
  have hpool := h.pool p hp
  obtain ⟨hvalid, -, -, hlargest⟩ := hpool.getStats_spec h.zone hp
  have hcap := hpool.capacity h.zone
  have htotal := total_eq (Ls p)
  have hused := hpool.used
  have hfree := hpool.free
  have hlost := hpool.lost
  have hlive := hpool.live
  have hbytes := moveBytes_le (c := poolStart G (G.pools p)) hpool.fits
  have hwin := hpool.window_lt h.zone
  have hend := hpool.end_eq
  have hsmall : moveBytes (packMoves G.objects (liveSlots (Ls p)) (poolStart G (G.pools p)))
      ≤ 0xFFFFFFFE := by omega
  suffices hpoolAdvice : advicePool G A p (G.pools p) expected need =
      auditedAdvice G A p expected need (liveSlots (Ls p)) by
    rw [analyzeCompaction, if_neg (by simp [h.zone.init]), hneed, poolAt_eq_some.mpr ⟨hp, rfl⟩]
    dsimp only
    rw [hpoolAdvice]
  rw [advicePool, hpool.collect h.zone hpool.layout.length_le]
  dsimp only
  rw [simulatePacking_eq, if_neg (by simp [hvalid]), if_neg, hvalid, if_pos hsmall]
  · cases expected with
    | none => simp [auditedAdvice, blankAdvice, adviceVerdict]
    | some r => simp [auditedAdvice, blankAdvice, adviceVerdict]
  · rw [countersOk]
    simp only [Bool.not_eq_true', decide_eq_false_iff_not, not_not]
    refine ⟨?_, ?_, ?_, ?_, ?_, hlive.symm⟩ <;> omega

end Audited

end PondMerge
