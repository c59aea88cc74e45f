import PondMerge.Guarantees.Reuse

/-!
The budget of a partial compaction.

* `LongestWithin`: the longest prefix of a move list that a budget covers.
* `budget_cuts_plan`: a budgeted plan is that prefix of the full one, exactly where no object
  that stays in place ends it early.
-/

namespace PondMerge

variable [PmConfig] {G : GlobalState} {p b o : ℕ}

/-- A plan of at most `b` block bytes and `o` objects, where `0` is no limit. -/
def Within (b o : ℕ) (plan : List MovePlanEntry) : Prop :=
  (b = 0 ∨ moveBytes plan ≤ b) ∧ (o = 0 ∨ plan.length ≤ o)

/-- `T` is the longest prefix of `M` that the budget covers. -/
structure LongestWithin (b o : ℕ) (M T : List MovePlanEntry) : Prop where
  isPrefix : T <+: M
  within : Within b o T
  longest : ∀ T', T' <+: M → Within b o T' → T'.length ≤ T.length

omit [PmConfig] in
lemma within_iff {plan : List MovePlanEntry} : Within b o plan ↔ WithinFrom b o 0 0 plan := by
  rw [Within, WithinFrom, Nat.zero_add, Nat.zero_add]

omit [PmConfig] in
/-- A budget that covers a plan does not cut it. -/
lemma LongestWithin.eq_full {M T : List MovePlanEntry} (h : LongestWithin b o M T)
    (hM : Within b o M) : T = M :=
  h.isPrefix.eq_of_length (le_antisymm h.isPrefix.length_le (h.longest M List.prefix_rfl hM))

omit [PmConfig] in
/-- The planning loop without a target, from the start of a row. -/
lemma planRow_cut_iff {obj : ℕ → ObjectDesc} {stop start : ℕ} {slots : List ℕ} :
    LongestWithin b o (packMoves obj slots start) (planRow obj stop 0 b o slots start 0 0).1
      ↔ StaysCovered obj b o slots start 0 0 := by
  rw [← @planRow_longest_iff obj stop start]
  constructor
  · intro h T hT hin
    exact h.longest T hT (within_iff.mpr hin)
  · intro h
    refine ⟨planRow_initial 0 0, within_iff.mpr (planRow_within ?_), fun T hT hin => ?_⟩
    · simp [WithinFrom, moveBytes]
    · exact h T hT (within_iff.mp hin)

/-- **The budget's cut.**  A `compact` with a budget of `b` bytes and `o` objects and without a
target executes a prefix `T` of the move list `M` of the full compaction.

It is the longest prefix the budget covers exactly where no object that stays in place is larger
than what is left of `b` in front of it, while the next move is not; and a budget that covers
`M` then leaves the state of the full compaction. -/
theorem budget_cuts_plan (h : Reachable G) {req : CompactionRequest}
    (hsize : req.requestedSize = 0) {elapsed : ℕ}
    (hok : (compact G p (some req) elapsed).1 = .ok) :
    ∃ slots M T, compactAudit G p none = .ok (slots, M, true)
      ∧ compactAudit G p (some req) = .ok (slots, T, true)
      ∧ compact G p (some req) elapsed = (.ok, true, compactDone G p slots T elapsed)
      ∧ (LongestWithin req.maxMoveBytes req.maxMoveObjects M T ↔
        StaysCovered G.objects req.maxMoveBytes req.maxMoveObjects slots
          (poolStart G (G.pools p)) 0 0)
      ∧ (LongestWithin req.maxMoveBytes req.maxMoveObjects M T →
        Within req.maxMoveBytes req.maxMoveObjects M →
        compact G p (some req) elapsed = compact G p none elapsed) := by
  obtain ⟨Ls, hinv⟩ := h.healthy
  obtain ⟨hp, hb, hreq⟩ := compact_asked hinv hok
  have hpool := hinv.pool p hp
  -- without a target only the budget ends the plan early
  have hneed : targetNeed (some req) = 0 := by
    rw [targetNeed]
    exact if_pos hsize
  -- without a request the plan is the whole row
  have hfull : planOf G p none (liveSlots (Ls p)) =
      (packMoves G.objects (liveSlots (Ls p)) (poolStart G (G.pools p)), false) :=
    planRow_full 0 0
  have hmet : metOf G p (some req) (liveSlots (Ls p)) = true := by simp [metOf, hneed]
  have hplan : planOf G p (some req) (liveSlots (Ls p)) =
      planRow G.objects (poolEnd G (G.pools p)) 0 req.maxMoveBytes req.maxMoveObjects
        (liveSlots (Ls p)) (poolStart G (G.pools p)) 0 0 := by
    rw [planOf, hneed]
    rfl
  have heq := compact_eq hinv hp hb hreq elapsed
  have hnone := @compact_eq _ G Ls p hinv hp hb none rfl elapsed
  rw [hmet] at heq
  refine ⟨liveSlots (Ls p), packMoves G.objects (liveSlots (Ls p)) (poolStart G (G.pools p)),
    (planOf G p (some req) (liveSlots (Ls p))).1, ?_, ?_, heq, ?_, fun hlong hin => ?_⟩
  · rw [compactAudit_spec hinv.zone hpool hb rfl, hfull]
    rfl
  · rw [compactAudit_spec hinv.zone hpool hb hreq, hmet]
  · rw [hplan]
    exact planRow_cut_iff
  · rw [heq, hnone, hlong.eq_full hin, hfull]
    rfl

/-- A hole of 32 bytes between a large block and one of 32 bytes. -/
def holeBehind : GlobalState :=
  letI := defaultConfig
  runOps onePool [.alloc 0 1016 8 0 7, .alloc 0 24 8 0 7, .alloc 0 24 8 0 7,
    .free ⟨1, 1, 0, 0⟩ []]

/-- A budget for a single block of 32 bytes. -/
def smallBudget : CompactionRequest := ⟨0, 0, 0, 0, 32, 0⟩

/-- A budget that covers the large block too. -/
def largeBudget : CompactionRequest := ⟨0, 0, 0, 0, 1024, 0⟩

omit [PmConfig] in
set_option maxRecDepth 100000 in
/-- The plans without a budget and under either of them. -/
lemma holeBehind_plans :
    letI := defaultConfig
    compactAudit holeBehind 0 none = .ok ([0, 2], [⟨2, 1032, 32⟩], true)
      ∧ (compactAudit holeBehind 0 (some smallBudget) = .ok ([0, 2], [], true)
        ∧ (compact holeBehind 0 (some smallBudget) 0).1 = .ok
        ∧ ((compact holeBehind 0 (some smallBudget) 0).2.2.pools 0).objectsMoved = 0)
      ∧ compactAudit holeBehind 0 (some largeBudget) = .ok ([0, 2], [⟨2, 1032, 32⟩], true)
      ∧ (compact holeBehind 0 (some largeBudget) 0).1 = .ok := by
  decide +kernel

omit [PmConfig] in
/-- The budget covers the only move there is, and nothing is moved. -/
theorem smallBudget_unspent :
    letI := defaultConfig
    Reachable holeBehind ∧ (compact holeBehind 0 (some smallBudget) 0).1 = .ok
      ∧ compactAudit holeBehind 0 none = .ok ([0, 2], [⟨2, 1032, 32⟩], true)
      ∧ Within smallBudget.maxMoveBytes smallBudget.maxMoveObjects [⟨2, 1032, 32⟩]
      ∧ compactAudit holeBehind 0 (some smallBudget) = .ok ([0, 2], [], true)
      ∧ ((compact holeBehind 0 (some smallBudget) 0).2.2.pools 0).objectsMoved = 0 := by
  let _ := defaultConfig
  obtain ⟨hfull, ⟨hcut, hok, hnone⟩, -⟩ := holeBehind_plans
  exact ⟨onePool_reachable.runOps _, hok, hfull, ⟨Or.inr (by decide), Or.inl rfl⟩, hcut, hnone⟩

omit [PmConfig] in
theorem budget_cuts_plan_largeBudget :
    letI := defaultConfig
    compact holeBehind 0 (some largeBudget) 0 = compact holeBehind 0 none 0 := by
  let _ := defaultConfig
  have hreach : Reachable holeBehind := onePool_reachable.runOps _
  obtain ⟨hfull, -, hcut, hok⟩ := holeBehind_plans
  obtain ⟨slots, M, T, hM, hT, -, -, heq⟩ := budget_cuts_plan hreach rfl hok
  rw [hfull] at hM
  rw [hcut] at hT
  obtain ⟨rfl, rfl⟩ : [0, 2] = slots ∧ [⟨2, 1032, 32⟩] = M := by simpa using Except.ok.inj hM
  obtain rfl : [⟨2, 1032, 32⟩] = T := by simpa using Except.ok.inj hT
  have hin : Within largeBudget.maxMoveBytes largeBudget.maxMoveObjects [⟨2, 1032, 32⟩] :=
    ⟨Or.inr (by decide), Or.inl rfl⟩
  exact heq ⟨List.prefix_rfl, hin, fun T hT _ => hT.length_le⟩ hin

end PondMerge
