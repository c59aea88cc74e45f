import PondMerge.Operations.Compact
import PondMerge.Operations.Merge
import PondMerge.Operations.Split
import PondMerge.Operations.Runs
import PondMerge.Guarantees.Representation

/-!
Failure atomicity: an operation that reports a failure has changed nothing, whatever the
state it found.

* `mergeArm_cases`, `splitArm_cases`: what an arming block leaves over an arbitrary state;
* `compact_refusal`, `merge_refusal`, `split_refusal`, `free_refusal`: the state behind a
  failed operation;
* `failure_atomicity`: all of them together.
-/

namespace PondMerge

variable [PmConfig] {G : GlobalState}

/-- Empty pool entries hold zero bytes. -/
def EmptyZeroed (G : GlobalState) : Prop :=
  ∀ p < pmMaxPools, (G.pools p).state = .empty → G.pools p = Pool.zero

/-- The one refusal that leaves a trace: `compact` pauses a Running pool before it looks at
the borrows. -/
def PausedByBorrows (G : GlobalState) (p : ℕ) : Prop :=
  G.initialized = true ∧ Active G p ∧ (G.pools p).state = .running ∧ (G.pools p).borrowCount ≠ 0

/-! ### Arming -/

/-- The arming block of `merge` over an arbitrary state. -/
lemma mergeArm_cases {s t : ℕ} (hst : s ≠ t) :
    (∃ e, e ≠ .ok ∧ mergeArm G s t = (e, G)) ∨ mergeArm G s t = (.ok, mergeArmed G s t) := by
  rw [mergeArm]
  cases hs : poolAt G s with
  | none => exact Or.inl ⟨.invalidPool, by decide, rfl⟩
  | some S =>
      cases ht : poolAt G t with
      | none => exact Or.inl ⟨.invalidPool, by decide, rfl⟩
      | some T =>
          obtain ⟨-, rfl⟩ := poolAt_eq_some.mp hs
          obtain ⟨-, rfl⟩ := poolAt_eq_some.mp ht
          dsimp only
          split_ifs
          · exact Or.inl ⟨.busy, by decide, rfl⟩
          · exact Or.inl ⟨.busy, by decide, rfl⟩
          · exact Or.inl ⟨.noSpace, by decide, rfl⟩
          · refine Or.inr ?_
            simp [mergeArmed, Ne.symm hst]

/-- The arming block of `split` over an arbitrary state: the entry it claims was Empty. -/
lemma splitArm_cases (s n : ℕ) :
    (∃ e, e ≠ .ok ∧ splitArm G s n = (e, none, G))
      ∨ ∃ nid, nid ≠ s ∧ nid < pmMaxPools ∧ (G.pools nid).state = .empty
        ∧ splitArm G s n = (.ok, some nid, splitArmed G s nid) := by
  rw [splitArm, ← firstEmptyPool]
  cases hs : poolAt G s with
  | none => exact Or.inl ⟨.invalidPool, by decide, rfl⟩
  | some S =>
      obtain ⟨hact, rfl⟩ := poolAt_eq_some.mp hs
      dsimp only
      split_ifs
      · exact Or.inl ⟨.busy, by decide, rfl⟩
      · exact Or.inl ⟨.busy, by decide, rfl⟩
      · exact Or.inl ⟨.noSpace, by decide, rfl⟩
      · cases hent : firstEmptyPool G with
        | none => exact Or.inl ⟨.noSpace, by decide, rfl⟩
        | some nid =>
            obtain ⟨hlt, hempty, -⟩ := firstEmptyPool_some hent
            have hne : nid ≠ s := by
              rintro rfl
              exact hact.2 hempty
            refine Or.inr ⟨nid, hne, hlt, hempty, ?_⟩
            simp [splitArmed, hne]

/-! ### Refusals -/

/-- A failed `compact` restores the entry state, except that active borrows leave a Running
pool Paused. -/
theorem compact_refusal (p : ℕ) (req : Option CompactionRequest) (elapsed : ℕ)
    (hno : (compact G p req elapsed).1 ≠ .ok) :
    (¬ PausedByBorrows G p → (compact G p req elapsed).2 = (false, G))
      ∧ (PausedByBorrows G p → (compact G p req elapsed) =
        (.busy, false, G.setPool p { G.pools p with state := .paused })) := by
  revert hno
  rw [compact]
  by_cases hinit : G.initialized = true
  swap
  · rw [if_pos (by simpa using hinit)]
    exact fun _ => ⟨fun _ => rfl, fun hp => absurd hp.1 hinit⟩
  rw [if_neg (by simp [hinit])]
  cases hpool : poolAt G p with
  | none => exact fun _ => ⟨fun _ => rfl, fun hp => absurd hp.2.1 (poolAt_eq_none.mp hpool)⟩
  | some P =>
      obtain ⟨hact, rfl⟩ := poolAt_eq_some.mp hpool
      dsimp only
      rcases compactArm_cases G p with ⟨hnot, harm⟩ | ⟨hrun, hb, harm⟩ | ⟨hst, hb, harm⟩
      · rw [harm]
        exact fun _ => ⟨fun _ => rfl, fun hp => absurd hp.2.2 hnot⟩
      · rw [harm]
        exact fun _ => ⟨fun hp => absurd ⟨hinit, hact, hrun, hb⟩ hp, fun _ => rfl⟩
      · rw [harm]
        dsimp only
        rw [compactImpl]
        cases haudit : compactAudit (G.setPool p { G.pools p with state := .compacting }) p req with
        | ok r => exact fun hno => absurd rfl hno
        | error e =>
            dsimp only
            intro hno
            refine ⟨fun _ => ?_, fun hp => absurd hb hp.2.2.2⟩
            rw [compactCommit, if_neg hno, decide_eq_false hno, Bool.false_and]
            have hstate : (if decide ((G.pools p).state = .paused) = true then PoolState.paused
                else .running) = (G.pools p).state := by
              rcases hst with hst | hst <;> rw [hst] <;> rfl
            rw [hstate, GlobalState.setPool_pools, Function.update_self, setPool_setPool]
            rw [Pool.with_state rfl, setPool_self]

/-- A failed `merge` restores both entry states. -/
theorem merge_refusal (s t : ℕ) (hno : (merge G s t).1 ≠ .ok) : (merge G s t).2 = G := by
  revert hno
  rw [merge]
  by_cases hinit : G.initialized = true
  swap
  · rw [if_pos (by simpa using hinit)]
    exact fun _ => rfl
  rw [if_neg (by simp [hinit])]
  by_cases hst : s = t
  · rw [if_pos hst]
    exact fun _ => rfl
  rw [if_neg hst]
  dsimp only
  rcases mergeArm_cases hst with ⟨e, he, harm⟩ | harm
  · rw [harm]
    intro _
    cases e <;> first | exact absurd rfl he | rfl
  · rw [harm]
    dsimp only
    cases mergeAudit (mergeArmed G s t) s t with
    | ok r => exact fun hno => absurd rfl hno
    | error e => exact fun _ => mergeRestore_armed hst

/-- A failed `split` restores the entry state and gives the claimed entry back. -/
theorem split_refusal (hz : EmptyZeroed G) (s n : ℕ) (hno : (split G s n).1 ≠ .ok) :
    (split G s n).2 = (none, G) := by
  revert hno
  rw [split]
  by_cases hinit : G.initialized = true
  swap
  · rw [if_pos (by simpa using hinit)]
    exact fun _ => rfl
  rw [if_neg (by simp [hinit])]
  rcases splitArm_cases s n with ⟨e, he, harm⟩ | ⟨nid, hne, hlt, hempty, harm⟩
  · rw [harm]
    intro _
    cases e <;> first | exact absurd rfl he | rfl
  · rw [harm]
    dsimp only
    cases splitAudit (splitArmed G s nid) s n with
    | ok r => exact fun hno => absurd rfl hno
    | error e =>
        intro _
        dsimp only
        rw [splitRestore_armed hne (hz nid hlt hempty)]

/-- A failed `create_pool` has changed nothing. -/
theorem createPool_refusal (n : ℕ) (hno : (createPool G n).1 ≠ .ok) :
    (createPool G n).2 = (none, G) := by
  revert hno
  rw [createPool]
  split_ifs with h1 h2 h3 h4
  · exact fun _ => rfl
  · exact fun _ => rfl
  · exact fun _ => rfl
  · exact fun _ => rfl
  · cases findRun G n G.segmentCount 0 0 with
    | none => exact fun _ => rfl
    | some base =>
        cases firstEmptyPool G with
        | none => exact fun _ => rfl
        | some i => exact fun hno => absurd rfl hno

/-- A failed `free` of an object without a destroy callback has changed nothing. -/
theorem free_refusal (run : Callback) (ref : RawRef)
    (hfn : (G.objects ref.index).destroyFn = none) (hno : (free run G ref).1 ≠ .ok) :
    (free run G ref).2 = G := by
  revert hno
  rw [free]
  split_ifs with h1 h2
  · exact fun _ => rfl
  · exact fun _ => rfl
  · cases checkRef G ref 0 1 true with
    | error e => exact fun _ => rfl
    | ok addr =>
        dsimp only
        rw [hfn]
        split_ifs
        · exact fun _ => rfl
        · exact fun _ => rfl
        · exact fun hno => absurd rfl hno

/-- **Failure atomicity.**  Over any contents of the pool table, the descriptors and the
zone, an operation that does not report `Ok` leaves the state as it was and clears its
output; only a `compact` refused for active borrows leaves a Running pool Paused. -/
theorem failure_atomicity (hz : EmptyZeroed G) :
    (∀ p size alignment flags tag, (alloc G p size alignment flags tag).1 ≠ .ok →
      (alloc G p size alignment flags tag).2 = (.null, G))
    ∧ (∀ n, (createPool G n).1 ≠ .ok → (createPool G n).2 = (none, G))
    ∧ (∀ p req elapsed, (compact G p req elapsed).1 ≠ .ok →
      (¬ PausedByBorrows G p → (compact G p req elapsed).2 = (false, G))
        ∧ (PausedByBorrows G p → compact G p req elapsed =
          (.busy, false, G.setPool p { G.pools p with state := .paused })))
    ∧ (∀ s t, (merge G s t).1 ≠ .ok → (merge G s t).2 = G)
    ∧ (∀ s n, (split G s n).1 ≠ .ok → (split G s n).2 = (none, G))
    ∧ (∀ run ref, (G.objects ref.index).destroyFn = none → (free run G ref).1 ≠ .ok →
      (free run G ref).2 = G)
    ∧ (∀ ref n a, (borrowBegin G ref n a).1 ≠ .ok → (borrowBegin G ref n a).2 = (0, G))
    ∧ ∀ ref n a, (resolve G ref n a).1 ≠ .ok → (resolve G ref n a).2 = 0 := by
  refine ⟨fun p size alignment flags tag hno => ?_, createPool_refusal, compact_refusal,
    merge_refusal, split_refusal hz, free_refusal, fun ref n a hno => ?_, fun ref n a hno => ?_⟩
  · rcases alloc_cases G p size alignment flags tag with ⟨st, -, heq⟩ | ⟨need, blk, -, heq⟩
    · rw [heq]
    · rw [heq] at hno
      exact absurd rfl hno
  · revert hno
    rw [borrowBegin]
    cases checkRef G ref n a true with
    | error e => exact fun _ => rfl
    | ok addr => exact fun hno => absurd rfl hno
  · revert hno
    rw [resolve]
    cases checkRef G ref n a true with
    | error e => exact fun _ => rfl
    | ok addr => exact fun hno => absurd rfl hno

/-- The Empty entries of a reachable state are zeroed. -/
lemma Reachable.emptyZeroed (h : Reachable G) : EmptyZeroed G := by
  obtain ⟨Ls, hinv⟩ := h.healthy
  exact hinv.empty

/-- A pinned block across the boundary between its two segments. -/
def pinnedAcross : List Op :=
  [.createPool 2, .alloc 0 1008 8 0 1, .alloc 0 24 8 pmPinned 2]

omit [PmConfig] in
set_option maxRecDepth 100000 in
/-- A split of this pool has armed both entries when its plan is refused. -/
theorem failure_atomicity_split :
    letI := defaultConfig
    let G := runOps (init .zero smallZone).2 pinnedAcross
    (splitArm G 0 1).1 = .ok ∧ (split G 0 1).1 = .pinnedConflict ∧ (split G 0 1).2 = (none, G) := by
  let _ := defaultConfig
  have hno : (splitArm (runOps (init .zero smallZone).2 pinnedAcross) 0 1).1 = .ok
      ∧ (split (runOps (init .zero smallZone).2 pinnedAcross) 0 1).1 = .pinnedConflict := by
    decide +kernel
  have hreach := smallZone_runOps pinnedAcross
  exact ⟨hno.1, hno.2, (failure_atomicity hreach.emptyZeroed).2.2.2.2.1 0 1
    (by rw [hno.2]; decide)⟩

end PondMerge
