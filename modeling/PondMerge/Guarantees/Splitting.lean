import Mathlib.Algebra.BigOperators.Group.Finset.Basic
import Mathlib.Data.Finset.Max
import PondMerge.Operations.SplitFits
import PondMerge.Guarantees.NormalForm

/-!
When `split` succeeds.

* `splitLimit`: the first pinned block above the boundary, or the end of the pool.
* `splitPushed`: the movable objects that end above the boundary and lie in front of that block.
* `reachable_split_iff`: `split` succeeds exactly if no pinned block straddles the boundary and the
  blocks of these objects fit between the boundary and the limit.
-/

namespace PondMerge

open Tiling

variable [PmConfig]

/-! ### The upper side of a pool -/

/-- The live objects of pool `s`. -/
def poolObjects (G : GlobalState) (s : ℕ) : Finset ℕ :=
  (Finset.range pmMaxObjects).filter fun i =>
    (G.objects i).state = .live ∧ (G.objects i).poolId = s

/-- The starts of the pinned blocks of `s` above the boundary of a split. -/
def barriersAbove (G : GlobalState) (s n : ℕ) : Finset ℕ :=
  ((poolObjects G s).filter fun i => (G.objects i).pinned = true
    ∧ splitBoundary G s n ≤ (G.objects i).block).image fun i => (G.objects i).block

/-- The first pinned block above the boundary, or the end of the pool. -/
def splitLimit (G : GlobalState) (s n : ℕ) : ℕ :=
  (insert (poolEnd G (G.pools s)) (barriersAbove G s n)).min' (Finset.insert_nonempty _ _)

/-- The movable objects that end above the boundary and lie in front of the limit. -/
def splitPushed (G : GlobalState) (s n : ℕ) : Finset ℕ :=
  (poolObjects G s).filter fun i => (G.objects i).pinned = false
    ∧ splitBoundary G s n < (G.objects i).block + (G.objects i).blockSize
    ∧ (G.objects i).block < splitLimit G s n

/-! ### Rows of blocks -/

section Rows

variable {G : GlobalState} {stop e : ℕ} {l : List ℕ}

/-- A row has no pinned block, or a first one. -/
inductive FirstPinned (G : GlobalState) (stop : ℕ) (l : List ℕ) : Prop where
  | none (movable : ∀ i ∈ l, (G.objects i).pinned = false) (all : pushed G.objects l = l)
      (bar : (barriersOf G l).headD stop = stop)
  | first (j : ℕ) (post : List ℕ) (split : l = pushed G.objects l ++ j :: post)
      (movable : ∀ i ∈ pushed G.objects l, (G.objects i).pinned = false)
      (pinned : (G.objects j).pinned = true)
      (bar : (barriersOf G l).headD stop = (G.objects j).block)

omit [PmConfig] in
lemma firstPinned (G : GlobalState) (stop : ℕ) (l : List ℕ) : FirstPinned G stop l := by
  induction l with
  | nil => exact .none (by simp) rfl rfl
  | cons i l ih =>
      cases hp : (G.objects i).pinned with
      | true =>
          have hnil : pushed G.objects (i :: l) = [] := List.takeWhile_cons_of_neg (by simp [hp])
          refine .first i l ?_ ?_ hp ?_
          · rw [hnil]
            rfl
          · rw [hnil]
            exact fun j hj => nomatch hj
          · rw [barriersOf_pinned hp]
            rfl
      | false =>
          have hcons : pushed G.objects (i :: l) = i :: pushed G.objects l :=
            List.takeWhile_cons_of_pos (by simp [hp])
          cases ih with
          | none movable all bar =>
              refine .none ?_ ?_ ?_
              · exact List.forall_mem_cons.mpr ⟨hp, movable⟩
              · rw [hcons, all]
              · rw [barriersOf_movable hp, bar]
          | first j post split movable pinned bar =>
              refine .first j post ?_ ?_ pinned ?_
              · rw [hcons, List.cons_append, ← split]
              · rw [hcons]
                exact List.forall_mem_cons.mpr ⟨hp, movable⟩
              · rw [barriersOf_movable hp, bar]

end Rows

section Pool

variable {G : GlobalState} {Ls : ℕ → List Piece} {s n : ℕ}

/-- The live objects of a pool are the slots of its layout. -/
lemma GlobalInv.mem_poolObjects (h : GlobalInv G Ls) (hs : Active G s) {i : ℕ} :
    i ∈ poolObjects G s ↔ i ∈ liveSlots (Ls s) := by
  rw [poolObjects, Finset.mem_filter, Finset.mem_range]
  constructor
  · rintro ⟨hlt, hlive, rfl⟩
    exact (h.owner hlt hlive).2
  · intro hi
    obtain ⟨x, m, hx, hd⟩ := (h.pool s hs).desc_of_mem hi
    exact ⟨(hx.size_ge (h.pool s hs).layout.pieces).1, hd.state, hd.pool⟩

/-- The slots of the upper side, in address order. -/
def upperSlots (G : GlobalState) (s n : ℕ) (l : List ℕ) : List ℕ :=
  l.filter (Upper G (splitBoundary G s n))

/-- No pinned block straddles the boundary. -/
def NoStraddle (G : GlobalState) (s n : ℕ) : Prop :=
  ∀ i ∈ poolObjects G s, (G.objects i).pinned = true →
    ¬ ((G.objects i).block < splitBoundary G s n
      ∧ splitBoundary G s n < (G.objects i).block + (G.objects i).blockSize)

lemma GlobalInv.mem_upperSlots (h : GlobalInv G Ls) (hs : Active G s) {i : ℕ} :
    i ∈ upperSlots G s n (liveSlots (Ls s)) ↔ i ∈ poolObjects G s
      ∧ splitBoundary G s n < (G.objects i).block + (G.objects i).blockSize := by
  rw [upperSlots, List.mem_filter, decide_eq_true_eq, ← h.mem_poolObjects hs]
  refine and_congr_right fun hi => ?_
  have hmin := PmConfig.minBlock_ge
  have hblk := ((h.pool s hs).blockOk h.zone ((h.mem_poolObjects hs).mp hi)).2.1
  rw [Upper]
  omega

lemma GlobalInv.noStraddle_iff (h : GlobalInv G Ls) (hs : Active G s) :
    NoStraddle G s n ↔ ∀ i ∈ upperSlots G s n (liveSlots (Ls s)),
      (G.objects i).pinned = true → splitBoundary G s n ≤ (G.objects i).block := by
  constructor
  · intro hno i hi hp
    obtain ⟨hmem, hend⟩ := (h.mem_upperSlots hs).mp hi
    by_contra hlt
    exact hno i hmem hp ⟨by omega, hend⟩
  · rintro hall i hi hp ⟨hlt, hend⟩
    have hle := hall i ((h.mem_upperSlots hs).mpr ⟨hi, hend⟩) hp
    omega

omit [PmConfig] in
/-- A block of the upper side in front of its first pinned one, and one behind. -/
lemma first_le {G : GlobalState} {stop e : ℕ} {l pre post : List ℕ} {j : ℕ}
    (hfit : Fits G.objects stop e l) {ups : List ℕ} (hsub : ups.Sublist l)
    (hsplit : ups = pre ++ j :: post) :
    (∀ i ∈ pre, (G.objects i).block + (G.objects i).blockSize ≤ (G.objects j).block)
      ∧ ∀ i ∈ post, (G.objects j).block + (G.objects j).blockSize ≤ (G.objects i).block := by
  have hpair := hfit.pairwise.sublist hsub
  rw [hsplit, List.pairwise_append] at hpair
  obtain ⟨-, hpost, hpre⟩ := hpair
  exact ⟨fun i hi => hpre i hi j List.mem_cons_self, (List.pairwise_cons.mp hpost).1⟩

/-- Without a straddling block, the barriers above the boundary are the pinned blocks of the upper
side. -/
lemma GlobalInv.mem_barriersAbove (h : GlobalInv G Ls) (hs : Active G s)
    (hno : NoStraddle G s n) {x : ℕ} :
    x ∈ barriersAbove G s n ↔ ∃ i ∈ upperSlots G s n (liveSlots (Ls s)),
      (G.objects i).pinned = true ∧ (G.objects i).block = x := by
  rw [barriersAbove, Finset.mem_image]
  constructor
  · rintro ⟨i, hi, rfl⟩
    obtain ⟨hi, hp, hle⟩ := Finset.mem_filter.mp hi
    have hmin := PmConfig.minBlock_ge
    have hblk := ((h.pool s hs).blockOk h.zone ((h.mem_poolObjects hs).mp hi)).2.1
    exact ⟨i, (h.mem_upperSlots hs).mpr ⟨hi, by omega⟩, hp, rfl⟩
  · rintro ⟨i, hi, hp, rfl⟩
    exact ⟨i, Finset.mem_filter.mpr ⟨((h.mem_upperSlots hs).mp hi).1, hp,
      (h.noStraddle_iff hs).mp hno i hi hp⟩, rfl⟩

/-- The limit is the first barrier of the upper side, and the pushed objects are those in front
of it. -/
lemma GlobalInv.splitLimit_eq (h : GlobalInv G Ls) (hs : Active G s) (hno : NoStraddle G s n) :
    splitLimit G s n =
        (barriersOf G (upperSlots G s n (liveSlots (Ls s)))).headD (poolEnd G (G.pools s))
      ∧ ∀ i, i ∈ splitPushed G s n ↔
        i ∈ pushed G.objects (upperSlots G s n (liveSlots (Ls s))) := by
  have hfit := (h.pool s hs).fits
  have hmin := PmConfig.minBlock_ge
  have hin : ∀ {i}, i ∈ upperSlots G s n (liveSlots (Ls s)) → i ∈ liveSlots (Ls s) := fun hi =>
    List.mem_of_mem_filter hi
  have hbar := fun {x} => h.mem_barriersAbove hs hno (x := x)
  have hpushed : ∀ {i}, i ∈ splitPushed G s n ↔ i ∈ upperSlots G s n (liveSlots (Ls s))
      ∧ (G.objects i).pinned = false ∧ (G.objects i).block < splitLimit G s n := by
    intro i
    rw [splitPushed, Finset.mem_filter, h.mem_upperSlots hs]
    tauto
  -- a lower bound that is one of the barriers is their minimum
  have hwhole : ∀ {x}, (x ∈ insert (poolEnd G (G.pools s)) (barriersAbove G s n)
      ∧ ∀ y ∈ insert (poolEnd G (G.pools s)) (barriersAbove G s n), x ≤ y) →
      splitLimit G s n = x := fun hx => (Finset.min'_eq_iff _ _ _).mpr hx
  cases firstPinned G (poolEnd G (G.pools s)) (upperSlots G s n (liveSlots (Ls s))) with
  | none movable all bar =>
      have hlimit : splitLimit G s n = poolEnd G (G.pools s) := by
        refine hwhole ⟨Finset.mem_insert_self _ _, fun x hx => ?_⟩
        cases Finset.mem_insert.mp hx with
        | inl heq => exact heq.ge
        | inr hx =>
            obtain ⟨i, hi, hp, -⟩ := hbar.mp hx
            rw [movable i hi] at hp
            cases hp
      refine ⟨hlimit.trans bar.symm, fun i => ?_⟩
      rw [hpushed, all, hlimit]
      refine ⟨fun hi => hi.1, fun hi => ⟨hi, movable i hi, ?_⟩⟩
      have hb := (hfit.bounds (hin hi)).2
      have hblk := ((h.pool s hs).blockOk h.zone (hin hi)).2.1
      omega
  | first j post split movable pinned bar =>
      -- by the order of addresses, what comes before `j` is movable and below it
      obtain ⟨hpre, hpost⟩ := first_le hfit List.filter_sublist split
      have hj : j ∈ upperSlots G s n (liveSlots (Ls s)) := by
        rw [split]
        exact List.mem_append_right _ List.mem_cons_self
      have hmem : ∀ {i}, i ∈ upperSlots G s n (liveSlots (Ls s)) →
          i ∈ pushed G.objects (upperSlots G s n (liveSlots (Ls s))) ∨ i = j ∨ i ∈ post := by
        intro i hi
        rw [split] at hi
        exact (List.mem_append.mp hi).imp_right List.mem_cons.mp
      have hlimit : splitLimit G s n = (G.objects j).block := by
        refine hwhole ⟨Finset.mem_insert_of_mem (hbar.mpr ⟨j, hj, pinned, rfl⟩), fun x hx => ?_⟩
        cases Finset.mem_insert.mp hx with
        | inl heq =>
            have hb := (hfit.bounds (hin hj)).2
            omega
        | inr hx =>
            obtain ⟨i, hi, hp, rfl⟩ := hbar.mp hx
            rcases hmem hi with hi | rfl | hi
            · rw [movable i hi] at hp
              cases hp
            · exact le_rfl
            · have hafter := hpost i hi
              omega
      refine ⟨hlimit.trans bar.symm, fun i => ?_⟩
      rw [hpushed, hlimit]
      constructor
      · rintro ⟨hi, hp, hlt⟩
        rcases hmem hi with hi | rfl | hi
        · exact hi
        · rw [pinned] at hp
          cases hp
        · have hafter := hpost i hi
          omega
      · intro hi
        have hi' : i ∈ upperSlots G s n (liveSlots (Ls s)) := by
          rw [split]
          exact List.mem_append_left _ hi
        have hblk := ((h.pool s hs).blockOk h.zone (hin hi')).2.1
        have hbefore := hpre i hi
        exact ⟨hi', movable i hi, by omega⟩

/-- The bytes of the pushed objects. -/
lemma GlobalInv.splitPushed_sum (h : GlobalInv G Ls) (hs : Active G s) (hno : NoStraddle G s n) :
    ∑ i ∈ splitPushed G s n, (G.objects i).blockSize =
      pushedBytes G.objects (upperSlots G s n (liveSlots (Ls s))) := by
  have hnd : (pushed G.objects (upperSlots G s n (liveSlots (Ls s)))).Nodup :=
    ((List.takeWhile_sublist _).trans List.filter_sublist).nodup (h.pool s hs).layout.nodup
  have heq : splitPushed G s n =
      (pushed G.objects (upperSlots G s n (liveSlots (Ls s)))).toFinset := by
    ext i
    rw [(h.splitLimit_eq hs hno).2, List.mem_toFinset]
  rw [heq, List.sum_toFinset _ hnd, pushedBytes]

/-- `split` succeeds where its planning loop does, and refuses the geometry otherwise. -/
lemma split_ok_plans {nid : ℕ} (h : GlobalInv G Ls) (hr : SplitReady G s n nid) :
    ((split G s n).1 = .ok ↔ Plans (splitArmed G s nid) (splitBoundary G s n)
        (poolEnd G (G.pools s)) (liveSlots (Ls s)) (poolStart G (G.pools s))
        (splitBoundary G s n))
      ∧ ((split G s n).1 ≠ .ok →
        (split G s n).1 = .pinnedConflict ∨ (split G s n).1 = .noSpace) := by
  have hz : SameZone G (splitArmed G s nid) := ⟨rfl, rfl, rfl, rfl, rfl⟩
  have hshape := splitArmed_shape (G := G) hr.ne s
  rw [split_eq h hr, splitAudit_eq h hr, (splitArmed_geometry hr.ne).1, hz.poolEnd hshape,
    hz.poolStart hshape.segmentFirst, Plans]
  cases hplan : splitPlan (splitArmed G s nid) (splitBoundary G s n) (poolEnd G (G.pools s))
      (liveSlots (Ls s)) (poolStart G (G.pools s)) (splitBoundary G s n)
      (barriersOf (splitArmed G s nid) (liveSlots (Ls s))) with
  | error e =>
      have hcode := splitPlan_error hplan
      refine ⟨iff_of_false (fun hok => ?_) ?_, fun _ => hcode⟩
      · have hok : e = .ok := hok
        rw [hok] at hcode
        cases hcode with
        | inl hno => cases hno
        | inr hno => cases hno
      · rintro ⟨plan, hno⟩
        cases hno
  | ok plan => exact ⟨iff_of_true rfl ⟨plan, rfl⟩, fun hno => absurd rfl hno⟩

/-- The geometry `split` asks for. -/
lemma GlobalInv.split_ok_iff {nid : ℕ} (h : GlobalInv G Ls) (hr : SplitReady G s n nid) :
    ((split G s n).1 = .ok ↔ NoStraddle G s n
        ∧ splitBoundary G s n + ∑ i ∈ splitPushed G s n, (G.objects i).blockSize ≤
          splitLimit G s n)
      ∧ ((split G s n).1 ≠ .ok →
        (split G s n).1 = .pinnedConflict ∨ (split G s n).1 = .noSpace) := by
  have hact := hr.source
  obtain ⟨hok, hcode⟩ := split_ok_plans h hr
  refine ⟨hok.trans ?_, hcode⟩
  have hbounds := splitBoundary_bounds h.zone hr.lt
  -- the plan reads descriptors only, and these the arming block has left alone
  have hplans := plans_iff (G := splitArmed G s nid) (h.pool s hact).fits le_rfl hbounds.2.1
  rw [hplans]
  show (∀ i ∈ upperSlots G s n (liveSlots (Ls s)), (G.objects i).pinned = true →
      splitBoundary G s n ≤ (G.objects i).block)
    ∧ splitBoundary G s n + pushedBytes G.objects (upperSlots G s n (liveSlots (Ls s))) ≤
      (barriersOf G (upperSlots G s n (liveSlots (Ls s)))).headD (poolEnd G (G.pools s)) ↔ _
  rw [← h.noStraddle_iff hact]
  refine and_congr_right fun hno => ?_
  rw [h.splitPushed_sum hact hno, (h.splitLimit_eq hact hno).1]

end Pool

/-! ### Every reachable state -/

/-- **Split succeeds exactly when it can.**  In a reachable state, for a Running or Paused source
without borrows, a free pool entry and `0 < n < segment_count`, `split` succeeds exactly if no
pinned block of the source straddles the boundary and the blocks of the movable objects that end
above the boundary and lie in front of the first pinned block above it fit between the boundary
and that block, or the end of the pool; otherwise it refuses with `PinnedConflict` or `NoSpace`.
The objects that end at or below the boundary have no say. -/
theorem reachable_split_iff {G : GlobalState} (h : Reachable G) {s n : ℕ} (hs : s < pmMaxPools)
    (hstate : (G.pools s).state = .running ∨ (G.pools s).state = .paused)
    (hidle : (G.pools s).borrowCount = 0)
    (hentry : ∃ i < pmMaxPools, (G.pools i).state = .empty) (hpos : 0 < n)
    (hlt : n < (G.pools s).segmentCount) :
    ((split G s n).1 = .ok ↔ NoStraddle G s n
        ∧ splitBoundary G s n + ∑ i ∈ splitPushed G s n, (G.objects i).blockSize ≤
          splitLimit G s n)
      ∧ ((split G s n).1 ≠ .ok →
        (split G s n).1 = .pinnedConflict ∨ (split G s n).1 = .noSpace) := by
  obtain ⟨Ls, hinv⟩ := h.healthy
  have hact : Active G s := by
    refine ⟨hs, ?_⟩
    cases hstate with
    | inl hrun => rw [hrun]; decide
    | inr hpaused => rw [hpaused]; decide
  obtain ⟨nid, hnid⟩ : ∃ nid, firstEmptyPool G = some nid := by
    cases hfirst : firstEmptyPool G with
    | none =>
        obtain ⟨i, hi, hempty⟩ := hentry
        exact absurd hempty (firstEmptyPool_none.mp hfirst i hi).2
    | some nid => exact ⟨nid, rfl⟩
  exact hinv.split_ok_iff ⟨hact, hidle, hpos, hlt, hnid⟩

omit [PmConfig] in
set_option maxRecDepth 100000 in
/-- The merged pool is Running and idle, and a split in the middle goes through. -/
lemma mergedNeighbours_split :
    letI := defaultConfig
    (mergedNeighbours.pools 1).state = .running ∧ (mergedNeighbours.pools 1).borrowCount = 0
      ∧ (mergedNeighbours.pools 0).state = .empty ∧ (mergedNeighbours.pools 1).segmentCount = 2
      ∧ (split mergedNeighbours 1 1).1 = .ok := by
  decide +kernel

omit [PmConfig] in
/-- No pinned block straddles its boundary, and there is room above. -/
theorem reachable_split_iff_merged :
    letI := defaultConfig
    (split mergedNeighbours 1 1).1 = .ok ∧ NoStraddle mergedNeighbours 1 1
      ∧ splitBoundary mergedNeighbours 1 1
          + ∑ i ∈ splitPushed mergedNeighbours 1 1, (mergedNeighbours.objects i).blockSize ≤
        splitLimit mergedNeighbours 1 1 := by
  let _ := defaultConfig
  obtain ⟨hrun, hidle, hempty, hcount, hok⟩ := mergedNeighbours_split
  exact ⟨hok, (reachable_split_iff mergedNeighbours_reachable (by decide) (Or.inl hrun) hidle
    ⟨0, by decide, hempty⟩ Nat.one_pos (by rw [hcount]; decide)).1.mp hok⟩

end PondMerge
