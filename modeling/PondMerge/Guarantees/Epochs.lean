import PondMerge.Guarantees.Preservation

/-!
`address_epoch` under the maintenance operations.

* `bumpEpoch_ne`, `bumpEpoch_bumpEpoch_ne`: one bump or two give a fresh epoch, also across the
  wrap at 2^32.
* `EpochTracks`: an object that has been relocated or re-homed has a new epoch.
* `compact_epochs`, `merge_epochs`, `split_epochs`: what each operation does to the epochs.
* `epochs_track`: compact and merge track every object, and split all but the pinned ones above
  its boundary.
-/

namespace PondMerge

open ByteMemory Tiling

/-! ### The counter -/

lemma bumpEpoch_cases (e : ℕ) :
    (e + 1) % 2 ^ 32 = 0 ∧ bumpEpoch e = 1
      ∨ (e + 1) % 2 ^ 32 ≠ 0 ∧ bumpEpoch e = (e + 1) % 2 ^ 32 := by
  rw [bumpEpoch]
  split_ifs with h
  · exact Or.inl ⟨h, rfl⟩
  · exact Or.inr ⟨h, rfl⟩

lemma bumpEpoch_pos (e : ℕ) : bumpEpoch e ≠ 0 := by
  have h := bumpEpoch_cases e
  omega

lemma bumpEpoch_ne (e : ℕ) : bumpEpoch e ≠ e := by
  have h := bumpEpoch_cases e
  omega

lemma bumpEpoch_bumpEpoch_ne (e : ℕ) : bumpEpoch (bumpEpoch e) ≠ e := by
  have h := bumpEpoch_cases e
  have h' := bumpEpoch_cases (bumpEpoch e)
  omega

/-- An object whose address or owner has changed has a fresh epoch. -/
def EpochTracks (d d' : ObjectDesc) : Prop :=
  d'.address ≠ d.address ∨ d'.poolId ≠ d.poolId →
    d'.addressEpoch ≠ 0 ∧ d'.addressEpoch ≠ d.addressEpoch

lemma EpochTracks.refl (d : ObjectDesc) : EpochTracks d d := by
  rintro (h | h)
  · exact absurd rfl h
  · exact absurd rfl h

lemma EpochTracks.of_bump {d d' : ObjectDesc} (h : d'.addressEpoch = bumpEpoch d.addressEpoch) :
    EpochTracks d d' := fun _ => by
  rw [h]
  exact ⟨bumpEpoch_pos _, bumpEpoch_ne _⟩

variable [PmConfig] {G : GlobalState} {Ls : ℕ → List Piece}

/-! ### The operations -/

omit [PmConfig] in
/-- The moves of a full compaction all change an address. -/
lemma packMoves_dst {obj : ℕ → ObjectDesc} {l : List ℕ} {c : ℕ} {x : MovePlanEntry}
    (hx : x ∈ packMoves obj l c) : x.dst ≠ (obj x.slot).block := by
  induction l generalizing c with
  | nil => cases hx
  | cons i l ih =>
      rw [packMoves] at hx
      split_ifs at hx with hp hb
      · exact ih hx
      · exact ih hx
      · cases List.mem_cons.mp hx with
        | inl heq =>
            subst heq
            exact Ne.symm hb
        | inr hx => exact ih hx

/-- `compact` gives a fresh epoch to what it moves and keeps every other descriptor. -/
lemma compact_epochs (h : GlobalInv G Ls) {p : ℕ} {req : Option CompactionRequest} {elapsed : ℕ}
    (hok : (compact G p req elapsed).1 = .ok) (i : ℕ) :
    (compact G p req elapsed).2.2.objects i = G.objects i
      ∨ ((compact G p req elapsed).2.2.objects i).address ≠ (G.objects i).address
        ∧ ((compact G p req elapsed).2.2.objects i).addressEpoch =
          bumpEpoch (G.objects i).addressEpoch := by
  obtain ⟨hp, hb, hreq⟩ := compact_asked h hok
  have haud := (h.pool p hp).audited h.zone
  obtain ⟨-, hpack, -⟩ := compactPlan_slots h.zone haud req
  rw [compact_eq h hp hb hreq elapsed]
  dsimp only
  by_cases hi : i ∈ (planOf G p req (liveSlots (Ls p))).1.map (·.slot)
  · obtain ⟨x, hx, rfl⟩ := List.mem_map.mp hi
    have hnd := (hpack.sublist).nodup haud.nodup
    have haddr := haud.address x.slot (hpack.sublist.subset hi)
    have hdst := packMoves_dst ((planRow_initial 0 0).subset hx)
    rw [compactDone_objects, execMoves, execMove_step.foldl_self hnd hx]
    refine Or.inr ⟨?_, rfl⟩
    show x.dst + 8 ≠ (G.objects x.slot).address
    omega
  · exact Or.inl (compactDone_other hi elapsed)

/-- `merge` gives a fresh epoch to what it moves and to what it takes over. -/
lemma merge_epochs (h : GlobalInv G Ls) {s t : ℕ} (hok : (merge G s t).1 = .ok) (i : ℕ) :
    EpochTracks (G.objects i) ((merge G s t).2.objects i) := by
  obtain ⟨hr, hmin⟩ := merge_asked h hok
  obtain ⟨G', L', heq, -, hmerged, hrun⟩ := merge_run h hr hmin
  rw [heq]
  dsimp only
  by_cases hi : i ∈ mergeSlots G Ls s t
  · obtain ⟨-, -, hslots, -⟩ := (hr.pair h).plan
    rw [← mergeSlots, (mergeArmed_window hr.ne).1] at hslots
    rw [← hslots] at hi
    obtain ⟨x, hx, rfl⟩ := List.mem_map.mp hi
    have hlinks := (hrun.desc x hx).eq
    generalize G'.objects x.slot = d' at *
    generalize G.objects x.slot = d at *
    -- a move bumps once, a new owner once more
    rw [hlinks]
    show EpochTracks d (mergeDesc t (decide (d.poolId = s)) x d)
    rw [mergeDesc]
    by_cases hmove : x.dst ≠ d.block
    · rw [if_pos hmove]
      by_cases hsrc : d.poolId = s
      · rw [decide_eq_true hsrc, if_pos rfl]
        exact fun _ => ⟨bumpEpoch_pos _, bumpEpoch_bumpEpoch_ne _⟩
      · rw [decide_eq_false hsrc, if_neg Bool.false_ne_true]
        exact .of_bump rfl
    · rw [if_neg hmove]
      by_cases hsrc : d.poolId = s
      · rw [decide_eq_true hsrc, if_pos rfl]
        exact .of_bump rfl
      · rw [decide_eq_false hsrc, if_neg Bool.false_ne_true]
        exact .refl d
  · rw [hmerged.relocated.other i hi]
    exact .refl _

/-- `split` gives a fresh epoch to every movable object of the source, and none to a pinned one,
whose owner changes exactly if it lies above the boundary. -/
lemma split_epochs (h : GlobalInv G Ls) {s n : ℕ} (hok : (split G s n).1 = .ok) {i : ℕ}
    (hi : i < pmMaxObjects) (hlive : (G.objects i).state = .live) :
    EpochTracks (G.objects i) ((split G s n).2.2.objects i) ↔
      ((G.objects i).poolId = s → (G.objects i).pinned = true →
        (G.objects i).block + (G.objects i).blockSize ≤ splitBoundary G s n) := by
  obtain ⟨nid, hr⟩ := split_asked h hok
  rcases split_run h hr with ⟨st, heq, hst⟩ | ⟨G', plan, L₁, L₂, heq, -, -, hsplit, hpacked⟩
  · rw [heq] at hok
    rcases hst with rfl | rfl <;> cases hok
  rw [heq]
  dsimp only
  obtain ⟨hact, hmem⟩ := h.owner hi hlive
  by_cases hs : (G.objects i).poolId = s
  · rw [hs] at hmem
    have hepoch := hpacked.epoch i hmem
    have hpool := hsplit.poolId i hmem
    cases hpin : (G.objects i).pinned with
    | false =>
        rw [hpin, if_neg Bool.false_ne_true] at hepoch
        exact iff_of_true (.of_bump hepoch) fun _ hf => by cases hf
    | true =>
        rw [hpin, if_pos rfl] at hepoch
        have hmem' := hmem
        rw [hsplit.slots, List.mem_append] at hmem'
        by_cases hup : i ∈ liveSlots L₂
        · -- the new owner has come without a new epoch
          rw [if_pos hup] at hpool
          refine iff_of_false (fun htrack => ?_) fun hle => ?_
          · refine (htrack (Or.inr ?_)).2 hepoch
            rw [hpool, hs]
            exact hr.ne
          · have := hsplit.up i hup
            have := hle hs rfl
            omega
        · rw [if_neg hup] at hpool
          refine iff_of_true ?_ fun _ _ => hsplit.low i (hmem'.resolve_right hup)
          rintro (haddr | hown)
          · exact absurd (hsplit.relocated.pinned i hmem hpin) haddr
          · exact absurd (hpool.trans hs.symm) hown
  · -- another pool is not touched
    have hother : i ∉ liveSlots (Ls s) := fun hm => hs ((h.pool s hr.source).poolId hm).1
    rw [hsplit.relocated.other i hother]
    exact iff_of_true (.refl _) fun hp => absurd hp hs

/-! ### Every reachable state -/

/-- Every live object has an epoch that tracks what has happened between two states. -/
def AllTracked (G G' : GlobalState) : Prop :=
  ∀ i < pmMaxObjects, (G.objects i).state = .live → EpochTracks (G.objects i) (G'.objects i)

/-- In every reachable state, successful compacts and merges track every live object, and a
compact keeps the epoch of what it does not move; a successful split tracks every live object
exactly if no pinned one of its source lies above the boundary. -/
theorem epochs_track (h : Reachable G) :
    (∀ p req elapsed, (compact G p req elapsed).1 = .ok →
      AllTracked G (compact G p req elapsed).2.2
        ∧ ∀ i < pmMaxObjects, (G.objects i).state = .live →
          ((compact G p req elapsed).2.2.objects i).address = (G.objects i).address →
          ((compact G p req elapsed).2.2.objects i).addressEpoch = (G.objects i).addressEpoch)
    ∧ (∀ s t, (merge G s t).1 = .ok → AllTracked G (merge G s t).2)
    ∧ ∀ s n, (split G s n).1 = .ok →
      (AllTracked G (split G s n).2.2 ↔
        ∀ i < pmMaxObjects, (G.objects i).state = .live → (G.objects i).poolId = s →
          (G.objects i).pinned = true →
          (G.objects i).block + (G.objects i).blockSize ≤ splitBoundary G s n) := by
  obtain ⟨Ls, hinv⟩ := h.healthy
  refine ⟨fun p req elapsed hok => ⟨fun i _ _ => ?_, fun i _ _ haddr => ?_⟩,
    fun s t hok i _ _ => merge_epochs hinv hok i, fun s n hok => ?_⟩
  · cases compact_epochs hinv hok i with
    | inl hsame =>
        rw [hsame]
        exact .refl _
    | inr hmoved => exact .of_bump hmoved.2
  · cases compact_epochs hinv hok i with
    | inl hsame => rw [hsame]
    | inr hmoved => exact absurd haddr hmoved.1
  · exact forall_congr' fun i => forall_congr' fun hi => forall_congr' fun hl =>
      split_epochs hinv hok hi hl

/-- A pool of two segments that starts with a pinned object; the other one crosses into the upper
segment. -/
def pinnedBelow : GlobalState :=
  letI := defaultConfig
  runOps (init .zero smallZone).2 [.createPool 2, .alloc 0 24 8 pmPinned 1, .alloc 0 1000 8 0 2]

omit [PmConfig] in
set_option maxRecDepth 100000 in
/-- A split of this pool goes through, and no pinned object lies above its boundary. -/
lemma pinnedBelow_split :
    letI := defaultConfig
    (split pinnedBelow 0 1).1 = .ok ∧ ∀ i < pmMaxObjects, (pinnedBelow.objects i).state = .live →
      (pinnedBelow.objects i).poolId = 0 → (pinnedBelow.objects i).pinned = true →
      (pinnedBelow.objects i).block + (pinnedBelow.objects i).blockSize ≤
        splitBoundary pinnedBelow 0 1 := by
  decide +kernel

omit [PmConfig] in
theorem epochs_track_neighbours :
    letI := defaultConfig
    AllTracked neighbours (compact neighbours 0 none 5).2.2
      ∧ AllTracked neighbours (merge neighbours 0 1).2
      ∧ AllTracked pinnedBelow (split pinnedBelow 0 1).2.2 := by
  let _ := defaultConfig
  obtain ⟨hc, hm⟩ := neighbours_compact_merge
  obtain ⟨hcompact, hmerge, -⟩ := epochs_track neighbours_reachable
  obtain ⟨-, -, hsplit⟩ := epochs_track (G := pinnedBelow) (smallZone_runOps _)
  exact ⟨(hcompact 0 none 5 hc).1, hmerge 0 1 hm,
    (hsplit 0 1 pinnedBelow_split.1).mpr pinnedBelow_split.2⟩

/-- A pool of two segments whose upper one starts with a pinned object. -/
def pinnedAbove : GlobalState :=
  letI := defaultConfig
  runOps (init .zero smallZone).2 [.createPool 2, .alloc 0 1016 8 0 1, .alloc 0 24 8 pmPinned 2]

omit [PmConfig] in
set_option maxRecDepth 100000 in
/-- The split hands the pinned object to the new pool under its old epoch. -/
theorem pinnedAbove_stale :
    letI := defaultConfig
    Reachable pinnedAbove ∧ (split pinnedAbove 0 1).1 = .ok
      ∧ (pinnedAbove.objects 1).state = .live ∧ (pinnedAbove.objects 1).poolId = 0
      ∧ ((split pinnedAbove 0 1).2.2.objects 1).poolId = 1
      ∧ ((split pinnedAbove 0 1).2.2.objects 1).addressEpoch =
        (pinnedAbove.objects 1).addressEpoch
      ∧ ¬ AllTracked pinnedAbove (split pinnedAbove 0 1).2.2 := by
  obtain ⟨hok, hlive, hbefore, hafter, hepoch⟩ : letI := defaultConfig
      (split pinnedAbove 0 1).1 = .ok ∧ (pinnedAbove.objects 1).state = .live
        ∧ (pinnedAbove.objects 1).poolId = 0
        ∧ ((split pinnedAbove 0 1).2.2.objects 1).poolId = 1
        ∧ ((split pinnedAbove 0 1).2.2.objects 1).addressEpoch =
          (pinnedAbove.objects 1).addressEpoch := by
    decide +kernel
  refine ⟨smallZone_runOps _, hok, hlive, hbefore, hafter, hepoch, fun htrack => ?_⟩
  refine (htrack 1 (by decide) hlive (Or.inr ?_)).2 hepoch
  rw [hafter, hbefore]
  exact one_ne_zero

end PondMerge
