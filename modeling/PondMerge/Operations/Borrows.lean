import PondMerge.Operations.Runs
import PondMerge.Library.Tally

/-!
What every operation does to the borrow counters: `active_borrows` of the descriptors and
`borrow_count` of the pools.

* `SameCounts`: the pool counters are as they were, and which functions leave them so.
* `Borrows`: every pool's counter is the tally of its live objects, and only they have one.
* `SameBorrows`: a step that leaves `Borrows` alone, and `step_sameBorrows`: every operation
  but `borrow_begin` and `borrow_end` is one.
-/

namespace PondMerge

open ByteMemory Tally Tiling

variable [PmConfig]

/-! ### The pool counters -/

/-- Every pool's `borrow_count` is as it was. -/
def SameCounts (G G' : GlobalState) : Prop :=
  ∀ p, (G'.pools p).borrowCount = (G.pools p).borrowCount

section Counts

variable {G G' G'' : GlobalState} {p q : ℕ}

omit [PmConfig] in
lemma SameCounts.refl (G : GlobalState) : SameCounts G G := fun _ => rfl

omit [PmConfig] in
lemma SameCounts.of_pools (h : G'.pools = G.pools) : SameCounts G G' := fun p => by rw [h]

omit [PmConfig] in
lemma SameCounts.trans (h : SameCounts G G') (h' : SameCounts G' G'') : SameCounts G G'' :=
  fun p => (h' p).trans (h p)

omit [PmConfig] in
/-- Writing an entry with the same counter. -/
lemma SameCounts.set {P : Pool} (h : SameCounts G G')
    (hP : P.borrowCount = (G'.pools p).borrowCount) : SameCounts G (G'.setPool p P) := by
  intro q
  rw [GlobalState.setPool_pools, Function.update_apply]
  split_ifs with hqp
  · rw [hqp, hP, h p]
  · exact h q

omit [PmConfig] in
lemma SameCounts.setPool {P : Pool} (hP : P.borrowCount = (G.pools p).borrowCount) :
    SameCounts G (G.setPool p P) := (SameCounts.refl G).set hP

omit [PmConfig] in
lemma orderUnlink_counts (G : GlobalState) (p idx : ℕ) : SameCounts G (orderUnlink G p idx) := by
  rw [orderUnlink]
  dsimp only
  split_ifs
  · exact .of_pools rfl
  · exact .of_pools rfl
  · exact SameCounts.setPool rfl
  · exact SameCounts.setPool rfl

lemma freeCommit_counts (G : GlobalState) (p idx block stop : ℕ) :
    SameCounts G (freeCommit G p idx block stop) := by
  have hheap : SameCounts G (freeHeap G p idx block stop) := SameCounts.setPool rfl
  have horder := orderUnlink_counts (freeHeap G p idx block stop) p idx
  refine (hheap.trans horder).trans ?_
  rw [freeCommit]
  generalize orderUnlink (freeHeap G p idx block stop) p idx = F
  exact SameCounts.setPool rfl

omit [PmConfig] in
lemma allocStats_counts (G : GlobalState) (p n : ℕ) : SameCounts G (allocStats G p n) := by
  rw [allocStats]
  exact SameCounts.setPool rfl

lemma allocCommit_counts (G : GlobalState) (p slot blk need size flags tag : ℕ) :
    SameCounts G (allocCommit G p slot blk need size flags tag) := by
  have horder : SameCounts G (allocOrder G p slot blk) := by
    rw [allocOrder, orderAppend]
    dsimp only
    split_ifs
    · exact SameCounts.setPool rfl
    · exact SameCounts.setPool rfl
  have hbins : ∀ b, SameCounts (allocOrder G p slot blk) ((allocOrder G p slot blk).setPool p
      { (allocOrder G p slot blk).pools p with bins := b }) := fun b => SameCounts.setPool rfl
  refine horder.trans ?_
  rw [allocCommit]
  exact fun q => (allocStats_counts _ p _ q).trans (hbins _ q)

lemma finalizeLayout_counts (G : GlobalState) (p start stop : ℕ) (slots : List ℕ) :
    SameCounts G (finalizeLayout G p start stop slots) := by
  rw [finalizeLayout]
  exact SameCounts.setPool rfl

omit [PmConfig] in
lemma execMoves_counts (G : GlobalState) (plan : List MovePlanEntry) :
    SameCounts G (execMoves G plan) := by
  refine .of_pools ?_
  rw [execMoves, execMove_step.foldl_rest plan G]

omit [PmConfig] in
lemma compactArm_counts (G : GlobalState) (p : ℕ) : SameCounts G (compactArm G p).2 := by
  rw [compactArm]
  generalize hP : (if (G.pools p).state = .running then { G.pools p with state := .paused }
    else G.pools p) = P
  have hsame : P.borrowCount = (G.pools p).borrowCount := by
    rw [← hP]
    split_ifs <;> rfl
  have hset : SameCounts G (G.setPool p P) := SameCounts.setPool hsame
  dsimp only
  split_ifs
  · exact .refl G
  · exact hset
  · exact hset
  · exact hset.set (by simp)

lemma compactRebuild_counts (G : GlobalState) (p : ℕ) (slots : List ℕ)
    (plan : List MovePlanEntry) (elapsed : ℕ) :
    SameCounts G (compactRebuild G p slots plan elapsed) := by
  have hstats : ∀ F, SameCounts F (compactStats F p plan elapsed) := fun F => by
    rw [compactStats]
    exact SameCounts.setPool rfl
  exact (finalizeLayout_counts G p _ _ slots).trans (hstats _)

lemma compactImpl_counts (G : GlobalState) (p : ℕ) (req : Option CompactionRequest)
    (elapsed : ℕ) : SameCounts G (compactImpl G p req elapsed).2.2 := by
  rw [compactImpl]
  cases compactAudit G p req with
  | error e => exact .refl G
  | ok r =>
      exact (execMoves_counts G r.2.1).trans (compactRebuild_counts _ p r.1 r.2.1 elapsed)

/-- `compact` keeps the pool counters, whatever comes of it. -/
lemma compact_counts (G : GlobalState) (p : ℕ) (req : Option CompactionRequest) (elapsed : ℕ) :
    SameCounts G (compact G p req elapsed).2.2 := by
  rw [compact]
  split_ifs
  · exact .refl G
  cases poolAt G p with
  | none => exact .refl G
  | some P =>
      have harm := compactArm_counts G p
      dsimp only
      generalize compactArm G p = r at *
      obtain ⟨st, G₁⟩ := r
      cases st with
      | ok =>
          have hboth := harm.trans (compactImpl_counts G₁ p req elapsed)
          dsimp only
          rw [compactCommit]
          split_ifs
          · exact hboth.set rfl
          · exact hboth.set rfl
          · exact hboth.set rfl
      | _ => exact harm

omit [PmConfig] in
lemma mergeMove_pools (t : ℕ) (b : Bool) (G : GlobalState) (e : MovePlanEntry) :
    (mergeMove t b G e).pools = G.pools := by
  rw [mergeMove]
  split_ifs <;> rfl

omit [PmConfig] in
lemma mergeMoves_counts (G : GlobalState) (t : ℕ) (below : Bool) (n : ℕ)
    (plan : List MovePlanEntry) : SameCounts G (mergeMoves G t below n plan) := by
  have hfold : ∀ (b : Bool) (l : List MovePlanEntry) (G : GlobalState),
      (l.foldl (mergeMove t b) G).pools = G.pools := by
    intro b l
    induction l with
    | nil => exact fun G => rfl
    | cons e l ih => exact fun G => (ih (mergeMove t b G e)).trans (mergeMove_pools t b G e)
  exact .of_pools ((hfold _ _ _).trans (hfold _ _ _))

lemma mergeArm_counts (G : GlobalState) (s t : ℕ) : SameCounts G (mergeArm G s t).2 := by
  rw [mergeArm]
  split
  · rename_i S T hs ht
    obtain ⟨-, rfl⟩ := poolAt_eq_some.mp hs
    split_ifs
    · exact .refl G
    · exact .refl G
    · exact .refl G
    · exact SameCounts.set (SameCounts.set (.refl G) rfl) rfl
  · exact .refl G

lemma mergeRebuild_counts (G : GlobalState) (s t : ℕ) (slots : List ℕ)
    (plan : List MovePlanEntry) : SameCounts G (mergeRebuild G s t slots plan) := by
  rw [mergeRebuild]
  refine SameCounts.trans ?_ (finalizeLayout_counts _ _ _ _ _)
  intro q
  simp only [GlobalState.setPool_pools, Function.update_apply]
  by_cases hqs : q = s
  · rw [if_pos hqs, hqs]
  · by_cases hqt : q = t
    · rw [if_neg hqs, if_pos hqt, hqt]
    · rw [if_neg hqs, if_neg hqt]

/-- A successful `merge` keeps the pool counters, its source being gone. -/
lemma merge_counts {s t : ℕ} (hok : (merge G s t).1 = .ok) (hp : p ≠ s) :
    ((merge G s t).2.pools p).borrowCount = (G.pools p).borrowCount := by
  rw [merge] at hok ⊢
  split_ifs at hok ⊢
  have harm := mergeArm_counts G s t
  dsimp only at hok ⊢
  generalize mergeArm G s t = r at *
  obtain ⟨st, G₁⟩ := r
  cases st with
  | ok =>
      dsimp only at hok ⊢ harm
      generalize mergeAudit G₁ s t = audit at *
      cases audit with
      | error e =>
          have hstate : ∀ {F : GlobalState} (q : ℕ) (st : PoolState), SameCounts G F →
              SameCounts G (F.setPool q { F.pools q with state := st }) :=
            fun q st hF => hF.set rfl
          exact hstate t _ (hstate s _ harm) p
      | ok r =>
          dsimp only
          have hmoves := mergeMoves_counts G₁ t (sourceBelow (G₁.pools s) (G₁.pools t)) r.1.length
            r.2.2
          have hboth := (harm.trans hmoves).trans (mergeRebuild_counts _ s t (r.1 ++ r.2.1) r.2.2)
          refine Eq.trans ?_ (hboth p)
          rw [mergeCommit]
          simp only [GlobalState.setPool_pools, Function.update_apply, if_neg hp]
          by_cases hpt : p = t
          · rw [if_pos hpt, hpt, if_neg fun hts => hp (hpt.trans hts)]
          · rw [if_neg hpt]
  | _ => exact harm p

lemma splitRebuild_counts (G : GlobalState) (s nid n : ℕ) (slots : List ℕ) :
    SameCounts G (splitRebuild G s nid n slots) := by
  rw [splitRebuild]
  refine SameCounts.trans ?_
    ((finalizeLayout_counts _ _ _ _ _).trans (finalizeLayout_counts _ _ _ _ _))
  intro q
  simp only [GlobalState.setPool_pools, Function.update_apply]
  by_cases hqs : q = s
  · rw [if_pos hqs, hqs]
  · by_cases hqn : q = nid
    · rw [if_neg hqs, if_pos hqn, hqn]
    · rw [if_neg hqs, if_neg hqn]

/-- A successful `split` keeps the pool counters. -/
lemma SplitRun.counts {s nid n : ℕ} {L : List Piece} {plan : SplitPlan}
    (h : SplitRun G G' s nid n L plan) (hne : nid ≠ s) : SameCounts G G' := by
  have harm : SameCounts G (splitArmed G s nid) := fun q => by
    rw [splitArmed_pools hne]
    split_ifs <;> rfl
  have hboth := (harm.trans (execMoves_counts _ plan.moves)).trans
    (splitRebuild_counts _ s nid n (liveSlots L))
  rw [h.commit, splitCommit]
  exact SameCounts.set (hboth.set rfl) rfl

end Counts

/-! ### The counters of a state -/

/-- The tally of pool `p`: the borrows of the objects that carry its id. -/
def borrowTally (G : GlobalState) (p : ℕ) : ℕ :=
  tally (Finset.range pmMaxObjects) (fun i => (G.objects i).poolId)
    (fun i => (G.objects i).activeBorrows) p

/-- The borrow counters agree: only live objects have one, and every pool has their tally. -/
structure Borrows (G : GlobalState) : Prop where
  idle : ∀ i < pmMaxObjects, (G.objects i).state ≠ .live → (G.objects i).activeBorrows = 0
  count : ∀ p < pmMaxPools, (G.pools p).borrowCount = borrowTally G p

/-- The borrows of a descriptor and, where it has some, whose they are. -/
structure SameBorrow (d d' : ObjectDesc) : Prop where
  count : d'.activeBorrows = d.activeBorrows
  held : d.activeBorrows ≠ 0 → d'.state = d.state ∧ d'.poolId = d.poolId

/-- A step without a borrow: no counter changes, and no borrowed object dies or moves to
another pool. -/
structure SameBorrows (G G' : GlobalState) : Prop where
  object : ∀ i < pmMaxObjects, SameBorrow (G.objects i) (G'.objects i)
  pool : ∀ p < pmMaxPools, (G'.pools p).borrowCount = (G.pools p).borrowCount

section Steps

variable {G G' : GlobalState} {Ls : ℕ → List Piece}

omit [PmConfig] in
lemma SameBorrow.refl (d : ObjectDesc) : SameBorrow d d := ⟨rfl, fun _ => ⟨rfl, rfl⟩⟩

omit [PmConfig] in
lemma SameBorrow.of_zero {d d' : ObjectDesc} (h : d.activeBorrows = 0)
    (h' : d'.activeBorrows = 0) : SameBorrow d d' :=
  ⟨h'.trans h.symm, fun hne => absurd h hne⟩

lemma SameBorrows.refl (G : GlobalState) : SameBorrows G G :=
  ⟨fun i _ => .refl (G.objects i), fun _ _ => rfl⟩

lemma SameBorrows.of_objects (hobj : G'.objects = G.objects) (hcount : SameCounts G G') :
    SameBorrows G G' := by
  refine ⟨fun i _ => ?_, fun p _ => hcount p⟩
  rw [hobj]
  exact .refl _

/-- The tallies of a step without a borrow. -/
lemma SameBorrows.tally (h : SameBorrows G G') (p : ℕ) : borrowTally G' p = borrowTally G p :=
  tally_congr (fun i hi => (h.object i (Finset.mem_range.mp hi)).count)
    (fun i hi hne => ((h.object i (Finset.mem_range.mp hi)).held hne).2) p

lemma SameBorrows.borrows (h : SameBorrows G G') (hb : Borrows G) : Borrows G' := by
  refine ⟨fun i hi hst => ?_, fun p hp => ?_⟩
  · rw [(h.object i hi).count]
    by_contra hne
    rw [((h.object i hi).held hne).1] at hst
    exact hne (hb.idle i hi hst)
  · rw [h.pool p hp, h.tally p]
    exact hb.count p hp

/-- The objects of a pool without borrows have none. -/
lemma Borrows.pool_idle (hb : Borrows G) (h : GlobalInv G Ls) {p : ℕ} (hp : Active G p)
    (h0 : (G.pools p).borrowCount = 0) {i : ℕ} (hi : i ∈ liveSlots (Ls p)) :
    (G.objects i).activeBorrows = 0 := by
  have htally : borrowTally G p = 0 := (hb.count p hp.1).symm.trans h0
  obtain ⟨x, n, hx, hd⟩ := (h.pool p hp).desc_of_mem hi
  have hlt := (hx.size_ge (h.pool p hp).layout.pieces).1
  exact tally_eq_zero.mp htally i (Finset.mem_range.mpr hlt) hd.pool

omit [PmConfig] in
/-- A relocation of objects without borrows. -/
lemma Relocated.sameBorrow {l : List ℕ} (h : Relocated G G' l)
    (hidle : ∀ i ∈ l, (G.objects i).activeBorrows = 0) (i : ℕ) :
    SameBorrow (G.objects i) (G'.objects i) := by
  by_cases hi : i ∈ l
  · exact .of_zero (hidle i hi) ((h.kept i hi).activeBorrows.trans (hidle i hi))
  · rw [h.other i hi]
    exact .refl _

/-- An accepted `alloc` takes a slot without borrows. -/
lemma AllocAccepted.sameBorrows (h : GlobalInv G Ls) (hb : Borrows G)
    {p size alignment flags need blk tag : ℕ}
    (ha : AllocAccepted G p size alignment flags need blk) :
    SameBorrows G (allocCommit (popSlot G) p G.freeSlotHead blk need size (allocFlags flags)
      tag) := by
  have hcount : SameCounts G (popSlot G) := .of_pools rfl
  refine ⟨fun i hi => ?_, fun q _ => (hcount.trans (allocCommit_counts _ _ _ _ _ _ _ _)) q⟩
  have hobj := allocCommit_objects (popSlot G) p G.freeSlotHead blk need size (allocFlags flags)
    tag (h.head_ne_slot ha.slot ha.active) i
  by_cases hslot : i = G.freeSlotHead
  · rw [if_pos hslot] at hobj
    have hfree : (G.objects i).state = .free := hslot ▸ (h.slots.head_free ha.slot).2
    rw [hobj]
    exact .of_zero (hb.idle i hi (by rw [hfree]; decide)) rfl
  · rw [if_neg hslot] at hobj
    rw [hobj]
    split_ifs
    · exact ⟨rfl, fun _ => ⟨rfl, rfl⟩⟩
    · exact .refl _

/-- An accepted `free` gives up a slot without borrows. -/
lemma freeCommit_sameBorrows (h : GlobalInv G Ls) {idx : ℕ} (hlt : idx < pmMaxObjects)
    (hlive : (G.objects idx).state = .live) (hidle : (G.objects idx).activeBorrows = 0)
    (block stop : ℕ) :
    SameBorrows G (freeCommit G (G.objects idx).poolId idx block stop) := by
  refine ⟨fun i hi => ?_, fun q _ => freeCommit_counts _ _ _ _ _ q⟩
  obtain ⟨hact, hmem⟩ := h.owner hlt hlive
  obtain ⟨hprev, hnext⟩ := (h.pool _ hact).order.links_ne hmem
  rw [freeCommit_objects G (G.objects idx).poolId idx block stop hprev hnext
    (slot_ne_noOrder hi)]
  by_cases hidx : i = idx
  · rw [if_pos hidx]
    exact .of_zero (hidx ▸ hidle) rfl
  · rw [if_neg hidx]
    exact ⟨rfl, fun _ => ⟨rfl, rfl⟩⟩

/-- `create_pool` opens an entry without borrows over a zero one. -/
lemma createPool_sameBorrows (h : GlobalInv G Ls) (n : ℕ) :
    SameBorrows G (createPool G n).2.2 := by
  cases createPool_cases h n with
  | inl hno =>
      obtain ⟨st, -, -, heq⟩ := hno
      rw [heq]
      exact .refl G
  | inr hyes =>
      obtain ⟨k, base, heq, hk, -⟩ := hyes
      obtain ⟨hlt, hempty, -⟩ := firstEmptyPool_some hk
      rw [heq]
      refine .of_objects rfl fun q => ?_
      show ((G.setPool k _).pools q).borrowCount = _
      rw [GlobalState.setPool_pools, Function.update_apply]
      split_ifs with hq
      · rw [hq, h.empty k hlt hempty]
        rfl
      · rfl

/-- `destroy_pool` closes an entry without borrows only. -/
lemma destroyPool_sameBorrows (G : GlobalState) (p : ℕ) :
    SameBorrows G (destroyPool G p).2 := by
  rw [destroyPool]
  split_ifs
  · exact .refl G
  cases hp : poolAt G p with
  | none => exact .refl G
  | some P =>
      obtain ⟨-, rfl⟩ := poolAt_eq_some.mp hp
      dsimp only
      split_ifs with hbusy
      · exact .refl G
      · exact .refl G
      · refine .of_objects rfl (SameCounts.setPool ?_)
        have h0 : (G.pools p).borrowCount = 0 := by
          by_contra hne
          exact hbusy (Or.inr hne)
        exact h0.symm

/-- `pause` and `resume` change the pool's state only. -/
lemma pause_sameBorrows (G : GlobalState) (p : ℕ) : SameBorrows G (pause G p).2 := by
  rw [pause]
  cases hp : poolAt G p with
  | none => exact .refl G
  | some P =>
      obtain ⟨-, rfl⟩ := poolAt_eq_some.mp hp
      dsimp only
      split_ifs
      · exact .refl G
      · exact .refl G
      · exact .of_objects rfl (SameCounts.setPool rfl)

lemma resume_sameBorrows (G : GlobalState) (p : ℕ) : SameBorrows G (resume G p).2 := by
  rw [resume]
  cases hp : poolAt G p with
  | none => exact .refl G
  | some P =>
      obtain ⟨-, rfl⟩ := poolAt_eq_some.mp hp
      dsimp only
      split_ifs
      · exact .refl G
      · exact .refl G
      · exact .of_objects rfl (SameCounts.setPool rfl)

lemma setDestroyFn_sameBorrows (G : GlobalState) (ref : RawRef) (fn : Option ℕ) :
    SameBorrows G (setDestroyFn G ref fn).2 := by
  rw [setDestroyFn]
  split
  · exact .refl G
  · split_ifs
    · exact .refl G
    · refine ⟨fun i _ => ?_, fun _ _ => rfl⟩
      rw [GlobalState.setObj_objects, Function.update_apply]
      split_ifs with hi
      · rw [hi]
        exact ⟨rfl, fun _ => ⟨rfl, rfl⟩⟩
      · exact .refl _

/-- `compact` moves the objects of a pool without borrows. -/
lemma compact_sameBorrows (h : GlobalInv G Ls) (hb : Borrows G) (p : ℕ)
    (req : Option CompactionRequest) (elapsed : ℕ) :
    SameBorrows G (compact G p req elapsed).2.2 := by
  have hcount := compact_counts G p req elapsed
  by_cases hyes : Active G p ∧ (G.pools p).borrowCount = 0 ∧ requestOk req = true
  · obtain ⟨met, F, L', heq, -, hc⟩ := compact_ok h hyes.1 hyes.2.1 hyes.2.2 elapsed
    rw [heq] at hcount ⊢
    exact ⟨fun i _ => hc.relocated.sameBorrow (fun j hj => hb.pool_idle h hyes.1 hyes.2.1 hj) i,
      fun q _ => hcount q⟩
  · obtain ⟨st, F, heq, -, -, hF⟩ := compact_refused h hyes elapsed
    rw [heq] at hcount ⊢
    refine .of_objects ?_ hcount
    cases hF with
    | inl hsame => rw [hsame]
    | inr hpaused => rw [hpaused.2]; rfl

/-- `merge` moves the objects of two pools without borrows. -/
lemma merge_sameBorrows (h : GlobalInv G Ls) (hb : Borrows G) (s t : ℕ) :
    SameBorrows G (merge G s t).2 := by
  by_cases hyes : MergeReady G s t ∧ NoUndersized (Ls s) ∧ NoUndersized (Ls t)
  · obtain ⟨F, L', heq, -, hm⟩ := merge_ok h hyes.1 hyes.2
    have hcount := fun q hq => merge_counts (G := G) (p := q) (s := s) (t := t) (by rw [heq]) hq
    rw [heq] at hcount ⊢
    refine ⟨fun i _ => hm.relocated.sameBorrow (fun j hj => ?_) i, fun q _ => ?_⟩
    · cases mem_mergeSlots.mp hj with
      | inl hs => exact hb.pool_idle h hyes.1.source hyes.1.sourceIdle hs
      | inr ht => exact hb.pool_idle h hyes.1.target hyes.1.targetIdle ht
    · by_cases hq : q = s
      · rw [hq, hyes.1.sourceIdle]
        exact congrArg Pool.borrowCount hm.source
      · exact hcount q hq
  · obtain ⟨st, heq, -, -⟩ := merge_refused h hyes
    rw [heq]
    exact .refl G

/-- `split` moves the objects of a pool without borrows. -/
lemma split_sameBorrows (h : GlobalInv G Ls) (hb : Borrows G) (s n : ℕ) :
    SameBorrows G (split G s n).2.2 := by
  by_cases hok : ∃ nid F, split G s n = (.ok, some nid, F)
  · obtain ⟨nid, F, heq⟩ := hok
    obtain ⟨k, hr⟩ := split_asked (s := s) (n := n) h (by rw [heq])
    cases split_ok h hr with
    | inl hno =>
        obtain ⟨st, hst, hcode⟩ := hno
        rw [hst] at heq
        cases heq
    | inr hyes =>
        obtain ⟨G', plan, L₁, L₂, hG', -, hrun, hsp⟩ := hyes
        have hcount := hrun.counts hr.ne
        rw [hG']
        exact ⟨fun i _ => hsp.relocated.sameBorrow
          (fun j hj => hb.pool_idle h hr.source hr.idle hj) i, fun q _ => hcount q⟩
  · obtain ⟨st, heq, -, -⟩ := split_refused (s := s) (n := n) h
      fun nid F heq => hok ⟨nid, F, heq⟩
    rw [heq]
    exact .refl G

/-- Every operation but the two borrow calls leaves the borrows alone. -/
theorem step_sameBorrows (h : GlobalInv G Ls) (hb : Borrows G) (op : Op)
    (hbegin : ∀ ref n a, op ≠ .borrowBegin ref n a) (hend : ∀ ref, op ≠ .borrowEnd ref) :
    SameBorrows G (step G op) := by
  cases op with
  | createPool n => exact createPool_sameBorrows h n
  | destroyPool id => exact destroyPool_sameBorrows G id
  | pause id => exact pause_sameBorrows G id
  | resume id => exact resume_sameBorrows G id
  | alloc p size alignment flags tag =>
      rw [step]
      cases alloc_cases G p size alignment flags tag with
      | inl hno =>
          obtain ⟨st, -, heq⟩ := hno
          rw [heq]
          exact .refl G
      | inr hyes =>
          obtain ⟨need, blk, ha, heq⟩ := hyes
          rw [heq]
          exact ha.sameBorrows h hb
  | free ref ws =>
      show SameBorrows G (free (writingCallback ws) G ref).2
      cases free_cases h ref ws with
      | inl hno =>
          obtain ⟨st, -, -, heq⟩ := hno
          rw [heq]
          exact .refl G
      | inr hyes =>
          obtain ⟨hok, hidle, heq⟩ := hyes
          have hobj : (afterCallback G ref.index ws).objects = G.objects := by
            rw [afterCallback_eq]
          have hpools : (afterCallback G ref.index ws).pools = G.pools := by
            rw [afterCallback_eq]
          have hfree := freeCommit_sameBorrows (afterCallback_inv h ref.index ws) hok.index
            (by rw [hobj]; exact hok.live) (by rw [hobj]; exact hidle)
            (G.objects ref.index).block (poolEnd G (G.pools (G.objects ref.index).poolId))
          rw [hobj] at hfree
          rw [heq]
          refine ⟨fun i hi => ?_, fun p hp => ?_⟩
          · have hi' := hfree.object i hi
            rwa [hobj] at hi'
          · have hp' := hfree.pool p hp
            rwa [hpools] at hp'
  | setDestroyFn ref fn => exact setDestroyFn_sameBorrows G ref fn
  | borrowBegin ref n a => exact absurd rfl (hbegin ref n a)
  | borrowEnd ref => exact absurd rfl (hend ref)
  | compact p req elapsed => exact compact_sameBorrows h hb p req elapsed
  | merge s t => exact merge_sameBorrows h hb s t
  | split s n => exact split_sameBorrows h hb s n
  | write w =>
      rw [step, clientWrite_eq]
      exact .of_objects rfl (.of_pools rfl)

end Steps

end PondMerge
