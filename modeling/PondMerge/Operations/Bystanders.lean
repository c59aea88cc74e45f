import PondMerge.Operations.Restate

/-!
What the operations do to an object they are not about, in a healthy state.

* `Stays`: the object keeps its descriptor up to its links, and its pool keeps its window.
* `createPool_stays`, …, `split_stays`: no operation disturbs a live object, unless its reference
  names the object, or it is a maintenance of the pool the object lies in.
-/

namespace PondMerge

open Tiling

variable [PmConfig]

/-- Object `i` keeps all but its links, and its pool its window. -/
structure Stays (G G' : GlobalState) (i : ℕ) : Prop where
  zone : SameZone G G'
  object : SameButLinks (G.objects i) (G'.objects i)
  pool : (G'.pools (G.objects i).poolId).state ≠ .empty
  first : (G'.pools (G.objects i).poolId).segmentFirst =
    (G.pools (G.objects i).poolId).segmentFirst
  count : (G'.pools (G.objects i).poolId).segmentCount =
    (G.pools (G.objects i).poolId).segmentCount

section Facts

variable {G G' G'' : GlobalState} {Ls : ℕ → List Piece} {i : ℕ}

omit [PmConfig] in
lemma SameButLinks.poolId {d d' : ObjectDesc} (h : SameButLinks d d') : d'.poolId = d.poolId := by
  rw [h.eq]

omit [PmConfig] in
lemma SameButLinks.state {d d' : ObjectDesc} (h : SameButLinks d d') : d'.state = d.state := by
  rw [h.eq]

omit [PmConfig] in
lemma SameButLinks.trans {d d' d'' : ObjectDesc} (h : SameButLinks d d')
    (h' : SameButLinks d' d'') : SameButLinks d d'' :=
  ⟨h'.eq.trans (congrArg (fun e : ObjectDesc =>
    { e with addrPrev := d''.addrPrev, addrNext := d''.addrNext }) h.eq)⟩

omit [PmConfig] in
lemma Stays.trans (h : Stays G G' i) (h' : Stays G' G'' i) : Stays G G'' i := by
  have hp := h.object.poolId
  refine ⟨h.zone.trans h'.zone, h.object.trans h'.object, ?_, ?_, ?_⟩
  · rw [← hp]
    exact h'.pool
  · rw [← hp, h'.first, hp, h.first]
  · rw [← hp, h'.count, hp, h.count]

/-- A step that does not touch the object's own pool. -/
lemma GlobalInv.stays (h : GlobalInv G Ls) (hi : i < pmMaxObjects)
    (hl : (G.objects i).state = .live) (hz : SameZone G G')
    (hobj : SameButLinks (G.objects i) (G'.objects i))
    (hpool : G'.pools (G.objects i).poolId = G.pools (G.objects i).poolId) : Stays G G' i :=
  ⟨hz, hobj, by rw [hpool]; exact (h.owner hi hl).1.2, by rw [hpool], by rw [hpool]⟩

lemma GlobalInv.stays_refl (h : GlobalInv G Ls) (hi : i < pmMaxObjects)
    (hl : (G.objects i).state = .live) : Stays G G i :=
  h.stays hi hl (.refl G) (.refl _) rfl

/-- A step that rewrites the entry of one pool, in its window. -/
lemma GlobalInv.stays_update (h : GlobalInv G Ls) (hi : i < pmMaxObjects)
    (hl : (G.objects i).state = .live) (hz : SameZone G G')
    (hobj : SameButLinks (G.objects i) (G'.objects i)) {p : ℕ} {P : Pool}
    (hpools : G'.pools = Function.update G.pools p P) (hst : P.state ≠ .empty)
    (hfirst : P.segmentFirst = (G.pools p).segmentFirst)
    (hcount : P.segmentCount = (G.pools p).segmentCount) : Stays G G' i := by
  by_cases hp : (G.objects i).poolId = p
  · refine ⟨hz, hobj, ?_, ?_, ?_⟩ <;> rw [hpools, hp, Function.update_self]
    · exact hst
    · exact hfirst
    · exact hcount
  · exact h.stays hi hl hz hobj (by rw [hpools, Function.update_of_ne hp])

end Facts

section Steps

variable {G : GlobalState} {Ls : ℕ → List Piece} {i : ℕ} (h : GlobalInv G Ls)
  (hi : i < pmMaxObjects) (hl : (G.objects i).state = .live)

include h hi hl

lemma createPool_stays (n : ℕ) : Stays G (createPool G n).2.2 i := by
  rcases createPool_cases h n with ⟨st, -, -, heq⟩ | ⟨k, base, heq, hent, -⟩
  · rw [heq]
    exact h.stays_refl hi hl
  · rw [heq]
    refine h.stays hi hl ⟨rfl, rfl, rfl, rfl, rfl⟩ (.refl _) (Function.update_of_ne ?_ _ _)
    intro hk
    exact (h.owner hi hl).1.2 (hk ▸ (firstEmptyPool_some hent).2.1)

lemma destroyPool_stays (p : ℕ) : Stays G (destroyPool G p).2 i := by
  rcases destroyPool_cases h p with ⟨st, -, heq⟩ | ⟨heq, -, hinv⟩
  · rw [heq]
    exact h.stays_refl hi hl
  · rw [heq]
    refine h.stays hi hl ⟨rfl, rfl, rfl, rfl, rfl⟩ (.refl _) (Function.update_of_ne ?_ _ _)
    -- the owner of a live object outlives the step
    rintro rfl
    exact (hinv.owner hi hl).1.2 (by simp [Pool.zero])

lemma pause_stays (p : ℕ) : Stays G (pause G p).2 i := by
  rw [pause]
  cases hp : poolAt G p with
  | none => exact h.stays_refl hi hl
  | some P =>
      obtain ⟨-, rfl⟩ := poolAt_eq_some.mp hp
      dsimp only
      split_ifs
      · exact h.stays_refl hi hl
      · exact h.stays_refl hi hl
      · exact h.stays_update hi hl ⟨rfl, rfl, rfl, rfl, rfl⟩ (.refl _) rfl (by simp) rfl rfl

lemma resume_stays (p : ℕ) : Stays G (resume G p).2 i := by
  rw [resume]
  cases hp : poolAt G p with
  | none => exact h.stays_refl hi hl
  | some P =>
      obtain ⟨-, rfl⟩ := poolAt_eq_some.mp hp
      dsimp only
      split_ifs
      · exact h.stays_refl hi hl
      · exact h.stays_refl hi hl
      · exact h.stays_update hi hl ⟨rfl, rfl, rfl, rfl, rfl⟩ (.refl _) rfl (by simp) rfl rfl

lemma clientWrite_stays (w : PayloadWrite) : Stays G (clientWrite G w) i := by
  rw [clientWrite_eq]
  exact h.stays hi hl ⟨rfl, rfl, rfl, rfl, rfl⟩ (.refl _) rfl

lemma alloc_stays (p size alignment flags tag : ℕ) :
    Stays G (alloc G p size alignment flags tag).2.2 i := by
  rcases alloc_cases G p size alignment flags tag with ⟨st, -, heq⟩ | ⟨need, blk, ha, heq⟩
  · rw [heq]
    exact h.stays_refl hi hl
  · rw [heq]
    have hobj := allocCommit_objects (popSlot G) p G.freeSlotHead blk need size
      (allocFlags flags) tag (h.head_ne_slot ha.slot ha.active) i
    have hpools := allocCommit_pools (popSlot G) p G.freeSlotHead blk need size
      (allocFlags flags) tag
    obtain ⟨hz, -⟩ := allocCommit_rest (popSlot G) p G.freeSlotHead blk need size
      (allocFlags flags) tag
    have hne : i ≠ G.freeSlotHead := by
      rintro rfl
      rw [(h.slots.head_free ha.slot).2] at hl
      cases hl
    rw [if_neg hne] at hobj
    generalize allocCommit (popSlot G) p G.freeSlotHead blk need size (allocFlags flags) tag = G'
      at *
    refine h.stays_update hi hl ⟨hz.zone, hz.zoneSize, hz.segmentSize, hz.segmentCount,
      hz.initialized⟩ ?_ hpools ha.active.2 rfl rfl
    rw [hobj]
    split_ifs
    · exact ⟨rfl⟩
    · exact .refl _

lemma setDestroyFn_stays {ref : RawRef} (hne : i ≠ ref.index) (fn : Option ℕ) :
    Stays G (setDestroyFn G ref fn).2 i := by
  rw [setDestroyFn]
  cases checkRef G ref 0 1 false with
  | error e => exact h.stays_refl hi hl
  | ok addr =>
      dsimp only
      split_ifs
      · exact h.stays_refl hi hl
      · refine h.stays hi hl ⟨rfl, rfl, rfl, rfl, rfl⟩ ?_ rfl
        rw [GlobalState.setObj_objects, Function.update_of_ne hne]
        exact .refl _

lemma borrowBegin_stays {ref : RawRef} (hne : i ≠ ref.index) (n a : ℕ) :
    Stays G (borrowBegin G ref n a).2.2 i := by
  rw [borrowBegin]
  cases hck : checkRef G ref n a true with
  | error e => exact h.stays_refl hi hl
  | ok addr =>
      refine h.stays_update hi hl ⟨rfl, rfl, rfl, rfl, rfl⟩ ?_ rfl (checkRef_ok hck).1.owner.2
        rfl rfl
      dsimp only
      rw [borrowCommit]
      simp only [GlobalState.setObj_objects, Function.update_of_ne hne]
      exact .refl _

lemma borrowEnd_stays {ref : RawRef} (hne : i ≠ ref.index) : Stays G (borrowEnd G ref) i := by
  rw [borrowEnd]
  split_ifs with hok
  · rw [borrowEndOk] at hok
    simp only [decide_eq_true_eq] at hok
    obtain ⟨P, hP⟩ := Option.isSome_iff_exists.mp hok.2.2.2.2.2.2.1
    refine h.stays_update hi hl ⟨rfl, rfl, rfl, rfl, rfl⟩ ?_ rfl (poolAt_eq_some.mp hP).1.2
      rfl rfl
    rw [GlobalState.setPool_objects, GlobalState.setObj_objects, Function.update_of_ne hne]
    exact .refl _
  · exact h.stays_refl hi hl

/-- The mutation phase of `free`, of another object. -/
lemma freeCommit_stays {idx : ℕ} (hidx : idx < pmMaxObjects)
    (hlive : (G.objects idx).state = .live) (hne : i ≠ idx) (block stop : ℕ) :
    Stays G (freeCommit G (G.objects idx).poolId idx block stop) i := by
  obtain ⟨hact, hm⟩ := h.owner hidx hlive
  obtain ⟨hprev, hnext⟩ := (h.pool _ hact).order.links_ne hm
  have hobj := freeCommit_objects G (G.objects idx).poolId idx block stop hprev hnext
    (slot_ne_noOrder hi)
  have hpools := freeCommit_pools G (G.objects idx).poolId idx block stop
  obtain ⟨hz, -⟩ := freeCommit_rest G (G.objects idx).poolId idx block stop
  rw [if_neg hne] at hobj
  refine h.stays_update hi hl hz ?_ hpools hact.2 rfl rfl
  rw [hobj]
  exact ⟨rfl⟩

end Steps

/-! ### Maintenance -/

section Maintenance

variable {G : GlobalState} {Ls : ℕ → List Piece} {i : ℕ} (h : GlobalInv G Ls)
  (hi : i < pmMaxObjects) (hl : (G.objects i).state = .live)

omit [PmConfig] in
lemma execMoves_zone (G : GlobalState) (plan : List MovePlanEntry) :
    SameZone G (execMoves G plan) := by
  rw [execMoves]
  exact (execMove_step.foldl_zone plan G).1

lemma compactDone_zone (G : GlobalState) (p : ℕ) (slots : List ℕ) (plan : List MovePlanEntry)
    (elapsed : ℕ) : SameZone G (compactDone G p slots plan elapsed) := by
  have hheap := (compactDone_heap G p slots plan elapsed).1.zone
  rw [compactHeap] at hheap
  have harmed := (compactArmed_shape G p).1
  exact ((harmed.trans (execMoves_zone _ plan)).trans finalizeLayout_rest.1).trans hheap

omit [PmConfig] in
lemma mergeMoves_zone (G : GlobalState) (t : ℕ) (below : Bool) (n : ℕ)
    (plan : List MovePlanEntry) : SameZone G (mergeMoves G t below n plan) := by
  have hstep : ∀ b (G : GlobalState) e, SameZone G (mergeMove t b G e) := by
    intro b G e
    rw [mergeMove]
    split_ifs <;> exact ⟨rfl, rfl, rfl, rfl, rfl⟩
  have hfold : ∀ b (l : List MovePlanEntry) (G : GlobalState),
      SameZone G (l.foldl (mergeMove t b) G) := by
    intro b l
    induction l with
    | nil => exact SameZone.refl
    | cons e l ih => exact fun G => (hstep b G e).trans (ih _)
  exact (hfold below _ G).trans (hfold (!below) _ _)

lemma mergeRebuild_zone (G : GlobalState) (s t : ℕ) (slots : List ℕ) (plan : List MovePlanEntry) :
    SameZone G (mergeRebuild G s t slots plan) := by
  rw [mergeRebuild]
  refine SameZone.trans ?_ finalizeLayout_rest.1
  exact ⟨rfl, rfl, rfl, rfl, rfl⟩

lemma splitRebuild_zone (E : GlobalState) (s nid n : ℕ) (slots : List ℕ) :
    SameZone E (splitRebuild E s nid n slots) := by
  rw [splitRebuild]
  refine SameZone.trans ?_ (SameZone.trans finalizeLayout_rest.1 finalizeLayout_rest.1)
  exact ⟨rfl, rfl, rfl, rfl, rfl⟩

omit [PmConfig] in
lemma splitCommit_zone (F : GlobalState) (s nid : ℕ) : SameZone F (splitCommit F s nid) :=
  ⟨rfl, rfl, rfl, rfl, rfl⟩

lemma SplitRun.zone {G G' : GlobalState} {s nid n : ℕ} {L : List Piece} {plan : SplitPlan}
    (hrun : SplitRun G G' s nid n L plan) : SameZone G G' := by
  have harmed : SameZone G (splitArmed G s nid) := ⟨rfl, rfl, rfl, rfl, rfl⟩
  rw [hrun.commit]
  exact ((harmed.trans (execMoves_zone _ plan.moves)).trans
    (splitRebuild_zone _ s nid n _)).trans (splitCommit_zone _ s nid)

include h in
lemma merge_zone {s t : ℕ} (hr : MergeReady G s t) : SameZone G (merge G s t).2 := by
  have harmed : SameZone G (mergeArmed G s t) := ⟨rfl, rfl, rfl, rfl, rfl⟩
  rw [merge_armed h.zone.init hr.ne ((mergeArm_healthy h hr.ne).1 hr)]
  cases mergeAudit (mergeArmed G s t) s t with
  | error e => exact ⟨rfl, rfl, rfl, rfl, rfl⟩
  | ok r =>
      have hcommit : ∀ F, SameZone F (mergeCommit F s t) := fun _ => ⟨rfl, rfl, rfl, rfl, rfl⟩
      exact ((harmed.trans (mergeMoves_zone _ t _ r.1.length r.2.2)).trans
        (mergeRebuild_zone _ s t (r.1 ++ r.2.1) r.2.2)).trans (hcommit _)

include h hi hl

lemma compact_stays {p : ℕ} (hp : (G.objects i).poolId ≠ p) (req : Option CompactionRequest)
    (elapsed : ℕ) : Stays G (compact G p req elapsed).2.2 i := by
  by_cases hyes : Active G p ∧ (G.pools p).borrowCount = 0 ∧ requestOk req = true
  · obtain ⟨met, G', L', heq, -, hc⟩ := compact_ok h hyes.1 hyes.2.1 hyes.2.2 elapsed
    have hz := compactDone_zone G p (liveSlots (Ls p)) (planOf G p req (liveSlots (Ls p))).1 elapsed
    have hdone := compact_eq h hyes.1 hyes.2.1 hyes.2.2 elapsed
    rw [heq, Prod.mk.injEq, Prod.mk.injEq] at hdone
    rw [← hdone.2.2] at hz
    rw [heq]
    refine h.stays hi hl hz ?_ (hc.pools _ hp)
    rw [hc.relocated.other i fun hm => hp ((h.pool p hyes.1).poolId hm).1]
    exact .refl _
  · obtain ⟨st, G', heq, -, -, rfl | ⟨-, rfl⟩⟩ := compact_refused h hyes elapsed
    · rw [heq]
      exact h.stays_refl hi hl
    · rw [heq]
      exact h.stays hi hl ⟨rfl, rfl, rfl, rfl, rfl⟩ (.refl _) (Function.update_of_ne hp _ _)

lemma merge_stays {s t : ℕ} (hs : (G.objects i).poolId ≠ s) (ht : (G.objects i).poolId ≠ t) :
    Stays G (merge G s t).2 i := by
  by_cases hyes : MergeReady G s t ∧ NoUndersized (Ls s) ∧ NoUndersized (Ls t)
  · obtain ⟨G', L', heq, -, hm⟩ := merge_ok h hyes.1 hyes.2
    have hz := merge_zone h hyes.1
    rw [heq] at hz ⊢
    refine h.stays hi hl hz ?_ (hm.pools _ hs ht)
    rw [hm.relocated.other i fun hmem => ?_]
    · exact .refl _
    · rcases mem_mergeSlots.mp hmem with hms | hmt
      · exact hs ((h.pool s hyes.1.source).poolId hms).1
      · exact ht ((h.pool t hyes.1.target).poolId hmt).1
  · obtain ⟨st, heq, -, -⟩ := merge_refused h hyes
    rw [heq]
    exact h.stays_refl hi hl

lemma split_stays {s : ℕ} (hs : (G.objects i).poolId ≠ s) (n : ℕ) :
    Stays G (split G s n).2.2 i := by
  rcases splitArm_healthy (s := s) (n := n) h with ⟨nid, hr, -⟩ | ⟨-, st, harm, hst⟩
  · rcases split_ok h hr with ⟨st, heq, -⟩ | ⟨G', plan, L₁, L₂, heq, -, hrun, hsp⟩
    · rw [heq]
      exact h.stays_refl hi hl
    · have hn : (G.objects i).poolId ≠ nid := fun heq =>
        (h.owner hi hl).1.2 (heq ▸ (firstEmptyPool_some hr.entry).2.1)
      rw [heq]
      refine h.stays hi hl hrun.zone ?_ (hsp.windows.others _ hs hn)
      rw [hsp.relocated.other i fun hm => hs ((h.pool s hr.source).poolId hm).1]
      exact .refl _
  · have heq : split G s n = (st, none, G) := by
      rw [split, if_neg (by simp [h.zone.init]), harm]
      rcases hst with rfl | rfl | rfl <;> rfl
    rw [heq]
    exact h.stays_refl hi hl

end Maintenance

end PondMerge
