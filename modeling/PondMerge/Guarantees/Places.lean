import PondMerge.Guarantees.Handles

/-!
Where objects are: what an operation makes of the place of a live object.

* `step_place`: it stays, or nobody has borrowed it and it is freed from a Running pool or its pool
  is maintained.
* `step_samePlace`: a borrowed object stays.
* `BorrowRun.pinned`: over any run a pinned object keeps its address.
-/

namespace PondMerge

open Transition Tiling Relocation

variable [PmConfig]

/-- The same object at the same address and in the same pool. -/
structure SamePlace (d d' : ObjectDesc) : Prop where
  state : d'.state = d.state
  address : d'.address = d.address
  poolId : d'.poolId = d.poolId
  generation : d'.generation = d.generation
  size : d'.size = d.size

/-- The operation is a maintenance of pool `p`. -/
def Op.Maintains (p : ℕ) : Op → Prop
  | .compact q _ _ => q = p
  | .merge s t => s = p ∨ t = p
  | .split s _ => s = p
  | _ => False

/-- What a call with outcome `e` makes of the object in slot `i`: only the maintenance of its pool
moves it, and only a Running pool lets go of it. -/
inductive PlaceStep (G G' : GlobalState) (e : Event) (i : ℕ) : Prop where
  | stays (place : SamePlace (G.objects i) (G'.objects i))
  | freed (idle : (G.objects i).activeBorrows = 0) (gone : e.freed = some i)
      (running : (G.pools (G.objects i).poolId).state = .running)
  | relocated (idle : (G.objects i).activeBorrows = 0) (l : List ℕ) (mem : i ∈ l)
      (moved : Relocated G G' l) (maintained : e.1.Maintains (G.objects i).poolId)

section Places

variable {G G' : GlobalState} {Ls : ℕ → List Piece} {e : Event} {i : ℕ}

omit [PmConfig] in
lemma SamePlace.of_eq {d d' : ObjectDesc} (h : d' = d) : SamePlace d d' := by
  rw [h]
  exact ⟨rfl, rfl, rfl, rfl, rfl⟩

omit [PmConfig] in
lemma SamePlace.trans {d d' d'' : ObjectDesc} (h : SamePlace d d') (h' : SamePlace d' d'') :
    SamePlace d d'' :=
  ⟨h'.state.trans h.state, h'.address.trans h.address, h'.poolId.trans h.poolId,
    h'.generation.trans h.generation, h'.size.trans h.size⟩

lemma Untouched.samePlace (h : Untouched G G' i) (hi : LiveObject G i) :
    SamePlace (G.objects i) (G'.objects i) :=
  ⟨h.live.trans hi.2.symm, h.address, h.poolId, h.generation, h.size⟩

omit [PmConfig] in
lemma setObj_samePlace {j : ℕ} {d : ObjectDesc} (h : SamePlace (G.objects j) d) :
    SamePlace (G.objects i) ((G.setObj j d).objects i) := by
  rw [GlobalState.setObj_objects, Function.update_apply]
  split_ifs with hi
  · rw [hi]
    exact h
  · exact .of_eq rfl

/-- A release leaves every other object where it is. -/
lemma freed_samePlace (h : GlobalInv G Ls) {j : ℕ} (hj : LiveObject G j) (hlive : LiveObject G i)
    (hne : i ≠ j) (ws : List PayloadWrite) :
    SamePlace (G.objects i) ((freeCommit (afterCallback G j ws) (G.objects j).poolId j
      (G.objects j).block (poolEnd G (G.pools (G.objects j).poolId))).objects i) := by
  obtain ⟨hobj, hcommit⟩ := afterCallback_commit G j ws
  have hlive' : LiveObject (afterCallback G j ws) i := ⟨hlive.1, by rw [hobj]; exact hlive.2⟩
  have hun := freeCommit_isolated (afterCallback_inv h j ws)
    (show LiveObject (afterCallback G j ws) j from ⟨hj.1, by rw [hobj]; exact hj.2⟩) hlive' hne
  rw [← hcommit] at hun
  have hplace := hun.samePlace hlive'
  rwa [hobj] at hplace

omit [PmConfig] in
lemma PlaceStep.of_eq (h : G'.objects i = G.objects i) : PlaceStep G G' e i := .stays (.of_eq h)

omit [PmConfig] in
/-- A relocation of idle objects. -/
lemma PlaceStep.of_relocated {l : List ℕ} (h : Relocated G G' l)
    (hl : ∀ j ∈ l, (G.objects j).activeBorrows = 0 ∧ e.1.Maintains (G.objects j).poolId) :
    PlaceStep G G' e i := by
  by_cases hi : i ∈ l
  · exact .relocated (hl i hi).1 l hi h (hl i hi).2
  · exact .of_eq (h.other i hi)

/-- What one operation makes of the place of a live object. -/
theorem step_place (h : GlobalInv G Ls) (hb : Borrows G) (hlive : LiveObject G i) (op : Op) :
    PlaceStep G (step G op) (op, reply G op) i := by
  cases op with
  | createPool n =>
      rw [step]
      rcases createPool_cases h n with ⟨st, -, -, heq⟩ | ⟨k, base, heq, -⟩ <;> rw [heq]
      · exact .of_eq rfl
      · exact .of_eq rfl
  | destroyPool id =>
      rw [step]
      rcases destroyPool_cases h id with ⟨st, -, heq⟩ | ⟨heq, -, -⟩ <;> rw [heq]
      · exact .of_eq rfl
      · exact .of_eq rfl
  | pause id => exact .of_eq (by rw [step, (pause_objects G id).1])
  | resume id => exact .of_eq (by rw [step, (resume_objects G id).1])
  | alloc p size alignment flags tag =>
      rw [step]
      rcases alloc_cases G p size alignment flags tag with ⟨st, -, heq⟩ | ⟨need, blk, ha, heq⟩
      · rw [heq]
        exact .of_eq rfl
      · rw [heq]
        exact .stays (((allocCommit_isolated h tag ha).2 i hlive).2.samePlace hlive)
  | free ref ws =>
      rw [step, reply]
      rcases free_cases h ref ws with ⟨st, -, -, heq⟩ | ⟨hok, hidle, heq⟩
      · rw [heq]
        exact .of_eq rfl
      · rw [heq]
        -- an accepted `free` lets go of its own object only
        by_cases hne : i = ref.index
        · exact .freed (hne ▸ hidle) (congrArg some hne.symm) (hne ▸ hok.running rfl)
        · exact .stays (freed_samePlace h ⟨hok.index, hok.live⟩ hlive hne ws)
  | setDestroyFn ref fn =>
      refine .stays ?_
      rw [step, setDestroyFn]
      cases checkRef G ref 0 1 false with
      | error e => exact .of_eq rfl
      | ok addr =>
          dsimp only
          split_ifs
          · exact .of_eq rfl
          · exact setObj_samePlace ⟨rfl, rfl, rfl, rfl, rfl⟩
  | borrowBegin ref n a =>
      refine .stays ?_
      rw [step, borrowBegin]
      cases checkRef G ref n a true with
      | error e => exact .of_eq rfl
      | ok addr =>
          dsimp only
          rw [borrowCommit_objects]
          split_ifs with hidx
          · rw [hidx]
            exact ⟨rfl, rfl, rfl, rfl, rfl⟩
          · exact .of_eq rfl
  | borrowEnd ref =>
      refine .stays ?_
      rw [step, borrowEnd]
      split_ifs
      · exact setObj_samePlace ⟨rfl, rfl, rfl, rfl, rfl⟩
      · exact .of_eq rfl
  | compact p req elapsed =>
      rw [step]
      by_cases hyes : Active G p ∧ (G.pools p).borrowCount = 0 ∧ requestOk req = true
      · obtain ⟨met, F, L', heq, -, hc⟩ := compact_ok h hyes.1 hyes.2.1 hyes.2.2 elapsed
        rw [heq]
        -- what a maintenance call moves is not borrowed, since its pools are idle
        exact .of_relocated hc.relocated fun j hj => ⟨hb.pool_idle h hyes.1 hyes.2.1 hj,
          ((h.pool p hyes.1).poolId hj).1.symm⟩
      · obtain ⟨st, F, heq, -, -, hF⟩ := compact_refused h hyes elapsed
        rw [heq]
        rcases hF with hsame | hpaused
        · rw [hsame]
          exact .of_eq rfl
        · rw [hpaused.2]
          exact .of_eq rfl
  | merge s t =>
      rw [step]
      by_cases hyes : MergeReady G s t ∧ NoUndersized (Ls s) ∧ NoUndersized (Ls t)
      · obtain ⟨F, L', heq, -, hm⟩ := merge_ok h hyes.1 hyes.2
        rw [heq]
        refine .of_relocated hm.relocated fun j hj => ?_
        rcases mem_mergeSlots.mp hj with hs | ht
        · exact ⟨hb.pool_idle h hyes.1.source hyes.1.sourceIdle hs,
            Or.inl ((h.pool s hyes.1.source).poolId hs).1.symm⟩
        · exact ⟨hb.pool_idle h hyes.1.target hyes.1.targetIdle ht,
            Or.inr ((h.pool t hyes.1.target).poolId ht).1.symm⟩
      · obtain ⟨st, heq, -, -⟩ := merge_refused h hyes
        rw [heq]
        exact .of_eq rfl
  | split s n =>
      rw [step]
      by_cases hok : ∃ nid F, split G s n = (.ok, some nid, F)
      · obtain ⟨nid, F, heq⟩ := hok
        obtain ⟨k, hr⟩ := split_asked (s := s) (n := n) h (by rw [heq])
        rcases split_ok h hr with ⟨st, hst, -⟩ | ⟨G', plan, L₁, L₂, hG', -, -, hsp⟩
        · rw [hst] at heq
          cases heq
        · rw [hG']
          exact .of_relocated hsp.relocated fun j hj => ⟨hb.pool_idle h hr.source hr.idle hj,
            ((h.pool s hr.source).poolId hj).1.symm⟩
      · obtain ⟨st, heq, -, -⟩ := split_refused (s := s) (n := n) h
          fun nid F heq => hok ⟨nid, F, heq⟩
        rw [heq]
        exact .of_eq rfl
  | write w => exact .of_eq (by rw [step, clientWrite_objects])

/-- No operation moves a borrowed object, re-homes it or frees it. -/
theorem step_samePlace (h : GlobalInv G Ls) (hb : Borrows G) (hi : i < pmMaxObjects)
    (hheld : 0 < (G.objects i).activeBorrows) (op : Op) :
    SamePlace (G.objects i) ((step G op).objects i) := by
  have hlive : LiveObject G i := ⟨hi, by
    by_contra hl
    exact hheld.ne' (hb.idle i hi hl)⟩
  have hstep := step_place h hb hlive op
  generalize (op, reply G op) = e at hstep
  cases hstep with
  | stays place => exact place
  | freed idle gone running => exact absurd idle hheld.ne'
  | relocated idle l mem moved maintained => exact absurd idle hheld.ne'

/-- An operation that does not free a pinned object leaves it where it is. -/
lemma step_pinned (h : GlobalInv G Ls) (hb : Borrows G) (hlive : LiveObject G i)
    (hpin : (G.objects i).pinned = true) (op : Op)
    (hfree : Event.freed (op, reply G op) ≠ some i) :
    ((step G op).objects i).address = (G.objects i).address := by
  have hstep := step_place h hb hlive op
  generalize (op, reply G op) = e at *
  cases hstep with
  | stays place => exact place.address
  | freed idle gone running => exact absurd gone hfree
  | relocated idle l mem moved maintained => exact moved.pinned i mem hpin

end Places

/-- Over any run a pinned object keeps its address until it is freed. -/
theorem BorrowRun.pinned {G G' : GlobalState} {es : List Event} {i : ℕ}
    (h : BorrowRun G (allBorrows G)) (hrun : Run PondMerge.sequential G es G')
    (hlive : LiveObject G i) (hpin : (G.objects i).pinned = true)
    (hfree : ∀ e ∈ es, e.freed ≠ some i) :
    (G'.objects i).address = (G.objects i).address := by
  induction hrun with
  | nil => rfl
  | @cons X X' X'' e es hstep hrun ih =>
      obtain ⟨hfit, hreply, rfl⟩ := hstep
      obtain ⟨Ls, hinv⟩ := h.reachable.healthy
      have hnot : Event.freed (e.1, reply X e.1) ≠ some i := by
        rw [← hreply]
        exact hfree e List.mem_cons_self
      have haddr := step_pinned hinv h.borrows.1 hlive hpin e.1 hnot
      have hone : Run PondMerge.sequential X [e] (PondMerge.step X e.1) :=
        .single ⟨hfit, hreply, rfl⟩
      obtain ⟨hlive', hp⟩ := h.persists hone hlive fun e' he' =>
        hfree e' (List.mem_cons.mpr (Or.inl (List.mem_singleton.mp he')))
      have hflags : ((PondMerge.step X e.1).objects i).flags = (X.objects i).flags := hp.flags
      have hpin' : ((PondMerge.step X e.1).objects i).pinned = true := by
        rw [ObjectDesc.pinned, hflags]
        exact hpin
      exact (ih (h.next hfit).1 hlive' hpin' fun e' he' =>
        hfree e' (List.mem_cons_of_mem _ he')).trans haddr

end PondMerge
