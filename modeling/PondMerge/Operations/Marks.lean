import PondMerge.Operations.Borrows
import PondMerge.Operations.Lives
import PondMerge.Operations.Packing

/-!
The high-water marks of `global_stats`, and what they are marks of.

* `packedSlack`: the slack a row of blocks leaves once it is packed, read off the row.
* `GlobalStats.Below`: no mark is smaller, and `step_below`: no operation lowers one.
* `Quiet`: an operation that raises neither a mark nor a count.
-/

namespace PondMerge

open ByteMemory Tiling

variable [PmConfig]

/-! ### The slack of a packed row -/

/-- The bytes of a gap between blocks that no free block covers. -/
def gapSlack (g : ℕ) : ℕ := if pmMinBlock ≤ g then 0 else g

/-- The slack of the row once it is packed from `c`: the movable blocks go to the front of the
section they are in, the pinned ones stay, and each section leaves one gap. -/
def packedSlack (obj : ℕ → ObjectDesc) (stop : ℕ) : ℕ → List ℕ → ℕ
  | c, [] => gapSlack (stop - c)
  | c, i :: l =>
    if (obj i).pinned then
      gapSlack ((obj i).block - c) + packedSlack obj stop ((obj i).block + (obj i).blockSize) l
    else packedSlack obj stop (c + (obj i).blockSize) l

section Rows

variable {obj obj' : ℕ → ObjectDesc} {stop c : ℕ} {l : List ℕ}

lemma lostOf_gapPieces (g : ℕ) : lostOf (gapPieces g) = gapSlack g := by
  rw [gapPieces, gapSlack]
  split_ifs with hmin hpos
  · rfl
  · rfl
  · exact (Nat.eq_zero_of_not_pos hpos).symm

/-- What a packed row leaves unused is known before it is packed. -/
theorem PackedFrom.lostOf (h : PackedFrom obj obj' c l)
    (hsize : ∀ i ∈ l, (obj' i).blockSize = (obj i).blockSize) :
    PondMerge.lostOf (packed obj' stop c l) = packedSlack obj stop c l := by
  induction l generalizing c with
  | nil => exact lostOf_gapPieces _
  | cons i l ih =>
      obtain ⟨hblock, htail⟩ := h
      have hi := hsize i List.mem_cons_self
      have hrest := ih htail fun j hj => hsize j (List.mem_cons_of_mem _ hj)
      rw [packed, lostOf_append, lostOf_cons, lostOf_gapPieces, hi, hrest, packedSlack, hblock]
      split_ifs
      · rw [Piece.lost, Nat.zero_add]
      · rw [Piece.lost, Nat.zero_add, Nat.sub_self, gapSlack, if_neg (by
          have := PmConfig.minBlock_ge
          omega), Nat.zero_add]

end Rows

/-! ### The row of a pool -/

/-- The live objects of pool `p` in address order. -/
def addressRow (G : GlobalState) (p : ℕ) : List ℕ :=
  ((List.range pmMaxObjects).filter fun i =>
    (G.objects i).state = .live ∧ (G.objects i).poolId = p).insertionSort
      fun i j => (G.objects i).address ≤ (G.objects j).address

/-- It is the row of the pool's layout. -/
lemma GlobalInv.addressRow {G : GlobalState} {Ls : ℕ → List Piece} {p : ℕ} (h : GlobalInv G Ls)
    (hp : Active G p) : PondMerge.addressRow G p = liveSlots (Ls p) := by
  have hpool := h.pool p hp
  have htotal : Std.Total fun i j : ℕ => (G.objects i).address ≤ (G.objects j).address :=
    ⟨fun i j => Nat.le_total _ _⟩
  have htrans : IsTrans ℕ fun i j => (G.objects i).address ≤ (G.objects j).address :=
    ⟨fun i j k => Nat.le_trans⟩
  have hsorted := List.pairwise_insertionSort
    (fun i j => (G.objects i).address ≤ (G.objects j).address)
    ((List.range pmMaxObjects).filter fun i =>
      (G.objects i).state = .live ∧ (G.objects i).poolId = p)
  have hperm : (PondMerge.addressRow G p).Perm (liveSlots (Ls p)) := by
    refine (List.perm_insertionSort _ _).trans ?_
    refine (List.perm_ext_iff_of_nodup (List.nodup_range.filter _) hpool.layout.nodup).mpr
      fun i => ?_
    rw [List.mem_filter, List.mem_range]
    constructor
    · rintro ⟨hlt, hi⟩
      simp only [decide_eq_true_eq] at hi
      have hm := (h.owner hlt hi.1).2
      rwa [hi.2] at hm
    · intro hi
      have hd := hpool.poolId hi
      exact ⟨hpool.layout.slot_lt hi, by simp [hd.1, hd.2]⟩
  refine hperm.eq_of_pairwise (fun i j hi hj hij hji => ?_) hsorted
    (hpool.ordered.imp fun hlt => hlt.le)
  exact hpool.address_inj (hperm.mem_iff.mp hi) hj (Nat.le_antisymm hij hji)

/-! ### The marks -/

/-- No mark of `a` is larger than that of `b`. -/
structure GlobalStats.Below (a b : GlobalStats) : Prop where
  live : a.maxLiveObjects ≤ b.maxLiveObjects
  borrow : a.maxBorrowCount ≤ b.maxBorrowCount
  fragment : a.maxFragmentBytes ≤ b.maxFragmentBytes
  moved : a.maxBytesMoved ≤ b.maxBytesMoved
  time : a.maxCompactTimeUs ≤ b.maxCompactTimeUs

section Marks

variable {G G' : GlobalState} {p : ℕ}

omit [PmConfig] in
lemma GlobalStats.Below.refl (a : GlobalStats) : a.Below a :=
  ⟨le_rfl, le_rfl, le_rfl, le_rfl, le_rfl⟩

omit [PmConfig] in
lemma GlobalStats.Below.of_eq {a b : GlobalStats} (h : b = a) : a.Below b := h ▸ .refl a

omit [PmConfig] in
lemma GlobalStats.Below.trans {a b c : GlobalStats} (h : a.Below b) (h' : b.Below c) :
    a.Below c :=
  ⟨h.live.trans h'.live, h.borrow.trans h'.borrow, h.fragment.trans h'.fragment,
    h.moved.trans h'.moved, h.time.trans h'.time⟩

omit [PmConfig] in
/-- A mark is refreshed where it is exceeded. -/
lemma le_refreshed (m n : ℕ) : m ≤ (if m < n then n else m) ∧ n ≤ if m < n then n else m := by
  split_ifs with hlt
  · exact ⟨hlt.le, le_rfl⟩
  · exact ⟨le_rfl, Nat.le_of_not_lt hlt⟩

omit [PmConfig] in
lemma orderUnlink_marks (G : GlobalState) (p idx : ℕ) :
    globalStats (orderUnlink G p idx) = globalStats G := by
  rw [orderUnlink]
  dsimp only
  split_ifs <;> rfl

lemma freeCommit_marks (G : GlobalState) (p idx block stop : ℕ) :
    globalStats (freeCommit G p idx block stop) = globalStats G := by
  have hheap : globalStats (freeHeap G p idx block stop) = globalStats G := rfl
  rw [← hheap, ← orderUnlink_marks (freeHeap G p idx block stop) p idx, freeCommit]
  generalize orderUnlink (freeHeap G p idx block stop) p idx = F
  rfl

lemma allocCommit_marks (G : GlobalState) (p slot blk need size flags tag : ℕ) :
    let F := allocCommit G p slot blk need size flags tag
    (globalStats G).Below (globalStats F) ∧ F.liveObjectCount ≤ F.maxLiveObjects
      ∧ F.maxBorrowCount = G.maxBorrowCount := by
  have horder : globalStats (allocOrder G p slot blk) = globalStats G := by
    rw [allocOrder, orderAppend]
    dsimp only
    split_ifs <;> rfl
  dsimp only
  rw [← horder, show G.maxBorrowCount = (globalStats G).maxBorrowCount from rfl, ← horder]
  rw [allocCommit]
  generalize allocOrder G p slot blk = F
  exact ⟨⟨(le_refreshed _ _).1, le_rfl, (le_refreshed _ _).1, le_rfl, le_rfl⟩,
    (le_refreshed _ _).2, rfl⟩

omit [PmConfig] in
lemma compactStats_marks (G : GlobalState) (p : ℕ) (plan : List MovePlanEntry) (elapsed : ℕ) :
    (globalStats G).Below (globalStats (compactStats G p plan elapsed))
      ∧ ((compactStats G p plan elapsed).pools p).fragmentBytes ≤
        (compactStats G p plan elapsed).maxFragmentBytes := by
  rw [compactStats]
  refine ⟨⟨le_rfl, le_rfl, (le_refreshed _ _).1, (le_refreshed _ _).1, (le_refreshed _ _).1⟩, ?_⟩
  simp only [GlobalState.setPool_pools, Function.update_self]
  exact (le_refreshed _ _).2

omit [PmConfig] in
lemma mergeMove_marks (t : ℕ) (b : Bool) (G : GlobalState) (e : MovePlanEntry) :
    globalStats (mergeMove t b G e) = globalStats G := by
  rw [mergeMove]
  split_ifs <;> rfl

omit [PmConfig] in
lemma mergeMoves_marks (G : GlobalState) (t : ℕ) (below : Bool) (n : ℕ)
    (plan : List MovePlanEntry) : globalStats (mergeMoves G t below n plan) = globalStats G := by
  have hfold : ∀ (b : Bool) (l : List MovePlanEntry) (G : GlobalState),
      globalStats (l.foldl (mergeMove t b) G) = globalStats G := by
    intro b l
    induction l with
    | nil => exact fun G => rfl
    | cons e l ih => exact fun G => (ih (mergeMove t b G e)).trans (mergeMove_marks t b G e)
  exact (hfold _ _ _).trans (hfold _ _ _)

omit [PmConfig] in
lemma execMoves_marks (G : GlobalState) (plan : List MovePlanEntry) :
    globalStats (execMoves G plan) = globalStats G := by
  rw [execMoves, execMove_step.foldl_rest plan G]
  rfl

omit [PmConfig] in
lemma compactArm_marks (G : GlobalState) (p : ℕ) :
    globalStats (compactArm G p).2 = globalStats G
      ∧ ((compactArm G p).2.pools p).fragmentBytes = (G.pools p).fragmentBytes := by
  rw [compactArm]
  generalize hP : (if (G.pools p).state = .running then { G.pools p with state := .paused }
    else G.pools p) = P
  have hsame : P.fragmentBytes = (G.pools p).fragmentBytes := by
    rw [← hP]
    split_ifs <;> rfl
  dsimp only
  split_ifs
  · exact ⟨rfl, rfl⟩
  · exact ⟨rfl, by simpa using hsame⟩
  · exact ⟨rfl, by simpa using hsame⟩
  · exact ⟨rfl, by simpa using hsame⟩

lemma compactImpl_marks (G : GlobalState) (p : ℕ) (req : Option CompactionRequest)
    (elapsed : ℕ) :
    let F := (compactImpl G p req elapsed).2.2
    (globalStats G).Below (globalStats F) ∧ ((F.pools p).fragmentBytes ≤ (G.pools p).fragmentBytes
      ∨ (F.pools p).fragmentBytes ≤ F.maxFragmentBytes) := by
  rw [compactImpl]
  cases compactAudit G p req with
  | error e => exact ⟨.refl _, Or.inl le_rfl⟩
  | ok r =>
      have hmoves := execMoves_marks G r.2.1
      dsimp only
      rw [compactRebuild]
      generalize execMoves G r.2.1 = F₁ at *
      have hlayout : globalStats (finalizeLayout F₁ p (poolStart F₁ (F₁.pools p))
          (poolEnd F₁ (F₁.pools p)) r.1) = globalStats F₁ := rfl
      obtain ⟨hbelow, hfragment⟩ := compactStats_marks (finalizeLayout F₁ p
        (poolStart F₁ (F₁.pools p)) (poolEnd F₁ (F₁.pools p)) r.1) p r.2.1 elapsed
      rw [hlayout, hmoves] at hbelow
      exact ⟨hbelow, Or.inr hfragment⟩

/-- `compact` refreshes the mark of the slack it leaves. -/
lemma compact_marks (G : GlobalState) (p : ℕ) (req : Option CompactionRequest) (elapsed : ℕ) :
    let F := (compact G p req elapsed).2.2
    (globalStats G).Below (globalStats F) ∧ ((F.pools p).fragmentBytes ≤ (G.pools p).fragmentBytes
      ∨ (F.pools p).fragmentBytes ≤ F.maxFragmentBytes) := by
  rw [compact]
  split_ifs
  · exact ⟨.refl _, Or.inl le_rfl⟩
  cases poolAt G p with
  | none => exact ⟨.refl _, Or.inl le_rfl⟩
  | some P =>
      obtain ⟨harm, hsame⟩ := compactArm_marks G p
      dsimp only
      generalize compactArm G p = r at *
      obtain ⟨st, G₁⟩ := r
      cases st with
      | ok =>
          obtain ⟨hbelow, hfragment⟩ := compactImpl_marks G₁ p req elapsed
          rw [harm] at hbelow
          rw [hsame] at hfragment
          dsimp only
          generalize compactImpl G₁ p req elapsed = r at *
          have hset : ∀ P : Pool, P.fragmentBytes = (r.2.2.pools p).fragmentBytes →
              ((r.2.2.setPool p P).pools p).fragmentBytes ≤ (G.pools p).fragmentBytes
                ∨ ((r.2.2.setPool p P).pools p).fragmentBytes ≤ r.2.2.maxFragmentBytes := by
            intro P hP
            rw [GlobalState.setPool_pools, Function.update_self, hP]
            exact hfragment
          rw [compactCommit]
          split_ifs
          · exact ⟨hbelow, hset _ rfl⟩
          · exact ⟨hbelow, hset _ rfl⟩
          · exact ⟨hbelow, hset _ rfl⟩
      | _ => exact ⟨.of_eq harm, Or.inl hsame.le⟩

lemma finalizeLayout_marks (G : GlobalState) (p start stop : ℕ) (slots : List ℕ) :
    globalStats (finalizeLayout G p start stop slots) = globalStats G := rfl

lemma mergeRebuild_marks (G : GlobalState) (s t : ℕ) (slots : List ℕ)
    (plan : List MovePlanEntry) : globalStats (mergeRebuild G s t slots plan) = globalStats G := by
  rw [mergeRebuild, finalizeLayout_marks]
  rfl

/-- `merge` refreshes no mark. -/
lemma merge_marks (G : GlobalState) (s t : ℕ) :
    globalStats (merge G s t).2 = globalStats G := by
  have harm : globalStats (mergeArm G s t).2 = globalStats G := by
    rw [mergeArm]
    split
    · split_ifs <;> rfl
    · rfl
  rw [merge]
  split_ifs
  · rfl
  · rfl
  dsimp only
  generalize mergeArm G s t = r at *
  obtain ⟨st, G₁⟩ := r
  cases st with
  | ok =>
      dsimp only
      cases mergeAudit G₁ s t with
      | error e => exact harm
      | ok r =>
          have hmoves := mergeMoves_marks G₁ t (sourceBelow (G₁.pools s) (G₁.pools t)) r.1.length
            r.2.2
          dsimp only at harm ⊢
          generalize mergeMoves G₁ t (sourceBelow (G₁.pools s) (G₁.pools t)) r.1.length r.2.2 = F
            at hmoves ⊢
          rw [← harm, ← hmoves, ← mergeRebuild_marks F s t (r.1 ++ r.2.1) r.2.2]
          generalize mergeRebuild F s t (r.1 ++ r.2.1) r.2.2 = F'
          rfl
  | _ => exact harm

lemma splitRebuild_marks (G : GlobalState) (s nid n : ℕ) (slots : List ℕ) :
    globalStats (splitRebuild G s nid n slots) = globalStats G := by
  rw [splitRebuild]
  dsimp only
  rw [finalizeLayout_marks, finalizeLayout_marks]
  rfl

/-- Nor does `split`. -/
lemma split_marks (G : GlobalState) (s n : ℕ) :
    globalStats (split G s n).2.2 = globalStats G := by
  have harm : globalStats (splitArm G s n).2.2 = globalStats G := by
    rw [splitArm]
    split
    · rfl
    · split_ifs
      · rfl
      · rfl
      · rfl
      · split <;> rfl
  rw [split]
  split_ifs
  · rfl
  generalize splitArm G s n = r at *
  obtain ⟨st, k, G₁⟩ := r
  cases st with
  | ok =>
      cases k with
      | none => exact harm
      | some nid =>
          dsimp only
          cases splitAudit G₁ s n with
          | error e => exact harm
          | ok r =>
              have hmoves := execMoves_marks G₁ r.2.moves
              dsimp only at harm ⊢
              rw [← harm, ← hmoves, ← splitRebuild_marks (execMoves G₁ r.2.moves) s nid n r.1]
              generalize splitRebuild (execMoves G₁ r.2.moves) s nid n r.1 = F
              rfl
  | _ => exact harm

end Marks

/-! ### The live objects -/

/-- The slots of the live objects. -/
def liveObjects (G : GlobalState) : Finset ℕ :=
  (Finset.range pmMaxObjects).filter fun i => (G.objects i).state = .live

section Lives

variable {G : GlobalState} {Ls : ℕ → List Piece}

/-- `live_object_count` counts them. -/
lemma GlobalInv.card_liveObjects (h : GlobalInv G Ls) :
    (liveObjects G).card = G.liveObjectCount := by
  obtain ⟨l, hl, hm, hlen⟩ := h.slots
  have hcompl : liveObjects G = Finset.range pmMaxObjects \ l.toFinset := by
    ext i
    rw [liveObjects, Finset.mem_filter, Finset.mem_sdiff, List.mem_toFinset, Finset.mem_range, hm]
    constructor
    · rintro ⟨hi, hlive⟩
      exact ⟨hi, fun hfree => by rw [hlive] at hfree; cases hfree.2⟩
    · rintro ⟨hi, hno⟩
      exact ⟨hi, (h.idle i hi).resolve_right fun hfree => hno ⟨hi, hfree⟩⟩
  have hsub : l.toFinset ⊆ Finset.range pmMaxObjects := fun i hi =>
    Finset.mem_range.mpr ((hm i).mp (List.mem_toFinset.mp hi)).1
  rw [hcompl, Finset.card_sdiff_of_subset hsub, Finset.card_range,
    List.toFinset_card_of_nodup hl.nodup]
  omega

/-- Only an `alloc` adds one. -/
lemma step_liveObjects (h : GlobalInv G Ls) {op : Op} (hno : allocatedSlot G op = none) :
    liveObjects (step G op) ⊆ liveObjects G := by
  intro i hi
  rw [liveObjects, Finset.mem_filter, Finset.mem_range] at hi ⊢
  have hlife := step_life h op hi.1
  rw [beginsLife, hno, if_neg (by simp)] at hlife
  refine ⟨hi.1, ?_⟩
  cases hlife with
  | same same => exact same.state.symm.trans hi.2
  | ended before after generation => exact before

end Lives

/-! ### One operation -/

/-- Where a count is above its mark, it was no smaller before, or it is the slack of one of the
pools `A`. -/
structure Marked (G G' : GlobalState) (A : ℕ → Prop) : Prop where
  below : (globalStats G).Below (globalStats G')
  borrow : ∀ p < pmMaxPools, (G'.pools p).borrowCount ≤ (G.pools p).borrowCount
    ∨ (G'.pools p).borrowCount ≤ G'.maxBorrowCount
  fragment : ∀ p < pmMaxPools, ¬ A p → (G'.pools p).fragmentBytes ≤ (G.pools p).fragmentBytes
    ∨ (G'.pools p).fragmentBytes ≤ G'.maxFragmentBytes

/-- The pools whose layout an operation has rebuilt without refreshing the mark. -/
def Relaid (G : GlobalState) (p : ℕ) : Op → Prop
  | .merge s t => (merge G s t).1 = .ok ∧ p = t
  | .split s n => (split G s n).1 = .ok ∧ (p = s ∨ (split G s n).2.1 = some p)
  | _ => False

section Steps

variable {G G' : GlobalState} {Ls : ℕ → List Piece} {A : ℕ → Prop} {p : ℕ}

lemma Marked.refl (G : GlobalState) (A : ℕ → Prop) : Marked G G A :=
  ⟨.refl _, fun _ _ => Or.inl le_rfl, fun _ _ _ => Or.inl le_rfl⟩

lemma Marked.of_pools (hmarks : globalStats G' = globalStats G) (hpools : G'.pools = G.pools) :
    Marked G G' A :=
  ⟨.of_eq hmarks, fun _ _ => Or.inl (by rw [hpools]), fun _ _ _ => Or.inl (by rw [hpools])⟩

/-- One entry is rewritten. -/
lemma Marked.of_update {P : Pool} (hbelow : (globalStats G).Below (globalStats G'))
    (hpools : G'.pools = Function.update G.pools p P)
    (hb : P.borrowCount ≤ (G.pools p).borrowCount ∨ P.borrowCount ≤ G'.maxBorrowCount)
    (hf : P.fragmentBytes ≤ (G.pools p).fragmentBytes
      ∨ P.fragmentBytes ≤ G'.maxFragmentBytes) : Marked G G' A := by
  refine ⟨hbelow, fun q _ => ?_, fun q _ _ => ?_⟩
  · rw [hpools, Function.update_apply]
    split_ifs with hq
    · rwa [hq]
    · exact Or.inl le_rfl
  · rw [hpools, Function.update_apply]
    split_ifs with hq
    · rwa [hq]
    · exact Or.inl le_rfl

/-- A step is measured against the marks and entries of the state before it. -/
lemma Marked.of_state {F : GlobalState} (h : Marked F G' A)
    (hmarks : globalStats F = globalStats G) (hpools : F.pools = G.pools) : Marked G G' A := by
  refine ⟨hmarks ▸ h.below, ?_, ?_⟩
  · rw [← hpools]
    exact h.borrow
  · rw [← hpools]
    exact h.fragment

lemma Marked.setPool {P : Pool} (hb : P.borrowCount ≤ (G.pools p).borrowCount)
    (hf : P.fragmentBytes ≤ (G.pools p).fragmentBytes) : Marked G (G.setPool p P) A :=
  .of_update (.of_eq rfl) (GlobalState.setPool_pools ..) (Or.inl hb) (Or.inl hf)

lemma createPool_marked (h : GlobalInv G Ls) (n : ℕ) : Marked G (createPool G n).2.2 A := by
  cases createPool_cases h n with
  | inl hno =>
      obtain ⟨st, -, -, heq⟩ := hno
      rw [heq]
      exact .refl G A
  | inr hyes =>
      obtain ⟨k, base, heq, -⟩ := hyes
      rw [heq]
      exact .of_update (.of_eq rfl) rfl (Or.inl (Nat.zero_le _)) (Or.inl (Nat.zero_le _))

lemma destroyPool_marked (h : GlobalInv G Ls) (p : ℕ) : Marked G (destroyPool G p).2 A := by
  cases destroyPool_cases h p with
  | inl hno =>
      obtain ⟨st, -, heq⟩ := hno
      rw [heq]
      exact .refl G A
  | inr hyes =>
      rw [hyes.1]
      exact .setPool (Nat.zero_le _) (Nat.zero_le _)

lemma pause_marked (G : GlobalState) (p : ℕ) : Marked G (pause G p).2 A := by
  rw [pause]
  cases hp : poolAt G p with
  | none => exact .refl G A
  | some P =>
      obtain ⟨-, rfl⟩ := poolAt_eq_some.mp hp
      dsimp only
      split_ifs
      · exact .refl G A
      · exact .refl G A
      · exact .setPool le_rfl le_rfl

lemma resume_marked (G : GlobalState) (p : ℕ) : Marked G (resume G p).2 A := by
  rw [resume]
  cases hp : poolAt G p with
  | none => exact .refl G A
  | some P =>
      obtain ⟨-, rfl⟩ := poolAt_eq_some.mp hp
      dsimp only
      split_ifs
      · exact .refl G A
      · exact .refl G A
      · exact .setPool le_rfl le_rfl

lemma alloc_marked (G : GlobalState) (p size alignment flags tag : ℕ) :
    Marked G (alloc G p size alignment flags tag).2.2 A := by
  cases alloc_cases G p size alignment flags tag with
  | inl hno =>
      obtain ⟨st, -, heq⟩ := hno
      rw [heq]
      exact .refl G A
  | inr hyes =>
      obtain ⟨need, blk, -, heq⟩ := hyes
      rw [heq]
      exact .of_update (allocCommit_marks (popSlot G) p _ blk need size _ tag).1
        (allocCommit_pools ..) (Or.inl le_rfl) (Or.inl le_rfl)

lemma free_marked (h : GlobalInv G Ls) (ref : RawRef) (ws : List PayloadWrite) :
    Marked G (free (writingCallback ws) G ref).2 A := by
  cases free_cases h ref ws with
  | inl hno =>
      obtain ⟨st, -, -, heq⟩ := hno
      rw [heq]
      exact .refl G A
  | inr hyes =>
      obtain ⟨-, -, heq⟩ := hyes
      have hcall : globalStats (afterCallback G ref.index ws) = globalStats G := by
        rw [afterCallback_eq]
        rfl
      have hpools : (afterCallback G ref.index ws).pools = G.pools := by rw [afterCallback_eq]
      rw [heq]
      refine Marked.of_state ?_ hcall hpools
      exact .of_update (.of_eq (freeCommit_marks ..)) (freeCommit_pools ..) (Or.inl le_rfl)
        (Or.inl le_rfl)

lemma setDestroyFn_marked (G : GlobalState) (ref : RawRef) (fn : Option ℕ) :
    Marked G (setDestroyFn G ref fn).2 A := by
  rw [setDestroyFn]
  split
  · exact .refl G A
  · split_ifs
    · exact .refl G A
    · exact .of_pools rfl rfl

/-- `borrow_begin` refreshes the mark of the count it raises. -/
lemma borrowBegin_marked (G : GlobalState) (ref : RawRef) (n a : ℕ) :
    Marked G (borrowBegin G ref n a).2.2 A := by
  rw [borrowBegin]
  split
  · exact .refl G A
  · exact .of_update ⟨le_rfl, (le_refreshed _ _).1, le_rfl, le_rfl, le_rfl⟩ rfl
      (Or.inr (le_refreshed _ _).2) (Or.inl le_rfl)

lemma borrowEnd_marked (G : GlobalState) (ref : RawRef) : Marked G (borrowEnd G ref) A := by
  rw [borrowEnd]
  split_ifs
  · exact .of_update (.of_eq rfl) rfl (Or.inl (Nat.sub_le _ _)) (Or.inl le_rfl)
  · exact .refl G A

lemma compact_marked (h : GlobalInv G Ls) (p : ℕ) (req : Option CompactionRequest)
    (elapsed : ℕ) : Marked G (compact G p req elapsed).2.2 A := by
  have hcount := compact_counts G p req elapsed
  obtain ⟨hbelow, hfragment⟩ := compact_marks G p req elapsed
  refine ⟨hbelow, fun q _ => Or.inl (hcount q).le, fun q _ _ => ?_⟩
  by_cases hq : q = p
  · rw [hq]
    exact hfragment
  left
  by_cases hyes : Active G p ∧ (G.pools p).borrowCount = 0 ∧ requestOk req = true
  · obtain ⟨met, F, L', heq, -, hc⟩ := compact_ok h hyes.1 hyes.2.1 hyes.2.2 elapsed
    rw [heq, hc.pools q hq]
  · obtain ⟨st, F, heq, -, -, hF⟩ := compact_refused h hyes elapsed
    rw [heq]
    cases hF with
    | inl hsame => rw [hsame]
    | inr hpaused =>
        rw [hpaused.2, GlobalState.setPool_pools, Function.update_of_ne hq]

lemma merge_marked (h : GlobalInv G Ls) (s t : ℕ) :
    Marked G (merge G s t).2 fun q => Relaid G q (.merge s t) := by
  have hmarks := merge_marks G s t
  by_cases hyes : MergeReady G s t ∧ NoUndersized (Ls s) ∧ NoUndersized (Ls t)
  · obtain ⟨F, L', heq, -, hm⟩ := merge_ok h hyes.1 hyes.2
    refine ⟨.of_eq hmarks, fun q _ => Or.inl ?_, fun q _ hno => Or.inl ?_⟩
    · by_cases hq : q = s
      · rw [heq, hq, hm.source]
        exact Nat.zero_le _
      · exact (merge_counts (by rw [heq]) hq).le
    · by_cases hq : q = s
      · rw [heq, hq, hm.source]
        exact Nat.zero_le _
      · rw [heq, hm.pools q hq fun hqt => hno ⟨by rw [heq], hqt⟩]
  · obtain ⟨st, heq, -, -⟩ := merge_refused h hyes
    rw [heq]
    exact .refl G _

lemma split_marked (h : GlobalInv G Ls) (s n : ℕ) :
    Marked G (split G s n).2.2 fun q => Relaid G q (.split s n) := by
  have hmarks := split_marks G s n
  by_cases hok : ∃ nid F, split G s n = (.ok, some nid, F)
  · obtain ⟨nid, F, heq⟩ := hok
    obtain ⟨k, hr⟩ := split_asked (s := s) (n := n) h (by rw [heq])
    cases split_ok h hr with
    | inl hno =>
        obtain ⟨st, hst, hcode⟩ := hno
        rw [hst] at heq
        cases heq
    | inr hyes =>
        obtain ⟨G', plan, L₁, L₂, hG', -, hrun, hsp⟩ := hyes
        have hcount := hrun.counts hr.ne
        refine ⟨.of_eq hmarks, fun q _ => Or.inl ?_, fun q _ hno => Or.inl ?_⟩
        · rw [hG']
          exact (hcount q).le
        · have hs : q ≠ s := fun hq => hno ⟨by rw [hG'], Or.inl hq⟩
          have hk : q ≠ k := fun hq => hno ⟨by rw [hG'], Or.inr (by rw [hG', hq])⟩
          rw [hG', hsp.windows.others q hs hk]
  · obtain ⟨st, heq, -, -⟩ := split_refused (s := s) (n := n) h
      fun nid F heq => hok ⟨nid, F, heq⟩
    rw [heq]
    exact .refl G _

/-- No operation lowers a mark, and each but `merge` and `split` marks what it raises. -/
theorem step_marked (h : GlobalInv G Ls) (op : Op) :
    Marked G (step G op) fun q => Relaid G q op := by
  cases op with
  | createPool n => exact createPool_marked h n
  | destroyPool id => exact destroyPool_marked h id
  | pause id => exact pause_marked G id
  | resume id => exact resume_marked G id
  | alloc p size alignment flags tag => exact alloc_marked G p size alignment flags tag
  | free ref ws => exact free_marked h ref ws
  | setDestroyFn ref fn => exact setDestroyFn_marked G ref fn
  | borrowBegin ref n a => exact borrowBegin_marked G ref n a
  | borrowEnd ref => exact borrowEnd_marked G ref
  | compact p req elapsed => exact compact_marked h p req elapsed
  | merge s t => exact merge_marked h s t
  | split s n => exact split_marked h s n
  | write w =>
      rw [step, clientWrite_eq]
      exact .of_pools rfl rfl

end Steps

end PondMerge
