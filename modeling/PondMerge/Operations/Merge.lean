import PondMerge.Operations.Compact
import PondMerge.Operations.BinsAudit
import PondMerge.Operations.Relink
import PondMerge.Operations.Relayout
import PondMerge.Operations.Packing

/-!
`merge` on the representation invariant.

* `mergePlan_spec`: the planning loop never refuses blocks in a row.
* `mergeMoves_spec`: the execution loop as one sequence of relocations.
* `merge_ok`: two adjacent pools without borrows and without undersized free blocks become
  one, and their objects are relocated.
* `merge_refused`: any other `merge` changes nothing.
-/

namespace PondMerge

open ByteMemory LinkedList Relocation Tiling

variable [PmConfig]

/-! ### The plan -/

/-- The planning loop of `merge` accepts blocks in a row, with an entry for every block. -/
theorem mergePlan_spec {G : GlobalState} {stop e c : ℕ} {l : List ℕ}
    (hfit : Fits G.objects stop e l) (hc : c ≤ e) (hmod : c % 8 = 0)
    (hblk : ∀ i ∈ l, BlockOk (G.objects i) i) :
    mergePlan G stop l c (barriersOf G l) = .ok (packAll G.objects l c)
      ∧ Packs G.objects c l (packAll G.objects l c)
      ∧ (packAll G.objects l c).map (·.slot) = l
      ∧ ∀ x ∈ packAll G.objects l c, x.dst % 8 = 0
        ∧ ((G.objects x.slot).pinned = true → x.dst = (G.objects x.slot).block) := by
  induction l generalizing c e with
  | nil => exact ⟨rfl, .nil c, rfl, by simp [packAll]⟩
  | cons i l ih =>
      obtain ⟨hle, hfit'⟩ := id hfit
      obtain ⟨-, -, hsmod, hbmod⟩ := hblk i List.mem_cons_self
      have hblk' : ∀ j ∈ l, BlockOk (G.objects j) j := fun j hj =>
        hblk j (List.mem_cons_of_mem _ hj)
      cases hp : (G.objects i).pinned with
      | true =>
          obtain ⟨hplan, hpack, hslots, hdst⟩ := ih hfit' le_rfl (by omega) hblk'
          rw [packAll]
          simp only [hp, if_true]
          refine ⟨?_, .move (hc.trans hle) le_rfl hpack, by rw [List.map_cons, hslots],
            fun x hx => ?_⟩
          · rw [mergePlan, barriersOf_pinned hp, if_pos hp, if_neg (by omega), List.tail_cons,
              hplan]
          · cases List.mem_cons.mp hx with
            | inl heq => exact heq ▸ ⟨hbmod, fun _ => rfl⟩
            | inr hx => exact hdst x hx
      | false =>
          have hbar := hfit'.le_barrier
          obtain ⟨hplan, hpack, hslots, hdst⟩ := ih hfit'
            (c := c + (G.objects i).blockSize) (by omega) (by omega) hblk'
          rw [packAll]
          simp only [hp, Bool.false_eq_true, if_false]
          refine ⟨?_, .move le_rfl (hc.trans hle) hpack, by rw [List.map_cons, hslots],
            fun x hx => ?_⟩
          · rw [mergePlan, barriersOf_movable hp, if_neg (by simp [hp]), if_neg (by omega), hplan]
          · cases List.mem_cons.mp hx with
            | inl heq =>
                subst heq
                refine ⟨hmod, fun hpin => ?_⟩
                rw [hp] at hpin
                cases hpin
            | inr hx => exact hdst x hx

/-! ### The execution loop -/

/-- The descriptor after a step of the execution loop of `merge`. -/
def mergeDesc (target : ℕ) (fromSource : Bool) (e : MovePlanEntry) (d : ObjectDesc) :
    ObjectDesc :=
  let d := if e.dst ≠ d.block then movedDesc e d else d
  if fromSource then
    { d with poolId := target, addressEpoch := bumpEpoch d.addressEpoch }
  else d

omit [PmConfig] in
lemma mergeMove_step (target : ℕ) (fromSource : Bool) :
    MoveStep (mergeMove target fromSource) (mergeDesc target fromSource) := by
  refine ⟨fun G e => ?_, fun G e => ?_, fun G e => ?_⟩
  · by_cases hd : e.dst = (G.objects e.slot).block
    · cases fromSource <;> simp [mergeMove, hd, moveBlock]
    · cases fromSource <;> simp [mergeMove, hd, execMove]
  · by_cases hd : e.dst = (G.objects e.slot).block
    · cases fromSource <;> simp [mergeMove, mergeDesc, hd]
    · cases fromSource <;> simp [mergeMove, mergeDesc, hd, execMove, movedDesc]
  · by_cases hd : e.dst = (G.objects e.slot).block
    · cases fromSource <;> simp [mergeMove, hd, GlobalState.setObj]
    · cases fromSource <;> simp [mergeMove, hd, execMove, GlobalState.setObj]

omit [PmConfig] in
/-- A planned block stands where the plan has put it, moved or not. -/
lemma mergeDesc_block (target : ℕ) (fromSource : Bool) (e : MovePlanEntry) (d : ObjectDesc) :
    (mergeDesc target fromSource e d).block = e.dst := by
  have hmoved : (if e.dst ≠ d.block then movedDesc e d else d).block = e.dst := by
    split_ifs with hne
    · simp [ObjectDesc.block, movedDesc]
    · exact (not_not.mp hne).symm
  rw [mergeDesc]
  cases fromSource
  · exact hmoved
  · exact hmoved

omit [PmConfig] in
/-- What a step of the execution loop of `merge` makes of a descriptor. -/
lemma mergeDesc_spec {target : ℕ} {fromSource : Bool} {e : MovePlanEntry} {d : ObjectDesc}
    (h : d.address = d.block + 8) :
    let d' := mergeDesc target fromSource e d
    Kept d d' ∧ d'.block = e.dst ∧ d'.address = e.dst + 8
      ∧ d'.poolId = if fromSource then target else d.poolId := by
  have hmoved : (movedDesc e d).block = e.dst := by simp [ObjectDesc.block, movedDesc]
  dsimp only
  rw [mergeDesc]
  by_cases hd : e.dst = d.block
  · rw [hd]
    cases fromSource
    · simp only [ne_eq, not_true_eq_false, if_false, Bool.false_eq_true]
      exact ⟨Kept.refl d, trivial, h, trivial⟩
    · simp only [ne_eq, not_true_eq_false, if_false, if_true]
      exact ⟨⟨rfl, rfl, rfl, rfl, rfl, rfl, rfl, rfl, rfl⟩, rfl, h, trivial⟩
  · cases fromSource
    · simp only [ne_eq, hd, not_false_eq_true, if_true, Bool.false_eq_true, if_false]
      exact ⟨⟨rfl, rfl, rfl, rfl, rfl, rfl, rfl, rfl, rfl⟩, hmoved, rfl, rfl⟩
    · simp only [ne_eq, hd, not_false_eq_true, if_true]
      exact ⟨⟨rfl, rfl, rfl, rfl, rfl, rfl, rfl, rfl, rfl⟩, hmoved, rfl, trivial⟩

omit [PmConfig] in
/-- The execution loop of `merge`: it runs the relocations of the plan, and re-homes the
source's half. -/
lemma mergeMoves_spec {G : GlobalState} {plan : List MovePlanEntry} {l u : List ℕ}
    (hslots : plan.map (·.slot) = l ++ u) (hnd : (l ++ u).Nodup)
    (haddr : ∀ i ∈ l ++ u, (G.objects i).address = (G.objects i).block + 8)
    (target : ℕ) (below : Bool) :
    let E := mergeMoves G target below l.length plan
    E = { G with mem := E.mem, objects := E.objects }
      ∧ E.mem = run G.mem (plan.map (moveOf G.objects))
      ∧ (∀ i, i ∉ l ++ u → E.objects i = G.objects i)
      ∧ (∀ x ∈ plan, Kept (G.objects x.slot) (E.objects x.slot)
        ∧ (E.objects x.slot).block = x.dst ∧ (E.objects x.slot).address = x.dst + 8)
      ∧ (∀ i ∈ l, (E.objects i).poolId = if below then target else (G.objects i).poolId)
      ∧ (∀ i ∈ u, (E.objects i).poolId = if below then (G.objects i).poolId else target)
      ∧ ∀ x ∈ plan, E.objects x.slot =
        mergeDesc target (decide (x.slot ∈ l) == below) x (G.objects x.slot) := by
  dsimp only
  -- the loop runs over the lower half of the plan, then over the upper one
  have hsplit : plan.take l.length ++ plan.drop l.length = plan := List.take_append_drop _ _
  have hA : (plan.take l.length).map (·.slot) = l := by
    rw [List.map_take, hslots, List.take_left]
  have hB : (plan.drop l.length).map (·.slot) = u := by
    rw [List.map_drop, hslots, List.drop_left]
  generalize plan.take l.length = A at *
  generalize hBdef : plan.drop l.length = B at *
  obtain ⟨hndA, hndB, hdisj⟩ := List.nodup_append.mp hnd
  have hunfold : mergeMoves G target below l.length plan =
      B.foldl (mergeMove target !below) (A.foldl (mergeMove target below) G) := by
    rw [mergeMoves, hBdef, ← hsplit, ← hA, List.length_map, List.take_left]
  rw [hunfold]
  have hstepA := mergeMove_step target below
  have hstepB := mergeMove_step target !below
  have hAother := fun i (hi : i ∉ l) => hstepA.foldl_other (hA.symm ▸ hi) G
  have hAself := fun x (hx : x ∈ A) => hstepA.foldl_self (hA.symm ▸ hndA) hx G
  have hAmem := hstepA.foldl_mem (hA.symm ▸ hndA) G
  have hArest := hstepA.foldl_rest A G
  generalize A.foldl (mergeMove target below) G = E₁ at *
  -- the second half starts from the state `E₁` that the first has left
  have hBother := fun i (hi : i ∉ u) => hstepB.foldl_other (hB.symm ▸ hi) E₁
  have hBself := fun x (hx : x ∈ B) => hstepB.foldl_self (hB.symm ▸ hndB) hx E₁
  have hBmem := hstepB.foldl_mem (hB.symm ▸ hndB) E₁
  have hBrest := hstepB.foldl_rest B E₁
  generalize B.foldl (mergeMove target !below) E₁ = E at *
  have hlu : ∀ i ∈ l, i ∉ u := fun i hi hi' => hdisj i hi i hi' rfl
  have hul : ∀ i ∈ u, i ∉ l := fun i hi hi' => hdisj i hi' i hi rfl
  have hinA : ∀ x ∈ A, x.slot ∈ l := fun x hx => hA ▸ List.mem_map_of_mem (f := (·.slot)) hx
  have hinB : ∀ x ∈ B, x.slot ∈ u := fun x hx => hB ▸ List.mem_map_of_mem (f := (·.slot)) hx
  have hEA : ∀ x ∈ A, E.objects x.slot = mergeDesc target below x (G.objects x.slot) := by
    intro x hx
    rw [hBother _ (hlu _ (hinA x hx)), hAself x hx]
  have hEB : ∀ x ∈ B, E.objects x.slot = mergeDesc target (!below) x (G.objects x.slot) := by
    intro x hx
    rw [hBself x hx, hAother _ (hul _ (hinB x hx))]
  refine ⟨by rw [hBrest, hArest], ?_, fun i hi => ?_, fun x hx => ?_, fun i hi => ?_,
    fun i hi => ?_, fun x hx => ?_⟩
  · rw [hBmem, hAmem, ← run_append, ← hsplit, List.map_append]
    congr 2
    refine List.map_congr_left fun x hx => ?_
    rw [moveOf, moveOf, hAother _ (hul _ (hinB x hx))]
  · rw [List.mem_append, not_or] at hi
    rw [hBother i hi.2, hAother i hi.1]
  · rw [← hsplit, List.mem_append] at hx
    rcases hx with hx | hx
    · obtain ⟨hk, hb, ha, -⟩ := mergeDesc_spec (e := x)
        (haddr x.slot (List.mem_append_left _ (hinA x hx)))
      rw [hEA x hx]
      exact ⟨hk, hb, ha⟩
    · obtain ⟨hk, hb, ha, -⟩ := mergeDesc_spec (e := x)
        (haddr x.slot (List.mem_append_right _ (hinB x hx)))
      rw [hEB x hx]
      exact ⟨hk, hb, ha⟩
  · have haddr' := haddr i (List.mem_append_left _ hi)
    rw [← hA] at hi
    obtain ⟨x, hx, rfl⟩ := List.mem_map.mp hi
    rw [hEA x hx]
    exact (mergeDesc_spec haddr').2.2.2
  · have haddr' := haddr i (List.mem_append_right _ hi)
    rw [← hB] at hi
    obtain ⟨x, hx, rfl⟩ := List.mem_map.mp hi
    rw [hEB x hx, (mergeDesc_spec haddr').2.2.2]
    cases below <;> rfl
  · rw [← hsplit, List.mem_append] at hx
    cases hx with
    | inl hx =>
        rw [hEA x hx, decide_eq_true (hinA x hx)]
        cases below <;> rfl
    | inr hx =>
        rw [hEB x hx, decide_eq_false (hul _ (hinB x hx))]
        cases below <;> rfl

/-! ### The body -/

section Body

variable {G : GlobalState} {s t : ℕ}

omit [PmConfig] in
/-- The lower and the upper pool are the two pools, in the order of their windows. -/
lemma lower_upper (G : GlobalState) (s t : ℕ) :
    (sourceBelow (G.pools s) (G.pools t) = true ∧ lowerPool G s t = s ∧ upperPool G s t = t)
      ∨ (sourceBelow (G.pools s) (G.pools t) = false ∧ lowerPool G s t = t
        ∧ upperPool G s t = s) := by
  rw [lowerPool, upperPool]
  cases h : sourceBelow (G.pools s) (G.pools t)
  · exact Or.inr ⟨rfl, rfl, rfl⟩
  · exact Or.inl ⟨rfl, rfl, rfl⟩

omit [PmConfig] in
/-- The windows of two adjacent pools meet at one address. -/
lemma poolEnd_adjacent {P Q : Pool} (h : Q.segmentFirst = P.segmentFirst + P.segmentCount) :
    poolEnd G P = poolStart G Q := by
  rw [poolEnd, poolStart, h]

/-- What `merge` demands of the two windows. -/
def Adjacent (G : GlobalState) (s t : ℕ) : Prop :=
  sourceBelow (G.pools s) (G.pools t) = true ∨ sourceAbove (G.pools s) (G.pools t) = true

omit [PmConfig] in
lemma Adjacent.meet (h : Adjacent G s t) :
    (G.pools (upperPool G s t)).segmentFirst =
      (G.pools (lowerPool G s t)).segmentFirst + (G.pools (lowerPool G s t)).segmentCount := by
  rcases lower_upper G s t with ⟨hb, hl, hu⟩ | ⟨hb, hl, hu⟩
  · rw [hl, hu]
    simpa [sourceBelow] using hb
  · rw [hl, hu]
    rcases h with h | h
    · rw [h] at hb
      cases hb
    · simpa [sourceAbove] using h

/-- The window of the merged pool. -/
structure MergedWindow (G G' : GlobalState) (s t : ℕ) : Prop where
  first : (G'.pools t).segmentFirst = (G.pools (lowerPool G s t)).segmentFirst
  count : (G'.pools t).segmentCount =
    (G.pools (lowerPool G s t)).segmentCount + (G.pools (upperPool G s t)).segmentCount
  others : ∀ q, q ≠ s → q ≠ t → G'.pools q = G.pools q

/-- What `merge` starts from: two adjacent pools that both represent a layout. -/
structure MergePair (G : GlobalState) (s t : ℕ) (Llo Lhi : List Piece) : Prop where
  zone : ZoneOk G
  ne : s ≠ t
  adjacent : Adjacent G s t
  lower : PoolInv G (lowerPool G s t) Llo
  upper : PoolInv G (upperPool G s t) Lhi
  nodup : (liveSlots Llo ++ liveSlots Lhi).Nodup

/-- The window of both pools together. -/
def mergeStart (G : GlobalState) (s t : ℕ) : ℕ := poolStart G (G.pools (lowerPool G s t))

def mergeStop (G : GlobalState) (s t : ℕ) : ℕ := poolEnd G (G.pools (upperPool G s t))

section Pair

variable {Llo Lhi : List Piece}

lemma MergePair.fits (h : MergePair G s t Llo Lhi) :
    Fits G.objects (mergeStop G s t) (mergeStart G s t) (liveSlots Llo ++ liveSlots Lhi) := by
  have hmeet := poolEnd_adjacent (G := G) h.adjacent.meet
  refine fits_append.mpr ⟨_, h.lower.fits, ?_⟩
  rw [hmeet]
  exact h.upper.fits

/-- Every block of the two rows is described by its descriptor. -/
lemma MergePair.blocks (h : MergePair G s t Llo Lhi) {i : ℕ}
    (hi : i ∈ liveSlots Llo ++ liveSlots Lhi) :
    BlockOk (G.objects i) i
      ∧ ∃ q, DescOk (G.objects i) q (G.objects i).block (G.objects i).blockSize := by
  cases List.mem_append.mp hi with
  | inl hi => exact ⟨h.lower.blockOk h.zone hi, _, h.lower.desc_self hi⟩
  | inr hi => exact ⟨h.upper.blockOk h.zone hi, _, h.upper.desc_self hi⟩

/-- The plan of `merge` for the two rows. -/
lemma MergePair.plan (h : MergePair G s t Llo Lhi) :
    let lu := liveSlots Llo ++ liveSlots Lhi
    let plan := packAll G.objects lu (mergeStart G s t)
    mergePlan G (mergeStop G s t) lu (mergeStart G s t) (barriersOf G lu) = .ok plan
      ∧ Packs G.objects (mergeStart G s t) lu plan ∧ plan.map (·.slot) = lu
      ∧ ∀ x ∈ plan, x.dst % 8 = 0
        ∧ ((G.objects x.slot).pinned = true → x.dst = (G.objects x.slot).block) :=
  mergePlan_spec h.fits le_rfl (PoolInv.start_mod h.zone) fun _ hi => (h.blocks hi).1

/-- The objects of the lower row are the source's exactly when the source is below. -/
lemma MergePair.fromSource (h : MergePair G s t Llo Lhi) {i : ℕ}
    (hi : i ∈ liveSlots Llo ++ liveSlots Lhi) :
    (decide (i ∈ liveSlots Llo) == sourceBelow (G.pools s) (G.pools t)) =
        decide ((G.objects i).poolId = s)
      ∧ ((G.objects i).poolId = s ∨ (G.objects i).poolId = t) := by
  have hst := h.ne
  obtain ⟨-, -, hdisj⟩ := List.nodup_append.mp h.nodup
  have hlo : i ∈ liveSlots Llo → (G.objects i).poolId = lowerPool G s t :=
    fun hi => (h.lower.poolId hi).1
  have hhi : i ∈ liveSlots Lhi → (G.objects i).poolId = upperPool G s t :=
    fun hi => (h.upper.poolId hi).1
  have hnot : i ∈ liveSlots Lhi → i ∉ liveSlots Llo := fun hu hl => hdisj i hl i hu rfl
  rcases lower_upper G s t with ⟨hb, hl, hu⟩ | ⟨hb, hl, hu⟩
  · rw [hl] at hlo
    rw [hu] at hhi
    cases List.mem_append.mp hi with
    | inl hi => simp [hb, hi, hlo hi]
    | inr hi => simp [hb, hnot hi, hhi hi, Ne.symm hst]
  · rw [hl] at hlo
    rw [hu] at hhi
    cases List.mem_append.mp hi with
    | inl hi => simp [hb, hi, hlo hi, Ne.symm hst]
    | inr hi => simp [hb, hnot hi, hhi hi]

/-- What the execution loop of `merge` leaves. -/
structure MergeMoved (G E : GlobalState) (s t : ℕ) (lu : List ℕ) (plan : List MovePlanEntry) :
    Prop where
  rest : E = { G with mem := E.mem, objects := E.objects }
  mem : E.mem = run G.mem (plan.map (moveOf G.objects))
  other : ∀ i, i ∉ lu → E.objects i = G.objects i
  kept : ∀ i ∈ lu, Kept (G.objects i) (E.objects i)
  poolId : ∀ i ∈ lu, (E.objects i).poolId = t
  block : ∀ x ∈ plan, (E.objects x.slot).block = x.dst
  address : ∀ i ∈ lu, (E.objects i).address = (E.objects i).block + 8
    ∧ (E.objects i).block % 8 = 0
  desc : ∀ x ∈ plan, E.objects x.slot =
    mergeDesc t (decide ((G.objects x.slot).poolId = s)) x (G.objects x.slot)

lemma MergePair.moved (h : MergePair G s t Llo Lhi) :
    let lu := liveSlots Llo ++ liveSlots Lhi
    let plan := packAll G.objects lu (mergeStart G s t)
    MergeMoved G (mergeMoves G t (sourceBelow (G.pools s) (G.pools t)) (liveSlots Llo).length plan)
      s t lu plan := by
  dsimp only
  obtain ⟨-, -, hslots, hdst⟩ := h.plan
  obtain ⟨hE, hmem, hother, hself, -, -, hdesc⟩ := mergeMoves_spec hslots h.nodup
    (fun i hi => by
      obtain ⟨-, q, hd⟩ := h.blocks hi
      exact hd.address) t (sourceBelow (G.pools s) (G.pools t))
  generalize mergeMoves G t (sourceBelow (G.pools s) (G.pools t)) (liveSlots Llo).length
    (packAll G.objects (liveSlots Llo ++ liveSlots Lhi) (mergeStart G s t)) = E at *
  have hmem_slot : ∀ x ∈ packAll G.objects (liveSlots Llo ++ liveSlots Lhi) (mergeStart G s t),
      x.slot ∈ liveSlots Llo ++ liveSlots Lhi :=
    fun x hx => hslots ▸ List.mem_map_of_mem (f := (·.slot)) hx
  have hdesc' : ∀ x ∈ packAll G.objects (liveSlots Llo ++ liveSlots Lhi) (mergeStart G s t),
      E.objects x.slot =
        mergeDesc t (decide ((G.objects x.slot).poolId = s)) x (G.objects x.slot) := by
    intro x hx
    rw [hdesc x hx, (h.fromSource (hmem_slot x hx)).1]
  -- every slot has an entry
  have hentry : ∀ i ∈ liveSlots Llo ++ liveSlots Lhi,
      ∃ x ∈ packAll G.objects (liveSlots Llo ++ liveSlots Lhi) (mergeStart G s t), x.slot = i :=
    fun i hi => List.mem_map.mp (hslots.symm ▸ hi)
  refine ⟨hE, hmem, hother, fun i hi => ?_, fun i hi => ?_, fun x hx => (hself x hx).2.1,
    fun i hi => ?_, hdesc'⟩
  · obtain ⟨x, hx, rfl⟩ := hentry i hi
    exact (hself x hx).1
  · obtain ⟨x, hx, rfl⟩ := hentry i hi
    obtain ⟨-, q, hd⟩ := h.blocks hi
    rw [hdesc' x hx, (mergeDesc_spec hd.address).2.2.2]
    cases (h.fromSource hi).2 with
    | inl hs => rw [decide_eq_true hs, if_pos rfl]
    | inr ht => simp [ht]
  · obtain ⟨x, hx, rfl⟩ := hentry i hi
    obtain ⟨-, hb, ha⟩ := hself x hx
    rw [ha, hb]
    exact ⟨rfl, (hdst x hx).1⟩

/-- The state between the rebuilt list and the layout. -/
def mergeEntries (E : GlobalState) (s t : ℕ) (lu : List ℕ) : GlobalState :=
  ({ E with objects := relink E.objects noOrder lu }.setPool t { E.pools t with
    orderHead := lu.headD noOrder
    segmentFirst := (E.pools (lowerPool E s t)).segmentFirst
    segmentCount := (E.pools (lowerPool E s t)).segmentCount
      + (E.pools (upperPool E s t)).segmentCount
    liveObjects := lu.length }).setPool s { E.pools s with orderHead := noOrder }

/-- The rebuild is one layout of these entries. -/
lemma mergeRebuild_eq {E : GlobalState} (hadj : Adjacent E s t)
    (hsmall : (E.pools (upperPool E s t)).segmentFirst
      + (E.pools (upperPool E s t)).segmentCount < 2 ^ 16)
    {lu : List ℕ} {plan : List MovePlanEntry} (hslots : plan.map (·.slot) = lu) :
    mergeRebuild E s t lu plan =
      finalizeLayout (mergeEntries E s t lu) t (mergeStart E s t) (mergeStop E s t) lu := by
  have hmeet := hadj.meet
  have hcount : u16 ((E.pools s).segmentCount + (E.pools t).segmentCount) =
      (E.pools (lowerPool E s t)).segmentCount + (E.pools (upperPool E s t)).segmentCount := by
    rcases lower_upper E s t with ⟨-, hl, hu⟩ | ⟨-, hl, hu⟩
    · rw [hl, hu] at hmeet ⊢
      rw [hu] at hsmall
      exact u16_of_lt (by omega)
    · rw [hl, hu] at hmeet ⊢
      rw [hu] at hsmall
      rw [u16_of_lt (by omega), Nat.add_comm]
  have hfirst : (if sourceBelow (E.pools s) (E.pools t) then (E.pools s).segmentFirst
      else (E.pools t).segmentFirst) = (E.pools (lowerPool E s t)).segmentFirst := by
    rcases lower_upper E s t with ⟨hb, hl, -⟩ | ⟨hb, hl, -⟩
    · rw [hb, hl, if_pos rfl]
    · rw [hb, hl, if_neg (by simp)]
  have hlen : plan.length = lu.length := by rw [← hslots, List.length_map]
  rw [mergeRebuild, hslots, hcount, hfirst, hlen]
  rfl

omit [PmConfig] in
lemma mergeEntries_pools {E : GlobalState} {lu : List ℕ} (hst : s ≠ t) :
    (mergeEntries E s t lu).pools t = { E.pools t with
        orderHead := lu.headD noOrder
        segmentFirst := (E.pools (lowerPool E s t)).segmentFirst
        segmentCount := (E.pools (lowerPool E s t)).segmentCount
          + (E.pools (upperPool E s t)).segmentCount
        liveObjects := lu.length }
      ∧ ∀ q, q ≠ s → q ≠ t → (mergeEntries E s t lu).pools q = E.pools q := by
  rw [mergeEntries]
  simp only [GlobalState.setPool_pools]
  refine ⟨?_, fun q hqs hqt => ?_⟩
  · rw [Function.update_of_ne hst.symm, Function.update_self]
  · rw [Function.update_of_ne hqs, Function.update_of_ne hqt]

omit [PmConfig] in
/-- The rebuilt list changes links only. -/
lemma relink_block (obj : ℕ → ObjectDesc) (lu : List ℕ) (i : ℕ) :
    Kept (obj i) (relink obj noOrder lu i)
      ∧ (relink obj noOrder lu i).address = (obj i).address
      ∧ (relink obj noOrder lu i).block = (obj i).block
      ∧ (relink obj noOrder lu i).poolId = (obj i).poolId := by
  rw [(relink_links obj noOrder lu i).eq]
  exact ⟨⟨rfl, rfl, rfl, rfl, rfl, rfl, rfl, rfl, rfl⟩, rfl, rfl, rfl⟩

/-- After the moves the blocks stand in a row. -/
lemma MergePair.fits_moved (h : MergePair G s t Llo Lhi) {E : GlobalState}
    (hE : MergeMoved G E s t (liveSlots Llo ++ liveSlots Lhi)
      (packAll G.objects (liveSlots Llo ++ liveSlots Lhi) (mergeStart G s t))) :
    Fits (relink E.objects noOrder (liveSlots Llo ++ liveSlots Lhi)) (mergeStop G s t)
      (mergeStart G s t) (liveSlots Llo ++ liveSlots Lhi) := by
  obtain ⟨-, hpack, hslots, -⟩ := h.plan
  refine hpack.fits h.nodup h.fits le_rfl (fun x hx => ?_)
    (fun i hi hno => absurd (hslots.symm ▸ hi) hno) fun i hi => ?_
  · rw [(relink_block _ _ _).2.2.1]
    exact hE.block x hx
  · rw [(relink_block _ _ _).1.blockSize]
    exact (hE.kept i hi).blockSize

/-- The target is ready for `finalize_layout`. -/
lemma MergePair.rebuildable (h : MergePair G s t Llo Lhi) {E : GlobalState}
    (hE : MergeMoved G E s t (liveSlots Llo ++ liveSlots Lhi)
      (packAll G.objects (liveSlots Llo ++ liveSlots Lhi) (mergeStart G s t))) :
    Rebuildable (mergeEntries E s t (liveSlots Llo ++ liveSlots Lhi)) t (mergeStart G s t)
      (mergeStop G s t) (liveSlots Llo ++ liveSlots Lhi) (liveSlots Llo ++ liveSlots Lhi) := by
  have hfit := h.fits_moved hE
  have hmeet := h.adjacent.meet
  have hEz : SameZone G E := by
    rw [hE.rest]
    exact ⟨rfl, rfl, rfl, rfl, rfl⟩
  have hEpools : E.pools = G.pools := by rw [hE.rest]
  have hlower : lowerPool E s t = lowerPool G s t := by rw [lowerPool, lowerPool, hEpools]
  have hupper : upperPool E s t = upperPool G s t := by rw [upperPool, upperPool, hEpools]
  obtain ⟨hMt, -⟩ := @mergeEntries_pools s t E (liveSlots Llo ++ liveSlots Lhi) h.ne
  rw [hlower, hupper, hEpools] at hMt
  have hMz : SameZone G (mergeEntries E s t (liveSlots Llo ++ liveSlots Lhi)) :=
    hEz.trans ⟨rfl, rfl, rfl, rfl, rfl⟩
  have hMobj : (mergeEntries E s t (liveSlots Llo ++ liveSlots Lhi)).objects =
    relink E.objects noOrder (liveSlots Llo ++ liveSlots Lhi) := rfl
  have horder := @relink_isDList E.objects noOrder _ h.nodup
    fun i hi => slot_ne_noOrder (h.blocks hi).1.1
  have hre := relink_block E.objects (liveSlots Llo ++ liveSlots Lhi)
  generalize mergeEntries E s t (liveSlots Llo ++ liveSlots Lhi) = M at *
  generalize relink E.objects noOrder (liveSlots Llo ++ liveSlots Lhi) = obj at *
  -- relinking keeps what the moves have made of a descriptor
  have hkept : ∀ i ∈ liveSlots Llo ++ liveSlots Lhi, Kept (G.objects i) (obj i) :=
    fun i hi => (hE.kept i hi).trans (hre i).1
  have haddr : ∀ i ∈ liveSlots Llo ++ liveSlots Lhi, (obj i).address = (obj i).block + 8
      ∧ (obj i).block % 8 = 0 ∧ (obj i).poolId = t := by
    intro i hi
    rw [(hre i).2.1, (hre i).2.2.1, (hre i).2.2.2]
    exact ⟨(hE.address i hi).1, (hE.address i hi).2, hE.poolId i hi⟩
  have hstart : mergeStart G s t = poolStart M (M.pools t) := by
    rw [hMz.poolStart (P := G.pools (lowerPool G s t)) (by rw [hMt]), mergeStart]
  have hstop : mergeStop G s t = poolEnd M (M.pools t) := by
    rw [mergeStop, poolEnd, poolEnd, segBase, segBase, hMz.zone, hMz.segmentSize, hMt, hmeet]
    simp only [Nat.add_assoc]
  refine ⟨?_, ?_, hstart, hstop, ?_, ?_, fun i hi => ?_,
    fun i hi => ?_, h.nodup, ?_, ?_⟩
  · rw [hMt]
    exact Nat.add_pos_left h.lower.segPos _
  · rw [hMt, hMz.segmentCount]
    have := h.upper.segLe
    dsimp only
    omega
  · rw [hMobj]
    exact hfit.filter_inside
  · rw [hMobj]
    exact hfit
  · have hb := (h.blocks hi).1
    rw [hMobj, BlockOk, (hkept i hi).blockSize]
    exact ⟨hb.1, hb.2.1, hb.2.2.1, (haddr i hi).2.1⟩
  · obtain ⟨-, q, hd⟩ := h.blocks hi
    have hk := hkept i hi
    rw [hMobj]
    exact ⟨hk.state.trans hd.state, (haddr i hi).2.2, (haddr i hi).1, rfl,
      by rw [hk.size]; exact hd.sizePos, by rw [hk.size, hk.blockSize]; exact hd.sizeLe,
      by rw [hk.generation]; exact hd.generation⟩
  · rw [hMt, hMobj]
    exact horder
  · rw [hMt]

/-- What the rebuild of `merge` leaves: the target represents the packed row of both pools'
slots. -/
structure MergeRebuilt (G F : GlobalState) (s t : ℕ) (lu : List ℕ) : Prop where
  inv : PoolInv F t (packed F.objects (mergeStop G s t) (mergeStart G s t) lu)
  relocated : Relocated G F lu
  poolId : ∀ i ∈ lu, (F.objects i).poolId = t
  mem : ∀ z, ¬ InWindow G (lowerPool G s t) z → ¬ InWindow G (upperPool G s t) z →
    F.mem z = G.mem z
  window : MergedWindow G F s t
  zone : SameZone G F
  freeSlotHead : F.freeSlotHead = G.freeSlotHead
  liveObjectCount : F.liveObjectCount = G.liveObjectCount
  laidOut : LaidOut F t lu
  desc : ∀ x ∈ packAll G.objects lu (mergeStart G s t), SameButLinks
    (mergeDesc t (decide ((G.objects x.slot).poolId = s)) x (G.objects x.slot)) (F.objects x.slot)

/-- The rebuild of `merge` after its moves. -/
theorem mergeBody_spec (h : MergePair G s t Llo Lhi) :
    let lu := liveSlots Llo ++ liveSlots Lhi
    let plan := packAll G.objects lu (mergeStart G s t)
    let E := mergeMoves G t (sourceBelow (G.pools s) (G.pools t)) (liveSlots Llo).length plan
    MergeRebuilt G (mergeRebuild E s t lu plan) s t lu := by
  dsimp only
  obtain ⟨-, hpack, hslots, hdst⟩ := h.plan
  have hE := h.moved
  dsimp only at hE
  generalize mergeMoves G t (sourceBelow (G.pools s) (G.pools t)) (liveSlots Llo).length
    (packAll G.objects (liveSlots Llo ++ liveSlots Lhi) (mergeStart G s t)) = E at *
  have hfit := h.fits
  have hfit' := h.fits_moved hE
  have hready := h.rebuildable hE
  have hself := fun i => h.blocks (i := i)
  -- the moves leave the windows of both pools where they are
  have hEz : SameZone G E := by
    rw [hE.rest]
    exact ⟨rfl, rfl, rfl, rfl, rfl⟩
  have hEpools : E.pools = G.pools := by rw [hE.rest]
  have hlower : lowerPool E s t = lowerPool G s t := by rw [lowerPool, lowerPool, hEpools]
  have hupper : upperPool E s t = upperPool G s t := by rw [upperPool, upperPool, hEpools]
  have hstartE : mergeStart E s t = mergeStart G s t := by
    rw [mergeStart, mergeStart, hlower, hEpools]
    exact hEz.poolStart rfl
  have hstopE : mergeStop E s t = mergeStop G s t := by
    rw [mergeStop, mergeStop, hupper, hEpools]
    exact hEz.poolEnd (SameShape.refl _)
  have hadjE : Adjacent E s t := by
    rw [Adjacent, hEpools]
    exact h.adjacent
  have hsmall : (E.pools (upperPool E s t)).segmentFirst
      + (E.pools (upperPool E s t)).segmentCount < 2 ^ 16 := by
    have hle := h.upper.segLe
    have hzc := h.zone.count
    have hmax := PmConfig.maxSegments_le
    rw [hupper, hEpools]
    omega
  -- the rebuild: the entry of the merged pool and its object list, then the layout
  rw [mergeRebuild_eq hadjE hsmall hslots, hstartE, hstopE]
  obtain ⟨hMt, hMothers⟩ := @mergeEntries_pools s t E (liveSlots Llo ++ liveSlots Lhi) h.ne
  rw [hlower, hupper, hEpools] at hMt
  rw [hEpools] at hMothers
  have hMz : SameZone G (mergeEntries E s t (liveSlots Llo ++ liveSlots Lhi)) :=
    hEz.trans ⟨rfl, rfl, rfl, rfl, rfl⟩
  have hMf : (mergeEntries E s t (liveSlots Llo ++ liveSlots Lhi)).freeSlotHead = G.freeSlotHead
      ∧ (mergeEntries E s t (liveSlots Llo ++ liveSlots Lhi)).liveObjectCount =
        G.liveObjectCount := by
    rw [hE.rest]
    exact ⟨rfl, rfl⟩
  have hMobj : (mergeEntries E s t (liveSlots Llo ++ liveSlots Lhi)).objects =
    relink E.objects noOrder (liveSlots Llo ++ liveSlots Lhi) := rfl
  have hMmem : (mergeEntries E s t (liveSlots Llo ++ liveSlots Lhi)).mem = E.mem := rfl
  have hre := relink_block E.objects (liveSlots Llo ++ liveSlots Lhi)
  have hlinks := relink_links E.objects noOrder (liveSlots Llo ++ liveSlots Lhi)
  have hother : ∀ i, i ∉ liveSlots Llo ++ liveSlots Lhi →
      relink E.objects noOrder (liveSlots Llo ++ liveSlots Lhi) i = E.objects i :=
    fun i hi => relink_other hi
  generalize mergeEntries E s t (liveSlots Llo ++ liveSlots Lhi) = M at *
  obtain ⟨hinv, hframe⟩ := hready.finalize (h.zone.of_same hMz)
  have hlaid := @finalizeLayout_laidOut _ _ _ _ _ (liveSlots Llo ++ liveSlots Lhi) hready.startEq
    hready.stopEq
  obtain ⟨hFz, hFf, hFc⟩ := @finalizeLayout_rest _ M t (mergeStart G s t) (mergeStop G s t)
    (liveSlots Llo ++ liveSlots Lhi)
  have hFt := @finalizeLayout_entry _ M t (mergeStart G s t) (mergeStop G s t)
    (liveSlots Llo ++ liveSlots Lhi)
  have hFothers : ∀ q, q ≠ t → (finalizeLayout M t (mergeStart G s t) (mergeStop G s t)
      (liveSlots Llo ++ liveSlots Lhi)).pools q = M.pools q :=
    fun q hq => finalizeLayout_pools_ne hq
  have hFobj : (finalizeLayout M t (mergeStart G s t) (mergeStop G s t)
      (liveSlots Llo ++ liveSlots Lhi)).objects =
        relink E.objects noOrder (liveSlots Llo ++ liveSlots Lhi) :=
    finalizeLayout_objects.trans hMobj
  rw [hMobj] at hinv hframe
  rw [hMmem, hE.mem] at hframe
  generalize finalizeLayout M t (mergeStart G s t) (mergeStop G s t)
    (liveSlots Llo ++ liveSlots Lhi) = F at *
  generalize relink E.objects noOrder (liveSlots Llo ++ liveSlots Lhi) = obj at *
  generalize liveSlots Llo ++ liveSlots Lhi = lu at *
  have hkept : ∀ i ∈ lu, Kept (G.objects i) (obj i) :=
    fun i hi => (hE.kept i hi).trans (hre i).1
  have hin : ∀ x ∈ packAll G.objects lu (mergeStart G s t), (obj x.slot).block = x.dst :=
    fun x hx => (hre x.slot).2.2.1.trans (hE.block x hx)
  have hsafe := hpack.safe hfit
  refine ⟨by rw [hFobj]; exact hinv, ?_, fun i hi => ?_, fun z hz₁ hz₂ => ?_,
    ⟨?_, ?_, fun q hqs hqt => ?_⟩, hMz.trans hFz, hFf.trans hMf.1, hFc.trans hMf.2, hlaid,
    fun x hx => ?_⟩
  -- every block lies where the plan has put it, and its payload with it
  · refine relocated_of_plan hsafe (fun x hx => ⟨by rw [hFobj]; exact hin x hx,
      hslots ▸ List.mem_map_of_mem (f := (·.slot)) hx, (hpack.entry hx).2.2⟩)
      (fun x hx hp => (hdst x hx).2 hp) (fun i hi hno => absurd (hslots.symm ▸ hi) hno) hfit
      (by rw [hFobj]; exact hfit') (fun i hi => by rw [hFobj]; exact hkept i hi)
      (fun i hi => ?_) (fun i hi => ?_) (fun i hi k hk => ?_) fun i hi => ?_
    · obtain ⟨-, q, hd⟩ := hself i hi
      rw [hFobj, (hre i).2.1, (hre i).2.2.1]
      exact ⟨hd.address, (hE.address i hi).1⟩
    · obtain ⟨-, q, hd⟩ := hself i hi
      exact hd.sizeLe
    · refine hframe _ fun hm => ?_
      have hlive := (liveAt_packed hfit').mpr ⟨hi, rfl, rfl⟩
      obtain ⟨-, q, hd⟩ := hself i hi
      have hs := hd.sizeLe
      have hbs := (hkept i hi).blockSize
      rw [hFobj] at hm
      exact hm.not_body hinv.layout.pieces hlive ⟨by omega, by omega⟩
    · rw [hFobj, hother i hi, hE.other i hi]
  · rw [hFobj, (hre i).2.2.2]
    exact hE.poolId i hi
  -- neither the moves nor the layout write outside of the two windows
  · have h₁ : ¬ (poolStart G (G.pools (lowerPool G s t)) ≤ z
        ∧ z < poolEnd G (G.pools (lowerPool G s t))) := hz₁
    have h₂ : ¬ (poolStart G (G.pools (upperPool G s t)) ≤ z
        ∧ z < poolEnd G (G.pools (upperPool G s t))) := hz₂
    have hmeet := poolEnd_adjacent (G := G) h.adjacent.meet
    rw [← mergeStart] at h₁
    rw [← mergeStop] at h₂
    rw [hframe z]
    · refine run_other (fun y hy => ?_) _
      obtain ⟨x, hx, rfl⟩ := List.mem_map.mp hy
      have hxl : x.slot ∈ lu := hslots ▸ List.mem_map_of_mem (f := (·.slot)) hx
      have hb := hfit'.bounds hxl
      have hsz := (hpack.entry hx).2.2
      have hbs := (hkept x.slot hxl).blockSize
      rw [hin x hx] at hb
      simp only [moveOf]
      omega
    · intro hm
      have hb := hm.bounds hinv.layout.pieces
      rw [total_packed hfit'] at hb
      have hle := hfit'.le
      omega
  · rw [hFt.1, hMt]
  · rw [hFt.2.1, hMt]
  · rw [hFothers q hqt, hMothers q hqs hqt]
  · rw [hFobj, ← hE.desc x hx]
    exact hlinks x.slot

end Pair

end Body

/-! ### The audit -/

section Audit

variable {G : GlobalState} {s t : ℕ}

/-- The live slots of two pools fit the table. -/
lemma length_le_of_slots {l u : List ℕ} (hnd : (l ++ u).Nodup)
    (hlt : ∀ i ∈ l ++ u, i < pmMaxObjects) : u.length ≤ pmMaxObjects - l.length := by
  have hsub : l ++ u ⊆ List.range pmMaxObjects := fun i hi => List.mem_range.mpr (hlt i hi)
  have := (List.subperm_of_subset hnd hsub).length_le
  rw [List.length_append, List.length_range] at this
  omega

/-- The audit and the plan of `merge` on two healthy pools: they fail on undersized free
blocks only. -/
lemma mergeAudit_spec {Llo Lhi : List Piece} (h : MergePair G s t Llo Lhi) :
    (¬ (NoUndersized Llo ∧ NoUndersized Lhi) → mergeAudit G s t = .error .corruptMetadata)
    ∧ (NoUndersized Llo ∧ NoUndersized Lhi → mergeAudit G s t =
      .ok (liveSlots Llo, liveSlots Lhi,
        packAll G.objects (liveSlots Llo ++ liveSlots Lhi) (mergeStart G s t))) := by
  have hz := h.zone
  have hlo := h.lower
  have hhi := h.upper
  have hbar : barriersOk G (mergeStart G s t) (mergeStop G s t)
      (liveSlots Llo ++ liveSlots Lhi) = true := by
    have hmeet := poolEnd_adjacent (G := G) h.adjacent.meet
    have h₁ := hlo.fits.le
    have h₂ := hhi.fits.le
    have hl : barriersOk G (mergeStart G s t) (mergeStop G s t) (liveSlots Llo) = true :=
      hlo.barriers le_rfl (by rw [mergeStop]; omega)
    have hu : barriersOk G (mergeStart G s t) (mergeStop G s t) (liveSlots Lhi) = true :=
      hhi.barriers (by rw [mergeStart]; omega) le_rfl
    rw [barriersOk] at *
    rw [List.all_append, hl, hu]
    rfl
  -- the audits of the two pools are the audits of the lower and the upper one
  have hbins : ((PondMerge.auditPoolBins G (G.pools s)).isNone = true
      ∨ (PondMerge.auditPoolBins G (G.pools t)).isNone = true) ↔
      ¬ (NoUndersized Llo ∧ NoUndersized Lhi) := by
    have hone : ∀ q L, PoolInv G q L →
        ((PondMerge.auditPoolBins G (G.pools q)).isNone = true ↔ ¬ NoUndersized L) := by
      intro q L hq
      by_cases hmin : NoUndersized L
      · rw [hq.auditPoolBins hz hmin]
        simp [hmin]
      · refine iff_of_true ?_ hmin
        rw [NoUndersized] at hmin
        push Not at hmin
        obtain ⟨n, hn, hlt⟩ := hmin
        rw [hq.auditPoolBins_undersized hz hn hlt]
        rfl
    have hl := hone _ _ hlo
    have hu := hone _ _ hhi
    rcases lower_upper G s t with ⟨-, hls, hut⟩ | ⟨-, hlt, hus⟩
    · rw [hls] at hl
      rw [hut] at hu
      rw [hl, hu]
      exact not_and_or.symm
    · rw [hlt] at hl
      rw [hus] at hu
      rw [hl, hu]
      exact or_comm.trans not_and_or.symm
  obtain ⟨hplan, -⟩ := h.plan
  have haudit : mergeAudit G s t =
      if (PondMerge.auditPoolBins G (G.pools s)).isNone = true
        ∨ (PondMerge.auditPoolBins G (G.pools t)).isNone = true then .error .corruptMetadata
      else .ok (liveSlots Llo, liveSlots Lhi,
        packAll G.objects (liveSlots Llo ++ liveSlots Lhi) (mergeStart G s t)) := by
    rw [mergeStart, mergeStop] at hbar hplan
    rw [mergeAudit, hlo.precheck hz hlo.layout.length_le]
    dsimp only
    rw [hhi.precheck hz (length_le_of_slots h.nodup fun i hi => (h.blocks hi).1.1)]
    dsimp only
    split_ifs
    · rfl
    · rename_i hno
      rw [hbar] at hno
      simp at hno
    · rw [hplan]
      rfl
  refine ⟨fun hno => ?_, fun hyes => ?_⟩
  · rw [haudit, if_pos (hbins.mpr hno)]
  · rw [haudit, if_neg (fun hc => hbins.mp hc hyes)]

end Audit

/-! ### The operation -/

section Operation

variable {G : GlobalState} {Ls : ℕ → List Piece} {s t : ℕ}

/-- What `merge` demands of its arguments and of the two pools. -/
structure MergeReady (G : GlobalState) (s t : ℕ) : Prop where
  ne : s ≠ t
  source : Active G s
  target : Active G t
  sourceIdle : (G.pools s).borrowCount = 0
  targetIdle : (G.pools t).borrowCount = 0
  adjacent : Adjacent G s t

/-- The state behind the arming block of `merge`. -/
def mergeArmed (G : GlobalState) (s t : ℕ) : GlobalState :=
  (G.setPool s { G.pools s with state := .merging }).setPool t
    { G.pools t with state := .merging }

omit [PmConfig] in
lemma mergeArmed_pools (hst : s ≠ t) (q : ℕ) :
    (mergeArmed G s t).pools q =
      if q = s ∨ q = t then { G.pools q with state := .merging } else G.pools q := by
  rw [mergeArmed, GlobalState.setPool_pools, GlobalState.setPool_pools]
  by_cases hqt : q = t
  · subst hqt
    simp
  · rw [Function.update_of_ne hqt]
    by_cases hqs : q = s
    · subst hqs
      simp
    · simp [hqs, hqt]

omit [PmConfig] in
lemma mergeArmed_shape (hst : s ≠ t) (q : ℕ) :
    SameShape (G.pools q) ((mergeArmed G s t).pools q) := by
  rw [mergeArmed_pools hst]
  split_ifs
  · exact ⟨rfl, rfl, rfl, rfl, rfl, rfl, rfl, rfl⟩
  · exact SameShape.refl _

omit [PmConfig] in
lemma mergeArmed_lower (hst : s ≠ t) :
    sourceBelow ((mergeArmed G s t).pools s) ((mergeArmed G s t).pools t) =
        sourceBelow (G.pools s) (G.pools t)
      ∧ lowerPool (mergeArmed G s t) s t = lowerPool G s t
      ∧ upperPool (mergeArmed G s t) s t = upperPool G s t := by
  have hb : sourceBelow ((mergeArmed G s t).pools s) ((mergeArmed G s t).pools t) =
      sourceBelow (G.pools s) (G.pools t) := by
    simp [mergeArmed_pools hst, sourceBelow]
  rw [lowerPool, lowerPool, upperPool, upperPool, hb]
  exact ⟨rfl, rfl, rfl⟩

/-- The arming block of `merge` in a healthy state. -/
lemma mergeArm_healthy (h : GlobalInv G Ls) (hst : s ≠ t) :
    (MergeReady G s t → mergeArm G s t = (.ok, mergeArmed G s t))
      ∧ (¬ MergeReady G s t → ∃ st, mergeArm G s t = (st, G)
        ∧ (st = .invalidPool ∨ st = .busy ∨ st = .noSpace)) := by
  -- outside of a maintenance call an active pool is Running or Paused
  have hmaint : ∀ q, Active G q → poolMaintainable (G.pools q) = true := fun q hq => by
    rcases h.maintainable hq with hs | hs <;> simp [poolMaintainable, hs]
  constructor
  · intro hr
    rw [mergeArm, poolAt_eq_some.mpr ⟨hr.source, rfl⟩, poolAt_eq_some.mpr ⟨hr.target, rfl⟩]
    dsimp only
    have hadj : ¬ ((!sourceAbove (G.pools s) (G.pools t)) = true
        ∧ (!sourceBelow (G.pools s) (G.pools t)) = true) := by
      rcases hr.adjacent with hb | ha
      · simp [hb]
      · simp [ha]
    rw [if_neg (by simp [hmaint s hr.source, hmaint t hr.target]),
      if_neg (by simp [hr.sourceIdle, hr.targetIdle]), if_neg hadj]
    simp [mergeArmed, Ne.symm hst]
  · intro hno
    rw [mergeArm]
    by_cases hs : Active G s
    swap
    · rw [poolAt_eq_none.mpr hs]
      exact ⟨_, rfl, Or.inl rfl⟩
    by_cases ht : Active G t
    swap
    · rw [poolAt_eq_none.mpr ht, poolAt_eq_some.mpr ⟨hs, rfl⟩]
      exact ⟨_, rfl, Or.inl rfl⟩
    rw [poolAt_eq_some.mpr ⟨hs, rfl⟩, poolAt_eq_some.mpr ⟨ht, rfl⟩]
    dsimp only
    rw [if_neg (by simp [hmaint s hs, hmaint t ht])]
    split_ifs with h1 h2
    · exact ⟨_, rfl, Or.inr (Or.inl rfl)⟩
    · exact ⟨_, rfl, Or.inr (Or.inr rfl)⟩
    · exfalso
      refine hno ⟨hst, hs, ht, by tauto, by tauto, ?_⟩
      rw [Adjacent]
      by_contra hna
      rw [not_or] at hna
      simp only [Bool.not_eq_true] at hna
      exact h2 (by simp [hna.1, hna.2])

/-- What a successful `merge` has done. -/
structure Merged (G G' : GlobalState) (s t : ℕ) (l : List ℕ) (L' : List Piece) : Prop where
  slots : liveSlots L' = l
  freeGe : NoUndersized L'
  relocated : Relocated G G' l
  poolId : ∀ i ∈ l, (G'.objects i).poolId = t
  mem : ∀ z, ¬ InWindow G s z → ¬ InWindow G t z → G'.mem z = G.mem z
  pools : ∀ q, q ≠ s → q ≠ t → G'.pools q = G.pools q
  source : G'.pools s = Pool.zero
  running : (G'.pools t).state = .running

lemma MergeReady.lower_ne (hr : MergeReady G s t) : lowerPool G s t ≠ upperPool G s t := by
  rcases lower_upper G s t with ⟨-, hl, hu⟩ | ⟨-, hl, hu⟩
  · rw [hl, hu]
    exact hr.ne
  · rw [hl, hu]
    exact hr.ne.symm

lemma MergeReady.active (hr : MergeReady G s t) :
    Active G (lowerPool G s t) ∧ Active G (upperPool G s t) := by
  rcases lower_upper G s t with ⟨-, hl, hu⟩ | ⟨-, hl, hu⟩
  · rw [hl, hu]
    exact ⟨hr.source, hr.target⟩
  · rw [hl, hu]
    exact ⟨hr.target, hr.source⟩

/-- The live slots of both pools, the lower one's first. -/
def mergeSlots (G : GlobalState) (Ls : ℕ → List Piece) (s t : ℕ) : List ℕ :=
  liveSlots (Ls (lowerPool G s t)) ++ liveSlots (Ls (upperPool G s t))

omit [PmConfig] in
lemma mem_mergeSlots {i : ℕ} :
    i ∈ mergeSlots G Ls s t ↔ i ∈ liveSlots (Ls s) ∨ i ∈ liveSlots (Ls t) := by
  rw [mergeSlots, List.mem_append]
  rcases lower_upper G s t with ⟨-, hl, hu⟩ | ⟨-, hl, hu⟩
  · rw [hl, hu]
  · rw [hl, hu, or_comm]

lemma mergeSlots_nodup (h : GlobalInv G Ls) (hr : MergeReady G s t) :
    (mergeSlots G Ls s t).Nodup := by
  obtain ⟨hlo, hhi⟩ := hr.active
  refine List.nodup_append.mpr ⟨(h.pool _ hlo).layout.nodup, (h.pool _ hhi).layout.nodup,
    fun i hi j hj heq => ?_⟩
  subst heq
  exact hr.lower_ne (h.slots_apart hlo hhi hi hj)

lemma PoolInv.mergeArmed {q : ℕ} {L : List Piece} (hst : s ≠ t) (h : PoolInv G q L) :
    PoolInv (PondMerge.mergeArmed G s t) q L :=
  h.congr ⟨rfl, rfl, rfl, rfl, rfl⟩ (mergeArmed_shape hst q) (fun _ _ => SameBlock.refl _)
    fun _ _ => rfl

omit [PmConfig] in
/-- `fail_restore` undoes the arming block. -/
lemma mergeRestore_armed (hst : s ≠ t) :
    mergeRestore (mergeArmed G s t) s t (G.pools s).state (G.pools t).state = G := by
  have hpools : (mergeRestore (mergeArmed G s t) s t (G.pools s).state (G.pools t).state).pools =
      G.pools := by
    funext q
    rw [mergeRestore, GlobalState.setPool_pools, GlobalState.setPool_pools]
    by_cases hqt : q = t
    · subst hqt
      rw [Function.update_self, Function.update_of_ne (Ne.symm hst), mergeArmed_pools hst,
        if_pos (Or.inr rfl)]
    · rw [Function.update_of_ne hqt]
      by_cases hqs : q = s
      · subst hqs
        rw [Function.update_self, mergeArmed_pools hst, if_pos (Or.inl rfl)]
      · rw [Function.update_of_ne hqs, mergeArmed_pools hst, if_neg (by tauto)]
  refine GlobalState.ext rfl rfl rfl rfl hpools rfl rfl rfl rfl rfl rfl rfl rfl rfl rfl

omit [PmConfig] in
/-- The commit of `merge`. -/
lemma mergeCommit_pools (F : GlobalState) (hst : s ≠ t) :
    (mergeCommit F s t).pools s = Pool.zero
      ∧ SameShape (F.pools t) ((mergeCommit F s t).pools t)
      ∧ ((mergeCommit F s t).pools t).state = .running
      ∧ ∀ q, q ≠ s → q ≠ t → (mergeCommit F s t).pools q = F.pools q := by
  simp only [mergeCommit, GlobalState.setPool_pools]
  refine ⟨?_, ?_, ?_, fun q hqs hqt => ?_⟩
  · rw [Function.update_of_ne hst, Function.update_self]
  · rw [Function.update_self, Function.update_of_ne hst.symm]
    exact ⟨rfl, rfl, rfl, rfl, rfl, rfl, rfl, rfl⟩
  · rw [Function.update_self]
  · rw [Function.update_of_ne hqt, Function.update_of_ne hqs]

omit [PmConfig] in
/-- A window that meets neither of two adjacent windows does not meet their union. -/
lemma SegmentsApart.union {P Q R T : Pool} (hP : SegmentsApart P R) (hQ : SegmentsApart Q R)
    (hmeet : Q.segmentFirst = P.segmentFirst + P.segmentCount) (hpos : 0 < R.segmentCount)
    (hfirst : T.segmentFirst = P.segmentFirst)
    (hcount : T.segmentCount = P.segmentCount + Q.segmentCount) : SegmentsApart T R := by
  rw [SegmentsApart] at *
  omega

/-- Behind the arming block both pools still represent their layouts. -/
lemma MergeReady.pair (h : GlobalInv G Ls) (hr : MergeReady G s t) :
    MergePair (mergeArmed G s t) s t (Ls (lowerPool G s t)) (Ls (upperPool G s t)) := by
  have hst := hr.ne
  obtain ⟨-, hlow, hupp⟩ := mergeArmed_lower (G := G) hst
  obtain ⟨halo, hahi⟩ := hr.active
  refine ⟨h.zone.of_same ⟨rfl, rfl, rfl, rfl, rfl⟩, hst, ?_, ?_, ?_, mergeSlots_nodup h hr⟩
  · have := hr.adjacent
    rw [Adjacent, sourceBelow, sourceAbove] at this ⊢
    rwa [(mergeArmed_shape hst s).segmentFirst, (mergeArmed_shape hst s).segmentCount,
      (mergeArmed_shape hst t).segmentFirst, (mergeArmed_shape hst t).segmentCount]
  · rw [hlow]
    exact (h.pool _ halo).mergeArmed hst
  · rw [hupp]
    exact (h.pool _ hahi).mergeArmed hst

omit [PmConfig] in
/-- The arming block moves no window. -/
lemma mergeArmed_window (hst : s ≠ t) :
    mergeStart (mergeArmed G s t) s t = mergeStart G s t
      ∧ mergeStop (mergeArmed G s t) s t = mergeStop G s t
      ∧ ∀ q z, InWindow (mergeArmed G s t) q z ↔ InWindow G q z := by
  obtain ⟨-, hlow, hupp⟩ := mergeArmed_lower (G := G) hst
  have hz : SameZone G (mergeArmed G s t) := ⟨rfl, rfl, rfl, rfl, rfl⟩
  have hshape := mergeArmed_shape (G := G) hst
  refine ⟨?_, ?_, fun q z => ?_⟩
  · rw [mergeStart, mergeStart, hlow]
    exact hz.poolStart (hshape _).segmentFirst
  · rw [mergeStop, mergeStop, hupp]
    exact hz.poolEnd (hshape _)
  · rw [InWindow, InWindow, hz.poolStart (hshape q).segmentFirst, hz.poolEnd (hshape q)]

/-- The run of a `merge` that goes through. -/
structure MergeRun (G G' : GlobalState) (s t : ℕ) (l : List ℕ) (L' : List Piece) : Prop where
  layout : L' = packed G'.objects (mergeStop G s t) (mergeStart G s t) l
  start : poolStart G' (G'.pools t) = mergeStart G s t
  stop : poolEnd G' (G'.pools t) = mergeStop G s t
  laidOut : LaidOut G' t l
  desc : ∀ x ∈ packAll G.objects l (mergeStart G s t), SameButLinks
    (mergeDesc t (decide ((G.objects x.slot).poolId = s)) x (G.objects x.slot)) (G'.objects x.slot)

/-- The commit of a rebuilt merge: the target takes the place of both pools. -/
lemma mergeCommit_inv (h : GlobalInv G Ls) (hr : MergeReady G s t) {F : GlobalState}
    (hF : MergeRebuilt (mergeArmed G s t) F s t (mergeSlots G Ls s t)) :
    let L' := packed F.objects (mergeStop G s t) (mergeStart G s t) (mergeSlots G Ls s t)
    GlobalInv (mergeCommit F s t) (Function.update Ls t L')
      ∧ Merged G (mergeCommit F s t) s t (mergeSlots G Ls s t) L'
      ∧ MergeRun G (mergeCommit F s t) s t (mergeSlots G Ls s t) L' := by
  dsimp only
  have hst := hr.ne
  obtain ⟨halo, hahi⟩ := hr.active
  obtain ⟨-, hlow, hupp⟩ := mergeArmed_lower (G := G) hst
  obtain ⟨hstart, hstop, hwinq⟩ := mergeArmed_window (G := G) hst
  have hinv := hF.inv
  have hdesc := hF.desc
  have hmem := hF.mem
  rw [hstart] at hinv hdesc
  rw [hstop] at hinv
  rw [hlow, hupp] at hmem
  have hwin := hF.window
  have hslots' : liveSlots (packed F.objects (mergeStop G s t) (mergeStart G s t)
      (mergeSlots G Ls s t)) = mergeSlots G Ls s t := liveSlots_packed
  have hfree : NoUndersized (packed F.objects (mergeStop G s t) (mergeStart G s t)
      (mergeSlots G Ls s t)) := fun n hn => packed_free_ge hn
  generalize hL : packed F.objects (mergeStop G s t) (mergeStart G s t)
    (mergeSlots G Ls s t) = L' at *
  -- the commit empties the source and sets the target Running
  obtain ⟨hCs, hCt, hCrun, hCq⟩ := mergeCommit_pools F hst
  have hCz : SameZone F (mergeCommit F s t) := ⟨rfl, rfl, rfl, rfl, rfl⟩
  have hCobj : (mergeCommit F s t).objects = F.objects := rfl
  have hCmem : (mergeCommit F s t).mem = F.mem := rfl
  have hCf : (mergeCommit F s t).freeSlotHead = F.freeSlotHead
      ∧ (mergeCommit F s t).liveObjectCount = F.liveObjectCount := ⟨rfl, rfl⟩
  generalize mergeCommit F s t = C at *
  have hGz : SameZone G C := by
    have harmz : SameZone G (mergeArmed G s t) := ⟨rfl, rfl, rfl, rfl, rfl⟩
    exact (harmz.trans hF.zone).trans hCz
  have hCothers : ∀ q, q ≠ s → q ≠ t → C.pools q = G.pools q := by
    intro q hqs hqt
    rw [hCq q hqs hqt, hwin.others q hqs hqt, mergeArmed_pools hst, if_neg (by tauto)]
  have hCinv : PoolInv C t L' := hinv.congr hCz hCt
    (fun i _ => by rw [hCobj]; exact SameBlock.refl _) fun z _ => by rw [hCmem]
  have hmemC : ∀ z, ¬ InWindow G s z → ¬ InWindow G t z → C.mem z = G.mem z := by
    intro z hs ht
    rw [hCmem]
    rcases lower_upper G s t with ⟨-, hl, hu⟩ | ⟨-, hl, hu⟩
    · refine hmem z ?_ ?_
      · rwa [hwinq, hl]
      · rwa [hwinq, hu]
    · refine hmem z ?_ ?_
      · rwa [hwinq, hl]
      · rwa [hwinq, hu]
  have hrelC : Relocated G C (mergeSlots G Ls s t) :=
    hF.relocated.congr rfl rfl hCobj hCmem
  -- the merged window is made of the lower and the upper one
  have hfirst : (C.pools t).segmentFirst = (G.pools (lowerPool G s t)).segmentFirst := by
    rw [hCt.segmentFirst, hwin.first, hlow, (mergeArmed_shape hst _).segmentFirst]
  have hcount : (C.pools t).segmentCount = (G.pools (lowerPool G s t)).segmentCount
      + (G.pools (upperPool G s t)).segmentCount := by
    rw [hCt.segmentCount, hwin.count, hlow, hupp, (mergeArmed_shape hst _).segmentCount,
      (mergeArmed_shape hst _).segmentCount]
  have hstates : ∀ i, (C.objects i).state = (G.objects i).state
      ∧ (C.objects i).nextFreeSlot = (G.objects i).nextFreeSlot := by
    intro i
    by_cases hi : i ∈ mergeSlots G Ls s t
    · exact ⟨(hrelC.kept i hi).state, (hrelC.kept i hi).nextFreeSlot⟩
    · rw [hrelC.other i hi]
      exact ⟨rfl, rfl⟩
  have hactt : Active C t := ⟨hr.target.1, by rw [hCrun]; simp⟩
  have hnots : ∀ q, Active C q → q ≠ s := by
    rintro q hq rfl
    exact hq.2 (by rw [hCs]; rfl)
  have hactq : ∀ q, q ≠ s → q ≠ t → (Active C q ↔ Active G q) := by
    intro q hqs hqt
    rw [Active, Active, hCothers q hqs hqt]
  refine ⟨?_, ⟨hslots', hfree, hrelC, fun i hi => by rw [hCobj]; exact hF.poolId i hi, hmemC,
    hCothers, hCs, hCrun⟩, ⟨by rw [hCobj, hL], hGz.poolStart hfirst, ?_,
    hF.laidOut.congr hCz hCt hCobj fun z _ => by rw [hCmem], fun x hx => ?_⟩⟩
  -- `s` and `t` give way to `t`, and no other pool changes
  · refine h.replace (A := fun q => q = s ∨ q = t) hGz
      (fun q hq => hCothers q (fun e => hq (Or.inl e)) (fun e => hq (Or.inr e)))
      (fun q hq => Function.update_of_ne (fun e => hq (Or.inr e)) _ _) (fun q hq => ?_)
      (fun q hq hqa => ?_) (fun q r hq hqa hra hqr => ?_) (fun q hq hqa i hi => ?_)
      (fun q hq hqa z hz => hmemC z (h.window_apart hqa hr.source (fun e => hq (Or.inl e)) hz)
        (h.window_apart hqa hr.target (fun e => hq (Or.inr e)) hz)) (fun i hi hl => ?_)
      (fun i hi => ?_) ?_
    · rcases hq with rfl | rfl
      · exact Or.inl hCs
      · exact Or.inr (Or.inl hCrun)
    · obtain rfl : q = t := hq.resolve_left (hnots q hqa)
      rw [Function.update_self]
      exact hCinv
    · obtain rfl : q = t := hq.resolve_left (hnots q hqa)
      have hrs := hnots r hra
      have hrG := (hactq r hrs (Ne.symm hqr)).mp hra
      have hlne : lowerPool G s q ≠ r ∧ upperPool G s q ≠ r := by
        rcases lower_upper G s q with ⟨-, hl, hu⟩ | ⟨-, hl, hu⟩
        · rw [hl, hu]
          exact ⟨Ne.symm hrs, hqr⟩
        · rw [hl, hu]
          exact ⟨hqr, Ne.symm hrs⟩
      rw [hCothers r hrs (Ne.symm hqr)]
      exact (h.apart _ r halo hrG hlne.1).union (h.apart _ r hahi hrG hlne.2) hr.adjacent.meet
        (h.pool r hrG).segPos hfirst hcount
    · have hni : i ∉ mergeSlots G Ls s t := by
        rw [mem_mergeSlots, not_or]
        exact ⟨fun hm => hq (Or.inl (h.slots_apart hqa hr.source hi hm)),
          fun hm => hq (Or.inr (h.slots_apart hqa hr.target hi hm))⟩
      rw [hrelC.other i hni]
      exact SameBlock.refl _
    · by_cases hm : i ∈ mergeSlots G Ls s t
      · exact ⟨t, hactt, by rwa [Function.update_self, hslots']⟩
      · rw [(hstates i).1] at hl
        obtain ⟨q, hq, hqm⟩ := h.owned i hi hl
        have hqs : q ≠ s := fun e => hm (mem_mergeSlots.mpr (Or.inl (e ▸ hqm)))
        have hqt : q ≠ t := fun e => hm (mem_mergeSlots.mpr (Or.inr (e ▸ hqm)))
        exact ⟨q, (hactq q hqs hqt).mpr hq, by rwa [Function.update_of_ne hqt]⟩
    · rw [(hstates i).1]
      exact h.idle i hi
    · exact h.slots.congr (fun i => (hstates i).1) (fun i => (hstates i).2)
        (hCf.1.trans hF.freeSlotHead) (hCf.2.trans hF.liveObjectCount)
  · rw [mergeStop, poolEnd, poolEnd, segBase, segBase, hGz.zone, hGz.segmentSize, hfirst, hcount,
      hr.adjacent.meet, Nat.add_assoc (G.pools (lowerPool G s t)).segmentFirst]
  · rw [hCobj]
    exact hdesc x hx

/-- The two pools hold no undersized free block, whichever is the lower one. -/
lemma noUndersized_lower :
    (NoUndersized (Ls (lowerPool G s t)) ∧ NoUndersized (Ls (upperPool G s t))) ↔
      (NoUndersized (Ls s) ∧ NoUndersized (Ls t)) := by
  rcases lower_upper G s t with ⟨-, hl, hu⟩ | ⟨-, hl, hu⟩
  · rw [hl, hu]
  · rw [hl, hu, and_comm]

/-- A `merge` that has armed its pools. -/
lemma merge_armed {G₁ : GlobalState} (hinit : G.initialized = true) (hst : s ≠ t)
    (harm : mergeArm G s t = (.ok, G₁)) :
    merge G s t =
      match mergeAudit G₁ s t with
      | .error e => (e, mergeRestore G₁ s t (G.pools s).state (G.pools t).state)
      | .ok (l, u, plan) => (.ok, mergeCommit (mergeRebuild (mergeMoves G₁ t
          (sourceBelow (G₁.pools s) (G₁.pools t)) l.length plan) s t (l ++ u) plan) s t) := by
  rewrite [merge, if_neg (by simp [hinit]), if_neg hst, harm]
  rfl

/-- `merge` of two adjacent pools without borrows and undersized free blocks runs through. -/
theorem merge_run (h : GlobalInv G Ls) (hr : MergeReady G s t)
    (hmin : NoUndersized (Ls s) ∧ NoUndersized (Ls t)) :
    ∃ G' L', merge G s t = (.ok, G') ∧ GlobalInv G' (Function.update Ls t L')
      ∧ Merged G G' s t (mergeSlots G Ls s t) L' ∧ MergeRun G G' s t (mergeSlots G Ls s t) L' := by
  have hpair := hr.pair h
  have haudit := (mergeAudit_spec hpair).2 (noUndersized_lower.mpr hmin)
  have hbody := mergeBody_spec hpair
  have hmerge : merge G s t = (.ok, mergeCommit (mergeRebuild (mergeMoves (mergeArmed G s t) t
      (sourceBelow ((mergeArmed G s t).pools s) ((mergeArmed G s t).pools t))
      (liveSlots (Ls (lowerPool G s t))).length
      (packAll (mergeArmed G s t).objects (mergeSlots G Ls s t)
        (mergeStart (mergeArmed G s t) s t)))
      s t (mergeSlots G Ls s t) (packAll (mergeArmed G s t).objects (mergeSlots G Ls s t)
        (mergeStart (mergeArmed G s t) s t))) s t) := by
    rw [merge_armed h.zone.init hr.ne ((mergeArm_healthy h hr.ne).1 hr), haudit]
    rfl
  exact ⟨_, _, hmerge, mergeCommit_inv h hr hbody⟩

/-- `merge` of two adjacent pools without borrows and undersized free blocks succeeds. -/
theorem merge_ok (h : GlobalInv G Ls) (hr : MergeReady G s t)
    (hmin : NoUndersized (Ls s) ∧ NoUndersized (Ls t)) :
    ∃ G' L', merge G s t = (.ok, G') ∧ GlobalInv G' (Function.update Ls t L')
      ∧ Merged G G' s t (mergeSlots G Ls s t) L' := by
  obtain ⟨G', L', heq, hinv, hmerged, -⟩ := merge_run h hr hmin
  exact ⟨G', L', heq, hinv, hmerged⟩

/-- Any other `merge` is refused and changes nothing; the state is called corrupt only where
a pool holds an undersized free block. -/
theorem merge_refused (h : GlobalInv G Ls)
    (hno : ¬ (MergeReady G s t ∧ NoUndersized (Ls s) ∧ NoUndersized (Ls t))) :
    ∃ st, merge G s t = (st, G) ∧ st ≠ .ok
      ∧ (st = .corruptMetadata ↔ MergeReady G s t) := by
  rw [merge, if_neg (by simp [h.zone.init])]
  by_cases hst : s = t
  · rw [if_pos hst]
    exact ⟨_, rfl, by decide, iff_of_false (by decide) fun hr => hr.ne hst⟩
  rw [if_neg hst]
  by_cases hr : MergeReady G s t
  swap
  · obtain ⟨st, harm, hcases⟩ := (mergeArm_healthy h hst).2 hr
    rw [harm]
    refine ⟨st, ?_, ?_, iff_of_false ?_ hr⟩
    · rcases hcases with rfl | rfl | rfl <;> rfl
    · rcases hcases with rfl | rfl | rfl <;> decide
    · rcases hcases with rfl | rfl | rfl <;> decide
  have haudit := (mergeAudit_spec (hr.pair h)).1 fun hm => hno ⟨hr, noUndersized_lower.mp hm⟩
  refine ⟨.corruptMetadata, ?_, by decide, iff_of_true rfl hr⟩
  rw [(mergeArm_healthy h hst).1 hr]
  dsimp only
  rw [haudit, mergeRestore_armed hst]

lemma merge_asked (h : GlobalInv G Ls) (hok : (merge G s t).1 = .ok) :
    MergeReady G s t ∧ NoUndersized (Ls s) ∧ NoUndersized (Ls t) := by
  by_contra hno
  obtain ⟨st, heq, hne, -⟩ := merge_refused h hno
  rw [heq] at hok
  exact hne hok

/-- `merge` keeps the invariant. -/
theorem merge_inv (h : GlobalInv G Ls) (s t : ℕ) : ∃ Ls', GlobalInv (merge G s t).2 Ls' := by
  by_cases hyes : MergeReady G s t ∧ NoUndersized (Ls s) ∧ NoUndersized (Ls t)
  · obtain ⟨G', L', heq, hinv, -⟩ := merge_ok h hyes.1 hyes.2
    exact ⟨_, by rw [heq]; exact hinv⟩
  · obtain ⟨st, heq, -, -⟩ := merge_refused h hyes
    exact ⟨Ls, by rw [heq]; exact h⟩

end Operation

end PondMerge
