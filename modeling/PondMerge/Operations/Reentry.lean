import PondMerge.Operations.Bystanders

/-!
Runs whose destroy callbacks re-enter the library.

* `Underway`: the state is a healthy one, of which the objects `D` are being destroyed.
* `Underway.step`, `Underway.free`: every operation leaves such a state, and none disturbs the
  objects `D`; a `free` with a callback does so if its callback does.
* `Underway.run`, `Underway.visits`: every script, and every state inside it.
-/

namespace PondMerge

open ByteMemory Tiling

variable [PmConfig]

/-- The states of the objects of `G`, the objects `D` being destroyed. -/
def dyingStates (D : List ℕ) (G : GlobalState) (i : ℕ) : ObjState :=
  if i ∈ D then .destroying else (G.objects i).state

/-- `G` is the healthy state `H`, of which the objects `D` are being destroyed. -/
structure Underway (D : List ℕ) (G H : GlobalState) : Prop where
  eq : G = restate (dyingStates D H) H
  healthy : Healthy H
  live : ∀ i ∈ D, i < pmMaxObjects ∧ (H.objects i).state = .live

section Facts

variable {D : List ℕ} {G H H' : GlobalState} {i : ℕ}

/-- A settled state is one without objects being destroyed. -/
lemma Underway.of_healthy (h : Healthy G) : Underway [] G G := by
  refine ⟨?_, h, fun i hi => absurd hi List.not_mem_nil⟩
  have hstates : dyingStates [] G = fun i => (G.objects i).state := by
    funext i
    exact if_neg List.not_mem_nil
  rw [hstates, restate_state]

lemma Underway.object (u : Underway D G H) (i : ℕ) :
    G.objects i = { H.objects i with state := dyingStates D H i } := by
  rw [u.eq]
  rfl

lemma Underway.dying (u : Underway D G H) (hi : i ∈ D) : (G.objects i).state = .destroying := by
  rw [u.object]
  exact if_pos hi

lemma Underway.same (u : Underway D G H) (hi : i ∉ D) : G.objects i = H.objects i := by
  rw [u.object, dyingStates, if_neg hi]

lemma Underway.not_mem (u : Underway D G H) (hl : (G.objects i).state = .live) : i ∉ D := by
  intro hi
  rw [u.dying hi] at hl
  cases hl

omit [PmConfig] in
/-- Objects being destroyed are not alive. -/
lemma dyingStates_live (D : List ℕ) (H : GlobalState) (i : ℕ)
    (hi : dyingStates D H i = .live) : (H.objects i).state = .live := by
  rw [dyingStates] at hi
  split_ifs at hi
  exact hi

/-- A step over the same objects being destroyed. -/
lemma Underway.of_step {G' : GlobalState} (u : Underway D G H)
    (hG : G' = restate (dyingStates D H') H') (hh : Healthy H') (hs : ∀ i ∈ D, Stays H H' i) :
    Underway D G' H' :=
  ⟨hG, hh, fun i hi => ⟨(u.live i hi).1, (hs i hi).object.state.trans (u.live i hi).2⟩⟩

omit [PmConfig] in
/-- A step that writes no states. -/
lemma dyingStates_eq (D : List ℕ) (h : restate (fun i => (H.objects i).state) H' = H') :
    dyingStates D H' = dyingStates D H := by
  funext i
  rw [dyingStates, dyingStates, ← h]
  rfl

/-- `G'` is reached from a state over `H`, with the objects `D` still being destroyed and
undisturbed. -/
def Proceeds (D : List ℕ) (H G' : GlobalState) : Prop :=
  ∃ H', Underway D G' H' ∧ ∀ i ∈ D, Stays H H' i

lemma Underway.stays_refl (u : Underway D G H) : ∀ i ∈ D, Stays H H i := fun i hi => by
  obtain ⟨Ls, h⟩ := u.healthy
  exact h.stays_refl (u.live i hi).1 (u.live i hi).2

lemma Underway.proceeds_refl (u : Underway D G H) : Proceeds D H G := ⟨H, u, u.stays_refl⟩

lemma Proceeds.trans {G₁ G₂ : GlobalState} (h : Proceeds D H G₁)
    (hnext : ∀ H₁, Underway D G₁ H₁ → Proceeds D H₁ G₂) : Proceeds D H G₂ := by
  obtain ⟨H₁, u₁, hs₁⟩ := h
  obtain ⟨H₂, u₂, hs₂⟩ := hnext H₁ u₁
  exact ⟨H₂, u₂, fun i hi => (hs₁ i hi).trans (hs₂ i hi)⟩

/-- A step that writes no states. -/
lemma Underway.proceeds {G' : GlobalState} (u : Underway D G H) (H' : GlobalState)
    (hG : G' = restate (dyingStates D H) H')
    (hself : restate (fun i => (H.objects i).state) H' = H') (hh : Healthy H')
    (hs : ∀ i ∈ D, Stays H H' i) : Proceeds D H G' :=
  ⟨H', u.of_step (by rw [hG, dyingStates_eq D hself]) hh hs, hs⟩

end Facts

/-! ### The operations -/

section Steps

variable {D : List ℕ} {G H : GlobalState}

/-- A reference to an object that is not alive is refused. -/
lemma checkRef_not_live {ref : RawRef} (hl : (G.objects ref.index).state ≠ .live) (n a : ℕ)
    (rr : Bool) : ∃ e, checkRef G ref n a rr = .error e := by
  cases hck : checkRef G ref n a rr with
  | error e => exact ⟨e, rfl⟩
  | ok addr => exact absurd (checkRef_ok hck).1.live hl

lemma borrowEndOk_not_live {ref : RawRef} (hl : (G.objects ref.index).state ≠ .live) :
    borrowEndOk G ref = false := by
  rw [borrowEndOk]
  simp [hl]

lemma Underway.not_live (u : Underway D G H) {i : ℕ} (hi : i ∈ D) :
    (G.objects i).state ≠ .live := by
  rw [u.dying hi]
  decide

/-- `alloc` takes a free slot, none that is being destroyed. -/
lemma Underway.alloc (u : Underway D G H) (p size alignment flags tag : ℕ) :
    Proceeds D H (alloc G p size alignment flags tag).2.2 := by
  obtain ⟨Ls, h⟩ := u.healthy
  have hG := alloc_restate (dyingStates D H) H p size alignment flags tag
  have hself := alloc_restate (fun i => (H.objects i).state) H p size alignment flags tag
  rw [restate_state] at hself
  rw [← u.eq] at hG
  have hs := fun i hi => alloc_stays h (u.live i hi).1 (u.live i hi).2 p size alignment flags tag
  have hh := alloc_healthy_step h p size alignment flags tag
  rcases alloc_cases H p size alignment flags tag with ⟨st, hst, heq⟩ | ⟨need, blk, ha, heq⟩
  · rw [heq] at hG hs hh hself
    simp only [allocStates, if_neg hst] at hG hself
    rw [hG]
    exact u.proceeds _ rfl (congrArg (fun r => r.2.2) hself).symm hh hs
  · have hslot : H.freeSlotHead ∉ D := fun hm => by
      have hlive := (u.live _ hm).2
      rw [(h.slots.head_free ha.slot).2] at hlive
      cases hlive
    rw [heq] at hG hs hh hself
    simp only [allocStates, if_true] at hG hself
    refine ⟨_, u.of_step ?_ hh hs, hs⟩
    rw [hG]
    have hstate (i : ℕ) : ((allocCommit (popSlot H) p H.freeSlotHead blk need size
        (allocFlags flags) tag).objects i).state =
          Function.update (fun j => (H.objects j).state) H.freeSlotHead .live i :=
      congrArg (fun r => (r.2.2.objects i).state) hself
    refine congrArg (fun σ => restate σ _) (funext fun i => ?_)
    rw [dyingStates, hstate]
    by_cases hi : i = H.freeSlotHead
    · rw [hi, Function.update_self, Function.update_self, if_neg hslot]
    · rw [Function.update_of_ne hi, Function.update_of_ne hi, dyingStates]

/-- `set_destroy_fn` refuses the objects being destroyed. -/
lemma Underway.setDestroyFn (u : Underway D G H) (ref : RawRef) (fn : Option ℕ) :
    Proceeds D H (setDestroyFn G ref fn).2 := by
  obtain ⟨Ls, h⟩ := u.healthy
  by_cases hm : ref.index ∈ D
  · obtain ⟨e, hck⟩ := checkRef_not_live (u.not_live hm) 0 1 false
    rw [PondMerge.setDestroyFn, hck]
    exact u.proceeds_refl
  · have hF := fun σ (hσ : σ ref.index = (H.objects ref.index).state) =>
      congrArg Prod.snd (setDestroyFn_restate σ H hσ fn)
    refine u.proceeds ((PondMerge.setDestroyFn H ref fn).2) ?_ (hF _ rfl).symm
      ⟨Ls, setDestroyFn_inv h ref fn⟩
      fun i hi => setDestroyFn_stays h (u.live i hi).1 (u.live i hi).2
        (fun heq => hm (heq ▸ hi)) fn
    rw [u.eq]
    exact hF _ (if_neg hm)

/-- `borrow_begin` refuses the objects being destroyed. -/
lemma Underway.borrowBegin (u : Underway D G H) (ref : RawRef) (n a : ℕ) :
    Proceeds D H (borrowBegin G ref n a).2.2 := by
  obtain ⟨Ls, h⟩ := u.healthy
  by_cases hm : ref.index ∈ D
  · obtain ⟨e, hck⟩ := checkRef_not_live (u.not_live hm) n a true
    rw [PondMerge.borrowBegin, hck]
    exact u.proceeds_refl
  · have hF := fun σ (hσ : σ ref.index = (H.objects ref.index).state) =>
      congrArg (fun r => r.2.2) (borrowBegin_restate σ H hσ n a)
    refine u.proceeds ((PondMerge.borrowBegin H ref n a).2.2) ?_ (hF _ rfl).symm
      ⟨Ls, borrowBegin_inv h ref n a⟩
      fun i hi => borrowBegin_stays h (u.live i hi).1 (u.live i hi).2
        (fun heq => hm (heq ▸ hi)) n a
    rw [u.eq]
    exact hF _ (if_neg hm)

/-- `borrow_end` refuses the objects being destroyed. -/
lemma Underway.borrowEnd (u : Underway D G H) (ref : RawRef) :
    Proceeds D H (borrowEnd G ref) := by
  obtain ⟨Ls, h⟩ := u.healthy
  by_cases hm : ref.index ∈ D
  · rw [PondMerge.borrowEnd, if_neg (by simp [borrowEndOk_not_live (u.not_live hm)])]
    exact u.proceeds_refl
  · have hF := fun σ (hσ : σ ref.index = (H.objects ref.index).state) =>
      borrowEnd_restate σ H hσ
    refine u.proceeds (PondMerge.borrowEnd H ref) ?_ (hF _ rfl).symm
      ⟨Ls, borrowEnd_inv h ref⟩
      fun i hi => borrowEnd_stays h (u.live i hi).1 (u.live i hi).2 (fun heq => hm (heq ▸ hi))
    rw [u.eq]
    exact hF _ (if_neg hm)

/-- A client may write the payload of an object being destroyed. -/
lemma Underway.clientWrite (u : Underway D G H) (w : PayloadWrite) :
    Proceeds D H (clientWrite G w) := by
  obtain ⟨Ls, h⟩ := u.healthy
  have hF := fun σ hσ => clientWrite_restate σ H (w := w) hσ
  refine u.proceeds (PondMerge.clientWrite H w) ?_ (hF _ Iff.rfl).symm
    ⟨Ls, clientWrite_inv h w⟩ fun i hi => clientWrite_stays h (u.live i hi).1 (u.live i hi).2 w
  rw [u.eq]
  refine hF _ ?_
  rw [dyingStates]
  by_cases hm : w.slot ∈ D
  · rw [if_pos hm, (u.live _ hm).2]
    exact iff_of_false (by decide) (by decide)
  · rw [if_neg hm]

/-- An object being destroyed is in no pool whose objects are all alive. -/
lemma Underway.elsewhere (u : Underway D G H) {Ls : ℕ → List Piece} (h : GlobalInv H Ls)
    {p i : ℕ} (hlive : ∀ i ∈ liveSlots (Ls p), dyingStates D H i = .live) (hi : i ∈ D) :
    (H.objects i).poolId ≠ p := by
  rintro rfl
  obtain ⟨q, hq, hmem⟩ := h.owned i (u.live i hi).1 (u.live i hi).2
  rw [((h.pool q hq).poolId hmem).1] at hlive
  have hdying := hlive i hmem
  rw [dyingStates, if_pos hi] at hdying
  cases hdying

/-- `compact` refuses a pool with an object being destroyed. -/
lemma Underway.compact (u : Underway D G H) (p : ℕ) (req : Option CompactionRequest)
    (elapsed : ℕ) : Proceeds D H (compact G p req elapsed).2.2 := by
  obtain ⟨Ls, h⟩ := u.healthy
  have hi := fun i hi => (u.live i hi).1
  have hl := fun i hi => (u.live i hi).2
  rcases compact_restate (dyingStates_live D H) h p req elapsed with
    ⟨e, H', hr, hH⟩ | ⟨hlive, hr⟩
  · have hstates : restate (fun i => (H.objects i).state) H' = H' := by
      rcases hH with rfl | ⟨-, rfl⟩ <;> rfl
    refine u.proceeds H' (congrArg (fun r => r.2.2) (u.eq ▸ hr)) hstates ?_ fun i hm => ?_
    · rcases hH with rfl | ⟨hp, rfl⟩
      · exact ⟨Ls, h⟩
      · exact ⟨Ls, h.sameHeap (sameHeap_setPool (P := { H.pools p with state := .paused }) hp.2
          ⟨rfl, rfl, rfl, rfl, rfl, rfl, rfl, rfl⟩ (Or.inr (Or.inr rfl)))⟩
    · rcases hH with rfl | ⟨-, rfl⟩
      · exact h.stays_refl (hi i hm) (hl i hm)
      · exact h.stays_update (hi i hm) (hl i hm) ⟨rfl, rfl, rfl, rfl, rfl⟩
          (SameButLinks.refl _) (P := { H.pools p with state := .paused }) rfl
          (fun hst => nomatch hst) rfl rfl
  · refine u.proceeds _ (congrArg (fun r => r.2.2) (u.eq ▸ hr)) ?_ (compact_inv h req elapsed)
      fun i hm => compact_stays h (hi i hm) (hl i hm) (u.elsewhere h hlive hm) req elapsed
    rcases compact_restate (σ := fun i => (H.objects i).state) (fun _ hi => hi) h p req elapsed with
      ⟨e, H', hself, -⟩ | ⟨-, hself⟩
    · rw [restate_state] at hself
      rw [hself]
      rfl
    · exact (congrArg (fun r => r.2.2) hself).symm

/-- `merge` refuses pools with an object being destroyed. -/
lemma Underway.merge (u : Underway D G H) (s t : ℕ) : Proceeds D H (merge G s t).2 := by
  obtain ⟨Ls, h⟩ := u.healthy
  rcases merge_restate (dyingStates_live D H) h s t with ⟨e, hr⟩ | ⟨hlive, hr⟩
  · rw [u.eq, hr, ← u.eq]
    exact u.proceeds_refl
  · refine u.proceeds _ (congrArg Prod.snd (u.eq ▸ hr)) ?_ (merge_inv h s t)
      fun i hm => merge_stays h (u.live i hm).1 (u.live i hm).2
        (u.elsewhere h (fun i hs => hlive i (Or.inl hs)) hm)
        (u.elsewhere h (fun i ht => hlive i (Or.inr ht)) hm)
    rcases merge_restate (σ := fun i => (H.objects i).state) (fun _ hi => hi) h s t with
      ⟨e, hself⟩ | ⟨-, hself⟩
    · rw [restate_state] at hself
      rw [hself, restate_state]
    · exact (congrArg Prod.snd hself).symm

/-- `split` refuses a pool with an object being destroyed. -/
lemma Underway.split (u : Underway D G H) (s n : ℕ) : Proceeds D H (split G s n).2.2 := by
  obtain ⟨Ls, h⟩ := u.healthy
  rcases split_restate (dyingStates_live D H) h s n with ⟨e, hr⟩ | ⟨hlive, hr⟩
  · rw [u.eq, hr, ← u.eq]
    exact u.proceeds_refl
  · refine u.proceeds _ (congrArg (fun r => r.2.2) (u.eq ▸ hr)) ?_ (split_inv h s n)
      fun i hm => split_stays h (u.live i hm).1 (u.live i hm).2 (u.elsewhere h hlive hm) n
    rcases split_restate (σ := fun i => (H.objects i).state) (fun _ hi => hi) h s n with
      ⟨e, hself⟩ | ⟨-, hself⟩
    · rw [restate_state] at hself
      rw [hself, restate_state]
    · exact (congrArg (fun r => r.2.2) hself).symm

/-- Every operation but a `free` leaves the objects being destroyed undisturbed. -/
lemma Underway.step_other (u : Underway D G H) (op : Op) (hfree : ∀ ref ws, op ≠ .free ref ws) :
    Proceeds D H (step G op) := by
  obtain ⟨Ls, h⟩ := u.healthy
  have hi := fun i hi => (u.live i hi).1
  have hl := fun i hi => (u.live i hi).2
  cases op with
  | createPool n =>
      have hF := fun σ => congrArg (fun r => r.2.2) (createPool_restate σ H n)
      refine u.proceeds ((createPool H n).2.2) ?_ (hF _).symm (createPool_inv h n)
        fun i hm => createPool_stays h (hi i hm) (hl i hm) n
      rw [u.eq]
      exact hF _
  | destroyPool id =>
      have hF := fun σ => congrArg Prod.snd (destroyPool_restate σ H id)
      refine u.proceeds ((destroyPool H id).2) ?_ (hF _).symm ⟨Ls, destroyPool_inv h id⟩
        fun i hm => destroyPool_stays h (hi i hm) (hl i hm) id
      rw [u.eq]
      exact hF _
  | pause id =>
      have hF := fun σ => congrArg Prod.snd (pause_restate σ H id)
      refine u.proceeds ((pause H id).2) ?_ (hF _).symm ⟨Ls, pause_inv h id⟩
        fun i hm => pause_stays h (hi i hm) (hl i hm) id
      rw [u.eq]
      exact hF _
  | resume id =>
      have hF := fun σ => congrArg Prod.snd (resume_restate σ H id)
      refine u.proceeds ((resume H id).2) ?_ (hF _).symm ⟨Ls, resume_inv h id⟩
        fun i hm => resume_stays h (hi i hm) (hl i hm) id
      rw [u.eq]
      exact hF _
  | alloc p size alignment flags tag => exact u.alloc p size alignment flags tag
  | free ref ws => exact absurd rfl (hfree ref ws)
  | setDestroyFn ref fn => exact u.setDestroyFn ref fn
  | borrowBegin ref n a => exact u.borrowBegin ref n a
  | borrowEnd ref => exact u.borrowEnd ref
  | compact p req elapsed => exact u.compact p req elapsed
  | merge s t => exact u.merge s t
  | split s n => exact u.split s n
  | write w => exact u.clientWrite w

end Steps

/-! ### `free` -/

section Destroy

variable {D : List ℕ} {G H : GlobalState}

omit [PmConfig] in
/-- The window of an undisturbed object. -/
lemma Stays.window {G' : GlobalState} {i : ℕ} (h : Stays G G' i) :
    poolStart G' (G'.pools (G.objects i).poolId) = poolStart G (G.pools (G.objects i).poolId)
      ∧ poolEnd G' (G'.pools (G.objects i).poolId) =
        poolEnd G (G.pools (G.objects i).poolId) := by
  rw [poolStart, poolStart, poolEnd, poolEnd, segBase, segBase, segBase, segBase, h.zone.zone,
    h.zone.segmentSize, h.first, h.count]
  exact ⟨rfl, rfl⟩

/-- Object `i` is where it was, in a pool with the same window. -/
structure InPlace (G G' : GlobalState) (i : ℕ) : Prop where
  address : (G'.objects i).address = (G.objects i).address
  poolId : (G'.objects i).poolId = (G.objects i).poolId
  pool : (G'.pools (G.objects i).poolId).state ≠ .empty
  start : poolStart G' (G'.pools (G.objects i).poolId) = poolStart G (G.pools (G.objects i).poolId)
  stop : poolEnd G' (G'.pools (G.objects i).poolId) = poolEnd G (G.pools (G.objects i).poolId)

/-- Objects that are undisturbed in the healthy states are so in the actual ones. -/
lemma Underway.inPlace {D' : List ℕ} {G' H' : GlobalState} (u : Underway D G H)
    (u' : Underway D' G' H') {i : ℕ} (h : Stays H H' i) : InPlace G G' i := by
  have hd : (H'.objects i).address = (H.objects i).address := by rw [h.object.eq]
  obtain ⟨hstart, hstop⟩ := h.window
  constructor
  · rw [u.object, u'.object]
    exact hd
  · rw [u.object, u'.object]
    exact h.object.poolId
  · rw [u.object, u'.eq]
    exact h.pool
  · rw [u.object, u'.eq, u.eq]
    exact hstart
  · rw [u.object, u'.eq, u.eq]
    exact hstop

/-- `free` marks an object it has not marked yet. -/
lemma Underway.mark (u : Underway D G H) {i : ℕ} (hi : i < pmMaxObjects)
    (hl : (G.objects i).state = .live) : Underway (i :: D) (markDestroying G i) H := by
  have hnot := u.not_mem hl
  refine ⟨?_, u.healthy, fun j hj => ?_⟩
  · have hobj : ∀ j, ((markDestroying G i).objects j) =
        { H.objects j with state := dyingStates (i :: D) H j } := by
      intro j
      by_cases hj : j = i
      · subst hj
        rw [dyingStates, if_pos (List.mem_cons_self ..), ← u.same hnot]
        exact Function.update_self ..
      · have hsame : (markDestroying G i).objects j = G.objects j := Function.update_of_ne hj ..
        rw [hsame, u.object, dyingStates, dyingStates]
        simp only [List.mem_cons, hj, false_or]
    have hother : markDestroying G i = { H with objects := (markDestroying G i).objects } := by
      rw [markDestroying, u.eq]
      rfl
    rw [hother]
    exact congrArg (fun o => { H with objects := o }) (funext hobj)
  · rcases List.mem_cons.mp hj with rfl | hj
    · exact ⟨hi, by rw [← u.same hnot, hl]⟩
    · exact u.live j hj

/-- `verify_neighbours` accepts the blocks of the objects, being destroyed or not. -/
lemma Underway.neighbours (u : Underway D G H) {i : ℕ} (hi : i < pmMaxObjects)
    (hl : (H.objects i).state = .live) :
    verifyNeighbours G (G.pools (G.objects i).poolId) (G.objects i) (G.objects i).block
      (poolStart G (G.pools (G.objects i).poolId))
      (poolEnd G (G.pools (G.objects i).poolId)) = true := by
  obtain ⟨Ls, h⟩ := u.healthy
  obtain ⟨x, n, hact, hx, haddr, -, -⟩ := h.payload hi hl
  have hver := (h.pool _ hact).neighbours h.zone hx
  have hblock : (H.objects i).block = x := by
    rw [ObjectDesc.block, haddr]
    omega
  rw [← hblock] at hver
  rw [u.object i, u.eq, verifyNeighbours_restate]
  exact hver

/-- The mutation phase of `free`, whatever the state of the freed object is. -/
lemma Proceeds.commit (h : Healthy H) (hD : ∀ j ∈ D, j < pmMaxObjects ∧ (H.objects j).state = .live)
    {σ : ℕ → ObjState} {i : ℕ} (hi : i < pmMaxObjects) (hl : (H.objects i).state = .live)
    (hnot : i ∉ D) (hσ : ∀ j, j ≠ i → σ j = dyingStates D H j) :
    Proceeds D H (freeCommit (restate σ H) (H.objects i).poolId i (H.objects i).block
      (poolEnd H (H.pools (H.objects i).poolId))) := by
  obtain ⟨Ls, hinv⟩ := h
  obtain ⟨L', hinv', -⟩ := freeCommit_global hinv hi hl
  have hstays := fun j hj => freeCommit_stays hinv (hD j hj).1 (hD j hj).2 hi hl
    (fun heq => hnot (heq ▸ hj)) (H.objects i).block (poolEnd H (H.pools (H.objects i).poolId))
  have hself := freeCommit_restate (fun j => (H.objects j).state) H (H.objects i).poolId i
    (H.objects i).block (poolEnd H (H.pools (H.objects i).poolId))
  rw [restate_state] at hself
  rw [freeCommit_restate]
  generalize freeCommit H (H.objects i).poolId i (H.objects i).block
    (poolEnd H (H.pools (H.objects i).poolId)) = H' at *
  refine ⟨H', ⟨?_, ⟨_, hinv'⟩, fun j hj => ⟨(hD j hj).1, ?_⟩⟩, hstays⟩
  · refine congrArg (fun σ => restate σ H') (funext fun j => ?_)
    have hstate : (H'.objects j).state =
        Function.update (fun j => (H.objects j).state) i .free j :=
      congrArg (fun r => (r.objects j).state) hself
    rw [dyingStates, hstate]
    by_cases hj : j = i
    · rw [hj, Function.update_self, Function.update_self, if_neg hnot]
    · rw [Function.update_of_ne hj, Function.update_of_ne hj, hσ j hj, dyingStates]
  · exact (hstays j hj).object.state.trans (hD j hj).2

/-- `free` refuses every other reference, before any callback. -/
lemma free_not_freeable {ref : RawRef} (hf : ¬ Freeable G ref) :
    ∃ st, st ≠ .ok ∧ ∀ run, free run G ref = (st, G) := by
  by_cases hinit : G.initialized = true
  swap
  · exact ⟨.notInitialized, by decide, fun run => if_pos (by simpa using hinit)⟩
  have hstart (run : Callback) := show free run G ref = _ from if_neg (by simp [hinit])
  by_cases hoff : ref.offset = 0
  swap
  · exact ⟨.invalidRef, by decide, fun run => (hstart run).trans (if_pos hoff)⟩
  cases hck : checkRef G ref 0 1 true with
  | error e =>
      refine ⟨e, fun he => checkRef_ne_ok G ref 0 1 true (he ▸ hck), fun run => ?_⟩
      rw [hstart, if_neg (by simp [hoff]), hck]
  | ok addr =>
      have hbusy : (G.objects ref.index).activeBorrows ≠ 0 := fun h0 =>
        hf ⟨hoff, ⟨addr, hck⟩, h0⟩
      refine ⟨.busy, by decide, fun run => ?_⟩
      rw [hstart, if_neg (by simp [hoff]), hck]
      exact if_pos hbusy

/-- An object whose `free` is accepted is alive. -/
lemma Freeable.live {ref : RawRef} (hf : Freeable G ref) :
    ref.index < pmMaxObjects ∧ (G.objects ref.index).state = .live := by
  obtain ⟨-, ⟨addr, hck⟩, -⟩ := hf
  exact ⟨(checkRef_ok hck).1.index, (checkRef_ok hck).1.live⟩

/-- An accepted `free` passes the first proof. -/
lemma Underway.accepted (u : Underway D G H) {ref : RawRef} (hf : Freeable G ref) :
    verifyNeighbours G (G.pools (G.objects ref.index).poolId) (G.objects ref.index)
      (G.objects ref.index).block (poolStart G (G.pools (G.objects ref.index).poolId))
      (poolEnd G (G.pools (G.objects ref.index).poolId)) = true :=
  u.neighbours hf.live.1 (by rw [← u.same (u.not_mem hf.live.2)]; exact hf.live.2)

lemma Underway.entered (u : Underway D G H) {ref : RawRef} (hf : Freeable G ref) {fn : ℕ}
    (hfn : (G.objects ref.index).destroyFn = some fn) : CallbackEntered G ref fn := by
  obtain ⟨Ls, h⟩ := u.healthy
  refine ⟨?_, hf.1, hf.2.1, hf.2.2, u.accepted hf, hfn⟩
  rw [u.eq]
  exact h.zone.init

lemma CallbackEntered.freeable {ref : RawRef} {fn : ℕ} (hc : CallbackEntered G ref fn) :
    Freeable G ref := ⟨hc.offset, hc.accepted, hc.idle⟩

/-- The mutation phase behind the checks of `free`. -/
def freed (F : GlobalState) (i : ℕ) : GlobalState :=
  freeCommit F (F.objects i).poolId i (F.objects i).block
    (poolEnd F (F.pools (F.objects i).poolId))

/-- `free` of an object without a callback. -/
lemma Underway.free_plain (u : Underway D G H) {ref : RawRef} (hf : Freeable G ref)
    (hfn : (G.objects ref.index).destroyFn = none) (run : Callback) :
    free run G ref = (.ok, freed G ref.index) := by
  obtain ⟨Ls, h⟩ := u.healthy
  have hinit : G.initialized = true := by
    rw [u.eq]
    exact h.zone.init
  obtain ⟨addr, hck⟩ := hf.2.1
  rw [free, if_neg (by simp [hinit]), if_neg (by simp [hf.1]), hck]
  dsimp only
  rw [if_neg (by simp [hf.2.2]), if_neg (by simp [u.accepted hf]), hfn]
  rfl

/-- `free` of an object with a callback that leaves it undisturbed: the callback runs on the
payload address, the second proof passes, and the rest cannot fail. -/
lemma Underway.free_callback (u : Underway D G H) {ref : RawRef} {fn : ℕ}
    (hc : CallbackEntered G ref fn) {run : Callback}
    (hp : Proceeds (ref.index :: D) H
      (run fn (G.objects ref.index).address (markDestroying G ref.index))) :
    free run G ref = (.ok, freed
      (run fn (G.objects ref.index).address (markDestroying G ref.index)) ref.index) := by
  obtain ⟨addr, hck⟩ := hc.accepted
  have hl := hc.freeable.live
  obtain ⟨H', u', hstays⟩ := hp
  have hmem : ref.index ∈ ref.index :: D := List.mem_cons_self ..
  have hplace := u.inPlace u' (hstays _ hmem)
  have hver := u'.neighbours hl.1 (u'.live _ hmem).2
  have hdying := u'.dying hmem
  rw [free, if_neg (by simp [hc.init]), if_neg (by simp [hc.offset]), hck]
  dsimp only
  rw [if_neg (by simp [hc.idle]), if_neg (by simp [hc.neighbours]), hc.callback]
  dsimp only
  rw [runDestroy]
  generalize hF : run fn (G.objects ref.index).address (markDestroying G ref.index) = F at *
  have hblock : (F.objects ref.index).block = (G.objects ref.index).block := by
    rw [ObjectDesc.block, ObjectDesc.block, hplace.address]
  rw [hblock, hplace.poolId, hplace.start, hplace.stop] at hver
  rw [freed, hblock, hplace.poolId, hplace.stop]
  rw [← markDestroying, hF]
  rw [if_neg (by simp [hdying]), if_neg (by simp [hver])]

/-- What is freed from a state over `H` is freed from `H`. -/
lemma freed_restate (σ : ℕ → ObjState) (H : GlobalState) (i : ℕ) :
    freed (restate σ H) i = freeCommit (restate σ H) (H.objects i).poolId i (H.objects i).block
      (poolEnd H (H.pools (H.objects i).poolId)) := rfl

/-- The mutation phase ends what the mark began. -/
lemma Underway.freed_dying {F : GlobalState} {i : ℕ} (u : Underway (i :: D) F H) (hnot : i ∉ D) :
    Proceeds D H (freed F i) := by
  have hi := u.live i (List.mem_cons_self ..)
  rw [u.eq, freed_restate]
  refine Proceeds.commit u.healthy (fun j hj => u.live j (List.mem_cons_of_mem i hj)) hi.1 hi.2
    hnot fun j hj => ?_
  rw [dyingStates, dyingStates]
  simp only [List.mem_cons, hj, false_or]

lemma Underway.freed_live (u : Underway D G H) {i : ℕ} (hi : i < pmMaxObjects)
    (hl : (G.objects i).state = .live) : Proceeds D H (freed G i) := by
  have hnot := u.not_mem hl
  have hlive : (H.objects i).state = .live := by rw [← u.same hnot, hl]
  rw [u.eq, freed_restate]
  exact Proceeds.commit u.healthy u.live hi hlive hnot fun _ _ => rfl

/-- `free` leaves the objects being destroyed undisturbed if its callback does. -/
theorem Underway.free (u : Underway D G H) (ref : RawRef) (run : Callback)
    (hrun : ∀ fn, CallbackEntered G ref fn → Proceeds (ref.index :: D) H
      (run fn (G.objects ref.index).address (markDestroying G ref.index))) :
    Proceeds D H (free run G ref).2 := by
  by_cases hf : Freeable G ref
  swap
  · obtain ⟨st, -, heq⟩ := free_not_freeable hf
    rw [heq run]
    exact u.proceeds_refl
  have hl := hf.live
  cases hfn : (G.objects ref.index).destroyFn with
  | none =>
      rw [u.free_plain hf hfn]
      exact u.freed_live hl.1 hl.2
  | some fn =>
      have hc := u.entered hf hfn
      have hp := hrun fn hc
      rw [u.free_callback hc hp]
      obtain ⟨H', u', hs⟩ := hp
      obtain ⟨H'', u'', hs'⟩ := u'.freed_dying (u.not_mem hl.2)
      exact ⟨H'', u'', fun j hj => (hs j (List.mem_cons_of_mem _ hj)).trans (hs' j hj)⟩

/-- What a callback that only writes does. -/
lemma Underway.foldl_clientWrite (u : Underway D G H) (ws : List PayloadWrite) :
    Proceeds D H (ws.foldl PondMerge.clientWrite G) := by
  induction ws generalizing G H with
  | nil => exact u.proceeds_refl
  | cons w ws ih => exact (u.clientWrite w).trans fun H₁ u₁ => ih u₁

/-- Every operation leaves the objects being destroyed undisturbed. -/
theorem Underway.step (u : Underway D G H) (op : Op) :
    Proceeds D H (PondMerge.step G op) := by
  by_cases hop : ∃ ref ws, op = .free ref ws
  · obtain ⟨ref, ws, rfl⟩ := hop
    exact u.free ref (writingCallback ws) fun fn hc =>
      (u.mark hc.freeable.live.1 hc.freeable.live.2).foldl_clientWrite ws
  · exact u.step_other op fun ref ws heq => hop ⟨ref, ws, heq⟩

end Destroy

/-! ### Scripts -/

section Scripts

variable {D : List ℕ} {G H : GlobalState}

/-- A script leaves the objects being destroyed undisturbed. -/
theorem Underway.run (u : Underway D G H) (s : Script) : Proceeds D H (s.run G) := by
  induction s generalizing D G H with
  | done => exact u.proceeds_refl
  | op o rest ih => exact (u.step o).trans fun H₁ u₁ => ih u₁
  | free ref body rest ihbody ihrest =>
      refine (u.free ref (fun _ _ F => body.run F) fun fn hc => ?_).trans fun H₁ u₁ => ihrest u₁
      exact ihbody (u.mark hc.freeable.live.1 hc.freeable.live.2)

/-- So do the callbacks inside it: more objects are being destroyed there. -/
theorem Underway.visits (u : Underway D G H) {s : Script} {G₁ : GlobalState}
    (hv : Script.Visits s G G₁) :
    ∃ D₁ H₁, Underway (D₁ ++ D) G₁ H₁ ∧ ∀ i ∈ D, Stays H H₁ i := by
  induction hv generalizing D H with
  | here s G => exact ⟨[], H, u, u.stays_refl⟩
  | @op o rest G G₁ _ ih =>
      obtain ⟨H', u', hs⟩ := u.step o
      obtain ⟨D₁, H₁, u₁, hs₁⟩ := ih u'
      exact ⟨D₁, H₁, u₁, fun i hi => (hs i hi).trans (hs₁ i hi)⟩
  | @inside ref body rest G G₁ fn hc _ ih =>
      obtain ⟨D₁, H₁, u₁, hs₁⟩ := ih (u.mark hc.freeable.live.1 hc.freeable.live.2)
      refine ⟨D₁ ++ [ref.index], H₁, by simpa using u₁, fun i hi => hs₁ i ?_⟩
      exact List.mem_cons_of_mem _ hi
  | @after ref body rest G G₁ _ ih =>
      obtain ⟨H', u', hs⟩ := u.free ref (fun _ _ F => body.run F) fun fn hc =>
        (u.mark hc.freeable.live.1 hc.freeable.live.2).run body
      obtain ⟨D₁, H₁, u₁, hs₁⟩ := ih u'
      exact ⟨D₁, H₁, u₁, fun i hi => (hs i hi).trans (hs₁ i hi)⟩

/-- Every state a run reaches, inside callbacks or not, is a healthy one of which some objects
are being destroyed. -/
theorem Reentrant.underway (h : Reentrant G) : ∃ D H, Underway D G H := by
  obtain ⟨G₀, cfg, s, hok, hv⟩ := h
  obtain ⟨D, H, u, -⟩ := (Underway.of_healthy ⟨_, init_inv hok⟩).visits hv
  exact ⟨_, H, u⟩

end Scripts

end PondMerge
