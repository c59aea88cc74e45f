import PondMerge.Operations.Runs

/-!
What the operations read of the states of the objects: next to nothing.  They do the same to the
heap while some objects are being destroyed as while these are alive, or refuse.

* `restate`: other object states over the same heap.
* `Blind`: a function that neither reads nor writes them; the parts of the operations are such.
* `precheckPool_restate`: the one audit that reads them accepts less.
* `alloc_restate`, `freeCommit_restate`: the two operations that write them.
* `compact_restate`, `merge_restate`, `split_restate`: maintenance.
-/

namespace PondMerge

open ByteMemory

variable [PmConfig]

/-- The state with `σ i` for the state of object `i`. -/
def restate (σ : ℕ → ObjState) (G : GlobalState) : GlobalState :=
  { G with objects := fun i => { G.objects i with state := σ i } }

/-- A function that neither reads nor writes the states of objects. -/
def Blind (F : GlobalState → GlobalState) : Prop := ∀ σ G, F (restate σ G) = restate σ (F G)

omit [PmConfig] in
/-- The same branch on both sides of a map. -/
lemma ite_map {α β : Type*} {c : Prop} [Decidable c] (f : α → β) {x y : α} {x' y' : β}
    (hx : x' = f x) (hy : y' = f y) : (if c then x' else y') = f (if c then x else y) := by
  rw [apply_ite f, hx, hy]

section Reads

variable (σ : ℕ → ObjState) (G : GlobalState)

/-! ### Fields -/

omit [PmConfig] in
@[simp] lemma restate_pools : (restate σ G).pools = G.pools := rfl
omit [PmConfig] in
@[simp] lemma restate_mem : (restate σ G).mem = G.mem := rfl
omit [PmConfig] in
@[simp] lemma restate_zone : (restate σ G).zone = G.zone := rfl
omit [PmConfig] in
@[simp] lemma restate_zoneSize : (restate σ G).zoneSize = G.zoneSize := rfl
omit [PmConfig] in
@[simp] lemma restate_freeSlotHead : (restate σ G).freeSlotHead = G.freeSlotHead := rfl
omit [PmConfig] in
@[simp] lemma restate_initialized : (restate σ G).initialized = G.initialized := rfl
omit [PmConfig] in
@[simp] lemma restate_objects (i : ℕ) :
    (restate σ G).objects i = { G.objects i with state := σ i } := rfl

omit [PmConfig] in
lemma restate_state : restate (fun i => (G.objects i).state) G = G := rfl

omit [PmConfig] in
lemma restate_setObj (i : ℕ) (d : ObjectDesc) :
    restate σ (G.setObj i d) = (restate σ G).setObj i { d with state := σ i } := by
  simp only [restate, GlobalState.setObj, GlobalState.mk.injEq, true_and, and_true]
  funext j
  simp only [Function.update_apply]
  by_cases hj : j = i
  · rw [if_pos hj, if_pos hj, hj]
  · rw [if_neg hj, if_neg hj]

omit [PmConfig] in
/-- A descriptor written with a state of its own. -/
lemma restate_update_setObj (i : ℕ) (d : ObjectDesc) :
    restate (Function.update σ i d.state) (G.setObj i d) = (restate σ G).setObj i d := by
  simp only [restate, GlobalState.setObj, GlobalState.mk.injEq, true_and, and_true]
  funext j
  simp only [Function.update_apply]
  by_cases hj : j = i
  · rw [if_pos hj, if_pos hj, if_pos hj]
  · rw [if_neg hj, if_neg hj, if_neg hj]

/-! ### Searches, audits and plans -/

lemma findRun_restate (want left s run : ℕ) :
    findRun (restate σ G) want left s run = findRun G want left s run := by
  induction left generalizing s run with
  | zero => rfl
  | succ left ih =>
      have hused : segmentUsed (restate σ G) s = segmentUsed G s := rfl
      rw [findRun, findRun, ih, ih, hused]

omit [PmConfig] in
lemma binsFindWalk_restate (need left off : ℕ) :
    binsFindWalk (restate σ G) need left off = binsFindWalk G need left off := by
  induction left generalizing off with
  | zero => rfl
  | succ left ih =>
      have hread : zoneOffReadable (restate σ G) off = zoneOffReadable G off := rfl
      rw [binsFindWalk, binsFindWalk, hread, restate_mem, restate_zone, ih]

omit [PmConfig] in
lemma binsFindRow_restate (b : TlsfBins) (need f : ℕ) (l : List ℕ) (left : ℕ) :
    binsFindRow (restate σ G) b need f l left = binsFindRow G b need f l left := by
  induction l generalizing left with
  | nil => rfl
  | cons s l ih => simp only [binsFindRow, binsFindWalk_restate, ih]

omit [PmConfig] in
lemma binsFindRows_restate (b : TlsfBins) (need : ℕ) (l : List ℕ) (left : ℕ) :
    binsFindRows (restate σ G) b need l left = binsFindRows G b need l left := by
  induction l generalizing left with
  | nil => rfl
  | cons f l ih => simp only [binsFindRows, binsFindRow_restate, ih]

lemma binsFind_restate (b : TlsfBins) (need : ℕ) :
    binsFind (restate σ G) b need = binsFind G b need := by
  rw [binsFind, binsFind]
  split_ifs with h
  · rfl
  · dsimp only
    rw [binsFindRow_restate, restate_zoneSize]
    generalize binsFindRow G b need (flBin need) _ _ = first
    cases first with
    | found blk => rfl
    | refused => rfl
    | missed left =>
        dsimp only
        rw [binsFindRows_restate]

lemma auditWalk_restate (startOff endOff f s fuel off : ℕ) :
    auditWalk (restate σ G) startOff endOff f s fuel off =
      auditWalk G startOff endOff f s fuel off := by
  induction fuel generalizing off with
  | zero => rfl
  | succ fuel ih =>
      have hblock : auditBlock (restate σ G) startOff endOff f s off =
          auditBlock G startOff endOff f s off := rfl
      rw [auditWalk, auditWalk, hblock, restate_mem, restate_zone, ih]

lemma auditPoolBins_restate (P : Pool) :
    auditPoolBins (restate σ G) P = auditPoolBins G P := by
  have hbins : ∀ a b n l, auditBins (restate σ G) P a b n l = auditBins G P a b n l := by
    intro a b n l
    induction l with
    | nil => rfl
    | cons fs l ih => simp only [auditBins, auditWalk_restate, ih]
  have hcap : poolCapacity (restate σ G) P = poolCapacity G P := rfl
  have hstart : poolStartOff (restate σ G) P = poolStartOff G P := rfl
  rw [auditPoolBins, auditPoolBins, hcap, hstart]
  simp only [hbins]

lemma verifyNeighbours_restate (P : Pool) (d : ObjectDesc) (s : ObjState)
    (block start stop : ℕ) :
    verifyNeighbours (restate σ G) P { d with state := s } block start stop =
      verifyNeighbours G P d block start stop :=
  have hzone : SameZone G (restate σ G) := ⟨rfl, rfl, rfl, rfl, rfl⟩
  verifyNeighbours_congr hzone rfl rfl P block start stop

omit [PmConfig] in
lemma suffixMaxHole_restate (stop : ℕ) (l : List ℕ) :
    suffixMaxHole (restate σ G) stop l = suffixMaxHole G stop l := by
  induction l with
  | nil => rfl
  | cons i l ih =>
      cases l with
      | nil => rfl
      | cons j l =>
          rw [suffixMaxHole, suffixMaxHole, ih]
          rfl

omit [PmConfig] in
lemma compactPlan_restate (req : Option CompactionRequest) (stop : ℕ) (l : List (ℕ × ℕ))
    (cursor : ℕ) (bars : List ℕ) (movedB movedO : ℕ) :
    compactPlan (restate σ G) req stop l cursor bars movedB movedO =
      compactPlan G req stop l cursor bars movedB movedO := by
  induction l generalizing cursor bars movedB movedO with
  | nil => rfl
  | cons e l ih =>
      rw [compactPlan, compactPlan]
      simp only [ih]
      rfl

omit [PmConfig] in
lemma mergePlan_restate (stop : ℕ) (l : List ℕ) (cursor : ℕ) (bars : List ℕ) :
    mergePlan (restate σ G) stop l cursor bars = mergePlan G stop l cursor bars := by
  induction l generalizing cursor bars with
  | nil => rfl
  | cons i l ih =>
      rw [mergePlan, mergePlan]
      simp only [ih]
      rfl

omit [PmConfig] in
lemma splitPlan_restate (boundary stop : ℕ) (l : List ℕ) (lowC upC : ℕ) (bars : List ℕ) :
    splitPlan (restate σ G) boundary stop l lowC upC bars =
      splitPlan G boundary stop l lowC upC bars := by
  induction l generalizing lowC upC bars with
  | nil => rfl
  | cons i l ih =>
      rw [splitPlan, splitPlan]
      simp only [ih]
      rfl

lemma precheckWalk_restate (start stop : ℕ) (l : List ℕ) (prevEnd used : ℕ) :
    precheckWalk (restate σ G) start stop l prevEnd used =
      precheckWalk G start stop l prevEnd used := by
  induction l generalizing prevEnd used with
  | nil => rfl
  | cons i l ih =>
      rw [precheckWalk, precheckWalk, ih]
      rfl

omit [PmConfig] in
lemma distinctAddresses_restate (l : List ℕ) :
    distinctAddresses (restate σ G) l = distinctAddresses G l := by
  induction l with
  | nil => rfl
  | cons i l ih =>
      cases l with
      | nil => rfl
      | cons j l =>
          rw [distinctAddresses, distinctAddresses, ih]
          rfl

lemma finalizeLoop_restate (zone start stop : ℕ) (l : List ℕ) (r : Rebuild) :
    finalizeLoop zone start stop (restate σ G).objects l r =
      finalizeLoop zone start stop G.objects l r := by
  induction l generalizing r with
  | nil => rfl
  | cons i l ih =>
      rw [finalizeLoop, finalizeLoop, ih, ih]
      rfl

/-- The one audit that reads states accepts less where less is alive. -/
lemma collectWalk_restate (hσ : ∀ i, σ i = .live → (G.objects i).state = .live)
    (pid fuel cap prev idx : ℕ) :
    collectWalk (restate σ G) pid fuel cap prev idx = none
      ∨ collectWalk (restate σ G) pid fuel cap prev idx = collectWalk G pid fuel cap prev idx := by
  induction fuel generalizing cap prev idx with
  | zero => exact Or.inr rfl
  | succ fuel ih =>
      rw [collectWalk, collectWalk]
      simp only [restate_objects]
      by_cases hlive : σ idx = .live
      · simp only [hσ idx hlive, hlive]
        rcases ih (cap - 1) idx (G.objects idx).addrNext with hnone | hsame
        · rw [hnone]
          split_ifs <;> simp
        · rw [hsame]
          exact Or.inr (ite_congr rfl (fun _ => rfl) fun _ => rfl)
      · by_cases h0 : idx = noOrder
        · rw [if_pos h0, if_pos h0]
          exact Or.inr rfl
        · exact Or.inl (by simp [h0, hlive])

lemma collectLiveSorted_restate (hσ : ∀ i, σ i = .live → (G.objects i).state = .live) (P : Pool)
    (pid cap : ℕ) :
    collectLiveSorted (restate σ G) P pid cap = none
      ∨ collectLiveSorted (restate σ G) P pid cap = collectLiveSorted G P pid cap := by
  have hsort : ∀ l, collectSort (restate σ G) l = collectSort G l := fun _ => rfl
  rw [collectLiveSorted, collectLiveSorted]
  rcases collectWalk_restate σ G hσ pid (pmMaxObjects + 1) cap noOrder P.orderHead with h | h
  · rw [h]
    exact Or.inl rfl
  · rw [h]
    exact Or.inr (by simp only [hsort, distinctAddresses_restate])

/-- `precheck_pool` refuses, or does not see the difference. -/
lemma precheckPool_restate (hσ : ∀ i, σ i = .live → (G.objects i).state = .live) (P : Pool)
    (pid start stop cap : ℕ) :
    precheckPool (restate σ G) P pid start stop cap = none
      ∨ precheckPool (restate σ G) P pid start stop cap =
        precheckPool G P pid start stop cap := by
  have hgeo : poolGeometryOk (restate σ G) P = poolGeometryOk G P := rfl
  rw [precheckPool, precheckPool, hgeo]
  rcases collectLiveSorted_restate σ G hσ P pid cap with h | h
  · rw [h]
    split_ifs
    · exact Or.inl rfl
    · exact Or.inl rfl
  · rw [h]
    exact Or.inr (by simp only [precheckWalk_restate])

/-- It refuses a pool of which some object is not alive. -/
lemma precheckPool_dying {p i : ℕ} {L : List Piece} (h : PoolInv G p L) (hi : i ∈ liveSlots L)
    (hσ : σ i ≠ .live) (start stop cap : ℕ) :
    precheckPool (restate σ G) (G.pools p) p start stop cap = none := by
  obtain ⟨l, hl, hperm⟩ := h.order
  have hnone : collectWalk (restate σ G) p (pmMaxObjects + 1) cap noOrder
      (G.pools p).orderHead = none := by
    cases hwalk : collectWalk (restate σ G) p (pmMaxObjects + 1) cap noOrder
        (G.pools p).orderHead with
    | none => rfl
    | some l' =>
        obtain ⟨hl', hlisted, -⟩ := collectWalk_sound hwalk
        have heq : l' = l := hl'.isChain.unique hl.isChain
        exact absurd (hlisted i (heq ▸ hperm.mem_iff.mpr hi)).2.1 hσ
  rw [precheckPool, collectLiveSorted, hnone]
  split_ifs <;> rfl

end Reads

/-! ### Writes -/

section Writes

omit [PmConfig] in
lemma Blind.comp {F F' : GlobalState → GlobalState} (h : Blind F) (h' : Blind F') :
    Blind fun G => F' (F G) := fun σ G =>
  (congrArg F' (h σ G)).trans (h' σ (F G))

omit [PmConfig] in
/-- A branch on what a blind function may read. -/
lemma Blind.ite {c : GlobalState → Prop} [∀ G, Decidable (c G)] {F F' : GlobalState → GlobalState}
    (hc : ∀ σ G, c (restate σ G) ↔ c G) (h : Blind F) (h' : Blind F') :
    Blind fun G => if c G then F G else F' G := by
  intro σ G
  dsimp only
  by_cases hG : c G
  · rw [if_pos hG, if_pos ((hc σ G).mpr hG)]
    exact h σ G
  · rw [if_neg hG, if_neg fun hyes => hG ((hc σ G).mp hyes)]
    exact h' σ G

omit [PmConfig] in
/-- A descriptor written with the state it has. -/
lemma Blind.setObj {i : GlobalState → ℕ} {f : GlobalState → ObjectDesc}
    (hi : ∀ σ G, i (restate σ G) = i G)
    (hf : ∀ σ G, f (restate σ G) = { f G with state := σ (i G) }) :
    Blind fun G => G.setObj (i G) (f G) := fun σ G => by
  dsimp only
  rw [hi, hf, restate_setObj]

omit [PmConfig] in
/-- A loop of blind steps. -/
lemma Blind.foldl {α : Type*} {f : GlobalState → α → GlobalState}
    (h : ∀ x, Blind fun G => f G x) (l : List α) : Blind fun G => l.foldl f G := by
  induction l with
  | nil => exact fun σ G => rfl
  | cons x l ih => exact (h x).comp ih

omit [PmConfig] in
lemma execMove_blind (e : MovePlanEntry) : Blind fun G => execMove G e := by
  intro σ G
  have hset := restate_setObj σ G e.slot { G.objects e.slot with
    address := e.dst + 8, addressEpoch := bumpEpoch (G.objects e.slot).addressEpoch }
  show execMove (restate σ G) e = restate σ (execMove G e)
  rw [execMove, execMove]
  exact congrArg (fun F : GlobalState =>
    { F with mem := moveBlock G.mem e.dst (G.objects e.slot).block e.size }) hset.symm

omit [PmConfig] in
lemma execMoves_blind (plan : List MovePlanEntry) : Blind fun G => execMoves G plan :=
  Blind.foldl execMove_blind plan

lemma finalizeLayout_blind (p start stop : ℕ) (slots : List ℕ) :
    Blind fun G => finalizeLayout G p start stop slots := by
  intro σ G
  show finalizeLayout (restate σ G) p start stop slots =
    restate σ (finalizeLayout G p start stop slots)
  rw [finalizeLayout, finalizeLayout, finalizeLoop_restate]
  rfl

lemma compactRebuild_blind (p : ℕ) (slots : List ℕ) (plan : List MovePlanEntry) (elapsed : ℕ) :
    Blind fun G => compactRebuild G p slots plan elapsed := by
  intro σ G
  have hlayout := finalizeLayout_blind p (poolStart G (G.pools p)) (poolEnd G (G.pools p)) slots σ G
  exact congrArg (fun F => compactStats F p plan elapsed) hlayout

omit [PmConfig] in
lemma compactCommit_blind (p : ℕ) (r : Status) (wasPaused : Bool) :
    Blind fun G => compactCommit G p r wasPaused :=
  fun σ _ => ite_map (restate σ) rfl rfl

omit [PmConfig] in
lemma mergeMove_blind (t : ℕ) (b : Bool) (e : MovePlanEntry) :
    Blind fun G => mergeMove t b G e := by
  intro σ G
  have howner : ∀ F : GlobalState, (restate σ F).setObj e.slot { (restate σ F).objects e.slot with
      poolId := t, addressEpoch := bumpEpoch ((restate σ F).objects e.slot).addressEpoch } =
      restate σ (F.setObj e.slot { F.objects e.slot with
        poolId := t, addressEpoch := bumpEpoch (F.objects e.slot).addressEpoch }) := fun F =>
    (restate_setObj σ F e.slot { F.objects e.slot with
      poolId := t, addressEpoch := bumpEpoch (F.objects e.slot).addressEpoch }).symm
  have hmove : (if e.dst ≠ ((restate σ G).objects e.slot).block then execMove (restate σ G) e
      else restate σ G) = restate σ (if e.dst ≠ (G.objects e.slot).block then execMove G e
        else G) := by
    have hblock : ((restate σ G).objects e.slot).block = (G.objects e.slot).block := rfl
    rw [hblock]
    split_ifs
    · exact execMove_blind e σ G
    · rfl
  show mergeMove t b (restate σ G) e = restate σ (mergeMove t b G e)
  rw [mergeMove, mergeMove, hmove]
  split_ifs
  · exact howner _
  · exact howner _
  · rfl
  · rfl

omit [PmConfig] in
lemma mergeMoves_blind (t : ℕ) (below : Bool) (n : ℕ) (plan : List MovePlanEntry) :
    Blind fun G => mergeMoves G t below n plan :=
  (Blind.foldl (mergeMove_blind t below) (plan.take n)).comp
    (Blind.foldl (mergeMove_blind t !below) (plan.drop n))

omit [PmConfig] in
lemma relink_restate (σ : ℕ → ObjState) (obj : ℕ → ObjectDesc) (prev : ℕ) (l : List ℕ) :
    relink (fun i => { obj i with state := σ i }) prev l =
      fun i => { relink obj prev l i with state := σ i } := by
  induction l generalizing obj prev with
  | nil => rfl
  | cons i l ih =>
      rw [relink, relink, ← ih]
      congr 1
      funext j
      simp only [Function.update_apply]
      by_cases hj : j = i
      · rw [if_pos hj, if_pos hj, hj]
      · rw [if_neg hj, if_neg hj]

omit [PmConfig] in
lemma rehome_restate (σ : ℕ → ObjState) (obj : ℕ → ObjectDesc) (nid : ℕ) (l : List ℕ) :
    rehome (fun i => { obj i with state := σ i }) nid l =
      fun i => { rehome obj nid l i with state := σ i } := by
  funext i
  rw [rehome_objects, rehome_objects]
  split_ifs <;> rfl

lemma mergeRebuild_blind (s t : ℕ) (slots : List ℕ) (plan : List MovePlanEntry) :
    Blind fun G => mergeRebuild G s t slots plan := by
  intro σ G
  have hlink := relink_restate σ G.objects noOrder (plan.map (·.slot))
  show mergeRebuild (restate σ G) s t slots plan = restate σ (mergeRebuild G s t slots plan)
  rw [mergeRebuild, mergeRebuild]
  refine Eq.trans ?_ (finalizeLayout_blind t _ _ slots σ _)
  rw [restate]
  simp only [hlink]
  rfl

lemma splitRebuild_blind (s nid n : ℕ) (slots : List ℕ) :
    Blind fun G => splitRebuild G s nid n slots := by
  intro σ G
  have habove : ∀ b, aboveBoundary (restate σ G) b = aboveBoundary G b := fun _ => rfl
  show splitRebuild (restate σ G) s nid n slots = restate σ (splitRebuild G s nid n slots)
  rw [splitRebuild, splitRebuild]
  refine Eq.trans ?_ (((finalizeLayout_blind s _ _ slots).comp
    (finalizeLayout_blind nid _ _ slots)) σ _)
  simp only [habove]
  rw [restate]
  simp only [rehome_restate, relink_restate]
  rfl

/-! ### Objects -/

omit [PmConfig] in
lemma orderAppend_blind (p idx : ℕ) : Blind fun G => orderAppend G p idx := by
  have hlink : Blind fun G => G.setObj idx
      { G.objects idx with addrPrev := noOrder, addrNext := (G.pools p).orderHead } :=
    Blind.setObj (fun _ _ => rfl) fun _ _ => rfl
  have hback : ∀ head, Blind fun G =>
      if head ≠ noOrder then G.setObj head { G.objects head with addrPrev := idx } else G :=
    fun head => Blind.ite (fun _ _ => Iff.rfl) (Blind.setObj (fun _ _ => rfl) fun _ _ => rfl)
      fun _ _ => rfl
  have hhead : Blind fun G => G.setPool p { G.pools p with orderHead := idx } := fun _ _ => rfl
  exact fun σ G => ((hlink.comp (hback (G.pools p).orderHead)).comp hhead) σ G

omit [PmConfig] in
lemma orderUnlink_blind (p idx : ℕ) : Blind fun G => orderUnlink G p idx := by
  have hprev : Blind fun G => if (G.objects idx).addrPrev ≠ noOrder then
      G.setObj (G.objects idx).addrPrev
        { G.objects (G.objects idx).addrPrev with addrNext := (G.objects idx).addrNext }
      else G.setPool p { G.pools p with orderHead := (G.objects idx).addrNext } :=
    Blind.ite (fun _ _ => Iff.rfl) (Blind.setObj (fun _ _ => rfl) fun _ _ => rfl) fun _ _ => rfl
  have hnext : Blind fun G => if (G.objects idx).addrNext ≠ noOrder then
      G.setObj (G.objects idx).addrNext
        { G.objects (G.objects idx).addrNext with addrPrev := (G.objects idx).addrPrev }
      else G :=
    Blind.ite (fun _ _ => Iff.rfl) (Blind.setObj (fun _ _ => rfl) fun _ _ => rfl) fun _ _ => rfl
  have hself : Blind fun G => G.setObj idx
      { G.objects idx with addrPrev := noOrder, addrNext := noOrder } :=
    Blind.setObj (fun _ _ => rfl) fun _ _ => rfl
  exact hprev.comp (hnext.comp hself)

omit [PmConfig] in
lemma slotRelease_blind (s : ℕ) : Blind fun G => slotRelease G s := by
  intro σ G
  exact congrArg (fun F : GlobalState => { F with freeSlotHead := s })
    (restate_setObj σ G s { G.objects s with nextFreeSlot := G.freeSlotHead }).symm

/-- The counters `free` writes between the two writes of its descriptor. -/
def releaseStats (G : GlobalState) (p n : ℕ) : GlobalState :=
  { G.setPool p { G.pools p with
      usedBytes := sub32 (G.pools p).usedBytes n
      freeBytes := sub32 (poolCapacity G (G.pools p)) (sub32 (G.pools p).usedBytes n)
      liveObjects := sub32 (G.pools p).liveObjects 1 } with
    liveObjectCount := sub32 G.liveObjectCount 1 }

omit [PmConfig] in
lemma releaseStats_blind (p n : ℕ) : Blind fun G => releaseStats G p n := fun _ _ => rfl

lemma freeCommit_eq (G : GlobalState) (p idx block stop : ℕ) :
    freeCommit G p idx block stop =
      let F := releaseStats (orderUnlink (freeHeap G p idx block stop) p idx) p
        (G.objects idx).blockSize
      slotRelease (F.setObj idx (freedDesc (F.objects idx))) idx := rfl

/-- `free` gives its object the state `Free`. -/
lemma freeCommit_restate (σ : ℕ → ObjState) (G : GlobalState) (p idx block stop : ℕ) :
    freeCommit (restate σ G) p idx block stop =
      restate (Function.update σ idx .free) (freeCommit G p idx block stop) := by
  have hheap : Blind fun G => freeHeap G p idx block stop := fun _ _ => rfl
  have hstats := ((hheap.comp (orderUnlink_blind p idx)).comp
    (releaseStats_blind p (G.objects idx).blockSize)) σ G
  have hsize : ((restate σ G).objects idx).blockSize = (G.objects idx).blockSize := rfl
  dsimp only at hstats
  rw [freeCommit_eq, freeCommit_eq, hsize]
  dsimp only
  rw [hstats]
  generalize releaseStats (orderUnlink (freeHeap G p idx block stop) p idx) p
    (G.objects idx).blockSize = F
  exact Eq.trans (congrArg (slotRelease · idx)
    (restate_update_setObj σ F idx (freedDesc (F.objects idx))).symm) (slotRelease_blind idx _ _)

/-- The writes of `alloc` behind the block split `r`. -/
def freshObject (G : GlobalState) (p slot : ℕ) (r : TlsfBins × Mem × ℕ) (d : ObjectDesc) (m : Mem) :
    GlobalState :=
  allocStats { (G.setPool p { G.pools p with bins := r.1 }).setObj slot d with mem := m } p r.2.2

lemma allocCommit_eq (G : GlobalState) (p slot blk need size flags tag : ℕ) :
    allocCommit G p slot blk need size flags tag =
      let F := allocOrder G p slot blk
      let r := allocBlock F.zone (poolEnd F (F.pools p)) (F.pools p).bins F.mem blk need
      freshObject F p slot r (freshDesc (F.objects slot) (blk + 8) size r.2.2 tag p flags
        (nextGeneration (G.objects slot).generation))
        (if flags &&& pmZeroInit ≠ 0 then memset r.2.1 (blk + 8) 0 size else r.2.1) := rfl

/-- `alloc` gives its object the state `Live`. -/
lemma allocCommit_restate (σ : ℕ → ObjState) (G : GlobalState)
    (p slot blk need size flags tag : ℕ) :
    allocCommit (restate σ G) p slot blk need size flags tag =
      restate (Function.update σ slot .live) (allocCommit G p slot blk need size flags tag) := by
  have horder : allocOrder (restate σ G) p slot blk =
      restate (Function.update σ slot .free) (allocOrder G p slot blk) :=
    Eq.trans (congrArg (orderAppend · p slot)
      (restate_update_setObj σ G slot { ObjectDesc.zero with address := blk + 8 }).symm)
      (orderAppend_blind p slot _ _)
  have hgen : ((restate σ G).objects slot).generation = (G.objects slot).generation := rfl
  rw [allocCommit_eq, allocCommit_eq, horder, hgen]
  dsimp only
  generalize allocOrder G p slot blk = F
  have hstop : ∀ τ, poolEnd (restate τ F) = poolEnd F := fun _ => rfl
  rw [hstop, restate_zone, restate_pools, restate_mem]
  generalize allocBlock F.zone (poolEnd F (F.pools p)) (F.pools p).bins F.mem blk need = r
  have hfresh : freshDesc ((restate (Function.update σ slot .free) F).objects slot) =
      freshDesc (F.objects slot) := rfl
  rw [hfresh]
  generalize hd : freshDesc (F.objects slot) (blk + 8) size r.2.2 tag p flags
    (nextGeneration (G.objects slot).generation) = d
  generalize (if flags &&& pmZeroInit ≠ 0 then memset r.2.1 (blk + 8) 0 size else r.2.1) = m
  have hstate : d.state = .live := by
    rw [← hd]
    rfl
  have hset := restate_update_setObj (Function.update σ slot .free)
    (F.setPool p { F.pools p with bins := r.1 }) slot d
  rw [hstate, Function.update_idem] at hset
  exact congrArg (fun E : GlobalState => allocStats { E with mem := m } p r.2.2) hset.symm

end Writes

/-! ### Operations -/

section Operations

variable (σ : ℕ → ObjState) (G : GlobalState)

lemma createPool_restate (n : ℕ) :
    createPool (restate σ G) n =
      ((createPool G n).1, (createPool G n).2.1, restate σ (createPool G n).2.2) := by
  have hgeo : poolGeometryOk (restate σ G) = poolGeometryOk G := rfl
  have hcount : (restate σ G).segmentCount = G.segmentCount := rfl
  have hempty : firstEmptyPool (restate σ G) = firstEmptyPool G := rfl
  rw [createPool, createPool]
  simp only [findRun_restate, restate_initialized, restate_pools, hgeo, hcount, hempty]
  split_ifs
  · rfl
  · rfl
  · rfl
  · rfl
  · cases findRun G n G.segmentCount 0 0 with
    | none => rfl
    | some base =>
        cases firstEmptyPool G with
        | none => rfl
        | some i => rfl

lemma destroyPool_restate (p : ℕ) :
    destroyPool (restate σ G) p = ((destroyPool G p).1, restate σ (destroyPool G p).2) := by
  have hpool : poolAt (restate σ G) p = poolAt G p := rfl
  rw [destroyPool, destroyPool, hpool, restate_initialized]
  cases poolAt G p with
  | none => split_ifs <;> rfl
  | some P =>
      dsimp only
      split_ifs <;> rfl

lemma pause_restate (p : ℕ) :
    pause (restate σ G) p = ((pause G p).1, restate σ (pause G p).2) := by
  have hpool : poolAt (restate σ G) p = poolAt G p := rfl
  rw [pause, pause, hpool]
  cases poolAt G p with
  | none => rfl
  | some P =>
      dsimp only
      split_ifs <;> rfl

lemma resume_restate (p : ℕ) :
    resume (restate σ G) p = ((resume G p).1, restate σ (resume G p).2) := by
  have hpool : poolAt (restate σ G) p = poolAt G p := rfl
  rw [resume, resume, hpool]
  cases poolAt G p with
  | none => rfl
  | some P =>
      dsimp only
      split_ifs <;> rfl

/-- A payload write asks no more than whether its object is free. -/
lemma clientWrite_restate {w : PayloadWrite}
    (hσ : σ w.slot = .free ↔ (G.objects w.slot).state = .free) :
    clientWrite (restate σ G) w = restate σ (clientWrite G w) := by
  rw [clientWrite, clientWrite]
  simp only [restate_objects, ne_eq, hσ]
  split_ifs <;> rfl

/-- `check_ref` reads the state of one object. -/
lemma checkRef_restate {ref : RawRef} (hσ : σ ref.index = (G.objects ref.index).state)
    (n a : ℕ) (rr : Bool) : checkRef (restate σ G) ref n a rr = checkRef G ref n a rr := by
  have hobj : (restate σ G).objects ref.index = G.objects ref.index := by
    rw [restate_objects, hσ]
  have hpool : poolAt (restate σ G) = poolAt G := rfl
  have hgeo : poolGeometryOk (restate σ G) = poolGeometryOk G := rfl
  have hwin : blockInWindow (restate σ G) = blockInWindow G := rfl
  rw [checkRef, checkRef, hobj, hpool, hgeo, hwin, restate_initialized]

lemma setDestroyFn_restate {ref : RawRef} (hσ : σ ref.index = (G.objects ref.index).state)
    (fn : Option ℕ) : setDestroyFn (restate σ G) ref fn =
      ((setDestroyFn G ref fn).1, restate σ (setDestroyFn G ref fn).2) := by
  have hset := restate_setObj σ G ref.index { G.objects ref.index with destroyFn := fn }
  have hpin : ((restate σ G).objects ref.index).pinned = (G.objects ref.index).pinned := rfl
  rw [setDestroyFn, setDestroyFn, checkRef_restate σ G hσ, hpin]
  cases checkRef G ref 0 1 false with
  | error e => rfl
  | ok addr =>
      dsimp only
      split_ifs
      · rfl
      · exact congrArg (Prod.mk Status.ok) hset.symm

omit [PmConfig] in
lemma borrowCommit_blind (p idx : ℕ) : Blind fun G => borrowCommit G p idx := by
  intro σ G
  have hset := restate_setObj σ
    (G.setPool p { G.pools p with borrowCount := u32 ((G.pools p).borrowCount + 1) }) idx
    { G.objects idx with activeBorrows := u32 ((G.objects idx).activeBorrows + 1) }
  generalize hn : u32 ((G.pools p).borrowCount + 1) = n at hset
  have hmax := congrArg (fun F : GlobalState =>
    { F with maxBorrowCount := if G.maxBorrowCount < n then n else G.maxBorrowCount }) hset.symm
  rw [← hn] at hmax
  exact hmax

lemma borrowBegin_restate {ref : RawRef} (hσ : σ ref.index = (G.objects ref.index).state)
    (n a : ℕ) : borrowBegin (restate σ G) ref n a =
      ((borrowBegin G ref n a).1, (borrowBegin G ref n a).2.1,
        restate σ (borrowBegin G ref n a).2.2) := by
  have hcommit := borrowCommit_blind (G.objects ref.index).poolId ref.index σ G
  rw [borrowBegin, borrowBegin, checkRef_restate σ G hσ]
  cases checkRef G ref n a true with
  | error e => rfl
  | ok addr => exact congrArg (fun F => (Status.ok, addr, F)) hcommit

lemma borrowEnd_restate {ref : RawRef} (hσ : σ ref.index = (G.objects ref.index).state) :
    borrowEnd (restate σ G) ref = restate σ (borrowEnd G ref) := by
  have hobj : (restate σ G).objects ref.index = G.objects ref.index := by
    rw [restate_objects, hσ]
  have hpool : poolAt (restate σ G) = poolAt G := rfl
  have hok : borrowEndOk (restate σ G) ref = borrowEndOk G ref := by
    rw [borrowEndOk, borrowEndOk, hobj, hpool, restate_initialized, restate_pools]
  rw [borrowEnd, borrowEnd, hok]
  split_ifs
  · have hset := restate_setObj σ G ref.index { G.objects ref.index with
      activeBorrows := (G.objects ref.index).activeBorrows - 1 }
    exact congrArg (fun F : GlobalState => F.setPool (G.objects ref.index).poolId
      { G.pools (G.objects ref.index).poolId with
        borrowCount := (G.pools (G.objects ref.index).poolId).borrowCount - 1 }) hset.symm
  · rfl

omit [PmConfig] in
lemma slotAlloc_restate :
    slotAlloc (restate σ G) = ((slotAlloc G).1, restate σ (slotAlloc G).2) := by
  rw [slotAlloc, slotAlloc, restate_freeSlotHead]
  split_ifs <;> rfl

/-- The states behind an `alloc` of slot `slot`, which may have been refused. -/
def allocStates (σ : ℕ → ObjState) (st : Status) (slot : ℕ) : ℕ → ObjState :=
  if st = .ok then Function.update σ slot .live else σ

lemma allocFrom_restate (slot p need size flags tag : ℕ) :
    allocFrom (restate σ G) slot p need size flags tag =
      let r := allocFrom G slot p need size flags tag
      (r.1, r.2.1, restate (allocStates σ r.1 slot) r.2.2) := by
  have hbits : binsBitmapConsistent (restate σ G) = binsBitmapConsistent G := rfl
  have hin : offInPool (restate σ G) = offInPool G := rfl
  have hgen : ((restate σ G).objects slot).generation = (G.objects slot).generation := rfl
  have hrel : slotRelease (restate σ G) slot = restate σ (slotRelease G slot) :=
    slotRelease_blind slot σ G
  rw [allocFrom, allocFrom]
  simp only [binsFind_restate, restate_pools, restate_zone, restate_mem, hbits, hin, hrel, hgen,
    allocCommit_restate]
  cases binsFind G (G.pools p).bins need with
  | none =>
      cases binsBitmapConsistent G (G.pools p) with
      | false => rfl
      | true => rfl
  | some blk =>
      let f := fun r : Status × RawRef × GlobalState =>
        (r.1, r.2.1, restate (allocStates σ r.1 slot) r.2.2)
      exact ite_map f rfl (ite_map f rfl rfl)

omit [PmConfig] in
lemma slotAlloc_fst (h : (slotAlloc G).1 ≠ noSlot) : (slotAlloc G).1 = G.freeSlotHead := by
  rw [slotAlloc] at h ⊢
  split_ifs at h ⊢
  · exact absurd rfl h
  · rfl

/-- `alloc` takes the first free slot, whatever the states of the others. -/
lemma alloc_restate (p size alignment flags tag : ℕ) :
    alloc (restate σ G) p size alignment flags tag =
      let r := alloc G p size alignment flags tag
      (r.1, r.2.1, restate (allocStates σ r.1 G.freeSlotHead) r.2.2) := by
  have hpool : poolAt (restate σ G) = poolAt G := rfl
  have hgeo : poolGeometryOk (restate σ G) = poolGeometryOk G := rfl
  let f := fun r : Status × RawRef × GlobalState =>
    (r.1, r.2.1, restate (allocStates σ r.1 G.freeSlotHead) r.2.2)
  rw [alloc, alloc, restate_initialized, hpool, hgeo, slotAlloc_restate]
  refine ite_map f rfl ?_
  cases poolAt G p with
  | none => rfl
  | some P =>
      refine ite_map f rfl (ite_map f rfl (ite_map f rfl (ite_map f rfl (ite_map f rfl
        (ite_map f rfl ?_)))))
      cases allocNeed size with
      | none => rfl
      | some need =>
          dsimp only
          by_cases hs : (slotAlloc G).1 = noSlot
          · rw [if_pos hs, if_pos hs]
            rfl
          · rw [if_neg hs, if_neg hs, allocFrom_restate, slotAlloc_fst G hs]

/-! ### Maintenance -/

section Maintenance

variable {σ G} (hσ : ∀ i, σ i = .live → (G.objects i).state = .live)

include hσ

lemma compactAudit_restate (p : ℕ) (req : Option CompactionRequest) :
    (∃ e, compactAudit (restate σ G) p req = .error e)
      ∨ compactAudit (restate σ G) p req = compactAudit G p req := by
  have hstart : poolStart (restate σ G) = poolStart G := rfl
  have hstop : poolEnd (restate σ G) = poolEnd G := rfl
  have hbars : barriersOf (restate σ G) = barriersOf G := rfl
  have hok : barriersOk (restate σ G) = barriersOk G := rfl
  rw [compactAudit, compactAudit, hstart, hstop, restate_pools, hbars, hok]
  by_cases hb : (G.pools p).borrowCount ≠ 0
  · rw [if_pos hb]
    exact Or.inl ⟨_, rfl⟩
  rw [if_neg hb, if_neg hb]
  rcases precheckPool_restate σ G hσ (G.pools p) p (poolStart G (G.pools p))
    (poolEnd G (G.pools p)) pmMaxObjects with h | h
  · rw [h]
    exact Or.inl ⟨_, rfl⟩
  · rw [h]
    exact Or.inr (by simp only [suffixMaxHole_restate, compactPlan_restate])

lemma mergeAudit_restate (s t : ℕ) :
    (∃ e, mergeAudit (restate σ G) s t = .error e)
      ∨ mergeAudit (restate σ G) s t = mergeAudit G s t := by
  have hstart : poolStart (restate σ G) = poolStart G := rfl
  have hstop : poolEnd (restate σ G) = poolEnd G := rfl
  have hbars : barriersOf (restate σ G) = barriersOf G := rfl
  have hok : barriersOk (restate σ G) = barriersOk G := rfl
  have hlo : lowerPool (restate σ G) s t = lowerPool G s t := rfl
  have hhi : upperPool (restate σ G) s t = upperPool G s t := rfl
  rw [mergeAudit, mergeAudit, hstart, hstop, hlo, hhi, hbars, hok, restate_pools]
  rcases precheckPool_restate σ G hσ (G.pools (lowerPool G s t)) (lowerPool G s t)
    (poolStart G (G.pools (lowerPool G s t))) (poolEnd G (G.pools (lowerPool G s t)))
    pmMaxObjects with h | h
  · rw [h]
    exact Or.inl ⟨_, rfl⟩
  rw [h]
  cases precheckPool G (G.pools (lowerPool G s t)) (lowerPool G s t)
    (poolStart G (G.pools (lowerPool G s t))) (poolEnd G (G.pools (lowerPool G s t)))
    pmMaxObjects with
  | none => exact Or.inl ⟨_, rfl⟩
  | some l =>
      dsimp only
      rcases precheckPool_restate σ G hσ (G.pools (upperPool G s t)) (upperPool G s t)
        (poolStart G (G.pools (upperPool G s t))) (poolEnd G (G.pools (upperPool G s t)))
        (pmMaxObjects - l.length) with h' | h'
      · rw [h']
        exact Or.inl ⟨_, rfl⟩
      · rw [h']
        exact Or.inr (by simp only [auditPoolBins_restate, mergePlan_restate])

lemma splitAudit_restate (s n : ℕ) :
    (∃ e, splitAudit (restate σ G) s n = .error e)
      ∨ splitAudit (restate σ G) s n = splitAudit G s n := by
  have hstart : poolStart (restate σ G) = poolStart G := rfl
  have hstop : poolEnd (restate σ G) = poolEnd G := rfl
  have hseg : segBase (restate σ G) = segBase G := rfl
  have hbars : barriersOf (restate σ G) = barriersOf G := rfl
  rw [splitAudit, splitAudit, hstart, hstop, hseg, hbars, restate_pools]
  rcases precheckPool_restate σ G hσ (G.pools s) s (poolStart G (G.pools s))
    (poolEnd G (G.pools s)) pmMaxObjects with h | h
  · rw [h]
    exact Or.inl ⟨_, rfl⟩
  · rw [h]
    exact Or.inr (by simp only [splitPlan_restate])

/-- `compact` over fewer live objects: it is refused, or all objects of its pool are alive and
it sees no difference. -/
theorem compact_restate {Ls : ℕ → List Piece} (h : GlobalInv G Ls) (p : ℕ)
    (req : Option CompactionRequest) (elapsed : ℕ) :
    (∃ e G', compact (restate σ G) p req elapsed = (e, false, restate σ G')
        ∧ (G' = G ∨ Active G p ∧ G' = G.setPool p { G.pools p with state := .paused }))
      ∨ (∀ i ∈ liveSlots (Ls p), σ i = .live)
        ∧ compact (restate σ G) p req elapsed =
          let r := compact G p req elapsed
          (r.1, r.2.1, restate σ r.2.2) := by
  have hpool : poolAt (restate σ G) p = poolAt G p := rfl
  have harm : compactArm (restate σ G) p = ((compactArm G p).1, restate σ (compactArm G p).2) := by
    let f := fun r : Status × GlobalState => (r.1, restate σ r.2)
    rw [compactArm, compactArm, restate_pools]
    exact ite_map f rfl (ite_map f rfl (ite_map f rfl rfl))
  rw [compact, compact, hpool, harm, restate_initialized]
  rw [if_neg (by simp [h.zone.init]), if_neg (by simp [h.zone.init])]
  by_cases hp : Active G p
  swap
  · rw [poolAt_eq_none.mpr hp]
    exact Or.inl ⟨_, G, rfl, Or.inl rfl⟩
  rw [poolAt_eq_some.mpr ⟨hp, rfl⟩]
  dsimp only
  rw [compactArm_healthy h hp]
  by_cases hb : (G.pools p).borrowCount = 0
  swap
  · rw [if_pos hb]
    exact Or.inl ⟨_, _, rfl, Or.inr ⟨hp, rfl⟩⟩
  rw [if_neg (not_not.mpr hb)]
  dsimp only
  have hpool₁ := (h.pool p hp).setState .compacting
  have hz₁ : ZoneOk (restate σ (G.setPool p { G.pools p with state := .compacting })) :=
    h.zone.of_same ⟨rfl, rfl, rfl, rfl, rfl⟩
  -- a refusal puts the state of the pool back
  have hrestore : ∀ e ≠ .ok, compactCommit (restate σ (G.setPool p
      { G.pools p with state := .compacting })) p e (decide ((G.pools p).state = .paused)) =
        restate σ G := fun e he => compactCommit_restore (G := restate σ G) (h.maintainable hp) he
  have hb₁ : ((G.setPool p { G.pools p with state := .compacting }).pools p).borrowCount = 0 := by
    simpa using hb
  have hσ₁ : ∀ i, σ i = .live →
      ((G.setPool p { G.pools p with state := .compacting }).objects i).state = .live := hσ
  generalize G.setPool p { G.pools p with state := .compacting } = G₁ at *
  rw [compactImpl, compactImpl]
  -- the audit walks over all objects, so it meets one that is not live
  by_cases hall : ∀ i ∈ liveSlots (Ls p), σ i = .live
  swap
  · push Not at hall
    obtain ⟨i, hi, hne⟩ := hall
    have haudit : compactAudit (restate σ G₁) p req = .error .corruptMetadata := by
      rw [compactAudit, restate_pools, if_neg (not_not.mpr hb₁),
        precheckPool_dying σ G₁ hpool₁ hi hne]
    rw [haudit]
    refine Or.inl ⟨.corruptMetadata, G, ?_, Or.inl rfl⟩
    rw [← hrestore .corruptMetadata (by decide)]
    rfl
  rcases compactAudit_restate hσ₁ p req with ⟨e, he⟩ | hsame
  · have hne : e ≠ .ok := fun h0 => compactAudit_ne_ok hz₁ req (h0 ▸ he)
    rw [he]
    refine Or.inl ⟨e, G, ?_, Or.inl rfl⟩
    rw [← hrestore e hne, decide_eq_false hne]
    rfl
  · rw [hsame]
    cases haudit : compactAudit G₁ p req with
    | error e =>
        have hcommit := compactCommit_blind p e (decide ((G.pools p).state = .paused)) σ G₁
        exact Or.inr ⟨hall, congrArg (fun F => (e, decide (e = .ok) && false, F)) hcommit⟩
    | ok r =>
        have hbody := ((execMoves_blind r.2.1).comp
          (compactRebuild_blind p r.1 r.2.1 elapsed)) σ G₁
        dsimp only at hbody ⊢
        rw [hbody]
        exact Or.inr ⟨hall, rfl⟩

omit hσ in
/-- The audit of `merge` refuses a pool of which some object is not alive. -/
lemma mergeAudit_dying {s t i : ℕ} {L U : List Piece}
    (hlo : PoolInv G (lowerPool G s t) L) (hhi : PoolInv G (upperPool G s t) U)
    (hi : i ∈ liveSlots L ∨ i ∈ liveSlots U) (hne : σ i ≠ .live) :
    mergeAudit (restate σ G) s t = .error .corruptMetadata := by
  have hl : lowerPool (restate σ G) s t = lowerPool G s t := rfl
  have hu : upperPool (restate σ G) s t = upperPool G s t := rfl
  rw [mergeAudit, hl, hu, restate_pools]
  rcases hi with hi | hi
  · rw [precheckPool_dying σ G hlo hi hne]
  · cases precheckPool (restate σ G) (G.pools (lowerPool G s t)) (lowerPool G s t)
        (poolStart (restate σ G) (G.pools (lowerPool G s t)))
        (poolEnd (restate σ G) (G.pools (lowerPool G s t))) pmMaxObjects with
    | none => rfl
    | some l =>
        dsimp only
        rw [precheckPool_dying σ G hhi hi hne]

/-- `merge` over fewer live objects: it is refused, or all objects of its pools are alive and it
sees no difference. -/
theorem merge_restate {Ls : ℕ → List Piece} (h : GlobalInv G Ls) (s t : ℕ) :
    (∃ e, merge (restate σ G) s t = (e, restate σ G))
      ∨ (∀ i, i ∈ liveSlots (Ls s) ∨ i ∈ liveSlots (Ls t) → σ i = .live)
        ∧ merge (restate σ G) s t =
          let r := merge G s t
          (r.1, restate σ r.2) := by
  have harm : mergeArm (restate σ G) s t =
      ((mergeArm G s t).1, restate σ (mergeArm G s t).2) := by
    have hpool : poolAt (restate σ G) = poolAt G := rfl
    rw [mergeArm, mergeArm, hpool]
    cases poolAt G s with
    | none => rfl
    | some S =>
        cases poolAt G t with
        | none => rfl
        | some T =>
            let f := fun r : Status × GlobalState => (r.1, restate σ r.2)
            exact ite_map f rfl (ite_map f rfl (ite_map f rfl rfl))
  by_cases hst : s = t
  · exact Or.inl ⟨.invalidPool, by rw [merge, if_neg (by simp [h.zone.init]), if_pos hst]⟩
  by_cases hr : MergeReady G s t
  swap
  · obtain ⟨st, hrefused, hcases⟩ := (mergeArm_healthy h hst).2 hr
    rw [hrefused] at harm
    refine Or.inl ⟨st, ?_⟩
    rw [merge, if_neg (by simp [h.zone.init]), if_neg hst, harm]
    rcases hcases with rfl | rfl | rfl <;> rfl
  have harmed := (mergeArm_healthy h hst).1 hr
  rw [harmed] at harm
  have hinit : (restate σ G).initialized = true := h.zone.init
  rw [merge_armed h.zone.init hst harmed, merge_armed hinit hst harm]
  have hrestore : mergeRestore (restate σ (mergeArmed G s t)) s t (G.pools s).state
      (G.pools t).state = restate σ G := mergeRestore_armed (G := restate σ G) hst
  have hlo := (h.pool _ hr.active.1).mergeArmed hst
  have hhi := (h.pool _ hr.active.2).mergeArmed hst
  have hpair : ∀ i, i ∈ liveSlots (Ls s) ∨ i ∈ liveSlots (Ls t) ↔
      i ∈ liveSlots (Ls (lowerPool (mergeArmed G s t) s t))
        ∨ i ∈ liveSlots (Ls (upperPool (mergeArmed G s t) s t)) := by
    intro i
    rw [lowerPool, upperPool]
    split_ifs
    · rfl
    · exact or_comm
  rw [← (mergeArmed_lower hst).2.1] at hlo
  rw [← (mergeArmed_lower hst).2.2] at hhi
  have hσ₁ : ∀ i, σ i = .live → ((mergeArmed G s t).objects i).state = .live := hσ
  simp only [hpair, restate_pools]
  generalize mergeArmed G s t = G₁ at *
  -- an object that is not live any more is refused by the precheck
  by_cases hall : ∀ i, i ∈ liveSlots (Ls (lowerPool G₁ s t))
      ∨ i ∈ liveSlots (Ls (upperPool G₁ s t)) → σ i = .live
  swap
  · push Not at hall
    obtain ⟨i, hi, hne⟩ := hall
    rw [mergeAudit_dying hlo hhi hi hne]
    exact Or.inl ⟨_, congrArg (Prod.mk _) hrestore⟩
  rcases mergeAudit_restate hσ₁ s t with ⟨e, he⟩ | hsame
  · rw [he]
    exact Or.inl ⟨e, congrArg (Prod.mk e) hrestore⟩
  refine Or.inr ⟨hall, ?_⟩
  rw [hsame]
  cases mergeAudit G₁ s t with
  | error e => rfl
  | ok r =>
      -- the body reads no state of a descriptor
      have hbody := ((mergeMoves_blind t (sourceBelow (G₁.pools s) (G₁.pools t)) r.1.length
        r.2.2).comp (mergeRebuild_blind s t (r.1 ++ r.2.1) r.2.2)) σ G₁
      dsimp only at hbody ⊢
      rw [hbody]
      rfl

/-- `split` over fewer live objects: it is refused, or all objects of its pool are alive and it
sees no difference. -/
theorem split_restate {Ls : ℕ → List Piece} (h : GlobalInv G Ls) (s n : ℕ) :
    (∃ e, split (restate σ G) s n = (e, none, restate σ G))
      ∨ (∀ i ∈ liveSlots (Ls s), σ i = .live)
        ∧ split (restate σ G) s n =
          let r := split G s n
          (r.1, r.2.1, restate σ r.2.2) := by
  -- arming reads pools only
  have harm : splitArm (restate σ G) s n =
      ((splitArm G s n).1, (splitArm G s n).2.1, restate σ (splitArm G s n).2.2) := by
    have hpool : poolAt (restate σ G) = poolAt G := rfl
    let f := fun r : Status × Option ℕ × GlobalState => (r.1, r.2.1, restate σ r.2.2)
    rw [splitArm, splitArm, hpool, restate_pools]
    cases poolAt G s with
    | none => rfl
    | some S =>
        refine ite_map f rfl (ite_map f rfl (ite_map f rfl ?_))
        generalize (List.range pmMaxPools).find? _ = r
        cases r with
        | none => rfl
        | some nid => rfl
  rcases splitArm_healthy (s := s) (n := n) h with ⟨nid, hr, harmed⟩ | ⟨-, st, harmed, hcases⟩
  swap
  · rw [harmed] at harm
    refine Or.inl ⟨st, ?_⟩
    rw [split, if_neg (by simp [h.zone.init]), harm]
    rcases hcases with rfl | rfl | rfl <;> rfl
  rw [harmed] at harm
  have hinit : (restate σ G).initialized = true := h.zone.init
  rw [split_armed h.zone.init harmed, split_armed hinit harm]
  obtain ⟨hlt, hempty, -⟩ := firstEmptyPool_some hr.entry
  -- a refusal puts both entries back
  have hrestore : splitRestore (restate σ (splitArmed G s nid)) s nid (G.pools s).state =
      restate σ G := splitRestore_armed (G := restate σ G) hr.ne (h.empty nid hlt hempty)
  have hpool₁ := (h.pool s hr.source).splitArmed hr.ne
  have hσ₁ : ∀ i, σ i = .live → ((splitArmed G s nid).objects i).state = .live := hσ
  rw [restate_pools]
  generalize splitArmed G s nid = G₁ at *
  -- the audit walks over all objects, so it meets one that is not live
  by_cases hall : ∀ i ∈ liveSlots (Ls s), σ i = .live
  swap
  · push Not at hall
    obtain ⟨i, hi, hne⟩ := hall
    have haudit : splitAudit (restate σ G₁) s n = .error .corruptMetadata := by
      rw [splitAudit, restate_pools, precheckPool_dying σ G₁ hpool₁ hi hne]
    rw [haudit]
    exact Or.inl ⟨_, congrArg (fun F => (Status.corruptMetadata, none, F)) hrestore⟩
  rcases splitAudit_restate hσ₁ s n with ⟨e, he⟩ | hsame
  · rw [he]
    exact Or.inl ⟨e, congrArg (fun F => (e, none, F)) hrestore⟩
  refine Or.inr ⟨hall, ?_⟩
  rw [hsame]
  cases splitAudit G₁ s n with
  | error e => rfl
  | ok r =>
      have hbody := ((execMoves_blind r.2.moves).comp (splitRebuild_blind s nid n r.1)) σ G₁
      dsimp only at hbody ⊢
      rw [hbody]
      rfl

end Maintenance

end Operations

end PondMerge
