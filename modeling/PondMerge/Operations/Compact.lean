import PondMerge.Operations.Plan
import PondMerge.Operations.Collect
import PondMerge.Operations.Accounting

/-!
`compact` on the representation invariant.

* `PoolInv.fits`: the live blocks of a healthy pool stand in a row.
* `compactBody_repacked`: moves and rebuild relocate the objects of the pool.
* `compact_healthy`: what `compact` comes to in a healthy state.
-/

namespace PondMerge

open ByteMemory LinkedList Relocation Tiling

variable [PmConfig]

/-! ### Blocks of a healthy pool -/

omit [PmConfig] in
lemma DescOk.start {d : ObjectDesc} {p x n : ℕ} (h : DescOk d p x n) : d.block = x := by
  rw [ObjectDesc.block, h.address]
  omega

omit [PmConfig] in
/-- The live blocks of a layout stand in a row. -/
lemma fits_layout {obj : ℕ → ObjectDesc} {a : ℕ} {M : List Piece}
    (hd : ∀ {x s n}, LiveAt a M x s n → (obj s).block = x ∧ (obj s).blockSize = n) :
    Fits obj (a + total Piece.len M) a (liveSlots M) := by
  induction M generalizing a with
  | nil => exact Nat.le_add_right _ _
  | cons t M ih =>
      have hrest := ih (a := a + t.len) fun hx => hd (List.mem_cons_of_mem _ hx)
      rw [Nat.add_assoc, ← total_cons] at hrest
      cases t with
      | free n => exact hrest.mono (Nat.le_add_right _ _)
      | slack n => exact hrest.mono (Nat.le_add_right _ _)
      | live s n =>
          obtain ⟨hb, hs⟩ := hd (x := a) (s := s) (n := n) List.mem_cons_self
          refine ⟨hb.ge, ?_⟩
          rw [hb, hs]
          exact hrest

section Pool

variable {G : GlobalState} {p : ℕ} {L : List Piece}

/-- What the descriptor audit establishes, whatever bins, slack and `prev_size` words hold:
the slots of the live-slot list have sane blocks in a row. -/
structure Audited (G : GlobalState) (p : ℕ) (slots : List ℕ) : Prop where
  segLe : (G.pools p).segmentFirst + (G.pools p).segmentCount ≤ G.segmentCount
  fits : Fits G.objects (poolEnd G (G.pools p)) (poolStart G (G.pools p)) slots
  blockOk : ∀ i ∈ slots, BlockOk (G.objects i) i
  address : ∀ i ∈ slots, (G.objects i).address = (G.objects i).block + 8
  sizeLe : ∀ i ∈ slots, (G.objects i).size + 8 ≤ (G.objects i).blockSize
  listed : ∀ i ∈ slots, Listed G p i
  order : ∃ l, IsDList (fun i => (G.objects i).addrNext) (fun i => (G.objects i).addrPrev)
    noOrder noOrder (G.pools p).orderHead l ∧ l.Perm slots
  live : (G.pools p).liveObjects = slots.length

lemma Audited.nodup {slots : List ℕ} (h : Audited G p slots) : slots.Nodup := by
  refine h.fits.pairwise.imp_of_mem fun {i j} hi _ hij heq => ?_
  have hb := h.sizeLe i hi
  subst heq
  omega

lemma Audited.congr {G' : GlobalState} {slots : List ℕ} (h : Audited G p slots)
    (hz : SameZone G G') (hP : SameShape (G.pools p) (G'.pools p))
    (hobj : G'.objects = G.objects) : Audited G' p slots := by
  refine ⟨?_, ?_, ?_, ?_, ?_, fun i hi => ?_, ?_, hP.liveObjects.trans h.live⟩
  · rw [hP.segmentFirst, hP.segmentCount, hz.segmentCount]; exact h.segLe
  · rw [hobj, hz.poolStart hP.segmentFirst, hz.poolEnd hP]; exact h.fits
  · rw [hobj]; exact h.blockOk
  · rw [hobj]; exact h.address
  · rw [hobj]; exact h.sizeLe
  · rw [Listed, hobj]; exact h.listed i hi
  · rw [hobj, hP.orderHead]; exact h.order

/-- The loop of `precheck_pool` accepts sane blocks in a row only. -/
lemma precheckWalk_sound {start stop : ℕ} {l : List ℕ} {e used n : ℕ} (he : e ≤ stop)
    (h : precheckWalk G start stop l e used = some n) :
    Fits G.objects stop e l
      ∧ ∀ i ∈ l, pmMinBlock ≤ (G.objects i).blockSize ∧ (G.objects i).blockSize % 8 = 0
        ∧ (G.objects i).block % 8 = 0 ∧ (G.objects i).address = (G.objects i).block + 8
        ∧ (G.objects i).size + 8 ≤ (G.objects i).blockSize := by
  have h16 := PmConfig.minBlock_ge
  induction l generalizing e used with
  | nil => exact ⟨he, by simp⟩
  | cons i l ih =>
      rw [precheckWalk] at h
      cases hslot : precheckSlot G start stop e (G.objects i) with
      | false => simp [hslot] at h
      | true =>
          rw [hslot, if_neg (by simp)] at h
          rw [precheckSlot] at hslot
          simp only [decide_eq_true_eq] at hslot
          obtain ⟨hmin, hmod, hsize, hlo, hamod, hlt, -, hfit, -, hprev, -⟩ := hslot
          have haddr : (G.objects i).address = (G.objects i).block + 8 := by
            rw [ObjectDesc.block]
            omega
          obtain ⟨hrow, hall⟩ := ih (by omega) h
          refine ⟨⟨hprev, hrow⟩, fun j hj => ?_⟩
          rcases List.mem_cons.mp hj with rfl | hj
          · exact ⟨hmin, hmod, by omega, haddr, by omega⟩
          · exact hall j hj

/-- The descriptor audit, over an arbitrary state. -/
theorem precheckPool_audited {slots : List ℕ} {cap : ℕ}
    (h : precheckPool G (G.pools p) p (poolStart G (G.pools p)) (poolEnd G (G.pools p)) cap =
      some slots) : Audited G p slots := by
  rw [precheckPool] at h
  -- the checks of the audit in their order
  cases hgeo : poolGeometryOk G (G.pools p) with
  | false => simp [hgeo] at h
  | true =>
      rw [hgeo, if_neg (by simp), collectLiveSorted] at h
      cases hwalk : collectWalk G p (pmMaxObjects + 1) cap noOrder (G.pools p).orderHead with
      | none => simp [hwalk] at h
      | some l =>
          rw [hwalk] at h
          dsimp only at h
          obtain ⟨hlist, hlisted, -⟩ := collectWalk_sound hwalk
          have hperm := collectSort_perm G fun i hi => (hlisted i hi).1
          by_cases hdist : distinctAddresses G (collectSort G l) = true
          swap
          · simp [hdist] at h
          rw [if_pos hdist] at h
          dsimp only at h
          cases hpre : precheckWalk G (poolStart G (G.pools p)) (poolEnd G (G.pools p))
              (collectSort G l) (poolStart G (G.pools p)) 0 with
          | none => simp [hpre] at h
          | some used =>
              rw [hpre] at h
              dsimp only at h
              by_cases hlen : (collectSort G l).length ≠ (G.pools p).liveObjects
                  ∨ used ≠ (G.pools p).usedBytes
              · simp [hlen] at h
              rw [if_neg hlen] at h
              by_cases hfree : (G.pools p).freeBytes ≠
                  sub32 (u32 (poolEnd G (G.pools p) - poolStart G (G.pools p))) used
              · simp [hfree] at h
              rw [if_neg hfree] at h
              obtain rfl : collectSort G l = slots := Option.some.inj h
              rw [poolGeometryOk, decide_eq_true_eq] at hgeo
              have hle : poolStart G (G.pools p) ≤ poolEnd G (G.pools p) :=
                Nat.add_le_add_left (Nat.mul_le_mul_right _ (Nat.le_add_right _ _)) _
              obtain ⟨hrow, hall⟩ := precheckWalk_sound hle hpre
              have hin := fun i hi => hlisted i (hperm.mem_iff.mp hi)
              refine ⟨hgeo.1, hrow, fun i hi => ?_, fun i hi => (hall i hi).2.2.2.1,
                fun i hi => (hall i hi).2.2.2.2, hin, ⟨l, hlist, hperm.symm⟩, by omega⟩
              obtain ⟨h1, h2, h3, -⟩ := hall i hi
              exact ⟨(hin i hi).1, h1, h2, h3⟩

lemma PoolInv.fits (h : PoolInv G p L) :
    Fits G.objects (poolEnd G (G.pools p)) (poolStart G (G.pools p)) (liveSlots L) := by
  rw [h.end_eq]
  exact fits_layout fun hx => ⟨(h.desc hx).start, (h.desc hx).block⟩

lemma PoolInv.blockOk (hz : ZoneOk G) (h : PoolInv G p L) {i : ℕ} (hi : i ∈ liveSlots L) :
    BlockOk (G.objects i) i := by
  obtain ⟨x, n, hx, hd⟩ := h.desc_of_mem hi
  obtain ⟨hlt, hmin, hmod⟩ := hx.size_ge h.layout.pieces
  have hxmod := place_mod h.layout.pieces (PoolInv.start_mod hz) hx
  refine ⟨hlt, ?_, ?_, ?_⟩
  · rw [hd.block]
    exact hmin
  · rw [hd.block]
    exact hmod
  · rw [hd.start]
    exact hxmod

/-- The descriptor of a live slot, in terms of itself. -/
lemma PoolInv.desc_self (h : PoolInv G p L) {i : ℕ} (hi : i ∈ liveSlots L) :
    DescOk (G.objects i) p (G.objects i).block (G.objects i).blockSize := by
  obtain ⟨x, n, hx, hd⟩ := h.desc_of_mem hi
  rw [hd.start, hd.block]
  exact hd

lemma PoolInv.audited (hz : ZoneOk G) (h : PoolInv G p L) : Audited G p (liveSlots L) :=
  ⟨h.segLe, h.fits, fun _ hi => h.blockOk hz hi, fun _ hi => (h.desc_self hi).address,
    fun _ hi => (h.desc_self hi).sizeLe, fun _ hi => h.listed hi, h.order, h.live⟩

end Pool

/-! ### Audit and body -/

section Body

variable {G : GlobalState} {p : ℕ} {L : List Piece}

/-- The barrier screen accepts a healthy pool. -/
lemma PoolInv.barriers (h : PoolInv G p L) {start stop : ℕ}
    (hstart : start ≤ poolStart G (G.pools p)) (hstop : poolEnd G (G.pools p) ≤ stop) :
    barriersOk G start stop (liveSlots L) = true := by
  rw [barriersOk, List.all_eq_true]
  intro i hi
  have hb := h.fits.bounds hi
  have hd := h.desc_self hi
  have haddr := hd.address
  have hsize := hd.sizeLe
  cases hp : (G.objects i).pinned with
  | false => rfl
  | true =>
      simp only [Bool.not_true, Bool.false_or, Bool.and_eq_true, decide_eq_true_eq]
      omega

/-- The plan a request calls for on the slots of a pool. -/
def planOf (G : GlobalState) (p : ℕ) (req : Option CompactionRequest) (slots : List ℕ) :
    List MovePlanEntry × Bool :=
  planRow G.objects (poolEnd G (G.pools p)) (targetNeed req) (req.elim 0 (·.maxMoveBytes))
    (req.elim 0 (·.maxMoveObjects)) slots (poolStart G (G.pools p)) 0 0

/-- What `compact_impl` reports about its target. -/
def metOf (G : GlobalState) (p : ℕ) (req : Option CompactionRequest) (slots : List ℕ) : Bool :=
  targetNeed req = 0 ∨ (planOf G p req slots).2 = true

omit [PmConfig] in
/-- The plan of a full compaction packs the row. -/
lemma planOf_none (G : GlobalState) (p : ℕ) (slots : List ℕ) :
    (planOf G p none slots).1 = packMoves G.objects slots (poolStart G (G.pools p)) := by
  rw [planOf]
  exact congrArg Prod.fst (planRow_full 0 0)

omit [PmConfig] in
/-- And it has no target to miss. -/
lemma metOf_none (G : GlobalState) (p : ℕ) (slots : List ℕ) : metOf G p none slots = true := by
  rw [metOf]
  exact decide_eq_true (Or.inl rfl)

/-- The plan of audited slots. -/
lemma compactPlan_slots (hz : ZoneOk G) {slots : List ℕ} (h : Audited G p slots)
    (req : Option CompactionRequest) :
    compactPlan G req (poolEnd G (G.pools p))
        (slots.zip (suffixMaxHole G (poolEnd G (G.pools p)) slots)) (poolStart G (G.pools p))
        (barriersOf G slots) 0 0 = .ok (planOf G p req slots)
      ∧ Packs G.objects (poolStart G (G.pools p)) slots (planOf G p req slots).1
      ∧ ∀ x ∈ (planOf G p req slots).1, x.dst % 8 = 0 ∧ (G.objects x.slot).pinned = false := by
  obtain ⟨hpack, hdst⟩ := @planRow_packs _ G.objects _ _ _ (targetNeed req)
    (req.elim 0 (·.maxMoveBytes)) (req.elim 0 (·.maxMoveObjects)) _ h.fits le_rfl
    (PoolInv.start_mod hz) h.blockOk 0 0
  exact ⟨compactPlan_eq req h.fits le_rfl 0 0, hpack, fun x hx =>
    ⟨hdst x hx, (packMoves_entry ((planRow_initial 0 0).subset hx)).2.2⟩⟩

/-- The audit and the plan of `compact_impl` on a healthy pool without borrows. -/
lemma compactAudit_spec (hz : ZoneOk G) (h : PoolInv G p L)
    (hborrow : (G.pools p).borrowCount = 0) {req : Option CompactionRequest}
    (hreq : requestOk req = true) :
    compactAudit G p req =
      .ok (liveSlots L, (planOf G p req (liveSlots L)).1, metOf G p req (liveSlots L)) := by
  rw [compactAudit, if_neg (not_not.mpr hborrow), h.precheck hz h.layout.length_le]
  dsimp only
  rw [h.barriers le_rfl le_rfl, if_neg (by simp), hreq, if_neg (by simp),
    (compactPlan_slots hz (h.audited hz) req).1]
  rfl

/-- A malformed request is refused after the audit. -/
lemma compactAudit_badRequest (hz : ZoneOk G) (h : PoolInv G p L)
    (hborrow : (G.pools p).borrowCount = 0) {req : Option CompactionRequest}
    (hreq : requestOk req = false) : compactAudit G p req = .error .invalidRequest := by
  rw [compactAudit, if_neg (not_not.mpr hborrow), h.precheck hz h.layout.length_le]
  dsimp only
  rw [h.barriers le_rfl le_rfl, if_neg (by simp), hreq, if_pos (by simp)]

/-- The layout a rebuild makes of the blocks of `slots` in pool `p`. -/
def packedLayout (F : GlobalState) (p : ℕ) (slots : List ℕ) : List Piece :=
  packed F.objects (poolEnd F (F.pools p)) (poolStart F (F.pools p)) slots

/-- What moves and rebuild make of audited slots: their blocks, repacked, tile the window. -/
structure Repacked (G F : GlobalState) (p : ℕ) (slots : List ℕ) : Prop where
  tiled : Tiled F p (packedLayout F p slots)
  audited : Audited F p slots
  relocated : Relocated G F slots
  body : ∀ i ∈ slots, ∀ k, 8 ≤ k → k < (G.objects i).blockSize →
    F.mem ((F.objects i).block + k) = G.mem ((G.objects i).block + k)
  mem : ∀ z, ¬ InWindow G p z → F.mem z = G.mem z

/-- What has been repacked is read off memory, descriptors and the entry's shape. -/
lemma Repacked.congr {F G₁ C : GlobalState} {slots : List ℕ} (h : Repacked G₁ F p slots)
    (hobj : G.objects = G₁.objects) (hmem : G.mem = G₁.mem)
    (hwin : ∀ z, InWindow G p z ↔ InWindow G₁ p z) (hz : SameZone F C)
    (hP : SameShape (F.pools p) (C.pools p)) (hCobj : C.objects = F.objects)
    (hCmem : C.mem = F.mem) : Repacked G C p slots := by
  refine ⟨?_, h.audited.congr hz hP hCobj, h.relocated.congr hobj hmem hCobj hCmem, ?_,
    fun z hout => ?_⟩
  · rw [packedLayout, hCobj, hz.poolStart hP.segmentFirst, hz.poolEnd hP]
    exact h.tiled.congr hz hP hCmem
  · rw [hobj, hmem, hCobj, hCmem]
    exact h.body
  · rw [hmem, hCmem]
    exact h.mem z fun hin => hout ((hwin z).mpr hin)

/-- Repacked slots of non-empty objects represent a layout. -/
lemma Repacked.poolInv {F : GlobalState} {slots : List ℕ} (h : Repacked G F p slots)
    (hpos : 0 < (F.pools p).segmentCount) (hsize : ∀ i ∈ slots, 0 < (F.objects i).size) :
    PoolInv F p (packedLayout F p slots) := by
  have ha := h.audited
  refine h.tiled.poolInv hpos ha.segLe (fun {x s n} hx => ?_) ?_ ?_
  · obtain ⟨hs, rfl, rfl⟩ := (liveAt_packed ha.fits).mp hx
    obtain ⟨-, hst, hpid, hgen⟩ := ha.listed s hs
    exact ⟨hst, hpid, ha.address s hs, rfl, hsize s hs, ha.sizeLe s hs, hgen⟩
  · rw [OrderOk, packedLayout, liveSlots_packed]
    exact ha.order
  · rw [packedLayout, liveSlots_packed]
    exact ha.live

/-- Moves and rebuild of a packing plan, over audited slots. -/
theorem compactBody_repacked (hz : ZoneOk G) {slots : List ℕ} (h : Audited G p slots)
    {plan : List MovePlanEntry}
    (hpack : Packs G.objects (poolStart G (G.pools p)) slots plan)
    (hdst : ∀ x ∈ plan, x.dst % 8 = 0 ∧ (G.objects x.slot).pinned = false) :
    Repacked G (finalizeLayout (execMoves G plan) p (poolStart G (G.pools p))
      (poolEnd G (G.pools p)) slots) p slots := by
  have hfit := h.fits
  have hnd := h.nodup
  have hsub := hpack.sublist
  have hndp : (plan.map (·.slot)).Nodup := hsub.nodup hnd
  have hself := fun x (hx : x ∈ plan) => execMove_step.foldl_self hndp hx G
  have hother := fun i (hi : i ∉ plan.map (·.slot)) => execMove_step.foldl_other hi G
  have hmem := execMove_step.foldl_mem hndp G
  have hpools := execMove_step.foldl_pools plan G
  obtain ⟨hzone, -, -⟩ := execMove_step.foldl_zone plan G
  rw [← execMoves] at hself hother hmem hpools hzone
  generalize execMoves G plan = E at *
  have hEobj : ∀ i, Kept (G.objects i) (E.objects i) ∧ (E.objects i).poolId = (G.objects i).poolId
      ∧ (E.objects i).addrPrev = (G.objects i).addrPrev
      ∧ (E.objects i).addrNext = (G.objects i).addrNext := by
    intro i
    by_cases hi : i ∈ plan.map (·.slot)
    · obtain ⟨x, hx, rfl⟩ := List.mem_map.mp hi
      rw [hself x hx]
      exact ⟨⟨rfl, rfl, rfl, rfl, rfl, rfl, rfl, rfl, rfl⟩, rfl, rfl, rfl⟩
    · rw [hother i hi]
      exact ⟨Kept.refl _, rfl, rfl, rfl⟩
  have hEblock : ∀ x ∈ plan, (E.objects x.slot).block = x.dst := by
    intro x hx
    rw [hself x hx]
    simp [ObjectDesc.block, movedDesc]
  have hEaddr : ∀ i ∈ slots, (E.objects i).address = (E.objects i).block + 8
      ∧ (E.objects i).block % 8 = 0 := by
    intro i hi
    by_cases hm : i ∈ plan.map (·.slot)
    · obtain ⟨x, hx, rfl⟩ := List.mem_map.mp hm
      rw [hEblock x hx, hself x hx]
      exact ⟨rfl, (hdst x hx).1⟩
    · rw [hother i hm]
      exact ⟨h.address i hi, (h.blockOk i hi).2.2.2⟩
  have hfit' : Fits E.objects (poolEnd G (G.pools p)) (poolStart G (G.pools p)) slots :=
    hpack.fits hnd hfit le_rfl hEblock (fun i _ hi => by rw [hother i hi])
      fun i _ => (hEobj i).1.blockSize
  have hstart : poolStart G (G.pools p) = poolStart E (E.pools p) := by
    rw [hzone.poolStart (by rw [hpools])]
  have hstop : poolEnd G (G.pools p) = poolEnd E (E.pools p) := by
    rw [poolEnd, poolEnd, segBase, segBase, hzone.zone, hzone.segmentSize, hpools]
  have hfilter : slots.filter (insideWindow E.objects (poolStart G (G.pools p))
      (poolEnd G (G.pools p))) = slots := hfit'.filter_inside
  have hblk : ∀ i ∈ slots, BlockOk (E.objects i) i := by
    intro i hi
    have hb := h.blockOk i hi
    have hk := (hEobj i).1
    exact ⟨hb.1, by rw [hk.blockSize]; exact hb.2.1, by rw [hk.blockSize]; exact hb.2.2.1,
      (hEaddr i hi).2⟩
  obtain ⟨htiled, hframe⟩ := finalizeLayout_tiled (G := E) (p := p) (hz.of_same hzone)
    (by rw [hpools, hzone.segmentCount]; exact h.segLe) hstart hstop hfilter hfit' hblk hnd
  obtain ⟨hfirst, hcount, hhead, hlive⟩ := @finalizeLayout_entry _ E p
    (poolStart G (G.pools p)) (poolEnd G (G.pools p)) slots
  have hFstart := @finalizeLayout_start _ E p (poolStart G (G.pools p)) (poolEnd G (G.pools p))
    slots
  have hFobj := @finalizeLayout_objects _ E p (poolStart G (G.pools p)) (poolEnd G (G.pools p))
    slots
  have hFz := (@finalizeLayout_rest _ E p (poolStart G (G.pools p)) (poolEnd G (G.pools p))
    slots).1
  generalize finalizeLayout E p (poolStart G (G.pools p)) (poolEnd G (G.pools p)) slots = F at *
  have hFstop : poolEnd F (F.pools p) = poolEnd G (G.pools p) := by
    rw [hstop, poolEnd, poolEnd, segBase, segBase, hFz.zone, hFz.segmentSize, hfirst, hcount]
  rw [← hstart] at hFstart
  have hsafe := hpack.safe hfit
  -- the bodies of the blocks are no metadata of the new layout
  have hbody : ∀ i ∈ slots, ∀ k, 8 ≤ k → k < (G.objects i).blockSize →
      F.mem ((F.objects i).block + k) =
        run G.mem (plan.map (moveOf G.objects)) ((F.objects i).block + k) := by
    intro i hi k hlo hhi
    rw [← hmem, hFobj]
    refine hframe _ fun hm => ?_
    refine hm.not_body htiled.layout.pieces ((liveAt_packed hfit').mpr ⟨hi, rfl, rfl⟩) ?_
    rw [(hEobj i).1.blockSize]
    omega
  have hin : ∀ x ∈ plan, (F.objects x.slot).block = x.dst ∧ x.slot ∈ slots
      ∧ x.size = (G.objects x.slot).blockSize := fun x hx =>
    ⟨by rw [hFobj, hEblock x hx], hsub.subset (List.mem_map_of_mem hx), (hpack.entry hx).2.2⟩
  have hout : ∀ i ∈ slots, i ∉ plan.map (·.slot) →
      (F.objects i).block = (G.objects i).block := fun i _ hi => by rw [hFobj, hother i hi]
  refine ⟨?_, ⟨?_, ?_, ?_, ?_, ?_, ?_, ?_, ?_⟩, ?_, fun i hi k hlo hhi => ?_, fun z hz' => ?_⟩
  · rw [packedLayout, hFobj, hFstart, hFstop]
    exact htiled
  · rw [hfirst, hcount, hpools, hFz.segmentCount, hzone.segmentCount]
    exact h.segLe
  · rw [hFobj, hFstart, hFstop]
    exact hfit'
  · rw [hFobj]
    exact hblk
  · rw [hFobj]
    exact fun i hi => (hEaddr i hi).1
  · intro i hi
    rw [hFobj, (hEobj i).1.size, (hEobj i).1.blockSize]
    exact h.sizeLe i hi
  · intro i hi
    obtain ⟨hlt, hst, hpid, hgen⟩ := h.listed i hi
    rw [Listed, hFobj, (hEobj i).1.state, (hEobj i).2.1, (hEobj i).1.generation]
    exact ⟨hlt, hst, hpid, hgen⟩
  · obtain ⟨l, hl, hperm⟩ := h.order
    refine ⟨l, ?_, hperm⟩
    rw [hhead, hpools, hFobj]
    exact hl.congr (fun i _ => (hEobj i).2.2.2) fun i _ => (hEobj i).2.2.1
  · rw [hlive, hpools]
    exact h.live
  · refine relocated_of_plan hsafe hin (fun x hx hp => ?_) hout hfit (by rw [hFobj]; exact hfit')
      (fun i _ => by rw [hFobj]; exact (hEobj i).1)
      (fun i hi => ⟨h.address i hi, by rw [hFobj]; exact (hEaddr i hi).1⟩)
      h.sizeLe (fun i hi k hk => ?_) fun i hi => ?_
    · rw [(hdst x hx).2] at hp
      cases hp
    · have hs := h.sizeLe i hi
      have hb := hbody i hi (8 + k) (by omega) (by omega)
      rwa [← Nat.add_assoc] at hb
    · rw [hFobj]
      exact hother i fun hm => hi (hsub.subset hm)
  · rw [hbody i hi k hlo hhi]
    refine run_block hsafe hin hout (fun i _ => by rw [hFobj]; exact (hEobj i).1.blockSize)
      (fun i hi j hj hne => ?_) hi hhi
    rw [hFobj]
    exact apart_of_pairwise hfit'.pairwise hi hj hne
  · have hout : ¬ (poolStart G (G.pools p) ≤ z ∧ z < poolEnd G (G.pools p)) := hz'
    rw [hframe z, hmem]
    · refine run_other (fun y hy => ?_) _
      obtain ⟨x, hx, rfl⟩ := List.mem_map.mp hy
      have hb := hfit'.bounds (hsub.subset (List.mem_map_of_mem hx))
      have hsz := (hpack.entry hx).2.2
      have hbs := (hEobj x.slot).1.blockSize
      rw [hEblock x hx] at hb
      simp only [moveOf]
      omega
    · intro hm
      have hb := hm.bounds htiled.layout.pieces
      rw [total_packed hfit'] at hb
      omega

/-- The audit of `compact_impl`, over an arbitrary state: what it accepts is audited. -/
lemma compactAudit_audited (hz : ZoneOk G) {req : Option CompactionRequest}
    {r : List ℕ × List MovePlanEntry × Bool} (h : compactAudit G p req = .ok r) :
    Audited G p r.1 ∧ r = (r.1, (planOf G p req r.1).1, metOf G p req r.1) := by
  rw [compactAudit] at h
  obtain ⟨-, h⟩ := of_guard h
  cases hpre : precheckPool G (G.pools p) p (poolStart G (G.pools p)) (poolEnd G (G.pools p))
      pmMaxObjects with
  | none =>
      rw [hpre] at h
      cases h
  | some l =>
      rw [hpre] at h
      dsimp only at h
      obtain ⟨-, h⟩ := of_guard h
      obtain ⟨-, h⟩ := of_guard h
      have haud := precheckPool_audited hpre
      rw [(compactPlan_slots hz haud req).1] at h
      obtain rfl := Except.ok.inj h
      exact ⟨haud, rfl⟩

/-- A refusal of the audit names a failure. -/
lemma compactAudit_ne_ok (hz : ZoneOk G) (req : Option CompactionRequest) :
    compactAudit G p req ≠ .error .ok := by
  rw [compactAudit]
  by_cases hb : (G.pools p).borrowCount ≠ 0
  · simp [hb]
  rw [if_neg hb]
  cases hpre : precheckPool G (G.pools p) p (poolStart G (G.pools p)) (poolEnd G (G.pools p))
      pmMaxObjects with
  | none => simp
  | some l =>
      have hplan := (compactPlan_slots hz (precheckPool_audited hpre) req).1
      simp only [hplan]
      split_ifs <;> simp

end Body

/-! ### The operation -/

section Operation

variable {G : GlobalState} {Ls : ℕ → List Piece} {p : ℕ}

omit [PmConfig] in
lemma Pool.with_state {P : Pool} {st : PoolState} (h : P.state = st) :
    { P with state := st } = P := by
  cases P
  subst h
  rfl

omit [PmConfig] in
lemma setPool_setPool (G : GlobalState) (p : ℕ) (P Q : Pool) :
    (G.setPool p P).setPool p Q = G.setPool p Q := by
  simp [GlobalState.setPool]

omit [PmConfig] in
lemma setPool_self (G : GlobalState) (p : ℕ) : G.setPool p (G.pools p) = G := by
  simp [GlobalState.setPool]

lemma GlobalInv.maintainable (h : GlobalInv G Ls) (hp : Active G p) :
    (G.pools p).state = .running ∨ (G.pools p).state = .paused :=
  (h.settled p hp.1).resolve_left hp.2

omit [PmConfig] in
/-- The arming block of `compact` over an arbitrary state. -/
lemma compactArm_cases (G : GlobalState) (p : ℕ) :
    (¬ ((G.pools p).state = .running ∧ (G.pools p).borrowCount ≠ 0)
        ∧ compactArm G p = (.busy, G))
      ∨ ((G.pools p).state = .running ∧ (G.pools p).borrowCount ≠ 0
        ∧ compactArm G p = (.busy, G.setPool p { G.pools p with state := .paused }))
      ∨ (((G.pools p).state = .running ∨ (G.pools p).state = .paused)
        ∧ (G.pools p).borrowCount = 0
        ∧ compactArm G p = (.ok, G.setPool p { G.pools p with state := .compacting })) := by
  by_cases hb : (G.pools p).borrowCount = 0 <;> cases hs : (G.pools p).state <;>
    simp [compactArm, poolInMaintenance, hs, hb, setPool_setPool, setPool_self]

/-- The arming block of `compact` in a healthy state: it pauses, and goes on without borrows. -/
lemma compactArm_healthy (h : GlobalInv G Ls) (hp : Active G p) :
    compactArm G p =
      if (G.pools p).borrowCount ≠ 0 then (.busy, G.setPool p { G.pools p with state := .paused })
      else (.ok, G.setPool p { G.pools p with state := .compacting }) := by
  rw [compactArm]
  rcases h.maintainable hp with hs | hs
  · simp [poolInMaintenance, hs, setPool_setPool]
  · simp [poolInMaintenance, hs, setPool_setPool, Pool.with_state hs]

/-- The invariant of a pool does not read its state. -/
lemma PoolInv.setState {L : List Piece} (h : PoolInv G p L) (st : PoolState) :
    PoolInv (G.setPool p { G.pools p with state := st }) p L := by
  refine h.congr ⟨rfl, rfl, rfl, rfl, rfl⟩ ?_ (fun _ _ => SameBlock.refl _) fun _ _ => rfl
  rw [GlobalState.setPool_pools, Function.update_self]
  exact ⟨rfl, rfl, rfl, rfl, rfl, rfl, rfl, rfl⟩

lemma ZoneOk.setPool (hz : ZoneOk G) (p : ℕ) (P : Pool) : ZoneOk (G.setPool p P) :=
  hz.of_same ⟨rfl, rfl, rfl, rfl, rfl⟩

/-- The state behind a successful `compact`, of its audited slots and its plan. -/
def compactDone (G : GlobalState) (p : ℕ) (slots : List ℕ) (plan : List MovePlanEntry)
    (elapsed : ℕ) : GlobalState :=
  compactCommit (compactRebuild
    (execMoves (G.setPool p { G.pools p with state := .compacting }) plan) p slots plan elapsed)
    p .ok (decide ((G.pools p).state = .paused))

/-- Beyond its heap, a successful `compact` has touched its own pool's entry only. -/
structure DoneFrame (G C : GlobalState) (p : ℕ) : Prop where
  zone : SameZone G C
  pools : ∀ q, q ≠ p → C.pools q = G.pools q
  segmentFirst : (C.pools p).segmentFirst = (G.pools p).segmentFirst
  segmentCount : (C.pools p).segmentCount = (G.pools p).segmentCount
  running : (C.pools p).state = .running
  freeSlotHead : C.freeSlotHead = G.freeSlotHead
  liveObjectCount : C.liveObjectCount = G.liveObjectCount

omit [PmConfig] in
lemma DoneFrame.window {C : GlobalState} (h : DoneFrame G C p) :
    poolStart C (C.pools p) = poolStart G (G.pools p)
      ∧ poolEnd C (C.pools p) = poolEnd G (G.pools p) := by
  rw [poolStart, poolStart, poolEnd, poolEnd, segBase, segBase, segBase, segBase, h.zone.zone,
    h.zone.segmentSize, h.segmentFirst, h.segmentCount]
  exact ⟨rfl, rfl⟩

omit [PmConfig] in
/-- The arming of `compact` leaves the pool's shape. -/
lemma compactArmed_shape (G : GlobalState) (p : ℕ) :
    SameZone G (G.setPool p { G.pools p with state := .compacting })
      ∧ SameShape (G.pools p) ((G.setPool p { G.pools p with state := .compacting }).pools p)
      ∧ ∀ q, q ≠ p → (G.setPool p { G.pools p with state := .compacting }).pools q = G.pools q := by
  refine ⟨⟨rfl, rfl, rfl, rfl, rfl⟩, ?_, fun q hq => Function.update_of_ne hq _ _⟩
  rw [GlobalState.setPool_pools, Function.update_self]
  exact ⟨rfl, rfl, rfl, rfl, rfl, rfl, rfl, rfl⟩

/-- The heap that `compact` leaves: its moves, and the layout on top of them. -/
def compactHeap (G : GlobalState) (p : ℕ) (slots : List ℕ) (plan : List MovePlanEntry) :
    GlobalState :=
  finalizeLayout (execMoves (G.setPool p { G.pools p with state := .compacting }) plan) p
    (poolStart G (G.pools p)) (poolEnd G (G.pools p)) slots

/-- The statistics and the commit leave that heap alone. -/
structure HeapKept (F C : GlobalState) (p : ℕ) : Prop where
  zone : SameZone F C
  shape : SameShape (F.pools p) (C.pools p)
  pools : ∀ q, q ≠ p → C.pools q = F.pools q
  objects : C.objects = F.objects
  mem : C.mem = F.mem
  freeSlotHead : C.freeSlotHead = F.freeSlotHead
  liveObjectCount : C.liveObjectCount = F.liveObjectCount

lemma compactDone_heap (G : GlobalState) (p : ℕ) (slots : List ℕ) (plan : List MovePlanEntry)
    (elapsed : ℕ) :
    HeapKept (compactHeap G p slots plan) (compactDone G p slots plan elapsed) p
      ∧ ((compactDone G p slots plan elapsed).pools p).state = .running := by
  have hE := execMove_step.foldl_rest plan (G.setPool p { G.pools p with state := .compacting })
  rw [← execMoves] at hE
  obtain ⟨hz, hshape, -⟩ := compactArmed_shape G p
  have hstart : poolStart (execMoves (G.setPool p { G.pools p with state := .compacting }) plan)
      ((execMoves (G.setPool p { G.pools p with state := .compacting }) plan).pools p) =
        poolStart G (G.pools p) := by
    rw [hE]
    exact hz.poolStart hshape.segmentFirst
  have hstop : poolEnd (execMoves (G.setPool p { G.pools p with state := .compacting }) plan)
      ((execMoves (G.setPool p { G.pools p with state := .compacting }) plan).pools p) =
        poolEnd G (G.pools p) := by
    rw [hE]
    exact hz.poolEnd hshape
  rw [compactDone, compactRebuild, hstart, hstop, ← compactHeap]
  generalize compactHeap G p slots plan = F
  rw [compactCommit, if_pos rfl, compactStats]
  refine ⟨⟨⟨rfl, rfl, rfl, rfl, rfl⟩, ?_, fun q hq => ?_, rfl, rfl, rfl, rfl⟩, ?_⟩
  · simp only [GlobalState.setPool_pools, Function.update_self]
    exact ⟨rfl, rfl, rfl, rfl, rfl, rfl, rfl, rfl⟩
  · simp only [GlobalState.setPool_pools]
    rw [Function.update_of_ne hq, Function.update_of_ne hq]
  · simp only [GlobalState.setPool_pools, Function.update_self]

/-- The move statistics of a successful `compact` are those of its plan. -/
lemma compactDone_entry (G : GlobalState) (p : ℕ) (slots : List ℕ) (plan : List MovePlanEntry)
    (elapsed : ℕ) :
    ((compactDone G p slots plan elapsed).pools p).objectsMoved = plan.length
      ∧ ((compactDone G p slots plan elapsed).pools p).bytesMoved = planBytes plan := by
  simp [compactDone, compactCommit, compactRebuild, compactStats]

/-- Moves, rebuild, statistics and commit together. -/
theorem compactDone_spec (hz : ZoneOk G) {slots : List ℕ} (h : Audited G p slots)
    {plan : List MovePlanEntry} (hpack : Packs G.objects (poolStart G (G.pools p)) slots plan)
    (hdst : ∀ x ∈ plan, x.dst % 8 = 0 ∧ (G.objects x.slot).pinned = false) (elapsed : ℕ) :
    Repacked G (compactDone G p slots plan elapsed) p slots
      ∧ DoneFrame G (compactDone G p slots plan elapsed) p := by
  obtain ⟨hzone₁, hshape₁, hrest⟩ := compactArmed_shape G p
  obtain ⟨hkept, hrun⟩ := compactDone_heap G p slots plan elapsed
  rw [compactHeap] at hkept
  generalize compactDone G p slots plan elapsed = C at *
  have hobj₁ : (G.setPool p { G.pools p with state := .compacting }).objects = G.objects := rfl
  have hmem₁ : (G.setPool p { G.pools p with state := .compacting }).mem = G.mem := rfl
  have hslot₁ : (G.setPool p { G.pools p with state := .compacting }).freeSlotHead = G.freeSlotHead
      ∧ (G.setPool p { G.pools p with state := .compacting }).liveObjectCount =
        G.liveObjectCount := ⟨rfl, rfl⟩
  generalize G.setPool p { G.pools p with state := .compacting } = G₁ at *
  have hstart : poolStart G₁ (G₁.pools p) = poolStart G (G.pools p) :=
    hzone₁.poolStart hshape₁.segmentFirst
  have hstop : poolEnd G₁ (G₁.pools p) = poolEnd G (G.pools p) := hzone₁.poolEnd hshape₁
  have hrep := compactBody_repacked (hz.of_same hzone₁) (h.congr hzone₁ hshape₁ hobj₁)
    (by rwa [hstart, hobj₁]) (by rwa [hobj₁])
  rw [hstart, hstop] at hrep
  -- the frame: moves change descriptors and bytes, the rebuild one entry
  have hE := execMove_step.foldl_rest plan G₁
  rw [← execMoves] at hE
  obtain ⟨hFz, hFf, hFc⟩ := @finalizeLayout_rest _ (execMoves G₁ plan) p
    (poolStart G (G.pools p)) (poolEnd G (G.pools p)) slots
  have hFp : ∀ q, q ≠ p → (finalizeLayout (execMoves G₁ plan) p (poolStart G (G.pools p))
      (poolEnd G (G.pools p)) slots).pools q = (execMoves G₁ plan).pools q :=
    fun q hq => finalizeLayout_pools_ne hq
  obtain ⟨hfirst, hcount, -, -⟩ := @finalizeLayout_entry _ (execMoves G₁ plan) p
    (poolStart G (G.pools p)) (poolEnd G (G.pools p)) slots
  generalize finalizeLayout (execMoves G₁ plan) p (poolStart G (G.pools p))
    (poolEnd G (G.pools p)) slots = F at *
  generalize execMoves G₁ plan = E at *
  have hpools : E.pools = G₁.pools := by rw [hE]
  have hzE : SameZone G₁ E := by
    rw [hE]
    exact ⟨rfl, rfl, rfl, rfl, rfl⟩
  have hslotE : E.freeSlotHead = G₁.freeSlotHead ∧ E.liveObjectCount = G₁.liveObjectCount := by
    rw [hE]
    exact ⟨rfl, rfl⟩
  refine ⟨hrep.congr hobj₁.symm hmem₁.symm (fun z => ?_) hkept.zone hkept.shape hkept.objects
    hkept.mem, ((hzone₁.trans hzE).trans hFz).trans hkept.zone, fun q hq => ?_, ?_, ?_, hrun,
    ?_, ?_⟩
  · rw [InWindow, InWindow, hstart, hstop]
  · rw [hkept.pools q hq, hFp q hq, hpools, hrest q hq]
  · rw [hkept.shape.segmentFirst, hfirst, hpools, hshape₁.segmentFirst]
  · rw [hkept.shape.segmentCount, hcount, hpools, hshape₁.segmentCount]
  · rw [hkept.freeSlotHead, hFf, hslotE.1, hslot₁.1]
  · rw [hkept.liveObjectCount, hFc, hslotE.2, hslot₁.2]

omit [PmConfig] in
/-- The plan does not read the pool's state. -/
lemma planOf_setState (G : GlobalState) (p : ℕ) (st : PoolState)
    (req : Option CompactionRequest) (slots : List ℕ) :
    planOf (G.setPool p { G.pools p with state := st }) p req slots = planOf G p req slots := by
  simp [planOf, poolStart, poolEnd, segBase]

lemma compactDone_objects (G : GlobalState) (p : ℕ) (slots : List ℕ) (plan : List MovePlanEntry)
    (elapsed : ℕ) :
    (compactDone G p slots plan elapsed).objects =
      (execMoves (G.setPool p { G.pools p with state := .compacting }) plan).objects := by
  simp [compactDone, compactCommit, compactRebuild, compactStats, finalizeLayout_objects]

/-- An object outside the plan stays as it is. -/
lemma compactDone_other {slots : List ℕ} {plan : List MovePlanEntry} {i : ℕ}
    (hi : i ∉ plan.map (·.slot)) (elapsed : ℕ) :
    (compactDone G p slots plan elapsed).objects i = G.objects i := by
  have hother := execMove_step.foldl_other hi
    (G.setPool p { G.pools p with state := .compacting })
  rw [← execMoves] at hother
  rw [compactDone_objects, hother]
  rfl

omit [PmConfig] in
/-- Where a plan has put the blocks of its slots. -/
lemma execMoves_placed {slots : List ℕ} (hnd : slots.Nodup) {plan : List MovePlanEntry}
    (hsub : (plan.map (·.slot)).Sublist slots) :
    Placed G.objects (execMoves G plan).objects slots plan := by
  have hself := fun x (hx : x ∈ plan) => execMove_step.foldl_self (hsub.nodup hnd) hx G
  have hother := fun i (hi : i ∉ plan.map (·.slot)) => execMove_step.foldl_other hi G
  rw [← execMoves] at hself hother
  refine ⟨fun x hx => ?_, fun i _ hi => by rw [hother i hi], fun i _ => ?_⟩
  · rw [hself x hx]
    simp [ObjectDesc.block, movedDesc]
  · by_cases hi : i ∈ plan.map (·.slot)
    · obtain ⟨x, hx, rfl⟩ := List.mem_map.mp hi
      rw [hself x hx]
      rfl
    · rw [hother i hi]

lemma compactDone_placed {slots : List ℕ} (hnd : slots.Nodup) {plan : List MovePlanEntry}
    (hsub : (plan.map (·.slot)).Sublist slots) (elapsed : ℕ) :
    Placed G.objects (compactDone G p slots plan elapsed).objects slots plan := by
  rw [compactDone_objects]
  exact execMoves_placed (G := G.setPool p _) hnd hsub

/-- A successful `compact`, over an arbitrary state: it has audited its pool, and its state is
the one behind moves, rebuild and commit of its plan. -/
theorem compact_of_ok (hz : ZoneOk G) {req : Option CompactionRequest} {elapsed : ℕ}
    (hok : (compact G p req elapsed).1 = .ok) :
    Active G p ∧ (G.pools p).borrowCount = 0
      ∧ ((G.pools p).state = .running ∨ (G.pools p).state = .paused)
      ∧ ∃ slots, Audited G p slots
        ∧ compactAudit (G.setPool p { G.pools p with state := .compacting }) p req =
          .ok (slots, (planOf G p req slots).1, metOf G p req slots)
        ∧ compact G p req elapsed = (.ok, metOf G p req slots,
          compactDone G p slots (planOf G p req slots).1 elapsed) := by
  rw [compact, if_neg (by simp [hz.init])] at hok ⊢
  cases hpool : poolAt G p with
  | none =>
      rw [hpool] at hok
      cases hok
  | some P =>
      obtain ⟨hact, rfl⟩ := poolAt_eq_some.mp hpool
      rw [hpool] at hok
      dsimp only at hok ⊢
      rcases compactArm_cases G p with ⟨-, harm⟩ | ⟨-, -, harm⟩ | ⟨hst, hb, harm⟩
      · rw [harm] at hok
        cases hok
      · rw [harm] at hok
        cases hok
      · rw [harm] at hok ⊢
        dsimp only at hok ⊢
        rw [compactImpl] at hok ⊢
        have hz₁ := hz.setPool p { G.pools p with state := .compacting }
        cases haudit : compactAudit (G.setPool p { G.pools p with state := .compacting }) p
            req with
        | error e =>
            rw [haudit] at hok
            dsimp only at hok
            subst hok
            exact absurd haudit (compactAudit_ne_ok hz₁ req)
        | ok r =>
            obtain ⟨haud, hr⟩ := compactAudit_audited hz₁ haudit
            rw [metOf, planOf_setState, ← metOf] at hr
            have hshape : SameShape ((G.setPool p { G.pools p with state := .compacting }).pools p)
                (G.pools p) := by
              rw [GlobalState.setPool_pools, Function.update_self]
              exact ⟨rfl, rfl, rfl, rfl, rfl, rfl, rfl, rfl⟩
            have hzone : SameZone (G.setPool p { G.pools p with state := .compacting }) G :=
              ⟨rfl, rfl, rfl, rfl, rfl⟩
            refine ⟨hact, hb, hst, r.1, haud.congr hzone hshape rfl, by rw [← hr], ?_⟩
            rw [hr]
            rfl

/-- What a successful `compact` of pool `p` has done. -/
structure Compacted (G G' : GlobalState) (p : ℕ) (L L' : List Piece) : Prop where
  slots : liveSlots L' = liveSlots L
  freeGe : ∀ n, .free n ∈ L' → pmMinBlock ≤ n
  relocated : Relocated G G' (liveSlots L)
  poolId : ∀ i ∈ liveSlots L, (G'.objects i).poolId = p
  mem : ∀ z, ¬ InWindow G p z → G'.mem z = G.mem z
  pools : ∀ q, q ≠ p → G'.pools q = G.pools q
  segments : (G'.pools p).segmentFirst = (G.pools p).segmentFirst
    ∧ (G'.pools p).segmentCount = (G.pools p).segmentCount
  running : (G'.pools p).state = .running

/-- Moves, rebuild and commit keep the global invariant. -/
theorem compactDone_inv (h : GlobalInv G Ls) (hp : Active G p) {plan : List MovePlanEntry}
    (hpack : Packs G.objects (poolStart G (G.pools p)) (liveSlots (Ls p)) plan)
    (hdst : ∀ x ∈ plan, x.dst % 8 = 0 ∧ (G.objects x.slot).pinned = false) (elapsed : ℕ) :
    let C := compactDone G p (liveSlots (Ls p)) plan elapsed
    let L := packedLayout C p (liveSlots (Ls p))
    GlobalInv C (Function.update Ls p L) ∧ Compacted G C p (Ls p) L := by
  have hpool := h.pool p hp
  obtain ⟨hrep, hframe⟩ := compactDone_spec h.zone (hpool.audited h.zone) hpack hdst elapsed
  dsimp only
  generalize compactDone G p (liveSlots (Ls p)) plan elapsed = C at *
  have hslots : liveSlots (packedLayout C p (liveSlots (Ls p))) = liveSlots (Ls p) :=
    liveSlots_packed
  have hrelC := hrep.relocated
  have hinv := hrep.poolInv (hframe.segmentCount ▸ hpool.segPos) fun i hi => by
    rw [(hrelC.kept i hi).size]
    exact (hpool.desc_self hi).sizePos
  refine ⟨?_, hslots, fun n hn => packed_free_ge hn, hrelC,
    fun i hi => (hrep.audited.listed i hi).2.2.1, hrep.mem, hframe.pools,
    ⟨hframe.segmentFirst, hframe.segmentCount⟩, hframe.running⟩
  -- states and free list are untouched, so the slot table stays as it is
  have hstates : ∀ i, (C.objects i).state = (G.objects i).state
      ∧ (C.objects i).nextFreeSlot = (G.objects i).nextFreeSlot := by
    intro i
    by_cases hi : i ∈ liveSlots (Ls p)
    · exact ⟨(hrelC.kept i hi).state, (hrelC.kept i hi).nextFreeSlot⟩
    · rw [hrelC.other i hi]
      exact ⟨rfl, rfl⟩
  refine h.update hp hframe.zone hframe.pools (Or.inl hframe.running)
    ⟨hframe.segmentFirst, hframe.segmentCount⟩ hinv
    (fun i _ hi _ => by rw [hrelC.other i hi]; exact SameBlock.refl _) hrep.mem
    (fun i _ hi _ => by rwa [hslots]) (fun q hq hqp i hi hi' => ?_) (fun i hi => ?_) ?_
  · rw [hslots] at hi'
    exact hqp (h.slots_apart hq hp hi hi')
  · rw [(hstates i).1]
    exact h.idle i hi
  · exact h.slots.congr (fun i => (hstates i).1) (fun i => (hstates i).2) hframe.freeSlotHead
      hframe.liveObjectCount

/-- `compact` of a healthy pool without borrows executes the plan of its live slots. -/
theorem compact_eq (h : GlobalInv G Ls) (hp : Active G p) (hb : (G.pools p).borrowCount = 0)
    {req : Option CompactionRequest} (hreq : requestOk req = true) (elapsed : ℕ) :
    compact G p req elapsed = (.ok, metOf G p req (liveSlots (Ls p)),
      compactDone G p (liveSlots (Ls p)) (planOf G p req (liveSlots (Ls p))).1 elapsed) := by
  have hplan := compactAudit_spec (h.zone.setPool p { G.pools p with state := .compacting })
    ((h.pool p hp).setState .compacting) (by simpa using hb) hreq
  have hok : (compact G p req elapsed).1 = .ok := by
    rw [compact, if_neg (by simp [h.zone.init]), poolAt_eq_some.mpr ⟨hp, rfl⟩]
    dsimp only
    rw [compactArm_healthy h hp, if_neg (not_not.mpr hb)]
    dsimp only
    rw [compactImpl, hplan]
  obtain ⟨-, -, -, slots, haud, hplan', heq⟩ := compact_of_ok h.zone hok
  rw [hplan, Except.ok.injEq, Prod.mk.injEq] at hplan'
  obtain ⟨rfl, -⟩ := hplan'
  exact heq

/-- `compact` of a pool without borrows succeeds. -/
theorem compact_ok (h : GlobalInv G Ls) (hp : Active G p) (hb : (G.pools p).borrowCount = 0)
    {req : Option CompactionRequest} (hreq : requestOk req = true) (elapsed : ℕ) :
    ∃ met G' L', compact G p req elapsed = (.ok, met, G')
      ∧ GlobalInv G' (Function.update Ls p L') ∧ Compacted G G' p (Ls p) L' := by
  obtain ⟨-, hpack, hdst⟩ := compactPlan_slots h.zone ((h.pool p hp).audited h.zone) req
  exact ⟨_, _, _, compact_eq h hp hb hreq elapsed, compactDone_inv h hp hpack hdst elapsed⟩

omit [PmConfig] in
/-- The commit of a refused `compact` undoes the arming block. -/
lemma compactCommit_restore (hst : (G.pools p).state = .running ∨ (G.pools p).state = .paused)
    {e : Status} (he : e ≠ .ok) :
    compactCommit (G.setPool p { G.pools p with state := .compacting }) p e
      (decide ((G.pools p).state = .paused)) = G := by
  rw [compactCommit, if_neg he, GlobalState.setPool_pools, Function.update_self, setPool_setPool]
  rcases hst with hs | hs
  · rw [if_neg (by simp [hs]), Pool.with_state hs, setPool_self]
  · rw [if_pos (by simp [hs]), Pool.with_state hs, setPool_self]

/-- Any other `compact` is refused, for a fault that is not the pool's: it changes nothing, or
leaves a borrowed pool Paused. -/
theorem compact_refused (h : GlobalInv G Ls) {req : Option CompactionRequest}
    (hno : ¬ (Active G p ∧ (G.pools p).borrowCount = 0 ∧ requestOk req = true)) (elapsed : ℕ) :
    ∃ st G', compact G p req elapsed = (st, false, G') ∧ st ≠ .ok
      ∧ (st = .invalidPool ∨ st = .busy ∨ st = .invalidRequest)
      ∧ (G' = G ∨ (Active G p ∧ G' = G.setPool p { G.pools p with state := .paused })) := by
  rw [compact, if_neg (by simp [h.zone.init])]
  by_cases hp : Active G p
  swap
  · rw [poolAt_eq_none.mpr hp]
    exact ⟨_, _, rfl, by decide, Or.inl rfl, Or.inl rfl⟩
  rw [poolAt_eq_some.mpr ⟨hp, rfl⟩]
  dsimp only
  rw [compactArm_healthy h hp]
  by_cases hb : (G.pools p).borrowCount = 0
  swap
  · rw [if_pos hb]
    exact ⟨_, _, rfl, by decide, Or.inr (Or.inl rfl), Or.inr ⟨hp, rfl⟩⟩
  rw [if_neg (not_not.mpr hb)]
  have hreq : requestOk req = false := by
    by_contra hne
    exact hno ⟨hp, hb, by simpa using hne⟩
  have haudit := compactAudit_badRequest (h.zone.setPool p { G.pools p with state := .compacting })
    ((h.pool p hp).setState .compacting) (by simpa using hb) hreq
  refine ⟨.invalidRequest, G, ?_, by decide, Or.inr (Or.inr rfl), Or.inl rfl⟩
  dsimp only
  rw [compactImpl, haudit]
  dsimp only
  rw [compactCommit_restore (h.maintainable hp) (by decide)]
  rfl

/-- What a successful `compact` has been asked for. -/
lemma compact_asked (h : GlobalInv G Ls) {req : Option CompactionRequest} {elapsed : ℕ}
    (hok : (compact G p req elapsed).1 = .ok) :
    Active G p ∧ (G.pools p).borrowCount = 0 ∧ requestOk req = true := by
  by_contra hno
  obtain ⟨st, G', heq, hst, -⟩ := compact_refused h hno elapsed
  rw [heq] at hok
  exact hst hok

/-- `compact` keeps the invariant. -/
theorem compact_inv (h : GlobalInv G Ls) (req : Option CompactionRequest) (elapsed : ℕ) :
    ∃ Ls', GlobalInv (compact G p req elapsed).2.2 Ls' := by
  by_cases hyes : Active G p ∧ (G.pools p).borrowCount = 0 ∧ requestOk req = true
  · obtain ⟨met, G', L', heq, hinv, -⟩ := compact_ok h hyes.1 hyes.2.1 hyes.2.2 elapsed
    exact ⟨_, by rw [heq]; exact hinv⟩
  · obtain ⟨st, G', heq, -, -, hG'⟩ := compact_refused h hyes elapsed
    refine ⟨Ls, ?_⟩
    rw [heq]
    rcases hG' with rfl | ⟨hp, rfl⟩
    · exact h
    · exact h.sameHeap (sameHeap_setPool hp.2 ⟨rfl, rfl, rfl, rfl, rfl, rfl, rfl, rfl⟩
        (Or.inr (Or.inr rfl)))

end Operation

end PondMerge
