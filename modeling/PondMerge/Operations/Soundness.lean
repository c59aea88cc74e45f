import PondMerge.Operations.Validate

/-!
What `validate` has proved of a pool when it returns `Ok`, for arbitrary contents of the
pool's metadata, of the descriptor table and of the zone.

* `validate_ok`: the values its phases have computed.
* `validateLive_sound`, `auditPoolBins_sound`: phases 1 and 2.
* `exists_merged`: the blocks of phases 1 and 2 in one ascending list.
* `Vouched`, `validate_vouched`: the pool has a layout.
-/

namespace PondMerge

open ByteMemory LinkedList Tiling

variable [PmConfig]

/-! ### The phases -/

/-- The values behind an `Ok`. -/
structure ValidateRun (G : GlobalState) (p : ℕ) (slots : List ℕ) (used freeTotal e slack : ℕ) :
    Prop where
  collect : collectLiveSorted G (G.pools p) p pmMaxObjects = some slots
  live : validateLive G (poolStartOff G (G.pools p))
    (poolStartOff G (G.pools p) + poolCapacity G (G.pools p)) slots
    (poolStartOff G (G.pools p)) 0 = some used
  liveObjects : slots.length = (G.pools p).liveObjects
  usedBytes : used = (G.pools p).usedBytes
  freeBytes : (G.pools p).freeBytes = sub32 (poolCapacity G (G.pools p)) used
  audit : auditPoolBins G (G.pools p) = some freeTotal
  cap : (freeOffsets G (G.pools p)).length ≤ kFreeOffCap
  sweep : sweep (slots.length + (freeOffsets G (G.pools p)).length + 1)
    (slots.map (liveExtent G)) ((sortU32Asc (freeOffsets G (G.pools p))).map (freeExtent G))
    (poolStartOff G (G.pools p)) false 0 = some (e, slack)
  stop : e ≤ poolStartOff G (G.pools p) + poolCapacity G (G.pools p)
  tail : poolStartOff G (G.pools p) + poolCapacity G (G.pools p) - e < pmMinBlock
  total : used + freeTotal + (slack + (poolStartOff G (G.pools p)
    + poolCapacity G (G.pools p) - e)) = poolCapacity G (G.pools p)
  fragment : (G.pools p).fragmentBytes ≤ (G.pools p).freeBytes
  freeTotal : freeTotal = (G.pools p).freeBytes - (G.pools p).fragmentBytes

omit [PmConfig] in
lemma of_ite_ok {c : Prop} [Decidable c] {x : Status}
    (h : (if c then .corruptMetadata else x) = .ok) : ¬ c ∧ x = .ok := by
  by_cases hc : c
  · rw [if_pos hc] at h
    cases h
  · rw [if_neg hc] at h
    exact ⟨hc, h⟩

lemma validate_ok {G : GlobalState} {p : ℕ} (h : validate G p = .ok) :
    Active G p ∧ ∃ slots used freeTotal e slack, ValidateRun G p slots used freeTotal e slack := by
  rw [validate] at h
  by_cases hinit : (!G.initialized) = true
  · rw [if_pos hinit] at h
    cases h
  rw [if_neg hinit] at h
  cases hp : poolAt G p with
  | none =>
      rw [hp] at h
      cases h
  | some P =>
      obtain ⟨hact, rfl⟩ := poolAt_eq_some.mp hp
      rw [hp] at h
      dsimp only at h
      -- each check that `validate` has passed is one field of the run
      cases hc : collectLiveSorted G (G.pools p) p pmMaxObjects with
      | none =>
          rw [hc] at h
          cases h
      | some slots =>
          rw [hc] at h
          dsimp only at h
          cases hl : validateLive G (poolStartOff G (G.pools p))
              (poolStartOff G (G.pools p) + poolCapacity G (G.pools p)) slots
              (poolStartOff G (G.pools p)) 0 with
          | none =>
              rw [hl] at h
              cases h
          | some used =>
              rw [hl] at h
              dsimp only at h
              obtain ⟨hcount, h⟩ := of_ite_ok h
              obtain ⟨hfree, h⟩ := of_ite_ok h
              cases ha : auditPoolBins G (G.pools p) with
              | none =>
                  rw [ha] at h
                  cases h
              | some freeTotal =>
                  rw [ha] at h
                  dsimp only at h
                  obtain ⟨hcap, h⟩ := of_ite_ok h
                  cases hs : sweep (slots.length + (freeOffsets G (G.pools p)).length + 1)
                      (slots.map (liveExtent G))
                      ((sortU32Asc (freeOffsets G (G.pools p))).map (freeExtent G))
                      (poolStartOff G (G.pools p)) false 0 with
                  | none =>
                      rw [hs] at h
                      cases h
                  | some r =>
                      rw [hs] at h
                      dsimp only at h
                      obtain ⟨htail, h⟩ := of_ite_ok h
                      obtain ⟨htotal, h⟩ := of_ite_ok h
                      obtain ⟨hfrag, -⟩ := of_ite_ok h
                      exact ⟨hact, slots, used, freeTotal, r.1, r.2, hc, hl, by omega, by omega,
                        by omega, ha, by omega, hs, by omega, by omega, by omega, by omega,
                        by omega⟩

section Phases

variable {G : GlobalState} {startOff endOff : ℕ}

/-- A live slot that phase 1 has accepted at some point of its walk. -/
def SlotVouched (G : GlobalState) (startOff endOff i : ℕ) : Prop :=
  ∃ prevEnd, validateSlot G startOff endOff prevEnd (G.objects i) = true

/-- Phase 1 has seen blocks in ascending order, and their bytes. -/
lemma validateLive_sound {l : List ℕ} {e used u : ℕ} (hused : used < 2 ^ 32)
    (h : validateLive G startOff endOff l e used = some u) :
    (∀ i ∈ l, SlotVouched G startOff endOff i ∧ e ≤ (liveExtent G i).1)
      ∧ (l.map (liveExtent G)).Pairwise (fun x y => x.2 ≤ y.1)
      ∧ u = u32 (used + (l.map fun i => (G.objects i).blockSize).sum) := by
  induction l generalizing e used with
  | nil =>
      obtain rfl := Option.some.inj h
      exact ⟨by simp, List.Pairwise.nil, (u32_of_lt hused).symm⟩
  | cons i l ih =>
      rw [validateLive] at h
      by_cases hs : validateSlot G startOff endOff e (G.objects i) = true
      swap
      · rw [if_pos (by simpa using hs)] at h
        cases h
      rw [if_neg (by simp [hs])] at h
      obtain ⟨hall, hpw, hu⟩ := ih (u32_lt _) h
      have hprev : e ≤ (liveExtent G i).1 := by
        rw [validateSlot] at hs
        simp only [decide_eq_true_eq] at hs
        exact hs.2.2.2.2.1
      have hext : (liveExtent G i).2 = (G.objects i).address - G.zone - 8
          + (G.objects i).blockSize := rfl
      refine ⟨fun j hj => ?_, List.pairwise_cons.mpr ⟨fun y hy => ?_, hpw⟩, ?_⟩
      · rcases List.mem_cons.mp hj with rfl | hj
        · exact ⟨⟨e, hs⟩, hprev⟩
        · refine ⟨(hall j hj).1, hprev.trans (le_trans ?_ (hall j hj).2)⟩
          rw [liveExtent]
          dsimp only
          omega
      · obtain ⟨j, hj, rfl⟩ := List.mem_map.mp hy
        exact hext ▸ (hall j hj).2
      · rw [hu, List.map_cons, List.sum_cons, u32, u32, u32, Nat.mod_add_mod, Nat.add_assoc]

/-- What phase 1 reads of a live slot. -/
lemma SlotVouched.facts {i : ℕ} (h : SlotVouched G startOff endOff i) :
    let d := G.objects i
    let boff := d.address - G.zone - 8
    (pmMinBlock ≤ d.blockSize ∧ d.blockSize % 8 = 0 ∧ 0 < d.size ∧ d.size + 8 ≤ d.blockSize)
      ∧ d.address % 8 = 0 ∧ d.address = G.zone + boff + 8
      ∧ startOff ≤ boff ∧ boff + d.blockSize ≤ endOff
      ∧ blkIsFree G.mem (G.zone + boff) = false ∧ blkSizeOf G.mem (G.zone + boff) = d.blockSize
      ∧ prevLinkOk G boff startOff = true := by
  obtain ⟨e, he⟩ := h
  have hmin := PmConfig.minBlock_ge
  rw [validateSlot, descBlockConsistent] at he
  simp only [decide_eq_true_eq, rangeInPool] at he
  obtain ⟨⟨h1, h2, h3, h4, h5⟩, h6, ⟨h7, h8, h9⟩, -, -, h10, h11, h12⟩ := he
  dsimp only
  refine ⟨⟨h1, h2, by omega, by omega⟩, h5, by omega, h7, by omega, h10, h11, h12⟩

/-- Phase 2 has walked finite lists of audited blocks. -/
lemma auditPoolBins_sound {P : Pool} {n : ℕ} (h : auditPoolBins G P = some n) :
    (∀ f < flCount, ∀ s < pmSlCount,
      IsChain (binNext G) nullOff (P.bins.head f s)
          (binOffsets G (auditSteps G P) (P.bins.head f s))
      ∧ ∀ o ∈ binOffsets G (auditSteps G P) (P.bins.head f s),
        auditBlock G (poolStartOff G P) (poolStartOff G P + poolCapacity G P) f s o = true)
    ∧ (freeOffsets G P).Nodup
    ∧ ∀ o ∈ freeOffsets G P,
      o ∈ binOffsets G (auditSteps G P)
          (P.bins.head (flBin (sizeAt G o)) (slBin (sizeAt G o)))
        ∧ auditBlock G (poolStartOff G P) (poolStartOff G P + poolCapacity G P)
          (flBin (sizeAt G o)) (slBin (sizeAt G o)) o = true := by
  obtain ⟨hall, -, -⟩ := auditPoolBins_iff.mp h
  have hbins : ∀ f < flCount, ∀ s < pmSlCount,
      IsChain (binNext G) nullOff (P.bins.head f s)
          (binOffsets G (auditSteps G P) (P.bins.head f s))
      ∧ ∀ o ∈ binOffsets G (auditSteps G P) (P.bins.head f s),
        auditBlock G (poolStartOff G P) (poolStartOff G P + poolCapacity G P) f s o = true := by
    intro f hf s hs
    obtain ⟨-, l, hl, hlen, hblock⟩ := hall f hf s hs
    rw [binOffsets_eq hl hlen]
    exact ⟨hl, hblock⟩
  have hclass : ∀ {f s o}, auditBlock G (poolStartOff G P) (poolStartOff G P + poolCapacity G P)
      f s o = true → flBin (sizeAt G o) = f ∧ slBin (sizeAt G o) = s := by
    intro f s o ho
    rw [auditBlock] at ho
    simp only [decide_eq_true_eq] at ho
    exact ⟨ho.2.2.2.2.2.1, ho.2.2.2.2.2.2.1⟩
  refine ⟨hbins, ?_, fun o ho => ?_⟩
  · rw [show freeOffsets G P = allBins.flatMap fun fs =>
      binOffsets G (auditSteps G P) (P.bins.head fs.1 fs.2) from rfl, List.nodup_flatMap]
    refine ⟨fun fs hfs => (hbins fs.1 (mem_allBins.mp hfs).1 fs.2 (mem_allBins.mp hfs).2).1.nodup,
      allBins_nodup.imp_of_mem fun {fs fs'} hfs hfs' hne => ?_⟩
    -- a block in two bins would have two size classes
    refine List.disjoint_left.mpr ?_
    intro o ho ho'
    obtain ⟨hf, hs⟩ := hclass
      ((hbins fs.1 (mem_allBins.mp hfs).1 fs.2 (mem_allBins.mp hfs).2).2 o ho)
    obtain ⟨hf', hs'⟩ := hclass ((hbins fs'.1 (mem_allBins.mp hfs').1 fs'.2
      (mem_allBins.mp hfs').2).2 o ho')
    exact hne (Prod.ext (hf.symm.trans hf') (hs.symm.trans hs'))
  · obtain ⟨fs, hfs, hm⟩ := List.mem_flatMap.mp ho
    have hok := (hbins fs.1 (mem_allBins.mp hfs).1 fs.2 (mem_allBins.mp hfs).2).2 o hm
    obtain ⟨hf, hs⟩ := hclass hok
    rw [hf, hs]
    exact ⟨hm, hok⟩

/-- What phase 2 reads of a binned block. -/
lemma auditBlock_facts {f s o : ℕ} (h : auditBlock G startOff endOff f s o = true) :
    startOff ≤ o ∧ o + sizeAt G o ≤ endOff ∧ pmMinBlock ≤ sizeAt G o ∧ sizeAt G o % 8 = 0
      ∧ blkIsFree G.mem (ptrOf G.zone o) = true
      ∧ (binNext G o ≠ nullOff → blkPrev G.mem (ptrOf G.zone (binNext G o)) = o)
      ∧ prevLinkOk G o startOff = true := by
  rw [auditBlock] at h
  simp only [decide_eq_true_eq, rangeInPool] at h
  obtain ⟨-, h1, h2, ⟨h3, h4, h5⟩, h6, -, -, h7, -, h8⟩ := h
  exact ⟨h3, by rw [sizeAt]; omega, h1, h2, h6, fun hne => (h7 hne).2, h8⟩

end Phases

/-! ### One ascending list -/

omit [PmConfig] in
/-- Live and free blocks that start at different places form one ascending list. -/
lemma exists_merged {slots offs : List ℕ} {live : ℕ → Extent} {free : ℕ → Extent}
    (hl : (slots.map live).Pairwise fun x y => x.1 < y.1)
    (hf : (offs.map free).Pairwise fun x y => x.1 < y.1)
    (hne : ∀ i ∈ slots, ∀ o ∈ offs, (live i).1 ≠ (free o).1) :
    ∃ T : List Tagged, Ascending T ∧ livePart T = slots.map live ∧ freePart T = offs.map free
      ∧ T.Perm (slots.map (fun i => (some i, live i)) ++ offs.map fun o => (none, free o)) := by
  let B : List Tagged := slots.map (fun i => (some i, live i)) ++ offs.map fun o => (none, free o)
  let le : Tagged → Tagged → Bool := fun t u => decide (t.2.1 ≤ u.2.1)
  have hperm : (B.mergeSort le).Perm B := List.mergeSort_perm _ _
  -- no two blocks start at one place, so sorting them by address makes the order strict
  have hdistinct : B.Pairwise fun t u => t.2.1 ≠ u.2.1 := by
    refine List.pairwise_append.mpr ⟨?_, ?_, ?_⟩
    · rw [List.pairwise_map] at hl ⊢
      exact hl.imp fun h => h.ne
    · rw [List.pairwise_map] at hf ⊢
      exact hf.imp fun h => h.ne
    · intro t ht u hu
      obtain ⟨i, hi, rfl⟩ := List.mem_map.mp ht
      obtain ⟨o, ho, rfl⟩ := List.mem_map.mp hu
      exact hne i hi o ho
  have hsorted : (B.mergeSort le).Pairwise fun t u => t.2.1 ≤ u.2.1 := by
    have := @List.pairwise_mergeSort _ le
      (fun t u v htu huv => decide_eq_true ((of_decide_eq_true htu).trans (of_decide_eq_true huv)))
      (fun t u => by
        simp only [le, Bool.or_eq_true, decide_eq_true_eq]
        omega) B
    exact this.imp fun h => of_decide_eq_true h
  have hasc : Ascending (B.mergeSort le) :=
    hsorted.imp₂ (fun t u hle hne => lt_of_le_of_ne hle hne)
      (hperm.symm.pairwise hdistinct fun h => h.symm)
  -- sorting permutes the live ones and the free ones among themselves
  have hlives : livePart B = slots.map live := by
    simp only [B, livePart, List.filterMap_append, List.filterMap_map]
    have h1 : ((fun t : Tagged => t.1.map fun _ => t.2) ∘ fun i => (some i, live i)) =
        some ∘ live := rfl
    have h2 : ((fun t : Tagged => t.1.map fun _ => t.2) ∘ fun o => (none, free o)) =
        fun _ => none := rfl
    rw [h1, h2, List.filterMap_eq_map, List.filterMap_none, List.append_nil]
  have hfrees : freePart B = offs.map free := by
    simp only [B, freePart, List.filterMap_append, List.filterMap_map]
    have h1 : ((fun t : Tagged => if t.1.isNone then some t.2 else none) ∘
        fun i => (some i, live i)) = fun _ => none := rfl
    have h2 : ((fun t : Tagged => if t.1.isNone then some t.2 else none) ∘
        fun o => (none, free o)) = some ∘ free := rfl
    rw [h1, h2, List.filterMap_eq_map, List.filterMap_none, List.nil_append]
  have hasym : ∀ x y : Extent, x.1 < y.1 → y.1 < x.1 → x = y := fun x y h h' => by omega
  refine ⟨B.mergeSort le, hasc, ?_, ?_, hperm⟩
  · rw [← hlives]
    refine List.Perm.eq_of_pairwise
      (fun x y _ _ => hasym x y) ?_ (hlives ▸ hl) (hperm.filterMap _)
    refine hasc.filterMap _ fun t u htu x hx y hy => ?_
    obtain ⟨-, -, rfl⟩ := Option.map_eq_some_iff.mp hx
    obtain ⟨-, -, rfl⟩ := Option.map_eq_some_iff.mp hy
    exact htu
  · rw [← hfrees]
    refine List.Perm.eq_of_pairwise
      (fun x y _ _ => hasym x y) ?_ (hfrees ▸ hf) (hperm.filterMap _)
    refine hasc.filterMap _ fun t u htu x hx y hy => ?_
    split_ifs at hx hy
    exact Option.some.inj hx ▸ Option.some.inj hy ▸ htu

/-! ### The layout -/

/-- What `validate` vouches for: the window of pool `p` is tiled by its live blocks, its
binned free blocks and slack, as the layout `L` says. -/
structure Vouched (G : GlobalState) (p : ℕ) (L : List Piece) : Prop where
  total : total Piece.len L = poolCapacity G (G.pools p)
  meets : L.IsChain Piece.MayMeet
  slack : ∀ n, .slack n ∈ L → 0 < n ∧ n < pmMinBlock
  order : OrderOk G.objects (G.pools p).orderHead L
  listed : ∀ i ∈ liveSlots L, Listed G p i
  liveBlock : ∀ {x s n}, LiveAt (poolStart G (G.pools p)) L x s n →
    (G.objects s).address = x + 8 ∧ (G.objects s).blockSize = n
      ∧ SlotVouched G (poolStartOff G (G.pools p))
        (poolStartOff G (G.pools p) + poolCapacity G (G.pools p)) s
  freeBlock : ∀ {x n}, FreeAt (poolStart G (G.pools p)) L x n →
    ∃ o ∈ freeOffsets G (G.pools p), x = ptrOf G.zone o ∧ n = sizeAt G o
  binned : ∀ o ∈ freeOffsets G (G.pools p),
    FreeAt (poolStart G (G.pools p)) L (ptrOf G.zone o) (sizeAt G o)
  bins : ∃ n, auditPoolBins G (G.pools p) = some n
  cap : (freeOffsets G (G.pools p)).length ≤ kFreeOffCap
  used : (G.pools p).usedBytes = usedOf L
  free : (G.pools p).freeBytes = Tiling.total Piece.len L - usedOf L
  lost : (G.pools p).fragmentBytes = lostOf L
  live : (G.pools p).liveObjects = (liveSlots L).length

omit [PmConfig] in
lemma usedOf_blocksOf {a : ℕ} {M : List Piece} :
    usedOf M = ((livePart (blocksOf a M)).map fun x => x.2 - x.1).sum := by
  induction M generalizing a with
  | nil => rfl
  | cons t M ih =>
      cases t with
      | live s n =>
          simp only [blocksOf, livePart_some, List.map_cons, List.sum_cons, usedOf_cons, Piece.used,
            ih (a := a + n), Nat.add_sub_cancel_left]
      | free n =>
          simp only [blocksOf, livePart_none, usedOf_cons, Piece.used, ih (a := a + n),
            Nat.zero_add]
      | slack n => simp only [blocksOf, usedOf_cons, Piece.used, ih (a := a + n), Nat.zero_add]

/-- A pool that passes has a layout. -/
theorem validate_vouched {G : GlobalState} {p : ℕ} (hz : ZoneOk G)
    (hgeo : poolGeometryOk G (G.pools p) = true) (h : validate G p = .ok) :
    Active G p ∧ ∃ L, Vouched G p L := by
  obtain ⟨hact, slots, used, freeTotal, e, slack, hr⟩ := validate_ok h
  refine ⟨hact, ?_⟩
  have hmin := PmConfig.minBlock_ge
  have hstart := poolStart_eq G (G.pools p)
  have hend : poolStartOff G (G.pools p) + poolCapacity G (G.pools p) ≤ G.zoneSize := by
    rw [poolGeometryOk] at hgeo
    simp only [decide_eq_true_eq, Nat.add_mul] at hgeo
    have := Nat.mod_le ((G.pools p).segmentCount * G.segmentSize) (2 ^ 32)
    rw [poolStartOff, poolCapacity, u32]
    omega
  have hzlt := hz.zoneSize_lt
  obtain ⟨hslots, hpw, hused⟩ := validateLive_sound (by omega) hr.live
  obtain ⟨-, hnd, hfree⟩ := auditPoolBins_sound hr.audit
  have hfacts := fun o ho => auditBlock_facts (hfree o ho).2
  obtain ⟨l, hwalk, hsort⟩ : ∃ l, collectWalk G p (pmMaxObjects + 1) pmMaxObjects noOrder
      (G.pools p).orderHead = some l ∧ collectSort G l = slots := by
    have hc := hr.collect
    rw [collectLiveSorted] at hc
    cases hw : collectWalk G p (pmMaxObjects + 1) pmMaxObjects noOrder (G.pools p).orderHead with
    | none =>
        rw [hw] at hc
        cases hc
    | some l =>
        rw [hw] at hc
        dsimp only at hc
        split_ifs at hc
        exact ⟨l, rfl, Option.some.inj hc⟩
  obtain ⟨hdlist, hlisted, -⟩ := collectWalk_sound hwalk
  have hperm : slots.Perm l := hsort ▸ collectSort_perm G fun i hi => (hlisted i hi).1
  -- both lists ascend, and a live block and a free one differ in the free bit
  have hlive : (slots.map (liveExtent G)).Pairwise fun x y => x.1 < y.1 := by
    rw [List.pairwise_map] at hpw ⊢
    refine (List.Pairwise.and_mem.mp hpw).imp fun {i j} hij => ?_
    have hb := ((hslots i hij.1).1.facts).1.1
    have := hij.2.2
    simp only [liveExtent] at this ⊢
    omega
  have hsorted : ((sortU32Asc (freeOffsets G (G.pools p))).map (freeExtent G)).Pairwise
      fun x y => x.1 < y.1 := by
    rw [List.pairwise_map]
    exact (sortU32Asc_pairwise _).imp₂ (fun a b hle hne => lt_of_le_of_ne hle hne)
      ((sortU32Asc_perm _).nodup_iff.mpr hnd)
  obtain ⟨T, hasc, hlp, hfp, hT⟩ := exists_merged hlive hsorted fun i hi o ho heq => by
    have hl := (hslots i hi).1.facts
    have ho' := hfacts o ((sortU32Asc_perm _).mem_iff.mp ho)
    simp only [liveExtent, freeExtent] at heq
    have hnot := ho'.2.2.2.2.1
    rw [← heq, ptrOf, hl.2.2.2.2.2.1] at hnot
    cases hnot
  have hmem : ∀ t ∈ T, (∃ i ∈ slots, t = (some i, liveExtent G i))
      ∨ ∃ o ∈ freeOffsets G (G.pools p), t = (none, freeExtent G o) := by
    intro t ht
    rcases List.mem_append.mp (hT.mem_iff.mp ht) with hm | hm
    · obtain ⟨i, hi, rfl⟩ := List.mem_map.mp hm
      exact Or.inl ⟨i, hi, rfl⟩
    · obtain ⟨o, ho, rfl⟩ := List.mem_map.mp hm
      exact Or.inr ⟨o, (sortU32Asc_perm _).mem_iff.mp ho, rfl⟩
  have hpos : ∀ t ∈ T, t.2.1 < t.2.2 := by
    intro t ht
    rcases hmem t ht with ⟨i, hi, rfl⟩ | ⟨o, ho, rfl⟩
    · have := ((hslots i hi).1.facts).1.1
      simp only [liveExtent]
      omega
    · have := (hfacts o ho).2.2.1
      rw [sizeAt] at this
      simp only [freeExtent]
      omega
  have hsweep := hr.sweep
  have hlen : T.length = slots.length + (freeOffsets G (G.pools p)).length := by
    rw [hT.length_eq, List.length_append, List.length_map, List.length_map,
      (sortU32Asc_perm _).length_eq]
  rw [← hlp, ← hfp, sweep_eq_merged hasc (by omega)] at hsweep
  obtain ⟨-, htotal, hlost, hblocks, hchain, -, hslack⟩ :=
    sweepMerged_sound hpos hsweep hr.stop hr.tail
  obtain ⟨hliveAt, hfreeAt⟩ := mem_blocksOf (z := G.zone) (a := poolStartOff G (G.pools p))
    (M := layoutOf (poolStartOff G (G.pools p) + poolCapacity G (G.pools p))
      (poolStartOff G (G.pools p)) T)
  rw [hblocks, ← hstart] at hliveAt hfreeAt
  have hsl : (liveSlots (layoutOf (poolStartOff G (G.pools p) + poolCapacity G (G.pools p))
      (poolStartOff G (G.pools p)) T)).Perm slots := by
    rw [liveSlots_layoutOf]
    refine (hT.filterMap _).trans (List.Perm.of_eq ?_)
    rw [List.filterMap_append, List.filterMap_map, List.filterMap_map]
    have h1 : (Prod.fst ∘ fun i => (some i, liveExtent G i)) = some := rfl
    have h2 : (Prod.fst ∘ fun o => ((none : Option ℕ), freeExtent G o)) = fun _ => none := rfl
    rw [h1, h2, List.filterMap_some, List.filterMap_none, List.append_nil]
  have husedOf : usedOf (layoutOf (poolStartOff G (G.pools p) + poolCapacity G (G.pools p))
      (poolStartOff G (G.pools p)) T) = (slots.map fun i => (G.objects i).blockSize).sum := by
    rw [usedOf_blocksOf (a := poolStartOff G (G.pools p)), hblocks, hlp, List.map_map]
    congr 1
    refine List.map_congr_left fun i _ => ?_
    simp only [Function.comp, liveExtent]
    omega
  generalize layoutOf (poolStartOff G (G.pools p) + poolCapacity G (G.pools p))
    (poolStartOff G (G.pools p)) T = L at *
  have hbytes := usedOf_add_lostOf_le L
  rw [husedOf] at hbytes
  have hcapEq : total Piece.len L = poolCapacity G (G.pools p) := by omega
  rw [Nat.zero_add, u32_of_lt (by omega), ← husedOf] at hused
  refine ⟨L, hcapEq, hchain, hslack, ⟨l, hdlist, hperm.symm.trans hsl.symm⟩,
    fun i hi => hlisted i (hperm.mem_iff.mp (hsl.mem_iff.mp hi)), fun {x s n} hx => ?_,
    fun {x n} hx => ?_, fun o ho => ?_, ⟨_, hr.audit⟩, hr.cap, ?_, ?_, ?_, ?_⟩
  · obtain ⟨y, rfl, hm⟩ := hliveAt.mp hx
    rcases hmem _ hm with ⟨i, hi, heq⟩ | ⟨o, -, heq⟩
    · obtain ⟨hi', hext⟩ := Prod.mk.inj heq
      obtain ⟨hy, hn⟩ := Prod.mk.inj hext
      obtain rfl := Option.some.inj hi'
      have hv := (hslots s hi).1
      have hf := hv.facts
      dsimp only at hf
      exact ⟨by omega, by omega, hv⟩
    · cases (Prod.mk.inj heq).1
  · obtain ⟨y, rfl, hm⟩ := hfreeAt.mp hx
    rcases hmem _ hm with ⟨i, -, heq⟩ | ⟨o, ho, heq⟩
    · cases (Prod.mk.inj heq).1
    · obtain ⟨hy, hn⟩ := Prod.mk.inj (Prod.mk.inj heq).2
      exact ⟨o, ho, by rw [ptrOf, hy], by rw [sizeAt]; omega⟩
  · refine hfreeAt.mpr ⟨o, rfl, hT.mem_iff.mpr (List.mem_append_right _ ?_)⟩
    exact List.mem_map.mpr ⟨o, (sortU32Asc_perm _).mem_iff.mpr ho, rfl⟩
  · rw [← hr.usedBytes, hused]
  · rw [hr.freeBytes, hcapEq, hused, sub32_of_le (by omega) (by omega)]
  · have hfreeB := hr.freeBytes
    rw [hused, sub32_of_le (by omega) (by omega)] at hfreeB
    have h1 := hr.total
    have h2 := hr.freeTotal
    have h3 := hr.fragment
    omega
  · rw [← hr.liveObjects, hsl.length_eq]

end PondMerge
