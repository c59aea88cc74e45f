import PondMerge.Operations.Heap
import PondMerge.Operations.Search
import PondMerge.Structure.Global

/-!
`alloc` on the representation invariant.

* `allocCommit_pools`, `allocCommit_objects`, `allocCommit_mem`: the state it leaves.
* `allocCommit_inv`: the pool represents its layout with a free block turned live.
* `alloc_cases`: a refused `alloc` changes nothing, an accepted one is `allocCommit` on the
  block `bins_find` returned.
* `alloc_inv`: `alloc` keeps the invariant of the whole state.
-/

namespace PondMerge

open ByteMemory LinkedList Tiling

variable [PmConfig]

/-! ### The state after an allocation -/

section Commit

variable (G : GlobalState) (p slot blk need size flags tag : ℕ)

/-- The block writes of an allocation. -/
def allocResult : TlsfBins × Mem × ℕ :=
  allocBlock G.zone (poolEnd G (G.pools p)) (G.pools p).bins G.mem blk need

omit [PmConfig] in
lemma orderAppend_pools :
    (orderAppend G p slot).pools =
      Function.update G.pools p { G.pools p with orderHead := slot } := by
  rw [orderAppend]
  split_ifs <;> simp

omit [PmConfig] in
lemma orderAppend_objects (hne : (G.pools p).orderHead ≠ slot) (i : ℕ) :
    (orderAppend G p slot).objects i =
      if i = slot then
        { G.objects slot with addrPrev := noOrder, addrNext := (G.pools p).orderHead }
      else if i = (G.pools p).orderHead ∧ (G.pools p).orderHead ≠ noOrder then
        { G.objects i with addrPrev := slot }
      else G.objects i := by
  rw [orderAppend]
  by_cases hh : (G.pools p).orderHead = noOrder
  · by_cases hi : i = slot
    · subst hi
      simp [hh]
    · simp [hh, hi]
  · by_cases hi : i = slot
    · subst hi
      simp [hh, Ne.symm hne]
    · by_cases hio : i = (G.pools p).orderHead
      · subst hio
        simp [hh, hi]
      · simp [hh, hi, hio]

omit [PmConfig] in
lemma orderAppend_rest :
    (orderAppend G p slot).mem = G.mem ∧ SameZone G (orderAppend G p slot)
      ∧ (orderAppend G p slot).freeSlotHead = G.freeSlotHead
      ∧ (orderAppend G p slot).liveObjectCount = G.liveObjectCount := by
  rw [orderAppend]
  split_ifs <;> exact ⟨rfl, ⟨rfl, rfl, rfl, rfl, rfl⟩, rfl, rfl⟩

omit [PmConfig] in
lemma allocOrder_pools :
    (allocOrder G p slot blk).pools =
      Function.update G.pools p { G.pools p with orderHead := slot } :=
  orderAppend_pools ..

omit [PmConfig] in
lemma allocOrder_rest :
    (allocOrder G p slot blk).mem = G.mem ∧ SameZone G (allocOrder G p slot blk)
      ∧ (allocOrder G p slot blk).freeSlotHead = G.freeSlotHead
      ∧ (allocOrder G p slot blk).liveObjectCount = G.liveObjectCount := by
  obtain ⟨hm, hz, hf, hl⟩ := orderAppend_rest
    (G.setObj slot { ObjectDesc.zero with address := blk + 8 }) p slot
  exact ⟨hm, ⟨hz.zone, hz.zoneSize, hz.segmentSize, hz.segmentCount, hz.initialized⟩, hf, hl⟩

omit [PmConfig] in
lemma allocOrder_objects (hne : (G.pools p).orderHead ≠ slot) (i : ℕ) :
    (allocOrder G p slot blk).objects i =
      if i = slot then
        { ObjectDesc.zero with
          address := blk + 8, addrPrev := noOrder, addrNext := (G.pools p).orderHead }
      else if i = (G.pools p).orderHead ∧ (G.pools p).orderHead ≠ noOrder then
        { G.objects i with addrPrev := slot }
      else G.objects i := by
  refine (orderAppend_objects (G.setObj slot { ObjectDesc.zero with address := blk + 8 }) p slot
    hne i).trans ?_
  by_cases hi : i = slot
  · rw [if_pos hi, if_pos hi]
    simp
  · rw [if_neg hi, if_neg hi]
    simp [Function.update_of_ne hi]

lemma allocOrder_result :
    allocBlock (allocOrder G p slot blk).zone
      (poolEnd (allocOrder G p slot blk) ((allocOrder G p slot blk).pools p))
      ((allocOrder G p slot blk).pools p).bins (allocOrder G p slot blk).mem blk need =
    allocResult G p blk need := by
  obtain ⟨hm, hz, -, -⟩ := allocOrder_rest G p slot blk
  rw [allocOrder_pools, Function.update_self, allocResult, poolEnd, poolEnd, segBase, segBase,
    hz.zone, hz.segmentSize, hm]

lemma allocCommit_pools :
    (allocCommit G p slot blk need size flags tag).pools = Function.update G.pools p
      { G.pools p with
        orderHead := slot
        bins := (allocResult G p blk need).1
        usedBytes := u32 ((G.pools p).usedBytes + (allocResult G p blk need).2.2)
        freeBytes := sub32 (poolCapacity G (G.pools p))
          (u32 ((G.pools p).usedBytes + (allocResult G p blk need).2.2))
        liveObjects := u32 ((G.pools p).liveObjects + 1) } := by
  obtain ⟨-, hz, -, -⟩ := allocOrder_rest G p slot blk
  simp only [allocCommit, allocStats, allocOrder_result, GlobalState.setPool_pools,
    GlobalState.setObj_pools]
  simp only [allocOrder_pools, Function.update_self, Function.update_idem, poolCapacity,
    GlobalState.setPool_segmentSize, GlobalState.setObj_segmentSize, hz.segmentSize]

lemma allocCommit_mem :
    (allocCommit G p slot blk need size flags tag).mem =
      if flags &&& pmZeroInit ≠ 0 then memset (allocResult G p blk need).2.1 (blk + 8) 0 size
      else (allocResult G p blk need).2.1 := by
  simp only [allocCommit, allocStats, allocOrder_result, GlobalState.setPool_mem]

lemma allocCommit_objects (hne : (G.pools p).orderHead ≠ slot) (i : ℕ) :
    (allocCommit G p slot blk need size flags tag).objects i =
      if i = slot then
        freshDesc
          { ObjectDesc.zero with addrPrev := noOrder, addrNext := (G.pools p).orderHead }
          (blk + 8) size (allocResult G p blk need).2.2 tag p flags
          (nextGeneration (G.objects slot).generation)
      else if i = (G.pools p).orderHead ∧ (G.pools p).orderHead ≠ noOrder then
        { G.objects i with addrPrev := slot }
      else G.objects i := by
  simp only [allocCommit, allocStats, allocOrder_result, GlobalState.setPool_objects,
    GlobalState.setObj_objects]
  by_cases hi : i = slot
  · subst hi
    rw [Function.update_self, if_pos rfl, allocOrder_objects _ _ _ _ hne, if_pos rfl]
    rfl
  · rw [Function.update_of_ne hi, if_neg hi, allocOrder_objects _ _ _ _ hne, if_neg hi]

lemma allocCommit_rest :
    SameZone G (allocCommit G p slot blk need size flags tag)
      ∧ (allocCommit G p slot blk need size flags tag).freeSlotHead = G.freeSlotHead
      ∧ (allocCommit G p slot blk need size flags tag).liveObjectCount =
        u32 (G.liveObjectCount + 1) := by
  obtain ⟨-, hz, hf, hl⟩ := allocOrder_rest G p slot blk
  rw [allocCommit]
  generalize allocOrder G p slot blk = F at *
  exact ⟨⟨hz.zone, hz.zoneSize, hz.segmentSize, hz.segmentCount, hz.initialized⟩, hf,
    congrArg (fun n => u32 (n + 1)) hl⟩

end Commit

/-! ### The invariant -/

omit [PmConfig] in
lemma meets_live {s n : ℕ} {L₁ L₂ : List Piece} :
    (L₁ ++ Piece.live s n :: L₂).IsChain Piece.MayMeet ↔
      L₁.IsChain Piece.MayMeet ∧ L₂.IsChain Piece.MayMeet := by
  rw [List.isChain_append, List.isChain_cons]
  constructor
  · rintro ⟨h₁, ⟨-, h₂⟩, -⟩
    exact ⟨h₁, h₂⟩
  · rintro ⟨h₁, h₂⟩
    refine ⟨h₁, ⟨fun t _ => trivial, h₂⟩, fun t _ u hu => ?_⟩
    obtain rfl : Piece.live s n = u := by simpa using hu
    cases t <;> trivial

omit [PmConfig] in
lemma meets_free {n k : ℕ} {L : List Piece} :
    (Piece.free n :: L).IsChain Piece.MayMeet ↔ (Piece.free k :: L).IsChain Piece.MayMeet := by
  rw [List.isChain_cons, List.isChain_cons]
  refine and_congr_left fun _ => forall₂_congr fun t _ => ?_
  cases t <;> rfl

section Inv

variable {G : GlobalState} {p slot n need : ℕ} {L₁ L₂ : List Piece}

/-- The live slots of a layout are distinct slots of the table. -/
lemma LayoutOk.length_le {L : List Piece} (h : LayoutOk L) :
    (liveSlots L).length ≤ pmMaxObjects := by
  have hsub : liveSlots L ⊆ List.range pmMaxObjects := by
    intro s hs
    obtain ⟨n, hn⟩ := mem_liveSlots.mp hs
    exact List.mem_range.mpr (h.pieces _ hn).1
  simpa using (List.subperm_of_subset h.nodup hsub).length_le

lemma liveSlots_allocPieces (s n need : ℕ) : liveSlots (allocPieces s n need) = [s] := by
  rw [allocPieces]
  split_ifs <;> rfl

lemma usedOf_allocPieces (s n need : ℕ) : usedOf (allocPieces s n need) = allocSize n need := by
  rw [allocPieces, allocSize]
  split_ifs <;> simp [Piece.used]

lemma lostOf_allocPieces (s n need : ℕ) : lostOf (allocPieces s n need) = 0 := by
  rw [allocPieces]
  split_ifs <;> simp [Piece.lost]

lemma liveAt_allocPieces {a x s r n need k : ℕ} :
    LiveAt a (allocPieces r n need) x s k ↔ x = a ∧ s = r ∧ k = allocSize n need := by
  rw [allocPieces, allocSize]
  split_ifs <;> simp

/-- A layout stays healthy when a free block is allocated. -/
lemma layoutOk_alloc (h : LayoutOk (L₁ ++ Piece.free n :: L₂)) (hs : slot < pmMaxObjects)
    (hnew : slot ∉ liveSlots (L₁ ++ Piece.free n :: L₂)) (hmin : pmMinBlock ≤ need)
    (hmod : need % 8 = 0) (hle : need ≤ n) :
    LayoutOk (L₁ ++ allocPieces slot n need ++ L₂) := by
  have hn := (h.pieces (.free n) (by simp)).2
  refine ⟨fun t ht => ?_, ?_, fun k hk => Or.inl ?_, ?_⟩
  · rcases List.mem_append.mp ht with ht | ht
    · rcases List.mem_append.mp ht with ht | ht
      · exact h.pieces t (by simp [ht])
      · exact allocPieces_ok hs hn hmin hmod hle t ht
    · exact h.pieces t (by simp [ht])
  · have hch := h.meets
    obtain ⟨h₁, h₂, -⟩ := List.isChain_append.mp hch
    rw [List.append_assoc, allocPieces]
    split_ifs
    · exact meets_live.mpr ⟨h₁, meets_free.mp h₂⟩
    · exact meets_live.mpr ⟨h₁, (List.isChain_cons.mp h₂).2⟩
  · -- the free blocks beside the split one are not undersized
    have hother : ∀ k, .free k ∈ L₁ ∨ .free k ∈ L₂ → pmMinBlock ≤ k := by
      intro k hk
      rcases h.minBlock k (by simp; tauto) with hmin | heq
      · exact hmin
      · rcases L₁ with _ | ⟨t, L₁⟩
        · have hL₂ := (List.cons.inj heq).2
          rw [hL₂] at hk
          simp at hk
        · have hnil := (List.cons.inj heq).2
          simp at hnil
    rcases List.mem_append.mp hk with hk | hk
    · rcases List.mem_append.mp hk with hk | hk
      · exact hother k (Or.inl hk)
      · rw [allocPieces] at hk
        split_ifs at hk with hrem
        · obtain rfl : k = n - need := by simpa using hk
          exact hrem
        · simp at hk
    · exact hother k (Or.inr hk)
  · have hnd := h.nodup
    simp only [liveSlots_append, liveSlots_allocPieces, liveSlots_free] at hnd hnew ⊢
    rw [List.append_assoc, List.singleton_append]
    exact (List.perm_middle.nodup_iff).mpr (List.nodup_cons.mpr ⟨hnew, hnd⟩)

/-- The live blocks of the layout after an allocation. -/
lemma liveAt_alloc {a x s k : ℕ} (hle : need ≤ n) :
    LiveAt a (L₁ ++ allocPieces slot n need ++ L₂) x s k ↔
      LiveAt a (L₁ ++ Piece.free n :: L₂) x s k
        ∨ (x = a + total Piece.len L₁ ∧ s = slot ∧ k = allocSize n need) := by
  simp only [liveAt_append, liveAt_allocPieces, liveAt_free, total_append,
    total_allocPieces hle, ← Nat.add_assoc]
  tauto

lemma le_allocSize (hle : need ≤ n) : need ≤ allocSize n need := by
  rw [allocSize]
  split_ifs <;> omega

omit [PmConfig] in
lemma OrderOk.head {obj : ℕ → ObjectDesc} {head : ℕ} {L : List Piece} (h : OrderOk obj head L) :
    head = noOrder ∨ head ∈ liveSlots L := by
  obtain ⟨l, hl, hperm⟩ := h
  cases l with
  | nil => exact Or.inl hl
  | cons i l =>
      refine Or.inr (hperm.mem_iff.mp ?_)
      rw [hl.1]
      exact List.mem_cons_self

lemma slot_ne_noOrder {s : ℕ} (hs : s < pmMaxObjects) : s ≠ noOrder := by
  have := PmConfig.maxObjects_lt
  rw [noOrder]
  omega

/-- The live-slot list with a new head. -/
lemma OrderOk.push {obj obj' : ℕ → ObjectDesc} {head : ℕ} {L L' : List Piece}
    (h : OrderOk obj head L) (hs : slot < pmMaxObjects)
    (hslot : (obj' slot).addrPrev = noOrder ∧ (obj' slot).addrNext = head)
    (hother : ∀ i ∈ liveSlots L, (obj' i).addrNext = (obj i).addrNext
      ∧ (obj' i).addrPrev = if i = head then slot else (obj i).addrPrev)
    (hperm' : (slot :: liveSlots L).Perm (liveSlots L')) : OrderOk obj' slot L' := by
  obtain ⟨l, hl, hperm⟩ := h
  refine ⟨slot :: l, hl.push (slot_ne_noOrder hs) hslot.2 hslot.1 ?_ ?_,
    (hperm.cons slot).trans hperm'⟩
  · exact fun i hi => (hother i (hperm.mem_iff.mp hi)).1
  · exact fun i hi => (hother i (hperm.mem_iff.mp hi)).2

/-- `alloc` on the invariant of its pool, and the bytes it leaves alone. -/
theorem allocCommit_inv (hz : ZoneOk G) (h : PoolInv G p (L₁ ++ Piece.free n :: L₂))
    (hs : slot < pmMaxObjects) (hnew : slot ∉ liveSlots (L₁ ++ Piece.free n :: L₂))
    (hmin : pmMinBlock ≤ need) (hmod : need % 8 = 0) (hle : need ≤ n) {size : ℕ}
    (hpos : 0 < size) (hsize : size + 8 ≤ need) (flags tag : ℕ) :
    let start := poolStart G (G.pools p)
    let G' := allocCommit G p slot (start + total Piece.len L₁) need size flags tag
    PoolInv G' p (L₁ ++ allocPieces slot n need ++ L₂)
      ∧ ∀ z, ¬ MetaByte start (L₁ ++ Piece.free n :: L₂) z →
        ¬ MetaByte start (L₁ ++ allocPieces slot n need ++ L₂) z →
        (flags &&& pmZeroInit ≠ 0 → ¬ (start + total Piece.len L₁ + 8 ≤ z
          ∧ z < start + total Piece.len L₁ + 8 + size)) → G'.mem z = G.mem z := by
  dsimp only
  generalize hblk : poolStart G (G.pools p) + total Piece.len L₁ = blk
  -- what `alloc` does to headers and bins, over the old layout
  have hwin := h.window_lt hz
  obtain ⟨hrep, hfinal, hframe⟩ := allocBlock_rep ⟨h.headers, h.bins⟩ h.layout.pieces hs hwin.1
    hwin.2 hmin hmod hle
  rw [← h.end_eq, hblk, ← allocResult] at hrep hfinal hframe
  have hlayout := layoutOk_alloc h.layout hs hnew hmin hmod hle
  have hcap := h.capacity hz
  have htotal : total Piece.len (L₁ ++ allocPieces slot n need ++ L₂) =
      total Piece.len (L₁ ++ Piece.free n :: L₂) := by
    simp only [total_append, total_allocPieces hle, total_cons, Piece.len]
    omega
  have hhead : (G.pools p).orderHead ≠ slot := by
    rcases h.order.head with hh | hh
    · rw [hh]
      exact (slot_ne_noOrder hs).symm
    · exact fun heq => hnew (heq ▸ hh)
  have hobj := allocCommit_objects G p slot blk need size flags tag hhead
  have hpool : (allocCommit G p slot blk need size flags tag).pools p = _ :=
    congrFun (allocCommit_pools G p slot blk need size flags tag) p
  rw [Function.update_self] at hpool
  obtain ⟨hsame, -, -⟩ := allocCommit_rest G p slot blk need size flags tag
  have hmem := allocCommit_mem G p slot blk need size flags tag
  generalize allocCommit G p slot blk need size flags tag = G' at *
  have hstart : poolStart G' (G'.pools p) = poolStart G (G.pools p) :=
    hsame.poolStart (by rw [hpool])
  have hlive : LiveAt (poolStart G (G.pools p)) (L₁ ++ allocPieces slot n need ++ L₂) blk slot
      (allocSize n need) := (liveAt_alloc hle).mpr (Or.inr ⟨hblk.symm, rfl, rfl⟩)
  -- `PM_ZERO_INIT` clears the payload, in which no metadata lies
  have hzero : ∀ z, ¬ (blk + 8 ≤ z ∧ z < blk + 8 + size) →
      G'.mem z = (allocResult G p blk need).2.1 z := by
    intro z hz'
    rw [hmem]
    split_ifs
    · exact memset_apply_of_not_mem _ hz'
    · rfl
  have hmeta : ∀ z, MetaByte (poolStart G (G.pools p))
      (L₁ ++ allocPieces slot n need ++ L₂) z → G'.mem z = (allocResult G p blk need).2.1 z := by
    intro z hz'
    have hbody := hz'.not_body hlayout.pieces hlive
    have hge := le_allocSize hle
    exact hzero z (by omega)
  have hused : usedOf (L₁ ++ allocPieces slot n need ++ L₂) =
      usedOf (L₁ ++ Piece.free n :: L₂) + allocSize n need := by
    simp only [usedOf_append, usedOf_allocPieces, usedOf_cons, Piece.used]
    omega
  have hsum := usedOf_add_lostOf_le (L₁ ++ allocPieces slot n need ++ L₂)
  have hu32 : u32 ((G.pools p).usedBytes + (allocResult G p blk need).2.2) =
      usedOf (L₁ ++ allocPieces slot n need ++ L₂) := by
    rw [h.used, hfinal, ← hused]
    exact u32_of_lt (by omega)
  -- the invariant field by field, then the frame
  refine ⟨⟨?_, ?_, ?_, hlayout, ?_, ?_, ?_, ?_, ?_, ?_, ?_, ?_⟩, ?_⟩
  · rw [hpool]
    exact h.segPos
  · rw [hpool, hsame.segmentCount]
    exact h.segLe
  · rw [hpool, hsame.segmentSize, htotal]
    exact h.total
  · rw [hstart]
    exact hrep.headers.congr fun u hu k hk => hmeta _ (.header hu (by omega) (by omega))
  · rw [hstart, hsame.zone, hpool]
    exact hrep.bins.congr fun z hz' => hmeta z (Or.inr hz')
  · intro x s k hx
    rw [hstart] at hx
    rw [hobj]
    rcases (liveAt_alloc hle).mp hx with hx | ⟨rfl, rfl, rfl⟩
    · have hne : s ≠ slot := fun heq => hnew (heq ▸ hx.mem_liveSlots)
      have hd := h.desc hx
      rw [if_neg hne]
      split_ifs
      · exact ⟨hd.state, hd.pool, hd.address, hd.block, hd.sizePos, hd.sizeLe, hd.generation⟩
      · exact hd
    · rw [if_pos rfl]
      have hge := le_allocSize hle
      refine ⟨rfl, rfl, by rw [hblk]; rfl, hfinal, hpos, by simp only [freshDesc]; omega, ?_⟩
      simp only [freshDesc, nextGeneration]
      split_ifs with h0
      · omega
      · exact h0
  · rw [hpool]
    refine h.order.push hs ?_ ?_ ?_
    · rw [hobj, if_pos rfl]
      exact ⟨rfl, rfl⟩
    · intro i hi
      have hne : i ≠ slot := fun heq => hnew (heq ▸ hi)
      have hio : i ≠ noOrder := slot_ne_noOrder (by
        obtain ⟨k, hk⟩ := mem_liveSlots.mp hi
        exact (h.layout.pieces _ hk).1)
      rw [hobj, if_neg hne]
      by_cases hih : i = (G.pools p).orderHead
      · rw [if_pos ⟨hih, hih ▸ hio⟩, if_pos hih]
        exact ⟨rfl, rfl⟩
      · rw [if_neg (fun hh => hih hh.1), if_neg hih]
        exact ⟨rfl, rfl⟩
    · simp only [liveSlots_append, liveSlots_allocPieces, liveSlots_free, List.append_assoc]
      exact List.perm_middle.symm
  · rw [hpool]
    exact hu32
  · rw [hpool]
    simp only
    rw [hu32, hcap, htotal, sub32_of_le (by omega) (by omega)]
  · rw [hpool]
    have hlost : lostOf (L₁ ++ allocPieces slot n need ++ L₂) =
        lostOf (L₁ ++ Piece.free n :: L₂) := by
      simp [lostOf_allocPieces, Piece.lost]
    rw [hlost]
    exact h.lost
  · rw [hpool]
    have hlen : (liveSlots (L₁ ++ allocPieces slot n need ++ L₂)).length =
        (liveSlots (L₁ ++ Piece.free n :: L₂)).length + 1 := by
      simp only [liveSlots_append, liveSlots_allocPieces, liveSlots_free, List.length_append,
        List.length_singleton]
      omega
    have hle' := hlayout.length_le
    have hmax := PmConfig.maxObjects_lt
    simp only
    rw [hlen, h.live]
    exact u32_of_lt (by omega)
  · intro z h₁ h₂ h₃
    rw [hmem]
    split_ifs with hzi
    · rw [memset_apply_of_not_mem _ (h₃ hzi)]
      exact hframe z h₁ h₂
    · exact hframe z h₁ h₂

end Inv

/-! ### The operation -/

section Operation

variable {G : GlobalState}

/-- The state with its first free slot popped. -/
def popSlot (G : GlobalState) : GlobalState :=
  { G with freeSlotHead := (G.objects G.freeSlotHead).nextFreeSlot }

omit [PmConfig] in
lemma slotAlloc_eq (h : G.freeSlotHead ≠ noSlot) :
    slotAlloc G = (G.freeSlotHead, popSlot G) := by
  rw [slotAlloc, if_neg h]
  rfl

omit [PmConfig] in
/-- Giving the popped slot back restores the state. -/
lemma slotRelease_popSlot (G : GlobalState) : slotRelease (popSlot G) G.freeSlotHead = G := by
  rw [slotRelease]
  simp only [popSlot, GlobalState.setObj, Function.update_eq_self]

lemma allocNeed_spec {size need : ℕ} (h : allocNeed size = some need) :
    pmMinBlock ≤ need ∧ need % 8 = 0 ∧ size + 8 ≤ need ∧ need < 2 ^ pmFlMax := by
  have hmin := minBlock_mod
  rw [allocNeed] at h
  by_cases h1 : 2 ^ 32 - 1 - 7 < size
  · rw [if_pos h1] at h
    cases h
  have hup : alignUpU size 8 = (size + 7) / 8 * 8 := by
    rw [alignUpU, u32_of_lt (by omega)]
    omega
  rw [if_neg h1, hup] at h
  by_cases h2 : 2 ^ 32 - 1 - 8 < (size + 7) / 8 * 8
  · rw [if_pos h2] at h
    cases h
  rw [if_neg h2] at h
  dsimp only at h
  split_ifs at h with h3 h4 h4
  · obtain rfl := Option.some.inj h
    exact ⟨le_refl _, hmin, by omega, by omega⟩
  · obtain rfl := Option.some.inj h
    exact ⟨by omega, by omega, by omega, by omega⟩

/-- What an accepted `alloc` has checked. -/
structure AllocAccepted (G : GlobalState) (p size alignment flags need blk : ℕ) : Prop where
  init : G.initialized = true
  active : Active G p
  running : (G.pools p).state = .running
  sizePos : 0 < size
  alignOk : alignmentOk alignment = true
  flagsOk : flags &&& pmUnknownFlags = 0
  needEq : allocNeed size = some need
  slot : G.freeSlotHead ≠ noSlot
  found : binsFind (popSlot G) (G.pools p).bins need = some blk
  geometry : poolGeometryOk G (G.pools p) = true
  inPool : offInPool G (G.pools p) (offOf G.zone blk) = true
  isFree : blkIsFree G.mem blk = true
  large : need ≤ blkSizeOf G.mem blk

/-- A refused `alloc` changes nothing; an accepted one commits. -/
theorem alloc_cases (G : GlobalState) (p size alignment flags tag : ℕ) :
    (∃ st, st ≠ .ok ∧ alloc G p size alignment flags tag = (st, .null, G))
      ∨ ∃ need blk, AllocAccepted G p size alignment flags need blk
        ∧ alloc G p size alignment flags tag =
          (.ok, ⟨G.freeSlotHead, nextGeneration (G.objects G.freeSlotHead).generation, p, 0⟩,
            allocCommit (popSlot G) p G.freeSlotHead blk need size (allocFlags flags) tag) := by
  rw [alloc]
  by_cases hinit : G.initialized = true
  swap
  · exact Or.inl ⟨_, by decide, if_pos (by simpa using hinit)⟩
  rw [if_neg (by simp [hinit])]
  cases hpool : poolAt G p with
  | none => exact Or.inl ⟨_, by decide, rfl⟩
  | some P =>
      obtain ⟨hact, rfl⟩ := poolAt_eq_some.mp hpool
      dsimp only
      by_cases hrun : (G.pools p).state = .running
      swap
      · exact Or.inl ⟨_, by decide, if_pos hrun⟩
      rw [if_neg (not_not.mpr hrun)]
      -- the checks in the order of the source, each with its own refusal
      by_cases h1 : (G.pools p).orderHead ≠ noOrder ∧ pmMaxObjects ≤ (G.pools p).orderHead
      · exact Or.inl ⟨_, by decide, if_pos h1⟩
      rw [if_neg h1]
      by_cases h2 : (!poolGeometryOk G (G.pools p)) = true
      · exact Or.inl ⟨_, by decide, if_pos h2⟩
      rw [if_neg h2]
      by_cases h3 : size = 0
      · exact Or.inl ⟨_, by decide, if_pos h3⟩
      rw [if_neg h3]
      by_cases h4 : (!alignmentOk alignment) = true
      · exact Or.inl ⟨_, by decide, if_pos h4⟩
      rw [if_neg h4]
      by_cases h5 : flags &&& pmUnknownFlags ≠ 0
      · exact Or.inl ⟨_, by decide, if_pos h5⟩
      rw [if_neg h5]
      cases hneed : allocNeed size with
      | none => exact Or.inl ⟨_, by decide, rfl⟩
      | some need =>
          dsimp only
          by_cases hslot : G.freeSlotHead = noSlot
          · refine Or.inl ⟨.noSpace, by decide, if_pos ?_⟩
            rw [slotAlloc, if_pos hslot]
          rw [slotAlloc_eq hslot, if_neg hslot, allocFrom]
          have hP : (popSlot G).pools p = G.pools p := rfl
          dsimp only
          rw [hP]
          cases hfind : binsFind (popSlot G) (G.pools p).bins need with
          | none =>
              refine Or.inl ⟨_, ?_, by dsimp only; rw [slotRelease_popSlot]⟩
              split_ifs <;> decide
          | some blk =>
              dsimp only
              split_ifs with h6 h7
              · exact Or.inl ⟨.corruptMetadata, by decide, by rw [slotRelease_popSlot]⟩
              · exact Or.inl ⟨.noSpace, by decide, by rw [slotRelease_popSlot]⟩
              · rw [not_or, Bool.not_eq_true', Bool.not_eq_true', Bool.not_eq_false,
                  Bool.not_eq_false] at h6
                exact Or.inr ⟨need, blk, ⟨hinit, hact, hrun, Nat.pos_of_ne_zero h3,
                  by simpa using h4, not_not.mp h5, hneed, hslot, hfind, by simpa using h2,
                  h6.1, h6.2, not_lt.mp h7⟩, rfl⟩

/-- The invariant after a slot has been popped, as far as pools go. -/
lemma PoolInv.popSlot {p : ℕ} {L : List Piece} (h : PoolInv G p L) :
    PoolInv (PondMerge.popSlot G) p L :=
  h.congr ⟨rfl, rfl, rfl, rfl, rfl⟩ (SameShape.refl _) (fun _ _ => SameBlock.refl _)
    fun _ _ => rfl

/-- The free-slot list gives out a free slot of the table. -/
lemma SlotsOk.head_free (h : SlotsOk G) (hne : G.freeSlotHead ≠ noSlot) :
    G.freeSlotHead < pmMaxObjects ∧ (G.objects G.freeSlotHead).state = .free := by
  obtain ⟨l, hl, hmem, -⟩ := h
  cases l with
  | nil => exact absurd hl hne
  | cons i l =>
      rw [hl.1]
      exact (hmem i).mp List.mem_cons_self

/-- Where an accepted `alloc` finds its block in the layout. -/
theorem AllocAccepted.block {p size alignment flags need blk : ℕ} {L : List Piece}
    (ha : AllocAccepted G p size alignment flags need blk) (h : PoolInv G p L) :
    ∃ L₁ n L₂, L = L₁ ++ Piece.free n :: L₂ ∧ need ≤ n
      ∧ blk = poolStart G (G.pools p) + total Piece.len L₁ := by
  obtain ⟨⟨n, hn, -⟩, hsz⟩ := binsFind_sound h.popSlot.bins ha.found
  have hn' : (blk, Piece.free n) ∈ place Piece.len (poolStart G (G.pools p)) L := hn
  obtain ⟨L₁, L₂, rfl, hblk⟩ := exists_split hn'
  have hmod := (h.layout.pieces (.free n) (by simp)).2
  have hw := h.headers.at_split.1
  have hpop : (PondMerge.popSlot G).mem = G.mem := rfl
  rw [hpop, hblk, blkSizeOf_free hmod hw] at hsz
  exact ⟨L₁, n, L₂, rfl, hsz, hblk⟩

/-- The free-slot list after its first slot has become live. -/
lemma SlotsOk.pop {G' : GlobalState} (h : SlotsOk G) (hne : G.freeSlotHead ≠ noSlot)
    (hhead : G'.freeSlotHead = (G.objects G.freeSlotHead).nextFreeSlot)
    (hcount : G'.liveObjectCount = u32 (G.liveObjectCount + 1))
    (hslot : (G'.objects G.freeSlotHead).state = .live)
    (hobj : ∀ i < pmMaxObjects, i ≠ G.freeSlotHead →
      (G'.objects i).nextFreeSlot = (G.objects i).nextFreeSlot
        ∧ (G'.objects i).state = (G.objects i).state) : SlotsOk G' := by
  obtain ⟨l, hl, hmem, hlen⟩ := h
  cases l with
  | nil => exact absurd hl hne
  | cons s l =>
      obtain ⟨rfl, -, htl⟩ := id hl
      have hnd := (List.nodup_cons.mp hl.nodup)
      have hother : ∀ i ∈ l, i < pmMaxObjects ∧ i ≠ G.freeSlotHead := fun i hi =>
        ⟨((hmem i).mp (List.mem_cons_of_mem _ hi)).1, fun heq => hnd.1 (heq ▸ hi)⟩
      refine ⟨l, ?_, fun i => ?_, ?_⟩
      · rw [hhead]
        exact htl.congr fun i hi => (hobj i (hother i hi).1 (hother i hi).2).1
      · constructor
        · intro hi
          obtain ⟨hlt, hni⟩ := hother i hi
          rw [(hobj i hlt hni).2]
          exact (hmem i).mp (List.mem_cons_of_mem _ hi)
        · rintro ⟨hlt, hfree⟩
          have hni : i ≠ G.freeSlotHead := by
            rintro rfl
            rw [hslot] at hfree
            cases hfree
          rw [(hobj i hlt hni).2] at hfree
          exact (List.mem_cons.mp ((hmem i).mpr ⟨hlt, hfree⟩)).resolve_left hni
      · rw [List.length_cons] at hlen
        have hmax := PmConfig.maxObjects_lt
        rw [hcount, u32_of_lt (by omega)]
        omega

/-- The free-slot head belongs to no pool. -/
lemma GlobalInv.slot_not_live {Ls : ℕ → List Piece} (h : GlobalInv G Ls)
    (hne : G.freeSlotHead ≠ noSlot) {q : ℕ} (hq : Active G q) :
    G.freeSlotHead ∉ liveSlots (Ls q) := by
  intro hm
  have hlive := ((h.pool q hq).poolId hm).2
  rw [(h.slots.head_free hne).2] at hlive
  cases hlive

/-- The free-slot head heads no live-slot list. -/
lemma GlobalInv.head_ne_slot {Ls : ℕ → List Piece} (h : GlobalInv G Ls)
    (hne : G.freeSlotHead ≠ noSlot) {q : ℕ} (hq : Active G q) :
    (G.pools q).orderHead ≠ G.freeSlotHead := by
  cases (h.pool q hq).order.head with
  | inl hh =>
      rw [hh]
      exact (slot_ne_noOrder (h.slots.head_free hne).1).symm
  | inr hh => exact fun heq => h.slot_not_live hne hq (heq ▸ hh)

/-- An accepted `alloc` on the invariant of the whole state. -/
theorem alloc_inv {Ls : ℕ → List Piece} (h : GlobalInv G Ls) {p size alignment flags need : ℕ}
    {L₁ L₂ : List Piece} {n : ℕ} (tag : ℕ)
    (ha : AllocAccepted G p size alignment flags need
      (poolStart G (G.pools p) + total Piece.len L₁))
    (hL : Ls p = L₁ ++ Piece.free n :: L₂) (hle : need ≤ n) :
    GlobalInv (allocCommit (popSlot G) p G.freeSlotHead
        (poolStart G (G.pools p) + total Piece.len L₁) need size (allocFlags flags) tag)
      (Function.update Ls p (L₁ ++ allocPieces G.freeSlotHead n need ++ L₂)) := by
  obtain ⟨hslt, hsfree⟩ := h.slots.head_free ha.slot
  obtain ⟨hmin, hmod, hsize, -⟩ := allocNeed_spec ha.needEq
  have hpool := h.pool p ha.active
  rw [hL] at hpool
  have hnotlive : ∀ q, Active G q → G.freeSlotHead ∉ liveSlots (Ls q) :=
    fun q hq => h.slot_not_live ha.slot hq
  have hnew : G.freeSlotHead ∉ liveSlots (L₁ ++ Piece.free n :: L₂) := hL ▸ hnotlive p ha.active
  have hzpop : ZoneOk (popSlot G) := h.zone.of_same ⟨rfl, rfl, rfl, rfl, rfl⟩
  -- its own pool; what follows frames the others
  obtain ⟨hinv, hframe⟩ := allocCommit_inv hzpop hpool.popSlot hslt hnew hmin hmod hle
    ha.sizePos hsize (allocFlags flags) tag
  have hhead : ((popSlot G).pools p).orderHead ≠ G.freeSlotHead :=
    h.head_ne_slot ha.slot ha.active
  have hstart : poolStart (popSlot G) ((popSlot G).pools p) = poolStart G (G.pools p) := rfl
  rw [hstart] at hinv hframe
  generalize hblk : poolStart G (G.pools p) + total Piece.len L₁ = blk at *
  have hobj := allocCommit_objects (popSlot G) p G.freeSlotHead blk need size
    (allocFlags flags) tag hhead
  have hpools := allocCommit_pools (popSlot G) p G.freeSlotHead blk need size
    (allocFlags flags) tag
  obtain ⟨hsame, hfree, hcount⟩ := allocCommit_rest (popSlot G) p G.freeSlotHead blk need size
    (allocFlags flags) tag
  generalize allocCommit (popSlot G) p G.freeSlotHead blk need size (allocFlags flags) tag = G'
    at *
  have hpopz : SameZone G (popSlot G) := ⟨rfl, rfl, rfl, rfl, rfl⟩
  have hsame' : SameZone G G' := hpopz.trans hsame
  have hother : ∀ i, i ≠ G.freeSlotHead →
      (G'.objects i).nextFreeSlot = (G.objects i).nextFreeSlot
        ∧ (G'.objects i).state = (G.objects i).state := by
    intro i hi
    rw [hobj, if_neg hi]
    split_ifs <;> exact ⟨rfl, rfl⟩
  have hslive : (G'.objects G.freeSlotHead).state = .live := by
    rw [hobj, if_pos rfl]
    rfl
  have hslots' : liveSlots (L₁ ++ allocPieces G.freeSlotHead n need ++ L₂) =
      liveSlots L₁ ++ G.freeSlotHead :: liveSlots L₂ := by
    simp [liveSlots_allocPieces]
  refine h.update ha.active hsame' ?_ ?_ ?_ hinv ?_ ?_ ?_ ?_ ?_ ?_
  · intro q hq
    rw [hpools, Function.update_of_ne hq]
    rfl
  · rw [hpools, Function.update_self]
    exact Or.inl ha.running
  · rw [hpools, Function.update_self]
    exact ⟨rfl, rfl⟩
  · intro i _ hi hi'
    rw [hL] at hi
    have hne : i ≠ G.freeSlotHead := by
      rintro rfl
      exact hi' (by rw [hslots']; simp)
    rw [hobj, if_neg hne]
    -- of the pool, only the head of the object list has its link changed
    have hnh : ¬ (i = ((popSlot G).pools p).orderHead
        ∧ ((popSlot G).pools p).orderHead ≠ noOrder) := by
      rintro ⟨heq, hno⟩
      rcases hpool.order.head with hh | hh
      · exact hno hh
      · exact hi (heq ▸ hh)
    rw [if_neg hnh]
    exact SameBlock.refl _
  · intro z hz
    refine hframe z (fun hm => hz ?_) (fun hm => hz ?_) fun _ hin => hz ?_
    · exact hpool.meta_inWindow hm
    · have := hinv.layout.pieces
      have hb := hm.bounds this
      have htot : total Piece.len (L₁ ++ allocPieces G.freeSlotHead n need ++ L₂) =
          total Piece.len (L₁ ++ Piece.free n :: L₂) := by
        simp only [total_append, total_allocPieces hle, total_cons, Piece.len]
        omega
      rw [htot, ← hpool.end_eq] at hb
      exact hb
    · have hend := hpool.end_eq
      simp only [total_append, total_cons, Piece.len] at hend
      exact ⟨by omega, by omega⟩
  · intro i _ hi _
    rw [hL] at hi
    rw [hslots']
    simp only [liveSlots_append, liveSlots_free, List.mem_append, List.mem_cons] at hi ⊢
    tauto
  · intro q hq hqp i hi hi'
    rw [hslots'] at hi'
    have hcases : i = G.freeSlotHead ∨ i ∈ liveSlots (Ls p) := by
      rw [hL]
      simp only [liveSlots_append, liveSlots_free, List.mem_append, List.mem_cons] at hi' ⊢
      tauto
    rcases hcases with rfl | hm
    · exact hnotlive q hq hi
    · exact hqp (h.slots_apart hq ha.active hi hm)
  · intro i hi
    by_cases hne : i = G.freeSlotHead
    · rw [hne]
      exact Or.inl hslive
    · rw [(hother i hne).2]
      exact h.idle i hi
  · exact h.slots.pop ha.slot hfree hcount hslive fun i _ hne => hother i hne

end Operation

end PondMerge
