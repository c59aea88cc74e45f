import PondMerge.Operations.Alloc

/-!
`free` on the representation invariant of its pool.

* `freeCommit_pools`, `freeCommit_objects`, `freeCommit_mem`: the state it leaves.
* `exists_free_split`: a live block with the free blocks around it.
* `freeCommit_inv`: the pool represents its layout with these blocks made one free block.
-/

namespace PondMerge

open ByteMemory LinkedList Tiling

variable [PmConfig]

/-! ### The state after a release -/

section Commit

variable (G : GlobalState) (p idx : ℕ)

omit [PmConfig] in
/-- The entry of a pool whose live-slot list has lost slot `idx`. -/
lemma orderUnlink_pools :
    (orderUnlink G p idx).pools = Function.update G.pools p
      { G.pools p with
        orderHead := if (G.objects idx).addrPrev ≠ noOrder then (G.pools p).orderHead
          else (G.objects idx).addrNext } := by
  rw [orderUnlink]
  by_cases h : (G.objects idx).addrPrev = noOrder
  · simp only [h, ne_eq, not_true_eq_false, if_false]
    split_ifs <;> simp
  · simp only [h, ne_eq, not_false_eq_true, if_true]
    split_ifs <;> simp

omit [PmConfig] in
lemma orderUnlink_objects (hp : (G.objects idx).addrPrev ≠ idx)
    (hn : (G.objects idx).addrNext ≠ idx) {i : ℕ} (h0 : i ≠ noOrder) :
    (orderUnlink G p idx).objects i =
      if i = idx then { G.objects idx with addrPrev := noOrder, addrNext := noOrder }
      else
        { G.objects i with
          addrNext := if i = (G.objects idx).addrPrev then (G.objects idx).addrNext
            else (G.objects i).addrNext
          addrPrev := if i = (G.objects idx).addrNext then (G.objects idx).addrPrev
            else (G.objects i).addrPrev } := by
  rw [orderUnlink]
  by_cases hi : i = idx
  · subst hi
    by_cases h1 : (G.objects i).addrPrev = noOrder <;>
      by_cases h2 : (G.objects i).addrNext = noOrder <;>
      simp [h1, h2, Ne.symm hn, Ne.symm hp]
  · rw [if_neg hi]
    by_cases hip : i = (G.objects idx).addrPrev
    · by_cases hin : i = (G.objects idx).addrNext
      · simp [← hip, ← hin, h0, hi, Ne.symm hi]
      · by_cases h2 : (G.objects idx).addrNext = noOrder
        · simp [← hip, h0, hi, Ne.symm hi, h2]
        · simp [← hip, h0, hi, hin, Ne.symm hi, h2]
    · by_cases h1 : (G.objects idx).addrPrev = noOrder
      · by_cases hin : i = (G.objects idx).addrNext
        · simp [← hin, h0, hi, h1]
        · by_cases h2 : (G.objects idx).addrNext = noOrder
          · simp [hi, h0, h1, h2]
          · simp [hi, hin, h0, h1, h2]
      · by_cases hin : i = (G.objects idx).addrNext
        · simp [← hin, h0, hi, hip, h1, Ne.symm hp]
        · by_cases h2 : (G.objects idx).addrNext = noOrder
          · simp [hi, hip, h0, h1, h2, Ne.symm hp]
          · simp [hi, hip, hin, h1, h2, Ne.symm hp]

omit [PmConfig] in
lemma orderUnlink_rest :
    (orderUnlink G p idx).mem = G.mem ∧ SameZone G (orderUnlink G p idx)
      ∧ (orderUnlink G p idx).freeSlotHead = G.freeSlotHead
      ∧ (orderUnlink G p idx).liveObjectCount = G.liveObjectCount := by
  rw [orderUnlink]
  split_ifs <;> exact ⟨rfl, ⟨rfl, rfl, rfl, rfl, rfl⟩, rfl, rfl⟩

variable (block stop : ℕ)

/-- The block writes of a release. -/
def freeResult : TlsfBins × Mem :=
  freeBlock G.zone stop (G.pools p).bins G.mem block (G.objects idx).blockSize

lemma freeCommit_pools :
    (freeCommit G p idx block stop).pools = Function.update G.pools p
      { G.pools p with
        bins := (freeResult G p idx block stop).1
        orderHead := if (G.objects idx).addrPrev ≠ noOrder then (G.pools p).orderHead
          else (G.objects idx).addrNext
        usedBytes := sub32 (G.pools p).usedBytes (G.objects idx).blockSize
        freeBytes := sub32 (poolCapacity G (G.pools p))
          (sub32 (G.pools p).usedBytes (G.objects idx).blockSize)
        liveObjects := sub32 (G.pools p).liveObjects 1 } := by
  have hpools := orderUnlink_pools (freeHeap G p idx block stop) p idx
  obtain ⟨-, hz, -, -⟩ := orderUnlink_rest (freeHeap G p idx block stop) p idx
  have hheap : (freeHeap G p idx block stop).pools = Function.update G.pools p
      { G.pools p with bins := (freeResult G p idx block stop).1 } := rfl
  have hseg : (orderUnlink (freeHeap G p idx block stop) p idx).segmentSize = G.segmentSize :=
    hz.segmentSize
  simp only [freeCommit, slotRelease, GlobalState.setObj_pools, GlobalState.setPool_pools]
  simp only [hpools, hheap, Function.update_self, Function.update_idem, poolCapacity, hseg]
  rfl

lemma freeCommit_mem : (freeCommit G p idx block stop).mem = (freeResult G p idx block stop).2 := by
  obtain ⟨hm, -, -, -⟩ := orderUnlink_rest (freeHeap G p idx block stop) p idx
  rw [freeCommit]
  generalize orderUnlink (freeHeap G p idx block stop) p idx = F at *
  exact hm

lemma freeCommit_objects (hp : (G.objects idx).addrPrev ≠ idx)
    (hn : (G.objects idx).addrNext ≠ idx) {i : ℕ} (h0 : i ≠ noOrder) :
    (freeCommit G p idx block stop).objects i =
      if i = idx then
        { freedDesc { G.objects idx with addrPrev := noOrder, addrNext := noOrder } with
          nextFreeSlot := G.freeSlotHead }
      else
        { G.objects i with
          addrNext := if i = (G.objects idx).addrPrev then (G.objects idx).addrNext
            else (G.objects i).addrNext
          addrPrev := if i = (G.objects idx).addrNext then (G.objects idx).addrPrev
            else (G.objects i).addrPrev } := by
  have hobj := fun j (hj : j ≠ noOrder) =>
    orderUnlink_objects (freeHeap G p idx block stop) p idx hp hn hj
  obtain ⟨-, -, hf, -⟩ := orderUnlink_rest (freeHeap G p idx block stop) p idx
  have hheap : (freeHeap G p idx block stop).objects = G.objects := rfl
  have hfree : (orderUnlink (freeHeap G p idx block stop) p idx).freeSlotHead = G.freeSlotHead :=
    hf
  simp only [freeCommit, slotRelease, GlobalState.setObj_objects, GlobalState.setPool_objects,
    GlobalState.setObj_freeSlotHead, GlobalState.setPool_freeSlotHead, hfree]
  by_cases hi : i = idx
  · subst hi
    rw [Function.update_self, Function.update_self, if_pos rfl, hobj i h0, if_pos rfl, hheap]
  · rw [Function.update_of_ne hi, Function.update_of_ne hi, if_neg hi, hobj i h0, if_neg hi, hheap]

lemma freeCommit_rest :
    SameZone G (freeCommit G p idx block stop)
      ∧ (freeCommit G p idx block stop).freeSlotHead = idx
      ∧ (freeCommit G p idx block stop).liveObjectCount = sub32 G.liveObjectCount 1 := by
  obtain ⟨-, hz, -, hl⟩ := orderUnlink_rest (freeHeap G p idx block stop) p idx
  have hheap : SameZone G (freeHeap G p idx block stop) := ⟨rfl, rfl, rfl, rfl, rfl⟩
  have hz' := hheap.trans hz
  have hl' : (freeHeap G p idx block stop).liveObjectCount = G.liveObjectCount := rfl
  rw [hl'] at hl
  simp only [freeCommit, slotRelease]
  generalize orderUnlink (freeHeap G p idx block stop) p idx = G' at *
  refine ⟨⟨hz'.zone, hz'.zoneSize, hz'.segmentSize, hz'.segmentCount, hz'.initialized⟩, trivial, ?_⟩
  simp only [GlobalState.setObj_liveObjectCount, hl]

end Commit

/-! ### The layout after a release -/

omit [PmConfig] in
lemma exists_back (L : List Piece) (h : L.IsChain Piece.MayMeet) :
    ∃ L₀ B, L = L₀ ++ B ∧ FreeOrNil B ∧ NoFreeLast L₀ := by
  by_cases hfree : ∃ L₀ j, L = L₀ ++ [Piece.free j]
  · obtain ⟨L₀, j, rfl⟩ := hfree
    refine ⟨L₀, [.free j], rfl, Or.inr ⟨j, rfl⟩, ?_⟩
    rintro L' i rfl
    rw [List.append_assoc, List.singleton_append] at h
    have hmeet := (List.isChain_cons_cons.mp (List.isChain_append.mp h).2.1).1
    exact hmeet
  · refine ⟨L, [], by simp, Or.inl rfl, fun L' j heq => hfree ⟨L', j, heq⟩⟩

omit [PmConfig] in
lemma exists_front (L : List Piece) (h : L.IsChain Piece.MayMeet) :
    ∃ C L₃, L = C ++ L₃ ∧ FreeOrNil C ∧ NoFreeHead L₃ := by
  by_cases hfree : ∃ j L₃, L = .free j :: L₃
  · obtain ⟨j, L₃, rfl⟩ := hfree
    refine ⟨[.free j], L₃, rfl, Or.inr ⟨j, rfl⟩, ?_⟩
    rintro i L' rfl
    exact (List.isChain_cons_cons.mp h).1
  · exact ⟨[], L, rfl, Or.inl rfl, fun j L' heq => hfree ⟨j, L', heq⟩⟩

omit [PmConfig] in
/-- A live block with the free blocks around it. -/
lemma exists_free_split {L₁ L₂ : List Piece} {s n : ℕ}
    (h : (L₁ ++ Piece.live s n :: L₂).IsChain Piece.MayMeet) :
    ∃ L₀ B C L₃, L₁ = L₀ ++ B ∧ L₂ = C ++ L₃ ∧ FreeOrNil B ∧ FreeOrNil C
      ∧ NoFreeLast L₀ ∧ NoFreeHead L₃ := by
  obtain ⟨h₁, h₂⟩ := meets_live.mp h
  obtain ⟨L₀, B, rfl, hB, hL₀⟩ := exists_back L₁ h₁
  obtain ⟨C, L₃, rfl, hC, hL₃⟩ := exists_front L₂ h₂
  exact ⟨L₀, B, C, L₃, rfl, rfl, hB, hC, hL₀, hL₃⟩

omit [PmConfig] in
lemma FreeOrNil.counts {B : List Piece} (h : FreeOrNil B) :
    liveSlots B = [] ∧ usedOf B = 0 ∧ lostOf B = 0 := by
  rcases h with rfl | ⟨j, rfl⟩
  · exact ⟨rfl, rfl, rfl⟩
  · exact ⟨rfl, rfl, rfl⟩

omit [PmConfig] in
lemma FreeOrNil.not_live {B : List Piece} (h : FreeOrNil B) {a x s n : ℕ} :
    ¬ LiveAt a B x s n := by
  rcases h with rfl | ⟨j, rfl⟩ <;> simp

section Inv

variable {G : GlobalState} {p s n : ℕ} {L₀ B C L₃ : List Piece}

/-- A layout stays healthy when a live block is released into the free blocks around it. -/
lemma layoutOk_free (h : LayoutOk (L₀ ++ (B ++ Piece.live s n :: C) ++ L₃)) (hB : FreeOrNil B)
    (hC : FreeOrNil C) (hL₀ : NoFreeLast L₀) (hL₃ : NoFreeHead L₃) :
    LayoutOk (L₀ ++ [Piece.free (total Piece.len B + n + total Piece.len C)] ++ L₃) := by
  have hge := PmConfig.minBlock_ge
  have hlive := h.pieces (.live s n) (by simp)
  have hmin := hlive.2.1
  have hmod := hlive.2.2
  have hB8 : total Piece.len B % 8 = 0 := total_mod fun t ht => h.pieces t (by simp [ht])
  have hC8 : total Piece.len C % 8 = 0 := total_mod fun t ht => h.pieces t (by simp [ht])
  refine ⟨fun t ht => ?_, ?_, fun k hk => Or.inl ?_, ?_⟩
  · rcases List.mem_append.mp ht with ht | ht
    · rcases List.mem_append.mp ht with ht | ht
      · exact h.pieces t (by simp [ht])
      · rw [List.mem_singleton.mp ht]
        exact ⟨by omega, by omega⟩
    · exact h.pieces t (by simp [ht])
  · have hch := h.meets
    obtain ⟨h₀₁, h₃, -⟩ := List.isChain_append.mp hch
    obtain ⟨h₀, -, -⟩ := List.isChain_append.mp h₀₁
    rw [List.append_assoc, List.singleton_append]
    refine List.isChain_append.mpr ⟨h₀, List.isChain_cons.mpr ⟨fun t ht => ?_, h₃⟩, ?_⟩
    · cases t with
      | live r k => trivial
      | slack k => trivial
      | free k =>
          obtain ⟨L', rfl⟩ := List.head?_eq_some_iff.mp ht
          exact absurd rfl (hL₃ k L')
    · intro t ht u hu
      obtain rfl : Piece.free _ = u := by simpa using hu
      cases t with
      | live r k => trivial
      | slack k => trivial
      | free k =>
          obtain ⟨L', rfl⟩ := List.getLast?_eq_some_iff.mp ht
          exact absurd rfl (hL₀ L' k)
  · -- only the released block could be undersized, and it takes its neighbours in
    have hother : ∀ k, .free k ∈ L₀ ∨ .free k ∈ L₃ → pmMinBlock ≤ k := by
      intro k hk
      rcases h.minBlock k (by simp; tauto) with hmin | heq
      · exact hmin
      · have : Piece.live s n ∈ [Piece.free k] := by
          rw [← heq]
          simp
        simp at this
    rcases List.mem_append.mp hk with hk | hk
    · rcases List.mem_append.mp hk with hk | hk
      · exact hother k (Or.inl hk)
      · obtain rfl : k = total Piece.len B + n + total Piece.len C := by simpa using hk
        omega
    · exact hother k (Or.inr hk)
  · have hnd := h.nodup
    simp only [liveSlots_append, liveSlots_live, liveSlots_free, liveSlots_nil, List.append_nil,
      hB.counts.1, hC.counts.1, List.nil_append] at hnd ⊢
    rw [List.append_assoc, List.singleton_append] at hnd
    exact (List.nodup_cons.mp (List.perm_middle.nodup_iff.mp hnd)).2

omit [PmConfig] in
/-- The live blocks of the layout after a release. -/
lemma liveAt_free_iff {a x r k : ℕ} (hB : FreeOrNil B) (hC : FreeOrNil C) :
    LiveAt a (L₀ ++ (B ++ Piece.live s n :: C) ++ L₃) x r k ↔
      LiveAt a (L₀ ++ [Piece.free (total Piece.len B + n + total Piece.len C)] ++ L₃) x r k
        ∨ (x = a + total Piece.len (L₀ ++ B) ∧ r = s ∧ k = n) := by
  have hend : a + (total Piece.len L₀ + (total Piece.len B + (n + total Piece.len C))) =
      a + (total Piece.len L₀ + (total Piece.len B + n + total Piece.len C)) := by omega
  simp only [liveAt_append, liveAt_live, liveAt_free, liveAt_nil, total_append, total_cons,
    total_nil, Piece.len, Nat.add_zero, or_false, iff_false_intro hB.not_live,
    iff_false_intro hC.not_live, false_or, hend, Nat.add_assoc]
  tauto

omit [PmConfig] in
/-- The live-slot list after a node has left it. -/
lemma OrderOk.unlink {obj obj' : ℕ → ObjectDesc} {head : ℕ} {L L' : List Piece}
    (h : OrderOk obj head L) (hs : s ∈ liveSlots L)
    (hother : ∀ i ∈ liveSlots L, i ≠ s →
      (obj' i).addrNext = (if i = (obj s).addrPrev then (obj s).addrNext else (obj i).addrNext)
      ∧ (obj' i).addrPrev = if i = (obj s).addrNext then (obj s).addrPrev else (obj i).addrPrev)
    (hperm' : ((liveSlots L).erase s).Perm (liveSlots L')) :
    OrderOk obj' (if (obj s).addrPrev = noOrder then (obj s).addrNext else head) L' := by
  obtain ⟨l, hl, hperm⟩ := h
  have hsl : s ∈ l := hperm.mem_iff.mpr hs
  refine ⟨l.erase s, hl.unlink hsl ?_ ?_, (hperm.erase s).trans hperm'⟩
  · exact fun i hi hne => (hother i (hperm.mem_iff.mp hi) hne).1
  · exact fun i hi hne => (hother i (hperm.mem_iff.mp hi) hne).2

omit [PmConfig] in
/-- A member of the live-slot list is not its own neighbour. -/
lemma OrderOk.links_ne {obj : ℕ → ObjectDesc} {head : ℕ} {L : List Piece}
    (h : OrderOk obj head L) (hs : s ∈ liveSlots L) :
    (obj s).addrPrev ≠ s ∧ (obj s).addrNext ≠ s := by
  obtain ⟨l, hl, hperm⟩ := h
  have hsl : s ∈ l := hperm.mem_iff.mpr hs
  exact ⟨hl.prev_ne hsl, hl.next_ne hsl⟩

lemma LayoutOk.slot_lt {L : List Piece} (h : LayoutOk L) {s : ℕ} (hs : s ∈ liveSlots L) :
    s < pmMaxObjects := by
  obtain ⟨n, hn⟩ := mem_liveSlots.mp hs
  exact (h.pieces _ hn).1

/-- `free` on the invariant of its pool, and the bytes it leaves alone. -/
theorem freeCommit_inv (hz : ZoneOk G) (h : PoolInv G p (L₀ ++ (B ++ Piece.live s n :: C) ++ L₃))
    (hB : FreeOrNil B) (hC : FreeOrNil C) (hL₀ : NoFreeLast L₀) (hL₃ : NoFreeHead L₃) :
    let start := poolStart G (G.pools p)
    let L := L₀ ++ (B ++ Piece.live s n :: C) ++ L₃
    let L' := L₀ ++ [Piece.free (total Piece.len B + n + total Piece.len C)] ++ L₃
    let G' := freeCommit G p s (start + total Piece.len (L₀ ++ B)) (poolEnd G (G.pools p))
    PoolInv G' p L' ∧ ∀ z, ¬ MetaByte start L z → ¬ MetaByte start L' z →
      G'.mem z = G.mem z := by
  dsimp only
  have hlive : LiveAt (poolStart G (G.pools p)) (L₀ ++ (B ++ Piece.live s n :: C) ++ L₃)
      (poolStart G (G.pools p) + total Piece.len (L₀ ++ B)) s n :=
    (liveAt_free_iff hB hC).mpr (Or.inr ⟨rfl, rfl, rfl⟩)
  have hd := h.desc hlive
  have hmem := hlive.mem_liveSlots
  have hslt := h.layout.slot_lt hmem
  have hwin := h.window_lt hz
  -- what `free` does to headers and bins: one free block in place of up to three
  obtain ⟨hrep, hframe⟩ := freeBlock_rep ⟨h.headers, h.bins⟩ h.layout.pieces hB hC hL₀ hL₃
    hwin.1 hwin.2
  generalize hblk : poolStart G (G.pools p) + total Piece.len (L₀ ++ B) = blk at *
  rw [← h.end_eq, ← hd.block, ← freeResult, hd.block] at hrep hframe
  have hlayout := layoutOk_free h.layout hB hC hL₀ hL₃
  have hcap := h.capacity hz
  obtain ⟨hprev, hnext⟩ := h.order.links_ne hmem
  have hobj := fun i (hi : i < pmMaxObjects) =>
    freeCommit_objects G p s blk (poolEnd G (G.pools p)) hprev hnext (slot_ne_noOrder hi)
  have hpool : (freeCommit G p s blk (poolEnd G (G.pools p))).pools p = _ :=
    congrFun (freeCommit_pools G p s blk (poolEnd G (G.pools p))) p
  rw [Function.update_self] at hpool
  obtain ⟨hsame, -, -⟩ := freeCommit_rest G p s blk (poolEnd G (G.pools p))
  have hgmem := freeCommit_mem G p s blk (poolEnd G (G.pools p))
  generalize freeCommit G p s blk (poolEnd G (G.pools p)) = G' at *
  generalize hN : total Piece.len B + n + total Piece.len C = N at *
  have hstart : poolStart G' (G'.pools p) = poolStart G (G.pools p) :=
    hsame.poolStart (by rw [hpool])
  have htotal : total Piece.len (L₀ ++ [Piece.free N] ++ L₃) =
      total Piece.len (L₀ ++ (B ++ Piece.live s n :: C) ++ L₃) := by
    simp only [total_append, total_cons, total_nil, Piece.len]
    omega
  have hused : usedOf (L₀ ++ (B ++ Piece.live s n :: C) ++ L₃) =
      usedOf (L₀ ++ [Piece.free N] ++ L₃) + n := by
    simp only [usedOf_append, usedOf_cons, usedOf_nil, Piece.used, hB.counts.2.1, hC.counts.2.1]
    omega
  -- no counter wraps: what is in use and what is lost fit the window
  have hsum := usedOf_add_lostOf_le (L₀ ++ (B ++ Piece.live s n :: C) ++ L₃)
  have hsub : sub32 (G.pools p).usedBytes (G.objects s).blockSize =
      usedOf (L₀ ++ [Piece.free N] ++ L₃) := by
    rw [h.used, hd.block, hused, sub32_of_le (by omega) (by omega)]
    omega
  have hslots : (liveSlots (L₀ ++ (B ++ Piece.live s n :: C) ++ L₃)).Perm
      (s :: liveSlots (L₀ ++ [Piece.free N] ++ L₃)) := by
    simp only [liveSlots_append, liveSlots_live, liveSlots_free, hB.counts.1, hC.counts.1,
      List.nil_append, List.append_assoc, List.singleton_append]
    exact List.perm_middle
  refine ⟨⟨?_, ?_, ?_, hlayout, ?_, ?_, ?_, ?_, ?_, ?_, ?_, ?_⟩, ?_⟩
  · rw [hpool]
    exact h.segPos
  · rw [hpool, hsame.segmentCount]
    exact h.segLe
  · rw [hpool, hsame.segmentSize, htotal]
    exact h.total
  · rw [hstart, hgmem]
    exact hrep.headers
  · rw [hstart, hsame.zone, hpool, hgmem]
    exact hrep.bins
  · intro x r k hx
    rw [hstart] at hx
    -- a block that is left was there before, under another slot
    have hxold : LiveAt (poolStart G (G.pools p)) (L₀ ++ (B ++ Piece.live s n :: C) ++ L₃) x r k :=
      (liveAt_free_iff hB hC).mpr (Or.inl (hN ▸ hx))
    have hrs : r ≠ s := by
      rintro rfl
      have hnd := (hslots.nodup_iff.mp h.layout.nodup)
      exact (List.nodup_cons.mp hnd).1 hx.mem_liveSlots
    have hdr := h.desc hxold
    rw [hobj r (h.layout.slot_lt hxold.mem_liveSlots), if_neg hrs]
    exact ⟨hdr.state, hdr.pool, hdr.address, hdr.block, hdr.sizePos, hdr.sizeLe, hdr.generation⟩
  · rw [hpool]
    have hhead : (if (G.objects s).addrPrev ≠ noOrder then (G.pools p).orderHead
        else (G.objects s).addrNext) = if (G.objects s).addrPrev = noOrder then
          (G.objects s).addrNext else (G.pools p).orderHead := by
      by_cases h0 : (G.objects s).addrPrev = noOrder <;> simp [h0]
    simp only
    rw [hhead]
    refine h.order.unlink hmem (fun i hi hne => ?_) ?_
    · rw [hobj i (h.layout.slot_lt hi), if_neg hne]
      exact ⟨rfl, rfl⟩
    · have := hslots.erase s
      rwa [List.erase_cons_head] at this
  · rw [hpool]
    exact hsub
  · rw [hpool]
    simp only
    rw [hsub, hcap, htotal, sub32_of_le (by omega) (by omega)]
  · rw [hpool]
    have hlost : lostOf (L₀ ++ [Piece.free N] ++ L₃) =
        lostOf (L₀ ++ (B ++ Piece.live s n :: C) ++ L₃) := by
      simp [Piece.lost, hB.counts.2.2, hC.counts.2.2]
    rw [hlost]
    exact h.lost
  · rw [hpool]
    have hlen := hslots.length_eq
    have hle := h.layout.length_le
    have hmax := PmConfig.maxObjects_lt
    rw [List.length_cons] at hlen
    simp only
    rw [h.live, hlen, sub32_of_le (by omega) (by omega), Nat.add_sub_cancel]
  · intro z h₁ h₂
    rw [hgmem]
    exact hframe z h₁ h₂

end Inv

end PondMerge
