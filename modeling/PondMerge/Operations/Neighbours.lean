import PondMerge.Operations.Free
import PondMerge.Operations.References

/-!
The anchored proofs of `free` accept every block of a pool that keeps its invariant.

* `BinsRep.linked`: the links of a binned block reciprocate, or its bin starts with it.
* `PoolInv.binned`: `free_block_binned` accepts every free block.
* `PoolInv.neighbours`: `verify_neighbours` accepts every live block.
-/

namespace PondMerge

open ByteMemory LinkedList Tiling

variable [PmConfig]

/-! ### Headers of placed pieces -/

omit [PmConfig] in
/-- Every placed piece has its header, behind whatever lies in front of it. -/
lemma Headers.at_place {m : Mem} {a q x : ℕ} {t : Piece} {L : List Piece}
    (h : Headers m a q L) (ht : (x, t) ∈ place Piece.len a L) : ∃ q', t.HeaderOk m x q' := by
  obtain ⟨L₁, L₂, rfl, rfl⟩ := exists_split ht
  exact ⟨_, h.at_split⟩

lemma Headers.freeAt {m : Mem} {a q x n : ℕ} {L : List Piece} (h : Headers m a q L)
    (hok : ∀ t ∈ L, t.Ok) (hx : FreeAt a L x n) :
    blkSizeOf m x = n ∧ blkIsFree m x = true := by
  obtain ⟨q', hq, -⟩ := h.at_place hx
  have hmod := (hx.size_ge hok).2
  exact ⟨blkSizeOf_free hmod hq, blkIsFree_free hmod hq⟩

lemma Headers.liveAt {m : Mem} {a q x s n : ℕ} {L : List Piece} (h : Headers m a q L)
    (hok : ∀ t ∈ L, t.Ok) (hx : LiveAt a L x s n) :
    blkSizeOf m x = n ∧ blkIsFree m x = false := by
  obtain ⟨q', hq, -⟩ := h.at_place hx
  have hmod := (hx.size_ge hok).2.2
  exact ⟨blkSizeOf_live hmod hq, blkIsFree_live hmod hq⟩

/-! ### The anchored link proof -/

/-- The links of a binned block reciprocate its place in its list; without a predecessor it
is the head of its bin. -/
lemma BinsRep.linked {zone x n : ℕ} {m : Mem} {b : TlsfBins} {F : ℕ → ℕ → Prop}
    (h : BinsRep zone m b F) (hsep : Separated zone F) (hx : F x n) :
    (blkPrev m x ≠ nullOff → blkNext m (ptrOf zone (blkPrev m x)) = offOf zone x)
      ∧ (blkPrev m x = nullOff → b.head (flBin n) (slBin n) = offOf zone x)
      ∧ (blkNext m x ≠ nullOff → blkPrev m (ptrOf zone (blkNext m x)) = offOf zone x) := by
  obtain ⟨l, hl, hmem⟩ := h.list _ (flBin_lt n) _ (slBin_lt n)
  have hxl : offOf zone x ∈ l := BinList.mem ⟨hl, hmem⟩ hsep hx rfl rfl
  have hxo : ptrOf zone (offOf zone x) = x := hsep.ptrOf_offOf hx
  have hnp := hl.next_prev hxl
  have hhd := hl.head_eq hl.nil_not_mem hxl
  have hpn := hl.prev_next hxl
  rw [hxo] at hnp hhd hpn
  exact ⟨fun hne => hnp hne hl.nil_not_mem, hhd, hpn⟩

section Pool

variable {G : GlobalState} {p : ℕ} {L : List Piece}

/-- The offset of a free block passes the window screen. -/
lemma PoolInv.offInPool (hz : ZoneOk G) (h : PoolInv G p L) {o n : ℕ}
    (ho : FreeAt (poolStart G (G.pools p)) L (ptrOf G.zone o) n) :
    PondMerge.offInPool G (G.pools p) o = true := by
  have hb := ho.bounds
  have hn := (ho.size_ge h.layout.pieces).1
  have hstart := poolStart_eq G (G.pools p)
  rw [ptrOf] at hb
  rw [PondMerge.offInPool, h.capacity hz]
  simp only [decide_eq_true_eq]
  omega

/-- `free_block_binned` accepts every free block of the pool. -/
theorem PoolInv.binned (hz : ZoneOk G) (h : PoolInv G p L) {x n : ℕ}
    (hx : FreeAt (poolStart G (G.pools p)) L x n) :
    freeBlockBinned G (G.pools p) x = true := by
  have hsep := h.separated hz
  obtain ⟨hsize, -⟩ := h.headers.freeAt h.layout.pieces hx
  obtain ⟨hprev, hhead, hnext⟩ := h.bins.linked hsep hx
  obtain ⟨hpm, hnm⟩ := h.bins.link_mem hsep hx
  have hxo : ptrOf G.zone (offOf G.zone x) = x := hsep.ptrOf_offOf hx
  rw [freeBlockBinned]
  simp only [decide_eq_true_eq, hsize]
  refine ⟨h.offInPool hz (by rwa [hxo]), ?_, ?_, fun hne => ?_⟩
  · by_cases hne : (G.pools p).bins.head (flBin n) (slBin n) = nullOff
    · exact Or.inl hne
    · obtain ⟨k, hk, -, -⟩ := h.bins.head_mem (flBin_lt n) (slBin_lt n) hne
      exact Or.inr (h.offInPool hz hk)
  · split_ifs with hne
    · obtain ⟨k, hk, -, -, -⟩ := hpm hne
      exact ⟨h.offInPool hz hk, hprev hne⟩
    · exact hhead (not_not.mp hne)
  · obtain ⟨k, hk, -, -, -⟩ := hnm hne
    exact ⟨h.offInPool hz hk, hnext hne⟩

/-- Free blocks next to live ones are no smaller than `PM_MIN_BLOCK`. -/
lemma LayoutOk.free_ge (h : LayoutOk L) {s n k : ℕ} (hs : .live s k ∈ L) (hn : .free n ∈ L) :
    pmMinBlock ≤ n := by
  rcases h.minBlock n hn with hmin | rfl
  · exact hmin
  · simp at hs

omit [PmConfig] in
/-- The block in front of a place in a layout, where its own size is not zero. -/
lemma exists_before {L₁ : List Piece} (h : lastOwn 0 L₁ ≠ 0) :
    ∃ L₀ t, L₁ = L₀ ++ [t] ∧ t.own = lastOwn 0 L₁ ∧ t.len = t.own := by
  rcases List.eq_nil_or_concat L₁ with rfl | ⟨L₀, t, rfl⟩
  · exact absurd rfl h
  · rw [List.concat_eq_append, lastOwn_append] at h
    refine ⟨L₀, t, List.concat_eq_append, ?_, ?_⟩
    · rw [List.concat_eq_append, lastOwn_append]
      rfl
    · cases t with
      | live s n => rfl
      | free n => rfl
      | slack n => exact absurd rfl h

/-- `verify_neighbours`, backward, on a healthy pool. -/
lemma verifyPrev_healthy (hz : ZoneOk G) {L₁ L₂ : List Piece} {s n : ℕ}
    (h : PoolInv G p (L₁ ++ Piece.live s n :: L₂)) :
    verifyPrev G (G.pools p) (poolStart G (G.pools p) + total Piece.len L₁)
      (poolStart G (G.pools p)) = true := by
  have hok := h.layout.pieces
  have hq := h.headers.at_split.2
  rw [verifyPrev]
  simp only [decide_eq_true_eq, hq]
  by_cases h0 : lastOwn 0 L₁ = 0
  · exact Or.inl h0
  refine Or.inr ?_
  -- a `prev_size` other than zero names the piece in front
  obtain ⟨L₀, t, rfl, hown, hlen⟩ := exists_before h0
  have ht : t.Ok := hok t (by simp)
  have hmin : pmMinBlock ≤ t.len := by
    cases t with
    | live r k => exact ht.2.1
    | free k => exact h.layout.free_ge (s := s) (k := n) (by simp) (by simp [Piece.len])
    | slack k => exact absurd (hown.symm.trans rfl) h0
  have hpl : (poolStart G (G.pools p) + total Piece.len L₀, t)
      ∈ place Piece.len (poolStart G (G.pools p)) (L₀ ++ [t] ++ Piece.live s n :: L₂) := by
    simp
  have hback : poolStart G (G.pools p) + total Piece.len (L₀ ++ [t]) - lastOwn 0 (L₀ ++ [t]) =
      poolStart G (G.pools p) + total Piece.len L₀ := by
    rw [← hown, ← hlen]
    simp only [total_append, total_cons, total_nil]
    omega
  have hsize : blkSizeOf G.mem (poolStart G (G.pools p) + total Piece.len L₀) = t.own := by
    cases t with
    | live r k => exact (h.headers.liveAt hok hpl).1
    | free k => exact (h.headers.freeAt hok hpl).1
    | slack k => exact absurd (hown.symm.trans rfl) h0
  rw [hback, hsize, ← hown, ← hlen]
  refine ⟨hmin, ht.len_mod, ?_, rfl, fun hf => ?_⟩
  · simp only [total_append, total_cons, total_nil]
    omega
  · obtain ⟨q, hhdr⟩ := h.headers.at_place hpl
    obtain ⟨k, rfl⟩ := (hhdr.isFree ht).mp hf
    exact h.binned hz hpl

/-- `verify_neighbours`, forward, on a healthy pool. -/
lemma verifyNext_healthy (hz : ZoneOk G) {L₁ L₂ : List Piece} {s n : ℕ}
    (h : PoolInv G p (L₁ ++ Piece.live s n :: L₂)) :
    verifyNext G (G.pools p) (poolStart G (G.pools p) + total Piece.len L₁ + n)
      (poolEnd G (G.pools p)) = true := by
  have hok := h.layout.pieces
  rw [verifyNext]
  simp only [decide_eq_true_eq]
  rintro ⟨hlt, hf⟩
  rw [h.end_eq] at hlt ⊢
  simp only [total_append, total_cons, Piece.len] at hlt ⊢
  cases L₂ with
  | nil => simp at hlt; omega
  | cons t L₂ =>
      have hpl : (poolStart G (G.pools p) + total Piece.len L₁ + n, t)
          ∈ place Piece.len (poolStart G (G.pools p)) (L₁ ++ Piece.live s n :: t :: L₂) := by
        simp [Piece.len]
      obtain ⟨q, hhdr⟩ := h.headers.at_place hpl
      obtain ⟨k, rfl⟩ := (hhdr.isFree (hok t (by simp))).mp hf
      rw [(h.headers.freeAt hok hpl).1]
      refine ⟨h.layout.free_ge (s := s) (k := n) (by simp) (by simp), (FreeAt.size_ge hok hpl).2,
        ?_, h.binned hz hpl⟩
      simp only [total_cons, Piece.len]
      omega

/-- `verify_neighbours` reads no descriptor but the block size it is given. -/
lemma verifyNeighbours_congr {F : GlobalState} {d d' : ObjectDesc} (hz : SameZone G F)
    (hmem : F.mem = G.mem) (hd : d'.blockSize = d.blockSize) (P : Pool) (block start stop : ℕ) :
    verifyNeighbours F P d' block start stop = verifyNeighbours G P d block start stop := by
  have hin : ∀ off, offInPool F P off = offInPool G P off := by
    intro off
    rw [offInPool, offInPool, poolStartOff, poolStartOff, poolCapacity, poolCapacity,
      hz.segmentSize]
  have hbinned : ∀ fb, freeBlockBinned F P fb = freeBlockBinned G P fb := by
    intro fb
    rw [freeBlockBinned, freeBlockBinned]
    simp only [hin, hmem, hz.zone]
  rw [Bool.eq_iff_iff, verifyNeighbours, verifyNeighbours, verifyPrev, verifyPrev, verifyNext,
    verifyNext]
  simp only [decide_eq_true_eq, hbinned, hmem, hd]

/-- `verify_neighbours` accepts every live block of the pool. -/
theorem PoolInv.neighbours (hz : ZoneOk G) (h : PoolInv G p L) {x s n : ℕ}
    (hx : LiveAt (poolStart G (G.pools p)) L x s n) :
    verifyNeighbours G (G.pools p) (G.objects s) x (poolStart G (G.pools p))
      (poolEnd G (G.pools p)) = true := by
  have hd := h.desc hx
  obtain ⟨hsize, hfree⟩ := h.headers.liveAt h.layout.pieces hx
  obtain ⟨L₁, L₂, rfl, rfl⟩ := exists_split hx
  rw [verifyNeighbours]
  simp only [decide_eq_true_eq, hd.block]
  exact ⟨hfree, hsize, verifyPrev_healthy hz h, verifyNext_healthy hz h⟩

end Pool

end PondMerge
