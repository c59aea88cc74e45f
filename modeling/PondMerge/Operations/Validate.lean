import PondMerge.Operations.Sweep

/-!
`validate` of a pool that represents a layout.

* `validateLive_layout`: phase 1 over the live slots.
* `PoolInv.sortedOffsets`: the free blocks phase 3 sorts.
* `PoolInv.validate_iff`: the pool passes, exactly where its free blocks fit the scratch of
  phase 3 and none of them is undersized.
-/

namespace PondMerge

open ByteMemory LinkedList Tiling

variable [PmConfig]

section Pool

variable {G : GlobalState} {p : ℕ} {L : List Piece}

/-! ### Phase 1 -/

/-- The walk of `validate` over the live slots of the rest `M` of a layout. -/
lemma validateLive_layout (hz : ZoneOk G) (h : PoolInv G p L) (hmin : NoUndersized L)
    {K M : List Piece} (hL : L = K ++ M) {e used : ℕ}
    (he : e ≤ poolStartOff G (G.pools p) + total Piece.len K) (hsum : used + usedOf M < 2 ^ 32) :
    validateLive G (poolStartOff G (G.pools p))
      (poolStartOff G (G.pools p) + poolCapacity G (G.pools p)) (liveSlots M) e used =
      some (used + usedOf M) := by
  induction M generalizing K e used with
  | nil => rfl
  | cons t M ih =>
      have hsplit : L = K ++ [t] ++ M := by rw [hL, List.append_assoc, List.singleton_append]
      rw [usedOf_cons] at hsum
      have hrest := fun {e u : ℕ} => @ih _ hsplit e u
      simp only [total_append, total_cons, total_nil] at hrest
      cases t with
      | free n =>
          simp only [Piece.used] at *
          rw [liveSlots_free, usedOf_cons, Piece.used, hrest (by omega) (by omega), Nat.zero_add]
      | slack n =>
          simp only [Piece.used] at *
          rw [liveSlots_slack, usedOf_cons, Piece.used, hrest (by omega) (by omega), Nat.zero_add]
      | live s n =>
          have hx : LiveAt (poolStart G (G.pools p)) L
              (poolStart G (G.pools p) + Tiling.total Piece.len K) s n := by
            rw [hL]
            exact mem_place_split _ _ _ _
          have hdesc := h.desc hx
          have hs : (Piece.live s n).Ok := h.layout.pieces _ (by rw [hL]; simp)
          obtain ⟨hsize, hfree⟩ := h.headers.liveAt h.layout.pieces hx
          have hstart := poolStart_eq G (G.pools p)
          have hmod := PoolInv.start_mod (p := p) hz
          have hxmod := place_mod h.layout.pieces hmod hx
          have hb := hx.bounds
          have hcap := h.capacity hz
          have hprev := h
          rw [hL] at hprev
          have hq := prevLinkOk_healthy hz hprev (fun k hk => hmin k (by rw [hL]; simp [hk]))
            (by have := h.headers; rw [hL] at this; exact this.at_split.2)
          have hboff : (G.objects s).address - G.zone - 8 =
              poolStartOff G (G.pools p) + Tiling.total Piece.len K := by
            rw [hdesc.address]
            omega
          -- the slot passes: header, neighbour in front and place are those of the layout
          have hslot : validateSlot G (poolStartOff G (G.pools p))
              (poolStartOff G (G.pools p) + poolCapacity G (G.pools p)) e (G.objects s) = true := by
            have hmin' := hs.2.1
            have hn := hs.2.2
            have h16 := PmConfig.minBlock_ge
            have hsl := hdesc.sizeLe
            have hpos := hdesc.sizePos
            have hat : G.zone + (poolStartOff G (G.pools p) + Tiling.total Piece.len K) =
                poolStart G (G.pools p) + Tiling.total Piece.len K := by omega
            have hoff : poolStart G (G.pools p) + Tiling.total Piece.len K - G.zone =
                poolStartOff G (G.pools p) + Tiling.total Piece.len K := by omega
            rw [hoff] at hq
            rw [validateSlot]
            simp only [decide_eq_true_eq, hboff, hat, hsize, hfree, hq, and_true,
              descBlockConsistent, rangeInPool, hdesc.block, hcap]
            simp only [hdesc.address]
            dsimp only at hxmod
            refine ⟨⟨?_, ?_, ?_, ?_, ?_⟩, ?_, ⟨?_, ?_, ?_⟩, ⟨?_, ?_, ?_⟩, ?_⟩ <;> omega
          rw [liveSlots_live, validateLive, hslot, if_neg (by simp), hboff, hdesc.block]
          simp only [Piece.used, Piece.len] at *
          rw [u32_of_lt (by omega), hrest (by omega) (by omega), usedOf_cons, Piece.used,
            Nat.add_assoc]

/-! ### Phase 3 -/

/-- The sorted offsets of phase 3 are the free blocks in address order. -/
lemma PoolInv.sortedOffsets (hz : ZoneOk G) (h : PoolInv G p L) :
    sortU32Asc (freeOffsets G (G.pools p)) =
      (freeSpots (poolStart G (G.pools p)) L).map fun u => offOf G.zone u.1 := by
  refine List.Perm.eq_of_pairwise (fun _ _ _ _ hab hba => le_antisymm hab hba)
    (sortU32Asc_pairwise _) (List.pairwise_map.mpr ?_)
    ((sortU32Asc_perm _).trans (h.freeOffsets_perm hz))
  refine (freeSpots_pairwise h.layout.pieces _).imp_of_mem fun {u v} hu hv huv => ?_
  have hu' := (h.separated hz).ptrOf_offOf (mem_freeSpots.mp (show (u.1, u.2) ∈ _ from hu))
  have hv' := (h.separated hz).ptrOf_offOf (mem_freeSpots.mp (show (v.1, v.2) ∈ _ from hv))
  rw [ptrOf] at hu' hv'
  omega

/-- The sweep accepts the pool and totals its slack. -/
lemma PoolInv.sweep (hz : ZoneOk G) (h : PoolInv G p L) :
    ∃ e slack, PondMerge.sweep ((liveSlots L).length + (freeOffsets G (G.pools p)).length + 1)
        ((liveSlots L).map (liveExtent G))
        ((sortU32Asc (freeOffsets G (G.pools p))).map (freeExtent G))
        (poolStartOff G (G.pools p)) false 0 = some (e, slack)
      ∧ e ≤ poolStartOff G (G.pools p) + Tiling.total Piece.len L
      ∧ poolStartOff G (G.pools p) + Tiling.total Piece.len L < e + pmMinBlock
      ∧ slack + (poolStartOff G (G.pools p) + Tiling.total Piece.len L - e) = lostOf L := by
  have hstart := poolStart_eq G (G.pools p)
  have hlive := livePart_blocksOf (G := G) (a := poolStartOff G (G.pools p)) (M := L) (p := p)
    (by rw [← hstart]; exact h.desc)
  have hfree := freePart_blocksOf (G := G) (a := poolStartOff G (G.pools p)) (M := L) (by
    rw [← hstart]
    exact fun hx => ⟨(h.separated hz).ptrOf_offOf hx, (h.headers.freeAt h.layout.pieces hx).1⟩)
  rw [← hstart, ← h.sortedOffsets hz] at hfree
  have hlen : (blocksOf (poolStartOff G (G.pools p)) L).length =
      (liveSlots L).length + (freeOffsets G (G.pools p)).length := by
    rw [blocksOf_length, ← hlive, ← hfree, List.length_map, List.length_map,
      (sortU32Asc_perm _).length_eq]
  have hmin := PmConfig.minBlock_ge
  obtain ⟨e, slack, heq, h1, h2, h3⟩ := @sweepMerged_layout _ _ (poolStartOff G (G.pools p))
    (poolStartOff G (G.pools p)) 0 false h.layout.pieces h.layout.meets
    (by omega) (fun hlt => by omega) (by simp)
  refine ⟨e, slack, ?_, h1, h2, by omega⟩
  rw [hlive, hfree, sweep_eq_merged (blocksOf_ascending h.layout.pieces) (by omega), heq]

/-- `validate` of a pool that represents a layout. -/
theorem PoolInv.validate_iff (hz : ZoneOk G) (hp : Active G p) (h : PoolInv G p L) :
    validate G p = .ok ↔
      (freeOffsets G (G.pools p)).length ≤ kFreeOffCap ∧ NoUndersized L := by
  have hat : poolAt G p = some (G.pools p) := poolAt_eq_some.mpr ⟨hp, rfl⟩
  have hwin := h.window_lt hz
  have hcap := h.capacity hz
  have htotal := total_eq L
  rw [validate, if_neg (by simp [hz.init]), hat]
  dsimp only
  rw [h.collect hz h.layout.length_le]
  dsimp only
  by_cases hmin : NoUndersized L
  swap
  · -- the only block is free and undersized, and the bins audit refuses it
    simp only [hmin, and_false, iff_false]
    rw [NoUndersized] at hmin
    push Not at hmin
    obtain ⟨n, hn, hlt⟩ := hmin
    rw [h.auditPoolBins_undersized hz hn hlt]
    split
    · simp
    · split_ifs <;> simp
  rw [validateLive_layout hz h hmin (K := []) (M := L) rfl (by simp) (by omega)]
  dsimp only
  rw [if_neg (by rw [h.live, h.used]; simp), if_neg]
  swap
  · rw [hcap, h.free, Nat.zero_add, sub32_of_le (by omega) (by omega)]
    simp
  rw [h.auditPoolBins hz hmin]
  dsimp only
  -- the guard of the merged sweep, then the sweep itself
  by_cases hle : (freeOffsets G (G.pools p)).length ≤ kFreeOffCap
  swap
  · rw [if_pos (by omega)]
    simp [hle]
  obtain ⟨e, slack, heq, h1, h2, h3⟩ := h.sweep hz
  rw [if_neg (by omega), heq]
  dsimp only
  rw [hcap, if_neg (by omega), if_neg (by omega), if_neg]
  · simp [hle, hmin]
  · rw [h.free, h.lost]
    omega

end Pool

end PondMerge
