import PondMerge.Operations.Alloc
import PondMerge.Operations.BinsAudit
import PondMerge.Model.Pools

/-!
What `alloc` admits in a healthy state, and what `get_stats` reports about it.

* `PoolInv.bitmapConsistent`: the consistency check behind a failed search succeeds.
* `alloc_healthy`: the refusals of `alloc`, none of which is corruption.
* `class_mono`: with the default second levels the size class is monotone in the size.
* `PoolInv.freeStats_spec`: `largest_free_block` is the maximum over the free blocks.
* `PoolInv.binsFind_iff`: which free blocks the search finds.
* `alloc_ok_iff_free`: `alloc` succeeds exactly where there is such a block.
-/

namespace PondMerge

open ByteMemory LinkedList Tiling

variable [PmConfig]

section Pool

variable {G : GlobalState} {p : ℕ} {L : List Piece}

/-! ### The checks of the search -/

/-- `bins_bitmap_consistent` holds of a pool with the invariant. -/
lemma PoolInv.bitmapConsistent (hz : ZoneOk G) (h : PoolInv G p L) :
    binsBitmapConsistent G (G.pools p) = true := by
  rw [binsBitmapConsistent, Bool.and_eq_true]
  refine ⟨List.all_eq_true.mpr ?_, List.all_eq_true.mpr ?_⟩
  · rintro ⟨f, s⟩ hfs
    obtain ⟨hf, hs⟩ := mem_allBins.mp hfs
    rw [headConsistent]
    dsimp only
    have hbit := h.bins.slBit f hf s
    by_cases hnull : (G.pools p).bins.head f s = nullOff
    · rw [if_pos hnull]
      by_contra hne
      rw [Bool.not_eq_true, Bool.not_eq_false'] at hne
      exact (hbit.mp hne).2 hnull
    · rw [if_neg hnull]
      obtain ⟨n, hn, rfl, rfl⟩ := h.bins.head_mem hf hs hnull
      obtain ⟨hsize, hfree⟩ := h.headers.freeAt h.layout.pieces hn
      simp only [decide_eq_true_eq, hsize]
      exact ⟨hbit.mpr ⟨hs, hnull⟩, h.offInPool hz hn, hfree, trivial, trivial⟩
  · intro f hf
    have hbit := h.bins.flBit f
    have hf' := List.mem_range.mp hf
    by_cases hne : (G.pools p).bins.slBitmap f = 0
    · have : (G.pools p).bins.flBitmap.testBit f = false := by
        by_contra hb
        rw [Bool.not_eq_false] at hb
        exact (hbit.mp hb).2 hne
      simp [hne, this]
    · have : (G.pools p).bins.flBitmap.testBit f = true := hbit.mpr ⟨hf', hne⟩
      simp [hne, this]

/-- A block the search returns passes the checks behind it. -/
lemma PoolInv.found_ok (hz : ZoneOk G) (h : PoolInv G p L) {need blk : ℕ}
    (hf : binsFind G (G.pools p).bins need = some blk) :
    PondMerge.offInPool G (G.pools p) (offOf G.zone blk) = true ∧ blkIsFree G.mem blk = true
      ∧ need ≤ blkSizeOf G.mem blk := by
  obtain ⟨⟨n, hn, -⟩, hsize⟩ := binsFind_sound h.bins hf
  refine ⟨h.offInPool hz (n := n) ?_, (h.headers.freeAt h.layout.pieces hn).2, hsize⟩
  rwa [(h.separated hz).ptrOf_offOf hn]

/-- The free blocks fit the hop cap of the search. -/
lemma PoolInv.hop_cap (hz : ZoneOk G) (h : PoolInv G p L) {V : List ℕ} (hV : V.Nodup)
    (hVF : ∀ o ∈ V, ∃ n, FreeAt (poolStart G (G.pools p)) L (ptrOf G.zone o) n) :
    V.length ≤ poolCapacity G (G.pools p) / pmMinBlock + 1
      ∧ V.length ≤ G.zoneSize / pmMinBlock + 1 := by
  have hsub : V ⊆ (freeSpots (poolStart G (G.pools p)) L).map fun u => offOf G.zone u.1 := by
    intro o ho
    obtain ⟨n, hn⟩ := hVF o ho
    refine List.mem_map.mpr ⟨_, mem_freeSpots.mpr hn, ?_⟩
    exact offOf_ptrOf ((h.separated hz).off_lt hn)
  have hlen := (List.subperm_of_subset hV hsub).length_le
  have hspots := h.freeSpots_length hz
  rw [List.length_map] at hlen
  have hcap : poolCapacity G (G.pools p) ≤ G.zoneSize := by
    rw [h.capacity hz]
    have := h.window_le hz
    omega
  have hdiv := Nat.div_le_div_right (c := pmMinBlock) hcap
  have hle : auditSteps G (G.pools p) ≤ poolCapacity G (G.pools p) / pmMinBlock + 1 :=
    Nat.mod_le _ _
  omega

end Pool

/-! ### Allocation -/

section Alloc

variable {G : GlobalState} {Ls : ℕ → List Piece}

/-- What the arguments and the pool of an `alloc` must satisfy before it looks for memory. -/
structure AllocAsked (G : GlobalState) (p size alignment flags : ℕ) : Prop where
  active : Active G p
  running : (G.pools p).state = .running
  sizePos : 0 < size
  alignOk : alignmentOk alignment = true
  flagsOk : flags &&& pmUnknownFlags = 0

/-- `alloc` in a healthy state refuses bad arguments, and otherwise succeeds exactly where
the size is representable, a slot is free and the search finds a block. -/
theorem alloc_healthy (h : GlobalInv G Ls) (p size alignment flags tag : ℕ) :
    (¬ AllocAsked G p size alignment flags → ∃ st, st ≠ .ok ∧ st ≠ .corruptMetadata
      ∧ alloc G p size alignment flags tag = (st, .null, G))
    ∧ (AllocAsked G p size alignment flags →
      (∃ need blk, AllocAccepted G p size alignment flags need blk
        ∧ (alloc G p size alignment flags tag).1 = .ok)
      ∨ alloc G p size alignment flags tag = (.noSpace, .null, G)
        ∧ ∀ need, allocNeed size = some need → G.freeSlotHead ≠ noSlot →
          binsFind (popSlot G) (G.pools p).bins need = none) := by
  have hguards : Active G p → (G.pools p).state = .running →
      ¬ ((G.pools p).orderHead ≠ noOrder ∧ pmMaxObjects ≤ (G.pools p).orderHead)
      ∧ poolGeometryOk G (G.pools p) = true := by
    intro hp _
    refine ⟨fun hbad => ?_, (h.pool p hp).geometry h.zone⟩
    rcases (h.pool p hp).order.head with hh | hh
    · exact hbad.1 hh
    · obtain ⟨n, hn⟩ := mem_liveSlots.mp hh
      exact absurd ((h.pool p hp).layout.pieces _ hn).1 (by omega)
  rw [alloc, if_neg (by simp [h.zone.init])]
  -- the guards one after another, in the order of the source
  by_cases hp : Active G p
  swap
  · rw [poolAt_eq_none.mpr hp]
    exact ⟨fun _ => ⟨_, by decide, by decide, rfl⟩, fun ha => absurd ha.active hp⟩
  rw [poolAt_eq_some.mpr ⟨hp, rfl⟩]
  dsimp only
  by_cases hrun : (G.pools p).state = .running
  swap
  · rw [if_pos hrun]
    exact ⟨fun _ => ⟨_, by decide, by decide, rfl⟩, fun ha => absurd ha.running hrun⟩
  obtain ⟨hhead, hgeo⟩ := hguards hp hrun
  rw [if_neg (not_not.mpr hrun), if_neg hhead, if_neg (by simp [hgeo])]
  by_cases hsize : size = 0
  · rw [if_pos hsize]
    exact ⟨fun _ => ⟨_, by decide, by decide, rfl⟩, fun ha => absurd hsize ha.sizePos.ne'⟩
  rw [if_neg hsize]
  by_cases halign : alignmentOk alignment = true
  swap
  · rw [if_pos (by simpa using halign)]
    exact ⟨fun _ => ⟨_, by decide, by decide, rfl⟩, fun ha => absurd ha.alignOk halign⟩
  rw [if_neg (by simp [halign])]
  by_cases hflags : flags &&& pmUnknownFlags = 0
  swap
  · rw [if_pos hflags]
    exact ⟨fun _ => ⟨_, by decide, by decide, rfl⟩, fun ha => absurd ha.flagsOk hflags⟩
  rw [if_neg (not_not.mpr hflags)]
  refine ⟨fun hno => absurd ⟨hp, hrun, by omega, halign, hflags⟩ hno, fun ha => ?_⟩
  cases hneed : allocNeed size with
  | none => exact Or.inr ⟨rfl, fun _ hn => by cases hn⟩
  | some need =>
      dsimp only
      by_cases hslot : G.freeSlotHead = noSlot
      · have : (slotAlloc G).1 = noSlot := by simp [slotAlloc, hslot]
        rw [if_pos this]
        exact Or.inr ⟨rfl, fun _ _ hs => absurd hslot hs⟩
      rw [slotAlloc_eq hslot]
      dsimp only
      rw [if_neg hslot]
      have hpool := (h.pool p hp).popSlot
      have hzpop : ZoneOk (popSlot G) := h.zone.of_same ⟨rfl, rfl, rfl, rfl, rfl⟩
      -- taking a slot changes nothing that the search reads
      have hfind : binsFind (popSlot G) ((popSlot G).pools p).bins need =
          binsFind (popSlot G) (G.pools p).bins need := rfl
      cases hf : binsFind (popSlot G) (G.pools p).bins need with
      | none =>
          refine Or.inr ⟨?_, fun need' hn' _ => ?_⟩
          · rw [allocFrom]
            rw [hfind, hf, hpool.bitmapConsistent hzpop, slotRelease_popSlot]
            rfl
          · cases hn'
            exact hf
      | some blk =>
          obtain ⟨hin, hfree, hge⟩ := hpool.found_ok hzpop (hfind.trans hf)
          refine Or.inl ⟨need, blk, ⟨h.zone.init, hp, hrun, by omega, halign, hflags, hneed, hslot,
            hf, hgeo, hin, hfree, hge⟩, ?_⟩
          rw [allocFrom, hfind, hf]
          dsimp only
          rw [if_neg (by simp [hin, hfree]), if_neg (by omega)]

end Alloc

/-! ### Size classes -/

/-- Without a 32-bit overflow in `sl_index`, a larger block lies in no lower bin. -/
lemma class_mono (hfit : pmSlCount * 2 ^ (pmFlMax - 1) ≤ 2 ^ 32) {k n : ℕ} (hk : 16 ≤ k)
    (hkn : k ≤ n) (hn : n < 2 ^ pmFlMax) : ClassBelow k n := by
  have hfl := PmConfig.flMax_gt
  have h31 := PmConfig.flMax_le
  have hsmall : n < 2 ^ 32 := lt_of_lt_of_le hn (Nat.pow_le_pow_right (by omega) (by omega))
  -- in the range of the bins the class is read off the highest bit
  have hindex : ∀ {x}, 16 ≤ x → x < 2 ^ pmFlMax → flIndex x = Nat.log2 x
      ∧ 4 ≤ Nat.log2 x ∧ Nat.log2 x < pmFlMax := by
    intro x hlo hhi
    have hlt : Nat.log2 x < pmFlMax := (Nat.log2_lt (by omega)).mpr hhi
    have hge : 4 ≤ Nat.log2 x := (Nat.le_log2 (by omega)).mpr hlo
    refine ⟨?_, hge, hlt⟩
    rw [flIndex, if_neg (by omega), if_pos hlt]
  obtain ⟨hkf, hk4, -⟩ := hindex hk (by omega)
  obtain ⟨hnf, hn4, hnlt⟩ := hindex (hk.trans hkn) hn
  have hlog : Nat.log2 k ≤ Nat.log2 n :=
    (Nat.le_log2 (by omega)).mpr ((Nat.log2_self_le (by omega)).trans hkn)
  rcases hlog.lt_or_eq with hlt | heq
  · left
    rw [flBin, flBin, hkf, hnf]
    omega
  · right
    refine ⟨by rw [flBin, flBin, hkf, hnf, heq], ?_⟩
    rw [slBin, slBin, hkf, hnf, heq]
    generalize hf : Nat.log2 n = f at *
    -- in one row the columns cut the range of the highest bit evenly
    have hpow : 2 ^ f ≤ 2 ^ (pmFlMax - 1) := Nat.pow_le_pow_right (by omega) (by omega)
    have hnlo : 2 ^ f ≤ n := hf ▸ Nat.log2_self_le (by omega)
    have hnhi : n < 2 ^ (f + 1) := hf ▸ Nat.lt_log2_self
    have hklo : 2 ^ f ≤ k := heq ▸ Nat.log2_self_le (by omega)
    have hpos := Nat.two_pow_pos f
    have hrow : ∀ {x}, 2 ^ f ≤ x → x ≤ n → slIndex x f = (x - 2 ^ f) * pmSlCount / 2 ^ f := by
      intro x hlo hhi
      have hlt : x - 2 ^ f < 2 ^ f := by
        rw [Nat.pow_succ] at hnhi
        omega
      have hSL := PmConfig.slCount_ge
      have hmul : (x - 2 ^ f) * pmSlCount < 2 ^ f * pmSlCount :=
        Nat.mul_lt_mul_of_pos_right hlt (by omega)
      have hle : 2 ^ f * pmSlCount ≤ 2 ^ 32 := by
        rw [Nat.mul_comm]
        exact (Nat.mul_le_mul_left _ hpow).trans hfit
      rw [slIndex, sub32_of_le hlo (by omega), u32_of_lt (by omega), if_pos]
      exact (Nat.div_lt_iff_lt_mul hpos).mpr (by rwa [Nat.mul_comm pmSlCount])
    rw [hrow hklo hkn, hrow hnlo le_rfl]
    exact Nat.div_le_div_right (Nat.mul_le_mul_right _ (by omega))

/-! ### The largest free block -/

omit [PmConfig] in
lemma statsWalk_eq {G : GlobalState} {lo hi fuel largest off : ℕ} {l : List ℕ}
    (hl : IsChain (binNext G) nullOff off l) (hin : ∀ o ∈ l, lo ≤ o ∧ o ≤ hi)
    (hfuel : l.length ≤ fuel) :
    statsWalk G lo hi fuel largest off = some ((l.map (sizeAt G)).foldl max largest) := by
  induction l generalizing fuel largest off with
  | nil =>
      have hoff : off = nullOff := hl
      cases fuel <;> simp [statsWalk, hoff]
  | cons o l ih =>
      obtain ⟨hoff, hne, hl⟩ := hl
      subst hoff
      cases fuel with
      | zero => simp at hfuel
      | succ fuel =>
          have hb := hin off List.mem_cons_self
          rw [List.length_cons, Nat.succ_le_succ_iff] at hfuel
          rw [statsWalk, if_neg hne, if_neg (by omega)]
          dsimp only
          have hmax : (if largest < blkSizeOf G.mem (ptrOf G.zone off) then
              blkSizeOf G.mem (ptrOf G.zone off) else largest) = max largest (sizeAt G off) := by
            rw [sizeAt]
            split_ifs <;> omega
          rw [hmax, List.map_cons, List.foldl_cons]
          exact ih hl (fun o' ho' => hin o' (List.mem_cons_of_mem _ ho')) hfuel

omit [PmConfig] in
lemma foldl_max_spec (l : List ℕ) (b : ℕ) :
    b ≤ l.foldl max b ∧ (∀ n ∈ l, n ≤ l.foldl max b) ∧ (l.foldl max b = b ∨ l.foldl max b ∈ l) := by
  induction l generalizing b with
  | nil => simp
  | cons x l ih =>
      obtain ⟨hb, hall, hmem⟩ := ih (max b x)
      rw [List.foldl_cons]
      refine ⟨le_trans (le_max_left _ _) hb, fun n hn => ?_, ?_⟩
      · rcases List.mem_cons.mp hn with rfl | hn
        · exact le_trans (le_max_right _ _) hb
        · exact hall n hn
      · rcases hmem with heq | hmem
        · rw [heq]
          rcases le_total x b with h | h
          · exact Or.inl (max_eq_left h)
          · exact Or.inr (by rw [max_eq_right h]; exact List.mem_cons_self)
        · exact Or.inr (List.mem_cons_of_mem _ hmem)

section Stats

variable {G : GlobalState} {p : ℕ} {L : List Piece}

/-- The double loop of `get_stats` takes the maximum over the binned blocks. -/
lemma PoolInv.statsBins_eq (hz : ZoneOk G) (h : PoolInv G p L) {bs : List (ℕ × ℕ)}
    (hbs : ∀ fs ∈ bs, fs.1 < flCount ∧ fs.2 < pmSlCount) (largest : ℕ) :
    statsBins G (G.pools p) (u32 (poolStartOff G (G.pools p)))
        (sub32 (u32 (poolStartOff G (G.pools p) + poolCapacity G (G.pools p))) 8)
        (poolCapacity G (G.pools p) / pmMinBlock + 1 + 1) bs largest =
      some (((bs.flatMap fun fs => PondMerge.binOffsets G (auditSteps G (G.pools p))
        ((G.pools p).bins.head fs.1 fs.2)).map (sizeAt G)).foldl max largest) := by
  induction bs generalizing largest with
  | nil => rfl
  | cons fs bs ih =>
      obtain ⟨f, s⟩ := fs
      obtain ⟨hf, hs⟩ := hbs (f, s) List.mem_cons_self
      have hl := h.binOffsets hz hf hs
      have hw := h.window_le hz
      have hlt := hz.zoneSize_lt
      rw [← h.capacity hz] at hw
      have hlen := hl.length_le.trans (h.freeSpots_length hz)
      have hsteps : auditSteps G (G.pools p) ≤ poolCapacity G (G.pools p) / pmMinBlock + 1 :=
        Nat.mod_le _ _
      have hin : ∀ o ∈ PondMerge.binOffsets G (auditSteps G (G.pools p))
          ((G.pools p).bins.head f s), u32 (poolStartOff G (G.pools p)) ≤ o
          ∧ o ≤ sub32 (u32 (poolStartOff G (G.pools p) + poolCapacity G (G.pools p))) 8 := by
        intro o ho
        obtain ⟨n, hn, -, -⟩ := (hl.2 o).mp ho
        have hpool := h.offInPool hz hn
        rw [PondMerge.offInPool] at hpool
        simp only [decide_eq_true_eq] at hpool
        rw [u32_of_lt (by omega), u32_of_lt (by omega), sub32_of_le (by omega) (by omega)]
        omega
      rw [statsBins, statsWalk_eq hl.1.isChain hin (by omega)]
      dsimp only
      rw [ih (fun fs hfs => hbs fs (List.mem_cons_of_mem _ hfs)), List.flatMap_cons,
        List.map_append,
        List.foldl_append]

/-- `get_stats` reports the size of the largest free block. -/
theorem PoolInv.freeStats_spec (hz : ZoneOk G) (h : PoolInv G p L) :
    (freeStats G (G.pools p)).valid = true
      ∧ (∀ n, .free n ∈ L → n ≤ (freeStats G (G.pools p)).largestFreeBlock)
      ∧ ((freeStats G (G.pools p)).largestFreeBlock = 0
        ∨ .free (freeStats G (G.pools p)).largestFreeBlock ∈ L) := by
  have hstats : freeStats G (G.pools p) =
      ⟨true, ((freeOffsets G (G.pools p)).map (sizeAt G)).foldl max 0⟩ := by
    rw [freeStats]
    rw [h.statsBins_eq hz fun fs hfs => mem_allBins.mp hfs]
    rfl
  obtain ⟨-, hall, hmem⟩ := foldl_max_spec ((freeOffsets G (G.pools p)).map (sizeAt G)) 0
  rw [hstats]
  have hperm := h.freeOffsets_perm hz
  refine ⟨rfl, fun n hn => ?_, hmem.imp_right fun hm => ?_⟩
  · obtain ⟨L₁, L₂, rfl⟩ := List.append_of_mem hn
    have hat : FreeAt (poolStart G (G.pools p)) (L₁ ++ Piece.free n :: L₂)
        (poolStart G (G.pools p) + Tiling.total Piece.len L₁) n := mem_place_split _ _ _ _
    refine hall n (List.mem_map.mpr ⟨_, hperm.mem_iff.mpr ?_, h.sizeAt_off hz hat⟩)
    exact List.mem_map.mpr ⟨_, mem_freeSpots.mpr hat, rfl⟩
  · obtain ⟨o, ho, heq⟩ := List.mem_map.mp hm
    obtain ⟨⟨x, n⟩, hx, rfl⟩ := List.mem_map.mp (hperm.mem_iff.mp ho)
    have hat := mem_freeSpots.mp hx
    dsimp only at heq ⊢
    rw [← heq, h.sizeAt_off hz hat]
    exact mem_of_mem_place hat

lemma PoolInv.free_lt (hz : ZoneOk G) (h : PoolInv G p L) {n : ℕ} (hn : .free n ∈ L) :
    n ≤ G.zoneSize ∧ n < 2 ^ pmFlMax := by
  obtain ⟨L₁, L₂, rfl⟩ := List.append_of_mem hn
  have hat : FreeAt (poolStart G (G.pools p)) (L₁ ++ Piece.free n :: L₂)
      (poolStart G (G.pools p) + Tiling.total Piece.len L₁) n := mem_place_split _ _ _ _
  have hw := h.window_le hz
  have hb := hat.bounds
  have hsm := hz.small
  omega

/-- The search finds a block where a free block is large enough and in no lower bin. -/
lemma PoolInv.binsFind_some (hz : ZoneOk G) (h : PoolInv G p L) {need n : ℕ}
    (hneed : need < 2 ^ pmFlMax) (hn : .free n ∈ L) (hle : need ≤ n)
    (hclass : ClassBelow need n) : ∃ blk, binsFind G (G.pools p).bins need = some blk := by
  obtain ⟨L₁, L₂, rfl⟩ := List.append_of_mem hn
  have hat : FreeAt (poolStart G (G.pools p)) (L₁ ++ Piece.free n :: L₂)
      (poolStart G (G.pools p) + Tiling.total Piece.len L₁) n := mem_place_split _ _ _ _
  refine binsFind_complete h.bins (fun o k ho => ?_) (h.separated hz)
    (fun x k hx => (h.headers.freeAt h.layout.pieces hx).1)
    (fun V hV hVF => (h.hop_cap hz hV hVF).2) hneed hat hle hclass
  have hw := h.window_le hz
  have hb := ho.bounds
  have hk := (ho.size_ge h.layout.pieces).1
  rw [zoneOffReadable]
  simp only [decide_eq_true_eq]
  rw [ptrOf, poolStart_eq] at hb
  omega

/-- The search succeeds exactly where some free block is large enough and in no lower bin. -/
theorem PoolInv.binsFind_iff (hz : ZoneOk G) (h : PoolInv G p L) {need : ℕ}
    (hneed : need < 2 ^ pmFlMax) :
    (∃ blk, binsFind G (G.pools p).bins need = some blk) ↔
      ∃ n, .free n ∈ L ∧ need ≤ n ∧ ClassBelow need n := by
  constructor
  · rintro ⟨blk, hblk⟩
    obtain ⟨⟨n, hn, hclass⟩, hsize⟩ := binsFind_sound h.bins hblk
    rw [(h.headers.freeAt h.layout.pieces hn).1] at hsize
    exact ⟨n, mem_of_mem_place hn, hsize, hclass⟩
  · rintro ⟨n, hn, hle, hclass⟩
    exact h.binsFind_some hz hneed hn hle hclass

end Stats

/-! ### Admission -/

/-- The slot list of a state with a free descriptor has a head. -/
lemma SlotsOk.head_ne {G : GlobalState} (h : SlotsOk G)
    (hfree : ∃ i < pmMaxObjects, (G.objects i).state = .free) : G.freeSlotHead ≠ noSlot := by
  obtain ⟨l, hl, hmem, -⟩ := h
  obtain ⟨i, hi⟩ := hfree
  cases l with
  | nil => exact absurd ((hmem i).mpr hi) (by simp)
  | cons j l => exact hl.1 ▸ hl.2.1

/-- With a free descriptor slot and admitted arguments, `alloc` in a Running pool succeeds
exactly where the search does, and otherwise reports that there is no space. -/
theorem alloc_ok_iff_free {G : GlobalState} {Ls : ℕ → List Piece} (h : GlobalInv G Ls)
    (hslot : ∃ i < pmMaxObjects, (G.objects i).state = .free)
    {p size alignment flags : ℕ} (hask : AllocAsked G p size alignment flags) (tag : ℕ) :
    ((alloc G p size alignment flags tag).1 = .ok ↔
      ∃ need, allocNeed size = some need ∧ ∃ n, .free n ∈ Ls p ∧ need ≤ n ∧ ClassBelow need n)
    ∧ ((alloc G p size alignment flags tag).1 ≠ .ok →
      alloc G p size alignment flags tag = (.noSpace, .null, G)) := by
  have hzpop : ZoneOk (popSlot G) := h.zone.of_same ⟨rfl, rfl, rfl, rfl, rfl⟩
  have hpop := (h.pool p hask.active).popSlot
  have hhead := h.slots.head_ne hslot
  cases (alloc_healthy h p size alignment flags tag).2 hask with
  | inl hacc =>
      obtain ⟨need, blk, ha, hok⟩ := hacc
      refine ⟨iff_of_true hok ⟨need, ha.needEq, ?_⟩, fun hno => absurd hok hno⟩
      exact (hpop.binsFind_iff hzpop (allocNeed_spec ha.needEq).2.2.2).mp ⟨blk, ha.found⟩
  | inr hno =>
      obtain ⟨heq, hnone⟩ := hno
      refine ⟨iff_of_false (by simp [heq]) ?_, fun _ => heq⟩
      rintro ⟨need, hneed, hn⟩
      obtain ⟨blk, hblk⟩ := (hpop.binsFind_iff hzpop (allocNeed_spec hneed).2.2.2).mpr hn
      rw [show (popSlot G).pools p = G.pools p from rfl, hnone need hneed hhead] at hblk
      cases hblk

end PondMerge
