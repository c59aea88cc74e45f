import PondMerge.Operations.Collect
import PondMerge.Model.Validate

/-!
The bins audit of `merge` and `validate`.

* `auditWalk_iff`, `auditBins_iff`, `auditPoolBins_iff`: what the audit has shown when it
  returns, in any state.
* `PoolInv.freeOffsets_perm`: on a healthy pool the binned offsets are the free blocks of the
  layout.
* `PoolInv.auditPoolBins`: the audit accepts a healthy pool whose free blocks are no smaller
  than `PM_MIN_BLOCK`, and no other.
-/

namespace PondMerge

open ByteMemory LinkedList Tiling

variable [PmConfig]

/-! ### One bin -/

/-- The size of the block at a zone offset. -/
def sizeAt (G : GlobalState) (off : ℕ) : ℕ := blkSizeOf G.mem (ptrOf G.zone off)

/-- The successor links of the bins. -/
abbrev binNext (G : GlobalState) (off : ℕ) : ℕ := blkNext G.mem (ptrOf G.zone off)

omit [PmConfig] in
lemma binOffsets_eq {G : GlobalState} {fuel off : ℕ} {l : List ℕ}
    (hl : IsChain (binNext G) nullOff off l) (hfuel : l.length ≤ fuel) :
    binOffsets G fuel off = l := by
  induction l generalizing fuel off with
  | nil =>
      cases fuel with
      | zero => rfl
      | succ fuel => exact if_pos hl
  | cons o l ih =>
      obtain ⟨rfl, hne, htl⟩ := hl
      cases fuel with
      | zero => simp at hfuel
      | succ fuel =>
          rw [binOffsets, if_neg hne, ih htl (by simpa using hfuel)]

/-- The walk of one bin returns exactly on a list that ends and whose blocks all pass. -/
lemma auditWalk_iff {G : GlobalState} {startOff endOff f s fuel off n : ℕ} :
    auditWalk G startOff endOff f s fuel off = some n ↔
      ∃ l, IsChain (binNext G) nullOff off l ∧ l.length ≤ fuel
        ∧ (∀ o ∈ l, auditBlock G startOff endOff f s o = true) ∧ n = (l.map (sizeAt G)).sum := by
  induction fuel generalizing off n with
  | zero =>
      rw [auditWalk]
      constructor
      · intro h
        split_ifs at h with h0
        exact ⟨[], h0, le_rfl, by simp, by simpa using (Option.some.inj h).symm⟩
      · rintro ⟨l, hl, hlen, -, rfl⟩
        rw [List.length_eq_zero_iff.mp (Nat.le_zero.mp hlen)] at hl ⊢
        exact if_pos hl
  | succ fuel ih =>
      rw [auditWalk]
      constructor
      · intro h
        split_ifs at h with h0 h1
        · exact ⟨[], h0, by simp, by simp, by simpa using (Option.some.inj h).symm⟩
        · obtain ⟨k, hk, rfl⟩ := Option.map_eq_some_iff.mp h
          obtain ⟨l, hl, hlen, hmem, rfl⟩ := ih.mp hk
          refine ⟨off :: l, ⟨rfl, h0, hl⟩, by simpa using hlen, fun o ho => ?_, by simp [sizeAt]⟩
          rcases List.mem_cons.mp ho with rfl | ho
          · simpa using h1
          · exact hmem o ho
      · rintro ⟨l, hl, hlen, hmem, rfl⟩
        cases l with
        | nil => exact if_pos hl
        | cons o l =>
            obtain ⟨rfl, hne, htl⟩ := hl
            rw [if_neg hne, hmem _ List.mem_cons_self, if_neg (by simp)]
            rw [ih.mpr ⟨l, htl, by simpa using hlen,
              fun o ho => hmem o (List.mem_cons_of_mem _ ho), rfl⟩]
            simp [sizeAt]

/-! ### All bins -/

lemma mem_allBins {f s : ℕ} : (f, s) ∈ allBins ↔ f < flCount ∧ s < pmSlCount := by
  simp [allBins]

lemma allBins_nodup : allBins.Nodup := by
  rw [allBins, List.nodup_flatMap]
  refine ⟨fun f _ => List.Nodup.map (fun s s' h => (Prod.mk.inj h).2) List.nodup_range, ?_⟩
  refine List.nodup_range.imp fun {f f'} hne => ?_
  refine List.disjoint_left.mpr ?_
  rintro ⟨g, s⟩ h h'
  simp only [List.mem_map, Prod.mk.injEq] at h h'
  obtain ⟨-, -, rfl, -⟩ := h
  obtain ⟨-, -, rfl, -⟩ := h'
  exact hne rfl

/-- What the audit has shown about one bin. -/
def BinAudited (G : GlobalState) (P : Pool) (startOff endOff steps f s : ℕ) : Prop :=
  ((P.bins.slBitmap f).testBit s = true ↔ P.bins.head f s ≠ nullOff)
    ∧ ∃ l, IsChain (binNext G) nullOff (P.bins.head f s) l ∧ l.length ≤ steps
      ∧ ∀ o ∈ l, auditBlock G startOff endOff f s o = true

/-- The double loop returns exactly where every bin passes, with the bytes of all blocks. -/
lemma auditBins_iff {G : GlobalState} {P : Pool} {startOff endOff steps : ℕ}
    {bs : List (ℕ × ℕ)} {n : ℕ} :
    auditBins G P startOff endOff steps bs = some n ↔
      (∀ fs ∈ bs, BinAudited G P startOff endOff steps fs.1 fs.2)
        ∧ n = ((bs.flatMap fun fs => binOffsets G steps (P.bins.head fs.1 fs.2)).map
          (sizeAt G)).sum := by
  induction bs generalizing n with
  | nil => simp [auditBins, eq_comm]
  | cons fs bs ih =>
      obtain ⟨f, s⟩ := fs
      rw [auditBins]
      have hbit : decide (P.bins.head f s ≠ nullOff) ≠ (P.bins.slBitmap f).testBit s ↔
          ¬ ((P.bins.slBitmap f).testBit s = true ↔ P.bins.head f s ≠ nullOff) := by
        cases h : (P.bins.slBitmap f).testBit s <;> simp
      constructor
      · intro h
        split_ifs at h with h0
        rw [hbit, not_not] at h0
        cases hw : auditWalk G startOff endOff f s steps (P.bins.head f s) with
        | none =>
            rw [hw] at h
            cases h
        | some k =>
            rw [hw] at h
            obtain ⟨j, hj, rfl⟩ := Option.map_eq_some_iff.mp h
            obtain ⟨hall, rfl⟩ := ih.mp hj
            obtain ⟨l, hl, hlen, hmem, rfl⟩ := auditWalk_iff.mp hw
            refine ⟨fun fs hfs => ?_, ?_⟩
            · rcases List.mem_cons.mp hfs with rfl | hfs
              · exact ⟨h0, l, hl, hlen, hmem⟩
              · exact hall fs hfs
            · rw [List.flatMap_cons, List.map_append, List.sum_append, binOffsets_eq hl hlen]
      · rintro ⟨hall, rfl⟩
        obtain ⟨h0, l, hl, hlen, hmem⟩ := hall (f, s) List.mem_cons_self
        rw [if_neg (by rw [hbit, not_not]; exact h0), auditWalk_iff.mpr ⟨l, hl, hlen, hmem, rfl⟩,
          ih.mpr ⟨fun fs hfs => hall fs (List.mem_cons_of_mem _ hfs), rfl⟩, List.flatMap_cons,
          List.map_append, List.sum_append, binOffsets_eq hl hlen]
        rfl

lemma flCheck_testBit (P : Pool) (f : ℕ) :
    (flCheck P).testBit f = true ↔ f < flCount ∧ P.bins.slBitmap f ≠ 0 := by
  have h : ∀ (l : List ℕ) (acc : ℕ), (l.foldl (fun acc f =>
      if P.bins.slBitmap f ≠ 0 then acc ||| 2 ^ f else acc) acc).testBit f = true ↔
      acc.testBit f = true ∨ (f ∈ l ∧ P.bins.slBitmap f ≠ 0) := by
    intro l
    induction l with
    | nil => simp
    | cons g l ih =>
        intro acc
        rw [List.foldl_cons, ih]
        split_ifs with hg
        · rw [testBit_or_two_pow, List.mem_cons]
          constructor
          · rintro ((h | rfl) | h)
            · exact Or.inl h
            · exact Or.inr ⟨Or.inl rfl, hg⟩
            · exact Or.inr ⟨Or.inr h.1, h.2⟩
          · rintro (h | ⟨rfl | h, h'⟩)
            · exact Or.inl (Or.inl h)
            · exact Or.inl (Or.inr rfl)
            · exact Or.inr ⟨h, h'⟩
        · rw [List.mem_cons]
          constructor
          · rintro (h | h)
            · exact Or.inl h
            · exact Or.inr ⟨Or.inr h.1, h.2⟩
          · rintro (h | ⟨rfl | h, h'⟩)
            · exact Or.inl h
            · exact absurd h' hg
            · exact Or.inr ⟨h, h'⟩
  rw [flCheck, h]
  simp

/-- The step cap of the bins audit. -/
def auditSteps (G : GlobalState) (P : Pool) : ℕ := u32 (poolCapacity G P / pmMinBlock + 1)

/-- What the bins audit has shown where it returns. -/
theorem auditPoolBins_iff {G : GlobalState} {P : Pool} {n : ℕ} :
    auditPoolBins G P = some n ↔
      (∀ f < flCount, ∀ s < pmSlCount, BinAudited G P (poolStartOff G P)
        (poolStartOff G P + poolCapacity G P) (auditSteps G P) f s)
        ∧ (∀ f, P.bins.flBitmap.testBit f = true ↔ f < flCount ∧ P.bins.slBitmap f ≠ 0)
        ∧ n = ((freeOffsets G P).map (sizeAt G)).sum := by
  have hfl : flCheck P ≠ P.bins.flBitmap ↔
      ¬ ∀ f, P.bins.flBitmap.testBit f = true ↔ f < flCount ∧ P.bins.slBitmap f ≠ 0 := by
    refine not_congr ⟨fun h f => by rw [← h]; exact flCheck_testBit P f, fun h => ?_⟩
    refine Nat.eq_of_testBit_eq fun f => ?_
    rw [Bool.eq_iff_iff, flCheck_testBit, h]
  rw [auditPoolBins, ← auditSteps]
  constructor
  · intro h
    cases hb : auditBins G P (poolStartOff G P) (poolStartOff G P + poolCapacity G P)
        (auditSteps G P) allBins with
    | none =>
        rw [hb] at h
        cases h
    | some k =>
        rw [hb] at h
        dsimp only at h
        split_ifs at h with h0
        obtain rfl := Option.some.inj h
        obtain ⟨hall, rfl⟩ := auditBins_iff.mp hb
        exact ⟨fun f hf s hs => hall (f, s) (mem_allBins.mpr ⟨hf, hs⟩),
          not_not.mp (hfl.not.mp h0), rfl⟩
  · rintro ⟨hall, hbit, rfl⟩
    rw [auditBins_iff.mpr ⟨fun fs hfs => hall fs.1 (mem_allBins.mp hfs).1 fs.2
      (mem_allBins.mp hfs).2, rfl⟩]
    dsimp only
    rw [if_neg (hfl.not.mpr (not_not.mpr hbit))]
    rfl

/-! ### Healthy pools -/

/-- The free blocks of a layout: their addresses and sizes. -/
def freeSpots (a : ℕ) (L : List Piece) : List (ℕ × ℕ) :=
  (place Piece.len a L).filterMap fun u =>
    match u.2 with
    | .free n => some (u.1, n)
    | _ => none

/-- The bytes of the free blocks. -/
def freeOf (L : List Piece) : ℕ := ((freeSpots 0 L).map Prod.snd).sum

section Spots

variable {a x n : ℕ} {L : List Piece}

omit [PmConfig] in
lemma mem_freeSpots : (x, n) ∈ freeSpots a L ↔ FreeAt a L x n := by
  rw [freeSpots, List.mem_filterMap]
  constructor
  · rintro ⟨⟨y, t⟩, hu, ht⟩
    cases t with
    | free k =>
        obtain ⟨rfl, rfl⟩ := Prod.mk.inj (Option.some.inj ht)
        exact hu
    | live s k => exact absurd ht (by simp)
    | slack k => exact absurd ht (by simp)
  · intro h
    exact ⟨(x, .free n), h, rfl⟩

omit [PmConfig] in
@[simp] lemma freeSpots_nil (a : ℕ) : freeSpots a [] = [] := rfl

omit [PmConfig] in
@[simp] lemma freeSpots_free (a k : ℕ) (L : List Piece) :
    freeSpots a (.free k :: L) = (a, k) :: freeSpots (a + k) L := rfl

omit [PmConfig] in
@[simp] lemma freeSpots_live (a s k : ℕ) (L : List Piece) :
    freeSpots a (.live s k :: L) = freeSpots (a + k) L := rfl

omit [PmConfig] in
@[simp] lemma freeSpots_slack (a k : ℕ) (L : List Piece) :
    freeSpots a (.slack k :: L) = freeSpots (a + k) L := rfl

omit [PmConfig] in
lemma freeSpots_sizes (a b : ℕ) (L : List Piece) :
    (freeSpots a L).map Prod.snd = (freeSpots b L).map Prod.snd := by
  induction L generalizing a b with
  | nil => rfl
  | cons t L ih =>
      cases t with
      | live s k => exact ih (a + k) (b + k)
      | free k => exact congrArg (k :: ·) (ih (a + k) (b + k))
      | slack k => exact ih (a + k) (b + k)

omit [PmConfig] in
/-- A window is its live blocks, its free blocks and its slack. -/
lemma total_eq (L : List Piece) : usedOf L + freeOf L + lostOf L = total Piece.len L := by
  induction L with
  | nil => rfl
  | cons t L ih =>
      rw [freeOf] at ih ⊢
      cases t with
      | live s k =>
          simp only [usedOf_cons, lostOf_cons, total_cons, freeSpots_live, Piece.used, Piece.lost,
            Piece.len, freeSpots_sizes (0 + k) 0]
          omega
      | free k =>
          simp only [usedOf_cons, lostOf_cons, total_cons, freeSpots_free, Piece.used, Piece.lost,
            Piece.len, List.map_cons, List.sum_cons, freeSpots_sizes (0 + k) 0]
          omega
      | slack k =>
          simp only [usedOf_cons, lostOf_cons, total_cons, freeSpots_slack, Piece.used, Piece.lost,
            Piece.len, freeSpots_sizes (0 + k) 0]
          omega

/-- The free blocks lie in ascending order. -/
lemma freeSpots_pairwise (hok : ∀ t ∈ L, t.Ok) (a : ℕ) :
    (freeSpots a L).Pairwise fun u v => u.1 + u.2 ≤ v.1 ∧ u.1 < v.1 := by
  induction L generalizing a with
  | nil => exact List.Pairwise.nil
  | cons t L ih =>
      have hrest := fun b => ih (fun t ht => hok t (List.mem_cons_of_mem _ ht)) b
      cases t with
      | live s k => exact hrest _
      | slack k => exact hrest _
      | free k =>
          have hk := (hok _ List.mem_cons_self).1
          refine List.Pairwise.cons (fun v hv => ?_) (hrest _)
          have hb := (mem_freeSpots.mp (show (v.1, v.2) ∈ _ from hv)).bounds
          simp only [Piece.len] at hb
          omega

end Spots

section Pool

variable {G : GlobalState} {p : ℕ} {L : List Piece}

omit [PmConfig] in
lemma mul_length_le_sum {m : ℕ} {l : List ℕ} (h : ∀ n ∈ l, m ≤ n) : l.length * m ≤ l.sum := by
  induction l with
  | nil => simp
  | cons n l ih =>
      have hn := h n List.mem_cons_self
      have hl := ih fun k hk => h k (List.mem_cons_of_mem _ hk)
      rw [List.length_cons, List.sum_cons, Nat.succ_mul]
      omega

/-- The free blocks of a healthy pool are few enough for the step cap. -/
lemma PoolInv.freeSpots_length (hz : ZoneOk G) (h : PoolInv G p L) :
    (freeSpots (poolStart G (G.pools p)) L).length ≤ auditSteps G (G.pools p) := by
  have hcap := h.capacity hz
  have hw := h.window_lt hz
  have hmin16 := PmConfig.minBlock_ge
  have hdiv : Tiling.total Piece.len L / pmMinBlock + 1 < 2 ^ 32 := by
    have := Nat.div_le_self (Tiling.total Piece.len L) pmMinBlock
    omega
  rw [auditSteps, hcap, u32_of_lt hdiv]
  by_cases hmin : ∀ n, .free n ∈ L → pmMinBlock ≤ n
  · -- every free block takes at least `PM_MIN_BLOCK` bytes of the window
    have hsum := mul_length_le_sum (m := pmMinBlock)
      (l := (freeSpots (poolStart G (G.pools p)) L).map Prod.snd) fun n hn => by
        obtain ⟨⟨x, n⟩, hx, rfl⟩ := List.mem_map.mp hn
        exact hmin _ (mem_of_mem_place (mem_freeSpots.mp hx))
    rw [List.length_map, freeSpots_sizes _ 0, ← freeOf] at hsum
    have htot := total_eq L
    have hdivle := (Nat.le_div_iff_mul_le (by omega : 0 < pmMinBlock)).mpr
      (show (freeSpots (poolStart G (G.pools p)) L).length * pmMinBlock ≤
        Tiling.total Piece.len L by omega)
    omega
  · push Not at hmin
    obtain ⟨n, hn, hlt⟩ := hmin
    obtain rfl := (h.layout.minBlock n hn).resolve_left (by omega)
    simp

/-- The list of one bin is no longer than the list of free blocks. -/
lemma BinList.length_le {f s head : ℕ} {l : List ℕ}
    (hl : BinList G.zone G.mem (FreeAt (poolStart G (G.pools p)) L) f s head l) :
    l.length ≤ (freeSpots (poolStart G (G.pools p)) L).length := by
  have hnd : (l.map (ptrOf G.zone)).Nodup :=
    hl.1.nodup.map fun o o' heq => Nat.add_left_cancel heq
  have hsub : l.map (ptrOf G.zone) ⊆ (freeSpots (poolStart G (G.pools p)) L).map Prod.fst := by
    intro x hx
    obtain ⟨o, ho, rfl⟩ := List.mem_map.mp hx
    obtain ⟨n, hn, -, -⟩ := (hl.2 o).mp ho
    exact List.mem_map.mpr ⟨(ptrOf G.zone o, n), mem_freeSpots.mpr hn, rfl⟩
  simpa using (List.subperm_of_subset hnd hsub).length_le

/-- The list of a bin of a healthy pool, as the audits read it. -/
lemma PoolInv.binOffsets (hz : ZoneOk G) (h : PoolInv G p L) {f s : ℕ} (hf : f < flCount)
    (hs : s < pmSlCount) :
    BinList G.zone G.mem (FreeAt (poolStart G (G.pools p)) L) f s
      ((G.pools p).bins.head f s)
      (PondMerge.binOffsets G (auditSteps G (G.pools p)) ((G.pools p).bins.head f s)) := by
  obtain ⟨l, hl⟩ := h.bins.list f hf s hs
  rw [binOffsets_eq hl.1.isChain (hl.length_le.trans (h.freeSpots_length hz))]
  exact hl

/-- The binned offsets of a healthy pool are its free blocks. -/
theorem PoolInv.freeOffsets_perm (hz : ZoneOk G) (h : PoolInv G p L) :
    (freeOffsets G (G.pools p)).Perm
      ((freeSpots (poolStart G (G.pools p)) L).map fun u => offOf G.zone u.1) := by
  have hsep := h.separated hz
  have hbin := fun f hf s hs => h.binOffsets hz (f := f) (s := s) hf hs
  -- neither list repeats an offset, so it suffices that both have the same members
  have hlist : freeOffsets G (G.pools p) = allBins.flatMap fun fs =>
      PondMerge.binOffsets G (auditSteps G (G.pools p)) ((G.pools p).bins.head fs.1 fs.2) := rfl
  refine (List.perm_ext_iff_of_nodup ?_ ?_).mpr fun o => ?_
  · rw [hlist, List.nodup_flatMap]
    refine ⟨fun fs hfs => (hbin fs.1 (mem_allBins.mp hfs).1 fs.2 (mem_allBins.mp hfs).2).1.nodup,
      allBins_nodup.imp_of_mem fun {fs fs'} hfs hfs' hne => ?_⟩
    refine List.disjoint_left.mpr ?_
    intro o ho ho'
    obtain ⟨n, hn, hf, hs⟩ := ((hbin fs.1 (mem_allBins.mp hfs).1 fs.2
      (mem_allBins.mp hfs).2).2 o).mp ho
    obtain ⟨k, hk, hf', hs'⟩ := ((hbin fs'.1 (mem_allBins.mp hfs').1 fs'.2
      (mem_allBins.mp hfs').2).2 o).mp ho'
    have hnk := hsep.size_unique hn hk
    subst hnk
    exact hne (Prod.ext (hf.symm.trans hf') (hs.symm.trans hs'))
  · have hpw := freeSpots_pairwise h.layout.pieces (poolStart G (G.pools p))
    refine (List.pairwise_map.mpr (hpw.imp_of_mem fun {u v} hu hv huv heq => ?_))
    have hou := hsep.ptrOf_offOf (mem_freeSpots.mp (show (u.1, u.2) ∈ _ from hu))
    have hov := hsep.ptrOf_offOf (mem_freeSpots.mp (show (v.1, v.2) ∈ _ from hv))
    rw [heq, hov] at hou
    omega
  · rw [hlist, List.mem_flatMap, List.mem_map]
    constructor
    · rintro ⟨fs, hfs, ho⟩
      obtain ⟨n, hn, -, -⟩ := ((hbin fs.1 (mem_allBins.mp hfs).1 fs.2
        (mem_allBins.mp hfs).2).2 o).mp ho
      exact ⟨(ptrOf G.zone o, n), mem_freeSpots.mpr hn, offOf_ptrOf (hsep.off_lt hn)⟩
    · rintro ⟨⟨x, n⟩, hx, rfl⟩
      have hF := mem_freeSpots.mp hx
      exact ⟨(flBin n, slBin n), mem_allBins.mpr ⟨flBin_lt n, slBin_lt n⟩,
        (hbin _ (flBin_lt n) _ (slBin_lt n)).mem hsep hF rfl rfl⟩

lemma PoolInv.sizeAt_off (hz : ZoneOk G) (h : PoolInv G p L) {x n : ℕ}
    (hx : FreeAt (poolStart G (G.pools p)) L x n) : sizeAt G (offOf G.zone x) = n := by
  rw [sizeAt, (h.separated hz).ptrOf_offOf hx]
  exact (h.headers.freeAt h.layout.pieces hx).1

/-- The binned bytes of a healthy pool. -/
lemma PoolInv.binned_bytes (hz : ZoneOk G) (h : PoolInv G p L) :
    ((freeOffsets G (G.pools p)).map (sizeAt G)).sum = freeOf L := by
  rw [((h.freeOffsets_perm hz).map (sizeAt G)).sum_eq, List.map_map, freeOf,
    freeSpots_sizes 0 (poolStart G (G.pools p))]
  congr 1
  refine List.map_congr_left fun u hu => ?_
  exact h.sizeAt_off hz (mem_freeSpots.mp (show (u.1, u.2) ∈ _ from hu))

/-- The `prev_size` chain of a healthy pool closes on the block in front, where that is no
undersized free block. -/
lemma prevLinkOk_healthy (hz : ZoneOk G) {L₁ L₂ : List Piece}
    (h : PoolInv G p (L₁ ++ L₂)) (hmin : ∀ n, .free n ∈ L₁ → pmMinBlock ≤ n)
    (hq : load32 G.mem (poolStart G (G.pools p) + total Piece.len L₁ + 4) = lastOwn 0 L₁) :
    prevLinkOk G (poolStart G (G.pools p) + total Piece.len L₁ - G.zone)
      (poolStartOff G (G.pools p)) = true := by
  have hok := h.layout.pieces
  have hw := h.window_lt hz
  have hstart := poolStart_eq G (G.pools p)
  have hat : G.zone + (poolStart G (G.pools p) + total Piece.len L₁ - G.zone) =
      poolStart G (G.pools p) + total Piece.len L₁ := by omega
  rw [prevLinkOk]
  simp only [decide_eq_true_eq, hat, hq]
  by_cases h0 : lastOwn 0 L₁ = 0
  · exact Or.inl h0
  obtain ⟨L₀, t, rfl, hown, hlen⟩ := exists_before h0
  have ht : t.Ok := hok t (by simp)
  have hpl : (poolStart G (G.pools p) + total Piece.len L₀, t)
      ∈ place Piece.len (poolStart G (G.pools p)) (L₀ ++ [t] ++ L₂) := by
    simp
  have hsize : pmMinBlock ≤ t.len
      ∧ blkSizeOf G.mem (poolStart G (G.pools p) + total Piece.len L₀) = t.own := by
    cases t with
    | live r k => exact ⟨ht.2.1, (h.headers.liveAt hok hpl).1⟩
    | free k => exact ⟨hmin k (by simp), (h.headers.freeAt hok hpl).1⟩
    | slack k => exact absurd (hown.symm.trans rfl) h0
  have hback : G.zone + (poolStart G (G.pools p) + total Piece.len (L₀ ++ [t]) - G.zone
      - lastOwn 0 (L₀ ++ [t])) = poolStart G (G.pools p) + total Piece.len L₀ := by
    rw [← hown, ← hlen]
    simp only [total_append, total_cons, total_nil]
    omega
  refine Or.inr ⟨by rw [← hown, ← hlen]; exact hsize.1, ?_, by rw [hback, hsize.2, hown]⟩
  rw [← hown, ← hlen]
  simp only [total_append, total_cons, total_nil]
  omega

/-- The bins audit accepts every free block of a healthy pool without undersized ones. -/
lemma PoolInv.auditBlock (hz : ZoneOk G) (h : PoolInv G p L)
    (hmin : ∀ n, .free n ∈ L → pmMinBlock ≤ n) {x n : ℕ}
    (hx : FreeAt (poolStart G (G.pools p)) L x n) :
    PondMerge.auditBlock G (poolStartOff G (G.pools p))
      (poolStartOff G (G.pools p) + poolCapacity G (G.pools p)) (flBin n) (slBin n)
      (offOf G.zone x) = true := by
  have hsep := h.separated hz
  have hxo := hsep.ptrOf_offOf hx
  have hn := hx.size_ge h.layout.pieces
  obtain ⟨hsize, hfree⟩ := h.headers.freeAt h.layout.pieces hx
  obtain ⟨hprev, -, hnext⟩ := h.bins.linked hsep hx
  obtain ⟨hpm, hnm⟩ := h.bins.link_mem hsep hx
  have hcap := h.capacity hz
  have hstart := poolStart_eq G (G.pools p)
  -- each free block is in range, and so are those that the links name
  have hrange : ∀ o k, FreeAt (poolStart G (G.pools p)) L (ptrOf G.zone o) k → ∀ j ≤ k,
      rangeInPool (poolStartOff G (G.pools p))
        (poolStartOff G (G.pools p) + poolCapacity G (G.pools p)) o j = true := by
    intro o k ho j hj
    have hb := ho.bounds
    rw [ptrOf] at hb
    rw [rangeInPool, hcap]
    simp only [decide_eq_true_eq]
    omega
  have hFx : FreeAt (poolStart G (G.pools p)) L (ptrOf G.zone (offOf G.zone x)) n := by
    rwa [hxo]
  rw [PondMerge.auditBlock]
  simp only [decide_eq_true_eq, hxo, hsize, hfree, true_and]
  refine ⟨hrange _ n hFx 8 (by omega), hmin n (mem_of_mem_place hx), hn.2,
    hrange _ n hFx n le_rfl, fun hne => ?_, fun hne => ?_, ?_⟩
  · obtain ⟨k, hk, -, -, -⟩ := hnm hne
    exact ⟨hrange _ k hk 8 (by have := (hk.size_ge h.layout.pieces).1; omega), hnext hne⟩
  · obtain ⟨k, hk, -, -, -⟩ := hpm hne
    exact ⟨hrange _ k hk 8 (by have := (hk.size_ge h.layout.pieces).1; omega), hprev hne⟩
  · obtain ⟨L₁, L₂, rfl, rfl⟩ := exists_split hx
    have hoff : offOf G.zone (poolStart G (G.pools p) + Tiling.total Piece.len L₁) =
        poolStart G (G.pools p) + Tiling.total Piece.len L₁ - G.zone := by
      rw [ptrOf] at hxo
      omega
    rw [hoff]
    exact prevLinkOk_healthy hz h (fun k hk => hmin k (by simp [hk])) h.headers.at_split.2

/-- The bins audit accepts a healthy pool without undersized free blocks. -/
theorem PoolInv.auditPoolBins (hz : ZoneOk G) (h : PoolInv G p L)
    (hmin : ∀ n, .free n ∈ L → pmMinBlock ≤ n) :
    PondMerge.auditPoolBins G (G.pools p) = some (freeOf L) := by
  refine auditPoolBins_iff.mpr ⟨fun f hf s hs => ⟨?_, ?_⟩, h.bins.flBit, (h.binned_bytes hz).symm⟩
  · rw [h.bins.slBit f hf s]
    exact and_iff_right hs
  · have hl := h.binOffsets hz hf hs
    refine ⟨_, hl.1.isChain, hl.length_le.trans (h.freeSpots_length hz), fun o ho => ?_⟩
    obtain ⟨n, hn, rfl, rfl⟩ := (hl.2 o).mp ho
    have hoff : offOf G.zone (ptrOf G.zone _) = _ := offOf_ptrOf ((h.separated hz).off_lt hn)
    have := h.auditBlock hz hmin hn
    rwa [hoff] at this

/-- It refuses one with an undersized free block. -/
lemma PoolInv.auditPoolBins_undersized (hz : ZoneOk G) (h : PoolInv G p L) {n : ℕ}
    (hn : .free n ∈ L) (hlt : n < pmMinBlock) :
    PondMerge.auditPoolBins G (G.pools p) = none := by
  cases haudit : PondMerge.auditPoolBins G (G.pools p) with
  | none => rfl
  | some k =>
      exfalso
      obtain ⟨hall, -, -⟩ := auditPoolBins_iff.mp haudit
      obtain ⟨-, l, hl, -, hblock⟩ := hall _ (flBin_lt n) _ (slBin_lt n)
      obtain ⟨x, hx⟩ := exists_mem_place (poolStart G (G.pools p)) hn
      have hbin := h.binOffsets hz (flBin_lt n) (slBin_lt n)
      have hmem := hbin.mem (h.separated hz) hx rfl rfl
      rw [hbin.1.isChain.unique hl] at hmem
      have hok := hblock _ hmem
      have hsize := h.sizeAt_off hz hx
      rw [sizeAt] at hsize
      rw [PondMerge.auditBlock] at hok
      simp only [decide_eq_true_eq, hsize] at hok
      omega

end Pool

end PondMerge
