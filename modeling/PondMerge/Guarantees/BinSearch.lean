import PondMerge.Model.Run
import PondMerge.Operations.Admission
import PondMerge.Library.Tally

/-!
Whether `bins_find` finds what there is, over all admitted configurations.

* `WellBinned`: bins that hold a set of disjoint free blocks of admitted sizes.
* `LevelsFit`: the product in `sl_index` stays below `2 ^ 32` on every admitted level.
* `binSearch_iff`: the size classes ascend, and the search is complete, exactly then.
-/

namespace PondMerge

open ByteMemory LinkedList

variable [PmConfig]

/-- The bins hold exactly the free blocks `F` of the zone, which are disjoint and of sizes
between `PM_MIN_BLOCK` and `2 ^ PM_FL_MAX - 1`. -/
structure WellBinned (G : GlobalState) (b : TlsfBins) (F : ℕ → ℕ → Prop) : Prop where
  zone : G.zoneSize < 2 ^ pmFlMax
  rep : BinsRep G.zone G.mem b F
  size : ∀ x n, F x n → pmMinBlock ≤ n ∧ n < 2 ^ pmFlMax
  header : ∀ x n, F x n → blkSizeOf G.mem x = n ∧ blkIsFree G.mem x = true
  inside : ∀ x n, F x n → G.zone ≤ x ∧ x + n ≤ G.zone + G.zoneSize
  apart : ∀ x n y k, F x n → F y k → x = y ∨ x + n ≤ y ∨ y + k ≤ x

/-- A larger size is in no lower class. -/
def ClassesAscend : Prop :=
  ∀ k n, pmMinBlock ≤ k → k ≤ n → n < 2 ^ pmFlMax → ClassBelow k n

/-- On well-formed bins the search returns a binned block that is large enough exactly if there
is one. -/
def SearchComplete : Prop :=
  ∀ G b F, WellBinned G b F → ∀ need, pmMinBlock ≤ need → need < 2 ^ pmFlMax →
    ((∃ blk n, binsFind G b need = some blk ∧ F blk n ∧ need ≤ n) ↔ ∃ x n, F x n ∧ need ≤ n)

/-- The product in `sl_index` fits 32 bits on the highest level, or no size is admitted. -/
def LevelsFit : Prop := pmSlCount * 2 ^ (pmFlMax - 1) ≤ 2 ^ 32 ∨ 2 ^ pmFlMax ≤ pmMinBlock

instance : Decidable LevelsFit := inferInstanceAs (Decidable (_ ∨ _))

/-! ### Where the levels fit -/

section Fit

variable {G : GlobalState} {b : TlsfBins} {F : ℕ → ℕ → Prop}

lemma LevelsFit.ascend (h : LevelsFit) : ClassesAscend := by
  intro k n hk hkn hn
  cases h with
  | inl hfit => exact class_mono hfit (PmConfig.minBlock_ge.trans hk) hkn hn
  | inr hnone => omega

lemma WellBinned.separated (h : WellBinned G b F) : Separated G.zone F := by
  have hmin := PmConfig.minBlock_ge
  have hzone : G.zoneSize < 2 ^ 31 :=
    lt_of_lt_of_le h.zone (Nat.pow_le_pow_right (by omega) PmConfig.flMax_le)
  refine ⟨fun {x n} hx => ?_, fun {x n y k} hx hy => ?_⟩
  · have hin := h.inside x n hx
    have hsize := (h.size x n hx).1
    omega
  · have hsx := (h.size x n hx).1
    have hsy := (h.size y k hy).1
    rcases h.apart x n y k hx hy with rfl | hlt | hlt
    · exact Or.inl ⟨rfl, (h.header x n hx).1.symm.trans (h.header x k hy).1⟩
    · exact Or.inr (Or.inl (by omega))
    · exact Or.inr (Or.inr (by omega))

/-- The hop cap admits all blocks. -/
lemma WellBinned.length_le (h : WellBinned G b F) {V : List ℕ} (hnd : V.Nodup)
    (hV : ∀ o ∈ V, ∃ n, F (ptrOf G.zone o) n) : V.length ≤ G.zoneSize / pmMinBlock := by
  have hmin := PmConfig.minBlock_ge
  refine (Nat.le_div_iff_mul_le (by omega)).mpr (Tally.length_mul_le hnd (fun o ho => ?_)
    fun o ho o' ho' hne => ?_)
  · obtain ⟨n, hn⟩ := hV o ho
    have hsize := (h.size _ n hn).1
    have hin := (h.inside _ n hn).2
    rw [ptrOf] at hin
    omega
  · obtain ⟨n, hn⟩ := hV o ho
    obtain ⟨n', hn'⟩ := hV o' ho'
    have hsize := (h.size _ n hn).1
    have hsize' := (h.size _ n' hn').1
    have hap := h.apart _ _ _ _ hn hn'
    rw [ptrOf, ptrOf] at hap
    omega

/-- What the search returns is a binned block that is large enough. -/
lemma WellBinned.found (h : WellBinned G b F) {need blk : ℕ} (hf : binsFind G b need = some blk) :
    ∃ n, F blk n ∧ need ≤ n ∧ ClassBelow need n := by
  obtain ⟨⟨n, hn, hclass⟩, hle⟩ := binsFind_sound h.rep hf
  rw [(h.header blk n hn).1] at hle
  exact ⟨n, hn, hle, hclass⟩

lemma ClassesAscend.complete (hasc : ClassesAscend) : SearchComplete := by
  intro G b F h need hmin hneed
  refine ⟨fun ⟨blk, n, _, hn, hle⟩ => ⟨blk, n, hn, hle⟩, fun ⟨x, n, hx, hle⟩ => ?_⟩
  have hread : ∀ o n, F (ptrOf G.zone o) n → zoneOffReadable G o = true := by
    intro o n hn
    have hsize := (h.size _ n hn).1
    have hge := PmConfig.minBlock_ge
    have hin := (h.inside _ n hn).2
    rw [ptrOf] at hin
    exact decide_eq_true (by omega)
  obtain ⟨blk, hblk⟩ := binsFind_complete h.rep hread h.separated
    (fun x n hx => (h.header x n hx).1)
    (fun V hnd hV => (h.length_le hnd hV).trans (Nat.le_succ _)) hneed hx hle
    (hasc need n hmin hle (h.size x n hx).2)
  obtain ⟨m, hm, hle', -⟩ := h.found hblk
  exact ⟨blk, m, hblk, hm, hle'⟩

end Fit

/-! ### Where they do not -/

/-- The size of the highest level whose product with `PM_SL_COUNT` is `2 ^ 32`. -/
def wrapSize : ℕ := 2 ^ (pmFlMax - 1) + 2 ^ 32 / pmSlCount

/-- The configurations in which the product does not fit. -/
lemma not_levelsFit (h : ¬ LevelsFit) :
    (pmSlCount = 8 ∧ pmFlMax = 31) ∨ (pmSlCount = 16 ∧ pmFlMax = 30)
      ∨ (pmSlCount = 16 ∧ pmFlMax = 31) := by
  have hpow : ∀ s < 17, 2 ≤ s ∧ s &&& (s - 1) = 0 → s = 2 ∨ s = 4 ∨ s = 8 ∨ s = 16 := by
    decide +kernel
  have hf : pmFlMax < 32 := Nat.lt_succ_of_le PmConfig.flMax_le
  have hwide : ¬ pmSlCount * 2 ^ (pmFlMax - 1) ≤ 2 ^ 32 := fun hle => h (Or.inl hle)
  have h2 : ∀ f < 32, 2 * 2 ^ (f - 1) ≤ 2 ^ 32 := by decide +kernel
  have h4 : ∀ f < 32, 4 * 2 ^ (f - 1) ≤ 2 ^ 32 := by decide +kernel
  have h8 : ∀ f < 32, ¬ 8 * 2 ^ (f - 1) ≤ 2 ^ 32 → f = 31 := by decide +kernel
  have h16 : ∀ f < 32, ¬ 16 * 2 ^ (f - 1) ≤ 2 ^ 32 → f = 30 ∨ f = 31 := by decide +kernel
  rcases hpow pmSlCount (Nat.lt_succ_of_le PmConfig.slCount_le)
    ⟨PmConfig.slCount_ge, PmConfig.slCount_pow⟩ with hs | hs | hs | hs
  · rw [hs] at hwide
    exact absurd (h2 pmFlMax hf) hwide
  · rw [hs] at hwide
    exact absurd (h4 pmFlMax hf) hwide
  · rw [hs] at hwide
    exact Or.inl ⟨hs, h8 pmFlMax hf hwide⟩
  · rw [hs] at hwide
    exact Or.inr ((h16 pmFlMax hf hwide).imp (⟨hs, ·⟩) (⟨hs, ·⟩))

/-- A power of two below another is at most half of it. -/
lemma minBlock_le_half (h : pmMinBlock < 2 ^ pmFlMax) : pmMinBlock ≤ 2 ^ (pmFlMax - 1) := by
  have hge := PmConfig.minBlock_ge
  obtain ⟨k, hk⟩ := (Nat.and_sub_one_eq_zero_iff_isPowerOfTwo (by omega)).mp PmConfig.minBlock_pow
  rw [hk] at h ⊢
  have hlt : k < pmFlMax := (Nat.pow_lt_pow_iff_right (by omega)).mp h
  exact Nat.pow_le_pow_right (by omega) (by omega)

/-- Eight bytes more, and the second level drops to zero. -/
lemma wrapSize_spec (h : ¬ LevelsFit) :
    flBin (wrapSize - 8) = flBin wrapSize ∧ slBin wrapSize = 0 ∧ 0 < slBin (wrapSize - 8)
      ∧ pmMinBlock ≤ wrapSize - 8 ∧ wrapSize < 2 ^ pmFlMax ∧ wrapSize % 8 = 0 := by
  have hmin := minBlock_le_half (not_le.mp fun hle => h (Or.inr hle))
  rcases not_levelsFit h with ⟨hs, hf⟩ | ⟨hs, hf⟩ | ⟨hs, hf⟩
  all_goals
    rw [wrapSize]
    rw [hf] at hmin
    simp only [flBin, slBin, flIndex, slIndex, hs, hf]
    refine ⟨by decide +kernel, by decide +kernel, by decide +kernel, ?_, by decide +kernel,
      by decide +kernel⟩
    omega

lemma not_classBelow_wrapSize (h : ¬ LevelsFit) : ¬ ClassBelow (wrapSize - 8) wrapSize := by
  obtain ⟨hf, hs, hpos, -⟩ := wrapSize_spec h
  rintro (hlt | ⟨-, hle⟩)
  · omega
  · omega

/-- A zone at address 8 that is one free block of `n` bytes, and its bins. -/
def oneBlock (n : ℕ) : TlsfBins × Mem :=
  binsInsert 8 .reset (store32 (fun _ => 0) 8 (n + blockFreeBit)) 8

def oneBlockState (n : ℕ) : GlobalState :=
  { GlobalState.zero with
    zone := 8
    zoneSize := n
    initialized := true
    mem := (oneBlock n).2 }

lemma oneBlock_wellBinned {n : ℕ} (hmin : pmMinBlock ≤ n) (hlt : n < 2 ^ pmFlMax)
    (heven : n % 8 = 0) :
    WellBinned (oneBlockState n) (oneBlock n).1 fun x k => x = 8 ∧ k = n := by
  have hge := PmConfig.minBlock_ge
  have h32 : n < 2 ^ 31 := lt_of_lt_of_le hlt (Nat.pow_le_pow_right (by omega) PmConfig.flMax_le)
  have hload : load32 (store32 (fun _ => 0) 8 (n + blockFreeBit)) 8 = n + 1 := by
    rw [load32_store32_self, blockFreeBit, Nat.mod_eq_of_lt (by omega)]
  have hsize : blkSizeOf (store32 (fun _ => 0) 8 (n + blockFreeBit)) 8 = n := by
    rw [blkSizeOf, hload]
    omega
  have hsep : Separated 8 (addBlock (fun _ _ => False) 8 n) := by
    refine ⟨fun {x k} hx => ?_, fun {x k y k'} hx hy => ?_⟩
    · obtain ⟨rfl, rfl⟩ := hx.resolve_left id
      omega
    · obtain ⟨rfl, rfl⟩ := hx.resolve_left id
      obtain ⟨rfl, rfl⟩ := hy.resolve_left id
      exact Or.inl ⟨rfl, rfl⟩
  have hrep := binsInsert_rep (binsRep_reset 8 _) hsep (fun _ => id) hsize
  have hheader : load32 (oneBlock n).2 8 = n + 1 := by
    rw [← hload]
    refine load32_congr fun i hi => binsInsert_frame (binsRep_reset 8 _) hsize ?_
    rintro ⟨y, k, hy, hlo, hhi⟩
    obtain ⟨rfl, rfl⟩ := hy.resolve_left id
    omega
  refine ⟨hlt, hrep.congr_set fun x k => or_iff_right id, ?_, ?_, ?_, ?_⟩
  · rintro x k ⟨rfl, rfl⟩
    exact ⟨hmin, hlt⟩
  · rintro x k ⟨rfl, rfl⟩
    have hmem : (oneBlockState k).mem = (oneBlock k).2 := rfl
    rw [blkSizeOf, blkIsFree, hmem, hheader]
    exact ⟨by omega, decide_eq_true (by omega)⟩
  · rintro x k ⟨rfl, rfl⟩
    exact ⟨le_rfl, le_rfl⟩
  · rintro x k y k' ⟨rfl, -⟩ ⟨rfl, -⟩
    exact Or.inl rfl

/-- A zone that is one block of `wrapSize` bytes: a request for eight bytes less finds nothing. -/
lemma not_complete_wrapSize (h : ¬ LevelsFit) :
    binsFind (oneBlockState wrapSize) (oneBlock wrapSize).1 (wrapSize - 8) = none := by
  obtain ⟨-, -, -, hmin, hlt, hmod⟩ := wrapSize_spec h
  have hwell := oneBlock_wellBinned (n := wrapSize) (by omega) hlt hmod
  cases hf : binsFind (oneBlockState wrapSize) (oneBlock wrapSize).1 (wrapSize - 8) with
  | none => rfl
  | some blk =>
      obtain ⟨n, ⟨-, rfl⟩, -, hclass⟩ := hwell.found hf
      exact absurd hclass (not_classBelow_wrapSize h)

/-! ### All configurations -/

/-- **Completeness of the bin search.**  The size classes ascend over all admitted sizes, and the
search is complete on all well-formed bins, exactly in the configurations whose product in
`sl_index` fits 32 bits on the highest level, `PM_SL_COUNT * 2 ^ (PM_FL_MAX - 1) ≤ 2 ^ 32`, and
trivially where no size is below the limit. -/
theorem binSearch_iff : (ClassesAscend ↔ LevelsFit) ∧ (SearchComplete ↔ LevelsFit) := by
  refine ⟨⟨fun hasc => ?_, LevelsFit.ascend⟩, fun hcomplete => ?_, fun h => h.ascend.complete⟩
  · by_contra h
    obtain ⟨-, -, -, hmin, hlt, -⟩ := wrapSize_spec h
    exact not_classBelow_wrapSize h (hasc _ _ hmin (Nat.sub_le _ _) hlt)
  · by_contra h
    obtain ⟨-, -, -, hmin, hlt, hmod⟩ := wrapSize_spec h
    have hwell := oneBlock_wellBinned (n := wrapSize) (by omega) hlt hmod
    obtain ⟨blk, n, hblk, -⟩ := (hcomplete _ _ _ hwell (wrapSize - 8) hmin (by omega)).mpr
      ⟨8, wrapSize, ⟨rfl, rfl⟩, Nat.sub_le _ _⟩
    rw [not_complete_wrapSize h] at hblk
    cases hblk

/-- The widest first level with eight second levels. -/
@[reducible] def wideLevels : PmConfig :=
  { defaultConfig with
    pmSlCount := 8
    pmFlMax := 31
    slCount_pow := by decide
    slCount_ge := by decide
    slCount_le := by decide
    flMax_gt := by decide
    flMax_le := by decide }

omit [PmConfig] in
/-- A free block of 1.5 GiB serves a request for its own size, and none for eight bytes less. -/
theorem wideLevels_incomplete :
    letI := wideLevels
    (flBin 1610612728 = 26 ∧ slBin 1610612728 = 3) ∧ (flBin 1610612736 = 26 ∧ slBin 1610612736 = 0)
      ∧ WellBinned (oneBlockState 1610612736) (oneBlock 1610612736).1
        (fun x k => x = 8 ∧ k = 1610612736)
      ∧ binsFind (oneBlockState 1610612736) (oneBlock 1610612736).1 1610612736 = some 8
      ∧ binsFind (oneBlockState 1610612736) (oneBlock 1610612736).1 1610612728 = none
      ∧ ¬ ClassesAscend ∧ ¬ SearchComplete := by
  let _ := wideLevels
  have hwell := oneBlock_wellBinned (n := 1610612736) (by decide +kernel) (by decide +kernel)
    (by decide +kernel)
  have hnone : binsFind (oneBlockState 1610612736) (oneBlock 1610612736).1 1610612728 = none := by
    decide +kernel
  refine ⟨⟨by decide +kernel, by decide +kernel⟩, ⟨by decide +kernel, by decide +kernel⟩, hwell,
    by decide +kernel, hnone, fun hasc => ?_, fun hcomplete => ?_⟩
  · have hclass := hasc 1610612728 1610612736 (by decide) (by decide) (by decide)
    revert hclass
    decide +kernel
  · obtain ⟨blk, n, hblk, -⟩ := (hcomplete _ _ _ hwell 1610612728 (by decide) (by decide)).mpr
      ⟨8, 1610612736, ⟨rfl, rfl⟩, by decide⟩
    rw [hnone] at hblk
    cases hblk

end PondMerge
