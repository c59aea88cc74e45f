import PondMerge.Operations.Rebuild
import PondMerge.Structure.Global
import PondMerge.Library.WriteLog

/-!
`finalize_layout` a second time.

* `finalizeLoop_log`: the loop writes the same words whatever the memory holds, so its bins and
  counters do not depend on it.
* `LaidOut`: a pool shows what `finalize_layout` has made of its window.
* `LaidOut.again`: laying out such a pool once more changes nothing.
-/

namespace PondMerge

open ByteMemory LinkedList Tiling

variable [PmConfig]

/-! ### The writes of the loop -/

section Log

variable {zone start stop : ℕ} {objects : ℕ → ObjectDesc}

/-- A step of the rebuild that writes the same words whatever the memory holds. -/
def Logged (f : Rebuild → Rebuild) : Prop :=
  ∀ r : Rebuild, ∃ ws, ∃ r' : Rebuild, ∀ m, f { r with mem := m } = { r' with mem := replay m ws }

omit [PmConfig] in
lemma Logged.comp {f g : Rebuild → Rebuild} (hf : Logged f) (hg : Logged g) :
    Logged fun r => g (f r) := by
  intro r
  obtain ⟨ws, r₁, h₁⟩ := hf r
  obtain ⟨vs, r₂, h₂⟩ := hg r₁
  refine ⟨ws ++ vs, r₂, fun m => ?_⟩
  dsimp only
  rw [h₁, h₂, replay_append]

/-- The header `finalize_layout` gives a free block is what `bins_insert` reads. -/
lemma putFree_log (zone : ℕ) (r : Rebuild) (a n : ℕ) :
    ∃ ws b, ∀ m, putFree zone { r with mem := m } a n = (b, replay m ws) := by
  have hsize : ∀ m : Mem, blkSizeOf (store32 (store32 (store32 (store32 m a (n ||| blockFreeBit))
      (a + 4) r.prevOwn) (a + 12) nullOff) (a + 8) nullOff) a
      = blkSizeOf (store32 (fun _ => 0) a (n ||| blockFreeBit)) a := by
    intro m
    rw [blkSizeOf, blkSizeOf, load32_store32_of_disjoint _ (by omega),
      load32_store32_of_disjoint _ (by omega), load32_store32_of_disjoint _ (by omega),
      load32_store32_self, load32_store32_self]
  have hput : ∀ m : Mem, putFree zone { r with mem := m } a n = binsInsert zone r.bins
      (replay m [.word a (n ||| blockFreeBit), .word (a + 4) r.prevOwn, .word (a + 12) nullOff,
        .word (a + 8) nullOff]) a := fun m => rfl
  generalize blkSizeOf (store32 (fun _ => 0) a (n ||| blockFreeBit)) a = size at hsize
  refine ⟨[.word a (n ||| blockFreeBit), .word (a + 4) r.prevOwn, .word (a + 12) nullOff,
    .word (a + 8) nullOff, .word (a + 8) nullOff,
    .word (a + 12) (r.bins.head (flBin size) (slBin size))] ++
    if r.bins.head (flBin size) (slBin size) ≠ nullOff then
      [.word (ptrOf zone (r.bins.head (flBin size) (slBin size)) + 8) (offOf zone a)] else [],
    ((r.bins.setHead (flBin size) (slBin size) (offOf zone a)).setBits (flBin size)
      (slBin size)), fun m => ?_⟩
  rw [hput]
  simp only [binsInsert, replay_cons, replay_nil, Write.run, hsize]
  split_ifs <;> simp [Write.run]

lemma fillGap_logged (zone gap : ℕ) : Logged fun r => fillGap zone r gap := by
  intro r
  simp only [fillGap]
  by_cases hfree : pmMinBlock ≤ gap
  · obtain ⟨ws, b, hput⟩ := putFree_log zone r r.prevEnd gap
    refine ⟨ws, { r with bins := b, prevOwn := gap }, fun m => ?_⟩
    rw [if_pos hfree, hput]
  · by_cases hslack : 0 < gap
    · refine ⟨[.word r.prevEnd 0], { r with prevOwn := 0, fragment := u32 (r.fragment + gap) },
        fun m => ?_⟩
      rw [if_neg hfree, if_pos hslack]
      rfl
    · refine ⟨[], r, fun m => ?_⟩
      rw [if_neg hfree, if_neg hslack]
      rfl

omit [PmConfig] in
lemma putLive_logged (bstart bsize : ℕ) : Logged fun r => putLive r bstart bsize := fun r =>
  ⟨[.word bstart bsize, .word (bstart + 4) r.prevOwn], putLive r bstart bsize, fun _ => rfl⟩

/-- The loop of `finalize_layout` writes the same words whatever the memory holds. -/
theorem finalizeLoop_logged (slots : List ℕ) :
    Logged fun r => finalizeLoop zone start stop objects slots r := by
  induction slots with
  | nil => exact fun r => ⟨[], r, fun _ => rfl⟩
  | cons i l ih =>
      intro r
      simp only [finalizeLoop]
      by_cases hout : (objects i).block < start
          ∨ stop < (objects i).block + (objects i).blockSize
      · obtain ⟨ws, r', h⟩ := ih r
        refine ⟨ws, r', fun m => ?_⟩
        rw [if_pos hout]
        exact h m
      · obtain ⟨ws, r', h⟩ := ((fillGap_logged zone ((objects i).block - r.prevEnd)).comp
          (putLive_logged (objects i).block (objects i).blockSize)).comp ih r
        refine ⟨ws, r', fun m => ?_⟩
        rw [if_neg hout]
        exact h m

/-- The slots of the other half of a split do not show. -/
lemma finalizeLoop_filter (slots : List ℕ) (r : Rebuild) :
    finalizeLoop zone start stop objects (slots.filter (insideWindow objects start stop)) r =
      finalizeLoop zone start stop objects slots r := by
  induction slots generalizing r with
  | nil => rfl
  | cons i l ih =>
      by_cases hin : insideWindow objects start stop i = true
      · rw [List.filter_cons_of_pos hin, finalizeLoop, finalizeLoop]
        simp only [ih]
      · have hout : (objects i).block < start
            ∨ stop < (objects i).block + (objects i).blockSize := by
          simp only [insideWindow, Bool.and_eq_true, decide_eq_true_eq] at hin
          omega
        rw [List.filter_cons_of_neg hin, finalizeLoop]
        dsimp only
        rw [if_pos hout, ih]

end Log

/-! ### A pool that has been laid out -/

/-- What `finalize_layout` makes of a window, from memory `m`. -/
def layoutRun (zone start stop : ℕ) (objects : ℕ → ObjectDesc) (slots : List ℕ) (m : Mem) :
    Rebuild :=
  let r := finalizeLoop zone start stop objects slots ⟨.reset, m, start, 0, 0, 0⟩
  fillGap zone r (stop - r.prevEnd)

/-- The bins, the counters and the window of pool `p` are what `finalize_layout` makes of some
memory. -/
def LaidOut (G : GlobalState) (p : ℕ) (slots : List ℕ) : Prop :=
  ∃ m, let r := layoutRun G.zone (poolStart G (G.pools p)) (poolEnd G (G.pools p)) G.objects slots m
    (∀ z, InWindow G p z → G.mem z = r.mem z) ∧ (G.pools p).bins = r.bins
      ∧ (G.pools p).usedBytes = r.used
      ∧ (G.pools p).freeBytes =
        sub32 (u32 (poolEnd G (G.pools p) - poolStart G (G.pools p))) r.used
      ∧ (G.pools p).fragmentBytes = r.fragment

section LaidOut

variable {G G' : GlobalState} {p start stop : ℕ} {slots : List ℕ}

lemma layoutRun_log (zone start stop : ℕ) (objects : ℕ → ObjectDesc) (slots : List ℕ) :
    ∃ ws, ∃ r' : Rebuild, ∀ m,
      layoutRun zone start stop objects slots m = { r' with mem := replay m ws } := by
  obtain ⟨ws, r', h⟩ := @finalizeLoop_logged _ zone start stop objects slots
    ⟨.reset, fun _ => 0, start, 0, 0, 0⟩
  obtain ⟨vs, r'', h'⟩ := fillGap_logged zone (stop - r'.prevEnd) r'
  refine ⟨ws ++ vs, r'', fun m => ?_⟩
  have hm := h m
  simp only at hm h'
  rw [layoutRun, hm, replay_append]
  exact h' _

lemma finalizeLayout_laidOut (hstart : start = poolStart G (G.pools p))
    (hstop : stop = poolEnd G (G.pools p)) :
    LaidOut (finalizeLayout G p start stop slots) p slots := by
  have hentry := @finalizeLayout_entry _ G p start stop slots
  have hs : poolStart (finalizeLayout G p start stop slots)
      ((finalizeLayout G p start stop slots).pools p) = start := by
    rw [finalizeLayout_start, hstart]
  have he : poolEnd (finalizeLayout G p start stop slots)
      ((finalizeLayout G p start stop slots).pools p) = stop := by
    rw [poolEnd, hentry.1, hentry.2.1, hstop]
    rfl
  refine ⟨G.mem, ?_⟩
  rw [hs, he]
  refine ⟨fun z _ => rfl, ?_, ?_, ?_, ?_⟩
  · simp [finalizeLayout, layoutRun]
  · simp [finalizeLayout, layoutRun]
  · simp [finalizeLayout, layoutRun]
  · simp [finalizeLayout, layoutRun]

lemma LaidOut.congr (h : LaidOut G p slots) (hz : SameZone G G')
    (hP : SameShape (G.pools p) (G'.pools p)) (hobj : G'.objects = G.objects)
    (hmem : ∀ z, InWindow G p z → G'.mem z = G.mem z) : LaidOut G' p slots := by
  obtain ⟨m, hm, hb, hu, hf, hl⟩ := h
  have hs := hz.poolStart hP.segmentFirst
  have he := hz.poolEnd hP
  refine ⟨m, ?_⟩
  rw [hs, he, hz.zone, hobj]
  refine ⟨fun z hin => ?_, hP.bins.trans hb, hP.usedBytes.trans hu, hP.freeBytes.trans hf,
    hP.fragmentBytes.trans hl⟩
  rw [InWindow, hs, he] at hin
  rw [hmem z hin, hm z hin]

/-- **A second layout changes nothing**: neither a byte of the window, nor the bins, nor the byte
counters. -/
theorem LaidOut.again (h : LaidOut G p slots) (hstart : start = poolStart G (G.pools p))
    (hstop : stop = poolEnd G (G.pools p)) {l : List ℕ}
    (hl : slots.filter (insideWindow G.objects start stop) = l) :
    (∀ z, InWindow G p z → (finalizeLayout G p start stop l).mem z = G.mem z)
      ∧ (finalizeLayout G p start stop l).pools p = G.pools p := by
  obtain ⟨m, hm, hb, hu, hf, hfr⟩ := h
  rw [← hstart, ← hstop] at hm hb hu hf hfr
  obtain ⟨ws, r, hrun⟩ := layoutRun_log G.zone start stop G.objects slots
  have hrunl : ∀ m, layoutRun G.zone start stop G.objects l m = { r with mem := replay m ws } := by
    intro m
    rw [← hrun, layoutRun, layoutRun, ← hl, finalizeLoop_filter]
  rw [hrun] at hm hb hu hf hfr
  have hlay : finalizeLayout G p start stop l = { G.setPool p { G.pools p with
      bins := r.bins
      usedBytes := r.used
      freeBytes := sub32 (u32 (stop - start)) r.used
      fragmentBytes := r.fragment } with mem := replay G.mem ws } := by
    have hr := hrunl G.mem
    rw [layoutRun] at hr
    rw [finalizeLayout, hr]
  refine ⟨fun z hin => ?_, ?_⟩
  · rw [hlay]
    show replay G.mem ws z = G.mem z
    cases replay_apply ws z with
    | inl hkeep => exact hkeep _
    | inr hset =>
        obtain ⟨b, hb⟩ := hset
        rw [hb, hm z hin]
        exact (hb m).symm
  · rw [hlay]
    show Function.update G.pools p _ p = _
    rw [Function.update_self]
    dsimp only at hb hu hf hfr
    rw [← hb, ← hf, ← hu, ← hfr]

end LaidOut

end PondMerge
