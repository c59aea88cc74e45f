import PondMerge.Library.Overlay
import PondMerge.Model.Interleaving
import PondMerge.Operations.Borrows
import PondMerge.Operations.Bystanders

/-!
A maintenance body works inside its region: one or two pools and the bytes of their windows.  What
the other contexts write lies outside of it, so the two commute.

* `splice`: one state inside the region, another outside.
* `Micro.run_splice`: a step of a body inside its region commutes with what happens outside.
* `WithinAll.foldl_splice`: so does any prefix of a body.
-/

namespace PondMerge

open ByteMemory

variable [PmConfig]

/-- The pools, the bytes and the objects of a maintenance call. -/
structure Region where
  first : ℕ
  second : ℕ
  lo : ℕ
  hi : ℕ
  slots : List ℕ

/-- The pool belongs to the region. -/
def Region.Pool (R : Region) (q : ℕ) : Prop := q = R.first ∨ q = R.second

instance (R : Region) : DecidablePred R.Pool := fun q =>
  inferInstanceAs (Decidable (q = R.first ∨ q = R.second))

/-- The byte range lies in the region. -/
def Region.Range (R : Region) (a n : ℕ) : Prop := R.lo ≤ a ∧ a + n ≤ R.hi

/-- The state `X` with what lies outside the region taken from `F`: the other pools, the borrows
of all objects, and the other bytes. -/
def splice (R : Region) (F X : GlobalState) : GlobalState :=
  { X with
    pools := fun q => if R.Pool q then X.pools q else F.pools q
    objects := fun i => { X.objects i with activeBorrows := (F.objects i).activeBorrows }
    maxBorrowCount := F.maxBorrowCount
    mem := overlay R.lo R.hi F.mem X.mem }

section Splice

variable {R : Region} {F F' X : GlobalState} {q i : ℕ}

omit [PmConfig] in
lemma splice_pool (h : R.Pool q) : (splice R F X).pools q = X.pools q := if_pos h

omit [PmConfig] in
lemma splice_pool_other (h : ¬ R.Pool q) : (splice R F X).pools q = F.pools q := if_neg h

omit [PmConfig] in
@[simp] lemma splice_objects : (splice R F X).objects i =
    { X.objects i with activeBorrows := (F.objects i).activeBorrows } := rfl

omit [PmConfig] in
@[simp] lemma splice_zone : (splice R F X).zone = X.zone := rfl

omit [PmConfig] in
@[simp] lemma splice_zoneSize : (splice R F X).zoneSize = X.zoneSize := rfl

omit [PmConfig] in
@[simp] lemma splice_segmentSize : (splice R F X).segmentSize = X.segmentSize := rfl

omit [PmConfig] in
@[simp] lemma splice_initialized : (splice R F X).initialized = X.initialized := rfl

omit [PmConfig] in
@[simp] lemma splice_mem : (splice R F X).mem = overlay R.lo R.hi F.mem X.mem := rfl

omit [PmConfig] in
@[simp] lemma splice_self : splice R X X = X := by
  refine GlobalState.ext rfl rfl rfl rfl ?_ rfl rfl rfl rfl rfl rfl rfl rfl rfl overlay_self
  funext q
  exact ite_self _

omit [PmConfig] in
@[simp] lemma splice_splice : splice R F (splice R F' X) = splice R F X := by
  refine GlobalState.ext rfl rfl rfl rfl ?_ rfl rfl rfl rfl rfl rfl rfl rfl rfl overlay_overlay
  funext q
  by_cases h : R.Pool q
  · rw [splice_pool h, splice_pool h, splice_pool h]
  · rw [splice_pool_other h, splice_pool_other h]

omit [PmConfig] in
/-- A pool of the region is written inside. -/
lemma splice_setPool (h : R.Pool q) (P : Pool) :
    splice R F (X.setPool q P) = (splice R F X).setPool q P := by
  refine GlobalState.ext rfl rfl rfl rfl ?_ rfl rfl rfl rfl rfl rfl rfl rfl rfl rfl
  funext r
  simp only [splice, GlobalState.setPool_pools, Function.update_apply]
  split_ifs with h₁ h₂ h₂
  · rfl
  · rfl
  · exact absurd (h₂ ▸ h) h₁
  · rfl

omit [PmConfig] in
/-- A descriptor is written inside, but for its borrows. -/
lemma splice_setObj (d : ObjectDesc) :
    splice R F (X.setObj i d) =
      (splice R F X).setObj i { d with activeBorrows := (F.objects i).activeBorrows } := by
  refine GlobalState.ext rfl rfl rfl rfl rfl ?_ rfl rfl rfl rfl rfl rfl rfl rfl rfl
  funext j
  simp only [splice, GlobalState.setObj_objects, Function.update_apply]
  by_cases hj : j = i
  · rw [if_pos hj, if_pos hj, hj]
  · rw [if_neg hj, if_neg hj]

end Splice

/-! ### Moves -/

section Moves

variable {R : Region} {F X : GlobalState} {e : MovePlanEntry}

omit [PmConfig] in
lemma execMove_splice (hdst : R.Range e.dst e.size)
    (hsrc : R.Range (X.objects e.slot).block e.size) :
    execMove (splice R F X) e = splice R F (execMove X e) := by
  have hmem : moveBlock (overlay R.lo R.hi F.mem X.mem) e.dst (X.objects e.slot).block e.size =
      overlay R.lo R.hi F.mem (moveBlock X.mem e.dst (X.objects e.slot).block e.size) := by
    rw [moveBlock_eq, moveBlock_eq, memmove_overlay hdst hsrc]
  have hobj := splice_setObj (R := R) (F := F) (X := X) (i := e.slot)
    { X.objects e.slot with
      address := e.dst + 8, addressEpoch := bumpEpoch (X.objects e.slot).addressEpoch }
  calc execMove (splice R F X) e
      = { splice R F (X.setObj e.slot { X.objects e.slot with
            address := e.dst + 8, addressEpoch := bumpEpoch (X.objects e.slot).addressEpoch }) with
          mem := moveBlock (overlay R.lo R.hi F.mem X.mem) e.dst (X.objects e.slot).block
            e.size } := by
        rw [hobj]
        rfl
    _ = splice R F (execMove X e) := by
        rw [hmem]
        rfl

omit [PmConfig] in
lemma mergeMove_splice (t : ℕ) (fromSource : Bool) (hdst : R.Range e.dst e.size)
    (hsrc : R.Range (X.objects e.slot).block e.size) :
    mergeMove t fromSource (splice R F X) e = splice R F (mergeMove t fromSource X e) := by
  have hmove : (if e.dst ≠ ((splice R F X).objects e.slot).block then
      execMove (splice R F X) e else splice R F X) =
      splice R F (if e.dst ≠ (X.objects e.slot).block then execMove X e else X) := by
    rw [apply_ite (splice R F), execMove_splice hdst hsrc]
    rfl
  rw [mergeMove, mergeMove, hmove]
  generalize (if e.dst ≠ (X.objects e.slot).block then execMove X e else X) = Y
  cases fromSource with
  | true =>
      rw [if_pos rfl, if_pos rfl, splice_setObj]
      rfl
  | false => rfl

end Moves

/-! ### Rebuilds -/

/-- The loop state over another memory. -/
def Rebuild.onto (lo hi : ℕ) (w : Mem) (r : Rebuild) : Rebuild :=
  { r with mem := overlay lo hi w r.mem }

/-- Every list head of the bins is a free block inside the range. -/
def HeadsIn (zone lo hi : ℕ) (b : TlsfBins) : Prop :=
  ∀ f s, b.head f s = nullOff ∨ (lo ≤ ptrOf zone (b.head f s) ∧ ptrOf zone (b.head f s) + 16 ≤ hi)

/-- The loop of `finalize_layout` writes inside the range. -/
structure Rebuild.Inside (zone lo hi stop : ℕ) (r : Rebuild) : Prop where
  heads : HeadsIn zone lo hi r.bins
  low : lo ≤ r.prevEnd
  high : r.prevEnd ≤ stop
  mod : r.prevEnd % 8 = 0

section Rebuilds

variable {zone lo hi start stop : ℕ} {w m : Mem} {b : TlsfBins} {r : Rebuild}
  {obj : ℕ → ObjectDesc} {slots : List ℕ}

/-- `bins_insert` of a block inside the range. -/
lemma binsInsert_overlay (hb : HeadsIn zone lo hi b) {blk : ℕ} (hlo : lo ≤ blk)
    (hhi : blk + 16 ≤ hi) (hz : zone ≤ lo) (hsmall : hi ≤ zone + 2 ^ 31) :
    binsInsert zone b (overlay lo hi w m) blk =
        ((binsInsert zone b m blk).1, overlay lo hi w (binsInsert zone b m blk).2)
      ∧ HeadsIn zone lo hi (binsInsert zone b m blk).1 := by
  have hsize : blkSizeOf (overlay lo hi w m) blk = blkSizeOf m blk := by
    rw [blkSizeOf, blkSizeOf, load32_overlay hlo (by omega)]
  refine ⟨?_, fun f s => ?_⟩
  · rw [binsInsert, binsInsert, hsize]
    dsimp only
    rw [store32_overlay (by omega) (by omega), store32_overlay (by omega) (by omega)]
    rcases hb (flBin (blkSizeOf m blk)) (slBin (blkSizeOf m blk)) with hnull | ⟨hl, hh⟩
    · rw [if_neg (not_not.mpr hnull), if_neg (not_not.mpr hnull)]
    · rw [apply_ite (overlay lo hi w), store32_overlay (by omega) (by omega)]
  · have hoff : ptrOf zone (offOf zone blk) = blk := by
      rw [ptrOf, offOf, u32_of_lt (by omega)]
      omega
    simp only [binsInsert, TlsfBins.setBits, TlsfBins.setHead]
    by_cases hf : f = flBin (blkSizeOf m blk)
    · subst hf
      rw [Function.update_self, Function.update_apply]
      split_ifs
      · exact Or.inr (by rw [hoff]; exact ⟨hlo, hhi⟩)
      · exact hb _ _
    · rw [Function.update_of_ne hf]
      exact hb _ _

/-- A free block inside the range. -/
lemma putFree_onto (hb : HeadsIn zone lo hi r.bins) {a n : ℕ} (hlo : lo ≤ a) (hhi : a + 16 ≤ hi)
    (hz : zone ≤ lo) (hsmall : hi ≤ zone + 2 ^ 31) :
    putFree zone (r.onto lo hi w) a n =
        ((putFree zone r a n).1, overlay lo hi w (putFree zone r a n).2)
      ∧ HeadsIn zone lo hi (putFree zone r a n).1 := by
  have hins := binsInsert_overlay (w := w) (m := store32 (store32 (store32 (store32 r.mem a
    (n ||| blockFreeBit)) (a + 4) r.prevOwn) (a + 12) nullOff) (a + 8) nullOff) hb hlo hhi hz
    hsmall
  refine ⟨?_, hins.2⟩
  rw [putFree, putFree, Rebuild.onto]
  dsimp only
  rw [store32_overlay hlo (by omega), store32_overlay (by omega) (by omega),
    store32_overlay (by omega) (by omega), store32_overlay (by omega) (by omega)]
  exact hins.1

/-- A gap inside the range. -/
lemma fillGap_onto (hr : r.Inside zone lo hi stop) {g : ℕ} (hgap : r.prevEnd + g ≤ stop)
    (hmod : g % 8 = 0) (hstop : stop ≤ hi) (hz : zone ≤ lo) (hsmall : hi ≤ zone + 2 ^ 31) :
    fillGap zone (r.onto lo hi w) g = (fillGap zone r g).onto lo hi w
      ∧ (fillGap zone r g).Inside zone lo hi stop := by
  have hlow := hr.low
  by_cases h₁ : pmMinBlock ≤ g
  · have h16 : 16 ≤ g := PmConfig.minBlock_ge.trans h₁
    have hput := putFree_onto (w := w) (n := g) hr.heads hlow (by omega) hz hsmall
    rw [fillGap, fillGap, if_pos h₁, if_pos h₁]
    refine ⟨?_, ⟨hput.2, hlow, hr.high, hr.mod⟩⟩
    show { r.onto lo hi w with
      bins := (putFree zone (r.onto lo hi w) r.prevEnd g).1
      mem := (putFree zone (r.onto lo hi w) r.prevEnd g).2
      prevOwn := g } = _
    rw [hput.1]
    rfl
  · rw [fillGap, fillGap, if_neg h₁, if_neg h₁]
    by_cases h₂ : 0 < g
    · rw [if_pos h₂, if_pos h₂]
      refine ⟨?_, ⟨hr.heads, hlow, hr.high, hr.mod⟩⟩
      have hst := store32_overlay (w := w) (m := r.mem) hlow
        (show r.prevEnd + 4 ≤ hi by omega) 0
      show { r.onto lo hi w with
        mem := store32 (overlay lo hi w r.mem) r.prevEnd 0
        prevOwn := 0
        fragment := u32 (r.fragment + g) } = _
      rw [hst]
      rfl
    · rw [if_neg h₂, if_neg h₂]
      exact ⟨rfl, hr⟩

omit [PmConfig] in
/-- A live block inside the range. -/
lemma putLive_onto (hr : r.Inside zone lo hi stop) {a n : ℕ} (hlo : lo ≤ a) (hn : 8 ≤ n)
    (hhi : a + n ≤ stop) (ha : a % 8 = 0) (hmod : n % 8 = 0) (hstop : stop ≤ hi) :
    putLive (r.onto lo hi w) a n = (putLive r a n).onto lo hi w
      ∧ (putLive r a n).Inside zone lo hi stop := by
  refine ⟨?_, ⟨hr.heads, show lo ≤ a + n by omega, hhi, show (a + n) % 8 = 0 by omega⟩⟩
  rw [putLive, putLive, Rebuild.onto]
  dsimp only
  rw [store32_overlay hlo (by omega), store32_overlay (by omega) (by omega)]
  rfl

/-- The loop reads the blocks only. -/
lemma finalizeLoop_congr {obj' : ℕ → ObjectDesc}
    (h : ∀ i ∈ slots, (obj' i).block = (obj i).block ∧ (obj' i).blockSize = (obj i).blockSize) :
    finalizeLoop zone start stop obj' slots r = finalizeLoop zone start stop obj slots r := by
  induction slots generalizing r with
  | nil => rfl
  | cons i slots ih =>
      have hrest := fun j hj => h j (List.mem_cons_of_mem i hj)
      obtain ⟨hb, hs⟩ := h i List.mem_cons_self
      simp only [finalizeLoop, hb, hs, ih hrest]

/-- The loop of `finalize_layout` over blocks inside the range. -/
lemma finalizeLoop_onto (hr : r.Inside zone lo hi stop) (hblk : ∀ i ∈ slots, BlockOk (obj i) i)
    (hlo : lo ≤ start) (hstop : stop ≤ hi) (hz : zone ≤ lo) (hsmall : hi ≤ zone + 2 ^ 31) :
    finalizeLoop zone start stop obj slots (r.onto lo hi w) =
        (finalizeLoop zone start stop obj slots r).onto lo hi w
      ∧ (finalizeLoop zone start stop obj slots r).Inside zone lo hi stop := by
  induction slots generalizing r with
  | nil => exact ⟨rfl, hr⟩
  | cons i slots ih =>
      have hrest : ∀ j ∈ slots, BlockOk (obj j) j := fun j hj => hblk j (List.mem_cons_of_mem _ hj)
      obtain ⟨-, hmin, hsize, hmod⟩ := hblk i List.mem_cons_self
      have h16 : 16 ≤ (obj i).blockSize := PmConfig.minBlock_ge.trans hmin
      by_cases hskip : (obj i).block < start ∨ stop < (obj i).block + (obj i).blockSize
      · simp only [finalizeLoop, if_pos hskip]
        exact ih hr hrest
      · have hgap := fillGap_onto (w := w) (g := (obj i).block - r.prevEnd) hr
          (by have := hr.high; omega) (by have := hr.mod; omega) hstop hz hsmall
        have hlive := putLive_onto (w := w) (a := (obj i).block) (n := (obj i).blockSize) hgap.2
          (by omega) (by omega) (by omega) hmod hsize hstop
        simp only [finalizeLoop, if_neg hskip]
        have hend : (r.onto lo hi w).prevEnd = r.prevEnd := rfl
        rw [hend, hgap.1, hlive.1]
        exact ih hlive.2 hrest

end Rebuilds

/-! ### Layouts -/

/-- The window lies in the region, and the region in the zone. -/
structure Region.Window (R : Region) (X : GlobalState) (start stop : ℕ) : Prop where
  zoneLow : X.zone ≤ R.lo
  zoneHigh : R.hi ≤ X.zone + 2 ^ 31
  low : R.lo ≤ start
  le : start ≤ stop
  high : stop ≤ R.hi
  startMod : start % 8 = 0
  stopMod : stop % 8 = 0

section Layouts

variable {R : Region} {F X : GlobalState} {p s t nid start stop : ℕ} {slots : List ℕ}

/-- `finalize_layout` of a window of the region. -/
lemma finalizeLayout_splice (hp : R.Pool p) (hw : R.Window X start stop)
    (hblk : ∀ i ∈ slots, BlockOk (X.objects i) i) :
    finalizeLayout (splice R F X) p start stop slots =
      splice R F (finalizeLayout X p start stop slots) := by
  have hobj : ∀ r, finalizeLoop X.zone start stop (splice R F X).objects slots r =
      finalizeLoop X.zone start stop X.objects slots r :=
    fun r => finalizeLoop_congr fun i _ => ⟨rfl, rfl⟩
  have hinit : (⟨.reset, X.mem, start, 0, 0, 0⟩ : Rebuild).Inside X.zone R.lo R.hi stop :=
    ⟨fun _ _ => Or.inl rfl, hw.low, hw.le, hw.startMod⟩
  have hloop := finalizeLoop_onto (w := F.mem) hinit hblk hw.low hw.high
    hw.zoneLow hw.zoneHigh
  have hmod := hw.stopMod
  have htail := fillGap_onto (w := F.mem)
    (g := stop - (finalizeLoop X.zone start stop X.objects slots
      ⟨.reset, X.mem, start, 0, 0, 0⟩).prevEnd) hloop.2
    (by have := hloop.2.high; omega) (by have := hloop.2.mod; omega) hw.high hw.zoneLow
    hw.zoneHigh
  have hfill : fillGap X.zone
      (finalizeLoop X.zone start stop (splice R F X).objects slots
        ⟨.reset, overlay R.lo R.hi F.mem X.mem, start, 0, 0, 0⟩)
      (stop - (finalizeLoop X.zone start stop (splice R F X).objects slots
        ⟨.reset, overlay R.lo R.hi F.mem X.mem, start, 0, 0, 0⟩).prevEnd) =
      (fillGap X.zone (finalizeLoop X.zone start stop X.objects slots
        ⟨.reset, X.mem, start, 0, 0, 0⟩) (stop - (finalizeLoop X.zone start stop X.objects slots
        ⟨.reset, X.mem, start, 0, 0, 0⟩).prevEnd)).onto R.lo R.hi F.mem := by
    rw [hobj]
    have hstart : (⟨.reset, overlay R.lo R.hi F.mem X.mem, start, 0, 0, 0⟩ : Rebuild) =
        (⟨.reset, X.mem, start, 0, 0, 0⟩ : Rebuild).onto R.lo R.hi F.mem := rfl
    rw [hstart, hloop.1]
    exact htail.1
  rw [finalizeLayout, finalizeLayout]
  dsimp only
  rw [splice_zone, splice_mem, hfill, splice_pool hp]
  generalize fillGap X.zone _ _ = r
  have hset := splice_setPool (F := F) (X := X) hp { X.pools p with
    bins := r.bins
    usedBytes := r.used
    freeBytes := sub32 (u32 (stop - start)) r.used
    fragmentBytes := r.fragment }
  exact GlobalState.ext rfl rfl rfl rfl (congrArg GlobalState.pools hset).symm rfl rfl rfl rfl rfl
    rfl rfl rfl rfl rfl

omit [PmConfig] in
/-- Relinking keeps borrows. -/
lemma relink_borrows (k : ℕ → ℕ) (obj : ℕ → ObjectDesc) (prev : ℕ) (l : List ℕ) :
    relink (fun i => { obj i with activeBorrows := k i }) prev l =
      fun i => { relink obj prev l i with activeBorrows := k i } := by
  induction l generalizing obj prev with
  | nil => rfl
  | cons i l ih =>
      rw [relink, relink, ← ih]
      congr 1
      funext j
      simp only [Function.update_apply]
      by_cases hj : j = i
      · rw [if_pos hj, if_pos hj, hj]
      · rw [if_neg hj, if_neg hj]

omit [PmConfig] in
/-- So do new owners. -/
lemma rehome_borrows (k : ℕ → ℕ) (obj : ℕ → ObjectDesc) (q : ℕ) (l : List ℕ) :
    rehome (fun i => { obj i with activeBorrows := k i }) q l =
      fun i => { rehome obj q l i with activeBorrows := k i } := by
  funext i
  rw [rehome_objects, rehome_objects]
  split_ifs <;> rfl

/-- The rebuild of a compaction. -/
lemma compactRebuild_splice (hp : R.Pool p)
    (hw : R.Window X (poolStart X (X.pools p)) (poolEnd X (X.pools p)))
    (hblk : ∀ i ∈ slots, BlockOk (X.objects i) i) (plan : List MovePlanEntry) (elapsed : ℕ) :
    compactRebuild (splice R F X) p slots plan elapsed =
      splice R F (compactRebuild X p slots plan elapsed) := by
  have hfin : finalizeLayout (splice R F X) p (poolStart (splice R F X) ((splice R F X).pools p))
      (poolEnd (splice R F X) ((splice R F X).pools p)) slots =
      splice R F (finalizeLayout X p (poolStart X (X.pools p)) (poolEnd X (X.pools p)) slots) := by
    rw [splice_pool hp]
    exact finalizeLayout_splice hp hw hblk
  rw [compactRebuild, compactRebuild, hfin]
  generalize finalizeLayout X p _ _ slots = Y
  have hset := splice_setPool (F := F) (X := Y) hp { Y.pools p with
    objectsMoved := plan.length
    bytesMoved := planBytes plan
    compactTimeUs := elapsed }
  rw [compactStats, compactStats, splice_pool hp]
  exact GlobalState.ext rfl rfl rfl rfl (congrArg GlobalState.pools hset).symm rfl rfl rfl rfl rfl
    rfl rfl rfl rfl rfl

omit [PmConfig] in
/-- Which of two pools of the region is the lower one. -/
lemma lowerPool_splice (hs : R.Pool s) (ht : R.Pool t) :
    lowerPool (splice R F X) s t = lowerPool X s t ∧ R.Pool (lowerPool X s t) := by
  rw [lowerPool, splice_pool hs, splice_pool ht, lowerPool]
  split_ifs
  · exact ⟨rfl, hs⟩
  · exact ⟨rfl, ht⟩

omit [PmConfig] in
lemma upperPool_splice (hs : R.Pool s) (ht : R.Pool t) :
    upperPool (splice R F X) s t = upperPool X s t ∧ R.Pool (upperPool X s t) := by
  rw [upperPool, splice_pool hs, splice_pool ht, upperPool]
  split_ifs
  · exact ⟨rfl, ht⟩
  · exact ⟨rfl, hs⟩

/-- The rebuild of a merge. -/
lemma mergeRebuild_splice (hs : R.Pool s) (ht : R.Pool t)
    (hw : R.Window X (poolStart X (X.pools (lowerPool X s t)))
      (poolEnd X (X.pools (upperPool X s t))))
    (hblk : ∀ i ∈ slots, BlockOk (X.objects i) i) (plan : List MovePlanEntry) :
    mergeRebuild (splice R F X) s t slots plan = splice R F (mergeRebuild X s t slots plan) := by
  obtain ⟨hlower, hlo⟩ := lowerPool_splice (F := F) (X := X) hs ht
  obtain ⟨hupper, hhi⟩ := upperPool_splice (F := F) (X := X) hs ht
  have hlink := relink_borrows (fun i => (F.objects i).activeBorrows) X.objects noOrder
    (plan.map (·.slot))
  rw [mergeRebuild, mergeRebuild, hlower, hupper, splice_pool hlo, splice_pool hhi,
    splice_pool hs, splice_pool ht]
  refine Eq.trans ?_ (finalizeLayout_splice ht ?_ fun i hi => ?_)
  · rw [splice_setPool hs, splice_setPool ht]
    show finalizeLayout (GlobalState.setPool (GlobalState.setPool { splice R F X with
      objects := relink (fun i => { X.objects i with
        activeBorrows := (F.objects i).activeBorrows }) noOrder (plan.map (·.slot)) } _ _) _ _)
      _ _ _ _ = _
    rw [hlink]
    rfl
  · exact ⟨hw.zoneLow, hw.zoneHigh, hw.low, hw.le, hw.high, hw.startMod, hw.stopMod⟩
  · obtain ⟨h₁, h₂, h₃, h₄⟩ := hblk i hi
    obtain ⟨hkept, -, hblock, -⟩ := relink_block X.objects (plan.map (·.slot)) i
    exact ⟨h₁, hkept.blockSize ▸ h₂, hkept.blockSize ▸ h₃, hblock ▸ h₄⟩

/-- The rebuild of a split. -/
lemma splitRebuild_splice {n : ℕ} (hs : R.Pool s) (hn : R.Pool nid)
    (hlow : R.Window X (poolStart X (X.pools s)) (splitBoundary X s n))
    (hup : R.Window X (splitBoundary X s n) (poolEnd X (X.pools s)))
    (hblk : ∀ i ∈ slots, BlockOk (X.objects i) i) :
    splitRebuild (splice R F X) s nid n slots = splice R F (splitRebuild X s nid n slots) := by
  have habove : ∀ b, aboveBoundary (splice R F X) b = aboveBoundary X b := fun _ => rfl
  -- rehoming and relinking do not read the borrow counts
  have hobj : ∀ l above below : List ℕ, relink (relink (rehome (splice R F X).objects nid l)
      noOrder below) noOrder above = fun i =>
        { relink (relink (rehome X.objects nid l) noOrder below) noOrder above i with
          activeBorrows := (F.objects i).activeBorrows } := by
    intro l above below
    have h₁ := rehome_borrows (fun i => (F.objects i).activeBorrows) X.objects nid l
    have h₂ := relink_borrows (fun i => (F.objects i).activeBorrows) (rehome X.objects nid l)
      noOrder below
    have h₃ := relink_borrows (fun i => (F.objects i).activeBorrows)
      (relink (rehome X.objects nid l) noOrder below) noOrder above
    exact (congrArg (fun obj => relink (relink obj noOrder below) noOrder above) h₁).trans
      ((congrArg (fun obj => relink obj noOrder above) h₂).trans h₃)
  have hmoved : ∀ (lows ups : List ℕ), ∀ i ∈ slots,
      BlockOk (splitObjects X.objects nid lows ups i) i := by
    intro lows ups i hi
    obtain ⟨h₁, h₂, h₃, h₄⟩ := hblk i hi
    obtain ⟨hkept, haddr⟩ : Rehomed (X.objects i) (splitObjects X.objects nid lows ups i) :=
      splitObjects_rehomed i
    exact ⟨h₁, hkept.blockSize ▸ h₂, hkept.blockSize ▸ h₃, by
      rw [ObjectDesc.block, haddr]
      exact h₄⟩
  rw [splitRebuild, splitRebuild, splice_pool hs]
  simp only [habove, hobj, splice_pool hn]
  refine Eq.trans ?_ (finalizeLayout_splice hn ?_ fun i hi => hmoved _ _ i hi)
  · rw [← finalizeLayout_splice hs ?_ fun i hi => hmoved _ _ i hi, splice_setPool hs,
      splice_setPool hn]
    · rfl
    · exact ⟨hlow.zoneLow, hlow.zoneHigh, hlow.low, hlow.le, hlow.high, hlow.startMod,
        hlow.stopMod⟩
  · exact ⟨hup.zoneLow, hup.zoneHigh, hup.low, hup.le, hup.high, hup.startMod, hup.stopMod⟩

end Layouts

/-! ### Bodies -/

/-- The step of a maintenance body stays in the region. -/
def Micro.Within (R : Region) (X : GlobalState) : Micro → Prop
  | .move e => e.slot ∈ R.slots ∧ R.Range e.dst e.size ∧ R.Range (X.objects e.slot).block e.size
  | .mergeMove t _ e =>
    R.Pool t ∧ e.slot ∈ R.slots ∧ R.Range e.dst e.size
      ∧ R.Range (X.objects e.slot).block e.size
  | .compactRebuild p slots _ _ =>
    R.Pool p ∧ R.Window X (poolStart X (X.pools p)) (poolEnd X (X.pools p))
      ∧ ∀ i ∈ slots, BlockOk (X.objects i) i
  | .mergeRebuild s t slots plan =>
    (R.Pool s ∧ R.Pool t ∧ ∀ e ∈ plan, e.slot ∈ R.slots)
      ∧ R.Window X (poolStart X (X.pools (lowerPool X s t)))
        (poolEnd X (X.pools (upperPool X s t)))
      ∧ ∀ i ∈ slots, BlockOk (X.objects i) i
  | .splitRebuild s nid n slots =>
    (R.Pool s ∧ R.Pool nid ∧ ∀ i ∈ slots, i ∈ R.slots)
      ∧ R.Window X (poolStart X (X.pools s)) (splitBoundary X s n)
      ∧ R.Window X (splitBoundary X s n) (poolEnd X (X.pools s))
      ∧ ∀ i ∈ slots, BlockOk (X.objects i) i

/-- All steps of a body do. -/
def WithinAll (R : Region) : GlobalState → List Micro → Prop
  | _, [] => True
  | X, m :: l => m.Within R X ∧ WithinAll R (m.run X) l

section Bodies

variable {R : Region} {F X : GlobalState} {m : Micro} {l done todo : List Micro}

/-- A step inside the region commutes with what happens outside. -/
theorem Micro.run_splice (h : m.Within R X) : m.run (splice R F X) = splice R F (m.run X) := by
  cases m with
  | move e => exact execMove_splice h.2.1 h.2.2
  | mergeMove t fromSource e => exact mergeMove_splice t fromSource h.2.2.1 h.2.2.2
  | compactRebuild p slots plan elapsed =>
      exact compactRebuild_splice h.1 h.2.1 h.2.2 plan elapsed
  | mergeRebuild s t slots plan =>
      exact mergeRebuild_splice h.1.1 h.1.2.1 h.2.1 h.2.2 plan
  | splitRebuild s nid n slots =>
      exact splitRebuild_splice h.1.1 h.1.2.1 h.2.1 h.2.2.1 h.2.2.2

/-- So does any part of a body. -/
theorem WithinAll.foldl_splice (h : WithinAll R X (done ++ todo)) :
    done.foldl Micro.run (splice R F X) = splice R F (done.foldl Micro.run X) := by
  induction done generalizing X with
  | nil => rfl
  | cons m done ih =>
      obtain ⟨hm, hrest⟩ := h
      rw [List.foldl_cons, List.foldl_cons, ← ih hrest, ← Micro.run_splice hm]

omit [PmConfig] in
lemma Region.Window.splice {start stop : ℕ} (hw : R.Window X start stop) :
    R.Window (PondMerge.splice R F X) start stop :=
  ⟨hw.zoneLow, hw.zoneHigh, hw.low, hw.le, hw.high, hw.startMod, hw.stopMod⟩

/-- Whether a step stays in the region does not depend on what is outside. -/
lemma Micro.Within.splice (h : m.Within R X) : m.Within R (PondMerge.splice R F X) := by
  cases m with
  | move e => exact h
  | mergeMove t fromSource e => exact h
  | compactRebuild p slots plan elapsed =>
      obtain ⟨hp, hw, hblk⟩ := h
      refine ⟨hp, ?_, hblk⟩
      rw [splice_pool hp]
      exact hw.splice
  | mergeRebuild s t slots plan =>
      obtain ⟨⟨hs, ht, hin⟩, hw, hblk⟩ := h
      obtain ⟨hlower, hlo⟩ := lowerPool_splice (F := F) (X := X) hs ht
      obtain ⟨hupper, hhi⟩ := upperPool_splice (F := F) (X := X) hs ht
      refine ⟨⟨hs, ht, hin⟩, ?_, hblk⟩
      rw [hlower, hupper, splice_pool hlo, splice_pool hhi]
      exact hw.splice
  | splitRebuild s nid n slots =>
      obtain ⟨⟨hs, hn, hin⟩, hlow, hup, hblk⟩ := h
      refine ⟨⟨hs, hn, hin⟩, ?_, ?_, hblk⟩
      · rw [splitBoundary, splice_pool hs]
        exact hlow.splice
      · rw [splitBoundary, splice_pool hs]
        exact hup.splice

lemma WithinAll.splice (h : WithinAll R X l) : WithinAll R (PondMerge.splice R F X) l := by
  induction l generalizing X with
  | nil => trivial
  | cons m l ih =>
      obtain ⟨hm, hrest⟩ := h
      refine ⟨hm.splice, ?_⟩
      rw [Micro.run_splice hm]
      exact ih hrest

end Bodies

/-! ### What a body leaves alone -/

/-- The pools keep their states and their borrow counts. -/
def SameEntries (X X' : GlobalState) : Prop :=
  ∀ q, (X'.pools q).state = (X.pools q).state
    ∧ (X'.pools q).borrowCount = (X.pools q).borrowCount

/-- From `X` to `X'` only objects of the region have been touched, and their owners are pools of
the region still. -/
structure Tame (R : Region) (X X' : GlobalState) : Prop where
  zone : SameZone X X'
  entries : SameEntries X X'
  other : ∀ i, i ∉ R.slots → X'.objects i = X.objects i
  kept : ∀ i, Kept (X.objects i) (X'.objects i)
  owner : ∀ i ∈ R.slots, R.Pool (X.objects i).poolId → R.Pool (X'.objects i).poolId

section Tame

variable {R : Region} {X X' X'' : GlobalState} {m : Micro} {e : MovePlanEntry}
  {done todo : List Micro} {p start stop : ℕ} {slots : List ℕ}

omit [PmConfig] in
lemma SameEntries.refl (X : GlobalState) : SameEntries X X := fun _ => ⟨rfl, rfl⟩

omit [PmConfig] in
lemma SameEntries.trans (h : SameEntries X X') (h' : SameEntries X' X'') : SameEntries X X'' :=
  fun q => ⟨(h' q).1.trans (h q).1, (h' q).2.trans (h q).2⟩

omit [PmConfig] in
lemma SameEntries.set {P : Pool} (h : SameEntries X X')
    (hP : P.state = (X'.pools p).state ∧ P.borrowCount = (X'.pools p).borrowCount) :
    SameEntries X (X'.setPool p P) := by
  intro q
  rw [GlobalState.setPool_pools, Function.update_apply]
  split_ifs with hq
  · rw [hP.1, hP.2, ← hq]
    exact h q
  · exact h q

lemma finalizeLayout_entries (X : GlobalState) (p start stop : ℕ) (slots : List ℕ) :
    SameEntries X (finalizeLayout X p start stop slots) :=
  (SameEntries.refl X).set (P := _) ⟨rfl, rfl⟩

omit [PmConfig] in
lemma Tame.refl (R : Region) (X : GlobalState) : Tame R X X :=
  ⟨.refl X, .refl X, fun _ _ => rfl, fun _ => .refl _, fun _ _ h => h⟩

omit [PmConfig] in
lemma Tame.trans (h : Tame R X X') (h' : Tame R X' X'') : Tame R X X'' :=
  ⟨h.zone.trans h'.zone, h.entries.trans h'.entries,
    fun i hi => (h'.other i hi).trans (h.other i hi), fun i => (h.kept i).trans (h'.kept i),
    fun i hi hp => h'.owner i hi (h.owner i hi hp)⟩

omit [PmConfig] in
/-- What touches no descriptor. -/
lemma Tame.of_objects (hz : SameZone X X') (he : SameEntries X X') (hobj : X'.objects = X.objects) :
    Tame R X X' := by
  refine ⟨hz, he, fun i _ => by rw [hobj], fun i => ?_, fun i _ hp => by rwa [hobj]⟩
  rw [hobj]
  exact .refl _

omit [PmConfig] in
lemma execMove_tame (hin : e.slot ∈ R.slots) : Tame R X (execMove X e) := by
  have hobj : (execMove X e).objects =
      Function.update X.objects e.slot (movedDesc e (X.objects e.slot)) :=
    execMove_step.objects X e
  refine ⟨⟨rfl, rfl, rfl, rfl, rfl⟩, .refl X, fun i hi => ?_, fun i => ?_, fun i _ hp => ?_⟩
  · rw [hobj, Function.update_of_ne fun h : i = e.slot => hi (h ▸ hin)]
  · rw [hobj, Function.update_apply]
    split_ifs with h
    · subst h
      exact ⟨rfl, rfl, rfl, rfl, rfl, rfl, rfl, rfl, rfl⟩
    · exact .refl _
  · rw [hobj, Function.update_apply]
    split_ifs with h
    · subst h
      exact hp
    · exact hp

omit [PmConfig] in
lemma mergeMove_tame {t : ℕ} (ht : R.Pool t) (hin : e.slot ∈ R.slots) (fromSource : Bool) :
    Tame R X (mergeMove t fromSource X e) := by
  have hmove : Tame R X (if e.dst ≠ (X.objects e.slot).block then execMove X e else X) := by
    split_ifs
    · exact execMove_tame hin
    · exact .refl R X
  rw [mergeMove]
  generalize (if e.dst ≠ (X.objects e.slot).block then execMove X e else X) = Y at hmove ⊢
  cases fromSource with
  | false => exact hmove
  | true =>
      refine hmove.trans ?_
      rw [if_pos rfl]
      refine ⟨⟨rfl, rfl, rfl, rfl, rfl⟩, .refl Y, fun i hi => ?_, fun i => ?_, fun i _ hp => ?_⟩
      · rw [GlobalState.setObj_objects,
          Function.update_of_ne fun h : i = e.slot => hi (h ▸ hin)]
      · rw [GlobalState.setObj_objects, Function.update_apply]
        split_ifs with h
        · subst h
          exact ⟨rfl, rfl, rfl, rfl, rfl, rfl, rfl, rfl, rfl⟩
        · exact .refl _
      · rw [GlobalState.setObj_objects, Function.update_apply]
        split_ifs with h
        · exact ht
        · exact hp

lemma compactRebuild_tame (X : GlobalState) (p : ℕ) (slots : List ℕ) (plan : List MovePlanEntry)
    (elapsed : ℕ) : Tame R X (compactRebuild X p slots plan elapsed) := by
  have hfin := finalizeLayout_entries X p (poolStart X (X.pools p)) (poolEnd X (X.pools p)) slots
  refine Tame.of_objects ⟨rfl, rfl, rfl, rfl, rfl⟩ ?_ rfl
  rw [compactRebuild]
  generalize finalizeLayout X p (poolStart X (X.pools p)) (poolEnd X (X.pools p)) slots = Y at hfin
  exact hfin.set (P := { Y.pools p with
    objectsMoved := plan.length
    bytesMoved := planBytes plan
    compactTimeUs := elapsed }) ⟨rfl, rfl⟩

lemma mergeRebuild_entries (X : GlobalState) (s t : ℕ) (slots : List ℕ)
    (plan : List MovePlanEntry) : SameEntries X (mergeRebuild X s t slots plan) := by
  rw [mergeRebuild]
  refine SameEntries.trans ?_ (finalizeLayout_entries _ _ _ _ _)
  intro q
  simp only [GlobalState.setPool_pools, Function.update_apply]
  by_cases hqs : q = s
  · rw [if_pos hqs, hqs]
    exact ⟨rfl, rfl⟩
  · by_cases hqt : q = t
    · rw [if_neg hqs, if_pos hqt, hqt]
      exact ⟨rfl, rfl⟩
    · rw [if_neg hqs, if_neg hqt]
      exact ⟨rfl, rfl⟩

lemma splitRebuild_entries (X : GlobalState) (s nid n : ℕ) (slots : List ℕ) :
    SameEntries X (splitRebuild X s nid n slots) := by
  rw [splitRebuild]
  refine SameEntries.trans ?_
    ((finalizeLayout_entries _ _ _ _ _).trans (finalizeLayout_entries _ _ _ _ _))
  intro q
  simp only [GlobalState.setPool_pools, Function.update_apply]
  by_cases hqs : q = s
  · rw [if_pos hqs, hqs]
    exact ⟨rfl, rfl⟩
  · by_cases hqn : q = nid
    · rw [if_neg hqs, if_pos hqn, hqn]
      exact ⟨rfl, rfl⟩
    · rw [if_neg hqs, if_neg hqn]
      exact ⟨rfl, rfl⟩

lemma mergeRebuild_tame (s t : ℕ) (slots : List ℕ) {plan : List MovePlanEntry}
    (hin : ∀ e ∈ plan, e.slot ∈ R.slots) : Tame R X (mergeRebuild X s t slots plan) := by
  have hobj : (mergeRebuild X s t slots plan).objects =
      relink X.objects noOrder (plan.map (·.slot)) := rfl
  refine ⟨⟨rfl, rfl, rfl, rfl, rfl⟩, mergeRebuild_entries X s t slots plan, fun i hi => ?_,
    fun i => ?_, fun i _ hp => ?_⟩
  · rw [hobj, relink_other fun hm => ?_]
    obtain ⟨e, he, rfl⟩ := List.mem_map.mp hm
    exact hi (hin e he)
  · rw [hobj]
    exact (relink_block X.objects (plan.map (·.slot)) i).1
  · rw [hobj, (relink_block X.objects (plan.map (·.slot)) i).2.2.2]
    exact hp

lemma splitRebuild_objects (X : GlobalState) (s nid n : ℕ) (slots : List ℕ) :
    (splitRebuild X s nid n slots).objects = splitObjects X.objects nid
      (slots.filter fun i => !aboveBoundary X (splitBoundary X s n) i)
      (slots.filter (aboveBoundary X (splitBoundary X s n))) := by
  rw [splitRebuild, finalizeLayout_objects, finalizeLayout_objects]
  rfl

lemma splitRebuild_tame (s n : ℕ) {nid : ℕ} (hn : R.Pool nid) (hin : ∀ i ∈ slots, i ∈ R.slots) :
    Tame R X (splitRebuild X s nid n slots) := by
  have hobj := splitRebuild_objects X s nid n slots
  have hmem : ∀ (q : ℕ → Bool) (i : ℕ), i ∉ R.slots → i ∉ slots.filter q :=
    fun q i hi h => hi (hin i (List.mem_of_mem_filter h))
  refine ⟨splitRebuild_zone X s nid n slots, splitRebuild_entries X s nid n slots,
    fun i hi => ?_, fun i => ?_, fun i _ hp => ?_⟩
  · rw [hobj, splitObjects_other (hmem _ i hi) (hmem _ i hi)]
  · rw [hobj]
    exact (splitObjects_rehomed i).kept
  · rw [hobj, splitObjects_poolId]
    split_ifs
    · exact hn
    · exact hp

/-- A step inside the region is tame. -/
theorem Micro.run_tame (h : m.Within R X) : Tame R X (m.run X) := by
  cases m with
  | move e => exact execMove_tame h.1
  | mergeMove t fromSource e => exact mergeMove_tame h.1 h.2.1 fromSource
  | compactRebuild p slots plan elapsed => exact compactRebuild_tame X p slots plan elapsed
  | mergeRebuild s t slots plan => exact mergeRebuild_tame s t slots h.1.2.2
  | splitRebuild s nid n slots => exact splitRebuild_tame s n h.1.2.1 h.1.2.2

/-- So is any part of a body. -/
theorem WithinAll.foldl_tame (h : WithinAll R X (done ++ todo)) :
    Tame R X (done.foldl Micro.run X) := by
  induction done generalizing X with
  | nil => exact .refl R X
  | cons m done ih =>
      obtain ⟨hm, hrest⟩ := h
      exact (Micro.run_tame hm).trans (ih hrest)

end Tame

/-! ### Moves of settled blocks -/

/-- The blocks of the region's objects lie in the region. -/
def Region.Settled (R : Region) (X : GlobalState) : Prop :=
  ∀ i ∈ R.slots, BlockOk (X.objects i) i ∧ R.Range (X.objects i).block (X.objects i).blockSize

/-- The entry moves an object of the region to a place in it. -/
structure Region.Entry (R : Region) (obj : ℕ → ObjectDesc) (e : MovePlanEntry) : Prop where
  slot : e.slot ∈ R.slots
  size : e.size = (obj e.slot).blockSize
  mod : e.dst % 8 = 0
  range : R.Range e.dst e.size

/-- The step moves an object of the region inside it. -/
def Micro.Relocates (R : Region) (obj : ℕ → ObjectDesc) : Micro → Prop
  | .move e => R.Entry obj e
  | .mergeMove t _ e => R.Pool t ∧ R.Entry obj e
  | _ => False

section Settled

variable {R : Region} {X Y : GlobalState} {m : Micro} {e : MovePlanEntry} {micros : List Micro}

lemma Region.Settled.execMove (h : R.Settled X) (he : R.Entry X.objects e) :
    R.Settled (PondMerge.execMove X e) := by
  intro i hi
  rw [execMove_step.objects, Function.update_apply]
  split_ifs with hie
  · subst hie
    obtain ⟨h₁, h₂, h₃, -⟩ := (h _ hi).1
    exact ⟨⟨h₁, h₂, h₃, he.mod⟩, he.size ▸ he.range⟩
  · exact h i hi

lemma Region.Settled.mergeMove (h : R.Settled X) (he : R.Entry X.objects e) (t : ℕ)
    (fromSource : Bool) : R.Settled (PondMerge.mergeMove t fromSource X e) := by
  have hmove : R.Settled (if e.dst ≠ (X.objects e.slot).block then PondMerge.execMove X e
      else X) := by
    split_ifs
    · exact h.execMove he
    · exact h
  rw [PondMerge.mergeMove]
  generalize (if e.dst ≠ (X.objects e.slot).block then PondMerge.execMove X e else X) = Y
    at hmove ⊢
  cases fromSource with
  | false => exact hmove
  | true =>
      intro i hi
      rw [if_pos rfl, GlobalState.setObj_objects, Function.update_apply]
      split_ifs with hie
      · subst hie
        exact hmove _ hi
      · exact hmove i hi

/-- A move of a settled block stays in the region and leaves it settled. -/
lemma Micro.Relocates.step (h : m.Relocates R X.objects) (hset : R.Settled X) :
    m.Within R X ∧ R.Settled (m.run X) ∧ (m.run X).pools = X.pools := by
  cases m with
  | move e =>
      have hb := (hset e.slot h.slot).2
      exact ⟨⟨h.slot, h.range, h.size ▸ hb⟩, hset.execMove h, rfl⟩
  | mergeMove t fromSource e =>
      have hb := (hset e.slot h.2.slot).2
      exact ⟨⟨h.1, h.2.slot, h.2.range, h.2.size ▸ hb⟩, hset.mergeMove h.2 t fromSource,
        mergeMove_pools t fromSource X e⟩
  | compactRebuild p slots plan elapsed => exact h.elim
  | mergeRebuild s t slots plan => exact h.elim
  | splitRebuild s nid n slots => exact h.elim

omit [PmConfig] in
/-- Moves read block sizes only. -/
lemma Micro.Relocates.congr (h : m.Relocates R X.objects)
    (hsize : ∀ i, (Y.objects i).blockSize = (X.objects i).blockSize) :
    m.Relocates R Y.objects := by
  cases m with
  | move e => exact ⟨h.slot, h.size.trans (hsize _).symm, h.mod, h.range⟩
  | mergeMove t fromSource e =>
      exact ⟨h.1, h.2.slot, h.2.size.trans (hsize _).symm, h.2.mod, h.2.range⟩
  | compactRebuild p slots plan elapsed => exact h
  | mergeRebuild s t slots plan => exact h
  | splitRebuild s nid n slots => exact h

/-- A body: moves inside the region, and a rebuild that stays inside it wherever they have
left the blocks. -/
theorem withinAll_moves {last : Micro} (hset : R.Settled X)
    (hmove : ∀ m ∈ micros, m.Relocates R X.objects)
    (hlast : ∀ Y, R.Settled Y → Y.pools = X.pools → SameZone X Y → last.Within R Y) :
    WithinAll R X (micros ++ [last]) := by
  induction micros generalizing X with
  | nil => exact ⟨hlast X hset rfl (.refl X), trivial⟩
  | cons m micros ih =>
      obtain ⟨hin, hset', hpools⟩ := (hmove m List.mem_cons_self).step hset
      have htame := Micro.run_tame hin
      refine ⟨hin, ih hset' (fun m' hm' => ?_) fun Y hY hp hz => ?_⟩
      · exact (hmove m' (List.mem_cons_of_mem _ hm')).congr fun i => (htame.kept i).blockSize
      · exact hlast Y hY (hp.trans hpools) (htame.zone.trans hz)

end Settled

end PondMerge
