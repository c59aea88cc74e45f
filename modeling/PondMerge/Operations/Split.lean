import PondMerge.Operations.SplitPlan
import PondMerge.Operations.Relink
import PondMerge.Operations.Merge
import PondMerge.Operations.PoolTable

/-!
`split` on a healthy state.

* `execMoves_moved`: what the execution loop does to memory and descriptors.
* `splitObjects_spec`: the descriptors behind the rebuilt live-slot lists.
* `splitBody_spec`: after the rebuild both windows represent a layout, and every object has
  been relocated.
* `split_ok`, `split_refused`, `split_inv`: the operation.
-/

namespace PondMerge

open ByteMemory LinkedList Relocation Tiling

variable [PmConfig]

/-! ### The moves -/

/-- The execution loop has run the moves of a plan: `E` is the state behind it. -/
structure Moved (G E : GlobalState) (plan : List MovePlanEntry) : Prop where
  kept : ∀ i, Kept (G.objects i) (E.objects i)
  poolId : ∀ i, (E.objects i).poolId = (G.objects i).poolId
  links : ∀ i, (E.objects i).addrPrev = (G.objects i).addrPrev
    ∧ (E.objects i).addrNext = (G.objects i).addrNext
  block : ∀ x ∈ plan, (E.objects x.slot).block = x.dst
    ∧ (E.objects x.slot).address = x.dst + 8
  other : ∀ i, i ∉ plan.map (·.slot) → E.objects i = G.objects i
  mem : E.mem = run G.mem (plan.map (moveOf G.objects))
  pools : E.pools = G.pools
  zone : SameZone G E
  slots : E.freeSlotHead = G.freeSlotHead ∧ E.liveObjectCount = G.liveObjectCount

omit [PmConfig] in
/-- The execution loop of a plan that names every slot once. -/
lemma execMoves_moved (G : GlobalState) {plan : List MovePlanEntry}
    (hnd : (plan.map (·.slot)).Nodup) : Moved G (execMoves G plan) plan := by
  have hself := fun x (hx : x ∈ plan) => execMove_step.foldl_self hnd hx G
  have hother := fun i (hi : i ∉ plan.map (·.slot)) => execMove_step.foldl_other hi G
  obtain ⟨hzone, hslots⟩ := execMove_step.foldl_zone plan G
  have hobj : ∀ i, (Kept (G.objects i) ((plan.foldl execMove G).objects i)
      ∧ ((plan.foldl execMove G).objects i).poolId = (G.objects i).poolId)
      ∧ ((plan.foldl execMove G).objects i).addrPrev = (G.objects i).addrPrev
      ∧ ((plan.foldl execMove G).objects i).addrNext = (G.objects i).addrNext := by
    intro i
    by_cases hi : i ∈ plan.map (·.slot)
    · obtain ⟨x, hx, rfl⟩ := List.mem_map.mp hi
      rw [hself x hx]
      exact ⟨⟨⟨rfl, rfl, rfl, rfl, rfl, rfl, rfl, rfl, rfl⟩, rfl⟩, rfl, rfl⟩
    · rw [hother i hi]
      exact ⟨⟨Kept.refl _, rfl⟩, rfl, rfl⟩
  refine ⟨fun i => (hobj i).1.1, fun i => (hobj i).1.2, fun i => (hobj i).2, fun x hx => ?_,
    hother, execMove_step.foldl_mem hnd G, execMove_step.foldl_pools plan G, hzone, hslots⟩
  rw [execMoves, hself x hx]
  exact ⟨by simp [ObjectDesc.block, movedDesc], rfl⟩

/-! ### The two live-slot lists -/

/-- The descriptors behind the rebuilt lists: the upper slots have a new owner. -/
def splitObjects (obj : ℕ → ObjectDesc) (nid : ℕ) (lows ups : List ℕ) : ℕ → ObjectDesc :=
  relink (relink (rehome obj nid ups) noOrder lows) noOrder ups

/-- What the rebuild of the lists makes of a descriptor. -/
structure Rehomed (d d' : ObjectDesc) : Prop where
  kept : Kept d d'
  address : d'.address = d.address

section Lists

variable {obj : ℕ → ObjectDesc} {nid : ℕ} {lows ups : List ℕ}

omit [PmConfig] in
lemma splitObjects_eq (i : ℕ) :
    ∃ a b, splitObjects obj nid lows ups i =
      { obj i with
        poolId := if i ∈ ups then nid else (obj i).poolId, addrPrev := a, addrNext := b } := by
  have h₁ := (relink_links (relink (rehome obj nid ups) noOrder lows) noOrder ups i).eq
  have h₂ := (relink_links (rehome obj nid ups) noOrder lows i).eq
  refine ⟨(splitObjects obj nid lows ups i).addrPrev, (splitObjects obj nid lows ups i).addrNext,
    h₁.trans ?_⟩
  rw [h₂, rehome_objects, ← splitObjects]
  split_ifs <;> rfl

omit [PmConfig] in
lemma splitObjects_rehomed (i : ℕ) : Rehomed (obj i) (splitObjects obj nid lows ups i) := by
  obtain ⟨a, b, h⟩ := splitObjects_eq i
  rw [h]
  exact ⟨⟨rfl, rfl, rfl, rfl, rfl, rfl, rfl, rfl, rfl⟩, rfl⟩

omit [PmConfig] in
lemma splitObjects_poolId (i : ℕ) :
    (splitObjects obj nid lows ups i).poolId = if i ∈ ups then nid else (obj i).poolId := by
  obtain ⟨a, b, h⟩ := splitObjects_eq i
  rw [h]

omit [PmConfig] in
/-- Slots of neither list keep their descriptor. -/
lemma splitObjects_other {i : ℕ} (hl : i ∉ lows) (hu : i ∉ ups) :
    splitObjects obj nid lows ups i = obj i := by
  rw [splitObjects, relink_other hu, relink_other hl, rehome_objects, if_neg hu]

omit [PmConfig] in
/-- Both lists are threaded in the given order. -/
lemma splitObjects_lists (hnd : (lows ++ ups).Nodup) (hne : ∀ i ∈ lows ++ ups, i ≠ noOrder) :
    IsDList (fun i => (splitObjects obj nid lows ups i).addrNext)
        (fun i => (splitObjects obj nid lows ups i).addrPrev) noOrder noOrder
        (lows.headD noOrder) lows
      ∧ IsDList (fun i => (splitObjects obj nid lows ups i).addrNext)
        (fun i => (splitObjects obj nid lows ups i).addrPrev) noOrder noOrder
        (ups.headD noOrder) ups := by
  obtain ⟨hl, hu, hdis⟩ := List.nodup_append.mp hnd
  refine ⟨?_, relink_isDList hu fun i hi => hne i (List.mem_append_right _ hi)⟩
  have hlow : IsDList (fun i => (relink (rehome obj nid ups) noOrder lows i).addrNext)
      (fun i => (relink (rehome obj nid ups) noOrder lows i).addrPrev) noOrder noOrder
      (lows.headD noOrder) lows :=
    relink_isDList hl fun i hi => hne i (List.mem_append_left _ hi)
  refine hlow.congr (fun i hi => ?_) fun i hi => ?_
  · rw [splitObjects, relink_other fun hiu => hdis i hi i hiu rfl]
  · rw [splitObjects, relink_other fun hiu => hdis i hi i hiu rfl]

end Lists

/-! ### Two layouts -/

section Layouts

variable {G : GlobalState} {p q start mid stop : ℕ} {slots l u : List ℕ}

/-- Laying out one pool leaves the other one rebuildable. -/
lemma Rebuildable.other (h : Rebuildable G q start stop slots l) (hqp : q ≠ p)
    (a b : ℕ) (sl : List ℕ) : Rebuildable (finalizeLayout G p a b sl) q start stop slots l := by
  have hpool : (finalizeLayout G p a b sl).pools q = G.pools q := finalizeLayout_pools_ne hqp
  obtain ⟨hz, -, -⟩ := finalizeLayout_rest (G := G) (p := p)
  refine ⟨?_, ?_, ?_, ?_, h.filter, h.fits, h.blocks, h.desc, h.nodup, ?_, ?_⟩
  · rw [hpool]
    exact h.segPos
  · rw [hpool, hz.segmentCount]
    exact h.segLe
  · rw [hpool, hz.poolStart rfl]
    exact h.startEq
  · rw [hpool, poolEnd, segBase, hz.zone, hz.segmentSize]
    exact h.stopEq
  · rw [hpool]
    exact h.order
  · rw [hpool]
    exact h.live

/-- Two neighbouring windows laid out one after the other. -/
lemma finalizeLayout_pair (hz : ZoneOk G) (hqp : q ≠ p)
    (hp : Rebuildable G p start mid slots l) (hq : Rebuildable G q mid stop slots u) :
    let F := finalizeLayout (finalizeLayout G p start mid slots) q mid stop slots
    PoolInv F p (packed G.objects mid start l) ∧ PoolInv F q (packed G.objects stop mid u)
      ∧ LaidOut F p slots ∧ LaidOut F q slots
      ∧ ∀ z, ¬ MetaByte start (packed G.objects mid start l) z →
        ¬ MetaByte mid (packed G.objects stop mid u) z → F.mem z = G.mem z := by
  obtain ⟨hpinv, hpmem⟩ := hp.finalize hz
  have hplaid : LaidOut (finalizeLayout G p start mid slots) p slots :=
    finalizeLayout_laidOut hp.startEq hp.stopEq
  obtain ⟨hFz, -, -⟩ := finalizeLayout_rest (G := G) (p := p)
  have hq' := hq.other hqp start mid slots
  obtain ⟨hqinv, hqmem⟩ := hq'.finalize (hz.of_same hFz)
  have hqlaid : LaidOut (finalizeLayout (finalizeLayout G p start mid slots) q mid stop slots) q
      slots := finalizeLayout_laidOut hq'.startEq hq'.stopEq
  have hFp : (finalizeLayout G p start mid slots).objects = G.objects := finalizeLayout_objects
  rw [hFp] at hqinv hqmem
  obtain ⟨hFz₂, -, -⟩ := finalizeLayout_rest (G := finalizeLayout G p start mid slots) (p := q)
  have hst : poolStart (finalizeLayout G p start mid slots)
      ((finalizeLayout G p start mid slots).pools p) = start := by
    rw [finalizeLayout_start, hp.startEq]
  have hend := hpinv.end_eq
  rw [hst, total_packed hp.fits] at hend
  -- the second layout writes above the first window only
  have hlow : ∀ z, InWindow (finalizeLayout G p start mid slots) p z →
      (finalizeLayout (finalizeLayout G p start mid slots) q mid stop slots).mem z =
        (finalizeLayout G p start mid slots).mem z := by
    intro z hz'
    refine hqmem z fun hm => ?_
    have hhi := hm.bounds hqinv.layout.pieces
    have hle := hp.fits.le
    rw [InWindow, hst, hend] at hz'
    omega
  have hshape : SameShape ((finalizeLayout G p start mid slots).pools p)
      ((finalizeLayout (finalizeLayout G p start mid slots) q mid stop slots).pools p) := by
    rw [finalizeLayout_pools_ne hqp.symm]
    exact SameShape.refl _
  exact ⟨hpinv.congr hFz₂ hshape (fun _ _ => SameBlock.refl _)
      fun z hm => hlow z (hpinv.meta_inWindow hm), hqinv,
    hplaid.congr hFz₂ hshape rfl hlow, hqlaid,
    fun z hzp hzq => (hqmem z hzq).trans (hpmem z hzp)⟩

/-- What the two layouts leave alone. -/
structure PairFrame (G F : GlobalState) (p q : ℕ) : Prop where
  objects : F.objects = G.objects
  zone : SameZone G F
  slots : F.freeSlotHead = G.freeSlotHead ∧ F.liveObjectCount = G.liveObjectCount
  segments : ∀ r, (F.pools r).segmentFirst = (G.pools r).segmentFirst
    ∧ (F.pools r).segmentCount = (G.pools r).segmentCount
  others : ∀ r, r ≠ p → r ≠ q → F.pools r = G.pools r

lemma finalizeLayout_segments (r : ℕ) :
    ((finalizeLayout G p start stop slots).pools r).segmentFirst = (G.pools r).segmentFirst
      ∧ ((finalizeLayout G p start stop slots).pools r).segmentCount =
        (G.pools r).segmentCount := by
  by_cases hr : r = p
  · subst hr
    rw [finalizeLayout]
    simp
  · rw [finalizeLayout_pools_ne hr]
    exact ⟨rfl, rfl⟩

lemma finalizeLayout_pair_frame (G : GlobalState) (p q start mid stop : ℕ) (slots : List ℕ) :
    PairFrame G (finalizeLayout (finalizeLayout G p start mid slots) q mid stop slots) p q := by
  obtain ⟨hz₁, hhead₁, hcount₁⟩ := @finalizeLayout_rest _ G p start mid slots
  obtain ⟨hz₂, hhead₂, hcount₂⟩ :=
    @finalizeLayout_rest _ (finalizeLayout G p start mid slots) q mid stop slots
  refine ⟨finalizeLayout_objects.trans finalizeLayout_objects, hz₁.trans hz₂,
    ⟨hhead₂.trans hhead₁, hcount₂.trans hcount₁⟩, fun r => ?_, fun r hp hq => ?_⟩
  · have h₁ := @finalizeLayout_segments _ G p start mid slots r
    have h₂ := @finalizeLayout_segments _ (finalizeLayout G p start mid slots) q mid stop slots r
    exact ⟨h₂.1.trans h₁.1, h₂.2.trans h₁.2⟩
  · rw [finalizeLayout_pools_ne hq, finalizeLayout_pools_ne hp]

section Bodies

variable {obj : ℕ → ObjectDesc} {x : ℕ} (hl : Fits obj mid start l) (hu : Fits obj stop mid u)
  (hlow : ∀ t ∈ packed obj mid start l, t.Ok) (hup : ∀ t ∈ packed obj stop mid u, t.Ok)

include hl hu hlow hup

/-- The metadata of both layouts lies between the first and the last address. -/
lemma pair_meta_bounds
    (hx : MetaByte start (packed obj mid start l) x ∨ MetaByte mid (packed obj stop mid u) x) :
    start ≤ x ∧ x < stop := by
  have hle₁ := hl.le
  have hle₂ := hu.le
  rcases hx with hx | hx
  · have hb := hx.bounds hlow
    rw [total_packed hl] at hb
    omega
  · have hb := hx.bounds hup
    rw [total_packed hu] at hb
    omega

/-- The body of a block of either row is no metadata of either layout. -/
lemma pair_body {i k : ℕ} (hi : i ∈ l ++ u) (hlo : 8 ≤ k) (hhi : k < (obj i).blockSize) :
    ¬ MetaByte start (packed obj mid start l) ((obj i).block + k)
      ∧ ¬ MetaByte mid (packed obj stop mid u) ((obj i).block + k) := by
  rcases List.mem_append.mp hi with hil | hiu
  · have hb := hl.bounds hil
    refine ⟨fun hm => hm.not_body hlow ((liveAt_packed hl).mpr ⟨hil, rfl, rfl⟩) (by omega),
      fun hm => ?_⟩
    have := (hm.bounds hup).1
    omega
  · have hb := hu.bounds hiu
    refine ⟨fun hm => ?_,
      fun hm => hm.not_body hup ((liveAt_packed hu).mpr ⟨hiu, rfl, rfl⟩) (by omega)⟩
    have := (hm.bounds hlow).2
    rw [total_packed hl] at this
    have := hl.le
    omega

end Bodies

end Layouts

/-! ### The rebuild -/

/-- The first address of the new pool. -/
def splitBoundary (G : GlobalState) (s n : ℕ) : ℕ :=
  segBase G ((G.pools s).segmentFirst + ((G.pools s).segmentCount - n))

/-- The windows behind a split. -/
structure SplitWindows (G G' : GlobalState) (s nid n : ℕ) : Prop where
  first : (G'.pools s).segmentFirst = (G.pools s).segmentFirst
  count : (G'.pools s).segmentCount = (G.pools s).segmentCount - n
  newFirst : (G'.pools nid).segmentFirst =
    (G.pools s).segmentFirst + ((G.pools s).segmentCount - n)
  newCount : (G'.pools nid).segmentCount = n
  others : ∀ q, q ≠ s → q ≠ nid → G'.pools q = G.pools q

section Body

variable {G : GlobalState} {s nid n : ℕ} {L : List Piece}

lemma splitBoundary_bounds (hz : ZoneOk G) (hlt : n < (G.pools s).segmentCount) :
    poolStart G (G.pools s) ≤ splitBoundary G s n ∧ splitBoundary G s n ≤ poolEnd G (G.pools s)
      ∧ splitBoundary G s n % 8 = 0 := by
  have hseg := hz.segMod
  have hzone := hz.aligned
  rw [poolStart, poolEnd, splitBoundary, segBase, segBase, segBase]
  have h₁ := Nat.mul_le_mul_right G.segmentSize
    (Nat.le_add_right (G.pools s).segmentFirst ((G.pools s).segmentCount - n))
  have h₂ := Nat.mul_le_mul_right G.segmentSize
    (show (G.pools s).segmentFirst + ((G.pools s).segmentCount - n) ≤
      (G.pools s).segmentFirst + (G.pools s).segmentCount by omega)
  have h₃ : ((G.pools s).segmentFirst + ((G.pools s).segmentCount - n)) * G.segmentSize % 8 =
      0 := by
    rw [Nat.mul_mod, hseg, Nat.mul_zero, Nat.zero_mod]
  omega

omit [PmConfig] in
/-- Blocks on both sides of a boundary are told apart by their address and by the windows. -/
lemma halves_of_fits {E : GlobalState} {start b stop : ℕ} {lows ups : List ℕ}
    (hlow : Fits E.objects b start lows) (hup : Fits E.objects stop b ups)
    (haddr : ∀ i ∈ lows ++ ups, (E.objects i).address = (E.objects i).block + 8
      ∧ 16 ≤ (E.objects i).blockSize) :
    (lows ++ ups).filter (aboveBoundary E b) = ups
      ∧ ((lows ++ ups).filter fun i => !aboveBoundary E b i) = lows
      ∧ (lows ++ ups).filter (insideWindow E.objects start b) = lows
      ∧ (lows ++ ups).filter (insideWindow E.objects b stop) = ups := by
  have hl : ∀ i ∈ lows, start ≤ (E.objects i).block
      ∧ (E.objects i).block + (E.objects i).blockSize ≤ b
      ∧ (E.objects i).address = (E.objects i).block + 8 ∧ 16 ≤ (E.objects i).blockSize :=
    fun i hi => ⟨(hlow.bounds hi).1, (hlow.bounds hi).2, haddr i (List.mem_append_left _ hi)⟩
  have hu : ∀ i ∈ ups, b ≤ (E.objects i).block
      ∧ (E.objects i).block + (E.objects i).blockSize ≤ stop
      ∧ (E.objects i).address = (E.objects i).block + 8 ∧ 16 ≤ (E.objects i).blockSize :=
    fun i hi => ⟨(hup.bounds hi).1, (hup.bounds hi).2, haddr i (List.mem_append_right _ hi)⟩
  have habove := filter_halves (p := aboveBoundary E b)
    (fun i hi => by
      have := hl i hi
      simp only [aboveBoundary, decide_eq_false_iff_not]
      omega)
    fun i hi => by
      have := hu i hi
      simp only [aboveBoundary, decide_eq_true_eq]
      omega
  have hbelow := filter_halves (p := fun i => !insideWindow E.objects start b i)
    (fun i hi => by
      have := hl i hi
      simp only [insideWindow, Bool.not_eq_eq_eq_not, Bool.not_false, Bool.and_eq_true,
        decide_eq_true_eq]
      omega)
    fun i hi => by
      have := hu i hi
      simp only [insideWindow, Bool.not_eq_eq_eq_not, Bool.not_true, Bool.and_eq_false_iff,
        decide_eq_false_iff_not]
      omega
  simp only [Bool.not_not] at hbelow
  refine ⟨habove.1, habove.2, hbelow.2, (filter_halves (fun i hi => ?_) fun i hi => ?_).1⟩
  · have := hl i hi
    simp only [insideWindow, Bool.and_eq_false_iff, decide_eq_false_iff_not]
    omega
  · have := hu i hi
    simp only [insideWindow, Bool.and_eq_true, decide_eq_true_eq]
    omega

/-- The state between the rebuilt lists and the layouts. -/
def splitEntries (E : GlobalState) (s nid n : ℕ) (lows ups : List ℕ) : GlobalState :=
  ({ E with objects := splitObjects E.objects nid lows ups }.setPool nid { E.pools nid with
    segmentFirst := (E.pools s).segmentFirst + ((E.pools s).segmentCount - n)
    segmentCount := n
    orderHead := ups.headD noOrder
    liveObjects := ups.length }).setPool s { E.pools s with
    segmentCount := (E.pools s).segmentCount - n
    orderHead := lows.headD noOrder
    liveObjects := lows.length }

/-- The rebuild is two layouts of these entries. -/
lemma splitRebuild_eq {E : GlobalState} {lows ups : List ℕ} (hcount : (E.pools s).segmentFirst
      + (E.pools s).segmentCount < 2 ^ 16) (hlt : n < (E.pools s).segmentCount)
    (hlow : Fits E.objects (splitBoundary E s n) (poolStart E (E.pools s)) lows)
    (hup : Fits E.objects (poolEnd E (E.pools s)) (splitBoundary E s n) ups)
    (haddr : ∀ i ∈ lows ++ ups, (E.objects i).address = (E.objects i).block + 8
      ∧ 16 ≤ (E.objects i).blockSize)
    (hlive : (E.pools s).liveObjects = (lows ++ ups).length)
    (hsmall : (lows ++ ups).length < 2 ^ 32) :
    splitRebuild E s nid n (lows ++ ups) =
      finalizeLayout (finalizeLayout (splitEntries E s nid n lows ups) s
        (poolStart E (E.pools s)) (splitBoundary E s n) (lows ++ ups)) nid
        (splitBoundary E s n) (poolEnd E (E.pools s)) (lows ++ ups) := by
  obtain ⟨habove, hbelow, -, -⟩ := halves_of_fits hlow hup haddr
  rw [List.length_append] at hlive hsmall
  have hsub : sub32 (E.pools s).liveObjects ups.length = lows.length := by
    rw [hlive, sub32_of_le (by omega) (by omega), Nat.add_sub_cancel]
  have h₁ : u16 ((E.pools s).segmentFirst + ((E.pools s).segmentCount - n)) =
      (E.pools s).segmentFirst + ((E.pools s).segmentCount - n) := u16_of_lt (by omega)
  have h₂ : u16 n = n := u16_of_lt (by omega)
  have h₃ : u16 ((E.pools s).segmentCount - n) = (E.pools s).segmentCount - n :=
    u16_of_lt (by omega)
  rw [splitRebuild]
  dsimp only
  rw [← splitBoundary, habove, hbelow, h₁, h₂, h₃, hsub]
  rfl

/-- The moves of a split: both sides of the boundary stand in a row. -/
lemma splitMoves_spec (hz : ZoneOk G) (h : PoolInv G s L) (hlt : n < (G.pools s).segmentCount)
    {lows rights lefts : List ℕ} {r : SplitPlan} {upR upL : List MovePlanEntry} {c' : ℕ}
    (hshape : SplitShape G.objects (poolStart G (G.pools s)) (splitBoundary G s n)
      (poolEnd G (G.pools s)) (liveSlots L) lows rights lefts r upR upL c') :
    let E := execMoves G r.moves
    Moved G E r.moves
      ∧ Fits E.objects (splitBoundary G s n) (poolStart G (G.pools s)) lows
      ∧ Fits E.objects (poolEnd G (G.pools s)) (splitBoundary G s n) (rights ++ lefts)
      ∧ ∀ i ∈ liveSlots L, BlockOk (E.objects i) i
        ∧ DescOk (E.objects i) s (E.objects i).block (E.objects i).blockSize := by
  dsimp only
  have hE := execMoves_moved G (hshape.slots_nodup h.layout.nodup)
  generalize execMoves G r.moves = E at *
  obtain ⟨hlow, hup⟩ := hshape.fits h.layout.nodup h.fits
    (splitBoundary_bounds hz hlt).1 (fun x hx => (hE.block x hx).1)
    (fun i _ hi => by rw [hE.other i hi]) fun i _ => (hE.kept i).blockSize
  refine ⟨hE, hlow, hup, fun i hi => ?_⟩
  have haddr : (E.objects i).address = (E.objects i).block + 8 ∧ (E.objects i).block % 8 = 0 := by
    by_cases hm : i ∈ r.moves.map (·.slot)
    · obtain ⟨x, hx, rfl⟩ := List.mem_map.mp hm
      rw [(hE.block x hx).1]
      exact ⟨(hE.block x hx).2, (hshape.entry hx).2.2.1⟩
    · rw [hE.other i hm]
      exact ⟨(h.desc_self hi).address, (h.blockOk hz hi).2.2.2⟩
  have hb := h.blockOk hz hi
  have hd := h.desc_self hi
  have hk := hE.kept i
  exact ⟨⟨hb.1, by rw [hk.blockSize]; exact hb.2.1, by rw [hk.blockSize]; exact hb.2.2.1, haddr.2⟩,
    hk.state.trans hd.state, (hE.poolId i).trans hd.pool, haddr.1, rfl,
    by rw [hk.size]; exact hd.sizePos, by rw [hk.size, hk.blockSize]; exact hd.sizeLe,
    by rw [hk.generation]; exact hd.generation⟩

omit [PmConfig] in
lemma splitEntries_pools {E : GlobalState} {lows ups : List ℕ} (hne : nid ≠ s) :
    (splitEntries E s nid n lows ups).pools s = { E.pools s with
        segmentCount := (E.pools s).segmentCount - n
        orderHead := lows.headD noOrder
        liveObjects := lows.length }
      ∧ (splitEntries E s nid n lows ups).pools nid = { E.pools nid with
        segmentFirst := (E.pools s).segmentFirst + ((E.pools s).segmentCount - n)
        segmentCount := n
        orderHead := ups.headD noOrder
        liveObjects := ups.length }
      ∧ ∀ q, q ≠ s → q ≠ nid → (splitEntries E s nid n lows ups).pools q = E.pools q := by
  rw [splitEntries]
  simp only [GlobalState.setPool_pools]
  refine ⟨Function.update_self _ _ _, ?_, fun q hqs hqn => ?_⟩
  · rw [Function.update_of_ne hne, Function.update_self]
  · rw [Function.update_of_ne hqs, Function.update_of_ne hqn]

/-- Both entries are ready for `finalize_layout`. -/
lemma splitEntries_rebuildable {E : GlobalState} {lows ups : List ℕ} (hne : nid ≠ s) (hn : 0 < n)
    (hlt : n < (E.pools s).segmentCount)
    (hle : (E.pools s).segmentFirst + (E.pools s).segmentCount ≤ E.segmentCount)
    (hlow : Fits E.objects (splitBoundary E s n) (poolStart E (E.pools s)) lows)
    (hup : Fits E.objects (poolEnd E (E.pools s)) (splitBoundary E s n) ups)
    (hnd : (lows ++ ups).Nodup)
    (hobj : ∀ i ∈ lows ++ ups, BlockOk (E.objects i) i
      ∧ DescOk (E.objects i) s (E.objects i).block (E.objects i).blockSize) :
    Rebuildable (splitEntries E s nid n lows ups) s (poolStart E (E.pools s))
        (splitBoundary E s n) (lows ++ ups) lows
      ∧ Rebuildable (splitEntries E s nid n lows ups) nid (splitBoundary E s n)
        (poolEnd E (E.pools s)) (lows ++ ups) ups := by
  have hre : ∀ i, Rehomed (E.objects i) (splitObjects E.objects nid lows ups i) :=
    splitObjects_rehomed
  have hpid : ∀ i, (splitObjects E.objects nid lows ups i).poolId =
      if i ∈ ups then nid else (E.objects i).poolId :=
    splitObjects_poolId
  have hblock : ∀ i, (splitObjects E.objects nid lows ups i).block = (E.objects i).block :=
    fun i => congrArg (· - 8) (hre i).address
  have hsize : ∀ i, (splitObjects E.objects nid lows ups i).blockSize = (E.objects i).blockSize :=
    fun i => (hre i).kept.blockSize
  obtain ⟨hMs, hMn, -⟩ := splitEntries_pools (E := E) (n := n) hne
  have hMz : SameZone E (splitEntries E s nid n lows ups) := ⟨rfl, rfl, rfl, rfl, rfl⟩
  have hMobj : (splitEntries E s nid n lows ups).objects = splitObjects E.objects nid lows ups :=
    rfl
  have haddr : ∀ i ∈ lows ++ ups,
      (splitObjects E.objects nid lows ups i).address =
        (splitObjects E.objects nid lows ups i).block + 8
      ∧ 16 ≤ (splitObjects E.objects nid lows ups i).blockSize := by
    intro i hi
    rw [(hre i).address, hblock, hsize]
    have hmin := PmConfig.minBlock_ge
    exact ⟨(hobj i hi).2.address, hmin.trans (hobj i hi).1.2.1⟩
  -- rehoming changes neither blocks nor addresses, so both sides still fit
  have hlow' : Fits (splitObjects E.objects nid lows ups) (splitBoundary E s n)
      (poolStart E (E.pools s)) lows := hlow.congr fun i _ => ⟨hblock i, hsize i⟩
  have hup' : Fits (splitObjects E.objects nid lows ups) (poolEnd E (E.pools s))
      (splitBoundary E s n) ups := hup.congr fun i _ => ⟨hblock i, hsize i⟩
  obtain ⟨-, -, hin₁, hin₂⟩ := halves_of_fits (E := splitEntries E s nid n lows ups) hlow' hup'
    haddr
  obtain ⟨hl, hu, hdis⟩ := List.nodup_append.mp hnd
  obtain ⟨horder₁, horder₂⟩ := splitObjects_lists hnd
    fun i hi => slot_ne_noOrder (hobj i hi).1.1
  have hblk : ∀ i ∈ lows ++ ups, BlockOk (splitObjects E.objects nid lows ups i) i := by
    intro i hi
    rw [BlockOk, hblock, hsize]
    exact (hobj i hi).1
  have hdesc : ∀ i ∈ lows ++ ups, DescOk (splitObjects E.objects nid lows ups i)
      (if i ∈ ups then nid else s) (splitObjects E.objects nid lows ups i).block
      (splitObjects E.objects nid lows ups i).blockSize := by
    intro i hi
    have hd := (hobj i hi).2
    have hk := (hre i).kept
    refine ⟨hk.state.trans hd.state, ?_, (haddr i hi).1, rfl, by rw [hk.size]; exact hd.sizePos,
      by rw [hk.size, hk.blockSize]; exact hd.sizeLe, by rw [hk.generation]; exact hd.generation⟩
    rw [hpid, hd.pool]
  refine ⟨⟨?_, ?_, ?_, ?_, hin₁, hlow', fun i hi => hblk i (List.mem_append_left _ hi),
    fun i hi => ?_, hl, ?_, ?_⟩, ⟨?_, ?_, ?_, ?_, hin₂, hup',
    fun i hi => hblk i (List.mem_append_right _ hi), fun i hi => ?_, hu, ?_, ?_⟩⟩
  · rw [hMs]
    exact Nat.sub_pos_of_lt hlt
  · rw [hMs, hMz.segmentCount]
    dsimp only
    omega
  · rw [hMs]
    exact (hMz.poolStart rfl).symm
  · rw [hMs, poolEnd, splitBoundary, segBase, segBase, hMz.zone, hMz.segmentSize]
  · have := hdesc i (List.mem_append_left _ hi)
    rw [if_neg fun hiu => hdis i hi i hiu rfl] at this
    exact this
  · rw [hMs]
    exact horder₁
  · rw [hMs]
  · rw [hMn]
    exact hn
  · rw [hMn, hMz.segmentCount]
    dsimp only
    omega
  · rw [hMn, poolStart, splitBoundary, segBase, segBase, hMz.zone, hMz.segmentSize]
  · rw [hMn, poolEnd, poolEnd, segBase, segBase, hMz.zone, hMz.segmentSize]
    dsimp only
    rw [show (E.pools s).segmentFirst + ((E.pools s).segmentCount - n) + n =
      (E.pools s).segmentFirst + (E.pools s).segmentCount by omega]
  · have := hdesc i (List.mem_append_right _ hi)
    rw [if_pos hi] at this
    exact this
  · rw [hMn]
    exact horder₂
  · rw [hMn]

/-- While a plan is being executed, no block is written before it has been moved, and no
pinned block is moved at all. -/
structure MovesSafely (G : GlobalState) (l : List ℕ) (plan : List MovePlanEntry) : Prop where
  keeps : ∀ before after, plan = before ++ after → ∀ i ∈ l, i ∉ before.map (·.slot) →
    ∀ k < (G.objects i).blockSize,
      (execMoves G before).mem ((G.objects i).block + k) = G.mem ((G.objects i).block + k)
  unpinned : ∀ x ∈ plan, (G.objects x.slot).pinned = false

/-- The execution order of `split` is safe. -/
theorem splitMoves_safely (hz : ZoneOk G) (h : PoolInv G s L)
    (hlt : n < (G.pools s).segmentCount)
    {lows rights lefts : List ℕ} {r : SplitPlan} {upR upL : List MovePlanEntry} {c' : ℕ}
    (hshape : SplitShape G.objects (poolStart G (G.pools s)) (splitBoundary G s n)
      (poolEnd G (G.pools s)) (liveSlots L) lows rights lefts r upR upL c') :
    MovesSafely G (liveSlots L) r.moves := by
  obtain ⟨hE, hlow, hup, -⟩ := splitMoves_spec hz h hlt hshape
  have hfit' := fits_append.mpr ⟨_, hlow, hup⟩
  rw [← hshape.slots] at hfit'
  have hnd := hshape.slots_nodup h.layout.nodup
  have hsafe := hshape.safe h.fits
  refine ⟨fun before after heq i hi hni k hk => ?_, fun x hx => (hshape.entry hx).2.2.2⟩
  -- the part of the plan that has been run has written to its own slots only
  have hndb : (before.map (·.slot)).Nodup := by
    rw [heq, List.map_append] at hnd
    exact (List.nodup_append.mp hnd).1
  rw [(execMoves_moved G hndb).mem]
  refine run_other (fun y hy => ?_) _
  obtain ⟨x, hx, rfl⟩ := List.mem_map.mp hy
  have hxm : x ∈ r.moves := heq ▸ List.mem_append_left _ hx
  have hxe := hshape.entry hxm
  suffices hap : Apart x.dst x.size (G.objects i).block (G.objects i).blockSize by
    rw [Apart] at hap
    simp only [moveOf]
    omega
  by_cases hm : i ∈ r.moves.map (·.slot)
  · -- still to be moved: the plan is safe
    rw [heq, List.map_append, List.mem_append] at hm
    obtain ⟨y, hy, rfl⟩ := List.mem_map.mp (hm.resolve_left hni)
    rw [heq, List.map_append, Safe, List.pairwise_append] at hsafe
    have hap := (hsafe.2.2 _ (List.mem_map_of_mem hx) _ (List.mem_map_of_mem hy)).1
    have hys : y.size = (G.objects y.slot).blockSize :=
      (hshape.entry (heq ▸ List.mem_append_right _ hy)).2.1
    simp only [moveOf, hys] at hap
    exact hap
  · -- it stays where it is: the blocks stand in a row afterwards
    have hne : x.slot ≠ i := fun he => hm (he ▸ List.mem_map_of_mem (f := (·.slot)) hxm)
    have hap := apart_of_pairwise hfit'.pairwise hxe.1 hi hne
    rw [(hE.block x hxm).1, hE.other i hm, (hE.kept x.slot).blockSize, ← hxe.2.1] at hap
    exact hap

/-- What the rebuild of `split` leaves: both pools represent the packed row of their half of
the slots. -/
structure SplitRebuilt (G F : GlobalState) (s nid n : ℕ) (l lows ups : List ℕ) : Prop where
  low : PoolInv F s (packed F.objects (splitBoundary G s n) (poolStart G (G.pools s)) lows)
  up : PoolInv F nid (packed F.objects (poolEnd G (G.pools s)) (splitBoundary G s n) ups)
  relocated : Relocated G F l
  poolId : ∀ i ∈ l, (F.objects i).poolId = if i ∈ ups then nid else s
  mem : ∀ z, ¬ InWindow G s z → F.mem z = G.mem z
  windows : SplitWindows G F s nid n
  zone : SameZone G F
  slots : F.freeSlotHead = G.freeSlotHead ∧ F.liveObjectCount = G.liveObjectCount
  packedLow : PackedFrom G.objects F.objects (poolStart G (G.pools s)) lows
  packedUp : PackedFrom G.objects F.objects (splitBoundary G s n) ups
  laidOut : LaidOut F s l ∧ LaidOut F nid l
  epoch : ∀ i ∈ l, (F.objects i).addressEpoch =
    if (G.objects i).pinned then (G.objects i).addressEpoch
    else bumpEpoch (G.objects i).addressEpoch

omit [PmConfig] in
/-- The moves of a split change the epoch of every block but the pinned ones. -/
lemma splitMoves_epoch (hnd : (liveSlots L).Nodup)
    {lows rights lefts : List ℕ} {r : SplitPlan} {upR upL : List MovePlanEntry} {c' : ℕ}
    (hshape : SplitShape G.objects (poolStart G (G.pools s)) (splitBoundary G s n)
      (poolEnd G (G.pools s)) (liveSlots L) lows rights lefts r upR upL c')
    (hlow : r.low = packMovable G.objects lows (poolStart G (G.pools s)))
    (hup : r.up = packMovable G.objects (rights ++ lefts) (splitBoundary G s n))
    {i : ℕ} (hi : i ∈ lows ++ (rights ++ lefts)) :
    ((execMoves G r.moves).objects i).addressEpoch =
      if (G.objects i).pinned then (G.objects i).addressEpoch
      else bumpEpoch (G.objects i).addressEpoch := by
  cases hpin : (G.objects i).pinned with
  | true =>
      rw [if_pos rfl, (execMoves_moved G (hshape.slots_nodup hnd)).other i]
      intro hm
      obtain ⟨x, hx, rfl⟩ := List.mem_map.mp hm
      rw [(hshape.entry hx).2.2.2] at hpin
      cases hpin
  | false =>
      -- a block that stays where it is has an entry as well
      have hentry : ∃ x ∈ r.moves, x.slot = i := by
        rcases List.mem_append.mp hi with hil | hiu
        · obtain ⟨x, hx, hxi⟩ := List.mem_map.mp
            (mem_packMovable (c := poolStart G (G.pools s)) hil hpin)
          rw [← hlow] at hx
          exact ⟨x, hshape.mem_moves.mpr (Or.inr (Or.inr hx)), hxi⟩
        · obtain ⟨x, hx, hxi⟩ := List.mem_map.mp
            (mem_packMovable (c := splitBoundary G s n) hiu hpin)
          rw [← hup, hshape.upPlan, List.mem_append] at hx
          exact ⟨x, hshape.mem_moves.mpr (by tauto), hxi⟩
      obtain ⟨x, hx, rfl⟩ := hentry
      rw [execMoves, execMove_step.foldl_self (hshape.slots_nodup hnd) hx G]
      rfl

/-- The rebuild of `split` after its moves. -/
theorem splitBody_spec (hz : ZoneOk G) (h : PoolInv G s L) (hne : nid ≠ s) (hn : 0 < n)
    (hlt : n < (G.pools s).segmentCount)
    {lows rights lefts : List ℕ} {r : SplitPlan} {upR upL : List MovePlanEntry} {c' : ℕ}
    (hshape : SplitShape G.objects (poolStart G (G.pools s)) (splitBoundary G s n)
      (poolEnd G (G.pools s)) (liveSlots L) lows rights lefts r upR upL c')
    (hlowEntries : r.low = packMovable G.objects lows (poolStart G (G.pools s)))
    (hupEntries : r.up = packMovable G.objects (rights ++ lefts) (splitBoundary G s n)) :
    SplitRebuilt G (splitRebuild (execMoves G r.moves) s nid n (liveSlots L)) s nid n
      (liveSlots L) lows (rights ++ lefts) := by
  have hepoch := fun {i} => splitMoves_epoch h.layout.nodup hshape hlowEntries hupEntries (i := i)
  obtain ⟨hE, hlow, hup, hobj⟩ := splitMoves_spec hz h hlt hshape
  generalize execMoves G r.moves = E at *
  have hslots := hshape.slots
  generalize hups : rights ++ lefts = ups at *
  have hnd : (lows ++ ups).Nodup := hslots ▸ h.layout.nodup
  -- the moves leave the window and the boundary where they are
  have hbE : splitBoundary E s n = splitBoundary G s n := by
    rw [splitBoundary, splitBoundary, segBase, segBase, hE.pools, hE.zone.zone,
      hE.zone.segmentSize]
  have hsE : poolStart E (E.pools s) = poolStart G (G.pools s) :=
    hE.zone.poolStart (by rw [hE.pools])
  have heE : poolEnd E (E.pools s) = poolEnd G (G.pools s) := by
    rw [poolEnd, poolEnd, segBase, segBase, hE.pools, hE.zone.zone, hE.zone.segmentSize]
  have hlen : (lows ++ ups).length < pmMaxObjects + 1 := by
    rw [← hslots]
    exact Nat.lt_succ_of_le h.layout.length_le
  have hmax := PmConfig.maxObjects_lt
  have hseg := hz.count
  have hsegs := PmConfig.maxSegments_le
  have hle := h.segLe
  have hltE : n < (E.pools s).segmentCount := by rw [hE.pools]; exact hlt
  have hlowE : Fits E.objects (splitBoundary E s n) (poolStart E (E.pools s)) lows := by
    rw [hbE, hsE]
    exact hlow
  have hupE : Fits E.objects (poolEnd E (E.pools s)) (splitBoundary E s n) ups := by
    rw [hbE, heE]
    exact hup
  rw [hslots] at hobj
  have hmin := PmConfig.minBlock_ge
  -- the rebuild is two layouts of the new entries
  obtain ⟨hR₁, hR₂⟩ := splitEntries_rebuildable (E := E) hne hn hltE
    (by rw [hE.pools, hE.zone.segmentCount]; exact hle) hlowE hupE hnd hobj
  have hFeq := @splitRebuild_eq _ _ nid _ _ _ _ (by rw [hE.pools]; omega) hltE hlowE hupE
    (fun i hi => ⟨(hobj i hi).2.address, hmin.trans (hobj i hi).1.2.1⟩)
    (by rw [hE.pools, h.live, hslots]) (by omega)
  have hMz : SameZone E (splitEntries E s nid n lows ups) := ⟨rfl, rfl, rfl, rfl, rfl⟩
  obtain ⟨hP₁, hP₂, hlaid₁, hlaid₂, hframe⟩ :=
    finalizeLayout_pair ((hz.of_same hE.zone).of_same hMz) hne hR₁ hR₂
  obtain ⟨hMs, hMn, hMo⟩ := splitEntries_pools (E := E) (n := n) hne
  have hMf : (splitEntries E s nid n lows ups).freeSlotHead = E.freeSlotHead
      ∧ (splitEntries E s nid n lows ups).liveObjectCount = E.liveObjectCount := ⟨rfl, rfl⟩
  have hMobj : (splitEntries E s nid n lows ups).objects = splitObjects E.objects nid lows ups :=
    rfl
  have hMmem : (splitEntries E s nid n lows ups).mem = E.mem := rfl
  rw [hslots, hFeq]
  generalize splitEntries E s nid n lows ups = M at *
  rw [hbE, hsE, heE] at *
  have hF := finalizeLayout_pair_frame M s nid (poolStart G (G.pools s)) (splitBoundary G s n)
    (poolEnd G (G.pools s)) (lows ++ ups)
  have hFobj := hF.objects.trans hMobj
  generalize finalizeLayout (finalizeLayout M s (poolStart G (G.pools s))
      (splitBoundary G s n) (lows ++ ups)) nid (splitBoundary G s n) (poolEnd G (G.pools s))
      (lows ++ ups) = F at *
  rw [hMobj] at hP₁ hP₂ hframe
  rw [hMmem] at hframe
  -- no descriptor has another block than behind the moves
  have hre : ∀ i, Rehomed (E.objects i) (splitObjects E.objects nid lows ups i) :=
    splitObjects_rehomed
  have hblock : ∀ i, (splitObjects E.objects nid lows ups i).block = (E.objects i).block :=
    fun i => congrArg (· - 8) (hre i).address
  have hkept : ∀ i, Kept (G.objects i) (splitObjects E.objects nid lows ups i) :=
    fun i => (hE.kept i).trans (hre i).kept
  have hlow' : Fits (splitObjects E.objects nid lows ups) (splitBoundary G s n)
      (poolStart G (G.pools s)) lows :=
    hlow.congr fun i _ => ⟨hblock i, (hre i).kept.blockSize⟩
  have hup' : Fits (splitObjects E.objects nid lows ups) (poolEnd G (G.pools s))
      (splitBoundary G s n) ups :=
    hup.congr fun i _ => ⟨hblock i, (hre i).kept.blockSize⟩
  have hfit' := fits_append.mpr ⟨_, hlow', hup'⟩
  have hfit := h.fits
  rw [hslots] at hfit
  have hself : ∀ i ∈ lows ++ ups, DescOk (G.objects i) s (G.objects i).block
      (G.objects i).blockSize := fun i hi => h.desc_self (hslots ▸ hi)
  have hmoves : ∀ x ∈ r.moves, x.slot ∈ lows ++ ups ∧ x.size = (G.objects x.slot).blockSize
      ∧ (G.objects x.slot).pinned = false :=
    fun x hx => ⟨hslots ▸ (hshape.entry hx).1, (hshape.entry hx).2.1, (hshape.entry hx).2.2.2⟩
  have hbody : ∀ i ∈ lows ++ ups, ∀ k, 8 ≤ k → k < (E.objects i).blockSize →
      F.mem ((E.objects i).block + k) = E.mem ((E.objects i).block + k) := by
    intro i hi k hlo hhi
    have hno := pair_body hlow' hup' hP₁.layout.pieces hP₂.layout.pieces hi hlo
      (by rw [(hre i).kept.blockSize]; exact hhi)
    rw [hblock] at hno
    exact hframe _ hno.1 hno.2
  have hblockMove : ∀ x ∈ r.moves, (F.objects x.slot).block = x.dst := fun x hx => by
    rw [hFobj, hblock]
    exact (hE.block x hx).1
  have hblockPin : ∀ i ∈ lows ++ ups, (G.objects i).pinned = true →
      (F.objects i).block = (G.objects i).block := by
    intro i hi hpin
    rw [hFobj, hblock, hE.other i]
    intro hm
    obtain ⟨x, hx, rfl⟩ := List.mem_map.mp hm
    rw [(hmoves x hx).2.2] at hpin
    cases hpin
  refine ⟨by rw [hFobj]; exact hP₁, by rw [hFobj]; exact hP₂, ?_, fun i hi => ?_, fun z hz' => ?_,
    ⟨?_, ?_, ?_, ?_, fun q hqs hqn => ?_⟩, (hE.zone.trans hMz).trans hF.zone,
    ⟨hF.slots.1.trans (hMf.1.trans hE.slots.1), hF.slots.2.trans (hMf.2.trans hE.slots.2)⟩,
    packedFrom_of_packMovable (fun x hx => hblockMove x ?_)
      fun i hi => hblockPin i (List.mem_append_left _ hi),
    packedFrom_of_packMovable (fun x hx => hblockMove x ?_)
      fun i hi => hblockPin i (List.mem_append_right _ hi), ⟨hlaid₁, hlaid₂⟩, fun i hi => ?_⟩
  · -- every payload has been moved with its block
    refine relocated_of_plan (hshape.safe h.fits)
      (fun x hx => ⟨hblockMove x hx, (hmoves x hx).1, (hmoves x hx).2.1⟩) (fun x hx hp => ?_)
      (fun i _ hi => ?_) hfit (by rw [hFobj]; exact hfit') (fun i _ => by rw [hFobj]; exact hkept i)
      (fun i hi => ⟨(hself i hi).address, ?_⟩)
      (fun i hi => (hself i hi).sizeLe) (fun i hi k hk => ?_)
      fun i hi => ?_
    · rw [(hmoves x hx).2.2] at hp
      cases hp
    · rw [hFobj, hblock, hE.other i hi]
    · rw [hFobj, (hre i).address, hblock]
      exact (hobj i hi).2.address
    · have hs := (hself i hi).sizeLe
      have hbs := (hE.kept i).blockSize
      rw [hFobj, hblock, ← hE.mem, Nat.add_assoc]
      exact hbody i hi _ (by omega) (by omega)
    · rw [List.mem_append, not_or] at hi
      rw [hFobj, splitObjects_other hi.1 hi.2]
      refine hE.other i fun hm => ?_
      obtain ⟨x, hx, rfl⟩ := List.mem_map.mp hm
      exact (List.mem_append.mp (hmoves x hx).1).elim hi.1 hi.2
  · rw [hFobj, splitObjects_poolId, (hobj i hi).2.pool]
  · -- neither a move nor a header lies outside the window
    have hout : ¬ (poolStart G (G.pools s) ≤ z ∧ z < poolEnd G (G.pools s)) := hz'
    have hin := fun hm => hout
      (pair_meta_bounds hlow' hup' hP₁.layout.pieces hP₂.layout.pieces (x := z) hm)
    rw [hframe z (fun hm => hin (Or.inl hm)) fun hm => hin (Or.inr hm), hE.mem]
    refine run_other (fun y hy => ?_) _
    obtain ⟨x, hx, rfl⟩ := List.mem_map.mp hy
    have hb := hfit'.bounds (hmoves x hx).1
    have hbs := (hkept x.slot).blockSize
    have hsz := (hmoves x hx).2.1
    rw [hblock, (hE.block x hx).1] at hb
    simp only [moveOf]
    omega
  · rw [(hF.segments s).1, hMs, hE.pools]
  · rw [(hF.segments s).2, hMs, hE.pools]
  · rw [(hF.segments nid).1, hMn, hE.pools]
  · rw [(hF.segments nid).2, hMn]
  · rw [hF.others q hqs hqn, hMo q hqs hqn, hE.pools]
  · rw [← hlowEntries] at hx
    exact hshape.mem_moves.mpr (Or.inr (Or.inr hx))
  · rw [← hupEntries, hshape.upPlan, List.mem_append] at hx
    rw [hshape.mem_moves]
    tauto
  · obtain ⟨a, b, hd⟩ := @splitObjects_eq E.objects nid lows ups i
    rw [hFobj, hd]
    exact hepoch hi

end Body

/-! ### The operation -/

section Operation

variable {G : GlobalState} {Ls : ℕ → List Piece} {s nid n : ℕ}

omit [PmConfig] in
/-- The planning loop refuses with `PinnedConflict` or `NoSpace` only. -/
lemma splitPlan_error {boundary stop lowC upC : ℕ} {l bars : List ℕ} {e : Status}
    (h : splitPlan G boundary stop l lowC upC bars = .error e) :
    e = .pinnedConflict ∨ e = .noSpace := by
  have hshort : ∀ b : Prop, ∀ [Decidable b],
      (Except.error (if b then .pinnedConflict else .noSpace) : Except Status SplitPlan) =
        .error e → e = .pinnedConflict ∨ e = .noSpace := by
    intro b _ heq
    cases heq
    by_cases hb : b
    · exact Or.inl (if_pos hb)
    · exact Or.inr (if_neg hb)
  induction l generalizing lowC upC bars with
  | nil => simp [splitPlan] at h
  | cons i l ih =>
      rw [splitPlan] at h
      -- a pinned block is checked against the boundary and the cursor, a movable one for room
      by_cases hpin : (G.objects i).pinned = true
      · rw [if_pos hpin] at h
        by_cases hcross : (G.objects i).block < boundary
            ∧ boundary < (G.objects i).block + (G.objects i).blockSize
        · rw [if_pos hcross] at h
          cases h
          exact Or.inl rfl
        rw [if_neg hcross] at h
        split_ifs at h
        · cases h
          exact Or.inl rfl
        · exact ih h
        · cases h
          exact Or.inl rfl
        · exact ih h
      · rw [if_neg hpin] at h
        -- which of the two cursors the block would take
        by_cases hup : boundary ≤ (G.objects i).block
            ∨ boundary < (G.objects i).block + (G.objects i).blockSize
        · rw [if_neg (by rw [decide_eq_true hup]; simp)] at h
          by_cases hroom : bars.headD stop < upC + (G.objects i).blockSize
          · rw [if_pos hroom] at h
            cases h
            cases bars.isEmpty
            · exact Or.inl rfl
            · exact Or.inr rfl
          · rw [if_neg hroom] at h
            cases hx : splitPlan G boundary stop l lowC (upC + (G.objects i).blockSize) bars with
            | error e' =>
                rw [hx] at h
                exact ih (hx.trans h)
            | ok r =>
                rw [hx] at h
                cases h
        · rw [if_pos (by rw [decide_eq_false hup]; rfl)] at h
          by_cases hroom : (if decide (bars.headD boundary < boundary) = true then
              bars.headD boundary else boundary) < lowC + (G.objects i).blockSize
          · rw [if_pos hroom] at h
            exact hshort _ h
          · rw [if_neg hroom] at h
            cases hx : splitPlan G boundary stop l (lowC + (G.objects i).blockSize) upC bars with
            | error e' =>
                rw [hx] at h
                exact ih (hx.trans h)
            | ok r =>
                rw [hx] at h
                cases h

/-- What `split` demands of its arguments and of the pool table. -/
structure SplitReady (G : GlobalState) (s n nid : ℕ) : Prop where
  source : Active G s
  idle : (G.pools s).borrowCount = 0
  pos : 0 < n
  lt : n < (G.pools s).segmentCount
  entry : firstEmptyPool G = some nid

lemma SplitReady.ne (h : SplitReady G s n nid) : nid ≠ s := by
  rintro rfl
  exact h.source.2 (firstEmptyPool_some h.entry).2.1

/-- The state behind the arming block of `split`. -/
def splitArmed (G : GlobalState) (s nid : ℕ) : GlobalState :=
  (G.setPool s { G.pools s with state := .splitting }).setPool nid
    { G.pools nid with state := .splitting }

omit [PmConfig] in
lemma splitArmed_pools (hne : nid ≠ s) (q : ℕ) :
    (splitArmed G s nid).pools q =
      if q = s ∨ q = nid then { G.pools q with state := .splitting } else G.pools q := by
  rw [splitArmed, GlobalState.setPool_pools, GlobalState.setPool_pools]
  by_cases hqn : q = nid
  · subst hqn
    simp
  · rw [Function.update_of_ne hqn]
    by_cases hqs : q = s
    · subst hqs
      simp
    · simp [hqs, hqn]

/-- The arming block of `split` in a healthy state. -/
lemma splitArm_healthy (h : GlobalInv G Ls) :
    (∃ nid, SplitReady G s n nid ∧ splitArm G s n = (.ok, some nid, splitArmed G s nid))
      ∨ (¬ ∃ nid, SplitReady G s n nid) ∧ ∃ st, splitArm G s n = (st, none, G)
        ∧ (st = .invalidPool ∨ st = .busy ∨ st = .noSpace) := by
  rw [splitArm]
  by_cases hs : Active G s
  swap
  · rw [poolAt_eq_none.mpr hs]
    exact Or.inr ⟨fun ⟨nid, hr⟩ => hs hr.source, _, rfl, Or.inl rfl⟩
  have hmaint : poolMaintainable (G.pools s) = true := by
    rcases h.maintainable hs with hst | hst <;> simp [poolMaintainable, hst]
  rw [poolAt_eq_some.mpr ⟨hs, rfl⟩]
  dsimp only
  rw [if_neg (by simp [hmaint])]
  by_cases hb : (G.pools s).borrowCount = 0
  swap
  · rw [if_pos hb]
    exact Or.inr ⟨fun ⟨nid, hr⟩ => hb hr.idle, _, rfl, Or.inr (Or.inl rfl)⟩
  rw [if_neg (not_not.mpr hb)]
  by_cases hn : n = 0 ∨ (G.pools s).segmentCount ≤ n
  · rw [if_pos hn]
    refine Or.inr ⟨fun ⟨nid, hr⟩ => ?_, _, rfl, Or.inr (Or.inr rfl)⟩
    have := hr.pos
    have := hr.lt
    omega
  rw [if_neg hn, ← firstEmptyPool]
  cases hent : firstEmptyPool G with
  | none =>
      refine Or.inr ⟨fun ⟨nid, hr⟩ => ?_, _, rfl, Or.inr (Or.inr rfl)⟩
      rw [hr.entry] at hent
      cases hent
  | some nid =>
      have hr : SplitReady G s n nid := ⟨hs, hb, by omega, by omega, hent⟩
      refine Or.inl ⟨nid, hr, ?_⟩
      simp [splitArmed, hr.ne]

omit [PmConfig] in
/-- `fail_restore` undoes the arming block. -/
lemma splitRestore_armed (hne : nid ≠ s) (hempty : G.pools nid = Pool.zero) :
    splitRestore (splitArmed G s nid) s nid (G.pools s).state = G := by
  have hpools : (splitRestore (splitArmed G s nid) s nid (G.pools s).state).pools = G.pools := by
    funext q
    rw [splitRestore, GlobalState.setPool_pools, GlobalState.setPool_pools]
    by_cases hqn : q = nid
    · subst hqn
      rw [Function.update_self, hempty]
    · rw [Function.update_of_ne hqn]
      by_cases hqs : q = s
      · subst hqs
        rw [Function.update_self, splitArmed_pools hne, if_pos (Or.inl rfl)]
      · rw [Function.update_of_ne hqs, splitArmed_pools hne, if_neg (by tauto)]
  exact GlobalState.ext rfl rfl rfl rfl hpools rfl rfl rfl rfl rfl rfl rfl rfl rfl rfl

omit [PmConfig] in
/-- The commit of `split`. -/
lemma splitCommit_pools (F : GlobalState) (hne : nid ≠ s) :
    (∀ q, SameShape (F.pools q) ((splitCommit F s nid).pools q))
      ∧ ((splitCommit F s nid).pools s).state = .running
      ∧ ((splitCommit F s nid).pools nid).state = .running
      ∧ ∀ q, q ≠ s → q ≠ nid → (splitCommit F s nid).pools q = F.pools q := by
  simp only [splitCommit, GlobalState.setPool_pools]
  refine ⟨fun q => ?_, ?_, ?_, fun q hqs hqn => ?_⟩
  · by_cases hqn : q = nid
    · subst hqn
      rw [Function.update_self, Function.update_of_ne hne]
      exact ⟨rfl, rfl, rfl, rfl, rfl, rfl, rfl, rfl⟩
    · rw [Function.update_of_ne hqn]
      by_cases hqs : q = s
      · subst hqs
        rw [Function.update_self]
        exact ⟨rfl, rfl, rfl, rfl, rfl, rfl, rfl, rfl⟩
      · rw [Function.update_of_ne hqs]
        exact SameShape.refl _
  · rw [Function.update_of_ne hne.symm, Function.update_self]
  · rw [Function.update_self]
  · rw [Function.update_of_ne hqn, Function.update_of_ne hqs]

/-- What a successful `split` has done: `L₁` is what stays, `L₂` the new pool. -/
structure Splitted (G G' : GlobalState) (s nid n : ℕ) (L L₁ L₂ : List Piece) : Prop where
  slots : liveSlots L = liveSlots L₁ ++ liveSlots L₂
  low : ∀ i ∈ liveSlots L₁, (G.objects i).block + (G.objects i).blockSize ≤ splitBoundary G s n
  up : ∀ i ∈ liveSlots L₂, splitBoundary G s n < (G.objects i).block + (G.objects i).blockSize
  lowGe : NoUndersized L₁
  upGe : NoUndersized L₂
  relocated : Relocated G G' (liveSlots L)
  poolId : ∀ i ∈ liveSlots L, (G'.objects i).poolId = if i ∈ liveSlots L₂ then nid else s
  mem : ∀ z, ¬ InWindow G s z → G'.mem z = G.mem z
  windows : SplitWindows G G' s nid n
  running : (G'.pools s).state = .running ∧ (G'.pools nid).state = .running

/-- The run of a `split` whose plan goes through. -/
structure SplitRun (G G' : GlobalState) (s nid n : ℕ) (L : List Piece) (plan : SplitPlan) :
    Prop where
  audit : splitAudit (splitArmed G s nid) s n = .ok (liveSlots L, plan)
  safely : MovesSafely (splitArmed G s nid) (liveSlots L) plan.moves
  commit : G' = splitCommit (splitRebuild (execMoves (splitArmed G s nid) plan.moves) s nid n
    (liveSlots L)) s nid

omit [PmConfig] in
/-- The arming block changes states only. -/
lemma splitArmed_shape (hne : nid ≠ s) (q : ℕ) :
    SameShape (G.pools q) ((splitArmed G s nid).pools q) := by
  rw [splitArmed_pools hne]
  split_ifs
  · exact ⟨rfl, rfl, rfl, rfl, rfl, rfl, rfl, rfl⟩
  · exact SameShape.refl _

omit [PmConfig] in
lemma splitArmed_geometry (hne : nid ≠ s) :
    splitBoundary (splitArmed G s nid) s n = splitBoundary G s n
      ∧ (∀ z, InWindow (splitArmed G s nid) s z ↔ InWindow G s z) := by
  have hshape := splitArmed_shape (G := G) hne s
  refine ⟨?_, fun z => ?_⟩
  · rw [splitBoundary, splitBoundary, hshape.segmentFirst, hshape.segmentCount]
    rfl
  · rw [InWindow, InWindow, poolStart, poolStart, poolEnd, poolEnd, hshape.segmentFirst,
      hshape.segmentCount]
    rfl

lemma PoolInv.splitArmed {q : ℕ} {L : List Piece} (hne : nid ≠ s) (h : PoolInv G q L) :
    PoolInv (PondMerge.splitArmed G s nid) q L :=
  h.congr ⟨rfl, rfl, rfl, rfl, rfl⟩ (splitArmed_shape hne q) (fun _ _ => SameBlock.refl _)
    fun _ _ => rfl

/-- The commit of a rebuilt split: the two pools take the place of the old one. -/
lemma splitCommit_inv (h : GlobalInv G Ls) (hr : SplitReady G s n nid) {F : GlobalState}
    {L₁ L₂ : List Piece} (hP₁ : PoolInv F s L₁) (hP₂ : PoolInv F nid L₂)
    (hslots : liveSlots (Ls s) = liveSlots L₁ ++ liveSlots L₂)
    (hrel : Relocated G F (liveSlots (Ls s)))
    (hmem : ∀ z, ¬ InWindow G s z → F.mem z = G.mem z) (hwin : SplitWindows G F s nid n)
    (hz : SameZone G F)
    (hslot : F.freeSlotHead = G.freeSlotHead ∧ F.liveObjectCount = G.liveObjectCount) :
    GlobalInv (splitCommit F s nid) (Function.update (Function.update Ls s L₁) nid L₂) := by
  have hne := hr.ne
  obtain ⟨hnlt, hnempty, -⟩ := firstEmptyPool_some hr.entry
  obtain ⟨hCshape, hCs, hCn, hCo⟩ := splitCommit_pools F hne
  have hCz : SameZone F (splitCommit F s nid) := ⟨rfl, rfl, rfl, rfl, rfl⟩
  have hCobj : (splitCommit F s nid).objects = F.objects := rfl
  have hCmem : (splitCommit F s nid).mem = F.mem := rfl
  have hCf : (splitCommit F s nid).freeSlotHead = F.freeSlotHead
      ∧ (splitCommit F s nid).liveObjectCount = F.liveObjectCount := ⟨rfl, rfl⟩
  generalize splitCommit F s nid = C at *
  have hothers : ∀ q, q ≠ s → q ≠ nid → C.pools q = G.pools q := fun q hqs hqn =>
    (hCo q hqs hqn).trans (hwin.others q hqs hqn)
  have hcongr : ∀ {q : ℕ} {L : List Piece}, PoolInv F q L → PoolInv C q L := fun {q L} hq =>
    hq.congr hCz (hCshape q) (fun i _ => by rw [hCobj]; exact SameBlock.refl _)
      fun z _ => by rw [hCmem]
  have hstates : ∀ i, (C.objects i).state = (G.objects i).state
      ∧ (C.objects i).nextFreeSlot = (G.objects i).nextFreeSlot := by
    intro i
    rw [hCobj]
    by_cases hi : i ∈ liveSlots (Ls s)
    · exact ⟨(hrel.kept i hi).state, (hrel.kept i hi).nextFreeSlot⟩
    · rw [hrel.other i hi]
      exact ⟨rfl, rfl⟩
  have hacts : Active C s := ⟨hr.source.1, by rw [hCs]; simp⟩
  have hactn : Active C nid := ⟨hnlt, by rw [hCn]; simp⟩
  have hactq : ∀ q, q ≠ s → q ≠ nid → (Active C q ↔ Active G q) := by
    intro q hqs hqn
    rw [Active, Active, hothers q hqs hqn]
  have hnid : ∀ q, Active G q → q ≠ nid := by
    rintro q hq rfl
    exact hq.2 hnempty
  -- both windows lie in the old one
  have hsub : ∀ q, q = s ∨ q = nid → (G.pools s).segmentFirst ≤ (C.pools q).segmentFirst
      ∧ (C.pools q).segmentFirst + (C.pools q).segmentCount
        ≤ (G.pools s).segmentFirst + (G.pools s).segmentCount := by
    have hlt := hr.lt
    rintro q (rfl | rfl)
    · rw [(hCshape q).segmentFirst, (hCshape q).segmentCount, hwin.first, hwin.count]
      omega
    · rw [(hCshape q).segmentFirst, (hCshape q).segmentCount, hwin.newFirst, hwin.newCount]
      omega
  have hhalves : SegmentsApart (C.pools s) (C.pools nid) := by
    rw [SegmentsApart, (hCshape s).segmentFirst, (hCshape s).segmentCount,
      (hCshape nid).segmentFirst, hwin.first, hwin.count, hwin.newFirst]
    omega
  refine h.replace (A := fun q => q = s ∨ q = nid) (hz.trans hCz)
    (fun q hq => hothers q (fun e => hq (Or.inl e)) fun e => hq (Or.inr e)) (fun q hq => ?_)
    (fun q hq => ?_) (fun q hq hqa => ?_) (fun q r hq hqa hra hqr => ?_)
    (fun q hq hqa i hi => ?_) (fun q hq hqa z hz' => ?_) (fun i hi hl => ?_) (fun i hi => ?_) ?_
  · rw [Function.update_of_ne fun e => hq (Or.inr e), Function.update_of_ne fun e => hq (Or.inl e)]
  · rcases hq with rfl | rfl
    · exact Or.inr (Or.inl hCs)
    · exact Or.inr (Or.inl hCn)
  · rcases hq with rfl | rfl
    · rw [Function.update_of_ne hne.symm, Function.update_self]
      exact hcongr hP₁
    · rw [Function.update_self]
      exact hcongr hP₂
  · by_cases hr' : r = s ∨ r = nid
    · rcases hq with rfl | rfl <;> rcases hr' with rfl | rfl
      · exact absurd rfl hqr
      · exact hhalves
      · exact hhalves.symm
      · exact absurd rfl hqr
    · rw [not_or] at hr'
      have hrG := (hactq r hr'.1 hr'.2).mp hra
      have hap := h.apart s r hr.source hrG (Ne.symm hr'.1)
      have hs := hsub q hq
      rw [hothers r hr'.1 hr'.2, SegmentsApart] at *
      omega
  · rw [hCobj, hrel.other i fun hm => hq (Or.inl (h.slots_apart hqa hr.source hi hm))]
    exact SameBlock.refl _
  · rw [hCmem]
    exact hmem z (h.window_apart hqa hr.source (fun e => hq (Or.inl e)) hz')
  · by_cases hm : i ∈ liveSlots (Ls s)
    · rw [hslots, List.mem_append] at hm
      rcases hm with hm | hm
      · exact ⟨s, hacts, by rwa [Function.update_of_ne hne.symm, Function.update_self]⟩
      · exact ⟨nid, hactn, by rwa [Function.update_self]⟩
    · rw [(hstates i).1] at hl
      obtain ⟨q, hq, hqm⟩ := h.owned i hi hl
      have hqs : q ≠ s := fun e => hm (e ▸ hqm)
      refine ⟨q, (hactq q hqs (hnid q hq)).mpr hq, ?_⟩
      rwa [Function.update_of_ne (hnid q hq), Function.update_of_ne hqs]
  · rw [(hstates i).1]
    exact h.idle i hi
  · exact h.slots.congr (fun i => (hstates i).1) (fun i => (hstates i).2)
      (hCf.1.trans hslot.1) (hCf.2.trans hslot.2)

/-- The layouts a successful `split` leaves: both halves are packed rows. -/
structure SplitPacked (G G' : GlobalState) (s nid n : ℕ) (l : List ℕ) (L₁ L₂ : List Piece) :
    Prop where
  low : L₁ = packed G'.objects (splitBoundary G s n) (poolStart G (G.pools s)) (liveSlots L₁)
  up : L₂ = packed G'.objects (poolEnd G (G.pools s)) (splitBoundary G s n) (liveSlots L₂)
  packedLow : PackedFrom G.objects G'.objects (poolStart G (G.pools s)) (liveSlots L₁)
  packedUp : PackedFrom G.objects G'.objects (splitBoundary G s n) (liveSlots L₂)
  laidOut : LaidOut G' s l ∧ LaidOut G' nid l
  epoch : ∀ i ∈ l, (G'.objects i).addressEpoch =
    if (G.objects i).pinned then (G.objects i).addressEpoch
    else bumpEpoch (G.objects i).addressEpoch

/-- A `split` that has armed its pools. -/
lemma split_armed {G₁ : GlobalState} (hinit : G.initialized = true)
    (harm : splitArm G s n = (.ok, some nid, G₁)) :
    split G s n =
      match splitAudit G₁ s n with
      | .error e => (e, none, splitRestore G₁ s nid (G.pools s).state)
      | .ok (slots, plan) => (.ok, some nid, splitCommit
          (splitRebuild (execMoves G₁ plan.moves) s nid n slots) s nid) := by
  rewrite [split, if_neg (by simp [hinit]), harm]
  rfl

/-- `split` behind its arming block. -/
lemma split_eq (h : GlobalInv G Ls) (hr : SplitReady G s n nid) :
    split G s n =
      match splitAudit (splitArmed G s nid) s n with
      | .error e => (e, none, splitRestore (splitArmed G s nid) s nid (G.pools s).state)
      | .ok (slots, plan) => (.ok, some nid, splitCommit
          (splitRebuild (execMoves (splitArmed G s nid) plan.moves) s nid n slots) s nid) := by
  have harm : splitArm G s n = (.ok, some nid, splitArmed G s nid) := by
    rcases splitArm_healthy (s := s) (n := n) h with ⟨nid', hr', harm⟩ | ⟨hno, -⟩
    · have heq := hr'.entry.symm.trans hr.entry
      rw [Option.some.injEq] at heq
      rw [← heq]
      exact harm
    · exact absurd ⟨nid, hr⟩ hno
  exact split_armed h.zone.init harm

/-- The audit of a healthy pool leaves it to the plan. -/
lemma splitAudit_eq (h : GlobalInv G Ls) (hr : SplitReady G s n nid) :
    splitAudit (splitArmed G s nid) s n =
      match splitPlan (splitArmed G s nid) (splitBoundary (splitArmed G s nid) s n)
        (poolEnd (splitArmed G s nid) ((splitArmed G s nid).pools s)) (liveSlots (Ls s))
        (poolStart (splitArmed G s nid) ((splitArmed G s nid).pools s))
        (splitBoundary (splitArmed G s nid) s n)
        (barriersOf (splitArmed G s nid) (liveSlots (Ls s))) with
      | .error e => .error e
      | .ok plan => .ok (liveSlots (Ls s), plan) := by
  have hz₁ := h.zone.of_same (⟨rfl, rfl, rfl, rfl, rfl⟩ : SameZone G (splitArmed G s nid))
  have hpool₁ := (h.pool s hr.source).splitArmed hr.ne
  rewrite [splitAudit, hpool₁.precheck hz₁ hpool₁.layout.length_le]
  rfl

/-- `split` of an idle pool either refuses the geometry or runs through. -/
theorem split_run (h : GlobalInv G Ls) (hr : SplitReady G s n nid) :
    (∃ st, split G s n = (st, none, G) ∧ (st = .pinnedConflict ∨ st = .noSpace))
    ∨ ∃ G' plan L₁ L₂, split G s n = (.ok, some nid, G')
      ∧ GlobalInv G' (Function.update (Function.update Ls s L₁) nid L₂)
      ∧ SplitRun G G' s nid n (Ls s) plan ∧ Splitted G G' s nid n (Ls s) L₁ L₂
      ∧ SplitPacked G G' s nid n (liveSlots (Ls s)) L₁ L₂ := by
  have hne := hr.ne
  have hAz : SameZone G (splitArmed G s nid) := ⟨rfl, rfl, rfl, rfl, rfl⟩
  have hz₁ := h.zone.of_same hAz
  have hpool₁ := (h.pool s hr.source).splitArmed hne
  have hlt₁ : n < ((splitArmed G s nid).pools s).segmentCount := by
    rw [(splitArmed_shape hne s).segmentCount]
    exact hr.lt
  obtain ⟨hb₁, hwin⟩ := splitArmed_geometry (G := G) (n := n) hne
  have haudit := splitAudit_eq h hr
  have hsplit := split_eq h hr
  obtain ⟨hsb, hbs, hbmod⟩ := splitBoundary_bounds hz₁ hlt₁
  cases hplan : splitPlan (splitArmed G s nid) (splitBoundary (splitArmed G s nid) s n)
      (poolEnd (splitArmed G s nid) ((splitArmed G s nid).pools s)) (liveSlots (Ls s))
      (poolStart (splitArmed G s nid) ((splitArmed G s nid).pools s))
      (splitBoundary (splitArmed G s nid) s n)
      (barriersOf (splitArmed G s nid) (liveSlots (Ls s))) with
  -- the plan runs out of room or meets a pinned block: nothing has been moved yet
  | error e =>
      refine Or.inl ⟨e, ?_, splitPlan_error hplan⟩
      rw [hsplit, haudit, hplan]
      dsimp only
      obtain ⟨hnlt, hnempty, -⟩ := firstEmptyPool_some hr.entry
      rw [splitRestore_armed hr.ne (h.empty nid hnlt hnempty)]
  | ok plan =>
      -- the plan packs the objects below the boundary, and those above it from both ends
      obtain ⟨lows, rights, lefts, upR, upL, c', hshape⟩ := splitPlan_spec hpool₁.fits le_rfl
        (PoolInv.start_mod hz₁) rfl hbmod hbs (fun i hi => hpool₁.blockOk hz₁ hi) hplan
      obtain ⟨hlowE, hupE⟩ := splitPlan_entries hplan
      obtain ⟨hups, hlows⟩ := hshape.filter_upper fun i hi =>
        PmConfig.minBlock_ge.trans (hpool₁.blockOk hz₁ hi).2.1
      rw [hlows] at hlowE
      rw [hups] at hupE
      have hF := splitBody_spec hz₁ hpool₁ hne hr.pos hlt₁ hshape hlowE hupE
      rw [haudit, hplan] at hsplit
      have hrelG : Relocated G (splitRebuild (execMoves (splitArmed G s nid) plan.moves) s nid n
          (liveSlots (Ls s))) (liveSlots (Ls s)) := hF.relocated.congr rfl rfl rfl rfl
      have hmemG : ∀ z, ¬ InWindow G s z → (splitRebuild (execMoves (splitArmed G s nid)
          plan.moves) s nid n (liveSlots (Ls s))).mem z = G.mem z :=
        fun z hz => hF.mem z fun hin => hz ((hwin z).mp hin)
      -- the two windows of the result make up the old one
      have hwinsG : SplitWindows G (splitRebuild (execMoves (splitArmed G s nid) plan.moves) s nid
          n (liveSlots (Ls s))) s nid n := by
        have hsh := splitArmed_shape (G := G) hne s
        refine ⟨hF.windows.first.trans hsh.segmentFirst, ?_, ?_, hF.windows.newCount,
          fun q hqs hqn => ?_⟩
        · rw [hF.windows.count, hsh.segmentCount]
        · rw [hF.windows.newFirst, hsh.segmentFirst, hsh.segmentCount]
        · rw [hF.windows.others q hqs hqn, splitArmed_pools hne, if_neg (by tauto)]
      have hstart₁ : poolStart (splitArmed G s nid) ((splitArmed G s nid).pools s) =
          poolStart G (G.pools s) := hAz.poolStart (splitArmed_shape hne s).segmentFirst
      have hstop₁ : poolEnd (splitArmed G s nid) ((splitArmed G s nid).pools s) =
          poolEnd G (G.pools s) := hAz.poolEnd (splitArmed_shape hne s)
      have hlow := hF.low
      have hup := hF.up
      have hplow := hF.packedLow
      have hpup := hF.packedUp
      rw [hb₁, hstart₁] at hlow
      rw [hb₁, hstop₁] at hup
      rw [hstart₁] at hplow
      rw [hb₁] at hpup
      have hs₁ : ∀ {obj : ℕ → ObjectDesc} {a b : ℕ}, liveSlots (packed obj b a lows) = lows :=
        liveSlots_packed
      have hs₂ : ∀ {obj : ℕ → ObjectDesc} {a b : ℕ},
          liveSlots (packed obj b a (rights ++ lefts)) = rights ++ lefts := liveSlots_packed
      obtain ⟨hCshape, hCs, hCn, hCo⟩ := splitCommit_pools
        (splitRebuild (execMoves (splitArmed G s nid) plan.moves) s nid n (liveSlots (Ls s))) hne
      have hlaid : ∀ {q : ℕ} {l : List ℕ}, LaidOut (splitRebuild (execMoves (splitArmed G s nid)
          plan.moves) s nid n (liveSlots (Ls s))) q l → LaidOut (splitCommit (splitRebuild
          (execMoves (splitArmed G s nid) plan.moves) s nid n (liveSlots (Ls s))) s nid) q l :=
        fun {q l} hq => hq.congr ⟨rfl, rfl, rfl, rfl, rfl⟩ (hCshape q) rfl fun z _ => rfl
      refine Or.inr ⟨_, plan, _, _, hsplit, splitCommit_inv h hr hlow hup ?_ hrelG hmemG hwinsG
        (hAz.trans hF.zone) hF.slots, ⟨by rw [haudit, hplan],
        splitMoves_safely hz₁ hpool₁ hlt₁ hshape, rfl⟩, ⟨?_, fun i hi => ?_, fun i hi => ?_,
        fun n hn => packed_free_ge hn, fun n hn => packed_free_ge hn,
        hrelG.congr rfl rfl rfl rfl, fun i hi => ?_, hmemG, ⟨?_, ?_, ?_, ?_, fun q hqs hqn => ?_⟩,
        hCs, hCn⟩, ⟨?_, ?_, ?_, ?_, ⟨hlaid hF.laidOut.1, hlaid hF.laidOut.2⟩, hF.epoch⟩⟩
      · rw [hs₁, hs₂]
        exact hshape.slots
      · rw [hs₁, hs₂]
        exact hshape.slots
      · rw [hs₁] at hi
        rw [← hb₁]
        exact hshape.low i hi
      · rw [hs₂] at hi
        rw [← hb₁]
        exact hshape.up i hi
      · rw [hs₂]
        exact hF.poolId i hi
      · rw [(hCshape s).segmentFirst, hwinsG.first]
      · rw [(hCshape s).segmentCount, hwinsG.count]
      · rw [(hCshape nid).segmentFirst, hwinsG.newFirst]
      · rw [(hCshape nid).segmentCount, hwinsG.newCount]
      · rw [hCo q hqs hqn, hwinsG.others q hqs hqn]
      · rw [hs₁]
        rfl
      · rw [hs₂]
        rfl
      · rw [hs₁]
        exact hplow
      · rw [hs₂]
        exact hpup

/-- `split` of an idle pool either refuses the geometry or succeeds. -/
theorem split_ok (h : GlobalInv G Ls) (hr : SplitReady G s n nid) :
    (∃ st, split G s n = (st, none, G) ∧ (st = .pinnedConflict ∨ st = .noSpace))
    ∨ ∃ G' plan L₁ L₂, split G s n = (.ok, some nid, G')
      ∧ GlobalInv G' (Function.update (Function.update Ls s L₁) nid L₂)
      ∧ SplitRun G G' s nid n (Ls s) plan ∧ Splitted G G' s nid n (Ls s) L₁ L₂ := by
  refine (split_run h hr).imp id ?_
  rintro ⟨G', plan, L₁, L₂, heq, hinv, hrun, hsplit, -⟩
  exact ⟨G', plan, L₁, L₂, heq, hinv, hrun, hsplit⟩

/-- Any `split` that does not succeed changes nothing and never calls the state corrupt. -/
theorem split_refused (h : GlobalInv G Ls) (hno : ∀ nid G', split G s n ≠ (.ok, some nid, G')) :
    ∃ st, split G s n = (st, none, G) ∧ st ≠ .ok ∧ st ≠ .corruptMetadata := by
  rcases splitArm_healthy (s := s) (n := n) h with ⟨nid, hr, -⟩ | ⟨-, st, harm, hst⟩
  · rcases split_ok h hr with ⟨st, heq, hst⟩ | ⟨G', plan, L₁, L₂, heq, -⟩
    · refine ⟨st, heq, ?_⟩
      rcases hst with rfl | rfl <;> decide
    · exact absurd heq (hno nid G')
  · refine ⟨st, ?_, ?_⟩
    · rw [split, if_neg (by simp [h.zone.init]), harm]
      rcases hst with rfl | rfl | rfl <;> rfl
    · rcases hst with rfl | rfl | rfl <;> decide

lemma split_asked (h : GlobalInv G Ls) (hok : (split G s n).1 = .ok) :
    ∃ nid, SplitReady G s n nid := by
  rcases splitArm_healthy (s := s) (n := n) h with ⟨nid, hr, -⟩ | ⟨-, st, harm, hst⟩
  · exact ⟨nid, hr⟩
  · rw [split, if_neg (by simp [h.zone.init]), harm] at hok
    rcases hst with rfl | rfl | rfl <;> cases hok

/-- `split` keeps the invariant. -/
theorem split_inv (h : GlobalInv G Ls) (s n : ℕ) : ∃ Ls', GlobalInv (split G s n).2.2 Ls' := by
  by_cases hyes : ∃ nid G', split G s n = (.ok, some nid, G')
  · obtain ⟨nid, G', heq⟩ := hyes
    rcases splitArm_healthy (s := s) (n := n) h with ⟨nid', hr, -⟩ | ⟨-, st, harm, hst⟩
    · rcases split_ok h hr with ⟨st, hfail, -⟩ | ⟨F, plan, L₁, L₂, hok, hinv, -⟩
      · exact ⟨Ls, by rw [hfail]; exact h⟩
      · exact ⟨_, by rw [hok]; exact hinv⟩
    · rw [split, if_neg (by simp [h.zone.init]), harm] at heq
      rcases hst with rfl | rfl | rfl <;> cases heq
  · obtain ⟨st, heq, -⟩ := split_refused (s := s) (n := n) h fun nid G' heq => hyes ⟨nid, G', heq⟩
    exact ⟨Ls, by rw [heq]; exact h⟩

end Operation

end PondMerge
