import PondMerge.Guarantees.Preservation
import PondMerge.Operations.Admission

/-!
Isolation: a fresh allocation lies in its pool, away from every other object, and neither
`alloc` nor `free`, `create_pool` or `destroy_pool` touches another object.

* `GlobalInv.blocks_apart`: live objects of a healthy state have disjoint blocks.
* `Allocated`, `Untouched`: what a caller gets, and what every other caller keeps.
* `allocCommit_isolated`, `freeCommit_isolated`: the two mutation phases.
* `reachable_isolation`: every reachable state.
-/

namespace PondMerge

open ByteMemory Relocation Tiling

variable [PmConfig]

section Objects

variable {G G' : GlobalState} {Ls Ls' : ℕ → List Piece}

/-- Two live objects of a healthy state have disjoint blocks. -/
lemma GlobalInv.blocks_apart (h : GlobalInv G Ls) {i j : ℕ} (hi : LiveObject G i)
    (hj : LiveObject G j) (hne : i ≠ j) :
    Apart (G.objects i).block (G.objects i).blockSize (G.objects j).block
      (G.objects j).blockSize := by
  obtain ⟨x, n, hact, hx, haddr, hsize, -⟩ := h.payload hi.1 hi.2
  obtain ⟨y, k, hact', hy, haddr', hsize', -⟩ := h.payload hj.1 hj.2
  rw [ObjectDesc.block, ObjectDesc.block, haddr, haddr', hsize, hsize', Apart]
  by_cases hp : (G.objects i).poolId = (G.objects j).poolId
  · rw [← hp] at hy
    have := hx.apart hy hne
    omega
  · have hw := (h.apart _ _ hact hact' hp).window (G := G)
    have hxb := hx.bounds
    have hyb := hy.bounds
    have hxe := (h.pool _ hact).end_eq
    have hye := (h.pool _ hact').end_eq
    omega

/-- The payload of a live object holds no metadata of any pool. -/
lemma GlobalInv.payload_not_meta (h : GlobalInv G Ls) {i k q : ℕ} (hi : LiveObject G i)
    (hk : k < (G.objects i).size) (hq : Active G q) :
    ¬ MetaByte (poolStart G (G.pools q)) (Ls q) ((G.objects i).address + k) := by
  obtain ⟨x, n, hact, hx, haddr, -, hsize⟩ := h.payload hi.1 hi.2
  exact h.body_not_meta hact hq hx (by omega) (by omega)

/-- Object `i` is exactly where and what it was. -/
structure Untouched (G G' : GlobalState) (i : ℕ) : Prop where
  live : (G'.objects i).state = .live
  address : (G'.objects i).address = (G.objects i).address
  size : (G'.objects i).size = (G.objects i).size
  generation : (G'.objects i).generation = (G.objects i).generation
  poolId : (G'.objects i).poolId = (G.objects i).poolId
  payload : ∀ k < (G.objects i).size,
    G'.mem ((G'.objects i).address + k) = G.mem ((G.objects i).address + k)

lemma Untouched.refl {i : ℕ} (hi : LiveObject G i) : Untouched G G i :=
  ⟨hi.2, rfl, rfl, rfl, rfl, fun _ _ => rfl⟩

/-! ### Allocation -/

/-- The object a successful `alloc` of `size` bytes with `flags` in pool `p` returns as
`ref`. -/
structure Allocated (G' : GlobalState) (p size flags : ℕ) (ref : RawRef) : Prop where
  live : LiveObject G' ref.index
  generation : (G'.objects ref.index).generation = ref.generation
  owner : (G'.objects ref.index).poolId = p
  requested : (G'.objects ref.index).size = size
  aligned : (G'.objects ref.index).address % 8 = 0
  room : (G'.objects ref.index).address = (G'.objects ref.index).block + 8
    ∧ size + 8 ≤ (G'.objects ref.index).blockSize
  inside : poolStart G' (G'.pools p) ≤ (G'.objects ref.index).block
    ∧ (G'.objects ref.index).block + (G'.objects ref.index).blockSize ≤ poolEnd G' (G'.pools p)
  apart : ∀ j, LiveObject G' j → ref.index ≠ j →
    Apart (G'.objects ref.index).block (G'.objects ref.index).blockSize
      (G'.objects j).block (G'.objects j).blockSize
  zeroed : flags &&& pmZeroInit ≠ 0 →
    ∀ k < size, G'.mem ((G'.objects ref.index).address + k) = 0

omit [PmConfig] in
lemma allocFlags_zeroInit (flags : ℕ) : allocFlags flags &&& pmZeroInit = flags &&& pmZeroInit := by
  rw [allocFlags]
  split_ifs
  · rw [Nat.and_or_distrib_right]
    simp [pmPinned, pmZeroInit]
  · rfl

/-- The mutation phase of `alloc`: the new object, and all others. -/
theorem allocCommit_isolated (h : GlobalInv G Ls) {p size alignment flags need blk : ℕ} (tag : ℕ)
    (ha : AllocAccepted G p size alignment flags need blk) :
    let G' := allocCommit (popSlot G) p G.freeSlotHead blk need size (allocFlags flags) tag
    Allocated G' p size flags
        ⟨G.freeSlotHead, nextGeneration (G.objects G.freeSlotHead).generation, p, 0⟩
      ∧ ∀ j, LiveObject G j → j ≠ G.freeSlotHead ∧ Untouched G G' j := by
  dsimp only
  obtain ⟨L₁, n, L₂, hL, hle, rfl⟩ := ha.block (h.pool p ha.active)
  have hinv := alloc_inv h tag ha hL hle
  obtain ⟨hslt, hsfree⟩ := h.slots.head_free ha.slot
  obtain ⟨hmin, hmod, hsize, -⟩ := allocNeed_spec ha.needEq
  have hpool := h.pool p ha.active
  rw [hL] at hpool
  have hnew : G.freeSlotHead ∉ liveSlots (L₁ ++ Piece.free n :: L₂) :=
    hL ▸ h.slot_not_live ha.slot ha.active
  have hhead : ((popSlot G).pools p).orderHead ≠ G.freeSlotHead :=
    h.head_ne_slot ha.slot ha.active
  have hsame : SameZone G (popSlot G) := ⟨rfl, rfl, rfl, rfl, rfl⟩
  obtain ⟨-, hframe⟩ := allocCommit_inv (h.zone.of_same hsame) hpool.popSlot hslt hnew hmin hmod
    hle ha.sizePos hsize (allocFlags flags) tag
  have hstart : poolStart (popSlot G) ((popSlot G).pools p) = poolStart G (G.pools p) := rfl
  rw [hstart] at hframe
  generalize hblk : poolStart G (G.pools p) + total Piece.len L₁ = blk at *
  have hobj := allocCommit_objects (popSlot G) p G.freeSlotHead blk need size
    (allocFlags flags) tag hhead
  have hpools := allocCommit_pools (popSlot G) p G.freeSlotHead blk need size
    (allocFlags flags) tag
  have hmem := allocCommit_mem (popSlot G) p G.freeSlotHead blk need size (allocFlags flags) tag
  obtain ⟨hsame, -, -⟩ := allocCommit_rest (popSlot G) p G.freeSlotHead blk need size
    (allocFlags flags) tag
  generalize allocCommit (popSlot G) p G.freeSlotHead blk need size (allocFlags flags) tag = F
    at *
  rw [allocFlags_zeroInit] at hframe hmem
  have hself := hobj G.freeSlotHead
  rw [if_pos rfl] at hself
  have hFstart : poolStart F (F.pools p) = poolStart G (G.pools p) := by
    rw [hsame.poolStart (P := G.pools p) (by rw [hpools, Function.update_self]; rfl)]
    exact hstart
  have hFact : Active F p := by
    refine ⟨ha.active.1, ?_⟩
    rw [hpools, Function.update_self]
    exact ha.active.2
  have hlive : LiveObject F G.freeSlotHead := ⟨hslt, by rw [hself]; rfl⟩
  have haddr : (F.objects G.freeSlotHead).address = blk + 8 := by rw [hself]; rfl
  have howner : (F.objects G.freeSlotHead).poolId = p := by rw [hself]; rfl
  have hsz : (F.objects G.freeSlotHead).size = size := by rw [hself]; rfl
  have hgen : (F.objects G.freeSlotHead).generation =
      nextGeneration (G.objects G.freeSlotHead).generation := by rw [hself]; rfl
  have hFpool := hinv.pool p hFact
  have hmemF := (hinv.mem_liveSlots hFact G.freeSlotHead).mpr ⟨hlive, howner⟩
  have hdesc := hFpool.desc_self hmemF
  have hfits := hFpool.fits.bounds hmemF
  -- the payload is 8 bytes into a block, and blocks start at multiples of 8
  have hblkmod := (hFpool.blockOk hinv.zone hmemF).2.2.2
  refine ⟨⟨hlive, hgen, howner, hsz, ?_, ⟨hdesc.address, ?_⟩, hfits,
    fun j hj hne => hinv.blocks_apart hlive hj hne, fun hz k hk => ?_⟩, fun j hj => ?_⟩
  · change (F.objects G.freeSlotHead).address % 8 = 0
    have := hdesc.address
    omega
  · have := hdesc.sizeLe
    rwa [hsz] at this
  · dsimp only
    rw [haddr, hmem, if_pos hz]
    exact memset_apply_of_mem _ (by omega)
  · have hne : j ≠ G.freeSlotHead := by
      rintro rfl
      rw [hj.2] at hsfree
      cases hsfree
    have hjobj := hobj j
    rw [if_neg hne] at hjobj
    have hsameblock : (F.objects j).state = (G.objects j).state
        ∧ (F.objects j).address = (G.objects j).address ∧ (F.objects j).size = (G.objects j).size
        ∧ (F.objects j).generation = (G.objects j).generation
        ∧ (F.objects j).poolId = (G.objects j).poolId
        ∧ (F.objects j).blockSize = (G.objects j).blockSize := by
      rw [hjobj]
      split_ifs <;> exact ⟨rfl, rfl, rfl, rfl, rfl, rfl⟩
    obtain ⟨hst, had, hjs, hjg, hjp, hjb⟩ := hsameblock
    have hjlive : LiveObject F j := ⟨hj.1, hst.trans hj.2⟩
    refine ⟨hne, hst.trans hj.2, had, hjs, hjg, hjp, fun k hk => ?_⟩
    rw [had]
    refine hframe _ ?_ ?_ fun _ hin => ?_
    · have := h.payload_not_meta hj hk ha.active
      rwa [hL] at this
    · have := hinv.payload_not_meta hjlive (k := k) (by omega) hFact
      rwa [hFstart, Function.update_self, had] at this
    · -- the zeroed bytes lie in the new block
      have hap := hinv.blocks_apart hlive hjlive hne.symm
      obtain ⟨x, m, -, -, hjaddr, hjsize, hjle⟩ := h.payload hj.1 hj.2
      have hnb := hdesc.sizeLe
      rw [Apart, ObjectDesc.block, ObjectDesc.block, haddr, had, hjb] at hap
      rw [hsz] at hnb
      omega

/-! ### Release -/

/-- The mutation phase of `free` without callback touches no other object. -/
theorem freeCommit_isolated (h : GlobalInv G Ls) {i : ℕ} (hi : LiveObject G i) {j : ℕ}
    (hj : LiveObject G j) (hne : j ≠ i) :
    Untouched G (freeCommit G (G.objects i).poolId i (G.objects i).block
      (poolEnd G (G.pools (G.objects i).poolId))) j := by
  obtain ⟨L', hinv, -, hframe, -⟩ := freeCommit_global h hi.1 hi.2
  obtain ⟨hact, hmi⟩ := h.owner hi.1 hi.2
  obtain ⟨hprev, hnext⟩ := (h.pool _ hact).order.links_ne hmi
  have hobj := freeCommit_objects G (G.objects i).poolId i (G.objects i).block
    (poolEnd G (G.pools (G.objects i).poolId)) hprev hnext (slot_ne_noOrder hj.1)
  rw [if_neg hne] at hobj
  have hpools := freeCommit_pools G (G.objects i).poolId i (G.objects i).block
    (poolEnd G (G.pools (G.objects i).poolId))
  obtain ⟨hsame, -, -⟩ := freeCommit_rest G (G.objects i).poolId i (G.objects i).block
    (poolEnd G (G.pools (G.objects i).poolId))
  generalize hF : freeCommit G (G.objects i).poolId i (G.objects i).block
    (poolEnd G (G.pools (G.objects i).poolId)) = F at *
  have hFstart : poolStart F (F.pools (G.objects i).poolId) =
      poolStart G (G.pools (G.objects i).poolId) :=
    hsame.poolStart (by rw [hpools, Function.update_self])
  have hFact : Active F (G.objects i).poolId := by
    refine ⟨hact.1, ?_⟩
    rw [hpools, Function.update_self]
    exact hact.2
  have hst : (F.objects j).state = (G.objects j).state := by rw [hobj]
  have had : (F.objects j).address = (G.objects j).address := by rw [hobj]
  have hjs : (F.objects j).size = (G.objects j).size := by rw [hobj]
  refine ⟨hst.trans hj.2, had, hjs, by rw [hobj], by rw [hobj], fun k hk => ?_⟩
  rw [had]
  refine hframe _ (h.payload_not_meta hj hk hact) ?_
  have := hinv.payload_not_meta (i := j) ⟨hj.1, hst.trans hj.2⟩ (k := k) (by omega) hFact
  rwa [hFstart, Function.update_self, had] at this

end Objects

/-! ### Every reachable state -/

/-- In every reachable state a successful `alloc` returns an isolated object, and `alloc`,
`free` without callback, `create_pool` and `destroy_pool` leave every other object untouched,
whatever they answer. -/
theorem reachable_isolation {G : GlobalState} (h : Reachable G) :
    (∀ p size alignment flags tag ref G', alloc G p size alignment flags tag = (.ok, ref, G') →
      Allocated G' p size flags ref ∧ ∀ j, LiveObject G j → j ≠ ref.index)
    ∧ ∀ j, LiveObject G j →
      (∀ p size alignment flags tag,
        Untouched G (alloc G p size alignment flags tag).2.2 j)
      ∧ (∀ ref ws, (G.objects ref.index).destroyFn = none → j ≠ ref.index →
        Untouched G (free (writingCallback ws) G ref).2 j)
      ∧ (∀ ref ws, (free (writingCallback ws) G ref).1 ≠ .ok →
        Untouched G (free (writingCallback ws) G ref).2 j)
      ∧ (∀ n, Untouched G (createPool G n).2.2 j)
      ∧ ∀ p, Untouched G (destroyPool G p).2 j := by
  obtain ⟨Ls, hinv⟩ := h.healthy
  refine ⟨fun p size alignment flags tag ref G' hok => ?_, fun j hj =>
    ⟨fun p size alignment flags tag => ?_, fun ref ws hfn hne => ?_, fun ref ws hst => ?_,
      fun n => ?_, fun p => ?_⟩⟩
  · rcases alloc_cases G p size alignment flags tag with ⟨st, hst, heq⟩ | ⟨need, blk, ha, heq⟩
    · rw [heq, Prod.mk.injEq] at hok
      exact absurd hok.1 hst
    · rw [heq, Prod.mk.injEq, Prod.mk.injEq] at hok
      obtain ⟨-, rfl, rfl⟩ := hok
      obtain ⟨halloc, hothers⟩ := allocCommit_isolated hinv tag ha
      exact ⟨halloc, fun j hj => (hothers j hj).1⟩
  · rcases alloc_cases G p size alignment flags tag with ⟨st, hst, heq⟩ | ⟨need, blk, ha, heq⟩
    · rw [heq]
      exact Untouched.refl hj
    · rw [heq]
      exact ((allocCommit_isolated hinv tag ha).2 j hj).2
  · rcases free_cases hinv ref ws with ⟨st, -, -, heq⟩ | ⟨hok, -, heq⟩
    · rw [heq]
      exact Untouched.refl hj
    · -- without a callback the state before the commit is the old one
      have hafter : afterCallback G ref.index ws = G := by rw [afterCallback, hfn]
      rw [heq, hafter]
      exact freeCommit_isolated hinv ⟨hok.index, hok.live⟩ hj hne
  · rcases free_cases hinv ref ws with ⟨st, -, -, heq⟩ | ⟨-, -, heq⟩
    · rw [heq]
      exact Untouched.refl hj
    · rw [heq] at hst
      exact absurd rfl hst
  · rcases createPool_cases hinv n with ⟨st, -, -, heq⟩ | ⟨i, base, heq, -, -, -, -, hmem⟩
    · rw [heq]
      exact Untouched.refl hj
    · rw [heq]
      refine ⟨hj.2, rfl, rfl, rfl, rfl, fun k hk => ?_⟩
      -- a pool that exists lies apart from the new one
      obtain ⟨hact, hin⟩ := hinv.payload_inWindow hj hk
      exact hmem _ hact _ hin
  · rcases destroyPool_cases hinv p with ⟨st, -, heq⟩ | ⟨heq, -, -⟩
    · rw [heq]
      exact Untouched.refl hj
    · rw [heq]
      exact ⟨hj.2, rfl, rfl, rfl, rfl, fun _ _ => rfl⟩

omit [PmConfig] in
set_option maxRecDepth 100000 in
theorem reachable_isolation_neighbours :
    letI := defaultConfig
    Allocated (alloc neighbours 1 100 8 pmZeroInit 9).2.2 1 100 pmZeroInit
        (alloc neighbours 1 100 8 pmZeroInit 9).2.1
      ∧ Untouched neighbours (alloc neighbours 1 100 8 pmZeroInit 9).2.2 1 := by
  let _ := defaultConfig
  have hok : (alloc neighbours 1 100 8 pmZeroInit 9).1 = .ok := by decide +kernel
  have hlive : LiveObject neighbours 1 := ⟨by decide, neighbours_running.2.2.1⟩
  obtain ⟨halloc, hothers⟩ := reachable_isolation neighbours_reachable
  exact ⟨(halloc 1 100 8 pmZeroInit 9 _ _ (eq_ok₃ hok)).1,
    (hothers 1 hlive).1 1 100 8 pmZeroInit 9⟩

end PondMerge
