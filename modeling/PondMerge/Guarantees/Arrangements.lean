import PondMerge.Guarantees.Advice
import PondMerge.Guarantees.Confluence
import PondMerge.Guarantees.Consolidation

/-!
A full compaction is the best there is: no way to arrange the objects of a pool around its pinned
ones has a free run that it does not leave.

* `Arrangement`, `Vacant`: an arrangement of a pool's blocks, and bytes none of them covers.
* `Packaged.free_of_vacant`: a packed pool has a free block for every such run.
* `Rearranged.arrangement`, `Rearranged.vacant`: every layout a pool may have is an arrangement.
* `compact_optimal`: behind a full compaction, `alloc` is refused exactly where every arrangement
  is too narrow; without pinned objects, exactly where the free bytes are too few.
-/

namespace PondMerge

open ByteMemory Tiling

variable [PmConfig]

/-! ### Rows with room -/

section Rows

variable {obj obj' obj'' : ℕ → ObjectDesc} {stop e c a n : ℕ} {l : List ℕ}

omit [PmConfig] in
/-- Blocks in ascending order inside an interval fit into it. -/
lemma fits_of_pairwise
    (h : l.Pairwise fun i j => (obj i).block + (obj i).blockSize ≤ (obj j).block)
    (hin : ∀ i ∈ l, e ≤ (obj i).block ∧ (obj i).block + (obj i).blockSize ≤ stop)
    (he : e ≤ stop) : Fits obj stop e l := by
  induction l generalizing e with
  | nil => exact he
  | cons i l ih =>
      obtain ⟨hi, hrest⟩ := List.pairwise_cons.mp h
      obtain ⟨hlo, hhi⟩ := hin i List.mem_cons_self
      exact ⟨hlo, ih hrest (fun j hj => ⟨hi j hj, (hin j (List.mem_cons_of_mem _ hj)).2⟩) hhi⟩

omit [PmConfig] in
/-- Bytes that no block of a row covers lie in one of its gaps. -/
lemma hasRun_of_clear (hlo : e ≤ a) (hhi : a + n ≤ stop)
    (h : ∀ i ∈ l, (obj i).block + (obj i).blockSize ≤ a ∨ a + n ≤ (obj i).block) :
    HasRun obj stop e l n := by
  induction l generalizing e with
  | nil => exact ⟨stop - e, List.mem_cons_self, by omega⟩
  | cons i l ih =>
      rw [hasRun_cons]
      have hrest : ∀ j ∈ l, (obj j).block + (obj j).blockSize ≤ a ∨ a + n ≤ (obj j).block :=
        fun j hj => h j (List.mem_cons_of_mem _ hj)
      cases h i List.mem_cons_self with
      | inl hbelow => exact Or.inr (ih hbelow hrest)
      | inr habove => exact Or.inl (by omega)

omit [PmConfig] in
/-- A row is packed around its pinned blocks, wherever its movable ones come from. -/
lemma PackedFrom.of_sameRow (h : PackedFrom obj obj' c l) (hrow : SameRow obj obj'' l) :
    PackedFrom obj'' obj' c l := by
  induction l generalizing c with
  | nil => trivial
  | cons i l ih =>
      obtain ⟨hb, hrest⟩ := h
      have hsize := hrow.size i List.mem_cons_self
      have hpin := hrow.pinned i List.mem_cons_self
      refine ⟨?_, ?_⟩
      · rw [hb, hpin]
        split_ifs with hp
        · exact (hrow.fixed i List.mem_cons_self hp).symm
        · rfl
      · rw [hsize]
        exact ih hrest hrow.tail

omit [PmConfig] in
/-- Without pinned blocks, the room of a layout is in one stretch. -/
lemma rooms_movable {L : List Piece} (h : ∀ i ∈ liveSlots L, (obj i).pinned = false) (r : ℕ) :
    rooms obj L r = [r + (total Piece.len L - usedOf L)] := by
  induction L generalizing r with
  | nil => rfl
  | cons t L ih =>
      have hle := usedOf_add_lostOf_le L
      cases t with
      | live i k =>
          rw [liveSlots_live] at h
          rw [rooms, if_neg (by simp [h i List.mem_cons_self]),
            ih fun j hj => h j (List.mem_cons_of_mem _ hj), usedOf_cons, total_cons]
          dsimp only [Piece.len, Piece.used]
          rw [Nat.add_sub_add_left]
      | free k =>
          rw [liveSlots_free] at h
          rw [rooms, ih h, usedOf_cons, total_cons]
          dsimp only [Piece.len, Piece.used]
          congr 1
          omega
      | slack k =>
          rw [liveSlots_slack] at h
          rw [rooms, ih h, usedOf_cons, total_cons]
          dsimp only [Piece.len, Piece.used]
          congr 1
          omega

end Rows

/-! ### Arrangements -/

/-- A way to arrange the objects of pool `p`: their blocks start at `place`, lie in the window of
the pool and one behind the other in the order they have, the pinned ones where they are. -/
structure Arrangement (G : GlobalState) (p : ℕ) (place : ℕ → ℕ) : Prop where
  inside : ∀ i, LiveObject G i → (G.objects i).poolId = p →
    poolStart G (G.pools p) ≤ place i
      ∧ place i + (G.objects i).blockSize ≤ poolEnd G (G.pools p)
  fixed : ∀ i, LiveObject G i → (G.objects i).poolId = p → (G.objects i).pinned = true →
    place i = (G.objects i).block
  ordered : ∀ i j, LiveObject G i → (G.objects i).poolId = p →
    LiveObject G j → (G.objects j).poolId = p → (G.objects i).address < (G.objects j).address →
      place i + (G.objects i).blockSize ≤ place j

/-- The `n` bytes from `a` on, inside the window of pool `p`, are under none of the blocks of its
objects in such an arrangement. -/
structure Vacant (G : GlobalState) (p : ℕ) (place : ℕ → ℕ) (a n : ℕ) : Prop where
  inside : poolStart G (G.pools p) ≤ a ∧ a + n ≤ poolEnd G (G.pools p)
  clear : ∀ i, LiveObject G i → (G.objects i).poolId = p →
    place i + (G.objects i).blockSize ≤ a ∨ a + n ≤ place i

/-- The descriptors of an arrangement. -/
def arranged (G : GlobalState) (place : ℕ → ℕ) (i : ℕ) : ObjectDesc :=
  { G.objects i with address := place i + 8 }

omit [PmConfig] in
lemma arranged_block (G : GlobalState) (place : ℕ → ℕ) (i : ℕ) :
    (arranged G place i).block = place i := Nat.add_sub_cancel _ _

section Pools

variable {G C : GlobalState} {Ls Ls' : ℕ → List Piece} {p a n : ℕ} {place : ℕ → ℕ}

/-- The live slots of a pool ascend. -/
lemma GlobalInv.ascending (h : GlobalInv G Ls) (hp : Active G p) :
    (liveSlots (Ls p)).Pairwise fun i j => (G.objects i).address < (G.objects j).address := by
  have hpool := h.pool p hp
  refine (List.Pairwise.and_mem.mp hpool.fits.pairwise).imp fun {i j} hij => ?_
  obtain ⟨hi, hj, hle⟩ := hij
  have hd := hpool.desc_self hi
  have haddr := hd.address
  have hsize := hd.sizeLe
  have haddr' := (hpool.desc_self hj).address
  omega

/-- An arrangement fits into the window. -/
lemma Arrangement.fits (h : GlobalInv G Ls) (hp : Active G p) (ha : Arrangement G p place) :
    Fits (arranged G place) (poolEnd G (G.pools p)) (poolStart G (G.pools p))
      (liveSlots (Ls p)) := by
  have hlist := fun i => h.mem_liveSlots hp i
  refine fits_of_pairwise ((List.Pairwise.and_mem.mp (h.ascending hp)).imp fun {i j} hij => ?_)
    (fun i hi => ?_) (h.pool p hp).fits.le
  · obtain ⟨hi, hj, hlt⟩ := hij
    obtain ⟨hli, hpi⟩ := (hlist i).mp hi
    obtain ⟨hlj, hpj⟩ := (hlist j).mp hj
    rw [arranged_block, arranged_block]
    exact ha.ordered i j hli hpi hlj hpj hlt
  · obtain ⟨hli, hpi⟩ := (hlist i).mp hi
    rw [arranged_block]
    exact ha.inside i hli hpi

/-- It has the blocks of the pool, and the pinned ones in their places. -/
lemma Arrangement.sameRow (h : GlobalInv G Ls) (hp : Active G p) (ha : Arrangement G p place) :
    SameRow G.objects (arranged G place) (liveSlots (Ls p)) := by
  refine ⟨fun _ _ => rfl, fun _ _ => rfl, fun i hi hpin => ?_⟩
  obtain ⟨hli, hpi⟩ := (h.mem_liveSlots hp i).mp hi
  rw [arranged_block]
  exact ha.fixed i hli hpi hpin

/-- **A packed pool is the best arrangement**: it has a free block for every free run of any
other. -/
theorem Packaged.free_of_vacant (h : GlobalInv G Ls) (hp : Active G p)
    (hk : Packaged G C Ls' p (liveSlots (Ls p)) (poolStart G (G.pools p)) (poolEnd G (G.pools p)))
    (ha : Arrangement G p place) (hr : Vacant G p place a n) (hn : pmMinBlock ≤ n) :
    ∃ m, .free m ∈ Ls' p ∧ n ≤ m := by
  have hrun : HasRun (arranged G place) (poolEnd G (G.pools p)) (poolStart G (G.pools p))
      (liveSlots (Ls p)) n := by
    refine hasRun_of_clear hr.inside.1 hr.inside.2 fun i hi => ?_
    obtain ⟨hli, hpi⟩ := (h.mem_liveSlots hp i).mp hi
    rw [arranged_block]
    exact hr.clear i hli hpi
  have hkept := hk.relocated.kept
  have hrow : SameRow C.objects (arranged G place) (liveSlots (Ls p)) := by
    have hsame := ha.sameRow h hp
    refine ⟨fun i hi => ?_, fun i hi => ?_, fun i hi hpin => ?_⟩
    · rw [(hkept i hi).blockSize]
      exact hsame.size i hi
    · rw [(hkept i hi).pinned]
      exact hsame.pinned i hi
    · rw [(hkept i hi).pinned] at hpin
      rw [hsame.fixed i hi hpin, ObjectDesc.block, ObjectDesc.block,
        hk.relocated.pinned i hi hpin]
  rw [hk.layout]
  exact free_of_hasRun hn (hrun.tucked (ha.fits h hp) le_rfl (hk.row.of_sameRow hrow).tucked
    fun i hi => (hkept i hi).blockSize)

/-- A rearranged pool is an arrangement. -/
lemma Rearranged.arrangement (h : GlobalInv G Ls) (hp : Active G p)
    (hk : Rearranged G C Ls' p (liveSlots (Ls p)) (poolStart G (G.pools p))
      (poolEnd G (G.pools p))) : Arrangement G p fun i => (C.objects i).block := by
  have hpool := hk.inv.pool p hk.active
  have hmem : ∀ i, LiveObject G i → (G.objects i).poolId = p → i ∈ liveSlots (Ls p) :=
    fun i hi hpi => (h.mem_liveSlots hp i).mpr ⟨hi, hpi⟩
  have hfits := hpool.fits
  rw [hk.slots, hk.start, hk.stop] at hfits
  refine ⟨fun i hi hpi => ?_, fun i hi hpi hpin => ?_, fun i j hi hpi hj hpj hlt => ?_⟩
  · rw [← (hk.relocated.kept i (hmem i hi hpi)).blockSize]
    exact hfits.bounds (hmem i hi hpi)
  · rw [ObjectDesc.block, ObjectDesc.block, hk.relocated.pinned i (hmem i hi hpi) hpin]
  · have hi' := hmem i hi hpi
    have hj' := hmem j hj hpj
    have hlt' := (hk.relocated.order i hi' j hj').mpr hlt
    rw [← (hk.relocated.kept i hi').blockSize]
    rw [← hk.slots] at hi' hj'
    obtain ⟨x, k, hx, hdx⟩ := hpool.desc_of_mem hi'
    obtain ⟨y, m, hy, hdy⟩ := hpool.desc_of_mem hj'
    have hne : i ≠ j := fun heq => by
      rw [heq] at hlt
      exact lt_irrefl _ hlt
    have hbi := hdx.start
    have hbj := hdy.start
    have hsi := hdx.block
    have hai := hdx.address
    have haj := hdy.address
    cases hx.apart hy hne with
    | inl hle => omega
    | inr hle =>
        -- the other order is not that of the addresses
        have hpos := (hy.size_ge hpool.layout.pieces).2.1
        have hmin := PmConfig.minBlock_ge
        omega

/-- And its free blocks are free runs of it. -/
lemma Rearranged.vacant (h : GlobalInv G Ls) (hp : Active G p)
    (hk : Rearranged G C Ls' p (liveSlots (Ls p)) (poolStart G (G.pools p))
      (poolEnd G (G.pools p))) (hn : .free n ∈ Ls' p) :
    ∃ a, Vacant G p (fun i => (C.objects i).block) a n := by
  have hpool := hk.inv.pool p hk.active
  obtain ⟨a, ha⟩ := exists_mem_place (poolStart C (C.pools p)) hn
  have hfree : FreeAt (poolStart C (C.pools p)) (Ls' p) a n := ha
  obtain ⟨hlo, hhi⟩ := hfree.bounds
  rw [← hpool.end_eq, hk.stop] at hhi
  rw [hk.start] at hlo
  refine ⟨a, ⟨hlo, hhi⟩, fun i hi hpi => ?_⟩
  have hmem : i ∈ liveSlots (Ls p) := (h.mem_liveSlots hp i).mpr ⟨hi, hpi⟩
  have hmem' := hmem
  rw [← hk.slots] at hmem'
  obtain ⟨x, k, hx, hd⟩ := hpool.desc_of_mem hmem'
  have hb := hd.start
  have hs := hd.block
  rw [(hk.relocated.kept i hmem).blockSize] at hs
  have hapart := hx.apart_free hfree
  omega

end Pools

/-! ### What `alloc` finds -/

/-- Where the bins order the sizes, `alloc` succeeds exactly if some free block holds what it
needs. -/
lemma alloc_ok_iff_holds {G : GlobalState} {Ls : ℕ → List Piece} (h : GlobalInv G Ls)
    (hfit : pmSlCount * 2 ^ (pmFlMax - 1) ≤ 2 ^ 32)
    (hslot : ∃ i < pmMaxObjects, (G.objects i).state = .free)
    {p size alignment flags : ℕ} (hask : AllocAsked G p size alignment flags) (tag : ℕ) :
    (alloc G p size alignment flags tag).1 = .ok ↔ ∃ n, .free n ∈ Ls p ∧ blockNeed size ≤ n := by
  have hge : 16 ≤ blockNeed size := PmConfig.minBlock_ge.trans (le_max_left _ _)
  have hneed := allocNeed_eq size
  rw [(alloc_ok_iff_free h hslot hask tag).1]
  constructor
  · rintro ⟨need, heq, n, hn, hle, -⟩
    rw [heq] at hneed
    split_ifs at hneed with hlt
    rw [Option.some.injEq] at hneed
    exact ⟨n, hn, hneed ▸ hle⟩
  · rintro ⟨n, hn, hle⟩
    have hlt := ((h.pool p hask.active).free_lt h.zone hn).2
    rw [if_pos (by omega)] at hneed
    exact ⟨_, hneed, n, hn, hle, class_mono hfit hge hle hlt⟩

/-- **A full compaction is optimal.**  In a reachable state, a full compaction of a Running pool
without borrows succeeds, and an `alloc` behind it succeeds exactly if some arrangement of the
objects the pool had, in their order and around the pinned ones, leaves room for its block.  A pool
without pinned objects then serves every request its free bytes suffice for. -/
theorem compact_optimal {G : GlobalState} (h : Reachable G)
    (hfit : pmSlCount * 2 ^ (pmFlMax - 1) ≤ 2 ^ 32) {p size alignment flags : ℕ}
    (hp : p < pmMaxPools) (hrun : (G.pools p).state = .running)
    (hidle : (G.pools p).borrowCount = 0)
    (hslot : ∃ i < pmMaxObjects, (G.objects i).state = .free) (hsize : 1 ≤ size)
    (halign : alignmentOk alignment = true) (hflags : flags &&& pmUnknownFlags = 0)
    (elapsed tag : ℕ) :
    (compact G p none elapsed).1 = .ok
    ∧ ((alloc (compact G p none elapsed).2.2 p size alignment flags tag).1 = .ok ↔
      ∃ place a, Arrangement G p place ∧ Vacant G p place a (blockNeed size))
    ∧ ((∀ i, LiveObject G i → (G.objects i).poolId = p → (G.objects i).pinned = false) →
      ((alloc (compact G p none elapsed).2.2 p size alignment flags tag).1 = .ok ↔
        blockNeed size ≤ (G.pools p).freeBytes)) := by
  obtain ⟨Ls, hinv⟩ := h.healthy
  have hact : Active G p := ⟨hp, by rw [hrun]; decide⟩
  have hmin : pmMinBlock ≤ blockNeed size := le_max_left _ _
  obtain ⟨met, C, Ls', heq, hk⟩ := compact_packaged hinv hact hidle elapsed
  obtain ⟨C', L', heq', hinv', hrun', hstates, hrooms⟩ := hinv.compact_rooms hact hidle elapsed
  obtain ⟨-, rfl⟩ : met = true ∧ C = C' := by
    rw [heq] at heq'
    simpa using heq'
  -- `compact` keeps the pool Running and the slot table
  have hask : AllocAsked C p size alignment flags :=
    ⟨⟨hp, by rw [hrun']; decide⟩, hrun', hsize, halign, hflags⟩
  have hslot' : ∃ i < pmMaxObjects, (C.objects i).state = .free := by
    simpa only [hstates] using hslot
  rw [heq]
  dsimp only
  refine ⟨rfl, ?_, fun hmovable => ?_⟩
  · rw [alloc_ok_iff_holds hk.inv hfit hslot' hask tag]
    constructor
    · rintro ⟨n, hn, hle⟩
      obtain ⟨a, ha⟩ := hk.toRearranged.vacant hinv hact hn
      have hin := ha.inside
      refine ⟨_, a, hk.toRearranged.arrangement hinv hact, ⟨hin.1, by omega⟩, fun i hi hpi => ?_⟩
      have := ha.clear i hi hpi
      omega
    · rintro ⟨place, a, ha, hv⟩
      exact hk.free_of_vacant hinv hact ha hv hmin
  · have hpool := hinv.pool p hact
    -- without pinned objects the whole pool is one room
    have hroom : rooms G.objects (Ls p) 0 = [(G.pools p).freeBytes] := by
      rw [rooms_movable fun i hi => ?_, hpool.free, Nat.zero_add]
      obtain ⟨hli, hpi⟩ := (hinv.mem_liveSlots hact i).mp hi
      exact hmovable i hli hpi
    rw [alloc_ok_iff_holds hinv' hfit hslot' hask tag, Function.update_self]
    constructor
    · rintro ⟨n, hn, hle⟩
      have hmem := (hrooms n (hmin.trans hle)).mp hn
      rw [hroom, List.mem_singleton] at hmem
      omega
    · intro hle
      refine ⟨(G.pools p).freeBytes, (hrooms _ (hmin.trans hle)).mpr ?_, hle⟩
      rw [hroom]
      exact List.mem_cons_self

omit [PmConfig] in
theorem compact_optimal_neighbours :
    letI := defaultConfig
    (compact neighbours 0 none 5).1 = .ok
    ∧ ((alloc (compact neighbours 0 none 5).2.2 0 40 8 0 7).1 = .ok ↔
      ∃ place a, Arrangement neighbours 0 place ∧ Vacant neighbours 0 place a (blockNeed 40))
    ∧ ((∀ i, LiveObject neighbours i → (neighbours.objects i).poolId = 0 →
        (neighbours.objects i).pinned = false) →
      ((alloc (compact neighbours 0 none 5).2.2 0 40 8 0 7).1 = .ok ↔
        blockNeed 40 ≤ (neighbours.pools 0).freeBytes)) := by
  let _ := defaultConfig
  obtain ⟨hrun, hidle, -, hslot⟩ := neighbours_running
  exact compact_optimal neighbours_reachable (by decide) (by decide) hrun hidle
    ⟨5, by decide, hslot⟩ (by decide) (by decide) (by decide) 5 7

end PondMerge
