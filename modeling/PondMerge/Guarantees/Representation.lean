import PondMerge.Operations.Runs
import PondMerge.Operations.BinsAudit

/-!
The representation invariant of every reachable state, in the terms of the data structure:
what the window of a pool consists of, and what headers, bins, lists and counters say about
it.

* `Represents`: pool `p` represents the layout `L`.
* `PoolInv.represents`: the invariant of the operations says so.
* `reachable_represents`: every reachable state does.
-/

namespace PondMerge

open ByteMemory Tiling

variable [PmConfig]

/-- What the bytes, the descriptors and the entry of pool `p` say about its window: it
consists of the pieces `L`. -/
structure Represents (G : GlobalState) (p : ℕ) (L : List Piece) : Prop where
  inZone : G.zone ≤ poolStart G (G.pools p) ∧ poolEnd G (G.pools p) ≤ G.zone + G.zoneSize
  tiles : poolStart G (G.pools p) + total Piece.len L = poolEnd G (G.pools p)
  pieces : ∀ t ∈ L, t.Ok
  freeApart : L.IsChain Piece.MayMeet
  header : ∀ L₁ t L₂, L = L₁ ++ t :: L₂ →
    t.HeaderOk G.mem (poolStart G (G.pools p) + total Piece.len L₁) (lastOwn 0 L₁)
  prevZero : ∀ L₁ t L₂, L = L₁ ++ t :: L₂ →
    (lastOwn 0 L₁ = 0 ↔ L₁ = [] ∨ ∃ L₀ n, L₁ = L₀ ++ [Piece.slack n])
  descriptor : ∀ {x s n}, LiveAt (poolStart G (G.pools p)) L x s n → DescOk (G.objects s) p x n
  owned : ∀ i < pmMaxObjects, i ∈ liveSlots L ↔
    (G.objects i).state = .live ∧ (G.objects i).poolId = p
  binned : ∀ {x n}, FreeAt (poolStart G (G.pools p)) L x n →
    (freeOffsets G (G.pools p)).count (offOf G.zone x) = 1
      ∧ offOf G.zone x ∈ PondMerge.binOffsets G (auditSteps G (G.pools p))
        ((G.pools p).bins.head (flBin n) (slBin n))
  onlyFree : ∀ o ∈ freeOffsets G (G.pools p),
    ∃ n, FreeAt (poolStart G (G.pools p)) L (ptrOf G.zone o) n
  bins : BinsRep G.zone G.mem (G.pools p).bins (FreeAt (poolStart G (G.pools p)) L)
  order : OrderOk G.objects (G.pools p).orderHead L
  used : (G.pools p).usedBytes = usedOf L
  free : (G.pools p).freeBytes = total Piece.len L - usedOf L
  lost : (G.pools p).fragmentBytes = lostOf L
  live : (G.pools p).liveObjects = (liveSlots L).length

/-- The size behind a piece is zero only at the start and behind slack. -/
lemma lastOwn_eq_zero {L : List Piece} (hok : ∀ t ∈ L, t.Ok) :
    lastOwn 0 L = 0 ↔ L = [] ∨ ∃ L₀ n, L = L₀ ++ [Piece.slack n] := by
  rcases L.eq_nil_or_concat with rfl | ⟨L₀, t, rfl⟩
  · simp [lastOwn]
  · have ht := hok t (by simp)
    rw [List.concat_eq_append, lastOwn_append]
    simp only [lastOwn, List.append_eq_nil_iff, List.cons_ne_self, and_false, false_or]
    constructor
    · intro h0
      cases t with
      | live s n =>
          have hmin := PmConfig.minBlock_ge
          have hn : pmMinBlock ≤ n := ht.2.1
          have : n = 0 := h0
          omega
      | free n =>
          have hn : 16 ≤ n := ht.1
          have : n = 0 := h0
          omega
      | slack n => exact ⟨L₀, n, rfl⟩
    · rintro ⟨L₁, n, heq⟩
      have := List.append_inj_right' heq rfl
      rw [List.singleton_inj] at this
      rw [this]
      rfl

/-- The invariant of the operations, read off. -/
theorem PoolInv.represents {G : GlobalState} {Ls : ℕ → List Piece} (h : GlobalInv G Ls) {p : ℕ}
    (hp : Active G p) : Represents G p (Ls p) := by
  have hpool := h.pool p hp
  have hz := h.zone
  have hend := hpool.end_eq
  have hw := hpool.window_le hz
  have hstart := poolStart_eq G (G.pools p)
  have hperm := hpool.freeOffsets_perm hz
  have hsep := hpool.separated hz
  -- two free blocks at one offset would be one
  have hnd :
      ((freeSpots (poolStart G (G.pools p)) (Ls p)).map fun u => offOf G.zone u.1).Nodup := by
    rw [List.Nodup, List.pairwise_map]
    refine (List.Pairwise.and_mem.mp (freeSpots_pairwise hpool.layout.pieces _)).imp
      fun {u v} huv heq => ?_
    obtain ⟨hu, hv, -, hlt⟩ := huv
    have hu' := hsep.ptrOf_offOf (mem_freeSpots.mp (show (u.1, u.2) ∈ _ from hu))
    have hv' := hsep.ptrOf_offOf (mem_freeSpots.mp (show (v.1, v.2) ∈ _ from hv))
    rw [← hu', ← hv', heq] at hlt
    exact lt_irrefl _ hlt
  refine ⟨⟨by omega, by omega⟩, hend.symm, hpool.layout.pieces, hpool.layout.meets,
    fun L₁ t L₂ hL => ?_, fun L₁ t L₂ hL => ?_, hpool.desc, fun i hi => ?_, fun {x n} hx => ?_,
    fun o ho => ?_, hpool.bins, hpool.order, hpool.used, hpool.free, hpool.lost, hpool.live⟩
  · have := hpool.headers
    rw [hL] at this
    exact this.at_split
  · exact lastOwn_eq_zero fun u hu => hpool.layout.pieces u (by
      rw [hL]
      exact List.mem_append_left _ hu)
  · constructor
    · intro hm
      exact ⟨(hpool.poolId hm).2, (hpool.poolId hm).1⟩
    · rintro ⟨hl, rfl⟩
      exact (h.owner hi hl).2
  · refine ⟨?_, (hpool.binOffsets hz (flBin_lt n) (slBin_lt n)).mem hsep hx rfl rfl⟩
    rw [hperm.count_eq]
    exact List.count_eq_one_of_mem hnd (List.mem_map.mpr ⟨_, mem_freeSpots.mpr hx, rfl⟩)
  · obtain ⟨u, hu, rfl⟩ := List.mem_map.mp (hperm.mem_iff.mp ho)
    have hx := mem_freeSpots.mp (show (u.1, u.2) ∈ _ from hu)
    exact ⟨u.2, by rwa [hsep.ptrOf_offOf hx]⟩

/-- The live slots of a represented layout stand in address order. -/
lemma Represents.ascending {G : GlobalState} {p : ℕ} {L : List Piece} (h : Represents G p L) :
    (liveSlots L).Pairwise fun i j => (G.objects i).block < (G.objects j).block := by
  have hfits := @fits_layout G.objects (poolStart G (G.pools p)) L
    fun hx => ⟨(h.descriptor hx).start, (h.descriptor hx).block⟩
  refine (List.Pairwise.and_mem.mp hfits.pairwise).imp fun {i j} hij => ?_
  obtain ⟨hi, -, hle⟩ := hij
  obtain ⟨x, n, hx⟩ := exists_liveAt (poolStart G (G.pools p)) hi
  have hsize := (hx.size_ge h.pieces).2.1
  have hmin := PmConfig.minBlock_ge
  rw [(h.descriptor hx).block] at hle
  omega

/-- A state fixes the live slots of the layouts it represents. -/
theorem Represents.liveSlots_eq {G : GlobalState} {p : ℕ} {L L' : List Piece}
    (h : Represents G p L) (h' : Represents G p L') : liveSlots L = liveSlots L' := by
  have hmem : ∀ i, i ∈ liveSlots L ↔ i ∈ liveSlots L' := by
    intro i
    by_cases hi : i < pmMaxObjects
    · exact (h.owned i hi).trans (h'.owned i hi).symm
    · have hno : ∀ {M}, Represents G p M → i ∉ liveSlots M := fun hM hm => by
        obtain ⟨x, n, hx⟩ := exists_liveAt (poolStart G (G.pools p)) hm
        exact hi (hx.size_ge hM.pieces).1
      exact iff_of_false (hno h) (hno h')
  have hnd : ∀ {M}, Represents G p M → (liveSlots M).Nodup := fun hM =>
    hM.ascending.imp fun {i j} hlt heq => by
      rw [heq] at hlt
      exact lt_irrefl _ hlt
  have hperm := (List.perm_ext_iff_of_nodup (hnd h) (hnd h')).mpr hmem
  refine hperm.eq_of_pairwise (fun i j _ _ hij hji => ?_) h.ascending h'.ascending
  exact absurd (hij.trans hji) (lt_irrefl _)

/-- In every state any run reaches, every pool is Empty, Running or Paused, every pool
represents a layout of its window, and windows do not meet. -/
theorem reachable_represents {G : GlobalState} (h : Reachable G) :
    (∀ p < pmMaxPools,
      (G.pools p).state = .empty ∨ (G.pools p).state = .running ∨ (G.pools p).state = .paused)
    ∧ (∀ p q, Active G p → Active G q → p ≠ q → SegmentsApart (G.pools p) (G.pools q))
    ∧ SlotsOk G
    ∧ ∀ p, Active G p → ∃ L, Represents G p L := by
  obtain ⟨Ls, hinv⟩ := h.healthy
  exact ⟨hinv.settled, hinv.apart, hinv.slots, fun p hp => ⟨Ls p, PoolInv.represents hinv hp⟩⟩

omit [PmConfig] in
/-- A successful call, from its status. -/
lemma eq_ok {α : Type*} {r : Status × α} (h : r.1 = .ok) : r = (.ok, r.2) := by
  rw [← h]

omit [PmConfig] in
lemma eq_ok₃ {α β : Type*} {r : Status × α × β} (h : r.1 = .ok) : r = (.ok, r.2.1, r.2.2) := by
  rw [← h]

/-- The zone of the examples: four segments at address 8. -/
def smallZone : InitConfig := ⟨8, 4096, 1024⟩

omit [PmConfig] in
/-- Every run from this zone reaches a reachable state. -/
lemma smallZone_runOps (ops : List Op) :
    letI := defaultConfig; Reachable (runOps (init .zero smallZone).2 ops) :=
  letI := defaultConfig
  (Reachable.init .zero smallZone (by decide)).runOps ops

omit [PmConfig] in
/-- It holds behind a run that allocates, splits and merges. -/
theorem reachable_represents_run :
    letI := defaultConfig
    let G := runOps (init .zero smallZone).2
      [.createPool 3, .alloc 0 24 8 0 7, .split 0 1, .merge 1 0]
    (∀ p < pmMaxPools,
      (G.pools p).state = .empty ∨ (G.pools p).state = .running ∨ (G.pools p).state = .paused)
    ∧ (∀ p q, Active G p → Active G q → p ≠ q → SegmentsApart (G.pools p) (G.pools q))
    ∧ SlotsOk G
    ∧ ∀ p, Active G p → ∃ L, Represents G p L :=
  letI := defaultConfig
  reachable_represents (smallZone_runOps _)

end PondMerge
