import PondMerge.Structure.Layout
import PondMerge.Structure.Bins
import PondMerge.Model.Audit

/-!
The representation invariant of one pool: its window is tiled by a layout, and memory,
descriptors, bins, live-slot list and counters all describe that layout.

* `ZoneOk`, `DescOk`, `PoolInv`: the invariant.
* `MetaByte`: the bytes the library owns, and `MetaByte.not_body`: none lies in the body of a live
  block.
* `PoolInv.congr`: the invariant reads only its own pool's fields, descriptors and metadata.
-/

namespace PondMerge

open ByteMemory LinkedList Tiling

variable [PmConfig]

/-! ### Powers of two -/

omit [PmConfig] in
/-- A power of two, as the guards test it, of at least 8 is a multiple of 8. -/
lemma mod_eight_of_pow {n : ℕ} (h : n &&& (n - 1) = 0) (hn : 8 ≤ n) : n % 8 = 0 := by
  obtain ⟨k, rfl⟩ := (Nat.and_sub_one_eq_zero_iff_isPowerOfTwo (by omega)).mp h
  have hk : 3 ≤ k := by
    by_contra hlt
    have hle : 2 ^ k ≤ 2 ^ 2 := Nat.pow_le_pow_right (by omega) (by omega)
    omega
  obtain ⟨j, rfl⟩ := Nat.exists_eq_add_of_le hk
  rw [Nat.pow_add]
  omega

lemma minBlock_mod : pmMinBlock % 8 = 0 :=
  mod_eight_of_pow PmConfig.minBlock_pow (by have := PmConfig.minBlock_ge; omega)

/-! ### The invariant -/

/-- The zone as `init` accepts it. -/
structure ZoneOk (G : GlobalState) : Prop where
  init : G.initialized = true
  aligned : G.zone % 8 = 0
  segGe : 1024 ≤ G.segmentSize
  segPow : G.segmentSize &&& (G.segmentSize - 1) = 0
  size : G.zoneSize = G.segmentCount * G.segmentSize
  small : G.zoneSize < 2 ^ pmFlMax
  count : G.segmentCount ≤ pmMaxSegments

/-- Descriptor `d` describes the live block of `n` bytes at `x` in pool `p`. -/
structure DescOk (d : ObjectDesc) (p x n : ℕ) : Prop where
  state : d.state = .live
  pool : d.poolId = p
  address : d.address = x + 8
  block : d.blockSize = n
  sizePos : 0 < d.size
  sizeLe : d.size + 8 ≤ n
  generation : d.generation ≠ 0

/-- The live-slot list of a pool: doubly linked, exactly the slots of the layout. -/
def OrderOk (obj : ℕ → ObjectDesc) (head : ℕ) (L : List Piece) : Prop :=
  ∃ l, IsDList (fun i => (obj i).addrNext) (fun i => (obj i).addrPrev) noOrder noOrder head l
    ∧ l.Perm (liveSlots L)

/-- Pool `p` represents the layout `L`. -/
structure PoolInv (G : GlobalState) (p : ℕ) (L : List Piece) : Prop where
  segPos : 0 < (G.pools p).segmentCount
  segLe : (G.pools p).segmentFirst + (G.pools p).segmentCount ≤ G.segmentCount
  total : total Piece.len L = (G.pools p).segmentCount * G.segmentSize
  layout : LayoutOk L
  headers : Headers G.mem (poolStart G (G.pools p)) 0 L
  bins : BinsRep G.zone G.mem (G.pools p).bins (FreeAt (poolStart G (G.pools p)) L)
  desc : ∀ {x s n}, LiveAt (poolStart G (G.pools p)) L x s n → DescOk (G.objects s) p x n
  order : OrderOk G.objects (G.pools p).orderHead L
  used : (G.pools p).usedBytes = usedOf L
  free : (G.pools p).freeBytes = Tiling.total Piece.len L - usedOf L
  lost : (G.pools p).fragmentBytes = lostOf L
  live : (G.pools p).liveObjects = (liveSlots L).length

/-- The window of pool `p` is tiled by `L`, with the bins, headers and byte counters of `L`:
the part of the invariant that no descriptor and no live-slot list enters. -/
structure Tiled (G : GlobalState) (p : ℕ) (L : List Piece) : Prop where
  total : total Piece.len L = (G.pools p).segmentCount * G.segmentSize
  layout : LayoutOk L
  headers : Headers G.mem (poolStart G (G.pools p)) 0 L
  bins : BinsRep G.zone G.mem (G.pools p).bins (FreeAt (poolStart G (G.pools p)) L)
  used : (G.pools p).usedBytes = usedOf L
  free : (G.pools p).freeBytes = Tiling.total Piece.len L - usedOf L
  lost : (G.pools p).fragmentBytes = lostOf L

lemma Tiled.poolInv {G : GlobalState} {p : ℕ} {L : List Piece} (h : Tiled G p L)
    (hpos : 0 < (G.pools p).segmentCount)
    (hle : (G.pools p).segmentFirst + (G.pools p).segmentCount ≤ G.segmentCount)
    (hdesc : ∀ {x s n}, LiveAt (poolStart G (G.pools p)) L x s n → DescOk (G.objects s) p x n)
    (horder : OrderOk G.objects (G.pools p).orderHead L)
    (hlive : (G.pools p).liveObjects = (liveSlots L).length) : PoolInv G p L :=
  ⟨hpos, hle, h.total, h.layout, h.headers, h.bins, hdesc, horder, h.used, h.free, h.lost, hlive⟩

/-! ### Metadata and payload bytes -/

/-- A byte of a header or of the links of a free block. -/
def MetaByte (a : ℕ) (L : List Piece) (x : ℕ) : Prop :=
  (∃ u ∈ place Piece.len a L, u.1 ≤ x ∧ x < u.1 + 8) ∨ LinkByte (FreeAt a L) x

omit [PmConfig] in
lemma MetaByte.header {a x y : ℕ} {t : Piece} {L : List Piece}
    (h : (y, t) ∈ place Piece.len a L) (hlo : y ≤ x) (hhi : x < y + 8) : MetaByte a L x :=
  Or.inl ⟨(y, t), h, hlo, hhi⟩

omit [PmConfig] in
lemma MetaByte.link {a x y n : ℕ} {L : List Piece} (h : FreeAt a L y n) (hlo : y + 8 ≤ x)
    (hhi : x < y + 16) : MetaByte a L x :=
  Or.inr ⟨y, n, h, hlo, hhi⟩

/-- Metadata never lies in the body of a live block. -/
lemma MetaByte.not_body {a x y s n : ℕ} {L : List Piece} (hok : ∀ t ∈ L, t.Ok)
    (h : MetaByte a L x) (hb : LiveAt a L y s n) : ¬ (y + 8 ≤ x ∧ x < y + n) := by
  rintro ⟨hlo, hhi⟩
  rcases h with ⟨u, hu, hulo, huhi⟩ | ⟨z, k, hz, hzlo, hzhi⟩
  · have hlen := (hok u.2 (mem_of_mem_place hu)).len_ge
    rcases place_apart hu hb with heq | hap
    · rw [heq] at huhi
      simp only at huhi
      omega
    · simp only [Piece.len] at hap hlen
      omega
  · have hk := (hz.size_ge hok).1
    rcases hb.apart_free hz with hap | hap
    · omega
    · omega

lemma MetaByte.bounds {a x : ℕ} {L : List Piece} (hok : ∀ t ∈ L, t.Ok) (h : MetaByte a L x) :
    a ≤ x ∧ x < a + total Piece.len L := by
  rcases h with ⟨u, hu, hulo, huhi⟩ | ⟨z, k, hz, hzlo, hzhi⟩
  · have hlen := (hok u.2 (mem_of_mem_place hu)).len_ge
    have hb := place_bounds (t := u.2) hu
    omega
  · have hk := (hz.size_ge hok).1
    have hb := hz.bounds
    omega

/-- A header byte is no link byte. -/
lemma LinkByte.not_header {a y z : ℕ} {t : Piece} {L : List Piece} (hok : ∀ t ∈ L, t.Ok)
    (h : LinkByte (FreeAt a L) z) (hu : (y, t) ∈ place Piece.len a L) :
    ¬ (y ≤ z ∧ z < y + 8) := by
  obtain ⟨x, n, hx, hlo, hhi⟩ := h
  have hlen := (hok t (mem_of_mem_place hu)).len_ge
  have hn := (hx.size_ge hok).1
  rcases place_apart hu hx with heq | hap
  · have := congrArg Prod.fst heq
    simp only at this
    omega
  · simp only [Piece.len] at hap
    omega

lemma header_not_link {a k : ℕ} {u : ℕ × Piece} {L : List Piece} (hok : ∀ t ∈ L, t.Ok)
    (hu : u ∈ place Piece.len a L) (hk : k < 8) : ¬ LinkByte (FreeAt a L) (u.1 + k) :=
  fun h => h.not_header hok hu ⟨by omega, by omega⟩

/-! ### Frames -/

/-- Two pool entries that differ in state, borrows, epoch and move statistics only. -/
structure SameShape (P P' : Pool) : Prop where
  segmentFirst : P'.segmentFirst = P.segmentFirst
  segmentCount : P'.segmentCount = P.segmentCount
  bins : P'.bins = P.bins
  orderHead : P'.orderHead = P.orderHead
  usedBytes : P'.usedBytes = P.usedBytes
  freeBytes : P'.freeBytes = P.freeBytes
  fragmentBytes : P'.fragmentBytes = P.fragmentBytes
  liveObjects : P'.liveObjects = P.liveObjects

/-- Two descriptors that describe one block and stand at one place of a live-slot list. -/
structure SameBlock (d d' : ObjectDesc) : Prop where
  state : d'.state = d.state
  poolId : d'.poolId = d.poolId
  address : d'.address = d.address
  blockSize : d'.blockSize = d.blockSize
  size : d'.size = d.size
  generation : d'.generation = d.generation
  addrPrev : d'.addrPrev = d.addrPrev
  addrNext : d'.addrNext = d.addrNext

/-- Two states over one zone. -/
structure SameZone (G G' : GlobalState) : Prop where
  zone : G'.zone = G.zone
  zoneSize : G'.zoneSize = G.zoneSize
  segmentSize : G'.segmentSize = G.segmentSize
  segmentCount : G'.segmentCount = G.segmentCount
  initialized : G'.initialized = G.initialized

omit [PmConfig] in
lemma SameShape.refl (P : Pool) : SameShape P P := ⟨rfl, rfl, rfl, rfl, rfl, rfl, rfl, rfl⟩

omit [PmConfig] in
lemma SameBlock.refl (d : ObjectDesc) : SameBlock d d := ⟨rfl, rfl, rfl, rfl, rfl, rfl, rfl, rfl⟩

omit [PmConfig] in
lemma SameZone.refl (G : GlobalState) : SameZone G G := ⟨rfl, rfl, rfl, rfl, rfl⟩

omit [PmConfig] in
lemma SameZone.trans {G G' G'' : GlobalState} (h : SameZone G G') (h' : SameZone G' G'') :
    SameZone G G'' :=
  ⟨h'.zone.trans h.zone, h'.zoneSize.trans h.zoneSize, h'.segmentSize.trans h.segmentSize,
    h'.segmentCount.trans h.segmentCount, h'.initialized.trans h.initialized⟩

lemma ZoneOk.of_same {G G' : GlobalState} (h : ZoneOk G) (hz : SameZone G G') : ZoneOk G' := by
  refine ⟨hz.initialized.trans h.init, ?_, ?_, ?_, ?_, ?_, ?_⟩
  · rw [hz.zone]; exact h.aligned
  · rw [hz.segmentSize]; exact h.segGe
  · rw [hz.segmentSize]; exact h.segPow
  · rw [hz.zoneSize, hz.segmentCount, hz.segmentSize]; exact h.size
  · rw [hz.zoneSize]; exact h.small
  · rw [hz.segmentCount]; exact h.count

omit [PmConfig] in
lemma SameZone.poolStart {G G' : GlobalState} (h : SameZone G G') {P P' : Pool}
    (hP : P'.segmentFirst = P.segmentFirst) : poolStart G' P' = poolStart G P := by
  rw [PondMerge.poolStart, PondMerge.poolStart, segBase, segBase, h.zone, h.segmentSize, hP]

omit [PmConfig] in
lemma SameZone.poolEnd {G G' : GlobalState} (h : SameZone G G') {P P' : Pool}
    (hP : SameShape P P') : poolEnd G' P' = poolEnd G P := by
  rw [PondMerge.poolEnd, PondMerge.poolEnd, segBase, segBase, h.zone, h.segmentSize,
    hP.segmentFirst, hP.segmentCount]

omit [PmConfig] in
lemma DescOk.of_same {d d' : ObjectDesc} {p x n : ℕ} (h : DescOk d p x n)
    (hd : SameBlock d d') : DescOk d' p x n := by
  refine ⟨hd.state.trans h.state, hd.poolId.trans h.pool, hd.address.trans h.address,
    hd.blockSize.trans h.block, ?_, ?_, ?_⟩
  · rw [hd.size]; exact h.sizePos
  · rw [hd.size]; exact h.sizeLe
  · rw [hd.generation]; exact h.generation

omit [PmConfig] in
lemma OrderOk.congr {obj obj' : ℕ → ObjectDesc} {head : ℕ} {L : List Piece}
    (h : OrderOk obj head L) (hd : ∀ s ∈ liveSlots L, SameBlock (obj s) (obj' s)) :
    OrderOk obj' head L := by
  obtain ⟨l, hl, hperm⟩ := h
  exact ⟨l, hl.congr (fun i hi => (hd i (hperm.mem_iff.mp hi)).addrNext)
    (fun i hi => (hd i (hperm.mem_iff.mp hi)).addrPrev), hperm⟩

/-- The invariant of a pool reads its own entry, its own descriptors and its own metadata
only. -/
theorem PoolInv.congr {G G' : GlobalState} {p : ℕ} {L : List Piece} (h : PoolInv G p L)
    (hz : SameZone G G') (hP : SameShape (G.pools p) (G'.pools p))
    (hd : ∀ s ∈ liveSlots L, SameBlock (G.objects s) (G'.objects s))
    (hm : ∀ x, MetaByte (poolStart G (G.pools p)) L x → G'.mem x = G.mem x) :
    PoolInv G' p L := by
  have hstart : poolStart G' (G'.pools p) = poolStart G (G.pools p) :=
    hz.poolStart hP.segmentFirst
  refine ⟨?_, ?_, ?_, h.layout, ?_, ?_, ?_, ?_, ?_, ?_, ?_, ?_⟩
  · rw [hP.segmentCount]; exact h.segPos
  · rw [hP.segmentFirst, hP.segmentCount, hz.segmentCount]; exact h.segLe
  · rw [hP.segmentCount, hz.segmentSize]; exact h.total
  · rw [hstart]
    exact h.headers.congr fun u hu k hk => hm _ (.header hu (by omega) (by omega))
  · rw [hstart, hz.zone, hP.bins]
    exact h.bins.congr fun x hx => hm x (Or.inr hx)
  · intro x s n hx
    rw [hstart] at hx
    exact (h.desc hx).of_same (hd s hx.mem_liveSlots)
  · rw [hP.orderHead]
    exact h.order.congr hd
  · rw [hP.usedBytes]; exact h.used
  · rw [hP.freeBytes]; exact h.free
  · rw [hP.fragmentBytes]; exact h.lost
  · rw [hP.liveObjects]; exact h.live

lemma Tiled.congr {G G' : GlobalState} {p : ℕ} {L : List Piece} (h : Tiled G p L)
    (hz : SameZone G G') (hP : SameShape (G.pools p) (G'.pools p)) (hm : G'.mem = G.mem) :
    Tiled G' p L := by
  have hstart : poolStart G' (G'.pools p) = poolStart G (G.pools p) :=
    hz.poolStart hP.segmentFirst
  refine ⟨?_, h.layout, ?_, ?_, hP.usedBytes.trans h.used, hP.freeBytes.trans h.free,
    hP.fragmentBytes.trans h.lost⟩
  · rw [hP.segmentCount, hz.segmentSize]; exact h.total
  · rw [hstart, hm]; exact h.headers
  · rw [hstart, hz.zone, hP.bins, hm]; exact h.bins

/-! ### Arithmetic of the window -/

lemma ZoneOk.segMod {G : GlobalState} (h : ZoneOk G) : G.segmentSize % 8 = 0 :=
  mod_eight_of_pow h.segPow (by have := h.segGe; omega)

lemma ZoneOk.zoneSize_lt {G : GlobalState} (h : ZoneOk G) : G.zoneSize < 2 ^ 31 :=
  lt_of_lt_of_le h.small (Nat.pow_le_pow_right (by omega) PmConfig.flMax_le)

/-- The window of a pool with this invariant lies in the zone. -/
lemma PoolInv.window_le {G : GlobalState} {p : ℕ} {L : List Piece} (hz : ZoneOk G)
    (h : PoolInv G p L) :
    poolStartOff G (G.pools p) + Tiling.total Piece.len L ≤ G.zoneSize := by
  rw [h.total, poolStartOff, ← Nat.add_mul, hz.size]
  exact Nat.mul_le_mul_right _ h.segLe

omit [PmConfig] in
lemma poolStart_eq (G : GlobalState) (P : Pool) :
    poolStart G P = G.zone + poolStartOff G P := rfl

lemma PoolInv.capacity {G : GlobalState} {p : ℕ} {L : List Piece} (hz : ZoneOk G)
    (h : PoolInv G p L) : poolCapacity G (G.pools p) = Tiling.total Piece.len L := by
  have hw := h.window_le hz
  have hlt := hz.zoneSize_lt
  rw [poolCapacity, ← h.total]
  exact u32_of_lt (by omega)

lemma PoolInv.end_eq {G : GlobalState} {p : ℕ} {L : List Piece} (h : PoolInv G p L) :
    poolEnd G (G.pools p) = poolStart G (G.pools p) + Tiling.total Piece.len L := by
  rw [poolEnd, poolStart, segBase, segBase, h.total, Nat.add_mul, Nat.add_assoc]

lemma PoolInv.start_mod {G : GlobalState} {p : ℕ} (hz : ZoneOk G) :
    poolStart G (G.pools p) % 8 = 0 := by
  have h1 := hz.aligned
  have h2 := hz.segMod
  have h3 : (G.pools p).segmentFirst * G.segmentSize % 8 = 0 := by
    rw [Nat.mul_mod, h2, Nat.mul_zero, Nat.zero_mod]
  rw [poolStart, segBase]
  omega

/-- Free blocks can be threaded by links. -/
lemma freeAt_separated {zone a : ℕ} {L : List Piece} (hok : ∀ t ∈ L, t.Ok) (hlo : zone ≤ a)
    (hhi : a + Tiling.total Piece.len L ≤ zone + 2 ^ 31) : Separated zone (FreeAt a L) := by
  refine ⟨fun {x n} hx => ?_, fun {x n y k} hx hy => ?_⟩
  · have hb := hx.bounds
    have hn := (hx.size_ge hok).1
    omega
  · have hn := (hx.size_ge hok).1
    have hk := (hy.size_ge hok).1
    rcases hx.apart hy with heq | hap
    · exact Or.inl heq
    · exact Or.inr (by omega)

lemma PoolInv.window_lt {G : GlobalState} {p : ℕ} {L : List Piece} (hz : ZoneOk G)
    (h : PoolInv G p L) : G.zone ≤ poolStart G (G.pools p)
      ∧ poolStart G (G.pools p) + Tiling.total Piece.len L < G.zone + 2 ^ 31 := by
  have hw := h.window_le hz
  have hlt := hz.zoneSize_lt
  rw [poolStart_eq]
  omega

lemma PoolInv.separated {G : GlobalState} {p : ℕ} {L : List Piece} (hz : ZoneOk G)
    (h : PoolInv G p L) : Separated G.zone (FreeAt (poolStart G (G.pools p)) L) :=
  freeAt_separated h.layout.pieces (h.window_lt hz).1 (h.window_lt hz).2.le

end PondMerge
