import PondMerge.Guarantees.Preservation
import PondMerge.Guarantees.Reentry

/-!
`alloc` followed by `free`: the layout is the one before.

* `freed_alloc`: the pieces of the pool are back.
* `Restored`: what else is as it was.
* `reachable_alloc_free`: every state of every run.
-/

namespace PondMerge

open ByteMemory LinkedList Tiling

variable [PmConfig]

section Words

omit [PmConfig] in
/-- A word determines its bytes. -/
lemma load32_inj {m m' : Mem} {a : ℕ} (h : load32 m' a = load32 m a) {k : ℕ} (hk : k < 4) :
    m' (a + k) = m (a + k) := by
  have h0 := (m a).toNat_lt
  have h1 := (m (a + 1)).toNat_lt
  have h2 := (m (a + 2)).toNat_lt
  have h0' := (m' a).toNat_lt
  have h1' := (m' (a + 1)).toNat_lt
  have h2' := (m' (a + 2)).toNat_lt
  rw [load32, load32] at h
  refine UInt8.toNat_inj.mp ?_
  obtain rfl | rfl | rfl | rfl : k = 0 ∨ k = 1 ∨ k = 2 ∨ k = 3 := by omega
  · rw [Nat.add_zero]
    omega
  · omega
  · omega
  · omega

omit [PmConfig] in
/-- Memories with the same headers agree on the two words of every block. -/
lemma Headers.words {m m' : Mem} {a q : ℕ} {L : List Piece} (h : Headers m a q L)
    (h' : Headers m' a q L) {x : ℕ} {t : Piece} (hx : (x, t) ∈ place Piece.len a L)
    (ht : ∀ n, t ≠ .slack n) : load32 m' x = load32 m x ∧ load32 m' (x + 4) = load32 m (x + 4) := by
  obtain ⟨L₁, L₂, rfl, rfl⟩ := exists_split hx
  have ho := h.at_split
  have ho' := h'.at_split
  cases t with
  | live s n => exact ⟨ho'.1.trans ho.1.symm, ho'.2.trans ho.2.symm⟩
  | free n => exact ⟨ho'.1.trans ho.1.symm, ho'.2.trans ho.2.symm⟩
  | slack n => exact absurd rfl (ht n)

omit [PmConfig] in
lemma Headers.bytes {m m' : Mem} {a q : ℕ} {L : List Piece} (h : Headers m a q L)
    (h' : Headers m' a q L) {x k : ℕ} {t : Piece} (hx : (x, t) ∈ place Piece.len a L)
    (ht : ∀ n, t ≠ .slack n) (hk : k < 8) : m' (x + k) = m (x + k) := by
  obtain ⟨hfirst, hsecond⟩ := h.words h' hx ht
  by_cases hk4 : k < 4
  · exact load32_inj hfirst hk4
  · have hb := load32_inj hsecond (k := k - 4) (by omega)
    rwa [show x + 4 + (k - 4) = x + k by omega] at hb

end Words

section Layout

variable {G : GlobalState} {Ls : ℕ → List Piece}

/-- An allocation is a live block and, where it was split, the free rest behind it. -/
lemma exists_allocPieces {s n need : ℕ} (hle : need ≤ n) :
    ∃ k C, allocPieces s n need = .live s k :: C ∧ FreeOrNil C ∧ k + total Piece.len C = n := by
  rw [allocPieces]
  split_ifs with h
  · exact ⟨need, [.free (n - need)], rfl, Or.inr ⟨_, rfl⟩, by
      rw [total_cons, total_nil, Piece.len]
      omega⟩
  · exact ⟨n, [], rfl, Or.inl rfl, by rw [total_nil]; omega⟩

omit [PmConfig] in
/-- Nothing free touches a free block. -/
lemma meets_free_apart {L₁ L₂ : List Piece} {n : ℕ}
    (h : (L₁ ++ Piece.free n :: L₂).IsChain Piece.MayMeet) : NoFreeLast L₁ ∧ NoFreeHead L₂ := by
  constructor
  · rintro L' j rfl
    rw [List.append_assoc, List.singleton_append] at h
    exact (List.isChain_cons_cons.mp (List.isChain_append.mp h).2.1).1
  · rintro j L' rfl
    exact (List.isChain_cons_cons.mp (List.isChain_append.mp h).2.1).1

/-- Outside of a replaced stretch the metadata is where it was. -/
lemma MetaByte.splice {a z : ℕ} {L₁ M M' L₂ : List Piece} (hok : ∀ t ∈ M', t.Ok)
    (hlen : total Piece.len M' = total Piece.len M) (h : MetaByte a (L₁ ++ M' ++ L₂) z)
    (hout : ¬ (a + total Piece.len L₁ ≤ z ∧ z < a + total Piece.len L₁ + total Piece.len M)) :
    MetaByte a (L₁ ++ M ++ L₂) z := by
  rcases h with ⟨⟨x, t⟩, hu, hz⟩ | ⟨x, n, hx, hz⟩
  · refine Or.inl ⟨(x, t), ?_, hz⟩
    rw [place_append, place_append, List.mem_append, List.mem_append] at hu ⊢
    rcases hu with (hu | hu) | hu
    · exact Or.inl (Or.inl hu)
    · have hb := place_bounds hu
      have hge := (hok t (mem_of_mem_place hu)).len_ge
      dsimp only at hb hz
      exact absurd ⟨by omega, by omega⟩ hout
    · rw [total_append] at hu ⊢
      rw [← hlen]
      exact Or.inr hu
  · refine Or.inr ⟨x, n, ?_, hz⟩
    rw [freeAt_append, freeAt_append] at hx ⊢
    rcases hx with (hx | hx) | hx
    · exact Or.inl (Or.inl hx)
    · have hb := hx.bounds
      have hge := hx.size_ge hok
      exact absurd ⟨by omega, by omega⟩ hout
    · rw [total_append] at hx ⊢
      rw [← hlen]
      exact Or.inr hx

/-- A fresh allocation, freed again: the pieces are those before it, and the bytes that differ
lie in the block it took or among the words the library keeps. -/
theorem freed_alloc (h : GlobalInv G Ls) {p size alignment flags need blk : ℕ} (tag : ℕ)
    (ha : AllocAccepted G p size alignment flags need blk) :
    let G₁ := allocCommit (popSlot G) p G.freeSlotHead blk need size (allocFlags flags) tag
    let start := poolStart G (G.pools p)
    ∃ n, FreeAt start (Ls p) blk n ∧ need ≤ n
      ∧ PoolInv (freed G₁ G.freeSlotHead) p (Ls p)
      ∧ ∀ z, ¬ MetaByte start (Ls p) z → ¬ (blk ≤ z ∧ z < blk + n) →
        (freed G₁ G.freeSlotHead).mem z = G.mem z := by
  obtain ⟨L₁, n, L₂, hL, hle, rfl⟩ := ha.block (h.pool p ha.active)
  have hinv := alloc_inv h tag ha hL hle
  obtain ⟨hslt, -⟩ := h.slots.head_free ha.slot
  obtain ⟨hmin, hmod, hsize, -⟩ := allocNeed_spec ha.needEq
  have hpool := h.pool p ha.active
  rw [hL] at hpool
  have hnew : G.freeSlotHead ∉ liveSlots (L₁ ++ Piece.free n :: L₂) :=
    hL ▸ h.slot_not_live ha.slot ha.active
  have hpopz : SameZone G (popSlot G) := ⟨rfl, rfl, rfl, rfl, rfl⟩
  obtain ⟨hinv₁, hframe⟩ := allocCommit_inv (h.zone.of_same hpopz) hpool.popSlot hslt hnew hmin
    hmod hle ha.sizePos hsize (allocFlags flags) tag
  have hpools := allocCommit_pools (popSlot G) p G.freeSlotHead
    (poolStart G (G.pools p) + total Piece.len L₁) need size (allocFlags flags) tag
  obtain ⟨hsame, -, -⟩ := allocCommit_rest (popSlot G) p G.freeSlotHead
    (poolStart G (G.pools p) + total Piece.len L₁) need size (allocFlags flags) tag
  -- the live piece and what is left of the free one, which are joined again
  obtain ⟨k, C, hpieces, hC, hk⟩ := exists_allocPieces (s := G.freeSlotHead) hle
  obtain ⟨hL₁, hL₂⟩ := meets_free_apart hpool.layout.meets
  have hpop : poolStart (popSlot G) ((popSlot G).pools p) = poolStart G (G.pools p) := rfl
  dsimp only at hinv₁ hframe ⊢
  rw [hpop] at hinv₁ hframe
  rw [hpieces] at hinv₁ hframe
  generalize allocCommit (popSlot G) p G.freeSlotHead
    (poolStart G (G.pools p) + total Piece.len L₁) need size (allocFlags flags) tag = G₁ at *
  have hstart : poolStart G₁ (G₁.pools p) = poolStart G (G.pools p) := by
    refine (hpopz.trans hsame).poolStart ?_
    rw [hpools, Function.update_self]
    rfl
  have hz₁ : ZoneOk G₁ := h.zone.of_same (hpopz.trans hsame)
  obtain ⟨hinv₂, hframe₂⟩ := freeCommit_inv (B := []) hz₁ hinv₁ (Or.inl rfl) hC hL₁ hL₂
  have hlive : LiveAt (poolStart G₁ (G₁.pools p))
      (L₁ ++ ([] ++ Piece.live G.freeSlotHead k :: C) ++ L₂)
      (poolStart G₁ (G₁.pools p) + total Piece.len (L₁ ++ [])) G.freeSlotHead k :=
    (liveAt_free_iff (Or.inl rfl) hC).mpr (Or.inr ⟨rfl, rfl, rfl⟩)
  have hd := hinv₁.desc hlive
  have hfreed : freed G₁ G.freeSlotHead = freeCommit G₁ p G.freeSlotHead
      (poolStart G₁ (G₁.pools p) + total Piece.len (L₁ ++ [])) (poolEnd G₁ (G₁.pools p)) := by
    rw [freed, hd.pool, hd.start]
  rw [total_nil, Nat.zero_add, hk, ← hfreed, List.append_assoc, List.singleton_append,
    ← hL] at hinv₂
  rw [total_nil, Nat.zero_add, hk, ← hfreed, List.append_assoc L₁ [.free n],
    List.singleton_append, ← hL, hstart] at hframe₂
  refine ⟨n, ?_, hle, hinv₂, fun z hz hout => ?_⟩
  · rw [hL, freeAt_append]
    exact Or.inr List.mem_cons_self
  · have hmid : ¬ MetaByte (poolStart G (G.pools p))
        (L₁ ++ Piece.live G.freeSlotHead k :: C ++ L₂) z := by
      intro hm
      refine hz ?_
      rw [hL, ← List.singleton_append, ← List.append_assoc]
      refine hm.splice (fun t ht => hinv₁.layout.pieces t
        (List.mem_append_left _ (List.mem_append_right _ ht))) ?_ ?_
      · simp only [total_cons, total_nil, Piece.len]
        omega
      · simp only [total_cons, total_nil, Piece.len]
        exact hout
    rw [hframe₂ z hmid hz, hframe z (hL ▸ hz) hmid fun _ hzi => hout ?_]
    · rfl
    · omega

omit [PmConfig] in
/-- The head of a live-slot list has no predecessor. -/
lemma OrderOk.head_prev {obj : ℕ → ObjectDesc} {head : ℕ} {L : List Piece}
    (h : OrderOk obj head L) (hne : head ≠ noOrder) : (obj head).addrPrev = noOrder := by
  obtain ⟨l, hl, -⟩ := h
  cases l with
  | nil => exact absurd hl hne
  | cons i l =>
      obtain ⟨rfl, -, hprev, -⟩ := hl
      exact hprev

/-- What a fresh allocation in `slot` of pool `p` changes outside of the pool's bytes, and its
`free` restores. -/
structure Undone (G G' : GlobalState) (p slot : ℕ) : Prop where
  zone : SameZone G G'
  pools : ∀ q, q ≠ p → G'.pools q = G.pools q
  entry : G'.pools p = { G.pools p with bins := (G'.pools p).bins }
  objects : ∀ i < pmMaxObjects, i ≠ slot → G'.objects i = G.objects i
  slot : (G.objects slot).state = .free ∧ (G'.objects slot).state = .free
    ∧ (G'.objects slot).nextFreeSlot = (G.objects slot).nextFreeSlot
  freeSlots : G'.freeSlotHead = G.freeSlotHead
  liveCount : G'.liveObjectCount = G.liveObjectCount

lemma freed_alloc_undone (h : GlobalInv G Ls) {p size alignment flags need blk : ℕ} (tag : ℕ)
    (ha : AllocAccepted G p size alignment flags need blk) :
    Undone G (freed (allocCommit (popSlot G) p G.freeSlotHead blk need size (allocFlags flags) tag)
      G.freeSlotHead) p G.freeSlotHead := by
  obtain ⟨n, -, -, hinv, -⟩ := freed_alloc h tag ha
  obtain ⟨hslt, hsfree⟩ := h.slots.head_free ha.slot
  have hpool := h.pool p ha.active
  have hhead : ((popSlot G).pools p).orderHead ≠ G.freeSlotHead :=
    h.head_ne_slot ha.slot ha.active
  have hpopz : SameZone G (popSlot G) := ⟨rfl, rfl, rfl, rfl, rfl⟩
  have hpools := allocCommit_pools (popSlot G) p G.freeSlotHead blk need size (allocFlags flags)
    tag
  have hobj := allocCommit_objects (popSlot G) p G.freeSlotHead blk need size (allocFlags flags)
    tag hhead
  obtain ⟨hsame, hfree, hcount⟩ := allocCommit_rest (popSlot G) p G.freeSlotHead blk need size
    (allocFlags flags) tag
  generalize allocCommit (popSlot G) p G.freeSlotHead blk need size (allocFlags flags) tag = G₁
    at *
  have hd := hobj G.freeSlotHead
  rw [if_pos rfl] at hd
  -- the new object was pushed onto the head of the list, so it leaves it as it was
  have hprev : (G₁.objects G.freeSlotHead).addrPrev = noOrder := by rw [hd]; rfl
  have hnext : (G₁.objects G.freeSlotHead).addrNext = (G.pools p).orderHead := by rw [hd]; rfl
  have hpid : (G₁.objects G.freeSlotHead).poolId = p := by rw [hd]; rfl
  rw [freed, hpid] at hinv ⊢
  have hp' : (G₁.objects G.freeSlotHead).addrPrev ≠ G.freeSlotHead := by
    rw [hprev]
    exact (slot_ne_noOrder hslt).symm
  have hn' : (G₁.objects G.freeSlotHead).addrNext ≠ G.freeSlotHead := by
    rw [hnext]
    exact hhead
  have hpools₂ := freeCommit_pools G₁ p G.freeSlotHead (G₁.objects G.freeSlotHead).block
    (poolEnd G₁ (G₁.pools p))
  have hobj₂ := fun i (hi : i < pmMaxObjects) => freeCommit_objects G₁ p G.freeSlotHead
    (G₁.objects G.freeSlotHead).block (poolEnd G₁ (G₁.pools p)) hp' hn' (slot_ne_noOrder hi)
  obtain ⟨hsame₂, hfree₂, hcount₂⟩ := freeCommit_rest G₁ p G.freeSlotHead
    (G₁.objects G.freeSlotHead).block (poolEnd G₁ (G₁.pools p))
  generalize freeCommit G₁ p G.freeSlotHead (G₁.objects G.freeSlotHead).block
    (poolEnd G₁ (G₁.pools p)) = G₂ at *
  have hentry := congrFun hpools₂ p
  rw [Function.update_self, congrFun hpools p, Function.update_self, hprev, hnext] at hentry
  refine ⟨hpopz.trans (hsame.trans hsame₂), fun q hq => ?_, ?_, fun i hi hne => ?_, ?_, ?_, ?_⟩
  · rw [hpools₂, Function.update_of_ne hq, hpools, Function.update_of_ne hq]
    rfl
  · have hused := hinv.used.trans hpool.used.symm
    have hfreeB := hinv.free.trans hpool.free.symm
    have hlive := hinv.live.trans hpool.live.symm
    have hsplit : G₂.pools p = { G.pools p with
        bins := (G₂.pools p).bins
        usedBytes := (G₂.pools p).usedBytes
        freeBytes := (G₂.pools p).freeBytes
        liveObjects := (G₂.pools p).liveObjects } := by
      rw [hentry]
      rfl
    rwa [hused, hfreeB, hlive] at hsplit
  · rw [hobj₂ i hi, if_neg hne, hprev, hnext, if_neg (slot_ne_noOrder hi), hobj, if_neg hne]
    have hpop : (popSlot G).pools p = G.pools p := rfl
    rw [hpop]
    by_cases hih : i = (G.pools p).orderHead
    · have hio : (G.pools p).orderHead ≠ noOrder := hih ▸ slot_ne_noOrder hi
      rw [if_pos ⟨hih, hio⟩, if_pos hih, ← hpool.order.head_prev hio, ← hih]
      rfl
    · rw [if_neg fun hh => hih hh.1, if_neg hih]
      rfl
  · rw [hobj₂ _ hslt, if_pos rfl]
    exact ⟨hsfree, rfl, hfree⟩
  · exact hfree₂
  · obtain ⟨l, -, -, hlen⟩ := h.slots
    have hmax := PmConfig.maxObjects_lt
    have hpop : (popSlot G).liveObjectCount = G.liveObjectCount := rfl
    rw [hcount₂, hcount, hpop, u32_of_lt (by omega), sub32_of_le (by omega) (by omega)]
    omega

/-- The reference a successful `alloc` returns is one `free` accepts at once. -/
lemma AllocAccepted.freeable (h : GlobalInv G Ls) {p size alignment flags need blk : ℕ} (tag : ℕ)
    (ha : AllocAccepted G p size alignment flags need blk) :
    let G₁ := allocCommit (popSlot G) p G.freeSlotHead blk need size (allocFlags flags) tag
    Freeable G₁ ⟨G.freeSlotHead, nextGeneration (G.objects G.freeSlotHead).generation, p, 0⟩
      ∧ (G₁.objects G.freeSlotHead).destroyFn = none ∧ Healthy G₁ := by
  obtain ⟨L₁, n, L₂, hL, hle, rfl⟩ := ha.block (h.pool p ha.active)
  have hinv := alloc_inv h tag ha hL hle
  obtain ⟨hslt, -⟩ := h.slots.head_free ha.slot
  have hhead : ((popSlot G).pools p).orderHead ≠ G.freeSlotHead :=
    h.head_ne_slot ha.slot ha.active
  have hpools := congrFun (allocCommit_pools (popSlot G) p G.freeSlotHead
    (poolStart G (G.pools p) + total Piece.len L₁) need size (allocFlags flags) tag) p
  have hobj := allocCommit_objects (popSlot G) p G.freeSlotHead
    (poolStart G (G.pools p) + total Piece.len L₁) need size (allocFlags flags) tag hhead
    G.freeSlotHead
  rw [Function.update_self] at hpools
  rw [if_pos rfl] at hobj
  dsimp only
  generalize allocCommit (popSlot G) p G.freeSlotHead
    (poolStart G (G.pools p) + total Piece.len L₁) need size (allocFlags flags) tag = G₁ at *
  -- a generation is never zero
  have hgen : nextGeneration (G.objects G.freeSlotHead).generation ≠ 0 := by
    rw [nextGeneration]
    split_ifs with h0
    · exact one_ne_zero
    · exact h0
  have halign : alignmentOk 1 = true := by
    have hok := ha.alignOk
    rw [alignmentOk] at hok ⊢
    simp only [decide_eq_true_eq] at hok ⊢
    exact ⟨one_ne_zero, rfl, by omega⟩
  have hrun : (G₁.pools p).state = .running := by
    rw [hpools]
    exact ha.running
  refine ⟨⟨rfl, ⟨(G₁.objects G.freeSlotHead).address, ?_⟩, ?_⟩, ?_, ⟨_, hinv⟩⟩
  · -- the checks of `check_ref`, on the descriptor that was just written
    have hstate : (G₁.objects G.freeSlotHead).state = .live := by rw [hobj]; rfl
    have hgen₁ : (G₁.objects G.freeSlotHead).generation =
        nextGeneration (G.objects G.freeSlotHead).generation := by rw [hobj]; rfl
    have hpid : (G₁.objects G.freeSlotHead).poolId = p := by rw [hobj]; rfl
    rw [checkRef_healthy hinv]
    dsimp only
    rw [hpid, hrun, hstate, hgen₁, if_neg, if_neg, if_neg, if_neg, if_neg, if_neg]
    · rfl
    · simp
    · simp
    · simp [halign]
    · simp
    · simp
    · simp [hslt, hgen]
  · dsimp only
    rw [hobj]
    rfl
  · rw [hobj]
    rfl

end Layout

/-! ### Every run -/

/-- After a fresh allocation in `slot` of pool `p` has been freed again: nothing has changed but
the order inside the bins, the free slot, and bytes of free blocks and slack. -/
structure Restored (G G' : GlobalState) (p slot : ℕ) : Prop where
  undone : Undone G G' p slot
  freeBlocks : (freeOffsets G' (G'.pools p)).Perm (freeOffsets G (G.pools p))
    ∧ ∀ o ∈ freeOffsets G (G.pools p), sizeAt G' o = sizeAt G o
  bins : ∀ f < flCount, ∀ s < pmSlCount,
    (binOffsets G' (auditSteps G' (G'.pools p)) ((G'.pools p).bins.head f s)).Perm
      (binOffsets G (auditSteps G (G.pools p)) ((G.pools p).bins.head f s))
  bitmaps : (∀ f < flCount, (G'.pools p).bins.slBitmap f = (G.pools p).bins.slBitmap f)
    ∧ (G'.pools p).bins.flBitmap = (G.pools p).bins.flBitmap
  layout : ∃ L, Represents G p L ∧ Represents G' p L
    ∧ (∀ x t, (x, t) ∈ place Piece.len (poolStart G (G.pools p)) L → (∀ n, t ≠ .slack n) →
      load32 G'.mem x = load32 G.mem x ∧ load32 G'.mem (x + 4) = load32 G.mem (x + 4))
    ∧ ∀ z, (∀ x t, (x, t) ∈ place Piece.len (poolStart G (G.pools p)) L → x ≤ z →
      z < x + t.len → ∃ s n, t = .live s n) → G'.mem z = G.mem z

section Pools

variable {G G' : GlobalState} {Ls : ℕ → List Piece} {p : ℕ} {L : List Piece}

/-- Two states of a pool with one layout have the same blocks in every bin. -/
lemma PoolInv.binOffsets_perm (hz : ZoneOk G) (h : PoolInv G p L) (hz' : ZoneOk G')
    (h' : PoolInv G' p L) (hzone : G'.zone = G.zone)
    (hstart : poolStart G' (G'.pools p) = poolStart G (G.pools p)) {f s : ℕ} (hf : f < flCount)
    (hs : s < pmSlCount) :
    (PondMerge.binOffsets G' (auditSteps G' (G'.pools p)) ((G'.pools p).bins.head f s)).Perm
      (PondMerge.binOffsets G (auditSteps G (G.pools p)) ((G.pools p).bins.head f s)) := by
  have hl := h.binOffsets hz hf hs
  have hl' := h'.binOffsets hz' hf hs
  rw [hzone, hstart] at hl'
  refine (List.perm_ext_iff_of_nodup hl'.1.nodup hl.1.nodup).mpr fun o => ?_
  exact (hl'.2 o).trans (hl.2 o).symm

/-- Nor do the bitmaps differ. -/
lemma BinsRep.bitmaps {zone : ℕ} {m m' : Mem} {b b' : TlsfBins} {F : ℕ → ℕ → Prop}
    (h : BinsRep zone m b F) (h' : BinsRep zone m' b' F) :
    (∀ f < flCount, b'.slBitmap f = b.slBitmap f) ∧ b'.flBitmap = b.flBitmap := by
  have hhead : ∀ f < flCount, ∀ s < pmSlCount, b'.head f s = nullOff ↔ b.head f s = nullOff := by
    intro f hf s hs
    obtain ⟨l, hl⟩ := h.list f hf s hs
    obtain ⟨l', hl'⟩ := h'.list f hf s hs
    rw [hl.head_null, hl'.head_null, List.eq_nil_iff_forall_not_mem, List.eq_nil_iff_forall_not_mem]
    exact forall_congr' fun o => not_congr ((hl'.2 o).trans (hl.2 o).symm)
  have hrow : ∀ f < flCount, b'.slBitmap f = b.slBitmap f := by
    intro f hf
    refine Nat.eq_of_testBit_eq fun s => Bool.eq_iff_iff.mpr ?_
    rw [h.slBit f hf, h'.slBit f hf]
    exact and_congr_right fun hs => not_congr (hhead f hf s hs)
  refine ⟨hrow, Nat.eq_of_testBit_eq fun f => Bool.eq_iff_iff.mpr ?_⟩
  rw [h.flBit, h'.flBit]
  exact and_congr_right fun hf => by rw [hrow f hf]

/-- The bytes two states of one layout can differ in, where everything but metadata and free
blocks is the same. -/
lemma PoolInv.bytes (h : PoolInv G p L) (h' : PoolInv G' p L)
    (hstart : poolStart G' (G'.pools p) = poolStart G (G.pools p)) {z : ℕ}
    (hz : ∀ x t, (x, t) ∈ place Piece.len (poolStart G (G.pools p)) L → x ≤ z →
      z < x + t.len → ∃ s n, t = .live s n)
    (hframe : ¬ MetaByte (poolStart G (G.pools p)) L z → G'.mem z = G.mem z) :
    G'.mem z = G.mem z := by
  by_cases hm : MetaByte (poolStart G (G.pools p)) L z
  swap
  · exact hframe hm
  have hheaders := h'.headers
  rw [hstart] at hheaders
  rcases hm with ⟨⟨x, t⟩, hu, hlo, hhi⟩ | ⟨x, n, hx, hlo, hhi⟩
  · have hlen := (h.layout.pieces t (mem_of_mem_place hu)).len_ge
    dsimp only at hlo hhi
    obtain ⟨s, n, rfl⟩ := hz x t hu hlo (by omega)
    have hb := h.headers.bytes hheaders hu (fun k hk => nomatch hk) (k := z - x) (by omega)
    rwa [show x + (z - x) = z by omega] at hb
  · have hlen := (hx.size_ge h.layout.pieces).1
    have hfree : z < x + (Piece.free n).len := by
      rw [Piece.len]
      omega
    obtain ⟨s, k, heq⟩ := hz x (.free n) hx (by omega) hfree
    cases heq

lemma Undone.state {slot : ℕ} (u : Undone G G' p slot) (q : ℕ) :
    (G'.pools q).state = (G.pools q).state
      ∧ (G'.pools q).segmentFirst = (G.pools q).segmentFirst
      ∧ (G'.pools q).segmentCount = (G.pools q).segmentCount := by
  by_cases hq : q = p
  · rw [hq, u.entry]
    exact ⟨rfl, rfl, rfl⟩
  · rw [u.pools q hq]
    exact ⟨rfl, rfl, rfl⟩

lemma Undone.active {slot q : ℕ} (u : Undone G G' p slot) (hq : Active G q) : Active G' q :=
  ⟨hq.1, by rw [(u.state q).1]; exact hq.2⟩

/-- The invariant of the whole state, with the layouts of before. -/
lemma GlobalInv.undone (h : GlobalInv G Ls) (hp : Active G p) {slot : ℕ}
    (u : Undone G G' p slot) (hinv : PoolInv G' p (Ls p)) (hslot : slot < pmMaxObjects)
    (hmem : ∀ z, ¬ InWindow G p z → G'.mem z = G.mem z) : GlobalInv G' Ls := by
  have hback : ∀ q, Active G' q → Active G q := fun q hq =>
    ⟨hq.1, by rw [← (u.state q).1]; exact hq.2⟩
  have hother : ∀ i < pmMaxObjects, (G'.objects i).state = (G.objects i).state := by
    intro i hi
    by_cases hne : i = slot
    · rw [hne, u.slot.1, u.slot.2.1]
    · rw [u.objects i hi hne]
  refine h.replace (A := (· = p)) u.zone (fun q hq => u.pools q hq) (fun _ _ => rfl)
    (fun q hq => Or.inr ?_) (fun q hq _ => ?_) (fun q r hq hq' hr' hne => ?_)
    (fun q hq hqa i hi => ?_) (fun q hq hqa z hzq => ?_) (fun i hi hl => ?_) (fun i hi => ?_) ?_
  · rw [(u.state q).1, hq]
    exact (h.settled p hp.1).resolve_left hp.2
  · rw [hq]
    exact hinv
  · have hap := h.apart q r (hback q hq') (hback r hr') hne
    rw [SegmentsApart, (u.state q).2.1, (u.state q).2.2, (u.state r).2.1, (u.state r).2.2]
    exact hap
  · have hlt := (h.pool q hqa).layout.slot_lt hi
    have hne : i ≠ slot := by
      rintro rfl
      have hlive := ((h.pool q hqa).poolId hi).2
      rw [u.slot.1] at hlive
      cases hlive
    rw [u.objects i hlt hne]
    exact .refl _
  · exact hmem z (h.window_apart hqa hp hq hzq)
  · rw [hother i hi] at hl
    obtain ⟨q, hq, hm⟩ := h.owned i hi hl
    exact ⟨q, u.active hq, hm⟩
  · rw [hother i hi]
    exact h.idle i hi
  · obtain ⟨l, hl, hm, hlen⟩ := h.slots
    -- the slot is back at the head of the free list
    have hnext : ∀ i < pmMaxObjects,
        (G'.objects i).nextFreeSlot = (G.objects i).nextFreeSlot := by
      intro i hi
      by_cases hne : i = slot
      · rw [hne, u.slot.2.2]
      · rw [u.objects i hi hne]
    refine ⟨l, ?_, fun i => (hm i).trans (and_congr_right fun hi => by rw [hother i hi]), ?_⟩
    · rw [u.freeSlots]
      exact hl.congr fun i hi => hnext i ((hm i).mp hi).1
    · rw [u.liveCount]
      exact hlen

/-- A fresh allocation and its `free`, on the invariant of the whole state. -/
theorem freed_alloc_restored (h : GlobalInv G Ls) {size alignment flags need blk : ℕ} (tag : ℕ)
    (ha : AllocAccepted G p size alignment flags need blk) :
    Restored G (freed (allocCommit (popSlot G) p G.freeSlotHead blk need size (allocFlags flags)
      tag) G.freeSlotHead) p G.freeSlotHead := by
  have hundone := freed_alloc_undone h tag ha
  obtain ⟨n, hblk, -, hinv, hframe⟩ := freed_alloc h tag ha
  have hpool := h.pool p ha.active
  generalize freed (allocCommit (popSlot G) p G.freeSlotHead blk need size (allocFlags flags) tag)
    G.freeSlotHead = G' at *
  -- outside of the pool nothing has been written
  have hmem : ∀ z, ¬ InWindow G p z → G'.mem z = G.mem z := by
    intro z hz
    refine hframe z (fun hm => hz (hpool.meta_inWindow hm)) fun hin => hz ?_
    have hb := hblk.bounds
    rw [InWindow, hpool.end_eq]
    omega
  have hz := hundone.zone.zone
  have hz' : ZoneOk G' := h.zone.of_same hundone.zone
  have hstart : poolStart G' (G'.pools p) = poolStart G (G.pools p) :=
    hundone.zone.poolStart (by rw [hundone.entry])
  -- both states represent the same layout, so they agree on all metadata that it determines
  have hheaders := hinv.headers
  rw [hstart] at hheaders
  have hbins := hinv.bins
  rw [hz, hstart] at hbins
  have hoffs := hinv.freeOffsets_perm hz'
  rw [hz, hstart] at hoffs
  refine ⟨hundone, ⟨hoffs.trans (hpool.freeOffsets_perm h.zone).symm, fun o ho => ?_⟩,
    fun f hf s hs => hpool.binOffsets_perm h.zone hz' hinv hz hstart hf hs,
    hpool.bins.bitmaps hbins, Ls p, PoolInv.represents h ha.active, ?_, ?_, fun z hzl => ?_⟩
  · obtain ⟨u, hu, rfl⟩ := List.mem_map.mp ((hpool.freeOffsets_perm h.zone).mem_iff.mp ho)
    have hx := mem_freeSpots.mp (show (u.1, u.2) ∈ _ from hu)
    have hx' := hx
    rw [← hstart] at hx'
    have hsize := hinv.sizeAt_off hz' hx'
    rw [hz] at hsize
    rw [hsize, hpool.sizeAt_off h.zone hx]
  · exact PoolInv.represents (h.undone ha.active hundone hinv (h.slots.head_free ha.slot).1 hmem)
      (hundone.active ha.active)
  · exact fun x t hx ht => hpool.headers.words hheaders hx ht
  · refine hpool.bytes hinv hstart hzl fun hm => hframe z hm fun hin => ?_
    obtain ⟨s, k, heq⟩ := hzl blk (.free n) hblk hin.1 hin.2
    cases heq

end Pools

variable {G : GlobalState}

/-- In every state of every run, freeing the reference an `alloc` has just returned succeeds,
and the layout is the one before the `alloc`. -/
theorem reachable_alloc_free (h : Reachable G) (p size alignment flags tag : ℕ) (run : Callback)
    (hok : (alloc G p size alignment flags tag).1 = .ok) :
    let r := alloc G p size alignment flags tag
    (free run r.2.2 r.2.1).1 = .ok ∧ Restored G (free run r.2.2 r.2.1).2 p r.2.1.index := by
  obtain ⟨Ls, hinv⟩ := h.healthy
  rcases alloc_cases G p size alignment flags tag with ⟨st, hst, heq⟩ | ⟨need, blk, ha, heq⟩
  · rw [heq] at hok
    exact absurd hok hst
  dsimp only
  rw [heq]
  obtain ⟨hf, hfn, hhealthy⟩ := ha.freeable hinv tag
  rw [(Underway.of_healthy hhealthy).free_plain hf hfn run]
  exact ⟨rfl, freed_alloc_restored hinv tag ha⟩

omit [PmConfig] in
set_option maxRecDepth 100000 in
theorem reachable_alloc_free_neighbours :
    letI := defaultConfig
    let r := alloc neighbours 0 40 8 0 7
    (free (fun _ _ H => H) r.2.2 r.2.1).1 = .ok
      ∧ Restored neighbours (free (fun _ _ H => H) r.2.2 r.2.1).2 0 r.2.1.index :=
  letI := defaultConfig
  reachable_alloc_free neighbours_reachable 0 40 8 0 7 (fun _ _ H => H) (by decide +kernel)

end PondMerge
