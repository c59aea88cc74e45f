import PondMerge.Operations.Neighbours
import Mathlib.Data.List.Sort

/-!
The address-ordered enumeration of a pool's live slots and the descriptor audit built on it.

* `collectWalk_sound`, `collectWalk_complete`: the walk returns exactly a well-formed list.
* `collectSort_perm`: sorting permutes, in any state.
* `PoolInv.collect`: on a healthy pool the enumeration is the live slots of the layout in
  address order, and `PoolInv.precheck`: its audit passes.
-/

namespace PondMerge

open ByteMemory HeapSort LinkedList Tiling

variable [PmConfig]

/-! ### Sorting lists -/

omit [PmConfig] in
lemma listOf_arrayOf (l : List ℕ) : listOf (arrayOf l) l.length = l := by
  refine List.ext_getElem (by simp [listOf]) fun i h₁ h₂ => ?_
  simp [listOf, arrayOf, h₂]

omit [PmConfig] in
/-- Heapsort permutes the sorted entries. -/
lemma listOf_heapSort_perm (less : ℕ → ℕ → Bool) (a : ℕ → ℕ) (n : ℕ) :
    (listOf (heapSort less a n) n).Perm (listOf a n) :=
  heapSort_perm less a n

omit [PmConfig] in
/-- Heapsort orders the sorted entries. -/
lemma listOf_heapSort_pairwise {less : ℕ → ℕ → Bool}
    (asymm : ∀ x y, less x y = true → less y x = false)
    (trans : ∀ x y z, less y x = false → less z y = false → less z x = false)
    (a : ℕ → ℕ) (n : ℕ) :
    (listOf (heapSort less a n) n).Pairwise fun x y => less y x = false := by
  rw [listOf, List.pairwise_iff_getElem]
  intro i j hi hj hij
  simp only [List.length_map, List.length_range] at hi hj
  simp only [List.getElem_map, List.getElem_range]
  exact heapSort_sorted asymm trans a n i j hij hj

omit [PmConfig] in
/-- The heapsort of `sort_u32_asc` orders any array. -/
lemma listOf_heapSort_le (a : ℕ → ℕ) (n : ℕ) :
    (listOf (heapSort (fun x y => decide (x < y)) a n) n).Pairwise (· ≤ ·) := by
  refine (listOf_heapSort_pairwise ?_ ?_ a n).imp ?_
  · simp only [decide_eq_true_eq, decide_eq_false_iff_not]
    omega
  · simp only [decide_eq_false_iff_not]
    omega
  · simp only [decide_eq_false_iff_not]
    omega

omit [PmConfig] in
lemma sortU32Asc_perm (l : List ℕ) : (sortU32Asc l).Perm l := by
  have h := listOf_heapSort_perm (fun x y => decide (x < y)) (arrayOf l) l.length
  rwa [listOf_arrayOf] at h

omit [PmConfig] in
lemma sortU32Asc_pairwise (l : List ℕ) : (sortU32Asc l).Pairwise (· ≤ ·) :=
  listOf_heapSort_le (arrayOf l) l.length

omit [PmConfig] in
/-- The ascending scan proves the order. -/
lemma scanAscending_iff (l : List ℕ) : scanAscending l = true ↔ l.Pairwise (· ≤ ·) := by
  rw [← List.isChain_iff_pairwise]
  induction l with
  | nil => simp [scanAscending]
  | cons x l ih =>
      cases l with
      | nil => simp [scanAscending]
      | cons y l => simp only [scanAscending, Bool.and_eq_true, decide_eq_true_eq, ih,
          List.isChain_cons_cons]

omit [PmConfig] in
/-- The descending scan proves the reversed order. -/
lemma scanDescending_iff (l : List ℕ) : scanDescending l = true ↔ l.Pairwise (· ≥ ·) := by
  rw [← List.isChain_iff_pairwise]
  induction l with
  | nil => simp [scanDescending]
  | cons x l ih =>
      cases l with
      | nil => simp [scanDescending]
      | cons y l => simp only [scanDescending, Bool.and_eq_true, decide_eq_true_eq, ih,
          List.isChain_cons_cons, ge_iff_le]

omit [PmConfig] in
lemma sortPackedKeys_perm (l : List ℕ) : (sortPackedKeys l).Perm l := by
  rw [sortPackedKeys]
  split_ifs
  · exact List.Perm.refl _
  · exact List.Perm.refl _
  · exact List.reverse_perm l
  · exact sortU32Asc_perm l

omit [PmConfig] in
lemma sortPackedKeys_pairwise (l : List ℕ) : (sortPackedKeys l).Pairwise (· ≤ ·) := by
  rw [sortPackedKeys]
  split_ifs with h1 h2 h3
  · match l, h1 with
    | [], _ => exact List.Pairwise.nil
    | [x], _ => exact List.pairwise_singleton _ x
  · exact (scanAscending_iff l).mp h2
  · exact List.pairwise_reverse.mpr ((scanDescending_iff l).mp h3)
  · exact sortU32Asc_pairwise l

/-! ### The comparator and the packed keys -/

omit [PmConfig] in
lemma slotLess_eq (G : GlobalState) (x y : ℕ) :
    slotLess G x y = decide ((G.objects x).address < (G.objects y).address
      ∨ ((G.objects x).address = (G.objects y).address ∧ x < y)) := by
  rw [slotLess]
  split_ifs with h
  · simp [h]
  · have heq := not_not.mp h
    simp [heq]

omit [PmConfig] in
/-- The comparator heapsort orders any array by address, ties by slot. -/
lemma listOf_heapSort_slotLess (G : GlobalState) (a : ℕ → ℕ) (n : ℕ) :
    (listOf (heapSort (slotLess G) a n) n).Pairwise fun i j => slotLess G j i = false := by
  refine listOf_heapSort_pairwise ?_ ?_ a n
  · simp only [slotLess_eq, decide_eq_true_eq, decide_eq_false_iff_not]
    omega
  · simp only [slotLess_eq, decide_eq_false_iff_not]
    omega

omit [PmConfig] in
lemma sortSlotsByAddress_perm (G : GlobalState) (l : List ℕ) :
    (sortSlotsByAddress G l).Perm l := by
  have h := listOf_heapSort_perm (slotLess G) (arrayOf l) l.length
  rwa [listOf_arrayOf] at h

omit [PmConfig] in
lemma sortSlotsByAddress_pairwise (G : GlobalState) (l : List ℕ) :
    (sortSlotsByAddress G l).Pairwise fun i j => slotLess G j i = false :=
  listOf_heapSort_slotLess G (arrayOf l) l.length

omit [PmConfig] in
/-- The order of the comparator refines the order by address. -/
lemma slotLess_of_lt {G : GlobalState} {i j : ℕ}
    (h : (G.objects i).address < (G.objects j).address) : slotLess G j i = false := by
  rw [slotLess_eq, decide_eq_false_iff_not]
  omega

omit [PmConfig] in
/-- Lists in the order of the comparator are determined by their entries. -/
lemma eq_of_slotLess {G : GlobalState} {l l' : List ℕ} (hp : l.Perm l')
    (h : l.Pairwise fun i j => slotLess G j i = false)
    (h' : l'.Pairwise fun i j => slotLess G j i = false) : l = l' := by
  refine hp.eq_of_pairwise (fun i j _ _ hij hji => ?_) h h'
  rw [slotLess_eq, decide_eq_false_iff_not] at hij hji
  omega

omit [PmConfig] in
/-- A packed key gives its slot back. -/
lemma packedKey_mod (G : GlobalState) {i : ℕ} (hi : i < 2 ^ 8) : packedKey G i % 2 ^ 8 = i := by
  rw [packedKey]
  generalize ((((G.objects i).address : ℤ) - G.zone) % 2 ^ 32).toNat = k
  omega

omit [PmConfig] in
/-- A packed key of an address inside a zone of 24 bits. -/
lemma packedKey_eq (G : GlobalState) {i : ℕ} (hlo : G.zone ≤ (G.objects i).address)
    (hhi : (G.objects i).address < G.zone + 2 ^ 24) :
    packedKey G i = ((G.objects i).address - G.zone) * 2 ^ 8 + i := by
  rw [packedKey]
  have h : ((((G.objects i).address : ℤ) - G.zone) % 2 ^ 32).toNat =
      (G.objects i).address - G.zone := by omega
  rw [h]
  omega

omit [PmConfig] in
/-- Unpacked, the keys of slots of 8 bits are the slots. -/
lemma unpacked_perm {G : GlobalState} {l : List ℕ} (hl : ∀ i ∈ l, i < 2 ^ 8) :
    ((l.map (packedKey G)).map (· % 2 ^ 8)).Perm l := by
  rw [List.map_map]
  refine .of_eq ((List.map_congr_left fun i hi => ?_).trans (List.map_id l))
  exact packedKey_mod G (hl i hi)

/-- Sorting permutes the slots, whatever their descriptors hold. -/
lemma collectSort_perm (G : GlobalState) {l : List ℕ} (hl : ∀ i ∈ l, i < pmMaxObjects) :
    (collectSort G l).Perm l := by
  rw [collectSort]
  split_ifs with h
  · have hl8 : ∀ i ∈ l, i < 2 ^ 8 := fun i hi => by
      have hlt := hl i hi
      omega
    exact ((sortPackedKeys_perm _).map _).trans (unpacked_perm hl8)
  · exact sortSlotsByAddress_perm G l

omit [PmConfig] in
/-- Unpacked, the sorted keys of slots of 8 bits in a zone of 24 bits are in the order of
the comparator. -/
lemma unpacked_pairwise {G : GlobalState} {l K : List ℕ} (hK : K.Pairwise (· ≤ ·))
    (hperm : K.Perm (l.map (packedKey G))) (hl : ∀ i ∈ l, i < 2 ^ 8)
    (hin : ∀ i ∈ l, G.zone ≤ (G.objects i).address
      ∧ (G.objects i).address < G.zone + 2 ^ 24) :
    (K.map (· % 2 ^ 8)).Pairwise fun i j => slotLess G j i = false := by
  have hkey : ∀ k ∈ K, ∃ i ∈ l,
      k = ((G.objects i).address - G.zone) * 2 ^ 8 + i ∧ k % 2 ^ 8 = i := by
    intro k hk
    rw [hperm.mem_iff, List.mem_map] at hk
    obtain ⟨i, hi, rfl⟩ := hk
    have hz := hin i hi
    exact ⟨i, hi, packedKey_eq G hz.1 hz.2, packedKey_mod G (hl i hi)⟩
  rw [List.pairwise_map]
  refine hK.imp_of_mem fun {a b} ha hb hab => ?_
  obtain ⟨i, hi, hai, ham⟩ := hkey a ha
  obtain ⟨j, hj, hbj, hbm⟩ := hkey b hb
  have hi8 := hl i hi
  have hj8 := hl j hj
  have hzi := hin i hi
  have hzj := hin j hj
  rw [ham, hbm, slotLess_eq, decide_eq_false_iff_not]
  omega

/-- Sorting orders the slots by address where the addresses lie in the zone. -/
lemma collectSort_pairwise (G : GlobalState) {l : List ℕ} (hl : ∀ i ∈ l, i < pmMaxObjects)
    (hin : ∀ i ∈ l, G.zone ≤ (G.objects i).address
      ∧ (G.objects i).address < G.zone + G.zoneSize) :
    (collectSort G l).Pairwise fun i j => slotLess G j i = false := by
  rw [collectSort]
  split_ifs with h
  · refine unpacked_pairwise (sortPackedKeys_pairwise _) (sortPackedKeys_perm _)
      (fun i hi => ?_) fun i hi => ?_
    · have hlt := hl i hi
      omega
    · have hz := hin i hi
      omega
  · exact sortSlotsByAddress_pairwise G l

/-! ### The walk -/

/-- What the walk demands of a descriptor. -/
def Listed (G : GlobalState) (pid i : ℕ) : Prop :=
  i < pmMaxObjects ∧ (G.objects i).state = .live ∧ (G.objects i).poolId = pid
    ∧ (G.objects i).generation ≠ 0

/-- A walk that returns has gone through a doubly linked list of live descriptors. -/
lemma collectWalk_sound {G : GlobalState} {pid fuel cap prev idx : ℕ} {l : List ℕ}
    (h : collectWalk G pid fuel cap prev idx = some l) :
    IsDList (fun i => (G.objects i).addrNext) (fun i => (G.objects i).addrPrev) noOrder prev idx l
      ∧ (∀ i ∈ l, Listed G pid i) ∧ l.length ≤ cap := by
  induction fuel generalizing cap prev idx l with
  | zero =>
      rw [collectWalk] at h
      split_ifs at h with h0
      obtain rfl := Option.some.inj h
      exact ⟨h0, by simp, by simp⟩
  | succ fuel ih =>
      rw [collectWalk] at h
      split_ifs at h with h0 h1 h2 h3 h4
      · obtain rfl := Option.some.inj h
        exact ⟨h0, by simp, by simp⟩
      · obtain ⟨l', hl', rfl⟩ := Option.map_eq_some_iff.mp h
        obtain ⟨hd, hmem, hlen⟩ := ih hl'
        refine ⟨⟨rfl, h0, not_not.mp h3, hd⟩, fun i hi => ?_, ?_⟩
        · rcases List.mem_cons.mp hi with rfl | hi
          · exact ⟨by omega, by tauto, by tauto, by tauto⟩
          · exact hmem i hi
        · rw [List.length_cons]
          omega

/-- The walk goes through every such list that is not too long. -/
lemma collectWalk_complete {G : GlobalState} {pid fuel cap prev idx : ℕ} {l : List ℕ}
    (hl : IsDList (fun i => (G.objects i).addrNext) (fun i => (G.objects i).addrPrev) noOrder
      prev idx l) (hmem : ∀ i ∈ l, Listed G pid i) (hcap : l.length ≤ cap)
    (hfuel : l.length ≤ fuel) : collectWalk G pid fuel cap prev idx = some l := by
  induction l generalizing fuel cap prev idx with
  | nil =>
      cases fuel with
      | zero => exact if_pos hl
      | succ fuel => exact if_pos hl
  | cons i l ih =>
      obtain ⟨rfl, hne, hprev, htl⟩ := hl
      obtain ⟨hlt, hlive, hpid, hgen⟩ := hmem _ List.mem_cons_self
      rw [List.length_cons] at hcap hfuel
      cases fuel with
      | zero => omega
      | succ fuel =>
          rw [collectWalk, if_neg hne, if_neg (by omega), if_neg (by tauto),
            if_neg (not_not.mpr hprev), if_neg (by omega)]
          rw [ih htl (fun j hj => hmem j (List.mem_cons_of_mem _ hj)) (by omega) (by omega)]
          rfl

/-! ### The enumeration of a healthy pool -/

omit [PmConfig] in
/-- The final check compares neighbours. -/
lemma distinctAddresses_iff {G : GlobalState} (l : List ℕ) : distinctAddresses G l = true ↔
    l.IsChain fun i j => (G.objects j).address ≠ (G.objects i).address := by
  induction l with
  | nil => simp [distinctAddresses]
  | cons i l ih =>
      cases l with
      | nil => simp [distinctAddresses]
      | cons j l => simp only [distinctAddresses, Bool.and_eq_true, decide_eq_true_eq, ih,
          List.isChain_cons_cons]

omit [PmConfig] in
/-- Neighbours of an address-ordered list of distinct addresses differ. -/
lemma distinctAddresses_of_pairwise {G : GlobalState} {l : List ℕ}
    (h : l.Pairwise fun i j => (G.objects i).address < (G.objects j).address) :
    distinctAddresses G l = true :=
  (distinctAddresses_iff l).mpr (h.imp fun hlt => hlt.ne').isChain

section Pool

variable {G : GlobalState} {p : ℕ} {L : List Piece}

/-- The live slots of a layout lie in address order. -/
lemma liveSlots_pairwise {a : ℕ} {M : List Piece} (hok : ∀ t ∈ M, t.Ok)
    (hd : ∀ {x s n}, LiveAt a M x s n → (G.objects s).address = x + 8) :
    (liveSlots M).Pairwise fun i j => (G.objects i).address < (G.objects j).address := by
  induction M generalizing a with
  | nil => exact List.Pairwise.nil
  | cons t M ih =>
      have hrest := ih (a := a + t.len) (fun t ht => hok t (List.mem_cons_of_mem _ ht))
        fun hx => hd (List.mem_cons_of_mem _ hx)
      cases t with
      | free n => exact hrest
      | slack n => exact hrest
      | live s n =>
          refine List.Pairwise.cons (fun j hj => ?_) hrest
          obtain ⟨y, k, hy⟩ := exists_liveAt (a + n) hj
          have hlen := (hok (.live s n) List.mem_cons_self).len_ge
          have hb := hy.bounds
          simp only [Piece.len] at hlen
          rw [hd (x := a) (s := s) (n := n) List.mem_cons_self,
            hd (x := y) (s := j) (n := k) (List.mem_cons_of_mem _ hy)]
          omega

lemma PoolInv.ordered (h : PoolInv G p L) :
    (liveSlots L).Pairwise fun i j => (G.objects i).address < (G.objects j).address :=
  liveSlots_pairwise h.layout.pieces fun hx => (h.desc hx).address

lemma PoolInv.listed (h : PoolInv G p L) {s : ℕ} (hs : s ∈ liveSlots L) : Listed G p s := by
  obtain ⟨x, n, hx, hd⟩ := h.desc_of_mem hs
  exact ⟨(hx.size_ge h.layout.pieces).1, hd.state, hd.pool, hd.generation⟩

/-- The addresses of different live slots differ. -/
lemma PoolInv.address_inj (h : PoolInv G p L) {i j : ℕ} (hi : i ∈ liveSlots L)
    (hj : j ∈ liveSlots L) (heq : (G.objects i).address = (G.objects j).address) : i = j := by
  obtain ⟨x, n, hx, hdi⟩ := h.desc_of_mem hi
  obtain ⟨y, k, hy, hdj⟩ := h.desc_of_mem hj
  rw [hdi.address, hdj.address] at heq
  have huv := place_unique h.layout.pieces hx hy (by omega)
  exact (Piece.live.inj (Prod.mk.inj huv).2).1

/-- On a healthy pool the enumeration is the live slots in address order. -/
theorem PoolInv.collect (hz : ZoneOk G) (h : PoolInv G p L) {cap : ℕ}
    (hcap : (liveSlots L).length ≤ cap) :
    collectLiveSorted G (G.pools p) p cap = some (liveSlots L) := by
  obtain ⟨l, hl, hperm⟩ := h.order
  have hlen := hperm.length_eq
  have hmax := h.layout.length_le
  have hlisted : ∀ i ∈ l, Listed G p i := fun i hi => h.listed (hperm.mem_iff.mp hi)
  have hwalk : collectWalk G p (pmMaxObjects + 1) cap noOrder (G.pools p).orderHead = some l :=
    collectWalk_complete hl hlisted (by omega) (by omega)
  have hin : ∀ i ∈ l, G.zone ≤ (G.objects i).address
      ∧ (G.objects i).address < G.zone + G.zoneSize := by
    intro i hi
    obtain ⟨x, n, hx, hd⟩ := h.desc_of_mem (hperm.mem_iff.mp hi)
    have hb := hx.bounds
    have hle := hd.sizeLe
    have hpos := hd.sizePos
    have hw := h.window_le hz
    have hs := poolStart_eq G (G.pools p)
    rw [hd.address]
    omega
  have hsort : collectSort G l = liveSlots L := by
    have hp := collectSort_perm G fun i hi => (hlisted i hi).1
    have hsorted := collectSort_pairwise G (fun i hi => (hlisted i hi).1) hin
    exact eq_of_slotLess (hp.trans hperm) hsorted (h.ordered.imp slotLess_of_lt)
  rw [collectLiveSorted, hwalk]
  dsimp only
  rw [hsort, if_pos (distinctAddresses_of_pairwise h.ordered)]

/-! ### The descriptor audit -/

/-- The walk of `precheck_pool` over the live slots of a layout. -/
lemma precheckWalk_layout {m : Mem} {start stop : ℕ} (hm : G.mem = m) {M : List Piece}
    {a q e used : ℕ} (hok : ∀ t ∈ M, t.Ok) (hh : Headers m a q M)
    (hd : ∀ {x s n}, LiveAt a M x s n → DescOk (G.objects s) p x n) (ha : a % 8 = 0)
    (hlo : start ≤ a) (hhi : a + total Piece.len M ≤ stop) (he : e ≤ a)
    (hsum : used + usedOf M < 2 ^ 32) :
    precheckWalk G start stop (liveSlots M) e used = some (used + usedOf M) := by
  induction M generalizing a q e used with
  | nil => rfl
  | cons t M ih =>
      have hmod := (hok t List.mem_cons_self).len_mod
      rw [total_cons] at hhi
      rw [usedOf_cons] at hsum
      have hrest := fun {e u : ℕ} => @ih _ _ e u
        (fun t ht => hok t (List.mem_cons_of_mem _ ht)) hh.2
        (fun hx => hd (List.mem_cons_of_mem _ hx)) (by omega) (by omega) (by omega)
      cases t with
      | free n =>
          simp only [Piece.len, Piece.used] at *
          rw [liveSlots_free, usedOf_cons, Piece.used, hrest (by omega) (by omega), Nat.zero_add]
      | slack n =>
          simp only [Piece.len, Piece.used] at *
          rw [liveSlots_slack, usedOf_cons, Piece.used, hrest (by omega) (by omega), Nat.zero_add]
      | live s n =>
          have hdesc := hd (x := a) (s := s) (n := n) List.mem_cons_self
          have hs := hok _ (List.mem_cons_self (a := Piece.live s n) (l := M))
          have hmin := hs.2.1
          have h16 := PmConfig.minBlock_ge
          have hsl := hdesc.sizeLe
          simp only [Piece.len, Piece.used] at *
          have hblock : (G.objects s).block = a := by
            rw [ObjectDesc.block, hdesc.address]
            omega
          have hw := hh.1.1
          -- the slot passes: its header is the one that the layout writes
          have hslot : precheckSlot G start stop e (G.objects s) = true := by
            rw [precheckSlot]
            simp only [decide_eq_true_eq, hblock, hdesc.block, hdesc.address, hm,
              blkIsFree_live hmod hw, blkSizeOf_live hmod hw, and_true]
            omega
          rw [liveSlots_live, precheckWalk, hslot, if_neg (by simp), hblock, hdesc.block,
            u32_of_lt (by omega),
            hrest (by omega) (by omega), usedOf_cons, Piece.used, Nat.add_assoc]

/-- The descriptor audit of the maintenance operations accepts a healthy pool. -/
theorem PoolInv.precheck (hz : ZoneOk G) (h : PoolInv G p L) {cap : ℕ}
    (hcap : (liveSlots L).length ≤ cap) :
    precheckPool G (G.pools p) p (poolStart G (G.pools p)) (poolEnd G (G.pools p)) cap =
      some (liveSlots L) := by
  have hwin := h.window_lt hz
  have hsum := usedOf_add_lostOf_le L
  have hend := h.end_eq
  rw [precheckPool, h.geometry hz, if_neg (by simp), h.collect hz hcap]
  dsimp only
  rw [precheckWalk_layout rfl h.layout.pieces h.headers h.desc (PoolInv.start_mod hz) le_rfl
    (by rw [hend]) le_rfl (by omega)]
  dsimp only
  rw [if_neg, if_neg]
  · rw [hend, Nat.add_sub_cancel_left, u32_of_lt (by omega), Nat.zero_add,
      sub32_of_le (by omega) (by omega), h.free]
    simp
  · rw [h.live, h.used, Nat.zero_add]
    simp

end Pool

end PondMerge
