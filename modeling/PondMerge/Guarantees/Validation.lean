import PondMerge.Guarantees.Availability
import PondMerge.Operations.Soundness

/-!
What an `Ok` of `validate` means.

* `ValidPool`, `validate_sound`: an `Ok` proves the structure of the pool, whatever its bytes
  and descriptors hold.
-/

namespace PondMerge

open ByteMemory LinkedList Tiling

variable [PmConfig]

/-! ### Soundness -/

/-- The blocks of a pool, as zone offsets: those of its live slots and its binned ones. -/
def blocksIn (G : GlobalState) (p : ℕ) (slots : List ℕ) : List Extent :=
  slots.map (liveExtent G) ++ (freeOffsets G (G.pools p)).map (freeExtent G)

/-- Some block of the list covers offset `x`. -/
def Covered (l : List Extent) (x : ℕ) : Prop := ∃ e ∈ l, e.1 ≤ x ∧ x < e.2

instance (l : List Extent) : DecidablePred (Covered l) :=
  fun _ => inferInstanceAs (Decidable (∃ e ∈ l, _))

/-- The structure an `Ok` of `validate` proves, with the live-slot list of the pool. -/
structure ValidPool (G : GlobalState) (p : ℕ) (slots : List ℕ) : Prop where
  list : IsDList (fun i => (G.objects i).addrNext) (fun i => (G.objects i).addrPrev) noOrder
    noOrder (G.pools p).orderHead slots
  nodup : slots.Nodup
  live : ∀ i ∈ slots, Listed G p i
  chains : ∀ f < flCount, ∀ s < pmSlCount, IsChain (binNext G) nullOff ((G.pools p).bins.head f s)
    (binOffsets G (auditSteps G (G.pools p)) ((G.pools p).bins.head f s))
  once : ∀ o ∈ freeOffsets G (G.pools p), (freeOffsets G (G.pools p)).count o = 1
  ownBin : ∀ f < flCount, ∀ s < pmSlCount,
    ∀ o, o ∈ binOffsets G (auditSteps G (G.pools p)) ((G.pools p).bins.head f s) ↔
      o ∈ freeOffsets G (G.pools p) ∧ flBin (sizeAt G o) = f ∧ slBin (sizeAt G o) = s
  inside : ∀ e ∈ blocksIn G p slots, poolStartOff G (G.pools p) ≤ e.1 ∧ e.1 < e.2
    ∧ e.2 ≤ poolStartOff G (G.pools p) + poolCapacity G (G.pools p)
  apart : (blocksIn G p slots).Pairwise fun e e' => e.2 ≤ e'.1 ∨ e'.2 ≤ e.1
  liveHeader : ∀ i ∈ slots, blkIsFree G.mem (G.objects i).block = false
    ∧ blkSizeOf G.mem (G.objects i).block = (G.objects i).blockSize
  freeHeader : ∀ o ∈ freeOffsets G (G.pools p), blkIsFree G.mem (ptrOf G.zone o) = true
  gaps : ∀ u v, poolStartOff G (G.pools p) ≤ u →
    v ≤ poolStartOff G (G.pools p) + poolCapacity G (G.pools p) →
    (∀ x, u ≤ x → x < v → ¬ Covered (blocksIn G p slots) x) → v - u < pmMinBlock
  untouched : ∀ o ∈ freeOffsets G (G.pools p), ∀ o' ∈ freeOffsets G (G.pools p),
    (freeExtent G o).2 ≠ (freeExtent G o').1
  liveObjects : (G.pools p).liveObjects = slots.length
  usedBytes : (G.pools p).usedBytes = (slots.map fun i => (G.objects i).blockSize).sum
  freeBytes : (G.pools p).freeBytes = poolCapacity G (G.pools p) - (G.pools p).usedBytes
  fragmentBytes : (G.pools p).fragmentBytes =
    (List.range' (poolStartOff G (G.pools p)) (poolCapacity G (G.pools p))).countP
      fun x => ¬ Covered (blocksIn G p slots) x

section Slack

variable {P : ℕ → Prop} {a : ℕ} {L : List Piece}

/-- The bytes at which `P` holds are those of the slack runs of the layout. -/
def SlackBytes (P : ℕ → Prop) (a : ℕ) (L : List Piece) : Prop :=
  ∀ w ∈ place Piece.len a L, ∀ x, w.1 ≤ x → x < w.1 + w.2.len → (P x ↔ ∃ n, w.2 = .slack n)

omit [PmConfig] in
lemma SlackBytes.tail {t : Piece} (h : SlackBytes P a (t :: L)) :
    SlackBytes P (a + t.len) L :=
  fun w hw => h w (List.mem_cons_of_mem _ hw)

/-- A run of slack bytes lies in one slack run. -/
lemma slack_run (h : SlackBytes P a L) (hpos : ∀ t ∈ L, 0 < t.len)
    (hmeet : L.IsChain Piece.MayMeet) (hslack : ∀ n, .slack n ∈ L → n < pmMinBlock) {u v : ℕ}
    (hu : a ≤ u) (hv : v ≤ a + total Piece.len L) (hrun : ∀ x, u ≤ x → x < v → P x) :
    v - u < pmMinBlock := by
  have hmin := PmConfig.minBlock_ge
  induction L generalizing a with
  | nil =>
      rw [total_nil] at hv
      omega
  | cons t L ih =>
      obtain ⟨hhead, hmeet'⟩ := List.isChain_cons.mp hmeet
      rw [total_cons] at hv
      by_cases hnext : a + t.len ≤ u
      · exact ih h.tail (fun t ht => hpos t (List.mem_cons_of_mem _ ht)) hmeet'
          (fun n hn => hslack n (List.mem_cons_of_mem _ hn)) hnext (by omega)
      by_cases hempty : v ≤ u
      · omega
      obtain ⟨n, rfl⟩ := (h _ List.mem_cons_self u hu (by simpa using hnext)).mp
        (hrun u le_rfl (by omega))
      have hn := hslack n List.mem_cons_self
      rw [Piece.len] at hv hnext
      -- the byte behind the slack belongs to a block
      by_cases hend : v ≤ a + n
      · omega
      cases L with
      | nil =>
          rw [total_nil] at hv
          omega
      | cons t L =>
          have ht := hpos t (List.mem_cons_of_mem _ List.mem_cons_self)
          obtain ⟨k, rfl⟩ := (h.tail _ List.mem_cons_self (a + n) le_rfl
            (by simpa [Piece.len] using ht)).mp (hrun (a + n) (by omega) (by omega))
          exact absurd (hhead _ rfl) id

omit [PmConfig] in
/-- The slack bytes of a layout are as many as its slack runs hold. -/
lemma slack_count [DecidablePred P] (h : SlackBytes P a L) :
    (List.range' a (total Piece.len L)).countP (fun x => P x) = lostOf L := by
  induction L generalizing a with
  | nil => rfl
  | cons t L ih =>
      have hself := h _ List.mem_cons_self
      rw [total_cons, lostOf_cons, ← List.range'_append_1, List.countP_append, ih h.tail]
      congr 1
      have hall : ∀ x ∈ List.range' a t.len, P x ↔ ∃ n, t = .slack n := by
        intro x hx
        rw [List.mem_range'_1] at hx
        exact hself x hx.1 hx.2
      cases t with
      | slack n =>
          rw [List.countP_eq_length.mpr fun x hx => by simpa using (hall x hx).mpr ⟨n, rfl⟩]
          exact List.length_range'
      | live s n =>
          exact List.countP_eq_zero.mpr fun x hx => by simpa using (hall x hx).not.mpr (by simp)
      | free n =>
          exact List.countP_eq_zero.mpr fun x hx => by simpa using (hall x hx).not.mpr (by simp)

end Slack

section Tiles

variable {G : GlobalState} {p : ℕ} {L : List Piece} {slots : List ℕ}

/-- The blocks of a pool as tiles of its window. -/
def tilesIn (G : GlobalState) (p : ℕ) (slots : List ℕ) : List (ℕ × Piece) :=
  slots.map (fun i => ((liveExtent G i).1, .live i (G.objects i).blockSize))
    ++ (freeOffsets G (G.pools p)).map fun o => (o, .free (sizeAt G o))

lemma blocksIn_eq : blocksIn G p slots =
    (tilesIn G p slots).map fun w => (w.1, w.1 + w.2.len) := by
  rw [blocksIn, tilesIn, List.map_append, List.map_map, List.map_map]
  rfl

/-- The tiles are the pieces of the layout that are no slack. -/
lemma Vouched.mem_tilesIn (h : Vouched G p L) (hslots : slots.Perm (liveSlots L))
    {w : ℕ × Piece} : w ∈ tilesIn G p slots ↔
      w ∈ place Piece.len (poolStartOff G (G.pools p)) L ∧ ∀ n, w.2 ≠ .slack n := by
  have hstart := poolStart_eq G (G.pools p)
  -- offsets of the zone are addresses of the layout
  have hlive : ∀ {x i n}, LiveAt (poolStart G (G.pools p)) L (G.zone + x) i n ↔
      (x, .live i n) ∈ place Piece.len (poolStartOff G (G.pools p)) L := by
    intro x i n
    rw [LiveAt, hstart, mem_place_shift]
  have hfree : ∀ {x n}, FreeAt (poolStart G (G.pools p)) L (G.zone + x) n ↔
      (x, .free n) ∈ place Piece.len (poolStartOff G (G.pools p)) L := by
    intro x n
    rw [FreeAt, hstart, mem_place_shift]
  rw [tilesIn, List.mem_append, List.mem_map, List.mem_map]
  constructor
  · rintro (⟨i, hi, rfl⟩ | ⟨o, ho, rfl⟩)
    · obtain ⟨x, n, hx⟩ := exists_liveAt (poolStart G (G.pools p)) (hslots.mem_iff.mp hi)
      obtain ⟨haddr, hsize, -⟩ := h.liveBlock hx
      have hb := hx.bounds
      refine ⟨hlive.mp ?_, by simp⟩
      have : G.zone + (liveExtent G i).1 = x := by
        rw [liveExtent, haddr]
        dsimp only
        omega
      rwa [this, hsize]
    · exact ⟨hfree.mp (h.binned o ho), by simp⟩
  · rintro ⟨hw, hslack⟩
    obtain ⟨x, t⟩ := w
    cases t with
    | live i n =>
        have hx := hlive.mpr hw
        obtain ⟨haddr, hsize, -⟩ := h.liveBlock hx
        refine Or.inl ⟨i, hslots.mem_iff.mpr hx.mem_liveSlots, ?_⟩
        rw [liveExtent, haddr, hsize]
        dsimp only
        rw [show G.zone + x + 8 - G.zone - 8 = x by omega]
    | free n =>
        obtain ⟨o, ho, hxo, hn⟩ := h.freeBlock (hfree.mpr hw)
        refine Or.inr ⟨o, ho, ?_⟩
        rw [ptrOf] at hxo
        rw [hn, show o = x by omega]
    | slack n => exact absurd rfl (hslack n)

lemma Vouched.pos (h : Vouched G p L) : ∀ t ∈ L, 0 < t.len := by
  intro t ht
  have hmin := PmConfig.minBlock_ge
  obtain ⟨x, hx⟩ := exists_mem_place (poolStart G (G.pools p)) ht
  cases t with
  | live i n =>
      obtain ⟨-, hsize, hv⟩ := h.liveBlock hx
      have := hv.facts.1.1
      rw [Piece.len]
      omega
  | free n =>
      obtain ⟨o, ho, -, rfl⟩ := h.freeBlock hx
      obtain ⟨m, hm⟩ := h.bins
      have := (auditBlock_facts ((auditPoolBins_sound hm).2.2 o ho).2).2.2.1
      rw [Piece.len]
      omega
  | slack n => exact (h.slack n ht).1

lemma Vouched.tilesIn_nodup (h : Vouched G p L) (hnd : slots.Nodup) :
    (tilesIn G p slots).Nodup := by
  obtain ⟨m, hm⟩ := h.bins
  refine List.Nodup.append (hnd.map fun i j heq => ?_)
    ((auditPoolBins_sound hm).2.1.map fun o o' heq => (Prod.mk.inj heq).1) ?_
  · exact (Piece.live.inj (Prod.mk.inj heq).2).1
  · rw [List.disjoint_left]
    intro w hw hw'
    obtain ⟨i, -, rfl⟩ := List.mem_map.mp hw
    obtain ⟨o, -, heq⟩ := List.mem_map.mp hw'
    cases (Prod.mk.inj heq).2

/-- The uncovered bytes of the window are those of the slack runs. -/
lemma Vouched.slackBytes (h : Vouched G p L) (hslots : slots.Perm (liveSlots L)) :
    SlackBytes (fun x => ¬ Covered (blocksIn G p slots) x) (poolStartOff G (G.pools p)) L := by
  intro w hw x hlo hhi
  rw [blocksIn_eq]
  constructor
  · intro hno
    by_contra hslack
    push Not at hslack
    exact hno ⟨_, List.mem_map.mpr ⟨w, (h.mem_tilesIn hslots).mpr ⟨hw, hslack⟩, rfl⟩, hlo, hhi⟩
  · rintro ⟨n, hn⟩ ⟨e, he, hlo', hhi'⟩
    obtain ⟨v, hv, rfl⟩ := List.mem_map.mp he
    obtain ⟨hvp, hvs⟩ := (h.mem_tilesIn hslots).mp hv
    rcases place_apart hvp hw with rfl | hap
    · exact hvs n hn
    · dsimp only at hlo' hhi'
      omega

end Tiles

/-- For arbitrary counters, bins, live-slot list, descriptors and zone bytes: an `Ok` of
`validate` proves the structure of a pool whose window lies in the zone. -/
theorem validate_sound {G : GlobalState} {p : ℕ} (hz : ZoneOk G)
    (hgeo : poolGeometryOk G (G.pools p) = true) (h : validate G p = .ok) :
    ∃ slots, ValidPool G p slots := by
  obtain ⟨-, L, hL⟩ := validate_vouched hz hgeo h
  obtain ⟨slots, hlist, hperm⟩ := hL.order
  obtain ⟨m, hm⟩ := hL.bins
  obtain ⟨hchains, hnd, hown⟩ := auditPoolBins_sound hm
  have hmem := fun {w} => hL.mem_tilesIn hperm (w := w)
  have hbytes := hL.slackBytes hperm
  have hend : poolStartOff G (G.pools p) + Tiling.total Piece.len L =
      poolStartOff G (G.pools p) + poolCapacity G (G.pools p) := by
    rw [hL.total]
  -- block sizes summed along the layout, in the order of addresses
  have hused : usedOf L = (slots.map fun i => (G.objects i).blockSize).sum := by
    rw [(hperm.map _).sum_eq]
    clear hlist hperm hmem hbytes
    have hsize : ∀ {x s n}, LiveAt (poolStart G (G.pools p)) L x s n →
        (G.objects s).blockSize = n := fun hx => (hL.liveBlock hx).2.1
    generalize poolStart G (G.pools p) = a at hsize
    clear hL hend
    induction L generalizing a with
    | nil => rfl
    | cons t L ih =>
        have hrest := ih (a + t.len) fun hx => hsize (List.mem_cons_of_mem _ hx)
        cases t with
        | live s n =>
            rw [usedOf_cons, liveSlots_live, List.map_cons, List.sum_cons, hrest,
              hsize List.mem_cons_self]
            rfl
        | free n => rw [usedOf_cons, liveSlots_free, hrest, Piece.used, Nat.zero_add]
        | slack n => rw [usedOf_cons, liveSlots_slack, hrest, Piece.used, Nat.zero_add]
  -- the conjuncts of `ValidPool`, read off the layout
  refine ⟨slots, hlist, hlist.nodup, fun i hi => hL.listed i (hperm.mem_iff.mp hi),
    fun f hf s hs => (hchains f hf s hs).1, fun o ho => List.count_eq_one_of_mem hnd ho,
    fun f hf s hs o => ⟨fun ho => ?_, ?_⟩, fun e he => ?_, ?_, fun i hi => ?_, fun o ho => ?_,
    fun u v hu hv hrun => ?_, fun o ho o' ho' heq => ?_, ?_, hL.used.trans hused, ?_, ?_⟩
  · have hm' : o ∈ freeOffsets G (G.pools p) :=
      List.mem_flatMap.mpr ⟨(f, s), mem_allBins.mpr ⟨hf, hs⟩, ho⟩
    have hb := (hchains f hf s hs).2 o ho
    rw [auditBlock] at hb
    simp only [decide_eq_true_eq] at hb
    exact ⟨hm', hb.2.2.2.2.2.1, hb.2.2.2.2.2.2.1⟩
  · rintro ⟨ho, rfl, rfl⟩
    exact (hown o ho).1
  · rw [blocksIn_eq] at he
    obtain ⟨w, hw, rfl⟩ := List.mem_map.mp he
    obtain ⟨hwp, -⟩ := hmem.mp hw
    have hb := place_bounds (x := w.1) (t := w.2) hwp
    have hpos := hL.pos _ (mem_of_mem_place (x := w.1) (t := w.2) hwp)
    dsimp only
    omega
  · rw [blocksIn_eq, List.pairwise_map]
    refine (List.Pairwise.and_mem.mp (hL.tilesIn_nodup hlist.nodup)).imp fun {w v} hwv => ?_
    obtain ⟨hw, hv, hne⟩ := hwv
    exact (place_apart (hmem.mp hw).1 (hmem.mp hv).1).resolve_left hne
  · obtain ⟨x, n, hx⟩ := exists_liveAt (poolStart G (G.pools p)) (hperm.mem_iff.mp hi)
    have hf := (hL.liveBlock hx).2.2.facts
    dsimp only at hf
    obtain ⟨-, -, haddr, -, -, h1, h2, -⟩ := hf
    rw [ObjectDesc.block, show (G.objects i).address - 8 =
      G.zone + ((G.objects i).address - G.zone - 8) by omega]
    exact ⟨h1, h2⟩
  · exact (auditBlock_facts (hown o ho).2).2.2.2.2.1
  · exact slack_run hbytes hL.pos hL.meets (fun n hn => (hL.slack n hn).2) hu (by omega) hrun
  · -- the two blocks would be neighbouring free pieces
    have hw := hmem.mp (List.mem_append_right _ (List.mem_map.mpr ⟨o, ho, rfl⟩))
    have hv := hmem.mp (List.mem_append_right _ (List.mem_map.mpr ⟨o', ho', rfl⟩))
    obtain ⟨L₁, L₂, rfl, hx⟩ := exists_split hw.1
    have hmeet := (List.isChain_append.mp hL.meets).2.1
    have hb := place_bounds hv.1
    have hpos' := hL.pos _ (mem_of_mem_place hv.1)
    have hend' : o + sizeAt G o = o' := heq
    rw [place_append, List.mem_append, place_cons, List.mem_cons] at hv
    simp only [Piece.len, Piece.free.injEq, Prod.mk.injEq] at hv hpos' hx
    rcases hv.1 with hm₁ | ⟨h1, -⟩ | hm₂
    · have := (place_bounds hm₁).2
      simp only [Piece.len] at this
      omega
    · have := hL.pos _ (List.mem_append_right _ List.mem_cons_self)
      simp only [Piece.len] at this
      omega
    · cases L₂ with
      | nil => cases hm₂
      | cons t L₂ =>
          rw [place_cons, List.mem_cons, Prod.mk.injEq] at hm₂
          rcases hm₂ with ⟨-, rfl⟩ | hm₂
          · exact (List.isChain_cons.mp hmeet).1 _ rfl
          · have ht := hL.pos t (by simp)
            have := (place_bounds hm₂).1
            omega
  · rw [hL.live, hperm.length_eq]
  · rw [hL.free, hL.total, hL.used]
  · rw [hL.lost, ← slack_count hbytes, hL.total]

omit [PmConfig] in
theorem validate_sound_neighbours :
    letI := defaultConfig; ∃ slots, ValidPool neighbours 0 slots := by
  let _ := defaultConfig
  obtain ⟨Ls, hinv⟩ := neighbours_reachable.healthy
  exact validate_sound hinv.zone (by decide +kernel) (by decide +kernel)

end PondMerge
