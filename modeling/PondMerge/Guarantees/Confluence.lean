import PondMerge.Guarantees.NormalForm

/-!
Maintenance is confluent: the layout in the end depends on the objects and the window only, not on
the way there.

* `PackedFrom.unique`: a packed row is determined by its blocks and its pinned addresses.
* `Packaged.alike`: so are the pools that two courses of maintenance leave.
* `merge_directions_alike`: the direction of a merge names the pool only.
* `split_merge_alike`: a split that is merged back, either way, is a compaction.
-/

namespace PondMerge

open ByteMemory Tiling

variable [PmConfig]

/-! ### Rows -/

/-- The rows `l` of two descriptor tables have the same blocks, and the pinned ones in the same
places. -/
structure SameRow (obj obj' : ℕ → ObjectDesc) (l : List ℕ) : Prop where
  size : ∀ i ∈ l, (obj' i).blockSize = (obj i).blockSize
  pinned : ∀ i ∈ l, (obj' i).pinned = (obj i).pinned
  fixed : ∀ i ∈ l, (obj i).pinned = true → (obj' i).block = (obj i).block

section Rows

variable {obj obj' : ℕ → ObjectDesc} {stop c : ℕ} {l : List ℕ}

omit [PmConfig] in
lemma SameRow.tail {i : ℕ} (h : SameRow obj obj' (i :: l)) : SameRow obj obj' l :=
  ⟨fun j hj => h.size j (List.mem_cons_of_mem _ hj),
    fun j hj => h.pinned j (List.mem_cons_of_mem _ hj),
    fun j hj => h.fixed j (List.mem_cons_of_mem _ hj)⟩

omit [PmConfig] in
/-- There is one way to pack a row. -/
theorem PackedFrom.unique (h : PackedFrom obj obj c l) (h' : PackedFrom obj' obj' c l)
    (hrow : SameRow obj obj' l) : ∀ i ∈ l, (obj' i).block = (obj i).block := by
  induction l generalizing c with
  | nil => simp
  | cons i l ih =>
      obtain ⟨hb, hrest⟩ := h
      obtain ⟨hb', hrest'⟩ := h'
      have hsize := hrow.size i List.mem_cons_self
      have hpin := hrow.pinned i List.mem_cons_self
      have hblock : (obj' i).block = (obj i).block := by
        by_cases hp : (obj i).pinned = true
        · exact hrow.fixed i List.mem_cons_self hp
        · rw [hb, hb', if_neg hp, if_neg (by rw [hpin]; exact hp)]
      rw [hblock, hsize] at hrest'
      intro j hj
      cases List.mem_cons.mp hj with
      | inl hji =>
          rw [hji]
          exact hblock
      | inr hj => exact ih hrest hrest' hrow.tail j hj

/-- The pieces of a row are read off its blocks. -/
lemma packed_congr (h : ∀ i ∈ l, (obj' i).block = (obj i).block
      ∧ (obj' i).blockSize = (obj i).blockSize) : packed obj' stop c l = packed obj stop c l := by
  induction l generalizing c with
  | nil => rfl
  | cons i l ih =>
      obtain ⟨hb, hs⟩ := h i List.mem_cons_self
      rw [packed, packed, hb, hs, ih fun j hj => h j (List.mem_cons_of_mem _ hj)]

end Rows

section Relocations

variable {G G₁ G₂ : GlobalState} {l : List ℕ}

omit [PmConfig] in
/-- One relocation after another. -/
lemma Relocated.trans (h : Relocated G G₁ l) (h' : Relocated G₁ G₂ l) : Relocated G G₂ l := by
  refine ⟨fun i hi => (h.kept i hi).trans (h'.kept i hi), fun i hi hp => ?_,
    fun i hi j hj => (h'.order i hi j hj).trans (h.order i hi j hj), fun i hi k hk => ?_,
    fun i hi => (h'.other i hi).trans (h.other i hi)⟩
  · rw [h'.pinned i hi (by rw [(h.kept i hi).pinned]; exact hp), h.pinned i hi hp]
  · rw [h'.payload i hi k (by rw [(h.kept i hi).size]; exact hk), h.payload i hi k hk]

omit [PmConfig] in
/-- Two relocations of one row. -/
lemma Relocated.sameRow (h₁ : Relocated G G₁ l) (h₂ : Relocated G G₂ l) :
    SameRow G₁.objects G₂.objects l := by
  refine ⟨fun i hi => ?_, fun i hi => ?_, fun i hi hp => ?_⟩
  · rw [(h₁.kept i hi).blockSize, (h₂.kept i hi).blockSize]
  · rw [(h₁.kept i hi).pinned, (h₂.kept i hi).pinned]
  · rw [(h₁.kept i hi).pinned] at hp
    rw [ObjectDesc.block, ObjectDesc.block, h₁.pinned i hi hp, h₂.pinned i hi hp]

omit [PmConfig] in
/-- What both keep. -/
lemma Relocated.kept₂ (h₁ : Relocated G G₁ l) (h₂ : Relocated G G₂ l) {i : ℕ} (hi : i ∈ l) :
    Kept (G₁.objects i) (G₂.objects i) := by
  have k₁ := h₁.kept i hi
  have k₂ := h₂.kept i hi
  exact ⟨k₂.state.trans k₁.state.symm, k₂.generation.trans k₁.generation.symm,
    k₂.size.trans k₁.size.symm, k₂.blockSize.trans k₁.blockSize.symm,
    k₂.userTag.trans k₁.userTag.symm, k₂.flags.trans k₁.flags.symm,
    k₂.destroyFn.trans k₁.destroyFn.symm, k₂.activeBorrows.trans k₁.activeBorrows.symm,
    k₂.nextFreeSlot.trans k₁.nextFreeSlot.symm⟩

end Relocations

/-! ### Pools that look alike -/

/-- Pool `p` of `G` and pool `q` of `G'` have one window, one row of pieces in it with all that
shows it, and the same objects with the same bytes in the same places. -/
structure Alike (G G' : GlobalState) (p q : ℕ) : Prop where
  window : poolStart G' (G'.pools q) = poolStart G (G.pools p)
    ∧ poolEnd G' (G'.pools q) = poolEnd G (G.pools p)
  row : ∃ L, Represents G p L ∧ Represents G' q L
  objects : ∀ i, LiveObject G i → (G.objects i).poolId = p →
    Kept (G.objects i) (G'.objects i) ∧ (G'.objects i).address = (G.objects i).address
      ∧ ∀ k < (G.objects i).size,
        G'.mem ((G.objects i).address + k) = G.mem ((G.objects i).address + k)

section Pools

variable {G G₁ G₂ : GlobalState} {Ls Ls' Ls₁ Ls₂ : ℕ → List Piece} {p q : ℕ} {l : List ℕ}

/-- Between `G` and `E` only the blocks of the row `l` have been moved about, and the row now is
that of the idle pool `p`, which has the window from `a` to `b`. -/
structure Rearranged (G E : GlobalState) (Ls : ℕ → List Piece) (p : ℕ) (l : List ℕ) (a b : ℕ) :
    Prop where
  inv : GlobalInv E Ls
  active : Active E p
  idle : (E.pools p).borrowCount = 0
  slots : liveSlots (Ls p) = l
  relocated : Relocated G E l
  start : poolStart E (E.pools p) = a
  stop : poolEnd E (E.pools p) = b

/-- The row is packed in the end. -/
structure Packaged (G E : GlobalState) (Ls : ℕ → List Piece) (p : ℕ) (l : List ℕ) (a b : ℕ) : Prop
    extends Rearranged G E Ls p l a b where
  row : PackedFrom E.objects E.objects a l
  layout : Ls p = packed E.objects b a l

variable {a b : ℕ}

/-- What has been moved about before does not show. -/
lemma Rearranged.before (h : Rearranged G₁ G₂ Ls p l a b) (hr : Relocated G G₁ l) :
    Rearranged G G₂ Ls p l a b :=
  ⟨h.inv, h.active, h.idle, h.slots, hr.trans h.relocated, h.start, h.stop⟩

lemma Packaged.before (h : Packaged G₁ G₂ Ls p l a b) (hr : Relocated G G₁ l) :
    Packaged G G₂ Ls p l a b :=
  ⟨h.toRearranged.before hr, h.row, h.layout⟩

/-- Two packed pools over one row of objects and in one window, wherever these came from, look
alike. -/
theorem Packaged.alike (h₁ : Packaged G G₁ Ls₁ p l a b) (h₂ : Packaged G G₂ Ls₂ q l a b) :
    Alike G₁ G₂ p q := by
  have hrow := h₁.relocated.sameRow h₂.relocated
  have hblock := h₁.row.unique h₂.row hrow
  have hL : Ls₂ q = Ls₁ p := by
    rw [h₁.layout, h₂.layout]
    exact packed_congr fun i hi => ⟨hblock i hi, hrow.size i hi⟩
  refine ⟨⟨h₂.start.trans h₁.start.symm, h₂.stop.trans h₁.stop.symm⟩,
    ⟨Ls₁ p, PoolInv.represents h₁.inv h₁.active, ?_⟩, fun i hi hpool => ?_⟩
  · rw [← hL]
    exact PoolInv.represents h₂.inv h₂.active
  · have hmem : i ∈ l := h₁.slots ▸ (h₁.inv.mem_liveSlots h₁.active i).mpr ⟨hi, hpool⟩
    have haddr₁ := ((h₁.inv.pool p h₁.active).desc_self (h₁.slots ▸ hmem)).address
    have haddr₂ := ((h₂.inv.pool q h₂.active).desc_self (h₂.slots ▸ hmem)).address
    have haddr : (G₂.objects i).address = (G₁.objects i).address := by
      rw [haddr₁, haddr₂, hblock i hmem]
    refine ⟨h₁.relocated.kept₂ h₂.relocated hmem, haddr, fun k hk => ?_⟩
    have hk' : k < (G.objects i).size := by
      rw [← (h₁.relocated.kept i hmem).size]
      exact hk
    have hbyte₁ := h₁.relocated.payload i hmem k hk'
    have hbyte₂ := h₂.relocated.payload i hmem k hk'
    rw [haddr] at hbyte₂
    rw [hbyte₁, hbyte₂]

/-! ### One compaction -/

/-- What a compaction that executes `plan` leaves, whatever stopped the plan. -/
structure Installed (G C : GlobalState) (Ls : ℕ → List Piece) (p : ℕ) (l : List ℕ)
    (plan : List MovePlanEntry) : Prop
    extends Rearranged G C Ls p l (poolStart G (G.pools p)) (poolEnd G (G.pools p)) where
  placed : Placed G.objects C.objects l plan
  layout : Ls p = packed C.objects (poolEnd G (G.pools p)) (poolStart G (G.pools p)) l
  moved : (C.pools p).objectsMoved = plan.length ∧ (C.pools p).bytesMoved = planBytes plan

lemma compact_installed (h : GlobalInv G Ls) (hp : Active G p)
    (hidle : (G.pools p).borrowCount = 0) {req : Option CompactionRequest}
    (hreq : requestOk req = true) (elapsed : ℕ) :
    ∃ met C Ls', compact G p req elapsed = (.ok, met, C) ∧ Installed G C Ls' p (liveSlots (Ls p))
      (planOf G p req (liveSlots (Ls p))).1 := by
  have haud := (h.pool p hp).audited h.zone
  obtain ⟨-, hpack, hdst⟩ := compactPlan_slots h.zone haud req
  obtain ⟨hrep, hframe⟩ := compactDone_spec h.zone haud hpack hdst elapsed
  obtain ⟨hinv, hc⟩ := compactDone_inv h hp hpack hdst elapsed
  have hcount := compact_counts G p req elapsed p
  rw [compact_eq h hp hidle hreq elapsed] at hcount
  obtain ⟨hstart, hstop⟩ := hframe.window
  refine ⟨_, _, _, compact_eq h hp hidle hreq elapsed, ⟨⟨hinv, ?_, hcount.trans hidle, ?_,
    hc.relocated, hstart, hstop⟩, compactDone_placed haud.nodup hpack.sublist elapsed, ?_,
    compactDone_entry G p _ _ elapsed⟩⟩
  · exact ⟨hp.1, by rw [hframe.running]; decide⟩
  · rw [Function.update_self]
    exact hc.slots
  · rw [Function.update_self, packedLayout, hstart, hstop]

/-- A full compaction packs the row. -/
lemma Installed.packaged (h : Installed G G₁ Ls₁ p l
      (packMoves G.objects l (poolStart G (G.pools p)))) (hnd : l.Nodup) :
    Packaged G G₁ Ls₁ p l (poolStart G (G.pools p)) (poolEnd G (G.pools p)) :=
  ⟨h.toRearranged, (h.placed.packedFrom hnd).settled fun i hi =>
    ⟨(h.relocated.kept i hi).pinned, h.placed.size i hi⟩, h.layout⟩

lemma compact_packaged (h : GlobalInv G Ls) (hp : Active G p)
    (hidle : (G.pools p).borrowCount = 0) (elapsed : ℕ) :
    ∃ met C Ls', compact G p none elapsed = (.ok, met, C)
      ∧ Packaged G C Ls' p (liveSlots (Ls p)) (poolStart G (G.pools p))
        (poolEnd G (G.pools p)) := by
  obtain ⟨met, C, Ls', heq, hi⟩ :=
    compact_installed h hp hidle (rfl : requestOk none = true) elapsed
  rw [planOf_none] at hi
  exact ⟨met, C, Ls', heq, hi.packaged ((h.pool p hp).audited h.zone).nodup⟩

end Pools

/-! ### Merges and splits -/

section Operations

variable {G : GlobalState} {Ls : ℕ → List Piece} {s t nid n : ℕ}

lemma merge_packaged (h : GlobalInv G Ls) (hr : MergeReady G s t)
    (hmin : NoUndersized (Ls s) ∧ NoUndersized (Ls t)) :
    ∃ F Ls', merge G s t = (.ok, F) ∧ F.pools s = Pool.zero
      ∧ Packaged G F Ls' t (mergeSlots G Ls s t) (mergeStart G s t) (mergeStop G s t) := by
  obtain ⟨F, L', heq, hinv, hm, hrun⟩ := merge_run h hr hmin
  have hcount := merge_counts (s := s) (t := t) (G := G) (by rw [heq]) (Ne.symm hr.ne)
  rw [heq] at hcount
  refine ⟨F, _, heq, hm.source, ⟨⟨hinv, ⟨hr.target.1, by rw [hm.running]; decide⟩,
    hcount.trans hr.targetIdle, ?_, hm.relocated, hrun.start, hrun.stop⟩, ?_, ?_⟩⟩
  · rw [Function.update_self]
    exact hm.slots
  · exact hrun.row.settled fun i hi =>
      ⟨(hm.relocated.kept i hi).pinned, (hm.relocated.kept i hi).blockSize⟩
  · rw [Function.update_self]
    exact hrun.layout

/-- Which pool is the lower one does not depend on the direction. -/
lemma MergeReady.lower_comm (h : GlobalInv G Ls) (hr : MergeReady G s t) :
    lowerPool G t s = lowerPool G s t ∧ upperPool G t s = upperPool G s t := by
  have hs := (h.pool s hr.source).segPos
  have ht := (h.pool t hr.target).segPos
  have hadj := hr.adjacent
  simp only [Adjacent, sourceBelow, sourceAbove, decide_eq_true_eq] at hadj
  simp only [lowerPool, upperPool, sourceBelow, decide_eq_true_eq]
  cases hadj with
  | inl hbelow =>
      rw [if_pos hbelow, if_pos hbelow, if_neg (by omega), if_neg (by omega)]
      exact ⟨rfl, rfl⟩
  | inr habove =>
      rw [if_pos habove, if_pos habove, if_neg (by omega), if_neg (by omega)]
      exact ⟨rfl, rfl⟩

lemma MergeReady.symm (hr : MergeReady G s t) : MergeReady G t s :=
  ⟨hr.ne.symm, hr.target, hr.source, hr.targetIdle, hr.sourceIdle, by
    have hadj := hr.adjacent
    simp only [Adjacent, sourceBelow, sourceAbove, decide_eq_true_eq] at hadj ⊢
    exact hadj.symm⟩

/-- A merge makes one row of two neighbouring pools, whichever of them is the source. -/
lemma merge_packaged₂ (h : GlobalInv G Ls) (hr : MergeReady G s t)
    (hmin : NoUndersized (Ls s) ∧ NoUndersized (Ls t)) :
    ∃ F F' Ls₁ Ls₂, merge G s t = (.ok, F) ∧ merge G t s = (.ok, F')
      ∧ F.pools s = Pool.zero ∧ F'.pools t = Pool.zero
      ∧ Packaged G F Ls₁ t (mergeSlots G Ls s t) (mergeStart G s t) (mergeStop G s t)
      ∧ Packaged G F' Ls₂ s (mergeSlots G Ls s t) (mergeStart G s t) (mergeStop G s t) := by
  obtain ⟨F, Ls₁, heq, hzero, hpk⟩ := merge_packaged h hr hmin
  obtain ⟨F', Ls₂, heq', hzero', hpk'⟩ := merge_packaged h hr.symm hmin.symm
  obtain ⟨hlo, hhi⟩ := hr.lower_comm h
  rw [mergeSlots, mergeStart, mergeStop, hlo, hhi] at hpk'
  exact ⟨F, F', Ls₁, Ls₂, heq, heq', hzero, hzero', hpk, hpk'⟩

/-- The direction of a merge names the pool that is left, and nothing else: if one direction is
served the other one is, and the two pools look alike. -/
theorem merge_directions_alike {G : GlobalState} (h : Reachable G) {s t : ℕ}
    (hok : (merge G s t).1 = .ok) :
    (merge G t s).1 = .ok ∧ Alike (merge G s t).2 (merge G t s).2 t s
      ∧ (merge G s t).2.pools s = Pool.zero ∧ (merge G t s).2.pools t = Pool.zero := by
  obtain ⟨Ls, hinv⟩ := h.healthy
  obtain ⟨hr, hmin⟩ := merge_asked hinv hok
  obtain ⟨F, F', Ls₁, Ls₂, heq, heq', hzero, hzero', hpk, hpk'⟩ := merge_packaged₂ hinv hr hmin
  rw [heq, heq']
  exact ⟨rfl, hpk.alike hpk', hzero, hzero'⟩

omit [PmConfig] in
theorem merge_directions_alike_neighbours :
    letI := defaultConfig
    (merge neighbours 1 0).1 = .ok
      ∧ Alike (merge neighbours 0 1).2 (merge neighbours 1 0).2 1 0
      ∧ (merge neighbours 0 1).2.pools 0 = Pool.zero
      ∧ (merge neighbours 1 0).2.pools 1 = Pool.zero :=
  letI := defaultConfig
  merge_directions_alike neighbours_reachable neighbours_compact_merge.2

/-- A split that is merged back, in either direction, is a full compaction. -/
theorem split_merge_alike {G : GlobalState} (h : Reachable G) {s n nid : ℕ} {F : GlobalState}
    (hok : split G s n = (.ok, some nid, F)) (elapsed : ℕ) :
    (compact G s none elapsed).1 = .ok ∧ (merge F nid s).1 = .ok ∧ (merge F s nid).1 = .ok
      ∧ Alike (compact G s none elapsed).2.2 (merge F nid s).2 s s
      ∧ Alike (compact G s none elapsed).2.2 (merge F s nid).2 s nid := by
  obtain ⟨Ls, hinv⟩ := h.healthy
  obtain ⟨k, hr⟩ := split_asked (s := s) (n := n) hinv (by rw [hok])
  obtain ⟨met, C, Ls', hceq, hcpk⟩ := compact_packaged hinv hr.source hr.idle elapsed
  cases split_run hinv hr with
  | inl hno =>
      obtain ⟨st, hst, -⟩ := hno
      rw [hst] at hok
      cases hok
  | inr hyes =>
      obtain ⟨G', plan, L₁, L₂, heq, hinv', hrun, hsp, -⟩ := hyes
      rw [heq] at hok
      cases hok
      have hcount := hrun.counts hr.ne
      obtain ⟨hstart, hmid, hmid', hstop⟩ := hrun.windows hsp hr
      obtain ⟨hlt, hempty, -⟩ := firstEmptyPool_some hr.entry
      have hidle : (F.pools nid).borrowCount = 0 := by
        rw [hcount nid, hinv.empty nid hlt hempty]
        rfl
      -- the halves touch and are idle, so they can be merged either way
      have hready : MergeReady F nid s := by
        refine ⟨hr.ne, ⟨hlt, by rw [hsp.running.2]; decide⟩,
          ⟨hr.source.1, by rw [hsp.running.1]; decide⟩, hidle, (hcount s).trans hr.idle, ?_⟩
        right
        rw [sourceAbove, decide_eq_true_eq, hsp.windows.newFirst, hsp.windows.first,
          hsp.windows.count]
      have hlow : Function.update (Function.update Ls s L₁) nid L₂ s = L₁ := by
        rw [Function.update_of_ne hr.ne.symm, Function.update_self]
      have hup : Function.update (Function.update Ls s L₁) nid L₂ nid = L₂ :=
        Function.update_self ..
      have hbelow : lowerPool F nid s = s ∧ upperPool F nid s = nid := by
        have hpos := hr.pos
        have hcnt := hr.lt
        simp only [lowerPool, upperPool, sourceBelow, decide_eq_true_eq, hsp.windows.newFirst,
          hsp.windows.first, hsp.windows.newCount]
        rw [if_neg (by omega), if_neg (by omega)]
        exact ⟨rfl, rfl⟩
      obtain ⟨M, M', Ls₁, Ls₂, hM, hM', -, -, hpk, hpk'⟩ := merge_packaged₂ hinv' hready
        (by rw [hlow, hup]; exact ⟨hsp.upGe, hsp.lowGe⟩)
      rw [mergeSlots, mergeStart, mergeStop, hbelow.1, hbelow.2, hlow, hup, ← hsp.slots, hstart,
        hstop] at hpk hpk'
      rw [hceq, hM, hM']
      exact ⟨rfl, rfl, rfl, hcpk.alike (hpk.before hsp.relocated),
        hcpk.alike (hpk'.before hsp.relocated)⟩

/-- The result of splitting `mergedNeighbours`. -/
def splitNeighbours : GlobalState :=
  letI := defaultConfig
  (split mergedNeighbours 1 1).2.2

omit [PmConfig] in
set_option maxRecDepth 100000 in
lemma splitNeighbours_eq :
    letI := defaultConfig
    split mergedNeighbours 1 1 = (.ok, some 0, splitNeighbours) := by
  let _ := defaultConfig
  have hparts : letI := defaultConfig
      (split mergedNeighbours 1 1).1 = .ok ∧ (split mergedNeighbours 1 1).2.1 = some 0 := by
    decide +kernel
  rw [splitNeighbours, ← hparts.1, ← hparts.2]

omit [PmConfig] in
theorem split_merge_alike_neighbours :
    letI := defaultConfig
    (compact mergedNeighbours 1 none 5).1 = .ok ∧ (merge splitNeighbours 0 1).1 = .ok
      ∧ (merge splitNeighbours 1 0).1 = .ok
      ∧ Alike (compact mergedNeighbours 1 none 5).2.2 (merge splitNeighbours 0 1).2 1 1
      ∧ Alike (compact mergedNeighbours 1 none 5).2.2 (merge splitNeighbours 1 0).2 1 0 :=
  @split_merge_alike defaultConfig mergedNeighbours mergedNeighbours_reachable 1 1 0
    splitNeighbours splitNeighbours_eq 5

end Operations

end PondMerge
