import PondMerge.Operations.Borrows
import PondMerge.Operations.Packing
import PondMerge.Operations.Bystanders
import PondMerge.Guarantees.Preservation
import PondMerge.Guarantees.Representation

/-!
The layout that maintenance leaves.

* `NormalForm`: every movable block stands right behind another or at the start of its pool, and
  free space and slack right before a pinned block or at the end.
* `LaidPacked`: a pool whose row is packed and that shows what `finalize_layout` makes of it.
* `LaidPacked.normalForm`, `LaidPacked.again`: it is in normal form, and a compaction of it moves
  nothing and changes nothing.
* `compact_laidPacked`, `merge_laidPacked`, `split_laidPacked`: each kind of maintenance ends so.
-/

namespace PondMerge

open ByteMemory Tiling

variable [PmConfig]

/-! ### Normal form -/

/-- The packed normal form of a layout. -/
structure NormalForm (obj : ℕ → ObjectDesc) (L : List Piece) : Prop where
  movable : ∀ L₁ i n L₂, L = L₁ ++ Piece.live i n :: L₂ → (obj i).pinned = false →
    L₁ = [] ∨ ∃ L₀ j m, L₁ = L₀ ++ [Piece.live j m]
  gap : ∀ L₁ t L₂, L = L₁ ++ t :: L₂ → t.slot? = none →
    L₂ = [] ∨ ∃ i n L₃, L₂ = .live i n :: L₃ ∧ (obj i).pinned = true

/-- Two neighbouring pieces of a normal form: behind a gap stands a pinned block. -/
def Barred (obj : ℕ → ObjectDesc) (t u : Piece) : Prop :=
  t.slot? = none → ∃ i n, u = .live i n ∧ (obj i).pinned = true

section Layouts

variable {obj : ℕ → ObjectDesc} {L : List Piece} {stop c : ℕ} {l : List ℕ}

omit [PmConfig] in
lemma NormalForm.of_barred (h : L.IsChain (Barred obj)) : NormalForm obj L := by
  have hpair := fun {t u L₁ L₂} => @List.isChain_iff_forall_rel_of_append_cons_cons.mp h t u L₁ L₂
  refine ⟨fun L₁ i n L₂ hL hmov => ?_, fun L₁ t L₂ hL ht => ?_⟩
  · cases L₁.eq_nil_or_concat with
    | inl hnil => exact Or.inl hnil
    | inr hlast =>
        obtain ⟨L₀, t, hcat⟩ := hlast
        rw [List.concat_eq_append] at hcat
        have hmeet : Barred obj t (.live i n) := @hpair t _ L₀ L₂ (by simp [hL, hcat])
        have hlive : t.slot? ≠ none := fun ht => by
          obtain ⟨j, k, heq, hpin⟩ := hmeet ht
          cases heq
          rw [hmov] at hpin
          cases hpin
        cases t with
        | live j m => exact Or.inr ⟨L₀, j, m, hcat⟩
        | free m => exact absurd rfl hlive
        | slack m => exact absurd rfl hlive
  · cases L₂ with
    | nil => exact Or.inl rfl
    | cons u L₂ =>
        obtain ⟨i, n, rfl, hpin⟩ := hpair hL ht
        exact Or.inr ⟨i, n, L₂, rfl, hpin⟩

omit [PmConfig] in
/-- What stands behind a block does not matter. -/
lemma barred_live {i n : ℕ} (h : L.IsChain (Barred obj)) :
    (Piece.live i n :: L).IsChain (Barred obj) :=
  List.isChain_cons.mpr ⟨fun _ _ => nofun, h⟩

/-- A packed row is laid out in normal form. -/
lemma packed_barred (h : PackedFrom obj obj c l) : (packed obj stop c l).IsChain (Barred obj) := by
  have hgap : ∀ g, (gapPieces g).IsChain (Barred obj) := by
    intro g
    rw [gapPieces]
    split_ifs
    · exact .singleton _
    · exact .singleton _
    · exact .nil
  induction l generalizing c with
  | nil => exact hgap _
  | cons i l ih =>
      obtain ⟨hb, hrest⟩ := h
      rw [packed]
      split_ifs at hb with hp
      · refine List.isChain_append.mpr ⟨hgap _, barred_live (ih hrest), fun t _ u hu _ => ?_⟩
        rw [List.head?_cons, Option.mem_some_iff] at hu
        exact ⟨i, _, hu.symm, hp⟩
      · rw [hb, Nat.sub_self, gapPieces_zero, List.nil_append]
        rw [hb] at hrest
        exact barred_live (ih hrest)

end Layouts

/-! ### Pools behind maintenance -/

/-- Pool `p` is idle, its row of blocks is packed, and its window, bins and counters are what
`finalize_layout` makes of that row. -/
structure LaidPacked (G : GlobalState) (p : ℕ) (L : List Piece) : Prop where
  active : Active G p
  idle : (G.pools p).borrowCount = 0
  row : PackedFrom G.objects G.objects (poolStart G (G.pools p)) (liveSlots L)
  layout : L = packed G.objects (poolEnd G (G.pools p)) (poolStart G (G.pools p)) (liveSlots L)
  laidOut : ∃ slots, LaidOut G p slots ∧ slots.filter (insideWindow G.objects
    (poolStart G (G.pools p)) (poolEnd G (G.pools p))) = liveSlots L

/-- A compaction of pool `p` that has changed nothing but statistics and the epoch of its entry. -/
structure Unmoved (G C : GlobalState) (p : ℕ) : Prop where
  moved : (C.pools p).objectsMoved = 0 ∧ (C.pools p).bytesMoved = 0
  mem : C.mem = G.mem
  objects : C.objects = G.objects
  bins : (C.pools p).bins = (G.pools p).bins
  used : (C.pools p).usedBytes = (G.pools p).usedBytes
  free : (C.pools p).freeBytes = (G.pools p).freeBytes
  fragment : (C.pools p).fragmentBytes = (G.pools p).fragmentBytes

section Pools

variable {G G' : GlobalState} {Ls : ℕ → List Piece} {p : ℕ}

lemma LaidPacked.normalForm {L : List Piece} (h : LaidPacked G p L) : NormalForm G.objects L := by
  rw [h.layout]
  exact .of_barred (packed_barred h.row)

/-- A compaction of a packed pool has nothing to do. -/
theorem LaidPacked.again (hp : LaidPacked G p (Ls p)) (h : GlobalInv G Ls)
    {req : Option CompactionRequest} (hreq : requestOk req = true) (elapsed : ℕ) :
    ∃ met C, compact G p req elapsed = (.ok, met, C) ∧ (req = none → met = true)
      ∧ Unmoved G C p := by
  -- every object lies where the plan would put it, so the plan is empty
  have hplan : (planOf G p req (liveSlots (Ls p))).1 = [] := by
    have hinit : (planOf G p req (liveSlots (Ls p))).1 <+:
        packMoves G.objects (liveSlots (Ls p)) (poolStart G (G.pools p)) := planRow_initial 0 0
    rw [packMoves_eq_nil.mpr hp.row] at hinit
    exact List.prefix_nil.mp hinit
  have hcompact := compact_eq h hp.active hp.idle hreq elapsed
  rw [hplan] at hcompact
  have hpool := h.pool p hp.active
  obtain ⟨-, hpack, hdst⟩ := compactPlan_slots h.zone (hpool.audited h.zone) req
  rw [hplan] at hpack hdst
  obtain ⟨-, hdone⟩ := compactDone_inv h hp.active hpack hdst elapsed
  obtain ⟨hkept, -⟩ := compactDone_heap G p (liveSlots (Ls p)) [] elapsed
  obtain ⟨hz, hshape, -⟩ := compactArmed_shape G p
  -- writing the same layout once more writes the bytes that are there
  obtain ⟨slots, hlaid, hfilter⟩ := hp.laidOut
  have hwin : ∀ z, InWindow G p z ↔ InWindow (G.setPool p { G.pools p with state := .compacting })
      p z := by
    intro z
    rw [InWindow, InWindow, hz.poolStart hshape.segmentFirst, hz.poolEnd hshape]
  obtain ⟨hmem, hentry⟩ := (hlaid.congr hz hshape rfl fun _ _ => rfl).again
    (hz.poolStart hshape.segmentFirst).symm (hz.poolEnd hshape).symm hfilter
  rw [compactHeap] at hkept
  have hsh := hkept.shape
  rw [show execMoves (G.setPool p { G.pools p with state := .compacting }) [] =
    G.setPool p { G.pools p with state := .compacting } from rfl] at hkept hsh
  rw [hentry] at hsh
  refine ⟨_, _, hcompact, fun hnone => ?_, ⟨compactDone_entry G p _ [] elapsed, ?_, ?_,
    hsh.bins.trans hshape.bins, hsh.usedBytes.trans hshape.usedBytes,
    hsh.freeBytes.trans hshape.freeBytes, hsh.fragmentBytes.trans hshape.fragmentBytes⟩⟩
  · rw [hnone]
    exact metOf_none G p _
  · funext z
    by_cases hin : InWindow G p z
    · rw [hkept.mem]
      exact hmem z ((hwin z).mp hin)
    · exact hdone.mem z hin
  · rw [hkept.objects]
    rfl

/-- A full compaction leaves its pool packed. -/
theorem compact_laidPacked (h : GlobalInv G Ls) {elapsed : ℕ}
    (hok : (compact G p none elapsed).1 = .ok) :
    ∃ Ls', GlobalInv (compact G p none elapsed).2.2 Ls'
      ∧ LaidPacked (compact G p none elapsed).2.2 p (Ls' p) := by
  obtain ⟨hp, hidle, -⟩ := compact_asked h hok
  have hcount := compact_counts G p none elapsed p
  rw [compact_eq h hp hidle rfl elapsed, planOf_none] at hcount ⊢
  dsimp only at hcount ⊢
  have haud := (h.pool p hp).audited h.zone
  obtain ⟨-, hpack, hdst⟩ := compactPlan_slots h.zone haud none
  rw [planOf_none] at hpack hdst
  obtain ⟨hrep, hframe⟩ := compactDone_spec h.zone haud hpack hdst elapsed
  obtain ⟨hinv, -⟩ := compactDone_inv h hp hpack hdst elapsed
  obtain ⟨hkept, -⟩ := compactDone_heap G p (liveSlots (Ls p))
    (packMoves G.objects (liveSlots (Ls p)) (poolStart G (G.pools p))) elapsed
  have hplaced := @compactDone_placed _ G p _ haud.nodup
    (packMoves G.objects (liveSlots (Ls p)) (poolStart G (G.pools p))) hpack.sublist elapsed
  -- the layout is the one that the rebuild has written
  have hlaid : LaidOut (compactHeap G p (liveSlots (Ls p))
      (packMoves G.objects (liveSlots (Ls p)) (poolStart G (G.pools p)))) p (liveSlots (Ls p)) := by
    obtain ⟨hz, hshape, -⟩ := compactArmed_shape G p
    have hE := execMove_step.foldl_rest
      (packMoves G.objects (liveSlots (Ls p)) (poolStart G (G.pools p)))
      (G.setPool p { G.pools p with state := .compacting })
    rw [← execMoves] at hE
    refine finalizeLayout_laidOut ?_ ?_
    · rw [hE]
      exact (hz.poolStart hshape.segmentFirst).symm
    · rw [hE]
      exact (hz.poolEnd hshape).symm
  obtain ⟨hstart, hstop⟩ := hframe.window
  generalize compactDone G p (liveSlots (Ls p))
    (packMoves G.objects (liveSlots (Ls p)) (poolStart G (G.pools p))) elapsed = C at *
  have hslots : liveSlots (packedLayout C p (liveSlots (Ls p))) = liveSlots (Ls p) :=
    liveSlots_packed
  refine ⟨_, hinv, ?_⟩
  rw [Function.update_self]
  refine ⟨⟨hp.1, by rw [hframe.running]; decide⟩, hcount.trans hidle, ?_, ?_, _,
    hlaid.congr hkept.zone hkept.shape hkept.objects fun z _ => by rw [hkept.mem], ?_⟩
  · rw [hslots, hstart]
    refine (hplaced.packedFrom haud.nodup).settled fun i hi => ⟨?_, hplaced.size i hi⟩
    exact (hrep.relocated.kept i hi).pinned
  · rw [hslots]
    rfl
  · rw [hslots]
    exact hrep.audited.fits.filter_inside

/-- A merge packs the row of both pools. -/
lemma MergeRun.row {s t : ℕ} {l : List ℕ} {L' : List Piece} (h : MergeRun G G' s t l L') :
    PackedFrom G.objects G'.objects (mergeStart G s t) l :=
  packedFrom_of_packAll fun x hx => by
    rw [(h.desc x hx).eq]
    exact mergeDesc_block t _ x (G.objects x.slot)

/-- So does a merge leave its target. -/
theorem merge_laidPacked (h : GlobalInv G Ls) {s t : ℕ} (hok : (merge G s t).1 = .ok) :
    ∃ Ls', GlobalInv (merge G s t).2 Ls' ∧ LaidPacked (merge G s t).2 t (Ls' t) := by
  obtain ⟨hr, hmin⟩ := merge_asked h hok
  have hcount := merge_counts hok (Ne.symm hr.ne)
  obtain ⟨F, L', heq, hinv, hm, hrun⟩ := merge_run h hr hmin
  rw [heq] at hcount ⊢
  have hact : Active F t := ⟨hr.target.1, by rw [hm.running]; decide⟩
  have hpool := hinv.pool t hact
  rw [Function.update_self] at hpool
  refine ⟨_, hinv, ?_⟩
  rw [Function.update_self]
  refine ⟨hact, hcount.trans hr.targetIdle, ?_, ?_, _, hrun.laidOut, ?_⟩
  · rw [hrun.start, hm.slots]
    exact hrun.row.settled fun i hi =>
      ⟨(hm.relocated.kept i hi).pinned, (hm.relocated.kept i hi).blockSize⟩
  · rw [hrun.start, hrun.stop, hm.slots]
    exact hrun.layout
  · rw [hm.slots]
    have hfit := hpool.fits
    rw [hm.slots] at hfit
    exact hfit.filter_inside

/-- The windows of a split pool and of its new neighbour. -/
lemma SplitRun.windows {s nid n : ℕ} {L L₁ L₂ : List Piece} {plan : SplitPlan}
    (hrun : SplitRun G G' s nid n L plan) (hsp : Splitted G G' s nid n L L₁ L₂)
    (hr : SplitReady G s n nid) :
    poolStart G' (G'.pools s) = poolStart G (G.pools s)
      ∧ poolEnd G' (G'.pools s) = splitBoundary G s n
      ∧ poolStart G' (G'.pools nid) = splitBoundary G s n
      ∧ poolEnd G' (G'.pools nid) = poolEnd G (G.pools s) := by
  have hz := hrun.zone
  have hlt := hr.lt
  simp only [poolStart, poolEnd, splitBoundary, segBase, hz.zone, hz.segmentSize, hsp.windows.first,
    hsp.windows.count, hsp.windows.newFirst, hsp.windows.newCount, true_and]
  rw [Nat.add_assoc, Nat.sub_add_cancel hlt.le]

/-- And so does a split leave both of its pools. -/
theorem split_laidPacked (h : GlobalInv G Ls) {s n nid : ℕ} {F : GlobalState}
    (hok : split G s n = (.ok, some nid, F)) :
    ∃ Ls', GlobalInv F Ls' ∧ LaidPacked F s (Ls' s) ∧ LaidPacked F nid (Ls' nid) := by
  obtain ⟨k, hr⟩ := split_asked (s := s) (n := n) h (by rw [hok])
  cases split_run h hr with
  | inl hno =>
      obtain ⟨st, hst, hcode⟩ := hno
      rw [hst] at hok
      cases hok
  | inr hyes =>
      obtain ⟨G', plan, L₁, L₂, heq, hinv, hrun, hsp, hpk⟩ := hyes
      rw [heq] at hok
      cases hok
      have hcount := hrun.counts hr.ne
      obtain ⟨hstart, hmid, hmid', hstop⟩ := hrun.windows hsp hr
      have hlow := hinv.pool s ⟨hr.source.1, by rw [hsp.running.1]; decide⟩
      have hup := hinv.pool nid
        ⟨(firstEmptyPool_some hr.entry).1, by rw [hsp.running.2]; decide⟩
      rw [Function.update_of_ne hr.ne.symm, Function.update_self] at hlow
      rw [Function.update_self] at hup
      -- a split keeps the pin, and both halves list objects of the source
      have hkept : ∀ i ∈ liveSlots (Ls s), (F.objects i).pinned = (G.objects i).pinned
          ∧ (F.objects i).blockSize = (G.objects i).blockSize := fun i hi =>
        ⟨(hsp.relocated.kept i hi).pinned, (hsp.relocated.kept i hi).blockSize⟩
      have hmem₁ : ∀ i ∈ liveSlots L₁, i ∈ liveSlots (Ls s) := fun i hi => by
        rw [hsp.slots]
        exact List.mem_append_left _ hi
      have hmem₂ : ∀ i ∈ liveSlots L₂, i ∈ liveSlots (Ls s) := fun i hi => by
        rw [hsp.slots]
        exact List.mem_append_right _ hi
      have hfit₁ := hlow.fits
      have hfit₂ := hup.fits
      rw [hstart, hmid] at hfit₁
      rw [hmid', hstop] at hfit₂
      have haddr : ∀ {q : ℕ} {M : List Piece}, PoolInv F q M → ∀ i ∈ liveSlots M,
          (F.objects i).address = (F.objects i).block + 8 ∧ 16 ≤ (F.objects i).blockSize := by
        intro q M hM i hi
        have hmin := PmConfig.minBlock_ge
        have hblk := (hM.blockOk hinv.zone hi).2.1
        exact ⟨(hM.desc_self hi).address, by omega⟩
      obtain ⟨-, -, hin₁, hin₂⟩ := halves_of_fits hfit₁ hfit₂ fun i hi =>
        (List.mem_append.mp hi).elim (haddr hlow i) (haddr hup i)
      -- the lower half, then the upper one
      refine ⟨_, hinv, ?_, ?_⟩
      · rw [Function.update_of_ne hr.ne.symm, Function.update_self]
        refine ⟨⟨hr.source.1, by rw [hsp.running.1]; decide⟩, (hcount s).trans hr.idle, ?_, ?_,
          _, hpk.laidOut.1, ?_⟩
        · rw [hstart]
          exact hpk.packedLow.settled fun i hi => hkept i (hmem₁ i hi)
        · rw [hstart, hmid]
          exact hpk.low
        · rw [hstart, hmid, hsp.slots]
          exact hin₁
      · rw [Function.update_self]
        refine ⟨⟨(firstEmptyPool_some hr.entry).1, by rw [hsp.running.2]; decide⟩, ?_, ?_, ?_,
          _, hpk.laidOut.2, ?_⟩
        · obtain ⟨hlt, hempty, -⟩ := firstEmptyPool_some hr.entry
          rw [hcount nid, h.empty nid hlt hempty]
          rfl
        · rw [hmid']
          exact hpk.packedUp.settled fun i hi => hkept i (hmem₂ i hi)
        · rw [hmid', hstop]
          exact hpk.up
        · rw [hmid', hstop, hsp.slots]
          exact hin₂

end Pools

/-! ### Every reachable state -/

/-- Pool `p` is in normal form, and every further compaction of it, full or partial, succeeds
without a move or a change. -/
structure EndsPacked (G : GlobalState) (p : ℕ) : Prop where
  normal : ∃ L, Represents G p L ∧ NormalForm G.objects L
  again : ∀ req elapsed, requestOk req = true → ∃ met C, compact G p req elapsed = (.ok, met, C)
    ∧ (req = none → met = true) ∧ Unmoved G C p

lemma LaidPacked.endsPacked {G : GlobalState} {Ls : ℕ → List Piece} {p : ℕ}
    (hp : LaidPacked G p (Ls p)) (h : GlobalInv G Ls) : EndsPacked G p :=
  ⟨⟨Ls p, PoolInv.represents h hp.active, hp.normalForm⟩,
    fun _ elapsed hreq => hp.again h hreq elapsed⟩

/-- Maintenance ends in packed normal form: after a successful full `compact`, `merge` or `split`
in a reachable state, each resulting pool has its movable blocks right behind one another and its
gaps in front of pinned blocks or at the end, and a compaction that follows changes nothing. -/
theorem reachable_endsPacked {G : GlobalState} (h : Reachable G) :
    (∀ p elapsed, (compact G p none elapsed).1 = .ok →
      EndsPacked (compact G p none elapsed).2.2 p)
    ∧ (∀ s t, (merge G s t).1 = .ok → EndsPacked (merge G s t).2 t)
    ∧ ∀ s n, (split G s n).1 = .ok → ∃ nid, (split G s n).2.1 = some nid
      ∧ EndsPacked (split G s n).2.2 s ∧ EndsPacked (split G s n).2.2 nid := by
  obtain ⟨Ls, hinv⟩ := h.healthy
  refine ⟨fun p elapsed hok => ?_, fun s t hok => ?_, fun s n hok => ?_⟩
  · obtain ⟨Ls', hinv', hp⟩ := compact_laidPacked hinv hok
    exact hp.endsPacked hinv'
  · obtain ⟨Ls', hinv', hp⟩ := merge_laidPacked hinv hok
    exact hp.endsPacked hinv'
  · obtain ⟨nid, F, heq⟩ : ∃ nid F, split G s n = (.ok, some nid, F) := by
      by_contra hno
      obtain ⟨st, hst, hne, -⟩ := split_refused hinv
        fun nid F heq => hno ⟨nid, F, heq⟩
      rw [hst] at hok
      exact hne hok
    obtain ⟨Ls', hinv', hs, hnid⟩ := split_laidPacked hinv heq
    rw [heq]
    exact ⟨nid, rfl, hs.endsPacked hinv', hnid.endsPacked hinv'⟩

/-- The merge of `neighbours`. -/
def mergedNeighbours : GlobalState :=
  letI := defaultConfig
  (merge neighbours 0 1).2

omit [PmConfig] in
lemma mergedNeighbours_reachable : letI := defaultConfig; Reachable mergedNeighbours :=
  letI := defaultConfig
  neighbours_reachable.step (.merge 0 1)

omit [PmConfig] in
set_option maxRecDepth 100000 in
theorem reachable_endsPacked_neighbours :
    letI := defaultConfig
    EndsPacked (compact neighbours 0 none 5).2.2 0 ∧ EndsPacked (merge neighbours 0 1).2 1
      ∧ ∃ nid, (split mergedNeighbours 1 1).2.1 = some nid
        ∧ EndsPacked (split mergedNeighbours 1 1).2.2 1
        ∧ EndsPacked (split mergedNeighbours 1 1).2.2 nid := by
  let _ := defaultConfig
  obtain ⟨hcompact, hmerge⟩ := neighbours_compact_merge
  have hsplit : letI := defaultConfig; (split mergedNeighbours 1 1).1 = .ok := by
    decide +kernel
  obtain ⟨hc, hm, -⟩ := reachable_endsPacked neighbours_reachable
  obtain ⟨-, -, hs⟩ := reachable_endsPacked mergedNeighbours_reachable
  exact ⟨hc 0 5 hcompact, hm 0 1 hmerge, hs 1 1 hsplit⟩

end PondMerge
