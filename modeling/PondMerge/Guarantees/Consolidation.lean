import PondMerge.Guarantees.Availability
import PondMerge.Guarantees.NormalForm

/-!
What maintenance does to free space.

* `binnedBytes`: the bytes in the free blocks of the bins.
* `hasRun_of_free`, `free_of_hasRun`: the free blocks of a layout and the runs between its blocks.
* `NoWorse`: the largest free block has not shrunk, and no byte has left free blocks and slack.
* `reachable_noWorse_iff`: a successful `compact` is so exactly if its pool is roomy, and a
  successful `merge` leaves a free block as large as the largest of either pool.
-/

namespace PondMerge

open ByteMemory Tiling

variable [PmConfig]

/-! ### Binned bytes -/

/-- The sum of the free blocks in the bins of pool `p`, by their headers. -/
def binnedBytes (G : GlobalState) (p : ℕ) : ℕ := ((freeOffsets G (G.pools p)).map (sizeAt G)).sum

section Layouts

variable {G : GlobalState} {p : ℕ} {L : List Piece} {obj : ℕ → ObjectDesc} {x c n : ℕ}

/-- The bins hold the free blocks of the layout. -/
lemma PoolInv.binnedBytes_eq (hz : ZoneOk G) (h : PoolInv G p L) : binnedBytes G p = freeOf L := by
  rw [binnedBytes, ((h.freeOffsets_perm hz).map (sizeAt G)).sum_eq, freeOf,
    freeSpots_sizes 0 (poolStart G (G.pools p)), List.map_map]
  refine congrArg List.sum (List.map_congr_left fun u hu => ?_)
  exact h.sizeAt_off hz (mem_freeSpots.mp (show (u.1, u.2) ∈ _ from hu))

/-- Slack and binned bytes are what the pool counts as free. -/
lemma PoolInv.free_split (hz : ZoneOk G) (h : PoolInv G p L) :
    (G.pools p).fragmentBytes + binnedBytes G p = (G.pools p).freeBytes := by
  have htotal := total_eq L
  rw [h.binnedBytes_eq hz, h.lost, h.free]
  omega

omit [PmConfig] in
/-- The used bytes are the blocks of the live slots. -/
lemma usedOf_liveSlots
    (hd : ∀ {y s m}, LiveAt x L y s m → (obj s).block = y ∧ (obj s).blockSize = m) :
    usedOf L = ((liveSlots L).map fun i => (obj i).blockSize).sum := by
  induction L generalizing x with
  | nil => rfl
  | cons t L ih =>
      have hrest := ih (x := x + t.len) fun hx => hd (List.mem_cons_of_mem _ hx)
      cases t with
      | free k =>
          rw [usedOf_cons, liveSlots_free, hrest]
          exact Nat.zero_add _
      | slack k =>
          rw [usedOf_cons, liveSlots_slack, hrest]
          exact Nat.zero_add _
      | live i k =>
          obtain ⟨-, hs⟩ := hd (y := x) (s := i) (m := k) List.mem_cons_self
          rw [usedOf_cons, liveSlots_live, List.map_cons, List.sum_cons, hs, hrest]
          rfl

omit [PmConfig] in
/-- A free block is a run between the blocks around it. -/
lemma hasRun_of_free
    (hd : ∀ {y s m}, LiveAt x L y s m → (obj s).block = y ∧ (obj s).blockSize = m) (hc : c ≤ x)
    (hn : .free n ∈ L) : HasRun obj (x + total Piece.len L) c (liveSlots L) n := by
  induction L generalizing x c with
  | nil => cases hn
  | cons t L ih =>
      have hrest : ∀ {y s m}, LiveAt (x + t.len) L y s m →
          (obj s).block = y ∧ (obj s).blockSize = m := fun hx => hd (List.mem_cons_of_mem _ hx)
      rw [total_cons, ← Nat.add_assoc]
      cases t with
      | slack k =>
          rw [liveSlots_slack]
          have hin : .free n ∈ L := (List.mem_cons.mp hn).resolve_left (by simp)
          exact ih hrest (Nat.le_add_right_of_le hc) hin
      | free k =>
          rw [liveSlots_free]
          cases List.mem_cons.mp hn with
          | inl heq =>
              obtain rfl : n = k := Piece.free.inj heq
              have hrun := hasRun_offset (fits_layout hrest) (Nat.le_add_right_of_le hc)
                (Tucked.refl obj c _) fun _ _ => rfl
              obtain ⟨g, hg, hle⟩ := hrun
              exact ⟨g, hg, le_trans (by simp only [Piece.len]; omega) hle⟩
          | inr hin => exact ih hrest (Nat.le_add_right_of_le hc) hin
      | live i k =>
          obtain ⟨hb, hs⟩ := hd (y := x) (s := i) (m := k) List.mem_cons_self
          have hin : .free n ∈ L := (List.mem_cons.mp hn).resolve_left (by simp)
          rw [liveSlots_live, hasRun_cons, hb, hs]
          exact Or.inr (ih hrest le_rfl hin)

/-- A run that holds a block is a free block of the packed layout. -/
lemma free_of_hasRun {stop : ℕ} {l : List ℕ} (hn : pmMinBlock ≤ n)
    (h : HasRun obj stop c l n) : ∃ m, .free m ∈ packed obj stop c l ∧ n ≤ m := by
  obtain ⟨g, hg, hle⟩ := h
  exact ⟨g, (free_mem_packed (hn.trans hle)).mpr hg, hle⟩

end Layouts

/-! ### One operation -/

/-- The largest free block of pool `p` has not shrunk, and as many bytes as before lie in free
blocks and slack. -/
structure NoWorse (G C : GlobalState) (p : ℕ) : Prop where
  largest : (getStats G p).largestFreeBlock ≤ (getStats C p).largestFreeBlock
  conserved : (C.pools p).fragmentBytes + binnedBytes C p =
    (G.pools p).fragmentBytes + binnedBytes G p

section Operations

variable {G C : GlobalState} {Ls Ls' : ℕ → List Piece} {p q : ℕ}

/-- Where every free block survives in some free block, so does the largest. -/
lemma GlobalInv.largest_le (h : GlobalInv G Ls) (h' : GlobalInv C Ls') (hp : Active G p)
    (hq : Active C q) (hfree : ∀ n, .free n ∈ Ls p → ∃ m, .free m ∈ Ls' q ∧ n ≤ m) :
    (getStats G p).largestFreeBlock ≤ (getStats C q).largestFreeBlock := by
  obtain ⟨-, -, hlargest, -⟩ := (h.pool p hp).getStats_spec h.zone hp
  obtain ⟨-, hmax, -, -⟩ := (h'.pool q hq).getStats_spec h'.zone hq
  cases hlargest with
  | inl h0 =>
      rw [h0]
      exact Nat.zero_le _
  | inr hmem =>
      obtain ⟨m, hm, hle⟩ := hfree _ hmem
      exact hle.trans (hmax m hm)

/-- A successful `compact` keeps the live blocks, and packs what lies between them. -/
theorem compact_noWorse_iff (h : GlobalInv G Ls) {req : Option CompactionRequest} {elapsed : ℕ}
    (hok : (compact G p req elapsed).1 = .ok) :
    ((getStats G p).largestFreeBlock ≤
        (getStats (compact G p req elapsed).2.2 p).largestFreeBlock ↔ Roomy G p)
      ∧ ((compact G p req elapsed).2.2.pools p).fragmentBytes
          + binnedBytes (compact G p req elapsed).2.2 p =
        (G.pools p).fragmentBytes + binnedBytes G p := by
  obtain ⟨hp, hidle, hreq⟩ := compact_asked h hok
  rw [compact_eq h hp hidle hreq elapsed]
  dsimp only
  have hpool := h.pool p hp
  have haud := hpool.audited h.zone
  obtain ⟨-, hpack, hdst⟩ := compactPlan_slots h.zone haud req
  have hinit : (planOf G p req (liveSlots (Ls p))).1 <+:
      packMoves G.objects (liveSlots (Ls p)) (poolStart G (G.pools p)) := planRow_initial 0 0
  obtain ⟨-, hframe⟩ := compactDone_spec h.zone haud hpack hdst elapsed
  obtain ⟨hinv, hdone⟩ := compactDone_inv h hp hpack hdst elapsed
  have hplaced := @compactDone_placed _ G p _ haud.nodup _ hpack.sublist elapsed
  obtain ⟨hstart, hstop⟩ := hframe.window
  generalize compactDone G p (liveSlots (Ls p)) (planOf G p req (liveSlots (Ls p))).1 elapsed = C
    at *
  have hact : Active C p := ⟨hp.1, by rw [hframe.running]; decide⟩
  have hpool' := hinv.pool p hact
  have hlayout : Function.update Ls p (packedLayout C p (liveSlots (Ls p))) p =
      packedLayout C p (liveSlots (Ls p)) := Function.update_self _ _ _
  rw [hlayout] at hpool'
  have htotal : total Piece.len (packedLayout C p (liveSlots (Ls p))) =
      total Piece.len (Ls p) := by
    have hend := hpool.end_eq
    have hend' := hpool'.end_eq
    omega
  refine ⟨⟨fun hle => ?_, fun hroomy => ?_⟩, ?_⟩
  · -- an undersized block is a whole window, and no minimal block fits into it
    rw [← hpool.noUndersized_iff h.zone]
    intro n hn
    obtain ⟨-, hmax, -, -⟩ := hpool.getStats_spec h.zone hp
    obtain ⟨-, -, hlargest, -⟩ := hpool'.getStats_spec hinv.zone hact
    have h16 : 16 ≤ n := (hpool.layout.pieces _ hn).1
    have hn' := hmax n hn
    cases hlargest with
    | inl h0 => omega
    | inr hmem =>
        have hmin := hdone.freeGe _ hmem
        have hfits := free_le_freeOf hmem
        have hall := total_eq (packedLayout C p (liveSlots (Ls p)))
        cases hpool.layout.minBlock n hn with
        | inl hle => exact hle
        | inr hwhole =>
            have hlen : total Piece.len (Ls p) = n := by
              rw [hwhole]
              rfl
            omega
  · have hno := (hpool.noUndersized_iff h.zone).mpr hroomy
    refine h.largest_le hinv hp hact fun n hn => ?_
    -- a free block is a run between blocks, and packing only widens the runs
    have hrun := hasRun_of_free (fun hx => ⟨(hpool.desc hx).start, (hpool.desc hx).block⟩) le_rfl hn
    rw [← hpool.end_eq] at hrun
    have hrun' := hrun.tucked hpool.fits le_rfl (hplaced.tucked haud.nodup hinit) hplaced.size
    rw [hlayout, packedLayout, hstart, hstop]
    exact free_of_hasRun (hno n hn) hrun'
  · have hused : usedOf (packedLayout C p (liveSlots (Ls p))) = usedOf (Ls p) := by
      rw [usedOf_liveSlots fun hx => ⟨(hpool'.desc hx).start, (hpool'.desc hx).block⟩,
        usedOf_liveSlots fun hx => ⟨(hpool.desc hx).start, (hpool.desc hx).block⟩, hdone.slots]
      exact congrArg List.sum (List.map_congr_left fun i hi =>
        (hdone.relocated.kept i hi).blockSize)
    rw [hpool.free_split h.zone, hpool'.free_split hinv.zone, hpool.free, hpool'.free, hused,
      htotal]

/-- A successful `merge` packs two rows into one. -/
theorem merge_largest (h : GlobalInv G Ls) {s t : ℕ} (hok : (merge G s t).1 = .ok) :
    max (getStats G s).largestFreeBlock (getStats G t).largestFreeBlock ≤
      (getStats (merge G s t).2 t).largestFreeBlock := by
  obtain ⟨hr, hmin⟩ := merge_asked h hok
  obtain ⟨F, L', heq, hinv, hm, hrun⟩ := merge_run h hr hmin
  rw [heq]
  have hact : Active F t := ⟨hr.target.1, by rw [hm.running]; decide⟩
  obtain ⟨hlo, hup⟩ := hr.active
  have hmeet := poolEnd_adjacent (G := G) hr.adjacent.meet
  have hfit₁ := (h.pool _ hlo).fits
  have hfit₂ := (h.pool _ hup).fits
  rw [← hmeet] at hfit₂
  have hfits : Fits G.objects (mergeStop G s t) (mergeStart G s t) (mergeSlots G Ls s t) :=
    fits_append.mpr ⟨_, hfit₁, hfit₂⟩
  -- a run of either row survives in the packed row of both
  have hrow : ∀ n, pmMinBlock ≤ n → HasRun G.objects (mergeStop G s t) (mergeStart G s t)
      (mergeSlots G Ls s t) n → ∃ m, .free m ∈ Function.update Ls t L' t ∧ n ≤ m := by
    intro n hn hin
    rw [Function.update_self, hrun.layout]
    exact free_of_hasRun hn (hin.tucked hfits le_rfl hrun.row.tucked
      fun i hi => (hm.relocated.kept i hi).blockSize)
  have hside : ∀ q n, Active G q → .free n ∈ Ls q → HasRun G.objects (poolEnd G (G.pools q))
      (poolStart G (G.pools q)) (liveSlots (Ls q)) n := by
    intro q n hq hn
    rw [(h.pool q hq).end_eq]
    exact hasRun_of_free (fun hx => ⟨((h.pool q hq).desc hx).start, ((h.pool q hq).desc hx).block⟩)
      le_rfl hn
  have hboth : ∀ n, .free n ∈ Ls (lowerPool G s t) ∨ .free n ∈ Ls (upperPool G s t) →
      HasRun G.objects (mergeStop G s t) (mergeStart G s t) (mergeSlots G Ls s t) n := by
    intro n hn
    refine HasRun.append hfit₁ hfit₂ (hn.imp (hside _ n hlo) fun hn => ?_)
    rw [hmeet]
    exact hside _ n hup hn
  have hmem : ∀ n, .free n ∈ Ls s ∨ .free n ∈ Ls t →
      .free n ∈ Ls (lowerPool G s t) ∨ .free n ∈ Ls (upperPool G s t) := by
    intro n hn
    cases lower_upper G s t with
    | inl hbelow => rwa [hbelow.2.1, hbelow.2.2]
    | inr habove =>
        rw [habove.2.1, habove.2.2]
        exact hn.symm
  refine max_le ?_ ?_
  · refine h.largest_le hinv hr.source hact fun n hn => ?_
    exact hrow n (hmin.1 n hn) (hboth n (hmem n (Or.inl hn)))
  · refine h.largest_le hinv hr.target hact fun n hn => ?_
    exact hrow n (hmin.2 n hn) (hboth n (hmem n (Or.inr hn)))

end Operations

/-! ### Every reachable state -/

/-- Compaction never makes things worse for a roomy pool, and for no other: in a reachable state,
a successful `compact`, full or partial, keeps the largest free block at least as large and the
sum of slack and binned bytes exactly if its pool was roomy.  A successful `merge` always leaves
the target a free block as large as the largest of the two pools. -/
theorem reachable_noWorse_iff {G : GlobalState} (h : Reachable G) :
    (∀ p req elapsed, (compact G p req elapsed).1 = .ok →
      (NoWorse G (compact G p req elapsed).2.2 p ↔ Roomy G p)
        ∧ ((compact G p req elapsed).2.2.pools p).fragmentBytes
            + binnedBytes (compact G p req elapsed).2.2 p =
          (G.pools p).fragmentBytes + binnedBytes G p)
    ∧ ∀ s t, (merge G s t).1 = .ok →
      max (getStats G s).largestFreeBlock (getStats G t).largestFreeBlock ≤
        (getStats (merge G s t).2 t).largestFreeBlock := by
  obtain ⟨Ls, hinv⟩ := h.healthy
  refine ⟨fun p req elapsed hok => ?_, fun s t hok => merge_largest hinv hok⟩
  obtain ⟨hiff, hconserved⟩ := compact_noWorse_iff hinv hok
  exact ⟨⟨fun hno => hiff.mp hno.largest, fun hroomy => ⟨hiff.mpr hroomy, hconserved⟩⟩,
    hconserved⟩

omit [PmConfig] in
theorem reachable_noWorse_iff_neighbours :
    letI := defaultConfig
    NoWorse neighbours (compact neighbours 0 none 5).2.2 0
      ∧ max (getStats neighbours 0).largestFreeBlock (getStats neighbours 1).largestFreeBlock ≤
        (getStats (merge neighbours 0 1).2 1).largestFreeBlock := by
  let _ := defaultConfig
  obtain ⟨hcompact, hmerge⟩ := neighbours_compact_merge
  have hroomy : letI := defaultConfig; Roomy neighbours 0 := Or.inl (by decide +kernel)
  obtain ⟨hc, hm⟩ := reachable_noWorse_iff neighbours_reachable
  exact ⟨(hc 0 none 5 hcompact).1.mpr hroomy, hm 0 1 hmerge⟩

omit [PmConfig] in
set_option maxRecDepth 100000 in
/-- Where a minimal block is larger than the pool, a compaction loses the pool's free block to
slack. -/
theorem undersized_worse :
    letI := wideBlocks
    Reachable undersized ∧ (compact undersized 0 none 5).1 = .ok
      ∧ (getStats undersized 0).largestFreeBlock = 1024
      ∧ (getStats (compact undersized 0 none 5).2.2 0).largestFreeBlock = 0
      ∧ ¬ NoWorse undersized (compact undersized 0 none 5).2.2 0 := by
  let _ := wideBlocks
  have hreach : letI := wideBlocks; Reachable undersized :=
    letI := wideBlocks
    (Reachable.init .zero smallZone (by decide)).runOps _
  obtain ⟨hcompact, hbefore, hafter⟩ : letI := wideBlocks
      (compact undersized 0 none 5).1 = .ok ∧ (getStats undersized 0).largestFreeBlock = 1024
        ∧ (getStats (compact undersized 0 none 5).2.2 0).largestFreeBlock = 0 := by
    decide +kernel
  refine ⟨hreach, hcompact, hbefore, hafter, fun hno => ?_⟩
  have hle := hno.largest
  rw [hbefore, hafter] at hle
  exact absurd hle (by decide)

end PondMerge
