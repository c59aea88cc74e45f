import PondMerge.Operations.Slack
import PondMerge.Guarantees.Marks
import PondMerge.Guarantees.NormalForm
import PondMerge.Guarantees.Validation

/-!
Which pools of a run pass `validate`.

The audit takes `PM_MAX_OBJECTS + 1` free blocks at most, for live blocks keep at most that many
apart; slack that a `merge` or a `split` leaves in front of a pinned block keeps free blocks apart
as well, and longer than the pinned block lives.

* `GlobalInv.validate_walls_iff`: a pool passes, exactly where its free blocks have no more walls
  between them than there are objects, and none is undersized.
* `Neat.step`: no pool has slack but at its end, unless a `merge` or a `split` leaves some.
* `init_validate_iff`: every run.
-/

namespace PondMerge

open Tiling

variable [PmConfig]

/-! ### One state -/

section States

variable {G : GlobalState} {Ls : ℕ → List Piece} {p : ℕ} {L : List Piece}

omit [PmConfig] in
lemma freeSpots_length (a : ℕ) (L : List Piece) : (freeSpots a L).length = freeBlocks L := by
  induction L generalizing a with
  | nil => rfl
  | cons t L ih => cases t with
    | live s n => exact ih (a + n)
    | free n => exact congrArg (· + 1) (ih (a + n))
    | slack n => exact ih (a + n)

/-- The bins hold every free block of a represented layout, and nothing else. -/
lemma Represents.freeOffsets_length (h : Represents G p L) (hz : ZoneOk G) :
    (freeOffsets G (G.pools p)).length = freeBlocks L := by
  -- an address in the window is told by its offset
  have hoff : ∀ {x n}, FreeAt (poolStart G (G.pools p)) L x n →
      ptrOf G.zone (offOf G.zone x) = x := by
    intro x n hx
    have hb := place_bounds hx
    have hin := h.inZone
    have htiles := h.tiles
    have hsize := hz.zoneSize_lt
    have h16 : 16 ≤ n := (h.pieces _ (mem_of_mem_place hx)).1
    rw [Piece.len] at hb
    rw [offOf, ptrOf, u32_of_lt (by omega)]
    omega
  have honly : ∀ o ∈ freeOffsets G (G.pools p), offOf G.zone (ptrOf G.zone o) = o := by
    intro o ho
    obtain ⟨n, hn⟩ := h.onlyFree o ho
    exact Nat.add_left_cancel (n := G.zone) (hoff hn)
  have hperm : (freeOffsets G (G.pools p)).Perm
      ((freeSpots (poolStart G (G.pools p)) L).map fun u => offOf G.zone u.1) := by
    refine (List.perm_ext_iff_of_nodup (List.nodup_iff_count_eq_one.mpr fun o ho => ?_) ?_).mpr
      fun o => ⟨fun ho => ?_, fun ho => ?_⟩
    · obtain ⟨n, hn⟩ := h.onlyFree o ho
      have hone := (h.binned hn).1
      rwa [honly o ho] at hone
    · refine List.pairwise_map.mpr ((freeSpots_pairwise h.pieces _).imp_of_mem
        fun {u v} hu hv huv heq => ?_)
      have hou := hoff (mem_freeSpots.mp (show (u.1, u.2) ∈ _ from hu))
      rw [heq, hoff (mem_freeSpots.mp (show (v.1, v.2) ∈ _ from hv))] at hou
      omega
    · obtain ⟨n, hn⟩ := h.onlyFree o ho
      exact List.mem_map.mpr ⟨_, mem_freeSpots.mpr hn, honly o ho⟩
    · obtain ⟨u, hu, rfl⟩ := List.mem_map.mp ho
      exact List.count_pos_iff.mp
        (by rw [(h.binned (mem_freeSpots.mp (show (u.1, u.2) ∈ _ from hu))).1]; exact Nat.one_pos)
  rw [hperm.length_eq, List.length_map, freeSpots_length]

/-- A pool passes, exactly where its free blocks have no more walls between them than there are
objects and none of them is undersized. -/
theorem GlobalInv.validate_walls_iff (h : GlobalInv G Ls) (hp : Active G p)
    (hL : Represents G p L) :
    validate G p = .ok ↔ slackWalls L + liveWalls false L ≤ pmMaxObjects ∧ Roomy G p := by
  have hpool := h.pool p hp
  have hwalls := freeBlocks_walls hL.freeApart
  rw [hpool.validate_iff h.zone hp, hpool.noUndersized_iff h.zone, hL.freeOffsets_length h.zone,
    kFreeOffCap]
  refine and_congr_left fun _ => ⟨fun hle => ?_, fun hle => ?_⟩
  · omega
  · omega

end States

/-! ### Pools with slack at their end -/

/-- A `merge` or a `split` that will go through leaves room for a block in front of every pinned
one, or nothing. -/
structure Snug (G : GlobalState) (op : Op) : Prop where
  merge : ∀ s t, op = .merge s t → MergeReady G s t → Roomy G s → Roomy G t →
    FlushPacked G.objects (mergeStart G s t)
      (addressRow G (lowerPool G s t) ++ addressRow G (upperPool G s t))
  split : ∀ s n nid, op = .split s n → SplitReady G s n nid → SplitFits G s n →
    FlushPacked G.objects (splitBoundary G s n)
      ((addressRow G s).filter fun i => decide (Upper G (splitBoundary G s n) i))

/-- No pool has slack but at its end, and there only if `t`. -/
structure Neat (t : Prop) (G : GlobalState) (Ls : ℕ → List Piece) : Prop where
  inv : GlobalInv G Ls
  slack : ∀ p, EndSlack t (Ls p)
  room : t ∨ pmMinBlock ≤ 1024

section Steps

variable {t : Prop} {G G' : GlobalState} {Ls : ℕ → List Piece} {p : ℕ}

/-- The row of such a pool. -/
lemma Neat.flush (h : Neat t G Ls) (hp : Active G p) :
    Flush G.objects (poolEnd G (G.pools p)) t (poolStart G (G.pools p)) (liveSlots (Ls p)) := by
  have hpool := h.inv.pool p hp
  rw [hpool.end_eq]
  by_cases hmin : NoUndersized (Ls p)
  · exact (h.slack p).flush hmin (fun hx => ⟨(hpool.desc hx).start, (hpool.desc hx).block⟩)
      (.refl _)
  · -- an undersized block is the whole window
    rw [NoUndersized] at hmin
    push Not at hmin
    obtain ⟨n, hn, hlt⟩ := hmin
    have hwhole := (hpool.layout.minBlock n hn).resolve_left (by omega)
    have hcap := hpool.total
    have hpos := hpool.segPos
    have hge := h.inv.zone.segGe
    have hle := Nat.le_mul_of_pos_left G.segmentSize hpos
    rw [hwhole] at hcap ⊢
    exact h.room.imp_right fun hroom => Or.inr (by omega)

lemma Neat.same (h : Neat t G Ls) (h' : GlobalInv G' Ls) : Neat t G' Ls := ⟨h', h.slack, h.room⟩

lemma Neat.update (h : Neat t G Ls) {L : List Piece} (h' : GlobalInv G' (Function.update Ls p L))
    (hL : EndSlack t L) : Neat t G' (Function.update Ls p L) :=
  ⟨h', fun q => by
    by_cases hq : q = p
    · rw [hq, Function.update_self]
      exact hL
    · rw [Function.update_of_ne hq]
      exact h.slack q, h.room⟩

lemma Neat.createPool (h : Neat t G Ls) (count : ℕ) :
    ∃ Ls', Neat t (PondMerge.createPool G count).2.2 Ls' := by
  rcases createPool_cases h.inv count with ⟨st, -, -, heq⟩ | ⟨i, base, heq, -, -, -, hinv, -⟩
  · rw [heq]
    exact ⟨Ls, h⟩
  · rw [heq]
    exact ⟨_, h.update hinv (endSlack_of_none (by simp))⟩

lemma Neat.alloc (h : Neat t G Ls) (p size alignment flags tag : ℕ) :
    ∃ Ls', Neat t (PondMerge.alloc G p size alignment flags tag).2.2 Ls' := by
  rcases alloc_cases G p size alignment flags tag with ⟨st, -, heq⟩ | ⟨need, blk, ha, heq⟩
  · rw [heq]
    exact ⟨Ls, h⟩
  · obtain ⟨L₁, n, L₂, hL, hle, rfl⟩ := ha.block (h.inv.pool p ha.active)
    have hfree : EndSlack t (L₁ ++ [.free n] ++ L₂) := by
      rw [List.append_assoc, List.singleton_append, ← hL]
      exact h.slack p
    rw [heq]
    refine ⟨_, h.update (alloc_inv h.inv tag ha hL hle)
      (hfree.replace (List.cons_ne_nil _ _) fun k => ?_)⟩
    rw [allocPieces]
    split_ifs <;> simp

lemma Neat.free (h : Neat t G Ls) (ref : RawRef) (ws : List PayloadWrite) :
    ∃ Ls', Neat t (PondMerge.free (writingCallback ws) G ref).2 Ls' := by
  obtain ⟨Ls', hinv, rfl | ⟨p, L₁, M, L₂, n, hL, rfl, hM⟩⟩ := free_layouts h.inv ref ws
  · exact ⟨Ls', h.same hinv⟩
  · have hfree : EndSlack t (L₁ ++ M ++ L₂) := hL ▸ h.slack p
    exact ⟨_, h.update hinv (hfree.replace hM (by simp))⟩

/-- A compaction, full or partial, moves gaps behind the blocks. -/
lemma Neat.compact (h : Neat t G Ls) (req : Option CompactionRequest) (elapsed : ℕ) :
    ∃ Ls', Neat t (PondMerge.compact G p req elapsed).2.2 Ls' := by
  by_cases hyes : Active G p ∧ (G.pools p).borrowCount = 0 ∧ requestOk req = true
  · obtain ⟨hp, hidle, hreq⟩ := hyes
    have haud := (h.inv.pool p hp).audited h.inv.zone
    obtain ⟨-, hpack, hdst⟩ := compactPlan_slots h.inv.zone haud req
    have hinit : (planOf G p req (liveSlots (Ls p))).1 <+:
        packMoves G.objects (liveSlots (Ls p)) (poolStart G (G.pools p)) := planRow_initial 0 0
    obtain ⟨-, hframe⟩ := compactDone_spec h.inv.zone haud hpack hdst elapsed
    obtain ⟨hinv, -⟩ := compactDone_inv h.inv hp hpack hdst elapsed
    have hplaced := @compactDone_placed _ G p _ haud.nodup _ hpack.sublist elapsed
    obtain ⟨hstart, hstop⟩ := hframe.window
    rw [compact_eq h.inv hp hidle hreq elapsed]
    refine ⟨_, h.update hinv ?_⟩
    rw [packedLayout, hstart, hstop]
    exact ((h.flush hp).tucked (.refl _) (hplaced.tucked haud.nodup hinit) hplaced.size).endSlack
  · obtain ⟨st, F, heq, -, -, rfl | ⟨hp, rfl⟩⟩ := compact_refused h.inv hyes elapsed
    · rw [heq]
      exact ⟨Ls, h⟩
    · rw [heq]
      exact ⟨Ls, h.same (h.inv.sameHeap (sameHeap_setPool hp.2
        ⟨rfl, rfl, rfl, rfl, rfl, rfl, rfl, rfl⟩ (Or.inr (Or.inr rfl))))⟩

/-- A merge of pools without slack leaves none; any other one must be snug. -/
lemma Neat.merge {s u : ℕ} (h : Neat t G Ls) (hsnug : t → Snug G (.merge s u)) :
    ∃ Ls', Neat t (PondMerge.merge G s u).2 Ls' := by
  by_cases hyes : MergeReady G s u ∧ NoUndersized (Ls s) ∧ NoUndersized (Ls u)
  · obtain ⟨hr, hmin⟩ := hyes
    obtain ⟨F, L', heq, hinv, hm, hrun⟩ := merge_run h.inv hr hmin
    obtain ⟨halo, hahi⟩ := hr.active
    have hsize := fun i hi => (hm.relocated.kept i hi).blockSize
    rw [heq]
    refine ⟨_, h.update hinv ?_⟩
    rw [hrun.layout]
    by_cases ht : t
    · obtain rfl : t = True := eq_true ht
      have hpack := (hsnug ht).merge s u rfl hr
        (((h.inv.pool s hr.source).noUndersized_iff h.inv.zone).mp hmin.1)
        (((h.inv.pool u hr.target).noUndersized_iff h.inv.zone).mp hmin.2)
      rw [h.inv.addressRow halo, h.inv.addressRow hahi] at hpack
      exact (hrun.row.flush hpack hsize).endSlack
    · obtain rfl : t = False := eq_false ht
      have hmeet := poolEnd_adjacent (G := G) hr.adjacent.meet
      have hlow := h.flush halo
      have hup := h.flush hahi
      rw [← hmeet] at hup
      exact ((hlow.append hup).tucked (.refl _) hrun.row.tucked hsize).endSlack
  · obtain ⟨st, heq, -, -⟩ := merge_refused h.inv hyes
    rw [heq]
    exact ⟨Ls, h⟩

/-- A split leaves slack below its boundary, if any, and must be snug above. -/
lemma Neat.split {s n : ℕ} (h : Neat True G Ls) (hsnug : Snug G (.split s n)) :
    ∃ Ls', Neat True (PondMerge.split G s n).2.2 Ls' := by
  by_cases hok : (PondMerge.split G s n).1 = .ok
  swap
  · obtain ⟨st, heq, -, -⟩ := split_refused h.inv (s := s) (n := n) fun nid G' heq => by
      rw [heq] at hok
      exact hok rfl
    rw [heq]
    exact ⟨Ls, h⟩
  obtain ⟨nid, hr⟩ := split_asked h.inv hok
  have hpack := hsnug.split s n nid rfl hr ((h.inv.split_ok_iff hr).1.mp hok)
  rcases split_run h.inv hr with ⟨st, heq, hst⟩ | ⟨F, plan, L₁, L₂, heq, hinv, hrun, hsp, hpk⟩
  · rw [heq] at hok
    rcases hst with rfl | rfl <;> cases hok
  have hups := (hsp.halves h.inv hr.source).1
  rw [h.inv.addressRow hr.source, hups] at hpack
  have hflush := h.flush hr.source
  rw [hsp.slots] at hflush
  have hsize : ∀ i ∈ liveSlots L₁ ++ liveSlots L₂,
      (F.objects i).blockSize = (G.objects i).blockSize := fun i hi =>
    (hsp.relocated.kept i (hsp.slots ▸ hi)).blockSize
  -- both halves are packed, so slack is left at their ends only
  have hlow : EndSlack True L₁ := by
    rw [hpk.low]
    exact (hflush.take.tucked (.refl _) hpk.packedLow.tucked
      fun i hi => hsize i (List.mem_append_left _ hi)).endSlack
  have hup : EndSlack True L₂ := by
    rw [hpk.up]
    exact (hpk.packedUp.flush hpack fun i hi => hsize i (List.mem_append_right _ hi)).endSlack
  rw [heq]
  refine ⟨_, hinv, fun q => ?_, Or.inl trivial⟩
  by_cases hqn : q = nid
  · rw [hqn, Function.update_self]
    exact hup
  by_cases hqs : q = s
  · rw [hqs, Function.update_of_ne hr.ne.symm, Function.update_self]
    exact hlow
  · rw [Function.update_of_ne hqn, Function.update_of_ne hqs]
    exact h.slack q

/-- One operation. -/
theorem Neat.step (h : Neat t G Ls) {op : Op} (hsnug : t → Snug G op)
    (hsplit : t ∨ ∀ s n, op ≠ .split s n) : ∃ Ls', Neat t (PondMerge.step G op) Ls' := by
  cases op with
  | createPool n => exact h.createPool n
  | destroyPool id => exact ⟨Ls, h.same (destroyPool_inv h.inv id)⟩
  | pause id => exact ⟨Ls, h.same (pause_inv h.inv id)⟩
  | resume id => exact ⟨Ls, h.same (resume_inv h.inv id)⟩
  | alloc p size alignment flags tag => exact h.alloc p size alignment flags tag
  | free ref ws => exact h.free ref ws
  | setDestroyFn ref fn => exact ⟨Ls, h.same (setDestroyFn_inv h.inv ref fn)⟩
  | borrowBegin ref n a => exact ⟨Ls, h.same (borrowBegin_inv h.inv ref n a)⟩
  | borrowEnd ref => exact ⟨Ls, h.same (borrowEnd_inv h.inv ref)⟩
  | compact p req elapsed => exact h.compact req elapsed
  | merge s u => exact h.merge hsnug
  | split s n =>
      rcases hsplit with ht | hno
      · obtain rfl : t = True := eq_true ht
        exact h.split (hsnug ht)
      · exact absurd rfl (hno s n)
  | write w => exact ⟨Ls, h.same (clientWrite_inv h.inv w)⟩

end Steps

/-! ### Every run -/

section Runs

variable {t : Prop} {G : GlobalState} {Ls : ℕ → List Piece} {p : ℕ} {cfg : InitConfig}
  {ops : List Op}

/-- One free block more than live ones, at most. -/
lemma Neat.freeOffsets_le (h : Neat t G Ls) (hp : Active G p) :
    (freeOffsets G (G.pools p)).length ≤ (G.pools p).liveObjects + 1 := by
  have hpool := h.inv.pool p hp
  have hwalls := freeBlocks_walls hpool.layout.meets
  have hle := liveWalls_le false (Ls p)
  rw [(PoolInv.represents h.inv hp).freeOffsets_length h.inv.zone, hpool.live]
  rw [(h.slack p).slackWalls] at hwalls
  omega

lemma Neat.validate_iff (h : Neat t G Ls) (hp : Active G p) :
    validate G p = .ok ↔ Roomy G p := by
  have hpool := h.inv.pool p hp
  have hle := (liveWalls_le false (Ls p)).trans hpool.layout.length_le
  rw [h.inv.validate_walls_iff hp (PoolInv.represents h.inv hp), (h.slack p).slackWalls]
  exact and_iff_right (by omega)

/-- A run. -/
lemma Neat.runOps (h : Neat t G Ls)
    (hsnug : t → ∀ pre op, pre ++ [op] <+: ops → Snug (runOps G pre) op)
    (hsplit : t ∨ ∀ s n, .split s n ∉ ops) {pre : List Op} (hpre : pre <+: ops) :
    ∃ Ls', Neat t (PondMerge.runOps G pre) Ls' := by
  induction pre using List.reverseRecOn with
  | nil => exact ⟨Ls, h⟩
  | append_singleton pre op ih =>
      obtain ⟨Ls', h'⟩ := ih ((List.prefix_append _ _).trans hpre)
      rw [runOps_concat]
      refine h'.step (fun ht => hsnug ht pre op hpre) (hsplit.imp_right fun hno s n heq => ?_)
      exact hno s n (hpre.subset (by rw [heq]; simp))

lemma init_neat (hok : (init G cfg).1 = .ok) (hroom : t ∨ pmMinBlock ≤ 1024) :
    Neat t (init G cfg).2 fun _ => [] :=
  ⟨init_inv hok, fun _ => endSlack_of_none fun _ => List.not_mem_nil, hroom⟩

end Runs

/-- **No false positives of `validate`.**  In every state of a run from a successful `init` on, a
pool passes exactly if no more walls stand between its free blocks, be they stretches of live
blocks or runs of slack, than there are objects, and none of these blocks is below
`PM_MIN_BLOCK`.  Only slack can make them too many: where no `merge` or `split` of the run leaves
some in front of a pinned block, a pool has one free block more than live ones at most, and a run
that never splits leaves none where every segment holds a minimal block. -/
theorem init_validate_iff {G : GlobalState} {cfg : InitConfig} (hok : (init G cfg).1 = .ok)
    (ops : List Op) :
    let S := runOps (init G cfg).2
    (∀ pre, pre <+: ops → ∀ p, Active (S pre) p → (∃ L, Represents (S pre) p L) ∧
      ∀ L, Represents (S pre) p L → liveWalls false L ≤ ((S pre).pools p).liveObjects ∧
        (validate (S pre) p = .ok ↔
          slackWalls L + liveWalls false L ≤ pmMaxObjects ∧ Roomy (S pre) p))
    ∧ ((∀ pre op, pre ++ [op] <+: ops → Snug (S pre) op) →
      ∀ pre, pre <+: ops → ∀ p, Active (S pre) p →
        (freeOffsets (S pre) ((S pre).pools p)).length ≤ ((S pre).pools p).liveObjects + 1
          ∧ (validate (S pre) p = .ok ↔ Roomy (S pre) p))
    ∧ (pmMinBlock ≤ 1024 → (∀ s n, .split s n ∉ ops) →
      ∀ pre, pre <+: ops → ∀ p, Active (S pre) p → validate (S pre) p = .ok) := by
  refine ⟨fun pre _ p hp => ?_, fun hsnug pre hpre p hp => ?_, fun hmin hno pre hpre p hp => ?_⟩
  · obtain ⟨Ls, hinv⟩ := ((Reachable.init G cfg hok).runOps pre).healthy
    refine ⟨⟨Ls p, PoolInv.represents hinv hp⟩, fun L hL => ⟨?_, hinv.validate_walls_iff hp hL⟩⟩
    rw [hL.live]
    exact liveWalls_le false L
  · obtain ⟨Ls, h⟩ := (init_neat (t := True) hok (Or.inl trivial)).runOps (fun _ => hsnug)
      (Or.inl trivial) hpre
    exact ⟨h.freeOffsets_le hp, h.validate_iff hp⟩
  · obtain ⟨Ls, h⟩ := (init_neat (t := False) hok (Or.inr hmin)).runOps False.elim
      (Or.inr hno) hpre
    have hpool := h.inv.pool p hp
    have hcap := hpool.capacity h.inv.zone
    have hle := Nat.le_mul_of_pos_left (runOps (init G cfg).2 pre).segmentSize hpool.segPos
    have hge := h.inv.zone.segGe
    have htotal := hpool.total
    exact (h.validate_iff hp).mpr (Or.inl (by omega))

/-- Two pools are merged and split again around a pinned block that has more than a minimal block
of room in front of it, and all but one of their objects are freed. -/
def snugOps : List Op :=
  [.createPool 1, .createPool 1, .alloc 0 24 8 0 0, .alloc 1 200 8 0 0, .alloc 1 24 8 pmPinned 0,
    .merge 1 0, .free ⟨0, 1, crossHint, 0⟩ [], .split 0 1, .free ⟨2, 1, crossHint, 0⟩ []]

/-- The state behind the first `k` steps. -/
def snugRun (k : ℕ) : GlobalState :=
  letI := threeObjects
  runOps (init .zero ⟨8, 2048, 1024⟩).2 (snugOps.take k)

omit [PmConfig] in
set_option maxRecDepth 100000 in
/-- The merge and the split leave room in front of the pinned block. -/
lemma snugRun_gaps :
    letI := threeObjects
    Snug (snugRun 5) (.merge 1 0) ∧ Snug (snugRun 7) (.split 0 1) := by
  let _ := threeObjects
  refine ⟨⟨fun s t heq _ _ _ => ?_, fun _ _ _ heq => by cases heq⟩,
    ⟨fun _ _ heq => (by cases heq), fun s n _ heq _ _ => ?_⟩⟩
  · cases heq
    decide +kernel
  · cases heq
    decide +kernel

omit [PmConfig] in
set_option maxRecDepth 100000 in
lemma snugRun_end :
    letI := threeObjects
    ((snugRun 6).pools 0).liveObjects = 3 ∧ ∀ p < 2, ((snugRun 9).pools p).state ≠ .empty
      ∧ pmMinBlock ≤ poolCapacity (snugRun 9) ((snugRun 9).pools p) := by
  decide +kernel

omit [PmConfig] in
lemma snugRun_step (k : ℕ) (op : Op) (hk : snugOps[k]? = some op) :
    letI := threeObjects; Snug (snugRun k) op := by
  let _ := threeObjects
  match k, hk with
  | 5, rfl => exact snugRun_gaps.1
  | 7, rfl => exact snugRun_gaps.2
  | 0, rfl | 1, rfl | 2, rfl | 3, rfl | 4, rfl | 6, rfl | 8, rfl =>
      exact ⟨fun _ _ heq => (by cases heq), fun _ _ _ heq => by cases heq⟩

omit [PmConfig] in
/-- Both pools pass at the end of that run. -/
theorem init_validate_iff_snugOps :
    letI := threeObjects
    validate (snugRun 9) 0 = .ok ∧ validate (snugRun 9) 1 = .ok := by
  let _ := threeObjects
  have hok : (init .zero ⟨8, 2048, 1024⟩).1 = .ok := by decide
  have hall : ∀ k p, Active (snugRun k) p →
      (validate (snugRun k) p = .ok ↔ Roomy (snugRun k) p) := fun k p hp =>
    ((init_validate_iff hok snugOps).2.1 (steps_of_run snugRun_step) (snugOps.take k)
      (List.take_prefix k snugOps) p hp).2
  have hvalid : ∀ p < 2, validate (snugRun 9) p = .ok := fun p hp => by
    obtain ⟨hne, hroom⟩ := snugRun_end.2 p hp
    exact (hall 9 p ⟨hp.trans (by decide), hne⟩).mpr (Or.inl hroom)
  exact ⟨hvalid 0 (by decide), hvalid 1 (by decide)⟩

/-- Two splits leave slack in front of their boundaries; merged again, and with its three
objects freed around it, the pool has free blocks that the slack keeps apart. -/
def slackApart : GlobalState :=
  letI := threeObjects
  runOps (init .zero ⟨8, 3072, 1024⟩).2 [.createPool 3, .alloc 0 1008 8 0 0, .alloc 0 8 8 0 0,
    .split 0 2, .free ⟨1, 1, crossHint, 0⟩ [], .alloc 1 1008 8 2 0, .alloc 1 8 8 0 0,
    .split 1 1, .free ⟨2, 1, crossHint, 0⟩ [], .alloc 2 8 8 2 0, .merge 1 0, .merge 2 0,
    .free ⟨0, 1, crossHint, 0⟩ [], .free ⟨1, 3, crossHint, 0⟩ [],
    .free ⟨2, 3, crossHint, 0⟩ [], .alloc 0 8 8 0 0, .alloc 0 8 8 0 0,
    .free ⟨2, 5, crossHint, 0⟩ [], .alloc 0 24 8 0 0, .alloc 0 24 8 0 0,
    .free ⟨2, 7, crossHint, 0⟩ []]

omit [PmConfig] in
set_option maxRecDepth 100000 in
/-- A reachable pool with more binned free blocks than objects allow for is refused. -/
theorem slackApart_refused :
    letI := threeObjects
    Reachable slackApart ∧ Active slackApart 0
      ∧ kFreeOffCap < (freeOffsets slackApart (slackApart.pools 0)).length
      ∧ validate slackApart 0 = .corruptMetadata := by
  let _ := threeObjects
  exact ⟨(Reachable.init .zero ⟨8, 3072, 1024⟩ (by decide)).runOps _,
    ⟨by decide, by decide +kernel⟩, by decide +kernel, by decide +kernel⟩

end PondMerge
