import PondMerge.Operations.Neighbours
import PondMerge.Operations.Accounting
import PondMerge.Model.Reentry

/-!
`free` on the invariant of the whole state, destroy callback included.

* `freeCommit_markDestroying`: the Destroying state leaves no trace.
* `free_healthy`: what `free` comes to in a healthy state.
* `free_inv`: `free` keeps the invariant.
-/

namespace PondMerge

open ByteMemory LinkedList Tiling

variable [PmConfig]

/-! ### The callback -/

section Mark

variable {G : GlobalState} {i : ℕ}

lemma clientWrite_objects (G : GlobalState) (w : PayloadWrite) :
    (clientWrite G w).objects = G.objects := by
  rw [clientWrite]
  split_ifs <;> rfl

lemma clientWrite_markDestroying (hl : (G.objects i).state = .live) (w : PayloadWrite) :
    clientWrite (markDestroying G i) w = markDestroying (clientWrite G w) i := by
  by_cases hw : w.slot = i
  · subst hw
    rw [clientWrite, clientWrite, markDestroying]
    simp only [GlobalState.setObj_objects, Function.update_self, hl, ne_eq, reduceCtorEq,
      not_false_eq_true, true_and]
    split_ifs <;> rfl
  · rw [clientWrite, clientWrite, markDestroying]
    simp only [GlobalState.setObj_objects, Function.update_of_ne hw]
    split_ifs <;> rfl

/-- The writes of a callback, as if the object were still live. -/
lemma foldl_clientWrite_markDestroying (hl : (G.objects i).state = .live)
    (ws : List PayloadWrite) :
    ws.foldl clientWrite (markDestroying G i) = markDestroying (ws.foldl clientWrite G) i := by
  induction ws generalizing G with
  | nil => rfl
  | cons w ws ih =>
      rw [List.foldl_cons, List.foldl_cons, clientWrite_markDestroying hl, ih]
      rw [clientWrite_objects]
      exact hl

omit [PmConfig] in
lemma orderUnlink_markDestroying (p : ℕ) (hp : (G.objects i).addrPrev ≠ i)
    (hn : (G.objects i).addrNext ≠ i) :
    orderUnlink (markDestroying G i) p i = markDestroying (orderUnlink G p i) i := by
  have hup : ∀ (f : ℕ → ObjectDesc) (j : ℕ) (a b : ObjectDesc), j ≠ i →
      Function.update (Function.update f i a) j b = Function.update (Function.update f j b) i a :=
    fun f j a b hj => Function.update_comm (Ne.symm hj) a b f
  by_cases h1 : (G.objects i).addrPrev = noOrder <;>
    by_cases h2 : (G.objects i).addrNext = noOrder <;>
    simp [orderUnlink, markDestroying, GlobalState.setObj, GlobalState.setPool, h1, h2, hup, hp,
      hn, Ne.symm hp, Ne.symm hn, Function.update_of_ne]

/-- The Destroying state leaves no trace in what `free` commits. -/
lemma freeCommit_markDestroying (p block stop : ℕ) (hp : (G.objects i).addrPrev ≠ i)
    (hn : (G.objects i).addrNext ≠ i) :
    freeCommit (markDestroying G i) p i block stop = freeCommit G p i block stop := by
  have hheap : freeHeap (markDestroying G i) p i block stop =
      markDestroying (freeHeap G p i block stop) i := by
    simp [freeHeap, markDestroying, GlobalState.setObj, GlobalState.setPool]
  have hsize : ((markDestroying G i).objects i).blockSize = (G.objects i).blockSize := by
    simp [markDestroying]
  have hunlink := orderUnlink_markDestroying (G := freeHeap G p i block stop) p hp hn
  simp only [freeCommit, hheap, hunlink, hsize]
  simp [markDestroying, slotRelease, GlobalState.setObj, GlobalState.setPool, freedDesc,
    poolCapacity]

end Mark

section Healthy

variable {G : GlobalState} {Ls : ℕ → List Piece}

/-- The state after the destroy callback of slot `i`, where it has one. -/
def afterCallback (G : GlobalState) (i : ℕ) (ws : List PayloadWrite) : GlobalState :=
  match (G.objects i).destroyFn with
  | none => G
  | some _ => ws.foldl clientWrite G

lemma foldl_clientWrite_inv (h : GlobalInv G Ls) (ws : List PayloadWrite) :
    GlobalInv (ws.foldl clientWrite G) Ls := by
  induction ws generalizing G with
  | nil => exact h
  | cons w ws ih => exact ih (clientWrite_inv h w)

lemma foldl_clientWrite_objects (G : GlobalState) (ws : List PayloadWrite) :
    (ws.foldl clientWrite G).objects = G.objects := by
  induction ws generalizing G with
  | nil => rfl
  | cons w ws ih => rw [List.foldl_cons, ih, clientWrite_objects]

lemma clientWrite_eq (G : GlobalState) (w : PayloadWrite) :
    clientWrite G w = { G with mem := (clientWrite G w).mem } := by
  rw [clientWrite]
  split_ifs <;> rfl

lemma foldl_clientWrite_eq (G : GlobalState) (ws : List PayloadWrite) :
    ws.foldl clientWrite G = { G with mem := (ws.foldl clientWrite G).mem } := by
  induction ws generalizing G with
  | nil => rfl
  | cons w ws ih =>
      rw [List.foldl_cons, ih, clientWrite_eq]

lemma afterCallback_eq (G : GlobalState) (i : ℕ) (ws : List PayloadWrite) :
    afterCallback G i ws = { G with mem := (afterCallback G i ws).mem } := by
  rw [afterCallback]
  split
  · rfl
  · exact foldl_clientWrite_eq G ws

lemma afterCallback_inv (h : GlobalInv G Ls) (i : ℕ) (ws : List PayloadWrite) :
    GlobalInv (afterCallback G i ws) Ls := by
  rw [afterCallback]
  split
  · exact h
  · exact foldl_clientWrite_inv h ws

/-- The callback unit of `free` in a healthy state: the second proof succeeds again. -/
lemma runDestroy_healthy (h : GlobalInv G Ls) {i : ℕ} (hi : i < pmMaxObjects)
    (hl : (G.objects i).state = .live) (ws : List PayloadWrite) (fn : ℕ) :
    let p := (G.objects i).poolId
    let G' := markDestroying (ws.foldl clientWrite G) i
    runDestroy (writingCallback ws) G p i (G.objects i).block (poolStart G (G.pools p))
      (poolEnd G (G.pools p)) fn = (some G', G') := by
  dsimp only
  have h' := foldl_clientWrite_inv h ws
  obtain ⟨x, n, hact, hx, haddr, -, -⟩ := h'.payload hi (by rwa [foldl_clientWrite_objects])
  have hver := (h'.pool _ hact).neighbours h'.zone hx
  have heq := foldl_clientWrite_eq G ws
  have hrun : writingCallback ws fn (G.objects i).address (markDestroying G i) =
      markDestroying (ws.foldl clientWrite G) i :=
    foldl_clientWrite_markDestroying hl ws
  rw [runDestroy]
  rw [← markDestroying, hrun]
  have hst : ((markDestroying (ws.foldl clientWrite G) i).objects i).state = .destroying := by
    simp [markDestroying]
  rw [if_neg (by simp [hst]), if_neg]
  have hblock : (G.objects i).block = x := by
    rw [foldl_clientWrite_objects] at haddr
    rw [ObjectDesc.block, haddr]
    omega
  rw [hblock]
  simp only [Bool.not_eq_true, Bool.not_eq_false']
  have hsize : ((markDestroying (ws.foldl clientWrite G) i).objects i).blockSize =
      ((ws.foldl clientWrite G).objects i).blockSize := by
    simp [markDestroying]
  have hzone : SameZone (ws.foldl clientWrite G) (markDestroying (ws.foldl clientWrite G) i) :=
    ⟨rfl, rfl, rfl, rfl, rfl⟩
  rw [verifyNeighbours_congr hzone rfl hsize]
  rw [foldl_clientWrite_objects] at hver ⊢
  rw [heq] at hver ⊢
  exact hver

/-- What `free` comes to in a healthy state. -/
theorem free_healthy (h : GlobalInv G Ls) (ref : RawRef) (ws : List PayloadWrite) :
    free (writingCallback ws) G ref =
      let d := G.objects ref.index
      if ref.offset ≠ 0 then (.invalidRef, G)
      else match checkRef G ref 0 1 true with
      | .error e => (e, G)
      | .ok _ =>
        if d.activeBorrows ≠ 0 then (.busy, G)
        else (.ok, freeCommit (afterCallback G ref.index ws) d.poolId ref.index d.block
          (poolEnd G (G.pools d.poolId))) := by
  rw [free, if_neg (by simp [h.zone.init])]
  dsimp only
  by_cases hoff : ref.offset ≠ 0
  · rw [if_pos hoff, if_pos hoff]
  rw [if_neg hoff, if_neg hoff]
  cases hck : checkRef G ref 0 1 true with
  | error e => rfl
  | ok addr =>
      obtain ⟨hok, -⟩ := checkRef_ok hck
      dsimp only
      by_cases hb : (G.objects ref.index).activeBorrows ≠ 0
      · rw [if_pos hb, if_pos hb]
      rw [if_neg hb, if_neg hb]
      obtain ⟨x, n, hact, hx, haddr, -, -⟩ := h.payload hok.index hok.live
      have hver := (h.pool _ hact).neighbours h.zone hx
      have hblock : (G.objects ref.index).block = x := by
        rw [ObjectDesc.block, haddr]
        omega
      rw [hblock, hver, if_neg (by simp)]
      rw [afterCallback]
      cases hfn : (G.objects ref.index).destroyFn with
      | none => rfl
      | some fn =>
          have hrun := runDestroy_healthy h hok.index hok.live ws fn
          rw [hblock] at hrun
          dsimp only at hrun ⊢
          rw [hrun]
          dsimp only
          obtain ⟨hp, hn⟩ := (h.pool _ hact).order.links_ne hx.mem_liveSlots
          rw [freeCommit_markDestroying]
          · rwa [foldl_clientWrite_objects]
          · rwa [foldl_clientWrite_objects]

/-! ### The invariant -/

/-- The free-slot list after a slot has been released. -/
lemma SlotsOk.push {G' : GlobalState} {s : ℕ} (h : SlotsOk G) (hs : s < pmMaxObjects)
    (hlive : (G.objects s).state = .live) (hhead : G'.freeSlotHead = s)
    (hcount : G'.liveObjectCount = sub32 G.liveObjectCount 1)
    (hnext : (G'.objects s).nextFreeSlot = G.freeSlotHead)
    (hfree : (G'.objects s).state = .free)
    (hobj : ∀ i < pmMaxObjects, i ≠ s →
      (G'.objects i).nextFreeSlot = (G.objects i).nextFreeSlot
        ∧ (G'.objects i).state = (G.objects i).state) : SlotsOk G' := by
  obtain ⟨l, hl, hmem, hlen⟩ := h
  have hmax := PmConfig.maxObjects_lt
  have hsl : s ∉ l := by
    intro hm
    have := ((hmem s).mp hm).2
    rw [hlive] at this
    cases this
  have hother : ∀ i ∈ l, i < pmMaxObjects ∧ i ≠ s := fun i hi =>
    ⟨((hmem i).mp hi).1, fun heq => hsl (heq ▸ hi)⟩
  -- the list leaves out the slot, so it is not full
  have hlt : l.length < pmMaxObjects := by
    have hnd : (s :: l).Nodup := List.nodup_cons.mpr ⟨hsl, hl.nodup⟩
    have hsub : s :: l ⊆ List.range pmMaxObjects := by
      intro i hi
      rcases List.mem_cons.mp hi with rfl | hi
      · exact List.mem_range.mpr hs
      · exact List.mem_range.mpr (hother i hi).1
    have := (List.subperm_of_subset hnd hsub).length_le
    rw [List.length_cons, List.length_range] at this
    omega
  refine ⟨s :: l, ⟨hhead, ?_, ?_⟩, fun i => ?_, ?_⟩
  · rw [noSlot]
    omega
  · dsimp only
    rw [hnext]
    exact hl.congr fun i hi => (hobj i (hother i hi).1 (hother i hi).2).1
  · rw [List.mem_cons]
    by_cases hi : i = s
    · subst hi
      exact iff_of_true (Or.inl rfl) ⟨hs, hfree⟩
    · rw [hmem, or_iff_right hi]
      refine and_congr_right fun hlt => ?_
      rw [(hobj i hlt hi).2]
  · rw [hcount, List.length_cons, sub32_of_le (by omega) (by omega)]
    omega

/-- The commit of `free` on the invariant of the whole state. -/
theorem freeCommit_global (h : GlobalInv G Ls) {i : ℕ} (hi : i < pmMaxObjects)
    (hl : (G.objects i).state = .live) :
    let p := (G.objects i).poolId
    let G' := freeCommit G p i (G.objects i).block (poolEnd G (G.pools p))
    ∃ L', GlobalInv G' (Function.update Ls p L')
      ∧ (∀ x s n, LiveAt (poolStart G (G.pools p)) L' x s n ↔
        LiveAt (poolStart G (G.pools p)) (Ls p) x s n ∧ s ≠ i)
      ∧ (∀ z, ¬ MetaByte (poolStart G (G.pools p)) (Ls p) z →
        ¬ MetaByte (poolStart G (G.pools p)) L' z → G'.mem z = G.mem z)
      ∧ ∃ L₁ M L₂ n, Ls p = L₁ ++ M ++ L₂ ∧ L' = L₁ ++ [.free n] ++ L₂ ∧ M ≠ [] := by
  obtain ⟨x, n, hact, hx, haddr, -, -⟩ := h.payload hi hl
  dsimp only
  generalize hp : (G.objects i).poolId = p at *
  have hblock : (G.objects i).block = x := by
    rw [ObjectDesc.block, haddr]
    omega
  rw [hblock]
  have hpool := h.pool p hact
  obtain ⟨L₁, L₂, hL, rfl⟩ := exists_split hx
  -- the block with the free ones beside it, each of which may be missing
  obtain ⟨L₀, B, C, L₃, rfl, rfl, hB, hC, hL₀, hL₃⟩ := exists_free_split
    (hL ▸ hpool.layout.meets)
  have hL' : Ls p = L₀ ++ (B ++ Piece.live i n :: C) ++ L₃ := by simp [hL]
  rw [hL'] at hpool
  obtain ⟨hinv, hframe⟩ := freeCommit_inv h.zone hpool hB hC hL₀ hL₃
  have hmemi : i ∈ liveSlots (L₀ ++ (B ++ Piece.live i n :: C) ++ L₃) := by simp
  obtain ⟨hprev, hnext⟩ := hpool.order.links_ne hmemi
  have hobj := fun j (hj : j < pmMaxObjects) => freeCommit_objects G p i
    (poolStart G (G.pools p) + total Piece.len (L₀ ++ B)) (poolEnd G (G.pools p)) hprev hnext
    (slot_ne_noOrder hj)
  have hpools := freeCommit_pools G p i
    (poolStart G (G.pools p) + total Piece.len (L₀ ++ B)) (poolEnd G (G.pools p))
  obtain ⟨hsame, hhead, hcount⟩ := freeCommit_rest G p i
    (poolStart G (G.pools p) + total Piece.len (L₀ ++ B)) (poolEnd G (G.pools p))
  generalize freeCommit G p i (poolStart G (G.pools p) + total Piece.len (L₀ ++ B))
    (poolEnd G (G.pools p)) = G' at *
  generalize hN : total Piece.len B + n + total Piece.len C = N at *
  -- the slot leaves the layout, and nothing else does
  have hslots : (liveSlots (L₀ ++ (B ++ Piece.live i n :: C) ++ L₃)).Perm
      (i :: liveSlots (L₀ ++ [Piece.free N] ++ L₃)) := by
    simp only [liveSlots_append, liveSlots_live, liveSlots_free, hB.counts.1, hC.counts.1,
      List.nil_append, List.append_assoc, List.singleton_append]
    exact List.perm_middle
  have hnot : i ∉ liveSlots (L₀ ++ [Piece.free N] ++ L₃) :=
    (List.nodup_cons.mp (hslots.nodup_iff.mp hpool.layout.nodup)).1
  have hmem : ∀ j, j ∈ liveSlots (L₀ ++ [Piece.free N] ++ L₃) ↔ j ∈ liveSlots (Ls p) ∧ j ≠ i := by
    intro j
    rw [hL', hslots.mem_iff, List.mem_cons]
    constructor
    · intro hj
      exact ⟨Or.inr hj, fun heq => hnot (heq ▸ hj)⟩
    · rintro ⟨rfl | hj, hne⟩
      · exact absurd rfl hne
      · exact hj
  have hother : ∀ j < pmMaxObjects, j ≠ i →
      (G'.objects j).nextFreeSlot = (G.objects j).nextFreeSlot
        ∧ (G'.objects j).state = (G.objects j).state := by
    intro j hj hne
    rw [hobj j hj, if_neg hne]
    exact ⟨rfl, rfl⟩
  have hfree : (G'.objects i).state = .free := by
    rw [hobj i hi, if_pos rfl]
    rfl
  refine ⟨L₀ ++ [Piece.free N] ++ L₃, ?_, fun y s k => ?_, ?_, L₀, _, L₃, N, hL', rfl, by simp⟩
  · refine h.update hact hsame (fun q hq => ?_) ?_ ?_ hinv (fun j hj hj' _ => ?_)
      (fun z hz => ?_) (fun j hj hm hlj => ?_) (fun q hq hqp j hj hj' => ?_) (fun j hj => ?_) ?_
    · rw [hpools, Function.update_of_ne hq]
    · rw [hpools, Function.update_self]
      exact (h.settled p hact.1).resolve_left hact.2
    · rw [hpools, Function.update_self]
      exact ⟨rfl, rfl⟩
    · have hne : j ≠ i := by
        rintro rfl
        exact hj' (hL' ▸ hmemi)
      -- its neighbours in the object list belong to the same pool
      obtain ⟨hpm, hnm⟩ := hpool.order.links_mem hmemi
      have hjp : j ≠ (G.objects i).addrPrev := by
        rintro rfl
        exact hj' (hL' ▸ hpm.resolve_left (slot_ne_noOrder hj))
      have hjn : j ≠ (G.objects i).addrNext := by
        rintro rfl
        exact hj' (hL' ▸ hnm.resolve_left (slot_ne_noOrder hj))
      rw [hobj j hj, if_neg hne, if_neg hjp, if_neg hjn]
      exact SameBlock.refl _
    · refine hframe z (fun hm => hz (hpool.meta_inWindow hm)) (fun hm => hz ?_)
      have hb := hm.bounds hinv.layout.pieces
      have htot : total Piece.len (L₀ ++ [Piece.free N] ++ L₃) =
          total Piece.len (L₀ ++ (B ++ Piece.live i n :: C) ++ L₃) := by
        simp only [total_append, total_cons, total_nil, Piece.len]
        omega
      rw [htot, ← hpool.end_eq] at hb
      exact hb
    · refine (hmem j).mpr ⟨hm, ?_⟩
      rintro rfl
      rw [hfree] at hlj
      cases hlj
    · exact hqp (h.slots_apart hq hact hj ((hmem j).mp hj').1)
    · by_cases hne : j = i
      · rw [hne]
        exact Or.inr hfree
      · rw [(hother j hj hne).2]
        exact h.idle j hj
    · exact h.slots.push hi hl hhead hcount (by rw [hobj i hi, if_pos rfl]) hfree hother
  · rw [hL', liveAt_free_iff hB hC, hN]
    constructor
    · intro hy
      refine ⟨Or.inl hy, ?_⟩
      rintro rfl
      exact hnot hy.mem_liveSlots
    · rintro ⟨hy | ⟨-, hs, -⟩, hne⟩
      · exact hy
      · exact absurd hs hne
  · intro z h₁ h₂
    rw [hL'] at h₁
    exact hframe z h₁ h₂

/-- The two outcomes of `free` in a healthy state: a refusal that is no corruption and
changes nothing, or the callback and the commit. -/
theorem free_cases (h : GlobalInv G Ls) (ref : RawRef) (ws : List PayloadWrite) :
    (∃ st, st ≠ .ok ∧ st ≠ .corruptMetadata ∧ free (writingCallback ws) G ref = (st, G))
      ∨ (RefOk G ref 0 true ∧ (G.objects ref.index).activeBorrows = 0
        ∧ free (writingCallback ws) G ref = (.ok, freeCommit (afterCallback G ref.index ws)
          (G.objects ref.index).poolId ref.index (G.objects ref.index).block
          (poolEnd G (G.pools (G.objects ref.index).poolId)))) := by
  rw [free_healthy h]
  dsimp only
  by_cases hoff : ref.offset ≠ 0
  · rw [if_pos hoff]
    exact Or.inl ⟨_, by decide, by decide, rfl⟩
  rw [if_neg hoff]
  cases hck : checkRef G ref 0 1 true with
  | error e =>
      obtain ⟨hok, hcorrupt⟩ := checkRef_error h hck
      exact Or.inl ⟨e, hok, hcorrupt, rfl⟩
  | ok addr =>
      dsimp only
      by_cases hb : (G.objects ref.index).activeBorrows ≠ 0
      · rw [if_pos hb]
        exact Or.inl ⟨_, by decide, by decide, rfl⟩
      · rw [if_neg hb]
        exact Or.inr ⟨(checkRef_ok hck).1, not_not.mp hb, rfl⟩

/-- A `free` that goes through puts one free block in the place of the freed one and of the free
blocks next to it; any other one keeps every layout. -/
theorem free_layouts (h : GlobalInv G Ls) (ref : RawRef) (ws : List PayloadWrite) :
    ∃ Ls', GlobalInv (free (writingCallback ws) G ref).2 Ls'
      ∧ (Ls' = Ls ∨ ∃ p L₁ M L₂ n, Ls p = L₁ ++ M ++ L₂
        ∧ Ls' = Function.update Ls p (L₁ ++ [.free n] ++ L₂) ∧ M ≠ []) := by
  rcases free_cases h ref ws with ⟨st, -, -, heq⟩ | ⟨hok, -, heq⟩
  · exact ⟨Ls, by rw [heq]; exact h, Or.inl rfl⟩
  · have hafter := afterCallback_eq G ref.index ws
    have hobj : (afterCallback G ref.index ws).objects = G.objects := by rw [hafter]
    have hpools : (afterCallback G ref.index ws).pools = G.pools := by rw [hafter]
    obtain ⟨L', hinv, -, -, L₁, M, L₂, n, hL, rfl, hM⟩ :=
      freeCommit_global (afterCallback_inv h ref.index ws) hok.index (by rw [hobj]; exact hok.live)
    rw [heq]
    rw [hobj, hpools] at hinv
    rw [hobj] at hL
    have hend : poolEnd (afterCallback G ref.index ws) (G.pools (G.objects ref.index).poolId) =
        poolEnd G (G.pools (G.objects ref.index).poolId) := by
      rw [hafter]
      rfl
    rw [hend] at hinv
    exact ⟨_, hinv, Or.inr ⟨_, L₁, M, L₂, n, hL, rfl, hM⟩⟩

/-- `free` keeps the invariant. -/
theorem free_inv (h : GlobalInv G Ls) (ref : RawRef) (ws : List PayloadWrite) :
    ∃ Ls', GlobalInv (free (writingCallback ws) G ref).2 Ls' := by
  obtain ⟨Ls', hinv, -⟩ := free_layouts h ref ws
  exact ⟨Ls', hinv⟩

end Healthy

end PondMerge
