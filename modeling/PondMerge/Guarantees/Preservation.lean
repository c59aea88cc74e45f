import PondMerge.Guarantees.Representation

/-!
Maintenance preserves objects: what a successful `compact`, `merge` or `split` of any
reachable state leaves of every object and of every other pool.

* `ObjectKept`, `Preserves`: an object with its payload, and all objects of a state.
* `preserves_of_relocated`: relocations within some pools preserve all objects.
* `compact_merge_preserve`, `split_preserves`: the operations.
-/

namespace PondMerge

open Tiling

variable [PmConfig]

/-- Object `i` of `G` is alive in `G'` with its identity, annotations and payload bytes. -/
structure ObjectKept (G G' : GlobalState) (i : ℕ) : Prop where
  live : (G'.objects i).state = .live
  generation : (G'.objects i).generation = (G.objects i).generation
  size : (G'.objects i).size = (G.objects i).size
  blockSize : (G'.objects i).blockSize = (G.objects i).blockSize
  userTag : (G'.objects i).userTag = (G.objects i).userTag
  flags : (G'.objects i).flags = (G.objects i).flags
  destroyFn : (G'.objects i).destroyFn = (G.objects i).destroyFn
  payload : ∀ k < (G.objects i).size,
    G'.mem ((G'.objects i).address + k) = G.mem ((G.objects i).address + k)

/-- An object of the table that is alive. -/
def LiveObject (G : GlobalState) (i : ℕ) : Prop := i < pmMaxObjects ∧ (G.objects i).state = .live

/-- Every object of `G` has been kept; those of the pools `A` may have moved, pinned ones
excepted, in their order, and everything else of the other pools is untouched. -/
structure Preserves (G G' : GlobalState) (A : ℕ → Prop) : Prop where
  kept : ∀ i, LiveObject G i → ObjectKept G G' i
  pinned : ∀ i, LiveObject G i → (G.objects i).pinned = true →
    (G'.objects i).address = (G.objects i).address
  order : ∀ i j, LiveObject G i → LiveObject G j → A (G.objects i).poolId →
    A (G.objects j).poolId →
    ((G'.objects i).address < (G'.objects j).address ↔
      (G.objects i).address < (G.objects j).address)
  others : ∀ i, LiveObject G i → ¬ A (G.objects i).poolId → G'.objects i = G.objects i
  bytes : ∀ q, Active G q → ¬ A q → ∀ z, InWindow G q z → G'.mem z = G.mem z

section Relocation

variable {G G' : GlobalState} {Ls : ℕ → List Piece}

/-- The payload of a live object lies in the window of its pool. -/
lemma GlobalInv.payload_inWindow (h : GlobalInv G Ls) {i : ℕ} (hi : LiveObject G i) {k : ℕ}
    (hk : k < (G.objects i).size) :
    Active G (G.objects i).poolId
      ∧ InWindow G (G.objects i).poolId ((G.objects i).address + k) := by
  obtain ⟨x, n, hact, hx, haddr, -, hsize⟩ := h.payload hi.1 hi.2
  exact ⟨hact, (h.pool _ hact).live_inWindow hx (by omega) (by omega)⟩

/-- Relocations of the objects of some pools within their windows preserve all objects. -/
theorem preserves_of_relocated (h : GlobalInv G Ls) {A : ℕ → Prop} {l : List ℕ}
    (hl : ∀ i, i ∈ l ↔ LiveObject G i ∧ A (G.objects i).poolId) (hrel : Relocated G G' l)
    (hmem : ∀ q, Active G q → ¬ A q → ∀ z, InWindow G q z → G'.mem z = G.mem z) :
    Preserves G G' A := by
  have hother : ∀ i, LiveObject G i → ¬ A (G.objects i).poolId → G'.objects i = G.objects i :=
    fun i _ hA => hrel.other i fun hm => hA ((hl i).mp hm).2
  refine ⟨fun i hi => ?_, fun i hi hp => ?_, fun i j hi hj hAi hAj => ?_, hother, hmem⟩
  · by_cases hA : A (G.objects i).poolId
    · have hm := (hl i).mpr ⟨hi, hA⟩
      have hk := hrel.kept i hm
      exact ⟨hk.state.trans hi.2, hk.generation, hk.size, hk.blockSize, hk.userTag, hk.flags,
        hk.destroyFn, hrel.payload i hm⟩
    · have heq := hother i hi hA
      refine ⟨by rw [heq]; exact hi.2, by rw [heq], by rw [heq], by rw [heq], by rw [heq],
        by rw [heq], by rw [heq], fun k hk => ?_⟩
      obtain ⟨hact, hin⟩ := h.payload_inWindow hi hk
      rw [heq]
      exact hmem _ hact hA _ hin
  · by_cases hA : A (G.objects i).poolId
    · exact hrel.pinned i ((hl i).mpr ⟨hi, hA⟩) hp
    · rw [hother i hi hA]
  · exact hrel.order i ((hl i).mpr ⟨hi, hAi⟩) j ((hl j).mpr ⟨hj, hAj⟩)

/-- The live slots of a pool are the live objects that name it. -/
lemma GlobalInv.mem_liveSlots (h : GlobalInv G Ls) {p : ℕ} (hp : Active G p) (i : ℕ) :
    i ∈ liveSlots (Ls p) ↔ LiveObject G i ∧ (G.objects i).poolId = p := by
  constructor
  · intro hm
    obtain ⟨n, hn⟩ := PondMerge.mem_liveSlots.mp hm
    have hid := (h.pool p hp).poolId hm
    exact ⟨⟨((h.pool p hp).layout.pieces _ hn).1, hid.2⟩, hid.1⟩
  · rintro ⟨hi, rfl⟩
    exact (h.owner hi.1 hi.2).2

end Relocation

/-! ### References across a merge -/

/-- What `resolve` answers for a reference to a live object of a Running pool. -/
lemma resolve_healthy {G : GlobalState} {Ls : ℕ → List Piece} (h : GlobalInv G Ls) {i : ℕ}
    (hi : LiveObject G i) (hrun : (G.pools (G.objects i).poolId).state = .running)
    (hint off n a : ℕ) :
    (hint = crossHint ∨ hint = (G.objects i).poolId → off + n ≤ (G.objects i).size →
      alignmentOk a = true → ((G.objects i).address + off) &&& (a - 1) = 0 →
      resolve G ⟨i, (G.objects i).generation, hint, off⟩ n a =
        (.ok, (G.objects i).address + off))
    ∧ (hint ≠ crossHint → hint ≠ (G.objects i).poolId →
      resolve G ⟨i, (G.objects i).generation, hint, off⟩ n a = (.poolChanged, 0)) := by
  obtain ⟨x, k, hact, hx, -⟩ := h.payload hi.1 hi.2
  have hgen := ((h.pool _ hact).desc hx).generation
  have hfirst : ¬ (pmMaxObjects ≤ i ∨ (G.objects i).generation = 0
      ∨ (G.objects i).state ≠ .live ∨ (G.objects i).generation ≠ (G.objects i).generation) := by
    have := hi.1
    have := hi.2
    rintro (h1 | h1 | h1 | h1)
    · omega
    · exact hgen h1
    · exact h1 hi.2
    · exact h1 rfl
  constructor
  · intro hhint hin ha halign
    rw [resolve, checkRef_healthy h]
    dsimp only
    rw [if_neg hfirst, if_neg (by tauto), if_neg (by simp [hrun]), if_neg (by simp [ha]),
      if_neg (by omega), if_neg (not_not.mpr halign)]
  · intro hc hp
    rw [resolve, checkRef_healthy h]
    dsimp only
    rw [if_neg hfirst, if_pos ⟨hc, hp⟩]

/-! ### Compaction and merge -/

/-- After a merge into `t`, object `i` belongs to `t`; references that name no pool or `t`
resolve to its bytes, and references that name the source `s` are refused. -/
structure MergedInto (G' : GlobalState) (s t i : ℕ) : Prop where
  owner : (G'.objects i).poolId = t
  resolves : ∀ hint off n a, hint = crossHint ∨ hint = t → off + n ≤ (G'.objects i).size →
    alignmentOk a = true → ((G'.objects i).address + off) &&& (a - 1) = 0 →
    resolve G' ⟨i, (G'.objects i).generation, hint, off⟩ n a =
      (.ok, (G'.objects i).address + off)
  refused : ∀ off n a,
    resolve G' ⟨i, (G'.objects i).generation, s, off⟩ n a = (.poolChanged, 0)

/-- Whatever `compact` or `merge` of a reachable state answers `Ok` to has preserved every
object. -/
theorem compact_merge_preserve {G : GlobalState} (h : Reachable G) :
    (∀ p req elapsed met G', compact G p req elapsed = (.ok, met, G') →
      Preserves G G' (· = p)
        ∧ ∀ i, LiveObject G i → (G.objects i).poolId = p → (G'.objects i).poolId = p)
    ∧ ∀ s t G', merge G s t = (.ok, G') →
      Preserves G G' (fun q => q = s ∨ q = t)
        ∧ ∀ i, LiveObject G i → (G.objects i).poolId = s ∨ (G.objects i).poolId = t →
          MergedInto G' s t i := by
  obtain ⟨Ls, hinv⟩ := id h.healthy
  constructor
  · intro p req elapsed met G' hok
    by_cases hyes : Active G p ∧ (G.pools p).borrowCount = 0 ∧ requestOk req = true
    swap
    · obtain ⟨st, F, heq, hst, -⟩ := compact_refused hinv hyes elapsed
      rw [heq, Prod.mk.injEq] at hok
      exact absurd hok.1 hst
    obtain ⟨met', F, L', heq, -, hc⟩ := compact_ok hinv hyes.1 hyes.2.1 hyes.2.2 elapsed
    rw [heq, Prod.mk.injEq, Prod.mk.injEq] at hok
    obtain ⟨-, -, rfl⟩ := hok
    -- the layout lists the live objects of the pool
    have hslots := hinv.mem_liveSlots hyes.1
    refine ⟨preserves_of_relocated hinv hslots hc.relocated fun q hq hqp z hz => ?_,
      fun i hi hp => hc.poolId i ((hslots i).mpr ⟨hi, hp⟩)⟩
    exact hc.mem z (hinv.window_apart hq hyes.1 hqp hz)
  · intro s t G' hok
    by_cases hyes : MergeReady G s t ∧ NoUndersized (Ls s) ∧ NoUndersized (Ls t)
    swap
    · obtain ⟨st, heq, hst, -⟩ := merge_refused hinv hyes
      rw [heq, Prod.mk.injEq] at hok
      exact absurd hok.1 hst
    obtain ⟨hr, hmin⟩ := hyes
    obtain ⟨F, L', heq, hinv', hm⟩ := merge_ok hinv hr hmin
    rw [heq, Prod.mk.injEq] at hok
    obtain ⟨-, rfl⟩ := hok
    have hslots : ∀ i, i ∈ mergeSlots G Ls s t ↔ LiveObject G i
        ∧ ((G.objects i).poolId = s ∨ (G.objects i).poolId = t) := by
      intro i
      rw [mem_mergeSlots, hinv.mem_liveSlots hr.source, hinv.mem_liveSlots hr.target]
      tauto
    refine ⟨preserves_of_relocated hinv hslots hm.relocated fun q hq hqst z hz => ?_,
      fun i hi hp => ?_⟩
    · rw [not_or] at hqst
      exact hm.mem z (hinv.window_apart hq hr.source hqst.1 hz)
        (hinv.window_apart hq hr.target hqst.2 hz)
    · have hmi := (hslots i).mpr ⟨hi, hp⟩
      have hpid := hm.poolId i hmi
      have hi' : LiveObject F i := ⟨hi.1, (hm.relocated.kept i hmi).state.trans hi.2⟩
      have hres := fun hint off n a => resolve_healthy hinv' hi' (by rw [hpid]; exact hm.running)
        hint off n a
      rw [hpid] at hres
      exact ⟨hpid, fun hint off n a => (hres hint off n a).1,
        fun off n a => (hres s off n a).2 (h.pool_lt hr.source).ne hr.ne⟩

/-- Two neighbouring pools, a hole in the lower one, a pinned object in the upper one. -/
def neighbours : GlobalState :=
  letI := defaultConfig
  runOps (init .zero smallZone).2 [.createPool 1, .createPool 1, .alloc 0 24 8 0 1,
    .alloc 0 40 8 0 2, .free ⟨0, 1, crossHint, 0⟩ [], .alloc 1 24 8 pmPinned 3]

omit [PmConfig] in
lemma neighbours_reachable : letI := defaultConfig; Reachable neighbours :=
  smallZone_runOps _

omit [PmConfig] in
set_option maxRecDepth 100000 in
/-- The lower pool runs without borrows, its object in slot `1` is live, and slot `5` is free. -/
lemma neighbours_running :
    letI := defaultConfig
    (neighbours.pools 0).state = .running ∧ (neighbours.pools 0).borrowCount = 0
      ∧ (neighbours.objects 1).state = .live ∧ (neighbours.objects 5).state = .free := by
  decide +kernel

omit [PmConfig] in
lemma neighbours_active : letI := defaultConfig; Active neighbours 0 := by
  let _ := defaultConfig
  exact ⟨by decide, by rw [neighbours_running.1]; decide⟩

omit [PmConfig] in
set_option maxRecDepth 100000 in
/-- Its lower pool can be compacted, and the two can be merged. -/
lemma neighbours_compact_merge :
    letI := defaultConfig
    (compact neighbours 0 none 5).1 = .ok ∧ (merge neighbours 0 1).1 = .ok := by
  decide +kernel

omit [PmConfig] in
theorem compact_merge_preserve_neighbours :
    letI := defaultConfig
    ((compact neighbours 0 none 5).1 = .ok
      ∧ Preserves neighbours (compact neighbours 0 none 5).2.2 (· = 0))
    ∧ (merge neighbours 0 1).1 = .ok
      ∧ Preserves neighbours (merge neighbours 0 1).2 (fun q => q = 0 ∨ q = 1) := by
  let _ := defaultConfig
  obtain ⟨hc, hm⟩ := neighbours_compact_merge
  obtain ⟨hcompact, hmerge⟩ := compact_merge_preserve neighbours_reachable
  exact ⟨⟨hc, (hcompact 0 none 5 _ _ (eq_ok₃ hc)).1⟩, hm,
    (hmerge 0 1 (merge neighbours 0 1).2 (eq_ok hm)).1⟩

/-! ### Split -/

/-- What a successful split of `s` at `n` segments has done, beyond preserving objects: the
new pool `nid` is the old window's upper end. -/
structure SplitInto (G G' : GlobalState) (s n nid : ℕ) : Prop where
  fresh : nid < pmMaxPools ∧ (G.pools nid).state = .empty
  windows : (G'.pools s).segmentFirst = (G.pools s).segmentFirst
    ∧ (G'.pools s).segmentCount + n = (G.pools s).segmentCount
    ∧ (G'.pools nid).segmentFirst = (G'.pools s).segmentFirst + (G'.pools s).segmentCount
    ∧ (G'.pools nid).segmentCount = n
  owner : ∀ i, LiveObject G i → (G.objects i).poolId = s → (G'.objects i).poolId =
    if splitBoundary G s n < (G.objects i).block + (G.objects i).blockSize then nid else s
  inside : ∀ i, LiveObject G i → (G.objects i).poolId = s →
    poolStart G' (G'.pools (G'.objects i).poolId) ≤ (G'.objects i).block
      ∧ (G'.objects i).block + (G'.objects i).blockSize
        ≤ poolEnd G' (G'.pools (G'.objects i).poolId)
  objects : ∀ i, LiveObject G i ∧ (G.objects i).poolId = s ↔
    LiveObject G' i ∧ ((G'.objects i).poolId = s ∨ (G'.objects i).poolId = nid)
  pools : ∀ q, q ≠ s → q ≠ nid → G'.pools q = G.pools q

/-- Whatever `split` of a reachable state answers `Ok` to has preserved every object, and no
move of it wrote to a block before that was moved, nor to a pinned one. -/
theorem split_preserves {G G' : GlobalState} (h : Reachable G) {s n : ℕ} {out : Option ℕ}
    (hok : split G s n = (.ok, out, G')) :
    ∃ nid, out = some nid ∧ Preserves G G' (· = s) ∧ SplitInto G G' s n nid
      ∧ ∃ slots plan, splitAudit (splitArmed G s nid) s n = .ok (slots, plan)
        ∧ G' = splitCommit (splitRebuild (execMoves (splitArmed G s nid) plan.moves) s nid n
          slots) s nid
        ∧ (∀ i, i ∈ slots ↔ LiveObject G i ∧ (G.objects i).poolId = s)
        ∧ MovesSafely (splitArmed G s nid) slots plan.moves := by
  obtain ⟨Ls, hinv⟩ := h.healthy
  rcases splitArm_healthy (s := s) (n := n) hinv with ⟨nid, hr, -⟩ | ⟨-, st, harm, hst⟩
  swap
  · rw [split, if_neg (by simp [hinv.zone.init]), harm] at hok
    rcases hst with rfl | rfl | rfl <;> cases hok
  rcases split_ok hinv hr with ⟨st, heq, hst⟩ | ⟨F, plan, L₁, L₂, heq, hinv', hrun, hsp⟩
  · rw [heq, Prod.mk.injEq] at hok
    rcases hst with rfl | rfl <;> cases hok.1
  rw [heq, Prod.mk.injEq, Prod.mk.injEq] at hok
  obtain ⟨-, rfl, rfl⟩ := hok
  have hne := hr.ne
  obtain ⟨hnlt, hnempty, -⟩ := firstEmptyPool_some hr.entry
  have hslots := hinv.mem_liveSlots hr.source
  have hwin := hsp.windows
  have hlt := hr.lt
  have hacts : Active F s := ⟨hr.source.1, by rw [hsp.running.1]; simp⟩
  have hactn : Active F nid := ⟨hnlt, by rw [hsp.running.2]; simp⟩
  -- each half owns what its layout lists
  have hslot₁ : ∀ i, i ∈ liveSlots L₁ ↔ LiveObject F i ∧ (F.objects i).poolId = s := by
    intro i
    have := hinv'.mem_liveSlots hacts i
    rwa [Function.update_of_ne hne.symm, Function.update_self] at this
  have hslot₂ : ∀ i, i ∈ liveSlots L₂ ↔ LiveObject F i ∧ (F.objects i).poolId = nid := by
    intro i
    have := hinv'.mem_liveSlots hactn i
    rwa [Function.update_self] at this
  have hhalves : ∀ i, i ∈ liveSlots (Ls s) ↔ i ∈ liveSlots L₁ ∨ i ∈ liveSlots L₂ := by
    intro i
    rw [hsp.slots, List.mem_append]
  refine ⟨nid, rfl, preserves_of_relocated hinv hslots hsp.relocated
    fun q hq hqs z hz => hsp.mem z (hinv.window_apart hq hr.source hqs hz),
    ⟨⟨hnlt, hnempty⟩, ⟨hwin.first, ?_, ?_, hwin.newCount⟩, fun i hi hp => ?_, fun i hi hp => ?_,
      fun i => ?_, hwin.others⟩, liveSlots (Ls s), plan, hrun.audit, hrun.commit, hslots,
    hrun.safely⟩
  · rw [hwin.count]
    omega
  · rw [hwin.newFirst, hwin.first, hwin.count]
  · have hm := (hslots i).mpr ⟨hi, hp⟩
    rw [hsp.poolId i hm]
    rcases (hhalves i).mp hm with h₁ | h₂
    · have hlow := hsp.low i h₁
      rw [if_neg, if_neg (by omega)]
      intro h₂
      have heq := ((hslot₁ i).mp h₁).2.symm.trans ((hslot₂ i).mp h₂).2
      exact hne heq.symm
    · rw [if_pos h₂, if_pos (hsp.up i h₂)]
  · have hm := (hslots i).mpr ⟨hi, hp⟩
    have hpool : ∀ q L, PoolInv F q L → i ∈ liveSlots L → (F.objects i).poolId = q →
        poolStart F (F.pools (F.objects i).poolId) ≤ (F.objects i).block
        ∧ (F.objects i).block + (F.objects i).blockSize
          ≤ poolEnd F (F.pools (F.objects i).poolId) := by
      rintro q L hq hmL rfl
      exact hq.fits.bounds hmL
    rcases (hhalves i).mp hm with h₁ | h₂
    · have := hinv'.pool s hacts
      rw [Function.update_of_ne hne.symm, Function.update_self] at this
      exact hpool s L₁ this h₁ ((hslot₁ i).mp h₁).2
    · have := hinv'.pool nid hactn
      rw [Function.update_self] at this
      exact hpool nid L₂ this h₂ ((hslot₂ i).mp h₂).2
  · rw [← hslots, hhalves, hslot₁, hslot₂]
    tauto

/-- A pool of two segments whose only object lies across their boundary. -/
def crossing : GlobalState :=
  letI := defaultConfig
  runOps (init .zero smallZone).2 [.createPool 2, .alloc 0 1000 8 0 1, .alloc 0 100 8 0 2,
    .free ⟨0, 1, crossHint, 0⟩ []]

omit [PmConfig] in
lemma crossing_reachable : letI := defaultConfig; Reachable crossing :=
  smallZone_runOps _

omit [PmConfig] in
set_option maxRecDepth 100000 in
theorem split_preserves_crossing :
    letI := defaultConfig
    ∃ nid, (split crossing 0 1).2.1 = some nid
      ∧ Preserves crossing (split crossing 0 1).2.2 (· = 0)
      ∧ SplitInto crossing (split crossing 0 1).2.2 0 1 nid := by
  let _ := defaultConfig
  have hok : (split crossing 0 1).1 = .ok := by decide +kernel
  obtain ⟨nid, hout, hkept, hinto, -⟩ := split_preserves crossing_reachable (eq_ok₃ hok)
  exact ⟨nid, hout, hkept, hinto⟩

end PondMerge
