import PondMerge.Guarantees.Availability
import PondMerge.Guarantees.Creation
import PondMerge.Guarantees.Handles
import PondMerge.Model.AdviceRun
import PondMerge.Operations.Marks

/-!
The library can always be shut down: without borrows, no state is stuck and nothing leaks.

* `Served`, `Served.each`: calls that all return `Ok`, one for each item of a list.
* `teardown`: every pool resumed, every object freed and every pool destroyed, in any order.
* `Closing`: what is left to do on the way, with a step lemma for each of the three calls.
* `teardown_succeeds`: all of these return `Ok`, and so does `deinit` in the end.
-/

namespace PondMerge

open Tiling

variable [PmConfig]

/-! ### Calls that succeed -/

/-- Every one of the operations returns `Ok`. -/
def Served (G : GlobalState) (ops : List Op) : Prop := ∀ e ∈ eventsOf G ops, e.2.ok = true

section Runs

variable {G : GlobalState} {op : Op} {ops ops' : List Op}

lemma Served.nil (G : GlobalState) : Served G [] := by simp [Served, eventsOf]

lemma Served.cons (h : (reply G op).ok = true) (h' : Served (step G op) ops) :
    Served G (op :: ops) := by
  intro e he
  cases List.mem_cons.mp he with
  | inl heq =>
      rw [heq]
      exact h
  | inr he => exact h' e he

lemma runOps_append (G : GlobalState) (ops ops' : List Op) :
    runOps G (ops ++ ops') = runOps (runOps G ops) ops' := List.foldl_append

lemma Served.append (h : Served G ops) (h' : Served (runOps G ops) ops') :
    Served G (ops ++ ops') := by
  induction ops generalizing G with
  | nil => exact h'
  | cons op ops ih =>
      exact .cons (h _ List.mem_cons_self) (ih (fun e he => h e (List.mem_cons_of_mem _ he)) h')

/-- One call for each item of a list, where `I` says what is left to do: if a call returns `Ok` and
has done its item, all calls do. -/
lemma Served.each {α : Type*} {I : GlobalState → List α → Prop} (f : α → Op)
    (hstep : ∀ G x l, I G (x :: l) → (reply G (f x)).ok = true ∧ I (step G (f x)) l) {l : List α}
    (h : I G l) : Served G (l.map f) ∧ I (runOps G (l.map f)) [] := by
  induction l generalizing G with
  | nil => exact ⟨.nil G, h⟩
  | cons x l ih =>
      obtain ⟨hok, hnext⟩ := hstep G x l h
      obtain ⟨hserved, hend⟩ := ih hnext
      exact ⟨.cons hok hserved, hend⟩

end Runs

/-! ### The calls of a shutdown -/

/-- The root reference to object `i` that any pool may own. -/
def rootRef (G : GlobalState) (i : ℕ) : RawRef := ⟨i, (G.objects i).generation, crossHint, 0⟩

/-- The calls that shut the library down: the pools `ps` are resumed, the objects `fs` freed, where
a destroy callback writes what it likes, and the pools `qs` destroyed. -/
def teardown (G : GlobalState) (ws : ℕ → List PayloadWrite) (ps fs qs : List ℕ) : List Op :=
  ps.map .resume ++ fs.map (fun i => .free (rootRef G i) (ws i)) ++ qs.map .destroyPool

/-- Nobody borrows anything. -/
structure Unborrowed (G : GlobalState) : Prop where
  pools : ∀ p, Active G p → (G.pools p).borrowCount = 0
  objects : ∀ i, LiveObject G i → (G.objects i).activeBorrows = 0

/-! ### One object -/

/-- Object `i` is gone; the other objects are there as before, and so are the pools. -/
structure Released (E F : GlobalState) (i : ℕ) : Prop where
  segments : F.segmentCount = E.segmentCount
  entry : ∀ q, (F.pools q).state = (E.pools q).state
    ∧ (F.pools q).borrowCount = (E.pools q).borrowCount
  live : ∀ j, LiveObject F j ↔ LiveObject E j ∧ j ≠ i
  kept : ∀ j, LiveObject E j → j ≠ i → (F.objects j).activeBorrows = (E.objects j).activeBorrows
    ∧ (F.objects j).generation = (E.objects j).generation

section Release

variable {G E : GlobalState} {Ls : ℕ → List Piece} {i : ℕ}

/-- The commit of `free`. -/
lemma freeCommit_released (h : GlobalInv E Ls) (hi : LiveObject E i) (block stop : ℕ) :
    Released E (freeCommit E (E.objects i).poolId i block stop) i := by
  have hstays := fun j (hj : LiveObject E j) (hne : j ≠ i) =>
    (freeCommit_stays h hj.1 hj.2 hi.1 hi.2 hne block stop).object
  have hlife := fun j (hj : j < pmMaxObjects) => freeCommit_life h hi.1 hi.2 block stop hj
  have hpools := freeCommit_pools E (E.objects i).poolId i block stop
  have hrest := (freeCommit_rest E (E.objects i).poolId i block stop).1
  generalize freeCommit E (E.objects i).poolId i block stop = F at *
  refine ⟨hrest.segmentCount, fun q => ?_, fun j => ⟨?_, ?_⟩, fun j hj hne => ?_⟩
  · rw [hpools]
    by_cases hq : q = (E.objects i).poolId
    · rw [hq, Function.update_self]
      exact ⟨rfl, rfl⟩
    · rw [Function.update_of_ne hq]
      exact ⟨rfl, rfl⟩
  · rintro ⟨hj, hl⟩
    obtain ⟨hgone, hstep⟩ := hlife j hj
    have hne : j ≠ i := fun heq => by
      rw [hgone heq] at hl
      cases hl
    cases hstep with
    | same hsame => exact ⟨⟨hj, hsame.state ▸ hl⟩, hne⟩
    | ended hbefore hafter =>
        rw [hafter] at hl
        cases hl
  · rintro ⟨hj, hne⟩
    exact ⟨hj.1, (hstays j hj hne).state.trans hj.2⟩
  · rw [(hstays j hj hne).eq]
    exact ⟨rfl, rfl⟩

/-- `free` of an object nobody borrows, in a Running pool, whatever its callback writes. -/
lemma free_released (h : GlobalInv E Ls) (halign : 0 < pmMaxAlignment) (hi : LiveObject E i)
    (hb : (E.objects i).activeBorrows = 0)
    (hrun : (E.pools (E.objects i).poolId).state = .running) (ws : List PayloadWrite) :
    ∃ F, free (writingCallback ws) E (rootRef E i) = (.ok, F) ∧ Released E F i := by
  have hok := free_root h halign ws hi hb hrun (Or.inl rfl)
  rcases free_cases h (rootRef E i) ws with ⟨st, hst, -, heq⟩ | ⟨-, -, heq⟩
  · rw [rootRef] at heq
    rw [heq] at hok
    exact absurd hok hst
  · refine ⟨_, heq, ?_⟩
    have hcall := afterCallback_eq E i ws
    have hinv := afterCallback_inv h i ws
    have hobj : (afterCallback E i ws).objects = E.objects := by rw [hcall]
    have hpools : (afterCallback E i ws).pools = E.pools := by rw [hcall]
    have hrel := freeCommit_released hinv (i := i) (by rw [LiveObject, hobj]; exact hi)
      (E.objects i).block (poolEnd E (E.pools (E.objects i).poolId))
    rw [hobj] at hrel
    refine ⟨hrel.segments.trans (by rw [hcall]), fun q => ?_, fun j => ?_, fun j hj hne => ?_⟩
    · have hentry := hrel.entry q
      rwa [hpools] at hentry
    · have hlive := hrel.live j
      rwa [LiveObject, LiveObject, hobj] at hlive
    · have hkept := hrel.kept j (by rw [LiveObject, hobj]; exact hj) hne
      rwa [hobj] at hkept

end Release

/-! ### The way down -/

/-- On the way down from `G`: the pools are those of `qs`, all but `ps` of them Running, the objects
are those of `fs`, with the generations they had, and nobody borrows them. -/
structure Closing (G E : GlobalState) (ps fs qs : List ℕ) : Prop where
  reachable : Reachable E
  segments : E.segmentCount = G.segmentCount
  unborrowed : Unborrowed E
  pools : ∀ p, p ∈ qs ↔ Active E p
  paused : ∀ p ∈ ps, p ∈ qs
  running : ∀ p ∈ qs, p ∈ ps ∨ (E.pools p).state = .running
  poolsOnce : qs.Nodup
  objects : ∀ i, i ∈ fs ↔ LiveObject E i
  objectsOnce : fs.Nodup
  generation : ∀ i ∈ fs, (E.objects i).generation = (G.objects i).generation

section Steps

variable {G E : GlobalState} {p i : ℕ} {ps fs qs : List ℕ}

/-- A pool is resumed. -/
lemma Closing.resume (h : Closing G E (p :: ps) fs qs) :
    (reply E (.resume p)).ok = true ∧ Closing G (step E (.resume p)) ps fs qs := by
  obtain ⟨Ls, hinv⟩ := h.reachable.healthy
  have hreach := h.reachable.step (.resume p)
  have hact : Active E p := (h.pools p).mp (h.paused p List.mem_cons_self)
  have hps : ∀ q ∈ ps, q ∈ qs := fun q hq => h.paused q (List.mem_cons_of_mem _ hq)
  have hresume : PondMerge.resume E p = if (E.pools p).state = .running then (.ok, E)
      else if (E.pools p).state ≠ .paused then (.busy, E)
      else (.ok, E.setPool p { E.pools p with state := .running }) := by
    rw [PondMerge.resume, poolAt_eq_some.mpr ⟨hact, rfl⟩]
  rw [step] at hreach ⊢
  rw [reply]
  by_cases hrun : (E.pools p).state = .running
  · rw [hresume, if_pos hrun]
    refine ⟨rfl, ⟨h.reachable, h.segments, h.unborrowed, h.pools, hps, fun q hq => ?_,
      h.poolsOnce, h.objects, h.objectsOnce, h.generation⟩⟩
    cases h.running q hq with
    | inl hmem =>
        cases List.mem_cons.mp hmem with
        | inl heq =>
            rw [heq]
            exact Or.inr hrun
        | inr hq => exact Or.inl hq
    | inr hq => exact Or.inr hq
  · -- between operations a pool is empty, running or paused
    have hpaused : (E.pools p).state = .paused := by
      rcases hinv.settled p hact.1 with hst | hst | hst
      · exact absurd hst hact.2
      · exact absurd hst hrun
      · exact hst
    rw [hresume, if_neg hrun, if_neg (not_not.mpr hpaused)] at hreach ⊢
    have hactive : ∀ q, Active (E.setPool p { E.pools p with state := .running }) q ↔
        Active E q := by
      intro q
      rw [Active, Active, GlobalState.setPool_pools]
      by_cases hq : q = p
      · subst hq
        rw [Function.update_self]
        exact ⟨fun hq => ⟨hq.1, hact.2⟩, fun hq => ⟨hq.1, by simp⟩⟩
      · rw [Function.update_of_ne hq]
    refine ⟨rfl, ⟨hreach, h.segments, ⟨fun q hq => ?_, h.unborrowed.objects⟩,
      fun q => (h.pools q).trans (hactive q).symm, hps, fun q hq => ?_, h.poolsOnce, h.objects,
      h.objectsOnce, h.generation⟩⟩
    · have hzero := h.unborrowed.pools q ((hactive q).mp hq)
      dsimp only [GlobalState.setPool_pools]
      by_cases hqp : q = p
      · subst hqp
        rwa [Function.update_self]
      · rwa [Function.update_of_ne hqp]
    · dsimp only [GlobalState.setPool_pools]
      by_cases hqp : q = p
      · subst hqp
        rw [Function.update_self]
        exact Or.inr rfl
      · rw [Function.update_of_ne hqp]
        exact (h.running q hq).imp (fun hmem => (List.mem_cons.mp hmem).resolve_left hqp) id

/-- An object is freed. -/
lemma Closing.free (h : Closing G E [] (i :: fs) qs) (ws : List PayloadWrite) :
    (reply E (.free (rootRef G i) ws)).ok = true
      ∧ Closing G (step E (.free (rootRef G i) ws)) [] fs qs := by
  obtain ⟨Ls, hinv⟩ := h.reachable.healthy
  have hreach := h.reachable.step (.free (rootRef G i) ws)
  have hi : LiveObject E i := (h.objects i).mp List.mem_cons_self
  obtain ⟨hfresh, hnd⟩ := List.nodup_cons.mp h.objectsOnce
  obtain ⟨hact, -⟩ := hinv.owner hi.1 hi.2
  have hrun : (E.pools (E.objects i).poolId).state = .running :=
    (h.running _ ((h.pools _).mpr hact)).resolve_left (by simp)
  obtain ⟨F, heq, hrel⟩ := free_released hinv (h.reachable.maxAlignment_pos ⟨i, hi⟩) hi
    (h.unborrowed.objects i hi) hrun ws
  have hroot : rootRef G i = rootRef E i := by
    rw [rootRef, rootRef, h.generation i List.mem_cons_self]
  have hactive : ∀ q, Active F q ↔ Active E q := fun q => by
    rw [Active, Active, (hrel.entry q).1]
  rw [hroot, step, heq] at hreach
  rw [hroot, step, reply, heq]
  refine ⟨rfl, ⟨hreach, hrel.segments.trans h.segments, ⟨fun q hq => ?_, fun j hj => ?_⟩,
    fun q => (h.pools q).trans (hactive q).symm, by simp, fun q hq => ?_, h.poolsOnce,
    fun j => ?_, hnd, fun j hj => ?_⟩⟩
  · rw [(hrel.entry q).2]
    exact h.unborrowed.pools q ((hactive q).mp hq)
  · obtain ⟨hj, hne⟩ := (hrel.live j).mp hj
    rw [(hrel.kept j hj hne).1]
    exact h.unborrowed.objects j hj
  · rw [(hrel.entry q).1]
    exact h.running q hq
  · rw [hrel.live, ← h.objects]
    constructor
    · intro hj
      exact ⟨List.mem_cons_of_mem _ hj, fun heq => hfresh (heq ▸ hj)⟩
    · rintro ⟨hj, hne⟩
      exact (List.mem_cons.mp hj).resolve_left hne
  · have hne : j ≠ i := fun heq => hfresh (heq ▸ hj)
    have hj' := (h.objects j).mp (List.mem_cons_of_mem _ hj)
    rw [(hrel.kept j hj' hne).2]
    exact h.generation j (List.mem_cons_of_mem _ hj)

/-- A pool without objects is destroyed. -/
lemma Closing.destroy (h : Closing G E [] [] (p :: qs)) :
    (reply E (.destroyPool p)).ok = true ∧ Closing G (step E (.destroyPool p)) [] [] qs := by
  obtain ⟨Ls, hinv⟩ := h.reachable.healthy
  have hreach := h.reachable.step (.destroyPool p)
  have hact : Active E p := (h.pools p).mp List.mem_cons_self
  obtain ⟨hfresh, hnd⟩ := List.nodup_cons.mp h.poolsOnce
  have hrun : (E.pools p).state = .running :=
    (h.running p List.mem_cons_self).resolve_left (by simp)
  -- no object is left to free, so the pool has none
  have hnone : ∀ i, ¬ LiveObject E i := fun i hi => by
    have := (h.objects i).mpr hi
    cases this
  have hempty : (E.pools p).liveObjects = 0 := by
    rw [(hinv.pool p hact).live, List.length_eq_zero_iff, List.eq_nil_iff_forall_not_mem]
    exact fun i hi => hnone i ((hinv.mem_liveSlots hact i).mp hi).1
  have heq : PondMerge.destroyPool E p = (.ok, E.setPool p Pool.zero) := by
    rw [PondMerge.destroyPool, if_neg (by simp [hinv.zone.init]),
      poolAt_eq_some.mpr ⟨hact, rfl⟩]
    dsimp only
    rw [if_neg (by simp [hempty, h.unborrowed.pools p hact]),
      if_neg (by simp [poolInMaintenance, hrun])]
  rw [step] at hreach ⊢
  rw [reply, heq]
  rw [heq] at hreach
  have hentry : ∀ q, q ≠ p → (E.setPool p Pool.zero).pools q = E.pools q := fun q hq => by
    rw [GlobalState.setPool_pools, Function.update_of_ne hq]
  have hgone : ¬ Active (E.setPool p Pool.zero) p := by
    rw [Active, GlobalState.setPool_pools, Function.update_self]
    exact fun hbad => hbad.2 rfl
  have hactive : ∀ q, Active (E.setPool p Pool.zero) q ↔ Active E q ∧ q ≠ p := by
    intro q
    by_cases hq : q = p
    · rw [hq]
      exact ⟨fun hbad => absurd hbad hgone, fun hbad => absurd rfl hbad.2⟩
    · rw [Active, Active, hentry q hq]
      exact (and_iff_left hq).symm
  refine ⟨rfl, ⟨hreach, h.segments, ⟨fun q hq => ?_, fun i hi => absurd hi (hnone i)⟩,
    fun q => ?_, by simp, fun q hq => ?_, hnd, h.objects, h.objectsOnce, by simp⟩⟩
  · obtain ⟨hq, hne⟩ := (hactive q).mp hq
    rw [hentry q hne]
    exact h.unborrowed.pools q hq
  · rw [hactive, ← h.pools]
    constructor
    · intro hq
      exact ⟨List.mem_cons_of_mem _ hq, fun heq => hfresh (heq ▸ hq)⟩
    · rintro ⟨hq, hne⟩
      exact (List.mem_cons.mp hq).resolve_left hne
  · have hne : q ≠ p := fun heq => hfresh (heq ▸ hq)
    rw [hentry q hne]
    exact h.running q (List.mem_cons_of_mem _ hq)

end Steps

/-! ### The end -/

section Ends

variable {G E : GlobalState}

/-- Where everything is gone, the whole zone is free again. -/
lemma Closing.room (h : Closing G E [] [] []) {n : ℕ} (hn : 1 ≤ n) (hle : n ≤ G.segmentCount) :
    (createPool E n).1 = .ok := by
  obtain ⟨Ls, hinv⟩ := h.reachable.healthy
  have hnone : ∀ p < pmMaxPools, (E.pools p).state = .empty := by
    intro p hp
    by_contra hne
    have := (h.pools p).mpr ⟨hp, hne⟩
    cases this
  have hunused : ∀ s, segmentUsed E s = false := by
    intro s
    rw [segmentUsed, List.any_eq_false]
    intro p hp
    rw [List.mem_range] at hp
    simp [hnone p hp]
  have hrun : FreeRun E 0 n := ⟨by rw [h.segments]; omega, fun t _ _ => hunused t⟩
  obtain ⟨i, base, heq, -⟩ := createPool_opened hinv hn
    ⟨0, PmConfig.maxPools_pos, hnone 0 PmConfig.maxPools_pos⟩ ⟨0, hrun⟩
  rw [heq]

/-- And `deinit` has nothing to object to. -/
lemma Closing.deinit (h : Closing G E [] [] []) :
    PondMerge.deinit E = (.ok, { GlobalState.zero with mem := E.mem }) := by
  obtain ⟨Ls, hinv⟩ := h.reachable.healthy
  have hzero : E.liveObjectCount = 0 := by
    rw [← hinv.card_liveObjects, Finset.card_eq_zero, Finset.eq_empty_iff_forall_notMem]
    intro i hi
    rw [liveObjects, Finset.mem_filter, Finset.mem_range] at hi
    have := (h.objects i).mpr hi
    cases this
  rw [PondMerge.deinit, if_neg (by simp [hinv.zone.init]), if_neg (by simp [hzero])]

end Ends

/-- **Nothing is stuck and nothing leaks.**  In a reachable state in which nobody borrows, all
calls of a shutdown return `Ok`: the pools that are not Running are resumed, the objects freed, in
any order and with any destroy callbacks, and the pools destroyed, in any order.  All pools are
Empty then and all slots free, a pool of any size the zone has can be made again, and `deinit`
succeeds, after which `init` accepts what it accepted at first. -/
theorem teardown_succeeds {G : GlobalState} (h : Reachable G) (hno : Unborrowed G)
    {ps fs qs : List ℕ} (hps : ∀ p ∈ ps, Active G p)
    (hrest : ∀ p, Active G p → p ∈ ps ∨ (G.pools p).state = .running)
    (hfs : ∀ i, i ∈ fs ↔ LiveObject G i) (hfnd : fs.Nodup)
    (hqs : ∀ p, p ∈ qs ↔ Active G p) (hqnd : qs.Nodup) (ws : ℕ → List PayloadWrite) :
    let T := runOps G (teardown G ws ps fs qs)
    Served G (teardown G ws ps fs qs)
    ∧ (∀ p < pmMaxPools, T.pools p = Pool.zero)
    ∧ (∀ i < pmMaxObjects, (T.objects i).state = .free)
    ∧ (∀ n, 1 ≤ n → n ≤ G.segmentCount → (createPool T n).1 = .ok)
    ∧ (deinit T).1 = .ok ∧ ∀ cfg, (init (deinit T).2 cfg).1 = (init .zero cfg).1 := by
  have hstart : Closing G G ps fs qs :=
    ⟨h, rfl, hno, hqs, fun p hp => (hqs p).mpr (hps p hp), fun p hp => hrest p ((hqs p).mp hp),
      hqnd, hfs, hfnd, fun _ _ => rfl⟩
  -- the three stages one after another
  obtain ⟨hserved₁, hresumed⟩ := Served.each (I := fun E ps => Closing G E ps fs qs) .resume
    (fun _ _ _ hc => hc.resume) hstart
  obtain ⟨hserved₂, hfreed⟩ := Served.each (I := fun E fs => Closing G E [] fs qs)
    (fun i => .free (rootRef G i) (ws i)) (fun _ i _ hc => hc.free (ws i)) hresumed
  obtain ⟨hserved₃, hlast⟩ := Served.each (I := fun E qs => Closing G E [] [] qs) .destroyPool
    (fun _ _ _ hc => hc.destroy) hfreed
  intro T
  have hend : Closing G T [] [] [] := by
    dsimp only [T]
    rw [teardown, runOps_append, runOps_append]
    exact hlast
  obtain ⟨Ls, hinv⟩ := hend.reachable.healthy
  refine ⟨(hserved₁.append hserved₂).append (runOps_append _ _ _ ▸ hserved₃), fun p hp => ?_,
    fun i hi => ?_, fun n hn hle => hend.room hn hle, ?_, fun cfg => ?_⟩
  · refine hinv.empty p hp ?_
    by_contra hne
    have := (hend.pools p).mpr ⟨hp, hne⟩
    cases this
  · cases hinv.idle i hi with
    | inl hl =>
        have := (hend.objects i).mpr ⟨hi, hl⟩
        cases this
    | inr hfree => exact hfree
  · exact congrArg Prod.fst hend.deinit
  · rw [show deinit T = _ from hend.deinit, init, init]
    simp only [apply_ite Prod.fst]

omit [PmConfig] in
set_option maxRecDepth 100000 in
/-- Nobody borrows there. -/
lemma neighbours_unborrowed :
    letI := defaultConfig
    (∀ p < 16, (neighbours.pools p).state = .empty ∨ (neighbours.pools p).state = .running
        ∧ (neighbours.pools p).borrowCount = 0)
      ∧ ∀ i < 1024, (neighbours.objects i).activeBorrows = 0 := by
  decide +kernel

omit [PmConfig] in
theorem teardown_succeeds_neighbours :
    letI := defaultConfig
    let fs := (List.range 1024).filter fun i => decide ((neighbours.objects i).state = .live)
    let qs := (List.range 16).filter fun p => decide ((neighbours.pools p).state ≠ .empty)
    let T := runOps neighbours (teardown neighbours (fun i => [⟨i, 0, 7⟩]) qs fs qs)
    Served neighbours (teardown neighbours (fun i => [⟨i, 0, 7⟩]) qs fs qs)
    ∧ (∀ p < 16, T.pools p = Pool.zero)
    ∧ (∀ i < 1024, (T.objects i).state = .free)
    ∧ (∀ n, 1 ≤ n → n ≤ neighbours.segmentCount → (createPool T n).1 = .ok)
    ∧ (deinit T).1 = .ok ∧ ∀ cfg, (init (deinit T).2 cfg).1 = (init .zero cfg).1 := by
  let _ := defaultConfig
  obtain ⟨hpools, hobjects⟩ := neighbours_unborrowed
  have hqs : ∀ p, p ∈ (List.range 16).filter (fun p => decide ((neighbours.pools p).state ≠ .empty))
      ↔ Active neighbours p := fun p => by
    rw [List.mem_filter, List.mem_range, decide_eq_true_eq]
    rfl
  refine teardown_succeeds neighbours_reachable
    ⟨fun p hp => ((hpools p hp.1).resolve_left hp.2).2, fun i hi => hobjects i hi.1⟩
    (fun p hp => (hqs p).mp hp) (fun p hp => Or.inl ((hqs p).mpr hp)) (fun i => ?_)
    (List.nodup_range.filter _) hqs (List.nodup_range.filter _) _
  rw [List.mem_filter, List.mem_range, decide_eq_true_eq]
  rfl

end PondMerge
