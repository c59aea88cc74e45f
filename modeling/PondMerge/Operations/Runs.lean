import PondMerge.Operations.Alloc
import PondMerge.Operations.Release
import PondMerge.Operations.PoolTable
import PondMerge.Operations.Split

/-!
Every public operation keeps a healthy state healthy, whatever its arguments, and so does
every run.

* `Healthy.step`: one operation.
* `Reachable.healthy`: every state reachable from `init`.
* `Reachable.pool_lt`: a pool id never looks like `CROSS_HINT`.
* `Reachable.maxAlignment_pos`: where an object is alive, some alignment is admitted.
-/

namespace PondMerge

open Tiling

variable [PmConfig]

section Step

variable {G : GlobalState} {Ls : ℕ → List Piece}

/-- `alloc` keeps the invariant. -/
lemma alloc_healthy_step (h : GlobalInv G Ls) (p size alignment flags tag : ℕ) :
    ∃ Ls', GlobalInv (alloc G p size alignment flags tag).2.2 Ls' := by
  rcases alloc_cases G p size alignment flags tag with ⟨st, -, heq⟩ | ⟨need, blk, ha, heq⟩
  · exact ⟨Ls, by rw [heq]; exact h⟩
  · obtain ⟨L₁, n, L₂, hL, hle, rfl⟩ := ha.block (h.pool p ha.active)
    exact ⟨_, by rw [heq]; exact alloc_inv h tag ha hL hle⟩

/-- Every operation keeps a healthy state healthy. -/
theorem Healthy.step (h : Healthy G) (op : Op) : Healthy (step G op) := by
  obtain ⟨Ls, h⟩ := h
  cases op with
  | createPool n => exact createPool_inv h n
  | destroyPool id => exact ⟨Ls, destroyPool_inv h id⟩
  | pause id => exact ⟨Ls, pause_inv h id⟩
  | resume id => exact ⟨Ls, resume_inv h id⟩
  | alloc p size alignment flags tag => exact alloc_healthy_step h p size alignment flags tag
  | free ref ws => exact free_inv h ref ws
  | setDestroyFn ref fn => exact ⟨Ls, setDestroyFn_inv h ref fn⟩
  | borrowBegin ref n a => exact ⟨Ls, borrowBegin_inv h ref n a⟩
  | borrowEnd ref => exact ⟨Ls, borrowEnd_inv h ref⟩
  | compact p req elapsed => exact compact_inv h req elapsed
  | merge s t => exact merge_inv h s t
  | split s n => exact split_inv h s n
  | write w => exact ⟨Ls, clientWrite_inv h w⟩

end Step

/-- Every state reachable from `init` is healthy. -/
theorem Reachable.healthy {G : GlobalState} (h : Reachable G) : Healthy G := by
  induction h with
  | init G cfg hok => exact ⟨_, init_inv hok⟩
  | step op _ ih => exact ih.step op

/-! ### Pool ids -/

section Ids

variable {G G' : GlobalState} {Ls : ℕ → List Piece}

/-- An entry below which every other one is taken has an id below `CROSS_HINT`: the pools
below it own a segment each, and `x` is one more. -/
lemma GlobalInv.id_lt (h : GlobalInv G Ls) {i x : ℕ} (hall : ∀ j < i, Active G j)
    (hx : x < G.segmentCount) (hfree : ∀ j < i, (G.pools j).segmentFirst ≠ x) :
    i < crossHint := by
  have hinj : ((List.range i).map fun j => (G.pools j).segmentFirst).Nodup := by
    rw [List.Nodup, List.pairwise_map]
    refine (List.Pairwise.and_mem.mp List.nodup_range).imp fun {j k} hjk heq => ?_
    obtain ⟨hj, hk, hne⟩ := hjk
    have hja := hall j (List.mem_range.mp hj)
    have hka := hall k (List.mem_range.mp hk)
    have hap := h.apart j k hja hka hne
    have := (h.pool j hja).segPos
    have := (h.pool k hka).segPos
    rw [SegmentsApart] at hap
    omega
  have hnd : (x :: (List.range i).map fun j => (G.pools j).segmentFirst).Nodup := by
    refine List.nodup_cons.mpr ⟨fun hm => ?_, hinj⟩
    obtain ⟨j, hj, heq⟩ := List.mem_map.mp hm
    exact hfree j (List.mem_range.mp hj) heq
  have hsub : (x :: (List.range i).map fun j => (G.pools j).segmentFirst)
      ⊆ List.range G.segmentCount := by
    intro y hy
    rw [List.mem_range]
    rcases List.mem_cons.mp hy with rfl | hy
    · exact hx
    · obtain ⟨j, hj, rfl⟩ := List.mem_map.mp hy
      have hja := hall j (List.mem_range.mp hj)
      have := (h.pool j hja).segPos
      have := (h.pool j hja).segLe
      omega
  have hlen := (List.subperm_of_subset hnd hsub).length_le
  rw [List.length_cons, List.length_map, List.length_range, List.length_range] at hlen
  have := h.zone.count
  have := PmConfig.maxSegments_le
  rw [crossHint]
  omega

/-- An operation that rewrites entries of existing pools only adds no pool. -/
lemma Active.of_others {p q : ℕ} (hp : Active G p) (hpools : ∀ r, r ≠ p → G'.pools r = G.pools r)
    (hq : Active G' q) : Active G q := by
  by_cases hqp : q = p
  · exact hqp ▸ hp
  · rwa [Active, hpools q hqp] at hq

lemma Active.of_setPool {p q : ℕ} {P : Pool} (hp : Active G p) (hq : Active (G.setPool p P) q) :
    Active G q :=
  hp.of_others (fun _ hr => Function.update_of_ne hr _ _) hq

/-- Every pool of the new state is an old one, or has an id below `CROSS_HINT`. -/
lemma step_active (h : GlobalInv G Ls) (op : Op) {q : ℕ} (hq : Active (step G op) q) :
    Active G q ∨ q < crossHint := by
  cases op with
  | createPool n =>
      rw [step] at hq
      rcases createPool_cases h n with ⟨st, -, -, heq⟩ | ⟨i, base, heq, hent, hbase, hun, -, -⟩
      · exact Or.inl (by rwa [heq] at hq)
      · rw [heq] at hq
        by_cases hqi : q = i
        · subst hqi
          obtain ⟨-, -, hall⟩ := firstEmptyPool_some hent
          refine Or.inr (h.id_lt hall hbase fun j hj hjb => ?_)
          have := (h.pool j (hall j hj)).segPos
          exact segmentUsed_eq_false.mp hun j (hall j hj) ⟨hjb.le, by omega⟩
        · rw [Active, openPool_eq] at hq
          simp only [GlobalState.setPool_pools, Function.update_of_ne hqi] at hq
          exact Or.inl hq
  | destroyPool id =>
      rw [step] at hq
      rcases destroyPool_cases h id with ⟨st, -, heq⟩ | ⟨heq, hp, -⟩
      · exact Or.inl (by rwa [heq] at hq)
      · rw [heq] at hq
        exact Or.inl (hp.of_setPool hq)
  | pause id =>
      left
      rw [step, pause] at hq
      split at hq
      · exact hq
      · rename_i P hP
        obtain ⟨hp, -⟩ := poolAt_eq_some.mp hP
        split_ifs at hq
        · exact hq
        · exact hq
        · exact hp.of_setPool hq
  | resume id =>
      left
      rw [step, resume] at hq
      split at hq
      · exact hq
      · rename_i P hP
        obtain ⟨hp, -⟩ := poolAt_eq_some.mp hP
        split_ifs at hq
        · exact hq
        · exact hq
        · exact hp.of_setPool hq
  | alloc p size alignment flags tag =>
      left
      rw [step] at hq
      rcases alloc_cases G p size alignment flags tag with ⟨st, -, heq⟩ | ⟨need, blk, ha, heq⟩
      · rwa [heq] at hq
      · rw [heq] at hq
        refine ha.active.of_others (fun r hr => ?_) hq
        rw [allocCommit_pools, Function.update_of_ne hr]
        rfl
  | free ref ws =>
      left
      rw [step] at hq
      rcases free_cases h ref ws with ⟨st, -, -, heq⟩ | ⟨hok, -, heq⟩
      · rwa [heq] at hq
      · rw [heq] at hq
        refine hok.owner.of_others (fun r hr => ?_) hq
        rw [freeCommit_pools, Function.update_of_ne hr, afterCallback_eq]
  | setDestroyFn ref fn =>
      left
      rw [step, setDestroyFn] at hq
      split at hq
      · exact hq
      · split_ifs at hq <;> exact hq
  | borrowBegin ref n a =>
      left
      rw [step, borrowBegin] at hq
      split at hq
      · exact hq
      · rename_i addr hok
        exact (checkRef_ok hok).1.owner.of_others (fun r hr => Function.update_of_ne hr _ _) hq
  | borrowEnd ref =>
      left
      rw [step, borrowEnd] at hq
      split_ifs at hq with hok
      · rw [borrowEndOk] at hok
        simp only [decide_eq_true_eq] at hok
        obtain ⟨P, hP⟩ := Option.isSome_iff_exists.mp hok.2.2.2.2.2.2.1
        exact (poolAt_eq_some.mp hP).1.of_others (fun r hr => Function.update_of_ne hr _ _) hq
      · exact hq
  | compact p req elapsed =>
      left
      rw [step] at hq
      by_cases hyes : Active G p ∧ (G.pools p).borrowCount = 0 ∧ requestOk req = true
      · obtain ⟨met, G', L', heq, -, hc⟩ := compact_ok h hyes.1 hyes.2.1 hyes.2.2 elapsed
        rw [heq] at hq
        exact hyes.1.of_others hc.pools hq
      · obtain ⟨st, G', heq, -, -, rfl | ⟨hp, rfl⟩⟩ := compact_refused h hyes elapsed
        · rwa [heq] at hq
        · rw [heq] at hq
          exact hp.of_setPool hq
  | merge s t =>
      left
      rw [step] at hq
      by_cases hyes : MergeReady G s t ∧ NoUndersized (Ls s) ∧ NoUndersized (Ls t)
      · obtain ⟨G', L', heq, -, hm⟩ := merge_ok h hyes.1 hyes.2
        rw [heq] at hq
        by_cases hqs : q = s
        · exact hqs ▸ hyes.1.source
        by_cases hqt : q = t
        · exact hqt ▸ hyes.1.target
        rwa [Active, hm.pools q hqs hqt] at hq
      · obtain ⟨st, heq, -, -⟩ := merge_refused h hyes
        rwa [heq] at hq
  | split s n =>
      rw [step] at hq
      rcases splitArm_healthy (s := s) (n := n) h with ⟨nid, hr, -⟩ | ⟨-, st, harm, hst⟩
      · rcases split_ok h hr with ⟨st, heq, -⟩ | ⟨G', plan, L₁, L₂, heq, -, -, hsp⟩
        · exact Or.inl (by rwa [heq] at hq)
        rw [heq] at hq
        by_cases hqs : q = s
        · exact Or.inl (hqs ▸ hr.source)
        by_cases hqn : q = nid
        · subst hqn
          obtain ⟨-, -, hall⟩ := firstEmptyPool_some hr.entry
          have hle := (h.pool s hr.source).segLe
          have hpos := hr.pos
          have hlt := hr.lt
          -- the source keeps its first segment, so its second one starts no pool
          refine Or.inr (h.id_lt (x := (G.pools s).segmentFirst + 1) hall (by omega)
            fun j hj hjb => ?_)
          by_cases hjs : j = s
          · subst hjs
            omega
          · have hap := h.apart j s (hall j hj) hr.source hjs
            have := (h.pool j (hall j hj)).segPos
            rw [SegmentsApart] at hap
            omega
        · rw [Active, hsp.windows.others q hqs hqn] at hq
          exact Or.inl hq
      · have heq : split G s n = (st, none, G) := by
          rw [split, if_neg (by simp [h.zone.init]), harm]
          rcases hst with rfl | rfl | rfl <;> rfl
        exact Or.inl (by rwa [heq] at hq)
  | write w =>
      left
      rw [step, clientWrite_eq] at hq
      exact hq

/-- A pool id never looks like `CROSS_HINT`. -/
theorem Reachable.pool_lt (h : Reachable G) {p : ℕ} (hp : Active G p) : p < crossHint := by
  induction h generalizing p with
  | init G cfg hok =>
      have hpool := (init_inv hok).pool p hp
      have htotal := hpool.total
      have hpos := hpool.segPos
      have hge := (init_inv hok).zone.segGe
      have := Nat.le_mul_of_pos_left ((PondMerge.init G cfg).2.segmentSize) hpos
      rw [total_nil] at htotal
      omega
  | step op hr ih =>
      obtain ⟨Ls, hinv⟩ := hr.healthy
      exact (step_active hinv op hp).elim (fun hold => ih hold) id

end Ids

/-! ### Where objects come from -/

section Objects

variable {G G' : GlobalState} {Ls : ℕ → List Piece}

/-- Some object is alive. -/
def SomeLive (G : GlobalState) : Prop := ∃ i < pmMaxObjects, (G.objects i).state = .live

lemma Relocated.someLive {l : List ℕ} (h : Relocated G G' l) (hlive : SomeLive G') :
    SomeLive G := by
  obtain ⟨i, hlt, hi⟩ := hlive
  refine ⟨i, hlt, ?_⟩
  by_cases hm : i ∈ l
  · rwa [(h.kept i hm).state] at hi
  · rwa [h.other i hm] at hi

/-- Only an `alloc` whose alignment is admitted makes the first object. -/
lemma step_someLive (h : GlobalInv G Ls) (op : Op) (hlive : SomeLive (step G op)) :
    SomeLive G ∨ 0 < pmMaxAlignment := by
  cases op with
  | createPool n =>
      rw [step] at hlive
      rcases createPool_cases h n with ⟨st, -, -, heq⟩ | ⟨i, base, heq, -⟩ <;>
        rw [heq] at hlive <;> exact Or.inl hlive
  | destroyPool id =>
      rw [step] at hlive
      rcases destroyPool_cases h id with ⟨st, -, heq⟩ | ⟨heq, -⟩ <;>
        rw [heq] at hlive <;> exact Or.inl hlive
  | pause id =>
      left
      rw [step, pause] at hlive
      split at hlive
      · exact hlive
      · split_ifs at hlive <;> exact hlive
  | resume id =>
      left
      rw [step, resume] at hlive
      split at hlive
      · exact hlive
      · split_ifs at hlive <;> exact hlive
  | alloc p size alignment flags tag =>
      rw [step] at hlive
      rcases alloc_cases G p size alignment flags tag with ⟨st, -, heq⟩ | ⟨need, blk, ha, -⟩
      · rw [heq] at hlive
        exact Or.inl hlive
      · -- an accepted alignment is a positive number up to `PM_MAX_ALIGNMENT`
        have halign := ha.alignOk
        rw [alignmentOk] at halign
        simp only [decide_eq_true_eq] at halign
        exact Or.inr (by omega)
  | free ref ws =>
      rw [step] at hlive
      rcases free_cases h ref ws with ⟨st, -, -, heq⟩ | ⟨hok, -⟩
      · rw [heq] at hlive
        exact Or.inl hlive
      · exact Or.inl ⟨_, hok.index, hok.live⟩
  | setDestroyFn ref fn =>
      left
      rw [step, setDestroyFn] at hlive
      split at hlive
      · exact hlive
      · rename_i addr hok
        exact ⟨_, (checkRef_ok hok).1.index, (checkRef_ok hok).1.live⟩
  | borrowBegin ref n a =>
      left
      rw [step, borrowBegin] at hlive
      split at hlive
      · exact hlive
      · rename_i addr hok
        exact ⟨_, (checkRef_ok hok).1.index, (checkRef_ok hok).1.live⟩
  | borrowEnd ref =>
      left
      rw [step, borrowEnd] at hlive
      split_ifs at hlive with hok
      · rw [borrowEndOk] at hok
        simp only [decide_eq_true_eq] at hok
        exact ⟨_, hok.2.1, hok.2.2.1⟩
      · exact hlive
  | compact p req elapsed =>
      left
      rw [step] at hlive
      by_cases hyes : Active G p ∧ (G.pools p).borrowCount = 0 ∧ requestOk req = true
      · obtain ⟨met, G', L', heq, -, hc⟩ := compact_ok h hyes.1 hyes.2.1 hyes.2.2 elapsed
        rw [heq] at hlive
        -- maintenance relocates what is live already
        exact hc.relocated.someLive hlive
      · obtain ⟨st, G', heq, -, -, rfl | ⟨-, rfl⟩⟩ := compact_refused h hyes elapsed <;>
          rw [heq] at hlive <;> exact hlive
  | merge s t =>
      left
      rw [step] at hlive
      by_cases hyes : MergeReady G s t ∧ NoUndersized (Ls s) ∧ NoUndersized (Ls t)
      · obtain ⟨G', L', heq, -, hm⟩ := merge_ok h hyes.1 hyes.2
        rw [heq] at hlive
        exact hm.relocated.someLive hlive
      · obtain ⟨st, heq, -, -⟩ := merge_refused h hyes
        rwa [heq] at hlive
  | split s n =>
      left
      rw [step] at hlive
      by_cases hyes : ∃ nid G', split G s n = (.ok, some nid, G')
      · obtain ⟨nid, G', hok⟩ := hyes
        rcases splitArm_healthy (s := s) (n := n) h with ⟨nid', hr, -⟩ | ⟨-, st, harm, hst⟩
        · rcases split_ok h hr with ⟨st, heq, hst⟩ | ⟨F, plan, L₁, L₂, heq, -, -, hsp⟩
          · rwa [heq] at hlive
          · rw [heq] at hlive
            exact hsp.relocated.someLive hlive
        · rw [split, if_neg (by simp [h.zone.init]), harm] at hok
          rcases hst with rfl | rfl | rfl <;> cases hok
      · push Not at hyes
        obtain ⟨st, heq, -⟩ := split_refused h hyes
        rwa [heq] at hlive
  | write w =>
      left
      rw [step, clientWrite_eq] at hlive
      exact hlive

/-- Where an object is alive, alignment `1` is admitted. -/
theorem Reachable.maxAlignment_pos (h : Reachable G) (hlive : SomeLive G) :
    0 < pmMaxAlignment := by
  induction h with
  | init G cfg hok =>
      obtain ⟨i, hlt, hi⟩ := hlive
      obtain ⟨q, -, hm⟩ := (init_inv hok).owned i hlt hi
      cases hm
  | step op hr ih =>
      obtain ⟨Ls, hinv⟩ := hr.healthy
      exact (step_someLive hinv op hlive).elim ih id

end Objects

end PondMerge
