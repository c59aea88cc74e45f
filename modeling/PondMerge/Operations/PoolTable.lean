import PondMerge.Operations.Rebuild
import PondMerge.Operations.References
import PondMerge.Operations.Accounting
import PondMerge.Model.Pools

/-!
`init`, `create_pool` and `destroy_pool` on a healthy state.

* `findRun_unused`: the run search returns unused segments.
* `openPool_inv`: the new pool is one free block over its window, and no other window is
  written.
* `createPool_cases`, `createPool_inv`, `destroyPool_inv`, `init_inv`: the operations.
-/

namespace PondMerge

open ByteMemory LinkedList Tiling

variable [PmConfig]

section Table

variable {G : GlobalState} {Ls : ℕ → List Piece}

/-- The entry `create_pool` and `split` take is the first Empty one. -/
lemma firstEmptyPool_some {i : ℕ} (h : firstEmptyPool G = some i) :
    i < pmMaxPools ∧ (G.pools i).state = .empty ∧ ∀ j < i, Active G j := by
  rw [firstEmptyPool, List.find?_range_eq_some] at h
  obtain ⟨hempty, hlt, hbefore⟩ := h
  rw [List.mem_range] at hlt
  exact ⟨hlt, of_decide_eq_true hempty, fun j hj => ⟨hj.trans hlt, by simpa using hbefore j hj⟩⟩

/-! ### Unused segments -/

lemma segmentUsed_eq_false {s : ℕ} :
    segmentUsed G s = false ↔ ∀ q, Active G q →
      ¬ ((G.pools q).segmentFirst ≤ s
        ∧ s < (G.pools q).segmentFirst + (G.pools q).segmentCount) := by
  rw [segmentUsed, List.any_eq_false]
  constructor
  · intro h q hq hin
    exact h q (List.mem_range.mpr hq.1) (by simpa using ⟨hq.2, hin⟩)
  · intro h q hq hin
    simp only [decide_eq_true_eq] at hin
    exact h q ⟨List.mem_range.mp hq, hin.1⟩ hin.2

/-- The run search returns unused segments; `run` of them lie just before segment `s`. -/
lemma findRun_unused {want left s run base : ℕ} (hrun : run ≤ s)
    (hpast : ∀ t, s ≤ t + run → t < s → segmentUsed G t = false)
    (h : findRun G want left s run = some base) :
    base + want ≤ s + left ∧ ∀ t, base ≤ t → t < base + want → segmentUsed G t = false := by
  induction left generalizing s run with
  | zero => simp [findRun] at h
  | succ left ih =>
      rw [findRun] at h
      by_cases hused : segmentUsed G s = true
      · rw [if_pos hused] at h
        have := ih (Nat.zero_le _) (fun t h₁ h₂ => by omega) h
        exact ⟨by omega, this.2⟩
      rw [if_neg hused] at h
      have hnow : ∀ t, s + 1 ≤ t + (run + 1) → t < s + 1 → segmentUsed G t = false := by
        intro t h₁ h₂
        by_cases ht : t = s
        · rw [ht]
          simpa using hused
        · exact hpast t (by omega) (by omega)
      by_cases hwant : want ≤ run + 1
      · rw [if_pos hwant, Option.some.injEq] at h
        subst h
        exact ⟨by omega, fun t h₁ h₂ => hnow t (by omega) (by omega)⟩
      · rw [if_neg hwant] at h
        have := ih (by omega) hnow h
        exact ⟨by omega, this.2⟩

/-- Segments `base`, …, `base + n - 1` of the zone are owned by no pool. -/
def FreeRun (G : GlobalState) (base n : ℕ) : Prop :=
  base + n ≤ G.segmentCount ∧ ∀ t, base ≤ t → t < base + n → segmentUsed G t = false

/-- The run search misses no run: `run` unused segments lie just before segment `s`, and no
run of `want` segments starts before them. -/
lemma findRun_least {want left s run : ℕ} (hrun : run < want) (hs : run ≤ s)
    (hpast : ∀ t, s ≤ t + run → t < s → segmentUsed G t = false)
    (hno : ∀ b, b + run < s → ¬ ∀ t, b ≤ t → t < b + want → segmentUsed G t = false) :
    match findRun G want left s run with
    | none => ∀ b, b + want ≤ s + left → ¬ ∀ t, b ≤ t → t < b + want → segmentUsed G t = false
    | some base => ∀ b < base, ¬ ∀ t, b ≤ t → t < b + want → segmentUsed G t = false := by
  induction left generalizing s run with
  | zero => exact fun b hb => hno b (by omega)
  | succ left ih =>
      rw [findRun]
      by_cases hused : segmentUsed G s = true
      · -- a run that starts at `s - run` or later, and no later than `s`, holds `s`
        rw [if_pos hused, show s + (left + 1) = s + 1 + left by omega]
        refine ih (by omega) (Nat.zero_le _) (fun t h₁ h₂ => by omega) fun b hb hall => ?_
        by_cases hlow : b + run < s
        · exact hno b hlow hall
        · have hfree := hall s (by omega) (by omega)
          rw [hused] at hfree
          cases hfree
      rw [if_neg hused]
      by_cases hwant : want ≤ run + 1
      · rw [if_pos hwant]
        exact fun b hb => hno b (by omega)
      · rw [if_neg hwant, show s + (left + 1) = s + 1 + left by omega]
        refine ih (by omega) (by omega) (fun t h₁ h₂ => ?_) fun b hb => hno b (by omega)
        by_cases ht : t = s
        · rw [ht]
          simpa using hused
        · exact hpast t (by omega) (by omega)

/-- The run search finds the lowest run there is. -/
lemma findRun_iff {want base : ℕ} (hwant : 0 < want) :
    findRun G want G.segmentCount 0 0 = some base ↔
      FreeRun G base want ∧ ∀ b < base, ¬ FreeRun G b want := by
  have hleast := @findRun_least _ G want G.segmentCount 0 0 hwant le_rfl
    (fun t h₁ h₂ => by omega) (fun b hb => by omega)
  constructor
  · intro h
    obtain ⟨hle, hunused⟩ := findRun_unused le_rfl (fun t h₁ h₂ => by omega) h
    rw [h] at hleast
    exact ⟨⟨by omega, hunused⟩, fun b hb hrun => hleast b hb hrun.2⟩
  · rintro ⟨hrun, hfirst⟩
    cases hf : findRun G want G.segmentCount 0 0 with
    | none =>
        rw [hf] at hleast
        exact absurd hrun.2 (hleast base (by have := hrun.1; omega))
    | some base' =>
        obtain ⟨hle, hunused⟩ := findRun_unused le_rfl (fun t h₁ h₂ => by omega) hf
        rw [hf] at hleast
        have hnlt : ¬ base < base' := fun hlt => hleast base hlt hrun.2
        have hnlt' : ¬ base' < base := fun hlt => hfirst base' hlt ⟨by omega, hunused⟩
        rw [show base' = base by omega]

/-- It finds none only where there is none. -/
lemma findRun_none {want : ℕ} (hwant : 0 < want) :
    findRun G want G.segmentCount 0 0 = none ↔ ¬ ∃ base, FreeRun G base want := by
  constructor
  · rintro h ⟨base, hrun⟩
    have hleast := @findRun_least _ G want G.segmentCount 0 0 hwant le_rfl
      (fun t h₁ h₂ => by omega) (fun b hb => by omega)
    rw [h] at hleast
    exact hleast base (by have := hrun.1; omega) hrun.2
  · intro hno
    cases hf : findRun G want G.segmentCount 0 0 with
    | none => rfl
    | some base => exact absurd ⟨base, ((findRun_iff hwant).mp hf).1⟩ hno

lemma firstEmptyPool_none : firstEmptyPool G = none ↔ ∀ i < pmMaxPools, Active G i := by
  rw [firstEmptyPool, List.find?_eq_none]
  constructor
  · exact fun h i hi => ⟨hi, by simpa using h i (List.mem_range.mpr hi)⟩
  · intro h i hi
    simpa using (h i (List.mem_range.mp hi)).2

/-! ### A new pool -/

lemma openPool_eq (i base count : ℕ) :
    openPool G i base count =
      { G.setPool i { newPool G base count with
          bins := (putFree G.zone ⟨.reset, G.mem, poolStart G (newPool G base count), 0, 0, 0⟩
            (poolStart G (newPool G base count))
            (poolCapacity G (newPool G base count))).1 } with
        mem := (putFree G.zone ⟨.reset, G.mem, poolStart G (newPool G base count), 0, 0, 0⟩
          (poolStart G (newPool G base count)) (poolCapacity G (newPool G base count))).2 } :=
  rfl

/-- A pool opened over unused segments is one free block, and no other window is written. -/
theorem openPool_inv (h : GlobalInv G Ls) {i base count : ℕ} (hi : i < pmMaxPools)
    (hempty : (G.pools i).state = .empty) (hpos : 0 < count)
    (hle : base + count ≤ G.segmentCount)
    (hunused : ∀ t, base ≤ t → t < base + count → segmentUsed G t = false) :
    GlobalInv (openPool G i base count)
        (Function.update Ls i [.free (count * G.segmentSize)])
      ∧ ∀ q, Active G q → ∀ z, InWindow G q z → (openPool G i base count).mem z = G.mem z := by
  have hseg := h.zone.count
  have hsegs := PmConfig.maxSegments_le
  have hsize := h.zone.zoneSize_lt
  have hge := h.zone.segGe
  have hfirst : (newPool G base count).segmentFirst = base := u16_of_lt (by omega)
  have hcount : (newPool G base count).segmentCount = count := u16_of_lt (by omega)
  have hmul : (base + count) * G.segmentSize ≤ G.zoneSize := by
    rw [h.zone.size]
    exact Nat.mul_le_mul_right _ hle
  rw [Nat.add_mul] at hmul
  have hcap : poolCapacity G (newPool G base count) = count * G.segmentSize := by
    rw [poolCapacity, hcount]
    exact u32_of_lt (by omega)
  have hstart : poolStart G (newPool G base count) = G.zone + base * G.segmentSize := by
    rw [poolStart, hfirst, segBase]
  have hfree : (newPool G base count).freeBytes = count * G.segmentSize := by
    rw [newPool]
    dsimp only
    rw [u16_of_lt (show count < 2 ^ 16 by omega), u32_of_lt (by omega)]
  have hcapge : 1024 ≤ count * G.segmentSize :=
    hge.trans (Nat.le_mul_of_pos_left _ hpos)
  have hcapmod : count * G.segmentSize % 8 = 0 := by
    rw [Nat.mul_mod, h.zone.segMod, Nat.mul_zero, Nat.zero_mod]
  have hrep₀ : HeapRep G.zone (G.zone + base * G.segmentSize) G.mem .reset [] :=
    ⟨trivial, (binsRep_reset G.zone G.mem).congr_set fun x n => by simp⟩
  have hbuilt := Built.free (a := G.zone + base * G.segmentSize)
    (r := ⟨.reset, G.mem, G.zone + base * G.segmentSize, 0, 0, 0⟩) (L := [])
    ⟨by simp, hrep₀, rfl, rfl, rfl, fun _ _ => rfl⟩ (n := count * G.segmentSize) (by omega)
    hcapmod (by omega) (by simp only [total_nil]; omega)
  dsimp only [List.nil_append, total_nil, Nat.add_zero] at hbuilt
  rw [openPool_eq, hstart, hcap]
  generalize putFree G.zone ⟨.reset, G.mem, G.zone + base * G.segmentSize, 0, 0, 0⟩
    (G.zone + base * G.segmentSize) (count * G.segmentSize) = bm at *
  generalize hL : [Piece.free (count * G.segmentSize)] = L at *
  have hlive : liveSlots L = [] := by rw [← hL]; rfl
  have htotal : total Piece.len L = count * G.segmentSize := by rw [← hL]; simp [Piece.len]
  have husedL : usedOf L = 0 ∧ lostOf L = 0 := by
    rw [← hL]
    exact ⟨rfl, rfl⟩
  have hok : LayoutOk L := by
    refine ⟨hbuilt.pieces, ?_, fun n hn => ?_, by rw [hlive]; exact List.nodup_nil⟩
    · rw [← hL]
      exact List.isChain_singleton _
    · rw [← hL, List.mem_singleton] at hn
      rw [← hL, hn]
      exact Or.inr rfl
  -- the window of an existing pool is another one
  have hdisj : ∀ q, Active G q → SegmentsApart (G.pools q) (newPool G base count) := by
    intro q hq
    have hqpos := (h.pool q hq).segPos
    rw [SegmentsApart, hfirst, hcount]
    by_contra hmeet
    rw [not_or, Nat.not_le, Nat.not_le] at hmeet
    by_cases hb : base ≤ (G.pools q).segmentFirst
    · exact segmentUsed_eq_false.mp (hunused _ hb (by omega)) q hq ⟨le_rfl, by omega⟩
    · exact segmentUsed_eq_false.mp (hunused base le_rfl (by omega)) q hq ⟨by omega, by omega⟩
  have hmem : ∀ q, Active G q → ∀ z, InWindow G q z → bm.2 z = G.mem z := by
    intro q hq z hz
    refine hbuilt.frame z fun hm => ?_
    have hb := hm.bounds hbuilt.pieces
    rw [htotal] at hb
    have hw := (hdisj q hq).window (G := G)
    rw [InWindow] at hz
    rw [hstart] at hw
    rw [poolEnd, poolEnd, segBase, segBase, hfirst, hcount, Nat.add_mul base] at hw
    rw [poolEnd, segBase] at hz
    omega
  have hne : ∀ q, Active G q → q ≠ i := by
    rintro q hq rfl
    exact hq.2 hempty
  refine ⟨?_, hmem⟩
  refine h.replace (A := (· = i)) ⟨rfl, rfl, rfl, rfl, rfl⟩
    (fun q hq => Function.update_of_ne hq _ _)
    (fun q hq => Function.update_of_ne hq _ _) (fun q hq => ?_) (fun q hq hqa => ?_)
    (fun q r hq hqa hra hqr => ?_) (fun q hq hqa i hi => SameBlock.refl _)
    (fun q hq hqa z hz => hmem q hqa z hz) (fun j hj hl => ?_) h.idle
    (h.slots.congr (fun _ => rfl) (fun _ => rfl) rfl rfl)
  · subst hq
    rw [GlobalState.setPool_pools, Function.update_self]
    exact Or.inr (Or.inl rfl)
  · subst hq
    rw [Function.update_self]
    have hpool : (G.setPool q { newPool G base count with bins := bm.1 }).pools q =
        { newPool G base count with bins := bm.1 } := Function.update_self _ _ _
    have hst : poolStart { G.setPool q { newPool G base count with bins := bm.1 } with
        mem := bm.2 } { newPool G base count with bins := bm.1 } = G.zone + base * G.segmentSize :=
      hstart
    refine ⟨?_, ?_, ?_, hok, ?_, ?_, ?_, ?_, ?_, ?_, ?_, ?_⟩
    all_goals simp only [hpool, hst]
    · rw [hcount]
      exact hpos
    · rw [hfirst, hcount]
      exact hle
    · rw [hcount]
      exact htotal
    · exact hbuilt.rep.headers
    · exact hbuilt.rep.bins
    · intro x s n hx
      have := hx.mem_liveSlots
      rw [hlive] at this
      exact absurd this List.not_mem_nil
    · exact ⟨[], rfl, by rw [hlive]⟩
    · rw [husedL.1]
      rfl
    · rw [husedL.1, htotal, Nat.sub_zero]
      exact hfree
    · rw [husedL.2]
      rfl
    · rw [hlive]
      rfl
  · subst hq
    have hra' : Active G r := by
      rw [Active, GlobalState.setPool_pools, Function.update_of_ne (Ne.symm hqr)] at hra
      exact hra
    rw [GlobalState.setPool_pools, Function.update_self, Function.update_of_ne (Ne.symm hqr)]
    exact (hdisj r hra').symm
  · obtain ⟨q, hq, hm⟩ := h.owned j hj hl
    refine ⟨q, ?_, by rwa [Function.update_of_ne (hne q hq)]⟩
    rw [Active, GlobalState.setPool_pools, Function.update_of_ne (hne q hq)]
    exact hq

/-- In a healthy state `create_pool` needs a run and an entry. -/
lemma createPool_eq (h : GlobalInv G Ls) {count : ℕ} (hpos : 0 < count) :
    createPool G count =
      match findRun G count G.segmentCount 0 0 with
      | none => (.noSpace, none, G)
      | some base =>
        match firstEmptyPool G with
        | none => (.noSpace, none, G)
        | some i => (.ok, some i, openPool G i base count) := by
  have hgeo : ((List.range pmMaxPools).any fun i =>
      decide ((G.pools i).state ≠ .empty ∧ (!poolGeometryOk G (G.pools i)) = true)) = false := by
    rw [List.any_eq_false]
    intro q hq hbad
    simp only [decide_eq_true_eq] at hbad
    have := (h.pool q ⟨List.mem_range.mp hq, hbad.1⟩).geometry h.zone
    rw [this] at hbad
    simp at hbad
  rw [createPool, if_neg (by simp [h.zone.init]), if_neg hpos.ne', hgeo,
    if_neg Bool.false_ne_true]
  by_cases hmany : G.segmentCount < count
  · have hnone : findRun G count G.segmentCount 0 0 = none :=
      (findRun_none hpos).mpr fun ⟨base, hle, _⟩ => by omega
    rw [if_pos hmany, hnone]
  · exact (if_neg hmany).trans rfl

/-- The two outcomes of `create_pool` in a healthy state. -/
theorem createPool_cases (h : GlobalInv G Ls) (count : ℕ) :
    (∃ st, st ≠ .ok ∧ st ≠ .corruptMetadata ∧ createPool G count = (st, none, G))
      ∨ ∃ i base, createPool G count = (.ok, some i, openPool G i base count)
        ∧ firstEmptyPool G = some i ∧ base < G.segmentCount ∧ segmentUsed G base = false
        ∧ GlobalInv (openPool G i base count)
          (Function.update Ls i [.free (count * G.segmentSize)])
        ∧ ∀ q, Active G q → ∀ z, InWindow G q z →
          (openPool G i base count).mem z = G.mem z := by
  by_cases hzero : count = 0
  · rw [createPool, if_neg (by simp [h.zone.init]), if_pos hzero]
    exact Or.inl ⟨_, by decide, by decide, rfl⟩
  rw [createPool_eq h (by omega)]
  cases hrun : findRun G count G.segmentCount 0 0 with
  | none => exact Or.inl ⟨_, by decide, by decide, rfl⟩
  | some base =>
      dsimp only
      cases hent : firstEmptyPool G with
      | none => exact Or.inl ⟨_, by decide, by decide, rfl⟩
      | some i =>
          obtain ⟨hle, hunused⟩ := findRun_unused le_rfl (fun t h₁ h₂ => by omega) hrun
          obtain ⟨hi, hempty, -⟩ := firstEmptyPool_some hent
          obtain ⟨hinv, hmem⟩ := openPool_inv h hi hempty (by omega) (by omega) hunused
          exact Or.inr ⟨i, base, rfl, rfl, by omega, hunused base le_rfl (by omega), hinv, hmem⟩

/-- `create_pool` keeps the invariant. -/
theorem createPool_inv (h : GlobalInv G Ls) (count : ℕ) :
    ∃ Ls', GlobalInv (createPool G count).2.2 Ls' := by
  rcases createPool_cases h count with ⟨st, -, -, heq⟩ | ⟨i, base, heq, -, -, -, hinv, -⟩
  · exact ⟨Ls, by rw [heq]; exact h⟩
  · exact ⟨_, by rw [heq]; exact hinv⟩

/-! ### The end of a pool -/

/-- A pool that holds no object can be dropped from the table. -/
lemma dropPool_inv (h : GlobalInv G Ls) {p : ℕ} (hp : Active G p)
    (hlive : (G.pools p).liveObjects = 0) : GlobalInv (G.setPool p Pool.zero) Ls := by
  have hslots : liveSlots (Ls p) = [] := by
    rw [(h.pool p hp).live] at hlive
    exact List.length_eq_zero_iff.mp hlive
  have hact : ∀ q, Active (G.setPool p Pool.zero) q → Active G q ∧ q ≠ p := by
    intro q hq
    by_cases hqp : q = p
    · subst hqp
      rw [Active, GlobalState.setPool_pools, Function.update_self] at hq
      exact absurd rfl hq.2
    · rw [Active, GlobalState.setPool_pools, Function.update_of_ne hqp] at hq
      exact ⟨hq, hqp⟩
  refine h.replace (A := (· = p)) ⟨rfl, rfl, rfl, rfl, rfl⟩
    (fun q hq => Function.update_of_ne hq _ _) (fun q _ => rfl) (fun q hq => ?_)
    (fun q hq hqa => absurd hq (hact q hqa).2) (fun q r hq hqa _ _ => absurd hq (hact q hqa).2)
    (fun q _ _ i _ => SameBlock.refl _) (fun q _ _ z _ => rfl) (fun i hi hl => ?_) h.idle
    (h.slots.congr (fun _ => rfl) (fun _ => rfl) rfl rfl)
  · rw [hq, GlobalState.setPool_pools, Function.update_self]
    exact Or.inl rfl
  · obtain ⟨q, hq, hm⟩ := h.owned i hi hl
    have hqp : q ≠ p := by
      rintro rfl
      rw [hslots] at hm
      exact absurd hm List.not_mem_nil
    refine ⟨q, ?_, hm⟩
    rw [Active, GlobalState.setPool_pools, Function.update_of_ne hqp]
    exact hq

/-- The two outcomes of `destroy_pool` in a healthy state. -/
theorem destroyPool_cases (h : GlobalInv G Ls) (p : ℕ) :
    (∃ st, st ≠ .ok ∧ destroyPool G p = (st, G))
      ∨ destroyPool G p = (.ok, G.setPool p Pool.zero) ∧ Active G p
        ∧ GlobalInv (G.setPool p Pool.zero) Ls := by
  rw [destroyPool, if_neg (by simp [h.zone.init])]
  by_cases hp : Active G p
  swap
  · rw [poolAt_eq_none.mpr hp]
    exact Or.inl ⟨_, by decide, rfl⟩
  rw [poolAt_eq_some.mpr ⟨hp, rfl⟩]
  dsimp only
  by_cases hbusy : (G.pools p).liveObjects ≠ 0 ∨ (G.pools p).borrowCount ≠ 0
  · rw [if_pos hbusy]
    exact Or.inl ⟨_, by decide, rfl⟩
  rw [if_neg hbusy]
  split_ifs
  · exact Or.inl ⟨_, by decide, rfl⟩
  · exact Or.inr ⟨rfl, hp, dropPool_inv h hp (by tauto)⟩

/-- `destroy_pool` keeps the invariant. -/
theorem destroyPool_inv (h : GlobalInv G Ls) (p : ℕ) : GlobalInv (destroyPool G p).2 Ls := by
  rcases destroyPool_cases h p with ⟨st, -, heq⟩ | ⟨heq, -, hinv⟩
  · rw [heq]
    exact h
  · rw [heq]
    exact hinv

/-! ### The first state -/

omit [PmConfig] in
/-- A call that succeeds has passed its first check. -/
lemma passed {b : Prop} [Decidable b] {e : Status} {r : Status × GlobalState} (he : e ≠ .ok)
    (hok : (if b then (e, G) else r).1 = .ok) :
    ¬ b ∧ r.1 = .ok ∧ (if b then (e, G) else r) = r := by
  by_cases hb : b
  · rw [if_pos hb] at hok
    exact absurd hok he
  · rw [if_neg hb] at hok ⊢
    exact ⟨hb, hok, rfl⟩

/-- What a successful `init` has checked. -/
lemma init_ok {cfg : InitConfig} (hok : (init G cfg).1 = .ok) :
    init G cfg = (.ok, initState cfg G.mem) ∧ 1024 ≤ cfg.segmentSize
      ∧ cfg.segmentSize &&& (cfg.segmentSize - 1) = 0 ∧ cfg.zone % 8 = 0
      ∧ cfg.zoneSize / cfg.segmentSize ≤ pmMaxSegments
      ∧ cfg.zoneSize / cfg.segmentSize * cfg.segmentSize < 2 ^ pmFlMax := by
  rw [init] at hok ⊢
  obtain ⟨-, hok, e₁⟩ := passed (by decide) hok
  obtain ⟨-, hok, e₂⟩ := passed (by decide) hok
  obtain ⟨hge, hok, e₃⟩ := passed (by decide) hok
  obtain ⟨hpow, hok, e₄⟩ := passed (by decide) hok
  obtain ⟨-, hok, e₅⟩ := passed (by decide) hok
  obtain ⟨hmod, hok, e₆⟩ := passed (by decide) hok
  obtain ⟨hcount, hok, e₇⟩ := passed (by decide) hok
  obtain ⟨-, hok, e₈⟩ := passed (by decide) hok
  obtain ⟨-, hok, e₉⟩ := passed (by decide) hok
  obtain ⟨hsmall, -, e₁₀⟩ := passed (by decide) hok
  rw [e₁, e₂, e₃, e₄, e₅, e₆, e₇, e₈, e₉, e₁₀]
  exact ⟨rfl, by omega, not_not.mp hpow, not_not.mp hmod, by omega, by omega⟩

/-- A successful `init` leaves an empty pool table and a full free-slot list. -/
theorem init_inv {cfg : InitConfig} (hok : (init G cfg).1 = .ok) :
    GlobalInv (init G cfg).2 fun _ => [] := by
  obtain ⟨heq, hge, hpow, hmod, hcount, hsmall⟩ := init_ok hok
  rw [heq]
  have hempty : ∀ p, ¬ Active (initState cfg G.mem) p := fun p hp => hp.2 rfl
  refine ⟨⟨rfl, hmod, hge, hpow, rfl, hsmall, hcount⟩, fun p _ => Or.inl rfl, fun p _ _ => rfl,
    fun p hp => absurd hp (hempty p), fun p q hp => absurd hp (hempty p), fun i _ hl => ?_,
    fun i _ => Or.inr rfl, ?_⟩
  · cases hl
  · -- the chain `0, 1, …` ends at the last slot
    have hmax := PmConfig.maxObjects_lt
    have hpos := PmConfig.maxObjects_pos
    have hchain : ∀ n s, s + n = pmMaxObjects →
        IsChain (fun i => (initObject i).nextFreeSlot) noSlot
          (if s < pmMaxObjects then s else noSlot) (List.range' s n) := by
      intro n
      induction n with
      | zero =>
          intro s hs
          rw [if_neg (by omega)]
          rfl
      | succ n ih =>
          intro s hs
          rw [if_pos (by omega), List.range'_succ]
          refine ⟨rfl, ?_, ih (s + 1) (by omega)⟩
          rw [noSlot]
          omega
    refine ⟨List.range' 0 pmMaxObjects, ?_, fun i => ?_, ?_⟩
    · have := hchain pmMaxObjects 0 (by omega)
      rwa [if_pos hpos] at this
    · rw [List.mem_range'_1]
      exact ⟨fun hi => ⟨by omega, rfl⟩, fun hi => by omega⟩
    · rw [List.length_range']
      exact Nat.zero_add _

end Table

end PondMerge
