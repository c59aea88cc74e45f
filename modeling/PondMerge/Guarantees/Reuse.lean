import PondMerge.Operations.Lives
import PondMerge.Guarantees.Representation

/-!
A stale reference stays stale until its slot has gone once around the circle of
generations.

* `Stale.refused`: what every entry point makes of a reference whose object is gone.
* `generations_apart`: the generations of a slot repeat after `65535` allocations, and not
  before.
-/

namespace PondMerge

variable [PmConfig] {G : GlobalState}

/-- The reference names no life of its slot that is under way. -/
def Stale (G : GlobalState) (ref : RawRef) : Prop :=
  ¬ ((G.objects ref.index).state = .live ∧ (G.objects ref.index).generation = ref.generation)

/-- Every entry point that takes a reference refuses or ignores this one. -/
def Refused (G : GlobalState) (ref : RawRef) : Prop :=
  (∀ run, (free run G ref).1 ≠ .ok ∧ (free run G ref).2 = G)
    ∧ (∀ n a, (borrowBegin G ref n a).1 ≠ .ok ∧ (borrowBegin G ref n a).2 = (0, G))
    ∧ (∀ n a, (resolve G ref n a).1 ≠ .ok ∧ (resolve G ref n a).2 = 0)
    ∧ (∀ fn, (setDestroyFn G ref fn).1 ≠ .ok ∧ (setDestroyFn G ref fn).2 = G)
    ∧ borrowEnd G ref = G

lemma Stale.checkRef {ref : RawRef} (h : Stale G ref) (n a : ℕ) (r : Bool) :
    ∃ e, e ≠ .ok ∧ checkRef G ref n a r = .error e := by
  rw [PondMerge.checkRef]
  by_cases h1 : (!G.initialized) = true
  · exact ⟨_, by decide, if_pos h1⟩
  rw [if_neg h1]
  by_cases h2 : pmMaxObjects ≤ ref.index ∨ ref.generation = 0
  · exact ⟨_, by decide, if_pos h2⟩
  rw [if_neg h2]
  by_cases h3 : (G.objects ref.index).state = .live
  swap
  · exact ⟨_, by decide, if_pos h3⟩
  rw [if_neg (not_not.mpr h3)]
  exact ⟨_, by decide, if_pos fun h4 => h ⟨h3, h4⟩⟩

/-- A stale reference is refused everywhere. -/
theorem Stale.refused {ref : RawRef} (h : Stale G ref) : Refused G ref := by
  refine ⟨fun run => ?_, fun n a => ?_, fun n a => ?_, fun fn => ?_, ?_⟩
  · obtain ⟨e, he, hc⟩ := h.checkRef 0 1 true
    rw [free, hc]
    split_ifs
    · exact ⟨by simp, rfl⟩
    · exact ⟨by simp, rfl⟩
    · exact ⟨he, rfl⟩
  · obtain ⟨e, he, hc⟩ := h.checkRef n a true
    rw [borrowBegin, hc]
    exact ⟨he, rfl⟩
  · obtain ⟨e, he, hc⟩ := h.checkRef n a true
    rw [resolve, hc]
    exact ⟨he, rfl⟩
  · obtain ⟨e, he, hc⟩ := h.checkRef 0 1 false
    rw [setDestroyFn, hc]
    exact ⟨he, rfl⟩
  · rw [borrowEnd, if_neg]
    rw [borrowEndOk]
    simp only [decide_eq_true_eq]
    rintro ⟨-, -, hlive, -, hgen, -⟩
    exact h ⟨hlive, hgen⟩

/-- The life an accepted `alloc` begins. -/
lemma alloc_begins (h : Reachable G) {p size alignment flags tag : ℕ} {r : RawRef}
    {G' : GlobalState} (hok : alloc G p size alignment flags tag = (.ok, r, G')) :
    r.index < pmMaxObjects ∧ (G.objects r.index).state = .free
      ∧ r.generation = nextGeneration (G.objects r.index).generation
      ∧ (G'.objects r.index).state = .live ∧ (G'.objects r.index).generation = r.generation
      ∧ Reachable G' := by
  obtain ⟨Ls, hinv⟩ := h.healthy
  have hreach : Reachable (alloc G p size alignment flags tag).2.2 :=
    h.step (.alloc p size alignment flags tag)
  rw [hok] at hreach
  rcases alloc_cases G p size alignment flags tag with ⟨st, hst, heq⟩ | ⟨need, blk, ha, heq⟩
  · rw [hok, Prod.mk.injEq] at heq
    exact absurd heq.1.symm hst
  · rw [hok] at heq
    simp only [Prod.mk.injEq, true_and] at heq
    obtain ⟨rfl, rfl⟩ := heq
    obtain ⟨hlt, hfree⟩ := hinv.slots.head_free ha.slot
    have hlife : LifeStep _ ((allocCommit (popSlot G) p G.freeSlotHead blk need size
        (allocFlags flags) tag).objects G.freeSlotHead) _ := ha.life hinv G.freeSlotHead
    rw [if_pos rfl] at hlife
    cases hlife with
    | begun before after generation => exact ⟨hlt, hfree, rfl, after, generation, hreach⟩

/-- A successful `free` leaves the slot free. -/
lemma free_ends (h : Reachable G) {ref : RawRef} {ws : List PayloadWrite}
    (hok : (free (writingCallback ws) G ref).1 = .ok) :
    ((step G (.free ref ws)).objects ref.index).state = .free := by
  obtain ⟨Ls, hinv⟩ := h.healthy
  rw [step]
  rcases free_cases hinv ref ws with ⟨st, hst, -, heq⟩ | ⟨hr, -, heq⟩
  · rw [heq] at hok
    exact absurd hok hst
  · rw [heq]
    have hobj : (afterCallback G ref.index ws).objects = G.objects := by
      rw [afterCallback_eq]
    have hlife := (freeCommit_life (afterCallback_inv hinv ref.index ws) hr.index
      (by rw [hobj]; exact hr.live) (G.objects ref.index).block
      (poolEnd G (G.pools (G.objects ref.index).poolId)) hr.index).1 rfl
    rwa [hobj] at hlife

/-- **Generations.**  Let `alloc` have returned `r` in a run.

The generation of `r` is valid, and a later life of its slot has the same one exactly where
a multiple of `65535` allocations of the slot lies between the two.  Once `r` has been freed,
a reference with its index and generation is refused everywhere, until the slot has been
allocated `65535` times more. -/
theorem generations_apart (h : Reachable G) {p size alignment flags tag : ℕ} {r : RawRef}
    {G₁ : GlobalState} (hok : alloc G p size alignment flags tag = (.ok, r, G₁)) :
    r.generation ≠ 0
    ∧ (∀ ops p' size' alignment' flags' tag' r' G₂,
        alloc (runOps G₁ ops) p' size' alignment' flags' tag' = (.ok, r', G₂) →
        r'.index = r.index →
        r'.generation ≠ 0
          ∧ (r'.generation = r.generation ↔ 65535 ∣ livesBegun r.index G₁ ops + 1))
    ∧ ∀ ops f ws ops', f.index = r.index → f.generation = r.generation →
        (free (writingCallback ws) (runOps G₁ ops) f).1 = .ok →
        livesBegun r.index G₁ (ops ++ .free f ws :: ops') < 65535 →
        ∀ s : RawRef, s.index = r.index → s.generation = r.generation →
          Refused (runOps G₁ (ops ++ .free f ws :: ops')) s := by
  obtain ⟨hlt, -, hgen, hlive₁, hgen₁, h₁⟩ := alloc_begins h hok
  have hpos : 1 ≤ r.generation := hgen ▸ nextGeneration_pos _
  have hle : r.generation ≤ 65535 := hgen ▸ nextGeneration_le _
  have hstart : InLife (G₁.objects r.index) r.generation 0 := Or.inl ⟨hlive₁, hgen₁⟩
  refine ⟨by omega, ?_, ?_⟩
  · intro ops p' size' alignment' flags' tag' r' G₂ hok' hidx
    obtain ⟨-, hfree, hgen', -, -, -⟩ := alloc_begins (h₁.runOps ops) hok'
    rw [hidx] at hfree hgen'
    refine ⟨by have := nextGeneration_pos ((runOps G₁ ops).objects r.index).generation; omega, ?_⟩
    have hlife := runOps_life h₁ hlt hstart ops
    rw [Nat.zero_add] at hlife
    cases hlife with
    | inl hl => exact absurd (hl.1.symm.trans hfree) (by decide)
    | inr hf =>
        rw [hgen', hf.2, ← Function.iterate_succ_apply' nextGeneration]
        exact nextGeneration_lives hpos hle (livesBegun r.index G₁ ops + 1)
  · intro ops f ws ops' hfi hfg hfok hfew s hsi hsg
    refine Stale.refused fun hlive => ?_
    rw [hsi, hsg] at hlive
    have hrun : runOps G₁ (ops ++ .free f ws :: ops') =
        runOps (step (runOps G₁ ops) (.free f ws)) ops' := by
      rw [runOps, List.foldl_append]
      rfl
    have hfreed := free_ends (h₁.runOps ops) hfok
    rw [hfi] at hfreed
    have hlife := runOps_life h₁ hlt hstart (ops ++ .free f ws :: ops')
    rw [Nat.zero_add] at hlife
    cases hlife with
    | inr hf => exact absurd (hlive.1.symm.trans hf.1) (by decide)
    | inl hl =>
        -- the slot is back at `r`'s generation, so it has been allocated `0` times or too often
        have hdvd := (nextGeneration_lives hpos hle _).mp (hl.2.symm.trans hlive.2)
        have hzero := Nat.eq_zero_of_dvd_of_lt hdvd hfew
        rw [livesBegun_append, livesBegun] at hzero
        have hstay := runOps_free ((h₁.runOps ops).step (.free f ws)) hlt hfreed ops' (by omega)
        rw [← hrun, hlive.1] at hstay
        cases hstay

/-- One pool of three segments. -/
def onePool : GlobalState :=
  letI := defaultConfig
  runOps (init .zero smallZone).2 [.createPool 3]

omit [PmConfig] in
lemma onePool_reachable : letI := defaultConfig; Reachable onePool :=
  smallZone_runOps _

/-- It holds one object, in slot `0`. -/
def onePoolUsed : GlobalState :=
  letI := defaultConfig
  (alloc onePool 0 24 8 0 7).2.2

omit [PmConfig] in
lemma onePoolUsed_reachable : letI := defaultConfig; Reachable onePoolUsed :=
  letI := defaultConfig
  onePool_reachable.step (.alloc 0 24 8 0 7)

omit [PmConfig] in
lemma onePool_alloc :
    letI := defaultConfig
    alloc onePool 0 24 8 0 7 = (.ok, ⟨0, 1, 0, 0⟩, onePoolUsed) := by
  let _ := defaultConfig
  have hok : (alloc onePool 0 24 8 0 7).1 = .ok := by decide +kernel
  have href : (alloc onePool 0 24 8 0 7).2.1 = ⟨0, 1, 0, 0⟩ := by decide +kernel
  rw [onePoolUsed, ← hok, ← href]

omit [PmConfig] in
/-- A slot that has been freed and allocated again: the next generation is `3`, and the old
reference is refused. -/
theorem generations_apart_onePool :
    letI := defaultConfig
    let G := runOps onePoolUsed [.free ⟨0, 1, 0, 0⟩ [], .alloc 0 40 8 0 8]
    (G.objects 0).generation = 3 ∧ Refused G ⟨0, 1, crossHint, 5⟩ := by
  let _ := defaultConfig
  obtain ⟨-, -, hstale⟩ := generations_apart onePool_reachable onePool_alloc
  exact ⟨by decide +kernel, hstale [] ⟨0, 1, 0, 0⟩ [] [.alloc 0 40 8 0 8] rfl rfl
    (by decide +kernel) (by decide +kernel) _ rfl rfl⟩

end PondMerge
