import PondMerge.Operations.Runs

/-!
The successive lives of a descriptor slot: `alloc` begins one, `free` ends one, and both
advance the generation; nothing else touches it.

* `nextGeneration_iterate`: the generations run through `1, …, 65535` in a circle.
* `step_life`: what one operation makes of a slot.
* `runOps_life`: the generation of a slot counts the allocations and frees of a run.
-/

namespace PondMerge

/-! ### The circle of generations -/

lemma nextGeneration_pos (g : ℕ) : 1 ≤ nextGeneration g := by
  rw [nextGeneration]
  split_ifs <;> omega

lemma nextGeneration_le (g : ℕ) : nextGeneration g ≤ 65535 := by
  rw [nextGeneration, u16]
  split_ifs <;> omega

lemma nextGeneration_eq {g : ℕ} (hg : g ≤ 65535) : nextGeneration g = g % 65535 + 1 := by
  rw [nextGeneration, u16]
  split_ifs <;> omega

/-- `n` bumps move a valid generation `n` places along the circle. -/
lemma nextGeneration_iterate {g : ℕ} (hpos : 1 ≤ g) (hle : g ≤ 65535) (n : ℕ) :
    nextGeneration^[n] g = (g - 1 + n) % 65535 + 1 := by
  induction n with
  | zero =>
      show g = (g - 1 + 0) % 65535 + 1
      omega
  | succ n ih =>
      rw [Function.iterate_succ_apply', ih, nextGeneration_eq (by omega)]
      omega

/-- A valid generation comes back after whole turns of the circle only. -/
lemma nextGeneration_iterate_eq {g : ℕ} (hpos : 1 ≤ g) (hle : g ≤ 65535) (n : ℕ) :
    nextGeneration^[n] g = g ↔ 65535 ∣ n := by
  rw [nextGeneration_iterate hpos hle]
  omega

/-- Two bumps a life, and `65535` is odd. -/
lemma nextGeneration_lives {g : ℕ} (hpos : 1 ≤ g) (hle : g ≤ 65535) (k : ℕ) :
    nextGeneration^[2 * k] g = g ↔ 65535 ∣ k := by
  have hodd : Nat.Coprime 65535 2 := by decide
  rw [nextGeneration_iterate_eq hpos hle]
  exact ⟨fun h => hodd.dvd_of_dvd_mul_left h, fun h => h.mul_left 2⟩

/-! ### One operation -/

/-- Two descriptors of one slot in one life, or in one gap between lives. -/
structure SameLife (d d' : ObjectDesc) : Prop where
  state : d'.state = d.state
  generation : d'.generation = d.generation

lemma SameLife.refl (d : ObjectDesc) : SameLife d d := ⟨rfl, rfl⟩

lemma SameLife.of_eq {d d' : ObjectDesc} (h : d' = d) : SameLife d d' := h ▸ .refl d

lemma SameLife.trans {a b c : ObjectDesc} (h : SameLife a b) (h' : SameLife b c) :
    SameLife a c :=
  ⟨h'.state.trans h.state, h'.generation.trans h.generation⟩

/-- What a step makes of a descriptor, and how many lives it begins. -/
inductive LifeStep (d d' : ObjectDesc) : ℕ → Prop where
  | same (same : SameLife d d') : LifeStep d d' 0
  | ended (before : d.state = .live) (after : d'.state = .free)
      (generation : d'.generation = nextGeneration d.generation) : LifeStep d d' 0
  | begun (before : d.state = .free) (after : d'.state = .live)
      (generation : d'.generation = nextGeneration d.generation) : LifeStep d d' 1


section Slots

variable [PmConfig] {G G' : GlobalState} {Ls : ℕ → List Piece} {i : ℕ}

/-- The slot a step allocates. -/
def allocatedSlot (G : GlobalState) : Op → Option ℕ
  | .alloc p size alignment flags tag =>
    if (alloc G p size alignment flags tag).1 = .ok then
      some (alloc G p size alignment flags tag).2.1.index
    else none
  | _ => none

/-- How many lives of slot `i` a step begins. -/
def beginsLife (G : GlobalState) (op : Op) (i : ℕ) : ℕ :=
  if allocatedSlot G op = some i then 1 else 0

omit [PmConfig] in
/-- A relocation keeps every life. -/
lemma Relocated.life {l : List ℕ} (h : Relocated G G' l) (i : ℕ) :
    SameLife (G.objects i) (G'.objects i) := by
  by_cases hi : i ∈ l
  · exact ⟨(h.kept i hi).state, (h.kept i hi).generation⟩
  · exact .of_eq (h.other i hi)

/-- An accepted `alloc` begins a life of its slot and touches no other. -/
lemma AllocAccepted.life (h : GlobalInv G Ls) {p size alignment flags need blk tag : ℕ}
    (ha : AllocAccepted G p size alignment flags need blk) (i : ℕ) :
    LifeStep (G.objects i) ((allocCommit (popSlot G) p G.freeSlotHead blk need size
      (allocFlags flags) tag).objects i) (if G.freeSlotHead = i then 1 else 0) := by
  have hobj := allocCommit_objects (popSlot G) p G.freeSlotHead blk need size (allocFlags flags)
    tag (h.head_ne_slot ha.slot ha.active) i
  by_cases hi : i = G.freeSlotHead
  · subst hi
    rw [if_pos rfl] at hobj
    rw [if_pos rfl, hobj]
    exact .begun (h.slots.head_free ha.slot).2 rfl rfl
  · rw [if_neg hi] at hobj
    rw [if_neg (Ne.symm hi), hobj]
    split_ifs
    · exact .same ⟨rfl, rfl⟩
    · exact .same (.refl _)

/-- An accepted `free` ends the life of its slot and touches no other. -/
lemma freeCommit_life (h : GlobalInv G Ls) {idx : ℕ} (hlt : idx < pmMaxObjects)
    (hlive : (G.objects idx).state = .live) (block stop : ℕ) {i : ℕ} (hi : i < pmMaxObjects) :
    (i = idx → ((freeCommit G (G.objects idx).poolId idx block stop).objects i).state = .free)
      ∧ LifeStep (G.objects i)
        ((freeCommit G (G.objects idx).poolId idx block stop).objects i) 0 := by
  obtain ⟨hact, hmem⟩ := h.owner hlt hlive
  obtain ⟨hprev, hnext⟩ := (h.pool _ hact).order.links_ne hmem
  rw [freeCommit_objects G (G.objects idx).poolId idx block stop hprev hnext
    (slot_ne_noOrder hi)]
  by_cases hidx : i = idx
  · subst hidx
    rw [if_pos rfl]
    exact ⟨fun _ => rfl, .ended hlive rfl rfl⟩
  · rw [if_neg hidx]
    exact ⟨fun heq => absurd heq hidx, .same ⟨rfl, rfl⟩⟩

/-- What one operation makes of a slot. -/
theorem step_life (h : GlobalInv G Ls) (op : Op) {i : ℕ} (hi : i < pmMaxObjects) :
    LifeStep (G.objects i) ((step G op).objects i) (beginsLife G op i) := by
  cases op with
  | createPool n =>
      refine .same (.of_eq ?_)
      rw [step]
      rcases createPool_cases h n with ⟨st, -, -, heq⟩ | ⟨k, base, heq, -⟩ <;>
        exact congrArg (fun r => r.2.2.objects i) heq
  | destroyPool id =>
      refine .same (.of_eq ?_)
      rw [step]
      rcases destroyPool_cases h id with ⟨st, -, heq⟩ | ⟨heq, -⟩ <;>
        exact congrArg (fun r => r.2.objects i) heq
  | pause id =>
      refine .same (.of_eq ?_)
      rw [step, pause]
      split
      · rfl
      · split_ifs <;> rfl
  | resume id =>
      refine .same (.of_eq ?_)
      rw [step, resume]
      split
      · rfl
      · split_ifs <;> rfl
  | alloc p size alignment flags tag =>
      rw [step, beginsLife, allocatedSlot]
      rcases alloc_cases G p size alignment flags tag with ⟨st, hst, heq⟩ | ⟨need, blk, ha, heq⟩
      · rw [heq, if_neg hst]
        exact .same (.refl _)
      · rw [heq, if_pos rfl]
        simp only [Option.some.injEq]
        -- the slot that `alloc` takes begins a life, and no other does
        exact ha.life h i
  | free ref ws =>
      show LifeStep (G.objects i) ((free (writingCallback ws) G ref).2.objects i) 0
      rcases free_cases h ref ws with ⟨st, -, -, heq⟩ | ⟨hok, -, heq⟩
      · rw [heq]
        exact .same (.refl _)
      · rw [heq]
        -- the callback writes bytes only, and `free` keeps the generation
        have hinv := afterCallback_inv h ref.index ws
        have hobj : (afterCallback G ref.index ws).objects = G.objects := by
          rw [afterCallback_eq]
        have hlife := (freeCommit_life hinv hok.index (by rw [hobj]; exact hok.live)
          (G.objects ref.index).block (poolEnd G (G.pools (G.objects ref.index).poolId)) hi).2
        rwa [hobj] at hlife
  | setDestroyFn ref fn =>
      refine .same ?_
      rw [step, setDestroyFn]
      split
      · exact .refl _
      · split_ifs
        · exact .refl _
        · rw [GlobalState.setObj_objects, Function.update_apply]
          split_ifs with hir
          · rw [hir]
            exact ⟨rfl, rfl⟩
          · exact .refl _
  | borrowBegin ref n a =>
      refine .same ?_
      rw [step, borrowBegin]
      split
      · exact .refl _
      · show SameLife (G.objects i) (Function.update G.objects ref.index _ i)
        rw [Function.update_apply]
        split_ifs with hir
        · rw [hir]
          exact ⟨rfl, rfl⟩
        · exact .refl _
  | borrowEnd ref =>
      refine .same ?_
      rw [step, borrowEnd]
      split_ifs
      · show SameLife (G.objects i) (Function.update G.objects ref.index _ i)
        rw [Function.update_apply]
        split_ifs with hir
        · rw [hir]
          exact ⟨rfl, rfl⟩
        · exact .refl _
      · exact .refl _
  | compact p req elapsed =>
      refine .same ?_
      rw [step]
      by_cases hyes : Active G p ∧ (G.pools p).borrowCount = 0 ∧ requestOk req = true
      · obtain ⟨met, F, L', heq, -, hc⟩ := compact_ok h hyes.1 hyes.2.1 hyes.2.2 elapsed
        rw [heq]
        -- a relocated object is the same object
        exact hc.relocated.life i
      · obtain ⟨st, F, heq, -, -, rfl | ⟨-, rfl⟩⟩ := compact_refused h hyes elapsed <;>
          rw [heq] <;> exact .refl _
  | merge s t =>
      refine .same ?_
      rw [step]
      by_cases hyes : MergeReady G s t ∧ NoUndersized (Ls s) ∧ NoUndersized (Ls t)
      · obtain ⟨F, L', heq, -, hm⟩ := merge_ok h hyes.1 hyes.2
        rw [heq]
        exact hm.relocated.life i
      · obtain ⟨st, heq, -, -⟩ := merge_refused h hyes
        rw [heq]
        exact .refl _
  | split s n =>
      refine .same ?_
      rw [step]
      rcases splitArm_healthy (s := s) (n := n) h with ⟨nid, hr, -⟩ | ⟨-, st, harm, hst⟩
      · rcases split_ok h hr with ⟨st, heq, -⟩ | ⟨F, plan, L₁, L₂, heq, -, -, hsp⟩
        · rw [heq]
          exact .refl _
        · rw [heq]
          exact hsp.relocated.life i
      · have heq : split G s n = (st, none, G) := by
          rw [split, if_neg (by simp [h.zone.init]), harm]
          rcases hst with rfl | rfl | rfl <;> rfl
        rw [heq]
        exact .refl _
  | write w =>
      refine .same (.of_eq ?_)
      rw [step, clientWrite_eq]

/-! ### Runs -/

/-- How many lives of slot `i` a run begins. -/
def livesBegun (i : ℕ) : GlobalState → List Op → ℕ
  | _, [] => 0
  | G, op :: ops => beginsLife G op i + livesBegun i (step G op) ops

lemma livesBegun_append (G : GlobalState) (ops ops' : List Op) :
    livesBegun i G (ops ++ ops') = livesBegun i G ops + livesBegun i (runOps G ops) ops' := by
  induction ops generalizing G with
  | nil => exact (Nat.zero_add _).symm
  | cons op ops ih =>
      show beginsLife G op i + livesBegun i (step G op) (ops ++ ops') = _
      rw [ih, ← Nat.add_assoc]
      rfl

/-- The slot is `k` allocations behind the life of generation `g`: two bumps for each, and
one more once the last life is over. -/
def InLife (d : ObjectDesc) (g k : ℕ) : Prop :=
  d.state = .live ∧ d.generation = nextGeneration^[2 * k] g
    ∨ d.state = .free ∧ d.generation = nextGeneration^[2 * k + 1] g

omit [PmConfig] in
lemma LifeStep.inLife {d d' : ObjectDesc} {n g k : ℕ} (hs : LifeStep d d' n)
    (h : InLife d g k) : InLife d' g (k + n) := by
  cases hs with
  | same same =>
      cases h with
      | inl h => exact Or.inl ⟨same.state.trans h.1, same.generation.trans h.2⟩
      | inr h => exact Or.inr ⟨same.state.trans h.1, same.generation.trans h.2⟩
  | ended before after generation =>
      cases h with
      | inl h =>
          refine Or.inr ⟨after, ?_⟩
          rw [generation, h.2]
          exact (Function.iterate_succ_apply' nextGeneration (2 * k) g).symm
      | inr h => exact absurd (before.symm.trans h.1) (by decide)
  | begun before after generation =>
      cases h with
      | inl h => exact absurd (h.1.symm.trans before) (by decide)
      | inr h =>
          refine Or.inl ⟨after, ?_⟩
          rw [generation, h.2]
          exact (Function.iterate_succ_apply' nextGeneration (2 * k + 1) g).symm

/-- Along a run a slot stays behind the life it started from. -/
theorem runOps_life (h : Reachable G) (hi : i < pmMaxObjects) {g k : ℕ}
    (hl : InLife (G.objects i) g k) (ops : List Op) :
    InLife ((runOps G ops).objects i) g (k + livesBegun i G ops) := by
  induction ops generalizing G k with
  | nil => exact hl
  | cons op ops ih =>
      obtain ⟨Ls, hinv⟩ := h.healthy
      have hnext := ih (h.step op) ((step_life hinv op hi).inLife hl)
      rwa [Nat.add_assoc] at hnext

/-- A free slot that no step allocates stays free. -/
lemma runOps_free (h : Reachable G) (hi : i < pmMaxObjects) (hfree : (G.objects i).state = .free)
    (ops : List Op) (hnone : livesBegun i G ops = 0) :
    ((runOps G ops).objects i).state = .free := by
  induction ops generalizing G with
  | nil => exact hfree
  | cons op ops ih =>
      obtain ⟨Ls, hinv⟩ := h.healthy
      rw [livesBegun, Nat.add_eq_zero_iff] at hnone
      have hstep := step_life hinv op hi
      rw [hnone.1] at hstep
      refine ih (h.step op) ?_ hnone.2
      cases hstep with
      | same same => exact same.state.trans hfree
      | ended before after generation => exact after

end Slots

end PondMerge
