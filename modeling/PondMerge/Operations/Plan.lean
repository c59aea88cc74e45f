import PondMerge.Operations.Moves

/-!
The planning loop of `compact_impl` on blocks in a row.

* `planRow`, `compactPlan_eq`: what is left of the loop where no block is in another's way.
* `packMoves`, `packedEnd`: the moves of a full compaction and where the packed blocks end.
* `planRow_packs`, `planRow_initial`: every plan packs its row, and is a prefix of the full one.
* `planRow_met`, `planRow_unmet`: where the target check stops a plan.
* `HasRun.of_placed`: what the check has seen is there once the plan has been executed.
-/

namespace PondMerge

open ByteMemory Relocation

variable [PmConfig]

/-! ### Free runs of a row -/

/-- The free bytes in front of every block of a row, and behind the last one. -/
def gaps (obj : ℕ → ObjectDesc) (stop : ℕ) : ℕ → List ℕ → List ℕ
  | e, [] => [stop - e]
  | e, i :: l =>
    ((obj i).block - e) :: gaps obj stop ((obj i).block + (obj i).blockSize) l

/-- A contiguous free run of at least `n` bytes between the blocks of a row. -/
def HasRun (obj : ℕ → ObjectDesc) (stop c : ℕ) (l : List ℕ) (n : ℕ) : Prop :=
  ∃ g ∈ gaps obj stop c l, n ≤ g

instance (obj : ℕ → ObjectDesc) (stop c : ℕ) (l : List ℕ) (n : ℕ) :
    Decidable (HasRun obj stop c l n) :=
  inferInstanceAs (Decidable (∃ g ∈ gaps obj stop c l, n ≤ g))

section Runs

variable {G : GlobalState} {obj : ℕ → ObjectDesc} {stop c n i : ℕ} {l : List ℕ}

omit [PmConfig] in
lemma hasRun_cons : HasRun obj stop c (i :: l) n ↔
    n ≤ (obj i).block - c ∨ HasRun obj stop ((obj i).block + (obj i).blockSize) l n := by
  simp [HasRun, gaps]

omit [PmConfig] in
lemma gaps_congr {obj' : ℕ → ObjectDesc} (h : ∀ i ∈ l, (obj' i).block = (obj i).block
    ∧ (obj' i).blockSize = (obj i).blockSize) : gaps obj' stop c l = gaps obj stop c l := by
  induction l generalizing c with
  | nil => rfl
  | cons i l ih =>
      obtain ⟨hb, hs⟩ := h i List.mem_cons_self
      rw [gaps, gaps, hb, hs, ih fun j hj => h j (List.mem_cons_of_mem _ hj)]

/-- A gap of a row that holds a block is a free block of the packed layout. -/
lemma free_mem_packed (hn : pmMinBlock ≤ n) :
    .free n ∈ packed obj stop c l ↔ n ∈ gaps obj stop c l := by
  have hgap : ∀ g, .free n ∈ gapPieces g ↔ n = g := by
    intro g
    rw [gapPieces]
    split_ifs with h₁ h₂
    · simp
    · simp only [List.mem_singleton, reduceCtorEq, false_iff]
      omega
    · simp only [List.not_mem_nil, false_iff]
      omega
  induction l generalizing c with
  | nil => simp [packed, gaps, hgap]
  | cons i l ih => simp [packed, gaps, hgap, ih]

omit [PmConfig] in
/-- The suffix maximum of a slot is the largest gap behind its block. -/
lemma suffixMaxHole_cons (G : GlobalState) (stop i : ℕ) (l : List ℕ) :
    ∃ h, suffixMaxHole G stop (i :: l) = h :: suffixMaxHole G stop l
      ∧ ∀ n, n ≤ h ↔
        HasRun G.objects stop ((G.objects i).block + (G.objects i).blockSize) l n := by
  induction l generalizing i with
  | nil => exact ⟨_, rfl, fun n => by simp [HasRun, gaps]⟩
  | cons j l ih =>
      obtain ⟨h, heq, hrun⟩ := ih j
      refine ⟨_, rfl, fun n => ?_⟩
      rw [heq, List.headD_cons, hasRun_cons, ← hrun]
      omega

end Runs

/-! ### The loop without obstacles -/

section Loop

variable (obj : ℕ → ObjectDesc) (stop need b o : ℕ)

/-- The planning loop on blocks in a row: a plan ends at a movable object in front of which,
or behind which, a run of `need` bytes is free, or which the budget does not cover. -/
def planRow : List ℕ → ℕ → ℕ → ℕ → List MovePlanEntry × Bool
  | [], _, _, _ => ([], false)
  | i :: l, c, movedB, movedO =>
    let d := obj i
    if d.pinned then planRow l (d.block + d.blockSize) movedB movedO
    else if need ≠ 0 ∧ HasRun obj stop c (i :: l) need then ([], true)
    else if overBudget b (movedB + d.blockSize) ∨ overBudget o (movedO + 1) then ([], false)
    else if d.block = c then planRow l (c + d.blockSize) movedB movedO
    else
      let r := planRow l (c + d.blockSize) (movedB + d.blockSize) (movedO + 1)
      (⟨i, c, d.blockSize⟩ :: r.1, r.2)

/-- The moves of a full compaction of a row. -/
def packMoves : List ℕ → ℕ → List MovePlanEntry
  | [], _ => []
  | i :: l, c =>
    let d := obj i
    if d.pinned then packMoves l (d.block + d.blockSize)
    else if d.block = c then packMoves l (c + d.blockSize)
    else ⟨i, c, d.blockSize⟩ :: packMoves l (c + d.blockSize)

/-- Where the blocks of a row end once they are packed. -/
def packedEnd : ℕ → List ℕ → ℕ
  | c, [] => c
  | c, i :: l =>
    let d := obj i
    packedEnd (if d.pinned then d.block + d.blockSize else c + d.blockSize) l

end Loop

section Plan

variable {G : GlobalState} {obj : ℕ → ObjectDesc} {stop e c need b o : ℕ} {l : List ℕ}

omit [PmConfig] in
lemma barriersOf_pinned {i : ℕ} (h : (G.objects i).pinned = true) (l : List ℕ) :
    barriersOf G (i :: l) = (G.objects i).block :: barriersOf G l := by
  simp [barriersOf, h]

omit [PmConfig] in
lemma barriersOf_movable {i : ℕ} (h : (G.objects i).pinned = false) (l : List ℕ) :
    barriersOf G (i :: l) = barriersOf G l := by
  simp [barriersOf, h]

omit [PmConfig] in
/-- The next barrier, or the end, lies behind what has been passed. -/
lemma Fits.le_barrier (h : Fits G.objects stop e l) : e ≤ (barriersOf G l).headD stop := by
  induction l generalizing e with
  | nil => exact h
  | cons i l ih =>
      cases hp : (G.objects i).pinned with
      | true =>
          rw [barriersOf_pinned hp]
          exact h.1
      | false =>
          rw [barriersOf_movable hp]
          have := ih h.2
          have := h.1
          omega

omit [PmConfig] in
/-- The planning loop never refuses blocks in a row: the cursor never passes the start of the
next block, so nothing is in its way. -/
theorem compactPlan_eq (req : Option CompactionRequest) (hfit : Fits G.objects stop e l)
    (hc : c ≤ e) (movedB movedO : ℕ) :
    compactPlan G req stop (l.zip (suffixMaxHole G stop l)) c (barriersOf G l) movedB movedO =
      .ok (planRow G.objects stop (targetNeed req) (req.elim 0 (·.maxMoveBytes))
        (req.elim 0 (·.maxMoveObjects)) l c movedB movedO) := by
  induction l generalizing c e movedB movedO with
  | nil => rfl
  | cons i l ih =>
      obtain ⟨hole, heq, hrun⟩ := suffixMaxHole_cons G stop i l
      obtain ⟨hle, hfit'⟩ := hfit
      rw [heq, List.zip_cons_cons, compactPlan, planRow]
      cases hp : (G.objects i).pinned with
      | true =>
          rw [if_pos rfl, if_pos rfl, if_neg (by omega), barriersOf_pinned hp, List.tail_cons]
          exact ih hfit' le_rfl movedB movedO
      | false =>
          have hbar := hfit'.le_barrier
          have hcheck : targetNeed req ≤ max ((G.objects i).block - c) hole ↔
              HasRun G.objects stop c (i :: l) (targetNeed req) := by
            rw [hasRun_cons, ← hrun]
            omega
          rw [barriersOf_movable hp, if_neg Bool.false_ne_true, if_neg Bool.false_ne_true,
            if_neg (by omega : ¬ (barriersOf G l).headD stop < c + (G.objects i).blockSize)]
          simp only [hcheck]
          split_ifs
          · rfl
          · rfl
          · exact ih hfit' (by omega) movedB movedO
          · rw [ih hfit' (by omega)]

omit [PmConfig] in
lemma planRow_full (movedB movedO : ℕ) :
    planRow obj stop 0 0 0 l c movedB movedO = (packMoves obj l c, false) := by
  induction l generalizing c movedB movedO with
  | nil => rfl
  | cons i l ih =>
      rw [planRow, packMoves]
      simp only [ih, overBudget]
      split_ifs <;> simp_all

omit [PmConfig] in
/-- Every plan is a prefix of the full one. -/
lemma planRow_initial (movedB movedO : ℕ) :
    (planRow obj stop need b o l c movedB movedO).1 <+: packMoves obj l c := by
  induction l generalizing c movedB movedO with
  | nil => exact List.prefix_rfl
  | cons i l ih =>
      rw [planRow, packMoves]
      dsimp only
      split_ifs
      all_goals first
        | exact ih _ _
        | exact List.nil_prefix
        | exact List.cons_prefix_cons.mpr ⟨rfl, ih _ _⟩

omit [PmConfig] in
lemma packMoves_entry {x : MovePlanEntry} (hx : x ∈ packMoves obj l c) :
    x.slot ∈ l ∧ x.size = (obj x.slot).blockSize
      ∧ (obj x.slot).pinned = false := by
  induction l generalizing c with
  | nil => cases hx
  | cons i l ih =>
      rw [packMoves] at hx
      split_ifs at hx with hp hb
      · exact ⟨List.mem_cons_of_mem _ (ih hx).1, (ih hx).2⟩
      · exact ⟨List.mem_cons_of_mem _ (ih hx).1, (ih hx).2⟩
      · cases List.mem_cons.mp hx with
        | inl heq => exact heq ▸ ⟨List.mem_cons_self, rfl, by simpa using hp⟩
        | inr hx => exact ⟨List.mem_cons_of_mem _ (ih hx).1, (ih hx).2⟩

/-- Every plan packs its row. -/
theorem planRow_packs (hfit : Fits obj stop e l) (hc : c ≤ e) (hmod : c % 8 = 0)
    (hblk : ∀ i ∈ l, BlockOk (obj i) i) (movedB movedO : ℕ) :
    Packs obj c l (planRow obj stop need b o l c movedB movedO).1
      ∧ ∀ x ∈ (planRow obj stop need b o l c movedB movedO).1, x.dst % 8 = 0 := by
  induction l generalizing c e movedB movedO with
  | nil => exact ⟨.nil c, by simp [planRow]⟩
  | cons i l ih =>
      obtain ⟨hle, hfit'⟩ := id hfit
      obtain ⟨-, -, hsmod, hbmod⟩ := hblk i List.mem_cons_self
      have hblk' : ∀ j ∈ l, BlockOk (obj j) j :=
        fun j hj => hblk j (List.mem_cons_of_mem _ hj)
      have hrest := Packs.rest hfit hc
      rw [planRow]
      dsimp only
      split_ifs with hp h₁ h₂ h₃
      · obtain ⟨hpack, hdst⟩ := ih hfit' le_rfl (by omega) hblk' movedB movedO
        exact ⟨.stay (hc.trans hle) hpack, hdst⟩
      · exact ⟨hrest, by simp⟩
      · exact ⟨hrest, by simp⟩
      · obtain ⟨hpack, hdst⟩ := ih hfit' (c := c + (obj i).blockSize) (by omega) (by omega)
          hblk' movedB movedO
        refine ⟨.stay (hc.trans hle) ?_, hdst⟩
        rw [h₃]
        exact hpack
      · obtain ⟨hpack, hdst⟩ := ih hfit' (c := c + (obj i).blockSize) (by omega) (by omega)
          hblk' (movedB + (obj i).blockSize) (movedO + 1)
        refine ⟨.move le_rfl (hc.trans hle) hpack, fun x hx => ?_⟩
        cases List.mem_cons.mp hx with
        | inl heq => exact heq ▸ hmod
        | inr hx => exact hdst x hx

/-! ### The target check -/

omit [PmConfig] in
/-- A plan that met its target was stopped at a movable object, all objects below it packed. -/
lemma planRow_met {movedB movedO : ℕ}
    (h : (planRow obj stop need b o l c movedB movedO).2 = true) :
    ∃ l₁ i l₂, l = l₁ ++ i :: l₂ ∧ (obj i).pinned = false
      ∧ (planRow obj stop need b o l c movedB movedO).1 = packMoves obj l₁ c
      ∧ HasRun obj stop (packedEnd obj c l₁) (i :: l₂) need := by
  induction l generalizing c movedB movedO with
  | nil => cases h
  | cons i l ih =>
      rw [planRow] at h ⊢
      dsimp only at h ⊢
      split_ifs at h ⊢ with hp h₁ h₂ h₃
      · obtain ⟨l₁, j, l₂, rfl, hj, hplan, hrun⟩ := ih h
        exact ⟨i :: l₁, j, l₂, rfl, hj, by rw [hplan, packMoves, if_pos hp],
          by rw [packedEnd, if_pos hp]; exact hrun⟩
      · exact ⟨[], i, l, rfl, by simpa using hp, rfl, h₁.2⟩
      · obtain ⟨l₁, j, l₂, rfl, hj, hplan, hrun⟩ := ih h
        exact ⟨i :: l₁, j, l₂, rfl, hj, by rw [hplan, packMoves, if_neg hp, if_pos h₃],
          by rw [packedEnd, if_neg hp]; exact hrun⟩
      · obtain ⟨l₁, j, l₂, rfl, hj, hplan, hrun⟩ := ih h
        exact ⟨i :: l₁, j, l₂, rfl, hj, by rw [hplan, packMoves, if_neg hp, if_neg h₃],
          by rw [packedEnd, if_neg hp]; exact hrun⟩

omit [PmConfig] in
/-- Without a budget, a plan that has not met its target is the full one. -/
lemma planRow_unmet {movedB movedO : ℕ}
    (h : (planRow obj stop need 0 0 l c movedB movedO).2 = false) :
    (planRow obj stop need 0 0 l c movedB movedO).1 = packMoves obj l c := by
  induction l generalizing c movedB movedO with
  | nil => rfl
  | cons i l ih =>
      rw [planRow] at h ⊢
      simp only [overBudget, ne_eq, not_true_eq_false, false_and, decide_false, Bool.false_eq_true,
        or_self, if_false] at h ⊢
      rw [packMoves]
      split_ifs at h ⊢ with hp h₁ h₃
      · exact ih h
      · exact ih h
      · rw [ih h]

omit [PmConfig] in
/-- A movable object that shows a run ends the plan, if it has not ended before. -/
lemma planRow_seen {l₁ l₂ : List ℕ} {i movedB movedO : ℕ} (hneed : need ≠ 0)
    (hi : (obj i).pinned = false)
    (hrun : HasRun obj stop (packedEnd obj c l₁) (i :: l₂) need) :
    (planRow obj stop need b o (l₁ ++ i :: l₂) c movedB movedO).1.length ≤
      (packMoves obj l₁ c).length := by
  induction l₁ generalizing c movedB movedO with
  | nil =>
      rw [packedEnd] at hrun
      rw [List.nil_append, planRow]
      simp [hi, hneed, hrun]
  | cons j l₁ ih =>
      rw [packedEnd] at hrun
      rw [List.cons_append, planRow, packMoves]
      dsimp only at hrun ⊢
      split_ifs at hrun ⊢
      · exact ih hrun
      · exact Nat.zero_le _
      · exact Nat.zero_le _
      · exact Nat.zero_le _
      · exact Nat.zero_le _
      · exact ih hrun
      · exact Nat.succ_le_succ (ih hrun)

/-- Descriptors whose blocks a plan has moved. -/
structure Placed (obj obj' : ℕ → ObjectDesc) (l : List ℕ) (plan : List MovePlanEntry) : Prop where
  moved : ∀ x ∈ plan, (obj' x.slot).block = x.dst
  stayed : ∀ i ∈ l, i ∉ plan.map (·.slot) → (obj' i).block = (obj i).block
  size : ∀ i ∈ l, (obj' i).blockSize = (obj i).blockSize

omit [PmConfig] in
/-- The run a movable object shows to the planner is there once the objects below have been
packed. -/
lemma HasRun.of_placed {obj' : ℕ → ObjectDesc} {l₁ l₂ : List ℕ} (hnd : (l₁ ++ l₂).Nodup)
    (h : HasRun obj stop (packedEnd obj c l₁) l₂ need)
    (hp : Placed obj obj' (l₁ ++ l₂) (packMoves obj l₁ c)) :
    HasRun obj' stop c (l₁ ++ l₂) need := by
  induction l₁ generalizing c with
  | nil =>
      rw [List.nil_append] at hp ⊢
      rw [HasRun, gaps_congr fun i hi => ⟨hp.stayed i hi (by simp [packMoves]), hp.size i hi⟩]
      exact h
  | cons i l₁ ih =>
      obtain ⟨hi, hnd'⟩ := List.nodup_cons.mp hnd
      have hnot : ∀ c, i ∉ (packMoves obj l₁ c).map (·.slot) := by
        intro c hm
        obtain ⟨x, hx, rfl⟩ := List.mem_map.mp hm
        exact hi (List.mem_append_left _ (packMoves_entry hx).1)
      -- the block of `i` ends where the rest of the row goes on
      have hstep : ∃ c', packedEnd obj c (i :: l₁) = packedEnd obj c' l₁
          ∧ (obj' i).block + (obj' i).blockSize = c'
          ∧ (packMoves obj (i :: l₁) c = packMoves obj l₁ c'
            ∨ packMoves obj (i :: l₁) c = ⟨i, c, (obj i).blockSize⟩ :: packMoves obj l₁ c') := by
        have hsize := hp.size i List.mem_cons_self
        have hstay := hp.stayed i List.mem_cons_self
        have hmove := hp.moved ⟨i, c, (obj i).blockSize⟩
        rw [packMoves] at hstay hmove
        rw [packedEnd, packMoves]
        split_ifs at hstay hmove ⊢ with hpin hb
        · exact ⟨_, rfl, by rw [hstay (hnot _), hsize], Or.inl rfl⟩
        · exact ⟨_, rfl, by rw [hstay (hnot _), hsize, hb], Or.inl rfl⟩
        · exact ⟨_, rfl, by rw [hmove List.mem_cons_self, hsize], Or.inr rfl⟩
      obtain ⟨c', hend, hblock, hmoves⟩ := hstep
      rw [hend] at h
      rw [List.cons_append, hasRun_cons, hblock]
      refine Or.inr (ih hnd' h ⟨fun x hx => hp.moved x ?_, fun j hj hjm => ?_,
        fun j hj => hp.size j (List.mem_cons_of_mem _ hj)⟩)
      · cases hmoves with
        | inl heq => exact heq ▸ hx
        | inr heq => exact heq ▸ List.mem_cons_of_mem _ hx
      · refine hp.stayed j (List.mem_cons_of_mem _ hj) fun hm => hjm ?_
        cases hmoves with
        | inl heq => exact heq ▸ hm
        | inr heq =>
            rw [heq, List.map_cons] at hm
            cases List.mem_cons.mp hm with
            | inl hji =>
                obtain rfl : j = i := hji
                exact absurd hj hi
            | inr hm => exact hm

/-! ### The budget -/

/-- The block bytes of a plan. -/
def moveBytes (plan : List MovePlanEntry) : ℕ := (plan.map (·.size)).sum

/-- A plan that keeps a budget of which `movedB` bytes and `movedO` objects are spent; `0` is
no limit. -/
def WithinFrom (b o movedB movedO : ℕ) (plan : List MovePlanEntry) : Prop :=
  (b = 0 ∨ movedB + moveBytes plan ≤ b) ∧ (o = 0 ∨ movedO + plan.length ≤ o)

omit [PmConfig] in
@[simp] lemma moveBytes_cons (x : MovePlanEntry) (plan : List MovePlanEntry) :
    moveBytes (x :: plan) = x.size + moveBytes plan := by
  simp [moveBytes]

omit [PmConfig] in
lemma withinFrom_cons {movedB movedO : ℕ} {x : MovePlanEntry} {plan : List MovePlanEntry} :
    WithinFrom b o movedB movedO (x :: plan) ↔
      WithinFrom b o (movedB + x.size) (movedO + 1) plan := by
  rw [WithinFrom, WithinFrom, moveBytes_cons, List.length_cons, Nat.add_assoc, Nat.add_assoc,
    Nat.add_comm 1]

omit [PmConfig] in
/-- The budget test of the planning loop, in front of an object of `n` bytes. -/
lemma overBudget_iff {movedB movedO n : ℕ} :
    (overBudget b (movedB + n) ∨ overBudget o (movedO + 1)) ↔
      ¬ ((b = 0 ∨ movedB + n ≤ b) ∧ (o = 0 ∨ movedO + 1 ≤ o)) := by
  simp only [overBudget, decide_eq_true_eq]
  omega

omit [PmConfig] in
lemma WithinFrom.first {movedB movedO : ℕ} {x : MovePlanEntry} {plan : List MovePlanEntry}
    (h : WithinFrom b o movedB movedO (x :: plan)) :
    (b = 0 ∨ movedB + x.size ≤ b) ∧ (o = 0 ∨ movedO + 1 ≤ o) := by
  rw [withinFrom_cons, WithinFrom] at h
  omega

omit [PmConfig] in
/-- A plan keeps its budget. -/
lemma planRow_within {movedB movedO : ℕ} (h : WithinFrom b o movedB movedO []) :
    WithinFrom b o movedB movedO (planRow obj stop need b o l c movedB movedO).1 := by
  induction l generalizing c movedB movedO with
  | nil => exact h
  | cons i l ih =>
      rw [planRow]
      dsimp only
      split_ifs with hp hm hover
      · exact ih h
      · exact h
      · exact h
      · exact ih h
      · rw [overBudget_iff, not_not] at hover
        rw [withinFrom_cons]
        exact ih (by simpa [WithinFrom, moveBytes] using hover)

/-- No object a full compaction leaves in place is too large for what the budget has left in
front of it, while the next move is not. -/
def StaysCovered (obj : ℕ → ObjectDesc) (b o : ℕ) (l : List ℕ) (c movedB movedO : ℕ) : Prop :=
  ∀ l₁ i l₂, l = l₁ ++ i :: l₂ → (obj i).pinned = false →
    (obj i).block = packedEnd obj c l₁ →
    (packMoves obj l₁ c).length < (packMoves obj l c).length →
    WithinFrom b o movedB movedO ((packMoves obj l c).take ((packMoves obj l₁ c).length + 1)) →
    b = 0 ∨ movedB + moveBytes (packMoves obj l₁ c) + (obj i).blockSize ≤ b

section Step

variable {i movedB movedO : ℕ}

omit [PmConfig] in
lemma staysCovered_pinned (hp : (obj i).pinned = true) :
    StaysCovered obj b o (i :: l) c movedB movedO ↔
      StaysCovered obj b o l ((obj i).block + (obj i).blockSize) movedB movedO := by
  constructor
  · intro h l₁ j l₂ hl hj
    have hsplit := h (i :: l₁) j l₂ (by rw [hl]; rfl) hj
    rwa [packedEnd, packMoves, packMoves, if_pos hp, if_pos hp, if_pos hp] at hsplit
  · intro h l₁ j l₂ hl hj
    cases l₁ with
    | nil =>
        obtain ⟨rfl, -⟩ := List.cons.inj hl
        rw [hp] at hj
        cases hj
    | cons k l₁ =>
        obtain ⟨rfl, hrest⟩ := List.cons.inj hl
        rw [packedEnd, packMoves, packMoves, if_pos hp, if_pos hp, if_pos hp]
        exact h l₁ j l₂ hrest hj

omit [PmConfig] in
lemma staysCovered_stay (hp : (obj i).pinned = false) (hb : (obj i).block = c) :
    StaysCovered obj b o (i :: l) c movedB movedO ↔
      (0 < (packMoves obj l (c + (obj i).blockSize)).length →
        WithinFrom b o movedB movedO ((packMoves obj l (c + (obj i).blockSize)).take 1) →
        b = 0 ∨ movedB + (obj i).blockSize ≤ b)
      ∧ StaysCovered obj b o l (c + (obj i).blockSize) movedB movedO := by
  have hM : ∀ l, packMoves obj (i :: l) c = packMoves obj l (c + (obj i).blockSize) := fun l => by
    rw [packMoves, if_neg (by simp [hp]), if_pos hb]
  have hE : ∀ l, packedEnd obj c (i :: l) = packedEnd obj (c + (obj i).blockSize) l := fun l => by
    rw [packedEnd, if_neg (by simp [hp])]
  constructor
  · intro h
    refine ⟨fun hpos hin => ?_, fun l₁ j l₂ hl hj => ?_⟩
    · have hhead := h [] i l rfl hp hb
      rw [hM] at hhead
      exact hhead hpos hin
    · have hsplit := h (i :: l₁) j l₂ (by rw [hl]; rfl) hj
      rwa [hE, hM, hM] at hsplit
  · rintro ⟨hhead, htail⟩ l₁ j l₂ hl hj
    cases l₁ with
    | nil =>
        obtain ⟨rfl, rfl⟩ := List.cons.inj hl
        rw [hM]
        exact fun _ => hhead
    | cons k l₁ =>
        obtain ⟨rfl, hrest⟩ := List.cons.inj hl
        rw [hE, hM, hM]
        exact htail l₁ j l₂ hrest hj

omit [PmConfig] in
lemma staysCovered_move (hp : (obj i).pinned = false) (hb : (obj i).block ≠ c) :
    StaysCovered obj b o (i :: l) c movedB movedO ↔
      StaysCovered obj b o l (c + (obj i).blockSize) (movedB + (obj i).blockSize)
        (movedO + 1) := by
  have hM : ∀ l, packMoves obj (i :: l) c =
      ⟨i, c, (obj i).blockSize⟩ :: packMoves obj l (c + (obj i).blockSize) := fun l => by
    rw [packMoves, if_neg (by simp [hp]), if_neg hb]
  have hE : ∀ l, packedEnd obj c (i :: l) = packedEnd obj (c + (obj i).blockSize) l := fun l => by
    rw [packedEnd, if_neg (by simp [hp])]
  constructor
  · intro h l₁ j l₂ hl hj
    have hsplit := h (i :: l₁) j l₂ (by rw [hl]; rfl) hj
    rw [hE, hM, hM, List.length_cons, List.length_cons, List.take_succ_cons, withinFrom_cons,
      moveBytes_cons, ← Nat.add_assoc, Nat.succ_lt_succ_iff] at hsplit
    exact hsplit
  · intro h l₁ j l₂ hl hj
    cases l₁ with
    | nil =>
        obtain ⟨rfl, -⟩ := List.cons.inj hl
        exact fun hblock => absurd hblock hb
    | cons k l₁ =>
        obtain ⟨rfl, hrest⟩ := List.cons.inj hl
        rw [hE, hM, hM, List.length_cons, List.length_cons, List.take_succ_cons, withinFrom_cons,
          moveBytes_cons, ← Nat.add_assoc, Nat.succ_lt_succ_iff]
        exact h l₁ j l₂ hrest hj

end Step

omit [PmConfig] in
/-- A budgeted plan is the longest affordable prefix of the full one exactly where no object
that stays in place ends it early. -/
theorem planRow_longest_iff {movedB movedO : ℕ} :
    (∀ T, T <+: packMoves obj l c → WithinFrom b o movedB movedO T →
      T.length ≤ (planRow obj stop 0 b o l c movedB movedO).1.length)
      ↔ StaysCovered obj b o l c movedB movedO := by
  induction l generalizing c movedB movedO with
  | nil =>
      refine ⟨fun _ l₁ i l₂ hl => ?_, fun _ T hT _ => hT.length_le⟩
      simp at hl
  | cons i l ih =>
      -- without a target nothing stops the plan early
      have hcheck : ¬ ((0 : ℕ) ≠ 0 ∧ HasRun obj stop c (i :: l) 0) := fun h => h.1 rfl
      cases hp : (obj i).pinned with
      | true =>
          rw [staysCovered_pinned hp, ← ih, packMoves, planRow]
          simp only [hp, if_true]
      | false =>
          rw [planRow]
          dsimp only
          rw [if_neg (by simp [hp]), if_neg hcheck]
          by_cases hb : (obj i).block = c
          · have hM : packMoves obj (i :: l) c = packMoves obj l (c + (obj i).blockSize) := by
              rw [packMoves, if_neg (by simp [hp]), if_pos hb]
            rw [staysCovered_stay hp hb, ← ih, hM, if_pos hb]
            split_ifs with hover
            · -- the object ends the plan although it would not move
              rw [overBudget_iff] at hover
              generalize packMoves obj l (c + (obj i).blockSize) = M at *
              constructor
              · intro h
                have hnil : ∀ T, T <+: M → WithinFrom b o movedB movedO T → T = [] :=
                  fun T hT hin => List.length_eq_zero_iff.mp (Nat.le_zero.mp (h T hT hin))
                refine ⟨fun hpos hin => ?_, fun T hT hin => ?_⟩
                · have hone := hnil _ (List.take_prefix 1 M) hin
                  cases M with
                  | nil => simp at hpos
                  | cons x M => cases hone
                · rw [hnil T hT hin]
                  exact Nat.zero_le _
              · rintro ⟨hhead, -⟩ T hT hin
                cases T with
                | nil => exact Nat.le_refl _
                | cons x T =>
                    obtain ⟨M, rfl⟩ := hT
                    have hfirst := hin.first
                    refine absurd ⟨hhead (by simp) ?_, hfirst.2⟩ hover
                    rw [List.cons_append, List.take_succ_cons, List.take_zero, withinFrom_cons]
                    simpa [WithinFrom, moveBytes] using hfirst
            · rw [overBudget_iff, not_not] at hover
              exact ⟨fun h => ⟨fun _ _ => hover.1, h⟩, fun h => h.2⟩
          · have hM : packMoves obj (i :: l) c =
                ⟨i, c, (obj i).blockSize⟩ :: packMoves obj l (c + (obj i).blockSize) := by
              rw [packMoves, if_neg (by simp [hp]), if_neg hb]
            rw [staysCovered_move hp hb, hM, if_neg hb]
            split_ifs with hover
            · rw [overBudget_iff] at hover
              have hnone : ∀ T, ¬ WithinFrom b o (movedB + (obj i).blockSize) (movedO + 1) T :=
                fun T hin => hover (WithinFrom.first (x := ⟨i, c, (obj i).blockSize⟩)
                  (withinFrom_cons.mpr hin))
              refine ⟨fun _ _ _ _ _ _ _ _ hin => absurd hin (hnone _), fun _ T hT hin => ?_⟩
              cases T with
              | nil => exact Nat.le_refl _
              | cons x T =>
                  obtain ⟨rfl, -⟩ := List.cons_prefix_cons.mp hT
                  exact absurd (withinFrom_cons.mp hin) (hnone T)
            · rw [← ih]
              constructor
              · intro h T hT hin
                exact Nat.le_of_succ_le_succ (h (_ :: T) (List.cons_prefix_cons.mpr ⟨rfl, hT⟩)
                  (withinFrom_cons.mpr hin))
              · intro h T hT hin
                cases T with
                | nil => exact Nat.zero_le _
                | cons x T =>
                    obtain ⟨rfl, hrest⟩ := List.cons_prefix_cons.mp hT
                    exact Nat.succ_le_succ (h T hrest (withinFrom_cons.mp hin))

end Plan

end PondMerge
