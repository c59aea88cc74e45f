import PondMerge.Operations.Compact
import PondMerge.Operations.Packing
import PondMerge.Model.MergeSplit

/-!
The plan of `split` and the order in which it is executed.

* `Shifts`: blocks that move away from the front, one behind the other.
* `splitPlan_spec`: an accepted plan packs the lower side, shifts a prefix of the upper side
  right, and packs the rest of it left: the rightward moves form a prefix.
* `splitPlan_entries`: it has an entry for every movable block, at the cursor of its side.
* `SplitShape.safe`: the two-pass order never overwrites a block that has yet to move.
* `SplitShape.fits_low`, `SplitShape.fits_up`: both sides end up as blocks in a row.
-/

namespace PondMerge

open ByteMemory Relocation

variable [PmConfig]

/-! ### Rightward moves -/

/-- The plan shifts all the slots right, each block behind the one before it: from `c` on and
up to `c'`. -/
inductive Shifts (obj : ℕ → ObjectDesc) : ℕ → List ℕ → List MovePlanEntry → ℕ → Prop
  | nil (c : ℕ) : Shifts obj c [] [] c
  | cons {c i c' : ℕ} {l : List ℕ} {plan : List MovePlanEntry} (hc : (obj i).block < c)
      (h : Shifts obj (c + (obj i).blockSize) l plan c') :
      Shifts obj c (i :: l) (⟨i, c, (obj i).blockSize⟩ :: plan) c'

section Shifts

variable {obj : ℕ → ObjectDesc} {c c' : ℕ} {l : List ℕ} {plan : List MovePlanEntry}

omit [PmConfig] in
lemma Shifts.le (h : Shifts obj c l plan c') : c ≤ c' := by
  induction h with
  | nil c => exact le_rfl
  | cons hc h ih => omega

omit [PmConfig] in
lemma Shifts.slots (h : Shifts obj c l plan c') : plan.map (·.slot) = l := by
  induction h with
  | nil c => rfl
  | cons hc h ih => rw [List.map_cons, ih]

omit [PmConfig] in
/-- What an entry says about its block. -/
lemma Shifts.entry (h : Shifts obj c l plan c') {x : MovePlanEntry} (hx : x ∈ plan) :
    c ≤ x.dst ∧ x.dst + x.size ≤ c' ∧ (obj x.slot).block < x.dst
      ∧ x.size = (obj x.slot).blockSize := by
  induction h with
  | nil c => exact absurd hx List.not_mem_nil
  | cons hc h ih =>
      rcases List.mem_cons.mp hx with rfl | hx
      · exact ⟨le_rfl, h.le, hc, rfl⟩
      · have := ih hx
        exact ⟨by omega, this.2⟩

omit [PmConfig] in
/-- Executed from the last to the first, no move overwrites a block that has yet to move. -/
lemma Shifts.safe (h : Shifts obj c l plan c') : Safe ((plan.reverse).map (moveOf obj)) := by
  rw [List.map_reverse, Safe, List.pairwise_reverse]
  induction h with
  | nil c => exact List.Pairwise.nil
  | cons hc h ih =>
      refine List.Pairwise.cons (fun y hy => ?_) ih
      obtain ⟨x, hx, rfl⟩ := List.mem_map.mp hy
      have hdst := (h.entry hx).1
      simp only [moveOf, Apart]
      omega

omit [PmConfig] in
/-- The blocks the shifts leave stand in a row. -/
lemma Shifts.fits {obj' : ℕ → ObjectDesc} (h : Shifts obj c l plan c')
    (hin : ∀ x ∈ plan, (obj' x.slot).block = x.dst)
    (hsize : ∀ i ∈ l, (obj' i).blockSize = (obj i).blockSize) : Fits obj' c' c l := by
  induction h with
  | nil c => exact le_rfl
  | cons hc h ih =>
      have hb := hin _ List.mem_cons_self
      have hs := hsize _ List.mem_cons_self
      dsimp only at hb
      refine ⟨hb.ge, ?_⟩
      rw [hb, hs]
      exact ih (fun x hx => hin x (List.mem_cons_of_mem _ hx))
        fun j hj => hsize j (List.mem_cons_of_mem _ hj)

end Shifts

/-! ### The plan -/

/-- The shape of an accepted plan: `lows` below the boundary are packed left, `rights` above
it are shifted right, and `lefts` behind these are packed left. -/
structure SplitShape (obj : ℕ → ObjectDesc) (start boundary stop : ℕ) (l lows rights lefts : List ℕ)
    (r : SplitPlan) (upR upL : List MovePlanEntry) (c' : ℕ) : Prop where
  slots : l = lows ++ (rights ++ lefts)
  low : ∀ i ∈ lows, (obj i).block + (obj i).blockSize ≤ boundary
  up : ∀ i ∈ rights ++ lefts, boundary < (obj i).block + (obj i).blockSize
  upPlan : r.up = upR ++ upL
  right : r.right = upR.length
  packsLow : Packs obj start lows r.low
  shifts : Shifts obj boundary rights upR c'
  packsUp : Packs obj c' lefts upL
  fitsUp : Fits obj stop c' lefts
  entries : ∀ x ∈ r.low ++ r.up, x.dst % 8 = 0 ∧ (obj x.slot).pinned = false

section Plan

variable {G : GlobalState} {boundary stop e c lowC : ℕ} {l : List ℕ} {r : SplitPlan}

omit [PmConfig] in
lemma Fits.barrier_le (h : Fits G.objects stop e l) :
    (barriersOf G l).headD stop ≤ stop := by
  induction l generalizing e with
  | nil => exact le_rfl
  | cons i l ih =>
      cases hp : (G.objects i).pinned with
      | true =>
          rw [barriersOf_pinned hp]
          have := h.2.le
          exact le_trans (Nat.le_add_right _ _) this
      | false =>
          rw [barriersOf_movable hp]
          exact ih h.2

/-- A slot that `split` counts to the upper side. -/
def Upper (G : GlobalState) (boundary i : ℕ) : Prop :=
  boundary ≤ (G.objects i).block
    ∨ boundary < (G.objects i).block + (G.objects i).blockSize

/-- Where the cursor is not ahead of the blocks, the upper side is packed left and nothing
moves right. -/
lemma splitPlan_lefts (hfit : Fits G.objects stop e l) (hc : c ≤ e) (hmod : c % 8 = 0)
    (hblk : ∀ i ∈ l, BlockOk (G.objects i) i) (hup : ∀ i ∈ l, Upper G boundary i)
    (h : splitPlan G boundary stop l lowC c (barriersOf G l) = .ok r) :
    r.low = [] ∧ r.right = 0 ∧ Packs G.objects c l r.up
      ∧ ∀ x ∈ r.up, x.dst % 8 = 0 ∧ (G.objects x.slot).pinned = false := by
  induction l generalizing c e r with
  | nil =>
      obtain rfl := Except.ok.inj h
      exact ⟨rfl, rfl, .nil c, by simp⟩
  | cons i l ih =>
      obtain ⟨hle, hfit'⟩ := hfit
      obtain ⟨-, -, hsmod, hbmod⟩ := hblk i List.mem_cons_self
      have hblk' : ∀ j ∈ l, BlockOk (G.objects j) j := fun j hj =>
        hblk j (List.mem_cons_of_mem _ hj)
      have hup' : ∀ j ∈ l, Upper G boundary j := fun j hj => hup j (List.mem_cons_of_mem _ hj)
      -- the block lies on the upper side, so the loop takes that branch
      have hupi : decide (boundary ≤ (G.objects i).block
          ∨ boundary < (G.objects i).block + (G.objects i).blockSize) = true :=
        decide_eq_true (hup i List.mem_cons_self)
      rw [splitPlan] at h
      simp only [hupi, Bool.not_true, Bool.false_eq_true, if_false, if_true] at h
      cases hp : (G.objects i).pinned with
      | true =>
          rw [barriersOf_pinned hp, if_pos hp] at h
          obtain ⟨-, h⟩ := of_guard h
          obtain ⟨-, h⟩ := of_guard h
          rw [List.tail_cons] at h
          obtain ⟨hlow, hright, hpack, hdst⟩ := ih hfit' le_rfl (by omega) hblk' hup' h
          exact ⟨hlow, hright, .stay (hc.trans hle) hpack, hdst⟩
      | false =>
          rw [barriersOf_movable hp, if_neg (by simp [hp])] at h
          obtain ⟨-, h⟩ := of_guard h
          cases hr : splitPlan G boundary stop l lowC (c + (G.objects i).blockSize)
              (barriersOf G l) with
          | error err =>
              rw [hr] at h
              cases h
          | ok r' =>
              rw [hr] at h
              obtain rfl := Except.ok.inj h
              obtain ⟨hlow, hright, hpack, hdst⟩ := ih hfit' (c := c + (G.objects i).blockSize)
                (by omega) (by omega) hblk' hup' hr
              refine ⟨hlow, ?_, .move le_rfl (hc.trans hle) hpack, fun x hx => ?_⟩
              · dsimp only
                rw [hright, if_neg (by omega)]
              · rcases List.mem_cons.mp hx with rfl | hx
                · exact ⟨hmod, hp⟩
                · exact hdst x hx

/-- The upper side: a prefix is shifted right, and the rest packed left. -/
lemma splitPlan_upper (hfit : Fits G.objects stop e l) (hc : c ≤ stop) (hmod : c % 8 = 0)
    (hblk : ∀ i ∈ l, BlockOk (G.objects i) i) (hup : ∀ i ∈ l, Upper G boundary i)
    (h : splitPlan G boundary stop l lowC c (barriersOf G l) = .ok r) :
    ∃ rights lefts upR upL c', l = rights ++ lefts ∧ r.low = [] ∧ r.up = upR ++ upL
      ∧ r.right = upR.length ∧ Shifts G.objects c rights upR c' ∧ Packs G.objects c' lefts upL
      ∧ Fits G.objects stop c' lefts
      ∧ ∀ x ∈ r.up, x.dst % 8 = 0 ∧ (G.objects x.slot).pinned = false := by
  induction l generalizing c e r with
  | nil =>
      obtain rfl := Except.ok.inj h
      exact ⟨[], [], [], [], c, rfl, rfl, rfl, rfl, .nil c, .nil c, hc, by simp⟩
  | cons i l ih =>
      by_cases hlt : c ≤ (G.objects i).block
      · -- from the first block that does not move right on, none does
        have hfit₀ : Fits G.objects stop (G.objects i).block (i :: l) := ⟨le_rfl, hfit.2⟩
        obtain ⟨hlow, hright, hpack, hdst⟩ := splitPlan_lefts hfit₀ hlt hmod hblk hup h
        exact ⟨[], i :: l, [], r.up, c, rfl, hlow, rfl, hright, .nil c, hpack,
          hfit₀.mono hlt, hdst⟩
      -- the block lies below the cursor, so it moves right and the rest follows
      have hblk' : ∀ j ∈ l, BlockOk (G.objects j) j := fun j hj =>
        hblk j (List.mem_cons_of_mem _ hj)
      obtain ⟨-, -, hsmod, hbmod⟩ := hblk i List.mem_cons_self
      have hup' : ∀ j ∈ l, Upper G boundary j := fun j hj => hup j (List.mem_cons_of_mem _ hj)
      have hupi : decide (boundary ≤ (G.objects i).block
          ∨ boundary < (G.objects i).block + (G.objects i).blockSize) = true :=
        decide_eq_true (hup i List.mem_cons_self)
      rw [splitPlan] at h
      simp only [hupi, Bool.not_true, Bool.false_eq_true, if_false, if_true] at h
      cases hp : (G.objects i).pinned with
      | true =>
          rw [barriersOf_pinned hp, if_pos hp] at h
          obtain ⟨-, h⟩ := of_guard h
          obtain ⟨hno, -⟩ := of_guard h
          omega
      | false =>
          rw [barriersOf_movable hp, if_neg (by simp [hp])] at h
          obtain ⟨hbar, h⟩ := of_guard h
          cases hr : splitPlan G boundary stop l lowC (c + (G.objects i).blockSize)
              (barriersOf G l) with
          | error err =>
              rw [hr] at h
              cases h
          | ok r' =>
              rw [hr] at h
              obtain rfl := Except.ok.inj h
              have hble := hfit.2.barrier_le
              obtain ⟨rights, lefts, upR, upL, c', rfl, hlow, hup₂, hright, hshift, hpack, hfit₂,
                hdst⟩ := ih hfit.2 (c := c + (G.objects i).blockSize) (by omega) (by omega) hblk'
                  hup' hr
              refine ⟨i :: rights, lefts, ⟨i, c, (G.objects i).blockSize⟩ :: upR, upL, c', rfl,
                hlow, ?_, ?_, .cons (by omega) hshift, hpack, hfit₂, fun x hx => ?_⟩
              · dsimp only
                rw [hup₂]
                rfl
              · dsimp only
                rw [hright, if_pos (by omega), List.length_cons]
              · rcases List.mem_cons.mp hx with rfl | hx
                · exact ⟨hmod, hp⟩
                · exact hdst x hx

/-- An accepted plan has the shape its execution order relies on. -/
theorem splitPlan_spec {upC : ℕ} (hfit : Fits G.objects stop e l) (hc : c ≤ e)
    (hcmod : c % 8 = 0) (hupC : upC = boundary) (hbmod : boundary % 8 = 0)
    (hbs : boundary ≤ stop) (hblk : ∀ i ∈ l, BlockOk (G.objects i) i)
    (h : splitPlan G boundary stop l c upC (barriersOf G l) = .ok r) :
    ∃ lows rights lefts upR upL c',
      SplitShape G.objects c boundary stop l lows rights lefts r upR upL c' := by
  subst hupC
  induction l generalizing c e r with
  | nil =>
      obtain rfl := Except.ok.inj h
      exact ⟨[], [], [], [], [], upC, rfl, by simp, by simp, rfl, rfl, .nil c, .nil upC, .nil upC,
        hbs, by simp⟩
  | cons i l ih =>
      obtain ⟨hlt, hmin, hsmod, hbkmod⟩ := hblk i List.mem_cons_self
      have h16 := PmConfig.minBlock_ge
      by_cases hupi : Upper G upC i
      · -- everything from here on belongs to the upper side
        have hup : ∀ j ∈ i :: l, Upper G upC j := by
          intro j hj
          rcases List.mem_cons.mp hj with rfl | hj
          · exact hupi
          · have := (hfit.2.bounds hj).1
            rw [Upper] at hupi ⊢
            omega
        obtain ⟨rights, lefts, upR, upL, c', hl, hlow, hup₂, hright, hshift, hpack, hfit₂, hdst⟩ :=
          splitPlan_upper hfit hbs hbmod hblk hup h
        refine ⟨[], rights, lefts, upR, upL, c', by rw [hl]; rfl, by simp, fun j hj => ?_, hup₂,
          hright, ?_, hshift, hpack, hfit₂, fun x hx => ?_⟩
        · rw [← hl] at hj
          have hj' := hup j hj
          have hmin' := (hblk j hj).2.1
          rw [Upper] at hj'
          omega
        · rw [hlow]
          exact .nil c
        · rw [hlow] at hx
          exact hdst x hx
      have hupf : decide (upC ≤ (G.objects i).block
          ∨ upC < (G.objects i).block + (G.objects i).blockSize) = false :=
        decide_eq_false hupi
      -- the block ends below the boundary, so it stays on the lower side
      have hlowi : (G.objects i).block + (G.objects i).blockSize ≤ upC := by
        rw [Upper] at hupi
        omega
      obtain ⟨hle, hfit'⟩ := hfit
      have hblk' : ∀ j ∈ l, BlockOk (G.objects j) j := fun j hj =>
        hblk j (List.mem_cons_of_mem _ hj)
      rw [splitPlan] at h
      simp only [hupf, Bool.not_false, Bool.false_eq_true, if_false, if_true] at h
      cases hp : (G.objects i).pinned with
      | true =>
          rw [barriersOf_pinned hp, if_pos hp] at h
          obtain ⟨-, h⟩ := of_guard h
          obtain ⟨-, h⟩ := of_guard h
          rw [List.tail_cons] at h
          obtain ⟨lows, rights, lefts, upR, upL, c', hs⟩ := ih hfit' le_rfl (by omega) hblk' h
          refine ⟨i :: lows, rights, lefts, upR, upL, c', by rw [hs.slots]; rfl, fun j hj => ?_,
            hs.up, hs.upPlan, hs.right, .stay (hc.trans hle) hs.packsLow, hs.shifts, hs.packsUp,
            hs.fitsUp, hs.entries⟩
          rcases List.mem_cons.mp hj with rfl | hj
          · exact hlowi
          · exact hs.low j hj
      | false =>
          rw [barriersOf_movable hp, if_neg (by simp [hp])] at h
          obtain ⟨-, h⟩ := of_guard h
          cases hr : splitPlan G upC stop l (c + (G.objects i).blockSize) upC
              (barriersOf G l) with
          | error err =>
              rw [hr] at h
              cases h
          | ok r' =>
              rw [hr] at h
              obtain rfl := Except.ok.inj h
              obtain ⟨lows, rights, lefts, upR, upL, c', hs⟩ := ih hfit'
                (c := c + (G.objects i).blockSize) (by omega) (by omega) hblk' hr
              refine ⟨i :: lows, rights, lefts, upR, upL, c', by rw [hs.slots]; rfl,
                fun j hj => ?_, hs.up, hs.upPlan, hs.right, .move le_rfl (hc.trans hle) hs.packsLow,
                hs.shifts, hs.packsUp, hs.fitsUp, fun x hx => ?_⟩
              · rcases List.mem_cons.mp hj with rfl | hj
                · exact hlowi
                · exact hs.low j hj
              · rcases List.mem_cons.mp hx with rfl | hx
                · exact ⟨hcmod, hp⟩
                · exact hs.entries x hx

instance (G : GlobalState) (boundary : ℕ) : DecidablePred (Upper G boundary) :=
  fun _ => inferInstanceAs (Decidable (_ ∨ _))

omit [PmConfig] in
/-- An accepted plan has an entry for every movable block, at the cursor of its side. -/
lemma splitPlan_entries {upC : ℕ} {bars : List ℕ}
    (h : splitPlan G boundary stop l lowC upC bars = .ok r) :
    r.low = packMovable G.objects (l.filter fun i => !decide (Upper G boundary i)) lowC
      ∧ r.up = packMovable G.objects (l.filter fun i => decide (Upper G boundary i)) upC := by
  induction l generalizing lowC upC bars r with
  | nil =>
      obtain rfl := Except.ok.inj h
      exact ⟨rfl, rfl⟩
  | cons i l ih =>
      rw [splitPlan] at h
      by_cases hup : Upper G boundary i
      · have hupd : decide (boundary ≤ (G.objects i).block
            ∨ boundary < (G.objects i).block + (G.objects i).blockSize) = true := decide_eq_true hup
        rw [List.filter_cons_of_neg (by simp [hup]), List.filter_cons_of_pos (by simp [hup]),
          packMovable]
        simp only [hupd, Bool.not_true, Bool.false_eq_true, if_false, if_true] at h
        cases hp : (G.objects i).pinned with
        | true =>
            rw [if_pos hp] at h
            obtain ⟨-, h⟩ := of_guard h
            obtain ⟨-, h⟩ := of_guard h
            exact ih h
        | false =>
            rw [if_neg (by simp [hp])] at h
            obtain ⟨-, h⟩ := of_guard h
            cases hr : splitPlan G boundary stop l lowC (upC + (G.objects i).blockSize) bars with
            | error e =>
                rw [hr] at h
                cases h
            | ok r' =>
                rw [hr] at h
                obtain rfl := Except.ok.inj h
                obtain ⟨hlow, hups⟩ := ih hr
                exact ⟨hlow, congrArg _ hups⟩
      · have hupd : decide (boundary ≤ (G.objects i).block
            ∨ boundary < (G.objects i).block + (G.objects i).blockSize) = false :=
          decide_eq_false hup
        rw [List.filter_cons_of_pos (by simp [hup]), List.filter_cons_of_neg (by simp [hup]),
          packMovable]
        simp only [hupd, Bool.not_false, Bool.false_eq_true, if_false, if_true] at h
        cases hp : (G.objects i).pinned with
        | true =>
            rw [if_pos hp] at h
            obtain ⟨-, h⟩ := of_guard h
            obtain ⟨-, h⟩ := of_guard h
            exact ih h
        | false =>
            rw [if_neg (by simp [hp])] at h
            obtain ⟨-, h⟩ := of_guard h
            cases hr : splitPlan G boundary stop l (lowC + (G.objects i).blockSize) upC bars with
            | error e =>
                rw [hr] at h
                cases h
            | ok r' =>
                rw [hr] at h
                obtain rfl := Except.ok.inj h
                obtain ⟨hlow, hups⟩ := ih hr
                exact ⟨congrArg _ hlow, hups⟩

end Plan

/-! ### The execution order -/

omit [PmConfig] in
/-- A filter that separates two halves. -/
lemma filter_halves {p : ℕ → Bool} {lows ups : List ℕ} (hl : ∀ i ∈ lows, p i = false)
    (hu : ∀ i ∈ ups, p i = true) :
    (lows ++ ups).filter p = ups ∧ (lows ++ ups).filter (fun i => !p i) = lows := by
  rw [List.filter_append, List.filter_append]
  refine ⟨?_, ?_⟩
  · rw [List.filter_eq_nil_iff.mpr fun i hi => by rw [hl i hi]; simp,
      List.filter_eq_self.mpr hu, List.nil_append]
  · rw [List.filter_eq_self.mpr fun i hi => by rw [hl i hi]; rfl,
      List.filter_eq_nil_iff.mpr fun i hi => by rw [hu i hi]; simp, List.append_nil]

section Shape

variable {obj obj' : ℕ → ObjectDesc} {start boundary stop e c' : ℕ}
  {l lows rights lefts : List ℕ} {r : SplitPlan} {upR upL : List MovePlanEntry}

omit [PmConfig] in
lemma SplitShape.moves (h : SplitShape obj start boundary stop l lows rights lefts r upR upL c') :
    r.moves = upR.reverse ++ upL ++ r.low := by
  rw [SplitPlan.moves, h.upPlan, h.right, List.take_left, List.drop_left]

omit [PmConfig] in
/-- The planner tells the two sides of the plan apart. -/
lemma SplitShape.filter_upper {G : GlobalState}
    (h : SplitShape G.objects start boundary stop l lows rights lefts r upR upL c')
    (hsize : ∀ i ∈ l, 16 ≤ (G.objects i).blockSize) :
    (l.filter fun i => decide (Upper G boundary i)) = rights ++ lefts
      ∧ (l.filter fun i => !decide (Upper G boundary i)) = lows := by
  have hl := h.slots
  rw [hl]
  refine filter_halves (fun i hi => decide_eq_false ?_) fun i hi =>
    decide_eq_true (Or.inr (h.up i hi))
  have hlow := h.low i hi
  have hmin := hsize i (hl ▸ List.mem_append_left _ hi)
  rw [Upper]
  omega

omit [PmConfig] in
/-- The two-pass order never overwrites a block that has yet to move. -/
theorem SplitShape.safe (h : SplitShape obj start boundary stop l lows rights lefts r upR upL c')
    (hfit : Fits obj stop e l) : Safe (r.moves.map (moveOf obj)) := by
  rw [h.slots] at hfit
  obtain ⟨e₁, hlow, -⟩ := fits_append.mp hfit
  have hc := h.shifts.le
  rw [h.moves, List.map_append, List.map_append, Safe, List.pairwise_append,
    List.pairwise_append]
  refine ⟨⟨h.shifts.safe, h.packsUp.safe h.fitsUp, fun y hy z hz => ?_⟩,
    h.packsLow.safe hlow, fun y hy z hz => ?_⟩
  · -- what has been shifted right lies below every block that is still to be packed
    obtain ⟨x, hx, rfl⟩ := List.mem_map.mp hy
    obtain ⟨w, hw, rfl⟩ := List.mem_map.mp hz
    have hx' := h.shifts.entry (List.mem_reverse.mp hx)
    have hw' := h.packsUp.entry hw
    simp only [moveOf, Apart]
    omega
  · -- the lower side lies below the boundary, before and after
    obtain ⟨w, hw, rfl⟩ := List.mem_map.mp hz
    have hw' := h.packsLow.entry hw
    have hwlow := h.low _ (h.packsLow.sublist.subset (List.mem_map_of_mem hw))
    have hdst : boundary ≤ y.dst := by
      rcases List.mem_append.mp hy with hy | hy
      · obtain ⟨x, hx, rfl⟩ := List.mem_map.mp hy
        exact (h.shifts.entry (List.mem_reverse.mp hx)).1
      · obtain ⟨x, hx, rfl⟩ := List.mem_map.mp hy
        exact hc.trans (h.packsUp.entry hx).1
    simp only [moveOf, Apart]
    omega

omit [PmConfig] in
/-- The slots that move. -/
lemma SplitShape.mem_moves
    (h : SplitShape obj start boundary stop l lows rights lefts r upR upL c')
    {x : MovePlanEntry} : x ∈ r.moves ↔ x ∈ upR ∨ x ∈ upL ∨ x ∈ r.low := by
  rw [h.moves, List.mem_append, List.mem_append, List.mem_reverse, or_assoc]

omit [PmConfig] in
lemma SplitShape.slots_nodup
    (h : SplitShape obj start boundary stop l lows rights lefts r upR upL c') (hnd : l.Nodup) :
    (r.moves.map (·.slot)).Nodup := by
  have hperm : (r.moves.map (·.slot)).Perm
      (r.low.map (·.slot) ++ (upR.map (·.slot) ++ upL.map (·.slot))) := by
    rw [h.moves, List.map_append, List.map_append, List.map_reverse]
    refine List.perm_append_comm.trans (List.Perm.append_left _ ?_)
    exact List.Perm.append_right _ (List.reverse_perm _)
  rw [hperm.nodup_iff, h.shifts.slots]
  rw [h.slots] at hnd
  exact (h.packsLow.sublist.append ((List.Sublist.refl rights).append h.packsUp.sublist)).nodup hnd

omit [PmConfig] in
/-- What an entry says about its block. -/
lemma SplitShape.entry (h : SplitShape obj start boundary stop l lows rights lefts r upR upL c')
    {x : MovePlanEntry} (hx : x ∈ r.moves) :
    x.slot ∈ l ∧ x.size = (obj x.slot).blockSize ∧ x.dst % 8 = 0
      ∧ (obj x.slot).pinned = false := by
  rw [h.mem_moves] at hx
  have hent := h.entries x
  rw [List.mem_append, h.upPlan, List.mem_append] at hent
  rw [h.slots, List.mem_append, List.mem_append]
  rcases hx with hx | hx | hx
  · refine ⟨Or.inr (Or.inl ?_), (h.shifts.entry hx).2.2.2, hent (Or.inr (Or.inl hx))⟩
    rw [← h.shifts.slots]
    exact List.mem_map_of_mem hx
  · exact ⟨Or.inr (Or.inr (h.packsUp.sublist.subset (List.mem_map_of_mem hx))),
      (h.packsUp.entry hx).2.2, hent (Or.inr (Or.inr hx))⟩
  · exact ⟨Or.inl (h.packsLow.sublist.subset (List.mem_map_of_mem hx)),
      (h.packsLow.entry hx).2.2, hent (Or.inl hx)⟩

omit [PmConfig] in
/-- Blocks in a row that all end below a bound stand in a row up to it. -/
lemma Fits.restrict {b : ℕ} (h : Fits obj stop e l) (he : e ≤ b)
    (hb : ∀ i ∈ l, (obj i).block + (obj i).blockSize ≤ b) : Fits obj b e l := by
  induction l generalizing e with
  | nil => exact he
  | cons i l ih =>
      exact ⟨h.1, ih h.2 (hb i List.mem_cons_self) fun j hj => hb j (List.mem_cons_of_mem _ hj)⟩

omit [PmConfig] in
/-- After the moves both sides are blocks in a row, below and above the boundary. -/
theorem SplitShape.fits
    (h : SplitShape obj start boundary stop l lows rights lefts r upR upL c') (hnd : l.Nodup)
    (hfit : Fits obj stop start l) (hsb : start ≤ boundary)
    (hin : ∀ x ∈ r.moves, (obj' x.slot).block = x.dst)
    (hout : ∀ i ∈ l, i ∉ r.moves.map (·.slot) → (obj' i).block = (obj i).block)
    (hsize : ∀ i ∈ l, (obj' i).blockSize = (obj i).blockSize) :
    Fits obj' boundary start lows ∧ Fits obj' stop boundary (rights ++ lefts) := by
  rw [h.slots] at hnd hfit
  obtain ⟨hndl, hndu, hdisj⟩ := List.nodup_append.mp hnd
  obtain ⟨hndr, hndf, hdisj'⟩ := List.nodup_append.mp hndu
  obtain ⟨e₁, hlow, -⟩ := fits_append.mp hfit
  have hmem : ∀ x, x ∈ r.moves ↔ x ∈ upR ∨ x ∈ upL ∨ x ∈ r.low := fun x => h.mem_moves
  -- a slot is moved by exactly one of the three parts of the plan
  have hslots : ∀ i, i ∈ r.moves.map (·.slot) ↔
      i ∈ rights ∨ i ∈ upL.map (·.slot) ∨ i ∈ r.low.map (·.slot) := by
    intro i
    rw [← h.shifts.slots]
    simp only [List.mem_map, hmem]
    constructor
    · rintro ⟨x, hx | hx | hx, rfl⟩
      · exact Or.inl ⟨x, hx, rfl⟩
      · exact Or.inr (Or.inl ⟨x, hx, rfl⟩)
      · exact Or.inr (Or.inr ⟨x, hx, rfl⟩)
    · rintro (⟨x, hx, rfl⟩ | ⟨x, hx, rfl⟩ | ⟨x, hx, rfl⟩)
      · exact ⟨x, Or.inl hx, rfl⟩
      · exact ⟨x, Or.inr (Or.inl hx), rfl⟩
      · exact ⟨x, Or.inr (Or.inr hx), rfl⟩
  have hl : ∀ i, i ∈ l ↔ i ∈ lows ∨ i ∈ rights ∨ i ∈ lefts := by
    intro i
    rw [h.slots, List.mem_append, List.mem_append]
  refine ⟨?_, fits_append.mpr ⟨c', ?_, ?_⟩⟩
  · refine h.packsLow.fits hndl (hlow.restrict hsb h.low) le_rfl
      (fun x hx => hin x ((hmem x).mpr (Or.inr (Or.inr hx)))) (fun i hi hno => ?_)
      fun i hi => hsize i ((hl i).mpr (Or.inl hi))
    refine hout i ((hl i).mpr (Or.inl hi)) fun hm => ?_
    rcases (hslots i).mp hm with hm | hm | hm
    · exact hdisj i hi i (List.mem_append_left _ hm) rfl
    · exact hdisj i hi i (List.mem_append_right _ (h.packsUp.sublist.subset hm)) rfl
    · exact hno hm
  · exact h.shifts.fits (fun x hx => hin x ((hmem x).mpr (Or.inl hx)))
      fun i hi => hsize i ((hl i).mpr (Or.inr (Or.inl hi)))
  · refine h.packsUp.fits hndf h.fitsUp le_rfl
      (fun x hx => hin x ((hmem x).mpr (Or.inr (Or.inl hx)))) (fun i hi hno => ?_)
      fun i hi => hsize i ((hl i).mpr (Or.inr (Or.inr hi)))
    refine hout i ((hl i).mpr (Or.inr (Or.inr hi))) fun hm => ?_
    rcases (hslots i).mp hm with hm | hm | hm
    · exact hdisj' i hm i hi rfl
    · exact hno hm
    · exact hdisj i (h.packsLow.sublist.subset hm) i (List.mem_append_right _ hi) rfl

end Shape

end PondMerge
