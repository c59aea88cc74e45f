import PondMerge.Operations.SplitPlan

/-!
When the planning loop of `split` goes through.

* `splitPlan_pinned`, `splitPlan_low`, `splitPlan_up`: one step of the loop, by what stands in it.
* `pushed`: the movable blocks of the upper side in front of its first pinned block, which are the
  only ones that the plan may move to the right.
* `splitPlan_ok_iff`: there is a plan exactly if no pinned block straddles the boundary and the
  pushed blocks fit between the boundary and that block.
-/

namespace PondMerge

open ByteMemory Relocation

variable [PmConfig]

section Steps

variable {G : GlobalState} {boundary stop lowC upC i : ℕ} {l : List ℕ}

/-- The loop finds a plan for the row `l`, from the two cursors on. -/
def Plans (G : GlobalState) (boundary stop : ℕ) (l : List ℕ) (lowC upC : ℕ) : Prop :=
  ∃ r, splitPlan G boundary stop l lowC upC (barriersOf G l) = .ok r

omit [PmConfig] in
/-- A guard of the loop. -/
lemma guard_ok {ε α : Type*} {b : Prop} [Decidable b] {e : ε} {x : Except ε α} :
    (∃ r, (if b then .error e else x) = .ok r) ↔ ¬ b ∧ ∃ r, x = .ok r := by
  split_ifs with h
  · refine iff_of_false ?_ fun hno => hno.1 h
    rintro ⟨r, hr⟩
    cases hr
  · exact (and_iff_right h).symm

omit [PmConfig] in
/-- A step that hands on the error of the rest, and a plan for a plan, does not decide whether
there is one. -/
lemma handed_on_ok {ε α β : Type*} {x : Except ε α} {y : Except ε β}
    (herror : ∀ e, x = .error e → y = .error e) (hok : ∀ a, x = .ok a → ∃ b, y = .ok b) :
    (∃ r, y = .ok r) ↔ ∃ r, x = .ok r := by
  cases x with
  | error e =>
      rw [herror e rfl]
      refine iff_of_false ?_ ?_
      · rintro ⟨r, hr⟩
        cases hr
      · rintro ⟨r, hr⟩
        cases hr
  | ok a => exact iff_of_true (hok a rfl) ⟨a, rfl⟩

omit [PmConfig] in
lemma upper_decide_true (h : Upper G boundary i) :
    decide (boundary ≤ (G.objects i).block
      ∨ boundary < (G.objects i).block + (G.objects i).blockSize) = true := decide_eq_true h

omit [PmConfig] in
lemma upper_decide_false (h : ¬ Upper G boundary i) :
    decide (boundary ≤ (G.objects i).block
      ∨ boundary < (G.objects i).block + (G.objects i).blockSize) = false := decide_eq_false h

omit [PmConfig] in
/-- A pinned block must not straddle the boundary or lie behind the cursor of its side. -/
lemma plans_pinned (hp : (G.objects i).pinned = true) :
    Plans G boundary stop (i :: l) lowC upC ↔
      ¬ ((G.objects i).block < boundary
          ∧ boundary < (G.objects i).block + (G.objects i).blockSize)
        ∧ ¬ (G.objects i).block < (if Upper G boundary i then upC else lowC)
        ∧ if Upper G boundary i then
            Plans G boundary stop l lowC ((G.objects i).block + (G.objects i).blockSize)
          else Plans G boundary stop l ((G.objects i).block + (G.objects i).blockSize) upC := by
  rw [Plans, splitPlan]
  dsimp only
  rw [barriersOf_pinned hp, if_pos hp, List.tail_cons, guard_ok]
  by_cases hu : Upper G boundary i
  · rw [upper_decide_true hu, if_pos rfl, if_pos rfl, if_pos hu, if_pos hu, guard_ok]
    rfl
  · rw [upper_decide_false hu, if_neg Bool.false_ne_true, if_neg Bool.false_ne_true, if_neg hu,
      if_neg hu, guard_ok]
    rfl

omit [PmConfig] in
/-- A movable block of the upper side must fit in front of the next pinned one. -/
lemma plans_up (hp : (G.objects i).pinned = false) (hu : Upper G boundary i) :
    Plans G boundary stop (i :: l) lowC upC ↔
      ¬ (barriersOf G l).headD stop < upC + (G.objects i).blockSize
        ∧ Plans G boundary stop l lowC (upC + (G.objects i).blockSize) := by
  rw [Plans, splitPlan]
  dsimp only
  rw [barriersOf_movable hp, if_neg (by simp [hp]), upper_decide_true hu,
    if_neg (by decide), guard_ok, Plans]
  refine and_congr_right fun _ => handed_on_ok (fun e h => ?_) fun a h => ?_
  · rw [h]
  · rw [h]
    exact ⟨_, rfl⟩

omit [PmConfig] in
/-- A movable block of the lower side must fit in front of the next pinned one and below the
boundary. -/
lemma plans_low (hp : (G.objects i).pinned = false) (hu : ¬ Upper G boundary i) :
    Plans G boundary stop (i :: l) lowC upC ↔
      ¬ (if (barriersOf G l).headD boundary < boundary then (barriersOf G l).headD boundary
          else boundary) < lowC + (G.objects i).blockSize
        ∧ Plans G boundary stop l (lowC + (G.objects i).blockSize) upC := by
  rw [Plans, splitPlan]
  dsimp only
  rw [barriersOf_movable hp, if_neg (by simp [hp]), upper_decide_false hu,
    if_pos (by decide), guard_ok, Plans]
  simp only [decide_eq_true_eq]
  refine and_congr_right fun _ => handed_on_ok (fun e h => ?_) fun a h => ?_
  · rw [h]
  · rw [h]
    exact ⟨_, rfl⟩

end Steps

/-! ### The upper side -/

/-- The blocks of a row in front of its first pinned one. -/
def pushed (obj : ℕ → ObjectDesc) (l : List ℕ) : List ℕ := l.takeWhile fun i => !(obj i).pinned

/-- Their bytes. -/
def pushedBytes (obj : ℕ → ObjectDesc) (l : List ℕ) : ℕ :=
  ((pushed obj l).map fun i => (obj i).blockSize).sum

section Rows

variable {G : GlobalState} {boundary stop e c lowC i : ℕ} {l : List ℕ}

omit [PmConfig] in
lemma pushedBytes_pinned (h : (G.objects i).pinned = true) :
    pushedBytes G.objects (i :: l) = 0 := by
  rw [pushedBytes, pushed, List.takeWhile_cons_of_neg (by simp [h])]
  rfl

omit [PmConfig] in
lemma pushedBytes_movable (h : (G.objects i).pinned = false) :
    pushedBytes G.objects (i :: l) = (G.objects i).blockSize + pushedBytes G.objects l := by
  rw [pushedBytes, pushed, List.takeWhile_cons_of_pos (by simp [h]), List.map_cons, List.sum_cons]
  rfl

omit [PmConfig] in
/-- Behind the boundary, and where the cursor is not ahead of the blocks, nothing is in the
way. -/
lemma plans_lefts (hfit : Fits G.objects stop e l) (hc : c ≤ e) (hb : boundary ≤ e) :
    Plans G boundary stop l lowC c := by
  induction l generalizing c e with
  | nil => exact ⟨_, rfl⟩
  | cons i l ih =>
      obtain ⟨hle, hfit'⟩ := hfit
      have hu : Upper G boundary i := Or.inl (hb.trans hle)
      cases hp : (G.objects i).pinned with
      | true =>
          rw [plans_pinned hp, if_pos hu, if_pos hu]
          exact ⟨by omega, by omega, ih hfit' le_rfl (by omega)⟩
      | false =>
          have hbar := hfit'.le_barrier
          rw [plans_up hp hu]
          exact ⟨by omega, ih hfit' (by omega) (by omega)⟩

omit [PmConfig] in
/-- On the upper side only the blocks in front of the first pinned one may be in the way. -/
lemma plans_upper_iff (hfit : Fits G.objects stop e l) (hc : c ≤ stop)
    (hup : ∀ i ∈ l, Upper G boundary i) :
    Plans G boundary stop l lowC c ↔
      (∀ i ∈ l, (G.objects i).pinned = true → boundary ≤ (G.objects i).block)
        ∧ c + pushedBytes G.objects l ≤ (barriersOf G l).headD stop := by
  induction l generalizing c e with
  | nil => exact iff_of_true ⟨_, rfl⟩ ⟨by simp, hc⟩
  | cons i l ih =>
      obtain ⟨hle, hfit'⟩ := hfit
      have hu := hup i List.mem_cons_self
      have hup' : ∀ j ∈ l, Upper G boundary j := fun j hj => hup j (List.mem_cons_of_mem _ hj)
      rw [List.forall_mem_cons]
      cases hp : (G.objects i).pinned with
      | true =>
          rw [plans_pinned hp, if_pos hu, if_pos hu, pushedBytes_pinned hp, barriersOf_pinned hp,
            List.headD_cons]
          constructor
          · rintro ⟨hcross, hle, -⟩
            have hi : boundary ≤ (G.objects i).block := by
              rw [Upper] at hu
              omega
            refine ⟨⟨fun _ => hi, fun j hj _ => ?_⟩, by omega⟩
            have hj' := (hfit'.bounds hj).1
            omega
          · rintro ⟨⟨hi, -⟩, hroom⟩
            have hi := hi rfl
            exact ⟨by omega, by omega, plans_lefts hfit' le_rfl (by omega)⟩
      | false =>
          have hbar := hfit'.barrier_le
          rw [plans_up hp hu, pushedBytes_movable hp, barriersOf_movable hp]
          constructor
          · rintro ⟨hroom, hrest⟩
            obtain ⟨hpin, hsum⟩ := (ih hfit' (by omega) hup').mp hrest
            exact ⟨⟨fun h => absurd h Bool.false_ne_true, hpin⟩, by omega⟩
          · rintro ⟨⟨-, hpin⟩, hsum⟩
            exact ⟨by omega, (ih hfit' (by omega) hup').mpr ⟨hpin, by omega⟩⟩

omit [PmConfig] in
/-- The plan of `split` exists exactly if no pinned block straddles the boundary and the pushed
blocks fit between the boundary and the first pinned block above it, or the end: the lower side is
never in the way. -/
theorem plans_iff (hfit : Fits G.objects stop e l) (hc : c ≤ e) (hb : boundary ≤ stop) :
    Plans G boundary stop l c boundary ↔
      (∀ i ∈ l.filter (Upper G boundary), (G.objects i).pinned = true →
        boundary ≤ (G.objects i).block)
        ∧ boundary + pushedBytes G.objects (l.filter (Upper G boundary)) ≤
          (barriersOf G (l.filter (Upper G boundary))).headD stop := by
  induction l generalizing c e with
  | nil => exact iff_of_true ⟨_, rfl⟩ ⟨by simp, hb⟩
  | cons i l ih =>
      by_cases hu : Upper G boundary i
      · -- from here on everything belongs to the upper side
        have hup : ∀ j ∈ i :: l, Upper G boundary j := by
          intro j hj
          cases List.mem_cons.mp hj with
          | inl hji => exact hji ▸ hu
          | inr hj =>
              have hj' := (hfit.2.bounds hj).1
              rw [Upper] at hu ⊢
              omega
        rw [List.filter_eq_self.mpr fun j hj => decide_eq_true (hup j hj)]
        exact plans_upper_iff hfit hb hup
      obtain ⟨hle, hfit'⟩ := hfit
      have hlow : (G.objects i).block + (G.objects i).blockSize ≤ boundary := by
        rw [Upper] at hu
        omega
      rw [List.filter_cons_of_neg (by simpa using hu)]
      cases hp : (G.objects i).pinned with
      | true =>
          rw [plans_pinned hp, if_neg hu, if_neg hu]
          rw [← ih hfit' le_rfl]
          exact ⟨fun h => h.2.2, fun h => ⟨by omega, by omega, h⟩⟩
      | false =>
          -- the next barrier lies behind the block, so the block never collides with it
          have hbar : (G.objects i).block + (G.objects i).blockSize ≤
              (barriersOf G l).headD boundary := by
            have hnext := hfit'.le_barrier
            cases hbars : barriersOf G l with
            | nil => exact hlow
            | cons b bars =>
                rw [hbars] at hnext
                exact hnext
          rw [plans_low hp hu, ← ih hfit' (c := c + (G.objects i).blockSize) (by omega)]
          refine ⟨fun h => h.2, fun h => ⟨?_, h⟩⟩
          split_ifs <;> omega

end Rows

end PondMerge
