import PondMerge.Operations.BinsAudit

/-!
The coverage sweep of `validate`, over blocks that start at different places.

* `sweep_eq_merged`: the sweep is one pass over the merged, ascending list of blocks.
* `sweepMerged_layout`: it accepts the blocks of a layout and totals the slack.
* `layoutOf`, `blocksOf_layoutOf`: what it accepts is a layout, with slack in the gaps.
-/

namespace PondMerge

open Tiling

variable [PmConfig]

/-- A block of the sweep with the slot that owns it; a free block has none. -/
abbrev Tagged := Option ℕ × Extent

def livePart (T : List Tagged) : List Extent := T.filterMap fun t => t.1.map fun _ => t.2

def freePart (T : List Tagged) : List Extent :=
  T.filterMap fun t => if t.1.isNone then some t.2 else none

/-- Blocks in ascending order, no two at one place. -/
abbrev Ascending (T : List Tagged) : Prop := T.Pairwise fun t u => t.2.1 < u.2.1

/-- The sweep as one pass over all blocks. -/
def sweepMerged : List Tagged → ℕ → Bool → ℕ → Option (ℕ × ℕ)
  | [], e, _, slack => some (e, slack)
  | t :: T, e, prevFree, slack =>
    if t.2.1 < e ∨ pmMinBlock ≤ t.2.1 - e then none
    else if t.1.isNone ∧ prevFree ∧ t.2.1 - e = 0 then none
    else sweepMerged T (max e t.2.2) t.1.isNone (slack + (t.2.1 - e))

section Parts

variable {T : List Tagged} {s : ℕ} {x : Extent}

omit [PmConfig] in
@[simp] lemma livePart_some : livePart ((some s, x) :: T) = x :: livePart T := rfl

omit [PmConfig] in
@[simp] lemma livePart_none : livePart ((none, x) :: T) = livePart T := rfl

omit [PmConfig] in
@[simp] lemma freePart_some : freePart ((some s, x) :: T) = freePart T := rfl

omit [PmConfig] in
@[simp] lemma freePart_none : freePart ((none, x) :: T) = x :: freePart T := rfl

omit [PmConfig] in
lemma mem_livePart : x ∈ livePart T ↔ ∃ s, (some s, x) ∈ T := by
  rw [livePart, List.mem_filterMap]
  constructor
  · rintro ⟨⟨k, y⟩, hm, hk⟩
    cases k with
    | none => cases hk
    | some s => exact ⟨s, Option.some.inj hk ▸ hm⟩
  · rintro ⟨s, hm⟩
    exact ⟨_, hm, rfl⟩

omit [PmConfig] in
lemma mem_freePart : x ∈ freePart T ↔ (none, x) ∈ T := by
  rw [freePart, List.mem_filterMap]
  constructor
  · rintro ⟨⟨k, y⟩, hm, hk⟩
    cases k with
    | none => exact Option.some.inj hk ▸ hm
    | some s => cases hk
  · intro hm
    exact ⟨_, hm, rfl⟩

omit [PmConfig] in
/-- The parts of what lies above `s` lie above `s`. -/
lemma parts_above (h : ∀ t ∈ T, s < t.2.1) :
    (∀ y ∈ livePart T, s < y.1) ∧ ∀ y ∈ freePart T, s < y.1 := by
  refine ⟨fun y hy => ?_, fun y hy => h _ (mem_freePart.mp hy)⟩
  obtain ⟨k, hk⟩ := mem_livePart.mp hy
  exact h _ hk

end Parts

/-! ### The sweep in one pass -/

omit [PmConfig] in
lemma takeGroup_above {s : ℕ} {l : List Extent} (h : ∀ y ∈ l, s < y.1) :
    takeGroup s l = ([], l) := by
  cases l with
  | nil => rfl
  | cons y l =>
      have hy := h y List.mem_cons_self
      have hne : ¬ y.1 = s := by omega
      simp [takeGroup, hne]

omit [PmConfig] in
lemma takeGroup_self {x : Extent} {l : List Extent} (h : ∀ y ∈ l, x.1 < y.1) :
    takeGroup x.1 (x :: l) = ([x], l) := by
  have hrest := takeGroup_above h
  rw [takeGroup, Prod.mk.injEq] at hrest
  simp [takeGroup, hrest.1, hrest.2]

/-- One pass of the sweep takes the block at the head of the merged list. -/
theorem sweep_eq_merged {T : List Tagged} (hT : Ascending T) {fuel e slack : ℕ} {pf : Bool}
    (hfuel : T.length < fuel) :
    sweep fuel (livePart T) (freePart T) e pf slack = sweepMerged T e pf slack := by
  induction T generalizing fuel e slack pf with
  | nil =>
      obtain ⟨fuel, rfl⟩ : ∃ k, fuel = k + 1 := ⟨fuel - 1, by omega⟩
      rfl
  | cons t T ih =>
      obtain ⟨fuel, rfl⟩ : ∃ k, fuel = k + 1 := ⟨fuel - 1, by omega⟩
      rw [List.length_cons, Nat.add_lt_add_iff_right] at hfuel
      obtain ⟨hfirst, hT⟩ := List.pairwise_cons.mp hT
      obtain ⟨hl, hf⟩ := parts_above hfirst
      have hrest : ∀ {e slack : ℕ} {pf : Bool},
          sweep fuel (livePart T) (freePart T) e pf slack = sweepMerged T e pf slack :=
        ih hT hfuel
      obtain ⟨k, x⟩ := t
      dsimp only at hl hf
      cases k with
      | some s =>
          -- the group of the sweep is this one block, as no other starts there
          have hmin : groupStart (x :: livePart T) (freePart T) = x.1 := by
            cases hfp : freePart T with
            | nil => rfl
            | cons y l =>
                exact min_eq_left (hf y (hfp ▸ List.mem_cons_self)).le
          rw [livePart_some, freePart_some, sweep, if_neg (by simp), sweepMerged]
          dsimp only
          rw [hmin, takeGroup_self hl, takeGroup_above hf]
          simp only [List.length_nil, List.length_singleton, groupEnd, List.foldl_nil,
            List.foldl_cons, Option.isNone_some, Bool.false_eq_true, false_and, if_false,
            Nat.not_lt_zero, show ¬ 1 ≤ 0 by omega, Nat.add_zero, Nat.mul_one, decide_false, hrest]
      | none =>
          have hmin : groupStart (livePart T) (x :: freePart T) = x.1 := by
            cases hlp : livePart T with
            | nil => rfl
            | cons y l =>
                exact min_eq_right (hl y (hlp ▸ List.mem_cons_self)).le
          rw [livePart_none, freePart_none, sweep, if_neg (by simp), sweepMerged]
          dsimp only
          rw [hmin, takeGroup_self hf, takeGroup_above hl]
          simp only [List.length_nil, List.length_singleton, groupEnd, List.foldl_nil,
            List.foldl_cons, Option.isNone_none, le_refl, true_and, lt_irrefl, if_false,
            Nat.zero_add, Nat.mul_one, decide_true, hrest]

/-! ### The blocks of a layout -/

/-- The blocks of a layout laid from `a` on. -/
def blocksOf : ℕ → List Piece → List Tagged
  | _, [] => []
  | a, .live s n :: L => (some s, a, a + n) :: blocksOf (a + n) L
  | a, .free n :: L => (none, a, a + n) :: blocksOf (a + n) L
  | a, .slack n :: L => blocksOf (a + n) L

/-- The sweep accepts the blocks of a layout; `e` is where the last block before it ended. -/
lemma sweepMerged_layout {M : List Piece} {a e slack : ℕ} {pf : Bool} (hok : ∀ t ∈ M, t.Ok)
    (hmeet : M.IsChain Piece.MayMeet) (hgap : e ≤ a ∧ a < e + pmMinBlock)
    (hslack : e < a → ∀ n, M.head? ≠ some (.slack n))
    (hfree : pf = true → e = a → ∀ n, M.head? ≠ some (.free n)) :
    ∃ e' slack', sweepMerged (blocksOf a M) e pf slack = some (e', slack')
      ∧ e' ≤ a + total Piece.len M ∧ a + total Piece.len M < e' + pmMinBlock
      ∧ slack' + (a + total Piece.len M - e') = slack + (a - e) + lostOf M := by
  induction M generalizing a e slack pf with
  | nil => exact ⟨e, slack, rfl, by simpa using hgap.1, by simpa using hgap.2, by simp⟩
  | cons t M ih =>
      obtain ⟨hhead, hmeet'⟩ := List.isChain_cons.mp hmeet
      have htok := hok t List.mem_cons_self
      have hmin := PmConfig.minBlock_ge
      have hrest := @fun a e slack pf =>
        @ih a e slack pf (fun t ht => hok t (List.mem_cons_of_mem _ ht)) hmeet'
      -- two slack pieces do not touch, and neither do two free ones
      have hslack' : ∀ {n}, t = .slack n → ∀ k, M.head? ≠ some (.slack k) := by
        rintro n rfl k hk
        exact hhead _ hk
      have hfree' : ∀ {n}, t = .free n → ∀ k, M.head? ≠ some (.free k) := by
        rintro n rfl k hk
        exact hhead _ hk
      simp only [total_cons, lostOf_cons]
      cases t with
      | slack n =>
          have hea : e = a := by
            by_contra hne
            exact hslack (by omega) n rfl
          obtain ⟨hn0, hnm, -⟩ := htok
          obtain ⟨e', sl', heq, h1, h2, h3⟩ := hrest (a + n) e
            _ _ (by omega) (fun _ => hslack' rfl) (fun _ h => by omega)
          refine ⟨e', sl', heq, ?_, ?_, ?_⟩ <;> simp only [Piece.len, Piece.lost] <;> omega
      | live s n =>
          obtain ⟨e', sl', heq, h1, h2, h3⟩ := hrest (a + n) (a + n)
            _ false (by omega) (fun h => by omega) (by simp)
          refine ⟨e', sl', ?_, ?_, ?_, ?_⟩
          · rw [blocksOf, sweepMerged]
            dsimp only
            rw [if_neg (by omega), if_neg (by simp), max_eq_right (by omega)]
            exact heq
          all_goals simp only [Piece.len, Piece.lost]; omega
      | free n =>
          obtain ⟨e', sl', heq, h1, h2, h3⟩ := hrest (a + n) (a + n) _ _
            (by omega) (fun h => by omega)
            (fun _ _ => hfree' rfl)
          refine ⟨e', sl', ?_, ?_, ?_, ?_⟩
          · rw [blocksOf, sweepMerged]
            dsimp only
            rw [if_neg (by omega), if_neg, max_eq_right (by omega)]
            · exact heq
            · rintro ⟨-, hpf, h0⟩
              exact hfree hpf (by omega) n rfl
          all_goals simp only [Piece.len, Piece.lost]; omega

omit [PmConfig] in
lemma blocksOf_above {a : ℕ} {M : List Piece} : ∀ t ∈ blocksOf a M, a ≤ t.2.1 := by
  induction M generalizing a with
  | nil => simp [blocksOf]
  | cons t M ih =>
      intro u hu
      cases t with
      | slack n => exact le_trans (Nat.le_add_right _ _) (ih u hu)
      | live s n =>
          rcases List.mem_cons.mp hu with rfl | hu
          · exact le_rfl
          · exact le_trans (Nat.le_add_right _ _) (ih u hu)
      | free n =>
          rcases List.mem_cons.mp hu with rfl | hu
          · exact le_rfl
          · exact le_trans (Nat.le_add_right _ _) (ih u hu)

lemma blocksOf_ascending {a : ℕ} {M : List Piece} (hok : ∀ t ∈ M, t.Ok) :
    Ascending (blocksOf a M) := by
  induction M generalizing a with
  | nil => exact List.Pairwise.nil
  | cons t M ih =>
      have hlen := (hok t List.mem_cons_self).len_ge
      have hrest := ih (a := a + t.len) fun t ht => hok t (List.mem_cons_of_mem _ ht)
      have habove := blocksOf_above (a := a + t.len) (M := M)
      cases t with
      | slack n => exact hrest
      | live s n =>
          refine List.pairwise_cons.mpr ⟨fun u hu => ?_, hrest⟩
          have := habove u hu
          simp only [Piece.len] at *
          omega
      | free n =>
          refine List.pairwise_cons.mpr ⟨fun u hu => ?_, hrest⟩
          have := habove u hu
          simp only [Piece.len] at *
          omega

omit [PmConfig] in
lemma blocksOf_length {a : ℕ} {M : List Piece} :
    (blocksOf a M).length =
      (livePart (blocksOf a M)).length + (freePart (blocksOf a M)).length := by
  induction M generalizing a with
  | nil => rfl
  | cons t M ih =>
      cases t with
      | slack n => exact ih
      | live s n =>
          simp only [blocksOf, livePart_some, freePart_some, List.length_cons, ih (a := a + n)]
          omega
      | free n =>
          simp only [blocksOf, livePart_none, freePart_none, List.length_cons, ih (a := a + n)]
          omega

section Extents

variable {G : GlobalState} {a : ℕ} {M : List Piece}

omit [PmConfig] in
/-- The live blocks of the sweep are those of the layout. -/
lemma livePart_blocksOf {p : ℕ}
    (hd : ∀ {x s n}, LiveAt (G.zone + a) M x s n → DescOk (G.objects s) p x n) :
    (liveSlots M).map (liveExtent G) = livePart (blocksOf a M) := by
  induction M generalizing a with
  | nil => rfl
  | cons t M ih =>
      have hrest := ih (a := a + t.len) fun hx => hd (List.mem_cons_of_mem _ (by
        rwa [LiveAt, ← Nat.add_assoc] at hx))
      cases t with
      | slack n => exact hrest
      | free n => exact hrest
      | live s n =>
          have hdesc := hd (x := G.zone + a) (s := s) (n := n) List.mem_cons_self
          have hext : liveExtent G s = (a, a + n) := by
            rw [liveExtent, hdesc.address, hdesc.block]
            have : G.zone + a + 8 - G.zone - 8 = a := by omega
            rw [this]
          rw [liveSlots_live, List.map_cons, hext, blocksOf, livePart_some]
          exact congrArg _ hrest

omit [PmConfig] in
/-- The free blocks of the sweep are those of the layout. -/
lemma freePart_blocksOf
    (hf : ∀ {x n}, FreeAt (G.zone + a) M x n →
      ptrOf G.zone (offOf G.zone x) = x ∧ blkSizeOf G.mem x = n) :
    ((freeSpots (G.zone + a) M).map fun u => offOf G.zone u.1).map (freeExtent G) =
      freePart (blocksOf a M) := by
  induction M generalizing a with
  | nil => rfl
  | cons t M ih =>
      have hrest := ih (a := a + t.len) fun hx => hf (List.mem_cons_of_mem _ (by
        rwa [FreeAt, ← Nat.add_assoc] at hx))
      rw [← Nat.add_assoc] at hrest
      cases t with
      | slack n => exact hrest
      | live s n => exact hrest
      | free n =>
          obtain ⟨hptr, hsize⟩ := hf (x := G.zone + a) (n := n) List.mem_cons_self
          have hext : freeExtent G (offOf G.zone (G.zone + a)) = (a, a + n) := by
            have hoff : offOf G.zone (G.zone + a) = a := by
              rw [ptrOf] at hptr
              omega
            rw [freeExtent, hptr, hsize, hoff]
          rw [freeSpots_free, List.map_cons, List.map_cons, hext, blocksOf, freePart_none]
          exact congrArg _ hrest

end Extents

/-! ### The layout of swept blocks -/

/-- Slack of `g` bytes, if any. -/
def slackPieces (g : ℕ) : List Piece := if g = 0 then [] else [.slack g]

/-- The piece of a block of `n` bytes. -/
def blockPiece : Option ℕ → ℕ → Piece
  | some s, n => .live s n
  | none, n => .free n

/-- The layout of a window from `e` to `stop` with the given blocks and slack between them. -/
def layoutOf (stop : ℕ) : ℕ → List Tagged → List Piece
  | e, [] => slackPieces (stop - e)
  | e, t :: T =>
    slackPieces (t.2.1 - e) ++ blockPiece t.1 (t.2.2 - t.2.1) :: layoutOf stop t.2.2 T

section Layout

variable {stop e : ℕ} {T : List Tagged}

omit [PmConfig] in
@[simp] lemma blockPiece_len (k : Option ℕ) (n : ℕ) : (blockPiece k n).len = n := by
  cases k <;> rfl

omit [PmConfig] in
@[simp] lemma blockPiece_lost (k : Option ℕ) (n : ℕ) : (blockPiece k n).lost = 0 := by
  cases k <;> rfl

omit [PmConfig] in
lemma total_slackPieces (g : ℕ) : total Piece.len (slackPieces g) = g := by
  rw [slackPieces]
  split_ifs with h
  · exact h.symm
  · rfl

omit [PmConfig] in
lemma lostOf_slackPieces (g : ℕ) : lostOf (slackPieces g) = g := by
  rw [slackPieces]
  split_ifs with h
  · exact h.symm
  · rfl

omit [PmConfig] in
lemma mem_slackPieces {g : ℕ} {t : Piece} (h : t ∈ slackPieces g) : t = .slack g ∧ 0 < g := by
  rw [slackPieces] at h
  split_ifs at h with h0
  · cases h
  · exact ⟨List.mem_singleton.mp h, by omega⟩

omit [PmConfig] in
lemma blocksOf_slackPieces (a g : ℕ) (M : List Piece) :
    blocksOf a (slackPieces g ++ M) = blocksOf (a + g) M := by
  rw [slackPieces]
  split_ifs with h
  · rw [h]
    rfl
  · rfl

omit [PmConfig] in
lemma blocksOf_blockPiece (a : ℕ) (k : Option ℕ) (n : ℕ) (M : List Piece) :
    blocksOf a (blockPiece k n :: M) = (k, a, a + n) :: blocksOf (a + n) M := by
  cases k <;> rfl

omit [PmConfig] in
/-- The slots of a layout are those of its blocks. -/
lemma liveSlots_layoutOf : liveSlots (layoutOf stop e T) = T.filterMap Prod.fst := by
  have hslack : ∀ g M, liveSlots (slackPieces g ++ M) = liveSlots M := by
    intro g M
    rw [slackPieces]
    split_ifs <;> rfl
  induction T generalizing e with
  | nil =>
      have := hslack (stop - e) []
      rwa [List.append_nil] at this
  | cons t T ih =>
      rw [layoutOf, hslack]
      obtain ⟨k, x⟩ := t
      cases k with
      | none => exact ih
      | some s => exact congrArg (s :: ·) ih

/-- What a sweep that ends in the window at `e'` says about the layout of its blocks. -/
theorem sweepMerged_sound (hpos : ∀ t ∈ T, t.2.1 < t.2.2) {pf : Bool} {slack e' slack' : ℕ}
    (h : sweepMerged T e pf slack = some (e', slack')) (hstop : e' ≤ stop)
    (htail : stop - e' < pmMinBlock) :
    e ≤ e' ∧ e + total Piece.len (layoutOf stop e T) = stop
      ∧ slack + lostOf (layoutOf stop e T) = slack' + (stop - e')
      ∧ blocksOf e (layoutOf stop e T) = T
      ∧ (layoutOf stop e T).IsChain Piece.MayMeet
      ∧ (pf = true → ∀ n, (layoutOf stop e T).head? ≠ some (.free n))
      ∧ ∀ n, .slack n ∈ layoutOf stop e T → 0 < n ∧ n < pmMinBlock := by
  induction T generalizing e pf slack with
  | nil =>
      obtain ⟨rfl, rfl⟩ := Prod.mk.inj (Option.some.inj h)
      refine ⟨le_rfl, ?_, ?_, ?_, ?_, fun _ n hn => ?_, fun n hn => ?_⟩
      · rw [layoutOf, total_slackPieces]
        omega
      · rw [layoutOf, lostOf_slackPieces]
      · rw [layoutOf, ← List.append_nil (slackPieces _), blocksOf_slackPieces]
        rfl
      · rw [layoutOf, slackPieces]
        split_ifs
        · exact List.isChain_nil
        · exact List.isChain_singleton _
      · have := mem_slackPieces (List.mem_of_mem_head? hn)
        cases this.1
      · obtain ⟨heq, h0⟩ := mem_slackPieces hn
        cases heq
        exact ⟨h0, htail⟩
  | cons t T ih =>
      -- the sweep stops at a gap that could hold a block, and at two free blocks that touch
      obtain ⟨k, x⟩ := t
      have hx := hpos _ List.mem_cons_self
      rw [sweepMerged] at h
      dsimp only at h hx
      by_cases hgap : x.1 < e ∨ pmMinBlock ≤ x.1 - e
      · rw [if_pos hgap] at h
        cases h
      rw [if_neg hgap] at h
      by_cases htouch : k.isNone = true ∧ pf = true ∧ x.1 - e = 0
      · rw [if_pos htouch] at h
        cases h
      rw [if_neg htouch, max_eq_right (by omega)] at h
      obtain ⟨hle, htotal, hlost, hblocks, hchain, hhead, hslack⟩ :=
        ih (fun t ht => hpos t (List.mem_cons_of_mem _ ht)) h
      -- behind a free block the rest starts with something else
      have hmeet : (blockPiece k (x.2 - x.1) :: layoutOf stop x.2 T).IsChain Piece.MayMeet := by
        refine List.isChain_cons.mpr ⟨fun u hu => ?_, hchain⟩
        cases k with
        | some s => cases u <;> trivial
        | none =>
            cases u with
            | free n => exact absurd hu (hhead rfl n)
            | live s n => trivial
            | slack n => trivial
      rw [layoutOf]
      dsimp only
      refine ⟨by omega, ?_, ?_, ?_, ?_, fun hpf n hn => ?_, fun n hn => ?_⟩
      · rw [total_append, total_slackPieces, total_cons, blockPiece_len]
        omega
      · rw [lostOf_append, lostOf_slackPieces, lostOf_cons, blockPiece_lost]
        omega
      · rw [blocksOf_slackPieces, blocksOf_blockPiece, Nat.add_sub_cancel' (by omega),
          Nat.add_sub_cancel' (by omega), hblocks]
      · rw [slackPieces]
        split_ifs
        · exact hmeet
        · refine List.isChain_cons.mpr ⟨fun u hu => ?_, hmeet⟩
          cases Option.some.inj hu
          cases k <;> trivial
      · rw [slackPieces] at hn
        split_ifs at hn with h0
        · cases k with
          | some s => cases hn
          | none => exact htouch ⟨rfl, hpf, h0⟩
        · cases hn
      · rcases List.mem_append.mp hn with hn | hn
        · obtain ⟨heq, h0⟩ := mem_slackPieces hn
          cases heq
          omega
        · rcases List.mem_cons.mp hn with heq | hn
          · cases k <;> cases heq
          · exact hslack n hn

omit [PmConfig] in
/-- The blocks of a layout, as pieces at their addresses. -/
lemma mem_blocksOf {z a : ℕ} {M : List Piece} :
    (∀ {x s n}, LiveAt (z + a) M x s n ↔ ∃ y, x = z + y ∧ (some s, y, y + n) ∈ blocksOf a M)
      ∧ ∀ {x n}, FreeAt (z + a) M x n ↔ ∃ y, x = z + y ∧ (none, y, y + n) ∈ blocksOf a M := by
  induction M generalizing a with
  | nil => simp [LiveAt, FreeAt, blocksOf]
  | cons t M ih =>
      obtain ⟨hlive, hfree⟩ := ih (a := a + t.len)
      rw [← Nat.add_assoc] at hlive hfree
      constructor
      · intro x s n
        rw [LiveAt, place_cons, List.mem_cons, ← LiveAt, hlive]
        cases t with
        | live r k =>
            simp only [blocksOf, List.mem_cons, Prod.mk.injEq, Piece.live.injEq, Option.some.injEq,
              Piece.len]
            constructor
            · rintro (⟨rfl, rfl, rfl⟩ | ⟨y, rfl, hm⟩)
              · exact ⟨a, rfl, Or.inl ⟨rfl, rfl, rfl⟩⟩
              · exact ⟨y, rfl, Or.inr hm⟩
            · rintro ⟨y, rfl, ⟨rfl, rfl, hn⟩ | hm⟩
              · exact Or.inl ⟨rfl, rfl, by omega⟩
              · exact Or.inr ⟨y, rfl, hm⟩
        | free k => simp [blocksOf, Piece.len]
        | slack k => simp [blocksOf, Piece.len]
      · intro x n
        rw [FreeAt, place_cons, List.mem_cons, ← FreeAt, hfree]
        cases t with
        | free k =>
            simp only [blocksOf, List.mem_cons, Prod.mk.injEq, Piece.free.injEq, true_and,
              Piece.len]
            constructor
            · rintro (⟨rfl, rfl⟩ | ⟨y, rfl, hm⟩)
              · exact ⟨a, rfl, Or.inl ⟨rfl, rfl⟩⟩
              · exact ⟨y, rfl, Or.inr hm⟩
            · rintro ⟨y, rfl, ⟨rfl, hn⟩ | hm⟩
              · exact Or.inl ⟨rfl, by omega⟩
              · exact Or.inr ⟨y, rfl, hm⟩
        | live r k => simp [blocksOf, Piece.len]
        | slack k => simp [blocksOf, Piece.len]

end Layout

end PondMerge
