import PondMerge.Operations.Packing

/-!
What keeps the free blocks of a pool apart: live blocks, and slack.

* `freeBlocks_walls`: there is one free block more than there are walls between free blocks, which
  are single slack runs or stretches of live blocks.
* `EndSlack`: a layout with slack nowhere but at its end has no wall of slack.
* `Flush`: a row of blocks whose gaps are all empty or large enough for a block.
* `Flush.tucked`: moving blocks towards the front keeps it so.
-/

namespace PondMerge

open Tiling

/-! ### Walls -/

/-- The free blocks of a layout. -/
def freeBlocks : List Piece → ℕ
  | [] => 0
  | .free _ :: L => freeBlocks L + 1
  | .live _ _ :: L => freeBlocks L
  | .slack _ :: L => freeBlocks L

/-- The slack runs with a free block on either side. -/
def slackWalls : List Piece → ℕ
  | [] => 0
  | .free _ :: .slack _ :: .free m :: L => slackWalls (.free m :: L) + 1
  | _ :: L => slackWalls L

/-- The stretches of live blocks with a free block on either side; `b` says that the last block in
front of the layout is free.  Slack between live blocks belongs to their stretch. -/
def liveWalls : Bool → List Piece → ℕ
  | _, [] => 0
  | _, .free _ :: L => liveWalls true L
  | b, .live _ _ :: L => (if b = true ∧ 0 < freeBlocks L then 1 else 0) + liveWalls false L
  | b, .slack _ :: L => liveWalls b L

section Walls

variable {L : List Piece}

/-- A stretch of live blocks has one at least. -/
lemma liveWalls_le (b : Bool) (L : List Piece) : liveWalls b L ≤ (liveSlots L).length := by
  induction L generalizing b with
  | nil => exact le_rfl
  | cons t L ih =>
      cases t with
      | live s n =>
          have h := ih false
          rw [liveWalls, liveSlots_live, List.length_cons]
          split_ifs <;> omega
      | free n => exact ih true
      | slack n => exact ih b

@[simp] lemma slackWalls_live (s n : ℕ) (L : List Piece) :
    slackWalls (.live s n :: L) = slackWalls L := rfl

@[simp] lemma slackWalls_slack (n : ℕ) (L : List Piece) :
    slackWalls (.slack n :: L) = slackWalls L := rfl

@[simp] lemma slackWalls_free_live (n s k : ℕ) (L : List Piece) :
    slackWalls (.free n :: .live s k :: L) = slackWalls L := rfl

/-- Walls and free blocks of a layout, and of one behind a free block. -/
lemma walls_step (h : L.IsChain Piece.MayMeet) :
    slackWalls L + liveWalls false L + min 1 (freeBlocks L) = freeBlocks L
      ∧ ∀ n, (Piece.free n :: L).IsChain Piece.MayMeet →
        slackWalls (.free n :: L) + liveWalls true L = freeBlocks L := by
  induction L with
  | nil => exact ⟨rfl, fun _ _ => rfl⟩
  | cons t L ih =>
      obtain ⟨hhead, hL⟩ := List.isChain_cons.mp h
      obtain ⟨hplain, hbehind⟩ := ih hL
      cases t with
      | live s m =>
          refine ⟨by simpa [liveWalls, freeBlocks] using hplain, fun n _ => ?_⟩
          rw [slackWalls_free_live, liveWalls, freeBlocks]
          by_cases hpos : 0 < freeBlocks L
          · rw [if_pos ⟨rfl, hpos⟩]
            omega
          · rw [if_neg fun hb => hpos hb.2]
            omega
      | free m =>
          refine ⟨?_, fun n hn => absurd ((List.isChain_cons.mp hn).1 _ rfl) id⟩
          have hm := hbehind m h
          rw [liveWalls, freeBlocks]
          omega
      | slack m =>
          refine ⟨by simpa [liveWalls, freeBlocks] using hplain, fun n _ => ?_⟩
          -- the slack is a wall if a free block comes next
          cases L with
          | nil => rfl
          | cons u L => cases u with
            | live s k =>
                rw [slackWalls_live, liveWalls, freeBlocks, if_neg (by simp)] at hplain
                rw [show slackWalls (.free n :: .slack m :: .live s k :: L) = slackWalls L from rfl,
                  liveWalls, liveWalls, freeBlocks, freeBlocks]
                by_cases hpos : 0 < freeBlocks L
                · rw [if_pos ⟨rfl, hpos⟩]
                  omega
                · rw [if_neg fun hb => hpos hb.2]
                  omega
            | free k =>
                rw [liveWalls, freeBlocks] at hplain
                rw [slackWalls, liveWalls, liveWalls, freeBlocks, freeBlocks]
                omega
            | slack k => exact absurd (hhead _ rfl) id

/-- There is one free block more than there are walls between free blocks. -/
theorem freeBlocks_walls (h : L.IsChain Piece.MayMeet) :
    freeBlocks L = slackWalls L + liveWalls false L + min 1 (freeBlocks L) :=
  (walls_step h).1.symm

end Walls

/-! ### Slack at the end -/

/-- Slack lies at the end of the layout only, and even there only if `t`. -/
def EndSlack (t : Prop) (L : List Piece) : Prop :=
  ∀ L₁ n L₂, L = L₁ ++ .slack n :: L₂ → L₂ = [] ∧ t

section EndSlack

variable {t : Prop} {L L₁ L₂ M N : List Piece}

lemma EndSlack.tail {u : Piece} (h : EndSlack t (u :: L)) : EndSlack t L :=
  fun K n M hL => h (u :: K) n M (by rw [hL, List.cons_append])

/-- A layout without slack. -/
lemma endSlack_of_none (h : ∀ n, .slack n ∉ L) : EndSlack t L := fun _ n _ hL =>
  absurd (hL ▸ List.mem_append_right _ List.mem_cons_self) (h n)

lemma endSlack_singleton (ht : t) (u : Piece) : EndSlack t [u] := by
  intro K n M hL
  cases K with
  | nil => exact ⟨(List.cons.inj hL).2.symm, ht⟩
  | cons v K => exact absurd (List.cons.inj hL).2 (by simp)

lemma EndSlack.cons {u : Piece} (h : EndSlack t L) (hu : ∀ n, u ≠ .slack n) :
    EndSlack t (u :: L) := by
  intro K n M hL
  cases K with
  | nil => exact absurd (List.cons.inj hL).1 (hu n)
  | cons v K => exact h K n M (List.cons.inj hL).2

/-- In front of other pieces there is no slack. -/
lemma endSlack_append (hne : L₂ ≠ []) :
    EndSlack t (L₁ ++ L₂) ↔ (∀ n, .slack n ∉ L₁) ∧ EndSlack t L₂ := by
  constructor
  · intro h
    refine ⟨fun n hn => ?_, fun K n M hL => h (L₁ ++ K) n M (by rw [hL, List.append_assoc])⟩
    obtain ⟨K, M, rfl⟩ := List.append_of_mem hn
    have hend := (h K n (M ++ L₂) (by simp)).1
    exact hne (List.append_eq_nil_iff.mp hend).2
  · rintro ⟨hfront, h⟩ K n M hL
    induction L₁ generalizing K with
    | nil => exact h K n M hL
    | cons u L₁ ih =>
        cases K with
        | nil =>
            obtain ⟨rfl, -⟩ := List.cons.inj hL
            exact absurd List.mem_cons_self (hfront n)
        | cons v K =>
            exact ih (fun n hn => hfront n (List.mem_cons_of_mem _ hn)) K (List.cons.inj hL).2

/-- A stretch without slack makes room for another one. -/
lemma EndSlack.replace (h : EndSlack t (L₁ ++ M ++ L₂)) (hM : M ≠ []) (hN : ∀ n, .slack n ∉ N) :
    EndSlack t (L₁ ++ N ++ L₂) := by
  rw [List.append_assoc, endSlack_append (by simp [hM])] at h
  obtain ⟨hfront, h⟩ := h
  by_cases hL₂ : L₂ = []
  · rw [hL₂, List.append_nil]
    exact endSlack_of_none fun n hn => (List.mem_append.mp hn).elim (hfront n) (hN n)
  · rw [endSlack_append hL₂] at h ⊢
    exact ⟨fun n hn => (List.mem_append.mp hn).elim (hfront n) (hN n), h.2⟩

/-- Slack at the end is no wall. -/
lemma EndSlack.slackWalls (h : EndSlack t L) : PondMerge.slackWalls L = 0 := by
  induction L with
  | nil => rfl
  | cons u L ih =>
      have hL := ih h.tail
      cases u with
      | live s n => exact hL
      | slack n => exact hL
      | free n => cases L with
        | nil => rfl
        | cons v L => cases v with
          | live s k => exact hL
          | free k =>
              rw [PondMerge.slackWalls]
              · exact hL
              · simp
          | slack k =>
              have hend := (h [.free n] k L rfl).1
              rw [hend]
              rfl

end EndSlack

/-! ### Gaps of a row -/

variable [PmConfig]

/-- Between `a` and `b` there is nothing, or room for a block. -/
def Whole (a b : ℕ) : Prop := a = b ∨ a + pmMinBlock ≤ b

instance (a b : ℕ) : Decidable (Whole a b) := inferInstanceAs (Decidable (_ ∨ _))

/-- In front of every block of the row `l`, laid from `c` on, there is nothing or room for a block;
so there is between the last one and `stop`, unless `t`. -/
def Flush (obj : ℕ → ObjectDesc) (stop : ℕ) (t : Prop) : ℕ → List ℕ → Prop
  | c, [] => t ∨ Whole c stop
  | c, i :: l => Whole c (obj i).block ∧ Flush obj stop t ((obj i).block + (obj i).blockSize) l

/-- So there is in front of every block once the row has been packed. -/
def FlushPacked (obj : ℕ → ObjectDesc) : ℕ → List ℕ → Prop
  | _, [] => True
  | c, i :: l =>
    Whole c (if (obj i).pinned then (obj i).block else c)
      ∧ FlushPacked obj ((if (obj i).pinned then (obj i).block else c) + (obj i).blockSize) l

instance FlushPacked.decidable (obj : ℕ → ObjectDesc) :
    (c : ℕ) → (l : List ℕ) → Decidable (FlushPacked obj c l)
  | _, [] => inferInstanceAs (Decidable True)
  | c, i :: l =>
    have := FlushPacked.decidable obj
      ((if (obj i).pinned then (obj i).block else c) + (obj i).blockSize) l
    inferInstanceAs (Decidable (_ ∧ _))

section Rows

variable {obj obj' : ℕ → ObjectDesc} {stop mid a b c e : ℕ} {t : Prop} {l l' : List ℕ}

lemma Whole.refl (a : ℕ) : Whole a a := Or.inl rfl

lemma Whole.le (h : Whole a b) : a ≤ b := by
  rcases h with rfl | h
  · exact le_rfl
  · omega

lemma Whole.trans (h : Whole a b) (h' : Whole b c) : Whole a c := by
  have hle := h'.le
  rcases h with rfl | h
  · exact h'
  · exact Or.inr (by omega)

/-- A gap in front of the row is one gap with that of the first block. -/
lemma Flush.front (h : Flush obj stop t c l) (hc : Whole e c) : Flush obj stop t e l := by
  cases l with
  | nil => exact h.imp_right hc.trans
  | cons i l => exact ⟨hc.trans h.1, h.2⟩

/-- Rows one behind the other. -/
lemma Flush.append (h : Flush obj mid False c l) (h' : Flush obj stop t mid l') :
    Flush obj stop t c (l ++ l') := by
  induction l generalizing c with
  | nil => exact h'.front (h.resolve_left id)
  | cons i l ih => exact ⟨h.1, ih h.2⟩

/-- The front of a row. -/
lemma Flush.take (h : Flush obj stop t c (l ++ l')) : Flush obj mid True c l := by
  induction l generalizing c with
  | nil => exact Or.inl trivial
  | cons i l ih => exact ⟨h.1, ih h.2⟩

/-- Moving blocks to the front leaves their gaps to the blocks behind them. -/
theorem Flush.tucked (h : Flush obj stop t c l) (hc : Whole e c) (htuck : Tucked obj obj' e l)
    (hsize : ∀ i ∈ l, (obj' i).blockSize = (obj i).blockSize) : Flush obj' stop t e l := by
  induction l generalizing c e with
  | nil => exact h.imp_right hc.trans
  | cons i l ih =>
      obtain ⟨hgap, hrest⟩ := h
      obtain ⟨hblock, htail⟩ := htuck
      have hsize' := fun j hj => hsize j (List.mem_cons_of_mem _ hj)
      rw [Flush, hsize i List.mem_cons_self]
      cases hblock with
      | inl hstay =>
          rw [hstay] at htail ⊢
          exact ⟨hc.trans hgap, ih hrest (.refl _) htail hsize'⟩
      | inr hmove =>
          -- the gap in front of the block is now behind it
          have hshift := hc.trans hgap
          rw [hmove] at htail ⊢
          refine ⟨.refl e, ih hrest ?_ htail hsize'⟩
          rcases hshift with heq | hle
          · exact Or.inl (by omega)
          · exact Or.inr (by omega)

/-- A packed row. -/
lemma PackedFrom.flush (h : PackedFrom obj obj' c l) (hf : FlushPacked obj c l)
    (hsize : ∀ i ∈ l, (obj' i).blockSize = (obj i).blockSize) : Flush obj' stop True c l := by
  induction l generalizing c with
  | nil => exact Or.inl trivial
  | cons i l ih =>
      obtain ⟨hblock, hrest⟩ := h
      rw [FlushPacked, ← hblock] at hf
      rw [Flush, hsize i List.mem_cons_self]
      exact ⟨hf.1, ih hrest hf.2 fun j hj => hsize j (List.mem_cons_of_mem _ hj)⟩

/-- Such a gap holds no slack. -/
lemma Whole.gapPieces (h : Whole a b) (n : ℕ) : .slack n ∉ PondMerge.gapPieces (b - a) := by
  rw [PondMerge.gapPieces]
  rcases h with rfl | h
  · rw [Nat.sub_self, if_neg (by have := PmConfig.minBlock_ge; omega), if_neg (lt_irrefl 0)]
    exact List.not_mem_nil
  · rw [if_pos (by omega)]
    simp

/-- The layout rebuilt around such a row. -/
theorem Flush.endSlack (h : Flush obj stop t c l) : EndSlack t (packed obj stop c l) := by
  induction l generalizing c with
  | nil =>
      rw [packed]
      rcases h with ht | hgap
      · rw [gapPieces]
        split_ifs
        · exact endSlack_singleton ht _
        · exact endSlack_singleton ht _
        · exact endSlack_of_none fun n => List.not_mem_nil
      · exact endSlack_of_none hgap.gapPieces
  | cons i l ih =>
      rw [packed, endSlack_append (List.cons_ne_nil _ _)]
      exact ⟨h.1.gapPieces, (ih h.2).cons fun n => by simp⟩

/-- The row of a layout with such slack. -/
theorem EndSlack.flush {L : List Piece} (h : EndSlack t L) (hmin : NoUndersized L)
    (hd : ∀ {x s n}, LiveAt a L x s n → (obj s).block = x ∧ (obj s).blockSize = n)
    (hc : Whole c a) : Flush obj (a + total Piece.len L) t c (liveSlots L) := by
  induction L generalizing a c with
  | nil =>
      rw [total_nil, Nat.add_zero]
      exact Or.inr hc
  | cons u L ih =>
      have hrest := fun {b} hb => ih (c := b) h.tail
        (fun n hn => hmin n (List.mem_cons_of_mem _ hn))
        (fun hx => hd (List.mem_cons_of_mem _ hx)) hb
      rw [total_cons, ← Nat.add_assoc]
      cases u with
      | live s n =>
          obtain ⟨hblock, hsize⟩ := hd (List.mem_cons_self (a := (a, Piece.live s n)))
          rw [liveSlots_live, Flush, hblock, hsize]
          exact ⟨hc, hrest (.refl _)⟩
      | free n => exact hrest (hc.trans (Or.inr (Nat.add_le_add_left
          (hmin n List.mem_cons_self) a)))
      | slack n =>
          -- nothing stands behind the slack
          obtain ⟨rfl, ht⟩ := h [] n L rfl
          exact Or.inl ht

end Rows

end PondMerge
