import PondMerge.Operations.Plan

/-!
Rows of blocks before and after they have been packed.

* `PackedFrom`: every movable block stands right behind the one before it, the pinned ones where
  they stood.
* `packMoves_eq_nil`: a packed row has nothing to move.
* `Tucked`: every block has been packed or left where it was, as after a plan cut short.
* `HasRun.tucked`: no free run gets lost on the way.
* `rooms`, `mem_gaps_rooms`: packing gathers the room between two pinned blocks in one gap.
* `displaced`, `packMoves_displaced`: what moves is what has room below it.
-/

namespace PondMerge

open ByteMemory Tiling

variable [PmConfig]

/-- The row `l` of `obj`, packed from `c` on, is that of `obj'`: pinned blocks stand where they
stood, and every movable one right behind the block before it. -/
def PackedFrom (obj obj' : ℕ → ObjectDesc) : ℕ → List ℕ → Prop
  | _, [] => True
  | c, i :: l =>
    (obj' i).block = (if (obj i).pinned then (obj i).block else c)
      ∧ PackedFrom obj obj' ((obj' i).block + (obj i).blockSize) l

/-- Every block of the row `l` stands where it stood or right behind the block before it. -/
def Tucked (obj obj' : ℕ → ObjectDesc) : ℕ → List ℕ → Prop
  | _, [] => True
  | c, i :: l =>
    ((obj' i).block = (obj i).block ∨ (obj' i).block = c)
      ∧ Tucked obj obj' ((obj' i).block + (obj i).blockSize) l

/-- The plan of `merge`: an entry for every block, the pinned ones included. -/
def packAll (obj : ℕ → ObjectDesc) : List ℕ → ℕ → List MovePlanEntry
  | [], _ => []
  | i :: l, c =>
    let d := obj i
    let dst := if d.pinned then d.block else c
    ⟨i, dst, d.blockSize⟩ :: packAll obj l (dst + d.blockSize)

/-- The entries `split` plans for one of its sides: one for every movable block. -/
def packMovable (obj : ℕ → ObjectDesc) : List ℕ → ℕ → List MovePlanEntry
  | [], _ => []
  | i :: l, c =>
    let d := obj i
    if d.pinned then packMovable obj l (d.block + d.blockSize)
    else ⟨i, c, d.blockSize⟩ :: packMovable obj l (c + d.blockSize)

section Rows

variable {obj obj' : ℕ → ObjectDesc} {stop e c n : ℕ} {l : List ℕ} {plan : List MovePlanEntry}

omit [PmConfig] in
/-- A row is packed exactly if a full compaction has nothing to move. -/
theorem packMoves_eq_nil : packMoves obj l c = [] ↔ PackedFrom obj obj c l := by
  induction l generalizing c with
  | nil => exact iff_of_true rfl trivial
  | cons i l ih =>
      rw [packMoves, PackedFrom]
      split_ifs with hp hb
      · exact ih.trans (by simp)
      · rw [ih, hb]
        simp
      · simp [hb]

omit [PmConfig] in
/-- What has been packed is packed. -/
lemma PackedFrom.settled (h : PackedFrom obj obj' c l)
    (hkept : ∀ i ∈ l, (obj' i).pinned = (obj i).pinned ∧ (obj' i).blockSize = (obj i).blockSize) :
    PackedFrom obj' obj' c l := by
  induction l generalizing c with
  | nil => trivial
  | cons i l ih =>
      obtain ⟨hb, hrest⟩ := h
      obtain ⟨hp, hs⟩ := hkept i List.mem_cons_self
      refine ⟨?_, ?_⟩
      · rw [hp]
        split_ifs with hpin
        · rfl
        · rw [hb, if_neg hpin]
      · rw [hs]
        exact ih hrest fun j hj => hkept j (List.mem_cons_of_mem _ hj)

omit [PmConfig] in
lemma PackedFrom.tucked (h : PackedFrom obj obj' c l) : Tucked obj obj' c l := by
  induction l generalizing c with
  | nil => trivial
  | cons i l ih =>
      obtain ⟨hb, hrest⟩ := h
      refine ⟨?_, ih hrest⟩
      rw [hb]
      split_ifs
      · exact Or.inl rfl
      · exact Or.inr rfl

omit [PmConfig] in
lemma Tucked.refl (obj : ℕ → ObjectDesc) (c : ℕ) (l : List ℕ) : Tucked obj obj c l := by
  induction l generalizing c with
  | nil => trivial
  | cons i l ih => exact ⟨Or.inl rfl, ih _⟩

omit [PmConfig] in
lemma PackedFrom.congr {obj'' : ℕ → ObjectDesc} (h : PackedFrom obj obj' c l)
    (hb : ∀ i ∈ l, (obj'' i).block = (obj' i).block) : PackedFrom obj obj'' c l := by
  induction l generalizing c with
  | nil => trivial
  | cons i l ih =>
      obtain ⟨hi, hrest⟩ := h
      rw [PackedFrom, hb i List.mem_cons_self]
      exact ⟨hi, ih hrest fun j hj => hb j (List.mem_cons_of_mem _ hj)⟩

omit [PmConfig] in
/-- The end of the packed row. -/
lemma PackedFrom.append {l₁ l₂ : List ℕ} (h : PackedFrom obj obj' c l₁)
    (h' : PackedFrom obj obj' (packedEnd obj c l₁) l₂) : PackedFrom obj obj' c (l₁ ++ l₂) := by
  induction l₁ generalizing c with
  | nil => exact h'
  | cons i l₁ ih =>
      obtain ⟨hb, hrest⟩ := h
      refine ⟨hb, ih hrest ?_⟩
      rw [packedEnd] at h'
      rw [hb]
      split_ifs at h' ⊢
      · exact h'
      · exact h'

/-! ### Executed plans -/

omit [PmConfig] in
/-- An entry of the rest of a plan does not name the first slot of the row. -/
lemma not_mem_packMoves {i : ℕ} (hi : i ∉ l) (c : ℕ) :
    i ∉ (packMoves obj l c).map (·.slot) := by
  intro hm
  obtain ⟨x, hx, rfl⟩ := List.mem_map.mp hm
  exact hi (packMoves_entry hx).1

omit [PmConfig] in
/-- A plan cut short has tucked the blocks it reached. -/
lemma Placed.tucked (hnd : l.Nodup) (hplan : plan <+: packMoves obj l c)
    (hp : Placed obj obj' l plan) : Tucked obj obj' c l := by
  induction l generalizing c plan with
  | nil => trivial
  | cons i l ih =>
      obtain ⟨hi, hnd'⟩ := List.nodup_cons.mp hnd
      have htail : ∀ {plan' : List MovePlanEntry}, (∀ x ∈ plan', x ∈ plan) →
          (∀ j ∈ l, j ∈ plan.map (·.slot) → j ∈ plan'.map (·.slot)) → Placed obj obj' l plan' :=
        fun hsub hslots => ⟨fun x hx => hp.moved x (hsub x hx),
          fun j hj hno => hp.stayed j (List.mem_cons_of_mem _ hj) fun hm => hno (hslots j hj hm),
          fun j hj => hp.size j (List.mem_cons_of_mem _ hj)⟩
      have hstay : i ∉ plan.map (·.slot) → (obj' i).block = (obj i).block :=
        hp.stayed i List.mem_cons_self
      rw [packMoves] at hplan
      split_ifs at hplan with hpin hb
      · have hno : i ∉ plan.map (·.slot) := fun hm =>
          not_mem_packMoves hi _ ((hplan.map (·.slot)).subset hm)
        refine ⟨Or.inl (hstay hno), ?_⟩
        rw [hstay hno]
        exact ih hnd' hplan (htail (fun x hx => hx) fun j _ hm => hm)
      · have hno : i ∉ plan.map (·.slot) := fun hm =>
          not_mem_packMoves hi _ ((hplan.map (·.slot)).subset hm)
        refine ⟨Or.inl (hstay hno), ?_⟩
        rw [hstay hno, hb]
        exact ih hnd' hplan (htail (fun x hx => hx) fun j _ hm => hm)
      · cases plan with
        | nil =>
            -- the plan has been cut off in front of `i`
            refine ⟨Or.inl (hstay (by simp)), ?_⟩
            exact ih hnd' List.nil_prefix (htail (by simp) (by simp))
        | cons x plan =>
            obtain ⟨rfl, hrest⟩ := List.cons_prefix_cons.mp hplan
            have hmoved : (obj' i).block = c := hp.moved _ List.mem_cons_self
            refine ⟨Or.inr hmoved, ?_⟩
            rw [hmoved]
            refine ih hnd' hrest (htail (fun x hx => List.mem_cons_of_mem _ hx) fun j hj hm => ?_)
            rw [List.map_cons] at hm
            cases List.mem_cons.mp hm with
            | inl hji =>
                obtain rfl : j = i := hji
                exact absurd hj hi
            | inr hm => exact hm

omit [PmConfig] in
/-- The full plan has packed its row. -/
lemma Placed.packedFrom (hnd : l.Nodup) (hp : Placed obj obj' l (packMoves obj l c)) :
    PackedFrom obj obj' c l := by
  induction l generalizing c with
  | nil => trivial
  | cons i l ih =>
      obtain ⟨hi, hnd'⟩ := List.nodup_cons.mp hnd
      have hno := fun c => @not_mem_packMoves obj l i hi c
      have hmoved := hp.moved
      have hstay := hp.stayed
      have hsize : ∀ j ∈ l, (obj' j).blockSize = (obj j).blockSize :=
        fun j hj => hp.size j (List.mem_cons_of_mem _ hj)
      rw [packMoves] at hmoved hstay
      rw [PackedFrom]
      split_ifs at hmoved hstay ⊢ with hpin hb
      · have hblock := hstay i List.mem_cons_self (hno _)
        refine ⟨hblock, ?_⟩
        rw [hblock]
        exact ih hnd' ⟨hmoved, fun j hj => hstay j (List.mem_cons_of_mem _ hj), hsize⟩
      · have hblock := hstay i List.mem_cons_self (hno _)
        refine ⟨hblock.trans hb, ?_⟩
        rw [hblock, hb]
        exact ih hnd' ⟨hmoved, fun j hj => hstay j (List.mem_cons_of_mem _ hj), hsize⟩
      · have hblock : (obj' i).block = c := hmoved _ List.mem_cons_self
        refine ⟨hblock, ?_⟩
        rw [hblock]
        refine ih hnd' ⟨fun x hx => hmoved x (List.mem_cons_of_mem _ hx), fun j hj hm => ?_, hsize⟩
        refine hstay j (List.mem_cons_of_mem _ hj) fun hm' => ?_
        rw [List.map_cons] at hm'
        cases List.mem_cons.mp hm' with
        | inl hji =>
            obtain rfl : j = i := hji
            exact hi hj
        | inr hm' => exact hm hm'

omit [PmConfig] in
/-- The plan with an entry for every block has packed its row. -/
lemma packedFrom_of_packAll (h : ∀ x ∈ packAll obj l c, (obj' x.slot).block = x.dst) :
    PackedFrom obj obj' c l := by
  induction l generalizing c with
  | nil => trivial
  | cons i l ih =>
      have hb := h _ List.mem_cons_self
      dsimp only at hb
      refine ⟨hb, ?_⟩
      rw [hb]
      exact ih fun x hx => h x (List.mem_cons_of_mem _ hx)

omit [PmConfig] in
/-- So has a plan with an entry for every movable block. -/
lemma packedFrom_of_packMovable (h : ∀ x ∈ packMovable obj l c, (obj' x.slot).block = x.dst)
    (hpin : ∀ i ∈ l, (obj i).pinned = true → (obj' i).block = (obj i).block) :
    PackedFrom obj obj' c l := by
  induction l generalizing c with
  | nil => trivial
  | cons i l ih =>
      have hpin' : ∀ j ∈ l, (obj j).pinned = true → (obj' j).block = (obj j).block :=
        fun j hj => hpin j (List.mem_cons_of_mem _ hj)
      rw [packMovable] at h
      rw [PackedFrom]
      split_ifs at h ⊢ with hp
      · have hb := hpin i List.mem_cons_self hp
        refine ⟨hb, ?_⟩
        rw [hb]
        exact ih h hpin'
      · have hb : (obj' i).block = c := h _ List.mem_cons_self
        refine ⟨hb, ?_⟩
        rw [hb]
        exact ih (fun x hx => h x (List.mem_cons_of_mem _ hx)) hpin'

omit [PmConfig] in
lemma mem_packMovable {i : ℕ} (hi : i ∈ l) (hp : (obj i).pinned = false) :
    i ∈ (packMovable obj l c).map (·.slot) := by
  induction l generalizing c with
  | nil => cases hi
  | cons j l ih =>
      rw [packMovable]
      cases List.mem_cons.mp hi with
      | inl heq =>
          subst heq
          rw [if_neg (by simp [hp])]
          exact List.mem_cons_self
      | inr hi =>
          split_ifs
          · exact ih hi
          · exact List.mem_cons_of_mem _ (ih hi)

/-! ### Free runs -/

omit [PmConfig] in
/-- The room a packed block leaves behind it is free somewhere behind it. -/
lemma hasRun_offset (hfit : Fits obj stop e l) (hc : c ≤ e) (ht : Tucked obj obj' c l)
    (hsize : ∀ i ∈ l, (obj' i).blockSize = (obj i).blockSize) :
    HasRun obj' stop c l (e - c) := by
  induction l generalizing c e with
  | nil =>
      have hle : e ≤ stop := hfit
      exact ⟨stop - c, List.mem_cons_self, by omega⟩
  | cons i l ih =>
      obtain ⟨hle, hfit'⟩ := hfit
      obtain ⟨hb, hrest⟩ := ht
      rw [hasRun_cons, hsize i List.mem_cons_self]
      cases hb with
      | inl hb => exact Or.inl (by omega)
      | inr hb =>
          rw [hb] at hrest ⊢
          have hroom := ih hfit' (by omega) hrest fun j hj => hsize j (List.mem_cons_of_mem _ hj)
          obtain ⟨g, hg, hge⟩ := hroom
          exact Or.inr ⟨g, hg, by omega⟩

omit [PmConfig] in
/-- No free run gets lost: what was free between the blocks of a row is free in one piece
once they have been tucked. -/
theorem HasRun.tucked (h : HasRun obj stop e l n) (hfit : Fits obj stop e l) (hc : c ≤ e)
    (ht : Tucked obj obj' c l)
    (hsize : ∀ i ∈ l, (obj' i).blockSize = (obj i).blockSize) : HasRun obj' stop c l n := by
  induction l generalizing c e with
  | nil =>
      obtain ⟨g, hg, hn⟩ := h
      obtain rfl : g = stop - e := by simpa [gaps] using hg
      exact ⟨stop - c, List.mem_cons_self, by omega⟩
  | cons i l ih =>
      obtain ⟨hle, hfit'⟩ := hfit
      obtain ⟨hb, hrest⟩ := ht
      have hsize' : ∀ j ∈ l, (obj' j).blockSize = (obj j).blockSize :=
        fun j hj => hsize j (List.mem_cons_of_mem _ hj)
      rw [hasRun_cons] at h ⊢
      rw [hsize i List.mem_cons_self]
      cases hb with
      | inl hb =>
          rw [hb] at hrest ⊢
          exact h.imp (fun hn => by omega) fun hrun => ih hrun hfit' le_rfl hrest hsize'
      | inr hb =>
          rw [hb] at hrest ⊢
          refine Or.inr ?_
          cases h with
          | inl hn =>
              -- the gap in front of the block now lies behind it
              obtain ⟨g, hg, hge⟩ := hasRun_offset hfit' (by omega) hrest hsize'
              exact ⟨g, hg, by omega⟩
          | inr hrun => exact ih hrun hfit' (by omega) hrest hsize'

omit [PmConfig] in
/-- The runs of two neighbouring rows are runs of both together. -/
lemma HasRun.append {mid : ℕ} {l₁ l₂ : List ℕ} (hfit₁ : Fits obj mid c l₁)
    (hfit₂ : Fits obj stop mid l₂)
    (h : HasRun obj mid c l₁ n ∨ HasRun obj stop mid l₂ n) : HasRun obj stop c (l₁ ++ l₂) n := by
  induction l₁ generalizing c with
  | nil =>
      have hle : c ≤ mid := hfit₁
      have hwider : HasRun obj stop c l₂ (mid - c) ∧
          (HasRun obj stop mid l₂ n → HasRun obj stop c l₂ n) :=
        ⟨hasRun_offset hfit₂ hle (Tucked.refl obj c l₂) fun _ _ => rfl,
          fun hrun => hrun.tucked hfit₂ hle (Tucked.refl obj c l₂) fun _ _ => rfl⟩
      cases h with
      | inl h =>
          obtain ⟨g, hg, hn⟩ := h
          obtain rfl : g = mid - c := by simpa [gaps] using hg
          obtain ⟨g', hg', hge⟩ := hwider.1
          exact ⟨g', hg', by omega⟩
      | inr h => exact hwider.2 h
  | cons i l₁ ih =>
      rw [hasRun_cons, or_assoc] at h
      rw [List.cons_append, hasRun_cons]
      exact h.imp id fun h => ih hfit₁.2 h

end Rows

/-! ### Room -/

/-- The room of every stretch of a layout between two neighbouring pinned blocks, or between one
and an end of the layout: the bytes its free blocks and its slack cover, wherever they lie.  Below
the first piece lie `r` such bytes. -/
def rooms (obj : ℕ → ObjectDesc) : List Piece → ℕ → List ℕ
  | [], r => [r]
  | .live i _ :: L, r => if (obj i).pinned then r :: rooms obj L 0 else rooms obj L r
  | .free n :: L, r => rooms obj L (r + n)
  | .slack n :: L, r => rooms obj L (r + n)

/-- The sizes of the movable blocks that have room below them in their stretch. -/
def displaced (obj : ℕ → ObjectDesc) : List Piece → ℕ → List ℕ
  | [], _ => []
  | .live i n :: L, r =>
    if (obj i).pinned then displaced obj L 0
    else if r = 0 then displaced obj L r
    else n :: displaced obj L r
  | .free n :: L, r => displaced obj L (r + n)
  | .slack n :: L, r => displaced obj L (r + n)

section Rooms

variable {obj obj' : ℕ → ObjectDesc} {x c n : ℕ} {L : List Piece}

omit [PmConfig] in
/-- A full compaction moves exactly the blocks with room below them. -/
theorem packMoves_displaced
    (hd : ∀ {y s m}, LiveAt x L y s m → (obj s).block = y ∧ (obj s).blockSize = m) (hc : c ≤ x) :
    (packMoves obj (liveSlots L) c).map (·.size) = displaced obj L (x - c) := by
  induction L generalizing x c with
  | nil => rfl
  | cons t L ih =>
      have hrest : ∀ {y s m}, LiveAt (x + t.len) L y s m →
          (obj s).block = y ∧ (obj s).blockSize = m := fun hx => hd (List.mem_cons_of_mem _ hx)
      cases t with
      | free k =>
          rw [displaced, liveSlots_free, ih (x := x + k) hrest (by omega),
            show x + k - c = x - c + k by omega]
      | slack k =>
          rw [displaced, liveSlots_slack, ih (x := x + k) hrest (by omega),
            show x + k - c = x - c + k by omega]
      | live i k =>
          obtain ⟨hb, hs⟩ := hd (y := x) (s := i) (m := k) List.mem_cons_self
          rw [liveSlots_live, packMoves, displaced, hb, hs]
          split_ifs with hp h₁ h₂ h₃
          · rw [ih (x := x + k) hrest le_rfl, Nat.sub_self]
          · rw [ih (x := x + k) hrest (by omega), show x + k - (c + k) = x - c by omega]
          · omega
          · omega
          · rw [List.map_cons, ih (x := x + k) hrest (by omega),
              show x + k - (c + k) = x - c by omega]

omit [PmConfig] in
/-- The gaps of a packed row are the room of its stretches, each in one piece. -/
theorem mem_gaps_rooms
    (hd : ∀ {y s m}, LiveAt x L y s m → (obj s).block = y ∧ (obj s).blockSize = m) (hc : c ≤ x)
    (hp : PackedFrom obj obj' c (liveSlots L))
    (hsize : ∀ i ∈ liveSlots L, (obj' i).blockSize = (obj i).blockSize) (hn : 0 < n) :
    n ∈ gaps obj' (x + total Piece.len L) c (liveSlots L) ↔ n ∈ rooms obj L (x - c) := by
  induction L generalizing x c with
  | nil => exact Iff.rfl
  | cons t L ih =>
      have hrest : ∀ {y s m}, LiveAt (x + t.len) L y s m →
          (obj s).block = y ∧ (obj s).blockSize = m := fun hx => hd (List.mem_cons_of_mem _ hx)
      rw [total_cons, ← Nat.add_assoc]
      cases t with
      | free k =>
          rw [liveSlots_free] at hp hsize ⊢
          rw [rooms, Piece.len, ih (x := x + k) hrest (by omega) hp hsize,
            show x + k - c = x - c + k by omega]
      | slack k =>
          rw [liveSlots_slack] at hp hsize ⊢
          rw [rooms, Piece.len, ih (x := x + k) hrest (by omega) hp hsize,
            show x + k - c = x - c + k by omega]
      | live i k =>
          obtain ⟨hb, hs⟩ := hd (y := x) (s := i) (m := k) List.mem_cons_self
          rw [liveSlots_live] at hp hsize ⊢
          obtain ⟨hi, hp⟩ := hp
          have hsize' : ∀ j ∈ liveSlots L, (obj' j).blockSize = (obj j).blockSize :=
            fun j hj => hsize j (List.mem_cons_of_mem _ hj)
          rw [rooms, gaps, List.mem_cons, hsize i List.mem_cons_self, Piece.len, hs]
          rw [hb] at hi
          rw [hs] at hp
          split_ifs at hi ⊢ with hpin
          · rw [hi] at hp ⊢
            rw [ih (x := x + k) hrest le_rfl hp hsize', List.mem_cons, Nat.sub_self]
          · rw [hi] at hp ⊢
            rw [ih (x := x + k) hrest (by omega) hp hsize', show x + k - (c + k) = x - c by omega]
            exact or_iff_right (by omega)

end Rooms

end PondMerge
