import PondMerge.Operations.Rebuild
import PondMerge.Library.Relocation
import PondMerge.Model.Compaction

/-!
The execution of a move plan, for every maintenance operation at once.

* `moveBlock_eq_memmove`: whatever path `move_block` takes, it is `memmove`.
* `MoveStep`, `MoveStep.run`: one step of an execution loop, and the loop as a sequence of
  relocations.
* `Packs`: a plan that packs blocks towards the front; `Packs.safe`: it never overwrites a
  block that has yet to move, and `Packs.fits`: the blocks it leaves stand in a row.
* `run_block`: after a safe plan every block holds the bytes it held before.
-/

namespace PondMerge

open ByteMemory Relocation

/-! ### The relocation copy -/

lemma load32_byte (m : Mem) (s : ℕ) {k : ℕ} (hk : k < 4) :
    UInt8.ofNat (load32 m s / 256 ^ k) = m (s + k) := by
  have h0 := (m s).toNat_lt
  have h1 := (m (s + 1)).toNat_lt
  have h2 := (m (s + 2)).toNat_lt
  have h3 := (m (s + 3)).toNat_lt
  refine UInt8.toNat_inj.mp ?_
  rw [UInt8.toNat_ofNat', load32]
  obtain rfl | rfl | rfl | rfl : k = 0 ∨ k = 1 ∨ k = 2 ∨ k = 3 := by omega
  · rw [Nat.pow_zero, Nat.div_one]
    change _ = (m s).toNat
    omega
  · omega
  · omega
  · omega

/-- A word copy copies its four bytes. -/
lemma store32_load32 (m : Mem) (d s x : ℕ) :
    store32 m d (load32 m s) x = if d ≤ x ∧ x < d + 4 then m (s + (x - d)) else m x := by
  rw [store32]
  split_ifs with h
  · exact load32_byte m s (by omega)
  · rfl

/-- The forward word loop copies down without reading what it has written. -/
lemma copyWordsUp_eq (m : Mem) {dst src : ℕ} (h : dst ≤ src) (k i x : ℕ) :
    copyWordsUp m dst src k i x =
      if dst + 4 * i ≤ x ∧ x < dst + 4 * (i + k) then m (src + (x - dst)) else m x := by
  induction k generalizing m i with
  | zero => rw [copyWordsUp, if_neg (by omega)]
  | succ k ih =>
      rw [copyWordsUp, ih]
      by_cases h1 : dst + 4 * (i + 1) ≤ x ∧ x < dst + 4 * (i + 1 + k)
      · rw [if_pos h1, if_pos (by omega), store32_load32, if_neg (by omega)]
      · rw [if_neg h1, store32_load32]
        by_cases h2 : dst + 4 * i ≤ x ∧ x < dst + 4 * i + 4
        · rw [if_pos h2, if_pos (by omega)]
          congr 1
          omega
        · rw [if_neg h2, if_neg (by omega)]

/-- The backward word loop copies up without reading what it has written. -/
lemma copyWordsDown_eq (m : Mem) {dst src : ℕ} (h : src ≤ dst) (k x : ℕ) :
    copyWordsDown m dst src k x =
      if dst ≤ x ∧ x < dst + 4 * k then m (src + (x - dst)) else m x := by
  induction k generalizing m with
  | zero => rw [copyWordsDown, if_neg (by omega)]
  | succ k ih =>
      rw [copyWordsDown, ih]
      by_cases h1 : dst ≤ x ∧ x < dst + 4 * k
      · rw [if_pos h1, if_pos (by omega), store32_load32, if_neg (by omega)]
      · rw [if_neg h1, store32_load32]
        by_cases h2 : dst + 4 * k ≤ x ∧ x < dst + 4 * k + 4
        · rw [if_pos h2, if_pos (by omega)]
          congr 1
          omega
        · rw [if_neg h2, if_neg (by omega)]

/-- `move_block` is `memmove` on every path. -/
lemma moveBlock_eq (m : Mem) (dst src size : ℕ) :
    moveBlock m dst src size = memmove m dst src size := by
  rw [moveBlock]
  split_ifs with h1 h2 h3 h4
  · funext x
    rw [memmove]
    split_ifs with hx
    · congr 1
      omega
    · rfl
  · rfl
  · rfl
  · funext x
    have hsize := aligned_size h3
    rw [copyWordsUp_eq m h4.le, memmove]
    refine if_congr ?_ rfl rfl
    omega
  · funext x
    have hsize := aligned_size h3
    rw [copyWordsDown_eq m (by omega), memmove]
    refine if_congr ?_ rfl rfl
    omega
where
  aligned_size {dst src size : ℕ} (h : ¬ (dst ||| src ||| size) &&& 7 ≠ 0) : size % 8 = 0 := by
    rw [not_not, Nat.and_or_distrib_right, Nat.or_eq_zero_iff] at h
    have h7 : size &&& 7 = size % 8 := Nat.and_two_pow_sub_one_eq_mod size 3
    omega

/-! ### Execution loops -/

variable [PmConfig]

/-- The relocation of a plan entry. -/
def moveOf (obj : ℕ → ObjectDesc) (e : MovePlanEntry) : Move :=
  ⟨e.dst, (obj e.slot).block, e.size⟩

/-- One step of an execution loop: it moves the block and rewrites its descriptor by `f`. -/
structure MoveStep (step : GlobalState → MovePlanEntry → GlobalState)
    (f : MovePlanEntry → ObjectDesc → ObjectDesc) : Prop where
  mem : ∀ G e, (step G e).mem = moveBlock G.mem e.dst (G.objects e.slot).block e.size
  objects : ∀ G e, (step G e).objects = Function.update G.objects e.slot (f e (G.objects e.slot))
  rest : ∀ G e, step G e = { G with mem := (step G e).mem, objects := (step G e).objects }

section Loop

variable {step : GlobalState → MovePlanEntry → GlobalState}
  {f : MovePlanEntry → ObjectDesc → ObjectDesc}

omit [PmConfig] in
/-- An execution loop changes memory and descriptors only. -/
lemma MoveStep.foldl_rest (h : MoveStep step f) (plan : List MovePlanEntry) (G : GlobalState) :
    plan.foldl step G =
      { G with mem := (plan.foldl step G).mem, objects := (plan.foldl step G).objects } := by
  induction plan generalizing G with
  | nil => rfl
  | cons e plan ih =>
      rw [List.foldl_cons, ih, h.rest G e]

omit [PmConfig] in
lemma MoveStep.foldl_pools (h : MoveStep step f) (plan : List MovePlanEntry) (G : GlobalState) :
    (plan.foldl step G).pools = G.pools := by
  rw [h.foldl_rest]

omit [PmConfig] in
lemma MoveStep.foldl_zone (h : MoveStep step f) (plan : List MovePlanEntry) (G : GlobalState) :
    SameZone G (plan.foldl step G) ∧ (plan.foldl step G).freeSlotHead = G.freeSlotHead
      ∧ (plan.foldl step G).liveObjectCount = G.liveObjectCount := by
  rw [h.foldl_rest]
  exact ⟨⟨rfl, rfl, rfl, rfl, rfl⟩, rfl, rfl⟩

omit [PmConfig] in
/-- Slots without an entry keep their descriptor. -/
lemma MoveStep.foldl_other (h : MoveStep step f) {plan : List MovePlanEntry} {i : ℕ}
    (hi : i ∉ plan.map (·.slot)) (G : GlobalState) :
    (plan.foldl step G).objects i = G.objects i := by
  induction plan generalizing G with
  | nil => rfl
  | cons e plan ih =>
      rw [List.map_cons, List.mem_cons, not_or] at hi
      rw [List.foldl_cons, ih hi.2, h.objects, Function.update_of_ne hi.1]

omit [PmConfig] in
/-- Slots with an entry have theirs rewritten by it. -/
lemma MoveStep.foldl_self (h : MoveStep step f) {plan : List MovePlanEntry}
    (hnd : (plan.map (·.slot)).Nodup) {e : MovePlanEntry} (he : e ∈ plan) (G : GlobalState) :
    (plan.foldl step G).objects e.slot = f e (G.objects e.slot) := by
  induction plan generalizing G with
  | nil => exact absurd he List.not_mem_nil
  | cons e' plan ih =>
      rw [List.map_cons, List.nodup_cons] at hnd
      rw [List.foldl_cons]
      rcases List.mem_cons.mp he with rfl | he
      · rw [h.foldl_other hnd.1, h.objects, Function.update_self]
      · have hne : e.slot ≠ e'.slot := fun heq =>
          hnd.1 (heq ▸ List.mem_map_of_mem (f := (·.slot)) he)
        rw [ih hnd.2 he, h.objects, Function.update_of_ne hne]

omit [PmConfig] in
/-- The loop runs the relocations of the plan. -/
lemma MoveStep.foldl_mem (h : MoveStep step f) {plan : List MovePlanEntry}
    (hnd : (plan.map (·.slot)).Nodup) (G : GlobalState) :
    (plan.foldl step G).mem = run G.mem (plan.map (moveOf G.objects)) := by
  induction plan generalizing G with
  | nil => rfl
  | cons e plan ih =>
      rw [List.map_cons, List.nodup_cons] at hnd
      rw [List.foldl_cons, ih hnd.2, List.map_cons, run_cons, h.mem, moveBlock_eq]
      congr 1
      refine List.map_congr_left fun e' he' => ?_
      have hne : e'.slot ≠ e.slot := fun heq =>
        hnd.1 (heq ▸ List.mem_map_of_mem (f := (·.slot)) he')
      rw [moveOf, moveOf, h.objects, Function.update_of_ne hne]

end Loop

/-- The descriptor after a move. -/
def movedDesc (e : MovePlanEntry) (d : ObjectDesc) : ObjectDesc :=
  { d with address := e.dst + 8, addressEpoch := bumpEpoch d.addressEpoch }

omit [PmConfig] in
lemma execMove_step : MoveStep execMove movedDesc :=
  ⟨fun _ _ => rfl, fun _ _ => rfl, fun _ _ => rfl⟩

/-! ### Plans that pack towards the front -/

/-- The plan moves blocks of the address-ordered slots towards the front, none past its own
start and none below the blocks before it; `c` is the end of what has been placed. -/
inductive Packs (obj : ℕ → ObjectDesc) : ℕ → List ℕ → List MovePlanEntry → Prop
  | nil (c : ℕ) : Packs obj c [] []
  | stay {c i : ℕ} {l : List ℕ} {plan : List MovePlanEntry} (hc : c ≤ (obj i).block)
      (h : Packs obj ((obj i).block + (obj i).blockSize) l plan) : Packs obj c (i :: l) plan
  | move {c i d : ℕ} {l : List ℕ} {plan : List MovePlanEntry} (hc : c ≤ d)
      (hd : d ≤ (obj i).block) (h : Packs obj (d + (obj i).blockSize) l plan) :
      Packs obj c (i :: l) (⟨i, d, (obj i).blockSize⟩ :: plan)

section Packing

variable {obj : ℕ → ObjectDesc} {c e stop : ℕ} {l : List ℕ} {plan : List MovePlanEntry}

omit [PmConfig] in
/-- A plan without entries leaves blocks in a row where they are. -/
lemma Packs.rest (h : Fits obj stop e l) (hc : c ≤ e) : Packs obj c l [] := by
  induction l generalizing c e with
  | nil => exact .nil c
  | cons i l ih => exact .stay (hc.trans h.1) (ih h.2 le_rfl)

omit [PmConfig] in
/-- The entries name slots of the list, in its order. -/
lemma Packs.sublist (h : Packs obj c l plan) : (plan.map (·.slot)).Sublist l := by
  induction h with
  | nil c => exact List.Sublist.refl _
  | stay hc h ih => exact ih.cons _
  | move hc hd h ih => exact ih.cons_cons _

omit [PmConfig] in
/-- What an entry says about its block. -/
lemma Packs.entry (h : Packs obj c l plan) {x : MovePlanEntry} (hx : x ∈ plan) :
    c ≤ x.dst ∧ x.dst ≤ (obj x.slot).block ∧ x.size = (obj x.slot).blockSize := by
  induction h with
  | nil c => exact absurd hx List.not_mem_nil
  | stay hc h ih =>
      have := ih hx
      exact ⟨by omega, this.2⟩
  | move hc hd h ih =>
      rcases List.mem_cons.mp hx with rfl | hx
      · exact ⟨hc, hd, rfl⟩
      · have := ih hx
        exact ⟨by omega, this.2⟩

omit [PmConfig] in
/-- No move overwrites a block that has yet to move. -/
lemma Packs.safe (h : Packs obj c l plan) (hfit : Fits obj stop e l) :
    Safe (plan.map (moveOf obj)) := by
  induction h generalizing e with
  | nil c => exact List.Pairwise.nil
  | stay hc h ih => exact ih hfit.2
  | move hc hd h ih =>
      refine List.Pairwise.cons (fun y hy => ?_) (ih hfit.2)
      obtain ⟨x, hx, rfl⟩ := List.mem_map.mp hy
      obtain ⟨hdst, -, -⟩ := h.entry hx
      have hsrc := (hfit.2.bounds (h.sublist.subset (List.mem_map_of_mem hx))).1
      simp only [moveOf, Apart]
      omega

omit [PmConfig] in
/-- The blocks a plan leaves stand in a row. -/
lemma Packs.fits {obj' : ℕ → ObjectDesc} (h : Packs obj c l plan) (hnd : l.Nodup)
    (hfit : Fits obj stop e l) (hc : c ≤ e)
    (hin : ∀ x ∈ plan, (obj' x.slot).block = x.dst)
    (hout : ∀ i ∈ l, i ∉ plan.map (·.slot) → (obj' i).block = (obj i).block)
    (hsize : ∀ i ∈ l, (obj' i).blockSize = (obj i).blockSize) : Fits obj' stop c l := by
  induction h generalizing e with
  | nil c => exact hc.trans hfit
  | stay hcb h ih =>
      rw [List.nodup_cons] at hnd
      have hni : ∀ x, x ∉ _ → _ := fun x hx => fun hm => hx (h.sublist.subset hm)
      have hb := hout _ List.mem_cons_self (hni _ hnd.1)
      have hs := hsize _ List.mem_cons_self
      refine ⟨by rw [hb]; exact hcb, ?_⟩
      rw [hb, hs]
      exact ih hnd.2 hfit.2 le_rfl hin (fun j hj => hout j (List.mem_cons_of_mem _ hj))
        fun j hj => hsize j (List.mem_cons_of_mem _ hj)
  | move hcd hd h ih =>
      rw [List.nodup_cons] at hnd
      have hb := hin _ List.mem_cons_self
      have hs := hsize _ List.mem_cons_self
      dsimp only at hb
      refine ⟨by rw [hb]; exact hcd, ?_⟩
      rw [hb, hs]
      refine ih hnd.2 hfit.2 (by omega) (fun x hx => hin x (List.mem_cons_of_mem _ hx))
        (fun j hj hne => hout j (List.mem_cons_of_mem _ hj) ?_)
        fun j hj => hsize j (List.mem_cons_of_mem _ hj)
      rw [List.map_cons, List.mem_cons, not_or]
      refine ⟨?_, hne⟩
      rintro rfl
      exact hnd.1 hj

end Packing

/-! ### Contents -/

omit [PmConfig] in
/-- After a safe plan whose blocks stand in a row, every block holds the bytes it held
before. -/
theorem run_block {obj obj' : ℕ → ObjectDesc} {l : List ℕ} {plan : List MovePlanEntry} {m : Mem}
    (hsafe : Safe (plan.map (moveOf obj)))
    (hin : ∀ x ∈ plan, (obj' x.slot).block = x.dst ∧ x.slot ∈ l
      ∧ x.size = (obj x.slot).blockSize)
    (hout : ∀ i ∈ l, i ∉ plan.map (·.slot) → (obj' i).block = (obj i).block)
    (hsize : ∀ i ∈ l, (obj' i).blockSize = (obj i).blockSize)
    (hapart : ∀ i ∈ l, ∀ j ∈ l, i ≠ j →
      Apart (obj' i).block (obj' i).blockSize (obj' j).block (obj' j).blockSize)
    {i : ℕ} (hi : i ∈ l) {k : ℕ} (hk : k < (obj i).blockSize) :
    run m (plan.map (moveOf obj)) ((obj' i).block + k) = m ((obj i).block + k) := by
  by_cases hm : i ∈ plan.map (·.slot)
  · obtain ⟨x, hx, rfl⟩ := List.mem_map.mp hm
    obtain ⟨hdst, -, hsz⟩ := hin x hx
    rw [hdst]
    have hlen : k < (moveOf obj x).len := by
      rw [← hsz] at hk
      exact hk
    exact run_dst hsafe (List.mem_map_of_mem hx) hlen m
  · rw [hout i hi hm]
    refine run_other (fun y hy => ?_) m
    obtain ⟨x, hx, rfl⟩ := List.mem_map.mp hy
    obtain ⟨hdst, hxl, hsz⟩ := hin x hx
    have hne : i ≠ x.slot := fun heq => hm (heq ▸ List.mem_map_of_mem (f := (·.slot)) hx)
    have hap := hapart i hi _ hxl hne
    rw [Apart, hout i hi hm, hsize i hi, hsize _ hxl, hdst] at hap
    simp only [moveOf]
    omega

/-! ### Relocated objects -/

/-- What a relocation keeps of a descriptor. -/
structure Kept (d d' : ObjectDesc) : Prop where
  state : d'.state = d.state
  generation : d'.generation = d.generation
  size : d'.size = d.size
  blockSize : d'.blockSize = d.blockSize
  userTag : d'.userTag = d.userTag
  flags : d'.flags = d.flags
  destroyFn : d'.destroyFn = d.destroyFn
  activeBorrows : d'.activeBorrows = d.activeBorrows
  nextFreeSlot : d'.nextFreeSlot = d.nextFreeSlot

omit [PmConfig] in
lemma Kept.pinned {d d' : ObjectDesc} (h : Kept d d') : d'.pinned = d.pinned := by
  rw [ObjectDesc.pinned, ObjectDesc.pinned, h.flags]

/-- From `G` to `G'` the objects of the slots `l` have been relocated, and no others
touched. -/
structure Relocated (G G' : GlobalState) (l : List ℕ) : Prop where
  kept : ∀ i ∈ l, Kept (G.objects i) (G'.objects i)
  pinned : ∀ i ∈ l, (G.objects i).pinned = true → (G'.objects i).address = (G.objects i).address
  order : ∀ i ∈ l, ∀ j ∈ l, (G'.objects i).address < (G'.objects j).address ↔
    (G.objects i).address < (G.objects j).address
  payload : ∀ i ∈ l, ∀ k < (G.objects i).size,
    G'.mem ((G'.objects i).address + k) = G.mem ((G.objects i).address + k)
  other : ∀ i, i ∉ l → G'.objects i = G.objects i

omit [PmConfig] in
/-- A relocation shows in memory and descriptors only. -/
lemma Relocated.congr {G G' C C' : GlobalState} {l : List ℕ} (h : Relocated G G' l)
    (hobj : C.objects = G.objects) (hmem : C.mem = G.mem) (hobj' : C'.objects = G'.objects)
    (hmem' : C'.mem = G'.mem) : Relocated C C' l := by
  refine ⟨?_, ?_, ?_, ?_, ?_⟩ <;> simp only [hobj, hmem, hobj', hmem']
  · exact h.kept
  · exact h.pinned
  · exact h.order
  · exact h.payload
  · exact h.other

omit [PmConfig] in
lemma Kept.refl (d : ObjectDesc) : Kept d d := ⟨rfl, rfl, rfl, rfl, rfl, rfl, rfl, rfl, rfl⟩

omit [PmConfig] in
lemma Kept.trans {d d' d'' : ObjectDesc} (h : Kept d d') (h' : Kept d' d'') : Kept d d'' :=
  ⟨h'.state.trans h.state, h'.generation.trans h.generation, h'.size.trans h.size,
    h'.blockSize.trans h.blockSize, h'.userTag.trans h.userTag, h'.flags.trans h.flags,
    h'.destroyFn.trans h.destroyFn, h'.activeBorrows.trans h.activeBorrows,
    h'.nextFreeSlot.trans h.nextFreeSlot⟩

omit [PmConfig] in
/-- Two functions that order one list the same way agree on its members. -/
lemma lt_iff_of_pairwise {α : Type*} {f g : α → ℕ} {l : List α}
    (hf : l.Pairwise fun x y => f x < f y) (hg : l.Pairwise fun x y => g x < g y) {x y : α}
    (hx : x ∈ l) (hy : y ∈ l) : f x < f y ↔ g x < g y := by
  induction l with
  | nil => exact absurd hx List.not_mem_nil
  | cons z l ih =>
      obtain ⟨hfz, hf⟩ := List.pairwise_cons.mp hf
      obtain ⟨hgz, hg⟩ := List.pairwise_cons.mp hg
      rcases List.mem_cons.mp hx with rfl | hx' <;> rcases List.mem_cons.mp hy with rfl | hy'
      · exact iff_of_false (lt_irrefl _) (lt_irrefl _)
      · exact iff_of_true (hfz y hy') (hgz y hy')
      · exact iff_of_false (lt_asymm (hfz x hx')) (lt_asymm (hgz x hx'))
      · exact ih hf hg hx' hy'

omit [PmConfig] in
lemma apart_of_pairwise {α : Type*} {f n : α → ℕ} {l : List α}
    (h : l.Pairwise fun x y => f x + n x ≤ f y) {x y : α} (hx : x ∈ l) (hy : y ∈ l)
    (hne : x ≠ y) : Apart (f x) (n x) (f y) (n y) := by
  induction l with
  | nil => exact absurd hx List.not_mem_nil
  | cons z l ih =>
      obtain ⟨hz, h⟩ := List.pairwise_cons.mp h
      rcases List.mem_cons.mp hx with rfl | hx' <;> rcases List.mem_cons.mp hy with rfl | hy'
      · exact absurd rfl hne
      · exact Or.inl (hz y hy')
      · exact Or.inr (hz x hx')
      · exact ih h hx' hy'

omit [PmConfig] in
/-- The execution of a safe plan relocates its objects: `G'` has the descriptors of the plan
and, in the payloads, the bytes the plan leaves. -/
theorem relocated_of_plan {G G' : GlobalState} {l : List ℕ} {plan : List MovePlanEntry}
    {e e' stop stop' : ℕ} (hsafe : Safe (plan.map (moveOf G.objects)))
    (hin : ∀ x ∈ plan, (G'.objects x.slot).block = x.dst ∧ x.slot ∈ l
      ∧ x.size = (G.objects x.slot).blockSize)
    (hpin : ∀ x ∈ plan, (G.objects x.slot).pinned = true → x.dst = (G.objects x.slot).block)
    (hout : ∀ i ∈ l, i ∉ plan.map (·.slot) → (G'.objects i).block = (G.objects i).block)
    (hfit : Fits G.objects stop e l) (hfit' : Fits G'.objects stop' e' l)
    (hkept : ∀ i ∈ l, Kept (G.objects i) (G'.objects i))
    (haddr : ∀ i ∈ l, (G.objects i).address = (G.objects i).block + 8
      ∧ (G'.objects i).address = (G'.objects i).block + 8)
    (hsize : ∀ i ∈ l, (G.objects i).size + 8 ≤ (G.objects i).blockSize)
    (hmem : ∀ i ∈ l, ∀ k < (G.objects i).size, G'.mem ((G'.objects i).block + 8 + k) =
      run G.mem (plan.map (moveOf G.objects)) ((G'.objects i).block + 8 + k))
    (hother : ∀ i, i ∉ l → G'.objects i = G.objects i) : Relocated G G' l := by
  -- both layouts stand in a row, so the order of the slots is that of the addresses
  have hlt : ∀ (obj : ℕ → ObjectDesc) (a b : ℕ), Fits obj a b l →
      (∀ i ∈ l, (obj i).blockSize = (G.objects i).blockSize
        ∧ (obj i).address = (obj i).block + 8) →
      l.Pairwise fun i j => (obj i).address < (obj j).address := by
    intro obj a b hf ho
    refine hf.pairwise.imp_of_mem fun {i j} hi hj hij => ?_
    have hs := hsize i hi
    have hoi := ho i hi
    have hoj := ho j hj
    omega
  refine ⟨hkept, fun i hi hp => ?_, fun i hi j hj => ?_, fun i hi k hk => ?_, hother⟩
  · rw [(haddr i hi).1, (haddr i hi).2]
    by_cases hm : i ∈ plan.map (·.slot)
    · obtain ⟨x, hx, rfl⟩ := List.mem_map.mp hm
      rw [(hin x hx).1, hpin x hx hp]
    · rw [hout i hi hm]
  · exact lt_iff_of_pairwise
      (hlt G'.objects _ _ hfit' fun i hi => ⟨(hkept i hi).blockSize, (haddr i hi).2⟩)
      (hlt G.objects _ _ hfit fun i hi => ⟨rfl, (haddr i hi).1⟩) hi hj
  · have hs := hsize i hi
    rw [(haddr i hi).1, (haddr i hi).2, hmem i hi k hk, Nat.add_assoc, Nat.add_assoc]
    refine run_block hsafe hin hout (fun i hi => (hkept i hi).blockSize)
      (fun i hi j hj hne => ?_) hi (by omega)
    exact apart_of_pairwise hfit'.pairwise hi hj hne

end PondMerge
