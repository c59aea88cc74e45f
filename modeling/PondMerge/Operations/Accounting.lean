import PondMerge.Operations.References
import PondMerge.Model.Run

/-!
The operations that leave the heap alone: borrows, destroy callbacks, pause and resume, and
the writes of clients.

* `SameHeap`: two states whose pools, descriptors and lists describe the same blocks.
* `GlobalInv.sameHeap`: such a step keeps the invariant, with the same layouts.
* `clientWrite_sameHeap`: a client's write misses the metadata.
-/

namespace PondMerge

open ByteMemory LinkedList Tiling

variable [PmConfig]

/-- Two states that differ in counts, annotations and the bytes of payloads only. -/
structure SameHeap (G G' : GlobalState) (Ls : ℕ → List Piece) : Prop where
  zone : SameZone G G'
  shape : ∀ p, SameShape (G.pools p) (G'.pools p)
  state : ∀ p, (G'.pools p).state = (G.pools p).state
    ∨ ((G.pools p).state ≠ .empty
      ∧ ((G'.pools p).state = .running ∨ (G'.pools p).state = .paused))
  empty : ∀ p, (G.pools p).state = .empty → G'.pools p = G.pools p
  block : ∀ i, SameBlock (G.objects i) (G'.objects i)
  next : ∀ i, (G'.objects i).nextFreeSlot = (G.objects i).nextFreeSlot
  freeSlotHead : G'.freeSlotHead = G.freeSlotHead
  liveObjectCount : G'.liveObjectCount = G.liveObjectCount
  mem : ∀ p, Active G p → ∀ x, MetaByte (poolStart G (G.pools p)) (Ls p) x → G'.mem x = G.mem x

lemma SlotsOk.congr {G G' : GlobalState} (h : SlotsOk G)
    (hstate : ∀ i, (G'.objects i).state = (G.objects i).state)
    (hnext : ∀ i, (G'.objects i).nextFreeSlot = (G.objects i).nextFreeSlot)
    (hhead : G'.freeSlotHead = G.freeSlotHead)
    (hcount : G'.liveObjectCount = G.liveObjectCount) : SlotsOk G' := by
  obtain ⟨l, hl, hmem, hlen⟩ := h
  refine ⟨l, ?_, fun i => ?_, ?_⟩
  · rw [hhead]
    exact hl.congr fun i _ => hnext i
  · rw [hstate]
    exact hmem i
  · rw [hcount]
    exact hlen

/-- A step that leaves the heap alone keeps the invariant. -/
theorem GlobalInv.sameHeap {G G' : GlobalState} {Ls : ℕ → List Piece} (h : GlobalInv G Ls)
    (hs : SameHeap G G' Ls) : GlobalInv G' Ls := by
  -- no entry becomes Empty, and no Empty one is filled
  have hact : ∀ p, Active G' p ↔ Active G p := by
    intro p
    rw [Active, Active]
    by_cases hp : (G.pools p).state = .empty
    · rw [hs.empty p hp]
    · rcases hs.state p with he | ⟨hne, he⟩
      · rw [he]
      · refine and_congr_right fun _ => iff_of_true ?_ hp
        rcases he with he | he <;> simp [he]
  refine ⟨h.zone.of_same hs.zone, fun p hp => ?_, fun p hp he => ?_, fun p hp => ?_,
    fun p q hp hq hpq => ?_, fun i hi hl => ?_, fun i hi => ?_, ?_⟩
  · rcases hs.state p with he | ⟨-, he⟩
    · rw [he]
      exact h.settled p hp
    · exact Or.inr he
  · have hold : (G.pools p).state = .empty := by
      rcases hs.state p with he' | ⟨-, he' | he'⟩
      · exact he'.symm.trans he
      · rw [he'] at he
        cases he
      · rw [he'] at he
        cases he
    rw [hs.empty p hold]
    exact h.empty p hp hold
  · have hp' := (hact p).mp hp
    exact (h.pool p hp').congr hs.zone (hs.shape p) (fun i _ => hs.block i) (hs.mem p hp')
  · have := h.apart p q ((hact p).mp hp) ((hact q).mp hq) hpq
    rwa [SegmentsApart, (hs.shape p).segmentFirst, (hs.shape p).segmentCount,
      (hs.shape q).segmentFirst, (hs.shape q).segmentCount]
  · rw [(hs.block i).state] at hl
    obtain ⟨q, hq, hm⟩ := h.owned i hi hl
    exact ⟨q, (hact q).mpr hq, hm⟩
  · rw [(hs.block i).state]
    exact h.idle i hi
  · exact h.slots.congr (fun i => (hs.block i).state) hs.next hs.freeSlotHead hs.liveObjectCount

section Steps

variable {G : GlobalState} {Ls : ℕ → List Piece}

lemma SameHeap.refl (G : GlobalState) (Ls : ℕ → List Piece) : SameHeap G G Ls :=
  ⟨SameZone.refl G, fun _ => SameShape.refl _, fun _ => Or.inl rfl, fun _ _ => rfl,
    fun _ => SameBlock.refl _, fun _ => rfl, rfl, rfl, fun _ _ _ _ => rfl⟩

/-- A new pool entry of the same shape, in a settled state. -/
lemma sameHeap_setPool {p : ℕ} {P : Pool} (hp : (G.pools p).state ≠ .empty)
    (hshape : SameShape (G.pools p) P)
    (hstate : P.state = (G.pools p).state ∨ P.state = .running ∨ P.state = .paused) :
    SameHeap G (G.setPool p P) Ls := by
  refine ⟨⟨rfl, rfl, rfl, rfl, rfl⟩, fun q => ?_, fun q => ?_, fun q hq => ?_,
    fun _ => SameBlock.refl _, fun _ => rfl, rfl, rfl, fun _ _ _ _ => rfl⟩
  · by_cases hqp : q = p
    · subst hqp
      rwa [GlobalState.setPool_pools, Function.update_self]
    · rw [GlobalState.setPool_pools, Function.update_of_ne hqp]
      exact SameShape.refl _
  · by_cases hqp : q = p
    · subst hqp
      rw [GlobalState.setPool_pools, Function.update_self]
      exact hstate.imp_right fun hs => ⟨hp, hs⟩
    · rw [GlobalState.setPool_pools, Function.update_of_ne hqp]
      exact Or.inl rfl
  · have hqp : q ≠ p := by
      rintro rfl
      exact hp hq
    rw [GlobalState.setPool_pools, Function.update_of_ne hqp]

/-- A new descriptor of the same block. -/
lemma sameHeap_setObj {i : ℕ} {d : ObjectDesc} (hblock : SameBlock (G.objects i) d)
    (hnext : d.nextFreeSlot = (G.objects i).nextFreeSlot) : SameHeap G (G.setObj i d) Ls := by
  refine ⟨⟨rfl, rfl, rfl, rfl, rfl⟩, fun _ => SameShape.refl _, fun _ => Or.inl rfl,
    fun _ _ => rfl, fun j => ?_, fun j => ?_, rfl, rfl, fun _ _ _ _ => rfl⟩
  · by_cases hji : j = i
    · subst hji
      rwa [GlobalState.setObj_objects, Function.update_self]
    · rw [GlobalState.setObj_objects, Function.update_of_ne hji]
      exact SameBlock.refl _
  · by_cases hji : j = i
    · subst hji
      rwa [GlobalState.setObj_objects, Function.update_self]
    · rw [GlobalState.setObj_objects, Function.update_of_ne hji]

lemma setDestroyFn_inv (h : GlobalInv G Ls) (ref : RawRef) (fn : Option ℕ) :
    GlobalInv (setDestroyFn G ref fn).2 Ls := by
  rw [setDestroyFn]
  split
  · exact h
  · split_ifs
    · exact h
    · exact h.sameHeap (sameHeap_setObj ⟨rfl, rfl, rfl, rfl, rfl, rfl, rfl, rfl⟩ rfl)

lemma borrowCommit_inv (h : GlobalInv G Ls) {p : ℕ} (hp : Active G p) (i : ℕ) :
    GlobalInv (borrowCommit G p i) Ls := by
  have h₁ := h.sameHeap (sameHeap_setPool (P := { G.pools p with
    borrowCount := u32 ((G.pools p).borrowCount + 1) }) hp.2
    ⟨rfl, rfl, rfl, rfl, rfl, rfl, rfl, rfl⟩ (Or.inl rfl))
  have h₂ := h₁.sameHeap (sameHeap_setObj (i := i) (d := { G.objects i with
    activeBorrows := u32 ((G.objects i).activeBorrows + 1) })
    ⟨rfl, rfl, rfl, rfl, rfl, rfl, rfl, rfl⟩ rfl)
  exact h₂.sameHeap ⟨⟨rfl, rfl, rfl, rfl, rfl⟩, fun _ => SameShape.refl _, fun _ => Or.inl rfl,
    fun _ _ => rfl, fun _ => SameBlock.refl _, fun _ => rfl, rfl, rfl, fun _ _ _ _ => rfl⟩

lemma borrowBegin_inv (h : GlobalInv G Ls) (ref : RawRef) (n a : ℕ) :
    GlobalInv (borrowBegin G ref n a).2.2 Ls := by
  rw [borrowBegin]
  split
  · exact h
  · rename_i addr hok
    exact borrowCommit_inv h (checkRef_ok hok).1.owner _

lemma borrowEnd_inv (h : GlobalInv G Ls) (ref : RawRef) : GlobalInv (borrowEnd G ref) Ls := by
  rw [borrowEnd]
  split_ifs with hok
  · rw [borrowEndOk] at hok
    simp only [decide_eq_true_eq] at hok
    obtain ⟨P, hP⟩ := Option.isSome_iff_exists.mp hok.2.2.2.2.2.2.1
    have hact := (poolAt_eq_some.mp hP).1
    have h₁ := h.sameHeap (sameHeap_setObj (i := ref.index) (d := { G.objects ref.index with
      activeBorrows := (G.objects ref.index).activeBorrows - 1 })
      ⟨rfl, rfl, rfl, rfl, rfl, rfl, rfl, rfl⟩ rfl)
    exact h₁.sameHeap (sameHeap_setPool (hact.2) ⟨rfl, rfl, rfl, rfl, rfl, rfl, rfl, rfl⟩
      (Or.inl rfl))
  · exact h

lemma pause_inv (h : GlobalInv G Ls) (p : ℕ) : GlobalInv (pause G p).2 Ls := by
  rw [pause]
  split
  · exact h
  · rename_i P hP
    obtain ⟨hact, rfl⟩ := poolAt_eq_some.mp hP
    split_ifs
    · exact h
    · exact h
    · exact h.sameHeap (sameHeap_setPool hact.2 ⟨rfl, rfl, rfl, rfl, rfl, rfl, rfl, rfl⟩
        (Or.inr (Or.inr rfl)))

lemma resume_inv (h : GlobalInv G Ls) (p : ℕ) : GlobalInv (resume G p).2 Ls := by
  rw [resume]
  split
  · exact h
  · rename_i P hP
    obtain ⟨hact, rfl⟩ := poolAt_eq_some.mp hP
    split_ifs
    · exact h
    · exact h
    · exact h.sameHeap (sameHeap_setPool hact.2 ⟨rfl, rfl, rfl, rfl, rfl, rfl, rfl, rfl⟩
        (Or.inr (Or.inl rfl)))

/-! ### Writes of clients -/

/-- The payload of a live slot lies in the body of its block. -/
lemma GlobalInv.payload (h : GlobalInv G Ls) {i : ℕ} (hi : i < pmMaxObjects)
    (hl : (G.objects i).state = .live) :
    ∃ x n, Active G (G.objects i).poolId
      ∧ LiveAt (poolStart G (G.pools (G.objects i).poolId)) (Ls (G.objects i).poolId) x i n
      ∧ (G.objects i).address = x + 8 ∧ (G.objects i).blockSize = n
      ∧ (G.objects i).size + 8 ≤ n := by
  obtain ⟨hact, hm⟩ := h.owner hi hl
  obtain ⟨x, n, hx, hd⟩ := (h.pool _ hact).desc_of_mem hm
  exact ⟨x, n, hact, hx, hd.address, hd.block, hd.sizeLe⟩

/-- The body of a live block holds no metadata of any pool. -/
lemma GlobalInv.body_not_meta (h : GlobalInv G Ls) {p q x i n z : ℕ} (hp : Active G p)
    (hq : Active G q) (hx : LiveAt (poolStart G (G.pools p)) (Ls p) x i n) (hlo : x + 8 ≤ z)
    (hhi : z < x + n) : ¬ MetaByte (poolStart G (G.pools q)) (Ls q) z := by
  intro hm
  by_cases hqp : q = p
  · subst hqp
    exact hm.not_body (h.pool q hq).layout.pieces hx ⟨hlo, hhi⟩
  · exact h.window_apart hp hq (Ne.symm hqp)
      ((h.pool p hp).live_inWindow hx (by omega) hhi) ((h.pool q hq).meta_inWindow hm)

/-- A client's write changes bytes of payloads only. -/
lemma clientWrite_sameHeap (h : GlobalInv G Ls) (w : PayloadWrite) :
    SameHeap G (clientWrite G w) Ls := by
  rw [clientWrite]
  split_ifs with hw
  · obtain ⟨hlt, hne, hpos⟩ := hw
    have hl : (G.objects w.slot).state = .live := (h.idle _ hlt).resolve_right hne
    obtain ⟨x, n, hact, hx, haddr, -, hsize⟩ := h.payload hlt hl
    refine ⟨⟨rfl, rfl, rfl, rfl, rfl⟩, fun _ => SameShape.refl _, fun _ => Or.inl rfl,
      fun _ _ => rfl, fun _ => SameBlock.refl _, fun _ => rfl, rfl, rfl, fun q hq z hz => ?_⟩
    refine Function.update_of_ne (fun heq => ?_) _ _
    exact h.body_not_meta hact hq hx (z := z) (by omega) (by omega) hz
  · exact SameHeap.refl G Ls

lemma clientWrite_inv (h : GlobalInv G Ls) (w : PayloadWrite) :
    GlobalInv (clientWrite G w) Ls :=
  h.sameHeap (clientWrite_sameHeap h w)

end Steps

end PondMerge
