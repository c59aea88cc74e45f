import PondMerge.Structure.Pool

/-!
The representation invariant of the whole state: the zone, the pool table, the windows, the
descriptor table and the free-slot list.

* `GlobalInv`: the invariant, with the layout of every pool.
* `GlobalInv.window_apart`: the windows of two pools share no byte.
* `GlobalInv.replace`, `GlobalInv.update`: an operation on some pools, or on one, that leaves
  the descriptors and windows of the others alone keeps the invariant.
-/

namespace PondMerge

open ByteMemory LinkedList Tiling

variable [PmConfig]

/-- Entry `p` of the pool table is a pool. -/
def Active (G : GlobalState) (p : ℕ) : Prop := p < pmMaxPools ∧ (G.pools p).state ≠ .empty

lemma poolAt_eq_some {G : GlobalState} {p : ℕ} {P : Pool} :
    poolAt G p = some P ↔ Active G p ∧ G.pools p = P := by
  rw [poolAt, Active]
  split_ifs with h
  · simp [h]
  · simp [h]

lemma poolAt_eq_none {G : GlobalState} {p : ℕ} : poolAt G p = none ↔ ¬ Active G p := by
  rw [poolAt, Active]
  split_ifs with h
  · simp [h]
  · simp only [true_iff]
    exact h

/-- Two segment ranges share no segment. -/
def SegmentsApart (P Q : Pool) : Prop :=
  P.segmentFirst + P.segmentCount ≤ Q.segmentFirst
    ∨ Q.segmentFirst + Q.segmentCount ≤ P.segmentFirst

/-- An address inside the window of pool `p`. -/
def InWindow (G : GlobalState) (p z : ℕ) : Prop :=
  poolStart G (G.pools p) ≤ z ∧ z < poolEnd G (G.pools p)

/-- The free-slot list: exactly the free slots of the table, and the live count is what is
left. -/
def SlotsOk (G : GlobalState) : Prop :=
  ∃ l, IsChain (fun i => (G.objects i).nextFreeSlot) noSlot G.freeSlotHead l
    ∧ (∀ i, i ∈ l ↔ i < pmMaxObjects ∧ (G.objects i).state = .free)
    ∧ G.liveObjectCount + l.length = pmMaxObjects

/-- The state represents one layout for every pool. -/
structure GlobalInv (G : GlobalState) (Ls : ℕ → List Piece) : Prop where
  zone : ZoneOk G
  settled : ∀ p < pmMaxPools,
    (G.pools p).state = .empty ∨ (G.pools p).state = .running ∨ (G.pools p).state = .paused
  empty : ∀ p < pmMaxPools, (G.pools p).state = .empty → G.pools p = Pool.zero
  pool : ∀ p, Active G p → PoolInv G p (Ls p)
  apart : ∀ p q, Active G p → Active G q → p ≠ q → SegmentsApart (G.pools p) (G.pools q)
  owned : ∀ i < pmMaxObjects, (G.objects i).state = .live →
    ∃ q, Active G q ∧ i ∈ liveSlots (Ls q)
  idle : ∀ i < pmMaxObjects, (G.objects i).state = .live ∨ (G.objects i).state = .free
  slots : SlotsOk G

/-- The state is healthy. -/
def Healthy (G : GlobalState) : Prop := ∃ Ls, GlobalInv G Ls

section Facts

variable {G : GlobalState} {Ls : ℕ → List Piece}

lemma PoolInv.desc_of_mem {p s : ℕ} {L : List Piece} (h : PoolInv G p L)
    (hs : s ∈ liveSlots L) :
    ∃ x n, LiveAt (poolStart G (G.pools p)) L x s n ∧ DescOk (G.objects s) p x n := by
  obtain ⟨x, n, hx⟩ := exists_liveAt (poolStart G (G.pools p)) hs
  exact ⟨x, n, hx, h.desc hx⟩

/-- The live slots of a pool carry its id. -/
lemma PoolInv.poolId {p s : ℕ} {L : List Piece} (h : PoolInv G p L) (hs : s ∈ liveSlots L) :
    (G.objects s).poolId = p ∧ (G.objects s).state = .live := by
  obtain ⟨x, n, -, hd⟩ := h.desc_of_mem hs
  exact ⟨hd.pool, hd.state⟩

/-- The pool that owns a live slot is the one its descriptor names. -/
lemma GlobalInv.owner (h : GlobalInv G Ls) {i : ℕ} (hi : i < pmMaxObjects)
    (hl : (G.objects i).state = .live) :
    Active G (G.objects i).poolId ∧ i ∈ liveSlots (Ls (G.objects i).poolId) := by
  obtain ⟨q, hq, hm⟩ := h.owned i hi hl
  rw [((h.pool q hq).poolId hm).1]
  exact ⟨hq, hm⟩

omit [PmConfig] in
lemma SegmentsApart.symm {P Q : Pool} (h : SegmentsApart P Q) : SegmentsApart Q P :=
  Or.symm h

omit [PmConfig] in
/-- Disjoint segment ranges cover disjoint bytes. -/
lemma SegmentsApart.window {P Q : Pool} (h : SegmentsApart P Q) :
    poolEnd G P ≤ poolStart G Q ∨ poolEnd G Q ≤ poolStart G P := by
  rcases h with h | h
  · refine Or.inl ?_
    rw [poolEnd, poolStart, segBase, segBase]
    have := Nat.mul_le_mul_right G.segmentSize h
    omega
  · refine Or.inr ?_
    rw [poolEnd, poolStart, segBase, segBase]
    have := Nat.mul_le_mul_right G.segmentSize h
    omega

lemma GlobalInv.window_apart (h : GlobalInv G Ls) {p q : ℕ} (hp : Active G p)
    (hq : Active G q) (hpq : p ≠ q) {z : ℕ} (hz : InWindow G p z) : ¬ InWindow G q z := by
  rintro ⟨hlo, hhi⟩
  have hz₁ := hz.1
  have hz₂ := hz.2
  rcases (h.apart p q hp hq hpq).window (G := G) with hw | hw
  · omega
  · omega

/-- Metadata of a pool lies in its window. -/
lemma PoolInv.meta_inWindow {p : ℕ} {L : List Piece} (h : PoolInv G p L) {z : ℕ}
    (hz : MetaByte (poolStart G (G.pools p)) L z) : InWindow G p z := by
  have hb := hz.bounds h.layout.pieces
  rw [← h.end_eq] at hb
  exact hb

/-- Bodies of a pool lie in its window. -/
lemma PoolInv.live_inWindow {p x s n : ℕ} {L : List Piece} (h : PoolInv G p L)
    (hx : LiveAt (poolStart G (G.pools p)) L x s n) {z : ℕ} (hlo : x ≤ z) (hhi : z < x + n) :
    InWindow G p z := by
  have hb := hx.bounds
  rw [← h.end_eq] at hb
  exact ⟨by omega, by omega⟩

/-- Live slots of different pools are different. -/
lemma GlobalInv.slots_apart (h : GlobalInv G Ls) {p q s : ℕ} (hp : Active G p)
    (hq : Active G q) (hs : s ∈ liveSlots (Ls p)) (hs' : s ∈ liveSlots (Ls q)) : p = q :=
  ((h.pool p hp).poolId hs).1.symm.trans ((h.pool q hq).poolId hs').1

/-- An operation on the pools `A`: the other pools keep their entries, descriptors and bytes,
and the pools `A` represent new layouts in windows of their own. -/
theorem GlobalInv.replace (h : GlobalInv G Ls) {G' : GlobalState} {Ls' : ℕ → List Piece}
    {A : ℕ → Prop} (hz : SameZone G G')
    (hpools : ∀ q, ¬ A q → G'.pools q = G.pools q) (hLs : ∀ q, ¬ A q → Ls' q = Ls q)
    (hstate : ∀ q, A q → G'.pools q = Pool.zero
      ∨ (G'.pools q).state = .running ∨ (G'.pools q).state = .paused)
    (hinv : ∀ q, A q → Active G' q → PoolInv G' q (Ls' q))
    (hapart : ∀ q r, A q → Active G' q → Active G' r → q ≠ r →
      SegmentsApart (G'.pools q) (G'.pools r))
    (hobj : ∀ q, ¬ A q → Active G q → ∀ i ∈ liveSlots (Ls q),
      SameBlock (G.objects i) (G'.objects i))
    (hmem : ∀ q, ¬ A q → Active G q → ∀ z, InWindow G q z → G'.mem z = G.mem z)
    (howned : ∀ i < pmMaxObjects, (G'.objects i).state = .live →
      ∃ q, Active G' q ∧ i ∈ liveSlots (Ls' q))
    (hidle : ∀ i < pmMaxObjects, (G'.objects i).state = .live ∨ (G'.objects i).state = .free)
    (hslots : SlotsOk G') : GlobalInv G' Ls' := by
  -- field by field: the pools `A` by hypothesis, the others as before
  have hact : ∀ q, ¬ A q → (Active G' q ↔ Active G q) := by
    intro q hq
    rw [Active, Active, hpools q hq]
  refine ⟨h.zone.of_same hz, fun q hq => ?_, fun q hq he => ?_, fun q hq => ?_,
    fun q r hq hr hqr => ?_, howned, hidle, hslots⟩
  · by_cases hqA : A q
    · rcases hstate q hqA with h0 | hs
      · exact Or.inl (by rw [h0]; rfl)
      · exact Or.inr hs
    · rw [hpools q hqA]
      exact h.settled q hq
  · by_cases hqA : A q
    · rcases hstate q hqA with h0 | hs | hs
      · exact h0
      · rw [hs] at he
        cases he
      · rw [hs] at he
        cases he
    · rw [hpools q hqA] at he ⊢
      exact h.empty q hq he
  · by_cases hqA : A q
    · exact hinv q hqA hq
    · have hqa := (hact q hqA).mp hq
      rw [hLs q hqA]
      exact (h.pool q hqa).congr hz (by rw [hpools q hqA]; exact SameShape.refl _)
        (hobj q hqA hqa) fun z hz' => hmem q hqA hqa z ((h.pool q hqa).meta_inWindow hz')
  · by_cases hqA : A q
    · exact hapart q r hqA hq hr hqr
    · by_cases hrA : A r
      · exact (hapart r q hrA hr hq (Ne.symm hqr)).symm
      · rw [hpools q hqA, hpools r hrA]
        exact h.apart q r ((hact q hqA).mp hq) ((hact r hrA).mp hr) hqr

/-- An operation on one pool `p`: the other pools keep their entries, descriptors and bytes,
pool `p` represents `L'` in the same window, and the live slots are accounted for. -/
theorem GlobalInv.update (h : GlobalInv G Ls) {G' : GlobalState} {p : ℕ} {L' : List Piece}
    (hp : Active G p) (hz : SameZone G G')
    (hpools : ∀ q, q ≠ p → G'.pools q = G.pools q)
    (hstate : (G'.pools p).state = .running ∨ (G'.pools p).state = .paused)
    (hseg : (G'.pools p).segmentFirst = (G.pools p).segmentFirst
      ∧ (G'.pools p).segmentCount = (G.pools p).segmentCount)
    (hinv : PoolInv G' p L')
    (hobj : ∀ i < pmMaxObjects, i ∉ liveSlots (Ls p) → i ∉ liveSlots L' →
      SameBlock (G.objects i) (G'.objects i))
    (hmem : ∀ z, ¬ InWindow G p z → G'.mem z = G.mem z)
    (howned : ∀ i < pmMaxObjects, i ∈ liveSlots (Ls p) → (G'.objects i).state = .live →
      i ∈ liveSlots L')
    (hfresh : ∀ q, Active G q → q ≠ p → ∀ i ∈ liveSlots (Ls q), i ∉ liveSlots L')
    (hidle : ∀ i < pmMaxObjects, (G'.objects i).state = .live ∨ (G'.objects i).state = .free)
    (hslots : SlotsOk G') : GlobalInv G' (Function.update Ls p L') := by
  have hactive : Active G' p := ⟨hp.1, by rcases hstate with hs | hs <;> simp [hs]⟩
  have hact : ∀ q, q ≠ p → (Active G' q ↔ Active G q) := by
    intro q hq
    rw [Active, Active, hpools q hq]
  refine h.replace (A := (· = p)) hz hpools (fun q hq => Function.update_of_ne hq _ _)
    (fun q hq => Or.inr (hq ▸ hstate)) (fun q hq _ => ?_) (fun q r hq _ hr hqr => ?_)
    (fun q hq hqa i hi => ?_) (fun q hq hqa z hz' => hmem z (h.window_apart hqa hp hq hz'))
    (fun i hi hl => ?_) hidle hslots
  · rw [hq, Function.update_self]
    exact hinv
  · have hrp : r ≠ p := fun heq => hqr (hq.trans heq.symm)
    have := h.apart p r hp ((hact r hrp).mp hr) (Ne.symm hrp)
    rwa [SegmentsApart, ← hseg.1, ← hseg.2, ← hpools r hrp, ← hq] at this
  · obtain ⟨n, hn⟩ := mem_liveSlots.mp hi
    exact hobj i ((h.pool q hqa).layout.pieces _ hn).1
      (fun hi' => hq (h.slots_apart hqa hp hi hi')) (hfresh q hqa hq i hi)
  · by_cases hip : i ∈ liveSlots L'
    · exact ⟨p, hactive, by rwa [Function.update_self]⟩
    · have hiold : i ∉ liveSlots (Ls p) := fun hm => hip (howned i hi hm hl)
      have hl' : (G.objects i).state = .live := (hobj i hi hiold hip).state ▸ hl
      obtain ⟨q, hq, hm⟩ := h.owned i hi hl'
      have hqp : q ≠ p := fun heq => hiold (heq ▸ hm)
      exact ⟨q, (hact q hqp).mpr hq, by rwa [Function.update_of_ne hqp]⟩

end Facts

end PondMerge
