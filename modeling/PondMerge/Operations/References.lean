import PondMerge.Structure.Global
import PondMerge.Model.Objects

/-!
`check_ref` on the invariant of the whole state.

* `RefOk`, `checkRef_ok`: what an accepted reference has shown, in any state.
* `GlobalInv.screens`: a live descriptor passes the metadata screens of `check_ref`.
* `checkRef_healthy`: in a healthy state `check_ref` refuses for the faults of the reference
  and of the request only.
-/

namespace PondMerge

open ByteMemory LinkedList Tiling

variable [PmConfig]

/-! ### Accepted references -/

/-- What `check_ref` has shown about a reference it accepts. -/
structure RefOk (G : GlobalState) (ref : RawRef) (accessSize : ℕ) (requireRunning : Bool) :
    Prop where
  init : G.initialized = true
  index : ref.index < pmMaxObjects
  generationPos : ref.generation ≠ 0
  live : (G.objects ref.index).state = .live
  generation : (G.objects ref.index).generation = ref.generation
  owner : Active G (G.objects ref.index).poolId
  hint : ref.poolHint = crossHint ∨ ref.poolHint = (G.objects ref.index).poolId
  running : requireRunning = true → (G.pools (G.objects ref.index).poolId).state = .running
  inside : ref.offset + accessSize ≤ (G.objects ref.index).size

omit [PmConfig] in
/-- A guard that an accepted request has passed. -/
lemma of_guard {ε α : Type*} {c : Prop} [Decidable c] {e : ε} {x : Except ε α} {v : α}
    (h : (if c then .error e else x) = .ok v) : ¬ c ∧ x = .ok v := by
  by_cases hc : c
  · rw [if_pos hc] at h
    cases h
  · exact ⟨hc, by rwa [if_neg hc] at h⟩

theorem checkRef_ok {G : GlobalState} {ref : RawRef} {n a addr : ℕ} {rr : Bool}
    (h : checkRef G ref n a rr = .ok addr) :
    RefOk G ref n rr ∧ addr = (G.objects ref.index).address + ref.offset := by
  rw [checkRef] at h
  obtain ⟨hinit, h⟩ := of_guard h
  obtain ⟨hindex, h⟩ := of_guard h
  obtain ⟨hlive, h⟩ := of_guard h
  obtain ⟨hgen, h⟩ := of_guard h
  obtain ⟨-, h⟩ := of_guard h
  obtain ⟨-, h⟩ := of_guard h
  cases hpool : poolAt G (G.objects ref.index).poolId with
  | none =>
      rw [hpool] at h
      cases h
  | some P =>
      rw [hpool] at h
      obtain ⟨hact, rfl⟩ := poolAt_eq_some.mp hpool
      obtain ⟨-, h⟩ := of_guard h
      obtain ⟨-, h⟩ := of_guard h
      obtain ⟨hhint, h⟩ := of_guard h
      obtain ⟨hrun, h⟩ := of_guard h
      obtain ⟨-, h⟩ := of_guard h
      obtain ⟨hinside, h⟩ := of_guard h
      obtain ⟨-, h⟩ := of_guard h
      refine ⟨⟨by simpa using hinit, by omega, by omega, not_not.mp hlive, not_not.mp hgen,
        hact, by tauto, fun hrr => ?_, by omega⟩, (Except.ok.inj h).symm⟩
      by_contra hne
      exact hrun ⟨hrr, hne⟩

/-- The metadata screens an accepted reference has passed. -/
theorem checkRef_screens {G : GlobalState} {ref : RawRef} {n a addr : ℕ} {rr : Bool}
    (h : checkRef G ref n a rr = .ok addr) :
    descBlockConsistent (G.objects ref.index) = true
      ∧ poolGeometryOk G (G.pools (G.objects ref.index).poolId) = true
      ∧ blockInWindow G (G.pools (G.objects ref.index).poolId) (G.objects ref.index) = true := by
  rw [checkRef] at h
  obtain ⟨-, h⟩ := of_guard h
  obtain ⟨-, h⟩ := of_guard h
  obtain ⟨-, h⟩ := of_guard h
  obtain ⟨-, h⟩ := of_guard h
  obtain ⟨hcons, h⟩ := of_guard h
  obtain ⟨-, h⟩ := of_guard h
  cases hpool : poolAt G (G.objects ref.index).poolId with
  | none =>
      rw [hpool] at h
      cases h
  | some P =>
      rw [hpool] at h
      obtain ⟨-, rfl⟩ := poolAt_eq_some.mp hpool
      obtain ⟨hgeo, h⟩ := of_guard h
      obtain ⟨hin, h⟩ := of_guard h
      exact ⟨by simpa using hcons, by simpa using hgeo, by simpa using hin⟩

omit [PmConfig] in
lemma guard_ne_ok {α : Type*} {c : Prop} [Decidable c] {e : Status} {x : Except Status α}
    (he : e ≠ .ok) (hx : x ≠ .error .ok) : (if c then .error e else x) ≠ .error .ok := by
  split_ifs
  · exact fun h => he (Except.error.inj h)
  · exact hx

/-- A refusal of `check_ref` names a failure. -/
lemma checkRef_ne_ok (G : GlobalState) (ref : RawRef) (n a : ℕ) (rr : Bool) :
    checkRef G ref n a rr ≠ .error .ok := by
  rw [checkRef]
  refine guard_ne_ok (by decide) (guard_ne_ok (by decide) (guard_ne_ok (by decide)
    (guard_ne_ok (by decide) (guard_ne_ok (by decide) (guard_ne_ok (by decide) ?_)))))
  cases poolAt G (G.objects ref.index).poolId with
  | none => exact fun h => by cases h
  | some P =>
      exact guard_ne_ok (by decide) (guard_ne_ok (by decide) (guard_ne_ok (by decide)
        (guard_ne_ok (by decide) (guard_ne_ok (by decide) (guard_ne_ok (by decide)
        (guard_ne_ok (by decide) fun h => by cases h))))))

/-! ### The metadata screens -/

/-- Pieces lie on multiples of 8. -/
lemma place_mod {a : ℕ} {u : ℕ × Piece} {L : List Piece} (hok : ∀ t ∈ L, t.Ok)
    (ha : a % 8 = 0) (hu : u ∈ place Piece.len a L) : u.1 % 8 = 0 := by
  obtain ⟨L₁, L₂, rfl, hx⟩ := exists_split (t := u.2) hu
  have := total_mod (L := L₁) fun t ht => hok t (List.mem_append_left _ ht)
  omega

omit [PmConfig] in
/-- The live-slot links of a member name members. -/
lemma OrderOk.links_mem {obj : ℕ → ObjectDesc} {head s : ℕ} {L : List Piece}
    (h : OrderOk obj head L) (hs : s ∈ liveSlots L) :
    ((obj s).addrPrev = noOrder ∨ (obj s).addrPrev ∈ liveSlots L)
      ∧ ((obj s).addrNext = noOrder ∨ (obj s).addrNext ∈ liveSlots L) := by
  obtain ⟨l, hl, hperm⟩ := h
  have hsl := hperm.mem_iff.mpr hs
  exact ⟨(hl.prev_mem hsl).imp_right hperm.mem_iff.mp, (hl.next_mem hsl).imp_right hperm.mem_iff.mp⟩

/-- The live-slot links of a member name slots of the table. -/
lemma OrderOk.links_lt {obj : ℕ → ObjectDesc} {head s : ℕ} {L : List Piece}
    (h : OrderOk obj head L) (hok : ∀ t ∈ L, t.Ok) (hs : s ∈ liveSlots L) :
    ((obj s).addrPrev = noOrder ∨ (obj s).addrPrev < pmMaxObjects)
      ∧ ((obj s).addrNext = noOrder ∨ (obj s).addrNext < pmMaxObjects) := by
  have hlt : ∀ i ∈ liveSlots L, i < pmMaxObjects := by
    intro i hi
    obtain ⟨n, hn⟩ := mem_liveSlots.mp hi
    exact (hok _ hn).1
  obtain ⟨hp, hn⟩ := h.links_mem hs
  exact ⟨hp.imp_right (hlt _), hn.imp_right (hlt _)⟩

lemma PoolInv.geometry {G : GlobalState} {p : ℕ} {L : List Piece} (hz : ZoneOk G)
    (h : PoolInv G p L) : poolGeometryOk G (G.pools p) = true := by
  have hle := h.segLe
  rw [poolGeometryOk]
  simp only [decide_eq_true_eq]
  refine ⟨hle, ?_⟩
  rw [hz.size]
  exact Nat.mul_le_mul_right _ hle

section Screens

variable {G : GlobalState} {Ls : ℕ → List Piece}

/-- A live descriptor passes the metadata screens of `check_ref`. -/
lemma PoolInv.screens {p x s n : ℕ} {L : List Piece} (hz : ZoneOk G) (h : PoolInv G p L)
    (hx : LiveAt (poolStart G (G.pools p)) L x s n) :
    descBlockConsistent (G.objects s) = true ∧ linksInTable (G.objects s) = true
      ∧ blockInWindow G (G.pools p) (G.objects s) = true := by
  have hd := h.desc hx
  obtain ⟨-, hmin, hmod⟩ := hx.size_ge h.layout.pieces
  have hmin16 := PmConfig.minBlock_ge
  have hxmod := place_mod h.layout.pieces (PoolInv.start_mod hz) hx
  have hb := hx.bounds
  have hpos := hd.sizePos
  have hle := hd.sizeLe
  refine ⟨?_, ?_, ?_⟩
  · rw [descBlockConsistent]
    simp only [decide_eq_true_eq, hd.block, hd.address]
    dsimp only at hxmod
    omega
  · rw [linksInTable]
    simp only [decide_eq_true_eq]
    exact h.order.links_lt h.layout.pieces hx.mem_liveSlots
  · have hstart := poolStart_eq G (G.pools p)
    rw [blockInWindow]
    simp only [decide_eq_true_eq, hd.block, hd.address, h.capacity hz]
    omega

/-- What `check_ref` comes to in a healthy state. -/
theorem checkRef_healthy (h : GlobalInv G Ls) (ref : RawRef) (n a : ℕ) (rr : Bool) :
    checkRef G ref n a rr =
      let d := G.objects ref.index
      if pmMaxObjects ≤ ref.index ∨ ref.generation = 0 ∨ d.state ≠ .live
          ∨ d.generation ≠ ref.generation then .error .invalidRef
      else if ref.poolHint ≠ crossHint ∧ ref.poolHint ≠ d.poolId then .error .poolChanged
      else if rr ∧ (G.pools d.poolId).state ≠ .running then .error .busy
      else if !alignmentOk a then .error .invalidAlignment
      else if d.size < ref.offset ∨ d.size - ref.offset < n then .error .invalidRef
      else if (d.address + ref.offset) &&& (a - 1) ≠ 0 then .error .invalidAlignment
      else .ok (d.address + ref.offset) := by
  have hinit := h.zone.init
  rw [checkRef]
  simp only [hinit, Bool.not_true, Bool.false_eq_true, if_false]
  by_cases h1 : pmMaxObjects ≤ ref.index ∨ ref.generation = 0
  · rw [if_pos h1, if_pos (by tauto)]
  rw [if_neg h1]
  by_cases h2 : (G.objects ref.index).state = .live
  swap
  · rw [if_pos h2, if_pos (by tauto)]
  rw [if_neg (not_not.mpr h2)]
  by_cases h3 : (G.objects ref.index).generation = ref.generation
  swap
  · rw [if_pos h3, if_pos (by tauto)]
  rw [if_neg (not_not.mpr h3)]
  rw [if_neg (c := pmMaxObjects ≤ ref.index ∨ _) (by tauto)]
  obtain ⟨hact, hmem⟩ := h.owner (by omega) h2
  have hpool := h.pool _ hact
  obtain ⟨x, k, hx, -⟩ := hpool.desc_of_mem hmem
  obtain ⟨hd, hl, hw⟩ := hpool.screens h.zone hx
  rw [hd, hl, poolAt_eq_some.mpr ⟨hact, rfl⟩]
  simp only [hpool.geometry h.zone, hw, Bool.not_true, Bool.false_eq_true, if_false]

/-- `check_ref` never calls a healthy state corrupt, and no refusal is called `Ok`. -/
lemma checkRef_error (h : GlobalInv G Ls) {ref : RawRef} {n a : ℕ} {rr : Bool} {e : Status}
    (he : checkRef G ref n a rr = .error e) : e ≠ .ok ∧ e ≠ .corruptMetadata := by
  rw [checkRef_healthy h] at he
  dsimp only at he
  split_ifs at he <;> cases he <;> decide

end Screens

end PondMerge
