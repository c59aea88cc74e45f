import PondMerge.Operations.Validate
import PondMerge.Guarantees.Reuse

/-!
`compact` over arbitrary metadata: what its audit lets through it repairs.

* `freeSpots_packed`: repacking leaves at most one free block more than objects;
* `validate_emptyWindow`: a pool without segments passes;
* `Repacked.validate`: repacked slots of non-empty objects pass `validate`;
* `compact_repairs`: a successful `compact` writes inside its window, keeps the payloads of
  the objects on its live-slot list, and rebuilds the rest.
-/

namespace PondMerge

open ByteMemory LinkedList Tiling

variable [PmConfig] {G : GlobalState} {p : ℕ}

/-! ### The free blocks of a packed layout -/

omit [PmConfig] in
lemma freeSpots_append (a : ℕ) (L M : List Piece) :
    freeSpots a (L ++ M) = freeSpots a L ++ freeSpots (a + total Piece.len L) M := by
  rw [freeSpots, place_append, List.filterMap_append]
  rfl

lemma freeSpots_gapPieces (a g : ℕ) : (freeSpots a (gapPieces g)).length ≤ 1 := by
  rw [gapPieces]
  split_ifs <;> simp

/-- A packed layout has a free block in front of an object or at its end only. -/
lemma freeSpots_packed (obj : ℕ → ObjectDesc) (stop : ℕ) (l : List ℕ) (a e : ℕ) :
    (freeSpots a (packed obj stop e l)).length ≤ l.length + 1 := by
  induction l generalizing a e with
  | nil => exact freeSpots_gapPieces a _
  | cons i l ih =>
      rw [packed, freeSpots_append, freeSpots_live, List.length_append, List.length_cons]
      have hgap := freeSpots_gapPieces a ((obj i).block - e)
      have hrest := ih (a + total Piece.len (gapPieces ((obj i).block - e)) + (obj i).blockSize)
        ((obj i).block + (obj i).blockSize)
      omega

/-! ### `validate` behind a rebuild -/

/-- Bins that represent no block at all. -/
lemma BinsRep.empty {P : Pool} {F : ℕ → ℕ → Prop} (h : BinsRep G.zone G.mem P.bins F)
    (hF : ∀ x n, ¬ F x n) {f s : ℕ} (hf : f < flCount) (hs : s < pmSlCount) :
    P.bins.head f s = nullOff := by
  obtain ⟨l, hl⟩ := h.list f hf s hs
  refine hl.head_null.mpr (List.eq_nil_iff_forall_not_mem.mpr fun o ho => ?_)
  obtain ⟨n, hn, -⟩ := (hl.2 o).mp ho
  exact hF _ _ hn

/-- The bins audit finds nothing in empty bins. -/
lemma auditPoolBins_empty {P : Pool} {F : ℕ → ℕ → Prop} (h : BinsRep G.zone G.mem P.bins F)
    (hF : ∀ x n, ¬ F x n) : freeOffsets G P = [] ∧ auditPoolBins G P = some 0 := by
  have hhead := fun f hf s hs => h.empty hF (f := f) (s := s) hf hs
  have hfree : freeOffsets G P = [] := by
    rw [freeOffsets, List.flatMap_eq_nil_iff]
    intro fs hfs
    obtain ⟨hf, hs⟩ := mem_allBins.mp hfs
    rw [hhead fs.1 hf fs.2 hs]
    cases u32 (poolCapacity G P / pmMinBlock + 1) <;> simp [binOffsets]
  refine ⟨hfree, auditPoolBins_iff.mpr ⟨fun f hf s hs => ⟨?_, [], ?_, by simp, by simp⟩, h.flBit,
    by rw [hfree]; rfl⟩⟩
  · rw [h.slBit f hf s]
    exact and_iff_right hs
  · exact hhead f hf s hs

/-- A pool without segments: its descriptor audit finds no object, and `validate` passes. -/
lemma validate_emptyWindow (hz : ZoneOk G) (hp : Active G p) (h : Tiled G p [])
    (hseg : (G.pools p).segmentCount = 0) (hhead : (G.pools p).orderHead = noOrder)
    (hlive : (G.pools p).liveObjects = 0) : validate G p = .ok := by
  have hcap : poolCapacity G (G.pools p) = 0 := by
    rw [poolCapacity, hseg, Nat.zero_mul]
    rfl
  have hcollect : collectLiveSorted G (G.pools p) p pmMaxObjects = some [] := by
    have hwalk : collectWalk G p (pmMaxObjects + 1) pmMaxObjects noOrder noOrder = some [] := by
      simp [collectWalk]
    have hsort : collectSort G [] = [] := (collectSort_perm G (by simp)).eq_nil
    rw [collectLiveSorted, hhead, hwalk]
    simp [hsort, distinctAddresses]
  obtain ⟨hoffs, haudit⟩ := auditPoolBins_empty h.bins fun x n hx => by
    rw [FreeAt, place_nil] at hx
    cases hx
  have hused : (G.pools p).usedBytes = 0 := h.used
  have hfree : (G.pools p).freeBytes = 0 := h.free
  have hlost : (G.pools p).fragmentBytes = 0 := h.lost
  have hmin := PmConfig.minBlock_ge
  rw [validate, if_neg (by simp [hz.init]), poolAt_eq_some.mpr ⟨hp, rfl⟩]
  simp only [hcollect, validateLive, haudit, hoffs, hcap, hused, hfree, hlost, hlive]
  simp [sub32, sweep, sortU32Asc, listOf]
  omega

/-! ### `compact` -/

/-- What a successful `compact` of pool `p` has made of an arbitrary state: `slots` are the
objects of the pool's live-slot list. -/
structure Repaired (G G' : GlobalState) (p : ℕ) (slots : List ℕ) : Prop where
  list : ∃ l, IsDList (fun i => (G.objects i).addrNext) (fun i => (G.objects i).addrPrev)
    noOrder noOrder (G.pools p).orderHead l ∧ l.Perm slots
  writes : ∀ z, ¬ InWindow G p z → G'.mem z = G.mem z
  window : (G'.pools p).segmentFirst = (G.pools p).segmentFirst
    ∧ (G'.pools p).segmentCount = (G.pools p).segmentCount
  payload : ∀ i ∈ slots, (G'.objects i).blockSize = (G.objects i).blockSize
    ∧ ∀ k < (G.objects i).blockSize - 8,
      G'.mem ((G'.objects i).address + k) = G.mem ((G.objects i).address + k)
  others : ∀ i, i ∉ slots → G'.objects i = G.objects i
  rebuilt : ∃ L, Tiled G' p L ∧ liveSlots L = slots
    ∧ ∀ x s n, LiveAt (poolStart G' (G'.pools p)) L x s n →
      (G'.objects s).block = x ∧ (G'.objects s).blockSize = n

/-- Repacked slots of non-empty objects pass `validate`. -/
lemma Repacked.validate {F : GlobalState} {slots : List ℕ} (h : Repacked G F p slots)
    (hz : ZoneOk F) (hp : Active F p) (hsize : ∀ i ∈ slots, 0 < (F.objects i).size) :
    PondMerge.validate F p = .ok := by
  have ha := h.audited
  have hmax : slots.length ≤ pmMaxObjects := by
    have hsub : slots ⊆ List.range pmMaxObjects :=
      fun i hi => List.mem_range.mpr (ha.listed i hi).1
    exact (List.subperm_of_subset ha.nodup hsub).length_le.trans_eq List.length_range
  rcases Nat.eq_zero_or_pos (F.pools p).segmentCount with hseg | hpos
  · -- no block fits an empty window
    have hend : poolEnd F (F.pools p) = poolStart F (F.pools p) := by
      rw [poolEnd, poolStart, hseg, Nat.add_zero]
    have hslots : slots = [] := by
      refine List.eq_nil_iff_forall_not_mem.mpr fun i hi => ?_
      have hb := ha.fits.bounds hi
      have hs := ha.sizeLe i hi
      omega
    subst hslots
    have htiled := h.tiled
    rw [packedLayout, hend, packed, Nat.sub_self, gapPieces,
      if_neg (by have := PmConfig.minBlock_ge; omega),
      if_neg (by omega)] at htiled
    obtain ⟨l, hl, hperm⟩ := ha.order
    obtain rfl := hperm.eq_nil
    exact validate_emptyWindow hz hp htiled hseg hl ha.live
  · have hinv := h.poolInv hpos hsize
    refine (hinv.validate_iff hz hp).mpr ⟨?_, fun n hn => packed_free_ge hn⟩
    have hlen := (hinv.freeOffsets_perm hz).length_eq
    rw [List.length_map] at hlen
    have hcount := freeSpots_packed F.objects (poolEnd F (F.pools p)) slots
      (poolStart F (F.pools p)) (poolStart F (F.pools p))
    rw [hlen, kFreeOffCap, packedLayout]
    omega

/-- **Compaction over arbitrary metadata.**  Let only the zone itself be as `init` left it;
bins, counters, segment fields, live-slot lists, descriptors and zone bytes are arbitrary.  A
`compact` that returns Ok has written inside the window of its pool only, kept the payload
bytes of every object on the pool's live-slot list, and rebuilt the blocks, bins, headers and
counters; and unless one of these objects has size `0`, the pool passes `validate`. -/
theorem compact_repairs (hz : ZoneOk G) {req : Option CompactionRequest} {elapsed : ℕ}
    (hok : (compact G p req elapsed).1 = .ok) :
    ∃ slots, Repaired G (compact G p req elapsed).2.2 p slots
      ∧ ((∀ i ∈ slots, 1 ≤ (G.objects i).size) →
          validate (compact G p req elapsed).2.2 p = .ok) := by
  obtain ⟨hp, -, -, slots, haud, -, heq⟩ := compact_of_ok hz hok
  obtain ⟨-, hpack, hdst⟩ := compactPlan_slots hz haud req
  obtain ⟨hrep, hframe⟩ := compactDone_spec hz haud hpack hdst elapsed
  rw [heq]
  dsimp only
  generalize compactDone G p slots (planOf G p req slots).1 elapsed = C at *
  have hkept := hrep.relocated.kept
  refine ⟨slots, ⟨haud.order, hrep.mem, ⟨hframe.segmentFirst, hframe.segmentCount⟩,
    fun i hi => ⟨(hkept i hi).blockSize, fun k hk => ?_⟩, hrep.relocated.other,
    _, hrep.tiled, liveSlots_packed, fun x s n hx => ?_⟩, fun hsize => ?_⟩
  · have hb := hrep.body i hi (8 + k) (by omega) (by omega)
    rw [hrep.audited.address i hi, haud.address i hi]
    rwa [← Nat.add_assoc, ← Nat.add_assoc] at hb
  · obtain ⟨-, rfl, rfl⟩ := (liveAt_packed hrep.audited.fits).mp hx
    exact ⟨rfl, rfl⟩
  · refine hrep.validate (hz.of_same hframe.zone) ⟨hp.1, ?_⟩ fun i hi => ?_
    · rw [hframe.running]
      decide
    · rw [(hkept i hi).size]
      exact hsize i hi

/-- A pool with one object behind a hole. -/
def holed : GlobalState :=
  letI := defaultConfig
  runOps onePool [.alloc 0 24 8 0 7, .alloc 0 24 8 0 8, .write ⟨1, 0, 1⟩, .free ⟨0, 1, 0, 0⟩ []]

/-- The same pool with garbage for bins, and with a descriptor that claims the hole for a live
object but is on no live-slot list. -/
def damaged : GlobalState :=
  (holed.setObj 5 { holed.objects 1 with address := holed.zone + 8 }).setPool 0
    { holed.pools 0 with
      bins := ⟨12, fun _ => 7, fun f s => 1000 * f + s⟩
      fragmentBytes := 5 }

omit [PmConfig] in
lemma sameZone_overwrite (G : GlobalState) (i p : ℕ) (d : ObjectDesc) (P : Pool) :
    SameZone G ((G.setObj i d).setPool p P) := ⟨rfl, rfl, rfl, rfl, rfl⟩

omit [PmConfig] in
lemma damaged_zone : letI := defaultConfig; ZoneOk damaged := by
  let _ := defaultConfig
  have hreach : Reachable holed := onePool_reachable.runOps _
  obtain ⟨Ls, hinv⟩ := hreach.healthy
  rw [damaged]
  exact hinv.zone.of_same (sameZone_overwrite _ _ _ _ _)

omit [PmConfig] in
/-- The audit follows the live-slot list, so the claimed object is overwritten. -/
theorem damaged_overwrites :
    letI := defaultConfig
    let G' := (compact damaged 0 none 0).2.2
    ZoneOk damaged ∧ (compact damaged 0 none 0).1 = .ok
      ∧ (damaged.objects 5).state = .live ∧ (damaged.objects 5).poolId = 0
      ∧ 0 < (damaged.objects 5).blockSize - 8
      ∧ G'.mem ((G'.objects 5).address + 0) ≠ damaged.mem ((damaged.objects 5).address + 0) := by
  let _ := defaultConfig
  exact ⟨damaged_zone, by decide +kernel, by decide +kernel, by decide +kernel,
    by decide +kernel, by decide +kernel⟩

omit [PmConfig] in
/-- For the object on the list the pool is repaired. -/
theorem compact_repairs_damaged :
    letI := defaultConfig
    validate damaged 0 = .corruptMetadata
      ∧ ∃ slots, Repaired damaged (compact damaged 0 none 0).2.2 0 slots := by
  let _ := defaultConfig
  obtain ⟨slots, hrep, -⟩ := compact_repairs damaged_zone
    (by decide +kernel : (compact damaged 0 none 0).1 = .ok)
  exact ⟨by decide +kernel, slots, hrep⟩

end PondMerge
