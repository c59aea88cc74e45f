import PondMerge.Guarantees.Availability
import PondMerge.Guarantees.Reuse

/-!
The target of a partial compaction.

* `compact_free`: a target that was met within the planning loop leaves a free block of the
  size the loop asked for.
* `targetMet_alloc`: where that size is the one `alloc` computes, the allocation succeeds.
* `target_stops_first`: a plan stops at the first prefix that leaves such a run, if the check
  sees it.
-/

namespace PondMerge

open ByteMemory Tiling

variable [PmConfig] {G : GlobalState} {p : ℕ}

/-- The alignment a request allocates with: `0` stands for `PM_ALIGNMENT`. -/
def targetAlignment (req : CompactionRequest) : ℕ :=
  if req.requestedAlignment = 0 then 8 else req.requestedAlignment

/-- The block a request of `size` bytes needs, rounded up: without a 32-bit overflow it is the
`need` of the planning loop. -/
def roundedNeed (size : ℕ) : ℕ := (size + 15) / 8 * 8

/-- Where the `need` of `compact_impl` is that of `alloc`: no 32-bit overflow, and the default
alignment is admitted.  That it is no smaller than a minimal block is a condition of its own. -/
structure SameNeed (req : CompactionRequest) : Prop where
  noWrap : req.requestedSize + 15 < 2 ^ 32
  alignment : req.requestedAlignment = 0 → 8 ≤ pmMaxAlignment

omit [PmConfig] in
lemma targetNeed_eq {req : CompactionRequest} (hpos : req.requestedSize ≠ 0)
    (hlt : req.requestedSize + 15 < 2 ^ 32) :
    targetNeed (some req) = roundedNeed req.requestedSize := by
  rw [targetNeed, roundedNeed]
  rw [if_neg hpos, u32_of_lt (n := req.requestedSize + 8) (by omega), u32_of_lt (by omega)]

lemma targetAlignment_ok {req : CompactionRequest} (hpos : req.requestedSize ≠ 0)
    (hreq : requestOk (some req) = true) :
    alignmentOk (targetAlignment req) = true ↔
      (req.requestedAlignment = 0 → 8 ≤ pmMaxAlignment) := by
  rw [requestOk, decide_eq_true_eq] at hreq
  rw [targetAlignment, alignmentOk]
  simp only [decide_eq_true_eq]
  split_ifs with h0
  · simp [h0]
  · have h := (hreq.resolve_left hpos).resolve_left h0
    simp [h0, h]

/-- A `compact` whose planning loop met its target leaves a free block of the size it asked
for. -/
theorem compact_free {Ls : ℕ → List Piece} (h : GlobalInv G Ls) (hp : Active G p)
    {req : Option CompactionRequest} (hmin : pmMinBlock ≤ targetNeed req)
    (hmet : (planOf G p req (liveSlots (Ls p))).2 = true) (elapsed : ℕ) :
    let C := compactDone G p (liveSlots (Ls p)) (planOf G p req (liveSlots (Ls p))).1 elapsed
    ∃ n, .free n ∈ packedLayout C p (liveSlots (Ls p)) ∧ targetNeed req ≤ n := by
  dsimp only
  have haud := (h.pool p hp).audited h.zone
  obtain ⟨-, hpack, hdst⟩ := compactPlan_slots h.zone haud req
  obtain ⟨-, hframe⟩ := compactDone_spec h.zone haud hpack hdst elapsed
  have hplaced := @compactDone_placed _ G p _ haud.nodup _ hpack.sublist elapsed
  have hnd := haud.nodup
  obtain ⟨l₁, i, l₂, hl, -, hplan, hrun⟩ := planRow_met hmet
  obtain ⟨hstart, hstop⟩ := hframe.window
  rw [packedLayout, hstart, hstop]
  generalize compactDone G p (liveSlots (Ls p)) (planOf G p req (liveSlots (Ls p))).1 elapsed = C
    at *
  rw [planOf] at hplaced
  rw [hplan, hl] at hplaced
  rw [hl] at hnd ⊢
  obtain ⟨g, hg, hle⟩ := hrun.of_placed hnd hplaced
  exact ⟨g, (free_mem_packed (hmin.trans hle)).mpr hg, hle⟩

/-- The request's own size class lies no higher than that of any larger block of the pool. -/
def ClassesAbove (G : GlobalState) (p need : ℕ) : Prop :=
  ∀ n, need ≤ n → n ≤ poolCapacity G (G.pools p) →
    flBin need < flBin n ∨ (flBin need = flBin n ∧ slBin need ≤ slBin n)

/-- **Soundness of `target_met`.**  Let a `compact` with a target report that it was met, and
let a descriptor slot be free.

An `alloc` of the requested size and alignment then succeeds only where `need` has not wrapped
around 32 bits and the default alignment is admitted; and where `need` is no smaller than a
minimal block and the size classes above it are in order, it succeeds in all these cases. -/
theorem targetMet_alloc (h : Reachable G) {req : CompactionRequest}
    (hpos : req.requestedSize ≠ 0) {elapsed : ℕ} {G' : GlobalState}
    (hmet : compact G p (some req) elapsed = (.ok, true, G'))
    (hslot : ∃ i < pmMaxObjects, (G'.objects i).state = .free) {flags : ℕ}
    (hflags : flags &&& pmUnknownFlags = 0) (tag : ℕ) :
    ((alloc G' p req.requestedSize (targetAlignment req) flags tag).1 = .ok → SameNeed req)
      ∧ (pmMinBlock ≤ roundedNeed req.requestedSize →
        ClassesAbove G p (roundedNeed req.requestedSize) → SameNeed req →
        (alloc G' p req.requestedSize (targetAlignment req) flags tag).1 = .ok) := by
  obtain ⟨Ls, hinv⟩ := h.healthy
  have hok : (compact G p (some req) elapsed).1 = .ok := by rw [hmet]
  obtain ⟨hp, hb, hreq⟩ := compact_asked hinv hok
  have heq := compact_eq hinv hp hb hreq elapsed
  rw [hmet] at heq
  simp only [Prod.mk.injEq, true_and] at heq
  obtain ⟨hreport, hG'⟩ := heq
  obtain ⟨-, hpack, hdst⟩ := compactPlan_slots hinv.zone ((hinv.pool p hp).audited hinv.zone)
    (some req)
  obtain ⟨hinvC, hdone⟩ := compactDone_inv hinv hp hpack hdst elapsed
  have hzone := (compactDone_spec hinv.zone ((hinv.pool p hp).audited hinv.zone) hpack hdst
    elapsed).2.zone
  have hfree := @compact_free _ G p Ls hinv hp (some req)
  rw [← hG'] at hinvC hdone hzone
  have hact : Active G' p := ⟨hp.1, by rw [hdone.running]; decide⟩
  have halign := targetAlignment_ok hpos hreq
  obtain ⟨hno, hask⟩ := alloc_healthy hinvC p req.requestedSize (targetAlignment req) flags tag
  constructor
  · intro hallocOk
    have hasked : AllocAsked G' p req.requestedSize (targetAlignment req) flags := by
      by_contra hna
      obtain ⟨st, hst, -, heq⟩ := hno hna
      rw [heq] at hallocOk
      exact hst hallocOk
    refine ⟨?_, halign.mp hasked.alignOk⟩
    rcases hask hasked with ⟨need, blk, ha, -⟩ | ⟨heq, -⟩
    · have hneed := ha.needEq
      have hspec := allocNeed_spec hneed
      have h31 : 2 ^ pmFlMax ≤ 2 ^ 31 := Nat.pow_le_pow_right (by omega) PmConfig.flMax_le
      omega
    · rw [heq] at hallocOk
      cases hallocOk
  · intro hfloor hclass hsame
    have hneed := targetNeed_eq hpos hsame.noWrap
    have hmet' : (planOf G p (some req) (liveSlots (Ls p))).2 = true := by
      have hne : roundedNeed req.requestedSize ≠ 0 := by
        have := PmConfig.minBlock_ge
        omega
      rw [metOf, hneed] at hreport
      simpa [hne] using hreport.symm
    obtain ⟨n, hn, hle⟩ := hfree (by rw [hneed]; exact hfloor) hmet' elapsed
    rw [hneed] at hle
    rw [← hG'] at hn
    have hpool := hinvC.pool p hact
    rw [Function.update_self] at hpool
    obtain ⟨-, hnlt⟩ := hpool.free_lt hinvC.zone hn
    -- the block lies in the window, which the compaction has kept
    have hncap : n ≤ poolCapacity G (G.pools p) := by
      have hkeep : poolCapacity G' (G'.pools p) = poolCapacity G (G.pools p) := by
        rw [poolCapacity, poolCapacity, hzone.segmentSize, hdone.segments.2]
      have hcap := hpool.capacity hinvC.zone
      have hfreeOf := free_le_freeOf hn
      have htotal := total_eq (packedLayout G' p (liveSlots (Ls p)))
      omega
    have hblock : blockNeed req.requestedSize = roundedNeed req.requestedSize := by
      rw [blockNeed, roundedNeed] at *
      omega
    have hnone := allocNeed_eq req.requestedSize
    rw [hblock, if_pos (by omega)] at hnone
    have hzpop : ZoneOk (popSlot G') := hinvC.zone.of_same ⟨rfl, rfl, rfl, rfl, rfl⟩
    obtain ⟨blk, hfound⟩ := hpool.popSlot.binsFind_some hzpop (by omega)
      hn hle (hclass n hle hncap)
    change binsFind (popSlot G') (G'.pools p).bins _ = _ at hfound
    rcases hask ⟨hact, hdone.running, by omega, halign.mpr hsame.alignment, hflags⟩ with
      ⟨need, blk', -, hok'⟩ | ⟨-, hmiss⟩
    · exact hok'
    · have hmissed := hmiss _ hnone (hinvC.slots.head_ne hslot)
      rw [hfound] at hmissed
      cases hmissed

/-- A request for a single byte more than the size arithmetic of `need` can hold. -/
def wrappedTarget : CompactionRequest := ⟨2 ^ 32 - 1, 0, 0, 0, 0, 0⟩

omit [PmConfig] in
/-- Its `need` wraps around to 8 bytes, which any hole holds; `alloc` refuses the size. -/
theorem wrappedTarget_unmet :
    letI := defaultConfig
    let r := compact onePoolUsed 0 (some wrappedTarget) 0
    Reachable onePoolUsed ∧ r.1 = .ok ∧ r.2.1 = true ∧ (r.2.2.objects 1).state = .free
      ∧ (alloc r.2.2 0 wrappedTarget.requestedSize 8 0 7).1 = .noSpace := by
  let _ := defaultConfig
  exact ⟨onePoolUsed_reachable, by decide +kernel⟩

/-- A request for 100 bytes. -/
def plainTarget : CompactionRequest := ⟨100, 0, 0, 0, 0, 0⟩

omit [PmConfig] in
theorem targetMet_alloc_plain :
    letI := defaultConfig
    (alloc (compact onePoolUsed 0 (some plainTarget) 0).2.2 0 plainTarget.requestedSize
      (targetAlignment plainTarget) 0 7).1 = .ok := by
  let _ := defaultConfig
  obtain ⟨hok, hmet, hfree, hsmall⟩ :
      (compact onePoolUsed 0 (some plainTarget) 0).1 = .ok
        ∧ (compact onePoolUsed 0 (some plainTarget) 0).2.1 = true
        ∧ ((compact onePoolUsed 0 (some plainTarget) 0).2.2.objects 1).state = .free
        ∧ poolCapacity onePoolUsed (onePoolUsed.pools 0) < 2 ^ 24 := by
    decide +kernel
  have hclass : ClassesAbove onePoolUsed 0 (roundedNeed plainTarget.requestedSize) :=
    fun n hle hn => class_mono (by decide) (by decide) hle (lt_of_le_of_lt hn hsmall)
  have heq : compact onePoolUsed 0 (some plainTarget) 0 =
      (.ok, true, (compact onePoolUsed 0 (some plainTarget) 0).2.2) := by
    rw [← hok, ← hmet]
  have hslot : ∃ i < pmMaxObjects,
      ((compact onePoolUsed 0 (some plainTarget) 0).2.2.objects i).state = .free :=
    ⟨1, by decide, hfree⟩
  have halloc := @targetMet_alloc _ onePoolUsed 0 onePoolUsed_reachable plainTarget (by decide) 0
    _ heq hslot 0 (by decide) 7
  have hfloor : pmMinBlock ≤ roundedNeed plainTarget.requestedSize := by decide
  have hsame : SameNeed plainTarget := ⟨by decide, by decide⟩
  convert halloc.2 hfloor hclass hsame

/-! ### The first sufficient prefix -/

/-- The moves `T` leave a contiguous free run of `need` bytes in the pool of `slots`. -/
def Suffices (G : GlobalState) (p : ℕ) (slots : List ℕ) (need : ℕ) (T : List MovePlanEntry) :
    Prop :=
  HasRun (execMoves G T).objects (poolEnd G (G.pools p)) (poolStart G (G.pools p)) slots need

/-- `T` is the shortest prefix of `M` with the property `S`, or all of `M` if none has it. -/
structure StopsAtFirst (S : List MovePlanEntry → Prop) (M T : List MovePlanEntry) : Prop where
  isPrefix : T <+: M
  shortest : ∀ T', T' <+: M → S T' → S T ∧ T.length ≤ T'.length
  all : (∀ T', T' <+: M → ¬ S T') → T = M

/-- After the moves `T` the planning loop reaches a movable object that has a free run of
`need` bytes in front of it or behind it. -/
def Seen (G : GlobalState) (p : ℕ) (slots : List ℕ) (need : ℕ) (T : List MovePlanEntry) : Prop :=
  ∃ l₁ i l₂, slots = l₁ ++ i :: l₂ ∧ (G.objects i).pinned = false
    ∧ packMoves G.objects l₁ (poolStart G (G.pools p)) = T
    ∧ HasRun G.objects (poolEnd G (G.pools p))
      (packedEnd G.objects (poolStart G (G.pools p)) l₁) (i :: l₂) need

/-- The shortest prefix of `M` that leaves a run, unless it is `M`, shows it to the loop. -/
def FirstSeen (G : GlobalState) (p : ℕ) (slots : List ℕ) (need : ℕ) (M : List MovePlanEntry) :
    Prop :=
  ∀ T, T <+: M → T.length < M.length → Suffices G p slots need T →
    (∀ T', T' <+: M → Suffices G p slots need T' → T.length ≤ T'.length) →
    Seen G p slots need T

omit [PmConfig] in
lemma exists_shortest {α : Type} {S : List α → Prop} {M T : List α} (hT : T <+: M) (h : S T) :
    ∃ T₀, T₀ <+: M ∧ S T₀ ∧ ∀ T', T' <+: M → S T' → T₀.length ≤ T'.length := by
  classical
  have hex : ∃ n, ∃ T, T <+: M ∧ S T ∧ T.length = n := ⟨_, T, hT, h, rfl⟩
  obtain ⟨T₀, hT₀, hS, hlen⟩ := Nat.find_spec hex
  exact ⟨T₀, hT₀, hS, fun T' hT' hS' => hlen.le.trans (Nat.find_min' hex ⟨T', hT', hS', rfl⟩)⟩

omit [PmConfig] in
/-- The loop stops at the first sufficient prefix exactly where it sees that prefix's run. -/
lemma planRow_first_iff {slots : List ℕ} {need : ℕ} (hneed : need ≠ 0) (hnd : slots.Nodup)
    (hsub : ((packMoves G.objects slots (poolStart G (G.pools p))).map (·.slot)).Sublist slots) :
    StopsAtFirst (Suffices G p slots need) (packMoves G.objects slots (poolStart G (G.pools p)))
        (planRow G.objects (poolEnd G (G.pools p)) need 0 0 slots (poolStart G (G.pools p)) 0 0).1
      ↔ FirstSeen G p slots need (packMoves G.objects slots (poolStart G (G.pools p))) := by
  generalize hM : packMoves G.objects slots (poolStart G (G.pools p)) = M at *
  generalize hr : planRow G.objects (poolEnd G (G.pools p)) need 0 0 slots
    (poolStart G (G.pools p)) 0 0 = r
  -- what the loop returns: a prefix of the row, the whole row if it has not stopped
  have hpre : r.1 <+: M := by
    rw [← hr, ← hM]
    exact planRow_initial 0 0
  have hunmet : r.2 = false → r.1 = M := by
    rw [← hr, ← hM]
    exact planRow_unmet
  have hmet : r.2 = true → Seen G p slots need r.1 := by
    intro h
    rw [← hr] at h ⊢
    obtain ⟨l₁, i, l₂, hl, hi, hplan, hrun⟩ := planRow_met h
    exact ⟨l₁, i, l₂, hl, hi, hplan.symm, hrun⟩
  -- it stops no later than at a run that it can see, and such a run is there after the moves
  have hseen : ∀ T, Seen G p slots need T → r.1.length ≤ T.length := by
    rintro T ⟨l₁, i, l₂, hl, hi, rfl, hrun⟩
    rw [← hr, hl]
    exact planRow_seen hneed hi hrun
  have hsuff : ∀ T, T <+: M → Seen G p slots need T → Suffices G p slots need T := by
    rintro T hT ⟨l₁, i, l₂, hl, -, rfl, hrun⟩
    have hplaced := execMoves_placed (G := G) hnd ((hT.map (·.slot)).sublist.trans hsub)
    rw [Suffices]
    rw [hl] at hnd hplaced ⊢
    exact hrun.of_placed hnd hplaced
  constructor
  · rintro ⟨-, hshort, -⟩ T hT hlt hS hmin
    obtain ⟨hS', hle⟩ := hshort T hT hS
    have heq : r.1 = T :=
      List.IsPrefix.eq_of_length (List.prefix_of_prefix_length_le hpre hT hle)
        (le_antisymm hle (hmin _ hpre hS'))
    cases hstop : r.2 with
    | true => exact heq ▸ hmet hstop
    | false =>
        rw [← heq, hunmet hstop] at hlt
        exact absurd hlt (lt_irrefl _)
  · intro hfirst
    refine ⟨hpre, fun T hT hS => ?_, fun hnone => ?_⟩
    · obtain ⟨T₀, hT₀, hS₀, hmin⟩ := exists_shortest hT hS
      have hle : r.1.length ≤ T₀.length := by
        by_cases hlt : T₀.length < M.length
        · exact hseen T₀ (hfirst T₀ hT₀ hlt hS₀ hmin)
        · exact hpre.length_le.trans (not_lt.mp hlt)
      have hge : T₀.length ≤ r.1.length := by
        cases hstop : r.2 with
        | true => exact hmin _ hpre (hsuff _ hpre (hmet hstop))
        | false => exact hunmet hstop ▸ hT₀.length_le
      have heq : r.1 = T₀ :=
        List.IsPrefix.eq_of_length (List.prefix_of_prefix_length_le hpre hT₀ hle)
          (le_antisymm hle hge)
      rw [heq]
      exact ⟨hS₀, hmin T hT hS⟩
    · cases hstop : r.2 with
      | true => exact absurd (hsuff _ hpre (hmet hstop)) (hnone _ hpre)
      | false => exact hunmet hstop

/-- **The target's stopping point.**  A `compact` with a target and no budget executes a
prefix `T` of the move list `M` of the full compaction.

It is the shortest prefix that leaves a free run of `need` bytes, and all of `M` where no
prefix does, exactly where the planning loop sees the run of the shortest one. -/
theorem target_stops_first (h : Reachable G) {req : CompactionRequest}
    (hsize : req.requestedSize ≠ 0) (hwrap : req.requestedSize + 15 < 2 ^ 32)
    (hbytes : req.maxMoveBytes = 0) (hobjects : req.maxMoveObjects = 0) {elapsed : ℕ}
    (hok : (compact G p (some req) elapsed).1 = .ok) :
    ∃ slots M T met, compactAudit G p none = .ok (slots, M, true)
      ∧ compactAudit G p (some req) = .ok (slots, T, met)
      ∧ compact G p (some req) elapsed = (.ok, met, compactDone G p slots T elapsed)
      ∧ (∀ i, i ∉ T.map (·.slot) →
        (compactDone G p slots T elapsed).objects i = G.objects i)
      ∧ (StopsAtFirst (Suffices G p slots (roundedNeed req.requestedSize)) M T ↔
        FirstSeen G p slots (roundedNeed req.requestedSize) M) := by
  obtain ⟨Ls, hinv⟩ := h.healthy
  obtain ⟨hp, hb, hreq⟩ := compact_asked hinv hok
  have hpool := hinv.pool p hp
  have haud := hpool.audited hinv.zone
  have hfull : planOf G p none (liveSlots (Ls p)) =
      (packMoves G.objects (liveSlots (Ls p)) (poolStart G (G.pools p)), false) :=
    planRow_full 0 0
  obtain ⟨-, hpack, -⟩ := compactPlan_slots hinv.zone haud none
  rw [hfull] at hpack
  have hplan : (planOf G p (some req) (liveSlots (Ls p))).1 =
      (planRow G.objects (poolEnd G (G.pools p)) (roundedNeed req.requestedSize) 0 0
        (liveSlots (Ls p)) (poolStart G (G.pools p)) 0 0).1 := by
    rw [planOf, targetNeed_eq hsize hwrap, Option.elim_some, Option.elim_some, hbytes, hobjects]
  refine ⟨liveSlots (Ls p), packMoves G.objects (liveSlots (Ls p)) (poolStart G (G.pools p)),
    _, _, ?_, compactAudit_spec hinv.zone hpool hb hreq, compact_eq hinv hp hb hreq elapsed,
    fun i hi => compactDone_other hi elapsed, ?_⟩
  · rw [compactAudit_spec hinv.zone hpool hb rfl, hfull]
    rfl
  · rw [hplan]
    refine planRow_first_iff ?_ haud.nodup hpack.sublist
    rw [roundedNeed]
    omega

/-- A hole of 1024 bytes below a pinned block, and one of 32 bytes above it. -/
def holeBelowPin : GlobalState :=
  letI := defaultConfig
  runOps onePool [.alloc 0 1016 8 0 7, .alloc 0 24 8 pmPinned 7, .alloc 0 24 8 0 7,
    .alloc 0 24 8 0 7, .alloc 0 1944 8 0 7, .free ⟨0, 1, 0, 0⟩ [], .free ⟨3, 1, 0, 0⟩ []]

/-- A request for 1000 bytes. -/
def largeTarget : CompactionRequest := ⟨1000, 0, 0, 0, 0, 0⟩

omit [PmConfig] in
/-- The hole below the pinned block holds the target, and an object is moved all the same. -/
theorem holeBelowPin_overlooked :
    letI := defaultConfig
    Reachable holeBelowPin
      ∧ Suffices holeBelowPin 0 [1, 2, 4] (roundedNeed largeTarget.requestedSize) []
      ∧ compactAudit holeBelowPin 0 none = .ok ([1, 2, 4], [⟨4, 1096, 1952⟩], true)
      ∧ compactAudit holeBelowPin 0 (some largeTarget) =
        .ok ([1, 2, 4], [⟨4, 1096, 1952⟩], false)
      ∧ (compact holeBelowPin 0 (some largeTarget) 0).1 = .ok
      ∧ ((compact holeBelowPin 0 (some largeTarget) 0).2.2.objects 4).addressEpoch ≠
        (holeBelowPin.objects 4).addressEpoch := by
  let _ := defaultConfig
  refine ⟨onePool_reachable.runOps _, ?_⟩
  unfold Suffices
  decide +kernel

/-- A hole of 32 bytes below a block of 32 bytes. -/
def holeBelow : GlobalState :=
  letI := defaultConfig
  runOps onePoolUsed [.alloc 0 24 8 0 7, .free ⟨0, 1, 0, 0⟩ []]

/-- A request for 24 bytes. -/
def smallTarget : CompactionRequest := ⟨24, 0, 0, 0, 0, 0⟩

omit [PmConfig] in
theorem target_stops_first_holeBelow :
    letI := defaultConfig
    ∃ T met, compact holeBelow 0 (some smallTarget) 0 =
        (.ok, met, compactDone holeBelow 0 [1] T 0)
      ∧ StopsAtFirst (Suffices holeBelow 0 [1] 32) [⟨1, 8, 32⟩] T := by
  let _ := defaultConfig
  have hreach : Reachable holeBelow := onePoolUsed_reachable.runOps _
  obtain ⟨hfull, hok⟩ : compactAudit holeBelow 0 none = .ok ([1], [⟨1, 8, 32⟩], true)
      ∧ (compact holeBelow 0 (some smallTarget) 0).1 = .ok := by
    decide +kernel
  obtain ⟨slots, M, T, met, hM, -, heq, -, hfirst⟩ :=
    target_stops_first hreach (by decide) (by decide) rfl rfl hok
  rw [hfull] at hM
  obtain ⟨rfl, rfl⟩ : [1] = slots ∧ [⟨1, 8, 32⟩] = M := by simpa using Except.ok.inj hM
  refine ⟨T, met, heq, hfirst.mpr fun T hT hlt _ _ => ?_⟩
  obtain rfl : T = [] := List.length_eq_zero_iff.mp (Nat.lt_one_iff.mp hlt)
  exact ⟨[], 1, [], rfl, by decide +kernel, rfl, by decide +kernel⟩

end PondMerge
