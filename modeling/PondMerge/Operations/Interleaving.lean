import PondMerge.Operations.Regions

/-!
Between its arming and its commit a maintenance call shares the state with other contexts.  What
they do lies outside its region, so the call might as well have been armed after it.

* `Call.ready_splice`: the call is armed in the other state too.
* `planCall_splice`: it makes the same plan there.
* `CallUnderway.after`: the steps behind it lead to the same state, spliced.
-/

namespace PondMerge

open Tiling

variable [PmConfig]

/-! ### Armed calls -/

/-- The region of a call armed in `H`. -/
def Call.region (H : GlobalState) (Ls : ℕ → List Piece) (L : Locals) : Call → Region
  | .compact p _ _ =>
    ⟨p, p, poolStart H (H.pools p), poolEnd H (H.pools p), liveSlots (Ls p)⟩
  | .merge s t => ⟨s, t, mergeStart H s t, mergeStop H s t, mergeSlots H Ls s t⟩
  | .split s _ => ⟨s, L.nid, poolStart H (H.pools s), poolEnd H (H.pools s), liveSlots (Ls s)⟩

/-- The call passes its arming block in `H`, with locals `L`, and leaves `G`. -/
def Call.Ready (H : GlobalState) (L : Locals) (G : GlobalState) : Call → Prop
  | .compact p _ _ =>
    Active H p ∧ (H.pools p).borrowCount = 0 ∧ L = ⟨(H.pools p).state, .empty, 0⟩
      ∧ G = H.setPool p { H.pools p with state := .compacting }
  | .merge s t =>
    MergeReady H s t ∧ L = ⟨(H.pools s).state, (H.pools t).state, 0⟩ ∧ G = mergeArmed H s t
  | .split s n =>
    SplitReady H s n L.nid ∧ L = ⟨(H.pools s).state, .empty, L.nid⟩ ∧ G = splitArmed H s L.nid

section Armed

variable {H F G : GlobalState} {Ls : ℕ → List Piece} {L : Locals} {c : Call}

/-- What it takes to pass the arming block. -/
theorem armCall_ok_iff (h : GlobalInv H Ls) : armCall H c = (.ok, L, G) ↔ c.Ready H L G := by
  cases c with
  | compact p req elapsed =>
      rw [armCall, h.zone.init]
      by_cases hp : Active H p
      · have hat : poolAt H p = some (H.pools p) := poolAt_eq_some.mpr ⟨hp, rfl⟩
        simp only [hat, compactArm_healthy h hp]
        by_cases hb : (H.pools p).borrowCount = 0
        · simp [Call.Ready, hp, hb, eq_comm]
        · simp [Call.Ready, hp, hb]
      · have hat : poolAt H p = none := poolAt_eq_none.mpr hp
        simp [hat, Call.Ready, hp]
  | merge s t =>
      rw [armCall, h.zone.init]
      by_cases hst : s = t
      · have hno : ¬ MergeReady H s t := fun hr => hr.ne hst
        simp [hst, Call.Ready, hst ▸ hno]
      · obtain ⟨hyes, hno⟩ := mergeArm_healthy h hst
        by_cases hr : MergeReady H s t
        · simp [hst, hyes hr, Call.Ready, hr, eq_comm]
        · obtain ⟨st, heq, hst'⟩ := hno hr
          have hne : st ≠ .ok := by
            rcases hst' with rfl | rfl | rfl <;> decide
          simp [hst, heq, Call.Ready, hr, hne]
  | split s n =>
      rw [armCall, h.zone.init]
      rcases splitArm_healthy (s := s) (n := n) h with ⟨nid, hr, heq⟩ | ⟨hno, st, heq, hst⟩
      · simp only [heq, Call.Ready]
        constructor
        · intro hok
          simp only [Bool.not_true, Bool.false_eq_true, if_false, Option.getD_some,
            Prod.mk.injEq, true_and] at hok
          obtain ⟨rfl, rfl⟩ := hok
          exact ⟨hr, rfl, rfl⟩
        · rintro ⟨hr', hL, rfl⟩
          have hnid : nid = L.nid := Option.some.inj (hr.entry.symm.trans hr'.entry)
          subst hnid
          rw [hL]
          rfl
      · have hne : st ≠ .ok := by
          rcases hst with rfl | rfl | rfl <;> decide
        simp only [heq, Call.Ready]
        simp only [Bool.not_true, Bool.false_eq_true, if_false, Prod.mk.injEq, hne, false_and,
          false_iff]
        exact fun hr => hno ⟨L.nid, hr.1⟩

end Armed

/-! ### Bodies of armed calls -/

section Within

variable {H G : GlobalState} {Ls : ℕ → List Piece} {L : Locals} {c : Call} {p s t n : ℕ}
  {todo : List Micro} {met : Bool}

omit [PmConfig] in
lemma segBase_le (G : GlobalState) {a b : ℕ} (hab : a ≤ b) : segBase G a ≤ segBase G b :=
  Nat.add_le_add_left (Nat.mul_le_mul_right _ hab) _

lemma ZoneOk.segBase_mod (hz : ZoneOk G) (a : ℕ) : segBase G a % 8 = 0 := by
  have h₁ : a * G.segmentSize % 8 = 0 := by
    rw [Nat.mul_mod, hz.segMod, Nat.mul_zero, Nat.zero_mod]
  have h₂ := hz.aligned
  rw [segBase]
  omega

/-- A window between segment borders of the region. -/
lemma ZoneOk.region (hz : ZoneOk H) (hzone : SameZone H G) {R : Region} {x a b y : ℕ}
    (hlo : R.lo = segBase H x) (hhi : R.hi = segBase H y) (hxa : x ≤ a) (hab : a ≤ b)
    (hby : b ≤ y) (hy : y ≤ H.segmentCount) : R.Window G (segBase H a) (segBase H b) := by
  have hlt := hz.zoneSize_lt
  have hend : segBase H y ≤ H.zone + H.zoneSize := by
    rw [hz.size]
    exact segBase_le H hy
  refine ⟨?_, ?_, hlo ▸ segBase_le H hxa, segBase_le H hab, hhi ▸ segBase_le H hby,
    hz.segBase_mod a, hz.segBase_mod b⟩
  · rw [hzone.zone, hlo, segBase]
    exact Nat.le_add_right _ _
  · rw [hzone.zone, hhi]
    omega

/-- A compaction stays inside its window. -/
lemma compact_within (h : GlobalInv H Ls) (hp : Active H p)
    (hb : (H.pools p).borrowCount = 0) {req : Option CompactionRequest} {elapsed : ℕ} :
    let G := H.setPool p { H.pools p with state := .compacting }
    planCall G L (.compact p req elapsed) = .ok (todo, met) →
      WithinAll (Call.region H Ls L (.compact p req elapsed)) G todo := by
  intro G hplan
  have hz : ZoneOk G := h.zone.setPool p _
  have hpool : PoolInv G p (Ls p) := (h.pool p hp).setState .compacting
  have hG : G.pools p = { H.pools p with state := .compacting } := by simp [G]
  have hstart : poolStart G (G.pools p) = poolStart H (H.pools p) := by
    rw [hG]
    rfl
  have hstop : poolEnd G (G.pools p) = poolEnd H (H.pools p) := by
    rw [hG]
    rfl
  have hcount : (G.pools p).borrowCount = 0 := by
    rw [hG]
    exact hb
  -- a request that is out of bounds gets no plan
  have hreq : requestOk req = true := by
    by_contra hbad
    rw [Bool.not_eq_true] at hbad
    rw [planCall, compactAudit_badRequest hz hpool hcount hbad] at hplan
    cases hplan
  have haud := hpool.audited hz
  obtain ⟨-, hpack, hdst⟩ := compactPlan_slots hz haud req
  rw [planCall, compactAudit_spec hz hpool hcount hreq] at hplan
  simp only [Except.ok.injEq, Prod.mk.injEq] at hplan
  obtain ⟨rfl, -⟩ := hplan
  have hfits := haud.fits
  rw [hstart] at hpack
  rw [hstart, hstop] at hfits
  refine withinAll_moves (fun i hi => ⟨haud.blockOk i hi, hfits.bounds hi⟩) (fun m hm => ?_)
    fun Y hY hpools hzone => ⟨Or.inl rfl, ?_, fun i hi => (hY i hi).1⟩
  · obtain ⟨e, he, rfl⟩ := List.mem_map.mp hm
    have hslot := hpack.sublist.subset (List.mem_map_of_mem (f := (·.slot)) he)
    obtain ⟨h₁, h₂, h₃⟩ := hpack.entry he
    have hbound := (hfits.bounds hslot).2
    have hle : e.dst + e.size ≤ poolEnd H (H.pools p) := by omega
    exact ⟨hslot, h₃, (hdst e he).1, h₁, hle⟩
  · have hzone' : SameZone H Y := ⟨hzone.zone, hzone.zoneSize, hzone.segmentSize,
      hzone.segmentCount, hzone.initialized⟩
    have hstart' : poolStart Y (Y.pools p) = poolStart H (H.pools p) := by
      rw [hpools, hG]
      exact hzone'.poolStart rfl
    have hstop' : poolEnd Y (Y.pools p) = poolEnd H (H.pools p) := by
      rw [hpools, hG]
      exact hzone'.poolEnd ⟨rfl, rfl, rfl, rfl, rfl, rfl, rfl, rfl⟩
    rw [hstart', hstop']
    exact h.zone.region hzone' rfl rfl le_rfl (Nat.le_add_right _ _) le_rfl (h.pool p hp).segLe

/-- A merge stays inside the windows of both pools. -/
lemma merge_within (h : GlobalInv H Ls) (hr : MergeReady H s t) :
    planCall (mergeArmed H s t) L (.merge s t) = .ok (todo, met) →
      WithinAll (Call.region H Ls L (.merge s t)) (mergeArmed H s t) todo := by
  intro hplan
  have hpair := hr.pair h
  have hst := hr.ne
  obtain ⟨-, hlo, hhi⟩ := mergeArmed_lower (G := H) hst
  obtain ⟨hstart, hstop, -⟩ := mergeArmed_window (G := H) hst
  obtain ⟨hbad, hgood⟩ := mergeAudit_spec hpair
  -- the audit has passed
  have hmin : NoUndersized (Ls (lowerPool H s t)) ∧ NoUndersized (Ls (upperPool H s t)) := by
    by_contra hno
    rw [planCall, hbad hno] at hplan
    cases hplan
  rw [planCall, hgood hmin] at hplan
  simp only [Except.ok.injEq, Prod.mk.injEq] at hplan
  obtain ⟨rfl, -⟩ := hplan
  obtain ⟨-, hpack, hslots, hdst⟩ := hpair.plan
  have hfits := hpair.fits
  rw [hstart] at hpack hslots hdst
  rw [hstart, hstop] at hfits
  -- every entry is packed inside the merged window
  have hentry : ∀ e ∈ packAll (mergeArmed H s t).objects (mergeSlots H Ls s t) (mergeStart H s t),
      (Call.region H Ls L (.merge s t)).Entry (mergeArmed H s t).objects e := by
    intro e he
    have hslot := hpack.sublist.subset (List.mem_map_of_mem (f := (·.slot)) he)
    obtain ⟨h₁, h₂, h₃⟩ := hpack.entry he
    have hbound := (hfits.bounds hslot).2
    have hle : e.dst + e.size ≤ mergeStop H s t := by omega
    exact ⟨hslot, h₃, (hdst e he).1, h₁, hle⟩
  refine withinAll_moves (fun i hi => ⟨(hpair.blocks hi).1, hfits.bounds hi⟩) (fun m hm => ?_)
    fun Y hY hpools hzone => ⟨⟨Or.inl rfl, Or.inr rfl, fun e he => (hentry e ?_).slot⟩, ?_,
      fun i hi => (hY i hi).1⟩
  · rw [hstart] at hm
    rcases List.mem_append.mp hm with hm | hm
    · obtain ⟨e, he, rfl⟩ := List.mem_map.mp hm
      exact ⟨Or.inr rfl, hentry e (List.mem_of_mem_take he)⟩
    · obtain ⟨e, he, rfl⟩ := List.mem_map.mp hm
      exact ⟨Or.inr rfl, hentry e (List.mem_of_mem_drop he)⟩
  · rw [hstart] at he
    exact he
  · have hzone' : SameZone H Y := ⟨hzone.zone, hzone.zoneSize, hzone.segmentSize,
      hzone.segmentCount, hzone.initialized⟩
    have hshape : ∀ q, SameShape (H.pools q) (Y.pools q) := fun q => by
      rw [hpools]
      exact mergeArmed_shape hst q
    have hlower : lowerPool Y s t = lowerPool H s t := by
      rw [← hlo, lowerPool, lowerPool, hpools]
    have hupper : upperPool Y s t = upperPool H s t := by
      rw [← hhi, upperPool, upperPool, hpools]
    rw [hlower, hupper, hzone'.poolStart (hshape _).segmentFirst, hzone'.poolEnd (hshape _)]
    have hmeet := hr.adjacent.meet
    exact h.zone.region hzone' rfl rfl le_rfl (by omega) le_rfl (h.pool _ hr.active.2).segLe

/-- A split stays inside the window of its source. -/
lemma split_within (h : GlobalInv H Ls) (hr : SplitReady H s n L.nid) :
    planCall (splitArmed H s L.nid) L (.split s n) = .ok (todo, met) →
      WithinAll (Call.region H Ls L (.split s n)) (splitArmed H s L.nid) todo := by
  intro hplan
  have hne := hr.ne
  have hAz : SameZone H (splitArmed H s L.nid) := ⟨rfl, rfl, rfl, rfl, rfl⟩
  have hz := h.zone.of_same hAz
  have hpool := (h.pool s hr.source).splitArmed hne
  have hsh := splitArmed_shape (G := H) hne s
  have hlt : n < ((splitArmed H s L.nid).pools s).segmentCount := by
    rw [hsh.segmentCount]
    exact hr.lt
  have hstart := hAz.poolStart hsh.segmentFirst
  have hstop := hAz.poolEnd hsh
  obtain ⟨hb, -⟩ := splitArmed_geometry (G := H) (n := n) hne
  obtain ⟨-, hbs, hbmod⟩ := splitBoundary_bounds hz hlt
  rw [planCall, splitAudit_eq h hr] at hplan
  cases hsplit : splitPlan (splitArmed H s L.nid) (splitBoundary (splitArmed H s L.nid) s n)
      (poolEnd (splitArmed H s L.nid) ((splitArmed H s L.nid).pools s)) (liveSlots (Ls s))
      (poolStart (splitArmed H s L.nid) ((splitArmed H s L.nid).pools s))
      (splitBoundary (splitArmed H s L.nid) s n)
      (barriersOf (splitArmed H s L.nid) (liveSlots (Ls s))) with
  | error e =>
      rw [hsplit] at hplan
      cases hplan
  | ok plan =>
      rw [hsplit] at hplan
      simp only [Except.ok.injEq, Prod.mk.injEq] at hplan
      obtain ⟨rfl, -⟩ := hplan
      obtain ⟨lows, rights, lefts, upR, upL, c', hshape⟩ := splitPlan_spec hpool.fits le_rfl
        (PoolInv.start_mod hz) rfl hbmod hbs (fun i hi => hpool.blockOk hz hi) hsplit
      obtain ⟨hmoved, hlow, hup, -⟩ := splitMoves_spec hz hpool hlt hshape
      have hfits := hpool.fits
      rw [hstart, hstop] at hfits
      -- every state inside the body has both windows where the source had its own
      have hwindow : ∀ Y, Y.pools = (splitArmed H s L.nid).pools →
          SameZone (splitArmed H s L.nid) Y →
          poolStart Y (Y.pools s) = poolStart H (H.pools s)
            ∧ splitBoundary Y s n = segBase H ((H.pools s).segmentFirst
              + ((H.pools s).segmentCount - n))
            ∧ poolEnd Y (Y.pools s) = poolEnd H (H.pools s) := by
        intro Y hpools hzone
        have hzone' := hAz.trans hzone
        have hshape' : SameShape (H.pools s) (Y.pools s) := by
          rw [hpools]
          exact hsh
        refine ⟨hzone'.poolStart hshape'.segmentFirst, ?_, hzone'.poolEnd hshape'⟩
        rw [splitBoundary, segBase, segBase, hzone'.zone, hzone'.segmentSize, hshape'.segmentFirst,
          hshape'.segmentCount]
      have hpos := hr.lt
      refine withinAll_moves (fun i hi => ⟨hpool.blockOk hz hi, hfits.bounds hi⟩) (fun m hm => ?_)
        fun Y hY hpools hzone => ⟨⟨Or.inl rfl, Or.inr rfl, fun i hi => hi⟩, ?_, ?_,
          fun i hi => (hY i hi).1⟩
      · obtain ⟨e, he, rfl⟩ := List.mem_map.mp hm
        obtain ⟨hslot, hsize, hdst, -⟩ := hshape.entry he
        have hblock := (hmoved.block e he).1
        have hkept := (hmoved.kept e.slot).blockSize
        have hslot' := hslot
        rw [hshape.slots] at hslot'
        have hrange : poolStart H (H.pools s) ≤ e.dst ∧ e.dst + e.size ≤ poolEnd H (H.pools s) := by
          rw [hstart] at hlow
          rw [hstop] at hup
          have hmid₁ := hlow.le
          have hmid₂ := hup.le
          rcases List.mem_append.mp hslot' with hi | hi
          · have := hlow.bounds hi
            omega
          · have := hup.bounds hi
            omega
        exact ⟨hslot, hsize, hdst, hrange⟩
      · obtain ⟨h₁, h₂, -⟩ := hwindow Y hpools hzone
        rw [h₁, h₂]
        exact h.zone.region (hAz.trans hzone) rfl rfl le_rfl (by omega) (by omega)
          (h.pool s hr.source).segLe
      · obtain ⟨-, h₂, h₃⟩ := hwindow Y hpools hzone
        rw [h₂, h₃]
        exact h.zone.region (hAz.trans hzone) rfl rfl (by omega) (by omega) le_rfl
          (h.pool s hr.source).segLe

/-- The body of an armed call stays in its region. -/
theorem planCall_within (h : GlobalInv H Ls) (hr : c.Ready H L G)
    (hplan : planCall G L c = .ok (todo, met)) : WithinAll (c.region H Ls L) G todo := by
  cases c with
  | compact p req elapsed =>
      obtain ⟨hp, hb, -, rfl⟩ := hr
      exact compact_within h hp hb hplan
  | merge s t =>
      obtain ⟨hr, -, rfl⟩ := hr
      exact merge_within h hr hplan
  | split s n =>
      obtain ⟨hr, -, rfl⟩ := hr
      exact split_within h hr hplan

end Within

/-! ### What happens outside -/

/-- `F` differs from `H` outside the region only, and in which entries are Empty not at all. -/
structure Outside (R : Region) (H F : GlobalState) : Prop where
  same : splice R F H = F
  empty : ∀ q, (F.pools q).state = .empty ↔ (H.pools q).state = .empty

section Plans

variable (k : ℕ → ℕ) (obj : ℕ → ObjectDesc)

omit [PmConfig] in
/-- Plans do not read borrows. -/
lemma planRow_borrows (stop need b o : ℕ) (l : List ℕ) (c movedB movedO : ℕ) :
    planRow (fun i => { obj i with activeBorrows := k i }) stop need b o l c movedB movedO =
      planRow obj stop need b o l c movedB movedO := by
  have hgaps : ∀ c l, gaps (fun i => { obj i with activeBorrows := k i }) stop c l =
      gaps obj stop c l := fun c l => gaps_congr fun i _ => ⟨rfl, rfl⟩
  have hrun : ∀ c l, HasRun (fun i => { obj i with activeBorrows := k i }) stop c l need ↔
      HasRun obj stop c l need := fun c l => by rw [HasRun, hgaps, HasRun]
  induction l generalizing c movedB movedO with
  | nil => rfl
  | cons i l ih =>
      simp only [planRow, hrun, ih]
      rfl

omit [PmConfig] in
lemma packAll_borrows (l : List ℕ) (c : ℕ) :
    packAll (fun i => { obj i with activeBorrows := k i }) l c = packAll obj l c := by
  induction l generalizing c with
  | nil => rfl
  | cons i l ih =>
      simp only [packAll, ih]
      rfl

omit [PmConfig] in
lemma splitPlan_borrows {G G' : GlobalState}
    (hobj : G'.objects = fun i => { G.objects i with activeBorrows := k i })
    (boundary stop : ℕ) (l : List ℕ) (lowC upC : ℕ) (bars : List ℕ) :
    splitPlan G' boundary stop l lowC upC bars = splitPlan G boundary stop l lowC upC bars := by
  induction l generalizing lowC upC bars with
  | nil => rfl
  | cons i l ih =>
      simp only [splitPlan, ih, hobj]
      rfl

end Plans

section Outside

variable {H F G : GlobalState} {Ls : ℕ → List Piece} {L : Locals} {c : Call} {R : Region}

omit [PmConfig] in
lemma Outside.pool (hO : Outside R H F) {q : ℕ} (hq : R.Pool q) : F.pools q = H.pools q := by
  rw [← hO.same, splice_pool hq]

lemma Outside.active (hO : Outside R H F) (q : ℕ) : Active F q ↔ Active H q := by
  rw [Active, Active, ne_eq, ne_eq, hO.empty q]

lemma Outside.firstEmpty (hO : Outside R H F) : firstEmptyPool F = firstEmptyPool H := by
  rw [firstEmptyPool, firstEmptyPool]
  congr 1
  funext i
  exact decide_eq_decide.mpr (hO.empty i)

omit [PmConfig] in
/-- Entries of the region are written alike. -/
lemma Outside.setPool (hO : Outside R H F) {q : ℕ} (hq : R.Pool q) (P : Pool) :
    splice R F (H.setPool q P) = F.setPool q P := by
  rw [splice_setPool hq, hO.same]

omit [PmConfig] in
lemma Outside.setPools (hO : Outside R H F) {q r : ℕ} (hq : R.Pool q) (hr : R.Pool r)
    (P Q : Pool) : splice R F ((H.setPool q P).setPool r Q) = (F.setPool q P).setPool r Q := by
  rw [splice_setPool hr, splice_setPool hq, hO.same]

/-- The call is armed in the other state too, with the same locals. -/
theorem Call.ready_splice (hr : c.Ready H L G) (hO : Outside (c.region H Ls L) H F) :
    c.Ready F L (splice (c.region H Ls L) F G) := by
  have hfirst : (c.region H Ls L).Pool (c.region H Ls L).first := Or.inl rfl
  have hsecond : (c.region H Ls L).Pool (c.region H Ls L).second := Or.inr rfl
  have h₁ := hO.pool hfirst
  have h₂ := hO.pool hsecond
  cases c with
  | compact p req elapsed =>
      obtain ⟨hp, hb, hL, rfl⟩ := hr
      replace h₁ : F.pools p = H.pools p := h₁
      refine ⟨(hO.active p).mpr hp, h₁ ▸ hb, h₁ ▸ hL, ?_⟩
      rw [h₁]
      exact hO.setPool hfirst _
  | merge s t =>
      obtain ⟨hr, hL, rfl⟩ := hr
      replace h₁ : F.pools s = H.pools s := h₁
      replace h₂ : F.pools t = H.pools t := h₂
      refine ⟨⟨hr.ne, (hO.active s).mpr hr.source, (hO.active t).mpr hr.target,
        h₁ ▸ hr.sourceIdle, h₂ ▸ hr.targetIdle, ?_⟩, by rw [h₁, h₂]; exact hL, ?_⟩
      · rw [Adjacent, h₁, h₂]
        exact hr.adjacent
      · rw [mergeArmed, mergeArmed, h₁, h₂]
        exact hO.setPools hfirst hsecond _ _
  | split s n =>
      obtain ⟨hr, hL, rfl⟩ := hr
      replace h₁ : F.pools s = H.pools s := h₁
      replace h₂ : F.pools L.nid = H.pools L.nid := h₂
      refine ⟨⟨(hO.active s).mpr hr.source, h₁ ▸ hr.idle, hr.pos, h₁ ▸ hr.lt,
        hO.firstEmpty.trans hr.entry⟩, by rw [h₁]; exact hL, ?_⟩
      rw [splitArmed, splitArmed, h₁, h₂]
      exact hO.setPools hfirst hsecond _ _

/-- A compaction makes the same plan there. -/
lemma compact_planned (h : GlobalInv H Ls) (hF : GlobalInv F Ls) {p : ℕ}
    {req : Option CompactionRequest} {elapsed : ℕ} (hr : (Call.compact p req elapsed).Ready H L G)
    (hrF : (Call.compact p req elapsed).Ready F L (splice R F G)) (hp : R.Pool p) :
    planCall (splice R F G) L (.compact p req elapsed) = planCall G L (.compact p req elapsed) := by
  have audited : ∀ {H G : GlobalState}, GlobalInv H Ls →
      (Call.compact p req elapsed).Ready H L G → compactAudit G p req =
        if requestOk req then .ok (liveSlots (Ls p), (planOf G p req (liveSlots (Ls p))).1,
          metOf G p req (liveSlots (Ls p))) else .error .invalidRequest := by
    rintro H G h ⟨hp, hb, -, rfl⟩
    have hpool := (h.pool p hp).setState .compacting
    have hz := h.zone.setPool p { H.pools p with state := .compacting }
    have hcount :
        ((H.setPool p { H.pools p with state := .compacting }).pools p).borrowCount = 0 := by
      simpa using hb
    cases hreq : requestOk req with
    | true =>
        rw [if_pos rfl]
        exact compactAudit_spec hz hpool hcount hreq
    | false =>
        rw [if_neg Bool.false_ne_true]
        exact compactAudit_badRequest hz hpool hcount hreq
  have hplan : planOf (splice R F G) p req (liveSlots (Ls p)) =
      planOf G p req (liveSlots (Ls p)) := by
    rw [planOf, planOf, splice_pool hp]
    exact planRow_borrows (fun i => (F.objects i).activeBorrows) G.objects _ _ _ _ _ _ _ _
  rw [planCall, planCall, audited hF hrF, audited h hr, metOf, metOf, hplan]

/-- So does a merge. -/
lemma merge_planned (h : GlobalInv H Ls) (hF : GlobalInv F Ls) (hO : Outside R H F) {s t : ℕ}
    (hr : (Call.merge s t).Ready H L G) (hrF : (Call.merge s t).Ready F L (splice R F G))
    (hs : R.Pool s) (ht : R.Pool t) :
    planCall (splice R F G) L (.merge s t) = planCall G L (.merge s t) := by
  obtain ⟨hr, -, rfl⟩ := hr
  obtain ⟨hrF, -, hG⟩ := hrF
  obtain ⟨hlow, hlo⟩ := lowerPool_splice (F := F) (X := mergeArmed H s t) hs ht
  have hlower : lowerPool F s t = lowerPool H s t := by
    rw [← hO.same, (lowerPool_splice hs ht).1]
  have hupper : upperPool F s t = upperPool H s t := by
    rw [← hO.same, (upperPool_splice hs ht).1]
  have hstart : mergeStart (splice R F (mergeArmed H s t)) s t =
      mergeStart (mergeArmed H s t) s t := by
    rw [mergeStart, hlow, splice_pool hlo]
    rfl
  obtain ⟨hbad, hgood⟩ := mergeAudit_spec (hr.pair h)
  obtain ⟨hbadF, hgoodF⟩ := mergeAudit_spec (hrF.pair hF)
  rw [hlower, hupper, ← hG] at hbadF hgoodF
  by_cases hmin : NoUndersized (Ls (lowerPool H s t)) ∧ NoUndersized (Ls (upperPool H s t))
  · have hpack := packAll_borrows (fun i => (F.objects i).activeBorrows) (mergeArmed H s t).objects
      (liveSlots (Ls (lowerPool H s t)) ++ liveSlots (Ls (upperPool H s t)))
      (mergeStart (mergeArmed H s t) s t)
    have haudit : mergeAudit (splice R F (mergeArmed H s t)) s t =
        mergeAudit (mergeArmed H s t) s t := by
      rw [hgood hmin, hgoodF hmin, hstart]
      exact congrArg (fun plan => Except.ok (liveSlots (Ls (lowerPool H s t)),
        liveSlots (Ls (upperPool H s t)), plan)) hpack
    rw [planCall, planCall, haudit, splice_pool hs, splice_pool ht]
  · rw [planCall, planCall, hbad hmin, hbadF hmin]

/-- So does a split. -/
lemma split_planned (h : GlobalInv H Ls) (hF : GlobalInv F Ls) {s n : ℕ}
    (hr : (Call.split s n).Ready H L G) (hrF : (Call.split s n).Ready F L (splice R F G))
    (hs : R.Pool s) :
    planCall (splice R F G) L (.split s n) = planCall G L (.split s n) := by
  obtain ⟨hr, -, rfl⟩ := hr
  obtain ⟨hrF, -, hG⟩ := hrF
  have hauditF := splitAudit_eq hF hrF
  rw [← hG, splitBoundary, splice_pool hs, splitPlan_borrows
    (fun i => (F.objects i).activeBorrows) (G := splitArmed H s L.nid) rfl] at hauditF
  have haudit : splitAudit (splice R F (splitArmed H s L.nid)) s n =
      splitAudit (splitArmed H s L.nid) s n := hauditF.trans (splitAudit_eq h hr).symm
  rw [planCall, planCall, haudit]

/-- The call makes the same plan there. -/
theorem planCall_splice (h : GlobalInv H Ls) (hF : GlobalInv F Ls) (hr : c.Ready H L G)
    (hO : Outside (c.region H Ls L) H F) :
    planCall (splice (c.region H Ls L) F G) L c = planCall G L c := by
  have hrF := Call.ready_splice hr hO
  cases c with
  | compact p req elapsed => exact compact_planned h hF hr hrF (Or.inl rfl)
  | merge s t => exact merge_planned h hF hO hr hrF (Or.inl rfl) (Or.inr rfl)
  | split s n => exact split_planned h hF hr hrF (Or.inl rfl)

end Outside

/-! ### Calls under way -/

/-- The call has been armed in `H`, and the steps `done` of its body have been made since. -/
structure CallUnderway (H : GlobalState) (Ls : ℕ → List Piece) (L : Locals) (c : Call)
    (X : GlobalState) : Prop where
  inv : GlobalInv H Ls
  body : ∃ G done todo, c.Ready H L G ∧ WithinAll (c.region H Ls L) G (done ++ todo)
    ∧ X = done.foldl Micro.run G

/-- The state `X` of a call armed in `H`, seen from outside of its region: everything there is as
in `H`, and inside no borrow can begin, end or be written through. -/
structure Aside (R : Region) (H X : GlobalState) : Prop where
  zone : SameZone H X
  same : splice R H X = X
  busy : ∀ q, R.Pool q → (X.pools q).state ≠ .empty ∧ (X.pools q).state ≠ .running
    ∧ (X.pools q).state ≠ .paused
  idle : ∀ q, R.Pool q → (X.pools q).borrowCount = 0 ∧ (H.pools q).borrowCount = 0
  owned : ∀ i ∈ R.slots, R.Pool (H.objects i).poolId ∧ R.Pool (X.objects i).poolId
  other : ∀ i, i ∉ R.slots → X.objects i = H.objects i
  bytes : ∀ z, R.lo ≤ z → z < R.hi → ∃ q, R.Pool q ∧ Active H q ∧ InWindow H q z

section CallUnderway

variable {H F G X : GlobalState} {Ls : ℕ → List Piece} {L : Locals} {c : Call} {R : Region}

/-- The state behind the arming block is determined. -/
lemma Call.Ready.unique {G' : GlobalState} (hr : c.Ready H L G) (hr' : c.Ready H L G') :
    G = G' := by
  cases c with
  | compact p req elapsed => exact hr.2.2.2.trans hr'.2.2.2.symm
  | merge s t => exact hr.2.2.trans hr'.2.2.symm
  | split s n => exact hr.2.2.trans hr'.2.2.symm

/-- Arming changes the region's entries only. -/
lemma Call.Ready.frame (h : GlobalInv H Ls) (hr : c.Ready H L G) :
    SameZone H G ∧ G.objects = H.objects
      ∧ (∀ q, (c.region H Ls L).Pool q → (G.pools q).state ≠ .empty
        ∧ (G.pools q).state ≠ .running ∧ (G.pools q).state ≠ .paused)
      ∧ ∀ q, (c.region H Ls L).Pool q →
        (G.pools q).borrowCount = 0 ∧ (H.pools q).borrowCount = 0 := by
  cases c with
  | compact p req elapsed =>
      obtain ⟨-, hb, -, rfl⟩ := hr
      have hpool : ∀ q, (Call.region H Ls L (.compact p req elapsed)).Pool q → q = p :=
        fun q hq => hq.elim id id
      refine ⟨⟨rfl, rfl, rfl, rfl, rfl⟩, rfl, fun q hq => ?_, fun q hq => ?_⟩
      · rw [hpool q hq]
        simp
      · rw [hpool q hq]
        simpa using hb
  | merge s t =>
      obtain ⟨hr, -, rfl⟩ := hr
      have hpool : ∀ q, (Call.region H Ls L (.merge s t)).Pool q → q = s ∨ q = t := fun q hq => hq
      refine ⟨⟨rfl, rfl, rfl, rfl, rfl⟩, rfl, fun q hq => ?_, fun q hq => ?_⟩
      · rw [mergeArmed_pools hr.ne, if_pos (hpool q hq)]
        simp
      · rw [mergeArmed_pools hr.ne, if_pos (hpool q hq)]
        rcases hpool q hq with rfl | rfl
        · exact ⟨hr.sourceIdle, hr.sourceIdle⟩
        · exact ⟨hr.targetIdle, hr.targetIdle⟩
  | split s n =>
      obtain ⟨hr, -, rfl⟩ := hr
      have hpool : ∀ q, (Call.region H Ls L (.split s n)).Pool q → q = s ∨ q = L.nid :=
        fun q hq => hq
      obtain ⟨hlt, hempty, -⟩ := firstEmptyPool_some hr.entry
      -- the entry of the new pool was Empty, so it counts no borrows
      have hzero : (H.pools L.nid).borrowCount = 0 := by
        rw [h.empty L.nid hlt hempty]
        rfl
      refine ⟨⟨rfl, rfl, rfl, rfl, rfl⟩, rfl, fun q hq => ?_, fun q hq => ?_⟩
      · rw [splitArmed_pools hr.ne, if_pos (hpool q hq)]
        simp
      · rw [splitArmed_pools hr.ne, if_pos (hpool q hq)]
        rcases hpool q hq with rfl | rfl
        · exact ⟨hr.idle, hr.idle⟩
        · exact ⟨hzero, hzero⟩

/-- The objects of the region are the live ones of its pools. -/
lemma Call.Ready.owned (h : GlobalInv H Ls) (hr : c.Ready H L G) {i : ℕ}
    (hi : i ∈ (c.region H Ls L).slots) : (c.region H Ls L).Pool (H.objects i).poolId := by
  cases c with
  | compact p req elapsed =>
      obtain ⟨hp, -⟩ := hr
      exact Or.inl ((h.pool p hp).poolId hi).1
  | merge s t =>
      obtain ⟨hr, -⟩ := hr
      rcases mem_mergeSlots.mp hi with hi | hi
      · exact Or.inl ((h.pool s hr.source).poolId hi).1
      · exact Or.inr ((h.pool t hr.target).poolId hi).1
  | split s n =>
      obtain ⟨hr, -⟩ := hr
      exact Or.inl ((h.pool s hr.source).poolId hi).1

/-- The bytes of the region are those of its pools' windows. -/
lemma Call.Ready.bytes (hr : c.Ready H L G) {z : ℕ} (hlo : (c.region H Ls L).lo ≤ z)
    (hhi : z < (c.region H Ls L).hi) :
    ∃ q, (c.region H Ls L).Pool q ∧ Active H q ∧ InWindow H q z := by
  cases c with
  | compact p req elapsed =>
      obtain ⟨hp, -⟩ := hr
      exact ⟨p, Or.inl rfl, hp, hlo, hhi⟩
  | merge s t =>
      obtain ⟨hr, -⟩ := hr
      have hmeet := poolEnd_adjacent (G := H) hr.adjacent.meet
      have hpools : ∀ q, q = lowerPool H s t ∨ q = upperPool H s t → q = s ∨ q = t := by
        intro q hq
        rcases lower_upper H s t with ⟨-, h₁, h₂⟩ | ⟨-, h₁, h₂⟩
        · rw [h₁, h₂] at hq
          exact hq
        · rw [h₁, h₂] at hq
          exact hq.symm
      obtain ⟨hal, hau⟩ := hr.active
      by_cases hz : z < poolEnd H (H.pools (lowerPool H s t))
      · exact ⟨_, hpools _ (Or.inl rfl), hal, hlo, hz⟩
      · exact ⟨_, hpools _ (Or.inr rfl), hau, by rw [← hmeet]; omega, hhi⟩
  | split s n =>
      obtain ⟨hr, -⟩ := hr
      exact ⟨s, Or.inl rfl, hr.source, hlo, hhi⟩

omit [PmConfig] in
lemma Outside.zone (hO : Outside R H F) : SameZone H F := by
  rw [← hO.same]
  exact ⟨rfl, rfl, rfl, rfl, rfl⟩

omit [PmConfig] in
/-- The region is the same in both states. -/
lemma Call.region_splice (hO : Outside (c.region H Ls L) H F) :
    c.region F Ls L = c.region H Ls L := by
  have hz := hO.zone
  have h₁ := hO.pool (q := (c.region H Ls L).first) (Or.inl rfl)
  have hstart : ∀ P, poolStart F P = poolStart H P := fun P => hz.poolStart rfl
  have hend : ∀ P, poolEnd F P = poolEnd H P := fun P =>
    hz.poolEnd ⟨rfl, rfl, rfl, rfl, rfl, rfl, rfl, rfl⟩
  cases c with
  | compact p req elapsed =>
      replace h₁ : F.pools p = H.pools p := h₁
      rw [Call.region, Call.region, h₁, hstart, hend]
  | merge s t =>
      have hs : (Call.region H Ls L (.merge s t)).Pool s := Or.inl rfl
      have ht : (Call.region H Ls L (.merge s t)).Pool t := Or.inr rfl
      obtain ⟨hlow, hlo⟩ := lowerPool_splice (F := F) (X := H) hs ht
      obtain ⟨hup, hhi⟩ := upperPool_splice (F := F) (X := H) hs ht
      have hL := hO.pool hlo
      have hU := hO.pool hhi
      rw [hO.same] at hlow hup
      rw [Call.region, Call.region, mergeStart, mergeStop, mergeSlots, hlow, hup, hL, hU, hstart,
        hend]
      rfl
  | split s n =>
      replace h₁ : F.pools s = H.pools s := h₁
      rw [Call.region, Call.region, h₁, hstart, hend]

/-- Armed in a state that is the same inside the region, the same steps lead to the same state,
but for what is outside. -/
theorem CallUnderway.after (hX : CallUnderway H Ls L c X) (hF : GlobalInv F Ls)
    (hO : Outside (c.region H Ls L) H F) :
    CallUnderway F Ls L c (splice (c.region H Ls L) F X) := by
  obtain ⟨h, G, done, todo, hr, hin, rfl⟩ := hX
  refine ⟨hF, splice (c.region H Ls L) F G, done, todo, Call.ready_splice hr hO, ?_, ?_⟩
  · rw [Call.region_splice hO]
    exact hin.splice
  · exact hin.foldl_splice.symm

/-- From outside, a call under way has changed nothing. -/
theorem CallUnderway.aside (hX : CallUnderway H Ls L c X) : Aside (c.region H Ls L) H X := by
  obtain ⟨h, G, done, todo, hr, hin, rfl⟩ := hX
  obtain ⟨hz, hobj, hbusy, hidle⟩ := hr.frame h
  have htame := hin.foldl_tame
  have hsame : splice (c.region H Ls L) H G = G :=
    (Call.ready_splice hr ⟨splice_self, fun _ => Iff.rfl⟩).unique hr
  refine ⟨hz.trans htame.zone, ?_, fun q hq => ?_, fun q hq => ?_, fun i hi => ?_, fun i hi => ?_,
    fun z hlo hhi => hr.bytes hlo hhi⟩
  · rw [← hin.foldl_splice, hsame]
  · rw [(htame.entries q).1]
    exact hbusy q hq
  · rw [(htame.entries q).2]
    exact hidle q hq
  · have hown := hr.owned h hi
    exact ⟨hown, htame.owner i hi (by rw [hobj]; exact hown)⟩
  · rw [htame.other i hi, hobj]

end CallUnderway

/-! ### Steps of the other contexts -/

/-- A step outside of the region, taken from `H` to `H'` and from `X` to `X'` alike. -/
structure Outer (R : Region) (H X H' X' : GlobalState) : Prop where
  there : splice R H' H = H'
  here : splice R H' X = X'

section Outer

variable {H X H₁ X₁ H₂ X₂ : GlobalState} {R : Region} {q i : ℕ}

omit [PmConfig] in
lemma Outer.refl (h : splice R H X = X) : Outer R H X H X := ⟨splice_self, h⟩

omit [PmConfig] in
lemma Outer.trans (h : Outer R H X H₁ X₁) (h' : Outer R H₁ X₁ H₂ X₂) : Outer R H X H₂ X₂ := by
  refine ⟨?_, ?_⟩
  · calc splice R H₂ H
        = splice R H₂ (splice R H₁ H) := splice_splice.symm
      _ = H₂ := by rw [h.there, h'.there]
  · calc splice R H₂ X
        = splice R H₂ (splice R H₁ X) := splice_splice.symm
      _ = X₂ := by rw [h.here, h'.here]

omit [PmConfig] in
lemma Outer.same (h : Outer R H X H₁ X₁) : splice R H₁ X₁ = X₁ := by
  rw [← h.here, splice_splice]

omit [PmConfig] in
lemma splice_setPool_outer (h : splice R H X = X) (hq : ¬ R.Pool q) (P : Pool) :
    splice R (H.setPool q P) X = X.setPool q P := by
  rw [← h, splice_splice]
  refine GlobalState.ext rfl rfl rfl rfl ?_ rfl rfl rfl rfl rfl rfl rfl rfl rfl rfl
  funext r
  by_cases hr : R.Pool r
  · have hne : r ≠ q := fun heq => hq (heq ▸ hr)
    rw [splice_pool hr, GlobalState.setPool_pools, Function.update_of_ne hne, splice_pool hr]
  · rw [splice_pool_other hr, GlobalState.setPool_pools, GlobalState.setPool_pools,
      Function.update_apply, Function.update_apply, splice_pool_other hr]

omit [PmConfig] in
/-- The entry of a pool outside. -/
lemma Outer.setPool (h : splice R H X = X) (hq : ¬ R.Pool q) (P : Pool) :
    Outer R H X (H.setPool q P) (X.setPool q P) :=
  ⟨splice_setPool_outer splice_self hq P, splice_setPool_outer h hq P⟩

omit [PmConfig] in
lemma splice_setBorrows (h : splice R H X = X) (k : ℕ) :
    splice R (H.setObj i { H.objects i with activeBorrows := k }) X =
      X.setObj i { X.objects i with activeBorrows := k } := by
  rw [← h, splice_splice]
  refine GlobalState.ext rfl rfl rfl rfl rfl ?_ rfl rfl rfl rfl rfl rfl rfl rfl rfl
  funext j
  simp only [splice_objects, GlobalState.setObj_objects, Function.update_apply]
  split_ifs with hj
  · rw [hj]
  · rfl

omit [PmConfig] in
/-- The borrows of an object. -/
lemma Outer.setBorrows (h : splice R H X = X) (i k : ℕ) :
    Outer R H X (H.setObj i { H.objects i with activeBorrows := k })
      (X.setObj i { X.objects i with activeBorrows := k }) :=
  ⟨splice_setBorrows splice_self k, splice_setBorrows h k⟩

omit [PmConfig] in
/-- The peak of the borrow counts. -/
lemma Outer.setPeak (h : splice R H X = X) (n : ℕ) :
    Outer R H X { H with maxBorrowCount := n } { X with maxBorrowCount := n } := by
  have hpeak : ∀ {Y : GlobalState}, splice R H Y = Y →
      splice R { H with maxBorrowCount := n } Y = { Y with maxBorrowCount := n } :=
    fun hY => congrArg (fun G : GlobalState => { G with maxBorrowCount := n }) hY
  exact ⟨hpeak splice_self, hpeak h⟩

omit [PmConfig] in
lemma overlay_write {lo hi a : ℕ} (ha : ¬ (lo ≤ a ∧ a < hi)) (m₀ m : ByteMemory.Mem) (v : UInt8) :
    ByteMemory.overlay lo hi (Function.update m₀ a v) m =
      Function.update (ByteMemory.overlay lo hi m₀ m) a v := by
  funext z
  by_cases hz : z = a
  · subst hz
    rw [ByteMemory.overlay_outside ha, Function.update_self, Function.update_self]
  · rw [Function.update_of_ne hz, ByteMemory.overlay, ByteMemory.overlay,
      Function.update_of_ne hz]

omit [PmConfig] in
/-- A byte outside. -/
lemma Outer.setByte (h : splice R H X = X) {a : ℕ} (ha : ¬ (R.lo ≤ a ∧ a < R.hi)) (v : UInt8) :
    Outer R H X { H with mem := Function.update H.mem a v }
      { X with mem := Function.update X.mem a v } := by
  have hmem : ∀ {Y : GlobalState}, splice R H Y = Y →
      splice R { H with mem := Function.update H.mem a v } Y =
        { Y with mem := Function.update Y.mem a v } := by
    intro Y hY
    have hY' : ByteMemory.overlay R.lo R.hi H.mem Y.mem = Y.mem := congrArg GlobalState.mem hY
    calc splice R { H with mem := Function.update H.mem a v } Y
        = { splice R H Y with
            mem := ByteMemory.overlay R.lo R.hi (Function.update H.mem a v) Y.mem } := rfl
      _ = { Y with mem := Function.update Y.mem a v } := by
          rw [hY, overlay_write ha, hY']
  exact ⟨hmem splice_self, hmem h⟩

end Outer

/-- `check_ref` reads one descriptor, its pool and the geometry. -/
lemma checkRef_congr {G G' : GlobalState} (hz : SameZone G G') {ref : RawRef}
    (hobj : G'.objects ref.index = G.objects ref.index)
    (hpool : G'.pools (G.objects ref.index).poolId = G.pools (G.objects ref.index).poolId)
    (n a : ℕ) (rr : Bool) : checkRef G' ref n a rr = checkRef G ref n a rr := by
  have hat : poolAt G' (G.objects ref.index).poolId = poolAt G (G.objects ref.index).poolId := by
    rw [poolAt, poolAt, hpool]
  have hgeo : ∀ P, poolGeometryOk G' P = poolGeometryOk G P := fun P => by
    rw [poolGeometryOk, poolGeometryOk, hz.segmentCount, hz.segmentSize, hz.zoneSize]
  have hwin : ∀ P, blockInWindow G' P (G.objects ref.index) =
      blockInWindow G P (G.objects ref.index) := fun P => by
    rw [blockInWindow, blockInWindow, poolStartOff, poolStartOff, poolCapacity, poolCapacity,
      hz.zone, hz.segmentSize]
  rw [checkRef, checkRef, hobj, hat, hz.initialized]
  simp only [hgeo, hwin]

section Contexts

variable {H X : GlobalState} {Ls : ℕ → List Piece} {R : Region} {q i : ℕ}

lemma Aside.pool (hA : Aside R H X) (hq : ¬ R.Pool q) : X.pools q = H.pools q := by
  rw [← hA.same, splice_pool_other hq]

/-- An object of a pool outside has not been touched. -/
lemma Aside.object (hA : Aside R H X) (hq : ¬ R.Pool (X.objects i).poolId) :
    X.objects i = H.objects i :=
  hA.other i fun hi => hq (hA.owned i hi).2

/-- `pause` and `resume` refuse the pools of the region, and do the same to others. -/
lemma pause_outer (hA : Aside R H X) (id : ℕ) :
    ((pause X id).2 = X ∧ (pause X id).1 ≠ .ok)
      ∨ Outer R H X (pause H id).2 (pause X id).2 ∧ (pause X id).1 = (pause H id).1 := by
  by_cases hq : R.Pool id
  · obtain ⟨-, hrun, hpaused⟩ := hA.busy id hq
    left
    rw [pause]
    cases hat : poolAt X id with
    | none => simp
    | some P =>
        obtain ⟨-, rfl⟩ := poolAt_eq_some.mp hat
        simp [hrun, hpaused]
  · have hP := hA.pool hq
    have hat : poolAt X id = poolAt H id := by rw [poolAt, poolAt, hP]
    right
    rw [pause, pause, hat]
    cases poolAt H id with
    | none => exact ⟨.refl hA.same, rfl⟩
    | some P =>
        dsimp only
        split_ifs
        · exact ⟨.refl hA.same, rfl⟩
        · exact ⟨.refl hA.same, rfl⟩
        · exact ⟨.setPool hA.same hq _, rfl⟩

lemma resume_outer (hA : Aside R H X) (id : ℕ) :
    ((resume X id).2 = X ∧ (resume X id).1 ≠ .ok)
      ∨ Outer R H X (resume H id).2 (resume X id).2 ∧ (resume X id).1 = (resume H id).1 := by
  by_cases hq : R.Pool id
  · obtain ⟨-, hrun, hpaused⟩ := hA.busy id hq
    left
    rw [resume]
    cases hat : poolAt X id with
    | none => simp
    | some P =>
        obtain ⟨-, rfl⟩ := poolAt_eq_some.mp hat
        simp [hrun, hpaused]
  · have hP := hA.pool hq
    have hat : poolAt X id = poolAt H id := by rw [poolAt, poolAt, hP]
    right
    rw [resume, resume, hat]
    cases poolAt H id with
    | none => exact ⟨.refl hA.same, rfl⟩
    | some P =>
        dsimp only
        split_ifs
        · exact ⟨.refl hA.same, rfl⟩
        · exact ⟨.refl hA.same, rfl⟩
        · exact ⟨.setPool hA.same hq _, rfl⟩

omit [PmConfig] in
/-- The counters of a borrow outside. -/
lemma borrowCommit_outer (hX : splice R H X = X) (hq : ¬ R.Pool q) (hP : X.pools q = H.pools q)
    (hobj : X.objects i = H.objects i) :
    Outer R H X (borrowCommit H q i) (borrowCommit X q i) := by
  have hpeak : X.maxBorrowCount = H.maxBorrowCount :=
    (congrArg GlobalState.maxBorrowCount hX).symm
  have h₁ := Outer.setPool hX hq
    { H.pools q with borrowCount := u32 ((H.pools q).borrowCount + 1) }
  have h₂ := Outer.setBorrows h₁.same i (u32 ((H.objects i).activeBorrows + 1))
  have h₃ := Outer.setPeak (h₁.trans h₂).same
    (if H.maxBorrowCount < u32 ((H.pools q).borrowCount + 1) then
      u32 ((H.pools q).borrowCount + 1) else H.maxBorrowCount)
  have hcommit : borrowCommit X q i =
      { (X.setPool q { H.pools q with borrowCount := u32 ((H.pools q).borrowCount + 1) }).setObj i
          { X.objects i with activeBorrows := u32 ((H.objects i).activeBorrows + 1) } with
        maxBorrowCount := if H.maxBorrowCount < u32 ((H.pools q).borrowCount + 1) then
          u32 ((H.pools q).borrowCount + 1) else H.maxBorrowCount } := by
    rw [← hP, ← hpeak, ← hobj]
    rfl
  rw [hcommit]
  exact (h₁.trans h₂).trans h₃

/-- `borrow_begin` refuses the objects of the region, and does the same to others. -/
lemma borrowBegin_outer (hA : Aside R H X) (ref : RawRef) (n a : ℕ) :
    ((borrowBegin X ref n a).2.2 = X ∧ (borrowBegin X ref n a).1 ≠ .ok)
      ∨ Outer R H X (borrowBegin H ref n a).2.2 (borrowBegin X ref n a).2.2
        ∧ (borrowBegin X ref n a).1 = (borrowBegin H ref n a).1
        ∧ (borrowBegin X ref n a).2.1 = (borrowBegin H ref n a).2.1 := by
  by_cases hq : R.Pool (X.objects ref.index).poolId
  · left
    rw [borrowBegin]
    cases hck : checkRef X ref n a true with
    | error e => exact ⟨rfl, fun he => checkRef_ne_ok X ref n a true (by rw [hck, ← he])⟩
    | ok addr => exact absurd ((checkRef_ok hck).1.running rfl) (hA.busy _ hq).2.1
  · right
    have hobj := hA.object hq
    have hP := hA.pool hq
    rw [borrowBegin, borrowBegin, checkRef_congr hA.zone hobj (by rwa [← hobj]), hobj]
    rw [hobj] at hq hP
    cases checkRef H ref n a true with
    | error e => exact ⟨.refl hA.same, rfl, rfl⟩
    | ok addr => exact ⟨borrowCommit_outer hA.same hq hP hobj, rfl, rfl⟩

/-- `borrow_end` ignores the objects of the region, and does the same to others. -/
lemma borrowEnd_outer (hA : Aside R H X) (ref : RawRef) :
    borrowEnd X ref = X ∨ Outer R H X (borrowEnd H ref) (borrowEnd X ref) := by
  by_cases hq : R.Pool (X.objects ref.index).poolId
  · left
    have hzero := (hA.idle _ hq).1
    rw [borrowEnd, if_neg]
    rw [borrowEndOk, decide_eq_true_eq]
    omega
  · right
    have hobj := hA.object hq
    have hP := hA.pool hq
    rw [hobj] at hq hP
    have hat : poolAt X (H.objects ref.index).poolId = poolAt H (H.objects ref.index).poolId := by
      rw [poolAt, poolAt, hP]
    have hck : borrowEndOk X ref = borrowEndOk H ref := by
      rw [borrowEndOk, borrowEndOk, hobj, hA.zone.initialized, hat, hP]
    rw [borrowEnd, borrowEnd, hck]
    split_ifs with hok
    · have h₁ := Outer.setBorrows hA.same ref.index ((H.objects ref.index).activeBorrows - 1)
      have h₂ := Outer.setPool h₁.same hq
        { H.pools (H.objects ref.index).poolId with
          borrowCount := (H.pools (H.objects ref.index).poolId).borrowCount - 1 }
      have hend := h₁.trans h₂
      simp only [hobj, hP, GlobalState.setObj_pools] at hend ⊢
      exact hend
    · exact .refl hA.same

/-- An object of a pool that is not in the region lies outside of it, block and all. -/
lemma Aside.away (h : GlobalInv H Ls) (hA : Aside R H X) (hi : i < pmMaxObjects)
    (hlive : (H.objects i).state = .live) (hq : ¬ R.Pool (H.objects i).poolId) :
    X.objects i = H.objects i
      ∧ ∀ z, (H.objects i).block ≤ z → z < (H.objects i).block + (H.objects i).blockSize →
        ¬ (R.lo ≤ z ∧ z < R.hi) := by
  obtain ⟨hact, hin⟩ := h.owner hi hlive
  refine ⟨hA.other _ fun hm => hq (hA.owned _ hm).1, fun z hlo hhi hr => ?_⟩
  obtain ⟨q, hqR, hqa, hqw⟩ := hA.bytes _ hr.1 hr.2
  have hne : q ≠ (H.objects i).poolId := fun heq => hq (heq ▸ hqR)
  refine h.window_apart hqa hact hne hqw ?_
  obtain ⟨x, n, -, hx, haddr, hsize, -⟩ := h.payload hi hlive
  rw [ObjectDesc.block, haddr] at hlo hhi
  exact (h.pool _ hact).live_inWindow hx (by omega) (by omega)

/-- So does a borrowed object. -/
lemma Aside.held (h : GlobalInv H Ls) (hb : Borrows H) (hA : Aside R H X) (hi : i < pmMaxObjects)
    (hheld : 0 < (X.objects i).activeBorrows) :
    (H.objects i).state = .live ∧ X.objects i = H.objects i
      ∧ ∀ z, (H.objects i).block ≤ z → z < (H.objects i).block + (H.objects i).blockSize →
        ¬ (R.lo ≤ z ∧ z < R.hi) := by
  have hheld' : (H.objects i).activeBorrows ≠ 0 := by
    rw [← hA.same] at hheld
    exact hheld.ne'
  have hlive : (H.objects i).state = .live := by
    by_contra hl
    exact hheld' (hb.idle i hi hl)
  obtain ⟨hact, hin⟩ := h.owner hi hlive
  exact ⟨hlive, hA.away h hi hlive fun hq => hheld' (hb.pool_idle h hact (hA.idle _ hq).2 hin)⟩

/-- A client's write into an object that is borrowed. -/
lemma clientWrite_outer (h : GlobalInv H Ls) (hb : Borrows H) (hA : Aside R H X)
    (w : PayloadWrite) (hheld : 0 < (X.objects w.slot).activeBorrows) :
    Outer R H X (clientWrite H w) (clientWrite X w) := by
  by_cases hlt : w.slot < pmMaxObjects
  swap
  · rw [clientWrite, clientWrite, if_neg (by tauto), if_neg (by tauto)]
    exact .refl hA.same
  obtain ⟨hlive, hobj, hout⟩ := hA.held h hb hlt hheld
  rw [clientWrite, clientWrite, hobj]
  split_ifs with hw
  · refine Outer.setByte hA.same (hout _ ?_ ?_) _
    all_goals
      obtain ⟨x, n, -, -, haddr, hsize, hle⟩ := h.payload hlt hlive
      have hpos := hw.2.2
      rw [ObjectDesc.block, haddr]
      omega
  · exact .refl hA.same

/-- What another context does beside a call under way: it is refused, or does what it would have
done before the call. -/
theorem ContextOp.outer (h : GlobalInv H Ls) (hb : Borrows H) (hA : Aside R H X)
    (o : ContextOp) (hallow : o.allowed X = true) :
    (step X o.op = X ∧ (reply X o.op).ok = false)
      ∨ Outer R H X (step H o.op) (step X o.op) ∧ reply X o.op = reply H o.op := by
  cases o with
  | borrowBegin ref n a =>
      rcases borrowBegin_outer hA ref n a with ⟨hs, hno⟩ | ⟨hout, hst, haddr⟩
      · exact Or.inl ⟨hs, by simpa [ContextOp.op, reply, Reply.ok] using hno⟩
      · exact Or.inr ⟨hout, by simp only [ContextOp.op, reply, hst, haddr]⟩
  | borrowEnd ref =>
      rcases borrowEnd_outer hA ref with hs | hout
      · exact Or.inl ⟨hs, rfl⟩
      · exact Or.inr ⟨hout, rfl⟩
  | pause id =>
      rcases pause_outer hA id with ⟨hs, hno⟩ | ⟨hout, hst⟩
      · exact Or.inl ⟨hs, by simpa [ContextOp.op, reply, Reply.ok] using hno⟩
      · exact Or.inr ⟨hout, by simp only [ContextOp.op, reply, hst]⟩
  | resume id =>
      rcases resume_outer hA id with ⟨hs, hno⟩ | ⟨hout, hst⟩
      · exact Or.inl ⟨hs, by simpa [ContextOp.op, reply, Reply.ok] using hno⟩
      · exact Or.inr ⟨hout, by simp only [ContextOp.op, reply, hst]⟩
  | write w =>
      exact Or.inr ⟨clientWrite_outer h hb hA w (by simpa [ContextOp.allowed] using hallow), rfl⟩

end Contexts

end PondMerge
