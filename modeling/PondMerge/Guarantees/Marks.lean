import PondMerge.Guarantees.Availability
import PondMerge.Guarantees.Splitting
import PondMerge.Operations.Marks

/-!
High-water marks: `global_stats` against what it is a mark of.

* `MarksBound`: no count is above its mark.
* `step_marksBound_iff`: one operation keeps it unless `merge` or `split` leaves more slack in
  a pool than the mark says, and these two are the operations that never refresh it.
* `init_marksBound_iff`: every run.
-/

namespace PondMerge

open ByteMemory Tiling

variable [PmConfig]

/-! ### The slack a merge or a split leaves -/

/-- The slack of the merged pool, from the objects of both. -/
def mergedSlack (G : GlobalState) (s t : ℕ) : ℕ :=
  packedSlack G.objects (mergeStop G s t) (mergeStart G s t)
    (addressRow G (lowerPool G s t) ++ addressRow G (upperPool G s t))

/-- The slack of the half a split keeps, and of the half it gives away. -/
def lowerSlack (G : GlobalState) (s n : ℕ) : ℕ :=
  packedSlack G.objects (splitBoundary G s n) (poolStart G (G.pools s))
    ((addressRow G s).filter fun i => !decide (Upper G (splitBoundary G s n) i))

def upperSlack (G : GlobalState) (s n : ℕ) : ℕ :=
  packedSlack G.objects (poolEnd G (G.pools s)) (splitBoundary G s n)
    ((addressRow G s).filter fun i => decide (Upper G (splitBoundary G s n) i))

section Slack

variable {G : GlobalState} {Ls : ℕ → List Piece} {s t n : ℕ}

lemma merge_slack (h : GlobalInv G Ls) (hok : (merge G s t).1 = .ok) :
    ((merge G s t).2.pools t).fragmentBytes = mergedSlack G s t := by
  obtain ⟨hr, hmin⟩ := merge_asked h hok
  obtain ⟨F, L', heq, hinv, hm, hrun⟩ := merge_run h hr hmin
  have hact : Active F t := ⟨hr.target.1, by rw [hm.running]; decide⟩
  have hlost := (hinv.pool t hact).lost
  rw [Function.update_self, hrun.layout] at hlost
  rw [heq, hlost, hrun.row.lostOf fun i hi => (hm.relocated.kept i hi).blockSize, mergedSlack,
    h.addressRow hr.active.1, h.addressRow hr.active.2, mergeSlots]

/-- The halves of a split pool, told apart by its boundary. -/
lemma Splitted.halves {F : GlobalState} {nid : ℕ} {L₁ L₂ : List Piece}
    (hsp : Splitted G F s nid n (Ls s) L₁ L₂) (h : GlobalInv G Ls) (hs : Active G s) :
    (liveSlots (Ls s)).filter (fun i => decide (Upper G (splitBoundary G s n) i)) = liveSlots L₂
      ∧ (liveSlots (Ls s)).filter (fun i => !decide (Upper G (splitBoundary G s n) i)) =
        liveSlots L₁ := by
  rw [hsp.slots]
  refine filter_halves (fun i hi => decide_eq_false fun hu => ?_)
    fun i hi => decide_eq_true (Or.inr (hsp.up i hi))
  have hend := hsp.low i hi
  have hblk := ((h.pool s hs).blockOk h.zone (hsp.slots ▸ List.mem_append_left _ hi)).2.1
  have hmin := PmConfig.minBlock_ge
  exact hu.elim (by omega) (by omega)

lemma split_slack (h : GlobalInv G Ls) {nid : ℕ} (hr : SplitReady G s n nid)
    (hok : (split G s n).1 = .ok) :
    (split G s n).2.1 = some nid
      ∧ ((split G s n).2.2.pools s).fragmentBytes = lowerSlack G s n
      ∧ ((split G s n).2.2.pools nid).fragmentBytes = upperSlack G s n := by
  rcases split_run h hr with ⟨st, heq, hst⟩ | ⟨F, plan, L₁, L₂, heq, hinv, hrun, hsp, hpack⟩
  · rw [heq] at hok
    rcases hst with rfl | rfl <;> cases hok
  have hs : Active F s := ⟨hr.source.1, by rw [hsp.running.1]; decide⟩
  have hnid : Active F nid :=
    ⟨(firstEmptyPool_some hr.entry).1, by rw [hsp.running.2]; decide⟩
  have hlow := (hinv.pool s hs).lost
  have hup := (hinv.pool nid hnid).lost
  rw [Function.update_of_ne hr.ne.symm, Function.update_self, hpack.low] at hlow
  rw [Function.update_self, hpack.up] at hup
  have hkept : ∀ i ∈ liveSlots (Ls s), (F.objects i).blockSize = (G.objects i).blockSize :=
    fun i hi => (hsp.relocated.kept i hi).blockSize
  have hin : ∀ {i}, i ∈ liveSlots L₁ → i ∈ liveSlots (Ls s) := fun hi => by
    rw [hsp.slots]
    exact List.mem_append_left _ hi
  have hin' : ∀ {i}, i ∈ liveSlots L₂ → i ∈ liveSlots (Ls s) := fun hi => by
    rw [hsp.slots]
    exact List.mem_append_right _ hi
  obtain ⟨hups, hlows⟩ := hsp.halves h hr.source
  rw [heq]
  refine ⟨rfl, ?_, ?_⟩
  · rw [hlow, hpack.packedLow.lostOf fun i hi => hkept i (hin hi), lowerSlack,
      h.addressRow hr.source, hlows]
  · rw [hup, hpack.packedUp.lostOf fun i hi => hkept i (hin' hi), upperSlack,
      h.addressRow hr.source, hups]

end Slack

/-! ### One operation -/

/-- The counts of objects and borrows are at most their marks in `global_stats`. -/
structure CountsBound (G : GlobalState) : Prop where
  live : (liveObjects G).card ≤ (globalStats G).maxLiveObjects
  borrow : ∀ p < pmMaxPools, (G.pools p).borrowCount ≤ (globalStats G).maxBorrowCount

/-- So is the slack of every pool. -/
structure MarksBound (G : GlobalState) : Prop extends CountsBound G where
  fragment : ∀ p < pmMaxPools, (G.pools p).fragmentBytes ≤ (globalStats G).maxFragmentBytes

/-- The geometry a `split` needs: no pinned block straddles the boundary, and what it pushes
above the boundary fits. -/
def SplitFits (G : GlobalState) (s n : ℕ) : Prop :=
  NoStraddle G s n ∧ splitBoundary G s n + ∑ i ∈ splitPushed G s n, (G.objects i).blockSize ≤
    splitLimit G s n

/-- A `merge` or `split` that will go through leaves no more slack in a pool than has been
marked already. -/
def Recorded (G : GlobalState) : Op → Prop
  | .merge s t => MergeReady G s t → Roomy G s → Roomy G t → mergedSlack G s t ≤ G.maxFragmentBytes
  | .split s n => ∀ nid, SplitReady G s n nid → SplitFits G s n →
    lowerSlack G s n ≤ G.maxFragmentBytes ∧ upperSlack G s n ≤ G.maxFragmentBytes
  | _ => True

section Steps

variable {G : GlobalState} {Ls : ℕ → List Piece} {s t n : ℕ}

/-- Slack that has been marked before will do, whether or not the operation goes through. -/
lemma recorded_of_slack {op : Op}
    (hm : ∀ s t, op = .merge s t → mergedSlack G s t ≤ G.maxFragmentBytes)
    (hs : ∀ s n, op = .split s n →
      lowerSlack G s n ≤ G.maxFragmentBytes ∧ upperSlack G s n ≤ G.maxFragmentBytes) :
    Recorded G op := by
  cases op with
  | merge s t => exact fun _ _ _ => hm s t rfl
  | split s n => exact fun _ _ _ => hs s n rfl
  | _ => trivial

lemma GlobalInv.recorded_merge_iff (h : GlobalInv G Ls) :
    Recorded G (.merge s t) ↔
      ((merge G s t).1 = .ok → mergedSlack G s t ≤ G.maxFragmentBytes) := by
  constructor
  · intro hrec hok
    obtain ⟨hr, hs, ht⟩ := merge_asked h hok
    exact hrec hr (((h.pool s hr.source).noUndersized_iff h.zone).mp hs)
      (((h.pool t hr.target).noUndersized_iff h.zone).mp ht)
  · intro hok hr hs ht
    have hs' := ((h.pool s hr.source).noUndersized_iff h.zone).mpr hs
    have ht' := ((h.pool t hr.target).noUndersized_iff h.zone).mpr ht
    obtain ⟨F, L', heq, -⟩ := merge_ok h hr ⟨hs', ht'⟩
    exact hok (by rw [heq])

lemma GlobalInv.recorded_split_iff (h : GlobalInv G Ls) :
    Recorded G (.split s n) ↔ ((split G s n).1 = .ok →
      lowerSlack G s n ≤ G.maxFragmentBytes ∧ upperSlack G s n ≤ G.maxFragmentBytes) := by
  constructor
  · intro hrec hok
    obtain ⟨nid, hr⟩ := split_asked h hok
    exact hrec nid hr ((h.split_ok_iff hr).1.mp hok)
  · exact fun hok nid hr hfits => hok ((h.split_ok_iff hr).1.mpr hfits)

/-- The live objects are never more than their mark. -/
lemma CountsBound.step_live (hb : CountsBound G) (h : GlobalInv G Ls) (op : Op) :
    (liveObjects (step G op)).card ≤ (globalStats (step G op)).maxLiveObjects := by
  cases hslot : allocatedSlot G op with
  | none =>
      calc (liveObjects (step G op)).card
          ≤ (liveObjects G).card := Finset.card_le_card (step_liveObjects h hslot)
        _ ≤ (globalStats G).maxLiveObjects := hb.live
        _ ≤ (globalStats (step G op)).maxLiveObjects := (step_marked h op).below.live
  | some i =>
      obtain ⟨Ls', h'⟩ := Healthy.step ⟨Ls, h⟩ op
      rw [h'.card_liveObjects]
      cases op with
      | alloc p size alignment flags tag =>
          rw [allocatedSlot] at hslot
          cases alloc_cases G p size alignment flags tag with
          | inl hno =>
              obtain ⟨st, hst, heq⟩ := hno
              rw [heq, if_neg hst] at hslot
              cases hslot
          | inr hyes =>
              obtain ⟨need, blk, -, heq⟩ := hyes
              rw [step, heq]
              exact (allocCommit_marks (popSlot G) p _ blk need size _ tag).2.1
      | _ => cases hslot

/-- Every operation refreshes the marks of objects and borrows. -/
lemma CountsBound.step (hb : CountsBound G) (h : GlobalInv G Ls) (op : Op) :
    CountsBound (PondMerge.step G op) := by
  have hm := step_marked h op
  exact ⟨hb.step_live h op, fun p hp => (hm.borrow p hp).elim
    (fun hle => hle.trans ((hb.borrow p hp).trans hm.below.borrow)) id⟩

/-- One operation keeps every count below its mark exactly if it is recorded. -/
theorem step_marksBound_iff (hb : MarksBound G) (h : GlobalInv G Ls) (op : Op) :
    MarksBound (step G op) ↔ Recorded G op := by
  have hm := step_marked h op
  have hfragment : ∀ p < pmMaxPools, ¬ Relaid G p op →
      ((step G op).pools p).fragmentBytes ≤ (globalStats (step G op)).maxFragmentBytes :=
    fun p hp hno => (hm.fragment p hp hno).elim
      (fun hle => hle.trans ((hb.fragment p hp).trans hm.below.fragment)) id
  have hcounts := hb.toCountsBound.step h op
  -- only a rebuild that refreshes no mark is in question
  have hrest : (∀ p, ¬ Relaid G p op) → MarksBound (PondMerge.step G op) := fun hno =>
    ⟨hcounts, fun p hp => hfragment p hp (hno p)⟩
  cases op with
  | merge s t =>
      have hmark : (globalStats (merge G s t).2).maxFragmentBytes = G.maxFragmentBytes := by
        rw [merge_marks]
        rfl
      rw [h.recorded_merge_iff]
      constructor
      · intro hbound hok
        have ht := hbound.fragment t (merge_asked h hok).1.target.1
        rwa [step, merge_slack h hok, hmark] at ht
      · intro hrec
        refine ⟨hcounts, fun p hp => ?_⟩
        by_cases hp' : Relaid G p (.merge s t)
        · obtain ⟨hok, rfl⟩ := hp'
          rw [step, merge_slack h hok, hmark]
          exact hrec hok
        · exact hfragment p hp hp'
  | split s n =>
      have hmark : (globalStats (split G s n).2.2).maxFragmentBytes = G.maxFragmentBytes := by
        rw [split_marks]
        rfl
      rw [h.recorded_split_iff]
      constructor
      · intro hbound hok
        obtain ⟨nid, hr⟩ := split_asked h hok
        obtain ⟨-, hlow, hup⟩ := split_slack h hr hok
        have hs := hbound.fragment s hr.source.1
        have hnid := hbound.fragment nid (firstEmptyPool_some hr.entry).1
        rw [step, hmark] at hs hnid
        exact ⟨hlow ▸ hs, hup ▸ hnid⟩
      · intro hrec
        refine ⟨hcounts, fun p hp => ?_⟩
        by_cases hp' : Relaid G p (.split s n)
        · obtain ⟨hok, hp'⟩ := hp'
          obtain ⟨nid, hr⟩ := split_asked h hok
          obtain ⟨hid, hlow, hup⟩ := split_slack h hr hok
          obtain ⟨hl, hu⟩ := hrec hok
          rw [step, hmark]
          rcases hp' with rfl | hp'
          · rwa [hlow]
          · obtain rfl : nid = p := Option.some.inj (hid.symm.trans hp')
            rwa [hup]
        · exact hfragment p hp hp'
  | _ => exact iff_of_true (hrest fun _ hp => hp) trivial

end Steps

/-! ### Every run -/

section Runs

variable {G : GlobalState} {cfg : InitConfig} {ops : List Op}

lemma runOps_concat (G : GlobalState) (pre : List Op) (op : Op) :
    runOps G (pre ++ [op]) = step (runOps G pre) op := by
  rw [runOps, runOps, List.foldl_append, List.foldl_cons, List.foldl_nil]

omit [PmConfig] in
/-- The steps of a run, by their number. -/
lemma steps_of_run {P : List Op → Op → Prop} (h : ∀ k op, ops[k]? = some op → P (ops.take k) op)
    (pre : List Op) (op : Op) (hpre : pre ++ [op] <+: ops) : P pre op := by
  obtain ⟨rest, rfl⟩ := hpre
  simpa using h pre.length op (by simp)

/-- A session starts with nothing to mark. -/
lemma init_marksBound (hok : (init G cfg).1 = .ok) : MarksBound (init G cfg).2 := by
  have hlive := (init_inv hok).card_liveObjects
  rw [(init_ok hok).1] at hlive ⊢
  exact ⟨⟨hlive.le, fun _ _ => le_rfl⟩, fun _ _ => le_rfl⟩

lemma Reachable.countsBound (h : Reachable G) : CountsBound G := by
  induction h with
  | init G cfg hok => exact (init_marksBound hok).toCountsBound
  | step op hr ih =>
      obtain ⟨Ls, hinv⟩ := hr.healthy
      exact ih.step hinv op

/-- No mark ever decreases. -/
lemma Reachable.marks_below (h : Reachable G) (ops : List Op) :
    (globalStats G).Below (globalStats (PondMerge.runOps G ops)) := by
  induction ops generalizing G with
  | nil => exact .refl _
  | cons op ops ih =>
      obtain ⟨Ls, hinv⟩ := h.healthy
      exact (step_marked hinv op).below.trans (ih (h.step op))

end Runs

/-- **High-water marks.**  From a successful `init` on, no mark of `global_stats` ever
decreases, and the live objects and the borrows of each pool never exceed theirs.  The slack
of a pool exceeds its mark nowhere in a run exactly if no step of it is a `merge` or `split`
that goes through and leaves more slack in a pool than has been marked: these two rebuild a
layout and, unlike `compact`, do not refresh the mark. -/
theorem init_marksBound_iff {G : GlobalState} {cfg : InitConfig} (hok : (init G cfg).1 = .ok)
    (ops : List Op) :
    ((∀ pre, pre <+: ops → MarksBound (runOps (init G cfg).2 pre)) ↔
      ∀ pre op, pre ++ [op] <+: ops → Recorded (runOps (init G cfg).2 pre) op)
    ∧ ∀ pre, pre <+: ops → CountsBound (runOps (init G cfg).2 pre)
      ∧ (globalStats (runOps (init G cfg).2 pre)).Below
        (globalStats (runOps (init G cfg).2 ops)) := by
  have hreach : ∀ pre, Reachable (runOps (init G cfg).2 pre) :=
    fun pre => (Reachable.init G cfg hok).runOps pre
  refine ⟨⟨fun hbound pre op hpre => ?_, fun hrec pre => ?_⟩, fun pre hpre => ?_⟩
  · obtain ⟨Ls, hinv⟩ := (hreach pre).healthy
    have hnext := hbound _ hpre
    rw [runOps_concat] at hnext
    exact (step_marksBound_iff (hbound pre ((List.prefix_append _ _).trans hpre)) hinv op).mp hnext
  · induction pre using List.reverseRecOn with
    | nil => exact fun _ => init_marksBound hok
    | append_singleton pre op ih =>
        intro hpre
        obtain ⟨Ls, hinv⟩ := (hreach pre).healthy
        rw [runOps_concat]
        exact (step_marksBound_iff (ih ((List.prefix_append _ _).trans hpre)) hinv op).mpr
          (hrec pre op hpre)
  · obtain ⟨post, rfl⟩ := hpre
    have hbelow := (hreach pre).marks_below post
    rw [runOps, runOps, ← List.foldl_append] at hbelow
    exact ⟨(hreach pre).countsBound, hbelow⟩

/-- A pool of two segments whose first object leaves 8 bytes below the boundary between them,
then split there. -/
def acrossBoundary : List Op :=
  [.createPool 2, .alloc 0 1008 8 0 1, .alloc 0 24 8 0 2, .split 0 1]

def splitAcross : GlobalState :=
  letI := defaultConfig
  runOps (init .zero smallZone).2 acrossBoundary

omit [PmConfig] in
set_option maxRecDepth 100000 in
lemma splitAcross_slack :
    letI := defaultConfig
    (splitAcross.pools 0).fragmentBytes = 8 ∧ (globalStats splitAcross).maxFragmentBytes = 0 := by
  decide +kernel

omit [PmConfig] in
/-- The lower half is left with 8 bytes of slack, and the mark stays at zero. -/
theorem split_slack_unmarked :
    letI := defaultConfig
    Reachable splitAcross ∧ (splitAcross.pools 0).fragmentBytes = 8
      ∧ (globalStats splitAcross).maxFragmentBytes = 0 ∧ ¬ MarksBound splitAcross := by
  let _ := defaultConfig
  obtain ⟨hslack, hmark⟩ := splitAcross_slack
  refine ⟨smallZone_runOps acrossBoundary, hslack, hmark, fun hb => ?_⟩
  have h0 := hb.fragment 0 (by decide)
  rw [hslack, hmark] at h0
  omega

/-- A pool of two segments, split behind its first object: the second one fills its upper half but
for a minimal block. -/
def behindFirst : List Op :=
  [.createPool 2, .alloc 0 24 8 0 1, .alloc 0 1000 8 0 2, .split 0 1]

omit [PmConfig] in
set_option maxRecDepth 100000 in
/-- The split goes through, moves the second object, and leaves no slack in either half. -/
lemma behindFirst_split :
    letI := defaultConfig
    let G := runOps (init .zero smallZone).2 (behindFirst.take 3)
    lowerSlack G 0 1 = 0 ∧ upperSlack G 0 1 = 0 ∧ (split G 0 1).1 = .ok := by
  decide +kernel

omit [PmConfig] in
/-- So it is recorded, and no mark is exceeded. -/
theorem init_marksBound_iff_behindFirst :
    letI := defaultConfig
    let I := (init .zero smallZone).2
    (∀ pre op, pre ++ [op] <+: behindFirst → Recorded (runOps I pre) op)
      ∧ ∀ pre, pre <+: behindFirst → MarksBound (runOps I pre) := by
  let _ := defaultConfig
  obtain ⟨hlow, hup, -⟩ := behindFirst_split
  have hrec : ∀ pre op, pre ++ [op] <+: behindFirst →
      Recorded (runOps (init .zero smallZone).2 pre) op := by
    refine steps_of_run fun k op hk => recorded_of_slack (fun s t heq => ?_) fun s n heq => ?_
    · match k, hk with
      | 0, rfl | 1, rfl | 2, rfl | 3, rfl => cases heq
    · match k, hk with
      | 0, rfl | 1, rfl | 2, rfl => cases heq
      | 3, rfl =>
          cases heq
          exact ⟨hlow.le.trans (Nat.zero_le _), hup.le.trans (Nat.zero_le _)⟩
  exact ⟨hrec, (init_marksBound_iff (by decide) behindFirst).1.mpr hrec⟩

end PondMerge
