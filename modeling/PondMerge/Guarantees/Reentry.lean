import PondMerge.Operations.Reentry
import PondMerge.Guarantees.Representation

/-!
Destroy callbacks that re-enter the library, at whatever depth.

* `Represented`: the representation invariant of the whole state; `revived` counts the objects
  that are being destroyed as alive.
* `DestroyedOnce`: what `free` of an object with a callback does.
* `reentrant_free`: it does so in every state, those inside callbacks included.
-/

namespace PondMerge

open Tiling

variable [PmConfig]

/-- Every pool is Empty, Running or Paused and represents a layout of its window, and windows
do not meet. -/
structure Represented (G : GlobalState) : Prop where
  settled : ∀ p < pmMaxPools,
    (G.pools p).state = .empty ∨ (G.pools p).state = .running ∨ (G.pools p).state = .paused
  apart : ∀ p q, Active G p → Active G q → p ≠ q → SegmentsApart (G.pools p) (G.pools q)
  slots : SlotsOk G
  pools : ∀ p, Active G p → ∃ L, Represents G p L

/-- The state with the objects that are being destroyed counted as alive. -/
def revived (G : GlobalState) : GlobalState :=
  restate (fun i => if i < pmMaxObjects ∧ (G.objects i).state = .destroying then .live
    else (G.objects i).state) G

/-- The library accepts no `free`, `borrow_begin` or `borrow_end` of object `i`, runs no
callback for it, and changes nothing. -/
structure OutOfReach (G : GlobalState) (i : ℕ) : Prop where
  free : ∀ ref : RawRef, ref.index = i →
    ∃ st, st ≠ .ok ∧ ∀ run, PondMerge.free run G ref = (st, G)
  borrowBegin : ∀ ref : RawRef, ref.index = i → ∀ n a,
    ∃ st, st ≠ .ok ∧ PondMerge.borrowBegin G ref n a = (st, 0, G)
  borrowEnd : ∀ ref : RawRef, ref.index = i → PondMerge.borrowEnd G ref = G

/-- `free` of an object with callback `fn`, which does what `body` does. -/
structure DestroyedOnce (G : GlobalState) (ref : RawRef) (fn : ℕ) (body : Script)
    (run : Callback) : Prop where
  /-- The callback runs once, on the payload address, and the call succeeds. -/
  once : free run G ref = (.ok, freed
    (run fn (G.objects ref.index).address (markDestroying G ref.index)) ref.index)
  /-- Nothing the callback does, at whatever depth, reaches the object. -/
  nested : ∀ G₁, Script.Visits body (markDestroying G ref.index) G₁ →
    OutOfReach G₁ ref.index ∧ InPlace G G₁ ref.index
  /-- The object is gone. -/
  gone : ((free run G ref).2.objects ref.index).state = .free
    ∧ ∀ n a rr, ∃ e, checkRef (free run G ref).2 ref n a rr = .error e
  /-- The invariant holds again. -/
  restored : Represented (revived (free run G ref).2)
  /-- Outside of other callbacks, literally so. -/
  settled : (∀ i < pmMaxObjects, (G.objects i).state ≠ .destroying) →
    Represented (free run G ref).2

section Facts

variable {D : List ℕ} {G H : GlobalState}

/-- The invariant of the operations, read off. -/
lemma Healthy.represented (h : Healthy G) : Represented G := by
  obtain ⟨Ls, hinv⟩ := h
  exact ⟨hinv.settled, hinv.apart, hinv.slots, fun p hp => ⟨Ls p, PoolInv.represents hinv hp⟩⟩

/-- The healthy state behind one with objects being destroyed is the revived one. -/
lemma Underway.revived (u : Underway D G H) : revived G = H := by
  obtain ⟨Ls, h⟩ := u.healthy
  have hstates : (fun i => if i < pmMaxObjects ∧ (G.objects i).state = .destroying
      then ObjState.live else (G.objects i).state) = fun i => (H.objects i).state := by
    funext i
    by_cases hi : i ∈ D
    · rw [if_pos ⟨(u.live i hi).1, u.dying hi⟩, (u.live i hi).2]
    · rw [u.same hi]
      refine if_neg fun hd => ?_
      rcases h.idle i hd.1 with hl | hl <;> rw [hl] at hd <;> cases hd.2
  rw [PondMerge.revived, hstates]
  calc restate (fun i => (H.objects i).state) G
      = restate (fun i => (H.objects i).state) (restate (dyingStates D H) H) := by rw [← u.eq]
    _ = H := restate_state H

/-- Where nothing is being destroyed the state is healthy itself. -/
lemma Underway.eq_of_nil (u : Underway [] G H) : G = H := by
  have hstates : dyingStates [] H = fun i => (H.objects i).state := by
    funext i
    exact if_neg List.not_mem_nil
  rw [u.eq, hstates, restate_state]

lemma Underway.nil_of_settled (u : Underway D G H)
    (h : ∀ i < pmMaxObjects, (G.objects i).state ≠ .destroying) : D = [] :=
  List.eq_nil_iff_forall_not_mem.mpr fun i hi => h i (u.live i hi).1 (u.dying hi)

/-- An object that is being destroyed is out of reach. -/
lemma OutOfReach.of_dying {i : ℕ} (hi : (G.objects i).state = .destroying) : OutOfReach G i := by
  have hnot (ref : RawRef) (href : ref.index = i) : (G.objects ref.index).state ≠ .live := by
    rw [href, hi]
    decide
  constructor
  · intro ref href
    refine free_not_freeable fun hf => ?_
    obtain ⟨addr, hck⟩ := hf.2.1
    obtain ⟨e, he⟩ := checkRef_not_live (hnot ref href) 0 1 true
    rw [he] at hck
    cases hck
  · intro ref href n a
    obtain ⟨e, he⟩ := checkRef_not_live (hnot ref href) n a true
    refine ⟨e, fun heq => checkRef_ne_ok G ref n a true (heq ▸ he), ?_⟩
    rw [PondMerge.borrowBegin, he]
  · intro ref href
    rw [PondMerge.borrowEnd, if_neg (by simp [borrowEndOk_not_live (hnot ref href)])]

/-- The mutation phase leaves a free slot. -/
lemma Underway.freed_free (u : Underway D G H) (i : ℕ) :
    ((freed G i).objects i).state = .free := by
  rw [u.eq, freed_restate, freeCommit_restate]
  exact Function.update_self ..

/-- A script visits the state it leaves. -/
lemma Script.visits_run (s : Script) (G : GlobalState) : Script.Visits s G (s.run G) := by
  induction s generalizing G with
  | done => exact .here _ _
  | op o rest ih => exact .op (ih _)
  | free ref body rest _ ih => exact .after (ih _)

end Facts

variable {G : GlobalState}

/-- In every state of every run, inside callbacks or not, `free` refuses a reference without
running a callback, or runs the object's callback once, whatever that does, and succeeds. -/
theorem reentrant_free (h : Reentrant G) (ref : RawRef) :
    (¬ Freeable G ref → ∃ st, st ≠ .ok ∧ ∀ run, free run G ref = (st, G))
    ∧ ∀ fn body run, Freeable G ref → (G.objects ref.index).destroyFn = some fn →
      run fn (G.objects ref.index).address (markDestroying G ref.index) =
        body.run (markDestroying G ref.index) →
      DestroyedOnce G ref fn body run := by
  obtain ⟨D, H, u⟩ := h.underway
  refine ⟨free_not_freeable, fun fn body run hf hfn hrun => ?_⟩
  have hl := hf.live
  have umark := u.mark hl.1 hl.2
  have hmem : ref.index ∈ ref.index :: D := List.mem_cons_self ..
  have hp := umark.run body
  rw [← hrun] at hp
  have hfree := u.free_callback (u.entered hf hfn) hp
  obtain ⟨H₁, u₁, -⟩ := hp
  obtain ⟨H₂, u₂, -⟩ := u₁.freed_dying (u.not_mem hl.2)
  have hgone := u₁.freed_free ref.index
  constructor
  · exact hfree
  · intro G₁ hv
    obtain ⟨D₁, H₃, u₃, hs⟩ := umark.visits hv
    exact ⟨.of_dying (u₃.dying (List.mem_append_right D₁ hmem)), u.inPlace u₃ (hs _ hmem)⟩
  · rw [hfree]
    refine ⟨hgone, fun n a rr => checkRef_not_live ?_ n a rr⟩
    rw [hgone]
    decide
  · rw [hfree, u₂.revived]
    exact u₂.healthy.represented
  · intro hsettled
    obtain rfl := u.nil_of_settled hsettled
    rw [hfree, u₂.eq_of_nil]
    exact u₂.healthy.represented

/-- The second object allocated in the first pool. -/
def pinnedRef : RawRef := ⟨1, 1, 0, 0⟩

/-- A pinned object with a callback, between two others. -/
def pinnedRun : Script :=
  .op (.createPool 3) <| .op (.alloc 0 24 8 0 7) <| .op (.alloc 0 24 8 pmPinned 8) <|
  .op (.alloc 0 24 8 0 9) <| .op (.setDestroyFn pinnedRef (some 5)) .done

/-- A callback that frees both neighbours, tries the dying object itself and a compaction, and
allocates again. -/
def greedyCallback : Script :=
  .free ⟨0, 1, 0, 0⟩ .done <| .free ⟨2, 1, 0, 0⟩ .done <| .free pinnedRef .done <|
  .op (.compact 0 none 3) <| .op (.alloc 0 40 8 0 1) .done

/-- The state before that `free`. -/
def pinnedState : GlobalState :=
  letI := defaultConfig
  pinnedRun.run (init .zero smallZone).2

omit [PmConfig] in
lemma pinnedState_reentrant : letI := defaultConfig; Reentrant pinnedState := by
  let _ := defaultConfig
  refine ⟨.zero, smallZone, pinnedRun, by decide, ?_⟩
  rw [pinnedState]
  exact Script.visits_run _ _

omit [PmConfig] in
set_option maxRecDepth 100000 in
lemma pinnedState_object :
    letI := defaultConfig
    Freeable pinnedState pinnedRef
      ∧ (pinnedState.objects pinnedRef.index).destroyFn = some 5 := by
  let _ := defaultConfig
  have hck : (checkRef pinnedState pinnedRef 0 1 true).toOption = some 48
      ∧ (pinnedState.objects pinnedRef.index).activeBorrows = 0
      ∧ (pinnedState.objects pinnedRef.index).destroyFn = some 5 := by
    decide +kernel
  obtain ⟨haddr, hidle, hfn⟩ := hck
  refine ⟨⟨rfl, ?_, hidle⟩, hfn⟩
  cases hr : checkRef pinnedState pinnedRef 0 1 true with
  | error e =>
      rw [hr] at haddr
      cases haddr
  | ok addr => exact ⟨addr, rfl⟩

omit [PmConfig] in
/-- The middle object of three is freed, its callback greedy. -/
theorem reentrant_free_greedy :
    letI := defaultConfig
    DestroyedOnce pinnedState pinnedRef 5 greedyCallback
      (fun _ _ F => greedyCallback.run F) := by
  let _ := defaultConfig
  exact (reentrant_free pinnedState_reentrant pinnedRef).2 5 greedyCallback
    (fun _ _ F => greedyCallback.run F) pinnedState_object.1 pinnedState_object.2 rfl

end PondMerge
