import PondMerge.Operations.Borrows
import PondMerge.Guarantees.Preservation

/-!
The borrow counters in every run, whatever tokens it ends its borrows with.

* `BorrowRun`: the runs of fewer than `2 ^ 32` outstanding borrows, and how many there are.
* `OneBorrow`: two states one borrow apart; `borrow_begin` and `borrow_end` step up and down.
* `borrowRun_balanced`: every pool counts the borrows of its live objects, all counters together
  the outstanding ones, and a `borrow_end` takes one from each of two counters or does nothing.
-/

namespace PondMerge

open ByteMemory Tally Tiling

variable [PmConfig]

/-! ### Runs with few borrows -/

/-- The borrows outstanding after a step, of `n` before it: those `borrow_begin` has granted and
no `borrow_end` has taken back. -/
def outstanding (G : GlobalState) (op : Op) (n : ℕ) : ℕ :=
  match op with
  | .borrowBegin ref k a => if (borrowBegin G ref k a).1 = .ok then n + 1 else n
  | .borrowEnd ref => if borrowEndOk G ref then n - 1 else n
  | _ => n

/-- The states reached with `n` borrows outstanding, and never `2 ^ 32` on the way. -/
inductive BorrowRun : GlobalState → ℕ → Prop where
  | init (G : GlobalState) (cfg : InitConfig) (h : (init G cfg).1 = .ok) :
      BorrowRun (init G cfg).2 0
  | step {G : GlobalState} {n : ℕ} (op : Op) (hn : outstanding G op n < 2 ^ 32) :
      BorrowRun G n → BorrowRun (step G op) (outstanding G op n)

/-- The borrows outstanding after a sequence of steps. -/
def outstandingAfter : GlobalState → ℕ → List Op → ℕ
  | _, n, [] => n
  | G, n, op :: ops => outstandingAfter (step G op) (outstanding G op n) ops

section Runs

variable {G : GlobalState} {n : ℕ}

lemma BorrowRun.reachable (h : BorrowRun G n) : Reachable G := by
  induction h with
  | init G cfg h => exact .init G cfg h
  | step op _ _ ih => exact ih.step op

lemma outstanding_le (G : GlobalState) (op : Op) (n : ℕ) : outstanding G op n ≤ n + 1 := by
  cases op with
  | borrowBegin ref k a =>
      rw [outstanding]
      split_ifs <;> omega
  | borrowEnd ref =>
      rw [outstanding]
      split_ifs <;> omega
  | _ => exact Nat.le_succ n

/-- A sequence of steps too short to pass the bound. -/
lemma BorrowRun.runOps (h : BorrowRun G n) {ops : List Op} (hlen : n + ops.length < 2 ^ 32) :
    BorrowRun (runOps G ops) (outstandingAfter G n ops) := by
  induction ops generalizing G n with
  | nil => exact h
  | cons op ops ih =>
      have hle := outstanding_le G op n
      rw [List.length_cons] at hlen
      exact ih (h.step op (by omega)) (by omega)

end Runs

/-! ### One borrow more -/

/-- `G'` has one borrow of object `i` more than `G`, and no other borrow differs. -/
structure OneBorrow (G G' : GlobalState) (i : ℕ) : Prop where
  live : (G.objects i).state = .live
  object : (G'.objects i).activeBorrows = (G.objects i).activeBorrows + 1
  pool : ∀ p < pmMaxPools, (G'.pools p).borrowCount =
    (G.pools p).borrowCount + if (G.objects i).poolId = p then 1 else 0
  others : ∀ j, j ≠ i → (G'.objects j).activeBorrows = (G.objects j).activeBorrows
  state : ∀ j, (G'.objects j).state = (G.objects j).state
  owner : ∀ j, (G'.objects j).poolId = (G.objects j).poolId

/-- All borrows of all objects. -/
def allBorrows (G : GlobalState) : ℕ := ∑ i ∈ Finset.range pmMaxObjects, (G.objects i).activeBorrows

/-- A pool's tally spelt out: only live objects have borrows. -/
lemma Borrows.tally_live {G : GlobalState} (hb : Borrows G) (p : ℕ) :
    borrowTally G p = ∑ i ∈ Finset.range pmMaxObjects with
      (G.objects i).state = .live ∧ (G.objects i).poolId = p, (G.objects i).activeBorrows := by
  rw [borrowTally, tally]
  refine (Finset.sum_subset (fun i hi => ?_) fun i hi hno => ?_).symm
  · obtain ⟨hlt, -, hp⟩ := Finset.mem_filter.mp hi
    exact Finset.mem_filter.mpr ⟨hlt, hp⟩
  · obtain ⟨hlt, hp⟩ := Finset.mem_filter.mp hi
    refine hb.idle i (Finset.mem_range.mp hlt) fun hlive => ?_
    exact hno (Finset.mem_filter.mpr ⟨hlt, hlive, hp⟩)

section Steps

variable {G G' : GlobalState} {Ls : ℕ → List Piece} {i n : ℕ}

lemma allBorrows_tally (G : GlobalState) :
    allBorrows G = tally (Finset.range pmMaxObjects) (fun _ => ())
      (fun i => (G.objects i).activeBorrows) () := by
  rw [allBorrows, tally, Finset.filter_true_of_mem fun _ _ => rfl]

lemma borrowTally_le (G : GlobalState) (p : ℕ) : borrowTally G p ≤ allBorrows G := by
  rw [borrowTally, tally, allBorrows]
  exact Finset.sum_le_sum_of_subset (Finset.filter_subset _ _)

lemma SameBorrows.allBorrows (h : SameBorrows G G') : allBorrows G' = PondMerge.allBorrows G :=
  Finset.sum_congr rfl fun i hi => (h.object i (Finset.mem_range.mp hi)).count

lemma OneBorrow.tally (h : OneBorrow G G' i) (hi : i < pmMaxObjects) (p : ℕ) :
    borrowTally G' p = borrowTally G p + if (G.objects i).poolId = p then 1 else 0 := by
  have howner : (fun j => (G'.objects j).poolId) = fun j => (G.objects j).poolId :=
    funext h.owner
  rw [borrowTally, howner]
  exact tally_succ (Finset.mem_range.mpr hi) h.object (fun j _ hj => h.others j hj) p

lemma OneBorrow.allBorrows (h : OneBorrow G G' i) (hi : i < pmMaxObjects) :
    allBorrows G' = PondMerge.allBorrows G + 1 := by
  rw [allBorrows_tally, allBorrows_tally]
  exact tally_succ (Finset.mem_range.mpr hi) h.object (fun j _ hj => h.others j hj) ()

/-- One step up keeps the counters in agreement. -/
lemma OneBorrow.borrows_up (h : OneBorrow G G' i) (hi : i < pmMaxObjects) (hb : Borrows G) :
    Borrows G' := by
  refine ⟨fun j hj hst => ?_, fun p hp => ?_⟩
  · rw [h.state] at hst
    have hji : j ≠ i := fun heq => hst (heq ▸ h.live)
    rw [h.others j hji]
    exact hb.idle j hj hst
  · rw [h.pool p hp, h.tally hi, hb.count p hp]

/-- And so does one step down. -/
lemma OneBorrow.borrows_down (h : OneBorrow G G' i) (hi : i < pmMaxObjects) (hb : Borrows G') :
    Borrows G := by
  refine ⟨fun j hj hst => ?_, fun p hp => ?_⟩
  · have hji : j ≠ i := fun heq => hst (heq ▸ h.live)
    rw [← h.others j hji]
    exact hb.idle j hj (by rwa [h.state])
  · have hcount := hb.count p hp
    rw [h.pool p hp, h.tally hi] at hcount
    omega

omit [PmConfig] in
lemma borrowCommit_objects (G : GlobalState) (p idx j : ℕ) :
    (borrowCommit G p idx).objects j =
      if j = idx then
        { G.objects idx with activeBorrows := u32 ((G.objects idx).activeBorrows + 1) }
      else G.objects j := by
  rw [borrowCommit]
  exact Function.update_apply _ _ _ _

omit [PmConfig] in
lemma borrowCommit_pools (G : GlobalState) (p idx q : ℕ) :
    (borrowCommit G p idx).pools q =
      if q = p then { G.pools p with borrowCount := u32 ((G.pools p).borrowCount + 1) }
      else G.pools q := by
  rw [borrowCommit]
  exact Function.update_apply _ _ _ _

/-- A granted `borrow_begin` is a step up, where no counter wraps. -/
lemma borrowBegin_one (hb : Borrows G) (hn : allBorrows G + 1 < 2 ^ 32) {ref : RawRef} {k a : ℕ}
    (hok : (borrowBegin G ref k a).1 = .ok) :
    ref.index < pmMaxObjects ∧ OneBorrow G (borrowBegin G ref k a).2.2 ref.index := by
  rw [borrowBegin] at hok ⊢
  cases hc : checkRef G ref k a true with
  | error e =>
      rw [hc] at hok
      exact absurd (hok ▸ hc) (checkRef_ne_ok G ref k a true)
  | ok addr =>
      have href := (checkRef_ok hc).1
      have hobj : (G.objects ref.index).activeBorrows ≤ allBorrows G :=
        Finset.single_le_sum (f := fun j => (G.objects j).activeBorrows)
          (fun _ _ => Nat.zero_le _) (Finset.mem_range.mpr href.index)
      have hpool : (G.pools (G.objects ref.index).poolId).borrowCount ≤ allBorrows G := by
        rw [hb.count _ href.owner.1]
        exact borrowTally_le G _
      refine ⟨href.index, ⟨href.live, ?_, fun p _ => ?_, fun j hj => ?_, fun j => ?_, fun j => ?_⟩⟩
      · rw [borrowCommit_objects, if_pos rfl]
        exact u32_of_lt (by omega)
      · rw [borrowCommit_pools]
        by_cases hp : p = (G.objects ref.index).poolId
        · rw [if_pos hp, if_pos hp.symm, hp]
          exact u32_of_lt (by omega)
        · rw [if_neg hp, if_neg (Ne.symm hp)]
          rfl
      · rw [borrowCommit_objects, if_neg hj]
      · rw [borrowCommit_objects]
        split_ifs with hj
        · rw [hj]
        · rfl
      · rw [borrowCommit_objects]
        split_ifs with hj
        · rw [hj]
        · rfl

/-- A `borrow_begin` that is refused changes nothing. -/
lemma borrowBegin_refused {ref : RawRef} {k a : ℕ} (hno : (borrowBegin G ref k a).1 ≠ .ok) :
    (borrowBegin G ref k a).2.2 = G := by
  rw [borrowBegin] at hno ⊢
  cases hc : checkRef G ref k a true with
  | error e => rfl
  | ok addr =>
      rw [hc] at hno
      exact absurd rfl hno

/-- What a `borrow_end` does: one borrow less of a live object and of its pool, and nothing else,
or nothing at all. -/
inductive BorrowEnded (G G' : GlobalState) (ref : RawRef) : Prop where
  | ignored (same : G' = G)
  | ended (index : ref.index < pmMaxObjects) (live : (G.objects ref.index).state = .live)
      (active : Active G (G.objects ref.index).poolId) (borrows count : ℕ)
      (object : (G.objects ref.index).activeBorrows = borrows + 1)
      (pool : (G.pools (G.objects ref.index).poolId).borrowCount = count + 1)
      (after : G' = (G.setObj ref.index
        { G.objects ref.index with activeBorrows := borrows }).setPool
          (G.objects ref.index).poolId
          { G.pools (G.objects ref.index).poolId with borrowCount := count })

lemma borrowEnd_ended (G : GlobalState) (ref : RawRef) : BorrowEnded G (borrowEnd G ref) ref := by
  rw [borrowEnd]
  by_cases hok : borrowEndOk G ref = true
  swap
  · rw [if_neg hok]
    exact .ignored rfl
  rw [if_pos hok]
  rw [borrowEndOk, decide_eq_true_eq] at hok
  obtain ⟨-, hlt, hlive, -, -, -, hact, hpos, hcount⟩ := hok
  obtain ⟨P, hP⟩ := Option.isSome_iff_exists.mp hact
  refine .ended hlt hlive (poolAt_eq_some.mp hP).1 ((G.objects ref.index).activeBorrows - 1)
    ((G.pools (G.objects ref.index).poolId).borrowCount - 1) (by omega) (by omega) rfl

/-- An effective `borrow_end` is a step down. -/
lemma borrowEnd_one {ref : RawRef} (hok : borrowEndOk G ref = true) :
    ref.index < pmMaxObjects ∧ OneBorrow (borrowEnd G ref) G ref.index := by
  cases borrowEnd_ended G ref with
  | ignored same =>
      rw [borrowEnd, if_pos hok] at same
      rw [borrowEndOk, decide_eq_true_eq] at hok
      obtain ⟨-, -, -, -, -, -, -, hpos, -⟩ := hok
      have hsame := congrArg (fun F => (F.objects ref.index).activeBorrows) same
      have hdec : (G.objects ref.index).activeBorrows - 1 =
          (G.objects ref.index).activeBorrows := by
        simpa using hsame
      omega
  | ended index live active borrows count object pool after =>
      rw [after]
      refine ⟨index, ?_, ?_, fun p _ => ?_, fun j hj => ?_, fun j => ?_, fun j => ?_⟩
      · rw [GlobalState.setPool_objects, GlobalState.setObj_objects, Function.update_self]
        exact live
      · rw [GlobalState.setPool_objects, GlobalState.setObj_objects, Function.update_self]
        exact object
      · rw [GlobalState.setPool_pools, GlobalState.setPool_objects, GlobalState.setObj_objects,
          Function.update_self, Function.update_apply]
        dsimp only
        by_cases hp : p = (G.objects ref.index).poolId
        · rw [if_pos hp, if_pos hp.symm, hp, pool]
        · rw [if_neg hp, if_neg (Ne.symm hp)]
          rfl
      · rw [GlobalState.setPool_objects, GlobalState.setObj_objects, Function.update_of_ne hj]
      · rw [GlobalState.setPool_objects, GlobalState.setObj_objects, Function.update_apply]
        split_ifs with hj
        · rw [hj]
        · rfl
      · rw [GlobalState.setPool_objects, GlobalState.setObj_objects, Function.update_apply]
        split_ifs with hj
        · rw [hj]
        · rfl

/-- The counters after a step, in a healthy state with `n` borrows. -/
theorem step_borrows (h : GlobalInv G Ls) (hb : Borrows G) (hall : allBorrows G = n) (op : Op)
    (hn : outstanding G op n < 2 ^ 32) :
    Borrows (step G op) ∧ allBorrows (step G op) = outstanding G op n := by
  -- all operations but the two borrow calls leave every count alone
  by_cases hother : (∀ ref k a, op ≠ .borrowBegin ref k a) ∧ ∀ ref, op ≠ .borrowEnd ref
  · have hsame := step_sameBorrows h hb op hother.1 hother.2
    refine ⟨hsame.borrows hb, ?_⟩
    rw [hsame.allBorrows, hall]
    cases op with
    | borrowBegin ref k a => exact absurd rfl (hother.1 ref k a)
    | borrowEnd ref => exact absurd rfl (hother.2 ref)
    | _ => rfl
  cases op with
  | borrowBegin ref k a =>
      show Borrows (borrowBegin G ref k a).2.2 ∧ allBorrows (borrowBegin G ref k a).2.2 =
        if (borrowBegin G ref k a).1 = .ok then n + 1 else n
      by_cases hok : (borrowBegin G ref k a).1 = .ok
      · rw [outstanding, if_pos hok] at hn
        rw [if_pos hok]
        obtain ⟨hi, hone⟩ := borrowBegin_one hb (by omega) hok
        exact ⟨hone.borrows_up hi hb, by rw [hone.allBorrows hi, hall]⟩
      · rw [if_neg hok, borrowBegin_refused hok]
        exact ⟨hb, hall⟩
  | borrowEnd ref =>
      show Borrows (borrowEnd G ref) ∧ allBorrows (borrowEnd G ref) =
        if borrowEndOk G ref then n - 1 else n
      by_cases hok : borrowEndOk G ref = true
      · rw [if_pos hok]
        obtain ⟨hi, hone⟩ := borrowEnd_one hok
        have hup := hone.allBorrows hi
        exact ⟨hone.borrows_down hi hb, by omega⟩
      · rw [borrowEnd, if_neg hok, if_neg hok]
        exact ⟨hb, hall⟩
  | _ =>
      refine absurd ⟨fun ref k a heq => ?_, fun ref heq => ?_⟩ hother
      · cases heq
      · cases heq

end Steps

/-! ### Every run -/

/-- The counters after `init`. -/
lemma init_borrows {G : GlobalState} {cfg : InitConfig} (hok : (init G cfg).1 = .ok) :
    Borrows (init G cfg).2 ∧ allBorrows (init G cfg).2 = 0 := by
  rw [(init_ok hok).1]
  have hzero : ∀ i ∈ Finset.range pmMaxObjects,
      ((initState cfg G.mem).objects i).activeBorrows = 0 := fun _ _ => rfl
  refine ⟨⟨fun _ _ _ => rfl, fun p _ => ?_⟩, Finset.sum_eq_zero hzero⟩
  exact (tally_eq_zero.mpr fun i hi _ => hzero i hi).symm

lemma BorrowRun.borrows {G : GlobalState} {n : ℕ} (h : BorrowRun G n) :
    Borrows G ∧ allBorrows G = n := by
  induction h with
  | init G cfg h => exact init_borrows h
  | step op hn hrun ih =>
      obtain ⟨Ls, hinv⟩ := hrun.reachable.healthy
      exact step_borrows hinv ih.1 ih.2 op hn

/-- In every run with fewer than `2 ^ 32` borrows outstanding, whatever tokens it uses, every
pool counts the borrows of its live objects, only live objects have borrows, all of them are the
outstanding ones, and a `borrow_end` takes one from the counters of one object and of its pool,
both positive, or changes nothing. -/
theorem borrowRun_balanced {G : GlobalState} {n : ℕ} (h : BorrowRun G n) :
    (∀ p, Active G p → (G.pools p).borrowCount =
      ∑ i ∈ Finset.range pmMaxObjects with
        (G.objects i).state = .live ∧ (G.objects i).poolId = p, (G.objects i).activeBorrows)
    ∧ (∀ i < pmMaxObjects, (G.objects i).state ≠ .live → (G.objects i).activeBorrows = 0)
    ∧ ∑ i ∈ Finset.range pmMaxObjects, (G.objects i).activeBorrows = n
    ∧ ∀ ref, BorrowEnded G (borrowEnd G ref) ref := by
  obtain ⟨hb, hall⟩ := h.borrows
  refine ⟨fun p hp => ?_, hb.idle, hall, borrowEnd_ended G⟩
  rw [hb.count p hp.1, hb.tally_live p]

/-- The steps that make `neighbours`, then two borrows of one object, a stale end token between
them, and one end. -/
def heldOps : List Op :=
  letI := defaultConfig
  [.createPool 1, .createPool 1, .alloc 0 24 8 0 1, .alloc 0 40 8 0 2,
    .free ⟨0, 1, crossHint, 0⟩ [], .alloc 1 24 8 pmPinned 3, .borrowBegin ⟨1, 1, 0, 0⟩ 8 8,
    .borrowEnd ⟨0, 1, crossHint, 0⟩, .borrowBegin ⟨1, 1, crossHint, 4⟩ 1 1,
    .borrowEnd ⟨1, 1, 0, 0⟩]

/-- One borrow is left. -/
def held : GlobalState :=
  letI := defaultConfig
  runOps (init .zero smallZone).2 heldOps

omit [PmConfig] in
set_option maxRecDepth 100000 in
lemma held_run : letI := defaultConfig; BorrowRun held 1 := by
  let _ := defaultConfig
  have hrun := @BorrowRun.runOps _ _ 0 (.init .zero smallZone (by decide)) heldOps (by decide)
  have hone : outstandingAfter (init .zero smallZone).2 0 heldOps = 1 := by decide +kernel
  rwa [hone] at hrun

omit [PmConfig] in
theorem borrowRun_balanced_held :
    letI := defaultConfig
    (∀ p, Active held p → (held.pools p).borrowCount =
      ∑ i ∈ Finset.range pmMaxObjects with
        (held.objects i).state = .live ∧ (held.objects i).poolId = p,
          (held.objects i).activeBorrows)
    ∧ (∀ i < pmMaxObjects, (held.objects i).state ≠ .live → (held.objects i).activeBorrows = 0)
    ∧ ∑ i ∈ Finset.range pmMaxObjects, (held.objects i).activeBorrows = 1
    ∧ ∀ ref, BorrowEnded held (borrowEnd held ref) ref := by
  let _ := defaultConfig
  exact borrowRun_balanced held_run

end PondMerge
