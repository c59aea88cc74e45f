import PondMerge.Model.Access
import PondMerge.Guarantees.Contexts
import PondMerge.Guarantees.Typed

/-!
The RAII layer over the machine: any number of contexts borrow, move, use and drop `pm_access`
objects while the owner maintains its pools.

* `Session.Ok`: every borrow has one access, and every access points at its object.
* `sessions_step`: every step is a step of the machine, and keeps that.
* `sessions_safe`, `sessions_refine_store`: every state that is reached.
-/

namespace PondMerge

open Transition

variable [PmConfig]

/-- The accesses that hold slot `i`. -/
def holders (l : List PmAccess) (i : ℕ) : ℕ :=
  l.countP fun a => a.ptr.isSome && a.ref.index == i

section Holders

variable {l : List PmAccess} {a : PmAccess} {i k addr : ℕ}

omit [PmConfig] in
lemma holders_append (l : List PmAccess) (a : PmAccess) (i : ℕ) :
    holders (l ++ [a]) i = holders l i + if a.ptr.isSome ∧ a.ref.index = i then 1 else 0 := by
  rw [holders, holders, List.countP_append, List.countP_singleton]
  simp

omit [PmConfig] in
lemma holders_moved (hk : l[k]? = some a) (i : ℕ) :
    holders (l.set k a.moved) i + (if a.ptr.isSome ∧ a.ref.index = i then 1 else 0) =
      holders l i := by
  obtain ⟨hlt, rfl⟩ := List.getElem?_eq_some_iff.mp hk
  rw [holders, holders, List.countP_set hlt]
  have hpos : (l[k].ptr.isSome && l[k].ref.index == i) = true →
      0 < l.countP fun a => a.ptr.isSome && a.ref.index == i := fun h =>
    List.countP_pos_iff.mpr ⟨l[k], List.getElem_mem hlt, h⟩
  simp only [PmAccess.moved, Option.isSome_none, Bool.false_and, Bool.false_eq_true, if_false,
    Nat.add_zero]
  by_cases h : (l[k].ptr.isSome && l[k].ref.index == i) = true
  · have hp := hpos h
    rw [if_pos h, if_pos (by simpa using h)]
    omega
  · rw [if_neg h, if_neg (by simpa using h)]
    omega

omit [PmConfig] in
lemma holders_pos (ha : a ∈ l) (hptr : a.ptr = some addr) : 0 < holders l a.ref.index :=
  List.countP_pos_iff.mpr ⟨a, ha, by simp [hptr]⟩

omit [PmConfig] in
/-- The holders of a set of slots are the accesses into it. -/
lemma sum_holders (l : List PmAccess) (S : Finset ℕ) :
    ∑ i ∈ S, holders l i = l.countP fun a => a.ptr.isSome && decide (a.ref.index ∈ S) := by
  induction l with
  | nil => simp [holders]
  | cons a l ih =>
      have hcons : ∀ i, holders (a :: l) i =
          holders l i + if a.ptr.isSome ∧ a.ref.index = i then 1 else 0 := by
        intro i
        rw [holders, List.countP_cons, holders]
        simp
      have hone : ∑ i ∈ S, (if a.ptr.isSome ∧ a.ref.index = i then 1 else 0) =
          if a.ptr.isSome ∧ a.ref.index ∈ S then 1 else 0 := by
        by_cases hptr : a.ptr.isSome = true
        · simp [hptr]
        · simp [hptr]
      rw [List.countP_cons, ← ih]
      simp only [hcons, Finset.sum_add_distrib, hone, Bool.and_eq_true, decide_eq_true_eq]

end Holders

/-! ### Accesses that point at their objects -/

/-- The access holds the object that its reference names, and `addr` is where that lies, aligned
for the type. -/
structure PmAccess.Valid (a : PmAccess) (G : GlobalState) (addr : ℕ) : Prop where
  index : a.ref.index < pmMaxObjects
  live : (G.objects a.ref.index).state = .live
  generation : a.ref.generation ≠ 0 ∧ (G.objects a.ref.index).generation = a.ref.generation
  hint : a.ref.poolHint = crossHint ∨ a.ref.poolHint = (G.objects a.ref.index).poolId
  address : addr = (G.objects a.ref.index).address + a.ref.offset
  inside : a.ref.offset + a.type.size ≤ (G.objects a.ref.index).size
  aligned : a.type.align ∣ addr

/-- Every borrow has its access, and every access its object. -/
structure Session.Ok (s : Session) : Prop where
  counts : ∀ i < pmMaxObjects, (s.machine.state.objects i).activeBorrows = holders s.accesses i
  valid : ∀ a ∈ s.accesses, ∀ addr, a.ptr = some addr → a.Valid s.machine.state addr

/-- The operation is a borrow call of the low-level interface. -/
def Op.rawBorrow : Op → Bool
  | .borrowBegin .. | .borrowEnd .. => true
  | _ => false

/-- The accesses that hold an object. -/
def Session.held (s : Session) : ℕ := s.accesses.countP fun a => a.ptr.isSome

omit [PmConfig] in
lemma Session.held_le (s : Session) : s.held ≤ s.accesses.length := List.countP_le_length

/-- There is room for one more access that holds an object, and the owner borrows through accesses
too. -/
def Session.Admits (s : Session) : ClientAction → Prop
  | .tryBorrow .. => s.held + 1 < 2 ^ 32
  | .owner o => o.rawBorrow = false
  | _ => True

/-- The scheduling choice that a client's action is. -/
def Session.action (s : Session) : ClientAction → Option Action
  | .tryBorrow _ p T => some (.context (.borrowBegin p.ref T.size T.align))
  | .move _ => none
  | .drop k =>
    match s.accesses[k]? with
    | none => none
    | some a => if a.ptr.isSome then some (.context (.borrowEnd a.ref)) else none
  | .store k j v =>
    match s.accesses[k]? with
    | none => none
    | some a =>
      if a.ptr.isSome ∧ j < a.type.size then
        some (.context (.write ⟨a.ref.index, a.ref.offset + j, v⟩))
      else none
  | .pause id => some (.context (.pause id))
  | .resume id => some (.context (.resume id))
  | .owner o => some (.owner o)
  | .call c => some (.call c)
  | .advance => some .advance

/-- The calls that it completes. -/
def Session.events (s : Session) (a : ClientAction) : List Event :=
  match s.action a with
  | none => []
  | some act => (s.machine.next act).1

/-- The machine with the accesses of all contexts. -/
def sessions : System Session (ClientAction × List Event) where
  init s := interleaved.init s.machine ∧ s.accesses = []
  step s a s' := s.Admits a.1 ∧ a.2 = s.events a.1 ∧ s' = s.next a.1

section Steps

variable {s s' : Session} {M M' : Machine} {H G G' : GlobalState} {a : PmAccess} {i addr : ℕ}

/-- An accepted address passes the mask test. -/
lemma checkRef_mask {ref : RawRef} {n al : ℕ} {rr : Bool} (h : checkRef G ref n al rr = .ok addr) :
    addr &&& (al - 1) = 0 := by
  obtain ⟨hok, haddr⟩ := checkRef_ok h
  rw [checkRef] at h
  obtain ⟨-, h⟩ := of_guard h
  obtain ⟨-, h⟩ := of_guard h
  obtain ⟨-, h⟩ := of_guard h
  obtain ⟨-, h⟩ := of_guard h
  obtain ⟨-, h⟩ := of_guard h
  obtain ⟨-, h⟩ := of_guard h
  rw [poolAt_eq_some.mpr ⟨hok.owner, rfl⟩] at h
  obtain ⟨-, h⟩ := of_guard h
  obtain ⟨-, h⟩ := of_guard h
  obtain ⟨-, h⟩ := of_guard h
  obtain ⟨-, h⟩ := of_guard h
  obtain ⟨-, h⟩ := of_guard h
  obtain ⟨-, h⟩ := of_guard h
  obtain ⟨hmask, -⟩ := of_guard h
  rw [haddr]
  exact not_not.mp hmask

/-- The access stays valid where its object stays. -/
lemma PmAccess.Valid.samePlace (h : a.Valid G addr)
    (hplace : SamePlace (G.objects a.ref.index) (G'.objects a.ref.index)) : a.Valid G' addr :=
  ⟨h.index, hplace.state.trans h.live, ⟨h.generation.1, hplace.generation.trans h.generation.2⟩,
    hplace.poolId ▸ h.hint, hplace.address ▸ h.address, hplace.size ▸ h.inside, h.aligned⟩

/-- The borrows of a session are held by accesses. -/
lemma Session.Ok.borrows_le (h : s.Ok) : allBorrows s.machine.state ≤ s.held := by
  rw [allBorrows]
  calc ∑ i ∈ Finset.range pmMaxObjects, (s.machine.state.objects i).activeBorrows
      = ∑ i ∈ Finset.range pmMaxObjects, holders s.accesses i :=
        Finset.sum_congr rfl fun i hi => h.counts i (Finset.mem_range.mp hi)
    _ ≤ s.held := by
        rw [sum_holders]
        exact List.countP_mono_left fun a _ h => (Bool.and_eq_true_iff.mp h).1

/-- What the machine does without a borrow call keeps the count of every object. -/
lemma interleaved_step_counts (hS : Serial M H) {act : Action} {es : List Event}
    (hstep : interleaved.step M (act, es) M')
    (hraw : ∀ op, act.op? = some op → op.rawBorrow = false) (hi : i < pmMaxObjects) :
    (M'.state.objects i).activeBorrows = (M.state.objects i).activeBorrows := by
  obtain ⟨Ls, h⟩ := hS.run.reachable.healthy
  have hbefore := (hS.sameBorrows.object i hi).count
  have hmatch := hS.matched hstep
  cases hmatch with
  | stutter serial => rw [(serial.sameBorrows.object i hi).count, hbefore]
  | single op fits performs serial =>
      have hop : op.rawBorrow = false := by
        cases performs with
        | own hop => exact hraw op hop
        | call c => cases c <;> rfl
        | @advance c L hc => cases c <;> rfl
      have hsame := step_sameBorrows h hS.run.borrows.1 op
        (fun ref n a heq => by rw [heq] at hop; cases hop)
        (fun ref heq => by rw [heq] at hop; cases hop)
      rw [(serial.sameBorrows.object i hi).count, (hsame.object i hi).count, hbefore]

/-- What it does without a borrow call keeps the accesses. -/
lemma Session.Ok.machine (h : s.Ok) (hM : Reached interleaved s.machine) {act : Action}
    {es : List Event} (hstep : interleaved.step s.machine (act, es) M')
    (hraw : ∀ op, act.op? = some op → op.rawBorrow = false) :
    Session.Ok { s with machine := M' } := by
  obtain ⟨H, hS⟩ := reached_serial hM
  have hcount := fun i (hi : i < pmMaxObjects) => interleaved_step_counts hS hstep hraw hi
  refine ⟨fun i hi => (hcount i hi).trans (h.counts i hi), fun a ha addr hptr => ?_⟩
  have hv := h.valid a ha addr hptr
  have hheld : s.machine.Holds a.ref.index := by
    rw [Machine.Holds, h.counts _ hv.index]
    exact holders_pos ha hptr
  have hheld' : M'.Holds a.ref.index := by
    rw [Machine.Holds, hcount _ hv.index]
    exact hheld
  have hput := interleaved_step_pins hS hv.index hstep hheld hheld'
  exact hv.samePlace hput.place

/-- `try_borrow` makes a valid access, or a null one. -/
lemma Session.Ok.tryBorrow (h : s.Ok) (hroom : s.held + 1 < 2 ^ 32) {cross : Bool}
    (p : PmPtr cross) (T : CType) : (s.next (.tryBorrow cross p T)).Ok := by
  have hle := h.borrows_le
  simp only [Session.next, PmPtr.tryBorrow, Session.setState]
  cases hck : checkRef s.machine.state p.ref T.size T.align true with
  | error e =>
      have hne : e ≠ .ok := fun heq => checkRef_ne_ok s.machine.state p.ref T.size T.align true
        (heq ▸ hck)
      simp only [borrowBegin, hck, hne, ne_eq, not_false_eq_true, if_true]
      refine ⟨fun i hi => ?_, fun a ha addr hptr => ?_⟩
      · rw [h.counts i hi, holders_append]
        simp [PmAccess.null]
      · rcases List.mem_append.mp ha with ha | ha
        · exact h.valid a ha addr hptr
        · rw [List.mem_singleton.mp ha] at hptr
          cases hptr
  | ok addr =>
      obtain ⟨hok, haddr⟩ := checkRef_ok hck
      simp only [borrowBegin, hck, ne_eq, not_true_eq_false, if_false]
      have hobj := borrowCommit_objects s.machine.state
        (s.machine.state.objects p.ref.index).poolId p.ref.index
      -- no counter wraps, as there is room for one more holder
      have hone : (s.machine.state.objects p.ref.index).activeBorrows
          ≤ allBorrows s.machine.state :=
        Finset.single_le_sum (f := fun i => (s.machine.state.objects i).activeBorrows)
          (fun _ _ => Nat.zero_le _) (Finset.mem_range.mpr hok.index)
      generalize borrowCommit s.machine.state (s.machine.state.objects p.ref.index).poolId
        p.ref.index = F at *
      have hself := hobj p.ref.index
      rw [if_pos rfl] at hself
      -- a borrow moves nothing
      have hplace : ∀ j, SamePlace (s.machine.state.objects j) (F.objects j) := by
        intro j
        rw [hobj j]
        split_ifs with hj
        · rw [hj]
          exact ⟨rfl, rfl, rfl, rfl, rfl⟩
        · exact .of_eq rfl
      refine ⟨fun i hi => ?_, fun a ha addr' hptr => ?_⟩
      · rw [holders_append]
        by_cases hi' : i = p.ref.index
        · subst hi'
          rw [hself, if_pos ⟨rfl, rfl⟩, ← h.counts _ hi]
          exact u32_of_lt (by omega)
        · rw [hobj i, if_neg hi', if_neg (fun hc => hi' hc.2.symm), h.counts i hi]
          rfl
      · rcases List.mem_append.mp ha with ha | ha
        · exact (h.valid a ha addr' hptr).samePlace (hplace a.ref.index)
        · obtain rfl := List.mem_singleton.mp ha
          obtain rfl := Option.some.inj hptr
          refine PmAccess.Valid.samePlace ?_ (hplace p.ref.index)
          exact ⟨hok.index, hok.live, ⟨hok.generationPos, hok.generation⟩, hok.hint, haddr,
            hok.inside, dvd_of_and_pred T.align_pow.1 T.align_pow.2 (checkRef_mask hck)⟩

/-- A move passes the borrow on. -/
lemma Session.Ok.move (h : s.Ok) (k : ℕ) : (s.next (.move k)).Ok := by
  simp only [Session.next]
  cases hk : s.accesses[k]? with
  | none => exact h
  | some a =>
      refine ⟨fun i hi => ?_, fun b hb addr hptr => ?_⟩
      · rw [h.counts i hi, holders_append]
        exact (holders_moved hk i).symm
      · rcases List.mem_append.mp hb with hb | hb
        · rcases List.mem_or_eq_of_mem_set hb with hb | rfl
          · exact h.valid b hb addr hptr
          · cases hptr
        · obtain rfl := List.mem_singleton.mp hb
          exact h.valid _ (List.mem_of_getElem? hk) addr hptr

/-- The token of a valid access is accepted. -/
lemma Session.Ok.borrowEndOk (h : s.Ok) (hM : Reached interleaved s.machine) (ha : a ∈ s.accesses)
    (hptr : a.ptr = some addr) : borrowEndOk s.machine.state a.ref = true := by
  obtain ⟨H, hS⟩ := reached_serial hM
  obtain ⟨Ls, hinv⟩ := hS.run.reachable.healthy
  have hv := h.valid a ha addr hptr
  have hpos : 0 < (s.machine.state.objects a.ref.index).activeBorrows := by
    rw [h.counts _ hv.index]
    exact holders_pos ha hptr
  obtain ⟨hlive, hobj, -⟩ := hS.held hv.index hpos
  obtain ⟨hact, -⟩ := hinv.owner hlive.1 hlive.2
  have hb := hS.sameBorrows.borrows hS.run.borrows.1
  have hcount : 0 < (s.machine.state.pools
      (s.machine.state.objects a.ref.index).poolId).borrowCount := by
    rw [hb.count _ (by rw [hobj]; exact hact.1), hb.tally_live]
    exact lt_of_lt_of_le hpos (Finset.single_le_sum
      (f := fun i => (s.machine.state.objects i).activeBorrows) (fun _ _ => Nat.zero_le _)
      (Finset.mem_filter.mpr ⟨Finset.mem_range.mpr hv.index, hv.live, rfl⟩))
  have hpool : Active s.machine.state (s.machine.state.objects a.ref.index).poolId
      ∧ s.machine.state.initialized = true := by
    rcases hS.aside hinv with ⟨-, hstate⟩ | ⟨R, hA⟩
    · rw [hstate]
      exact ⟨hact, hinv.zone.init⟩
    · have hout : ¬ R.Pool (H.objects a.ref.index).poolId := fun hq => by
        rw [hobj, (hA.idle _ hq).1] at hcount
        omega
      refine ⟨⟨by rw [hobj]; exact hact.1, ?_⟩, hA.zone.initialized ▸ hinv.zone.init⟩
      rw [hobj, hA.pool hout]
      exact hact.2
  have hgen : (s.machine.state.objects a.ref.index).generation ≠ 0 := by
    rw [hv.generation.2]
    exact hv.generation.1
  rw [PondMerge.borrowEndOk]
  simp only [decide_eq_true_eq]
  exact ⟨hpool.2, hv.index, hv.live, hgen, hv.generation.2, hv.hint,
    by rw [poolAt_eq_some.mpr ⟨hpool.1, rfl⟩]; rfl, hpos, hcount⟩

/-- The destructor ends exactly the borrow of its access. -/
lemma Session.Ok.drop (h : s.Ok) (hM : Reached interleaved s.machine) (k : ℕ) :
    (s.next (.drop k)).Ok := by
  simp only [Session.next]
  cases hk : s.accesses[k]? with
  | none => exact h
  | some a =>
      have ha := List.mem_of_getElem? hk
      simp only [Session.setState, PmAccess.drop]
      cases hptr : a.ptr with
      | none =>
          simp only [Option.isSome_none, Bool.false_eq_true, if_false]
          refine ⟨fun i hi => ?_, fun b hb addr hb' => ?_⟩
          · have hm := holders_moved hk i
            rw [hptr] at hm
            rw [h.counts i hi, ← hm]
            simp
          · rcases List.mem_or_eq_of_mem_set hb with hb | rfl
            · exact h.valid b hb addr hb'
            · cases hb'
      | some addr =>
          have hv := h.valid a ha addr hptr
          simp only [Option.isSome_some, if_true, borrowEnd, h.borrowEndOk hM ha hptr]
          refine ⟨fun i hi => ?_, fun b hb addr' hb' => ?_⟩
          · have hm := holders_moved hk i
            have hc := h.counts i hi
            simp only [GlobalState.setPool_objects, GlobalState.setObj_objects]
            by_cases hi' : i = a.ref.index
            · subst hi'
              rw [if_pos ⟨by rw [hptr]; rfl, rfl⟩] at hm
              rw [Function.update_self]
              dsimp only
              omega
            · rw [if_neg (fun hc' => hi' hc'.2.symm)] at hm
              rw [Function.update_of_ne hi']
              omega
          · rcases List.mem_or_eq_of_mem_set hb with hb | rfl
            · refine (h.valid b hb addr' hb').samePlace ?_
              rw [GlobalState.setPool_objects]
              exact setObj_samePlace ⟨rfl, rfl, rfl, rfl, rfl⟩
            · cases hb'

/-- A store through a valid access is a write into its object. -/
lemma PmAccess.Valid.store (hv : a.Valid G addr) {j : ℕ} (hj : j < a.type.size) (v : UInt8) :
    ({ G with mem := Function.update G.mem (addr + j) v } : GlobalState) =
      clientWrite G ⟨a.ref.index, a.ref.offset + j, v⟩ := by
  have hin := hv.inside
  rw [clientWrite, if_pos ⟨hv.index, by rw [hv.live]; decide, by dsimp only; omega⟩]
  dsimp only
  rw [hv.address, Nat.add_assoc]

/-- A client's action is a step of the machine, or moves an access only. -/
lemma Session.Ok.next_machine (h : s.Ok) (a : ClientAction) :
    s.action a = none ∧ (s.next a).machine = s.machine
      ∨ ∃ act, s.action a = some act ∧ (s.next a).machine = (s.machine.next act).2 := by
  cases a with
  | tryBorrow cross p T =>
      refine Or.inr ⟨_, rfl, ?_⟩
      simp only [Session.next, PmPtr.tryBorrow, Session.setState, Machine.next, ContextOp.allowed,
        ContextOp.op, complete, step, if_true]
      split_ifs <;> rfl
  | move k =>
      refine Or.inl ⟨rfl, ?_⟩
      simp only [Session.next]
      cases s.accesses[k]? <;> rfl
  | drop k =>
      simp only [Session.action, Session.next]
      cases hk : s.accesses[k]? with
      | none => exact Or.inl ⟨rfl, rfl⟩
      | some b =>
          simp only [PmAccess.drop, Session.setState]
          by_cases hptr : b.ptr.isSome = true
          · rw [if_pos hptr, if_pos hptr]
            exact Or.inr ⟨_, rfl, rfl⟩
          · rw [if_neg hptr, if_neg hptr]
            exact Or.inl ⟨rfl, rfl⟩
  | store k j v =>
      simp only [Session.action, Session.next]
      cases hk : s.accesses[k]? with
      | none => exact Or.inl ⟨rfl, rfl⟩
      | some b =>
          have hb := List.mem_of_getElem? hk
          cases hptr : b.ptr with
          | none =>
              simp only [hptr]
              exact Or.inl ⟨by simp, trivial⟩
          | some addr =>
              simp only [hptr]
              by_cases hj : j < b.type.size
              · have hv := h.valid b hb addr hptr
                have hheld : 0 < (s.machine.state.objects b.ref.index).activeBorrows := by
                  rw [h.counts _ hv.index]
                  exact holders_pos hb hptr
                rw [if_pos hj, if_pos ⟨rfl, hj⟩]
                refine Or.inr ⟨_, rfl, ?_⟩
                simp only [Machine.next, ContextOp.allowed, hheld, decide_true, if_true, complete,
                  ContextOp.op, step, Session.setState]
                rw [hv.store hj v]
              · rw [if_neg hj, if_neg (fun hc => hj hc.2)]
                exact Or.inl ⟨rfl, rfl⟩
  | pause id => exact Or.inr ⟨_, rfl, rfl⟩
  | resume id => exact Or.inr ⟨_, rfl, rfl⟩
  | owner o => exact Or.inr ⟨_, rfl, rfl⟩
  | call c => exact Or.inr ⟨_, rfl, rfl⟩
  | advance => exact Or.inr ⟨_, rfl, rfl⟩

omit [PmConfig] in
lemma store_action {k j : ℕ} {v : UInt8} {act : Action}
    (h : s.action (.store k j v) = some act) : ∃ w, act = .context (.write w) := by
  simp only [Session.action] at h
  split at h
  · cases h
  · split_ifs at h
    exact ⟨_, (Option.some.inj h).symm⟩

/-- Its borrows fit. -/
lemma Session.Ok.fits (h : s.Ok) (hM : Reached interleaved s.machine) {a : ClientAction}
    (hadm : s.Admits a) {act : Action} (hact : s.action a = some act) {o : Op}
    (ho : act.op? = some o) : BorrowsFit s.machine.state o := by
  have hle := h.borrows_le
  obtain ⟨H, hS⟩ := reached_serial hM
  have hsmall : allBorrows s.machine.state < 2 ^ 32 := by
    rw [hS.allBorrows]
    exact hS.small
  by_cases hbegin : ∃ ref n al, o = .borrowBegin ref n al
  · obtain ⟨ref, n, al, rfl⟩ := hbegin
    cases a with
    | tryBorrow cross p T =>
        have hroom : s.held + 1 < 2 ^ 32 := hadm
        exact lt_of_le_of_lt (outstanding_le s.machine.state _ _) (by omega)
    | owner o =>
        cases hact
        cases ho
        cases hadm
    | drop k =>
        simp only [Session.action] at hact
        split at hact
        · cases hact
        · split_ifs at hact
          cases hact
          cases ho
    | store k j v =>
        simp only [Session.action] at hact
        split at hact
        · cases hact
        · split_ifs at hact
          cases hact
          cases ho
    | _ => cases hact <;> cases ho
  · exact borrowsFit_of_small hsmall fun ref n al heq => absurd ⟨ref, n, al, heq⟩ hbegin

/-- A client's action that the machine takes without a borrow call. -/
lemma Session.Ok.quiet (h : s.Ok) (hM : Reached interleaved s.machine) {a : ClientAction}
    (hadm : s.Admits a) {act : Action} (hact : s.action a = some act)
    (hraw : ∀ op, act.op? = some op → op.rawBorrow = false)
    (hnext : s.next a = { s with machine := (s.machine.next act).2 }) : (s.next a).Ok := by
  rw [hnext]
  have hstep : interleaved.step s.machine (act, (s.machine.next act).1)
      (s.machine.next act).2 := ⟨fun o ho => h.fits hM hadm hact ho, rfl⟩
  exact h.machine hM hstep hraw

/-- Every action keeps every access at its object. -/
theorem Session.Ok.next (h : s.Ok) (hM : Reached interleaved s.machine) {a : ClientAction}
    (hadm : s.Admits a) : (s.next a).Ok := by
  cases a with
  | tryBorrow cross p T => exact h.tryBorrow hadm p T
  | move k => exact h.move k
  | drop k => exact h.drop hM k
  | store k j v =>
      have heq : s.next (.store k j v) = { s with machine := (s.next (.store k j v)).machine } := by
        simp only [Session.next]
        repeat' split
        all_goals rfl
      rcases h.next_machine (.store k j v) with ⟨hnone, hsame⟩ | ⟨act, hact, hnext⟩
      · rw [heq, hsame]
        exact h
      · refine h.quiet hM hadm hact (fun op hop => ?_) (by rw [heq, hnext])
        obtain ⟨w, rfl⟩ := store_action hact
        cases hop
        rfl
  | pause id => exact h.quiet hM hadm rfl (fun op hop => by cases hop; rfl) rfl
  | resume id => exact h.quiet hM hadm rfl (fun op hop => by cases hop; rfl) rfl
  | owner o =>
      refine h.quiet hM hadm rfl (fun op hop => ?_) rfl
      cases hop
      exact hadm
  | call c => exact h.quiet hM hadm rfl (fun op hop => by cases hop) rfl
  | advance => exact h.quiet hM hadm rfl (fun op hop => by cases hop) rfl

end Steps

/-- Every step of a session is a step of the machine, and keeps every access at its object. -/
theorem sessions_simulate :
    Simulation sessions interleaved (fun a => a.2) (fun a => a.2)
      fun s M => s.machine = M ∧ Reached interleaved M ∧ s.Ok where
  init s hs := by
    obtain ⟨hinit, hnone⟩ := hs
    refine ⟨s.machine, hinit, rfl, ⟨s.machine, [], hinit, .nil _⟩, fun i _ => ?_, fun a ha => ?_⟩
    · obtain ⟨⟨G, cfg, hok, heq⟩, -⟩ := hinit
      rw [hnone, heq, (init_ok hok).1]
      rfl
    · rw [hnone] at ha
      cases ha
  step s a s' M hR hstep := by
    obtain ⟨rfl, hM, h⟩ := hR
    obtain ⟨a, es⟩ := a
    obtain ⟨hadm, hes, rfl⟩ := hstep
    dsimp only at hadm hes ⊢
    rw [Session.events] at hes
    rcases h.next_machine a with ⟨hnone, hsame⟩ | ⟨act, hact, hnext⟩
    · rw [hnone] at hes
      refine ⟨[], _, .nil _, ⟨hsame, hM, h.next hM hadm⟩, hes.symm⟩
    · rw [hact] at hes
      have hmachine : interleaved.step s.machine (act, es) (s.next a).machine :=
        ⟨fun o ho => h.fits hM hadm hact ho, by rw [hnext, hes]⟩
      exact ⟨_, _, .single hmachine, ⟨rfl, hM.step hmachine, h.next hM hadm⟩, by simp⟩

section Reached

variable {s s' : Session} {a b : PmAccess} {addr x y : ℕ}

/-- The sessions that are reached. -/
lemma reached_session (hs : Reached sessions s) : Reached interleaved s.machine ∧ s.Ok := by
  obtain ⟨M, -, rfl, hM, h⟩ := sessions_simulate.reached hs
  exact ⟨hM, h⟩

/-- An access holds its object. -/
lemma Session.Ok.holds (h : s.Ok) (ha : a ∈ s.accesses) (hptr : a.ptr = some addr) :
    s.machine.Holds a.ref.index := by
  rw [Machine.Holds, h.counts _ (h.valid a ha addr hptr).index]
  exact holders_pos ha hptr

/-- A pool has as many borrows as accesses. -/
lemma Session.Ok.pool_count (h : s.Ok) (hM : Reached interleaved s.machine) {p : ℕ}
    (hp : p < pmMaxPools) :
    (s.machine.state.pools p).borrowCount = s.accesses.countP fun a =>
      a.ptr.isSome && (s.machine.state.objects a.ref.index).poolId == p := by
  obtain ⟨H, hS⟩ := reached_serial hM
  have hb := hS.sameBorrows.borrows hS.run.borrows.1
  rw [hb.count p hp, hb.tally_live p, Finset.sum_congr rfl fun i hi =>
    h.counts i (Finset.mem_range.mp (Finset.mem_filter.mp hi).1), sum_holders]
  refine List.countP_congr fun a ha => ?_
  cases hptr : a.ptr with
  | none => simp
  | some addr =>
      have hv := h.valid a ha addr hptr
      simp [hv.index, hv.live]

/-- Accesses to different objects point to different bytes. -/
lemma Session.Ok.disjoint (h : s.Ok) (hM : Reached interleaved s.machine) (ha : a ∈ s.accesses)
    (hb : b ∈ s.accesses) (hx : a.ptr = some x) (hy : b.ptr = some y)
    (hne : a.ref.index ≠ b.ref.index) : x + a.type.size ≤ y ∨ y + b.type.size ≤ x := by
  obtain ⟨H, hS⟩ := reached_serial hM
  obtain ⟨Ls, hinv⟩ := hS.run.reachable.healthy
  have hva := h.valid a ha x hx
  have hvb := h.valid b hb y hy
  obtain ⟨hla, hobja, -⟩ := hS.held hva.index (h.holds ha hx)
  obtain ⟨hlb, hobjb, -⟩ := hS.held hvb.index (h.holds hb hy)
  have hapart := hinv.blocks_apart hla hlb hne
  obtain ⟨u, n, -, -, haddra, hsizea, hlea⟩ := hinv.payload hla.1 hla.2
  obtain ⟨v, k, -, -, haddrb, hsizeb, hleb⟩ := hinv.payload hlb.1 hlb.2
  have hina := hva.inside
  have hinb := hvb.inside
  have hxa := hva.address
  have hyb := hvb.address
  rw [hobja] at hina hxa
  rw [hobjb] at hinb hyb
  rw [Relocation.Apart, ObjectDesc.block, ObjectDesc.block] at hapart
  omega

/-- In every state that any contexts reach, every object has as many borrows as accesses, and every
pool as many as there are accesses into it.  Every access points, aligned, at its object, outside
of the pools inside maintenance, its destructor will be accepted, and the bytes of accesses to
different objects are disjoint. -/
theorem sessions_safe (hs : Reached sessions s) :
    (∀ i < pmMaxObjects, (s.machine.state.objects i).activeBorrows = holders s.accesses i)
    ∧ (∀ p < pmMaxPools, (s.machine.state.pools p).borrowCount = s.accesses.countP fun a =>
      a.ptr.isSome && (s.machine.state.objects a.ref.index).poolId == p)
    ∧ ∀ a ∈ s.accesses, ∀ x, a.ptr = some x → a.Valid s.machine.state x
      ∧ poolInMaintenance
        (s.machine.state.pools (s.machine.state.objects a.ref.index).poolId) = false
      ∧ borrowEndOk s.machine.state a.ref = true
      ∧ ∀ b ∈ s.accesses, ∀ y, b.ptr = some y → a.ref.index ≠ b.ref.index →
        x + a.type.size ≤ y ∨ y + b.type.size ≤ x := by
  obtain ⟨hM, h⟩ := reached_session hs
  refine ⟨h.counts, fun p hp => h.pool_count hM hp, fun a ha x hx => ⟨h.valid a ha x hx, ?_,
    h.borrowEndOk hM ha hx, fun b hb y hy hne => h.disjoint hM ha hb hx hy hne⟩⟩
  obtain ⟨H, hS⟩ := reached_serial hM
  obtain ⟨Ls, hinv⟩ := hS.run.reachable.healthy
  obtain ⟨hlive, hobj, -⟩ := hS.held (h.valid a ha x hx).index (h.holds ha hx)
  have hp : (s.machine.state.objects a.ref.index).poolId < pmMaxPools := by
    rw [hobj]
    exact (hinv.owner hlive.1 hlive.2).1.1
  rw [Bool.eq_false_iff]
  intro hin
  have hzero := (hS.maintained hp hin).2
  rw [h.pool_count hM hp, List.countP_eq_zero] at hzero
  exact hzero a ha (by simp [hx])

/-- Under any schedule of contexts and owner, the calls that return `Ok` and the stores through
accesses behave as on a map from handles to bytes; what an access points at are the bytes of that
map, even inside a maintenance call. -/
theorem sessions_refine_store {as : List (ClientAction × List Event)} (hs : sessions.init s)
    (hrun : Run sessions s as s') :
    ∃ es st, Run store Store.empty es st
      ∧ es.flatMap completed = as.flatMap (fun a => a.2)
      ∧ (∀ a ∈ s'.accesses, ∀ addr, a.ptr = some addr → ∃ o, st.Names a.ref o
        ∧ ∀ j < a.type.size, o.bytes[a.ref.offset + j]? = some (s'.machine.state.mem (addr + j)))
      ∧ (s'.machine.owner = .idle → contents s'.machine.state = st) := by
  obtain ⟨M, -, rfl, hM, h⟩ := sessions_simulate.init s hs
  obtain ⟨es, H', hseq, ⟨M', ⟨rfl, hM', h'⟩, hS⟩, hobs⟩ :=
    (sessions_simulate.comp interleaved_simulates).run
      ⟨s.machine, ⟨rfl, hM, h⟩, Serial.initial hs.1⟩ hrun
  have hstore := hs.1.1.run.1.store hseq
  rw [hs.1.1.contents] at hstore
  refine ⟨es, contents H', hstore, hobs, fun a ha addr hptr => ?_, fun hidle => ?_⟩
  · have hv := h'.valid a ha addr hptr
    obtain ⟨hlive, hobj, hmem⟩ := hS.held hv.index (h'.holds ha hptr)
    have hin := hv.inside
    have haddr := hv.address
    have hgen := hv.generation.2
    rw [hobj] at hin haddr hgen
    refine ⟨_, ⟨contents_live hlive, hgen⟩, fun j hj => ?_⟩
    rw [stored_get (by omega), haddr, Nat.add_assoc, hmem _ (by omega)]
  · have howner := hS.owner
    rw [hidle] at howner
    rw [show s'.machine.state = H' from howner]

end Reached

/-! ### Two readers beside a compaction -/

/-- The labels of the steps that a schedule takes. -/
def Session.trace : Session → List ClientAction → List (ClientAction × List Event)
  | _, [] => []
  | s, a :: as => (a, s.events a) :: Session.trace (s.next a) as

/-- The session behind a schedule. -/
def Session.after (s : Session) (as : List ClientAction) : Session := as.foldl Session.next s

/-- A step adds one access at most. -/
lemma Session.next_length (s : Session) (a : ClientAction) :
    (s.next a).accesses.length ≤ s.accesses.length + 1 := by
  cases a with
  | tryBorrow cross p T => simp [Session.next, Session.setState]
  | move k =>
      simp only [Session.next]
      cases s.accesses[k]? with
      | none => simp
      | some b => simp
  | drop k =>
      simp only [Session.next]
      cases s.accesses[k]? with
      | none => simp
      | some b => simp
  | store k j v =>
      simp only [Session.next]
      repeat' split
      all_goals simp [Session.setState]
  | _ => simp [Session.next, Session.setState]

/-- A schedule without borrow calls of the low-level interface is a run. -/
lemma Session.runs {s : Session} {as : List ClientAction}
    (hlen : s.accesses.length + as.length < 2 ^ 32)
    (hraw : ∀ o, ClientAction.owner o ∈ as → o.rawBorrow = false) :
    Run sessions s (s.trace as) (s.after as) := by
  induction as generalizing s with
  | nil => exact .nil s
  | cons a as ih =>
      rw [List.length_cons] at hlen
      have hnext := s.next_length a
      have htail : Run sessions (s.next a) ((s.next a).trace as) ((s.next a).after as) :=
        ih (by omega) fun o ho => hraw o (List.mem_cons_of_mem _ ho)
      refine .cons ⟨?_, rfl, rfl⟩ htail
      cases a with
      | tryBorrow cross p T =>
          have hle := s.held_le
          exact (show s.held + 1 < 2 ^ 32 by omega)
      | owner o => exact hraw o List.mem_cons_self
      | _ => trivial

/-- Two contexts borrow one object, the first access is moved, and the second is dropped and the
moved one written through while the other pool is compacted. -/
def readers : List ClientAction :=
  [.owner (.createPool 1), .owner (.createPool 1), .owner (.alloc 0 24 8 0 1),
    .owner (.alloc 0 40 8 0 2), .owner (.free ⟨0, 1, 0, 0⟩ []), .owner (.alloc 1 24 8 0 3),
    .tryBorrow false (.ofRef false ⟨0, 3, 1, 0⟩) word,
    .tryBorrow true (pmCrossRef ⟨0, 3, 0, 8⟩) word,
    .move 0, .call (.compact 0 none 5), .advance, .drop 1, .store 2 3 7, .advance]

/-- The session before it. -/
def unread : Session := ⟨quiet, []⟩

omit [PmConfig] in
lemma readers_run :
    letI := defaultConfig
    sessions.init unread ∧ Run sessions unread (unread.trace readers) (unread.after readers) := by
  let _ := defaultConfig
  refine ⟨⟨quiet_init, rfl⟩, Session.runs (by decide) fun o ho => ?_⟩
  have hcases : o = .createPool 1 ∨ o = .alloc 0 24 8 0 1 ∨ o = .alloc 0 40 8 0 2
      ∨ o = .free ⟨0, 1, 0, 0⟩ [] ∨ o = .alloc 1 24 8 0 3 := by simpa [readers] using ho
  rcases hcases with rfl | rfl | rfl | rfl | rfl <;> rfl

omit [PmConfig] in
set_option maxRecDepth 100000 in
/-- One of three accesses is left, and the other pool is inside its maintenance call. -/
lemma readers_state :
    letI := defaultConfig
    (unread.after readers).accesses.map (fun a => a.ptr) = [none, none, some 1040]
      ∧ poolInMaintenance ((unread.after readers).machine.state.pools 0) = true := by
  decide +kernel

omit [PmConfig] in
theorem sessions_safe_readers :
    letI := defaultConfig
    (unread.after readers).accesses.map (fun a => a.ptr) = [none, none, some 1040]
      ∧ ∀ a ∈ (unread.after readers).accesses, ∀ x, a.ptr = some x →
        a.Valid (unread.after readers).machine.state x := by
  let _ := defaultConfig
  obtain ⟨hinit, hrun⟩ := readers_run
  obtain ⟨-, -, hvalid⟩ := sessions_safe ⟨_, _, hinit, hrun⟩
  exact ⟨readers_state.1, fun a ha x hx => (hvalid a ha x hx).1⟩

omit [PmConfig] in
theorem sessions_refine_store_readers :
    letI := defaultConfig
    ∃ es st, Run store Store.empty es st
      ∧ es.flatMap completed = (unread.trace readers).flatMap (fun a => a.2)
      ∧ ∀ a ∈ (unread.after readers).accesses, ∀ addr, a.ptr = some addr →
        ∃ o, st.Names a.ref o ∧ ∀ j < a.type.size,
          o.bytes[a.ref.offset + j]? =
            some ((unread.after readers).machine.state.mem (addr + j)) := by
  let _ := defaultConfig
  obtain ⟨hinit, hrun⟩ := readers_run
  obtain ⟨es, st, hstore, hobs, hread, -⟩ := sessions_refine_store hinit hrun
  exact ⟨es, st, hstore, hobs, hread⟩

end PondMerge