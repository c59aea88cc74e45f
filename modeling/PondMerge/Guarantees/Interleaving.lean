import PondMerge.Library.Transition
import PondMerge.Operations.Interleaving
import PondMerge.Guarantees.Borrows

/-!
The maintenance protocol is safe: whatever the other contexts do between the arming and the commit
of a maintenance call, the whole behaves like single operations one after another.

* `armCall_refused`, `planCall_refused`, `planCall_committed`: the steps of a call on its own make
  up the operation.
* `interleaved_simulates`: every step of the machine is matched by a sequential one.
-/

namespace PondMerge

open Transition Tiling

variable [PmConfig]

/-! ### A call on its own -/

section Alone

variable {H G : GlobalState} {Ls : ℕ → List Piece} {L : Locals} {c : Call} {st : Status}
  {todo : List Micro} {met : Bool}

/-- A call that is refused before or in its arming block. -/
lemma armCall_refused (harm : armCall H c = (st, L, G)) (hst : st ≠ .ok) :
    step H c.op = G ∧ (reply H c.op).ok = false := by
  cases c with
  | compact p req elapsed =>
      simp only [Call.op, step, reply, Reply.ok]
      rw [armCall] at harm
      rw [compact]
      split_ifs at harm ⊢ with hinit
      · cases harm
        exact ⟨rfl, by simp⟩
      · cases hat : poolAt H p with
        | none =>
            rw [hat] at harm
            cases harm
            exact ⟨rfl, by simp⟩
        | some P =>
            rw [hat] at harm
            rcases hc : compactArm H p with ⟨st', G'⟩
            rw [hc] at harm
            cases harm
            cases st' with
            | ok => exact absurd rfl hst
            | _ => exact ⟨rfl, by simp⟩
  | merge s t =>
      simp only [Call.op, step, reply, Reply.ok]
      rw [armCall] at harm
      rw [merge]
      split_ifs at harm ⊢ with hinit hne
      · cases harm
        exact ⟨rfl, by simp⟩
      · cases harm
        exact ⟨rfl, by simp⟩
      · rcases hc : mergeArm H s t with ⟨st', G'⟩
        rw [hc] at harm
        cases harm
        cases st' with
        | ok => exact absurd rfl hst
        | _ => exact ⟨rfl, by simp⟩
  | split s n =>
      simp only [Call.op, step, reply, Reply.ok]
      rw [armCall] at harm
      rw [split]
      split_ifs at harm ⊢ with hinit
      · cases harm
        exact ⟨rfl, by simp⟩
      · rcases hc : splitArm H s n with ⟨st', nid, G'⟩
        rw [hc] at harm
        cases harm
        cases st' with
        | ok => exact absurd rfl hst
        | _ => exact ⟨rfl, by simp⟩

/-- `compact` behind its arming block. -/
lemma compact_armed (h : GlobalInv H Ls) {p : ℕ} (hp : Active H p)
    (hb : (H.pools p).borrowCount = 0) (req : Option CompactionRequest) (elapsed : ℕ) :
    compact H p req elapsed =
      let r := compactImpl (H.setPool p { H.pools p with state := .compacting }) p req elapsed
      (r.1, decide (r.1 = .ok) && r.2.1,
        compactCommit r.2.2 p r.1 (decide ((H.pools p).state = .paused))) := by
  rw [compact, h.zone.init, poolAt_eq_some.mpr ⟨hp, rfl⟩]
  simp only [compactArm_healthy h hp, hb, ne_eq, not_true_eq_false, if_false, Bool.not_true,
    Bool.false_eq_true]

/-- A call whose plan fails. -/
lemma planCall_refused (h : GlobalInv H Ls) (hr : c.Ready H L G) {e : Status}
    (hplan : planCall G L c = .error e) :
    step H c.op = restoreCall G L e c ∧ (reply H c.op).ok = false := by
  cases c with
  | compact p req elapsed =>
      obtain ⟨hp, hb, hL, rfl⟩ := hr
      -- the status of the plan is that of the whole call, which is never `Ok`
      have hz := h.zone.setPool p { H.pools p with state := .compacting }
      simp only [Call.op, step, reply, Reply.ok, compact_armed h hp hb, compactImpl]
      cases haudit : compactAudit (H.setPool p { H.pools p with state := .compacting }) p req with
      | error e' =>
          rw [planCall, haudit] at hplan
          cases hplan
          have hne : e ≠ .ok := fun heq => compactAudit_ne_ok hz req (heq ▸ haudit)
          exact ⟨by rw [restoreCall, hL], by simpa using hne⟩
      | ok r =>
          rw [planCall, haudit] at hplan
          cases hplan
  | merge s t =>
      obtain ⟨hr, hL, rfl⟩ := hr
      have harm := (mergeArm_healthy h hr.ne).1 hr
      simp only [Call.op, step, reply, Reply.ok, merge_armed h.zone.init hr.ne harm]
      cases haudit : mergeAudit (mergeArmed H s t) s t with
      | error e' =>
          rw [planCall, haudit] at hplan
          cases hplan
          obtain ⟨hbad, hgood⟩ := mergeAudit_spec (hr.pair h)
          have hne : e ≠ .ok := by
            intro heq
            by_cases hmin : NoUndersized (Ls (lowerPool H s t))
                ∧ NoUndersized (Ls (upperPool H s t))
            · rw [hgood hmin] at haudit
              cases haudit
            · rw [hbad hmin, heq] at haudit
              cases haudit
          exact ⟨by rw [restoreCall, hL], by simpa using hne⟩
      | ok r =>
          obtain ⟨l, u, plan⟩ := r
          rw [planCall, haudit] at hplan
          cases hplan
  | split s n =>
      obtain ⟨hr, hL, rfl⟩ := hr
      simp only [Call.op, step, reply, Reply.ok, split_eq h hr]
      cases haudit : splitAudit (splitArmed H s L.nid) s n with
      | error e' =>
          rw [planCall, haudit] at hplan
          cases hplan
          rw [splitAudit_eq h hr] at haudit
          have hne : e ≠ .ok := by
            cases hsplit : splitPlan (splitArmed H s L.nid)
                (splitBoundary (splitArmed H s L.nid) s n)
                (poolEnd (splitArmed H s L.nid) ((splitArmed H s L.nid).pools s))
                (liveSlots (Ls s))
                (poolStart (splitArmed H s L.nid) ((splitArmed H s L.nid).pools s))
                (splitBoundary (splitArmed H s L.nid) s n)
                (barriersOf (splitArmed H s L.nid) (liveSlots (Ls s))) with
            | error e' =>
                rw [hsplit] at haudit
                cases haudit
                rcases splitPlan_error hsplit with rfl | rfl <;> decide
            | ok plan =>
                rw [hsplit] at haudit
                cases haudit
          have hsource : L.source = (H.pools s).state := congrArg Locals.source hL
          exact ⟨by rw [restoreCall, hsource], by simpa using hne⟩
      | ok r =>
          rw [planCall, haudit] at hplan
          cases hplan

/-- A call that runs through. -/
lemma planCall_committed (h : GlobalInv H Ls) (hr : c.Ready H L G)
    (hplan : planCall G L c = .ok (todo, met)) :
    step H c.op = commitCall (todo.foldl Micro.run G) L c
      ∧ reply H c.op = c.success L met := by
  cases c with
  | compact p req elapsed =>
      obtain ⟨hp, hb, hL, rfl⟩ := hr
      cases haudit : compactAudit (H.setPool p { H.pools p with state := .compacting }) p req with
      | error e =>
          rw [planCall, haudit] at hplan
          cases hplan
      | ok r =>
          obtain ⟨slots, plan, met'⟩ := r
          rw [planCall, haudit] at hplan
          cases hplan
          have himpl : compactImpl (H.setPool p { H.pools p with state := .compacting }) p req
              elapsed = (.ok, met, compactRebuild (execMoves (H.setPool p
                { H.pools p with state := .compacting }) plan) p slots plan elapsed) := by
            rw [compactImpl, haudit]
          simp only [Call.op, step, reply, compact_armed h hp hb, himpl]
          rw [commitCall, hL, List.foldl_append, List.foldl_map]
          exact ⟨rfl, by simp [Call.success]⟩
  | merge s t =>
      obtain ⟨hr, hL, rfl⟩ := hr
      -- the audit decides, and what follows it is the body and the commit
      have harm := (mergeArm_healthy h hr.ne).1 hr
      simp only [Call.op, step, reply, merge_armed h.zone.init hr.ne harm]
      cases haudit : mergeAudit (mergeArmed H s t) s t with
      | error e =>
          rw [planCall, haudit] at hplan
          cases hplan
      | ok r =>
          obtain ⟨l, u, plan⟩ := r
          rw [planCall, haudit] at hplan
          cases hplan
          rw [commitCall, List.foldl_append, List.foldl_append, List.foldl_map, List.foldl_map]
          exact ⟨rfl, rfl⟩
  | split s n =>
      obtain ⟨hr, hL, rfl⟩ := hr
      simp only [Call.op, step, reply, split_eq h hr]
      cases haudit : splitAudit (splitArmed H s L.nid) s n with
      | error e =>
          rw [planCall, haudit] at hplan
          cases hplan
      | ok r =>
          obtain ⟨slots, plan⟩ := r
          rw [planCall, haudit] at hplan
          cases hplan
          rw [commitCall, List.foldl_append, List.foldl_map]
          exact ⟨rfl, rfl⟩

end Alone

/-! ### The two systems -/

/-- The states a successful `init` leaves. -/
def Initial (G : GlobalState) : Prop := ∃ G₀ cfg, (init G₀ cfg).1 = .ok ∧ G = (init G₀ cfg).2

/-- The operation leaves fewer than `2 ^ 32` borrows outstanding. -/
def BorrowsFit (G : GlobalState) (op : Op) : Prop := outstanding G op (allBorrows G) < 2 ^ 32

/-- One operation after another, each with its reply. -/
def sequential : System GlobalState Event where
  init := Initial
  step G e G' := BorrowsFit G e.1 ∧ e.2 = reply G e.1 ∧ G' = PondMerge.step G e.1

/-- A single operation that a scheduling choice is. -/
def Action.op? : Action → Option Op
  | .context o => some o.op
  | .owner o => some o
  | .call _ => none
  | .advance => none

/-- The machine under any schedule.  A label is a scheduling choice with the calls it completes. -/
def interleaved : System Machine (Action × List Event) where
  init M := Initial M.state ∧ M.owner = .idle
  step M a M' := (∀ o, a.1.op? = some o → BorrowsFit M.state o) ∧ M.next a.1 = (a.2, M')

/-- The machine state `M` with all calls but the one under way done in `H`. -/
structure Serial (M : Machine) (H : GlobalState) : Prop where
  run : BorrowRun H (allBorrows H)
  small : allBorrows H < 2 ^ 32
  owner : match M.owner with
    | .idle => M.state = H
    | .armed c L => armCall H c = (.ok, L, M.state)
    | .working c L met todo => ∃ G done, armCall H c = (.ok, L, G)
      ∧ planCall G L c = .ok (done ++ todo, met) ∧ M.state = done.foldl Micro.run G
    | .failed c L e => armCall H c = (.ok, L, M.state) ∧ planCall M.state L c = .error e

/-- The owner is inside the call `c` with locals `L`. -/
inductive InCall (c : Call) (L : Locals) : Owner → Prop where
  | armed : InCall c L (.armed c L)
  | working (met : Bool) (todo : List Micro) : InCall c L (.working c L met todo)
  | failed (e : Status) : InCall c L (.failed c L e)

section Simulation

variable {M : Machine} {O : Owner} {H H' G X : GlobalState} {Ls : ℕ → List Piece} {L : Locals}
  {c : Call} {R : Region}

lemma Initial.run (h : Initial G) : BorrowRun G (allBorrows G) ∧ allBorrows G < 2 ^ 32 := by
  obtain ⟨G₀, cfg, hok, rfl⟩ := h
  have h₀ := (init_borrows hok).2
  rw [h₀]
  exact ⟨.init G₀ cfg hok, by omega⟩

/-- A sequential step from a state that a run has reached. -/
lemma BorrowRun.next (h : BorrowRun G (allBorrows G)) {op : Op} (hfit : BorrowsFit G op) :
    BorrowRun (PondMerge.step G op) (allBorrows (PondMerge.step G op))
      ∧ allBorrows (PondMerge.step G op) < 2 ^ 32 := by
  have hstep := BorrowRun.step op hfit h
  have hall := hstep.borrows.2
  rw [hall]
  exact ⟨hstep, hfit⟩

/-- Operations that begin no borrow fit. -/
lemma borrowsFit_of_small (hsmall : allBorrows G < 2 ^ 32) {op : Op}
    (hno : ∀ ref n a, op = .borrowBegin ref n a → (borrowBegin G ref n a).1 ≠ .ok) :
    BorrowsFit G op := by
  rw [BorrowsFit]
  cases op with
  | borrowBegin ref n a =>
      rw [outstanding, if_neg (hno ref n a rfl)]
      exact hsmall
  | borrowEnd ref =>
      rw [outstanding]
      split_ifs <;> omega
  | _ => exact hsmall

/-- The borrows of a call under way are those before it. -/
lemma Aside.allBorrows (hA : Aside R H X) : PondMerge.allBorrows X = PondMerge.allBorrows H := by
  refine Finset.sum_congr rfl fun i _ => ?_
  rw [← hA.same]
  rfl

/-- What another context does outside of the region fits before the call too. -/
lemma borrowsFit_outer (hA : Aside R H X) (hsmall : PondMerge.allBorrows H < 2 ^ 32) {op : Op}
    (hfit : BorrowsFit X op) (hreply : reply X op = reply H op) : BorrowsFit H op := by
  cases op with
  | borrowBegin ref n a =>
      have hst : (borrowBegin X ref n a).1 = (borrowBegin H ref n a).1 :=
        (Reply.address.inj hreply).1
      rw [BorrowsFit, outstanding, hst, hA.allBorrows] at hfit
      exact hfit
  | _ =>
      exact borrowsFit_of_small hsmall fun ref n a heq => by cases heq

omit [PmConfig] in
/-- An entry that is not Empty and does not become so. -/
lemma setPool_empty {p : ℕ} {P : Pool} (h : (G.pools p).state ≠ .empty) (hP : P.state ≠ .empty)
    (q : ℕ) : ((G.setPool p P).pools q).state = .empty ↔ (G.pools q).state = .empty := by
  rw [GlobalState.setPool_pools, Function.update_apply]
  split_ifs with hq
  · rw [hq]
    exact iff_of_false hP h
  · rfl

/-- What another context does keeps which entries are Empty. -/
lemma contextOp_empty (o : ContextOp) (q : ℕ) :
    ((step G o.op).pools q).state = .empty ↔ (G.pools q).state = .empty := by
  cases o with
  | borrowBegin ref n a =>
      simp only [ContextOp.op, step, borrowBegin]
      cases checkRef G ref n a true with
      | error e => rfl
      | ok addr =>
          dsimp only
          rw [borrowCommit_pools]
          split_ifs with hq
          · rw [hq]
          · rfl
  | borrowEnd ref =>
      simp only [ContextOp.op, step]
      -- a borrow that ends changes counts only
      cases borrowEnd_ended G ref with
      | ignored same => rw [same]
      | ended index live active borrows count object pool after =>
          rw [after]
          exact setPool_empty (P := { G.pools (G.objects ref.index).poolId with
            borrowCount := count }) active.2 active.2 q
  | pause id =>
      simp only [ContextOp.op, step, pause]
      cases hat : poolAt G id with
      | none => rfl
      | some P =>
          obtain ⟨hact, rfl⟩ := poolAt_eq_some.mp hat
          dsimp only
          split_ifs
          · rfl
          · rfl
          · exact setPool_empty hact.2 (by simp) q
  | resume id =>
      simp only [ContextOp.op, step, resume]
      cases hat : poolAt G id with
      | none => rfl
      | some P =>
          obtain ⟨hact, rfl⟩ := poolAt_eq_some.mp hat
          dsimp only
          split_ifs
          · rfl
          · rfl
          · exact setPool_empty hact.2 (by simp) q
  | write w =>
      simp only [ContextOp.op, step]
      rw [clientWrite_eq]

/-- It keeps the layouts. -/
lemma contextOp_inv (h : GlobalInv G Ls) (o : ContextOp) : GlobalInv (step G o.op) Ls := by
  cases o with
  | borrowBegin ref n a => exact borrowBegin_inv h ref n a
  | borrowEnd ref => exact borrowEnd_inv h ref
  | pause id => exact pause_inv h id
  | resume id => exact resume_inv h id
  | write w => exact clientWrite_inv h w

/-- What another context does beside a call under way: nothing, or a step that could have been
taken before the call. -/
theorem CallUnderway.context (hX : CallUnderway H Ls L c X)
    (hrun : BorrowRun H (PondMerge.allBorrows H))
    (o : ContextOp) (hallow : o.allowed X = true) :
    (step X o.op = X ∧ (reply X o.op).ok = false)
      ∨ Outside (c.region H Ls L) H (step H o.op)
        ∧ step X o.op = splice (c.region H Ls L) (step H o.op) X ∧ reply X o.op = reply H o.op := by
  rcases ContextOp.outer hX.inv hrun.borrows.1 hX.aside o hallow with hno | ⟨hout, hreply⟩
  · exact Or.inl hno
  · exact Or.inr ⟨⟨hout.there, contextOp_empty o⟩, hout.here.symm, hreply⟩

/-- The call under way in a machine state. -/
lemma Serial.underway (hS : Serial ⟨X, O⟩ H) (h : GlobalInv H Ls) (hO : InCall c L O) :
    CallUnderway H Ls L c X := by
  have howner := hS.owner
  cases hO with
  | armed => exact ⟨h, X, [], [], (armCall_ok_iff h).mp howner, trivial, rfl⟩
  | working met todo =>
      obtain ⟨G, done, harm, hplan, hstate⟩ := howner
      have hr := (armCall_ok_iff h).mp harm
      exact ⟨h, G, done, todo, hr, planCall_within h hr hplan, hstate⟩
  | failed e => exact ⟨h, X, [], [], (armCall_ok_iff h).mp howner.1, trivial, rfl⟩

/-- It is still under way, from another state, behind a step of another context. -/
lemma Serial.after (hS : Serial ⟨X, O⟩ H) (h : GlobalInv H Ls) (hO : InCall c L O)
    (h' : GlobalInv H' Ls) (hout : Outside (c.region H Ls L) H H')
    (hrun : BorrowRun H' (PondMerge.allBorrows H')) (hsmall : PondMerge.allBorrows H' < 2 ^ 32) :
    Serial ⟨splice (c.region H Ls L) H' X, O⟩ H' := by
  have howner := hS.owner
  refine ⟨hrun, hsmall, ?_⟩
  cases hO with
  | armed => exact (armCall_ok_iff h').mpr (Call.ready_splice ((armCall_ok_iff h).mp howner) hout)
  | working met todo =>
      obtain ⟨G, done, harm, hplan, hstate⟩ := howner
      have hr := (armCall_ok_iff h).mp harm
      refine ⟨splice (c.region H Ls L) H' G, done,
        (armCall_ok_iff h').mpr (Call.ready_splice hr hout), ?_, ?_⟩
      · rw [planCall_splice h h' hr hout]
        exact hplan
      · rw [(planCall_within h hr hplan).foldl_splice]
        exact congrArg (splice (c.region H Ls L) H') hstate
  | failed e =>
      obtain ⟨harm, hplan⟩ := howner
      have hr := (armCall_ok_iff h).mp harm
      refine ⟨(armCall_ok_iff h').mpr (Call.ready_splice hr hout), ?_⟩
      exact (planCall_splice h h' hr hout).trans hplan

/-- The payload bytes an operation writes for its caller: a client write, or what a callback
writes. -/
def Op.writes : Op → List PayloadWrite
  | .write w => [w]
  | .free _ ws => ws
  | _ => []

/-- The payload bytes a scheduling choice may write. -/
def Action.writes (a : Action) : List PayloadWrite := (a.op?.map Op.writes).getD []

/-- The operation that a scheduling choice may complete: its own, or that of the maintenance call it
begins or that is under way. -/
inductive Machine.Performs (M : Machine) : Action → Op → Prop where
  | own {a : Action} {op : Op} (h : a.op? = some op) : M.Performs a op
  | call (c : Call) : M.Performs (.call c) c.op
  | advance {c : Call} {L : Locals} (h : InCall c L M.owner) : M.Performs .advance c.op

/-- The machine step from `M` to `M'` is matched from `H` on: no sequential step is due, or one
operation that completes the same call. -/
inductive Matched (M : Machine) (a : Action) (M' : Machine) (H : GlobalState) :
    List Event → Prop where
  | stutter (serial : Serial M' H) : Matched M a M' H []
  | single (op : Op) (fits : BorrowsFit H op) (performs : M.Performs a op)
      (serial : Serial M' (PondMerge.step H op)) :
      Matched M a M' H (completed (op, reply H op))

omit [PmConfig] in
/-- It writes no more than the choice may. -/
lemma Machine.Performs.writes {a : Action} {op : Op} (h : M.Performs a op) :
    ∀ w ∈ op.writes, w ∈ a.writes := by
  intro w hw
  cases h with
  | own hop => rwa [Action.writes, hop]
  | call c => cases c <;> cases hw
  | @advance c L hc => cases c <;> cases hw

omit [PmConfig] in
lemma completed_of_not_ok {op : Op} {r : Reply} (h : r.ok = false) : completed (op, r) = [] := by
  rw [completed, if_neg (by simp [h])]

/-- A step is matched by a run of the sequential system. -/
lemma Matched.run {a : Action} {M' : Machine} {es : List Event} (h : Matched M a M' H es) :
    ∃ bs H', Run sequential H bs H' ∧ Serial M' H' ∧ bs.flatMap completed = es := by
  cases h with
  | stutter serial => exact ⟨[], H, .nil H, serial, rfl⟩
  | single op fits performs serial =>
      have hstep : sequential.step H (op, reply H op) (PondMerge.step H op) := ⟨fits, rfl, rfl⟩
      exact ⟨_, _, .single hstep, serial, by simp⟩

/-- One operation from `H` on keeps the bounds on the borrows. -/
lemma Serial.operation (hS : Serial M H) {op : Op} (hfit : BorrowsFit H op) :
    BorrowRun (PondMerge.step H op) (PondMerge.allBorrows (PondMerge.step H op))
      ∧ PondMerge.allBorrows (PondMerge.step H op) < 2 ^ 32 :=
  hS.run.next hfit

/-- A refused operation completes no call. -/
lemma Matched.refused {a : Action} {M' : Machine} {op : Op} (fits : BorrowsFit H op)
    (hperf : M.Performs a op) (hS : Serial M' (PondMerge.step H op))
    (hno : (reply H op).ok = false) : Matched M a M' H [] := by
  have h := Matched.single op fits hperf hS
  rwa [completed_of_not_ok hno] at h

/-- A single operation of an idle machine. -/
lemma Serial.single (hS : Serial ⟨X, .idle⟩ H) {a : Action} {op : Op} (hop : a.op? = some op)
    (hfit : BorrowsFit X op) :
    Matched ⟨X, .idle⟩ a ⟨PondMerge.step X op, .idle⟩ H (completed (op, reply X op)) := by
  have hstate : X = H := hS.owner
  subst hstate
  obtain ⟨hnext, hsmall⟩ := hS.operation hfit
  exact .single op hfit (.own hop) ⟨hnext, hsmall, rfl⟩

/-- A step of another context beside a call under way. -/
lemma Serial.beside (hS : Serial ⟨X, O⟩ H) (hO : InCall c L O) (o : ContextOp)
    (hallow : o.allowed X = true) (hfit : BorrowsFit X o.op) :
    Matched ⟨X, O⟩ (.context o) ⟨PondMerge.step X o.op, O⟩ H
      (completed (o.op, reply X o.op)) := by
  obtain ⟨Ls, h⟩ := hS.run.reachable.healthy
  have hunder := hS.underway h hO
  rcases hunder.context hS.run o hallow with ⟨hsame, hno⟩ | ⟨hout, hstep, hreply⟩
  · rw [hsame, completed_of_not_ok hno]
    exact .stutter hS
  · have hfit' := borrowsFit_outer hunder.aside hS.small hfit hreply
    obtain ⟨hnext, hsmall⟩ := hS.operation hfit'
    rw [hreply, hstep]
    exact .single o.op hfit' (.own rfl)
      (hS.after h hO (contextOp_inv h o) hout hnext hsmall)

/-- A step of another context. -/
lemma Serial.context (hS : Serial M H) (o : ContextOp) (hfit : BorrowsFit M.state o.op) :
    Matched M (.context o) (M.next (.context o)).2 H (M.next (.context o)).1 := by
  obtain ⟨X, O⟩ := M
  by_cases hallow : o.allowed X = true
  · simp only [Machine.next, if_pos hallow, complete]
    cases O with
    | idle => exact hS.single rfl hfit
    | armed c L => exact hS.beside .armed o hallow hfit
    | working c L met todo => exact hS.beside (.working met todo) o hallow hfit
    | failed c L e => exact hS.beside (.failed e) o hallow hfit
  · simp only [Machine.next, if_neg hallow]
    exact .stutter hS

/-- A single operation of the owner. -/
lemma Serial.own (hS : Serial M H) (o : Op) (hfit : BorrowsFit M.state o) :
    Matched M (.owner o) (M.next (.owner o)).2 H (M.next (.owner o)).1 := by
  obtain ⟨X, O⟩ := M
  cases O with
  | idle => exact hS.single rfl hfit
  | armed c L => exact .stutter hS
  | working c L met todo => exact .stutter hS
  | failed c L e => exact .stutter hS

/-- The operation of a call begins no borrow. -/
lemma Call.fits (hsmall : PondMerge.allBorrows H < 2 ^ 32) (c : Call) : BorrowsFit H c.op :=
  borrowsFit_of_small hsmall fun ref n a heq => by cases c <;> cases heq

/-- The entry of a maintenance call. -/
lemma Serial.call (hS : Serial M H) (c : Call) :
    Matched M (.call c) (M.next (.call c)).2 H (M.next (.call c)).1 := by
  obtain ⟨X, O⟩ := M
  cases O with
  | idle =>
      have hstate : X = H := hS.owner
      subst hstate
      rcases harm : armCall X c with ⟨st, L, G⟩
      by_cases hst : st = .ok
      · subst hst
        simp only [Machine.next, harm]
        exact .stutter ⟨hS.run, hS.small, harm⟩
      · obtain ⟨hstep, hno⟩ := armCall_refused harm hst
        have hnext : Machine.next ⟨X, .idle⟩ (.call c) = ([], ⟨G, .idle⟩) := by
          cases st with
          | ok => exact absurd rfl hst
          | _ => simp only [Machine.next, harm]
        have hfit := Call.fits hS.small c
        obtain ⟨hn, hsmall⟩ := hS.operation hfit
        rw [hnext]
        exact .refused hfit (.call c) ⟨hn, hsmall, hstep.symm⟩ hno
  | armed c' L => exact .stutter hS
  | working c' L met todo => exact .stutter hS
  | failed c' L e => exact .stutter hS

/-- The next step inside a maintenance call. -/
lemma Serial.advance (hS : Serial M H) :
    Matched M .advance (M.next .advance).2 H (M.next .advance).1 := by
  obtain ⟨X, O⟩ := M
  obtain ⟨Ls, h⟩ := hS.run.reachable.healthy
  have howner := hS.owner
  cases O with
  | idle => exact .stutter hS
  | armed c L =>
      simp only [Machine.next, PondMerge.advance]
      cases hplan : planCall X L c with
      | error e => exact .stutter ⟨hS.run, hS.small, howner, hplan⟩
      | ok r =>
          obtain ⟨todo, met⟩ := r
          exact .stutter ⟨hS.run, hS.small, X, [], howner, hplan, rfl⟩
  | working c L met todo =>
      obtain ⟨G, done, harm, hplan, hstate⟩ := howner
      have hr := (armCall_ok_iff h).mp harm
      cases todo with
      | nil =>
          simp only [Machine.next, PondMerge.advance]
          rw [List.append_nil] at hplan
          -- the last move is done: what has been run is the body of the call
          obtain ⟨hstep, hreply⟩ := planCall_committed h hr hplan
          have hfit := Call.fits hS.small c
          obtain ⟨hn, hsmall⟩ := hS.operation hfit
          rw [← hreply]
          refine .single c.op hfit (.advance (.working met [])) ⟨hn, hsmall, ?_⟩
          rw [hstep]
          exact congrArg (fun Y => commitCall Y L c) hstate
      | cons m todo =>
          refine .stutter ⟨hS.run, hS.small, G, done ++ [m], harm, ?_, ?_⟩
          · rw [hplan, List.append_assoc]
            rfl
          · rw [List.foldl_append, ← hstate]
            rfl
  | failed c L e =>
      obtain ⟨harm, hplan⟩ := howner
      have hr := (armCall_ok_iff h).mp harm
      -- a refused call leaves the serial run where it was
      obtain ⟨hstep, hno⟩ := planCall_refused h hr hplan
      have hfit := Call.fits hS.small c
      obtain ⟨hn, hsmall⟩ := hS.operation hfit
      exact .refused hfit (.advance (.failed e)) ⟨hn, hsmall, hstep.symm⟩ hno

/-- Every step of the machine is matched. -/
theorem Serial.matched (hS : Serial M H) {a : Action} {es : List Event} {M' : Machine}
    (hstep : interleaved.step M (a, es) M') : Matched M a M' H es := by
  obtain ⟨hfit, hnext⟩ := hstep
  have hmatch : Matched M a (M.next a).2 H (M.next a).1 := by
    cases a with
    | context o => exact hS.context o (hfit o.op rfl)
    | owner o => exact hS.own o (hfit o rfl)
    | call c => exact hS.call c
    | advance => exact hS.advance
  rwa [hnext] at hmatch

/-- The sequential system simulates the machine. -/
theorem interleaved_simulates :
    Simulation interleaved sequential (fun a => a.2) completed Serial where
  init M hM := by
    obtain ⟨hinit, hidle⟩ := hM
    refine ⟨M.state, hinit, hinit.run.1, hinit.run.2, ?_⟩
    rw [hidle]
  step M a M' H hS hstep := by
    obtain ⟨bs, H', hrun, hS', hobs⟩ := (hS.matched hstep).run
    exact ⟨bs, H', hrun, hS', hobs⟩

end Simulation

/-! ### Schedules -/

/-- The labels of the steps that a schedule takes. -/
def Machine.trace : Machine → List Action → List (Action × List Event)
  | _, [] => []
  | M, a :: as => (a, (M.next a).1) :: Machine.trace (M.next a).2 as

/-- The machine behind a schedule. -/
def Machine.after (M : Machine) (as : List Action) : Machine :=
  as.foldl (fun M a => (M.next a).2) M

section Schedules

variable {M M' : Machine} {H : GlobalState}

omit [PmConfig] in
/-- The owner is idle or inside a call. -/
lemma Owner.idle_or_inCall (O : Owner) : O = .idle ∨ ∃ c L, InCall c L O := by
  cases O with
  | idle => exact Or.inl rfl
  | armed c L => exact Or.inr ⟨c, L, .armed⟩
  | working c L met todo => exact Or.inr ⟨c, L, .working met todo⟩
  | failed c L e => exact Or.inr ⟨c, L, .failed e⟩

/-- What the call under way has touched lies aside. -/
lemma Serial.aside (hS : Serial M H) {Ls : ℕ → List Piece} (h : GlobalInv H Ls) :
    M.owner = .idle ∧ M.state = H ∨ ∃ R, Aside R H M.state := by
  obtain ⟨X, O⟩ := M
  rcases O.idle_or_inCall with rfl | ⟨c, L, hO⟩
  · exact Or.inl ⟨rfl, hS.owner⟩
  · exact Or.inr ⟨_, (hS.underway h hO).aside⟩

/-- The machine counts the borrows of the sequential state. -/
lemma Serial.allBorrows (hS : Serial M H) :
    PondMerge.allBorrows M.state = PondMerge.allBorrows H := by
  obtain ⟨Ls, h⟩ := hS.run.reachable.healthy
  rcases hS.aside h with ⟨-, hstate⟩ | ⟨R, hA⟩
  · rw [hstate]
  · exact hA.allBorrows

/-- The operation begins at most one borrow. -/
lemma Serial.next_le (hS : Serial M H) {op : Op} (hfit : BorrowsFit H op) :
    PondMerge.allBorrows (step H op) ≤ PondMerge.allBorrows M.state + 1 := by
  rw [(BorrowRun.step op hfit hS.run).borrows.2, hS.allBorrows]
  exact outstanding_le H op _

/-- With room for the borrows of its actions, every schedule is a run. -/
theorem Serial.schedule (hS : Serial M H) {as : List Action}
    (hlen : PondMerge.allBorrows M.state + as.length < 2 ^ 32) :
    Run interleaved M (M.trace as) (M.after as) ∧ ∃ H', Serial (M.after as) H'
      ∧ PondMerge.allBorrows (M.after as).state ≤ PondMerge.allBorrows M.state + as.length := by
  induction as generalizing M H with
  | nil => exact ⟨.nil M, H, hS, le_rfl⟩
  | cons a as ih =>
      rw [List.length_cons] at hlen ⊢
      have hstep : interleaved.step M (a, (M.next a).1) (M.next a).2 := by
        refine ⟨fun o _ => ?_, rfl⟩
        have hle := outstanding_le M.state o (PondMerge.allBorrows M.state)
        exact lt_of_le_of_lt hle (by omega)
      obtain ⟨H₁, hS₁, hle⟩ : ∃ H₁, Serial (M.next a).2 H₁ ∧
          PondMerge.allBorrows (M.next a).2.state ≤ PondMerge.allBorrows M.state + 1 := by
        have hmatch := hS.matched hstep
        generalize (M.next a).1 = es at hmatch
        cases hmatch with
        | stutter serial => exact ⟨H, serial, by rw [serial.allBorrows, hS.allBorrows]; omega⟩
        | single op fits performs serial =>
            exact ⟨_, serial, by rw [serial.allBorrows]; exact hS.next_le fits⟩
      obtain ⟨hrun, H', hS', hle'⟩ := ih hS₁ (by omega)
      exact ⟨.cons hstep hrun, H', hS', le_trans hle' (by omega)⟩

/-- An initial machine. -/
lemma Serial.initial (hM : interleaved.init M) : Serial M M.state := by
  obtain ⟨hinit, hidle⟩ := hM
  exact ⟨hinit.run.1, hinit.run.2, by rw [hidle]⟩

/-- A schedule from an initial machine, and one that follows it. -/
lemma Serial.schedules (hM : interleaved.init M) {as bs : List Action}
    (hlen : as.length + bs.length < 2 ^ 32) :
    Run interleaved M (M.trace as) (M.after as)
      ∧ Run interleaved (M.after as) ((M.after as).trace bs) ((M.after as).after bs) := by
  obtain ⟨G, cfg, hok, heq⟩ := hM.1
  have hzero : PondMerge.allBorrows M.state = 0 := by
    rw [heq]
    exact (init_borrows hok).2
  obtain ⟨hrun, H', hS', hle⟩ := @Serial.schedule _ M M.state (Serial.initial hM) as (by omega)
  exact ⟨hrun, (hS'.schedule (by omega)).1⟩

/-- Every run of the machine has a serial explanation: the calls that return `Ok` and the writes, in
the order in which they take effect and with the same replies, are those of a sequential run, whose
final state is the machine's as soon as the owner is idle. -/
theorem interleaved_serializable {as : List (Action × List Event)} (hM : interleaved.init M)
    (hrun : Run interleaved M as M') :
    ∃ bs G', Run sequential M.state bs G' ∧ bs.flatMap completed = as.flatMap (fun a => a.2)
      ∧ (M'.owner = .idle → M'.state = G') := by
  obtain ⟨bs, G', hseq, hS', hobs⟩ := interleaved_simulates.run (Serial.initial hM) hrun
  refine ⟨bs, G', hseq, hobs, fun hidle' => ?_⟩
  have howner := hS'.owner
  rwa [hidle'] at howner

end Schedules

/-- A borrow holds off a compaction; the next one moves a block while another context is refused a
borrow and a pause. -/
def contention : List Action :=
  [.owner (.createPool 2), .owner (.alloc 0 24 8 0 1), .owner (.alloc 0 40 8 0 2),
    .owner (.free ⟨0, 1, 0, 0⟩ []), .context (.borrowBegin ⟨1, 1, 0, 0⟩ 8 8),
    .call (.compact 0 none 5), .context (.borrowEnd ⟨1, 1, 0, 0⟩), .context (.resume 0),
    .call (.compact 0 none 5), .context (.borrowBegin ⟨1, 1, 0, 0⟩ 8 8), .advance, .advance,
    .context (.pause 0), .advance, .advance, .context (.borrowBegin ⟨1, 1, crossHint, 8⟩ 4 4)]

/-- The machine before it. -/
def quiet : Machine :=
  letI := defaultConfig
  ⟨(init .zero smallZone).2, .idle⟩

omit [PmConfig] in
lemma quiet_init : letI := defaultConfig; interleaved.init quiet := by
  let _ := defaultConfig
  exact ⟨⟨.zero, smallZone, by decide, rfl⟩, rfl⟩

omit [PmConfig] in
set_option maxRecDepth 100000 in
/-- The calls that return `Ok`. -/
lemma contention_replies :
    letI := defaultConfig
    ((quiet.trace contention).flatMap fun a => a.2.map (·.2)) =
      [.pool .ok (some 0), .ref .ok ⟨0, 1, 0, 0⟩, .ref .ok ⟨1, 1, 0, 0⟩, .status .ok,
        .address .ok 48, .status .ok, .met .ok true, .address .ok 24] := by
  decide +kernel

omit [PmConfig] in
theorem interleaved_serializable_contention :
    letI := defaultConfig
    ∃ bs G', Run sequential quiet.state bs G'
      ∧ (bs.flatMap completed).map (·.2) =
        [.pool .ok (some 0), .ref .ok ⟨0, 1, 0, 0⟩, .ref .ok ⟨1, 1, 0, 0⟩, .status .ok,
          .address .ok 48, .status .ok, .met .ok true, .address .ok 24]
      ∧ ((quiet.after contention).owner = .idle → (quiet.after contention).state = G') := by
  let _ := defaultConfig
  have hlen : contention.length + ([] : List Action).length < 2 ^ 32 := by decide
  obtain ⟨bs, G', hrun, hobs, hidle⟩ :=
    interleaved_serializable quiet_init (Serial.schedules quiet_init hlen).1
  refine ⟨bs, G', hrun, ?_, hidle⟩
  rw [hobs, List.map_flatMap]
  exact contention_replies

end PondMerge
