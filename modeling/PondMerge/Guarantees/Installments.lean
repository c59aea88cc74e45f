import PondMerge.Guarantees.Confluence
import PondMerge.Guarantees.Advice

/-!
Compaction in installments: a pool that is compacted under one request after another, each with
its own target and its own budgets.

* `packMoves_rest`: what a plan leaves of the full one is the full plan of what it leaves.
* `Executed`: what a course of compactions has done, and what is left to do.
* `installments_alike`: a full compaction behind any installments ends where a single full one
  does, with every block moved once.
* `installments_converge`: installments that are large enough end there by themselves.
-/

namespace PondMerge

open ByteMemory Tiling

variable [PmConfig]

/-! ### What a plan leaves to do -/

section Rows

variable {obj obj' : ℕ → ObjectDesc} {stop c b o : ℕ} {l : List ℕ} {plan : List MovePlanEntry}

omit [PmConfig] in
/-- A row behind a block that has stayed. -/
lemma Placed.behind {i : ℕ} (h : Placed obj obj' (i :: l) plan) : Placed obj obj' l plan :=
  ⟨h.moved, fun j hj => h.stayed j (List.mem_cons_of_mem _ hj),
    fun j hj => h.size j (List.mem_cons_of_mem _ hj)⟩

omit [PmConfig] in
/-- A row behind a block that has been moved. -/
lemma Placed.behind_move {x : MovePlanEntry} (hi : x.slot ∉ l)
    (h : Placed obj obj' (x.slot :: l) (x :: plan)) : Placed obj obj' l plan := by
  refine ⟨fun y hy => h.moved y (List.mem_cons_of_mem _ hy), fun j hj hno => ?_,
    fun j hj => h.size j (List.mem_cons_of_mem _ hj)⟩
  refine h.stayed j (List.mem_cons_of_mem _ hj) fun hm => ?_
  rw [List.map_cons] at hm
  cases List.mem_cons.mp hm with
  | inl hji => exact hi (hji ▸ hj)
  | inr hm => exact hno hm

omit [PmConfig] in
/-- Once a part of the full plan has been executed, the rest of it is the full plan. -/
theorem packMoves_rest (hnd : l.Nodup) (hplan : plan <+: packMoves obj l c)
    (hp : Placed obj obj' l plan) (hpin : ∀ i ∈ l, (obj' i).pinned = (obj i).pinned) :
    packMoves obj l c = plan ++ packMoves obj' l c := by
  induction l generalizing c plan with
  | nil =>
      obtain rfl : plan = [] := List.prefix_nil.mp hplan
      rfl
  | cons i l ih =>
      obtain ⟨hi, hnd'⟩ := List.nodup_cons.mp hnd
      have hpin' : ∀ j ∈ l, (obj' j).pinned = (obj j).pinned :=
        fun j hj => hpin j (List.mem_cons_of_mem _ hj)
      have hpi := hpin i List.mem_cons_self
      have hsi := hp.size i List.mem_cons_self
      have hstay : i ∉ plan.map (·.slot) → (obj' i).block = (obj i).block :=
        hp.stayed i List.mem_cons_self
      rw [packMoves] at hplan
      rw [packMoves, packMoves, hpi, hsi]
      by_cases hpinned : (obj i).pinned = true
      · rw [if_pos hpinned] at hplan
        have hno : i ∉ plan.map (·.slot) := fun hm =>
          not_mem_packMoves hi _ ((hplan.map (·.slot)).subset hm)
        rw [if_pos hpinned, if_pos hpinned, hstay hno]
        exact ih hnd' hplan hp.behind hpin'
      · rw [if_neg hpinned] at hplan
        rw [if_neg hpinned, if_neg hpinned]
        by_cases hb : (obj i).block = c
        · rw [if_pos hb] at hplan
          have hno : i ∉ plan.map (·.slot) := fun hm =>
            not_mem_packMoves hi _ ((hplan.map (·.slot)).subset hm)
          rw [if_pos hb, if_pos ((hstay hno).trans hb)]
          exact ih hnd' hplan hp.behind hpin'
        · rw [if_neg hb] at hplan
          rw [if_neg hb]
          cases plan with
          | nil =>
              -- the plan has been cut off in front of `i`
              rw [if_neg (by rw [hstay (by simp)]; exact hb), List.nil_append]
              rw [ih hnd' List.nil_prefix hp.behind hpin', List.nil_append]
          | cons x plan =>
              obtain ⟨rfl, hrest⟩ := List.cons_prefix_cons.mp hplan
              rw [if_pos (hp.moved _ List.mem_cons_self), List.cons_append,
                ih hnd' hrest (hp.behind_move (x := ⟨i, c, (obj i).blockSize⟩) hi) hpin']

end Rows

/-! ### A course of compactions -/

/-- The descriptors after the moves of a plan. -/
def movedObjects (obj : ℕ → ObjectDesc) (plan : List MovePlanEntry) : ℕ → ObjectDesc :=
  plan.foldl (fun obj x => Function.update obj x.slot (movedDesc x (obj x.slot))) obj

omit [PmConfig] in
lemma movedObjects_append (obj : ℕ → ObjectDesc) (plan plan' : List MovePlanEntry) :
    movedObjects obj (plan ++ plan') = movedObjects (movedObjects obj plan) plan' :=
  List.foldl_append

omit [PmConfig] in
lemma execMoves_objects (G : GlobalState) (plan : List MovePlanEntry) :
    (execMoves G plan).objects = movedObjects G.objects plan := by
  induction plan generalizing G with
  | nil => rfl
  | cons x plan ih => exact ih (execMove G x)

/-- The compactions of pool `p` under the given requests, one after another, as operations; each
takes its own time. -/
def installments (p : ℕ) (reqs : List (Option CompactionRequest × ℕ)) : List Op :=
  reqs.map fun r => .compact p r.1 r.2

lemma installments_cons (G : GlobalState) (p : ℕ) (req : Option CompactionRequest) (elapsed : ℕ)
    (reqs : List (Option CompactionRequest × ℕ)) :
    runOps G (installments p ((req, elapsed) :: reqs)) =
      runOps (compact G p req elapsed).2.2 (installments p reqs) :=
  rfl

/-- What they answer, each with the state it leaves. -/
def answers (p : ℕ) : GlobalState → List (Option CompactionRequest × ℕ) →
    List (Status × GlobalState)
  | _, [] => []
  | G, (req, elapsed) :: reqs =>
    let r := compact G p req elapsed
    (r.1, r.2.2) :: answers p r.2.2 reqs

/-- The objects moved by all of them, as each one reports it. -/
def objectsMovedBy (p : ℕ) (G : GlobalState) (reqs : List (Option CompactionRequest × ℕ)) : ℕ :=
  ((answers p G reqs).map fun r => (r.2.pools p).objectsMoved).sum

/-- And the bytes. -/
def bytesMovedBy (p : ℕ) (G : GlobalState) (reqs : List (Option CompactionRequest × ℕ)) : ℕ :=
  ((answers p G reqs).map fun r => (r.2.pools p).bytesMoved).sum

/-- In `E`, the moves of `plan` have been made in the row `l` of pool `p`, and the others of a
full compaction of `G` have not. -/
structure Executed (G E : GlobalState) (Ls : ℕ → List Piece) (p : ℕ) (l : List ℕ)
    (plan : List MovePlanEntry) : Prop
    extends Rearranged G E Ls p l (poolStart G (G.pools p)) (poolEnd G (G.pools p)) where
  objects : E.objects = movedObjects G.objects plan
  rest : packMoves G.objects l (poolStart G (G.pools p)) =
    plan ++ packMoves E.objects l (poolStart G (G.pools p))

section Course

variable {G E C : GlobalState} {Ls Ls' : ℕ → List Piece} {p : ℕ} {l : List ℕ}
  {plan plan' : List MovePlanEntry} {reqs : List (Option CompactionRequest × ℕ)}

lemma Executed.refl (h : GlobalInv G Ls) (hp : Active G p)
    (hidle : (G.pools p).borrowCount = 0) : Executed G G Ls p (liveSlots (Ls p)) [] :=
  ⟨⟨h, hp, hidle, rfl, ⟨fun _ _ => .refl _, fun _ _ _ => rfl, fun _ _ _ _ => Iff.rfl,
    fun _ _ _ _ => rfl, fun _ _ => rfl⟩, rfl, rfl⟩, rfl, rfl⟩

lemma Executed.trans (h : Executed G E Ls p l plan) (h' : Executed E C Ls' p l plan') :
    Executed G C Ls' p l (plan ++ plan') := by
  have hrest := h'.rest
  have hup := h'.toRearranged.before h.relocated
  rw [h.start] at hrest hup
  rw [h.stop] at hup
  refine ⟨hup, ?_, ?_⟩
  · rw [movedObjects_append, ← h.objects]
    exact h'.objects
  · rw [List.append_assoc, ← hrest]
    exact h.rest

/-- One compaction of the course. -/
lemma compact_executed (h : GlobalInv G Ls) (hp : Active G p)
    (hidle : (G.pools p).borrowCount = 0) {req : Option CompactionRequest}
    (hreq : requestOk req = true) (elapsed : ℕ) :
    ∃ met C Ls', compact G p req elapsed = (.ok, met, C)
      ∧ Executed G C Ls' p (liveSlots (Ls p)) (planOf G p req (liveSlots (Ls p))).1
      ∧ (C.pools p).objectsMoved = (planOf G p req (liveSlots (Ls p))).1.length
      ∧ (C.pools p).bytesMoved = moveBytes (planOf G p req (liveSlots (Ls p))).1
      ∧ Ls' p = packed C.objects (poolEnd G (G.pools p)) (poolStart G (G.pools p))
        (liveSlots (Ls p)) := by
  have hpool := h.pool p hp
  obtain ⟨met, C, Ls', heq, hi⟩ := compact_installed h hp hidle hreq elapsed
  have hpre : (planOf G p req (liveSlots (Ls p))).1 <+:
      packMoves G.objects (liveSlots (Ls p)) (poolStart G (G.pools p)) := planRow_initial 0 0
  have hnd := (hpool.audited h.zone).nodup
  have hobj : C.objects = movedObjects G.objects (planOf G p req (liveSlots (Ls p))).1 := by
    have heq' := compact_eq h hp hidle hreq elapsed
    rw [heq] at heq'
    cases heq'
    rw [compactDone_objects, execMoves_objects]
    rfl
  have hbytes : planBytes (planOf G p req (liveSlots (Ls p))).1 =
      moveBytes (planOf G p req (liveSlots (Ls p))).1 := by
    have hfull := moveBytes_le (c := poolStart G (G.pools p)) hpool.fits
    have hwin := hpool.window_lt h.zone
    have hend := hpool.end_eq
    have hle : moveBytes (planOf G p req (liveSlots (Ls p))).1 ≤
        moveBytes (packMoves G.objects (liveSlots (Ls p)) (poolStart G (G.pools p))) := by
      obtain ⟨rest, hrest⟩ := hpre
      rw [← hrest, moveBytes, moveBytes, List.map_append, List.sum_append]
      exact Nat.le_add_right _ _
    rw [planBytes, ← moveBytes, u32_of_lt (by omega)]
  refine ⟨met, C, Ls', heq, ⟨hi.toRearranged, hobj, ?_⟩, hi.moved.1, hi.moved.2.trans hbytes,
    hi.layout⟩
  exact packMoves_rest hnd hpre hi.placed fun i hmem => (hi.relocated.kept i hmem).pinned

/-- The course, from its first request on. -/
lemma installments_executed (h : GlobalInv G Ls) (hp : Active G p)
    (hidle : (G.pools p).borrowCount = 0) (hreq : ∀ r ∈ reqs, requestOk r.1 = true) :
    (∀ r ∈ answers p G reqs, r.1 = .ok) ∧ ∃ Ls' plan,
      Executed G (runOps G (installments p reqs)) Ls' p (liveSlots (Ls p)) plan
        ∧ objectsMovedBy p G reqs = plan.length ∧ bytesMovedBy p G reqs = moveBytes plan := by
  induction reqs generalizing G Ls with
  | nil => exact ⟨nofun, Ls, [], .refl h hp hidle, rfl, rfl⟩
  | cons r reqs ih =>
      obtain ⟨req, elapsed⟩ := r
      obtain ⟨met, C, Ls₁, heq, hex, hobjs, hbytes, -⟩ :=
        compact_executed h hp hidle (hreq _ List.mem_cons_self) elapsed
      obtain ⟨hok, Ls', plan, hrun, hmoved, hmovedBytes⟩ :=
        ih hex.inv hex.active hex.idle fun r hr => hreq r (List.mem_cons_of_mem _ hr)
      rw [hex.slots] at hrun
      have hanswers : answers p G ((req, elapsed) :: reqs) = (.ok, C) :: answers p C reqs := by
        rw [answers, heq]
      have hstep := installments_cons G p req elapsed reqs
      rw [heq] at hstep
      dsimp only at hstep
      refine ⟨?_, Ls', _, hstep ▸ hex.trans hrun, ?_, ?_⟩
      · rw [hanswers]
        exact List.forall_mem_cons.mpr ⟨rfl, hok⟩
      · rw [objectsMovedBy, hanswers, List.map_cons, List.sum_cons, List.length_append, ← hmoved,
          hobjs]
        rfl
      · rw [bytesMovedBy, hanswers, List.map_cons, List.sum_cons, moveBytes, List.map_append,
          List.sum_append, ← moveBytes, ← moveBytes, ← hmovedBytes, hbytes]
        rfl

/-- When nothing is left to do, the row is packed. -/
lemma Executed.packaged (h : Executed G E Ls p l plan)
    (hdone : packMoves E.objects l (poolStart G (G.pools p)) = [])
    (hlay : Ls p = packed E.objects (poolEnd G (G.pools p)) (poolStart G (G.pools p)) l) :
    Packaged G E Ls p l (poolStart G (G.pools p)) (poolEnd G (G.pools p)) :=
  ⟨h.toRearranged, packMoves_eq_nil.mp hdone, hlay⟩

/-- A full compaction at the end of a course. -/
lemma Executed.finish (h : Executed G E Ls p l plan) (elapsed : ℕ) :
    ∃ met C Ls', compact E p none elapsed = (.ok, met, C)
      ∧ Executed G C Ls' p l (packMoves G.objects l (poolStart G (G.pools p)))
      ∧ plan.length + (C.pools p).objectsMoved =
        (packMoves G.objects l (poolStart G (G.pools p))).length
      ∧ moveBytes plan + (C.pools p).bytesMoved =
        moveBytes (packMoves G.objects l (poolStart G (G.pools p)))
      ∧ Packaged G C Ls' p l (poolStart G (G.pools p)) (poolEnd G (G.pools p)) := by
  obtain ⟨met, C, Ls', heq, hex, hobjs, hbytes, hlay⟩ :=
    compact_executed h.inv h.active h.idle (rfl : requestOk none = true) elapsed
  rw [planOf_none, h.slots, h.start] at hobjs hbytes
  rw [h.slots, h.start, h.stop] at hlay
  rw [planOf_none, h.slots, h.start] at hex
  have htwo := h.trans hex
  have hrest := htwo.rest
  rw [← h.rest] at htwo hrest
  refine ⟨met, C, Ls', heq, htwo, ?_, ?_, htwo.packaged (List.self_eq_append_right.mp hrest) hlay⟩
  · rw [hobjs, ← List.length_append, ← h.rest]
  · rw [hbytes, moveBytes, moveBytes, ← List.sum_append, ← List.map_append, ← h.rest, moveBytes]

end Course

/-- **Installments add up.**  Compactions of an idle pool under any valid requests are all served,
and a full compaction behind them ends where a single full one would have: the same row and the
same bytes, the very same descriptors with their address epochs, and by as many moves and bytes
in all, so that no object is moved twice. -/
theorem installments_alike {G : GlobalState} (h : Reachable G) {p : ℕ} (hp : Active G p)
    (hidle : (G.pools p).borrowCount = 0) {reqs : List (Option CompactionRequest × ℕ)}
    (hreq : ∀ r ∈ reqs, requestOk r.1 = true) (e e' : ℕ) :
    let E := runOps G (installments p reqs)
    let once := compact G p none e
    let last := compact E p none e'
    (∀ r ∈ answers p G reqs, r.1 = .ok) ∧ once.1 = .ok ∧ last.1 = .ok
      ∧ Alike once.2.2 last.2.2 p p ∧ last.2.2.objects = once.2.2.objects
      ∧ objectsMovedBy p G reqs + (last.2.2.pools p).objectsMoved =
        (once.2.2.pools p).objectsMoved
      ∧ bytesMovedBy p G reqs + (last.2.2.pools p).bytesMoved =
        (once.2.2.pools p).bytesMoved := by
  obtain ⟨Ls, hinv⟩ := h.healthy
  obtain ⟨hok, Ls', plan, hrun, hmoved, hbytes⟩ := installments_executed hinv hp hidle hreq
  obtain ⟨met, C, Ls₁, heq, hex, hobjs, hb, hpk⟩ := (Executed.refl hinv hp hidle).finish e
  obtain ⟨met', C', Ls₂, heq', hex', hobjs', hb', hpk'⟩ := hrun.finish e'
  rw [← hmoved] at hobjs'
  rw [← hbytes] at hb'
  rw [List.length_nil, Nat.zero_add] at hobjs
  rw [show moveBytes [] = 0 from rfl, Nat.zero_add] at hb
  dsimp only
  rw [heq, heq']
  exact ⟨hok, rfl, rfl, hpk.alike hpk', hex'.objects.trans hex.objects.symm,
    hobjs'.trans hobjs.symm, hb'.trans hb.symm⟩

/-! ### Convergence -/

omit [PmConfig] in
/-- A plan without a target whose budget covers any single block is empty only where the full one
is. -/
lemma planRow_progress {obj : ℕ → ObjectDesc} {stop c b o : ℕ} {l : List ℕ}
    (hb : b = 0 ∨ ∀ i ∈ l, (obj i).pinned = false → (obj i).blockSize ≤ b)
    (hnil : (planRow obj stop 0 b o l c 0 0).1 = []) : packMoves obj l c = [] := by
  induction l generalizing c with
  | nil => rfl
  | cons i l ih =>
      have htail : b = 0 ∨ ∀ j ∈ l, (obj j).pinned = false → (obj j).blockSize ≤ b :=
        hb.imp_right fun hall j hj => hall j (List.mem_cons_of_mem _ hj)
      rw [planRow] at hnil
      rw [packMoves]
      dsimp only at hnil
      by_cases hpin : (obj i).pinned = true
      · rw [if_pos hpin] at hnil ⊢
        exact ih htail hnil
      · rw [if_neg hpin] at hnil ⊢
        have hbytes : overBudget b (0 + (obj i).blockSize) = false := by
          cases hb with
          | inl hzero => simp [overBudget, hzero]
          | inr hall =>
              have hle := hall i List.mem_cons_self (by simpa using hpin)
              simp only [overBudget, Nat.zero_add, decide_eq_false_iff_not, not_and, not_lt]
              exact fun _ => hle
        have hobjects : overBudget o (0 + 1) = false := by
          simp only [overBudget, decide_eq_false_iff_not, not_and, not_lt]
          omega
        rw [hbytes, hobjects, if_neg (by simp), if_neg (by simp)] at hnil
        by_cases hc : (obj i).block = c
        · rw [if_pos hc] at hnil ⊢
          exact ih htail hnil
        · rw [if_neg hc] at hnil
          cases hnil

/-- A request that can move something of pool `p` as long as there is something to move: it has no
target, and its byte budget covers every movable block. -/
def Generous (G : GlobalState) (p : ℕ) : Option CompactionRequest → Prop
  | none => True
  | some r => r.requestedSize = 0 ∧ (r.maxMoveBytes = 0 ∨ ∀ i, LiveObject G i →
      (G.objects i).poolId = p → (G.objects i).pinned = false →
      (G.objects i).blockSize ≤ r.maxMoveBytes)

section Course

variable {G E C : GlobalState} {Ls Ls' : ℕ → List Piece} {p : ℕ} {l : List ℕ}
  {plan plan' : List MovePlanEntry} {reqs : List (Option CompactionRequest × ℕ)}
  {req : Option CompactionRequest}

lemma Generous.ok (h : Generous G p req) : requestOk req = true := by
  cases req with
  | none => rfl
  | some r => simp [requestOk, h.1]

/-- What is generous stays so. -/
lemma Generous.moved (h : Generous G p req) (hG : GlobalInv G Ls) (hp : Active G p)
    (hE : Rearranged G E Ls' p (liveSlots (Ls p)) (poolStart G (G.pools p))
      (poolEnd G (G.pools p))) : Generous E p req := by
  cases req with
  | none => trivial
  | some r =>
      refine ⟨h.1, h.2.imp_right fun hall i hi hpool hpin => ?_⟩
      have hmem : i ∈ liveSlots (Ls p) :=
        hE.slots ▸ (hE.inv.mem_liveSlots hE.active i).mpr ⟨hi, hpool⟩
      have hk := hE.relocated.kept i hmem
      obtain ⟨hi', hpool'⟩ := (hG.mem_liveSlots hp i).mp hmem
      rw [hk.blockSize]
      exact hall i hi' hpool' (hk.pinned ▸ hpin)

lemma Generous.progress (h : Generous G p req) (hG : GlobalInv G Ls) (hp : Active G p)
    (hnil : (planOf G p req (liveSlots (Ls p))).1 = []) :
    packMoves G.objects (liveSlots (Ls p)) (poolStart G (G.pools p)) = [] := by
  cases req with
  | none =>
      rw [planOf_none] at hnil
      exact hnil
  | some r =>
      have hneed : targetNeed (some r) = 0 := by
        rw [targetNeed]
        exact if_pos h.1
      rw [planOf, hneed] at hnil
      refine planRow_progress (h.2.imp_right fun hall i hi hpin => ?_) hnil
      obtain ⟨hi', hpool'⟩ := (hG.mem_liveSlots hp i).mp hi
      exact hall i hi' hpool' hpin

/-- Every generous request takes at least one move off what is left. -/
lemma installments_left (h : GlobalInv G Ls) (hp : Active G p)
    (hidle : (G.pools p).borrowCount = 0) (hreq : ∀ r ∈ reqs, Generous G p r.1) :
    ∃ Ls' plan, Executed G (runOps G (installments p reqs)) Ls' p (liveSlots (Ls p)) plan
      ∧ (packMoves (runOps G (installments p reqs)).objects (liveSlots (Ls p))
        (poolStart G (G.pools p))).length ≤
        (packMoves G.objects (liveSlots (Ls p)) (poolStart G (G.pools p))).length - reqs.length
      ∧ ((reqs ≠ [] ∨ Ls p = packed G.objects (poolEnd G (G.pools p)) (poolStart G (G.pools p))
          (liveSlots (Ls p))) → Ls' p = packed (runOps G (installments p reqs)).objects
        (poolEnd G (G.pools p)) (poolStart G (G.pools p)) (liveSlots (Ls p))) := by
  induction reqs generalizing G Ls with
  | nil => exact ⟨Ls, [], .refl h hp hidle, le_rfl, fun hl => hl.elim (absurd rfl) id⟩
  | cons r reqs ih =>
      obtain ⟨req, elapsed⟩ := r
      have hgen : Generous G p req := hreq _ List.mem_cons_self
      obtain ⟨met, C, Ls₁, heq, hex, -, -, hlay⟩ :=
        compact_executed h hp hidle hgen.ok elapsed
      obtain ⟨Ls', plan, hrun, hleft, hlay'⟩ := ih hex.inv hex.active hex.idle fun r hr =>
        (hreq r (List.mem_cons_of_mem _ hr)).moved h hp hex.toRearranged
      rw [hex.slots, hex.start] at hleft
      rw [hex.slots] at hrun
      have hstep := installments_cons G p req elapsed reqs
      rw [heq] at hstep
      dsimp only at hstep
      rw [hstep]
      refine ⟨Ls', _, hex.trans hrun, ?_, fun _ => ?_⟩
      · have hrest := congrArg List.length hex.rest
        rw [List.length_append] at hrest
        rw [List.length_cons]
        by_cases hnil : (planOf G p req (liveSlots (Ls p))).1 = []
        · have hdone := hgen.progress h hp hnil
          rw [hdone, List.length_nil] at hrest
          omega
        · have hpos := List.length_pos_iff.mpr hnil
          omega
      · rw [hex.slots, hex.start, hex.stop] at hlay'
        exact hlay' (Or.inr hlay)

end Course

/-- **Small compactions converge.**  Compactions of an idle pool without a target, the byte budget
of each at least every movable block, leave after one more of them than the pool has objects what
a full compaction would have left: each moves something while there is something to move. -/
theorem installments_converge {G : GlobalState} (h : Reachable G) {p : ℕ} (hp : Active G p)
    (hidle : (G.pools p).borrowCount = 0) {reqs : List (Option CompactionRequest × ℕ)}
    (hreq : ∀ r ∈ reqs, Generous G p r.1) (hlen : (G.pools p).liveObjects < reqs.length) (e : ℕ) :
    (compact G p none e).1 = .ok
      ∧ Alike (compact G p none e).2.2 (runOps G (installments p reqs)) p p
      ∧ (runOps G (installments p reqs)).objects = (compact G p none e).2.2.objects := by
  obtain ⟨Ls, hinv⟩ := h.healthy
  obtain ⟨Ls', plan, hrun, hleft, hlay⟩ := installments_left hinv hp hidle hreq
  obtain ⟨met, C, Ls₁, heq, hex, -, -, hpk⟩ := (Executed.refl hinv hp hidle).finish e
  have hfew : (packMoves G.objects (liveSlots (Ls p)) (poolStart G (G.pools p))).length ≤
      (G.pools p).liveObjects := by
    obtain ⟨-, hpack, -⟩ := compactPlan_slots hinv.zone ((hinv.pool p hp).audited hinv.zone) none
    have hle := hpack.sublist.length_le
    rw [planOf_none, List.length_map] at hle
    exact (hinv.pool p hp).live ▸ hle
  have hdone : packMoves (runOps G (installments p reqs)).objects (liveSlots (Ls p))
      (poolStart G (G.pools p)) = [] := List.length_eq_zero_iff.mp (by omega)
  have hrest := hrun.rest
  rw [hdone, List.append_nil] at hrest
  rw [heq]
  refine ⟨rfl, hpk.alike (hrun.packaged hdone (hlay (Or.inl ?_))), ?_⟩
  · rintro rfl
    simp at hlen
  · rw [hrun.objects, hex.objects, hrest]

/-- Two blocks behind a hole each. -/
def gapped : GlobalState :=
  letI := defaultConfig
  runOps onePool [.alloc 0 24 8 0 7, .alloc 0 24 8 0 7, .alloc 0 24 8 0 7, .alloc 0 24 8 0 7,
    .free ⟨0, 1, 0, 0⟩ [], .free ⟨2, 1, 0, 0⟩ []]

/-- A budget for a single object. -/
def oneObject : CompactionRequest := ⟨0, 0, 0, 0, 0, 1⟩

omit [PmConfig] in
set_option maxRecDepth 100000 in
lemma gapped_facts :
    letI := defaultConfig
    ((0 < pmMaxPools ∧ (gapped.pools 0).state ≠ .empty) ∧ (gapped.pools 0).borrowCount = 0)
      ∧ (gapped.pools 0).liveObjects < 3
      ∧ ((compact gapped 0 none 5).2.2.pools 0).objectsMoved = 2
      ∧ objectsMovedBy 0 gapped [(some oneObject, 1)] = 1 := by
  decide +kernel

omit [PmConfig] in
set_option maxRecDepth 100000 in
theorem installments_alike_gapped :
    letI := defaultConfig
    Alike (compact gapped 0 none 5).2.2
        (compact (runOps gapped (installments 0 [(some oneObject, 1)])) 0 none 7).2.2 0 0
      ∧ ((compact (runOps gapped (installments 0 [(some oneObject, 1)])) 0 none 7).2.2.pools
        0).objectsMoved = 1 := by
  let _ := defaultConfig
  have hreach : letI := defaultConfig; Reachable gapped := onePool_reachable.runOps _
  obtain ⟨⟨hp, hidle⟩, -, htwo, hone⟩ := gapped_facts
  obtain ⟨-, -, -, halike, -, hsum, -⟩ := @installments_alike defaultConfig gapped hreach 0 hp hidle
    [(some oneObject, 1)] (by decide) 5 7
  rw [htwo, hone] at hsum
  exact ⟨halike, by omega⟩

omit [PmConfig] in
set_option maxRecDepth 100000 in
theorem installments_converge_gapped :
    letI := defaultConfig
    Alike (compact gapped 0 none 5).2.2 (runOps gapped (installments 0
      [(some oneObject, 1), (some oneObject, 2), (some oneObject, 3)])) 0 0 := by
  let _ := defaultConfig
  have hreach : letI := defaultConfig; Reachable gapped := onePool_reachable.runOps _
  obtain ⟨⟨hp, hidle⟩, hlen, -⟩ := gapped_facts
  have hgen : letI := defaultConfig
      ∀ r ∈ [(some oneObject, 1), (some oneObject, 2), (some oneObject, 3)],
        Generous gapped 0 r.1 := by
    simp [Generous, oneObject]
  exact (@installments_converge defaultConfig gapped hreach 0 hp hidle _ hgen hlen 5).2.1

end PondMerge
