import PondMerge.Guarantees.Contexts

/-!
A paused pool comes to rest: whatever the owner and the other contexts do, short of opening it
again, its borrows can only end, and then it can be maintained.

* `Op.Opens`: what ends a pause, resuming, destroying or maintaining the pool.
* `step_drains`, `step_rests`, `step_members`: what any other operation does to a paused pool and to
  its objects.
* `Serial.closed`: a paused pool of the machine is as the sequential state has it.
* `paused_drains`: under any schedule that does not open it, a paused pool keeps its entry but for
  the count of its borrows, which does not grow, and its objects, all where they are.
-/

namespace PondMerge

open Transition Tiling Relocation

variable [PmConfig]

/-! ### Entries -/

/-- The entry of a pool with some of its borrows ended, and nothing else changed. -/
def Drains (P P' : Pool) : Prop := ∃ n ≤ P.borrowCount, P' = { P with borrowCount := n }

/-- The operation may end the pause of pool `p`: it resumes, destroys or maintains the pool. -/
def Op.Opens (p : ℕ) (op : Op) : Prop := op = .resume p ∨ op = .destroyPool p ∨ op.Maintains p

section Entries

variable {P P' P'' : Pool} {G : GlobalState} {Ls : ℕ → List Piece} {p : ℕ}

omit [PmConfig] in
lemma Drains.refl (P : Pool) : Drains P P := ⟨P.borrowCount, le_rfl, rfl⟩

omit [PmConfig] in
lemma Drains.of_eq (h : P' = P) : Drains P P' := h ▸ .refl P

omit [PmConfig] in
lemma Drains.trans (h : Drains P P') (h' : Drains P' P'') : Drains P P'' := by
  obtain ⟨n, hn, rfl⟩ := h
  obtain ⟨m, hm, rfl⟩ := h'
  exact ⟨m, le_trans hm hn, rfl⟩

omit [PmConfig] in
lemma Drains.state (h : Drains P P') : P'.state = P.state := by
  obtain ⟨n, -, rfl⟩ := h
  rfl

omit [PmConfig] in
lemma Drains.liveObjects (h : Drains P P') : P'.liveObjects = P.liveObjects := by
  obtain ⟨n, -, rfl⟩ := h
  rfl

omit [PmConfig] in
/-- An entry beside the one that is rewritten. -/
lemma drains_setPool {q : ℕ} (hq : p ≠ q) (P : Pool) :
    Drains (G.pools p) ((G.setPool q P).pools p) :=
  .of_eq (Function.update_of_ne hq _ _)

/-- No operation but those that open it does more to a paused pool than to end borrows. -/
theorem step_drains (h : GlobalInv G Ls) (hst : (G.pools p).state = .paused) {op : Op}
    (hop : ¬ op.Opens p) : Drains (G.pools p) ((step G op).pools p) := by
  -- an operation of a Running pool is one of another pool
  have hne : ∀ q, (G.pools q).state = .running → p ≠ q := fun q hq heq => by
    rw [heq, hq] at hst
    cases hst
  cases op with
  | createPool n =>
      rw [step]
      rcases createPool_cases h n with ⟨st, -, -, heq⟩ | ⟨i, base, heq, hentry, -⟩
      · rw [heq]
        exact .refl _
      · rw [heq, openPool_eq]
        refine drains_setPool (fun hpi => ?_) _
        -- the new pool's entry was Empty
        rw [hpi, (firstEmptyPool_some hentry).2.1] at hst
        cases hst
  | destroyPool q =>
      have hq : p ≠ q := fun heq => hop (Or.inr (Or.inl (heq ▸ rfl)))
      rw [step]
      rcases destroyPool_cases h q with ⟨st, -, heq⟩ | ⟨heq, -, -⟩
      · rw [heq]
        exact .refl _
      · rw [heq]
        exact drains_setPool hq _
  | pause q =>
      rw [step, pause]
      cases hat : poolAt G q with
      | none => exact .refl _
      | some P =>
          obtain ⟨-, rfl⟩ := poolAt_eq_some.mp hat
          dsimp only
          split_ifs with hpaused hrun
          · exact .refl _
          · exact .refl _
          · exact drains_setPool (hne q (not_not.mp hrun)) _
  | resume q =>
      have hq : p ≠ q := fun heq => hop (Or.inl (heq ▸ rfl))
      rw [step, resume]
      cases hat : poolAt G q with
      | none => exact .refl _
      | some P =>
          dsimp only
          split_ifs
          · exact .refl _
          · exact .refl _
          · exact drains_setPool hq _
  | alloc q size alignment flags tag =>
      rw [step]
      rcases alloc_cases G q size alignment flags tag with ⟨st, -, heq⟩ | ⟨need, blk, ha, heq⟩
      · rw [heq]
        exact .refl _
      · rw [heq]
        dsimp only
        rw [allocCommit_pools, Function.update_of_ne (hne q ha.running)]
        exact .refl _
  | free ref ws =>
      rw [step]
      rcases free_cases h ref ws with ⟨st, -, -, heq⟩ | ⟨hok, -, heq⟩
      · rw [heq]
        exact .refl _
      · rw [heq]
        dsimp only
        rw [freeCommit_pools, Function.update_of_ne (hne _ (hok.running rfl)), afterCallback_eq]
        exact .refl _
  | setDestroyFn ref fn =>
      rw [step, setDestroyFn]
      cases checkRef G ref 0 1 false with
      | error e => exact .refl _
      | ok addr =>
          dsimp only
          split_ifs
          · exact .refl _
          · exact .refl _
  | borrowBegin ref n a =>
      rw [step, borrowBegin]
      cases hck : checkRef G ref n a true with
      | error e => exact .refl _
      | ok addr =>
          dsimp only
          rw [borrowCommit_pools, if_neg (hne _ ((checkRef_ok hck).1.running rfl))]
          exact .refl _
  | borrowEnd ref =>
      rw [step]
      cases borrowEnd_ended G ref with
      | ignored same =>
          rw [same]
          exact .refl _
      | ended index live active borrows count object pool after =>
          rw [after]
          -- the one case in which the entry changes: a borrow of its own ends
          by_cases hq : p = (G.objects ref.index).poolId
          · refine ⟨count, by rw [hq, pool]; omega, ?_⟩
            rw [hq]
            exact Function.update_self _ _ _
          · exact .of_eq (Function.update_of_ne hq _ _)
  | compact q req elapsed =>
      have hq : p ≠ q := fun heq => hop (Or.inr (Or.inr heq.symm))
      rw [step]
      by_cases hyes : Active G q ∧ (G.pools q).borrowCount = 0 ∧ requestOk req = true
      · obtain ⟨met, F, L', heq, -, hc⟩ := compact_ok h hyes.1 hyes.2.1 hyes.2.2 elapsed
        rw [heq]
        exact .of_eq (hc.pools p hq)
      · obtain ⟨st, F, heq, -, -, hF⟩ := compact_refused h hyes elapsed
        rw [heq]
        rcases hF with hsame | ⟨-, hpaused⟩
        · rw [hsame]
          exact .refl _
        -- a refused compaction pauses the pool that it was asked for
        · rw [hpaused]
          exact drains_setPool hq _
  | merge s t =>
      rw [step]
      by_cases hyes : MergeReady G s t ∧ NoUndersized (Ls s) ∧ NoUndersized (Ls t)
      · obtain ⟨F, L', heq, -, hm⟩ := merge_ok h hyes.1 hyes.2
        rw [heq]
        exact .of_eq (hm.pools p (fun heq => hop (Or.inr (Or.inr (Or.inl heq.symm))))
          fun heq => hop (Or.inr (Or.inr (Or.inr heq.symm))))
      · obtain ⟨st, heq, -, -⟩ := merge_refused h hyes
        rw [heq]
        exact .refl _
  | split s n =>
      have hs : p ≠ s := fun heq => hop (Or.inr (Or.inr heq.symm))
      rw [step]
      by_cases hok : ∃ nid F, split G s n = (.ok, some nid, F)
      · obtain ⟨nid, F, heq⟩ := hok
        obtain ⟨k, hr⟩ := split_asked (s := s) (n := n) h (by rw [heq])
        rcases split_ok h hr with ⟨st, hst, -⟩ | ⟨G', plan, L₁, L₂, hG', -, -, hsp⟩
        · rw [hst] at heq
          cases heq
        · rw [hG']
          refine .of_eq (hsp.windows.others p hs fun hk => ?_)
          rw [hk, (firstEmptyPool_some hr.entry).2.1] at hst
          cases hst
      · obtain ⟨st, heq, -, -⟩ := split_refused (s := s) (n := n) h
          fun nid F heq => hok ⟨nid, F, heq⟩
        rw [heq]
        exact .refl _
  | write w =>
      rw [step, clientWrite_eq]
      exact .refl _

end Entries

/-! ### Objects -/

section Objects

variable {G : GlobalState} {Ls Ls' : ℕ → List Piece} {p i : ℕ} {op : Op}

/-- The objects of a paused pool stay where they are. -/
lemma step_rests (h : GlobalInv G Ls) (hb : Borrows G) (hst : (G.pools p).state = .paused)
    (hop : ¬ op.Opens p) (hlive : LiveObject G i) (hpool : (G.objects i).poolId = p) :
    SamePlace (G.objects i) ((step G op).objects i) := by
  cases step_place h hb hlive op with
  | stays place => exact place
  | freed idle gone running =>
      rw [hpool, hst] at running
      cases running
  | relocated idle l mem moved maintained =>
      rw [hpool] at maintained
      exact absurd (Or.inr (Or.inr maintained)) hop

/-- And no others come. -/
lemma step_members (h : GlobalInv G Ls) (h' : GlobalInv (step G op) Ls') (hb : Borrows G)
    (hp : p < pmMaxPools) (hst : (G.pools p).state = .paused) (hop : ¬ op.Opens p) :
    LiveObject (step G op) i ∧ ((step G op).objects i).poolId = p ↔
      LiveObject G i ∧ (G.objects i).poolId = p := by
  have hdrains := step_drains h hst hop
  have hact : Active G p := ⟨hp, by rw [hst]; decide⟩
  have hact' : Active (step G op) p := ⟨hp, by rw [hdrains.state, hst]; decide⟩
  have hsub : liveSlots (Ls p) ⊆ liveSlots (Ls' p) := by
    intro j hj
    obtain ⟨hlive, hpool⟩ := (h.mem_liveSlots hact j).mp hj
    have hplace := step_rests h hb hst hop hlive hpool
    exact (h'.mem_liveSlots hact' j).mpr
      ⟨⟨hlive.1, hplace.state.trans hlive.2⟩, hplace.poolId.trans hpool⟩
  -- the pool counts as many objects as before
  have hlen : (liveSlots (Ls' p)).length = (liveSlots (Ls p)).length := by
    rw [← (h'.pool p hact').live, ← (h.pool p hact).live]
    exact hdrains.liveObjects
  have hperm : (liveSlots (Ls p)).Perm (liveSlots (Ls' p)) :=
    ((h.pool p hact).layout.nodup.subperm hsub).perm_of_length_le hlen.le
  rw [← h.mem_liveSlots hact, ← h'.mem_liveSlots hact']
  exact hperm.mem_iff.symm

end Objects

/-! ### The machine -/

/-- The scheduling choice may end the pause of pool `p`. -/
def Action.Opens (p : ℕ) : Action → Prop
  | .context o => o.op.Opens p
  | .owner o => o.Opens p
  | .call c => c.op.Opens p
  | .advance => False

/-- Pool `p` has been at rest: its borrows have ended or not, its objects are the same and where
they were, and their bytes changed by writes into them only. -/
structure Rests (p : ℕ) (as : List (Action × List Event)) (G G' : GlobalState) : Prop where
  entry : Drains (G.pools p) (G'.pools p)
  members : ∀ i, LiveObject G' i ∧ (G'.objects i).poolId = p ↔
    LiveObject G i ∧ (G.objects i).poolId = p
  stays : ∀ i, LiveObject G i → (G.objects i).poolId = p → StaysPut i as G G'

section Machines

variable {M M' : Machine} {H G G' G'' X : GlobalState} {Ls : ℕ → List Piece} {L : Locals} {c : Call}
  {p i : ℕ} {a : Action} {as bs : List (Action × List Event)}

lemma Rests.refl (p : ℕ) (as : List (Action × List Event)) (G : GlobalState) : Rests p as G G :=
  ⟨.refl _, fun _ => Iff.rfl, fun i _ _ => .refl i as G⟩

lemma Rests.trans (h : Rests p as G G') (h' : Rests p bs G' G'') : Rests p (as ++ bs) G G'' := by
  refine ⟨h.entry.trans h'.entry, fun i => (h'.members i).trans (h.members i), fun i hi hpool => ?_⟩
  obtain ⟨hi', hpool'⟩ := (h.members i).mpr ⟨hi, hpool⟩
  exact (h.stays i hi hpool).trans (h'.stays i hi' hpool')

omit [PmConfig] in
/-- The pools that a call maintains are in its region. -/
lemma Call.pool_of_maintains (h : c.op.Maintains p) : (c.region H Ls L).Pool p := by
  cases c with
  | compact q req elapsed => exact Or.inl h.symm
  | merge s t => exact h.imp Eq.symm Eq.symm
  | split s n => exact Or.inl h.symm

/-- The other one is the entry that a `split` fills in. -/
lemma Call.Ready.pool_cases (hr : c.Ready H L G) (h : (c.region H Ls L).Pool p) :
    c.op.Maintains p ∨ (H.pools p).state = .empty := by
  cases c with
  | compact q req elapsed => exact Or.inl (h.elim Eq.symm Eq.symm)
  | merge s t => exact Or.inl (h.imp Eq.symm Eq.symm)
  | split s n =>
      refine h.imp Eq.symm fun hnid => ?_
      rw [show p = L.nid from hnid]
      exact (firstEmptyPool_some hr.1.entry).2.1

/-- The call behind a step was under way before, or has just been made. -/
lemma InCall.before (h : InCall c L (M.next a).2.owner) : InCall c L M.owner ∨ a = .call c := by
  obtain ⟨X, O⟩ := M
  cases a with
  | context o =>
      rw [Machine.next] at h
      split_ifs at h <;> exact Or.inl h
  | owner o => cases O with
    | idle => cases h
    | _ => exact Or.inl h
  | call c' => cases O with
    | idle =>
        rw [Machine.next] at h
        dsimp only at h
        -- only a granted request enters a call
        rcases harm : armCall X c' with ⟨st, L', G⟩
        rw [harm] at h
        cases st with
        | ok =>
            cases h
            exact Or.inr rfl
        | _ => cases h
    | _ => exact Or.inl h
  | advance => cases O with
    | idle => cases h
    | armed c' L' =>
        rw [Machine.next, PondMerge.advance] at h
        dsimp only at h
        cases hplan : planCall X L' c' with
        | error e =>
            rw [hplan] at h
            cases h
            exact Or.inl .armed
        | ok r =>
            rw [hplan] at h
            cases h
            exact Or.inl .armed
    | working c' L' met todo => cases todo with
      | nil => cases h
      | cons m todo =>
          cases h
          exact Or.inl (.working met (m :: todo))
    | failed c' L' e => cases h

/-- A paused pool is as the sequential state has it, and so are its objects. -/
lemma Serial.closed (hS : Serial M H) (hst : (M.state.pools p).state = .paused) :
    M.state.pools p = H.pools p
      ∧ (∀ i, LiveObject H i → (H.objects i).poolId = p → Mirrors i H M.state)
      ∧ ∀ i, LiveObject M.state i ∧ (M.state.objects i).poolId = p ↔
        LiveObject H i ∧ (H.objects i).poolId = p := by
  obtain ⟨Ls, h⟩ := hS.run.reachable.healthy
  rcases hS.aside h with ⟨-, hstate⟩ | ⟨R, hA⟩
  · rw [hstate]
    exact ⟨rfl, fun i hi _ => ⟨hi, rfl, fun _ _ => rfl⟩, fun _ => Iff.rfl⟩
  · have hq : ¬ R.Pool p := fun hq => (hA.busy p hq).2.2 hst
    have hmirrors : ∀ i, LiveObject H i → (H.objects i).poolId = p → Mirrors i H M.state :=
      fun i hi hpool => hA.mirrors h hi (hpool ▸ hq)
    refine ⟨hA.pool hq, hmirrors, fun i => ⟨fun ⟨hi, hpool⟩ => ?_, fun ⟨hi, hpool⟩ => ?_⟩⟩
    · have hobj := hA.object (i := i) (hpool ▸ hq)
      rw [LiveObject, ← hobj]
      exact ⟨hi, hpool⟩
    · have hobj := (hmirrors i hi hpool).object
      rw [LiveObject, hobj]
      exact ⟨hi, hpool⟩

/-- A call under way does not maintain a paused pool. -/
lemma Serial.spares (hS : Serial M H) (hst : (M.state.pools p).state = .paused)
    (hc : InCall c L M.owner) : ¬ c.op.Maintains p := by
  obtain ⟨X, O⟩ := M
  obtain ⟨Ls, h⟩ := hS.run.reachable.healthy
  intro hm
  exact ((hS.underway h hc).aside.busy p (Call.pool_of_maintains hm)).2.2 hst

/-- A pool that the sequential state has paused is paused, unless a call maintains it. -/
lemma Serial.paused (hS : Serial M H) (hst : (H.pools p).state = .paused)
    (hspares : ∀ c L, InCall c L M.owner → ¬ c.op.Maintains p) :
    (M.state.pools p).state = .paused := by
  obtain ⟨X, O⟩ := M
  obtain ⟨Ls, h⟩ := hS.run.reachable.healthy
  rcases O.idle_or_inCall with rfl | ⟨c, L, hO⟩
  · rw [show X = H from hS.owner]
    exact hst
  · have hunder := hS.underway h hO
    obtain ⟨G, done, todo, hr, -, -⟩ := hunder.body
    rw [hunder.aside.pool (q := p) fun hq => ?_]
    · exact hst
    · cases hr.pool_cases hq with
      | inl hm => exact hspares c L hO hm
      | inr he =>
          rw [hst] at he
          cases he

/-- What a scheduling choice performs does not open the pool, if the choice does not. -/
lemma Machine.Performs.not_opens {op : Op} (h : M.Performs a op) (hS : Serial M H)
    (hst : (M.state.pools p).state = .paused) (hopen : ¬ a.Opens p) : ¬ op.Opens p := by
  cases h with
  | own hop => cases a with
    | context o =>
        cases hop
        exact hopen
    | owner o =>
        cases hop
        exact hopen
    | call c => cases hop
    | advance => cases hop
  | call c => exact hopen
  | @advance c L hc =>
      rintro (heq | heq | hm)
      · cases c <;> cases heq
      · cases c <;> cases heq
      · exact hS.spares hst hc hm

/-- One step of the machine beside a paused pool. -/
lemma interleaved_step_rests (hS : Serial M H) (hp : p < pmMaxPools)
    (hst : (M.state.pools p).state = .paused) {es : List Event}
    (hstep : interleaved.step M (a, es) M') (hopen : ¬ a.Opens p) :
    Rests p [(a, es)] M.state M'.state := by
  obtain ⟨hentry, hmirrors, hmembers⟩ := hS.closed hst
  -- a call on the pool would have opened it first
  have hspares : ∀ c L, InCall c L M'.owner → ¬ c.op.Maintains p := by
    intro c L hc hm
    rw [show M' = (M.next a).2 from (congrArg Prod.snd hstep.2).symm] at hc
    cases hc.before with
    | inl hc => exact hS.spares hst hc hm
    | inr heq =>
        rw [show a = _ from heq] at hopen
        exact hopen (Or.inr (Or.inr hm))
  have hstH : (H.pools p).state = .paused := hentry ▸ hst
  have hmatch := hS.matched hstep
  cases hmatch with
  | stutter serial =>
      obtain ⟨hentry', hmirrors', hmembers'⟩ := serial.closed (serial.paused hstH hspares)
      refine ⟨.of_eq (hentry'.trans hentry.symm), fun i => (hmembers' i).trans (hmembers i).symm,
        fun i hi hpool => ?_⟩
      obtain ⟨hiH, hpoolH⟩ := (hmembers i).mp ⟨hi, hpool⟩
      exact (hmirrors i hiH hpoolH).stutter (hmirrors' i hiH hpoolH)
  | single op fits performs serial =>
      obtain ⟨Ls, h⟩ := hS.run.reachable.healthy
      obtain ⟨Ls', h'⟩ := serial.run.reachable.healthy
      have hb := hS.run.borrows.1
      have hop := performs.not_opens hS hst hopen
      have hdrains := step_drains h hstH hop
      obtain ⟨hentry', hmirrors', hmembers'⟩ := serial.closed
        (serial.paused (hdrains.state.trans hstH) hspares)
      have hsame := fun i => step_members (i := i) h h' hb hp hstH hop
      refine ⟨by rw [hentry, hentry']; exact hdrains,
        fun i => ((hmembers' i).trans (hsame i)).trans (hmembers i).symm, fun i hi hpool => ?_⟩
      obtain ⟨hiH, hpoolH⟩ := (hmembers i).mp ⟨hi, hpool⟩
      obtain ⟨hi', hpool'⟩ := (hsame i).mpr ⟨hiH, hpoolH⟩
      exact (hmirrors i hiH hpoolH).single (hmirrors' i hi' hpool') h
        (step_rests h hb hstH hop hiH hpoolH) performs.writes

/-- **A paused pool comes to rest.**  Over any schedule that does not open it, a paused pool of any
state reached stays paused with the same entry, but for a count of borrows that does not grow; its
objects are the same, where they were, and change by writes into them only.  No borrow of them
begins, and once the last one has ended the owner can compact the pool. -/
theorem paused_drains (hM : Reached interleaved M) (hp : p < pmMaxPools)
    (hst : (M.state.pools p).state = .paused) (hrun : Run interleaved M as M')
    (hopen : ∀ b ∈ as, ¬ b.1.Opens p) :
    Rests p as M.state M'.state
      ∧ (∀ ref n k, (M'.state.objects ref.index).poolId = p →
        (borrowBegin M'.state ref n k).1 ≠ .ok)
      ∧ (M'.owner = .idle → (M'.state.pools p).borrowCount = 0 →
        ∀ req elapsed, requestOk req = true → (compact M'.state p req elapsed).1 = .ok) := by
  have hrests : Rests p as M.state M'.state := by
    induction hrun with
    | nil M => exact .refl p [] M.state
    | @cons X X' X'' b bs hstep _ ih =>
        obtain ⟨H, hS⟩ := reached_serial hM
        have hone := interleaved_step_rests hS hp hst hstep (hopen b List.mem_cons_self)
        exact hone.trans (ih (hM.step hstep) (hone.entry.state.trans hst)
          fun b' hb' => hopen b' (List.mem_cons_of_mem _ hb'))
  have hst' := hrests.entry.state.trans hst
  refine ⟨hrests, fun ref n k hpool hok => ?_, fun hidle hzero req elapsed hreq => ?_⟩
  · rw [borrowBegin] at hok
    cases hck : checkRef M'.state ref n k true with
    | error e =>
        rw [hck] at hok
        exact checkRef_ne_ok M'.state ref n k true (hok ▸ hck)
    | ok addr =>
        -- a borrow needs a Running pool
        have hrunning := (checkRef_ok hck).1.running rfl
        rw [hpool, hst'] at hrunning
        cases hrunning
  · -- idle, the machine is in a state of the serial run
    obtain ⟨H, hS⟩ := reached_serial (hM.run hrun)
    have howner := hS.owner
    rw [hidle] at howner
    obtain ⟨Ls, h⟩ := hS.run.reachable.healthy
    rw [show M'.state = H from howner] at hzero hst' ⊢
    obtain ⟨met, G', L', heq, -⟩ := compact_ok h ⟨hp, by rw [hst']; decide⟩ hzero hreq elapsed
    rw [heq]

end Machines

/-! ### A pool paused beside a compaction -/

/-- The labels of a schedule are its choices. -/
lemma mem_trace {M : Machine} {as : List Action} {b : Action × List Event}
    (hb : b ∈ M.trace as) : b.1 ∈ as := by
  induction as generalizing M with
  | nil => cases hb
  | cons a as ih =>
      cases List.mem_cons.mp hb with
      | inl heq =>
          rw [heq]
          exact List.mem_cons_self
      | inr hb => exact List.mem_cons_of_mem _ (ih hb)

/-- A pool is paused while one of its objects is borrowed. -/
def pausedBeside : List Action := borrowedBeside ++ [.context (.pause 1)]

/-- The borrow ends while the other pool is compacted. -/
def drainedBeside : List Action :=
  [.call (.compact 0 none 5), .advance, .context (.write ⟨0, 2, 7⟩),
    .context (.borrowBegin ⟨0, 3, 1, 0⟩ 8 8), .advance, .context (.borrowEnd ⟨0, 3, 1, 0⟩),
    .advance, .advance]

omit [PmConfig] in
set_option maxRecDepth 100000 in
/-- The pool is idle in the end. -/
lemma drainedBeside_states :
    letI := defaultConfig
    ((quiet.after pausedBeside).state.pools 1).state = .paused
      ∧ ((quiet.after pausedBeside).state.pools 1).borrowCount = 1
      ∧ (((quiet.after pausedBeside).after drainedBeside).state.pools 1).borrowCount = 0 := by
  decide +kernel

omit [PmConfig] in
theorem paused_drains_beside :
    letI := defaultConfig
    let M := quiet.after pausedBeside
    let M' := M.after drainedBeside
    (M'.state.pools 1).borrowCount = 0
      ∧ Rests 1 (M.trace drainedBeside) M.state M'.state
      ∧ (∀ ref n k, (M'.state.objects ref.index).poolId = 1 →
        (borrowBegin M'.state ref n k).1 ≠ .ok)
      ∧ (M'.owner = .idle → (M'.state.pools 1).borrowCount = 0 →
        ∀ req elapsed, requestOk req = true → (compact M'.state 1 req elapsed).1 = .ok) := by
  let _ := defaultConfig
  obtain ⟨hpaused, -, hidle⟩ := drainedBeside_states
  have hlen : pausedBeside.length = 8 ∧ drainedBeside.length = 8 := by decide
  obtain ⟨hfirst, hsecond⟩ := Serial.schedules quiet_init
    (show pausedBeside.length + drainedBeside.length < 2 ^ 32 by omega)
  refine ⟨hidle, paused_drains ⟨quiet, _, quiet_init, hfirst⟩ (by decide) hpaused hsecond ?_⟩
  intro b hb
  have hclosed : ∀ a ∈ drainedBeside, ¬ a.Opens 1 := by
    simp [drainedBeside, Action.Opens, Op.Opens, Op.Maintains, ContextOp.op, Call.op]
  exact hclosed b.1 (mem_trace hb)

end PondMerge
