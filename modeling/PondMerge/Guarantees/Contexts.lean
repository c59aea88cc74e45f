import PondMerge.Guarantees.Places

/-!
What other contexts may rely on while the owner maintains its pools.

* `Mirrors`, `Serial.held`: a borrowed object is where the sequential state has it.
* `interleaved_excludes`: maintenance and borrows exclude each other.
* `interleaved_pins`: a borrowed object stays where it is.
* `interleaved_borrow_safe`: what a borrow is good for; `overflown_moves`: unless `2 ^ 32` are
  outstanding.
* `interleaved_refines_store`: the machine refines the store.
-/

namespace PondMerge

open Transition Tiling Relocation

variable [PmConfig]

section Serial

variable {M M' : Machine} {H G : GlobalState} {Ls : ℕ → List Piece} {R : Region} {X : GlobalState}
  {i : ℕ}

/-- A call under way borrows nothing and returns nothing. -/
lemma Aside.sameBorrows (h : GlobalInv H Ls) (hb : Borrows H) (hA : Aside R H X) :
    SameBorrows H X := by
  have hcount : ∀ i, (X.objects i).activeBorrows = (H.objects i).activeBorrows := by
    intro i
    rw [← hA.same]
    rfl
  refine ⟨fun i hi => ⟨hcount i, fun hne => ?_⟩, fun p _ => ?_⟩
  · have hheld : 0 < (X.objects i).activeBorrows := by
      rw [hcount]
      exact Nat.pos_of_ne_zero hne
    obtain ⟨-, hobj, -⟩ := hA.held h hb hi hheld
    rw [hobj]
    exact ⟨rfl, rfl⟩
  · by_cases hp : R.Pool p
    · rw [(hA.idle p hp).1, (hA.idle p hp).2]
    · rw [hA.pool hp]

/-- The borrows of the machine are those of the sequential state. -/
lemma Serial.sameBorrows (hS : Serial M H) : SameBorrows H M.state := by
  obtain ⟨Ls, h⟩ := hS.run.reachable.healthy
  rcases hS.aside h with ⟨-, hstate⟩ | ⟨R, hA⟩
  · rw [hstate]
    exact .refl H
  · exact hA.sameBorrows h hS.run.borrows.1

/-- Object `i` of the machine state `X` is where the sequential state `H` has it, with the bytes it
has there. -/
structure Mirrors (i : ℕ) (H X : GlobalState) : Prop where
  live : LiveObject H i
  object : X.objects i = H.objects i
  bytes : ∀ k < (H.objects i).size,
    X.mem ((H.objects i).address + k) = H.mem ((H.objects i).address + k)

/-- Every object of a pool outside of the call under way is. -/
lemma Aside.mirrors (h : GlobalInv H Ls) (hA : Aside R H X) (hlive : LiveObject H i)
    (hq : ¬ R.Pool (H.objects i).poolId) : Mirrors i H X := by
  obtain ⟨hobj, hout⟩ := hA.away h hlive.1 hlive.2 hq
  refine ⟨hlive, hobj, fun k hk => ?_⟩
  obtain ⟨x, n, -, -, haddr, hbs, hle⟩ := h.payload hlive.1 hlive.2
  have hz := hout ((H.objects i).address + k) (by rw [ObjectDesc.block, haddr]; omega)
    (by rw [ObjectDesc.block, haddr]; omega)
  have hmem := congrArg (fun Y => Y.mem ((H.objects i).address + k)) hA.same
  dsimp only [splice, ByteMemory.overlay] at hmem
  rw [if_neg hz] at hmem
  exact hmem.symm

/-- A borrowed object is. -/
theorem Serial.held (hS : Serial M H) (hi : i < pmMaxObjects)
    (hheld : 0 < (M.state.objects i).activeBorrows) : Mirrors i H M.state := by
  obtain ⟨Ls, h⟩ := hS.run.reachable.healthy
  have hb := hS.run.borrows.1
  rcases hS.aside h with ⟨-, hstate⟩ | ⟨R, hA⟩
  · rw [hstate] at hheld ⊢
    refine ⟨⟨hi, ?_⟩, rfl, fun _ _ => rfl⟩
    by_contra hl
    exact hheld.ne' (hb.idle i hi hl)
  · have hheldH : (H.objects i).activeBorrows ≠ 0 := by
      rw [← hA.same] at hheld
      exact hheld.ne'
    obtain ⟨hlive, -⟩ := hA.held h hb hi hheld
    obtain ⟨hact, hin⟩ := h.owner hi hlive
    exact hA.mirrors h ⟨hi, hlive⟩ fun hq =>
      hheldH (hb.pool_idle h hact (hA.idle _ hq).2 hin)

/-- A pool inside a maintenance call has no borrow. -/
lemma Serial.maintained (hS : Serial M H) {p : ℕ} (hp : p < pmMaxPools)
    (hin : poolInMaintenance (M.state.pools p) = true) :
    M.owner ≠ .idle ∧ (M.state.pools p).borrowCount = 0 := by
  obtain ⟨Ls, h⟩ := hS.run.reachable.healthy
  have hnot : (M.state.pools p).state ≠ .running ∧ (M.state.pools p).state ≠ .paused
      ∧ (M.state.pools p).state ≠ .empty := by
    rw [poolInMaintenance, decide_eq_true_eq] at hin
    rcases hin with hst | hst | hst <;> rw [hst] <;> decide
  have hsettled := h.settled p hp
  rcases hS.aside h with ⟨-, hstate⟩ | ⟨R, hA⟩
  · rw [hstate] at hnot
    tauto
  · refine ⟨fun hidle => ?_, ?_⟩
    · have howner := hS.owner
      rw [hidle] at howner
      rw [show M.state = H from howner] at hnot
      tauto
    · by_cases hpR : R.Pool p
      · exact (hA.idle p hpR).1
      · rw [hA.pool hpR] at hnot
        tauto

/-- A borrow that is granted: the object is live in a Running pool, and the address is its own. -/
lemma borrowBegin_granted {ref : RawRef} {n a : ℕ} (hok : (borrowBegin G ref n a).1 = .ok) :
    LiveObject G ref.index ∧ (G.pools (G.objects ref.index).poolId).state = .running
      ∧ (borrowBegin G ref n a).2.1 = (G.objects ref.index).address + ref.offset := by
  rw [borrowBegin] at hok ⊢
  cases hck : checkRef G ref n a true with
  | error e =>
      rw [hck] at hok
      exact absurd (hok ▸ hck) (checkRef_ne_ok G ref n a true)
  | ok addr =>
      obtain ⟨href, haddr⟩ := checkRef_ok hck
      exact ⟨⟨href.index, href.live⟩, href.running rfl, haddr⟩

/-- The states that the machine reaches stand for sequential ones. -/
lemma reached_serial (hM : Reached interleaved M) : ∃ H, Serial M H := by
  obtain ⟨H, -, hS⟩ := interleaved_simulates.reached hM
  exact ⟨H, hS⟩

end Serial

/-! ### Maintenance and borrows exclude each other -/

/-- In every state that any schedule reaches, the borrow counters tell the borrows of the live
objects.  A pool inside a maintenance call has none, its objects are not borrowed, and no borrow of
them begins; outside of such a call no pool is in that state. -/
theorem interleaved_excludes {M : Machine} (hM : Reached interleaved M) :
    (∀ p < pmMaxPools, (M.state.pools p).borrowCount =
      ∑ i ∈ Finset.range pmMaxObjects with
        (M.state.objects i).state = .live ∧ (M.state.objects i).poolId = p,
          (M.state.objects i).activeBorrows)
    ∧ (∀ i < pmMaxObjects, (M.state.objects i).state ≠ .live →
      (M.state.objects i).activeBorrows = 0)
    ∧ ∀ p < pmMaxPools, poolInMaintenance (M.state.pools p) = true →
      M.owner ≠ .idle ∧ (M.state.pools p).borrowCount = 0
      ∧ ∀ i < pmMaxObjects, (M.state.objects i).poolId = p →
        (M.state.objects i).activeBorrows = 0
        ∧ ∀ ref n a, ref.index = i → (borrowBegin M.state ref n a).1 ≠ .ok := by
  obtain ⟨H, hS⟩ := reached_serial hM
  have hb := hS.sameBorrows.borrows hS.run.borrows.1
  refine ⟨fun p hp => (hb.count p hp).trans (hb.tally_live p), hb.idle, fun p hp hin => ?_⟩
  have hbusy := hS.maintained hp hin
  refine ⟨hbusy.1, hbusy.2, fun i hi hpool => ⟨?_, fun ref n a hindex hok => ?_⟩⟩
  · by_cases hl : (M.state.objects i).state = .live
    · have hsum := (hb.count p hp).trans (hb.tally_live p)
      rw [hbusy.2, eq_comm, Finset.sum_eq_zero_iff] at hsum
      exact hsum i (Finset.mem_filter.mpr ⟨Finset.mem_range.mpr hi, hl, hpool⟩)
    · exact hb.idle i hi hl
  · have hrun := (borrowBegin_granted hok).2.1
    rw [hindex, hpool] at hrun
    rw [poolInMaintenance, decide_eq_true_eq, hrun] at hin
    simp at hin

/-! ### A borrowed object stays where it is -/

/-- Slot `i` is borrowed. -/
def Machine.Holds (i : ℕ) (M : Machine) : Prop := 0 < (M.state.objects i).activeBorrows

/-- Object `i` is where and what it was, but for the bytes that the actions write into it. -/
structure StaysPut (i : ℕ) (as : List (Action × List Event)) (G G' : GlobalState) : Prop where
  place : SamePlace (G.objects i) (G'.objects i)
  bytes : ∀ k < (G.objects i).size,
    (∀ a ∈ as, ∀ w ∈ a.1.writes, ¬ (w.slot = i ∧ w.pos = k)) →
    G'.mem ((G.objects i).address + k) = G.mem ((G.objects i).address + k)

section Pins

variable {M M' : Machine} {H : GlobalState} {G G' G'' : GlobalState} {i : ℕ}
  {as bs : List (Action × List Event)}

omit [PmConfig] in
lemma StaysPut.refl (i : ℕ) (as : List (Action × List Event)) (G : GlobalState) :
    StaysPut i as G G := ⟨.of_eq rfl, fun _ _ _ => rfl⟩

omit [PmConfig] in
lemma StaysPut.trans (h : StaysPut i as G G') (h' : StaysPut i bs G' G'') :
    StaysPut i (as ++ bs) G G'' := by
  refine ⟨h.place.trans h'.place, fun k hk hw => ?_⟩
  have hsecond := h'.bytes k (by rw [h.place.size]; exact hk)
    fun a ha w hwa => hw a (List.mem_append_right _ ha) w hwa
  rw [h.place.address] at hsecond
  exact hsecond.trans (h.bytes k hk fun a ha w hwa => hw a (List.mem_append_left _ ha) w hwa)

/-- A step that no sequential one matches. -/
lemma Mirrors.stutter (h : Mirrors i H G) (h' : Mirrors i H G') : StaysPut i as G G' := by
  have hsame : G'.objects i = G.objects i := h'.object.trans h.object.symm
  refine ⟨.of_eq hsame, fun k hk _ => ?_⟩
  rw [h.object] at hk ⊢
  rw [h.bytes k hk, h'.bytes k hk]

/-- A step matched by an operation that leaves the object where it is. -/
lemma Mirrors.single {Ls : ℕ → List Piece} {op : Op} {a : Action × List Event} (h : Mirrors i H G)
    (h' : Mirrors i (step H op) G') (hinv : GlobalInv H Ls)
    (hplace : SamePlace (H.objects i) ((step H op).objects i))
    (hwrites : ∀ w ∈ op.writes, w ∈ a.1.writes) : StaysPut i [a] G G' := by
  have hs := step_contents hinv op
  have hnofree : Event.freed (op, reply H op) ≠ some i := fun hfree => by
    have hnone := hs.freed_none hfree
    rw [contents_live h'.live] at hnone
    cases hnone
  obtain ⟨o', ho', hp⟩ := hs.persists (contents_live h.live) hnofree
  rw [contents_live h'.live, Option.some.injEq] at ho'
  subst ho'
  rw [← h.object, ← h'.object] at hplace
  refine ⟨hplace, fun k hk hw => ?_⟩
  have hk' : k < (G'.objects i).size := by rwa [hplace.size]
  have hbyte := hp.bytes k fun w hwo => hw _ (List.mem_singleton_self _) w (hwrites w hwo)
  have haddr := hplace.address
  rw [h.object] at hk haddr ⊢
  rw [h'.object] at hk' haddr
  rw [stored_get hk', stored_get hk, Option.some.injEq] at hbyte
  have hread := h'.bytes k hk'
  rw [haddr] at hbyte hread
  rw [hread, hbyte, h.bytes k hk]

/-- One step of the machine between states in which the object is borrowed. -/
lemma interleaved_step_pins (hS : Serial M H) (hi : i < pmMaxObjects)
    {a : Action × List Event} (hstep : interleaved.step M a M') (hheld : M.Holds i)
    (hheld' : M'.Holds i) : StaysPut i [a] M.state M'.state := by
  obtain ⟨act, es⟩ := a
  have hm := hS.held hi hheld
  have hmatch := hS.matched hstep
  cases hmatch with
  | stutter serial => exact hm.stutter (serial.held hi hheld')
  | single op fits performs serial =>
      obtain ⟨Ls, h⟩ := hS.run.reachable.healthy
      have hheldH : 0 < (H.objects i).activeBorrows := by
        rw [← hm.object]
        exact hheld
      exact hm.single (serial.held hi hheld') h (step_samePlace h hS.run.borrows.1 hi hheldH op)
        performs.writes

/-- So along a stretch of such steps. -/
lemma reached_pins (hM : Reached interleaved M) (hi : i < pmMaxObjects)
    (hrun : Run (interleaved.during (Machine.Holds i)) M as M') :
    StaysPut i as M.state M'.state := by
  refine hrun.stretch (Q := fun M as M' => StaysPut i as M.state M'.state)
    (fun M => .refl i [] M.state) (fun _ _ _ _ _ h h' => h.trans h') ?_ hM
  intro X a X' hX hstep hheld hheld'
  obtain ⟨H, hS⟩ := reached_serial hX
  exact interleaved_step_pins hS hi hstep hheld hheld'

/-- While an object is borrowed it stays alive, where it is and what it is, whatever the owner
maintains meanwhile; its bytes change by writes into it only. -/
theorem interleaved_pins (hM : Reached interleaved M) (hi : i < pmMaxObjects)
    (hrun : Run (interleaved.during (Machine.Holds i)) M as M') :
    StaysPut i as M.state M'.state := reached_pins hM hi hrun

end Pins

/-! ### Where the counters wrap -/

/-- Under any schedule the calls that return `Ok`, and the writes, behave as on a map from handles
to bytes, in the order in which they take effect.  An object that a context holds reads as that map
has it even inside a maintenance call, and every object does outside of one. -/
theorem interleaved_refines_store {M M' : Machine} {as : List (Action × List Event)}
    (hM : interleaved.init M) (hrun : Run interleaved M as M') :
    ∃ es s, Run store Store.empty es s
      ∧ es.flatMap completed = as.flatMap (fun a => a.2)
      ∧ (∀ i < pmMaxObjects, M'.Holds i → contents M'.state i = s i)
      ∧ (M'.owner = .idle → contents M'.state = s) := by
  obtain ⟨es, H', hseq, hS, hobs⟩ := interleaved_simulates.run (Serial.initial hM) hrun
  have hstore := hM.1.run.1.store hseq
  rw [hM.1.contents] at hstore
  refine ⟨es, contents H', hstore, hobs, fun i hi hheld => ?_, fun hidle => ?_⟩
  · obtain ⟨hlive, hobj, hmem⟩ := hS.held hi hheld
    rw [contents_live hlive, contents_live ⟨hi, by rw [hobj]; exact hlive.2⟩, hobj]
    exact congrArg some (stored_congr rfl rfl rfl rfl rfl hmem)
  · have howner := hS.owner
    rw [hidle] at howner
    rw [show M'.state = H' from howner]

/-! ### A borrow beside a compaction -/

/-- A schedule all of whose states satisfy `P` is a stretch. -/
lemma schedule_during {P : Machine → Prop} {M : Machine} {as : List Action}
    (hP : ∀ j ≤ as.length, P (M.after (as.take j)))
    (hrun : Run interleaved M (M.trace as) (M.after as)) :
    Run (interleaved.during P) M (M.trace as) (M.after as) := by
  induction as generalizing M with
  | nil => exact .nil M
  | cons a as ih =>
      cases hrun with
      | @cons _ X _ _ _ hstep hs =>
          have hX : X = (M.next a).2 := (Prod.mk.inj hstep.2).2.symm
          subst hX
          refine .cons ⟨hstep, hP 0 (Nat.zero_le _), hP 1 (by simp)⟩ (ih (fun j hj => ?_) hs)
          exact hP (j + 1) (by simpa using hj)

/-- Two pools, a hole in the first, and a borrow of the object in the second. -/
def borrowedBeside : List Action :=
  [.owner (.createPool 1), .owner (.createPool 1), .owner (.alloc 0 24 8 0 1),
    .owner (.alloc 0 40 8 0 2), .owner (.free ⟨0, 1, 0, 0⟩ []), .owner (.alloc 1 24 8 0 3),
    .context (.borrowBegin ⟨0, 3, 1, 0⟩ 8 8)]

/-- The first pool is compacted while the borrow is written through. -/
def compactedBeside : List Action :=
  [.call (.compact 0 none 5), .advance, .context (.write ⟨0, 2, 7⟩), .advance, .context (.pause 0),
    .advance, .advance]

/-- The owner is inside the compaction, with a step of its body to go. -/
def Owner.compacting : Owner → Bool
  | .working (.compact 0 none 5) _ _ (_ :: _) => true
  | _ => false

omit [PmConfig] in
set_option maxRecDepth 100000 in
/-- The borrow lasts; the compaction is under way after three steps, and has moved its object in
the end. -/
lemma compactedBeside_states :
    letI := defaultConfig
    (∀ j ≤ 7, 0 < (((quiet.after borrowedBeside).after (compactedBeside.take j)).state.objects
        0).activeBorrows)
      ∧ poolInMaintenance (((quiet.after borrowedBeside).after
        (compactedBeside.take 3)).state.pools 0) = true
      ∧ ((quiet.after borrowedBeside).after (compactedBeside.take 3)).owner.compacting = true
      ∧ 0 < ((quiet.after borrowedBeside).state.objects 0).activeBorrows
      ∧ (((quiet.after borrowedBeside).after compactedBeside).state.objects 1).address = 16 := by
  decide +kernel

omit [PmConfig] in
lemma compactedBeside_runs :
    letI := defaultConfig
    Reached interleaved (quiet.after borrowedBeside)
      ∧ ∀ j, Run interleaved (quiet.after borrowedBeside)
        ((quiet.after borrowedBeside).trace (compactedBeside.take j))
        ((quiet.after borrowedBeside).after (compactedBeside.take j)) := by
  let _ := defaultConfig
  have hlen : borrowedBeside.length = 7 ∧ compactedBeside.length = 7 := by decide
  have hruns := fun j => Serial.schedules quiet_init
    (show borrowedBeside.length + (compactedBeside.take j).length < 2 ^ 32 by
      rw [List.length_take]
      omega)
  exact ⟨⟨quiet, _, quiet_init, (hruns 0).1⟩, fun j => (hruns j).2⟩

omit [PmConfig] in
theorem interleaved_excludes_beside :
    letI := defaultConfig
    let M := (quiet.after borrowedBeside).after (compactedBeside.take 3)
    M.owner ≠ .idle ∧ (M.state.pools 0).borrowCount = 0
      ∧ ∀ i < pmMaxObjects, (M.state.objects i).poolId = 0 →
        (M.state.objects i).activeBorrows = 0
        ∧ ∀ ref n a, ref.index = i → (borrowBegin M.state ref n a).1 ≠ .ok := by
  let _ := defaultConfig
  obtain ⟨hreach, hruns⟩ := compactedBeside_runs
  obtain ⟨-, hin, -⟩ := compactedBeside_states
  exact (interleaved_excludes (hreach.run (hruns 3))).2.2 0 (by decide) hin

omit [PmConfig] in
theorem interleaved_pins_beside :
    letI := defaultConfig
    (((quiet.after borrowedBeside).after compactedBeside).state.objects 1).address = 16
      ∧ StaysPut 0 ((quiet.after borrowedBeside).trace compactedBeside)
        (quiet.after borrowedBeside).state
        ((quiet.after borrowedBeside).after compactedBeside).state := by
  let _ := defaultConfig
  obtain ⟨hreach, hruns⟩ := compactedBeside_runs
  obtain ⟨hheld, -, -, -, hmoved⟩ := compactedBeside_states
  exact ⟨hmoved, interleaved_pins hreach (by decide) (schedule_during hheld (hruns 7))⟩

omit [PmConfig] in
theorem interleaved_refines_store_contention :
    letI := defaultConfig
    ∃ es s, Run store Store.empty es s
      ∧ es.flatMap completed = (quiet.trace contention).flatMap (fun a => a.2)
      ∧ (∀ i < pmMaxObjects, (quiet.after contention).Holds i →
        contents (quiet.after contention).state i = s i)
      ∧ ((quiet.after contention).owner = .idle → contents (quiet.after contention).state = s) := by
  let _ := defaultConfig
  have hlen : contention.length + ([] : List Action).length < 2 ^ 32 := by decide
  exact interleaved_refines_store quiet_init (Serial.schedules quiet_init hlen).1

end PondMerge
