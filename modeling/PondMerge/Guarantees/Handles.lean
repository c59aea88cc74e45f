import PondMerge.Guarantees.Resolution
import PondMerge.Guarantees.Storage

/-!
Runs of the store: handles and bytes outlive everything but their own `free`.

* `StoreStep.persists`: one step of the store keeps an object it does not free.
* `sequential_refines_store`: every run of operations is a run of the store.
* `run_reads_back`, `handles_follow`: what a client reads back, and where a handle leads, after any
  run.
-/

namespace PondMerge

open Transition Tiling

variable [PmConfig]

/-! ### What persists in the store -/

/-- Object `i` is still itself; a byte that none of the writes names is as it was. -/
structure StoredObject.Persists (i : ℕ) (ws : List PayloadWrite) (o o' : StoredObject) : Prop where
  generation : o'.generation = o.generation
  userTag : o'.userTag = o.userTag
  flags : o'.flags = o.flags
  length : o'.bytes.length = o.bytes.length
  bytes : ∀ k, (∀ w ∈ ws, ¬ (w.slot = i ∧ w.pos = k)) → o'.bytes[k]? = o.bytes[k]?

/-- The slot that a successful `free` has given up. -/
def Event.freed : Event → Option ℕ
  | (.free ref _, .status .ok) => some ref.index
  | _ => none

omit [PmConfig] in
/-- Operations without `free` give up no slot. -/
lemma Event.freed_op {e : Event} {i : ℕ} (h : e.freed = some i) : ∃ ref ws, e.1 = .free ref ws := by
  obtain ⟨op, r⟩ := e
  cases op with
  | free ref ws => exact ⟨ref, ws, rfl⟩
  | _ => cases h

section Frames

variable {s s' : Store} {i : ℕ} {o o' o'' : StoredObject} {ws ws' : List PayloadWrite}

omit [PmConfig] in
lemma StoredObject.Persists.refl (i : ℕ) (ws : List PayloadWrite) (o : StoredObject) :
    o.Persists i ws o := ⟨rfl, rfl, rfl, rfl, fun _ _ => rfl⟩

omit [PmConfig] in
lemma StoredObject.Persists.trans (h : o.Persists i ws o') (h' : o'.Persists i ws' o'') :
    o.Persists i (ws ++ ws') o'' := by
  refine ⟨h'.generation.trans h.generation, h'.userTag.trans h.userTag, h'.flags.trans h.flags,
    h'.length.trans h.length, fun k hk => ?_⟩
  rw [h'.bytes k fun w hw => hk w (List.mem_append_right _ hw),
    h.bytes k fun w hw => hk w (List.mem_append_left _ hw)]

omit [PmConfig] in
lemma Store.write_persists (w : PayloadWrite) (ho : s i = some o) :
    ∃ o', s.write w i = some o' ∧ o.Persists i [w] o' := by
  rw [Store.write]
  cases hw : s w.slot with
  | none => exact ⟨o, ho, .refl i _ o⟩
  | some v =>
      dsimp only
      by_cases hi : i = w.slot
      · subst hi
        rw [ho, Option.some.injEq] at hw
        subst hw
        refine ⟨_, Function.update_self _ _ _, ⟨rfl, rfl, rfl, List.length_set, fun k hk => ?_⟩⟩
        have hne : w.pos ≠ k := fun heq => hk w (List.mem_singleton_self w) ⟨rfl, heq⟩
        exact List.getElem?_set_ne hne
      · exact ⟨o, by rw [Function.update_of_ne hi, ho], .refl i _ o⟩

omit [PmConfig] in
lemma Store.foldl_write_persists (ws : List PayloadWrite) (ho : s i = some o) :
    ∃ o', ws.foldl Store.write s i = some o' ∧ o.Persists i ws o' := by
  induction ws generalizing s o with
  | nil => exact ⟨o, ho, .refl i _ o⟩
  | cons w ws ih =>
      obtain ⟨o₁, ho₁, h₁⟩ := Store.write_persists w ho
      obtain ⟨o₂, ho₂, h₂⟩ := ih ho₁
      exact ⟨o₂, ho₂, h₁.trans h₂⟩

omit [PmConfig] in
/-- One step keeps every object but the one it frees. -/
theorem StoreStep.persists {e : Event} (h : StoreStep s e s') (ho : s i = some o)
    (hfree : e.freed ≠ some i) : ∃ o', s' i = some o' ∧ o.Persists i e.1.writes o' := by
  cases h with
  | allocated p size alignment flags tag ref bytes fresh valid hint length zero =>
      have hne : i ≠ ref.index := by
        rintro rfl
        rw [fresh] at ho
        cases ho
      exact ⟨o, by rw [Function.update_of_ne hne, ho], .refl i _ o⟩
  | freed ref ws v named =>
      have hne : i ≠ ref.index := fun heq => hfree (by rw [Event.freed, heq])
      rw [Function.update_of_ne hne, Store.callback]
      split_ifs
      · exact Store.foldl_write_persists ws ho
      · exact ⟨o, ho, .refl i _ o⟩
  | destroyFnSet ref fn v named pinned =>
      by_cases hi : i = ref.index
      · subst hi
        have hv := named.1
        rw [ho, Option.some.injEq] at hv
        subst hv
        exact ⟨_, Function.update_self _ _ _, ⟨rfl, rfl, rfl, rfl, fun _ _ => rfl⟩⟩
      · exact ⟨o, by rw [Function.update_of_ne hi, ho], .refl i _ o⟩
  | borrowed ref n a addr v named inside => exact ⟨o, ho, .refl i _ o⟩
  | written w => exact Store.write_persists w ho
  | refused op r no client => exact ⟨o, ho, .refl i _ o⟩
  | unseen op r other => exact ⟨o, ho, .refl i _ o⟩

omit [PmConfig] in
/-- What is freed is gone. -/
lemma StoreStep.freed_none {e : Event} (h : StoreStep s e s') (hfree : e.freed = some i) :
    s' i = none := by
  cases h with
  | freed ref ws v named =>
      rw [Event.freed, Option.some.injEq] at hfree
      rw [← hfree, Function.update_self]
  | refused op r no client =>
      obtain ⟨ref, ws, hop⟩ := Event.freed_op hfree
      rw [show op = .free ref ws from hop] at hfree
      cases r with
      | status st =>
          cases st with
          | ok => cases no
          | _ => cases hfree
      | _ => cases hfree
  | unseen op r other =>
      obtain ⟨ref, ws, hop⟩ := Event.freed_op hfree
      rw [show op = .free ref ws from hop] at other
      cases other
  | _ => cases hfree

/-- The store from its empty state on. -/
def store : System Store Event where
  init s := s = Store.empty
  step := StoreStep

omit [PmConfig] in
/-- A run keeps every object that it does not free. -/
theorem storeRun_persists {es : List Event} (hrun : Run store s es s') (ho : s i = some o)
    (hfree : ∀ e ∈ es, e.freed ≠ some i) :
    ∃ o', s' i = some o' ∧ o.Persists i (es.flatMap fun e => e.1.writes) o' := by
  induction hrun generalizing o with
  | nil => exact ⟨o, ho, .refl i _ o⟩
  | cons hstep _ ih =>
      obtain ⟨o₁, ho₁, h₁⟩ := StoreStep.persists hstep ho (hfree _ List.mem_cons_self)
      obtain ⟨o₂, ho₂, h₂⟩ := ih ho₁ fun e he => hfree e (List.mem_cons_of_mem _ he)
      exact ⟨o₂, ho₂, h₁.trans h₂⟩

end Frames

/-! ### Runs of the library -/

section Runs

variable {G G' : GlobalState} {Ls : ℕ → List Piece} {es : List Event} {i : ℕ}

/-- A run of operations keeps to the states that a run of borrows reaches. -/
lemma BorrowRun.run (h : BorrowRun G (allBorrows G)) (hrun : Run sequential G es G') :
    BorrowRun G' (allBorrows G') := by
  refine hrun.invariant (I := fun G => BorrowRun G (allBorrows G)) ?_ h
  rintro X e X' hX ⟨hfit, -, rfl⟩
  exact (hX.next hfit).1

/-- Operations are steps of the store. -/
lemma BorrowRun.store (h : BorrowRun G (allBorrows G)) (hrun : Run sequential G es G') :
    Run PondMerge.store (contents G) es (contents G') := by
  induction hrun with
  | nil => exact .nil _
  | @cons X X' X'' e es hstep _ ih =>
      obtain ⟨hfit, hreply, rfl⟩ := hstep
      obtain ⟨Ls, hinv⟩ := h.reachable.healthy
      refine .cons ?_ (ih (h.next hfit).1)
      have hs := step_contents hinv e.1
      rwa [← hreply] at hs

/-- An initial state stores nothing. -/
lemma Initial.contents (h : Initial G) : PondMerge.contents G = Store.empty := by
  obtain ⟨G₀, cfg, hok, rfl⟩ := h
  funext i
  refine contents_dead fun hlive => ?_
  have hst := hlive.2
  rw [(init_ok hok).1] at hst
  cases hst

/-- Every run of operations is a run of the store: the same calls with the same replies. -/
theorem sequential_refines_store (hG : Initial G) (hrun : Run sequential G es G') :
    Run PondMerge.store Store.empty es (PondMerge.contents G') := by
  rw [← hG.contents]
  exact hG.run.1.store hrun

/-- An object that no `free` has given up is still there, with its size and generation, and the
bytes that no write names. -/
lemma BorrowRun.persists (h : BorrowRun G (allBorrows G)) (hrun : Run sequential G es G')
    (hi : LiveObject G i) (hfree : ∀ e ∈ es, e.freed ≠ some i) :
    LiveObject G' i ∧ ((G.objects i).stored G.mem).Persists i (es.flatMap fun e => e.1.writes)
      ((G'.objects i).stored G'.mem) := by
  obtain ⟨o', ho', hp⟩ := storeRun_persists (h.store hrun) (contents_live hi) hfree
  obtain ⟨hlive, rfl⟩ := contents_eq_some.mp ho'
  exact ⟨hlive, hp⟩

omit [PmConfig] in
lemma StoredObject.Persists.size {m m' : ByteMemory.Mem} {d d' : ObjectDesc}
    {ws : List PayloadWrite} (h : (d.stored m).Persists i ws (d'.stored m')) :
    d'.size = d.size := by
  have hlen := h.length
  rwa [stored_length, stored_length] at hlen

/-- Whatever is allocated, freed, compacted, merged or split in between, an access that resolves
reads back the bytes of its object that nobody has written since. -/
theorem run_reads_back (h : BorrowRun G (allBorrows G)) (hrun : Run sequential G es G')
    (hi : LiveObject G i) (hfree : ∀ e ∈ es, e.freed ≠ some i) {ref : RawRef} {n a addr : ℕ}
    (hindex : ref.index = i) (hres : resolve G' ref n a = (.ok, addr)) {k : ℕ}
    (hlo : ref.offset ≤ k) (hhi : k < ref.offset + n)
    (hwrite : ∀ e ∈ es, ∀ w ∈ e.1.writes, ¬ (w.slot = i ∧ w.pos = k)) :
    ref.generation = (G.objects i).generation
      ∧ G'.mem (addr + (k - ref.offset)) = G.mem ((G.objects i).address + k) := by
  subst hindex
  obtain ⟨-, hp⟩ := h.persists hrun hi hfree
  rw [resolve] at hres
  cases hck : checkRef G' ref n a true with
  | error e =>
      rw [hck] at hres
      have hne : e ≠ .ok := fun heq => checkRef_ne_ok G' ref n a true (heq ▸ hck)
      exact absurd (Prod.mk.inj hres).1 hne
  | ok v =>
      rw [hck] at hres
      obtain ⟨hok, hv⟩ := checkRef_ok hck
      have haddr : v = addr := (Prod.mk.inj hres).2
      have hin := hok.inside
      refine ⟨hok.generation.symm.trans hp.generation, ?_⟩
      have hk : k < (G.objects ref.index).size := by
        rw [← hp.size]
        omega
      have hbyte := hp.bytes k fun w hw => by
        obtain ⟨e, he, hwe⟩ := List.mem_flatMap.mp hw
        exact hwrite e he w hwe
      rw [stored_get (by rw [hp.size]; exact hk), stored_get hk, Option.some.injEq] at hbyte
      rw [← haddr, hv, ← hbyte]
      congr 1
      omega

omit [PmConfig] in
/-- An aligned address passes the mask test. -/
lemma and_pred_of_dvd {a v : ℕ} (ha : a ≠ 0) (hpow : a &&& (a - 1) = 0) (hv : a ∣ v) :
    v &&& (a - 1) = 0 := by
  obtain ⟨k, rfl⟩ := (Nat.and_sub_one_eq_zero_iff_isPowerOfTwo ha).mp hpow
  rw [Nat.and_two_pow_sub_one_eq_mod]
  exact Nat.mod_eq_zero_of_dvd hv

/-- The mask test, as divisibility. -/
lemma and_pred_iff {a v : ℕ} (ha : alignmentOk a = true) : v &&& (a - 1) = 0 ↔ a ∣ v := by
  rw [alignmentOk, decide_eq_true_eq] at ha
  exact ⟨dvd_of_and_pred ha.1 ha.2.1, and_pred_of_dvd ha.1 ha.2.1⟩

/-- Payloads are 8-aligned. -/
lemma GlobalInv.address_dvd {Ls : ℕ → List Piece} (h : GlobalInv G Ls) (hi : LiveObject G i) :
    8 ∣ (G.objects i).address := by
  obtain ⟨hact, hmem⟩ := h.owner hi.1 hi.2
  have hblk := ((h.pool _ hact).blockOk h.zone hmem).2.2.2
  have haddr := ((h.pool _ hact).desc_self hmem).address
  omega

/-- What a reference to a live object resolves to. -/
lemma resolve_live {Ls : ℕ → List Piece} (h : GlobalInv G Ls) (hi : LiveObject G i)
    {hint off n a : ℕ} (hin : off + n ≤ (G.objects i).size) (ha : alignmentOk a = true) :
    resolve G ⟨i, (G.objects i).generation, hint, off⟩ n a =
      if hint ≠ crossHint ∧ hint ≠ (G.objects i).poolId then (.poolChanged, 0)
      else if (G.pools (G.objects i).poolId).state = .running then
        if a ∣ (G.objects i).address + off then (.ok, (G.objects i).address + off)
        else (.invalidAlignment, 0)
      else (.busy, 0) := by
  obtain ⟨x, m, hact, hx, haddr, -⟩ := h.payload hi.1 hi.2
  have hgen := ((h.pool _ hact).desc hx).generation
  have hfirst : ¬ (pmMaxObjects ≤ i ∨ (G.objects i).generation = 0
      ∨ (G.objects i).state ≠ .live ∨ (G.objects i).generation ≠ (G.objects i).generation) := by
    have hlt := hi.1
    have hl := hi.2
    rintro (h1 | h1 | h1 | h1)
    · omega
    · exact hgen h1
    · exact h1 hl
    · exact h1 rfl
  rw [resolve, checkRef_healthy h]
  dsimp only
  rw [if_neg hfirst]
  by_cases hhint : hint ≠ crossHint ∧ hint ≠ (G.objects i).poolId
  · rw [if_pos hhint, if_pos hhint]
  rw [if_neg hhint, if_neg hhint]
  by_cases hrunning : (G.pools (G.objects i).poolId).state = .running
  · rw [if_neg (by simp [hrunning]), if_neg (by simp [ha]), if_neg (by omega), if_pos hrunning]
    by_cases hdvd : a ∣ (G.objects i).address + off
    · rw [if_neg (not_not.mpr ((and_pred_iff ha).mpr hdvd)), if_pos hdvd]
    · rw [if_pos (mt (and_pred_iff ha).mp hdvd), if_neg hdvd]
  · rw [if_pos ⟨rfl, hrunning⟩, if_neg hrunning]

/-- A handle follows its object through any run until that object is freed: it resolves wherever
the object lies now, a local one as long as the object is in the pool it names.  Moves do not
change what is aligned: for an alignment that payloads have, only the offset counts. -/
theorem handles_follow (h : BorrowRun G (allBorrows G)) (hrun : Run sequential G es G')
    (hi : LiveObject G i) (hfree : ∀ e ∈ es, e.freed ≠ some i) :
    LiveObject G' i ∧ ∀ hint off n a, off + n ≤ (G.objects i).size → alignmentOk a = true →
      (resolve G' ⟨i, (G.objects i).generation, hint, off⟩ n a =
        if hint ≠ crossHint ∧ hint ≠ (G'.objects i).poolId then (.poolChanged, 0)
        else if (G'.pools (G'.objects i).poolId).state = .running then
          if a ∣ (G'.objects i).address + off then (.ok, (G'.objects i).address + off)
          else (.invalidAlignment, 0)
        else (.busy, 0))
      ∧ (a ∣ 8 → (a ∣ (G'.objects i).address + off ↔ a ∣ off)) := by
  obtain ⟨hlive, hp⟩ := h.persists hrun hi hfree
  obtain ⟨Ls, hinv⟩ := (h.run hrun).reachable.healthy
  refine ⟨hlive, fun hint off n a hin ha => ⟨?_, fun ha8 => ?_⟩⟩
  · have hgen : (G'.objects i).generation = (G.objects i).generation := hp.generation
    rw [← hgen, resolve_live hinv hlive (by rw [hp.size]; exact hin) ha]
  · exact Nat.dvd_add_right (ha8.trans (hinv.address_dvd hlive))

end Runs

/-! ### Sequences of operations as runs -/

/-- The calls of a sequence of operations, with their replies. -/
def eventsOf : GlobalState → List Op → List Event
  | _, [] => []
  | G, op :: ops => (op, reply G op) :: eventsOf (step G op) ops

lemma mem_eventsOf {G : GlobalState} {ops : List Op} {e : Event} (he : e ∈ eventsOf G ops) :
    e.1 ∈ ops := by
  induction ops generalizing G with
  | nil => cases he
  | cons op ops ih =>
      rcases List.mem_cons.mp he with rfl | he
      · exact List.mem_cons_self
      · exact List.mem_cons_of_mem _ (ih he)

/-- Any sequence of operations is a run, with room for the borrows it may begin. -/
lemma BorrowRun.sequential {G : GlobalState} (h : BorrowRun G (allBorrows G)) {ops : List Op}
    (hlen : allBorrows G + ops.length < 2 ^ 32) :
    Run PondMerge.sequential G (eventsOf G ops) (PondMerge.runOps G ops) := by
  induction ops generalizing G with
  | nil => exact .nil G
  | cons op ops ih =>
      rw [List.length_cons] at hlen
      have hle := outstanding_le G op (allBorrows G)
      have hfit : BorrowsFit G op := lt_of_le_of_lt hle (by omega)
      have hall := (BorrowRun.step op hfit h).borrows.2
      refine .cons ⟨hfit, rfl, rfl⟩ (ih (h.next hfit).1 ?_)
      rw [hall]
      omega

lemma eventsOf_length (G : GlobalState) (ops : List Op) : (eventsOf G ops).length = ops.length := by
  induction ops generalizing G with
  | nil => rfl
  | cons op ops ih => rw [eventsOf, List.length_cons, List.length_cons, ih]

/-- A run begins no more borrows than it has steps. -/
lemma BorrowRun.borrows_le {G G' : GlobalState} {es : List Event}
    (h : BorrowRun G (allBorrows G)) (hrun : Run PondMerge.sequential G es G') :
    allBorrows G' ≤ allBorrows G + es.length := by
  induction hrun with
  | nil => simp
  | @cons X X' X'' e es hstep _ ih =>
      obtain ⟨hfit, -, rfl⟩ := hstep
      have hall := (BorrowRun.step e.1 hfit h).borrows.2
      have hle := outstanding_le X e.1 (allBorrows X)
      have hih := ih (h.next hfit).1
      rw [List.length_cons]
      omega

/-! ### Two neighbours, compacted and merged -/

/-- The operations that build the state `neighbours`. -/
def neighboursOps : List Op :=
  [.createPool 1, .createPool 1, .alloc 0 24 8 0 1, .alloc 0 40 8 0 2,
    .free ⟨0, 1, crossHint, 0⟩ [], .alloc 1 24 8 pmPinned 3]

/-- Its object in slot `1` moves, and then changes its pool. -/
def moveOps : List Op := [.compact 0 none 5, .merge 0 1]

omit [PmConfig] in
lemma initial_smallZone : letI := defaultConfig; Initial (init .zero smallZone).2 := by
  let _ := defaultConfig
  exact ⟨.zero, smallZone, by decide, rfl⟩

omit [PmConfig] in
lemma initial_smallZone_borrows :
    letI := defaultConfig
    allBorrows (init .zero smallZone).2 = 0 := by
  let _ := defaultConfig
  exact (init_borrows (by decide)).2

omit [PmConfig] in
lemma smallZone_run {ops : List Op} (hlen : ops.length < 2 ^ 32) :
    letI := defaultConfig
    Run sequential (init .zero smallZone).2 (eventsOf (init .zero smallZone).2 ops)
      (runOps (init .zero smallZone).2 ops) := by
  let _ := defaultConfig
  have hzero := initial_smallZone_borrows
  exact initial_smallZone.run.1.sequential (by omega)

omit [PmConfig] in
lemma neighbours_borrowRun :
    letI := defaultConfig
    BorrowRun neighbours (allBorrows neighbours) := by
  let _ := defaultConfig
  have hrun : Run sequential (init .zero smallZone).2
      (eventsOf (init .zero smallZone).2 neighboursOps) neighbours := smallZone_run (by decide)
  exact initial_smallZone.run.1.run hrun

omit [PmConfig] in
set_option maxRecDepth 100000 in
/-- The object is live before and resolves behind the moves. -/
lemma neighbours_moved :
    letI := defaultConfig
    (neighbours.objects 1).state = .live ∧ (neighbours.objects 1).size = 40
      ∧ (neighbours.objects 1).address = 48 ∧ (neighbours.objects 1).generation = 1
      ∧ resolve (runOps neighbours moveOps) ⟨1, 1, crossHint, 8⟩ 4 4 = (.ok, 24) := by
  decide +kernel

omit [PmConfig] in
/-- The moves are a run that frees and writes nothing. -/
lemma neighbours_run :
    letI := defaultConfig
    Run sequential neighbours (eventsOf neighbours moveOps) (runOps neighbours moveOps)
      ∧ ∀ e ∈ eventsOf neighbours moveOps, e.freed ≠ some 1 ∧ e.1.writes = [] := by
  let _ := defaultConfig
  have hrun : Run sequential (init .zero smallZone).2
      (eventsOf (init .zero smallZone).2 neighboursOps) neighbours := smallZone_run (by decide)
  have hle := initial_smallZone.run.1.borrows_le hrun
  rw [initial_smallZone_borrows, eventsOf_length] at hle
  have hlen : neighboursOps.length = 6 ∧ moveOps.length = 2 := by decide
  refine ⟨neighbours_borrowRun.sequential (by omega), fun e he => ?_⟩
  have hop := mem_eventsOf he
  rw [moveOps] at hop
  have hcases : e.1 = .compact 0 none 5 ∨ e.1 = .merge 0 1 := by simpa using hop
  refine ⟨fun hfreed => ?_, ?_⟩
  · obtain ⟨ref, ws, heq⟩ := Event.freed_op hfreed
    rw [heq] at hcases
    simp at hcases
  · rcases hcases with heq | heq <;> (rw [heq]; rfl)

omit [PmConfig] in
/-- Allocations, a `free`, a compaction and a merge. -/
theorem sequential_refines_store_neighbours :
    letI := defaultConfig
    Run store Store.empty (eventsOf (init .zero smallZone).2 (neighboursOps ++ moveOps))
      (contents (runOps (init .zero smallZone).2 (neighboursOps ++ moveOps))) := by
  let _ := defaultConfig
  exact sequential_refines_store initial_smallZone (smallZone_run (by decide))

omit [PmConfig] in
theorem run_reads_back_neighbours :
    letI := defaultConfig
    resolve (runOps neighbours moveOps) ⟨1, 1, crossHint, 8⟩ 4 4 = (.ok, 24)
      ∧ (neighbours.objects 1).address = 48
      ∧ ∀ k, 8 ≤ k → k < 12 →
        (runOps neighbours moveOps).mem (24 + (k - 8)) = neighbours.mem (48 + k) := by
  let _ := defaultConfig
  obtain ⟨hlive, -, haddr, -, hres⟩ := neighbours_moved
  obtain ⟨hrun, hes⟩ := neighbours_run
  have hi : LiveObject neighbours 1 := ⟨by decide, hlive⟩
  have hindex : (⟨1, 1, crossHint, 8⟩ : RawRef).index = 1 := rfl
  refine ⟨hres, haddr, fun k hlo hhi => ?_⟩
  have hread := run_reads_back neighbours_borrowRun hrun hi (fun e he => (hes e he).1) hindex hres
    hlo hhi fun e he w hw => by
      rw [(hes e he).2] at hw
      cases hw
  rw [haddr] at hread
  obtain ⟨-, hmem⟩ := hread
  dsimp only at hmem
  exact hmem

omit [PmConfig] in
set_option maxRecDepth 100000 in
/-- The object is in pool `1` now, which runs: a handle to pool `0` is turned away, and a cross
reference leads to its new place, unless the offset is misaligned. -/
lemma neighbours_after :
    letI := defaultConfig
    ((runOps neighbours moveOps).objects 1).poolId = 1
      ∧ ((runOps neighbours moveOps).pools 1).state = .running
      ∧ ((runOps neighbours moveOps).objects 1).address = 16 := by
  decide +kernel

omit [PmConfig] in
theorem handles_follow_neighbours :
    letI := defaultConfig
    LiveObject (runOps neighbours moveOps) 1
      ∧ resolve (runOps neighbours moveOps) ⟨1, 1, 0, 8⟩ 4 4 = (.poolChanged, 0)
      ∧ resolve (runOps neighbours moveOps) ⟨1, 1, crossHint, 8⟩ 4 4 = (.ok, 24)
      ∧ resolve (runOps neighbours moveOps) ⟨1, 1, 1, 6⟩ 4 4 = (.invalidAlignment, 0) := by
  let _ := defaultConfig
  obtain ⟨hlive, hsize, -, hgen, -⟩ := neighbours_moved
  obtain ⟨hpool, hrunning, haddr⟩ := neighbours_after
  obtain ⟨hrun, hes⟩ := neighbours_run
  obtain ⟨hlive', hfollow⟩ := handles_follow neighbours_borrowRun hrun ⟨by decide, hlive⟩
    fun e he => (hes e he).1
  have hres := fun hint off (hoff : off + 4 ≤ 40) =>
    (hfollow hint off 4 4 (by rw [hsize]; exact hoff) (by decide)).1
  rw [hgen, hpool, hrunning, haddr] at hres
  refine ⟨hlive', ?_, ?_, ?_⟩
  · rw [hres 0 8 (by decide)]
    rfl
  · rw [hres crossHint 8 (by decide)]
    rfl
  · rw [hres 1 6 (by decide)]
    rfl

end PondMerge
