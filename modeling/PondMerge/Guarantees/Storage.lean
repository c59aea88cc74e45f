import PondMerge.Library.Transition
import PondMerge.Model.Storage
import PondMerge.Guarantees.Interleaving
import PondMerge.Guarantees.Isolation
import PondMerge.Operations.Lives

/-!
The library refines the store it is for: whatever pools are opened, closed, paused, compacted,
merged or split in between, the calls on objects behave as on a map from handles to bytes.

* `step_contents`: one operation is one step of the store.
-/

namespace PondMerge

open Transition ByteMemory Relocation Tiling

variable [PmConfig]

section Contents

variable {G G' : GlobalState} {Ls : ℕ → List Piece} {i : ℕ} {o : StoredObject}

/-! ### The store of a state -/

lemma contents_live (hi : LiveObject G i) : contents G i = some ((G.objects i).stored G.mem) :=
  if_pos hi

lemma contents_dead (hi : ¬ LiveObject G i) : contents G i = none := if_neg hi

lemma contents_eq_some : contents G i = some o ↔
    LiveObject G i ∧ (G.objects i).stored G.mem = o := by
  by_cases hi : LiveObject G i
  · rw [contents_live hi, Option.some.injEq]
    exact ⟨fun h => ⟨hi, h⟩, fun h => h.2⟩
  · rw [contents_dead hi]
    exact iff_of_false (by simp) fun h => hi h.1

omit [PmConfig] in
lemma stored_length (m : Mem) (d : ObjectDesc) : (d.stored m).bytes.length = d.size := by
  simp [ObjectDesc.stored]

omit [PmConfig] in
/-- Byte `k` of the object. -/
lemma stored_get {m : Mem} {d : ObjectDesc} {k : ℕ} (hk : k < d.size) :
    (d.stored m).bytes[k]? = some (m (d.address + k)) := by
  simp [ObjectDesc.stored, hk]

omit [PmConfig] in
/-- Objects with the same options and the same bytes. -/
lemma stored_congr {m m' : Mem} {d d' : ObjectDesc} (hgen : d'.generation = d.generation)
    (htag : d'.userTag = d.userTag) (hflags : d'.flags = d.flags)
    (hfn : d'.destroyFn = d.destroyFn) (hsize : d'.size = d.size)
    (hmem : ∀ k < d.size, m' (d'.address + k) = m (d.address + k)) :
    d'.stored m' = d.stored m := by
  rw [ObjectDesc.stored, ObjectDesc.stored, hgen, htag, hflags, hfn, hsize]
  congr 1
  exact List.map_congr_left fun k hk => hmem k (List.mem_range.mp hk)

/-- A preserved object is the same to its users. -/
lemma ObjectKept.contents (h : ObjectKept G G' i) (hi : LiveObject G i) :
    PondMerge.contents G' i = PondMerge.contents G i := by
  rw [contents_live hi, contents_live ⟨hi.1, h.live⟩]
  exact congrArg some
    (stored_congr h.generation h.userTag h.flags h.destroyFn h.size h.payload)

/-- Objects that are neither born nor lost, and preserved. -/
lemma contents_of_kept (hstate : ∀ i, (G'.objects i).state = (G.objects i).state)
    (hkept : ∀ i, LiveObject G i → ObjectKept G G' i) : contents G' = contents G := by
  funext i
  by_cases hi : LiveObject G i
  · exact (hkept i hi).contents hi
  · rw [contents_dead hi, contents_dead]
    rwa [LiveObject, hstate i]

/-- Objects of which nothing a user sees has changed. -/
lemma contents_of_objects
    (hobj : ∀ i, (G'.objects i).state = (G.objects i).state
      ∧ (G'.objects i).address = (G.objects i).address ∧ (G'.objects i).size = (G.objects i).size
      ∧ (G'.objects i).generation = (G.objects i).generation
      ∧ (G'.objects i).userTag = (G.objects i).userTag ∧ (G'.objects i).flags = (G.objects i).flags
      ∧ (G'.objects i).destroyFn = (G.objects i).destroyFn)
    (hmem : ∀ i, LiveObject G i → ∀ k < (G.objects i).size,
      G'.mem ((G.objects i).address + k) = G.mem ((G.objects i).address + k)) :
    contents G' = contents G := by
  funext i
  obtain ⟨hst, haddr, hsize, hgen, htag, hflags, hfn⟩ := hobj i
  by_cases hi : LiveObject G i
  · rw [contents_live hi, contents_live ⟨hi.1, hst.trans hi.2⟩]
    refine congrArg some (stored_congr hgen htag hflags hfn hsize fun k hk => ?_)
    rw [haddr]
    exact hmem i hi k hk
  · rw [contents_dead hi, contents_dead]
    rwa [LiveObject, hst]

/-- The same descriptors over the same bytes. -/
lemma contents_same (hobj : G'.objects = G.objects) (hmem : G'.mem = G.mem) :
    contents G' = contents G :=
  contents_of_objects (fun i => by rw [hobj]; exact ⟨rfl, rfl, rfl, rfl, rfl, rfl, rfl⟩)
    fun i _ k _ => by rw [hmem]

/-! ### Client writes -/

/-- A client's write is a write of the store. -/
lemma clientWrite_contents (h : GlobalInv G Ls) (w : PayloadWrite) :
    contents (clientWrite G w) = (contents G).write w := by
  have hobj := clientWrite_objects G w
  by_cases hw : LiveObject G w.slot ∧ w.pos < (G.objects w.slot).size
  · obtain ⟨hlive, hpos⟩ := hw
    have hmem : (clientWrite G w).mem =
        Function.update G.mem ((G.objects w.slot).address + w.pos) w.val := by
      rw [clientWrite, if_pos ⟨hlive.1, by rw [hlive.2]; decide, hpos⟩]
    funext i
    rw [Store.write, contents_live hlive]
    dsimp only
    by_cases hi : i = w.slot
    · subst hi
      rw [Function.update_self, contents_live ⟨hlive.1, by rw [hobj]; exact hlive.2⟩, hobj, hmem]
      refine congrArg some ?_
      rw [ObjectDesc.stored, ObjectDesc.stored]
      congr 1
      refine List.ext_getElem? fun k => ?_
      rw [List.getElem?_set]
      by_cases hk : k < (G.objects w.slot).size
      · by_cases hkw : w.pos = k
        · subst hkw
          simp [hk]
        · simp [hk, hkw, Ne.symm hkw]
      · have hne : w.pos ≠ k := by omega
        simp [hk, hne]
    · rw [Function.update_of_ne hi]
      by_cases hli : LiveObject G i
      · rw [contents_live hli, contents_live ⟨hli.1, by rw [hobj]; exact hli.2⟩, hobj, hmem]
        refine congrArg some (stored_congr rfl rfl rfl rfl rfl fun k hk => ?_)
        -- the payloads of two live objects lie apart
        have hapart := h.blocks_apart hli hlive hi
        obtain ⟨x, n, -, -, haddr, hbs, hle⟩ := h.payload hli.1 hli.2
        obtain ⟨y, m, -, -, haddr', hbs', hle'⟩ := h.payload hlive.1 hlive.2
        rw [Apart, ObjectDesc.block, ObjectDesc.block, haddr, haddr', hbs, hbs'] at hapart
        refine Function.update_of_ne ?_ _ _
        omega
      · rw [contents_dead hli, contents_dead]
        rwa [LiveObject, hobj]
  · have hsame : clientWrite G w = G := by
      rw [clientWrite, if_neg]
      rintro ⟨hlt, hst, hpos⟩
      refine hw ⟨⟨hlt, ?_⟩, hpos⟩
      rcases h.idle _ hlt with hl | hf
      · exact hl
      · exact absurd hf hst
    rw [hsame, Store.write]
    by_cases hlive : LiveObject G w.slot
    · have hpos : ¬ w.pos < (G.objects w.slot).size := fun hp => hw ⟨hlive, hp⟩
      have hset : ((G.objects w.slot).stored G.mem).bytes.set w.pos w.val =
          ((G.objects w.slot).stored G.mem).bytes :=
        List.set_eq_of_length_le (by rw [stored_length]; omega)
      rw [contents_live hlive]
      dsimp only
      rw [hset]
      refine (Function.update_eq_self_iff.mpr ?_).symm
      exact (contents_live hlive).symm
    · rw [contents_dead hlive]

/-- A sequence of writes. -/
lemma foldl_clientWrite_contents (h : GlobalInv G Ls) (ws : List PayloadWrite) :
    contents (ws.foldl clientWrite G) = ws.foldl Store.write (contents G) := by
  induction ws generalizing G with
  | nil => rfl
  | cons w ws ih =>
      rw [List.foldl_cons, List.foldl_cons, ih (clientWrite_inv h w), clientWrite_contents h]

/-- A callback of the object in slot `i`. -/
lemma afterCallback_contents (h : GlobalInv G Ls) (i : ℕ) (ws : List PayloadWrite) :
    contents (afterCallback G i ws) =
      (contents G).callback ((G.objects i).stored G.mem) ws := by
  rw [afterCallback, Store.callback]
  cases hfn : (G.objects i).destroyFn with
  | none => simp [ObjectDesc.stored, hfn]
  | some fn =>
      rw [if_pos (by simp [ObjectDesc.stored, hfn])]
      exact foldl_clientWrite_contents h ws

/-! ### Maintenance -/

/-- A successful `compact`, `merge` or `split` has moved objects, and no more. -/
lemma contents_relocated (h : GlobalInv G Ls) {A : ℕ → Prop} {l : List ℕ}
    (hl : ∀ i, i ∈ l ↔ LiveObject G i ∧ A (G.objects i).poolId) (hrel : Relocated G G' l)
    (hmem : ∀ q, Active G q → ¬ A q → ∀ z, InWindow G q z → G'.mem z = G.mem z) :
    contents G' = contents G :=
  contents_of_kept (fun i => (hrel.life i).state) (preserves_of_relocated h hl hrel hmem).kept

lemma compact_contents (h : GlobalInv G Ls) (p : ℕ) (req : Option CompactionRequest)
    (elapsed : ℕ) : contents (compact G p req elapsed).2.2 = contents G := by
  by_cases hyes : Active G p ∧ (G.pools p).borrowCount = 0 ∧ requestOk req = true
  · obtain ⟨met, F, L', heq, -, hc⟩ := compact_ok h hyes.1 hyes.2.1 hyes.2.2 elapsed
    rw [heq]
    exact contents_relocated h (h.mem_liveSlots hyes.1) hc.relocated fun q hq hqp z hz =>
      hc.mem z (h.window_apart hq hyes.1 hqp hz)
  · obtain ⟨st, F, heq, -, -, hF⟩ := compact_refused h hyes elapsed
    rw [heq]
    cases hF with
    | inl hsame => rw [hsame]
    | inr hpaused =>
        rw [hpaused.2]
        exact contents_same rfl rfl

lemma merge_contents (h : GlobalInv G Ls) (s t : ℕ) : contents (merge G s t).2 = contents G := by
  by_cases hyes : MergeReady G s t ∧ NoUndersized (Ls s) ∧ NoUndersized (Ls t)
  · obtain ⟨hr, hmin⟩ := hyes
    obtain ⟨F, L', heq, -, hm⟩ := merge_ok h hr hmin
    have hslots : ∀ i, i ∈ mergeSlots G Ls s t ↔ LiveObject G i
        ∧ ((G.objects i).poolId = s ∨ (G.objects i).poolId = t) := by
      intro i
      rw [mem_mergeSlots, h.mem_liveSlots hr.source, h.mem_liveSlots hr.target]
      tauto
    rw [heq]
    refine contents_relocated h (A := fun q => q = s ∨ q = t) hslots hm.relocated
      fun q hq hqst z hz => ?_
    rw [not_or] at hqst
    exact hm.mem z (h.window_apart hq hr.source hqst.1 hz)
      (h.window_apart hq hr.target hqst.2 hz)
  · obtain ⟨st, heq, -, -⟩ := merge_refused h hyes
    rw [heq]

lemma split_contents (h : GlobalInv G Ls) (s n : ℕ) :
    contents (split G s n).2.2 = contents G := by
  by_cases hok : ∃ nid F, split G s n = (.ok, some nid, F)
  · obtain ⟨nid, F, heq⟩ := hok
    obtain ⟨k, hr⟩ := split_asked (s := s) (n := n) h (by rw [heq])
    rcases split_ok h hr with ⟨st, hst, -⟩ | ⟨G', plan, L₁, L₂, hG', -, -, hsp⟩
    · rw [hst] at heq
      cases heq
    · rw [hG']
      exact contents_relocated h (h.mem_liveSlots hr.source) hsp.relocated fun q hq hqs z hz =>
        hsp.mem z (h.window_apart hq hr.source hqs hz)
  · obtain ⟨st, heq, -, -⟩ := split_refused (s := s) (n := n) h
      fun nid F heq => hok ⟨nid, F, heq⟩
    rw [heq]

/-! ### Pools and borrows -/

lemma createPool_contents (h : GlobalInv G Ls) (n : ℕ) :
    contents (createPool G n).2.2 = contents G := by
  rcases createPool_cases h n with ⟨st, -, -, heq⟩ | ⟨k, base, heq, -, -, -, -, hmem⟩
  · rw [heq]
  · rw [heq]
    refine contents_of_objects (fun i => ⟨rfl, rfl, rfl, rfl, rfl, rfl, rfl⟩) fun i hi k hk => ?_
    obtain ⟨hact, hin⟩ := h.payload_inWindow hi hk
    exact hmem _ hact _ hin

lemma destroyPool_contents (h : GlobalInv G Ls) (p : ℕ) :
    contents (destroyPool G p).2 = contents G := by
  rcases destroyPool_cases h p with ⟨st, -, heq⟩ | ⟨heq, -, -⟩
  · rw [heq]
  · rw [heq]
    exact contents_same rfl rfl

/-- `pause` and `resume` touch neither objects nor bytes. -/
lemma pause_objects (G : GlobalState) (p : ℕ) :
    (pause G p).2.objects = G.objects ∧ (pause G p).2.mem = G.mem := by
  rw [pause]
  cases poolAt G p with
  | none => exact ⟨rfl, rfl⟩
  | some P =>
      dsimp only
      split_ifs <;> exact ⟨rfl, rfl⟩

lemma resume_objects (G : GlobalState) (p : ℕ) :
    (resume G p).2.objects = G.objects ∧ (resume G p).2.mem = G.mem := by
  rw [resume]
  cases poolAt G p with
  | none => exact ⟨rfl, rfl⟩
  | some P =>
      dsimp only
      split_ifs <;> exact ⟨rfl, rfl⟩

/-- A count of borrows does not show. -/
lemma contents_setBorrows (G : GlobalState) (i k : ℕ) :
    contents (G.setObj i { G.objects i with activeBorrows := k }) = contents G := by
  refine contents_of_objects (fun j => ?_) fun _ _ _ _ => rfl
  rw [GlobalState.setObj_objects, Function.update_apply]
  split_ifs with hj
  · rw [hj]
    exact ⟨rfl, rfl, rfl, rfl, rfl, rfl, rfl⟩
  · exact ⟨rfl, rfl, rfl, rfl, rfl, rfl, rfl⟩

lemma borrowBegin_contents (G : GlobalState) (ref : RawRef) (n a : ℕ) :
    contents (borrowBegin G ref n a).2.2 = contents G := by
  rw [borrowBegin]
  cases checkRef G ref n a true with
  | error e => rfl
  | ok addr =>
      show contents (borrowCommit G (G.objects ref.index).poolId ref.index) = contents G
      rw [borrowCommit]
      exact (contents_same rfl rfl).trans
        (contents_setBorrows G ref.index (u32 ((G.objects ref.index).activeBorrows + 1)))

lemma borrowEnd_contents (G : GlobalState) (ref : RawRef) :
    contents (borrowEnd G ref) = contents G := by
  rw [borrowEnd]
  split_ifs
  · exact (contents_same rfl rfl).trans
      (contents_setBorrows G ref.index ((G.objects ref.index).activeBorrows - 1))
  · rfl

end Contents

/-! ### One operation -/

section Steps

variable {G : GlobalState} {Ls : ℕ → List Piece}

/-- A reference that has passed the checks names its object. -/
lemma RefOk.names {ref : RawRef} {n : ℕ} {rr : Bool} (hok : RefOk G ref n rr) :
    (contents G).Names ref ((G.objects ref.index).stored G.mem) :=
  ⟨contents_live ⟨hok.index, hok.live⟩, hok.generation⟩

lemma alloc_contents (h : GlobalInv G Ls) (p size alignment flags tag : ℕ) :
    StoreStep (contents G)
      (.alloc p size alignment flags tag, reply G (.alloc p size alignment flags tag))
      (contents (alloc G p size alignment flags tag).2.2) := by
  rw [reply]
  rcases alloc_cases G p size alignment flags tag with ⟨st, hst, heq⟩ | ⟨need, blk, ha, heq⟩
  · rw [heq]
    exact .refused _ _ (by simpa [Reply.ok] using hst) fun w hw => by cases hw
  · obtain ⟨halloc, hothers⟩ := allocCommit_isolated h tag ha
    have hobj := allocCommit_objects (popSlot G) p G.freeSlotHead blk need size
      (allocFlags flags) tag (h.head_ne_slot ha.slot ha.active)
    rw [heq]
    dsimp only
    generalize allocCommit (popSlot G) p G.freeSlotHead blk need size (allocFlags flags) tag = F
      at *
    have hself := hobj G.freeSlotHead
    rw [if_pos rfl] at hself
    have hbytes := stored_length F.mem (F.objects G.freeSlotHead)
    -- one slot of the store changes: the one that the block is given to
    have hstored : contents F = Function.update (contents G) G.freeSlotHead (some
        ⟨nextGeneration (G.objects G.freeSlotHead).generation, tag, allocFlags flags, none,
          ((F.objects G.freeSlotHead).stored F.mem).bytes⟩) := by
      funext i
      by_cases hi : i = G.freeSlotHead
      · subst hi
        rw [Function.update_self, contents_live halloc.live]
        refine congrArg some ?_
        rw [ObjectDesc.stored, hself]
        rfl
      · rw [Function.update_of_ne hi]
        have hi' := hobj i
        rw [if_neg hi] at hi'
        by_cases hlive : LiveObject G i
        · obtain ⟨-, hun⟩ := hothers i hlive
          rw [contents_live hlive, contents_live ⟨hlive.1, hun.live⟩]
          have hsame : (F.objects i).userTag = (G.objects i).userTag
              ∧ (F.objects i).flags = (G.objects i).flags
              ∧ (F.objects i).destroyFn = (G.objects i).destroyFn := by
            rw [hi']
            split_ifs <;> exact ⟨rfl, rfl, rfl⟩
          exact congrArg some (stored_congr hun.generation hsame.1 hsame.2.1 hsame.2.2 hun.size
            hun.payload)
        · rw [contents_dead hlive, contents_dead]
          have hst : (F.objects i).state = (G.objects i).state := by
            rw [hi']
            split_ifs <;> rfl
          rwa [LiveObject, hst]
    rw [hstored]
    refine .allocated p size alignment flags tag _ _ ?_ ?_ ⟨rfl, rfl⟩ ?_ fun hz v hv => ?_
    · exact contents_dead fun hl => (hothers _ hl).1 rfl
    · exact Nat.one_le_iff_ne_zero.mp (nextGeneration_pos _)
    · rw [hbytes]
      exact halloc.requested
    · obtain ⟨k, hk⟩ := List.mem_iff_getElem?.mp hv
      have hlt : k < (F.objects G.freeSlotHead).size := by
        by_contra hge
        rw [List.getElem?_eq_none (by rw [hbytes]; omega)] at hk
        cases hk
      rw [stored_get hlt, Option.some.injEq] at hk
      rw [← hk]
      exact halloc.zeroed hz k (by rw [halloc.requested] at hlt; exact hlt)

/-- The release behind the callback finds the descriptors as they were before it. -/
lemma afterCallback_commit (G : GlobalState) (i : ℕ) (ws : List PayloadWrite) :
    (afterCallback G i ws).objects = G.objects
      ∧ freeCommit (afterCallback G i ws) (G.objects i).poolId i (G.objects i).block
          (poolEnd G (G.pools (G.objects i).poolId)) =
        freeCommit (afterCallback G i ws) ((afterCallback G i ws).objects i).poolId i
          ((afterCallback G i ws).objects i).block
          (poolEnd (afterCallback G i ws)
            ((afterCallback G i ws).pools ((afterCallback G i ws).objects i).poolId)) := by
  rw [afterCallback_eq]
  exact ⟨rfl, rfl⟩

lemma free_contents (h : GlobalInv G Ls) (ref : RawRef) (ws : List PayloadWrite) :
    StoreStep (contents G) (.free ref ws, reply G (.free ref ws))
      (contents (free (writingCallback ws) G ref).2) := by
  rw [reply]
  rcases free_cases h ref ws with ⟨st, hst, -, heq⟩ | ⟨hok, -, heq⟩
  · rw [heq]
    exact .refused _ _ (by simpa [Reply.ok] using hst) fun w hw => by cases hw
  · have hcall := afterCallback_contents h ref.index ws
    have hinv := afterCallback_inv h ref.index ws
    obtain ⟨hobj, hcommit⟩ := afterCallback_commit G ref.index ws
    rw [heq]
    dsimp only
    -- one slot of the store is emptied
    have hstored : contents (freeCommit (afterCallback G ref.index ws)
        (G.objects ref.index).poolId ref.index (G.objects ref.index).block
        (poolEnd G (G.pools (G.objects ref.index).poolId))) =
        Function.update (contents (afterCallback G ref.index ws)) ref.index none := by
      rw [hcommit]
      generalize afterCallback G ref.index ws = C at *
      have hliveC : LiveObject C ref.index := ⟨hok.index, by rw [hobj]; exact hok.live⟩
      obtain ⟨hact, hmi⟩ := hinv.owner hliveC.1 hliveC.2
      obtain ⟨hprev, hnext⟩ := (hinv.pool _ hact).order.links_ne hmi
      have hfobj := fun i (hi : i < pmMaxObjects) => freeCommit_objects C
        (C.objects ref.index).poolId ref.index (C.objects ref.index).block
        (poolEnd C (C.pools (C.objects ref.index).poolId)) hprev hnext (slot_ne_noOrder hi)
      have hun := fun i (hi : LiveObject C i) (hne : i ≠ ref.index) =>
        freeCommit_isolated hinv hliveC hi hne
      generalize freeCommit C (C.objects ref.index).poolId ref.index
        (C.objects ref.index).block (poolEnd C (C.pools (C.objects ref.index).poolId)) = F at *
      funext i
      by_cases hi : i = ref.index
      · subst hi
        rw [Function.update_self, contents_dead]
        intro hl
        have hself := hfobj _ hok.index
        rw [if_pos rfl] at hself
        rw [LiveObject, hself] at hl
        cases hl.2
      · rw [Function.update_of_ne hi]
        by_cases hl : LiveObject C i
        · have hi' := hfobj i hl.1
          rw [if_neg hi] at hi'
          have hu := hun i hl hi
          rw [contents_live hl, contents_live ⟨hl.1, hu.live⟩]
          refine congrArg some (stored_congr hu.generation ?_ ?_ ?_ hu.size hu.payload) <;>
            rw [hi']
        · rw [contents_dead hl, contents_dead]
          intro hl'
          have hi' := hfobj i hl'.1
          rw [if_neg hi] at hi'
          rw [LiveObject, hi'] at hl'
          exact hl hl'
    rw [hstored, hcall]
    exact .freed ref ws _ hok.names

lemma setDestroyFn_contents (G : GlobalState) (ref : RawRef) (fn : Option ℕ) :
    StoreStep (contents G) (.setDestroyFn ref fn, reply G (.setDestroyFn ref fn))
      (contents (setDestroyFn G ref fn).2) := by
  rw [reply, setDestroyFn]
  cases hck : checkRef G ref 0 1 false with
  | error e =>
      refine .refused _ _ ?_ fun w hw => by cases hw
      have hne : e ≠ .ok := fun heq => checkRef_ne_ok G ref 0 1 false (heq ▸ hck)
      simpa [Reply.ok] using hne
  | ok addr =>
      obtain ⟨hok, -⟩ := checkRef_ok hck
      dsimp only
      split_ifs with hpin
      · exact .refused _ _ (by simp [Reply.ok]) fun w hw => by cases hw
      · have hlive : LiveObject G ref.index := ⟨hok.index, hok.live⟩
        have hstored : contents (G.setObj ref.index
            { G.objects ref.index with destroyFn := fn }) =
            Function.update (contents G) ref.index
              (some { (G.objects ref.index).stored G.mem with destroyFn := fn }) := by
          funext i
          by_cases hi : i = ref.index
          · subst hi
            rw [Function.update_self, contents_live ⟨hok.index, by simp [hok.live]⟩]
            simp [ObjectDesc.stored]
          · rw [Function.update_of_ne hi, contents, contents, GlobalState.setObj_objects,
              Function.update_of_ne hi]
            rfl
        rw [hstored]
        refine .destroyFnSet ref fn _ hok.names ?_
        simpa [ObjectDesc.pinned, ObjectDesc.stored] using hpin

lemma borrowBegin_store (G : GlobalState) (ref : RawRef) (n a : ℕ) :
    StoreStep (contents G) (.borrowBegin ref n a, reply G (.borrowBegin ref n a))
      (contents (borrowBegin G ref n a).2.2) := by
  rw [borrowBegin_contents, reply, borrowBegin]
  cases hck : checkRef G ref n a true with
  | error e =>
      refine .refused _ _ ?_ fun w hw => by cases hw
      have hne : e ≠ .ok := fun heq => checkRef_ne_ok G ref n a true (heq ▸ hck)
      simpa [Reply.ok] using hne
  | ok addr =>
      obtain ⟨hok, -⟩ := checkRef_ok hck
      exact .borrowed ref n a addr _ hok.names (by rw [stored_length]; exact hok.inside)

/-- One operation is one step of the store. -/
theorem step_contents (h : GlobalInv G Ls) (op : Op) :
    StoreStep (contents G) (op, reply G op) (contents (step G op)) := by
  cases op with
  | createPool n =>
      rw [step, createPool_contents h]
      exact .unseen _ _ rfl
  | destroyPool id =>
      rw [step, destroyPool_contents h]
      exact .unseen _ _ rfl
  | pause id =>
      rw [step, contents_same (pause_objects G id).1 (pause_objects G id).2]
      exact .unseen _ _ rfl
  | resume id =>
      rw [step, contents_same (resume_objects G id).1 (resume_objects G id).2]
      exact .unseen _ _ rfl
  | alloc p size alignment flags tag => exact alloc_contents h p size alignment flags tag
  | free ref ws => exact free_contents h ref ws
  | setDestroyFn ref fn => exact setDestroyFn_contents G ref fn
  | borrowBegin ref n a => exact borrowBegin_store G ref n a
  | borrowEnd ref =>
      rw [step, borrowEnd_contents]
      exact .unseen _ _ rfl
  | compact p req elapsed =>
      rw [step, compact_contents h]
      exact .unseen _ _ rfl
  | merge s t =>
      rw [step, merge_contents h]
      exact .unseen _ _ rfl
  | split s n =>
      rw [step, split_contents h]
      exact .unseen _ _ rfl
  | write w =>
      rw [step, clientWrite_contents h]
      exact .written w

end Steps

end PondMerge
