import PondMerge.Model.Access
import PondMerge.Guarantees.Places
import PondMerge.Guarantees.Undo

/-!
Typed objects: what the typed allocations store, and where a pinned object lives and dies.

* `construct_writes`: a constructor is a sequence of writes into its object.
* `makeAt_cases`: the end of both typed allocations.
* `pmMake_stores`, `pmMakePinned_stores`: what they leave in the store, and when.
* `pinned_lifecycle`: a pinned object is destroyed where it was constructed, whatever the owner
  maintains in between.
-/

namespace PondMerge

open Transition Tiling

variable [PmConfig]

/-! ### Constructors -/

/-- The writes of a constructor into the object in slot `i`. -/
def imageWrites (i n : ℕ) (image : ℕ → UInt8) : List PayloadWrite :=
  (List.range n).map fun k => ⟨i, k, image k⟩

/-- The bytes of an object of `n` bytes. -/
def imageBytes (n : ℕ) (image : ℕ → UInt8) : List UInt8 := (List.range n).map image

section Constructors

variable {G : GlobalState} {Ls : ℕ → List Piece} {i n : ℕ} {image : ℕ → UInt8}

omit [PmConfig] in
lemma imageWrites_succ :
    imageWrites i (n + 1) image = imageWrites i n image ++ [⟨i, n, image n⟩] := by
  rw [imageWrites, List.range_succ, List.map_append]
  rfl

/-- A constructor is a sequence of writes into its object. -/
lemma construct_writes (hi : LiveObject G i) (hn : n ≤ (G.objects i).size) :
    construct G (G.objects i).address n image = (imageWrites i n image).foldl clientWrite G := by
  induction n with
  | zero =>
      have hnone : ∀ z, ¬ ((G.objects i).address ≤ z ∧ z < (G.objects i).address + 0) := by omega
      rw [construct]
      simp only [hnone, if_false]
      rfl
  | succ n ih =>
      rw [imageWrites_succ, List.foldl_append, ← ih (by omega), List.foldl_cons, List.foldl_nil,
        clientWrite, if_pos ⟨hi.1, by
          show (G.objects i).state ≠ .free
          rw [hi.2]
          decide, hn⟩]
      rw [construct, construct]
      congr 1
      funext z
      rw [Function.update_apply]
      dsimp only
      by_cases hz : z = (G.objects i).address + n
      · rw [if_pos hz, if_pos (by omega), hz, Nat.add_sub_cancel_left]
      · rw [if_neg hz]
        exact if_congr (by omega) rfl rfl

omit [PmConfig] in
/-- The writes of a constructor, on a store. -/
lemma imageWrites_store {s : Store} {o : StoredObject} (ho : s i = some o)
    (hn : n ≤ o.bytes.length) :
    (imageWrites i n image).foldl Store.write s =
      Function.update s i (some { o with bytes := imageBytes n image ++ o.bytes.drop n }) := by
  induction n with
  | zero =>
      have hsame : ({ o with bytes := imageBytes 0 image ++ o.bytes.drop 0 } : StoredObject) = o :=
        rfl
      rw [hsame, ← ho, Function.update_eq_self]
      rfl
  | succ n ih =>
      have hlen : (imageBytes n image).length = n := by simp [imageBytes]
      rw [imageWrites_succ, List.foldl_append, ih (by omega), List.foldl_cons, List.foldl_nil,
        Store.write]
      dsimp only
      rw [Function.update_self]
      dsimp only
      rw [Function.update_idem]
      congr 3
      rw [List.set_append_right _ _ (by omega), hlen, Nat.sub_self,
        List.drop_eq_getElem_cons (show n < o.bytes.length by omega), List.set_cons_zero,
        imageBytes, imageBytes, List.range_succ, List.map_append, List.append_assoc]
      rfl

end Constructors

/-! ### The object that `alloc` returns -/

/-- `ref` names the object `o` of the healthy state `F`, in a Running pool and unborrowed. -/
structure Fresh (F : GlobalState) (ref : RawRef) (o : StoredObject) : Prop where
  healthy : Healthy F
  offset : ref.offset = 0
  valid : ref.generation ≠ 0
  stored : contents F ref.index = some o
  generation : o.generation = ref.generation
  hint : ref.poolHint = crossHint ∨ ref.poolHint = (F.objects ref.index).poolId
  running : (F.pools (F.objects ref.index).poolId).state = .running
  idle : (F.objects ref.index).activeBorrows = 0

section Fresh

variable {G F : GlobalState} {Ls : ℕ → List Piece} {ref : RawRef} {o : StoredObject} {n a : ℕ}
  {image : ℕ → UInt8} {run run' : Callback}

lemma Fresh.object (h : Fresh F ref o) :
    LiveObject F ref.index ∧ o = (F.objects ref.index).stored F.mem := by
  obtain ⟨hlive, ho⟩ := contents_eq_some.mp h.stored
  exact ⟨hlive, ho.symm⟩

lemma Fresh.size (h : Fresh F ref o) : (F.objects ref.index).size = o.bytes.length := by
  rw [h.object.2, stored_length]

/-- It resolves where it is aligned. -/
lemma Fresh.resolve (h : Fresh F ref o) (hn : n ≤ o.bytes.length) (ha : alignmentOk a = true) :
    resolve F ref n a =
      if a ∣ (F.objects ref.index).address then (.ok, (F.objects ref.index).address)
      else (.invalidAlignment, 0) := by
  obtain ⟨Ls, hinv⟩ := h.healthy
  have hgen : (F.objects ref.index).generation = ref.generation := by
    rw [← h.generation, h.object.2]
    rfl
  have hres : PondMerge.resolve F ⟨ref.index, (F.objects ref.index).generation, ref.poolHint, 0⟩ n a
      = _ := resolve_live hinv h.object.1 (by rw [h.size]; omega) ha
  have hhint := h.hint
  rw [hgen, if_neg (by tauto), if_pos h.running, Nat.add_zero] at hres
  have hoff := h.offset
  obtain ⟨index, generation, hint, offset⟩ := ref
  dsimp only at hoff
  subst hoff
  exact hres

lemma alignmentOk_one (ha : alignmentOk a = true) : alignmentOk 1 = true := by
  rw [alignmentOk, decide_eq_true_eq] at ha ⊢
  exact ⟨one_ne_zero, rfl, by omega⟩

/-- The checks of `free` and `set_destroy_fn` accept it. -/
lemma Fresh.accepted (h : Fresh F ref o) (ha : alignmentOk 1 = true) (rr : Bool) :
    checkRef F ref 0 1 rr = .ok (F.objects ref.index).address := by
  obtain ⟨Ls, hinv⟩ := h.healthy
  obtain ⟨hlive, ho⟩ := h.object
  have hgen : (F.objects ref.index).generation = ref.generation := by
    rw [← h.generation, ho]
    rfl
  have hhint := h.hint
  have hlt := hlive.1
  have hl := hlive.2
  have hvalid := h.valid
  rw [checkRef_healthy hinv]
  dsimp only
  rw [if_neg (by rw [hl, hgen]; simp [hvalid, hlt]), if_neg (by tauto),
    if_neg (by simp [h.running]), if_neg (by simp [ha]), if_neg (by simp [h.offset]),
    if_neg (by simp), h.offset]
  rfl

/-- `free` accepts it, and takes it from the store behind its callback. -/
lemma Fresh.freed (h : Fresh F ref o) (ha : alignmentOk 1 = true) (ws : List PayloadWrite) :
    contents (free (writingCallback ws) F ref).2 =
      Function.update ((contents F).callback o ws) ref.index none := by
  obtain ⟨Ls, hinv⟩ := h.healthy
  have hok : (free (writingCallback ws) F ref).1 = .ok := by
    rw [free_healthy hinv]
    dsimp only
    rw [if_neg (not_not.mpr h.offset), h.accepted ha]
    dsimp only
    rw [if_neg (not_not.mpr h.idle)]
  have hstep := free_contents hinv ref ws
  rw [reply, hok] at hstep
  have hst := h.stored
  generalize contents F = s at *
  generalize contents (free (writingCallback ws) F ref).2 = s' at *
  cases hstep with
  | freed _ _ o' named =>
      have heq : o' = o := by
        have hnamed := named.1
        rw [hst, Option.some.injEq] at hnamed
        exact hnamed.symm
      rw [heq]
  | refused _ _ no _ => cases no
  | unseen _ _ other => cases other

/-- `free` asks its callback only what it does to the object. -/
lemma free_consults (hrun : ∀ fn, (F.objects ref.index).destroyFn = some fn →
      run fn (F.objects ref.index).address (markDestroying F ref.index) =
        run' fn (F.objects ref.index).address (markDestroying F ref.index)) :
    free run F ref = free run' F ref := by
  rw [free, free]
  dsimp only
  cases hfn : (F.objects ref.index).destroyFn with
  | none => rfl
  | some fn =>
      have hcall := hrun fn hfn
      rw [markDestroying] at hcall
      simp only [runDestroy, hcall]

/-- A new destroy callback. -/
lemma Fresh.setDestroyFn (h : Fresh F ref o) (ha : alignmentOk 1 = true)
    (hpin : o.flags &&& pmPinned ≠ 0) (fn : Option ℕ) :
    ∃ D, setDestroyFn F ref fn = (.ok, D) ∧ Fresh D ref { o with destroyFn := fn }
      ∧ (D.objects ref.index).address = (F.objects ref.index).address
      ∧ contents D = Function.update (contents F) ref.index (some { o with destroyFn := fn }) := by
  obtain ⟨Ls, hinv⟩ := h.healthy
  obtain ⟨hlive, ho⟩ := h.object
  -- the call is accepted, as the object is pinned and its reference current
  have hpinned : (F.objects ref.index).pinned = true := by
    rw [ho] at hpin
    rw [ObjectDesc.pinned, decide_eq_true_eq]
    exact hpin
  have heq : PondMerge.setDestroyFn F ref fn =
      (.ok, F.setObj ref.index { F.objects ref.index with destroyFn := fn }) := by
    rw [PondMerge.setDestroyFn, h.accepted ha]
    simp [hpinned]
  have hinv' := setDestroyFn_inv hinv ref fn
  have hstep := setDestroyFn_contents F ref fn
  rw [reply, heq] at hstep
  rw [heq] at hinv'
  dsimp only at hstep hinv'
  have hcontents : contents (F.setObj ref.index { F.objects ref.index with destroyFn := fn }) =
      Function.update (contents F) ref.index (some { o with destroyFn := fn }) := by
    have hst := h.stored
    generalize contents F = s at *
    generalize contents (F.setObj ref.index { F.objects ref.index with destroyFn := fn }) = s' at *
    cases hstep with
    | destroyFnSet _ _ o' named _ =>
        have heq' : o' = o := by
          have hnamed := named.1
          rw [hst, Option.some.injEq] at hnamed
          exact hnamed.symm
        rw [heq']
    | refused _ _ no _ => cases no
    | unseen _ _ other => cases other
  refine ⟨_, heq, ⟨⟨Ls, hinv'⟩, h.offset, h.valid, ?_, h.generation, ?_, ?_, ?_⟩, ?_, hcontents⟩
  · rw [hcontents, Function.update_self]
  · simpa using h.hint
  · simpa using h.running
  · simpa using h.idle
  · simp

/-- What `alloc` leaves, and the object it returns. -/
lemma alloc_fresh (h : GlobalInv G Ls) (p size alignment flags tag : ℕ)
    (hok : (alloc G p size alignment flags tag).1 = .ok) :
    ∃ ref bytes F, alloc G p size alignment flags tag = (.ok, ref, F)
      ∧ bytes.length = size ∧ alignmentOk alignment = true ∧ contents G ref.index = none
      ∧ ref.poolHint = p ∧ Fresh F ref ⟨ref.generation, tag, allocFlags flags, none, bytes⟩
      ∧ contents F = Function.update (contents G) ref.index
        (some ⟨ref.generation, tag, allocFlags flags, none, bytes⟩) := by
  have hstep := alloc_contents h p size alignment flags tag
  rcases alloc_cases G p size alignment flags tag with ⟨st, hst, heq⟩ | ⟨need, blk, ha, heq⟩
  · rw [heq] at hok
    exact absurd hok hst
  · obtain ⟨⟨hoff, ⟨addr, hck⟩, hidle⟩, -, hhealthy⟩ := ha.freeable h tag
    obtain ⟨hok', -⟩ := checkRef_ok hck
    rw [reply, heq] at hstep
    rw [heq]
    generalize allocCommit (popSlot G) p G.freeSlotHead blk need size (allocFlags flags) tag = F
      at *
    generalize (⟨G.freeSlotHead, nextGeneration (G.objects G.freeSlotHead).generation, p, 0⟩ :
      RawRef) = ref at *
    dsimp only at hstep
    generalize contents G = s at *
    generalize hs' : contents F = s' at hstep
    cases hstep with
    | allocated _ _ _ _ _ _ bytes fresh valid hint length zero =>
        have hself : contents F ref.index =
            some ⟨ref.generation, tag, allocFlags flags, none, bytes⟩ := by
          rw [hs', Function.update_self]
        exact ⟨ref, bytes, F, rfl, length, ha.alignOk, fresh, hint.1,
          ⟨hhealthy, hoff, valid, hself, rfl, hok'.hint, hok'.running rfl, hidle⟩, hs'⟩
    | refused _ _ no _ => cases no
    | unseen _ _ other => cases other

end Fresh

/-! ### Typed allocation -/

/-- The object that a typed allocation stores. -/
def typedObject (ref : RawRef) (flags : ℕ) (fn : Option ℕ) (bytes : List UInt8) : StoredObject :=
  ⟨ref.generation, 0, flags, fn, bytes⟩

section Make

variable {G F : GlobalState} {Ls : ℕ → List Piece} {ref : RawRef} {o : StoredObject} {T : CType}
  {image : ℕ → UInt8} {run : Callback}

/-- An aligned object is constructed where it is. -/
lemma Fresh.makeAt (h : Fresh F ref o) (run : Callback) (image : ℕ → UInt8)
    (hn : o.bytes.length = T.size) (ha : alignmentOk T.align = true)
    (hdvd : T.align ∣ (F.objects ref.index).address) :
    ∃ F', makeAt run F ref T image = (.ok, .ofRef false ref, F')
      ∧ F' = construct F (F.objects ref.index).address T.size image
      ∧ contents F' = Function.update (contents F) ref.index
        (some { o with bytes := imageBytes T.size image }) := by
  obtain ⟨Ls, hinv⟩ := h.healthy
  have hres := h.resolve hn.ge ha
  rw [if_pos hdvd] at hres
  refine ⟨_, ?_, rfl, ?_⟩
  · rw [PondMerge.makeAt, hres]
    rfl
  · rw [construct_writes h.object.1 (by rw [h.size, hn]), foldl_clientWrite_contents hinv,
      imageWrites_store h.stored hn.ge, ← hn, List.drop_length, List.append_nil]

/-- A misaligned one is given up. -/
lemma Fresh.makeAt_misaligned (h : Fresh F ref o) (hn : o.bytes.length = T.size)
    (ha : alignmentOk T.align = true) (hdvd : ¬ T.align ∣ (F.objects ref.index).address) :
    PondMerge.makeAt run F ref T image = (.invalidAlignment, .null, (free run F ref).2) := by
  have hres := h.resolve hn.ge ha
  rw [if_neg hdvd] at hres
  rw [PondMerge.makeAt, hres]
  rfl

omit [PmConfig] in
lemma ofRef_ref {r : RawRef} (h : r.poolHint ≠ crossHint) : (PmPtr.ofRef false r).ref = r := by
  rw [PmPtr.ofRef, dif_neg (by tauto)]

/-- A refused allocation changes nothing. -/
lemma alloc_refused {p size alignment flags tag : ℕ}
    (hno : (alloc G p size alignment flags tag).1 ≠ .ok) :
    (alloc G p size alignment flags tag).2.2 = G := by
  rcases alloc_cases G p size alignment flags tag with ⟨st, -, heq⟩ | ⟨need, blk, -, heq⟩
  · rw [heq]
  · rw [heq] at hno
    exact absurd rfl hno

lemma alignmentOk_le {a : ℕ} (ha : alignmentOk a = true) : a ≤ pmMaxAlignment := by
  rw [alignmentOk, decide_eq_true_eq] at ha
  exact ha.2.2

/-- `pm_make` behind its allocation. -/
lemma pmMake_allocated (hinv : GlobalInv G Ls) {p : ℕ}
    (hok : (alloc G p T.size T.align pmMovable 0).1 = .ok) (run : Callback) (image : ℕ → UInt8) :
    ∃ ref bytes F, alloc G p T.size T.align pmMovable 0 = (.ok, ref, F) ∧ bytes.length = T.size
      ∧ alignmentOk T.align = true ∧ contents G ref.index = none ∧ ref.poolHint = p
      ∧ Fresh F ref (typedObject ref pmMovable none bytes)
      ∧ contents F = Function.update (contents G) ref.index
        (some (typedObject ref pmMovable none bytes))
      ∧ pmMake run G p T image = PondMerge.makeAt run F ref T image := by
  obtain ⟨ref, bytes, F, heq, hlen, hal, hnone, hhint, hfresh, hcontents⟩ :=
    alloc_fresh hinv p T.size T.align pmMovable 0 hok
  have hle := alignmentOk_le hal
  refine ⟨ref, bytes, F, heq, hlen, hal, hnone, hhint, hfresh, hcontents, ?_⟩
  rw [pmMake, if_neg (by omega), heq]
  rfl

/-- `pm_make_pinned` behind its allocation and the registration of its thunk. -/
lemma pmMakePinned_allocated (hinv : GlobalInv G Ls) {p : ℕ}
    (hok : (alloc G p T.size T.align pmPinned 0).1 = .ok) (run : Callback) (thunk : ℕ)
    (image : ℕ → UInt8) :
    ∃ ref bytes F D, alloc G p T.size T.align pmPinned 0 = (.ok, ref, F)
      ∧ setDestroyFn F ref (some thunk) = (.ok, D) ∧ bytes.length = T.size
      ∧ alignmentOk T.align = true ∧ contents G ref.index = none ∧ ref.poolHint = p
      ∧ Fresh D ref (typedObject ref pmPinned (some thunk) bytes)
      ∧ (D.objects ref.index).address = (F.objects ref.index).address
      ∧ contents D = Function.update (contents G) ref.index
        (some (typedObject ref pmPinned (some thunk) bytes))
      ∧ pmMakePinned run thunk G p T image = PondMerge.makeAt run D ref T image := by
  obtain ⟨ref, bytes, F, heq, hlen, hal, hnone, hhint, hfresh, hcontents⟩ :=
    alloc_fresh hinv p T.size T.align pmPinned 0 hok
  have hle := alignmentOk_le hal
  obtain ⟨D, hset, hfreshD, haddr, hcontentsD⟩ :=
    hfresh.setDestroyFn (alignmentOk_one hal) (show allocFlags pmPinned &&& pmPinned ≠ 0 by decide)
      (some thunk)
  refine ⟨ref, bytes, F, D, heq, hset, hlen, hal, hnone, hhint, hfreshD, haddr, ?_, ?_⟩
  · rw [hcontentsD, hcontents, Function.update_idem]
    rfl
  · rw [pmMakePinned, if_neg (by omega), heq]
    dsimp only
    rw [hset]
    rfl

/-- `pm_make` succeeds exactly where `alloc` finds an aligned block, and then stores the object
that has been constructed; otherwise it leaves the store as it was.  Up to 8 bytes of alignment
every block will do. -/
theorem pmMake_stores (h : Reachable G) {p : ℕ} (hp : p ≠ crossHint) (run : Callback) (T : CType)
    (image : ℕ → UInt8) :
    let a := alloc G p T.size T.align pmMovable 0
    let r := pmMake run G p T image
    (a.1 = .ok → T.align ∣ (a.2.2.objects a.2.1.index).address →
      r.1 = .ok ∧ r.2.1.ref = a.2.1 ∧ contents G a.2.1.index = none
      ∧ contents r.2.2 = Function.update (contents G) a.2.1.index
        (some (typedObject a.2.1 pmMovable none (imageBytes T.size image))))
    ∧ (a.1 = .ok → ¬ T.align ∣ (a.2.2.objects a.2.1.index).address →
      r.1 = .invalidAlignment ∧ r.2.1 = .null ∧ contents r.2.2 = contents G)
    ∧ (a.1 ≠ .ok → r.1 ≠ .ok ∧ r.2.1 = .null ∧ r.2.2 = G)
    ∧ (T.align ∣ 8 → T.align ≤ pmMaxAlignment → r.1 = a.1) := by
  obtain ⟨Ls, hinv⟩ := h.healthy
  dsimp only
  by_cases hok : (alloc G p T.size T.align pmMovable 0).1 = .ok
  · obtain ⟨ref, bytes, F, heq, hlen, hal, hnone, hhint, hfresh, hcontents, hmake⟩ :=
      pmMake_allocated hinv hok run image
    rw [hmake, heq]
    dsimp only
    by_cases hdvd : T.align ∣ (F.objects ref.index).address
    · obtain ⟨F', hat, -, hF'⟩ := hfresh.makeAt run image hlen hal hdvd
      rw [hat]
      refine ⟨fun _ _ => ⟨rfl, ofRef_ref (hhint ▸ hp), hnone, ?_⟩, fun _ hno => absurd hdvd hno,
        fun hno => absurd rfl hno, fun _ _ => rfl⟩
      rw [hF', hcontents, Function.update_idem]
      rfl
    · rw [hfresh.makeAt_misaligned hlen hal hdvd]
      refine ⟨fun _ hyes => absurd hyes hdvd, fun _ _ => ⟨rfl, rfl, ?_⟩,
        fun hno => absurd rfl hno, fun h8 _ => ?_⟩
      · have hfn : (F.objects ref.index).destroyFn = none :=
          (congrArg StoredObject.destroyFn hfresh.object.2).symm
        -- the new object has no callback, so the rollback runs none
        have hplain : free run F ref = free (writingCallback []) F ref := by
          refine free_consults fun fn hsome => ?_
          rw [hfn] at hsome
          cases hsome
        have hgone := hfresh.freed (alignmentOk_one hal) []
        rw [show ∀ s : Store, s.callback (typedObject ref pmMovable none bytes) [] = s from
          fun s => rfl, hcontents, Function.update_idem, ← hnone, Function.update_eq_self] at hgone
        rw [hplain, hgone]
      · obtain ⟨Ls', hinv'⟩ := hfresh.healthy
        exact absurd (h8.trans (hinv'.address_dvd hfresh.object.1)) hdvd
  · refine ⟨fun hyes => absurd hyes hok, fun hyes => absurd hyes hok, fun _ => ?_, fun _ hle => ?_⟩
    · rw [pmMake]
      dsimp only
      split_ifs
      · exact ⟨(by simp), rfl, rfl⟩
      · exact ⟨hok, rfl, alloc_refused hok⟩
    · rw [pmMake, if_neg (by omega)]
      dsimp only
      rw [if_pos hok]

/-- `pm_make_pinned` succeeds exactly where `alloc` finds an aligned block.  Where it finds one
that is not aligned, the rollback runs the destroy thunk on bytes that nobody has constructed; up to
8 bytes of alignment this cannot happen. -/
theorem pmMakePinned_stores (h : Reachable G) {p : ℕ} (hp : p ≠ crossHint)
    (ws : List PayloadWrite) (thunk : ℕ) (T : CType) (image : ℕ → UInt8) :
    let a := alloc G p T.size T.align pmPinned 0
    let r := pmMakePinned (writingCallback ws) thunk G p T image
    (a.1 = .ok → T.align ∣ (a.2.2.objects a.2.1.index).address →
      r.1 = .ok ∧ r.2.1.ref = a.2.1 ∧ contents G a.2.1.index = none
      ∧ contents r.2.2 = Function.update (contents G) a.2.1.index
        (some (typedObject a.2.1 pmPinned (some thunk) (imageBytes T.size image))))
    ∧ (a.1 = .ok → ¬ T.align ∣ (a.2.2.objects a.2.1.index).address →
      r.1 = .invalidAlignment ∧ r.2.1 = .null
      ∧ ∃ bytes, bytes.length = T.size ∧ contents r.2.2 = Function.update
        (ws.foldl Store.write (Function.update (contents G) a.2.1.index
          (some (typedObject a.2.1 pmPinned (some thunk) bytes)))) a.2.1.index none)
    ∧ (a.1 ≠ .ok → r.1 ≠ .ok ∧ r.2.1 = .null ∧ r.2.2 = G)
    ∧ (T.align ∣ 8 → T.align ≤ pmMaxAlignment → r.1 = a.1) := by
  obtain ⟨Ls, hinv⟩ := h.healthy
  dsimp only
  by_cases hok : (alloc G p T.size T.align pmPinned 0).1 = .ok
  · obtain ⟨ref, bytes, F, D, heq, -, hlen, hal, hnone, hhint, hfresh, haddr, hcontents, hmake⟩ :=
      pmMakePinned_allocated hinv hok (writingCallback ws) thunk image
    rw [hmake, heq]
    dsimp only
    rw [← haddr]
    -- a misaligned block is rolled back with the thunk already set
    by_cases hdvd : T.align ∣ (D.objects ref.index).address
    · obtain ⟨F', hat, -, hF'⟩ :=
        hfresh.makeAt (writingCallback ws) image hlen hal hdvd
      rw [hat]
      refine ⟨fun _ _ => ⟨rfl, ofRef_ref (hhint ▸ hp), hnone, ?_⟩, fun _ hno => absurd hdvd hno,
        fun hno => absurd rfl hno, fun _ _ => rfl⟩
      rw [hF', hcontents, Function.update_idem]
      rfl
    · rw [hfresh.makeAt_misaligned hlen hal hdvd]
      refine ⟨fun _ hyes => absurd hyes hdvd, fun _ _ => ⟨rfl, rfl, bytes, hlen, ?_⟩,
        fun hno => absurd rfl hno, fun h8 _ => ?_⟩
      · rw [hfresh.freed (alignmentOk_one hal) ws, hcontents]
        rfl
      · obtain ⟨Ls', hinv'⟩ := hfresh.healthy
        exact absurd (h8.trans (hinv'.address_dvd hfresh.object.1)) hdvd
  · refine ⟨fun hyes => absurd hyes hok, fun hyes => absurd hyes hok, fun _ => ?_, fun _ hle => ?_⟩
    · rw [pmMakePinned]
      dsimp only
      split_ifs
      · exact ⟨(by simp), rfl, rfl⟩
      · exact ⟨hok, rfl, alloc_refused hok⟩
    · rw [pmMakePinned, if_neg (by omega)]
      dsimp only
      rw [if_pos hok]

end Make

/-! ### Destroy callbacks over a run -/

section Callbacks

variable {s s' : Store} {o : StoredObject} {i : ℕ} {e : Event}

omit [PmConfig] in
lemma Store.write_destroyFn (s : Store) (w : PayloadWrite) (i : ℕ) :
    (s.write w i).map (·.destroyFn) = (s i).map (·.destroyFn) := by
  rw [Store.write]
  cases hw : s w.slot with
  | none => rfl
  | some o =>
      dsimp only
      by_cases hi : i = w.slot
      · rw [hi, Function.update_self, hw]
        rfl
      · rw [Function.update_of_ne hi]

omit [PmConfig] in
lemma Store.foldl_write_destroyFn (s : Store) (ws : List PayloadWrite) (i : ℕ) :
    (ws.foldl Store.write s i).map (·.destroyFn) = (s i).map (·.destroyFn) := by
  induction ws generalizing s with
  | nil => rfl
  | cons w ws ih => rw [List.foldl_cons, ih, Store.write_destroyFn]

/-- The slot that a successful `set_destroy_fn` has given another callback. -/
def Event.callbackSet : Event → Option ℕ
  | (.setDestroyFn ref _, .status .ok) => some ref.index
  | _ => none

omit [PmConfig] in
lemma Event.callbackSet_op (h : e.callbackSet = some i) : ∃ ref fn, e.1 = .setDestroyFn ref fn := by
  obtain ⟨op, r⟩ := e
  cases op with
  | setDestroyFn ref fn => exact ⟨ref, fn, rfl⟩
  | _ => cases h

omit [PmConfig] in
/-- One step keeps the callback of an object that it neither frees nor gives another. -/
lemma StoreStep.destroyFn (h : StoreStep s e s') (ho : s i = some o) (hfree : e.freed ≠ some i)
    (hset : e.callbackSet ≠ some i) :
    (s' i).map (·.destroyFn) = some o.destroyFn := by
  have hsame : (s i).map (·.destroyFn) = some o.destroyFn := by
    rw [ho]
    rfl
  cases h with
  | allocated p size alignment flags tag ref bytes fresh valid hint length zero =>
      have hne : i ≠ ref.index := by
        rintro rfl
        rw [fresh] at ho
        cases ho
      rwa [Function.update_of_ne hne]
  | freed ref ws v named =>
      have hne : i ≠ ref.index := fun heq => hfree (by rw [Event.freed, heq])
      rw [Function.update_of_ne hne, Store.callback]
      split_ifs
      · rwa [Store.foldl_write_destroyFn]
      · exact hsame
  | destroyFnSet ref fn v named pinned =>
      have hne : i ≠ ref.index := fun heq => hset (by rw [Event.callbackSet, heq])
      rwa [Function.update_of_ne hne]
  | borrowed ref n a addr v named inside => exact hsame
  | written w => rwa [Store.write_destroyFn]
  | refused op r no client => exact hsame
  | unseen op r other => exact hsame

omit [PmConfig] in
/-- Over a run. -/
lemma storeRun_destroyFn {es : List Event} (hrun : Run store s es s') (ho : s i = some o)
    (hfree : ∀ e ∈ es, e.freed ≠ some i)
    (hset : ∀ e ∈ es, e.callbackSet ≠ some i) :
    (s' i).map (·.destroyFn) = some o.destroyFn := by
  induction hrun generalizing o with
  | nil =>
      rw [ho]
      rfl
  | cons hstep _ ih =>
      have hfn := StoreStep.destroyFn hstep ho (hfree _ List.mem_cons_self)
        (hset _ List.mem_cons_self)
      obtain ⟨o₁, ho₁, -⟩ := StoreStep.persists hstep ho (hfree _ List.mem_cons_self)
      rw [ho₁, Option.map_some, Option.some.injEq] at hfn
      rw [← hfn]
      exact ih ho₁ (fun e he => hfree e (List.mem_cons_of_mem _ he))
        fun e he => hset e (List.mem_cons_of_mem _ he)

end Callbacks

/-! ### The life of a pinned object -/

section Life

variable {G G₁ G₂ : GlobalState} {n i : ℕ}

/-- Never `2 ^ 32` borrows. -/
lemma BorrowRun.small (h : BorrowRun G n) : n < 2 ^ 32 := by
  cases h with
  | init => omega
  | step op hn _ => exact hn

/-- Operations that begin no borrow. -/
lemma BorrowRun.quiet (h : BorrowRun G (allBorrows G)) {ops : List Op}
    (hno : ∀ op ∈ ops, ∀ ref n a, op ≠ .borrowBegin ref n a) :
    BorrowRun (PondMerge.runOps G ops) (allBorrows (PondMerge.runOps G ops)) := by
  induction ops generalizing G with
  | nil => exact h
  | cons op ops ih =>
      have hfit : BorrowsFit G op := borrowsFit_of_small h.small fun ref n a heq =>
        absurd heq (hno op List.mem_cons_self ref n a)
      exact ih (h.next hfit).1 fun op' hop => hno op' (List.mem_cons_of_mem _ hop)

/-- A pinned object that has been made is where it was constructed. -/
lemma pmMakePinned_made {run : Callback} {thunk p : ℕ} {T : CType} {image : ℕ → UInt8}
    {q : PmPtr false} (h : BorrowRun G (allBorrows G)) (hp : p ≠ crossHint)
    (hmake : pmMakePinned run thunk G p T image = (.ok, q, G₁)) :
    BorrowRun G₁ (allBorrows G₁)
      ∧ contents G₁ q.ref.index = some (typedObject q.ref pmPinned (some thunk)
        (imageBytes T.size image)) := by
  obtain ⟨Ls, hinv⟩ := h.reachable.healthy
  have hok : (alloc G p T.size T.align pmPinned 0).1 = .ok := by
    by_contra hno
    rw [pmMakePinned] at hmake
    dsimp only at hmake
    split_ifs at hmake
    · cases hmake
    · exact hno (Prod.mk.inj hmake).1
  obtain ⟨ref, bytes, F, D, heq, hset, hlen, hal, -, hhint, hfresh, -, hcontents, hat⟩ :=
    pmMakePinned_allocated hinv hok run thunk image
  rw [hat] at hmake
  have hdvd : T.align ∣ (D.objects ref.index).address := by
    by_contra hno
    rw [hfresh.makeAt_misaligned hlen hal hno] at hmake
    cases hmake
  obtain ⟨F', hmade, hF', hstored⟩ := hfresh.makeAt run image hlen hal hdvd
  rw [hmade] at hmake
  obtain ⟨-, hq, rfl⟩ : Status.ok = .ok ∧ PmPtr.ofRef false ref = q ∧ F' = G₁ := by
    simpa using hmake
  have href : q.ref = ref := by
    rw [← hq, ofRef_ref (hhint ▸ hp)]
  rw [href]
  refine ⟨?_, by rw [hstored, Function.update_self]; rfl⟩
  -- the three steps as a run
  have hrun : F' = runOps G (.alloc p T.size T.align pmPinned 0 :: .setDestroyFn ref (some thunk) ::
      (imageWrites ref.index T.size image).map .write) := by
    rw [runOps, List.foldl_cons, List.foldl_cons, List.foldl_map]
    simp only [step, heq, hset]
    rw [hF', construct_writes hfresh.object.1 (by rw [hfresh.size]; exact hlen.ge)]
  rw [hrun]
  refine h.quiet fun op hop ref' n a hb => ?_
  subst hb
  simp at hop

/-- A pinned object lives and dies where it was constructed: over any run that does not free it or
change its callback it keeps its address and the bytes that nobody writes, and destroying it asks
the destructor for nothing but what it does at that address.  A destruction that is refused keeps
the pointer and the state. -/
theorem pinned_lifecycle {run : Callback} {thunk p : ℕ} {T : CType} {image : ℕ → UInt8}
    {q : PmPtr false} {es : List Event} (h : BorrowRun G (allBorrows G)) (hp : p ≠ crossHint)
    (hmake : pmMakePinned run thunk G p T image = (.ok, q, G₁))
    (hrun : Run sequential G₁ es G₂) (hfree : ∀ e ∈ es, e.freed ≠ some q.ref.index)
    (hset : ∀ e ∈ es, e.callbackSet ≠ some q.ref.index) :
    ∃ a, (G₁.objects q.ref.index).address = a ∧ (∀ k < T.size, G₁.mem (a + k) = image k)
      ∧ LiveObject G₂ q.ref.index ∧ (G₂.objects q.ref.index).address = a
      ∧ (∀ k < T.size, (∀ e ∈ es, ∀ w ∈ e.1.writes, ¬ (w.slot = q.ref.index ∧ w.pos = k)) →
        G₂.mem (a + k) = image k)
      ∧ ∀ (cross : Bool) (q' : PmPtr cross), q'.ref.index = q.ref.index →
        (∃ st, st ≠ .ok ∧ ∀ run', pmDestroy run' G₂ q' = (st, q', G₂))
        ∨ ∀ run' ws, run' thunk a (markDestroying G₂ q.ref.index) =
            ws.foldl clientWrite (markDestroying G₂ q.ref.index) →
          pmDestroy run' G₂ q' = (.ok, .null, step G₂ (.free q'.ref ws))
            ∧ contents (step G₂ (.free q'.ref ws)) q.ref.index = none := by
  obtain ⟨h₁, hstored⟩ := pmMakePinned_made h hp hmake
  obtain ⟨hlive, ho⟩ := contents_eq_some.mp hstored
  have hpin : (G₁.objects q.ref.index).pinned = true := by
    have hflags : (G₁.objects q.ref.index).flags = pmPinned := congrArg StoredObject.flags ho
    rw [ObjectDesc.pinned, hflags]
    decide
  have hbytes : ∀ k < T.size, G₁.mem ((G₁.objects q.ref.index).address + k) = image k := by
    intro k hk
    have hlen := congrArg (fun o => o.bytes.length) ho
    have hget := congrArg (fun o => o.bytes[k]?) ho
    simp only [typedObject, imageBytes, List.length_map, List.length_range, stored_length] at hlen
    simp only [typedObject, imageBytes, List.getElem?_map, List.getElem?_range hk] at hget
    rw [stored_get (by omega)] at hget
    exact Option.some.inj hget
  -- pinned, so no maintenance of the run moves it
  have haddr := h₁.pinned hrun hlive hpin hfree
  obtain ⟨hlive₂, hp₂⟩ := h₁.persists hrun hlive hfree
  obtain ⟨Ls, hinv₂⟩ := (h₁.run hrun).reachable.healthy
  have hsize : (G₁.objects q.ref.index).size = T.size := by
    have hlen := congrArg (fun o => o.bytes.length) ho
    simpa [typedObject, imageBytes, stored_length] using hlen
  refine ⟨_, rfl, hbytes, hlive₂, haddr, fun k hk hw => ?_, fun cross q' hindex => ?_⟩
  · have hbyte := hp₂.bytes k fun w hw' => by
      obtain ⟨e, he, hwe⟩ := List.mem_flatMap.mp hw'
      exact hw e he w hwe
    rw [stored_get (by rw [hp₂.size, hsize]; exact hk), stored_get (by rw [hsize]; exact hk),
      Option.some.injEq, haddr, hbytes k hk] at hbyte
    exact hbyte
  · -- nobody has replaced the thunk
    have hfn : (G₂.objects q.ref.index).destroyFn = some thunk := by
      have hkeep := storeRun_destroyFn (h₁.store hrun) hstored hfree hset
      rw [contents_live hlive₂, Option.map_some, Option.some.injEq] at hkeep
      exact hkeep
    by_cases hf : Freeable G₂ q'.ref
    · refine Or.inr fun run' ws hcall => ?_
      -- `free` consults the callback at this one place
      have heq : free run' G₂ q'.ref = free (writingCallback ws) G₂ q'.ref := by
        refine free_consults fun fn hsome => ?_
        rw [hindex, hfn, Option.some.injEq] at hsome
        rw [hindex, ← hsome, haddr]
        exact hcall
      have hok : (free (writingCallback ws) G₂ q'.ref).1 = .ok := by
        obtain ⟨hoff, ⟨addr, hck⟩, hidle⟩ := hf
        rw [free_healthy hinv₂]
        dsimp only
        rw [if_neg (not_not.mpr hoff), hck]
        dsimp only
        rw [if_neg (not_not.mpr hidle)]
      refine ⟨?_, ?_⟩
      · rw [pmDestroy, heq, hok]
        rfl
      · have hstep := step_contents hinv₂ (.free q'.ref ws)
        refine StoreStep.freed_none hstep ?_
        rw [reply, hok, ← hindex]
        rfl
    · obtain ⟨st, hst, hsame⟩ := free_not_freeable hf
      refine Or.inl ⟨st, hst, fun run' => ?_⟩
      rw [pmDestroy, hsame run']
      dsimp only
      rw [if_neg hst]

end Life

/-! ### A word in the second of two neighbours -/

/-- A type of one word. -/
def word : CType := ⟨8, 8, by decide, by decide, by decide⟩

/-- What its constructor writes. -/
def counting (k : ℕ) : UInt8 := (k + 1).toUInt8

/-- A movable word. -/
def movableWord : Status × PmPtr false × GlobalState :=
  letI := defaultConfig
  pmMake (writingCallback []) neighbours 1 word counting

/-- A pinned word with thunk `5`. -/
def madeWord : Status × PmPtr false × GlobalState :=
  letI := defaultConfig
  pmMakePinned (writingCallback []) 5 neighbours 1 word counting

omit [PmConfig] in
set_option maxRecDepth 100000 in
lemma neighbours_alloc :
    letI := defaultConfig
    (∀ flags ∈ [pmMovable, pmPinned],
      (alloc neighbours 1 word.size word.align flags 0).1 = .ok
      ∧ (alloc neighbours 1 word.size word.align flags 0).2.1 = ⟨2, 1, 1, 0⟩
      ∧ word.align ∣ ((alloc neighbours 1 word.size word.align flags 0).2.2.objects
        (alloc neighbours 1 word.size word.align flags 0).2.1.index).address)
      ∧ madeWord.1 = .ok ∧ madeWord.2.1.ref.index = 2 ∧ allBorrows madeWord.2.2 = 0 := by
  decide +kernel

omit [PmConfig] in
/-- The object that stands for it. -/
lemma typedObject_word (flags : ℕ) (fn : Option ℕ) :
    typedObject ⟨2, 1, 1, 0⟩ flags fn (imageBytes word.size counting) =
      ⟨1, 0, flags, fn, [1, 2, 3, 4, 5, 6, 7, 8]⟩ := rfl

/-- Types of 16 bytes of alignment are admitted, and blocks are as they were. -/
@[reducible] def sixteenAligned : PmConfig := { defaultConfig with pmMaxAlignment := 16 }

/-- The next block of this pool has its payload 8 bytes behind such an address. -/
def offByEight : GlobalState :=
  letI := sixteenAligned
  runOps (init .zero smallZone).2 [.createPool 1, .alloc 0 16 8 0 1]

/-- A type that asks for one. -/
def wide : CType := ⟨32, 16, by decide, by decide, by decide⟩

omit [PmConfig] in
set_option maxRecDepth 100000 in
lemma offByEight_alloc :
    letI := sixteenAligned
    ∀ flags ∈ [pmMovable, pmPinned],
      (alloc offByEight 0 wide.size wide.align flags 0).1 = .ok
      ∧ (alloc offByEight 0 wide.size wide.align flags 0).2.1.index = 1
      ∧ ¬ wide.align ∣ ((alloc offByEight 0 wide.size wide.align flags 0).2.2.objects
        (alloc offByEight 0 wide.size wide.align flags 0).2.1.index).address := by
  decide +kernel

omit [PmConfig] in
set_option maxRecDepth 100000 in
lemma offByEight_first :
    letI := sixteenAligned
    0 < pmMaxObjects ∧ (offByEight.objects 0).state = .live ∧ (offByEight.objects 0).size = 16 := by
  decide +kernel

omit [PmConfig] in
lemma offByEight_reachable : letI := sixteenAligned; Reachable offByEight :=
  letI := sixteenAligned
  (Reachable.init .zero smallZone (by decide)).runOps _

omit [PmConfig] in
/-- A word is stored; a wide object is given up, and the store is as it was. -/
theorem pmMake_stores_word :
    @contents defaultConfig movableWord.2.2 = Function.update (@contents defaultConfig neighbours) 2
        (some ⟨1, 0, pmMovable, none, [1, 2, 3, 4, 5, 6, 7, 8]⟩)
    ∧ letI := sixteenAligned
      (pmMake (writingCallback []) offByEight 0 wide counting).1 = .invalidAlignment
        ∧ contents (pmMake (writingCallback []) offByEight 0 wide counting).2.2 =
          contents offByEight := by
  refine ⟨?_, ?_⟩
  · obtain ⟨hok, href, hdvd⟩ := neighbours_alloc.1 pmMovable (by simp)
    obtain ⟨hmade, -⟩ := @pmMake_stores defaultConfig neighbours
      (@BorrowRun.reachable defaultConfig _ _ neighbours_borrowRun) 1 (by decide)
      (@writingCallback defaultConfig []) word counting
    have hstored := (hmade hok hdvd).2.2.2
    rw [href, typedObject_word] at hstored
    dsimp only at hstored
    rw [movableWord]
    exact hstored
  · obtain ⟨hok, -, hno⟩ := offByEight_alloc pmMovable (by simp)
    obtain ⟨-, hgivenUp, -⟩ := @pmMake_stores sixteenAligned offByEight offByEight_reachable 0
      (by decide) (@writingCallback sixteenAligned []) wide counting
    obtain ⟨hstatus, -, hcontents⟩ := hgivenUp hok hno
    exact ⟨hstatus, hcontents⟩

omit [PmConfig] in
/-- So is a pinned word; the thunk of a wide one runs and writes into the first object, and nothing
is left in its slot. -/
theorem pmMakePinned_stores_word :
    @contents defaultConfig madeWord.2.2 = Function.update (@contents defaultConfig neighbours) 2
        (some ⟨1, 0, pmPinned, some 5, [1, 2, 3, 4, 5, 6, 7, 8]⟩)
    ∧ letI := sixteenAligned
      let r := pmMakePinned (writingCallback [⟨0, 3, 9⟩]) 5 offByEight 0 wide counting
      r.1 = .invalidAlignment ∧ contents r.2.2 1 = none
        ∧ (contents r.2.2 0).map (fun o => o.bytes[3]?) = some (some 9) := by
  refine ⟨?_, ?_⟩
  · let _ := defaultConfig
    obtain ⟨hok, href, hdvd⟩ := neighbours_alloc.1 pmPinned (by simp)
    obtain ⟨hmade, -⟩ := pmMakePinned_stores neighbours_borrowRun.reachable (p := 1) (by decide)
      [] 5 word counting
    have hstored := (hmade hok hdvd).2.2.2
    rw [href, typedObject_word] at hstored
    dsimp only at hstored
    rw [madeWord]
    exact hstored
  · let _ := sixteenAligned
    obtain ⟨hok, hindex, hno⟩ := offByEight_alloc pmPinned (by simp)
    obtain ⟨-, hgivenUp, -⟩ := pmMakePinned_stores offByEight_reachable (p := 0) (by decide)
      [⟨0, 3, 9⟩] 5 wide counting
    obtain ⟨hstatus, -, bytes, -, hcontents⟩ := hgivenUp hok hno
    rw [hindex] at hcontents
    refine ⟨hstatus, ?_, ?_⟩
    · rw [hcontents, Function.update_self]
    · -- the callback finds the first object, which has a byte 3, beside the one given up
      obtain ⟨hslot, hlive, hsize⟩ := offByEight_first
      rw [hcontents, Function.update_of_ne Nat.zero_ne_one, List.foldl_cons, List.foldl_nil,
        Store.write, Function.update_of_ne Nat.zero_ne_one, contents_live ⟨hslot, hlive⟩]
      dsimp only
      rw [Function.update_self, Option.map_some, List.getElem?_set_self (by
        simp [ObjectDesc.stored, hsize])]

/-- The word's pool is compacted, and then the other one merged into it. -/
def moveAround : List Op := [.compact 1 none 5, .merge 0 1]

omit [PmConfig] in
/-- What the state before and behind the moves is made of. -/
lemma madeWord_ok :
    letI := defaultConfig
    madeWord = (.ok, madeWord.2.1, madeWord.2.2) := by
  rw [← neighbours_alloc.2.1]

omit [PmConfig] in
/-- A run that frees and writes nothing. -/
lemma madeWord_run :
    letI := defaultConfig
    Run sequential madeWord.2.2 (eventsOf madeWord.2.2 moveAround)
        (runOps madeWord.2.2 moveAround)
      ∧ ∀ e ∈ eventsOf madeWord.2.2 moveAround, (∀ i, e.freed ≠ some i) ∧ e.1.writes = []
        ∧ ∀ i, e.callbackSet ≠ some i := by
  let _ := defaultConfig
  obtain ⟨hrun₁, -⟩ := pmMakePinned_made neighbours_borrowRun (p := 1) (by decide) madeWord_ok
  have hlen : allBorrows madeWord.2.2 + moveAround.length < 2 ^ 32 := by
    rw [neighbours_alloc.2.2.2]
    decide
  refine ⟨hrun₁.sequential hlen, fun e he => ?_⟩
  have hop := mem_eventsOf he
  rw [moveAround] at hop
  have hcases : e.1 = .compact 1 none 5 ∨ e.1 = .merge 0 1 := by simpa using hop
  refine ⟨fun i hfreed => ?_, ?_, fun i hset => ?_⟩
  · obtain ⟨ref, ws, heq⟩ := Event.freed_op hfreed
    rw [heq] at hcases
    simp at hcases
  · rcases hcases with heq | heq <;> (rw [heq]; rfl)
  · obtain ⟨ref, fn, heq⟩ := Event.callbackSet_op hset
    rw [heq] at hcases
    simp at hcases

omit [PmConfig] in
theorem pinned_lifecycle_word :
    letI := defaultConfig
    ∃ a, (madeWord.2.2.objects 2).address = a
      ∧ ((runOps madeWord.2.2 moveAround).objects 2).address = a
      ∧ ∀ k < 8, (runOps madeWord.2.2 moveAround).mem (a + k) = counting k := by
  let _ := defaultConfig
  obtain ⟨hrun, hes⟩ := madeWord_run
  obtain ⟨a, haddr, -, -, haddr', hbytes, -⟩ := pinned_lifecycle neighbours_borrowRun (p := 1)
    (by decide) madeWord_ok hrun (fun e he => (hes e he).1 _)
    fun e he => (hes e he).2.2 _
  rw [neighbours_alloc.2.2.1] at haddr haddr'
  refine ⟨a, haddr, haddr', fun k hk => hbytes k hk fun e he w hw => ?_⟩
  rw [(hes e he).2.1] at hw
  cases hw

end PondMerge
