import PondMerge.Model.Reads
import PondMerge.Operations.Soundness

/-!
Where `validate` and `get_stats` read, for arbitrary contents of the pool's metadata, of the
descriptor table and of the zone.

* `ListCursor`, `LeavesRoom`: the offsets a free-list walk can meet, and those with room for the
  words read behind them.
* `auditPoolBinsZ_eq`, `validateZ_eq`: the audit reads inside the zone when the window lies
  in it and every list cursor and back link leaves room for the words read behind it.
* `freeStatsZ_eq`: so does `get_stats`.
-/

namespace PondMerge

open ByteMemory LinkedList

variable [PmConfig]

/-! ### Accesses -/

section Accesses

variable {G : GlobalState} {P : Pool}

omit [PmConfig] in
lemma loadZ_eq {o k : ℕ} (h : o + k + 4 ≤ G.zoneSize) :
    loadZ G (ptrOf G.zone o + k) = some (load32 G.mem (ptrOf G.zone o + k)) := by
  rw [loadZ, ptrOf, if_pos (by omega)]

omit [PmConfig] in
lemma loadZ_header {o : ℕ} (h : o + 4 ≤ G.zoneSize) :
    loadZ G (G.zone + o) = some (load32 G.mem (G.zone + o)) :=
  loadZ_eq (o := o) (k := 0) h

omit [PmConfig] in
lemma loadZ_beyond {o k : ℕ} (h : G.zoneSize < o + k + 4) :
    loadZ G (ptrOf G.zone o + k) = none := by
  rw [loadZ, ptrOf, if_neg (by omega)]

lemma descZ_eq {i : ℕ} (h : i < pmMaxObjects) : descZ G i = some (G.objects i) := if_pos h

lemma headZ_eq {f s : ℕ} (hf : f < flCount) (hs : s < pmSlCount) :
    headZ P f s = some (P.bins.head f s) := if_pos ⟨hf, hs⟩

lemma slBitmapZ_eq {f : ℕ} (hf : f < flCount) : slBitmapZ P f = some (P.bins.slBitmap f) :=
  if_pos hf

omit [PmConfig] in
/-- A run of accesses that all succeed. -/
lemma mapM_eq {α : Type} {f : ℕ → Option α} {g : ℕ → α} {l : List ℕ}
    (h : ∀ i ∈ l, f i = some (g i)) : l.mapM f = some (l.map g) := by
  induction l with
  | nil => rfl
  | cons i l ih =>
      rw [List.mapM_cons, h i (by simp), ih fun j hj => h j (by simp [hj])]
      rfl

end Accesses

/-! ### The live-slot list -/

section Slots

variable {G : GlobalState} {P : Pool} {pid : ℕ}

/-- The walk checks an index before it reads the descriptor. -/
lemma collectWalkZ_eq (fuel cap prev idx : ℕ) :
    collectWalkZ G pid fuel cap prev idx = some (collectWalk G pid fuel cap prev idx) := by
  induction fuel generalizing cap prev idx with
  | zero => rfl
  | succ fuel ih =>
      rw [collectWalkZ, collectWalk]
      simp only [apply_ite some]
      refine ite_congr rfl (fun _ => rfl) fun _ => ite_congr rfl (fun _ => rfl) fun hidx => ?_
      rw [descZ_eq (by omega), Option.bind_eq_bind, Option.bind_some, ih]
      rfl

lemma collectLiveSortedZ_eq (cap : ℕ) :
    collectLiveSortedZ G P pid cap = some (collectLiveSorted G P pid cap) := by
  rw [collectLiveSortedZ, collectLiveSorted, collectWalkZ_eq]
  cases hw : collectWalk G pid (pmMaxObjects + 1) cap noOrder P.orderHead with
  | none => rfl
  | some l =>
      have hlt : ∀ i ∈ l, i < pmMaxObjects := fun i hi => ((collectWalk_sound hw).2.1 i hi).1
      have hlt' : ∀ i ∈ collectSort G l, i < pmMaxObjects := fun i hi =>
        hlt i ((collectSort_perm G hlt).mem_iff.mp hi)
      show (do
        let _ ← l.mapM (descZ G)
        let _ ← (collectSort G l).mapM (descZ G)
        some (if distinctAddresses G (collectSort G l) then some (collectSort G l) else none))
          = _
      rw [mapM_eq fun i hi => descZ_eq (hlt i hi),
        mapM_eq fun i hi => descZ_eq (hlt' i hi)]
      rfl

/-- Every slot the enumeration returns lies in the table. -/
lemma collectLiveSorted_lt {cap : ℕ} {slots : List ℕ}
    (h : collectLiveSorted G P pid cap = some slots) : ∀ i ∈ slots, i < pmMaxObjects := by
  rw [collectLiveSorted] at h
  cases hw : collectWalk G pid (pmMaxObjects + 1) cap noOrder P.orderHead with
  | none =>
      rw [hw] at h
      cases h
  | some l =>
      rw [hw] at h
      have hlt : ∀ i ∈ l, i < pmMaxObjects := fun i hi => ((collectWalk_sound hw).2.1 i hi).1
      intro i hi
      dsimp only at h
      split_ifs at h with hd
      obtain rfl := Option.some.inj h
      exact hlt i ((collectSort_perm G hlt).mem_iff.mp hi)

end Slots

/-! ### Blocks -/

section Blocks

variable {G : GlobalState} {startOff endOff : ℕ}

lemma prevLinkOkZ_eq {boff : ℕ} (h : boff + 8 ≤ G.zoneSize) :
    prevLinkOkZ G boff startOff = some (prevLinkOk G boff startOff) := by
  have hload : loadZ G (G.zone + boff + 4) = some (load32 G.mem (G.zone + boff + 4)) :=
    loadZ_eq (k := 4) h
  have hge := PmConfig.minBlock_ge
  rw [prevLinkOkZ, prevLinkOk, hload]
  generalize load32 G.mem (G.zone + boff + 4) = psize
  show (if psize = 0 then some true
    else if psize < pmMinBlock ∨ boff - startOff < psize then some false
    else (loadZ G (G.zone + (boff - psize))).bind fun header =>
      some (decide (header / 2 * 2 = psize))) = _
  split_ifs with h0 hsmall
  · simp [h0]
  · exact congrArg some (decide_eq_false (by omega)).symm
  · rw [loadZ_header (by omega)]
    refine congrArg some (decide_eq_decide.mpr ?_)
    rw [blkSizeOf]
    constructor
    · exact fun heq => .inr ⟨by omega, by omega, heq⟩
    · exact fun hor => (hor.resolve_left h0).2.2

/-- A descriptor is screened before its header is read. -/
lemma validateSlotZ_eq (hwin : startOff + pmMinBlock ≤ endOff → endOff ≤ G.zoneSize)
    (prevEnd : ℕ)
    (d : ObjectDesc) :
    validateSlotZ G startOff endOff prevEnd d
      = some (validateSlot G startOff endOff prevEnd d) := by
  have hge := PmConfig.minBlock_ge
  rw [validateSlotZ, validateSlot]
  split_ifs with hcons haddr hrange hprev
  · exact congrArg some (decide_eq_false (by simp_all)).symm
  · exact congrArg some (decide_eq_false (by omega)).symm
  · refine congrArg some (decide_eq_false fun h => ?_).symm
    rcases hrange with hrange | hrange
    · exact absurd h.2.2.1 (by simpa using hrange)
    · exact absurd h.2.2.2.1 (by simpa using hrange)
  · exact congrArg some (decide_eq_false (by omega)).symm
  · simp only [Bool.not_eq_true', not_or, Bool.not_eq_false] at hcons hrange
    obtain ⟨hblock, hpay⟩ := hrange
    have hcons' := hcons
    rw [descBlockConsistent, decide_eq_true_eq] at hcons'
    have hblock' := hblock
    rw [rangeInPool, decide_eq_true_eq] at hblock'
    have hin : d.address - G.zone - 8 + 8 ≤ G.zoneSize := by
      have := hwin (by omega)
      omega
    rw [loadZ_header (by omega)]
    show (if _ then some false else prevLinkOkZ G (d.address - G.zone - 8) startOff) = _
    rw [prevLinkOkZ_eq hin]
    split_ifs with hhead
    · refine congrArg some (decide_eq_false fun h => ?_).symm
      obtain ⟨-, -, -, -, -, hfree, hsize, -⟩ := h
      rcases hhead with hodd | hne
      · exact absurd hfree (by simp [blkIsFree, hodd])
      · exact hne hsize
    · refine congrArg some ?_
      push Not at hhead
      rw [Bool.eq_iff_iff, decide_eq_true_eq]
      constructor
      · exact fun h => ⟨hcons, by omega, hblock, hpay, by omega,
          by simp [blkIsFree, hhead.1], hhead.2, h⟩
      · exact fun h => h.2.2.2.2.2.2.2

lemma validateLiveZ_eq (hwin : startOff + pmMinBlock ≤ endOff → endOff ≤ G.zoneSize)
    {l : List ℕ} (hl : ∀ i ∈ l, i < pmMaxObjects) (prevEnd used : ℕ) :
    validateLiveZ G startOff endOff l prevEnd used
      = some (validateLive G startOff endOff l prevEnd used) := by
  induction l generalizing prevEnd used with
  | nil => rfl
  | cons i l ih =>
      rw [validateLiveZ, descZ_eq (hl i (by simp)), validateLive]
      show (validateSlotZ G startOff endOff prevEnd (G.objects i)).bind _ = _
      rw [validateSlotZ_eq hwin, Option.bind_some, apply_ite some]
      exact ite_congr rfl (fun _ => rfl) fun _ => ih (fun j hj => hl j (by simp [hj])) _ _

end Blocks

/-! ### Lists -/

section Lists

variable {G : GlobalState} {P : Pool}

/-- A window with room for a block ends inside the zone. -/
def WindowFits (G : GlobalState) (P : Pool) : Prop :=
  pmMinBlock ≤ poolCapacity G P → poolStartOff G P + poolCapacity G P ≤ G.zoneSize

/-- The cursors of the free-list walks: the bin heads, and what the blocks at cursors name as
their successors. -/
inductive ListCursor (G : GlobalState) (P : Pool) : ℕ → Prop
  | head {f s : ℕ} (hf : f < flCount) (hs : s < pmSlCount) : ListCursor G P (P.bins.head f s)
  | next {o : ℕ} (ho : ListCursor G P o) (hne : o ≠ nullOff) :
      ListCursor G P (blkNext G.mem (ptrOf G.zone o))

/-- An offset that has eight bytes left in the window has sixteen left in the zone. -/
def LeavesRoom (G : GlobalState) (P : Pool) (o : ℕ) : Prop :=
  poolStartOff G P ≤ o → o + 8 ≤ poolStartOff G P + poolCapacity G P → o + 16 ≤ G.zoneSize

/-- Every cursor of the free-list walks, and every back link found there, is roomy. -/
def ListsLeaveRoom (G : GlobalState) (P : Pool) : Prop :=
  ∀ o, ListCursor G P o → LeavesRoom G P o
    ∧ (o ≠ nullOff → LeavesRoom G P (blkPrev G.mem (ptrOf G.zone o)))

omit [PmConfig] in
lemma linkOkZ_eq {off link k : ℕ} (hroom : LeavesRoom G P link) (hk : k ≤ 12) :
    linkOkZ G (poolStartOff G P) (poolStartOff G P + poolCapacity G P) off link k
      = some (decide (link ≠ nullOff → rangeInPool (poolStartOff G P)
        (poolStartOff G P + poolCapacity G P) link 8
          ∧ load32 G.mem (ptrOf G.zone link + k) = off)) := by
  rw [linkOkZ]
  split_ifs with hnull hrange
  · exact congrArg some (decide_eq_true fun hne => absurd hnull hne).symm
  · exact congrArg some (decide_eq_false fun h => by
      simp [(h hnull).1] at hrange).symm
  · have hin := hrange
    simp only [Bool.not_eq_true', Bool.not_eq_false] at hin
    have hin' := hin
    rw [rangeInPool, decide_eq_true_eq] at hin'
    have := hroom hin'.1 (by omega)
    rw [loadZ_eq (by omega)]
    refine congrArg some (decide_eq_decide.mpr ⟨fun heq _ => ⟨hin, heq⟩, fun h => (h hnull).2⟩)

omit [PmConfig] in
/-- A screen whose failure makes the audit of a block fail. -/
lemma screened {c : Prop} [Decidable c] {x : Option Bool} {b : Bool} (hfail : c → b = false)
    (hpass : ¬ c → x = some b) : (if c then some false else x) = some b := by
  by_cases hc : c
  · rw [if_pos hc, hfail hc]
  · rw [if_neg hc, hpass hc]

/-- A block is screened before its words are read, and so are the two blocks it names. -/
lemma auditBlockZ_eq {f s off : ℕ} (hoff : LeavesRoom G P off)
    (hnext : LeavesRoom G P (blkNext G.mem (ptrOf G.zone off)))
    (hprev : LeavesRoom G P (blkPrev G.mem (ptrOf G.zone off))) :
    auditBlockZ G (poolStartOff G P) (poolStartOff G P + poolCapacity G P) f s off
      = some (auditBlock G (poolStartOff G P) (poolStartOff G P + poolCapacity G P) f s off) := by
  have hge := PmConfig.minBlock_ge
  rw [auditBlockZ, auditBlock]
  refine screened (fun hrange => decide_eq_false fun h => by simp [h.1] at hrange) fun hrange => ?_
  have hin : rangeInPool (poolStartOff G P) (poolStartOff G P + poolCapacity G P) off 8 = true := by
    simpa using hrange
  have hin' := hin
  rw [rangeInPool, decide_eq_true_eq] at hin'
  have hzone := hoff hin'.1 (by omega)
  rw [show loadZ G (ptrOf G.zone off) = some (load32 G.mem (ptrOf G.zone off)) from
    loadZ_header (by omega), Option.bind_eq_bind, Option.bind_some]
  refine screened (fun hsize => decide_eq_false fun h => ?_) fun hsize => ?_
  · rw [blkSizeOf] at h
    omega
  refine screened (fun hfit => decide_eq_false fun h => ?_) fun hfit => ?_
  · have hbad := h.2.2.2.1
    rw [blkSizeOf] at hbad
    simp [hbad] at hfit
  refine screened (fun hodd => decide_eq_false fun h => hodd (of_decide_eq_true h.2.2.2.2.1))
    fun hodd => ?_
  refine screened (fun hbin => decide_eq_false fun h => ?_) fun hbin => ?_
  · obtain ⟨-, -, -, -, -, hf, hs, -⟩ := h
    exact hbin.elim (fun hne => hne hf) fun hne => hne hs
  -- the screens passed so far make the two link words readable
  have hblock : rangeInPool (poolStartOff G P) (poolStartOff G P + poolCapacity G P) off
      (blkSizeOf G.mem (ptrOf G.zone off)) = true := by simpa [blkSizeOf] using hfit
  have hblock' := hblock
  rw [rangeInPool, decide_eq_true_eq] at hblock'
  have hsize' : pmMinBlock ≤ blkSizeOf G.mem (ptrOf G.zone off) := by
    rw [blkSizeOf]
    omega
  simp only [loadZ_eq (show off + 12 + 4 ≤ G.zoneSize by omega),
    loadZ_eq (show off + 8 + 4 ≤ G.zoneSize by omega), Option.bind_eq_bind, Option.bind_some]
  rw [show load32 G.mem (ptrOf G.zone off + 12) = blkNext G.mem (ptrOf G.zone off) from rfl,
    show load32 G.mem (ptrOf G.zone off + 8) = blkPrev G.mem (ptrOf G.zone off) from rfl,
    linkOkZ_eq hnext (by omega), Option.bind_some, linkOkZ_eq hprev le_rfl, Option.bind_some,
    prevLinkOkZ_eq (by omega)]
  refine screened (fun hn => decide_eq_false fun h => ?_) fun hn => ?_
  · rw [Bool.not_eq_true', decide_eq_false_iff_not] at hn
    exact hn h.2.2.2.2.2.2.2.1
  refine screened (fun hp => decide_eq_false fun h => ?_) fun hp => congrArg some ?_
  · rw [Bool.not_eq_true', decide_eq_false_iff_not] at hp
    exact hp h.2.2.2.2.2.2.2.2.1
  rw [Bool.not_eq_true', decide_eq_false_iff_not, not_not] at hn hp
  rw [Bool.eq_iff_iff, decide_eq_true_eq]
  constructor
  · exact fun h => ⟨hin, hsize', by rw [blkSizeOf]; omega, hblock, decide_eq_true (by omega),
      by rw [blkSizeOf]; omega, by rw [blkSizeOf]; omega, hn, hp, h⟩
  · exact fun h => h.2.2.2.2.2.2.2.2.2

/-- The walk of one bin, from a cursor on. -/
lemma auditWalkZ_eq
    (hwin : WindowFits G P) (hroom : ListsLeaveRoom G P) {f s : ℕ} (fuel : ℕ) {off : ℕ}
    (hoff : ListCursor G P off) :
    auditWalkZ G (poolStartOff G P) (poolStartOff G P + poolCapacity G P) f s fuel off
      = some (auditWalk G (poolStartOff G P) (poolStartOff G P + poolCapacity G P) f s fuel
        off) := by
  induction fuel generalizing off with
  | zero => rfl
  | succ fuel ih =>
      have hge := PmConfig.minBlock_ge
      rw [auditWalkZ, auditWalk, apply_ite some, apply_ite some]
      refine ite_congr rfl (fun _ => rfl) fun hne => ?_
      have hnext := ListCursor.next hoff hne
      rw [auditBlockZ_eq (hroom _ hoff).1 (hroom _ hnext).1 ((hroom _ hoff).2 hne),
        Option.bind_eq_bind,
        Option.bind_some]
      refine ite_congr rfl (fun _ => rfl) fun hok => ?_
      obtain ⟨hlo, hhi, hmin, -⟩ := auditBlock_facts (by simpa using hok)
      rw [sizeAt] at hhi hmin
      have hzone := hwin (by omega)
      rw [show loadZ G (ptrOf G.zone off) = some (load32 G.mem (ptrOf G.zone off)) from
          loadZ_header (by omega), loadZ_eq (k := 12) (by omega), Option.bind_eq_bind,
        Option.bind_some, Option.bind_eq_bind, Option.bind_some,
        show load32 G.mem (ptrOf G.zone off + 12) = blkNext G.mem (ptrOf G.zone off) from rfl,
        ih hnext]
      rfl

/-- The bins of a pool, from some bin on. -/
lemma auditBinsZ_eq
    (hwin : WindowFits G P) (hroom : ListsLeaveRoom G P) (steps : ℕ) {l : List (ℕ × ℕ)}
    (hl : ∀ fs ∈ l, fs.1 < flCount ∧ fs.2 < pmSlCount) :
    auditBinsZ G P (poolStartOff G P) (poolStartOff G P + poolCapacity G P) steps l
      = some (auditBins G P (poolStartOff G P) (poolStartOff G P + poolCapacity G P) steps
        l) := by
  induction l with
  | nil => rfl
  | cons fs l ih =>
      obtain ⟨f, s⟩ := fs
      obtain ⟨hf, hs⟩ := hl (f, s) (by simp)
      rw [auditBinsZ, auditBins, headZ_eq hf hs, slBitmapZ_eq hf, Option.bind_eq_bind,
        Option.bind_some, Option.bind_eq_bind, Option.bind_some, apply_ite some]
      refine ite_congr rfl (fun _ => rfl) fun _ => ?_
      rw [auditWalkZ_eq hwin hroom steps (.head hf hs), Option.bind_some]
      cases auditWalk G (poolStartOff G P) (poolStartOff G P + poolCapacity G P) f s steps
        (P.bins.head f s) with
      | none => rfl
      | some n =>
          dsimp only
          rw [ih fun x hx => hl x (by simp [hx])]
          rfl

lemma auditPoolBinsZ_eq
    (hwin : WindowFits G P) (hroom : ListsLeaveRoom G P) :
    auditPoolBinsZ G P = some (auditPoolBins G P) := by
  rw [auditPoolBinsZ, auditPoolBins,
    auditBinsZ_eq hwin hroom _ fun fs hfs => mem_allBins.mp hfs, Option.bind_eq_bind,
    Option.bind_some]
  cases auditBins G P (poolStartOff G P) (poolStartOff G P + poolCapacity G P)
    (u32 (poolCapacity G P / pmMinBlock + 1)) allBins with
  | none => rfl
  | some total =>
      dsimp only
      rw [mapM_eq fun f hf => slBitmapZ_eq (List.mem_range.mp hf)]
      rfl

/-! ### `validate` -/

omit [PmConfig] in
/-- `for_each_free` follows a list that the bins audit has passed to its end. -/
lemma binOffsetsZ_eq {l : List ℕ} {fuel off : ℕ} (hl : IsChain (binNext G) nullOff off l)
    (hlen : l.length ≤ fuel) (hin : ∀ o ∈ l, o + 16 ≤ G.zoneSize) :
    binOffsetsZ G fuel off = some (binOffsets G fuel off) := by
  induction fuel generalizing off l with
  | zero =>
      obtain rfl := List.length_eq_zero_iff.mp (Nat.le_zero.mp hlen)
      rw [binOffsetsZ, if_pos (show off = nullOff from hl)]
      rfl
  | succ fuel ih =>
      cases l with
      | nil =>
          have hnull : off = nullOff := hl
          rw [binOffsetsZ, binOffsets, if_pos hnull, if_pos hnull]
      | cons o l =>
          obtain ⟨rfl, hne, htl⟩ := hl
          rw [binOffsetsZ, binOffsets, if_neg hne, if_neg hne,
            loadZ_eq (k := 12) (hin off (by simp)), Option.bind_eq_bind, Option.bind_some,
            show load32 G.mem (ptrOf G.zone off + 12) = binNext G off from rfl,
            ih htl (by simpa using hlen) fun o ho => hin o (by simp [ho])]
          rfl

/-- What the bins audit has passed lies in the zone. -/
lemma auditBlock_inZone
    (hwin : WindowFits G P) {f s off : ℕ}
    (h : auditBlock G (poolStartOff G P) (poolStartOff G P + poolCapacity G P) f s
      off = true) : off + 16 ≤ G.zoneSize := by
  obtain ⟨hlo, hhi, hmin, -⟩ := auditBlock_facts h
  have hge := PmConfig.minBlock_ge
  have := hwin (by omega)
  omega

lemma freeOffsetsZ_eq
    (hwin : WindowFits G P) {n : ℕ}
    (haudit : auditPoolBins G P = some n) :
    freeOffsetsZ G P (auditSteps G P) allBins = some (freeOffsets G P) := by
  obtain ⟨hall, -⟩ := auditPoolBins_iff.mp haudit
  have hl : ∀ fs ∈ allBins, fs.1 < flCount ∧ fs.2 < pmSlCount := fun fs hfs => mem_allBins.mp hfs
  rw [freeOffsets]
  generalize allBins = l at hl
  induction l with
  | nil => rfl
  | cons fs l ih =>
      obtain ⟨hf, hs⟩ := hl fs (by simp)
      obtain ⟨-, offs, hchain, hlen, hblock⟩ := hall fs.1 hf fs.2 hs
      rw [freeOffsetsZ, headZ_eq hf hs, Option.bind_eq_bind, Option.bind_some,
        binOffsetsZ_eq hchain hlen fun o ho => auditBlock_inZone hwin (hblock o ho),
        Option.bind_eq_bind, Option.bind_some, ih fun x hx => hl x (by simp [hx])]
      rfl

omit [PmConfig] in
lemma freeExtentZ_eq {off : ℕ} (h : off + 4 ≤ G.zoneSize) :
    freeExtentZ G off = some (freeExtent G off) := by
  rw [freeExtentZ, show loadZ G (ptrOf G.zone off) = some (load32 G.mem (ptrOf G.zone off)) from
    loadZ_header h]
  rfl

/-- **`validate` stays inside** when the window lies in the zone and its lists are roomy. -/
theorem validateZ_eq {p : ℕ}
    (hwin : WindowFits G (G.pools p)) (hroom : ListsLeaveRoom G (G.pools p)) :
    validateZ G p = some (validate G p) := by
  rw [validateZ, validate, apply_ite some]
  refine ite_congr rfl (fun _ => rfl) fun _ => ?_
  cases hp : poolAt G p with
  | none => rfl
  | some P =>
      obtain ⟨-, rfl⟩ := poolAt_eq_some.mp hp
      dsimp only
      rw [collectLiveSortedZ_eq, Option.bind_eq_bind, Option.bind_some]
      cases hcol : collectLiveSorted G (G.pools p) p pmMaxObjects with
      | none => rfl
      | some slots =>
          have hslots := collectLiveSorted_lt hcol
          dsimp only
          rw [validateLiveZ_eq (fun hle => hwin (by omega)) hslots, Option.bind_eq_bind,
            Option.bind_some]
          cases validateLive G (poolStartOff G (G.pools p))
              (poolStartOff G (G.pools p) + poolCapacity G (G.pools p)) slots
              (poolStartOff G (G.pools p)) 0 with
          | none => rfl
          | some used =>
              dsimp only
              rw [apply_ite some, apply_ite some]
              refine ite_congr rfl (fun _ => rfl) fun _ => ite_congr rfl (fun _ => rfl) fun _ => ?_
              rw [auditPoolBinsZ_eq hwin hroom, Option.bind_eq_bind, Option.bind_some]
              cases haudit : auditPoolBins G (G.pools p) with
              | none => rfl
              | some freeTotal =>
                  have hin : ∀ o ∈ sortU32Asc (freeOffsets G (G.pools p)), o + 4 ≤ G.zoneSize := by
                    intro o ho
                    have ho' := (sortU32Asc_perm _).mem_iff.mp ho
                    have := auditBlock_inZone hwin ((auditPoolBins_sound haudit).2.2 o ho').2
                    omega
                  dsimp only
                  rw [show u32 (poolCapacity G (G.pools p) / pmMinBlock + 1)
                      = auditSteps G (G.pools p) from rfl,
                    freeOffsetsZ_eq hwin haudit, Option.bind_eq_bind, Option.bind_some,
                    apply_ite some]
                  refine ite_congr rfl (fun _ => rfl) fun _ => ?_
                  rw [mapM_eq fun i hi => descZ_eq (hslots i hi),
                    mapM_eq fun o ho => freeExtentZ_eq (hin o ho), Option.bind_eq_bind,
                    Option.bind_some, Option.bind_some]
                  cases PondMerge.sweep (slots.length + (freeOffsets G (G.pools p)).length + 1)
                      (slots.map (liveExtent G))
                      ((sortU32Asc (freeOffsets G (G.pools p))).map (freeExtent G))
                      (poolStartOff G (G.pools p)) false 0 with
                  | none => rfl
                  | some r =>
                      simp only [apply_ite some]

/-! ### `get_stats` -/

lemma statsWalkZ_eq {lo hi : ℕ}
    (hscreen : ∀ o, ListCursor G P o → o ≠ nullOff → lo ≤ o → o ≤ hi → o + 16 ≤ G.zoneSize)
    (fuel largest : ℕ) {off : ℕ} (hoff : ListCursor G P off) :
    statsWalkZ G lo hi fuel largest off = some (statsWalk G lo hi fuel largest off) := by
  induction fuel generalizing largest off with
  | zero => rfl
  | succ fuel ih =>
      rw [statsWalkZ, statsWalk, apply_ite some, apply_ite some]
      refine ite_congr rfl (fun _ => rfl) fun hne => ite_congr rfl (fun _ => rfl) fun hin => ?_
      have hzone := hscreen off hoff hne (by omega) (by omega)
      rw [show loadZ G (ptrOf G.zone off) = some (load32 G.mem (ptrOf G.zone off)) from
          loadZ_header (by omega), loadZ_eq (k := 12) (by omega), Option.bind_eq_bind,
        Option.bind_some, Option.bind_some]
      exact ih _ (.next hoff hne)

lemma statsBinsZ_eq {lo hi : ℕ}
    (hscreen : ∀ o, ListCursor G P o → o ≠ nullOff → lo ≤ o → o ≤ hi → o + 16 ≤ G.zoneSize)
    (fuel largest : ℕ) {l : List (ℕ × ℕ)} (hl : ∀ fs ∈ l, fs.1 < flCount ∧ fs.2 < pmSlCount) :
    statsBinsZ G P lo hi fuel l largest = some (statsBins G P lo hi fuel l largest) := by
  induction l generalizing largest with
  | nil => rfl
  | cons fs l ih =>
      obtain ⟨f, s⟩ := fs
      obtain ⟨hf, hs⟩ := hl (f, s) (by simp)
      rw [statsBinsZ, statsBins, headZ_eq hf hs, Option.bind_eq_bind, Option.bind_some,
        statsWalkZ_eq hscreen fuel largest (.head hf hs), Option.bind_eq_bind,
        Option.bind_some]
      cases statsWalk G lo hi fuel largest (P.bins.head f s) with
      | none => rfl
      | some n => exact ih n fun x hx => hl x (by simp [hx])

/-- **`get_stats` stays inside** when every cursor that passes its 32-bit screen is sixteen
bytes away from the end of the zone. -/
theorem freeStatsZ_eq
    (hscreen : ∀ o, ListCursor G P o → o ≠ nullOff → u32 (poolStartOff G P) ≤ o →
      o ≤ sub32 (u32 (poolStartOff G P + poolCapacity G P)) 8 → o + 16 ≤ G.zoneSize) :
    freeStatsZ G P = some (freeStats G P) := by
  rw [freeStatsZ, freeStats, statsBinsZ_eq hscreen _ _ fun fs hfs => mem_allBins.mp hfs,
    Option.bind_eq_bind, Option.bind_some]
  cases statsBins G P (u32 (poolStartOff G P))
    (sub32 (u32 (poolStartOff G P + poolCapacity G P)) 8)
    (poolCapacity G P / pmMinBlock + 1 + 1) allBins 0 with
  | none => rfl
  | some largest => rfl

end Lists

end PondMerge
