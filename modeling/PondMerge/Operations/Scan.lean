import PondMerge.Model.Scan
import PondMerge.Operations.Search

/-!
The loops of `bins_find` on any bins and any bytes.

* `bitsFrom_ctz`: clearing the bit `__builtin_ctz` returns walks the set bits upwards.
* `Visit`: what the loops come to, and `visitOrder`: in which order.
* `findBlock_agrees`: with fuel enough the loops return what `binsFind` returns where every
  place they read may be read, and stop at the first other place where not.
-/

namespace PondMerge

open ByteMemory

variable [PmConfig]

/-! ### Set bits -/

section Bits

variable {w lo map i : ℕ}

omit [PmConfig] in
lemma bitsFrom_pairwise (w lo map : ℕ) : (bitsFrom w lo map).Pairwise (· < ·) :=
  List.pairwise_lt_range.filter _

omit [PmConfig] in
/-- The lowest set bit comes first. -/
lemma bitsFrom_cons (hi : i < w) (hlo : lo ≤ i) (hbit : map.testBit i = true)
    (hno : ∀ j, lo ≤ j → j < i → map.testBit j = false) :
    bitsFrom w lo map = i :: bitsFrom w (i + 1) map := by
  have hnd : (i :: bitsFrom w (i + 1) map).Nodup := by
    refine List.nodup_cons.mpr ⟨fun hm => ?_, bitsFrom_nodup _ _ _⟩
    have hle := (mem_bitsFrom.mp hm).2.1
    omega
  refine ((List.perm_ext_iff_of_nodup (bitsFrom_nodup _ _ _) hnd).mpr fun j => ?_).eq_of_pairwise
    (fun a b _ _ hab hba => absurd hab (Nat.lt_asymm hba)) (bitsFrom_pairwise _ _ _)
    (List.Pairwise.cons (fun j hj => ?_) (bitsFrom_pairwise _ _ _))
  · rw [List.mem_cons, mem_bitsFrom, mem_bitsFrom]
    constructor
    · rintro ⟨hj, hlj, hb⟩
      rcases Nat.lt_trichotomy j i with hlt | heq | hgt
      · rw [hno j hlj hlt] at hb
        cases hb
      · exact Or.inl heq
      · exact Or.inr ⟨hj, hgt, hb⟩
    · rintro (rfl | ⟨hj, hgt, hb⟩)
      · exact ⟨hi, hlo, hbit⟩
      · exact ⟨hj, by omega, hb⟩
  · exact (mem_bitsFrom.mp hj).2.1

omit [PmConfig] in
lemma bitsFrom_congr {lo' map' : ℕ} (h : ∀ j < w, (lo ≤ j ∧ map.testBit j = true) ↔
    (lo' ≤ j ∧ map'.testBit j = true)) : bitsFrom w lo map = bitsFrom w lo' map' := by
  refine List.filter_congr fun j hj => ?_
  have hj' := h j (List.mem_range.mp hj)
  rw [Bool.eq_iff_iff]
  simpa using hj'

omit [PmConfig] in
lemma ctz_spec {n : ℕ} (h0 : n ≠ 0) (h : n < 2 ^ 32) :
    ctz n < 32 ∧ n.testBit (ctz n) = true ∧ ∀ j < ctz n, n.testBit j = false := by
  obtain ⟨i, hi⟩ := (ne_zero_iff_testBit n).mp h0
  have hlt : i < 32 := by
    by_contra hge
    have hno := Nat.testBit_lt_two_pow (lt_of_lt_of_le h
      (Nat.pow_le_pow_right (by omega) (not_lt.mp hge)))
    rw [hno] at hi
    cases hi
  cases hfind : (List.range 32).find? fun i => n.testBit i with
  | none =>
      have hall := List.find?_eq_none.mp hfind i (List.mem_range.mpr hlt)
      exact absurd hi hall
  | some k =>
      obtain ⟨hbit, hk, hbefore⟩ := List.find?_range_eq_some.mp hfind
      rw [ctz, hfind, Option.getD_some]
      exact ⟨List.mem_range.mp hk, hbit, fun j hj => by simpa using hbefore j hj⟩

omit [PmConfig] in
/-- Clearing the bit `__builtin_ctz` has returned leaves the others. -/
theorem bitsFrom_ctz {n : ℕ} (hw : w ≤ 32) (h0 : n ≠ 0) (h : n < 2 ^ w) :
    bitsFrom w 0 n = ctz n :: bitsFrom w 0 (n &&& (2 ^ 32 - 1 - 2 ^ ctz n)) := by
  have h32 : n < 2 ^ 32 := lt_of_lt_of_le h (Nat.pow_le_pow_right (by omega) hw)
  obtain ⟨hlt, hbit, hno⟩ := ctz_spec h0 h32
  have hlt' : ctz n < w := by
    by_contra hge
    have hzero := Nat.testBit_lt_two_pow (lt_of_lt_of_le h
      (Nat.pow_le_pow_right (by omega) (not_lt.mp hge)))
    rw [hzero] at hbit
    cases hbit
  rw [bitsFrom_cons hlt' (Nat.zero_le _) hbit fun j _ hj => hno j hj]
  refine congrArg (ctz n :: ·) (bitsFrom_congr fun j hj => ?_)
  rw [testBit_clear n 32 (ctz n) j hlt]
  constructor
  · rintro ⟨hle, hb⟩
    exact ⟨Nat.zero_le _, hb, by omega, by omega⟩
  · rintro ⟨-, hb, -, hne⟩
    refine ⟨?_, hb⟩
    by_contra hle
    rw [hno j (by omega)] at hb
    cases hb

omit [PmConfig] in
lemma bitsFrom_zero (w lo : ℕ) : bitsFrom w lo 0 = [] :=
  List.filter_eq_nil_iff.mpr fun j _ => by simp

omit [PmConfig] in
lemma bitsFrom_eq_nil {n : ℕ} (h : n < 2 ^ w) (hnil : bitsFrom w 0 n = []) : n = 0 := by
  by_contra h0
  obtain ⟨i, hi⟩ := (ne_zero_iff_testBit n).mp h0
  have hlt : i < w := by
    by_contra hge
    have hno := Nat.testBit_lt_two_pow (lt_of_lt_of_le h
      (Nat.pow_le_pow_right (by omega) (not_lt.mp hge)))
    rw [hno] at hi
    cases hi
  have hm : i ∈ bitsFrom w 0 n := mem_bitsFrom.mpr ⟨hlt, Nat.zero_le _, hi⟩
  rw [hnil] at hm
  cases hm

omit [PmConfig] in
/-- The mask of the first row. -/
lemma bitsFrom_slMask (n lo : ℕ) : bitsFrom 16 lo n = bitsFrom 16 0 (n &&& slMask lo) := by
  refine bitsFrom_congr fun j hj => ?_
  have hmask : (slMask lo).testBit j = true ↔ lo ≤ j := by
    rw [slMask, u16, Nat.testBit_mod_two_pow, Nat.testBit_shiftLeft,
      show (0xFFFF : ℕ) = 2 ^ 16 - 1 from rfl, Nat.testBit_two_pow_sub_one]
    simp only [Bool.and_eq_true, decide_eq_true_eq]
    omega
  rw [Nat.testBit_and, Bool.and_eq_true, hmask]
  exact ⟨fun ⟨hle, hb⟩ => ⟨Nat.zero_le _, hb, hle⟩, fun ⟨_, hb, hle⟩ => ⟨hle, hb⟩⟩

omit [PmConfig] in
/-- The mask of the rows above row `f`. -/
lemma testBit_flMask {f j : ℕ} (hf : f < 32) (hj : j < 32) :
    (flMask f).testBit j = true ↔ f + 1 ≤ j := by
  have hpos := Nat.two_pow_pos (f + 1)
  have hpow : 2 ^ (f + 1) ≤ 2 ^ 32 := Nat.pow_le_pow_right (by omega) (by omega)
  have hlow : sub32 (u32 (2 <<< f)) 1 = 2 ^ (f + 1) - 1 := by
    rw [Nat.shiftLeft_eq, ← Nat.pow_succ', u32, sub32]
    rcases Nat.lt_or_ge f 31 with hlt | hge
    · have hhalf : 2 ^ (f + 1) ≤ 2 ^ 31 := Nat.pow_le_pow_right (by omega) (by omega)
      omega
    · obtain rfl : f = 31 := by omega
      decide
  rw [flMask, hlow, Nat.sub_sub, Nat.add_comm 1, Nat.testBit_two_pow_sub_succ (by omega),
    Nat.testBit_two_pow_sub_one]
  simp only [Bool.and_eq_true, decide_eq_true_eq, Bool.not_eq_true', decide_eq_false_iff_not]
  omega

omit [PmConfig] in
lemma flMask_lt (f : ℕ) : flMask f < 2 ^ 32 := by
  rw [flMask]
  omega

omit [PmConfig] in
/-- The rows above row `f` are those `__builtin_ctz` finds one after the other. -/
lemma bitsFrom_above (n : ℕ) {f : ℕ} (hf : f < 32) :
    (n &&& flMask f = 0 ∧ bitsFrom 32 (f + 1) n = [])
      ∨ (n &&& flMask f ≠ 0 ∧ ctz (n &&& flMask f) < 32
        ∧ bitsFrom 32 (f + 1) n =
          ctz (n &&& flMask f) :: bitsFrom 32 (ctz (n &&& flMask f) + 1) n) := by
  have hbit : ∀ j < 32, (n &&& flMask f).testBit j = true ↔ n.testBit j = true ∧ f + 1 ≤ j := by
    intro j hj
    rw [Nat.testBit_and, Bool.and_eq_true, testBit_flMask hf hj]
  by_cases h0 : n &&& flMask f = 0
  · refine Or.inl ⟨h0, List.filter_eq_nil_iff.mpr fun j hj => ?_⟩
    have hj' := hbit j (List.mem_range.mp hj)
    rw [h0, Nat.zero_testBit] at hj'
    simp only [Bool.and_eq_true, decide_eq_true_eq]
    exact fun hb => Bool.false_ne_true (hj'.mpr hb.symm)
  · obtain ⟨hlt, hset, hno⟩ := ctz_spec h0 (Nat.and_lt_two_pow _ (flMask_lt f))
    obtain ⟨hb, hle⟩ := (hbit _ hlt).mp hset
    refine Or.inr ⟨h0, hlt, bitsFrom_cons hlt hle hb fun j hlo hj => ?_⟩
    by_contra hne
    have hj' := (hbit j (by omega)).mpr ⟨by simpa using hne, hlo⟩
    rw [hno j hj] at hj'
    cases hj'

omit [PmConfig] in
lemma slMask_lt (sl : ℕ) : slMask sl < 2 ^ 16 := Nat.mod_lt _ (Nat.two_pow_pos 16)

end Bits

/-! ### What the loops come to -/

/-- A row whose bitmap is read, or a list that is walked. -/
inductive Visit where
  | row (f : ℕ)
  | bin (f s : ℕ)

/-- A row and its bins from the second level `lo` on. -/
def visitRow (b : TlsfBins) (f lo : ℕ) : List Visit :=
  .row f :: (bitsFrom 16 lo (b.slBitmap f)).map (.bin f)

/-- The rows above row `f`. -/
def visitAbove (b : TlsfBins) (f : ℕ) : List Visit :=
  (bitsFrom 32 (f + 1) b.flBitmap).flatMap fun f => visitRow b f 0

/-- All of them, in order. -/
def visitOrder (b : TlsfBins) (need : ℕ) : List Visit :=
  visitRow b (flBin need) (slBin need) ++ visitAbove b (flBin need)

/-- The bins of a list in order, as far as the hops reach. -/
def scanVisits (G : GlobalState) (b : TlsfBins) (need : ℕ) : List Visit → ℕ → Search
  | [], left => .missed left
  | .row _ :: vs, left => scanVisits G b need vs left
  | .bin f s :: vs, left =>
    match binsFindWalk G need left (b.head f s) with
    | .missed left => scanVisits G b need vs left
    | r => r

/-- Every word a walk reads may be read. -/
def WalkReads (ok : Access → Bool) (G : GlobalState) (need : ℕ) : ℕ → ℕ → Prop
  | 0, _ => True
  | left + 1, off =>
    off = nullOff ∨ zoneOffReadable G off = false
      ∨ (ok (.word off) = true ∧ (need ≤ blkSizeOf G.mem (ptrOf G.zone off)
        ∨ (ok (.word (off + 12)) = true
          ∧ WalkReads ok G need left (blkNext G.mem (ptrOf G.zone off)))))

/-- Every place a scan reads may be read. -/
def ScanReads (ok : Access → Bool) (G : GlobalState) (b : TlsfBins) (need : ℕ) :
    List Visit → ℕ → Prop
  | [], _ => True
  | .row f :: vs, left => ok (.slBitmap f) = true ∧ ScanReads ok G b need vs left
  | .bin f s :: vs, left =>
    ok (.head f s) = true ∧ WalkReads ok G need left (b.head f s)
      ∧ ∀ left', binsFindWalk G need left (b.head f s) = .missed left' →
        ScanReads ok G b need vs left'

/-- The outcome of a loop for the outcome of a search that may still make `left` hops. -/
def Search.early (G : GlobalState) : Search → ℕ ⊕ Option ℕ
  | .found blk => .inr (some blk)
  | .refused => .inr none
  | .missed left => .inl (maxHops G - left)

/-- A run comes to `r` where all it reads may be read, and stops at the first place that may
not. -/
structure Agrees {α : Type*} (ok : Access → Bool) (x : Except Fault α) (reads : Prop) (r : α) :
    Prop where
  result : reads → x = .ok r
  stopped : ¬ reads → ∃ a, ok a = false ∧ x = .error (.access a)

omit [PmConfig] in
lemma Agrees.of_iff {α : Type*} {ok : Access → Bool} {x : Except Fault α} {P Q : Prop} {r : α}
    (h : Agrees ok x P r) (hiff : Q ↔ P) : Agrees ok x Q r :=
  ⟨fun hq => h.result (hiff.mp hq), fun hq => h.stopped fun hp => hq (hiff.mpr hp)⟩

section Loops

variable {ok : Access → Bool} {G : GlobalState} {b : TlsfBins} {need : ℕ}

omit [PmConfig] in
lemma scanVisits_append (vs ws : List Visit) (left : ℕ) :
    scanVisits G b need (vs ++ ws) left =
      match scanVisits G b need vs left with
      | .missed left => scanVisits G b need ws left
      | r => r := by
  induction vs generalizing left with
  | nil => rfl
  | cons v vs ih =>
      cases v with
      | row f => exact ih left
      | bin f s =>
          rw [List.cons_append, scanVisits, scanVisits]
          cases binsFindWalk G need left (b.head f s) with
          | found blk => rfl
          | refused => rfl
          | missed left => exact ih left

omit [PmConfig] in
lemma scanReads_append (vs ws : List Visit) (left : ℕ) :
    ScanReads ok G b need (vs ++ ws) left ↔ ScanReads ok G b need vs left
      ∧ ∀ left', scanVisits G b need vs left = .missed left' → ScanReads ok G b need ws left' := by
  induction vs generalizing left with
  | nil =>
      refine ⟨fun h => ⟨trivial, fun left' heq => ?_⟩, fun h => h.2 left rfl⟩
      cases heq
      exact h
  | cons v vs ih =>
      cases v with
      | row f =>
          rw [List.cons_append, ScanReads, ScanReads, ih, and_assoc]
          rfl
      | bin f s =>
          rw [List.cons_append, ScanReads, ScanReads, scanVisits]
          cases hw : binsFindWalk G need left (b.head f s) with
          | found blk => simp
          | refused => simp
          | missed left₁ =>
              simp only [Search.missed.injEq, forall_eq', ih]
              tauto

omit [PmConfig] in
/-- A place that may be read gives its value. -/
lemma fetch_true {a : Access} {v : ℕ} (h : ok a = true) : fetch ok a v = .ok v := if_pos h

omit [PmConfig] in
lemma fetch_false {a : Access} {v : ℕ} (h : ok a = false) : fetch ok a v = .error (.access a) :=
  if_neg (by simp [h])

omit [PmConfig] in
/-- A walk does not gain hops. -/
lemma binsFindWalk_left {left left' off : ℕ}
    (h : binsFindWalk G need left off = .missed left') : left' ≤ left := by
  induction left generalizing off with
  | zero =>
      rw [binsFindWalk] at h
      split_ifs at h
      cases h
      exact le_rfl
  | succ left ih =>
      rw [binsFindWalk] at h
      split_ifs at h
      · cases h
        exact le_rfl
      · exact (ih h).trans (Nat.le_succ _)

/-- One list. -/
lemma findList_agrees {left : ℕ} : ∀ {fuel hops off : ℕ}, hops + left = maxHops G →
    left + 1 ≤ fuel → Agrees ok (findList ok G need fuel hops off) (WalkReads ok G need left off)
      ((binsFindWalk G need left off).early G) := by
  induction left with
  | zero =>
      intro fuel hops off hhops hfuel
      obtain ⟨fuel, rfl⟩ := Nat.exists_eq_add_of_le' hfuel
      refine ⟨fun _ => ?_, fun hno => absurd trivial hno⟩
      rw [findList, binsFindWalk]
      by_cases hnull : off = nullOff
      · rw [if_pos hnull, if_pos hnull, Search.early, Nat.sub_zero, ← hhops, Nat.add_zero]
      · rw [if_neg hnull, if_neg hnull, if_pos (by omega)]
        rfl
  | succ left ih =>
      intro fuel hops off hhops hfuel
      obtain ⟨fuel, rfl⟩ := Nat.exists_eq_add_of_le' (Nat.le_trans (Nat.le_add_left 1 _) hfuel)
      rw [findList, binsFindWalk, WalkReads]
      by_cases hnull : off = nullOff
      · rw [if_pos hnull, if_pos hnull]
        refine ⟨fun _ => ?_, fun hno => absurd (Or.inl hnull) hno⟩
        rw [Search.early, ← hhops, Nat.add_sub_cancel]
      rw [if_neg hnull, if_neg hnull, if_neg (by omega)]
      cases hread : zoneOffReadable G off with
      | false => exact ⟨fun _ => rfl, fun hno => absurd (Or.inr (Or.inl rfl)) hno⟩
      | true =>
          rw [if_neg (by simp), if_neg (by simp)]
          cases hword : ok (.word off) with
          | false =>
              rw [fetch_false hword]
              exact ⟨fun h => by simp [hnull] at h, fun _ => ⟨_, hword, rfl⟩⟩
          | true =>
              rw [fetch_true hword]
              show Agrees ok (if need ≤ blkSizeOf G.mem (ptrOf G.zone off) then _ else _) _ _
              by_cases hfit : need ≤ blkSizeOf G.mem (ptrOf G.zone off)
              · rw [if_pos hfit, if_pos hfit]
                exact ⟨fun _ => rfl, fun hno => absurd (Or.inr (Or.inr ⟨rfl, Or.inl hfit⟩)) hno⟩
              rw [if_neg hfit, if_neg hfit]
              cases hnext : ok (.word (off + 12)) with
              | false =>
                  rw [fetch_false hnext]
                  exact ⟨fun h => by simp [hnull, hfit] at h, fun _ => ⟨_, hnext, rfl⟩⟩
              | true =>
                  rw [fetch_true hnext]
                  have htail : Agrees ok
                      (findList ok G need fuel (hops + 1) (blkNext G.mem (ptrOf G.zone off))) _ _ :=
                    ih (by omega) (by omega)
                  exact htail.of_iff (by simp [hnull, hfit])

/-- The bins of one row. -/
lemma findRow_agrees {f : ℕ} {ss : List ℕ} : ∀ {fuel slMap hops left : ℕ},
    bitsFrom 16 0 slMap = ss → slMap < 2 ^ 16 → hops + left = maxHops G →
    ss.length + maxHops G + 2 ≤ fuel →
    Agrees ok (findRow ok G b need f fuel slMap hops) (ScanReads ok G b need (ss.map (.bin f)) left)
      ((scanVisits G b need (ss.map (.bin f)) left).early G) := by
  induction ss with
  | nil =>
      intro fuel slMap hops left hss hmap hhops hfuel
      obtain ⟨fuel, rfl⟩ := Nat.exists_eq_add_of_le' (Nat.le_trans (Nat.le_add_left 1 _) hfuel)
      refine ⟨fun _ => ?_, fun hno => absurd trivial hno⟩
      rw [findRow, if_pos (bitsFrom_eq_nil hmap hss), List.map_nil, scanVisits, Search.early,
        ← hhops, Nat.add_sub_cancel]
  | cons s ss ih =>
      intro fuel slMap hops left hss hmap hhops hfuel
      obtain ⟨fuel, rfl⟩ := Nat.exists_eq_add_of_le' (Nat.le_trans (Nat.le_add_left 1 _) hfuel)
      rw [List.length_cons] at hfuel
      have h0 : slMap ≠ 0 := by
        rintro rfl
        rw [bitsFrom_zero] at hss
        cases hss
      rw [bitsFrom_ctz (by omega) h0 hmap] at hss
      obtain ⟨rfl, hrest⟩ := List.cons.inj hss
      have hclear : slMap &&& (2 ^ 32 - 1 - 2 ^ ctz slMap) < 2 ^ 16 :=
        lt_of_le_of_lt Nat.and_le_left hmap
      -- the list of the lowest bit, then the row without it
      have hlist : Agrees ok (findList ok G need fuel hops (b.head f (ctz slMap))) _ _ :=
        findList_agrees hhops (by omega)
      rw [findRow, if_neg h0, List.map_cons, ScanReads, scanVisits]
      dsimp only
      cases hhead : ok (.head f (ctz slMap)) with
      | false =>
          rw [fetch_false hhead]
          exact ⟨fun h => (nomatch h.1), fun _ => ⟨_, hhead, rfl⟩⟩
      | true =>
          rw [fetch_true hhead]
          by_cases hreads : WalkReads ok G need left (b.head f (ctz slMap))
          swap
          · obtain ⟨a, ha, hstop⟩ := hlist.stopped hreads
            refine ⟨fun h => absurd h.2.1 hreads, fun _ => ⟨a, ha, ?_⟩⟩
            show (findList ok G need fuel hops (b.head f (ctz slMap)) >>= _) = _
            rw [hstop]
            rfl
          have hrun := hlist.result hreads
          show Agrees ok (findList ok G need fuel hops (b.head f (ctz slMap)) >>= _) _ _
          rw [hrun]
          cases hw : binsFindWalk G need left (b.head f (ctz slMap)) with
          | found blk => exact ⟨fun _ => rfl, fun hno => absurd ⟨rfl, hreads, by simp⟩ hno⟩
          | refused => exact ⟨fun _ => rfl, fun hno => absurd ⟨rfl, hreads, by simp⟩ hno⟩
          | missed left' =>
              have hle := binsFindWalk_left hw
              have hhops' : maxHops G - left' + left' = maxHops G := by omega
              exact (ih hrest hclear hhops' (by omega)).of_iff (by simp [hreads])

omit [PmConfig] in
lemma bitsFrom_length (w lo map : ℕ) : (bitsFrom w lo map).length ≤ w :=
  (List.length_filter_le _ _).trans_eq List.length_range

omit [PmConfig] in
lemma scanVisits_left {vs : List Visit} {left left' : ℕ}
    (h : scanVisits G b need vs left = .missed left') : left' ≤ left := by
  induction vs generalizing left with
  | nil =>
      cases h
      exact le_rfl
  | cons v vs ih =>
      cases v with
      | row f => exact ih h
      | bin f s =>
          rw [scanVisits] at h
          cases hw : binsFindWalk G need left (b.head f s) with
          | found blk => rw [hw] at h; cases h
          | refused => rw [hw] at h; cases h
          | missed left₁ =>
              rw [hw] at h
              exact (ih h).trans (binsFindWalk_left hw)

/-- What `bins_find` returns for the outcome of its search. -/
def Search.answer : Search → Option ℕ
  | .found blk => some blk
  | _ => none

/-- One row, and what comes after it. -/
lemma findRows_step {fuel f sl hops left : ℕ} {ws : List Visit} (hhops : hops + left = maxHops G)
    (hfuel : maxHops G + 18 ≤ fuel)
    (htail : ∀ left' ≤ maxHops G, Agrees ok
      (if b.flBitmap &&& flMask f = 0 then .ok none
        else findRows ok G b need fuel (ctz (b.flBitmap &&& flMask f)) 0 (maxHops G - left'))
      (ScanReads ok G b need ws left') (scanVisits G b need ws left').answer) :
    Agrees ok (findRows ok G b need (fuel + 1) f sl hops)
      (ScanReads ok G b need (visitRow b f sl ++ ws) left)
      (scanVisits G b need (visitRow b f sl ++ ws) left).answer := by
  have hlen := bitsFrom_length 16 sl (b.slBitmap f)
  have hrow : Agrees ok (findRow ok G b need f fuel (b.slBitmap f &&& slMask sl) hops) _ _ :=
    findRow_agrees (bitsFrom_slMask (b.slBitmap f) sl).symm
      (Nat.and_lt_two_pow _ (slMask_lt sl)) hhops (by omega)
  rw [findRows, scanReads_append, scanVisits_append, visitRow, ScanReads, scanVisits]
  cases hbits : ok (.slBitmap f) with
  | false =>
      rw [fetch_false hbits]
      exact ⟨fun h => (nomatch h.1.1), fun _ => ⟨_, hbits, rfl⟩⟩
  | true =>
      rw [fetch_true hbits]
      show Agrees ok (findRow ok G b need f fuel (b.slBitmap f &&& slMask sl) hops >>= _) _ _
      by_cases hreads : ScanReads ok G b need ((bitsFrom 16 sl (b.slBitmap f)).map (.bin f)) left
      swap
      · obtain ⟨a, ha, hstop⟩ := hrow.stopped hreads
        refine ⟨fun h => absurd h.1.2 hreads, fun _ => ⟨a, ha, ?_⟩⟩
        rw [hstop]
        rfl
      rw [hrow.result hreads]
      cases hscan : scanVisits G b need ((bitsFrom 16 sl (b.slBitmap f)).map (.bin f)) left with
      | found blk => exact ⟨fun _ => rfl, fun hno => absurd ⟨⟨rfl, hreads⟩, by simp⟩ hno⟩
      | refused => exact ⟨fun _ => rfl, fun hno => absurd ⟨⟨rfl, hreads⟩, by simp⟩ hno⟩
      | missed left' =>
          have hle := scanVisits_left hscan
          exact (htail left' (by omega)).of_iff (by simp [hreads])

/-- The rows from row `f` on. -/
lemma findRows_agrees {fs : List ℕ} : ∀ {fuel f sl hops left : ℕ}, f < 32 →
    bitsFrom 32 (f + 1) b.flBitmap = fs → hops + left = maxHops G →
    fs.length + maxHops G + 19 ≤ fuel →
    Agrees ok (findRows ok G b need fuel f sl hops)
      (ScanReads ok G b need (visitRow b f sl ++ fs.flatMap fun f => visitRow b f 0) left)
      (scanVisits G b need
        (visitRow b f sl ++ fs.flatMap fun f => visitRow b f 0) left).answer := by
  induction fs with
  | nil =>
      intro fuel f sl hops left hf hfs hhops hfuel
      obtain ⟨fuel, rfl⟩ := Nat.exists_eq_add_of_le' (Nat.le_trans (Nat.le_add_left 1 _) hfuel)
      refine findRows_step hhops (by omega) fun left' _ => ?_
      rcases bitsFrom_above b.flBitmap hf with ⟨h0, -⟩ | ⟨-, -, hcons⟩
      · rw [if_pos h0]
        exact ⟨fun _ => rfl, fun hno => absurd trivial hno⟩
      · rw [hfs] at hcons
        cases hcons
  | cons f' fs ih =>
      intro fuel f sl hops left hf hfs hhops hfuel
      obtain ⟨fuel, rfl⟩ := Nat.exists_eq_add_of_le' (Nat.le_trans (Nat.le_add_left 1 _) hfuel)
      rw [List.length_cons] at hfuel
      rcases bitsFrom_above b.flBitmap hf with ⟨-, hnil⟩ | ⟨h0, hlt, hcons⟩
      · rw [hnil] at hfs
        cases hfs
      rw [hcons] at hfs
      obtain ⟨rfl, hrest⟩ := List.cons.inj hfs
      refine findRows_step hhops (by omega) fun left' hle => ?_
      rw [if_neg h0]
      exact ih hlt hrest (Nat.sub_add_cancel hle) (by omega)

omit [PmConfig] in
lemma scanVisits_row (f lo left : ℕ) :
    scanVisits G b need (visitRow b f lo) left =
      scanBins G b need ((bitsFrom 16 lo (b.slBitmap f)).map fun s => (f, s)) left := by
  rw [visitRow, scanVisits]
  generalize bitsFrom 16 lo (b.slBitmap f) = ss
  induction ss generalizing left with
  | nil => rfl
  | cons s ss ih =>
      rw [List.map_cons, List.map_cons, scanVisits, scanBins]
      cases binsFindWalk G need left (b.head f s) with
      | found blk => rfl
      | refused => rfl
      | missed left => exact ih left

omit [PmConfig] in
lemma scanVisits_rows (fs : List ℕ) (left : ℕ) :
    scanVisits G b need (fs.flatMap fun f => visitRow b f 0) left = scanBins G b need
      (fs.flatMap fun f => (bitsFrom 16 0 (b.slBitmap f)).map fun s => (f, s)) left := by
  induction fs generalizing left with
  | nil => rfl
  | cons f fs ih =>
      rw [List.flatMap_cons, List.flatMap_cons, scanVisits_append, scanBins_append, scanVisits_row]
      cases scanBins G b need ((bitsFrom 16 0 (b.slBitmap f)).map fun s => (f, s)) left with
      | found blk => rfl
      | refused => rfl
      | missed left => exact ih left

/-- More iterations than any search takes: the hops, and the bits of the bitmaps. -/
def searchFuel (G : GlobalState) : ℕ := maxHops G + 51

/-- The loops of `bins_find` come to what `binsFind` does. -/
theorem findBlock_agrees {fuel : ℕ} (hneed : need < 2 ^ pmFlMax) (hfuel : searchFuel G ≤ fuel) :
    Agrees ok (findBlock ok G b need fuel)
      (ScanReads ok G b need (visitOrder b need) (maxHops G)) (binsFind G b need) := by
  have hf := flBin_lt need
  have hmax := PmConfig.flMax_le
  rw [flCount] at hf
  rw [searchFuel] at hfuel
  have hlen := bitsFrom_length 32 (flBin need + 1) b.flBitmap
  have hrows : Agrees ok (findRows ok G b need fuel (flBin need) (slBin need) 0) _ _ :=
    findRows_agrees (by omega) rfl (Nat.zero_add (maxHops G)) (by omega)
  have hsearch : binsFind G b need =
      (scanVisits G b need (visitOrder b need) (maxHops G)).answer := by
    have hscan : scanVisits G b need (visitOrder b need) (maxHops G) =
        scanBins G b need (searchOrder b need) (G.zoneSize / pmMinBlock + 1) := by
      rw [visitOrder, visitAbove, scanVisits_append, searchOrder, scanBins_append, scanVisits_row,
        maxHops]
      cases scanBins G b need
        ((bitsFrom 16 (slBin need) (b.slBitmap (flBin need))).map fun s => (flBin need, s))
        (G.zoneSize / pmMinBlock + 1) with
      | found blk => rfl
      | refused => rfl
      | missed left => exact scanVisits_rows _ left
    rw [binsFind_eq G b hneed, hscan]
    cases scanBins G b need (searchOrder b need) (G.zoneSize / pmMinBlock + 1) with
    | found blk => rfl
    | refused => rfl
    | missed left => rfl
  rw [findBlock, if_neg (not_le.mpr hneed), hsearch]
  exact hrows

end Loops

end PondMerge
