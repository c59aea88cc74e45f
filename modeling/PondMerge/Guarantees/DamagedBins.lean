import PondMerge.Model.Run
import PondMerge.Operations.Scan

/-!
`bins_find` on damaged bins: any heads, any bitmaps and any bytes in the zone.

* `Guarded`: as long as the search goes on, it meets no bit beyond the arrays, and passes over
  no block whose `next` link ends behind the zone.
* `findBlock_inside_iff`: the search always ends within its hops, and reads nothing but elements
  of its arrays and bytes of the zone exactly then.
-/

namespace PondMerge

open ByteMemory

variable [PmConfig]

/-! ### Input conditions -/

/-- From offset `off` on, the links lead over the blocks `l`, which are readable and too small,
to offset `off'`. -/
def PassedOver (G : GlobalState) (need : ℕ) : ℕ → List ℕ → ℕ → Prop
  | off, [], off' => off' = off
  | off, o :: l, off' =>
    o = off ∧ off ≠ nullOff ∧ zoneOffReadable G off = true
      ∧ blkSizeOf G.mem (ptrOf G.zone off) < need
      ∧ PassedOver G need (blkNext G.mem (ptrOf G.zone off)) l off'

/-- All lists among the visits end and hold `n` blocks, none of which fits. -/
def Exhausted (G : GlobalState) (b : TlsfBins) (need : ℕ) : List Visit → ℕ → Prop
  | [], n => n = 0
  | .row _ :: vs, n => Exhausted G b need vs n
  | .bin f s :: vs, n =>
    ∃ l k, PassedOver G need (b.head f s) l nullOff ∧ Exhausted G b need vs k ∧ n = l.length + k

/-- A row, or a list, is one of the arrays', and the links that the next `left` hops follow lie
in the zone. -/
def VisitOk (G : GlobalState) (b : TlsfBins) (need left : ℕ) : Visit → Prop
  | .row f => f < flCount
  | .bin f s => f < flCount ∧ s < pmSlCount ∧ ∀ l off', PassedOver G need (b.head f s) l off' →
    l.length ≤ left → ∀ o ∈ l, o + 16 ≤ G.zoneSize

/-- Whatever the set bits lead to, after lists that all end without a fit, is in order. -/
def Guarded (G : GlobalState) (b : TlsfBins) (need : ℕ) : Prop :=
  need < 2 ^ pmFlMax → ∀ pre v post n, visitOrder b need = pre ++ v :: post →
    Exhausted G b need pre n → n ≤ maxHops G → VisitOk G b need (maxHops G - n) v

section Inputs

variable {G : GlobalState} {b : TlsfBins} {need : ℕ}

omit [PmConfig] in
/-- A walk misses exactly if it passes over a whole list. -/
lemma binsFindWalk_missed_iff {left left' off : ℕ} :
    binsFindWalk G need left off = .missed left' ↔
      ∃ l, PassedOver G need off l nullOff ∧ l.length + left' = left := by
  induction left generalizing off with
  | zero =>
      rw [binsFindWalk]
      constructor
      · intro h
        split_ifs at h with hnull
        cases h
        exact ⟨[], hnull.symm, rfl⟩
      · rintro ⟨l, hl, hlen⟩
        obtain ⟨rfl, rfl⟩ : l = [] ∧ left' = 0 := by
          rw [← List.length_eq_zero_iff]
          omega
        rw [if_pos (show off = nullOff from hl.symm)]
  | succ left ih =>
      rw [binsFindWalk]
      constructor
      · intro h
        split_ifs at h with hnull hread hfit
        · cases h
          exact ⟨[], hnull.symm, Nat.zero_add _⟩
        · obtain ⟨l, hl, hlen⟩ := ih.mp h
          refine ⟨off :: l, ⟨rfl, hnull, by simpa using hread, not_le.mp hfit, hl⟩, ?_⟩
          rw [List.length_cons]
          omega
      · rintro ⟨l, hl, hlen⟩
        cases l with
        | nil =>
            rw [if_pos (show off = nullOff from hl.symm), ← hlen, List.length_nil, Nat.zero_add]
        | cons o l =>
            obtain ⟨rfl, hnull, hread, hfit, htail⟩ := hl
            rw [List.length_cons] at hlen
            rw [if_neg hnull, if_neg (by simp [hread]), if_neg (not_le.mpr hfit)]
            exact ih.mpr ⟨l, htail, by omega⟩

/-- A walk reads the zone alone exactly if the links of the blocks it passes over lie in it. -/
lemma walkReads_inside_iff {left off : ℕ} :
    WalkReads (Access.inside G) G need left off ↔ ∀ l off', PassedOver G need off l off' →
      l.length ≤ left → ∀ o ∈ l, o + 16 ≤ G.zoneSize := by
  induction left generalizing off with
  | zero =>
      refine iff_of_true trivial fun l off' hl hlen o ho => ?_
      rw [List.length_eq_zero_iff.mp (Nat.le_zero.mp hlen)] at ho
      cases ho
  | succ left ih =>
      rw [WalkReads]
      constructor
      · intro hw l off' hl hlen o ho
        cases l with
        | nil => cases ho
        | cons o' l =>
            obtain ⟨rfl, hnull, hread, hfit, htail⟩ := hl
            rcases hw with h | h | ⟨-, h | ⟨hword, hw⟩⟩
            · exact absurd h hnull
            · rw [hread] at h
              cases h
            · omega
            · rcases List.mem_cons.mp ho with rfl | ho
              · rw [Access.inside, decide_eq_true_eq] at hword
                omega
              · exact ih.mp hw l off' htail (Nat.le_of_succ_le_succ hlen) o ho
      · intro hall
        by_cases hnull : off = nullOff
        · exact Or.inl hnull
        cases hread : zoneOffReadable G off with
        | false => exact Or.inr (Or.inl rfl)
        | true =>
            have hin : off + 8 ≤ G.zoneSize := of_decide_eq_true hread
            refine Or.inr (Or.inr ⟨decide_eq_true (by omega), ?_⟩)
            by_cases hfit : need ≤ blkSizeOf G.mem (ptrOf G.zone off)
            · exact Or.inl hfit
            -- a block that is too small is passed over, and its `next` link is read
            have hpass : ∀ {l off'}, PassedOver G need (blkNext G.mem (ptrOf G.zone off)) l off' →
                PassedOver G need off (off :: l) off' :=
              fun hl => ⟨rfl, hnull, hread, not_le.mp hfit, hl⟩
            refine Or.inr ⟨decide_eq_true ?_, ih.mpr fun l off' hl hlen o ho => ?_⟩
            · have hlink := hall [off] _ (hpass rfl) (Nat.le_add_left _ _) off List.mem_cons_self
              omega
            · exact hall (off :: l) off' (hpass hl) (Nat.succ_le_succ hlen) o
                (List.mem_cons_of_mem _ ho)

omit [PmConfig] in
lemma walkReads_true (left off : ℕ) : WalkReads (fun _ => true) G need left off := by
  induction left generalizing off with
  | zero => trivial
  | succ left ih => exact Or.inr (Or.inr ⟨rfl, Or.inr ⟨rfl, ih _⟩⟩)

omit [PmConfig] in
lemma scanReads_true (vs : List Visit) (left : ℕ) :
    ScanReads (fun _ => true) G b need vs left := by
  induction vs generalizing left with
  | nil => trivial
  | cons v vs ih =>
      cases v with
      | row f => exact ⟨rfl, ih left⟩
      | bin f s => exact ⟨rfl, walkReads_true _ _, fun left' _ => ih left'⟩

lemma scanReads_inside_iff {vs : List Visit} {left : ℕ} :
    ScanReads (Access.inside G) G b need vs left ↔ ∀ pre v post n, vs = pre ++ v :: post →
      Exhausted G b need pre n → n ≤ left → VisitOk G b need (left - n) v := by
  induction vs generalizing left with
  | nil => exact iff_of_true trivial fun pre v post n heq => by simp at heq
  | cons w vs ih =>
      -- the first visit, and the rest behind it
      have hsplit : (∀ pre v post n, w :: vs = pre ++ v :: post → Exhausted G b need pre n →
          n ≤ left → VisitOk G b need (left - n) v) ↔ VisitOk G b need left w
          ∧ ∀ pre v post n, vs = pre ++ v :: post → Exhausted G b need (w :: pre) n →
            n ≤ left → VisitOk G b need (left - n) v := by
        constructor
        · exact fun h => ⟨h [] w vs 0 rfl rfl (Nat.zero_le _), fun pre v post n heq =>
            h (w :: pre) v post n (by rw [heq, List.cons_append])⟩
        · rintro ⟨hw, hrest⟩ pre v post n heq hex hn
          cases pre with
          | nil =>
              obtain ⟨rfl, -⟩ := List.cons.inj heq
              obtain rfl : n = 0 := hex
              exact hw
          | cons w' pre =>
              obtain ⟨rfl, htail⟩ := List.cons.inj heq
              exact hrest pre v post n htail hex hn
      rw [hsplit]
      cases w with
      | row f =>
          rw [ScanReads, Access.inside, decide_eq_true_eq, ih]
          rfl
      | bin f s =>
          rw [ScanReads, Access.inside, decide_eq_true_eq, walkReads_inside_iff, VisitOk]
          simp only [and_assoc]
          refine and_congr_right fun _ => and_congr_right fun _ => and_congr_right fun _ => ?_
          constructor
          · rintro hscan pre v post n heq ⟨l, k, hl, hk, rfl⟩ hn
            have hmiss := binsFindWalk_missed_iff.mpr
              ⟨l, hl, Nat.add_sub_cancel' (by omega : l.length ≤ left)⟩
            have hv := ih.mp (hscan _ hmiss) pre v post k heq hk (by omega)
            rwa [Nat.sub_sub] at hv
          · intro hall left' hmiss
            obtain ⟨l, hl, rfl⟩ := binsFindWalk_missed_iff.mp hmiss
            refine ih.mpr fun pre v post n heq hex hn => ?_
            have hv := hall pre v post (l.length + n) heq ⟨l, n, hl, hex, rfl⟩ (by omega)
            rwa [Nat.add_sub_add_left] at hv

end Inputs

/-! ### The search -/

/-- **Damaged bins.**  Whatever the heads, the bitmaps and the bytes of the zone hold,
`bins_find` ends within its hops and bits, also where a read beyond an array is taken to return
something.  It reads elements of its arrays and bytes of the zone only, and then returns what
`binsFind` does, exactly if its input is `Guarded`. -/
theorem findBlock_inside_iff (G : GlobalState) (b : TlsfBins) (need : ℕ) {fuel : ℕ}
    (hfuel : searchFuel G ≤ fuel) :
    (findBlock (Access.inside G) G b need fuel = .ok (binsFind G b need) ↔ Guarded G b need)
      ∧ (¬ Guarded G b need → ∃ a, a.inside G = false
        ∧ findBlock (Access.inside G) G b need fuel = .error (.access a))
      ∧ (∀ ok, findBlock ok G b need fuel ≠ .error .fuel)
      ∧ findBlock (fun _ => true) G b need fuel = .ok (binsFind G b need) := by
  by_cases hneed : need < 2 ^ pmFlMax
  swap
  · have hnone : ∀ ok, findBlock ok G b need fuel = .ok (binsFind G b need) := fun ok => by
      rw [findBlock, if_pos (not_lt.mp hneed), binsFind, if_pos (not_lt.mp hneed)]
    have hguard : Guarded G b need := fun h => absurd h hneed
    refine ⟨iff_of_true (hnone _) hguard, fun h => absurd hguard h, fun ok => ?_, hnone _⟩
    rw [hnone]
    intro h
    cases h
  have hrun : ∀ ok, Agrees ok (findBlock ok G b need fuel)
      (ScanReads ok G b need (visitOrder b need) (maxHops G)) (binsFind G b need) :=
    fun ok => findBlock_agrees hneed hfuel
  -- the words that the scan reads are those that `Guarded` is about
  have hguard : ScanReads (Access.inside G) G b need (visitOrder b need) (maxHops G) ↔
      Guarded G b need := by
    rw [scanReads_inside_iff, Guarded, forall_prop_of_true hneed]
  have hstop : ¬ Guarded G b need → ∃ a, a.inside G = false
      ∧ findBlock (Access.inside G) G b need fuel = .error (.access a) :=
    fun hno => (hrun _).stopped fun h => hno (hguard.mp h)
  refine ⟨⟨fun hok => ?_, fun h => (hrun _).result (hguard.mpr h)⟩, hstop, fun ok => ?_, ?_⟩
  · by_contra hno
    obtain ⟨a, -, heq⟩ := hstop hno
    rw [hok] at heq
    cases heq
  · by_cases hreads : ScanReads ok G b need (visitOrder b need) (maxHops G)
    · rw [(hrun ok).result hreads]
      intro h
      cases h
    · obtain ⟨a, -, heq⟩ := (hrun ok).stopped hreads
      rw [heq]
      intro h
      cases h
  · exact (hrun _).result (scanReads_true _ _)

/-- A zone of 1024 zero bytes. -/
def blankZone : GlobalState :=
  { GlobalState.zero with
    zone := 8
    zoneSize := 1024
    initialized := true }

/-- Bins whose list for 64 bytes starts 8 bytes before the end of that zone. -/
def headNearEnd : TlsfBins := (TlsfBins.reset.setHead 2 0 1016).setBits 2 0

omit [PmConfig] in
/-- The link at `+12` of a readable block near the end, a first-level bit beyond the rows, and a
second-level bit beyond the columns are all followed. -/
theorem findBlock_outside :
    letI := defaultConfig
    findBlock (Access.inside blankZone) blankZone headNearEnd 64 (searchFuel blankZone) =
        .error (.access (.word 1028))
      ∧ findBlock (Access.inside blankZone) blankZone { TlsfBins.reset with flBitmap := 2 ^ 31 } 64
        (searchFuel blankZone) = .error (.access (.slBitmap 31))
      ∧ findBlock (Access.inside blankZone) blankZone
        { TlsfBins.reset with slBitmap := fun _ => 2 ^ 15 } 64 (searchFuel blankZone) =
          .error (.access (.head 2 15))
      ∧ blankZone.zoneSize = 1024 ∧ flCount = 20 ∧ pmSlCount = 4 := by
  refine ⟨rfl, rfl, rfl, rfl, rfl, rfl⟩

/-- A block of 72 bytes at offset `0`, the last one of its list, and one of 128 bytes at `200`. -/
def twoBlocks : GlobalState :=
  { blankZone with
    mem := store32 (store32 (store32 (fun _ => 0) 8 73) 20 nullOff) 208 129 }

/-- The first block hangs in the list for 80 bytes, the second one in that for 128. -/
def headTooSmall : TlsfBins :=
  (((TlsfBins.reset.setHead 2 1 0).setBits 2 1).setHead 3 0 200).setBits 3 0

omit [PmConfig] in
/-- The list for 80 bytes is passed over, and the next one has a block that fits. -/
theorem findBlock_inside_iff_tooSmall :
    letI := defaultConfig
    PassedOver twoBlocks 80 (headTooSmall.head 2 1) [0] nullOff
      ∧ Guarded twoBlocks headTooSmall 80
      ∧ findBlock (Access.inside twoBlocks) twoBlocks headTooSmall 80 (searchFuel twoBlocks) =
        .ok (some 208) := by
  let _ := defaultConfig
  have hfind : findBlock (Access.inside twoBlocks) twoBlocks headTooSmall 80
      (searchFuel twoBlocks) = .ok (binsFind twoBlocks headTooSmall 80) := by decide +kernel
  have hblock : binsFind twoBlocks headTooSmall 80 = some 208 := by decide +kernel
  refine ⟨⟨rfl, by decide, by decide, by decide +kernel, rfl⟩,
    (findBlock_inside_iff twoBlocks headTooSmall 80 le_rfl).1.mp hfind, ?_⟩
  rw [hfind, hblock]

end PondMerge
