import PondMerge.Model.Sorting
import PondMerge.Operations.Collect
import PondMerge.Guarantees.Validation

/-!
The two sorts of `collect_live_sorted`.

* `directionScan_spec`: the early exit of the direction scan loses nothing.
* `reverseInPlace_apply`: the exchanges reverse the array.
* `sortPackedArray_eq`: in place, `sort_packed_keys` does what it does on lists.
* `packedPath_eq`: a small zone's packed keys order the slots as the comparator does.
* `collectLiveSorted_eq`: the enumeration is the walk, one of the two sorts, and the check.
* `collectFinish_paths`: both sorts end in the same status and the same slots.
-/

namespace PondMerge

open HeapSort

/-! ### Arrays as lists -/

lemma listOf_length (a : ℕ → ℕ) (n : ℕ) : (listOf a n).length = n := by simp [listOf]

lemma mem_listOf {a : ℕ → ℕ} {n x : ℕ} : x ∈ listOf a n ↔ ∃ i < n, a i = x := by
  simp [listOf]

lemma storeEach_apply (f a : ℕ → ℕ) {n k : ℕ} (hk : k < n) : storeEach f a n k = f k := by
  induction n with
  | zero => omega
  | succ n ih =>
      rw [storeEach]
      by_cases h : k = n
      · rw [h, Function.update_self]
      · rw [Function.update_of_ne h, ih (by omega)]

lemma listOf_storeEach (f a : ℕ → ℕ) (n : ℕ) :
    listOf (storeEach f a n) n = (List.range n).map f :=
  List.map_congr_left fun _ hk => storeEach_apply f a (List.mem_range.mp hk)

/-! ### The direction scan -/

/-- The pairs of a range that has one pair more at its front. -/
lemma pairs_cons {P : ℕ → Prop} {k left : ℕ} :
    (P k ∧ ∀ j, k + 1 ≤ j → j < k + 1 + left → P j) ↔
      ∀ j, k ≤ j → j < k + (left + 1) → P j := by
  constructor
  · rintro ⟨hk, h⟩ j hj hlt
    rcases hj.eq_or_lt with rfl | hj
    · exact hk
    · exact h j hj (by omega)
  · exact fun h => ⟨h k le_rfl (by omega), fun j hj hlt => h j (by omega) (by omega)⟩

/-- The scan reports each direction in which it was started and that no pair it covers
breaks, although it stops as soon as both are broken. -/
lemma directionScan_spec (a : ℕ → ℕ) (left k : ℕ) (asc desc : Bool) :
    ((directionScan a left k asc desc).1 = true
        ↔ asc = true ∧ ∀ j, k ≤ j → j < k + left → a (j - 1) ≤ a j)
      ∧ ((directionScan a left k asc desc).2 = true
        ↔ desc = true ∧ ∀ j, k ≤ j → j < k + left → a j ≤ a (j - 1)) := by
  induction left generalizing k asc desc with
  | zero =>
      rw [directionScan]
      exact ⟨⟨fun h => ⟨h, by omega⟩, fun h => h.1⟩, ⟨fun h => ⟨h, by omega⟩, fun h => h.1⟩⟩
  | succ left ih =>
      have hasc : (if a (k - 1) > a k then false else asc) = true
          ↔ asc = true ∧ a (k - 1) ≤ a k := by
        split_ifs with h
        · simp [h]
        · simp [Nat.le_of_not_lt h]
      have hdesc : (if a (k - 1) < a k then false else desc) = true
          ↔ desc = true ∧ a k ≤ a (k - 1) := by
        split_ifs with h
        · simp [h]
        · simp [Nat.le_of_not_lt h]
      rw [directionScan]
      generalize (if a (k - 1) > a k then false else asc) = asc' at hasc ⊢
      generalize (if a (k - 1) < a k then false else desc) = desc' at hdesc ⊢
      by_cases hexit : (!asc' && !desc') = true
      · rw [if_pos hexit, ← pairs_cons, ← pairs_cons, ← and_assoc, ← and_assoc, ← hasc, ← hdesc]
        rw [Bool.and_eq_true, Bool.not_eq_true', Bool.not_eq_true'] at hexit
        simp [hexit]
      · obtain ⟨h1, h2⟩ := ih (k + 1) asc' desc'
        rw [if_neg hexit, h1, h2, hasc, hdesc, and_assoc, and_assoc, ← pairs_cons, ← pairs_cons]
        exact ⟨Iff.rfl, Iff.rfl⟩

/-- Neighbours in order make a list in order. -/
lemma listOf_pairwise {R : ℕ → ℕ → Prop} [IsTrans ℕ R] {a : ℕ → ℕ} {n : ℕ}
    (h : ∀ j, 1 ≤ j → j < n → R (a (j - 1)) (a j)) : (listOf a n).Pairwise R := by
  rw [← List.isChain_iff_pairwise, List.isChain_iff_getElem]
  intro i hi
  rw [listOf_length] at hi
  simp only [listOf, List.getElem_map, List.getElem_range]
  exact h (i + 1) (by omega) hi

/-! ### The reversal -/

/-- The exchanges from index `i` on mirror the entries they have reached, and leave the
others. -/
lemma reverseInPlace_apply (n left i : ℕ) (a : ℕ → ℕ) (h : 2 * (i + left) ≤ n) (k : ℕ) :
    reverseInPlace n left i a k =
      if (i ≤ k ∧ k < i + left) ∨ (n - (i + left) ≤ k ∧ k < n - i) then a (n - 1 - k)
      else a k := by
  induction left generalizing i a with
  | zero =>
      rw [reverseInPlace, if_neg (by omega)]
  | succ left ih =>
      rw [reverseInPlace, ih (i + 1) _ (by omega)]
      have hswap : ∀ x, swap a i (n - 1 - i) x =
          if x = i then a (n - 1 - i) else if x = n - 1 - i then a i else a x := by
        intro x
        rw [swap_apply, Equiv.swap_apply_def]
        split_ifs <;> rfl
      rw [hswap, hswap]
      by_cases hin : (i + 1 ≤ k ∧ k < i + 1 + left)
          ∨ (n - (i + 1 + left) ≤ k ∧ k < n - (i + 1))
      · rw [if_pos hin, if_neg (by omega), if_neg (by omega), if_pos (by omega)]
      · rw [if_neg hin]
        by_cases hi : k = i
        · rw [if_pos hi, if_pos (by omega), hi]
        · rw [if_neg hi]
          by_cases hm : k = n - 1 - i
          · rw [if_pos hm, if_pos (by omega)]
            congr 1
            omega
          · rw [if_neg hm, if_neg (by omega)]

/-- The reversal of an array is the reversed list. -/
lemma listOf_reverseInPlace (a : ℕ → ℕ) (n : ℕ) :
    listOf (reverseInPlace n (n / 2) 0 a) n = (listOf a n).reverse := by
  refine List.ext_getElem (by simp [listOf_length]) fun k hk _ => ?_
  rw [listOf_length] at hk
  simp only [listOf, List.getElem_map, List.getElem_range, List.getElem_reverse,
    List.length_map, List.length_range]
  rw [reverseInPlace_apply n (n / 2) 0 a (by omega)]
  split_ifs with h
  · rfl
  · congr 1
    omega

/-! ### `sort_packed_keys` in place -/

/-- In place, the adaptive sort rearranges the keys. -/
lemma sortPackedArray_perm (a : ℕ → ℕ) (n : ℕ) :
    (listOf (sortPackedArray a n) n).Perm (listOf a n) := by
  rw [sortPackedArray]
  dsimp only
  split_ifs
  · exact List.Perm.refl _
  · exact List.Perm.refl _
  · rw [listOf_reverseInPlace]
    exact List.reverse_perm _
  · exact listOf_heapSort_perm _ a n

/-- In place, the adaptive sort orders the keys, whichever way it takes. -/
lemma sortPackedArray_pairwise (a : ℕ → ℕ) (n : ℕ) :
    (listOf (sortPackedArray a n) n).Pairwise (· ≤ ·) := by
  obtain ⟨hasc, hdesc⟩ := directionScan_spec a (n - 1) 1 true true
  rw [sortPackedArray]
  dsimp only
  split_ifs with h1 h2 h3
  · exact listOf_pairwise fun j hj hlt => by omega
  · exact listOf_pairwise fun j hj hlt => (hasc.mp h2).2 j hj (by omega)
  · rw [listOf_reverseInPlace, List.pairwise_reverse]
    exact listOf_pairwise (R := (· ≥ ·)) fun j hj hlt => (hdesc.mp h3).2 j hj (by omega)
  · exact listOf_heapSort_le a n

/-- In place, `sort_packed_keys` does what it does on lists. -/
theorem sortPackedArray_eq (a : ℕ → ℕ) (n : ℕ) :
    listOf (sortPackedArray a n) n = sortPackedKeys (listOf a n) :=
  ((sortPackedArray_perm a n).trans (sortPackedKeys_perm _).symm).eq_of_pairwise
    (fun _ _ _ _ => Nat.le_antisymm) (sortPackedArray_pairwise a n)
    (sortPackedKeys_pairwise _)

/-! ### The two paths -/

/-- A packed word holds its slot below the offset. -/
lemma packedWord_eq (G : GlobalState) {i : ℕ} (hi : i < 2 ^ 8) :
    packedWord G i = packedKey G i := by
  rw [packedWord, packedKey, u32, Nat.shiftLeft_eq]
  generalize ((((G.objects i).address : ℤ) - G.zone) % 2 ^ 32).toNat = k
  have hk : k * 2 ^ 8 % 2 ^ 32 = 2 ^ 8 * (k % 2 ^ 24) := by omega
  rw [hk, Nat.two_pow_add_eq_or_of_lt hi]

/-- On arrays, the packed path is the packed branch of `collectSort`. -/
lemma listOf_packedPath (G : GlobalState) (keys out : ℕ → ℕ) {n : ℕ}
    (hout : ∀ i < n, out i < 2 ^ 8) :
    listOf (packedPath G keys out n) n =
      (sortPackedKeys ((listOf out n).map (packedKey G))).map (· % 2 ^ 8) := by
  have hfill : listOf (storeEach (fun i => packedWord G (out i)) keys n) n =
      (listOf out n).map (packedKey G) := by
    rw [listOf_storeEach, listOf, List.map_map]
    exact List.map_congr_left fun i hi => packedWord_eq G (hout i (List.mem_range.mp hi))
  rw [packedPath, listOf_storeEach, ← hfill, ← sortPackedArray_eq, listOf, List.map_map]
  refine List.map_congr_left fun i _ => ?_
  exact Nat.and_two_pow_sub_one_eq_mod _ 8

/-- On arrays, the comparator path is the comparator branch of `collectSort`. -/
lemma listOf_comparedPath (G : GlobalState) (out : ℕ → ℕ) (n : ℕ) :
    listOf (comparedPath G out n) n = sortSlotsByAddress G (listOf out n) :=
  eq_of_slotLess ((listOf_heapSort_perm _ out n).trans (sortSlotsByAddress_perm G _).symm)
    (listOf_heapSort_slotLess G out n) (sortSlotsByAddress_pairwise G _)

/-- The packed keys of slots of 8 bits in a zone of 24 bits order the slots as the
comparator does, ties included. -/
theorem packedPath_eq (G : GlobalState) (keys out : ℕ → ℕ) {n : ℕ}
    (hout : ∀ i < n, out i < 2 ^ 8)
    (hin : ∀ i < n, G.zone ≤ (G.objects (out i)).address
      ∧ (G.objects (out i)).address < G.zone + 2 ^ 24) :
    listOf (packedPath G keys out n) n = listOf (comparedPath G out n) n := by
  have hl : ∀ i ∈ listOf out n, i < 2 ^ 8 := by
    intro i hi
    obtain ⟨k, hk, rfl⟩ := mem_listOf.mp hi
    exact hout k hk
  have hz : ∀ i ∈ listOf out n, G.zone ≤ (G.objects i).address
      ∧ (G.objects i).address < G.zone + 2 ^ 24 := by
    intro i hi
    obtain ⟨k, hk, rfl⟩ := mem_listOf.mp hi
    exact hin k hk
  have hperm := sortPackedKeys_perm ((listOf out n).map (packedKey G))
  have hsame := (hperm.map (· % 2 ^ 8)).trans (unpacked_perm hl)
  rw [listOf_packedPath G keys out hout, listOf_comparedPath]
  exact eq_of_slotLess (hsame.trans (sortSlotsByAddress_perm G _).symm)
    (unpacked_pairwise (sortPackedKeys_pairwise _) hperm hl hz) (sortSlotsByAddress_pairwise G _)

/-! ### The final check -/

lemma addressesDiffer_iff (G : GlobalState) (out : ℕ → ℕ) (left i : ℕ) :
    addressesDiffer G out left i = true ↔ ∀ j, i ≤ j → j < i + left →
      (G.objects (out j)).address ≠ (G.objects (out (j - 1))).address := by
  induction left generalizing i with
  | zero =>
      rw [addressesDiffer]
      exact ⟨fun _ => by omega, fun _ => rfl⟩
  | succ left ih =>
      rw [addressesDiffer, ← pairs_cons]
      split_ifs with h
      · simp [h]
      · rw [ih (i + 1)]
        exact ⟨fun hr => ⟨h, hr⟩, fun hr => hr.2⟩

/-- In place, the final check is the check of the list. -/
lemma addressesDiffer_eq (G : GlobalState) (out : ℕ → ℕ) (n : ℕ) :
    addressesDiffer G out (n - 1) 1 = distinctAddresses G (listOf out n) := by
  rw [Bool.eq_iff_iff, distinctAddresses_iff, addressesDiffer_iff, List.isChain_iff_getElem]
  simp only [listOf_length]
  simp only [listOf, List.getElem_map, List.getElem_range]
  constructor
  · exact fun h i hi => h (i + 1) (by omega) (by omega)
  · intro h j hj hlt
    have hpair := h (j - 1) (by omega)
    rwa [Nat.sub_add_cancel hj] at hpair

/-- The enumeration runs the walk, one of the two sorts on the array it filled, and the
final check. -/
theorem collectLiveSorted_eq [PmConfig] (G : GlobalState) (P : Pool) (pid cap : ℕ)
    (keys : ℕ → ℕ) :
    collectLiveSorted G P pid cap =
      (collectWalk G pid (pmMaxObjects + 1) cap noOrder P.orderHead).bind fun l =>
        (collectFinish G
          (if G.zoneSize ≤ 2 ^ 24 ∧ pmMaxObjects ≤ 256
            then packedPath G keys (arrayOf l) l.length
            else comparedPath G (arrayOf l) l.length) l.length).toOption := by
  rw [collectLiveSorted]
  cases hwalk : collectWalk G pid (pmMaxObjects + 1) cap noOrder P.orderHead with
  | none => rfl
  | some l =>
      have hslot : ∀ i ∈ l, i < pmMaxObjects := fun i hi =>
        ((collectWalk_sound hwalk).2.1 i hi).1
      have hsort : listOf (if G.zoneSize ≤ 2 ^ 24 ∧ pmMaxObjects ≤ 256
          then packedPath G keys (arrayOf l) l.length
          else comparedPath G (arrayOf l) l.length) l.length = collectSort G l := by
        rw [collectSort]
        split_ifs with h
        · rw [listOf_packedPath, listOf_arrayOf]
          intro i hi
          have hmem : arrayOf l i ∈ l := by
            rw [← listOf_arrayOf l]
            exact mem_listOf.mpr ⟨i, hi, by rw [listOf_arrayOf]⟩
          have hlt := hslot _ hmem
          omega
        · rw [listOf_comparedPath, listOf_arrayOf]
      rw [Option.bind_some, collectFinish, addressesDiffer_eq, hsort]
      dsimp only
      split_ifs <;> rfl

/-! ### The two paths agree -/

/-- The live-slot list of pool `pid` as the walk leaves it in `out`: distinct slots of live
descriptors of the pool, whose blocks lie in the zone. -/
structure LiveList [PmConfig] (G : GlobalState) (pid : ℕ) (out : ℕ → ℕ) (n : ℕ) : Prop where
  slot_lt : ∀ i < n, out i < pmMaxObjects
  live : ∀ i < n, (G.objects (out i)).state = .live
  pool : ∀ i < n, (G.objects (out i)).poolId = pid
  distinct : ∀ i < n, ∀ j < n, out i = out j → i = j
  inZone : ∀ i < n, G.zone ≤ (G.objects (out i)).address
    ∧ (G.objects (out i)).address < G.zone + G.zoneSize

/-- A list in the order of the comparator passes the final check when it is strictly
ascending. -/
lemma distinctAddresses_sorted {G : GlobalState} {l : List ℕ}
    (h : l.Pairwise fun i j => slotLess G j i = false) :
    distinctAddresses G l = true ↔
      l.Pairwise fun i j => (G.objects i).address < (G.objects j).address := by
  refine ⟨fun hd => ?_, distinctAddresses_of_pairwise⟩
  rw [distinctAddresses_iff, List.isChain_iff_getElem] at hd
  have htrans : IsTrans ℕ fun i j => (G.objects i).address < (G.objects j).address :=
    ⟨fun _ _ _ => Nat.lt_trans⟩
  rw [← List.isChain_iff_pairwise, List.isChain_iff_getElem]
  intro i hi
  have hle := List.pairwise_iff_getElem.mp h i (i + 1) (by omega) hi (by omega)
  rw [slotLess_eq, decide_eq_false_iff_not] at hle
  have hne := hd i hi
  omega

/-- Some two entries of the array share an address. -/
def SharedAddress (G : GlobalState) (out : ℕ → ℕ) (n : ℕ) : Prop :=
  ∃ i < n, ∃ j < n, i ≠ j ∧ (G.objects (out i)).address = (G.objects (out j)).address

section Sorted

variable {G : GlobalState} {out sorted : ℕ → ℕ} {n : ℕ}

/-- Distinct slots in the order of the comparator are strictly ascending unless two of them
share an address. -/
lemma pairwise_lt_iff (hdist : ∀ i < n, ∀ j < n, out i = out j → i = j)
    (hperm : (listOf sorted n).Perm (listOf out n))
    (hsort : (listOf sorted n).Pairwise fun i j => slotLess G j i = false) :
    ((listOf sorted n).Pairwise fun i j => (G.objects i).address < (G.objects j).address) ↔
      ¬ SharedAddress G out n := by
  constructor
  · rintro hlt ⟨i, hi, j, hj, hij, heq⟩
    have hmem : ∀ k < n, out k ∈ listOf sorted n := fun k hk =>
      hperm.mem_iff.mpr (mem_listOf.mpr ⟨k, hk, rfl⟩)
    have hsymm : Std.Symm fun i j => (G.objects i).address ≠ (G.objects j).address :=
      ⟨fun _ _ h => h.symm⟩
    have hne := (hlt.imp fun h => h.ne).forall (hmem i hi) (hmem j hj)
    exact hne (fun h => hij (hdist i hi j hj h)) heq
  · intro hno
    have hnodup : (listOf out n).Nodup :=
      List.nodup_range.map_on fun i hi j hj =>
        hdist i (List.mem_range.mp hi) j (List.mem_range.mp hj)
    refine (hsort.and (hperm.nodup_iff.mpr hnodup)).imp_of_mem fun {x y} hx hy hxy => ?_
    obtain ⟨i, hi, rfl⟩ := mem_listOf.mp (hperm.mem_iff.mp hx)
    obtain ⟨j, hj, rfl⟩ := mem_listOf.mp (hperm.mem_iff.mp hy)
    obtain ⟨hle, hne⟩ := hxy
    rw [slotLess_eq, decide_eq_false_iff_not] at hle
    have haddr : (G.objects (out i)).address ≠ (G.objects (out j)).address := fun heq =>
      hno ⟨i, hi, j, hj, fun hij => hne (by rw [hij]), heq⟩
    omega

/-- The end of either path returns `Ok` with the one strictly ascending arrangement of the
slots. -/
lemma collectFinish_ok_iff (hperm : (listOf sorted n).Perm (listOf out n))
    (hsort : (listOf sorted n).Pairwise fun i j => slotLess G j i = false) (r : List ℕ) :
    collectFinish G sorted n = .ok r ↔ r.Perm (listOf out n)
      ∧ r.Pairwise fun i j => (G.objects i).address < (G.objects j).address := by
  have hstrict := distinctAddresses_sorted hsort
  rw [collectFinish, addressesDiffer_eq]
  constructor
  · intro h
    split_ifs at h with hd
    obtain rfl := Except.ok.inj h
    exact ⟨hperm, hstrict.mp hd⟩
  · rintro ⟨hr, hlt⟩
    have heq : listOf sorted n = r :=
      eq_of_slotLess (hperm.trans hr.symm) hsort (hlt.imp slotLess_of_lt)
    rw [if_pos (hstrict.mpr (heq ▸ hlt)), heq]

/-- The end of either path refuses exactly a shared address. -/
lemma collectFinish_error_iff (hdist : ∀ i < n, ∀ j < n, out i = out j → i = j)
    (hperm : (listOf sorted n).Perm (listOf out n))
    (hsort : (listOf sorted n).Pairwise fun i j => slotLess G j i = false) :
    collectFinish G sorted n = .error .corruptMetadata ↔ SharedAddress G out n := by
  have hstrict := distinctAddresses_sorted hsort
  rw [pairwise_lt_iff hdist hperm hsort] at hstrict
  rw [collectFinish, addressesDiffer_eq]
  split_ifs with hd
  · exact ⟨fun h => (nomatch h), fun h => absurd h (hstrict.mp hd)⟩
  · exact ⟨fun _ => not_not.mp fun h => hd (hstrict.mpr h), fun _ => rfl⟩

end Sorted

/-- Where the packed keys fit, the packed path and the comparator path of
`collect_live_sorted` return the same: `Ok` with the one strictly ascending arrangement of
the live slots, or `CorruptMetadata` exactly when two of them share an address. -/
theorem collectFinish_paths [PmConfig] {G : GlobalState} {pid n : ℕ} {out : ℕ → ℕ}
    (keys : ℕ → ℕ) (hlist : LiveList G pid out n) (hzone : G.zoneSize ≤ 2 ^ 24)
    (hmax : pmMaxObjects ≤ 256) :
    collectFinish G (packedPath G keys out n) n = collectFinish G (comparedPath G out n) n
      ∧ (∀ r, collectFinish G (packedPath G keys out n) n = .ok r ↔ r.Perm (listOf out n)
        ∧ r.Pairwise fun i j => (G.objects i).address < (G.objects j).address)
      ∧ (collectFinish G (packedPath G keys out n) n = .error .corruptMetadata ↔
        SharedAddress G out n) := by
  have hslot : ∀ i < n, out i < 2 ^ 8 := fun i hi => by
    have hlt := hlist.slot_lt i hi
    omega
  have hin : ∀ i < n, G.zone ≤ (G.objects (out i)).address
      ∧ (G.objects (out i)).address < G.zone + 2 ^ 24 := fun i hi => by
    have hz := hlist.inZone i hi
    omega
  have hsame := packedPath_eq G keys out hslot hin
  have hperm : (listOf (packedPath G keys out n) n).Perm (listOf out n) :=
    hsame ▸ listOf_heapSort_perm (slotLess G) out n
  have hsort : (listOf (packedPath G keys out n) n).Pairwise fun i j =>
      slotLess G j i = false :=
    hsame ▸ listOf_heapSort_slotLess G out n
  refine ⟨?_, collectFinish_ok_iff hperm hsort,
    collectFinish_error_iff hlist.distinct hperm hsort⟩
  rw [collectFinish, collectFinish, addressesDiffer_eq, addressesDiffer_eq, hsame]

/-- Three live blocks of one pool, listed in neither direction of address order. -/
def scrambled : GlobalState :=
  letI := threeObjects
  runOps (init .zero ⟨8, 3072, 1024⟩).2 [.createPool 3, .alloc 0 8 8 0 0, .alloc 0 8 8 0 0,
    .alloc 0 8 8 0 0, .free ⟨1, 1, crossHint, 0⟩ [], .alloc 0 8 8 0 0]

set_option maxRecDepth 100000 in
/-- The walk lists them in that order, and the direction scan gives up on their keys. -/
lemma scrambled_walk :
    letI := threeObjects
    collectWalk scrambled 0 (pmMaxObjects + 1) 3 noOrder (scrambled.pools 0).orderHead =
        some [1, 2, 0]
      ∧ directionScan (fun i => packedWord scrambled (arrayOf [1, 2, 0] i)) 2 1 true true
        = (false, false) := by
  decide +kernel

set_option maxRecDepth 100000 in
/-- The list the walk leaves is one the paths are about. -/
lemma scrambled_liveList :
    letI := threeObjects
    LiveList scrambled 0 (arrayOf [1, 2, 0]) 3 := by
  let _ := threeObjects
  exact ⟨by decide +kernel, by decide +kernel, by decide +kernel, by decide +kernel,
    by decide +kernel⟩

set_option maxRecDepth 100000 in
/-- The paths agree on the scrambled pool, whatever `s_ord_key` held: both return its slots
from the front of the zone to the back. -/
theorem collectFinish_paths_scrambled :
    letI := threeObjects
    collectFinish scrambled (packedPath scrambled (fun _ => 7) (arrayOf [1, 2, 0]) 3) 3
        = collectFinish scrambled (comparedPath scrambled (arrayOf [1, 2, 0]) 3) 3
      ∧ collectFinish scrambled (packedPath scrambled (fun _ => 7) (arrayOf [1, 2, 0]) 3) 3
        = .ok [0, 1, 2] := by
  let _ := threeObjects
  obtain ⟨hsame, hok, -⟩ := collectFinish_paths (fun _ => 7) scrambled_liveList
    (by decide +kernel) (by decide)
  exact ⟨hsame, (hok [0, 1, 2]).mpr ⟨by decide +kernel, by decide +kernel⟩⟩

end PondMerge
