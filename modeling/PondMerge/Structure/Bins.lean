import PondMerge.Model.Bins
import PondMerge.Library.LinkedList
import Mathlib.Data.Nat.Bitwise
import Mathlib.Tactic.Common

/-!
What the TLSF bins of a pool stand for: a set of free blocks, each in the bin its own size
selects, with bitmaps that agree with the list heads.

* `BinsRep`: bins, link words and the set of free blocks agree.
* `binsInsert_rep`, `binsRemove_rep`: insertion and removal act on the set.
* `binsInsert_frame`, `binsRemove_frame`: both write link words of free blocks only.
-/

namespace PondMerge

open ByteMemory LinkedList

variable [PmConfig]

/-! ### Size classes -/

lemma flIndex_ge (n : ℕ) : 4 ≤ flIndex n := by
  have hmax := PmConfig.flMax_gt
  rw [flIndex]
  split_ifs with h1 h2
  · exact le_refl 4
  · exact (Nat.le_log2 (by omega)).mpr (by omega)
  · omega

lemma flIndex_lt (n : ℕ) : flIndex n < pmFlMax := by
  have hmax := PmConfig.flMax_gt
  rw [flIndex]
  split_ifs <;> omega

lemma flBin_lt (n : ℕ) : flBin n < flCount := by
  have h1 := flIndex_ge n
  have h2 := flIndex_lt n
  rw [flBin, flCount]
  omega

lemma slBin_lt (n : ℕ) : slBin n < pmSlCount := by
  have hsl := PmConfig.slCount_ge
  rw [slBin, slIndex]
  split_ifs <;> omega

/-! ### The representation -/

/-- A set of free blocks, by address and size, that the links of a zone can thread. -/
structure Separated (zone : ℕ) (F : ℕ → ℕ → Prop) : Prop where
  inZone : ∀ {x n}, F x n → zone ≤ x ∧ x + 16 ≤ zone + 2 ^ 31
  apart : ∀ {x n y k}, F x n → F y k → (x = y ∧ n = k) ∨ x + 16 ≤ y ∨ y + 16 ≤ x

/-- The list of bin `(f, s)`: the zone offsets of exactly the free blocks of that class. -/
def BinList (zone : ℕ) (m : Mem) (F : ℕ → ℕ → Prop) (f s head : ℕ) (l : List ℕ) : Prop :=
  IsDList (fun o => blkNext m (ptrOf zone o)) (fun o => blkPrev m (ptrOf zone o))
      nullOff nullOff head l
    ∧ ∀ o, o ∈ l ↔ ∃ n, F (ptrOf zone o) n ∧ flBin n = f ∧ slBin n = s

/-- Bins and link words hold exactly the free blocks `F`. -/
structure BinsRep (zone : ℕ) (m : Mem) (b : TlsfBins) (F : ℕ → ℕ → Prop) : Prop where
  list : ∀ f < flCount, ∀ s < pmSlCount, ∃ l, BinList zone m F f s (b.head f s) l
  slBit : ∀ f < flCount, ∀ s,
    (b.slBitmap f).testBit s = true ↔ s < pmSlCount ∧ b.head f s ≠ nullOff
  flBit : ∀ f, b.flBitmap.testBit f = true ↔ f < flCount ∧ b.slBitmap f ≠ 0

/-- The addresses of link words. -/
def LinkByte (F : ℕ → ℕ → Prop) (x : ℕ) : Prop := ∃ y n, F y n ∧ y + 8 ≤ x ∧ x < y + 16

omit [PmConfig] in
lemma Separated.mono {zone : ℕ} {F F' : ℕ → ℕ → Prop} (h : Separated zone F)
    (hF : ∀ x n, F' x n → F x n) : Separated zone F' :=
  ⟨fun hx => h.inZone (hF _ _ hx), fun hx hy => h.apart (hF _ _ hx) (hF _ _ hy)⟩

omit [PmConfig] in
lemma Separated.size_unique {zone : ℕ} {F : ℕ → ℕ → Prop} (h : Separated zone F) {x n k : ℕ}
    (hn : F x n) (hk : F x k) : n = k := by
  rcases h.apart hn hk with heq | hlt | hlt
  · exact heq.2
  · omega
  · omega

omit [PmConfig] in
lemma Separated.ptrOf_offOf {zone : ℕ} {F : ℕ → ℕ → Prop} (h : Separated zone F) {x n : ℕ}
    (hx : F x n) : ptrOf zone (offOf zone x) = x := by
  have hz := h.inZone hx
  rw [offOf, u32_of_lt (by omega), ptrOf]
  omega

omit [PmConfig] in
lemma Separated.off_lt {zone : ℕ} {F : ℕ → ℕ → Prop} (h : Separated zone F) {o n : ℕ}
    (ho : F (ptrOf zone o) n) : o < 2 ^ 31 := by
  have hz := h.inZone ho
  rw [ptrOf] at hz
  omega

omit [PmConfig] in
lemma offOf_ptrOf {zone o : ℕ} (ho : o < 2 ^ 31) : offOf zone (ptrOf zone o) = o := by
  rw [ptrOf, offOf, Nat.add_sub_cancel_left, u32_of_lt (by omega)]

omit [PmConfig] in
lemma off_ne_null {o : ℕ} (ho : o < 2 ^ 31) : o ≠ nullOff := by
  rw [nullOff]
  omega

/-- The representation depends on the link words of its own blocks only. -/
lemma BinsRep.congr {zone : ℕ} {m m' : Mem} {b : TlsfBins} {F : ℕ → ℕ → Prop}
    (h : BinsRep zone m b F) (hm : ∀ x, LinkByte F x → m' x = m x) : BinsRep zone m' b F := by
  refine ⟨fun f hf s hs => ?_, h.slBit, h.flBit⟩
  obtain ⟨l, hl, hmem⟩ := h.list f hf s hs
  refine ⟨l, hl.congr (fun o ho => ?_) (fun o ho => ?_), hmem⟩
  · obtain ⟨n, hn, -, -⟩ := (hmem o).mp ho
    exact load32_congr fun k hk => hm _ ⟨_, n, hn, by omega, by omega⟩
  · obtain ⟨n, hn, -, -⟩ := (hmem o).mp ho
    exact load32_congr fun k hk => hm _ ⟨_, n, hn, by omega, by omega⟩

lemma BinsRep.congr_set {zone : ℕ} {m : Mem} {b : TlsfBins} {F F' : ℕ → ℕ → Prop}
    (h : BinsRep zone m b F) (hF : ∀ x n, F x n ↔ F' x n) : BinsRep zone m b F' := by
  have heq : F = F' := funext fun x => funext fun n => propext (hF x n)
  rwa [← heq]

/-- A free block is in the list of its class. -/
lemma BinList.mem {zone : ℕ} {m : Mem} {F : ℕ → ℕ → Prop} {f s h : ℕ} {l : List ℕ}
    (hl : BinList zone m F f s h l) (hsep : Separated zone F) {x n : ℕ} (hx : F x n)
    (hf : flBin n = f) (hs : slBin n = s) : offOf zone x ∈ l :=
  (hl.2 _).mpr ⟨n, by rwa [hsep.ptrOf_offOf hx], hf, hs⟩

/-- A bin is empty exactly when its head is `NULL_OFF`. -/
lemma BinList.head_null {zone : ℕ} {m : Mem} {F : ℕ → ℕ → Prop} {f s h : ℕ} {l : List ℕ}
    (hl : BinList zone m F f s h l) : h = nullOff ↔ l = [] := by
  cases l with
  | nil => exact ⟨fun _ => rfl, fun _ => hl.1⟩
  | cons o l =>
      refine ⟨fun hh => ?_, fun hh => absurd hh (List.cons_ne_nil o l)⟩
      exact absurd (hl.1.1.symm.trans hh) hl.1.2.1

/-- Empty bins hold no block. -/
lemma binsRep_reset (zone : ℕ) (m : Mem) : BinsRep zone m .reset fun _ _ => False := by
  refine ⟨fun f _ s _ => ⟨[], rfl, fun o => ?_⟩, fun f _ s => ?_, fun f => ?_⟩
  · simp
  · simp [TlsfBins.reset]
  · simp [TlsfBins.reset]

/-! ### Heads and bitmaps -/

omit [PmConfig] in
@[simp] lemma TlsfBins.setHead_head (b : TlsfBins) (f s off f' s' : ℕ) :
    (b.setHead f s off).head f' s' = if f' = f ∧ s' = s then off else b.head f' s' := by
  rw [TlsfBins.setHead]
  by_cases hf : f' = f
  · subst hf
    by_cases hs : s' = s
    · subst hs
      simp
    · simp [hs]
  · simp [hf]

omit [PmConfig] in
@[simp] lemma TlsfBins.setHead_slBitmap (b : TlsfBins) (f s off : ℕ) :
    (b.setHead f s off).slBitmap = b.slBitmap := rfl

omit [PmConfig] in
@[simp] lemma TlsfBins.setHead_flBitmap (b : TlsfBins) (f s off : ℕ) :
    (b.setHead f s off).flBitmap = b.flBitmap := rfl

omit [PmConfig] in
@[simp] lemma TlsfBins.setBits_head (b : TlsfBins) (f s : ℕ) :
    (b.setBits f s).head = b.head := rfl

omit [PmConfig] in
@[simp] lemma TlsfBins.clearBits_head (b : TlsfBins) (f s : ℕ) :
    (b.clearBits f s).head = b.head := rfl

omit [PmConfig] in
lemma testBit_or_two_pow (n i j : ℕ) :
    (n ||| 2 ^ i).testBit j = true ↔ n.testBit j = true ∨ j = i := by
  rw [Nat.testBit_or, Bool.or_eq_true, Nat.testBit_two_pow, decide_eq_true_eq, eq_comm (a := i)]

omit [PmConfig] in
lemma testBit_clear (n w i j : ℕ) (hi : i < w) :
    (n &&& (2 ^ w - 1 - 2 ^ i)).testBit j = true ↔ n.testBit j = true ∧ j < w ∧ j ≠ i := by
  have hlt : 2 ^ i < 2 ^ w := Nat.pow_lt_pow_right (by omega) hi
  rw [Nat.sub_sub, Nat.add_comm 1, Nat.testBit_and, Bool.and_eq_true,
    Nat.testBit_two_pow_sub_succ hlt, Nat.testBit_two_pow, Bool.and_eq_true, decide_eq_true_eq,
    Bool.not_eq_true', decide_eq_false_iff_not, ne_comm]

omit [PmConfig] in
lemma ne_zero_iff_testBit (n : ℕ) : n ≠ 0 ↔ ∃ i, n.testBit i = true :=
  ⟨Nat.exists_testBit_of_ne_zero, fun ⟨i, hi⟩ h => by simp [h] at hi⟩

/-- `setBits` keeps the bitmaps in step with a head that is set. -/
lemma setBits_bits {b b' : TlsfBins} {f s : ℕ} (hf : f < flCount) (hs : s < pmSlCount)
    (hsl : ∀ f < flCount, ∀ s,
      (b.slBitmap f).testBit s = true ↔ s < pmSlCount ∧ b.head f s ≠ nullOff)
    (hfl : ∀ f, b.flBitmap.testBit f = true ↔ f < flCount ∧ b.slBitmap f ≠ 0)
    (hb' : b'.slBitmap = b.slBitmap ∧ b'.flBitmap = b.flBitmap)
    (hhead : ∀ f' s', ¬ (f' = f ∧ s' = s) → b'.head f' s' = b.head f' s')
    (hnew : b'.head f s ≠ nullOff) :
    (∀ f' < flCount, ∀ s', ((b'.setBits f s).slBitmap f').testBit s' = true ↔
      s' < pmSlCount ∧ b'.head f' s' ≠ nullOff)
    ∧ ∀ f', (b'.setBits f s).flBitmap.testBit f' = true ↔
      f' < flCount ∧ (b'.setBits f s).slBitmap f' ≠ 0 := by
  -- the second level gains one bit, and the first one follows
  have hrow : ∀ f' s', ((b'.setBits f s).slBitmap f').testBit s' = true ↔
      (b.slBitmap f').testBit s' = true ∨ (f' = f ∧ s' = s) := by
    intro f' s'
    by_cases hff : f' = f
    · subst hff
      simp only [TlsfBins.setBits, Function.update_self, hb'.1, testBit_or_two_pow, true_and]
    · simp only [TlsfBins.setBits, Function.update_of_ne hff, hb'.1, hff, false_and, or_false]
  constructor
  · intro f' hf' s'
    rw [hrow]
    by_cases hfs : f' = f ∧ s' = s
    · obtain ⟨rfl, rfl⟩ := hfs
      simp [hs, hnew]
    · rw [or_iff_left hfs, hsl f' hf', hhead f' s' hfs]
  · intro f'
    have hfb : (b'.setBits f s).flBitmap.testBit f' = true ↔
        b.flBitmap.testBit f' = true ∨ f' = f := by
      simp only [TlsfBins.setBits, hb'.2, testBit_or_two_pow]
    rw [hfb, hfl, ne_zero_iff_testBit, ne_zero_iff_testBit]
    constructor
    · rintro (⟨hlt, i, hi⟩ | rfl)
      · exact ⟨hlt, i, (hrow f' i).mpr (Or.inl hi)⟩
      · exact ⟨hf, s, (hrow f' s).mpr (Or.inr ⟨rfl, rfl⟩)⟩
    · rintro ⟨hlt, i, hi⟩
      rcases (hrow f' i).mp hi with hi | ⟨rfl, -⟩
      · exact Or.inl ⟨hlt, i, hi⟩
      · exact Or.inr rfl

/-- `clearBits` keeps the bitmaps in step with a head that has become `NULL_OFF`. -/
lemma clearBits_bits {b b' : TlsfBins} {f s : ℕ} (hf : f < flCount) (hs : s < pmSlCount)
    (hsl : ∀ f < flCount, ∀ s,
      (b.slBitmap f).testBit s = true ↔ s < pmSlCount ∧ b.head f s ≠ nullOff)
    (hfl : ∀ f, b.flBitmap.testBit f = true ↔ f < flCount ∧ b.slBitmap f ≠ 0)
    (hb' : b'.slBitmap = b.slBitmap ∧ b'.flBitmap = b.flBitmap)
    (hhead : ∀ f' s', ¬ (f' = f ∧ s' = s) → b'.head f' s' = b.head f' s')
    (hnew : b'.head f s = nullOff) :
    (∀ f' < flCount, ∀ s', ((b'.clearBits f s).slBitmap f').testBit s' = true ↔
      s' < pmSlCount ∧ b'.head f' s' ≠ nullOff)
    ∧ ∀ f', (b'.clearBits f s).flBitmap.testBit f' = true ↔
      f' < flCount ∧ (b'.clearBits f s).slBitmap f' ≠ 0 := by
  have h16 := PmConfig.slCount_le
  have h31 := PmConfig.flMax_le
  have hfc : flCount ≤ 27 := by rw [flCount]; omega
  -- a bit of the second level is cleared for the bin alone
  have hrow : ∀ f' < flCount, ∀ s', ((b'.clearBits f s).slBitmap f').testBit s' = true ↔
      (b.slBitmap f').testBit s' = true ∧ ¬ (f' = f ∧ s' = s) := by
    intro f' hf' s'
    by_cases hff : f' = f
    · subst hff
      simp only [TlsfBins.clearBits, Function.update_self, hb'.1, true_and]
      rw [testBit_clear _ _ _ _ (by omega)]
      constructor
      · exact fun h => ⟨h.1, h.2.2⟩
      · exact fun h => ⟨h.1, by have := ((hsl f' hf' s').mp h.1).1; omega, h.2⟩
    · simp only [TlsfBins.clearBits, Function.update_of_ne hff, hb'.1, hff, false_and,
        not_false_eq_true, and_true]
  constructor
  · intro f' hf' s'
    rw [hrow f' hf']
    by_cases hfs : f' = f ∧ s' = s
    · obtain ⟨rfl, rfl⟩ := hfs
      simp [hnew]
    · rw [and_iff_left hfs, hsl f' hf', hhead f' s' hfs]
  · intro f'
    -- the first level follows if the row has become empty
    by_cases hff : f' = f
    · subst hff
      have hself : (b'.clearBits f' s).slBitmap f' =
          b'.slBitmap f' &&& (2 ^ 16 - 1 - 2 ^ s) := by
        simp only [TlsfBins.clearBits, Function.update_self]
      rw [hself]
      simp only [TlsfBins.clearBits]
      split_ifs with hz
      · rw [testBit_clear _ _ _ _ (by omega)]
        exact ⟨fun h => absurd rfl h.2.2, fun h => absurd hz h.2⟩
      · rw [hb'.2, hfl]
        refine and_congr_right fun _ => ⟨fun _ => hz, fun _ hz' => hz ?_⟩
        rw [hb'.1, hz', Nat.zero_and]
    · have hsame : (b'.clearBits f s).slBitmap f' = b.slBitmap f' := by
        simp only [TlsfBins.clearBits, Function.update_of_ne hff, hb'.1]
      rw [hsame]
      simp only [TlsfBins.clearBits, hb'.2]
      split_ifs
      · rw [testBit_clear _ _ _ _ (by omega), hfl]
        constructor
        · exact fun h => h.1
        · exact fun h => ⟨h, by omega, hff⟩
      · exact hfl f'

/-! ### Link words -/

omit [PmConfig] in
/-- A store to the `next` word of a block misses every `prev` word, and conversely. -/
lemma load32_store_other (m : Mem) {y z v i j : ℕ} (hap : y = z ∨ y + 16 ≤ z ∨ z + 16 ≤ y)
    (hij : i = 8 ∧ j = 12 ∨ i = 12 ∧ j = 8) :
    load32 (store32 m (z + j) v) (y + i) = load32 m (y + i) :=
  load32_store32_of_disjoint m (by omega)

omit [PmConfig] in
/-- A store to a link word of one block, read back at the same word of another. -/
lemma load32_store_link (m : Mem) {y z v i : ℕ} (hap : y = z ∨ y + 16 ≤ z ∨ z + 16 ≤ y)
    (hi : i = 8 ∨ i = 12) :
    load32 (store32 m (z + i) v) (y + i) = if y = z then v % 2 ^ 32 else load32 m (y + i) := by
  split_ifs with h
  · rw [h, load32_store32_self]
  · exact load32_store32_of_disjoint m (by omega)

omit [PmConfig] in
lemma Separated.near {zone : ℕ} {F : ℕ → ℕ → Prop} (h : Separated zone F) {x n y k : ℕ}
    (hx : F x n) (hy : F y k) : x = y ∨ x + 16 ≤ y ∨ y + 16 ≤ x :=
  (h.apart hx hy).imp_left fun h => h.1

/-- The head of a bin that is not empty is a free block of its class. -/
lemma BinsRep.head_mem {zone : ℕ} {m : Mem} {b : TlsfBins} {F : ℕ → ℕ → Prop}
    (h : BinsRep zone m b F) {f s : ℕ} (hf : f < flCount) (hs : s < pmSlCount)
    (hne : b.head f s ≠ nullOff) :
    ∃ n, F (ptrOf zone (b.head f s)) n ∧ flBin n = f ∧ slBin n = s := by
  obtain ⟨l, hl⟩ := h.list f hf s hs
  cases l with
  | nil => exact absurd hl.1 hne
  | cons o l =>
      refine (hl.2 _).mp ?_
      rw [hl.1.1]
      exact List.mem_cons_self

/-! ### Insertion -/

section Insert

variable {zone x n : ℕ} {m : Mem} {b : TlsfBins} {F : ℕ → ℕ → Prop}

/-- The set of free blocks with one more. -/
def addBlock (F : ℕ → ℕ → Prop) (x n : ℕ) : ℕ → ℕ → Prop := fun y k => F y k ∨ (y = x ∧ k = n)

lemma binsInsert_next (h : BinsRep zone m b F) (hsep : Separated zone (addBlock F x n))
    (hsize : blkSizeOf m x = n) {y k : ℕ} (hy : addBlock F x n y k) :
    blkNext (binsInsert zone b m x).2 y =
      if y = x then b.head (flBin n) (slBin n) else blkNext m y := by
  have hx : addBlock F x n x n := Or.inr ⟨rfl, rfl⟩
  have hold : b.head (flBin n) (slBin n) % 2 ^ 32 = b.head (flBin n) (slBin n) := by
    by_cases hne : b.head (flBin n) (slBin n) = nullOff
    · rw [hne]
      rfl
    · obtain ⟨k', hk', -, -⟩ := h.head_mem (flBin_lt n) (slBin_lt n) hne
      have hlt := hsep.off_lt (Or.inl hk')
      exact Nat.mod_eq_of_lt (by omega)
  have hbase : load32 (store32 (store32 m (x + 8) nullOff) (x + 12)
      (b.head (flBin n) (slBin n))) (y + 12) =
      if y = x then b.head (flBin n) (slBin n) else load32 m (y + 12) := by
    rw [load32_store_link _ (hsep.near hy hx) (Or.inr rfl), hold,
      load32_store_other _ (hsep.near hy hx) (Or.inr ⟨rfl, rfl⟩)]
  rw [blkNext, blkNext, binsInsert, hsize]
  dsimp only
  by_cases hne : b.head (flBin n) (slBin n) = nullOff
  · rw [if_neg (not_not.mpr hne), hbase]
  · obtain ⟨k', hk', -, -⟩ := h.head_mem (flBin_lt n) (slBin_lt n) hne
    rw [if_pos hne, load32_store_other _ (hsep.near hy (Or.inl hk')) (Or.inr ⟨rfl, rfl⟩), hbase]

lemma binsInsert_prev (h : BinsRep zone m b F) (hsep : Separated zone (addBlock F x n))
    (hnew : ∀ k, ¬ F x k) (hsize : blkSizeOf m x = n) {y k : ℕ} (hy : addBlock F x n y k) :
    blkPrev (binsInsert zone b m x).2 y =
      if y = x then nullOff
      else if b.head (flBin n) (slBin n) ≠ nullOff
        ∧ y = ptrOf zone (b.head (flBin n) (slBin n)) then offOf zone x
      else blkPrev m y := by
  have hx : addBlock F x n x n := Or.inr ⟨rfl, rfl⟩
  have hoff : offOf zone x % 2 ^ 32 = offOf zone x := Nat.mod_eq_of_lt (u32_lt _)
  have hbase : load32 (store32 (store32 m (x + 8) nullOff) (x + 12)
      (b.head (flBin n) (slBin n))) (y + 8) = if y = x then nullOff else load32 m (y + 8) := by
    rw [load32_store_other _ (hsep.near hy hx) (Or.inl ⟨rfl, rfl⟩),
      load32_store_link _ (hsep.near hy hx) (Or.inl rfl)]
    rfl
  rw [blkPrev, blkPrev, binsInsert, hsize]
  dsimp only
  by_cases hne : b.head (flBin n) (slBin n) = nullOff
  · simp only [hne, ne_eq, not_true_eq_false, if_false, false_and]
    rw [hne] at hbase
    exact hbase
  · obtain ⟨k', hk', -, -⟩ := h.head_mem (flBin_lt n) (slBin_lt n) hne
    simp only [hne, ne_eq, not_false_eq_true, if_true, true_and]
    rw [load32_store_link _ (hsep.near hy (Or.inl hk')) (Or.inl rfl), hbase, hoff]
    by_cases hyx : y = x
    · have hhead : y ≠ ptrOf zone (b.head (flBin n) (slBin n)) := by
        intro heq
        rw [← heq, hyx] at hk'
        exact hnew k' hk'
      rw [if_neg hhead, if_pos hyx, if_pos hyx]
    · rw [if_neg hyx, if_neg hyx]

/-- Insertion adds the block to the set. -/
theorem binsInsert_rep (h : BinsRep zone m b F) (hsep : Separated zone (addBlock F x n))
    (hnew : ∀ k, ¬ F x k) (hsize : blkSizeOf m x = n) :
    BinsRep zone (binsInsert zone b m x).2 (binsInsert zone b m x).1 (addBlock F x n) := by
  have hx : addBlock F x n x n := Or.inr ⟨rfl, rfl⟩
  have hxo : ptrOf zone (offOf zone x) = x := hsep.ptrOf_offOf hx
  have hxlt : offOf zone x < 2 ^ 31 := hsep.off_lt (n := n) (by rwa [hxo])
  have hbins : (binsInsert zone b m x).1 =
      (b.setHead (flBin n) (slBin n) (offOf zone x)).setBits (flBin n) (slBin n) := by
    rw [binsInsert, hsize]
  have hbits := @setBits_bits _ _ (b.setHead (flBin n) (slBin n) (offOf zone x)) _ _
    (flBin_lt n) (slBin_lt n) h.slBit h.flBit ⟨rfl, rfl⟩
    (fun f' s' hfs => by rw [TlsfBins.setHead_head, if_neg hfs])
    (by rw [TlsfBins.setHead_head, if_pos ⟨rfl, rfl⟩]; exact off_ne_null hxlt)
  refine ⟨fun f hf s hs => ?_, ?_, ?_⟩
  · rw [hbins, TlsfBins.setBits_head, TlsfBins.setHead_head]
    obtain ⟨l, hl, hmem⟩ := h.list f hf s hs
    have hnode : ∀ o ∈ l, ∃ k, F (ptrOf zone o) k ∧ flBin k = f ∧ slBin k = s :=
      fun o ho => (hmem o).mp ho
    -- the block is on no list yet
    have hfresh : ∀ o ∈ l, ptrOf zone o ≠ x := by
      intro o ho heq
      obtain ⟨k, hk, -, -⟩ := hnode o ho
      exact hnew k (heq ▸ hk)
    split_ifs with hfs
    · -- the block's own bin: a push onto its list
      refine ⟨offOf zone x :: l, ?_, fun o => ?_⟩
      · have hxl : offOf zone x ∉ l := fun ho => hfresh _ ho hxo
        refine hl.push (off_ne_null hxlt) ?_ ?_ (fun o ho => ?_) (fun o ho => ?_)
        · rw [binsInsert_next h hsep hsize (by rw [hxo]; exact hx), if_pos hxo, hfs.1, hfs.2]
        · rw [binsInsert_prev h hsep hnew hsize (by rw [hxo]; exact hx), if_pos hxo]
        · obtain ⟨k, hk, -, -⟩ := hnode o ho
          rw [binsInsert_next h hsep hsize (Or.inl hk), if_neg (hfresh o ho)]
        · obtain ⟨k, hk, -, -⟩ := hnode o ho
          have hlt := hsep.off_lt (Or.inl hk)
          rw [binsInsert_prev h hsep hnew hsize (Or.inl hk), if_neg (hfresh o ho), hfs.1, hfs.2]
          refine if_congr ⟨fun hh => ?_, fun hh => ?_⟩ rfl rfl
          · have heq := hh.2
            rw [ptrOf, ptrOf] at heq
            omega
          · exact ⟨hh ▸ off_ne_null hlt, hh ▸ rfl⟩
      · rw [List.mem_cons, hmem]
        constructor
        · rintro (rfl | ⟨k, hk, hc⟩)
          · exact ⟨n, by rwa [hxo], hfs.1.symm, hfs.2.symm⟩
          · exact ⟨k, Or.inl hk, hc⟩
        · rintro ⟨k, hk | ⟨heq, rfl⟩, hc⟩
          · exact Or.inr ⟨k, hk, hc⟩
          · refine Or.inl ?_
            rw [ptrOf] at heq
            rw [ptrOf] at hxo
            omega
    · -- any other bin: its blocks keep their links
      refine ⟨l, hl.congr (fun o ho => ?_) (fun o ho => ?_), fun o => ?_⟩
      · obtain ⟨k, hk, -, -⟩ := hnode o ho
        rw [binsInsert_next h hsep hsize (Or.inl hk), if_neg (hfresh o ho)]
      · obtain ⟨k, hk, hkf, hks⟩ := hnode o ho
        rw [binsInsert_prev h hsep hnew hsize (Or.inl hk), if_neg (hfresh o ho), if_neg]
        rintro ⟨hne, heq⟩
        obtain ⟨k', hk', hkf', hks'⟩ := h.head_mem (flBin_lt n) (slBin_lt n) hne
        rw [← heq] at hk'
        have hkk := hsep.size_unique (Or.inl hk) (Or.inl hk')
        subst hkk
        exact hfs ⟨hkf.symm.trans hkf', hks.symm.trans hks'⟩
      · rw [hmem]
        constructor
        · rintro ⟨k, hk, hc⟩
          exact ⟨k, Or.inl hk, hc⟩
        · rintro ⟨k, hk | ⟨heq, rfl⟩, hc⟩
          · exact ⟨k, hk, hc⟩
          · exact absurd ⟨hc.1.symm, hc.2.symm⟩ hfs
  · rw [hbins]
    exact hbits.1
  · rw [hbins]
    exact hbits.2

/-- Insertion writes link words of free blocks only. -/
lemma binsInsert_frame (h : BinsRep zone m b F) (hsize : blkSizeOf m x = n) {z : ℕ}
    (hz : ¬ LinkByte (addBlock F x n) z) : (binsInsert zone b m x).2 z = m z := by
  have hx : ¬ (x + 8 ≤ z ∧ z < x + 16) := fun hin => hz ⟨x, n, Or.inr ⟨rfl, rfl⟩, hin⟩
  rw [binsInsert, hsize]
  split_ifs with hne
  · obtain ⟨k, hk, -, -⟩ := h.head_mem (flBin_lt n) (slBin_lt n) hne
    have hk' : ¬ (ptrOf zone (b.head (flBin n) (slBin n)) + 8 ≤ z
        ∧ z < ptrOf zone (b.head (flBin n) (slBin n)) + 16) :=
      fun hin => hz ⟨_, k, Or.inl hk, hin⟩
    dsimp only
    rw [store32_apply_of_not_mem _ (by omega), store32_apply_of_not_mem _ (by omega),
      store32_apply_of_not_mem _ (by omega)]
  · dsimp only
    rw [store32_apply_of_not_mem _ (by omega), store32_apply_of_not_mem _ (by omega)]

end Insert

/-! ### Removal -/

section Remove

variable {zone x n : ℕ} {m : Mem} {b : TlsfBins} {F : ℕ → ℕ → Prop}

/-- The set of free blocks without the one at `x`. -/
def delBlock (F : ℕ → ℕ → Prop) (x : ℕ) : ℕ → ℕ → Prop := fun y k => F y k ∧ y ≠ x

/-- The links of a binned block are null or lead to other blocks of the same class. -/
lemma BinsRep.link_mem (h : BinsRep zone m b F) (hsep : Separated zone F) (hx : F x n) :
    (blkPrev m x ≠ nullOff → ∃ k, F (ptrOf zone (blkPrev m x)) k ∧ flBin k = flBin n
      ∧ slBin k = slBin n ∧ ptrOf zone (blkPrev m x) ≠ x)
    ∧ (blkNext m x ≠ nullOff → ∃ k, F (ptrOf zone (blkNext m x)) k ∧ flBin k = flBin n
      ∧ slBin k = slBin n ∧ ptrOf zone (blkNext m x) ≠ x) := by
  obtain ⟨l, hl, hmem⟩ := h.list _ (flBin_lt n) _ (slBin_lt n)
  have hxl : offOf zone x ∈ l := BinList.mem ⟨hl, hmem⟩ hsep hx rfl rfl
  have hxo : ptrOf zone (offOf zone x) = x := hsep.ptrOf_offOf hx
  have hself : ∀ o, ptrOf zone o = x → o = offOf zone x := by
    intro o heq
    rw [ptrOf] at heq hxo
    omega
  have hpm := hl.prev_mem hxl
  have hpne := hl.prev_ne hxl
  have hnm := hl.next_mem hxl
  have hnne := hl.next_ne hxl
  rw [hxo] at hpm hpne hnm hnne
  constructor
  · intro hne
    obtain ⟨k, hk, hc⟩ := (hmem _).mp (hpm.resolve_left hne)
    exact ⟨k, hk, hc.1, hc.2, fun heq => hpne (hself _ heq)⟩
  · intro hne
    obtain ⟨k, hk, hc⟩ := (hmem _).mp (hnm.resolve_left hne)
    exact ⟨k, hk, hc.1, hc.2, fun heq => hnne (hself _ heq)⟩

/-- The memory `bins_remove` leaves: its neighbours' links skip the block, whose own links
become null. -/
lemma binsRemove_mem (h : BinsRep zone m b F) (hsep : Separated zone F) (hx : F x n) :
    (binsRemove zone b m x).2 = store32 (store32
      (if blkNext m x ≠ nullOff then
        store32 (if blkPrev m x ≠ nullOff then
          store32 m (ptrOf zone (blkPrev m x) + 12) (blkNext m x) else m)
          (ptrOf zone (blkNext m x) + 8) (blkPrev m x)
      else if blkPrev m x ≠ nullOff then
        store32 m (ptrOf zone (blkPrev m x) + 12) (blkNext m x) else m)
      (x + 12) nullOff) (x + 8) nullOff := by
  obtain ⟨hprev, -⟩ := h.link_mem hsep hx
  have hn : blkNext (if blkPrev m x ≠ nullOff then
      store32 m (ptrOf zone (blkPrev m x) + 12) (blkNext m x) else m) x = blkNext m x := by
    split_ifs with hp
    · obtain ⟨k, hk, -, -, hne⟩ := hprev hp
      rw [blkNext, load32_store_link _ (hsep.near hx hk) (Or.inr rfl),
        if_neg (Ne.symm hne), ← blkNext]
    · rfl
  have hpv : blkPrev (if blkPrev m x ≠ nullOff then
      store32 m (ptrOf zone (blkPrev m x) + 12) (blkNext m x) else m) x = blkPrev m x := by
    split_ifs with hp
    · obtain ⟨k, hk, -, -, -⟩ := hprev hp
      rw [blkPrev, load32_store_other _ (hsep.near hx hk) (Or.inl ⟨rfl, rfl⟩), ← blkPrev]
    · rfl
  rw [binsRemove]
  dsimp only
  rw [hn, hpv]

lemma binsRemove_next (h : BinsRep zone m b F) (hsep : Separated zone F) (hx : F x n)
    {y k : ℕ} (hy : F y k) (hyx : y ≠ x) :
    blkNext (binsRemove zone b m x).2 y =
      if blkPrev m x ≠ nullOff ∧ y = ptrOf zone (blkPrev m x) then blkNext m x
      else blkNext m y := by
  obtain ⟨hprev, hnext⟩ := h.link_mem hsep hx
  have hw : blkNext m x % 2 ^ 32 = blkNext m x := Nat.mod_eq_of_lt (load32_lt m _)
  have hstep : ∀ m', load32 (if blkNext m x ≠ nullOff then
      store32 m' (ptrOf zone (blkNext m x) + 8) (blkPrev m x) else m') (y + 12) =
      load32 m' (y + 12) := by
    intro m'
    split_ifs with hn
    · obtain ⟨i, hi, -, -, -⟩ := hnext hn
      exact load32_store_other _ (hsep.near hy hi) (Or.inr ⟨rfl, rfl⟩)
    · rfl
  rw [binsRemove_mem h hsep hx, blkNext,
    load32_store_other _ (hsep.near hy hx) (Or.inr ⟨rfl, rfl⟩),
    load32_store_link _ (hsep.near hy hx) (Or.inr rfl), if_neg hyx, hstep]
  by_cases hp : blkPrev m x = nullOff
  · rw [if_neg (not_not.mpr hp), if_neg fun hh => hh.1 hp]
    rfl
  · obtain ⟨i, hi, -, -, -⟩ := hprev hp
    rw [if_pos hp, load32_store_link _ (hsep.near hy hi) (Or.inr rfl), hw]
    simp only [hp, ne_eq, not_false_eq_true, true_and]
    rfl

lemma binsRemove_prev (h : BinsRep zone m b F) (hsep : Separated zone F) (hx : F x n)
    {y k : ℕ} (hy : F y k) (hyx : y ≠ x) :
    blkPrev (binsRemove zone b m x).2 y =
      if blkNext m x ≠ nullOff ∧ y = ptrOf zone (blkNext m x) then blkPrev m x
      else blkPrev m y := by
  obtain ⟨hprev, hnext⟩ := h.link_mem hsep hx
  have hw : blkPrev m x % 2 ^ 32 = blkPrev m x := Nat.mod_eq_of_lt (load32_lt m _)
  have hstep : load32 (if blkPrev m x ≠ nullOff then
      store32 m (ptrOf zone (blkPrev m x) + 12) (blkNext m x) else m) (y + 8) =
      load32 m (y + 8) := by
    split_ifs with hp
    · obtain ⟨i, hi, -, -, -⟩ := hprev hp
      exact load32_store_other _ (hsep.near hy hi) (Or.inl ⟨rfl, rfl⟩)
    · rfl
  rw [binsRemove_mem h hsep hx, blkPrev,
    load32_store_link _ (hsep.near hy hx) (Or.inl rfl), if_neg hyx,
    load32_store_other _ (hsep.near hy hx) (Or.inl ⟨rfl, rfl⟩)]
  by_cases hn : blkNext m x = nullOff
  · simp only [hn, ne_eq, not_true_eq_false, if_false, false_and] at hstep ⊢
    exact hstep
  · obtain ⟨i, hi, -, -, -⟩ := hnext hn
    rw [if_pos hn, load32_store_link _ (hsep.near hy hi) (Or.inl rfl), hw, hstep]
    simp only [hn, ne_eq, not_false_eq_true, true_and]
    rfl

/-- The bins `bins_remove` leaves. -/
lemma binsRemove_bins (zone : ℕ) (b : TlsfBins) (hsize : blkSizeOf m x = n) :
    let b' := if blkPrev m x ≠ nullOff then b
      else b.setHead (flBin n) (slBin n) (blkNext m x)
    (binsRemove zone b m x).1 =
      if b'.head (flBin n) (slBin n) = nullOff then b'.clearBits (flBin n) (slBin n)
      else b' := by
  rw [binsRemove, hsize]

/-- Removal takes the block out of the set. -/
theorem binsRemove_rep (h : BinsRep zone m b F) (hsep : Separated zone F) (hx : F x n)
    (hsize : blkSizeOf m x = n) :
    BinsRep zone (binsRemove zone b m x).2 (binsRemove zone b m x).1 (delBlock F x) := by
  have hxo : ptrOf zone (offOf zone x) = x := hsep.ptrOf_offOf hx
  obtain ⟨hprev, hnext⟩ := h.link_mem hsep hx
  -- the head and the bits after the removal, of the own bin and of the others
  have hbins := binsRemove_bins zone b hsize
  dsimp only at hbins
  generalize hb' : (if blkPrev m x ≠ nullOff then b
      else b.setHead (flBin n) (slBin n) (blkNext m x)) = b' at hbins
  have hsame : b'.slBitmap = b.slBitmap ∧ b'.flBitmap = b.flBitmap := by
    rw [← hb']
    split_ifs
    · exact ⟨rfl, rfl⟩
    · exact ⟨rfl, rfl⟩
  have hother : ∀ f' s', ¬ (f' = flBin n ∧ s' = slBin n) → b'.head f' s' = b.head f' s' := by
    intro f' s' hfs
    rw [← hb']
    split_ifs
    · rfl
    · rw [TlsfBins.setHead_head, if_neg hfs]
  have hown : b'.head (flBin n) (slBin n) =
      if blkPrev m x = nullOff then blkNext m x else b.head (flBin n) (slBin n) := by
    rw [← hb']
    by_cases hp : blkPrev m x = nullOff
    · rw [if_neg (not_not.mpr hp), if_pos hp, TlsfBins.setHead_head, if_pos ⟨rfl, rfl⟩]
    · rw [if_pos hp, if_neg hp]
  have hhead : (binsRemove zone b m x).1.head = b'.head := by
    rw [hbins]
    split_ifs
    · rfl
    · rfl
  have hbits : (∀ f < flCount, ∀ s, ((binsRemove zone b m x).1.slBitmap f).testBit s = true ↔
      s < pmSlCount ∧ (binsRemove zone b m x).1.head f s ≠ nullOff)
      ∧ ∀ f, (binsRemove zone b m x).1.flBitmap.testBit f = true ↔
        f < flCount ∧ (binsRemove zone b m x).1.slBitmap f ≠ 0 := by
    rw [hbins]
    split_ifs with hnull
    · exact clearBits_bits (flBin_lt n) (slBin_lt n) h.slBit h.flBit hsame hother hnull
    · refine ⟨fun f hf s => ?_, fun f => ?_⟩
      · rw [hsame.1, h.slBit f hf]
        refine and_congr_right fun _ => ?_
        by_cases hfs : f = flBin n ∧ s = slBin n
        · obtain ⟨rfl, rfl⟩ := hfs
          refine iff_of_true ?_ hnull
          intro hempty
          obtain ⟨l, hl⟩ := h.list _ (flBin_lt n) _ (slBin_lt n)
          have hxl := hl.mem hsep hx rfl rfl
          rw [hl.head_null.mp hempty] at hxl
          exact List.not_mem_nil hxl
        · rw [hother f s hfs]
      · rw [hsame.1, hsame.2, h.flBit]
  -- the lists, bin by bin
  refine ⟨fun f hf s hs => ?_, hbits.1, hbits.2⟩
  · rw [hhead]
    obtain ⟨l, hl, hmem⟩ := h.list f hf s hs
    have hnode : ∀ o ∈ l, ∃ k, F (ptrOf zone o) k ∧ flBin k = f ∧ slBin k = s :=
      fun o ho => (hmem o).mp ho
    have hoff : ∀ o, ptrOf zone o = x ↔ o = offOf zone x := by
      intro o
      rw [ptrOf] at hxo ⊢
      omega
    by_cases hfs : f = flBin n ∧ s = slBin n
    · -- the block's own bin: it is unlinked from its list
      obtain ⟨rfl, rfl⟩ := hfs
      have hxl : offOf zone x ∈ l := BinList.mem ⟨hl, hmem⟩ hsep hx rfl rfl
      refine ⟨l.erase (offOf zone x), ?_, fun o => ?_⟩
      · have hun := @IsDList.unlink _ _ _ _
          (fun o => blkNext (binsRemove zone b m x).2 (ptrOf zone o))
          (fun o => blkPrev (binsRemove zone b m x).2 (ptrOf zone o)) _ _ _ _ hl hxl ?_ ?_
        · rw [hown]
          rw [hxo] at hun
          exact hun
        · intro o ho hne
          obtain ⟨k, hk, -, -⟩ := hnode o ho
          have hlt := hsep.off_lt hk
          rw [binsRemove_next h hsep hx hk (fun heq => hne ((hoff o).mp heq)), hxo]
          refine if_congr ⟨fun hh => ?_, fun hh => ?_⟩ rfl rfl
          · have heq := hh.2
            rw [ptrOf, ptrOf] at heq
            omega
          · exact ⟨hh ▸ off_ne_null hlt, hh ▸ rfl⟩
        · intro o ho hne
          obtain ⟨k, hk, -, -⟩ := hnode o ho
          have hlt := hsep.off_lt hk
          rw [binsRemove_prev h hsep hx hk (fun heq => hne ((hoff o).mp heq)), hxo]
          refine if_congr ⟨fun hh => ?_, fun hh => ?_⟩ rfl rfl
          · have heq := hh.2
            rw [ptrOf, ptrOf] at heq
            omega
          · exact ⟨hh ▸ off_ne_null hlt, hh ▸ rfl⟩
      · rw [hl.nodup.mem_erase_iff, hmem]
        constructor
        · rintro ⟨hne, k, hk, hc⟩
          exact ⟨k, ⟨hk, fun heq => hne ((hoff o).mp heq)⟩, hc⟩
        · rintro ⟨k, ⟨hk, hne⟩, hc⟩
          exact ⟨fun heq => hne ((hoff o).mpr heq), k, hk, hc⟩
    · -- any other bin: its blocks keep their links
      have hclass : ∀ o ∈ l, ∀ k, F (ptrOf zone o) k →
          ¬ (flBin k = flBin n ∧ slBin k = slBin n) := by
        intro o ho k hk hc
        obtain ⟨k', hk', hc'⟩ := hnode o ho
        obtain rfl := hsep.size_unique hk hk'
        exact hfs ⟨hc'.1.symm.trans hc.1, hc'.2.symm.trans hc.2⟩
      have hne : ∀ o ∈ l, ptrOf zone o ≠ x := fun o ho heq =>
        hclass o ho n (heq ▸ hx) ⟨rfl, rfl⟩
      refine ⟨l, ?_, fun o => ?_⟩
      · rw [hother f s hfs]
        refine hl.congr (fun o ho => ?_) (fun o ho => ?_)
        · obtain ⟨k, hk, -, -⟩ := hnode o ho
          rw [binsRemove_next h hsep hx hk (hne o ho), if_neg]
          rintro ⟨hp, heq⟩
          obtain ⟨i, hi, hif, his, -⟩ := hprev hp
          exact hclass o ho i (heq ▸ hi) ⟨hif, his⟩
        · obtain ⟨k, hk, -, -⟩ := hnode o ho
          rw [binsRemove_prev h hsep hx hk (hne o ho), if_neg]
          rintro ⟨hn, heq⟩
          obtain ⟨i, hi, hif, his, -⟩ := hnext hn
          exact hclass o ho i (heq ▸ hi) ⟨hif, his⟩
      · rw [hmem]
        constructor
        · rintro ⟨k, hk, hc⟩
          refine ⟨k, ⟨hk, fun heq => ?_⟩, hc⟩
          obtain rfl : k = n := hsep.size_unique (heq ▸ hk) hx
          exact hfs ⟨hc.1.symm, hc.2.symm⟩
        · rintro ⟨k, hk, hc⟩
          exact ⟨k, hk.1, hc⟩

/-- Removal writes link words of free blocks only. -/
lemma binsRemove_frame (h : BinsRep zone m b F) (hsep : Separated zone F) (hx : F x n) {z : ℕ}
    (hz : ¬ LinkByte F z) : (binsRemove zone b m x).2 z = m z := by
  obtain ⟨hprev, hnext⟩ := h.link_mem hsep hx
  have hself : ¬ (x + 8 ≤ z ∧ z < x + 16) := fun hin => hz ⟨x, n, hx, hin⟩
  rw [binsRemove_mem h hsep hx, store32_apply_of_not_mem _ fun hin => hself (by omega),
    store32_apply_of_not_mem _ fun hin => hself (by omega)]
  have hp : (if blkPrev m x ≠ nullOff then
      store32 m (ptrOf zone (blkPrev m x) + 12) (blkNext m x) else m) z = m z := by
    split_ifs with hp
    · obtain ⟨k, hk, -, -, -⟩ := hprev hp
      exact store32_apply_of_not_mem _ fun hin => hz ⟨_, k, hk, by omega, by omega⟩
    · rfl
  by_cases hn : blkNext m x = nullOff
  · rw [if_neg (not_not.mpr hn), hp]
  · obtain ⟨k, hk, -, -, -⟩ := hnext hn
    rw [if_pos hn, store32_apply_of_not_mem _ fun hin => hz ⟨_, k, hk, by omega, by omega⟩, hp]

end Remove

end PondMerge
