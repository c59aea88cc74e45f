import Mathlib.Logic.Equiv.Basic
import Mathlib.Data.List.Nodup
import Mathlib.Data.List.Range

/-!
In-place heapsort over an arbitrary key order.

An array of length `n` is a function on indices of which only the first `n` values matter.

* `sift_heap`: sinking the root of an otherwise correct heap repairs it.
* `extract_sorted`: the extraction loop sorts, from a heap and a sorted tail above it.
* `heapSort_perm`, `heapSort_sorted`: the result is a sorted rearrangement.
-/

namespace HeapSort

variable {α : Type*}

/-- Exchanges two entries. -/
def swap (a : ℕ → α) (i j : ℕ) : ℕ → α :=
  Function.update (Function.update a i (a j)) j (a i)

variable (less : α → α → Bool)

/-- The larger child of `root` in the heap `a[0..last]`. -/
def maxChild (a : ℕ → α) (root last : ℕ) : ℕ :=
  if 2 * root + 2 ≤ last ∧ less (a (2 * root + 1)) (a (2 * root + 2)) then 2 * root + 2
  else 2 * root + 1

/-- Sinks the entry at `root` in the heap `a[0..last]`.  The root at least doubles at every
step, so `last + 1` steps are more than enough. -/
def sift : ℕ → (ℕ → α) → ℕ → ℕ → ℕ → α
  | 0, a, _, _ => a
  | fuel + 1, a, root, last =>
    if last < 2 * root + 1 then a
    else if !less (a root) (a (maxChild less a root last)) then a
    else sift fuel (swap a root (maxChild less a root last)) (maxChild less a root last) last

/-- The heap-building loop: sinks `k - 1`, …, `0`. -/
def build : ℕ → (ℕ → α) → ℕ → ℕ → α
  | 0, a, _ => a
  | k + 1, a, last => build k (sift less (last + 1) a k last) last

/-- The extraction loop: moves the maximum behind the shrinking heap `a[0..i]`. -/
def extract : ℕ → (ℕ → α) → ℕ → α
  | 0, a => a
  | i + 1, a => extract i (sift less (i + 1) (swap a 0 (i + 1)) 0 i)

/-- Heapsort of the first `n` entries. -/
def heapSort (a : ℕ → α) (n : ℕ) : ℕ → α :=
  if n < 2 then a else extract less (n - 1) (build less (n / 2) a (n - 1))

/-! ### Rearrangement -/

lemma swap_apply (a : ℕ → α) (i j k : ℕ) : swap a i j k = a (Equiv.swap i j k) := by
  rw [Equiv.swap_apply_def, swap]
  by_cases hj : k = j
  · subst hj
    by_cases hi : k = i
    · rw [hi, Function.update_self, if_pos rfl]
    · rw [Function.update_self, if_neg hi, if_pos rfl]
  · rw [Function.update_of_ne hj, if_neg hj]
    by_cases hi : k = i
    · rw [hi, Function.update_self, if_pos rfl]
    · rw [Function.update_of_ne hi, if_neg hi]

lemma swap_perm (a : ℕ → α) {i j n : ℕ} (hi : i < n) (hj : j < n) :
    ((List.range n).map (swap a i j)).Perm ((List.range n).map a) := by
  have hσ : ((List.range n).map (Equiv.swap i j)).Perm (List.range n) := by
    refine (List.perm_ext_iff_of_nodup
      (List.nodup_range.map (Equiv.swap i j).injective) List.nodup_range).mpr fun k => ?_
    rw [List.mem_map, List.mem_range]
    have hlt : ∀ k < n, Equiv.swap i j k < n := by
      intro k hk
      rw [Equiv.swap_apply_def]
      split_ifs <;> omega
    constructor
    · rintro ⟨k', hk', rfl⟩
      exact hlt k' (List.mem_range.mp hk')
    · intro hk
      exact ⟨Equiv.swap i j k, List.mem_range.mpr (hlt k hk), Equiv.swap_apply_self i j k⟩
  have hfun : swap a i j = a ∘ Equiv.swap i j := funext fun k => swap_apply a i j k
  rw [hfun, ← List.map_map]
  exact hσ.map a

lemma maxChild_eq (a : ℕ → α) (root last : ℕ) :
    maxChild less a root last = 2 * root + 1 ∨ maxChild less a root last = 2 * root + 2 := by
  rw [maxChild]
  split_ifs
  · exact Or.inr rfl
  · exact Or.inl rfl

lemma maxChild_le (a : ℕ → α) {root last : ℕ} (h : 2 * root + 1 ≤ last) :
    maxChild less a root last ≤ last := by
  rw [maxChild]
  split_ifs with hc
  · exact hc.1
  · exact h

lemma sift_perm (fuel : ℕ) (a : ℕ → α) {root last n : ℕ} (hn : last < n) :
    ((List.range n).map (sift less fuel a root last)).Perm ((List.range n).map a) := by
  induction fuel generalizing a root with
  | zero => exact List.Perm.refl _
  | succ fuel ih =>
      rw [sift]
      split_ifs with hlast
      · exact List.Perm.refl _
      · exact List.Perm.refl _
      · have hle : maxChild less a root last ≤ last := maxChild_le less a (by omega)
        exact (ih _).trans (swap_perm a (by omega) (by omega))

lemma build_perm (k : ℕ) (a : ℕ → α) {last n : ℕ} (hn : last < n) :
    ((List.range n).map (build less k a last)).Perm ((List.range n).map a) := by
  induction k generalizing a with
  | zero => exact List.Perm.refl _
  | succ k ih => exact (ih _).trans (sift_perm less (last + 1) a hn)

lemma extract_perm (i : ℕ) (a : ℕ → α) {n : ℕ} (hn : i < n) :
    ((List.range n).map (extract less i a)).Perm ((List.range n).map a) := by
  induction i generalizing a with
  | zero => exact List.Perm.refl _
  | succ i ih =>
      exact (ih _ (by omega)).trans ((sift_perm less (i + 1) _ (by omega)).trans
        (swap_perm a (by omega) hn))

theorem heapSort_perm (a : ℕ → α) (n : ℕ) :
    ((List.range n).map (heapSort less a n)).Perm ((List.range n).map a) := by
  rw [heapSort]
  split_ifs with hn
  · exact List.Perm.refl _
  · exact (extract_perm less (n - 1) _ (by omega)).trans
      (build_perm less (n / 2) a (by omega))

/-- Sinking leaves everything above the heap alone. -/
lemma sift_above (fuel : ℕ) (a : ℕ → α) {root last k : ℕ} (hk : last < k) :
    sift less fuel a root last k = a k := by
  induction fuel generalizing a root with
  | zero => rfl
  | succ fuel ih =>
      rw [sift]
      split_ifs with hlast
      · rfl
      · rfl
      · have hle : maxChild less a root last ≤ last := maxChild_le less a (by omega)
        rw [ih, swap, Function.update_of_ne (by omega), Function.update_of_ne (by omega)]

/-! ### Heaps -/

/-- In `a[0..last]` every entry from `k` on is at least its children. -/
def Heap (a : ℕ → α) (k last : ℕ) : Prop :=
  ∀ i c, k ≤ i → c = 2 * i + 1 ∨ c = 2 * i + 2 → c ≤ last → less (a i) (a c) = false

/-- A heap but for the entry at `r`, whose children are still below its parent. -/
def HeapExcept (a : ℕ → α) (k last r : ℕ) : Prop :=
  (∀ i c, k ≤ i → i ≠ r → c = 2 * i + 1 ∨ c = 2 * i + 2 → c ≤ last →
    less (a i) (a c) = false)
  ∧ ∀ i c, k ≤ i → r = 2 * i + 1 ∨ r = 2 * i + 2 → c = 2 * r + 1 ∨ c = 2 * r + 2 →
    c ≤ last → less (a i) (a c) = false

variable {less}
variable (asymm : ∀ x y, less x y = true → less y x = false)
include asymm

/-- The larger child is no smaller than either child. -/
lemma maxChild_max (a : ℕ → α) {root last c : ℕ} (hc : c = 2 * root + 1 ∨ c = 2 * root + 2)
    (hl : c ≤ last) : less (a (maxChild less a root last)) (a c) = false := by
  have hrefl : ∀ x, less x x = false := by
    intro x
    by_contra h
    have ht : less x x = true := by simpa using h
    exact h (asymm x x ht)
  rw [maxChild]
  split_ifs with h
  · rcases hc with rfl | rfl
    · exact asymm _ _ h.2
    · exact hrefl _
  · rcases hc with rfl | rfl
    · exact hrefl _
    · by_contra hlt
      exact h ⟨hl, by simpa using hlt⟩

/-- One step of sinking: the exception moves down to the larger child. -/
lemma heapExcept_swap {a : ℕ → α} {k last r ch : ℕ} (h : HeapExcept less a k last r)
    (hr : k ≤ r) (hch : ch = 2 * r + 1 ∨ ch = 2 * r + 2) (hl : ch ≤ last)
    (hmax : ∀ c, c = 2 * r + 1 ∨ c = 2 * r + 2 → c ≤ last → less (a ch) (a c) = false)
    (hlt : less (a r) (a ch) = true) : HeapExcept less (swap a r ch) k last ch := by
  have hself : swap a r ch r = a ch := by
    rw [swap, Function.update_of_ne (by omega), Function.update_self]
  have hchild : swap a r ch ch = a r := by
    rw [swap, Function.update_self]
  have hother : ∀ i, i ≠ r → i ≠ ch → swap a r ch i = a i := by
    intro i h1 h2
    rw [swap, Function.update_of_ne h2, Function.update_of_ne h1]
  refine ⟨fun i c hi hne hc hcl => ?_, fun i c hi hpar hc hcl => ?_⟩
  · by_cases hir : i = r
    · subst hir
      by_cases hcc : c = ch
      · rw [hcc, hself, hchild]
        exact asymm _ _ hlt
      · rw [hself, hother c (by omega) hcc]
        exact hmax c hc hcl
    · rw [hother i hir hne]
      by_cases hcr : c = r
      · rw [hcr, hself]
        exact h.2 i ch hi (by omega) hch hl
      · rw [hother c hcr (by omega)]
        exact h.1 i c hi hir hc hcl
  · have hir : i = r := by omega
    rw [hir, hself, hother c (by omega) (by omega)]
    exact h.1 ch c (by omega) (by omega) hc hcl

variable (trans : ∀ x y z, less y x = false → less z y = false → less z x = false)
include trans

/-- Sinking the exception repairs the heap. -/
lemma sift_heap (fuel : ℕ) (a : ℕ → α) {k root last : ℕ} (hfuel : last < fuel + root)
    (hk : k ≤ root) (h : HeapExcept less a k last root) :
    Heap less (sift less fuel a root last) k last := by
  induction fuel generalizing a root with
  | zero =>
      intro i c hi hc hcl
      exact h.1 i c hi (by omega) hc hcl
  | succ fuel ih =>
      rw [sift]
      split_ifs with hlast hless
      · intro i c hi hc hcl
        exact h.1 i c hi (by omega) hc hcl
      · intro i c hi hc hcl
        by_cases hir : i = root
        · rw [hir] at hc ⊢
          exact trans _ _ _ (maxChild_max asymm a hc hcl) (by simpa using hless)
        · exact h.1 i c hi hir hc hcl
      · have hch := maxChild_eq less a root last
        have hle : maxChild less a root last ≤ last := maxChild_le less a (by omega)
        refine ih _ (by omega) (by omega) (heapExcept_swap asymm h hk hch hle ?_
          (by simpa using hless))
        exact fun c hc hcl => maxChild_max asymm a hc hcl

/-- The root of a heap is its maximum. -/
lemma Heap.root_max {a : ℕ → α} {last : ℕ} (h : Heap less a 0 last) (j : ℕ) (hj : j ≤ last) :
    less (a 0) (a j) = false := by
  induction j using Nat.strong_induction_on with
  | _ j ih =>
      rcases Nat.eq_zero_or_pos j with rfl | hpos
      · by_contra hlt
        have ht : less (a 0) (a 0) = true := by simpa using hlt
        exact hlt (asymm _ _ ht)
      · exact trans _ _ _ (h ((j - 1) / 2) j (Nat.zero_le _) (by omega) hj)
          (ih ((j - 1) / 2) (by omega) (by omega))

lemma build_heap (k : ℕ) (a : ℕ → α) {last : ℕ} (h : Heap less a k last) :
    Heap less (build less k a last) 0 last := by
  induction k generalizing a with
  | zero => exact h
  | succ k ih =>
      refine ih _ (sift_heap asymm trans (last + 1) a (by omega) (le_refl k) ⟨?_, ?_⟩)
      · exact fun i c hi hne hc hcl => h i c (by omega) hc hcl
      · exact fun i c hi hpar hc hcl => absurd hpar (by omega)

/-- The extraction loop, from a heap `a[0..i]` below a sorted `a[i+1..n)` that dominates
it. -/
lemma extract_sorted (i : ℕ) (a : ℕ → α) {n : ℕ} (hheap : Heap less a 0 i)
    (htail : ∀ j k, j < k → i < k → k < n → less (a k) (a j) = false) :
    ∀ j k, j < k → k < n → less (extract less i a k) (extract less i a j) = false := by
  induction i generalizing a with
  | zero => exact fun j k hjk hk => htail j k hjk (by omega) hk
  | succ i ih =>
      rw [extract]
      have hswap0 : ∀ j, j ≠ 0 → j ≠ i + 1 → swap a 0 (i + 1) j = a j := by
        intro j h0 h1
        rw [swap, Function.update_of_ne h1, Function.update_of_ne h0]
      have hlast : swap a 0 (i + 1) (i + 1) = a 0 := by
        rw [swap, Function.update_self]
      -- sifting permutes: each element below comes from the heap
      have hmem : ∀ j ≤ i, ∃ j' ≤ i + 1,
          sift less (i + 1) (swap a 0 (i + 1)) 0 i j = a j' := by
        intro j hj
        have hm : sift less (i + 1) (swap a 0 (i + 1)) 0 i j ∈
            (List.range (i + 1)).map (sift less (i + 1) (swap a 0 (i + 1)) 0 i) :=
          List.mem_map.mpr ⟨j, List.mem_range.mpr (by omega), rfl⟩
        have hm' := ((sift_perm less (i + 1) (swap a 0 (i + 1))
          (show i < i + 1 by omega)).mem_iff).mp hm
        obtain ⟨j', hj', heq⟩ := List.mem_map.mp hm'
        have hlt := List.mem_range.mp hj'
        rw [← heq]
        by_cases h0 : j' = 0
        · exact ⟨i + 1, le_refl _, by
            rw [h0, swap, Function.update_of_ne (by omega), Function.update_self]⟩
        · exact ⟨j', by omega, hswap0 j' h0 (by omega)⟩
      refine ih _ (sift_heap asymm trans (i + 1) _ (by omega) (Nat.zero_le 0) ⟨?_, ?_⟩) ?_
      · intro j c _ hj0 hc hcl
        rw [hswap0 j hj0 (by omega), hswap0 c (by omega) (by omega)]
        exact hheap j c (Nat.zero_le _) hc (by omega)
      · exact fun j c _ hpar _ _ => absurd hpar (by omega)
      · intro j k hjk hik hkn
        rw [sift_above less _ _ hik]
        -- the greater of the two is the old root or lies in the tail
        have hk : ∃ k', (k' = 0 ∧ k = i + 1 ∨ k' = k ∧ i + 1 < k) ∧
            swap a 0 (i + 1) k = a k' := by
          by_cases hk : k = i + 1
          · exact ⟨0, Or.inl ⟨rfl, hk⟩, by rw [hk, hlast]⟩
          · exact ⟨k, Or.inr ⟨rfl, by omega⟩, hswap0 k (by omega) hk⟩
        obtain ⟨k', hk', heqk⟩ := hk
        have hj : ∃ j', (j' ≤ i + 1 ∨ j' = j) ∧ (i + 1 < k ∨ j' ≤ i + 1) ∧ j' < k + 1 ∧
            sift less (i + 1) (swap a 0 (i + 1)) 0 i j = a j' ∧ (j' < k ∨ k = i + 1) := by
          by_cases hj : j ≤ i
          · obtain ⟨j', hj', heq⟩ := hmem j hj
            exact ⟨j', Or.inl hj', Or.inr hj', by omega, heq, by omega⟩
          · rw [sift_above less _ _ (by omega)]
            by_cases hj1 : j = i + 1
            · exact ⟨0, Or.inl (by omega), Or.inr (by omega), by omega,
                by rw [hj1, hlast], by omega⟩
            · exact ⟨j, Or.inr rfl, by omega, by omega, hswap0 j (by omega) hj1, by omega⟩
        obtain ⟨j', hj', hj'', _, heqj, hlt⟩ := hj
        rw [heqk, heqj]
        rcases hk' with ⟨rfl, hke⟩ | ⟨rfl, hke⟩
        · exact hheap.root_max asymm trans j' (by omega)
        · exact htail j' k' (by omega) (by omega) hkn

theorem heapSort_sorted (a : ℕ → α) (n : ℕ) :
    ∀ j k, j < k → k < n → less (heapSort less a n k) (heapSort less a n j) = false := by
  rw [heapSort]
  split_ifs with hn
  · exact fun j k hjk hk => absurd hk (by omega)
  · refine extract_sorted asymm trans (n - 1) _ ?_ ?_
    · exact build_heap asymm trans (n / 2) a fun i c hi hc hcl => absurd hcl (by omega)
    · exact fun j k hjk hik hk => absurd hk (by omega)

end HeapSort
