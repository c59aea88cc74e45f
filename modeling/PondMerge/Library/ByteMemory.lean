import Mathlib.Algebra.GroupWithZero.Nat
import Mathlib.Logic.Function.Basic

/-!
Byte-addressed memory with little-endian 32-bit words: loads, stores, block copies and
fills, and what each of them leaves alone.

* `load32_store32_of_disjoint`, `load32_store32_self`: a store changes the word it names and no
  word apart from it.
* `load32_congr`: a load reads only its four bytes, so it survives every write elsewhere.
-/

namespace ByteMemory

/-- A memory assigns a byte to every address. -/
abbrev Mem := ℕ → UInt8

/-- The little-endian 32-bit word at `a`. -/
def load32 (m : Mem) (a : ℕ) : ℕ :=
  (m a).toNat + 256 * (m (a + 1)).toNat + 65536 * (m (a + 2)).toNat
    + 16777216 * (m (a + 3)).toNat

/-- Stores the low 32 bits of `v` at `a`, little-endian. -/
def store32 (m : Mem) (a v : ℕ) : Mem := fun x =>
  if a ≤ x ∧ x < a + 4 then UInt8.ofNat (v / 256 ^ (x - a)) else m x

/-- Copies `n` bytes from `src` to `dst`, as if through an intermediate buffer. -/
def memmove (m : Mem) (dst src n : ℕ) : Mem := fun x =>
  if dst ≤ x ∧ x < dst + n then m (src + (x - dst)) else m x

/-- Fills `n` bytes from `a` on with `v`. -/
def memset (m : Mem) (a : ℕ) (v : UInt8) (n : ℕ) : Mem := fun x =>
  if a ≤ x ∧ x < a + n then v else m x

/-! ### Single bytes -/

lemma store32_apply_of_lt (m : Mem) {a v x : ℕ} (h : x < a) : store32 m a v x = m x := by
  rw [store32, if_neg (by omega)]

lemma store32_apply_of_not_mem (m : Mem) {a v x : ℕ} (h : ¬ (a ≤ x ∧ x < a + 4)) :
    store32 m a v x = m x := by
  rw [store32, if_neg h]

lemma memmove_apply_of_mem (m : Mem) {dst src n k : ℕ} (h : k < n) :
    memmove m dst src n (dst + k) = m (src + k) := by
  rw [memmove, if_pos (by omega), Nat.add_sub_cancel_left]

lemma memmove_apply_of_not_mem (m : Mem) {dst src n x : ℕ} (h : ¬ (dst ≤ x ∧ x < dst + n)) :
    memmove m dst src n x = m x := by
  rw [memmove, if_neg h]

lemma memset_apply_of_not_mem (m : Mem) {a n x : ℕ} {v : UInt8}
    (h : ¬ (a ≤ x ∧ x < a + n)) : memset m a v n x = m x := by
  rw [memset, if_neg h]

lemma memset_apply_of_mem (m : Mem) {a n x : ℕ} {v : UInt8}
    (h : a ≤ x ∧ x < a + n) : memset m a v n x = v := by
  rw [memset, if_pos h]

/-! ### Words -/

lemma load32_lt (m : Mem) (a : ℕ) : load32 m a < 2 ^ 32 := by
  have h0 := (m a).toNat_lt
  have h1 := (m (a + 1)).toNat_lt
  have h2 := (m (a + 2)).toNat_lt
  have h3 := (m (a + 3)).toNat_lt
  rw [load32]
  omega

/-- A load reads only its own four bytes. -/
lemma load32_congr {m m' : Mem} {a : ℕ} (h : ∀ k < 4, m' (a + k) = m (a + k)) :
    load32 m' a = load32 m a := by
  have h0 := h 0 (by omega)
  have h1 := h 1 (by omega)
  have h2 := h 2 (by omega)
  have h3 := h 3 (by omega)
  rw [Nat.add_zero] at h0
  rw [load32, load32, h0, h1, h2, h3]

lemma load32_store32_self (m : Mem) (a v : ℕ) : load32 (store32 m a v) a = v % 2 ^ 32 := by
  have h : ∀ k < 4, (store32 m a v (a + k)).toNat = v / 256 ^ k % 256 := by
    intro k hk
    rw [store32, if_pos (by omega), Nat.add_sub_cancel_left]
    simp
  have h0 := h 0 (by omega)
  have h1 := h 1 (by omega)
  have h2 := h 2 (by omega)
  have h3 := h 3 (by omega)
  rw [Nat.add_zero] at h0
  rw [load32, h0, h1, h2, h3]
  omega

lemma load32_store32_of_disjoint (m : Mem) {a b v : ℕ} (h : a + 4 ≤ b ∨ b + 4 ≤ a) :
    load32 (store32 m b v) a = load32 m a :=
  load32_congr fun k hk => store32_apply_of_not_mem m (by omega)

end ByteMemory
