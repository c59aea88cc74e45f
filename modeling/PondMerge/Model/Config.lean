import Mathlib.Algebra.GroupWithZero.Nat
import Mathlib.Algebra.Group.Int.Defs

/-!
`pm_config.h`: the compile-time configuration and its contract, and the constants of
`internal.h`.

The macros are fields of a class, so that every definition and theorem below is about an
arbitrary admitted configuration; the `static_assert`s are its proof fields.
`defaultConfig` is the configuration the headers ship.

What the contract and the block format fix is written as a numeral throughout:
`PM_ALIGNMENT` and `BLOCK_HEADER_SIZE` are `8`, and `MIN_FL` is `4`.
-/

namespace PondMerge

/-- The configuration macros together with the `static_assert`s of `pm_config.h`.  Two
fields are not asserted but come from the language: an array bound is positive, and
`PM_MIN_BLOCK` is stored in a `uint32_t`. -/
class PmConfig where
  pmMaxPools : ℕ
  pmMaxObjects : ℕ
  pmMaxSegments : ℕ
  pmMaxAlignment : ℕ
  pmMinBlock : ℕ
  pmSlCount : ℕ
  pmFlMax : ℕ
  minBlock_pow : pmMinBlock &&& (pmMinBlock - 1) = 0
  minBlock_ge : 16 ≤ pmMinBlock
  minBlock_lt : pmMinBlock < 2 ^ 32
  slCount_pow : pmSlCount &&& (pmSlCount - 1) = 0
  slCount_ge : 2 ≤ pmSlCount
  slCount_le : pmSlCount ≤ 16
  maxObjects_pos : 0 < pmMaxObjects
  maxObjects_lt : pmMaxObjects < 0xFFFF
  flMax_gt : 4 < pmFlMax
  flMax_le : pmFlMax ≤ 31
  maxSegments_pos : 0 < pmMaxSegments
  maxSegments_le : pmMaxSegments ≤ 0xFFFF
  maxPools_pos : 0 < pmMaxPools

export PmConfig (pmMaxPools pmMaxObjects pmMaxSegments pmMaxAlignment pmMinBlock pmSlCount
  pmFlMax)

/-- The configuration of the unmodified headers. -/
@[reducible] def defaultConfig : PmConfig where
  pmMaxPools := 16
  pmMaxObjects := 1024
  pmMaxSegments := 64
  pmMaxAlignment := 8
  pmMinBlock := 16
  pmSlCount := 4
  pmFlMax := 24
  minBlock_pow := by decide
  minBlock_ge := by decide
  minBlock_lt := by decide
  slCount_pow := by decide
  slCount_ge := by decide
  slCount_le := by decide
  maxObjects_pos := by decide
  maxObjects_lt := by decide
  flMax_gt := by decide
  flMax_le := by decide
  maxSegments_pos := by decide
  maxSegments_le := by decide
  maxPools_pos := by decide

/-- A configuration of three objects, whose tables are soon full. -/
@[reducible] def threeObjects : PmConfig :=
  { defaultConfig with
    pmMaxPools := 4
    pmMaxObjects := 3
    pmMaxSegments := 8
    maxObjects_pos := by decide
    maxObjects_lt := by decide
    maxSegments_pos := by decide
    maxSegments_le := by decide
    maxPools_pos := by decide }

/-- `FL_COUNT`, the number of first levels above `MIN_FL = 4`. -/
def flCount [PmConfig] : ℕ := pmFlMax - 4

/-- `BLOCK_FREE_BIT`. -/
def blockFreeBit : ℕ := 1

/-- `NULL_OFF`, the end of a bin list. -/
def nullOff : ℕ := 0xFFFFFFFF

/-- `NO_ORDER`, the end of a live-slot list. -/
def noOrder : ℕ := 0xFFFFFFFF

/-- `NO_SLOT`, the end of the free-slot list. -/
def noSlot : ℕ := 0xFFFF

/-- `CROSS_HINT`, the pool hint of a cross-pool reference. -/
def crossHint : ℕ := 0xFFFF

/-! ### Fixed-width arithmetic -/

/-- A value stored in a `uint32_t`. -/
def u32 (n : ℕ) : ℕ := n % 2 ^ 32

/-- `uint32_t` subtraction. -/
def sub32 (a b : ℕ) : ℕ := (a + 2 ^ 32 - b) % 2 ^ 32

/-- A value stored in a `uint16_t`. -/
def u16 (n : ℕ) : ℕ := n % 2 ^ 16

/-- `align_up_u`: `v` rounded up to the power of two `a`, in 32 bits. -/
def alignUpU (v a : ℕ) : ℕ := u32 (v + a - 1) / a * a

lemma u32_of_lt {n : ℕ} (h : n < 2 ^ 32) : u32 n = n := Nat.mod_eq_of_lt h

lemma u32_lt (n : ℕ) : u32 n < 2 ^ 32 := Nat.mod_lt _ (Nat.two_pow_pos 32)

lemma u16_of_lt {n : ℕ} (h : n < 2 ^ 16) : u16 n = n := Nat.mod_eq_of_lt h

lemma sub32_of_le {a b : ℕ} (h : b ≤ a) (ha : a < 2 ^ 32) : sub32 a b = a - b := by
  rw [sub32]
  omega

end PondMerge
