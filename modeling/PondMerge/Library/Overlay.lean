import Mathlib.Tactic.SplitIfs
import PondMerge.Library.ByteMemory

/-!
Memories that agree with one memory inside a range and with another outside of it: accesses
inside the range pass through.

* `load32_overlay`: a load inside the range reads the inner memory.
* `store32_overlay`, `memmove_overlay`: writes inside the range go to the inner memory.
-/

namespace ByteMemory

/-- The memory `m` inside `[lo, hi)`, and `w` outside. -/
def overlay (lo hi : ℕ) (w m : Mem) : Mem := fun z => if lo ≤ z ∧ z < hi then m z else w z

section Overlay

variable {lo hi : ℕ} {w m₁ m : Mem}

lemma overlay_inside {z : ℕ} (h : lo ≤ z ∧ z < hi) : overlay lo hi w m z = m z := if_pos h

lemma overlay_outside {z : ℕ} (h : ¬ (lo ≤ z ∧ z < hi)) : overlay lo hi w m z = w z := if_neg h

@[simp] lemma overlay_self : overlay lo hi m m = m := by
  funext z
  rw [overlay]
  split_ifs <;> rfl

/-- The outermost of two overlays stays. -/
@[simp] lemma overlay_overlay : overlay lo hi m₁ (overlay lo hi w m) = overlay lo hi m₁ m := by
  funext z
  simp only [overlay]
  split_ifs <;> rfl

/-- A load inside the range reads the inner memory. -/
lemma load32_overlay {a : ℕ} (hlo : lo ≤ a) (hhi : a + 4 ≤ hi) :
    load32 (overlay lo hi w m) a = load32 m a :=
  load32_congr fun k hk => overlay_inside ⟨by omega, by omega⟩

/-- A store inside the range goes to the inner memory. -/
lemma store32_overlay {a : ℕ} (hlo : lo ≤ a) (hhi : a + 4 ≤ hi) (v : ℕ) :
    store32 (overlay lo hi w m) a v = overlay lo hi w (store32 m a v) := by
  funext z
  simp only [store32, overlay]
  split_ifs with h₁ h₂
  · rfl
  · omega
  · rfl
  · rfl

/-- So does a copy between ranges inside. -/
lemma memmove_overlay {dst src n : ℕ} (hdst : lo ≤ dst ∧ dst + n ≤ hi)
    (hsrc : lo ≤ src ∧ src + n ≤ hi) :
    memmove (overlay lo hi w m) dst src n = overlay lo hi w (memmove m dst src n) := by
  funext z
  simp only [memmove, overlay]
  split_ifs with h₁ h₂ h₃ h₃ h₂
  · rfl
  · omega
  · omega
  · omega
  · rfl
  · rfl

end Overlay

end ByteMemory
