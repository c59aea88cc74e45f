import PondMerge.Library.ByteMemory
import Mathlib.Data.List.Basic
import Mathlib.Tactic.Common

/-!
Sequences of block copies within one memory.  A sequence is safe when no destination meets
the source or the destination of a later copy; a safe sequence acts as if all its copies
were made at once.

* `run_dst`: every destination ends up with the bytes its source held at the start.
* `run_other`: every byte outside the destinations keeps its value.
-/

namespace Relocation

open ByteMemory

/-- A copy of `len` bytes from `src` to `dst`. -/
structure Move where
  dst : ℕ
  src : ℕ
  len : ℕ

/-- Two intervals, given by base and length, that do not meet. -/
def Apart (a n b k : ℕ) : Prop := a + n ≤ b ∨ b + k ≤ a

/-- The copies in order. -/
def run (m : Mem) (ms : List Move) : Mem :=
  ms.foldl (fun m e => memmove m e.dst e.src e.len) m

/-- No destination meets the source or the destination of a later copy. -/
def Safe (ms : List Move) : Prop :=
  ms.Pairwise fun e f => Apart e.dst e.len f.src f.len ∧ Apart e.dst e.len f.dst f.len

@[simp] lemma run_nil (m : Mem) : run m [] = m := rfl

@[simp] lemma run_cons (m : Mem) (e : Move) (ms : List Move) :
    run m (e :: ms) = run (memmove m e.dst e.src e.len) ms := rfl

lemma run_append (m : Mem) (ms ms' : List Move) : run m (ms ++ ms') = run (run m ms) ms' :=
  List.foldl_append ..

/-- Bytes outside every destination are kept. -/
lemma run_other {ms : List Move} {x : ℕ}
    (h : ∀ e ∈ ms, ¬ (e.dst ≤ x ∧ x < e.dst + e.len)) (m : Mem) : run m ms x = m x := by
  induction ms generalizing m with
  | nil => rfl
  | cons e ms ih =>
      rw [run_cons, ih fun e he => h e (List.mem_cons_of_mem _ he)]
      exact memmove_apply_of_not_mem m (h e List.mem_cons_self)

/-- A safe sequence delivers every source as it was at the start. -/
theorem run_dst {ms : List Move} (hs : Safe ms) {e : Move} (he : e ∈ ms) {k : ℕ}
    (hk : k < e.len) (m : Mem) : run m ms (e.dst + k) = m (e.src + k) := by
  induction ms generalizing m with
  | nil => exact absurd he List.not_mem_nil
  | cons f ms ih =>
      obtain ⟨hf, hs⟩ := List.pairwise_cons.mp hs
      rw [run_cons]
      rcases List.mem_cons.mp he with rfl | he
      · rw [run_other, memmove_apply_of_mem m hk]
        intro g hg hin
        have hap := (hf g hg).2
        rw [Apart] at hap
        omega
      · rw [ih hs he]
        refine memmove_apply_of_not_mem m fun hin => ?_
        have hap := (hf e he).1
        rw [Apart] at hap
        omega

end Relocation
