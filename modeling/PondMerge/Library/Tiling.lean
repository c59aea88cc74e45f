import Mathlib.Data.List.Basic
import Mathlib.Algebra.BigOperators.Group.List.Basic
import Mathlib.Algebra.GroupWithZero.Nat
import Mathlib.Tactic.Common

/-!
Tilings of an interval: a list of tiles laid end to end from a base address.

* `place_append`: the tiles of a concatenation lie behind one another.
* `place_shift`: placing from another base shifts all tiles.
* `exists_split`: a placed tile splits its list at its address.
* `place_apart`: two placed tiles are equal or apart.
-/

namespace Tiling

variable {β : Type*} (len : β → ℕ)

/-- The length of a list of tiles. -/
def total (l : List β) : ℕ := (l.map len).sum

/-- The tiles of a list with their addresses, from `a` on. -/
def place : ℕ → List β → List (ℕ × β)
  | _, [] => []
  | a, x :: l => (a, x) :: place (a + len x) l

@[simp] lemma total_nil : total len [] = 0 := rfl

@[simp] lemma total_cons (x : β) (l : List β) : total len (x :: l) = len x + total len l := by
  simp [total]

@[simp] lemma total_append (l₁ l₂ : List β) :
    total len (l₁ ++ l₂) = total len l₁ + total len l₂ := by
  simp [total]

@[simp] lemma place_nil (a : ℕ) : place len a [] = [] := rfl

@[simp] lemma place_cons (a : ℕ) (x : β) (l : List β) :
    place len a (x :: l) = (a, x) :: place len (a + len x) l := rfl

@[simp] lemma place_append (a : ℕ) (l₁ l₂ : List β) :
    place len a (l₁ ++ l₂) = place len a l₁ ++ place len (a + total len l₁) l₂ := by
  induction l₁ generalizing a with
  | nil => simp
  | cons x l₁ ih => simp [ih, Nat.add_assoc]

lemma place_map_snd (a : ℕ) (l : List β) : (place len a l).map Prod.snd = l := by
  induction l generalizing a with
  | nil => rfl
  | cons x l ih => simp [ih]

lemma place_shift (z a : ℕ) (l : List β) :
    place len (z + a) l = (place len a l).map fun u => (z + u.1, u.2) := by
  induction l generalizing a with
  | nil => rfl
  | cons x l ih => simp [← ih, Nat.add_assoc]

variable {len}

lemma mem_place_shift {z a x : ℕ} {t : β} {l : List β} :
    (z + x, t) ∈ place len (z + a) l ↔ (x, t) ∈ place len a l := by
  rw [place_shift, List.mem_map]
  constructor
  · rintro ⟨⟨y, u⟩, hm, heq⟩
    obtain ⟨hy, rfl⟩ := Prod.mk.inj heq
    obtain rfl := Nat.add_left_cancel hy
    exact hm
  · exact fun hm => ⟨(x, t), hm, rfl⟩

lemma mem_of_mem_place {a x : ℕ} {t : β} {l : List β} (h : (x, t) ∈ place len a l) : t ∈ l := by
  rw [← place_map_snd len a l]
  exact List.mem_map.mpr ⟨_, h, rfl⟩

lemma exists_mem_place (a : ℕ) {t : β} {l : List β} (h : t ∈ l) :
    ∃ x, (x, t) ∈ place len a l := by
  rw [← place_map_snd len a l] at h
  obtain ⟨⟨x, t'⟩, hx, rfl⟩ := List.mem_map.mp h
  exact ⟨x, hx⟩

/-- A placed tile splits its list at its address. -/
lemma exists_split {a x : ℕ} {t : β} {l : List β} (h : (x, t) ∈ place len a l) :
    ∃ l₁ l₂, l = l₁ ++ t :: l₂ ∧ x = a + total len l₁ := by
  induction l generalizing a with
  | nil => exact absurd h List.not_mem_nil
  | cons y l ih =>
      rcases List.mem_cons.mp h with heq | hm
      · obtain ⟨rfl, rfl⟩ := Prod.mk.inj heq
        exact ⟨[], l, rfl, rfl⟩
      · obtain ⟨l₁, l₂, rfl, rfl⟩ := ih hm
        exact ⟨y :: l₁, l₂, rfl, by rw [total_cons, Nat.add_assoc]⟩

lemma place_bounds {a x : ℕ} {t : β} {l : List β} (h : (x, t) ∈ place len a l) :
    a ≤ x ∧ x + len t ≤ a + total len l := by
  obtain ⟨l₁, l₂, rfl, rfl⟩ := exists_split h
  simp only [total_append, total_cons]
  omega

/-- Two placed tiles are equal or apart. -/
lemma place_apart {a : ℕ} {u v : ℕ × β} {l : List β} (hu : u ∈ place len a l)
    (hv : v ∈ place len a l) : u = v ∨ u.1 + len u.2 ≤ v.1 ∨ v.1 + len v.2 ≤ u.1 := by
  induction l generalizing a with
  | nil => exact absurd hu List.not_mem_nil
  | cons x l ih =>
      rcases List.mem_cons.mp hu with rfl | hu <;> rcases List.mem_cons.mp hv with rfl | hv
      · exact Or.inl rfl
      · exact Or.inr (Or.inl (place_bounds (t := v.2) hv).1)
      · exact Or.inr (Or.inr (place_bounds (t := u.2) hu).1)
      · exact ih hu hv

end Tiling
