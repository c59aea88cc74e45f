import PondMerge.Structure.Global
import PondMerge.Model.MergeSplit

/-!
The live-slot lists `merge` and `split` rebuild, and the owners `split` rewrites.

* `relink_other`, `relink_links`: the rebuild changes the links of its slots only.
* `relink_isDList`: it threads them in the given order.
* `rehome_objects`: the commit loop of `split`.
-/

namespace PondMerge

open LinkedList

variable [PmConfig]

/-- Two descriptors that differ in their links only. -/
structure SameButLinks (d d' : ObjectDesc) : Prop where
  eq : d' = { d with addrPrev := d'.addrPrev, addrNext := d'.addrNext }

omit [PmConfig] in
lemma SameButLinks.refl (d : ObjectDesc) : SameButLinks d d := ⟨rfl⟩

omit [PmConfig] in
/-- Slots outside the list keep their descriptor. -/
lemma relink_other {objects : ℕ → ObjectDesc} {prev i : ℕ} {l : List ℕ} (hi : i ∉ l) :
    relink objects prev l i = objects i := by
  induction l generalizing objects prev with
  | nil => rfl
  | cons j l ih =>
      rw [List.mem_cons, not_or] at hi
      rw [relink, ih hi.2, Function.update_of_ne hi.1]

omit [PmConfig] in
/-- Slots of the list keep all but their links. -/
lemma relink_links (objects : ℕ → ObjectDesc) (prev : ℕ) (l : List ℕ) (i : ℕ) :
    SameButLinks (objects i) (relink objects prev l i) := by
  induction l generalizing objects prev with
  | nil => exact .refl _
  | cons j l ih =>
      rw [relink]
      refine ⟨(ih _ _).eq.trans ?_⟩
      by_cases hi : i = j
      · subst hi
        rw [Function.update_self]
      · rw [Function.update_of_ne hi]

omit [PmConfig] in
/-- The rebuilt list holds the given slots in the given order. -/
lemma relink_isDList {objects : ℕ → ObjectDesc} {prev : ℕ} {l : List ℕ} (hnd : l.Nodup)
    (hne : ∀ i ∈ l, i ≠ noOrder) :
    IsDList (fun i => (relink objects prev l i).addrNext)
      (fun i => (relink objects prev l i).addrPrev) noOrder prev (l.headD noOrder) l := by
  induction l generalizing objects prev with
  | nil => rfl
  | cons i l ih =>
      obtain ⟨hi, hnd⟩ := List.nodup_cons.mp hnd
      have hself : relink objects prev (i :: l) i =
          { objects i with addrPrev := prev, addrNext := l.headD noOrder } := by
        rw [relink, relink_other hi, Function.update_self]
      refine ⟨rfl, hne i List.mem_cons_self, congrArg ObjectDesc.addrPrev hself, ?_⟩
      dsimp only
      rw [hself]
      exact ih hnd fun j hj => hne j (List.mem_cons_of_mem _ hj)

omit [PmConfig] in
/-- The commit loop of `split` rewrites the owners of its slots only. -/
lemma rehome_objects (objects : ℕ → ObjectDesc) (nid : ℕ) (l : List ℕ) (i : ℕ) :
    rehome objects nid l i = if i ∈ l then { objects i with poolId := nid } else objects i := by
  induction l generalizing objects with
  | nil => simp [rehome]
  | cons j l ih =>
      rw [rehome, ih]
      by_cases hij : i = j
      · subst hij
        simp
      · rw [Function.update_of_ne hij]
        simp [hij]

end PondMerge
