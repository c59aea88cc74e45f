import Mathlib.Data.List.Basic
import Mathlib.Data.List.Nodup

/-!
Linked lists threaded through arbitrary nodes: what it means that successor and
predecessor functions thread a given list of nodes, and how the list changes when a node
is unlinked from it or pushed onto its front.

* `IsChain`, `IsDList`: a `nil`-terminated chain, and one whose predecessor links agree.
* `IsChain.unique`, `IsChain.nodup`: the successors determine the nodes, so no node occurs
  twice.
* `IsDList.unlink`, `IsDList.push`: the pointwise edits of the links that realise removal
  and insertion.
-/

namespace LinkedList

variable {α : Type*}

/-- The nodes `l`, entered at `h`, are threaded by `next` and end in `nil`. -/
def IsChain (next : α → α) (nil : α) : α → List α → Prop
  | h, [] => h = nil
  | h, x :: l => h = x ∧ x ≠ nil ∧ IsChain next nil (next x) l

/-- A chain whose predecessor links agree; `p` is the predecessor of its first node. -/
def IsDList (next prev : α → α) (nil : α) : α → α → List α → Prop
  | _, h, [] => h = nil
  | p, h, x :: l => h = x ∧ x ≠ nil ∧ prev x = p ∧ IsDList next prev nil x (next x) l

/-! ### Chains -/

/-- The successor links determine the nodes. -/
lemma IsChain.unique {next : α → α} {nil h : α} {l l' : List α}
    (hl : IsChain next nil h l) (hl' : IsChain next nil h l') : l = l' := by
  induction l generalizing h l' with
  | nil =>
      cases l' with
      | nil => rfl
      | cons y l' => exact absurd (hl'.1.symm.trans hl) hl'.2.1
  | cons x l ih =>
      cases l' with
      | nil => exact absurd (hl.1.symm.trans hl') hl.2.1
      | cons y l' =>
          obtain ⟨rfl, _, htl⟩ := hl
          obtain ⟨rfl, _, htl'⟩ := hl'
          rw [ih htl htl']

lemma IsChain.ne_nil {next : α → α} {nil h : α} {l : List α}
    (hl : IsChain next nil h l) {x : α} (hx : x ∈ l) : x ≠ nil := by
  induction l generalizing h with
  | nil => exact absurd hx List.not_mem_nil
  | cons y l ih =>
      rcases List.mem_cons.mp hx with rfl | hx
      · exact hl.2.1
      · exact ih hl.2.2 hx

/-- Every node starts the chain of the nodes behind it. -/
lemma IsChain.suffix {next : α → α} {nil h x : α} {l₁ l₂ : List α}
    (hl : IsChain next nil h (l₁ ++ x :: l₂)) : IsChain next nil x (x :: l₂) := by
  induction l₁ generalizing h with
  | nil =>
      obtain ⟨rfl, hne, htl⟩ := hl
      exact ⟨rfl, hne, htl⟩
  | cons y l₁ ih => exact ih hl.2.2

/-- A chain visits no node twice: it would go on forever. -/
lemma IsChain.nodup {next : α → α} {nil h : α} {l : List α}
    (hl : IsChain next nil h l) : l.Nodup := by
  induction l generalizing h with
  | nil => exact List.nodup_nil
  | cons x l ih =>
      refine List.nodup_cons.mpr ⟨fun hx => ?_, ih hl.2.2⟩
      obtain ⟨l₁, l₂, hsplit⟩ := List.append_of_mem hx
      obtain ⟨rfl, hne, htl⟩ := hl
      have hloop : IsChain next nil h (h :: l₂) := by
        rw [hsplit] at htl
        exact htl.suffix
      have hlen := congrArg List.length
        (IsChain.unique (l := h :: l) ⟨rfl, hne, htl⟩ hloop)
      rw [hsplit] at hlen
      simp only [List.length_cons, List.length_append] at hlen
      omega

lemma IsChain.congr {next next' : α → α} {nil h : α} {l : List α}
    (hl : IsChain next nil h l) (hn : ∀ y ∈ l, next' y = next y) :
    IsChain next' nil h l := by
  induction l generalizing h with
  | nil => exact hl
  | cons x l ih =>
      refine ⟨hl.1, hl.2.1, ?_⟩
      rw [hn x List.mem_cons_self]
      exact ih hl.2.2 fun y hy => hn y (List.mem_cons_of_mem x hy)

/-! ### Doubly linked lists -/

lemma IsDList.isChain {next prev : α → α} {nil p h : α} {l : List α}
    (hl : IsDList next prev nil p h l) : IsChain next nil h l := by
  induction l generalizing p h with
  | nil => exact hl
  | cons x l ih => exact ⟨hl.1, hl.2.1, ih hl.2.2.2⟩

lemma IsDList.nodup {next prev : α → α} {nil p h : α} {l : List α}
    (hl : IsDList next prev nil p h l) : l.Nodup :=
  hl.isChain.nodup

lemma IsDList.ne_nil {next prev : α → α} {nil p h : α} {l : List α}
    (hl : IsDList next prev nil p h l) {x : α} (hx : x ∈ l) : x ≠ nil :=
  hl.isChain.ne_nil hx

lemma IsDList.nil_not_mem {next prev : α → α} {nil p h : α} {l : List α}
    (hl : IsDList next prev nil p h l) : nil ∉ l :=
  fun hx => hl.ne_nil hx rfl

lemma IsDList.congr {next prev next' prev' : α → α} {nil p h : α} {l : List α}
    (hl : IsDList next prev nil p h l) (hn : ∀ y ∈ l, next' y = next y)
    (hp : ∀ y ∈ l, prev' y = prev y) : IsDList next' prev' nil p h l := by
  induction l generalizing p h with
  | nil => exact hl
  | cons x l ih =>
      refine ⟨hl.1, hl.2.1, ?_, ?_⟩
      · rw [hp x List.mem_cons_self]
        exact hl.2.2.1
      · rw [hn x List.mem_cons_self]
        exact ih hl.2.2.2 (fun y hy => hn y (List.mem_cons_of_mem x hy))
          fun y hy => hp y (List.mem_cons_of_mem x hy)

/-- The predecessor of a node is the entry predecessor or a node. -/
lemma IsDList.prev_mem {next prev : α → α} {nil p h : α} {l : List α}
    (hl : IsDList next prev nil p h l) {x : α} (hx : x ∈ l) : prev x = p ∨ prev x ∈ l := by
  induction l generalizing p h with
  | nil => exact absurd hx List.not_mem_nil
  | cons y l ih =>
      rcases List.mem_cons.mp hx with rfl | hx
      · exact Or.inl hl.2.2.1
      · rcases ih hl.2.2.2 hx with hy | hm
        · exact Or.inr (hy ▸ List.mem_cons_self)
        · exact Or.inr (List.mem_cons_of_mem y hm)

/-- The successor of a node is `nil` or a node. -/
lemma IsDList.next_mem {next prev : α → α} {nil p h : α} {l : List α}
    (hl : IsDList next prev nil p h l) {x : α} (hx : x ∈ l) :
    next x = nil ∨ next x ∈ l := by
  induction l generalizing p h with
  | nil => exact absurd hx List.not_mem_nil
  | cons y l ih =>
      rcases List.mem_cons.mp hx with rfl | hx
      · cases l with
        | nil => exact Or.inl hl.2.2.2
        | cons z l =>
            exact Or.inr (List.mem_cons_of_mem x (hl.2.2.2.1 ▸ List.mem_cons_self))
      · rcases ih hl.2.2.2 hx with hn | hm
        · exact Or.inl hn
        · exact Or.inr (List.mem_cons_of_mem y hm)

/-- The links reciprocate: the successor's predecessor is the node itself. -/
lemma IsDList.prev_next {next prev : α → α} {nil p h : α} {l : List α}
    (hl : IsDList next prev nil p h l) {x : α} (hx : x ∈ l) (hne : next x ≠ nil) :
    prev (next x) = x := by
  induction l generalizing p h with
  | nil => exact absurd hx List.not_mem_nil
  | cons y l ih =>
      rcases List.mem_cons.mp hx with rfl | hx
      · cases l with
        | nil => exact absurd hl.2.2.2 hne
        | cons z l =>
            rw [hl.2.2.2.1]
            exact hl.2.2.2.2.2.1
      · exact ih hl.2.2.2 hx

/-- The links reciprocate: the predecessor's successor is the node itself. -/
lemma IsDList.next_prev {next prev : α → α} {nil p h : α} {l : List α}
    (hl : IsDList next prev nil p h l) {x : α} (hx : x ∈ l) (hne : prev x ≠ p)
    (hp : p ∉ l) : next (prev x) = x := by
  induction l generalizing p h with
  | nil => exact absurd hx List.not_mem_nil
  | cons y l ih =>
      rcases List.mem_cons.mp hx with rfl | hx
      · exact absurd hl.2.2.1 hne
      · have hy : y ∉ l := (List.nodup_cons.mp hl.nodup).1
        by_cases hxy : prev x = y
        · cases l with
          | nil => exact absurd hx List.not_mem_nil
          | cons z l =>
              rcases List.mem_cons.mp hx with rfl | hx'
              · rw [hxy]
                exact hl.2.2.2.1
              · -- only the first node has the entry predecessor
                rcases hl.2.2.2.2.2.2.prev_mem hx' with hz | hm
                · exact absurd (List.mem_cons.mpr (Or.inl (hxy.symm.trans hz))) hy
                · exact absurd (List.mem_cons_of_mem z (hxy ▸ hm)) hy
        · exact ih hl.2.2.2 hx hxy hy

/-- Only the first node has the entry predecessor. -/
lemma IsDList.head_eq {next prev : α → α} {nil p h : α} {l : List α}
    (hl : IsDList next prev nil p h l) (hp : p ∉ l) {x : α} (hx : x ∈ l) (hxp : prev x = p) :
    h = x := by
  cases l with
  | nil => exact absurd hx List.not_mem_nil
  | cons y l =>
      rcases List.mem_cons.mp hx with rfl | hx
      · exact hl.1
      · rcases hl.2.2.2.prev_mem hx with hy | hm
        · exact absurd (List.mem_cons.mpr (Or.inl (hxp.symm.trans hy))) hp
        · exact absurd (List.mem_cons_of_mem y (hxp ▸ hm)) hp

/-- No node is its own successor. -/
lemma IsDList.next_ne {next prev : α → α} {nil p h : α} {l : List α}
    (hl : IsDList next prev nil p h l) {x : α} (hx : x ∈ l) : next x ≠ x := by
  intro heq
  obtain ⟨l₁, l₂, rfl⟩ := List.append_of_mem hx
  have hsuf := hl.isChain.suffix
  have htl := hsuf.2.2
  rw [heq] at htl
  have hlen := congrArg List.length (htl.unique hsuf)
  simp at hlen

/-- No node is its own predecessor. -/
lemma IsDList.prev_ne {next prev : α → α} {nil h : α} {l : List α}
    (hl : IsDList next prev nil nil h l) {x : α} (hx : x ∈ l) : prev x ≠ x := by
  intro heq
  have hne : prev x ≠ nil := by
    rw [heq]
    exact hl.ne_nil hx
  have hnext := hl.next_prev hx hne hl.nil_not_mem
  rw [heq] at hnext
  exact hl.next_ne hx hnext

variable [DecidableEq α]

/-- The unlinking edit below an arbitrary entry predecessor. -/
lemma IsDList.unlink_from {next prev next' prev' : α → α} {nil p h x : α} {l : List α}
    (hl : IsDList next prev nil p h l) (hp : p ∉ l) (hx : x ∈ l)
    (hn : ∀ y ∈ l, y ≠ x → next' y = if y = prev x then next x else next y)
    (hp' : ∀ y ∈ l, y ≠ x → prev' y = if y = next x then prev x else prev y) :
    IsDList next' prev' nil p (if prev x = p then next x else h) (l.erase x) := by
  induction l generalizing p h with
  | nil => exact absurd hx List.not_mem_nil
  | cons y l ih =>
      have hnd : y ∉ l := (List.nodup_cons.mp hl.nodup).1
      have hpl : p ∉ l := fun h => hp (List.mem_cons_of_mem y h)
      obtain ⟨rfl, hne, hyp, htl⟩ := hl
      by_cases hxy : h = x
      · -- the node is the first one: its successor becomes the head
        subst hxy
        rw [List.erase_cons_head, if_pos hyp]
        cases l with
        | nil => exact htl
        | cons z l =>
            obtain ⟨hz, hzne, hzp, htl'⟩ := htl
            have hzl : z ∉ l := (List.nodup_cons.mp
              (IsDList.nodup (p := h) (l := z :: l) ⟨hz, hzne, hzp, htl'⟩)).1
            have hmem : ∀ y ∈ z :: l, y ≠ h := fun y hy hyh => hnd (hyh ▸ hy)
            have hnext : ∀ y ∈ z :: l, next' y = next y := by
              intro y hy
              have hyp' : y ≠ prev h := by
                rw [hyp]
                exact fun hyp => hpl (hyp ▸ hy)
              rw [hn y (List.mem_cons_of_mem h hy) (hmem y hy), if_neg hyp']
            refine ⟨hz, hzne, ?_, ?_⟩
            · rw [hp' z (List.mem_cons_of_mem h List.mem_cons_self)
                (hmem z List.mem_cons_self), if_pos hz.symm, hyp]
            · rw [hnext z List.mem_cons_self]
              refine htl'.congr (fun y hy => hnext y (List.mem_cons_of_mem z hy)) ?_
              intro y hy
              have hyz : y ≠ next h := by
                rw [hz]
                exact fun hyz => hzl (hyz ▸ hy)
              rw [hp' y (List.mem_cons_of_mem h (List.mem_cons_of_mem z hy))
                (hmem y (List.mem_cons_of_mem z hy)), if_neg hyz]
      · have hxl : x ∈ l := (List.mem_cons.mp hx).resolve_left (Ne.symm hxy)
        -- the node comes later: the head stays, and its own links are read as before
        have hprev : prev x ≠ p := by
          rcases htl.prev_mem hxl with hh | hm
          · rw [hh]
            exact fun hh => hp (hh ▸ List.mem_cons_self)
          · exact fun hh => hpl (hh ▸ hm)
        have hnext : h ≠ next x := by
          rcases htl.next_mem hxl with hh | hm
          · rw [hh]
            exact hne
          · exact fun hh => hnd (hh ▸ hm)
        rw [List.erase_cons_tail (by simpa using hxy), if_neg hprev]
        refine ⟨rfl, hne, ?_, ?_⟩
        · rw [hp' h List.mem_cons_self hxy, if_neg hnext, hyp]
        · have htl' := ih htl hnd hxl (fun y hy => hn y (List.mem_cons_of_mem h hy))
            fun y hy => hp' y (List.mem_cons_of_mem h hy)
          rw [hn h List.mem_cons_self hxy]
          simpa only [eq_comm] using htl'

/-- Unlinking node `x`: its predecessor skips to its successor, its successor goes back to
its predecessor, and every other node keeps its links. -/
lemma IsDList.unlink {next prev next' prev' : α → α} {nil h x : α} {l : List α}
    (hl : IsDList next prev nil nil h l) (hx : x ∈ l)
    (hn : ∀ y ∈ l, y ≠ x → next' y = if y = prev x then next x else next y)
    (hp : ∀ y ∈ l, y ≠ x → prev' y = if y = next x then prev x else prev y) :
    IsDList next' prev' nil nil (if prev x = nil then next x else h) (l.erase x) :=
  hl.unlink_from hl.nil_not_mem hx hn hp

/-- Pushing node `x`: it becomes the predecessor of the old head. -/
lemma IsDList.push {next prev next' prev' : α → α} {nil h x : α} {l : List α}
    (hl : IsDList next prev nil nil h l) (hx : x ≠ nil) (hnx : next' x = h)
    (hpx : prev' x = nil) (hn : ∀ y ∈ l, next' y = next y)
    (hp : ∀ y ∈ l, prev' y = if y = h then x else prev y) :
    IsDList next' prev' nil nil x (x :: l) := by
  refine ⟨rfl, hx, hpx, ?_⟩
  rw [hnx]
  cases l with
  | nil => exact hl
  | cons y l =>
      have hy : y ∉ l := (List.nodup_cons.mp hl.nodup).1
      obtain ⟨rfl, hne, _, htl⟩ := hl
      refine ⟨rfl, hne, ?_, ?_⟩
      · rw [hp h List.mem_cons_self, if_pos rfl]
      · rw [hn h List.mem_cons_self]
        refine htl.congr (fun z hz => hn z (List.mem_cons_of_mem h hz)) fun z hz => ?_
        have hzh : z ≠ h := fun hzh => hy (hzh ▸ hz)
        rw [hp z (List.mem_cons_of_mem h hz), if_neg hzh]

end LinkedList
