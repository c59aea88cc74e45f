import PondMerge.Model.Config
import PondMerge.Library.ByteMemory
import PondMerge.Library.Tiling

/-!
The abstract layout of a pool: its window as a sequence of live blocks, free blocks and
slack runs, and the headers such a sequence calls for.

* `Piece`, `LayoutOk`: the pieces and what a healthy sequence of them satisfies.
* `FreeAt`, `LiveAt`: which block lies at which address.
* `Headers`: every block starts with its size word and the size of the block before it, and
  slack with a zero word.
* `Headers.splice`: replacing a stretch of the layout by another one of the same length.
-/

namespace PondMerge

open ByteMemory Tiling

/-- A stretch of a pool's window: the block of a live slot, a free block, or slack. -/
inductive Piece where
  | live (slot size : ℕ)
  | free (size : ℕ)
  | slack (size : ℕ)
  deriving DecidableEq

namespace Piece

/-- The bytes a piece covers. -/
def len : Piece → ℕ
  | live _ n => n
  | free n => n
  | slack n => n

/-- What a piece leaves as the `prev_size` of the block behind it. -/
def own : Piece → ℕ
  | live _ n => n
  | free n => n
  | slack _ => 0

/-- The first word of a piece: the size with the free bit, and zero for slack. -/
def word : Piece → ℕ
  | live _ n => n
  | free n => n + 1
  | slack _ => 0

/-- The slot of a live piece. -/
def slot? : Piece → Option ℕ
  | live s _ => some s
  | free _ => none
  | slack _ => none

/-- The bytes of a live piece. -/
def used : Piece → ℕ
  | live _ n => n
  | free _ => 0
  | slack _ => 0

/-- The bytes of a slack run. -/
def lost : Piece → ℕ
  | live _ _ => 0
  | free _ => 0
  | slack n => n

/-- A piece in itself: sizes are multiples of 8, blocks hold what they store, slack is too
small for a block. -/
def Ok [PmConfig] : Piece → Prop
  | live s n => s < pmMaxObjects ∧ pmMinBlock ≤ n ∧ n % 8 = 0
  | free n => 16 ≤ n ∧ n % 8 = 0
  | slack n => 0 < n ∧ n < pmMinBlock ∧ n % 8 = 0

/-- Neighbours that may stand side by side: coalescing leaves no two free blocks and no two
slack runs next to each other. -/
def MayMeet : Piece → Piece → Prop
  | free _, free _ => False
  | slack _, slack _ => False
  | _, _ => True

/-- The header of a piece at `a`, behind a block of own size `q`. -/
def HeaderOk (m : Mem) (a q : ℕ) : Piece → Prop
  | live _ n => load32 m a = n ∧ load32 m (a + 4) = q
  | free n => load32 m a = n + 1 ∧ load32 m (a + 4) = q
  | slack _ => load32 m a = 0

end Piece

/-- The slots of the live pieces, in address order. -/
def liveSlots (L : List Piece) : List ℕ := L.filterMap Piece.slot?

/-- The bytes of the live pieces. -/
def usedOf (L : List Piece) : ℕ := (L.map Piece.used).sum

/-- The bytes of the slack runs. -/
def lostOf (L : List Piece) : ℕ := (L.map Piece.lost).sum

/-- The own size a sequence leaves behind it; `q` is what lies in front. -/
def lastOwn : ℕ → List Piece → ℕ
  | q, [] => q
  | _, t :: L => lastOwn t.own L

/-- A free block of `n` bytes lies at `x`. -/
def FreeAt (a : ℕ) (L : List Piece) (x n : ℕ) : Prop := (x, Piece.free n) ∈ place Piece.len a L

/-- The block of slot `s`, of `n` bytes, lies at `x`. -/
def LiveAt (a : ℕ) (L : List Piece) (x s n : ℕ) : Prop :=
  (x, Piece.live s n) ∈ place Piece.len a L

/-- What a healthy sequence of pieces satisfies.  A free block below `PM_MIN_BLOCK` only
occurs as the initial block of a window smaller than that. -/
structure LayoutOk [PmConfig] (L : List Piece) : Prop where
  pieces : ∀ t ∈ L, t.Ok
  meets : L.IsChain Piece.MayMeet
  minBlock : ∀ n, .free n ∈ L → pmMinBlock ≤ n ∨ L = [.free n]
  nodup : (liveSlots L).Nodup

/-- No free block of the layout is below `PM_MIN_BLOCK`. -/
def NoUndersized [PmConfig] (L : List Piece) : Prop := ∀ n, .free n ∈ L → pmMinBlock ≤ n

/-- The headers of a sequence laid from `a` on, behind a block of own size `q`. -/
def Headers (m : Mem) : ℕ → ℕ → List Piece → Prop
  | _, _, [] => True
  | a, q, t :: L => t.HeaderOk m a q ∧ Headers m (a + t.len) t.own L

/-! ### Counting -/

@[simp] lemma liveSlots_nil : liveSlots [] = [] := rfl

@[simp] lemma liveSlots_live (s n : ℕ) (L : List Piece) :
    liveSlots (.live s n :: L) = s :: liveSlots L := rfl

@[simp] lemma liveSlots_free (n : ℕ) (L : List Piece) :
    liveSlots (.free n :: L) = liveSlots L := rfl

@[simp] lemma liveSlots_slack (n : ℕ) (L : List Piece) :
    liveSlots (.slack n :: L) = liveSlots L := rfl

@[simp] lemma liveSlots_append (L₁ L₂ : List Piece) :
    liveSlots (L₁ ++ L₂) = liveSlots L₁ ++ liveSlots L₂ :=
  List.filterMap_append

@[simp] lemma usedOf_nil : usedOf [] = 0 := rfl

@[simp] lemma usedOf_cons (t : Piece) (L : List Piece) :
    usedOf (t :: L) = t.used + usedOf L := by
  simp [usedOf]

@[simp] lemma usedOf_append (L₁ L₂ : List Piece) : usedOf (L₁ ++ L₂) = usedOf L₁ + usedOf L₂ := by
  simp [usedOf]

@[simp] lemma lostOf_nil : lostOf [] = 0 := rfl

@[simp] lemma lostOf_cons (t : Piece) (L : List Piece) :
    lostOf (t :: L) = t.lost + lostOf L := by
  simp [lostOf]

@[simp] lemma lostOf_append (L₁ L₂ : List Piece) : lostOf (L₁ ++ L₂) = lostOf L₁ + lostOf L₂ := by
  simp [lostOf]

lemma usedOf_add_lostOf_le (L : List Piece) : usedOf L + lostOf L ≤ total Piece.len L := by
  induction L with
  | nil => simp
  | cons t L ih =>
      have ht : t.used + t.lost ≤ t.len := by
        cases t <;> simp [Piece.used, Piece.lost, Piece.len]
      rw [usedOf_cons, lostOf_cons, total_cons]
      omega

@[simp] lemma lastOwn_append (q : ℕ) (L₁ L₂ : List Piece) :
    lastOwn q (L₁ ++ L₂) = lastOwn (lastOwn q L₁) L₂ := by
  induction L₁ generalizing q with
  | nil => rfl
  | cons t L₁ ih => exact ih t.own

lemma mem_liveSlots {L : List Piece} {s : ℕ} : s ∈ liveSlots L ↔ ∃ n, Piece.live s n ∈ L := by
  rw [liveSlots, List.mem_filterMap]
  constructor
  · rintro ⟨t, ht, hs⟩
    cases t with
    | live s' n =>
        obtain rfl : s' = s := Option.some.inj hs
        exact ⟨n, ht⟩
    | free n => exact absurd hs (by simp [Piece.slot?])
    | slack n => exact absurd hs (by simp [Piece.slot?])
  · rintro ⟨n, hn⟩
    exact ⟨_, hn, rfl⟩

lemma LiveAt.mem_liveSlots {a x s n : ℕ} {L : List Piece} (h : LiveAt a L x s n) :
    s ∈ liveSlots L :=
  PondMerge.mem_liveSlots.mpr ⟨n, mem_of_mem_place h⟩

lemma exists_liveAt (a : ℕ) {s : ℕ} {L : List Piece} (h : s ∈ liveSlots L) :
    ∃ x n, LiveAt a L x s n := by
  obtain ⟨n, hn⟩ := PondMerge.mem_liveSlots.mp h
  obtain ⟨x, hx⟩ := exists_mem_place a hn
  exact ⟨x, n, hx⟩

/-! ### Headers -/

lemma headers_append {m : Mem} {a q : ℕ} {L₁ L₂ : List Piece} :
    Headers m a q (L₁ ++ L₂) ↔
      Headers m a q L₁ ∧ Headers m (a + total Piece.len L₁) (lastOwn q L₁) L₂ := by
  induction L₁ generalizing a q with
  | nil => simp [Headers, lastOwn]
  | cons t L₁ ih =>
      simp only [List.cons_append, Headers, ih, total_cons, lastOwn, and_assoc, Nat.add_assoc]

lemma Piece.HeaderOk.congr {m m' : Mem} {a q : ℕ} {t : Piece} (h : t.HeaderOk m a q)
    (hm : ∀ k < 8, m' (a + k) = m (a + k)) : t.HeaderOk m' a q := by
  have h0 : load32 m' a = load32 m a := load32_congr fun k hk => hm k (by omega)
  have h4 : load32 m' (a + 4) = load32 m (a + 4) :=
    load32_congr fun k hk => by
      rw [Nat.add_assoc]
      exact hm (4 + k) (by omega)
  cases t <;> simpa only [Piece.HeaderOk, h0, h4] using h

/-- Headers depend on the first eight bytes of every piece only. -/
lemma Headers.congr {m m' : Mem} {a q : ℕ} {L : List Piece} (h : Headers m a q L)
    (hm : ∀ u ∈ place Piece.len a L, ∀ k < 8, m' (u.1 + k) = m (u.1 + k)) :
    Headers m' a q L := by
  induction L generalizing a q with
  | nil => trivial
  | cons t L ih =>
      exact ⟨h.1.congr (hm (a, t) List.mem_cons_self),
        ih h.2 fun u hu => hm u (List.mem_cons_of_mem _ hu)⟩

/-- A write to the `prev_size` word of the first piece. -/
lemma Headers.setPrev {m m' : Mem} {a q q' : ℕ} {L : List Piece} (h : Headers m a q L)
    (hpos : ∀ t ∈ L, 0 < t.len)
    (hm : ∀ u ∈ place Piece.len a L, ∀ k < 8, (u.1 = a → k < 4) → m' (u.1 + k) = m (u.1 + k))
    (hq : L ≠ [] → load32 m' (a + 4) = q') : Headers m' a q' L := by
  cases L with
  | nil => trivial
  | cons t L =>
      have h0 : load32 m' a = load32 m a :=
        load32_congr fun k hk =>
          hm (a, t) List.mem_cons_self k (by omega) fun _ => hk
      have h4 : load32 m' (a + 4) = q' := hq (List.cons_ne_nil t L)
      have ht : 0 < t.len := hpos t List.mem_cons_self
      refine ⟨?_, h.2.congr fun u hu k hk => ?_⟩
      · have hw := h.1
        cases t with
        | live s n => exact ⟨h0.trans hw.1, h4⟩
        | free n => exact ⟨h0.trans hw.1, h4⟩
        | slack n => exact h0.trans hw
      · have hbound := (place_bounds (t := u.2) hu).1
        exact hm u (List.mem_cons_of_mem _ hu) k hk fun hua => absurd hua (by omega)

/-- The header at the place where a layout splits. -/
lemma Headers.at_split {m : Mem} {a q : ℕ} {L₁ L₂ : List Piece} {t : Piece}
    (h : Headers m a q (L₁ ++ t :: L₂)) :
    t.HeaderOk m (a + total Piece.len L₁) (lastOwn q L₁) :=
  (headers_append.mp h).2.1

/-- Replacing a stretch `M` of the layout by a stretch `M'` of the same length: the other
headers stay, but for the `prev_size` right behind. -/
lemma Headers.splice {m m' : Mem} {a q : ℕ} {L₁ M M' L₂ : List Piece}
    (h : Headers m a q (L₁ ++ M ++ L₂)) (hlen : total Piece.len M' = total Piece.len M)
    (hpos : ∀ t ∈ L₂, 0 < t.len)
    (h₁ : ∀ u ∈ place Piece.len a L₁, ∀ k < 8, m' (u.1 + k) = m (u.1 + k))
    (h₂ : ∀ u ∈ place Piece.len (a + total Piece.len L₁ + total Piece.len M) L₂, ∀ k < 8,
      (u.1 = a + total Piece.len L₁ + total Piece.len M → k < 4) → m' (u.1 + k) = m (u.1 + k))
    (hM : Headers m' (a + total Piece.len L₁) (lastOwn q L₁) M')
    (hq : L₂ ≠ [] → load32 m' (a + total Piece.len L₁ + total Piece.len M + 4)
      = lastOwn (lastOwn q L₁) M') :
    Headers m' a q (L₁ ++ M' ++ L₂) := by
  obtain ⟨h₁₂, hL₂⟩ := headers_append.mp h
  rw [total_append, ← Nat.add_assoc] at hL₂
  refine headers_append.mpr ⟨headers_append.mpr ⟨(headers_append.mp h₁₂).1.congr h₁, hM⟩, ?_⟩
  rw [total_append, ← Nat.add_assoc, hlen, lastOwn_append]
  exact hL₂.setPrev hpos h₂ hq

/-! ### Placed pieces -/

lemma FreeAt.bounds {a x n : ℕ} {L : List Piece} (h : FreeAt a L x n) :
    a ≤ x ∧ x + n ≤ a + total Piece.len L :=
  place_bounds h

lemma LiveAt.bounds {a x s n : ℕ} {L : List Piece} (h : LiveAt a L x s n) :
    a ≤ x ∧ x + n ≤ a + total Piece.len L :=
  place_bounds h

/-- A live block and a free block do not meet. -/
lemma LiveAt.apart_free {a x s n y k : ℕ} {L : List Piece} (h : LiveAt a L x s n)
    (h' : FreeAt a L y k) : x + n ≤ y ∨ y + k ≤ x := by
  rcases place_apart h h' with heq | hap
  · exact absurd (Prod.mk.inj heq).2 (by simp)
  · exact hap

/-- The blocks of two slots do not meet. -/
lemma LiveAt.apart {a x s n y r k : ℕ} {L : List Piece} (h : LiveAt a L x s n)
    (h' : LiveAt a L y r k) (hne : s ≠ r) : x + n ≤ y ∨ y + k ≤ x := by
  rcases place_apart h h' with heq | hap
  · exact absurd (Prod.mk.inj heq).2 (by simp [hne])
  · exact hap

/-- A slot has one block. -/
lemma LiveAt.unique {a x s n y k : ℕ} {L : List Piece} (hnd : (liveSlots L).Nodup)
    (h : LiveAt a L x s n) (h' : LiveAt a L y s k) : x = y ∧ n = k := by
  induction L generalizing a with
  | nil => exact absurd h List.not_mem_nil
  | cons t L ih =>
      have hnd' : (liveSlots L).Nodup := by
        cases t with
        | live r i => exact (List.nodup_cons.mp hnd).2
        | free i => exact hnd
        | slack i => exact hnd
      rcases List.mem_cons.mp h with heq | hm <;> rcases List.mem_cons.mp h' with heq' | hm'
      · have hp := Prod.mk.inj (heq.trans heq'.symm)
        exact ⟨hp.1, (Piece.live.inj hp.2).2⟩
      · have ht := (Prod.mk.inj heq).2
        subst ht
        exact absurd (LiveAt.mem_liveSlots hm') (List.nodup_cons.mp hnd).1
      · have ht := (Prod.mk.inj heq').2
        subst ht
        exact absurd (LiveAt.mem_liveSlots hm) (List.nodup_cons.mp hnd).1
      · exact ih hnd' hm hm'

lemma FreeAt.apart {a x n y k : ℕ} {L : List Piece} (h : FreeAt a L x n) (h' : FreeAt a L y k) :
    (x = y ∧ n = k) ∨ x + n ≤ y ∨ y + k ≤ x := by
  rcases place_apart h h' with heq | hap
  · have hp := Prod.mk.inj heq
    exact Or.inl ⟨hp.1, Piece.free.inj hp.2⟩
  · exact Or.inr hap

variable [PmConfig]

lemma Piece.Ok.len_ge {t : Piece} (h : t.Ok) : 8 ≤ t.len := by
  have hmin := PmConfig.minBlock_ge
  cases t with
  | live s n =>
      have := h.2.1
      simp only [Piece.len]
      omega
  | free n =>
      have := h.1
      simp only [Piece.len]
      omega
  | slack n =>
      have h1 := h.1
      have h2 := h.2.2
      simp only [Piece.len]
      omega

lemma Piece.Ok.len_mod {t : Piece} (h : t.Ok) : t.len % 8 = 0 := by
  cases t with
  | live s n => exact h.2.2
  | free n => exact h.2
  | slack n => exact h.2.2

lemma total_mod {L : List Piece} (h : ∀ t ∈ L, t.Ok) : total Piece.len L % 8 = 0 := by
  induction L with
  | nil => rfl
  | cons t L ih =>
      have ht := (h t List.mem_cons_self).len_mod
      have hL := ih fun t ht => h t (List.mem_cons_of_mem _ ht)
      rw [total_cons]
      omega

/-- Two placed pieces at one address are the same piece. -/
lemma place_unique {a : ℕ} {L : List Piece} (h : ∀ t ∈ L, t.Ok) {u v : ℕ × Piece}
    (hu : u ∈ place Piece.len a L) (hv : v ∈ place Piece.len a L) (huv : u.1 = v.1) : u = v := by
  have hlu := (h u.2 (mem_of_mem_place hu)).len_ge
  have hlv := (h v.2 (mem_of_mem_place hv)).len_ge
  rcases place_apart hu hv with heq | hlt | hlt
  · exact heq
  · omega
  · omega

lemma FreeAt.size_ge {a x n : ℕ} {L : List Piece} (hok : ∀ t ∈ L, t.Ok) (h : FreeAt a L x n) :
    16 ≤ n ∧ n % 8 = 0 :=
  hok _ (mem_of_mem_place h)

lemma LiveAt.size_ge {a x s n : ℕ} {L : List Piece} (hok : ∀ t ∈ L, t.Ok)
    (h : LiveAt a L x s n) : s < pmMaxObjects ∧ pmMinBlock ≤ n ∧ n % 8 = 0 :=
  hok _ (mem_of_mem_place h)

lemma FreeAt.unique {a x n k : ℕ} {L : List Piece} (hok : ∀ t ∈ L, t.Ok)
    (h : FreeAt a L x n) (h' : FreeAt a L x k) : n = k :=
  Piece.free.inj (Prod.mk.inj (place_unique hok h h' rfl)).2

end PondMerge
