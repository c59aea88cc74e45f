import PondMerge.Structure.Pool
import PondMerge.Model.Objects

/-!
The block part of allocation and release, on memory and bins alone: what `alloc` and `free`
do to a heap that represents a layout.

* `HeapRep`: headers and bins represent a layout.
* `allocBlock_rep`: a free block becomes a live block and, where it is large enough, a
  smaller free block.
* `freeBlock_rep`: a live block and the free blocks around it become one free block.
-/

namespace PondMerge

open ByteMemory Tiling

variable [PmConfig]

/-- Headers and bins represent the layout `L`, laid from `a` on. -/
structure HeapRep (zone a : ℕ) (m : Mem) (b : TlsfBins) (L : List Piece) : Prop where
  headers : Headers m a 0 L
  bins : BinsRep zone m b (FreeAt a L)

/-! ### Words of a header -/

omit [PmConfig] in
lemma or_freeBit_even {n : ℕ} (h : n % 2 = 0) : n ||| blockFreeBit = n + 1 := by
  have hor := Nat.shiftLeft_add_eq_or_of_lt (i := 1) (b := 1) (by omega) (n / 2)
  have hsh : (n / 2) <<< 1 = n := by
    rw [Nat.shiftLeft_eq]
    omega
  rw [hsh] at hor
  exact hor.symm

omit [PmConfig] in
lemma or_freeBit {n : ℕ} (h : n % 8 = 0) : n ||| blockFreeBit = n + 1 :=
  or_freeBit_even (by omega)

omit [PmConfig] in
lemma blkSizeOf_free {m : Mem} {a n : ℕ} (hn : n % 8 = 0) (h : load32 m a = n + 1) :
    blkSizeOf m a = n := by
  rw [blkSizeOf, h]
  omega

omit [PmConfig] in
lemma blkIsFree_free {m : Mem} {a n : ℕ} (hn : n % 8 = 0) (h : load32 m a = n + 1) :
    blkIsFree m a = true := by
  rw [blkIsFree, h, decide_eq_true_eq]
  omega

omit [PmConfig] in
lemma blkSizeOf_live {m : Mem} {a n : ℕ} (hn : n % 8 = 0) (h : load32 m a = n) :
    blkSizeOf m a = n := by
  rw [blkSizeOf, h]
  omega

omit [PmConfig] in
lemma blkIsFree_live {m : Mem} {a n : ℕ} (hn : n % 8 = 0) (h : load32 m a = n) :
    blkIsFree m a = false := by
  rw [blkIsFree, h, decide_eq_false_iff_not]
  omega

/-- A free piece and no other carries the free bit. -/
lemma Piece.HeaderOk.isFree {m : Mem} {a q : ℕ} {t : Piece} (h : t.HeaderOk m a q)
    (hok : t.Ok) : blkIsFree m a = true ↔ ∃ n, t = .free n := by
  cases t with
  | live s n => simp [blkIsFree_live hok.2.2 h.1]
  | free n => simp [blkIsFree_free hok.2 h.1]
  | slack n => simp [blkIsFree_live (n := 0) rfl h]

/-! ### Free blocks of a layout -/

omit [PmConfig] in
@[simp] lemma freeAt_nil (a x n : ℕ) : FreeAt a [] x n ↔ False := by
  simp [FreeAt]

omit [PmConfig] in
@[simp] lemma freeAt_append (a x n : ℕ) (L₁ L₂ : List Piece) :
    FreeAt a (L₁ ++ L₂) x n ↔ FreeAt a L₁ x n ∨ FreeAt (a + total Piece.len L₁) L₂ x n := by
  simp [FreeAt]

omit [PmConfig] in
@[simp] lemma freeAt_live (a x n s k : ℕ) (L : List Piece) :
    FreeAt a (.live s k :: L) x n ↔ FreeAt (a + k) L x n := by
  simp [FreeAt, Piece.len]

omit [PmConfig] in
@[simp] lemma freeAt_free (a x n k : ℕ) (L : List Piece) :
    FreeAt a (.free k :: L) x n ↔ (x = a ∧ n = k) ∨ FreeAt (a + k) L x n := by
  simp [FreeAt, Piece.len]

omit [PmConfig] in
@[simp] lemma freeAt_slack (a x n k : ℕ) (L : List Piece) :
    FreeAt a (.slack k :: L) x n ↔ FreeAt (a + k) L x n := by
  simp [FreeAt, Piece.len]

omit [PmConfig] in
@[simp] lemma liveAt_nil (a x s n : ℕ) : LiveAt a [] x s n ↔ False := by
  simp [LiveAt]

omit [PmConfig] in
@[simp] lemma liveAt_append (a x s n : ℕ) (L₁ L₂ : List Piece) :
    LiveAt a (L₁ ++ L₂) x s n ↔ LiveAt a L₁ x s n ∨ LiveAt (a + total Piece.len L₁) L₂ x s n := by
  simp [LiveAt]

omit [PmConfig] in
@[simp] lemma liveAt_live (a x s n r k : ℕ) (L : List Piece) :
    LiveAt a (.live r k :: L) x s n ↔ (x = a ∧ s = r ∧ n = k) ∨ LiveAt (a + k) L x s n := by
  simp [LiveAt, Piece.len]

omit [PmConfig] in
@[simp] lemma liveAt_free (a x s n k : ℕ) (L : List Piece) :
    LiveAt a (.free k :: L) x s n ↔ LiveAt (a + k) L x s n := by
  simp [LiveAt, Piece.len]

omit [PmConfig] in
@[simp] lemma liveAt_slack (a x s n k : ℕ) (L : List Piece) :
    LiveAt a (.slack k :: L) x s n ↔ LiveAt (a + k) L x s n := by
  simp [LiveAt, Piece.len]

/-- Taking the free block at a split out of the set. -/
lemma delBlock_split {a n s : ℕ} {L₁ L₂ : List Piece}
    (hok : ∀ t ∈ L₁ ++ Piece.free n :: L₂, t.Ok) (y k : ℕ) :
    delBlock (FreeAt a (L₁ ++ Piece.free n :: L₂)) (a + total Piece.len L₁) y k ↔
      FreeAt a (L₁ ++ Piece.live s n :: L₂) y k := by
  have hn : 16 ≤ n := (hok (.free n) (by simp)).1
  simp only [delBlock, freeAt_append, freeAt_free, freeAt_live]
  constructor
  · rintro ⟨h | h | h, hne⟩
    · exact Or.inl h
    · exact absurd h.1 hne
    · exact Or.inr h
  · rintro (h | h)
    · have hk := (h.size_ge fun t ht => hok t (by simp [ht])).1
      have hb := h.bounds
      exact ⟨Or.inl h, by omega⟩
    · have hb := h.bounds
      exact ⟨Or.inr (Or.inr h), by omega⟩

omit [PmConfig] in
/-- A piece at a split lies there. -/
lemma mem_place_split (a : ℕ) (L₁ : List Piece) (t : Piece) (L₂ : List Piece) :
    (a + total Piece.len L₁, t) ∈ place Piece.len a (L₁ ++ t :: L₂) := by
  simp

/-! ### Allocation -/

/-- The size of the block an allocation of `need` bytes makes of a free block of `n`. -/
def allocSize (n need : ℕ) : ℕ := if pmMinBlock ≤ n - need then need else n

/-- The pieces an allocation for slot `s` makes of a free block of `n` bytes. -/
def allocPieces (s n need : ℕ) : List Piece :=
  if pmMinBlock ≤ n - need then [.live s need, .free (n - need)] else [.live s n]

section Alloc

variable {zone a s n need : ℕ} {m : Mem} {b : TlsfBins} {L₁ L₂ : List Piece}

lemma total_allocPieces (hle : need ≤ n) :
    total Piece.len (allocPieces s n need) = n := by
  rw [allocPieces]
  split_ifs
  · simp only [total_cons, total_nil, Piece.len]
    omega
  · simp [Piece.len]

lemma allocPieces_ok (hs : s < pmMaxObjects) (hn : n % 8 = 0) (hmin : pmMinBlock ≤ need)
    (hmod : need % 8 = 0) (hle : need ≤ n) : ∀ t ∈ allocPieces s n need, t.Ok := by
  have hge := PmConfig.minBlock_ge
  intro t ht
  rw [allocPieces] at ht
  split_ifs at ht with hrem
  · rcases List.mem_cons.mp ht with rfl | ht
    · exact ⟨hs, hmin, hmod⟩
    · rw [List.mem_singleton.mp ht]
      exact ⟨by omega, by omega⟩
  · rw [List.mem_singleton.mp ht]
    exact ⟨hs, by omega, hn⟩

/-- The pieces behind a split start where the memory behind it does. -/
lemma tail_lt_iff {x : ℕ} (hok : ∀ t ∈ L₂, t.Ok) :
    x < x + total Piece.len L₂ ↔ L₂ ≠ [] := by
  cases L₂ with
  | nil => simp
  | cons t L₂ =>
      have ht := (hok t List.mem_cons_self).len_ge
      simp only [total_cons, ne_eq, reduceCtorEq, not_false_eq_true, iff_true]
      omega

omit [PmConfig] in
/-- The `prev_size` of the first piece behind a split is a header word. -/
lemma mem_place_tail {x z : ℕ} (hL : L₂ ≠ []) (hlo : x + 4 ≤ z) (hhi : z < x + 8) :
    ∃ u ∈ place Piece.len x L₂, u.1 ≤ z ∧ z < u.1 + 8 := by
  cases L₂ with
  | nil => exact absurd rfl hL
  | cons t L₂ => exact ⟨(x, t), List.mem_cons_self, by simp only; omega, by simp only; omega⟩

/-- A write that leaves alone everything but links of `L₁` and `L₂`, the stretch between
them and the `prev_size` behind it, keeps the headers around the stretch. -/
lemma headers_around {m' : Mem} {q : ℕ} {M M' : List Piece}
    (h : Headers m a q (L₁ ++ M ++ L₂)) (hok : ∀ t ∈ L₁ ++ M ++ L₂, t.Ok)
    (hlen : total Piece.len M' = total Piece.len M)
    (hframe : ∀ z, ¬ LinkByte (FreeAt a (L₁ ++ M ++ L₂)) z →
      ¬ (a + total Piece.len L₁ ≤ z ∧ z < a + total Piece.len L₁ + total Piece.len M) →
      ¬ (a + total Piece.len L₁ + total Piece.len M + 4 ≤ z
        ∧ z < a + total Piece.len L₁ + total Piece.len M + 8) → m' z = m z)
    (hM : Headers m' (a + total Piece.len L₁) (lastOwn q L₁) M')
    (hq : L₂ ≠ [] → load32 m' (a + total Piece.len L₁ + total Piece.len M + 4)
      = lastOwn (lastOwn q L₁) M') :
    Headers m' a q (L₁ ++ M' ++ L₂) := by
  refine h.splice hlen (fun t ht => ?_) (fun u hu k hk => ?_) (fun u hu k hk hk4 => ?_) hM hq
  · have := (hok t (by simp [ht])).len_ge
    omega
  · have hmem : u ∈ place Piece.len a (L₁ ++ M ++ L₂) := by simp [hu]
    have hlen := (hok u.2 (mem_of_mem_place hmem)).len_ge
    have hb := place_bounds (t := u.2) hu
    exact hframe _ (header_not_link hok hmem hk) (by omega) (by omega)
  · have hmem : u ∈ place Piece.len a (L₁ ++ M ++ L₂) := by
      rw [place_append, total_append, ← Nat.add_assoc]
      exact List.mem_append_right _ hu
    have hb := place_bounds (t := u.2) hu
    have hlen := (hok u.2 (mem_of_mem_place hmem)).len_ge
    refine hframe _ (header_not_link hok hmem hk) (by omega) ?_
    rcases Nat.lt_or_ge k 4 with h4 | h4
    · cases L₂ with
      | nil => exact absurd hu List.not_mem_nil
      | cons t L₂ =>
          have ht := (hok t (by simp)).len_ge
          rcases List.mem_cons.mp hu with rfl | hu'
          · simp only
            omega
          · have hb' := (place_bounds (t := u.2) hu').1
            omega
    · -- the `prev_size` of the first piece behind is the one word that may change
      have hne : u.1 ≠ a + total Piece.len L₁ + total Piece.len M :=
        fun heq => absurd (hk4 heq) (by omega)
      cases L₂ with
      | nil => exact absurd hu List.not_mem_nil
      | cons t L₂ =>
          have ht := (hok t (by simp)).len_ge
          rcases List.mem_cons.mp hu with rfl | hu'
          · exact absurd rfl hne
          · have hb' := (place_bounds (t := u.2) hu').1
            omega

/-- What `bins_remove` makes of the bins of a layout: the block leaves the set. -/
lemma BinsRep.remove_split (h : BinsRep zone m b (FreeAt a (L₁ ++ Piece.free n :: L₂)))
    (hok : ∀ t ∈ L₁ ++ Piece.free n :: L₂, t.Ok)
    (hsep : Separated zone (FreeAt a (L₁ ++ Piece.free n :: L₂)))
    (hsize : blkSizeOf m (a + total Piece.len L₁) = n) (s : ℕ) :
    let r := binsRemove zone b m (a + total Piece.len L₁)
    BinsRep zone r.2 r.1 (FreeAt a (L₁ ++ Piece.live s n :: L₂))
      ∧ ∀ z, ¬ LinkByte (FreeAt a (L₁ ++ Piece.free n :: L₂)) z → r.2 z = m z := by
  have hx : FreeAt a (L₁ ++ Piece.free n :: L₂) (a + total Piece.len L₁) n := mem_place_split ..
  exact ⟨(binsRemove_rep h hsep hx hsize).congr_set fun y k => delBlock_split hok y k,
    fun z hz => binsRemove_frame h hsep hx hz⟩

/-- The remainder of a split, before it is binned. -/
def stampRest (m : Mem) (rem k need : ℕ) : Mem :=
  store32 (store32 (store32 (store32 m rem (k ||| blockFreeBit)) (rem + 4) need) (rem + 12)
    nullOff) (rem + 8) nullOff

omit [PmConfig] in
lemma stampRest_frame (m : Mem) {rem k need z : ℕ} (hz : ¬ (rem ≤ z ∧ z < rem + 16)) :
    stampRest m rem k need z = m z := by
  rw [stampRest, store32_apply_of_not_mem _ (by omega), store32_apply_of_not_mem _ (by omega),
    store32_apply_of_not_mem _ (by omega), store32_apply_of_not_mem _ (by omega)]

omit [PmConfig] in
lemma stampRest_word (m : Mem) {rem k need : ℕ} (hk : k % 8 = 0) (hlt : k < 2 ^ 31) :
    load32 (stampRest m rem k need) rem = k + 1 := by
  rw [stampRest, load32_store32_of_disjoint _ (by omega), load32_store32_of_disjoint _ (by omega),
    load32_store32_of_disjoint _ (by omega), load32_store32_self, or_freeBit hk]
  omega

omit [PmConfig] in
lemma stampRest_prev (m : Mem) {rem k need : ℕ} (hlt : need < 2 ^ 31) :
    load32 (stampRest m rem k need) (rem + 4) = need := by
  rw [stampRest, load32_store32_of_disjoint _ (by omega), load32_store32_of_disjoint _ (by omega),
    load32_store32_self]
  omega

/-- The splitting branch of `alloc_split`. -/
lemma allocSplit_split (stop : ℕ) {x : ℕ} (hle : need ≤ n) (hn : n < 2 ^ 32)
    (hrem : pmMinBlock ≤ n - need) :
    allocSplit zone stop b m x n need =
      let bm := binsInsert zone b (stampRest m (x + need) (n - need) need) (x + need)
      (bm.1, if x + n < stop then store32 bm.2 (x + n + 4) (n - need) else bm.2, need) := by
  rw [allocSplit, sub32_of_le hle hn, if_pos hrem]
  rfl

/-- The absorbing branch of `alloc_split`. -/
lemma allocSplit_absorb (stop : ℕ) {x : ℕ} (hle : need ≤ n) (hn : n < 2 ^ 32)
    (hrem : ¬ pmMinBlock ≤ n - need) :
    allocSplit zone stop b m x n need =
      (b, if x + n < stop then store32 m (x + n + 4) n else m, n) := by
  rw [allocSplit, sub32_of_le hle hn, if_neg hrem]

/-- The last writes of an allocation: the `prev_size` behind it, and its own header. -/
def stampLive (m : Mem) (x n behind size q : ℕ) (tail : Prop) [Decidable tail] : Mem :=
  store32 (store32 (if tail then store32 m (x + n + 4) behind else m) x size) (x + 4) q

section StampLive

variable {x behind size q : ℕ} {tail : Prop} [Decidable tail]

omit [PmConfig] in
lemma stampLive_frame (m : Mem) {z : ℕ} (h₁ : ¬ (x ≤ z ∧ z < x + 8))
    (h₂ : tail → ¬ (x + n + 4 ≤ z ∧ z < x + n + 8)) :
    stampLive m x n behind size q tail z = m z := by
  rw [stampLive, store32_apply_of_not_mem _ (by omega), store32_apply_of_not_mem _ (by omega)]
  split_ifs with ht
  · exact store32_apply_of_not_mem _ (by have := h₂ ht; omega)
  · rfl

omit [PmConfig] in
lemma stampLive_header (m : Mem) (s : ℕ) (hsize : size < 2 ^ 31) (hq : q < 2 ^ 32) :
    (Piece.live s size).HeaderOk (stampLive m x n behind size q tail) x q := by
  refine ⟨?_, ?_⟩
  · rw [stampLive, load32_store32_of_disjoint _ (by omega), load32_store32_self]
    omega
  · rw [stampLive, load32_store32_self, Nat.mod_eq_of_lt hq]

omit [PmConfig] in
lemma stampLive_behind (m : Mem) (hn : 8 ≤ n) (hb : behind < 2 ^ 31) (ht : tail) :
    load32 (stampLive m x n behind size q tail) (x + n + 4) = behind := by
  rw [stampLive, load32_store32_of_disjoint _ (by omega), load32_store32_of_disjoint _ (by omega),
    if_pos ht, load32_store32_self]
  omega

end StampLive

/-- The last writes of an allocation complete the headers: `R` is what lies behind the new
live block in the stretch of the old free block. -/
lemma stampLive_rep {m₂ : Mem} {b₂ : TlsfBins} {size : ℕ} {R : List Piece}
    (hh : Headers m a 0 (L₁ ++ [Piece.free n] ++ L₂)) (hok : ∀ t ∈ L₁ ++ [Piece.free n] ++ L₂, t.Ok)
    (hok' : ∀ t ∈ L₁ ++ (Piece.live s size :: R) ++ L₂, t.Ok)
    (hlen : size + total Piece.len R = n) (hlt : n < 2 ^ 31)
    (hframe : ∀ z, ¬ LinkByte (FreeAt a (L₁ ++ [Piece.free n] ++ L₂)) z →
      ¬ (a + total Piece.len L₁ ≤ z ∧ z < a + total Piece.len L₁ + n) → m₂ z = m z)
    (hR : Headers m₂ (a + total Piece.len L₁ + size) size R)
    (hb : BinsRep zone m₂ b₂ (FreeAt a (L₁ ++ (Piece.live s size :: R) ++ L₂)))
    {tail : Prop} [Decidable tail] (htail : tail ↔ L₂ ≠ []) :
    let m' := stampLive m₂ (a + total Piece.len L₁) n (lastOwn size R) size (lastOwn 0 L₁) tail
    HeapRep zone a m' b₂ (L₁ ++ (Piece.live s size :: R) ++ L₂)
      ∧ ∀ z, ¬ MetaByte a (L₁ ++ (Piece.live s size :: R) ++ L₂) z → m' z = m₂ z := by
  have hq : lastOwn 0 L₁ < 2 ^ 32 := by
    have hw := (List.append_assoc L₁ [.free n] L₂ ▸ hh).at_split (t := .free n)
    rw [← hw.2]
    exact load32_lt _ _
  have hx := mem_place_split a L₁ (.live s size) (R ++ L₂)
  rw [← List.cons_append, ← List.append_assoc] at hx
  have hlast : lastOwn size R < 2 ^ 31 := by
    rcases R.eq_nil_or_concat with rfl | ⟨R', t, rfl⟩
    · simp only [total_nil] at hlen
      simp only [lastOwn]
      omega
    · have ht : t.own ≤ t.len := by
        cases t <;> simp [Piece.own, Piece.len]
      simp only [List.concat_eq_append, total_append, total_cons, total_nil] at hlen
      simp only [List.concat_eq_append, lastOwn_append, lastOwn]
      omega
  have hsize : 16 ≤ size := by
    have hmin := (hok' (.live s size) (by simp)).2.1
    have hge := PmConfig.minBlock_ge
    omega
  have hend : a + total Piece.len (L₁ ++ (Piece.live s size :: R)) =
      a + total Piece.len L₁ + n := by
    simp only [total_append, total_cons, Piece.len]
    omega
  -- the last word written is the `prev_size` of the block behind, if there is one
  have hbehind : tail → ∀ z, a + total Piece.len L₁ + n + 4 ≤ z →
      z < a + total Piece.len L₁ + n + 8 →
      ∃ u ∈ place Piece.len a (L₁ ++ (Piece.live s size :: R) ++ L₂), u.1 ≤ z ∧ z < u.1 + 8 := by
    intro ht z hlo hhi
    obtain ⟨u, hu, hz⟩ := mem_place_tail (htail.mp ht) hlo hhi
    refine ⟨u, ?_, hz⟩
    rw [place_append, hend]
    exact List.mem_append_right _ hu
  refine ⟨⟨?_, ?_⟩, fun z hz => ?_⟩
  · refine headers_around hh hok ?_ ?_ ⟨?_, ?_⟩ ?_
    · simpa [Piece.len] using hlen
    · intro z hz hin hbh
      simp only [total_cons, total_nil, Piece.len, Nat.add_zero] at hin hbh
      rw [stampLive_frame _ (by omega) (fun _ => hbh)]
      exact hframe z hz hin
    · exact stampLive_header _ s (by omega) hq
    · refine hR.congr fun u hu k hk => stampLive_frame _ ?_ fun _ => ?_
      · have hb := (place_bounds (t := u.2) hu).1
        omega
      · have hb := place_bounds (t := u.2) hu
        have ht := (hok' u.2 (by simp [mem_of_mem_place hu])).len_ge
        omega
    · intro hne
      simp only [total_cons, total_nil, Piece.len, Nat.add_zero]
      exact stampLive_behind _ (by omega) hlast (htail.mpr hne)
  · refine hb.congr fun z hz => stampLive_frame _ (hz.not_header hok' hx) fun ht hin => ?_
    obtain ⟨u, hu, hzu⟩ := hbehind ht z hin.1 hin.2
    exact hz.not_header hok' (t := u.2) hu hzu
  · refine stampLive_frame _ (fun hin => hz (.header hx hin.1 hin.2)) fun ht hin => ?_
    obtain ⟨u, hu, hzu⟩ := hbehind ht z hin.1 hin.2
    exact hz (.header (t := u.2) hu hzu.1 hzu.2)

/-- Stamping and binning the remainder of a split. -/
lemma binRest_rep (hb : BinsRep zone m b (FreeAt a (L₁ ++ Piece.live s n :: L₂)))
    (hok : ∀ t ∈ L₁ ++ Piece.free n :: L₂, t.Ok)
    (hok' : ∀ t ∈ L₁ ++ [Piece.live s need, .free (n - need)] ++ L₂, t.Ok) (hle : need ≤ n)
    (hlo : zone ≤ a) (hhi : a + total Piece.len (L₁ ++ Piece.free n :: L₂) < zone + 2 ^ 31) :
    let m₁ := stampRest m (a + total Piece.len L₁ + need) (n - need) need
    let r := binsInsert zone b m₁ (a + total Piece.len L₁ + need)
    BinsRep zone r.2 r.1 (FreeAt a (L₁ ++ [Piece.live s need, .free (n - need)] ++ L₂))
      ∧ Headers r.2 (a + total Piece.len L₁ + need) need [.free (n - need)]
      ∧ ∀ z, ¬ LinkByte (FreeAt a (L₁ ++ [Piece.live s need, .free (n - need)] ++ L₂)) z →
        r.2 z = m₁ z := by
  have hk : 16 ≤ n - need ∧ (n - need) % 8 = 0 := hok' (.free (n - need)) (by simp)
  have htot : total Piece.len L₁ + n + total Piece.len L₂ < 2 ^ 31 := by
    simp only [total_append, total_cons, Piece.len] at hhi
    omega
  have hrest : (a + total Piece.len L₁ + need, Piece.free (n - need)) ∈
      place Piece.len a (L₁ ++ [Piece.live s need, .free (n - need)] ++ L₂) := by
    simp [Piece.len]
  have hset : ∀ y k, addBlock (FreeAt a (L₁ ++ Piece.live s n :: L₂))
      (a + total Piece.len L₁ + need) (n - need) y k ↔
      FreeAt a (L₁ ++ [Piece.live s need, .free (n - need)] ++ L₂) y k := by
    intro y k
    have hend : a + total Piece.len L₁ + need + (n - need) = a + total Piece.len L₁ + n := by
      omega
    simp only [addBlock, freeAt_append, freeAt_live, freeAt_free, freeAt_nil, total_append,
      total_cons, total_nil, Piece.len, or_false, Nat.add_zero, ← Nat.add_assoc, hend]
    tauto
  have hnear : ∀ y k, FreeAt a (L₁ ++ Piece.live s n :: L₂) y k →
      y + 16 ≤ a + total Piece.len L₁ ∨ a + total Piece.len L₁ + n ≤ y := by
    intro y k hy
    simp only [freeAt_append, freeAt_live] at hy
    rcases hy with hy | hy
    · have hsz := (hy.size_ge fun t ht => hok t (by simp [ht])).1
      have hb := hy.bounds
      omega
    · have hb := hy.bounds
      omega
  -- the remainder lies behind the new block, away from all links
  have hb₁ : BinsRep zone (stampRest m (a + total Piece.len L₁ + need) (n - need) need) b
      (FreeAt a (L₁ ++ Piece.live s n :: L₂)) := by
    refine hb.congr fun z hz => stampRest_frame _ fun hin => ?_
    obtain ⟨y, k, hy, hylo, hyhi⟩ := hz
    have := hnear y k hy
    omega
  have hsz : blkSizeOf (stampRest m (a + total Piece.len L₁ + need) (n - need) need)
      (a + total Piece.len L₁ + need) = n - need :=
    blkSizeOf_free hk.2 (stampRest_word _ hk.2 (by omega))
  have hsep : Separated zone (addBlock (FreeAt a (L₁ ++ Piece.live s n :: L₂))
      (a + total Piece.len L₁ + need) (n - need)) := by
    refine (freeAt_separated hok' hlo ?_).mono fun y k => (hset y k).mp
    simp only [total_append, total_cons, total_nil, Piece.len] at hhi ⊢
    omega
  have hfresh : ∀ k, ¬ FreeAt a (L₁ ++ Piece.live s n :: L₂) (a + total Piece.len L₁ + need) k := by
    intro k hy
    have := hnear _ k hy
    omega
  have hframe : ∀ z, ¬ LinkByte (FreeAt a (L₁ ++ [Piece.live s need, .free (n - need)] ++ L₂)) z →
      (binsInsert zone b (stampRest m (a + total Piece.len L₁ + need) (n - need) need)
        (a + total Piece.len L₁ + need)).2 z =
        stampRest m (a + total Piece.len L₁ + need) (n - need) need z := by
    intro z hz
    refine binsInsert_frame hb₁ hsz fun hl => hz ?_
    obtain ⟨y, k, hy, hyz⟩ := hl
    exact ⟨y, k, (hset y k).mp hy, hyz⟩
  refine ⟨(binsInsert_rep hb₁ hsep hfresh hsz).congr_set hset, ⟨?_, trivial⟩, hframe⟩
  have hhead : ∀ z, a + total Piece.len L₁ + need ≤ z → z < a + total Piece.len L₁ + need + 8 →
      _ := fun z hlo hhi => hframe z fun hl => hl.not_header hok' hrest ⟨hlo, hhi⟩
  refine ⟨(load32_congr fun j hj => hhead _ (by omega) (by omega)).trans
    (stampRest_word _ hk.2 (by omega)), (load32_congr fun j hj => hhead _ (by omega)
    (by omega)).trans (stampRest_prev _ (by omega))⟩

/-- What `alloc` makes of a heap. -/
theorem allocBlock_rep (h : HeapRep zone a m b (L₁ ++ Piece.free n :: L₂))
    (hok : ∀ t ∈ L₁ ++ Piece.free n :: L₂, t.Ok) (hs : s < pmMaxObjects) (hlo : zone ≤ a)
    (hhi : a + total Piece.len (L₁ ++ Piece.free n :: L₂) < zone + 2 ^ 31)
    (hmin : pmMinBlock ≤ need) (hmod : need % 8 = 0) (hle : need ≤ n) :
    let r := allocBlock zone (a + total Piece.len (L₁ ++ Piece.free n :: L₂)) b m
      (a + total Piece.len L₁) need
    HeapRep zone a r.2.1 r.1 (L₁ ++ allocPieces s n need ++ L₂)
      ∧ r.2.2 = allocSize n need
      ∧ ∀ z, ¬ MetaByte a (L₁ ++ Piece.free n :: L₂) z →
        ¬ MetaByte a (L₁ ++ allocPieces s n need ++ L₂) z → r.2.1 z = m z := by
  have hge := PmConfig.minBlock_ge
  have hsep := freeAt_separated hok hlo hhi.le
  have hn : 16 ≤ n ∧ n % 8 = 0 := hok (.free n) (by simp)
  have hL₂ : ∀ t ∈ L₂, t.Ok := fun t ht => hok t (by simp [ht])
  have hcons : L₁ ++ Piece.free n :: L₂ = L₁ ++ [Piece.free n] ++ L₂ := by simp
  have htot : total Piece.len L₁ + n + total Piece.len L₂ < 2 ^ 31 := by
    simp only [total_append, total_cons, Piece.len] at hhi
    omega
  have hok' : ∀ t ∈ L₁ ++ allocPieces s n need ++ L₂, t.Ok := by
    intro t ht
    rcases List.mem_append.mp ht with ht | ht
    · rcases List.mem_append.mp ht with ht | ht
      · exact hok t (by simp [ht])
      · exact allocPieces_ok hs hn.2 hmin hmod hle t ht
    · exact hL₂ t ht
  have htail : a + total Piece.len L₁ + n < a + total Piece.len (L₁ ++ Piece.free n :: L₂) ↔
      L₂ ≠ [] := by
    rw [← tail_lt_iff (x := a + total Piece.len L₁ + n) hL₂]
    simp only [total_append, total_cons, Piece.len]
    omega
  -- the block leaves its bin, and headers are no links
  obtain ⟨hb₁, hf₁⟩ := h.bins.remove_split hok hsep
    (blkSizeOf_free hn.2 h.headers.at_split.1) s
  have hh₁ := h.headers.congr fun u hu k hk => hf₁ _ (header_not_link hok hu hk)
  obtain ⟨hw₁, hq₁⟩ := hh₁.at_split
  have hsz₁ := blkSizeOf_free hn.2 hw₁
  by_cases hrem : pmMinBlock ≤ n - need
  · -- split: the remainder is binned, then the headers are completed
    rw [allocPieces, if_pos hrem] at hok' ⊢
    obtain ⟨hb₂, hR, hf₂⟩ := binRest_rep hb₁ hok hok' hle hlo hhi
    have hrest : (a + total Piece.len L₁ + need, Piece.free (n - need)) ∈
        place Piece.len a (L₁ ++ [Piece.live s need, .free (n - need)] ++ L₂) := by
      simp [Piece.len]
    have hkeep : ∀ z, ¬ LinkByte (FreeAt a (L₁ ++ [Piece.free n] ++ L₂)) z →
        ¬ (a + total Piece.len L₁ ≤ z ∧ z < a + total Piece.len L₁ + n) → _ :=
      fun z hz hin => (hf₂ z fun hl => hz ?_).trans (stampRest_frame _ (by omega))
    · obtain ⟨hrep, hf₃⟩ := stampLive_rep (R := [.free (n - need)])
        (hcons ▸ hh₁) (hcons ▸ hok) hok' (by simp [Piece.len]; omega) (by omega)
        hkeep hR hb₂ htail
      rw [allocBlock]
      dsimp only
      rw [hq₁, hsz₁, allocSplit_split _ hle (by omega) hrem]
      refine ⟨hrep, ?_, fun z hz hz' => (hf₃ z hz').trans ?_⟩
      · rw [allocSize, if_pos hrem]
      · rw [hf₂ z fun hl => hz' (Or.inr hl), stampRest_frame, hf₁ z fun hl => hz (Or.inr hl)]
        rintro ⟨hlo, hhi⟩
        by_cases h8 : z < a + total Piece.len L₁ + need + 8
        · exact hz' (.header hrest hlo h8)
        · exact hz' (.link hrest (by omega) (by omega))
    · obtain ⟨y, k, hy, hyz⟩ := hl
      refine ⟨y, k, ?_, hyz⟩
      have hend : a + (total Piece.len L₁ + (need + (n - need))) =
          a + (total Piece.len L₁ + n) := by omega
      simp only [freeAt_append, freeAt_live, freeAt_free, freeAt_nil, total_append,
        total_cons, total_nil, Piece.len, or_false, Nat.add_zero, hend] at hy ⊢
      rcases hy with (hy | ⟨rfl, rfl⟩) | hy
      · exact Or.inl (Or.inl hy)
      · exact absurd (by omega) hin
      · exact Or.inr hy
  · -- absorb: no remainder
    rw [allocPieces, if_neg hrem] at hok' ⊢
    obtain ⟨hrep, hf₃⟩ := stampLive_rep (R := []) (hcons ▸ hh₁) (hcons ▸ hok) hok'
      (by simp) (by omega) (fun z _ _ => rfl) trivial (by simpa using hb₁) htail
    rw [allocBlock]
    dsimp only
    rw [hq₁, hsz₁, allocSplit_absorb _ hle (by omega) hrem]
    refine ⟨hrep, ?_, fun z hz hz' => (hf₃ z hz').trans (hf₁ z fun hl => hz (Or.inr hl))⟩
    rw [allocSize, if_neg hrem]

end Alloc

/-! ### Release -/

section Free

variable {zone a s n : ℕ} {m : Mem} {b : TlsfBins} {L₀ B C L₃ : List Piece}

/-- At most one free block. -/
def FreeOrNil (B : List Piece) : Prop := B = [] ∨ ∃ j, B = [.free j]

/-- No free block ends the list. -/
def NoFreeLast (L : List Piece) : Prop := ∀ L' j, L ≠ L' ++ [Piece.free j]

/-- No free block starts the list. -/
def NoFreeHead (L : List Piece) : Prop := ∀ j L', L ≠ .free j :: L'

/-- The backward merge: the free block in front, if there is one, leaves its bin. -/
lemma mergePrev_rep (h : HeapRep zone a m b (L₀ ++ (B ++ Piece.live s n :: C) ++ L₃))
    (hok : ∀ t ∈ L₀ ++ (B ++ Piece.live s n :: C) ++ L₃, t.Ok) (hB : FreeOrNil B)
    (hL₀ : NoFreeLast L₀)
    (hsep : Separated zone (FreeAt a (L₀ ++ (B ++ Piece.live s n :: C) ++ L₃)))
    (hlt : total Piece.len B + n < 2 ^ 32) :
    let r := mergePrev zone b m (a + total Piece.len (L₀ ++ B)) n
    r.2.2.1 = a + total Piece.len L₀ ∧ r.2.2.2 = total Piece.len B + n
      ∧ BinsRep zone r.2.1 r.1 (FreeAt a (L₀ ++ Piece.live s (total Piece.len B + n) :: (C ++ L₃)))
      ∧ ∀ z, ¬ LinkByte (FreeAt a (L₀ ++ (B ++ Piece.live s n :: C) ++ L₃)) z →
        r.2.1 z = m z := by
  rcases hB with rfl | ⟨j, rfl⟩
  · -- nothing to merge with: the block in front is live, or there is slack or nothing
    simp only [List.nil_append, List.append_nil, total_nil, Nat.zero_add] at *
    have heq : L₀ ++ Piece.live s n :: C ++ L₃ = L₀ ++ Piece.live s n :: (C ++ L₃) := by simp
    rw [heq] at h hok ⊢
    have hp : load32 m (a + total Piece.len L₀ + 4) = lastOwn 0 L₀ := h.headers.at_split.2
    have hnot : ¬ (lastOwn 0 L₀ ≠ 0
        ∧ blkIsFree m (a + total Piece.len L₀ - lastOwn 0 L₀) = true) := by
      rintro ⟨hne, hfree⟩
      rcases L₀.eq_nil_or_concat with rfl | ⟨L', t, rfl⟩
      · exact hne rfl
      · simp only [List.concat_eq_append] at *
        have ht : t.Ok := hok t (by simp)
        have hown : t.own = t.len := by
          cases t with
          | live r k => rfl
          | free k => rfl
          | slack k => exact (hne (by simp [lastOwn, Piece.own])).elim
        have hh := h.headers
        rw [List.append_assoc, List.singleton_append] at hh
        have hhead := hh.at_split
        have haddr : a + total Piece.len (L' ++ [t]) - lastOwn 0 (L' ++ [t]) =
            a + total Piece.len L' := by
          simp only [total_append, total_cons, total_nil, lastOwn_append, lastOwn, hown]
          omega
        rw [haddr] at hfree
        obtain ⟨k, rfl⟩ := (hhead.isFree ht).mp hfree
        exact hL₀ L' k rfl
    rw [mergePrev, hp]
    dsimp only
    rw [if_neg hnot]
    exact ⟨rfl, rfl, h.bins, fun z _ => rfl⟩
  · have heq : L₀ ++ ([Piece.free j] ++ Piece.live s n :: C) ++ L₃ =
        L₀ ++ Piece.free j :: .live s n :: (C ++ L₃) := by simp
    rw [heq] at h hok hsep ⊢
    have hj : 16 ≤ j ∧ j % 8 = 0 := hok (.free j) (by simp)
    have hw := h.headers.at_split
    -- `prev_size` leads to the free block in front
    have hp : load32 m (a + total Piece.len (L₀ ++ [Piece.free j]) + 4) = j := by
      have hh := h.headers
      rw [List.append_cons] at hh
      have := hh.at_split.2
      simpa [lastOwn, Piece.own] using this
    have haddr : a + total Piece.len (L₀ ++ [Piece.free j]) - j = a + total Piece.len L₀ := by
      simp only [total_append, total_cons, total_nil, Piece.len]
      omega
    have hsz := blkSizeOf_free hj.2 hw.1
    obtain ⟨hb, hf⟩ := h.bins.remove_split hok hsep hsz s
    rw [mergePrev, hp, haddr]
    dsimp only
    rw [if_pos ⟨by omega, blkIsFree_free hj.2 hw.1⟩]
    simp only [total_cons, total_nil, Piece.len, Nat.add_zero] at hlt
    refine ⟨rfl, ?_, ?_, hf⟩
    · rw [u32_of_lt (by omega)]
      simp [Piece.len, Nat.add_comm]
    refine hb.congr_set fun y k => ?_
    simp [Piece.len, Nat.add_assoc]

/-- The forward merge: the free block behind, if there is one, leaves its bin. -/
lemma mergeNext_rep {k q : ℕ} (hb : BinsRep zone m b (FreeAt a (L₀ ++ Piece.live s k :: (C ++ L₃))))
    (hh : Headers m (a + total Piece.len L₀ + k) q (C ++ L₃))
    (hok : ∀ t ∈ L₀ ++ Piece.live s k :: (C ++ L₃), t.Ok) (hC : FreeOrNil C) (hL₃ : NoFreeHead L₃)
    (hsep : Separated zone (FreeAt a (L₀ ++ Piece.live s k :: (C ++ L₃))))
    (hlt : k + total Piece.len C < 2 ^ 32) :
    let r := mergeNext zone (a + total Piece.len L₀ + k + total Piece.len (C ++ L₃)) b m
      (a + total Piece.len L₀) k
    r.2.2 = k + total Piece.len C
      ∧ BinsRep zone r.2.1 r.1 (FreeAt a (L₀ ++ Piece.live s (k + total Piece.len C) :: L₃))
      ∧ ∀ z, ¬ LinkByte (FreeAt a (L₀ ++ Piece.live s k :: (C ++ L₃))) z → r.2.1 z = m z := by
  rcases hC with rfl | ⟨j, rfl⟩
  · simp only [List.nil_append, total_nil, Nat.add_zero] at *
    have hnot : ¬ (a + total Piece.len L₀ + k < a + total Piece.len L₀ + k + total Piece.len L₃
        ∧ blkIsFree m (a + total Piece.len L₀ + k) = true) := by
      rintro ⟨hlt, hfree⟩
      cases L₃ with
      | nil => simp at hlt
      | cons t L₃ =>
          obtain ⟨i, rfl⟩ := (hh.1.isFree (hok t (by simp))).mp hfree
          exact hL₃ i L₃ rfl
    rw [mergeNext]
    dsimp only
    rw [if_neg hnot]
    exact ⟨rfl, hb, fun z _ => rfl⟩
  · have hj : 16 ≤ j ∧ j % 8 = 0 := hok (.free j) (by simp)
    have hw : load32 m (a + total Piece.len L₀ + k) = j + 1 := hh.1.1
    have hsz := blkSizeOf_free hj.2 hw
    have heq : L₀ ++ Piece.live s k :: ([Piece.free j] ++ L₃) =
        (L₀ ++ [Piece.live s k]) ++ Piece.free j :: L₃ := by
      simp
    have haddr : a + total Piece.len (L₀ ++ [Piece.live s k]) = a + total Piece.len L₀ + k := by
      simp only [total_append, total_cons, total_nil, Piece.len]
      omega
    rw [heq] at hb hok hsep ⊢
    obtain ⟨hb', hf⟩ := hb.remove_split hok hsep (by rwa [haddr]) s
    rw [haddr] at hb' hf
    have hkeep : load32 (binsRemove zone b m (a + total Piece.len L₀ + k)).2
        (a + total Piece.len L₀ + k) = j + 1 := by
      rw [← hw]
      refine load32_congr fun i hi => hf _ fun hl => ?_
      have hx := mem_place_split a (L₀ ++ [Piece.live s k]) (.free j) L₃
      rw [haddr] at hx
      exact hl.not_header hok hx ⟨by omega, by omega⟩
    rw [mergeNext]
    dsimp only
    rw [if_pos ⟨by simp [Piece.len]; omega, blkIsFree_free hj.2 hw⟩]
    refine ⟨?_, ?_, hf⟩
    · simp only [total_cons, total_nil, Piece.len, Nat.add_zero] at hlt
      rw [blkSizeOf_free hj.2 hkeep, u32_of_lt hlt]
      simp [Piece.len]
    · refine hb'.congr_set fun y i => ?_
      simp [Piece.len, Nat.add_assoc]

/-- The header and null links of the merged block, before it is binned. -/
def stampMerged (m : Mem) (x n : ℕ) : Mem :=
  store32 (store32 (store32 m x (n ||| blockFreeBit)) (x + 12) nullOff) (x + 8) nullOff

omit [PmConfig] in
lemma stampMerged_frame (m : Mem) {x k z : ℕ} (h₁ : ¬ (x ≤ z ∧ z < x + 4))
    (h₂ : ¬ (x + 8 ≤ z ∧ z < x + 16)) : stampMerged m x k z = m z := by
  rw [stampMerged, store32_apply_of_not_mem _ (by omega), store32_apply_of_not_mem _ (by omega),
    store32_apply_of_not_mem _ (by omega)]

omit [PmConfig] in
lemma stampMerged_word (m : Mem) {x k : ℕ} (hk : k % 8 = 0) (hlt : k < 2 ^ 31) :
    load32 (stampMerged m x k) x = k + 1 := by
  rw [stampMerged, load32_store32_of_disjoint _ (by omega), load32_store32_of_disjoint _ (by omega),
    load32_store32_self, or_freeBit hk]
  omega

/-- Stamping and binning the merged block `[x, x + n)` in place of the stretch it covers. -/
lemma putMerged_rep (hb : BinsRep zone m b (FreeAt a (L₀ ++ Piece.live s n :: L₃)))
    (hok : ∀ t ∈ L₀ ++ [Piece.free n] ++ L₃, t.Ok) (hlo : zone ≤ a)
    (hhi : a + total Piece.len (L₀ ++ [Piece.free n] ++ L₃) < zone + 2 ^ 31) :
    let x := a + total Piece.len L₀
    let r := putMerged zone (x + n + total Piece.len L₃) b m x n
    BinsRep zone r.2 r.1 (FreeAt a (L₀ ++ [Piece.free n] ++ L₃))
      ∧ load32 r.2 x = n + 1 ∧ load32 r.2 (x + 4) = load32 m (x + 4)
      ∧ (L₃ ≠ [] → load32 r.2 (x + n + 4) = n)
      ∧ ∀ z, ¬ LinkByte (FreeAt a (L₀ ++ [Piece.free n] ++ L₃)) z → ¬ (x ≤ z ∧ z < x + 4) →
        (L₃ ≠ [] → ¬ (x + n + 4 ≤ z ∧ z < x + n + 8)) → r.2 z = m z := by
  dsimp only
  have hn : 16 ≤ n ∧ n % 8 = 0 := hok (.free n) (by simp)
  have hL₃ : ∀ t ∈ L₃, t.Ok := fun t ht => hok t (by simp [ht])
  have htot : total Piece.len L₀ + n + total Piece.len L₃ < 2 ^ 31 := by
    simp only [total_append, total_cons, total_nil, Piece.len] at hhi
    omega
  have hx : (a + total Piece.len L₀, Piece.free n) ∈
      place Piece.len a (L₀ ++ [Piece.free n] ++ L₃) := by
    simp
  -- the free blocks of the new layout are the old ones and this one
  have hset : ∀ y k,
      addBlock (FreeAt a (L₀ ++ Piece.live s n :: L₃)) (a + total Piece.len L₀) n y k ↔
      FreeAt a (L₀ ++ [Piece.free n] ++ L₃) y k := by
    intro y k
    simp only [addBlock, freeAt_append, freeAt_live, freeAt_free, freeAt_nil, total_append,
      total_cons, total_nil, Piece.len, or_false, Nat.add_zero, ← Nat.add_assoc]
    tauto
  have hnear : ∀ y k, FreeAt a (L₀ ++ Piece.live s n :: L₃) y k →
      y + 16 ≤ a + total Piece.len L₀ ∨ a + total Piece.len L₀ + n ≤ y := by
    intro y k hy
    simp only [freeAt_append, freeAt_live] at hy
    rcases hy with hy | hy
    · have hsz := (hy.size_ge fun t ht => hok t (by simp [ht])).1
      have hb := hy.bounds
      omega
    · have hb := hy.bounds
      omega
  -- the header comes first; no link word of another block lies there
  have hb₁ : BinsRep zone (stampMerged m (a + total Piece.len L₀) n) b
      (FreeAt a (L₀ ++ Piece.live s n :: L₃)) := by
    refine hb.congr fun z hz => ?_
    obtain ⟨y, k, hy, hylo, hyhi⟩ := hz
    have := hnear y k hy
    exact stampMerged_frame _ (by omega) (by omega)
  have hsz : blkSizeOf (stampMerged m (a + total Piece.len L₀) n) (a + total Piece.len L₀) = n :=
    blkSizeOf_free hn.2 (stampMerged_word _ hn.2 (by omega))
  have hsep : Separated zone (addBlock (FreeAt a (L₀ ++ Piece.live s n :: L₃))
      (a + total Piece.len L₀) n) :=
    (freeAt_separated hok hlo hhi.le).mono fun y k => (hset y k).mp
  have hfresh : ∀ k, ¬ FreeAt a (L₀ ++ Piece.live s n :: L₃) (a + total Piece.len L₀) k := by
    intro k hy
    have := hnear _ k hy
    omega
  have hb₂ := (binsInsert_rep hb₁ hsep hfresh hsz).congr_set hset
  have hf₂ : ∀ z, ¬ LinkByte (FreeAt a (L₀ ++ [Piece.free n] ++ L₃)) z →
      (binsInsert zone b (stampMerged m (a + total Piece.len L₀) n)
        (a + total Piece.len L₀)).2 z = stampMerged m (a + total Piece.len L₀) n z := by
    intro z hz
    refine binsInsert_frame hb₁ hsz fun hl => hz ?_
    obtain ⟨y, k, hy, hyz⟩ := hl
    exact ⟨y, k, (hset y k).mp hy, hyz⟩
  generalize hbi : binsInsert zone b (stampMerged m (a + total Piece.len L₀) n)
    (a + total Piece.len L₀) = bi at hb₂ hf₂
  have hr : putMerged zone (a + total Piece.len L₀ + n + total Piece.len L₃) b m
      (a + total Piece.len L₀) n = (bi.1, if L₃ ≠ [] then
        store32 bi.2 (a + total Piece.len L₀ + n + 4) n else bi.2) := by
    rw [putMerged, ← stampMerged, hbi]
    simp only [tail_lt_iff hL₃]
  rw [hr]
  dsimp only
  -- the last write, to the `prev_size` of what follows, is to a header
  have hafter : ∀ z, (L₃ ≠ [] → ¬ (a + total Piece.len L₀ + n + 4 ≤ z
      ∧ z < a + total Piece.len L₀ + n + 8)) → (if L₃ ≠ [] then
        store32 bi.2 (a + total Piece.len L₀ + n + 4) n else bi.2) z = bi.2 z := by
    intro z hz
    split_ifs with hne
    · exact store32_apply_of_not_mem _ (by have := hz hne; omega)
    · rfl
  have hhead : ∀ z, a + total Piece.len L₀ ≤ z → z < a + total Piece.len L₀ + 8 →
      (if L₃ ≠ [] then store32 bi.2 (a + total Piece.len L₀ + n + 4) n else bi.2) z =
        stampMerged m (a + total Piece.len L₀) n z := by
    intro z hlo hhi
    rw [hafter z fun _ => by omega]
    exact hf₂ z fun hl => hl.not_header hok hx ⟨hlo, hhi⟩
  refine ⟨?_, ?_, ?_, ?_, ?_⟩
  · refine hb₂.congr fun z hz => hafter z fun hne hin => ?_
    obtain ⟨u, hu, hzu⟩ := mem_place_tail hne hin.1 hin.2
    refine hz.not_header hok (t := u.2) (y := u.1) ?_ hzu
    rw [place_append]
    refine List.mem_append_right _ ?_
    simpa only [total_append, total_cons, total_nil, Piece.len, Nat.add_zero, ← Nat.add_assoc]
      using hu
  · exact (load32_congr fun k hk => hhead _ (by omega) (by omega)).trans
      (stampMerged_word _ hn.2 (by omega))
  · refine (load32_congr fun k hk => hhead _ (by omega) (by omega)).trans ?_
    exact load32_congr fun k hk => stampMerged_frame _ (by omega) (by omega)
  · intro hne
    rw [if_pos hne, load32_store32_self]
    omega
  · intro z hz h₁ h₂
    rw [hafter z h₂, hf₂ z hz]
    refine stampMerged_frame _ h₁ fun hin => hz ⟨_, n, hx, hin.1, hin.2⟩

/-- What `free` makes of a heap: the block at the end of `L₀ ++ B` and the free blocks around
it become one. -/
theorem freeBlock_rep (h : HeapRep zone a m b (L₀ ++ (B ++ Piece.live s n :: C) ++ L₃))
    (hok : ∀ t ∈ L₀ ++ (B ++ Piece.live s n :: C) ++ L₃, t.Ok) (hB : FreeOrNil B)
    (hC : FreeOrNil C) (hL₀ : NoFreeLast L₀) (hL₃ : NoFreeHead L₃) (hlo : zone ≤ a)
    (hhi : a + total Piece.len (L₀ ++ (B ++ Piece.live s n :: C) ++ L₃) < zone + 2 ^ 31) :
    let L := L₀ ++ (B ++ Piece.live s n :: C) ++ L₃
    let L' := L₀ ++ [Piece.free (total Piece.len B + n + total Piece.len C)] ++ L₃
    let r := freeBlock zone (a + total Piece.len L) b m (a + total Piece.len (L₀ ++ B)) n
    HeapRep zone a r.2 r.1 L' ∧ ∀ z, ¬ MetaByte a L z → ¬ MetaByte a L' z → r.2 z = m z := by
  dsimp only
  have hsep := freeAt_separated hok hlo hhi.le
  have hlive : (Piece.live s n).Ok := hok _ (by simp)
  have hge := PmConfig.minBlock_ge
  have hBC : total Piece.len B % 8 = 0 ∧ total Piece.len C % 8 = 0 :=
    ⟨total_mod fun t ht => hok t (by simp [ht]), total_mod fun t ht => hok t (by simp [ht])⟩
  have hmin := hlive.2.1
  have hnmod := hlive.2.2
  generalize hN : total Piece.len B + n + total Piece.len C = N
  have hok' : ∀ t ∈ L₀ ++ [Piece.free N] ++ L₃, t.Ok := by
    intro t ht
    rcases List.mem_append.mp ht with ht | ht
    · rcases List.mem_append.mp ht with ht | ht
      · exact hok t (by simp [ht])
      · rw [List.mem_singleton.mp ht]
        exact ⟨by omega, by omega⟩
    · exact hok t (by simp [ht])
  have htot : a + total Piece.len (L₀ ++ (B ++ Piece.live s n :: C) ++ L₃) =
      a + total Piece.len L₀ + N + total Piece.len L₃ := by
    simp only [total_append, total_cons, Piece.len]
    omega
  -- the two merges
  obtain ⟨hstart, hsize, hb₁, hf₁⟩ := mergePrev_rep h hok hB hL₀ hsep (by omega)
  have hh₁ := h.headers.congr fun u hu k hk => hf₁ _ (header_not_link hok hu hk)
  rw [freeBlock]
  generalize mergePrev zone b m (a + total Piece.len (L₀ ++ B)) n = back at *
  rw [hstart, hsize, htot]
  have hsub : ∀ y k, FreeAt a (L₀ ++ Piece.live s (total Piece.len B + n) :: (C ++ L₃)) y k →
      FreeAt a (L₀ ++ (B ++ Piece.live s n :: C) ++ L₃) y k := by
    intro y k hy
    have hend : a + (total Piece.len L₀ + (total Piece.len B + (n + total Piece.len C))) =
        a + (total Piece.len L₀ + (total Piece.len B + n + total Piece.len C)) := by omega
    simp only [freeAt_append, freeAt_live, total_append, total_cons, Piece.len, Nat.add_assoc]
      at hy ⊢
    tauto
  have hokb : ∀ t ∈ L₀ ++ Piece.live s (total Piece.len B + n) :: (C ++ L₃), t.Ok := by
    intro t ht
    rcases List.mem_append.mp ht with ht | ht
    · exact hok t (by simp [ht])
    · rcases List.mem_cons.mp ht with rfl | ht
      · exact ⟨hlive.1, by omega, by omega⟩
      · rcases List.mem_append.mp ht with ht | ht
        · exact hok t (by simp [ht])
        · exact hok t (by simp [ht])
  have htailh : ∃ q, Headers back.2.1 (a + total Piece.len L₀ + (total Piece.len B + n)) q
      (C ++ L₃) := by
    have heq : L₀ ++ (B ++ Piece.live s n :: C) ++ L₃ =
        (L₀ ++ B ++ [Piece.live s n]) ++ (C ++ L₃) := by
      simp
    rw [heq] at hh₁
    have hh := (headers_append.mp hh₁).2
    have haddr : a + total Piece.len (L₀ ++ B ++ [Piece.live s n]) =
        a + total Piece.len L₀ + (total Piece.len B + n) := by
      simp only [total_append, total_cons, total_nil, Piece.len]
      omega
    rw [haddr] at hh
    exact ⟨_, hh⟩
  obtain ⟨q, htailh⟩ := htailh
  obtain ⟨hsize₂, hb₂, hf₂⟩ := mergeNext_rep hb₁ htailh hokb hC hL₃ (hsep.mono hsub)
    (by omega)
  have hstop : a + total Piece.len L₀ + (total Piece.len B + n) + total Piece.len (C ++ L₃) =
      a + total Piece.len L₀ + N + total Piece.len L₃ := by
    rw [total_append]
    omega
  rw [hstop] at hsize₂ hb₂ hf₂
  generalize mergeNext zone (a + total Piece.len L₀ + N + total Piece.len L₃) back.1 back.2.1
    (a + total Piece.len L₀) (total Piece.len B + n) = fwd at *
  rw [hN] at hsize₂ hb₂
  rw [hsize₂]
  obtain ⟨hb₃, hw₃, hp₃, hq₃, hf₃⟩ := putMerged_rep hb₂ hok' hlo (by
    simp only [total_append, total_cons, total_nil, Piece.len] at hhi ⊢
    omega)
  generalize putMerged zone (a + total Piece.len L₀ + N + total Piece.len L₃) fwd.1 fwd.2.1
    (a + total Piece.len L₀) N = r at *
  have hx : (a + total Piece.len L₀, Piece.free N) ∈
      place Piece.len a (L₀ ++ [Piece.free N] ++ L₃) := by
    simp
  have hxb := mem_place_split a L₀ (.live s (total Piece.len B + n)) (C ++ L₃)
  have hfirst : ∃ t, (a + total Piece.len L₀, t) ∈
      place Piece.len a (L₀ ++ (B ++ Piece.live s n :: C) ++ L₃) := by
    rcases hB with rfl | ⟨j, rfl⟩
    · exact ⟨.live s n, by simp⟩
    · exact ⟨.free j, by simp⟩
  obtain ⟨t, ht⟩ := hfirst
  have hprev : load32 m (a + total Piece.len L₀ + 4) = lastOwn 0 L₀ := by
    rcases hB with rfl | ⟨j, rfl⟩
    · have hh := h.headers
      rw [List.nil_append, List.append_assoc] at hh
      exact hh.at_split.2
    · have hh := h.headers
      rw [List.append_assoc] at hh
      exact hh.at_split.2
  have hlink : ∀ z,
      LinkByte (FreeAt a (L₀ ++ Piece.live s (total Piece.len B + n) :: (C ++ L₃))) z →
      LinkByte (FreeAt a (L₀ ++ (B ++ Piece.live s n :: C) ++ L₃)) z := by
    rintro z ⟨y, k, hy, hyz⟩
    exact ⟨y, k, hsub y k hy, hyz⟩
  have hM : total Piece.len (B ++ Piece.live s n :: C) = N := by
    simp only [total_append, total_cons, Piece.len]
    omega
  refine ⟨⟨?_, hb₃⟩, fun z hz hz' => ?_⟩
  · refine headers_around h.headers hok (by simp [Piece.len, hM]) ?_ ⟨⟨hw₃, ?_⟩, trivial⟩ ?_
    · intro z hz hin hbh
      rw [hM] at hin hbh
      rw [hf₃ z ?_ (by omega) (fun _ => hbh), hf₂ z fun hl => hz (hlink z hl), hf₁ z hz]
      rintro ⟨y, k, hy, hyz⟩
      simp only [freeAt_append, freeAt_free, freeAt_nil, total_append, total_cons, total_nil,
        Piece.len, or_false, Nat.add_zero] at hy
      rcases hy with (hy | ⟨rfl, rfl⟩) | hy
      · exact hz ⟨y, k, by simp [hy], hyz⟩
      · have hk := (hok' (.free k) (by simp)).1
        omega
      · refine hz ⟨y, k, ?_, hyz⟩
        rw [freeAt_append, total_append, hM]
        exact Or.inr hy
    · rw [hp₃, ← hprev]
      refine load32_congr fun k hk => ?_
      rw [hf₂ _ fun hl => hl.not_header hokb hxb ⟨by omega, by omega⟩,
        hf₁ _ fun hl => hl.not_header hok ht ⟨by omega, by omega⟩]
    · rw [hM]
      exact hq₃
  · rw [hf₃ z (fun hl => hz' (Or.inr hl)) (fun hin => hz' (.header hx hin.1 (by omega))) ?_,
      hf₂ z fun hl => hz (Or.inr (hlink z hl)), hf₁ z fun hl => hz (Or.inr hl)]
    intro hne hin
    obtain ⟨u, hu, hzu⟩ := mem_place_tail hne hin.1 hin.2
    refine hz' (.header (t := u.2) (y := u.1) ?_ hzu.1 hzu.2)
    rw [place_append]
    refine List.mem_append_right _ ?_
    simpa only [total_append, total_cons, total_nil, Piece.len, Nat.add_zero, ← Nat.add_assoc]
      using hu

end Free

end PondMerge
