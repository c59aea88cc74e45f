import PondMerge.Operations.Heap
import PondMerge.Structure.Pool
import PondMerge.Model.Layout

/-!
`finalize_layout`: from address-ordered blocks to a pool that represents a layout.

* `Fits`: the blocks of a list of slots lie one behind the other in an interval.
* `packed`: the layout `finalize_layout` makes of them, and `layoutOk_packed`.
* `Built`: the invariant of its loop, with `Built.gap` and `Built.live` for its two steps.
* `finalizeLayout_inv`: the pool represents the packed layout, and only its metadata has
  been written.
-/

namespace PondMerge

open ByteMemory LinkedList Tiling

variable [PmConfig]

/-! ### Blocks in a row -/

/-- The blocks of the slots lie one behind the other between `e` and `stop`. -/
def Fits (obj : ℕ → ObjectDesc) (stop : ℕ) : ℕ → List ℕ → Prop
  | e, [] => e ≤ stop
  | e, i :: l =>
    e ≤ (obj i).block ∧ Fits obj stop ((obj i).block + (obj i).blockSize) l

/-- A block in itself. -/
def BlockOk (d : ObjectDesc) (i : ℕ) : Prop :=
  i < pmMaxObjects ∧ pmMinBlock ≤ d.blockSize ∧ d.blockSize % 8 = 0 ∧ d.block % 8 = 0

/-- What becomes of a gap of `g` bytes. -/
def gapPieces (g : ℕ) : List Piece :=
  if pmMinBlock ≤ g then [.free g] else if 0 < g then [.slack g] else []

/-- The layout of blocks in a row: a piece for every gap between them. -/
def packed (obj : ℕ → ObjectDesc) (stop : ℕ) : ℕ → List ℕ → List Piece
  | e, [] => gapPieces (stop - e)
  | e, i :: l =>
    gapPieces ((obj i).block - e)
      ++ Piece.live i (obj i).blockSize :: packed obj stop ((obj i).block + (obj i).blockSize) l

section Packed

variable {obj : ℕ → ObjectDesc} {stop e : ℕ} {l : List ℕ}

omit [PmConfig] in
lemma Fits.le (h : Fits obj stop e l) : e ≤ stop := by
  induction l generalizing e with
  | nil => exact h
  | cons i l ih =>
      have h₁ := h.1
      have h₂ := ih h.2
      omega

omit [PmConfig] in
lemma Fits.mono {e' : ℕ} (h : Fits obj stop e l) (he : e' ≤ e) : Fits obj stop e' l := by
  cases l with
  | nil => exact he.trans h
  | cons i l => exact ⟨he.trans h.1, h.2⟩

omit [PmConfig] in
lemma Fits.congr {obj' : ℕ → ObjectDesc} (h : Fits obj stop e l)
    (hobj : ∀ i ∈ l, (obj' i).block = (obj i).block ∧ (obj' i).blockSize = (obj i).blockSize) :
    Fits obj' stop e l := by
  induction l generalizing e with
  | nil => exact h
  | cons i l ih =>
      obtain ⟨hb, hs⟩ := hobj i List.mem_cons_self
      refine ⟨by rw [hb]; exact h.1, ?_⟩
      rw [hb, hs]
      exact ih h.2 fun j hj => hobj j (List.mem_cons_of_mem _ hj)

omit [PmConfig] in
/-- Every block lies in the interval. -/
lemma Fits.bounds (h : Fits obj stop e l) {i : ℕ} (hi : i ∈ l) :
    e ≤ (obj i).block ∧ (obj i).block + (obj i).blockSize ≤ stop := by
  induction l generalizing e with
  | nil => exact absurd hi List.not_mem_nil
  | cons j l ih =>
      have h₁ := h.1
      have h₂ := h.2.le
      rcases List.mem_cons.mp hi with rfl | hi
      · exact ⟨h₁, h₂⟩
      · have := ih h.2 hi
        omega

omit [PmConfig] in
/-- The blocks lie in order. -/
lemma Fits.pairwise (h : Fits obj stop e l) :
    l.Pairwise fun i j => (obj i).block + (obj i).blockSize ≤ (obj j).block := by
  induction l generalizing e with
  | nil => exact List.Pairwise.nil
  | cons i l ih => exact List.Pairwise.cons (fun j hj => (h.2.bounds hj).1) (ih h.2)

omit [PmConfig] in
lemma fits_append {l₁ l₂ : List ℕ} :
    Fits obj stop e (l₁ ++ l₂) ↔
      ∃ e', Fits obj e' e l₁ ∧ Fits obj stop e' l₂ := by
  induction l₁ generalizing e with
  | nil => exact ⟨fun h => ⟨e, le_rfl, h⟩, fun ⟨e', he, h⟩ => h.mono he⟩
  | cons i l₁ ih =>
      simp only [List.cons_append, Fits, ih]
      constructor
      · rintro ⟨h, e', h₁, h₂⟩
        exact ⟨e', ⟨h, h₁⟩, h₂⟩
      · rintro ⟨e', ⟨h, h₁⟩, h₂⟩
        exact ⟨h, e', h₁, h₂⟩

@[simp] lemma gapPieces_zero : gapPieces 0 = [] := by
  have hmin := PmConfig.minBlock_ge
  rw [gapPieces, if_neg (by omega), if_neg (by omega)]

@[simp] lemma liveSlots_gapPieces (g : ℕ) : liveSlots (gapPieces g) = [] := by
  rw [gapPieces]
  split_ifs <;> rfl

@[simp] lemma total_gapPieces (g : ℕ) : total Piece.len (gapPieces g) = g := by
  rw [gapPieces]
  split_ifs
  · simp [Piece.len]
  · simp [Piece.len]
  · simp only [total_nil]
    omega

@[simp] lemma liveAt_gapPieces (a x s n g : ℕ) : LiveAt a (gapPieces g) x s n ↔ False := by
  rw [gapPieces]
  split_ifs <;> simp

lemma gapPieces_ok {g : ℕ} (hg : g % 8 = 0) : ∀ t ∈ gapPieces g, t.Ok := by
  have hmin := PmConfig.minBlock_ge
  intro t ht
  rw [gapPieces] at ht
  split_ifs at ht with h1 h2
  · rw [List.mem_singleton.mp ht]
    exact ⟨by omega, hg⟩
  · rw [List.mem_singleton.mp ht]
    exact ⟨h2, by omega, hg⟩
  · exact absurd ht List.not_mem_nil

@[simp] lemma liveSlots_packed : liveSlots (packed obj stop e l) = l := by
  induction l generalizing e with
  | nil => simp [packed]
  | cons i l ih => simp [packed, ih]

lemma total_packed (h : Fits obj stop e l) : total Piece.len (packed obj stop e l) = stop - e := by
  induction l generalizing e with
  | nil => simp [packed]
  | cons i l ih =>
      have h₁ := h.1
      have h₂ := h.2.le
      simp only [packed, total_append, total_gapPieces, total_cons, ih h.2, Piece.len]
      omega

/-- The live blocks of the packed layout. -/
lemma liveAt_packed (h : Fits obj stop e l) {x s n : ℕ} :
    LiveAt e (packed obj stop e l) x s n ↔ s ∈ l ∧ x = (obj s).block ∧ n = (obj s).blockSize := by
  induction l generalizing e with
  | nil => simp [packed]
  | cons i l ih =>
      have h₁ := h.1
      have hat : e + ((obj i).block - e) = (obj i).block := by omega
      simp only [packed, liveAt_append, liveAt_gapPieces, total_gapPieces, liveAt_live, hat,
        ih h.2, List.mem_cons, false_or]
      constructor
      · rintro (⟨rfl, rfl, rfl⟩ | ⟨hs, hx, hn⟩)
        · exact ⟨Or.inl rfl, rfl, rfl⟩
        · exact ⟨Or.inr hs, hx, hn⟩
      · rintro ⟨rfl | hs, hx, hn⟩
        · exact Or.inl ⟨hx, rfl, hn⟩
        · exact Or.inr ⟨hs, hx, hn⟩

lemma packed_ok (h : Fits obj stop e l) (hblk : ∀ i ∈ l, BlockOk (obj i) i) (he : e % 8 = 0)
    (hstop : stop % 8 = 0) : ∀ t ∈ packed obj stop e l, t.Ok := by
  induction l generalizing e with
  | nil =>
      refine gapPieces_ok ?_
      omega
  | cons i l ih =>
      obtain ⟨hlt, hmin, hmod, hbmod⟩ := hblk i List.mem_cons_self
      intro t ht
      rcases List.mem_append.mp ht with ht | ht
      · exact gapPieces_ok (by omega) t ht
      · rcases List.mem_cons.mp ht with rfl | ht
        · exact ⟨hlt, hmin, hmod⟩
        · exact ih h.2 (fun j hj => hblk j (List.mem_cons_of_mem _ hj)) (by omega) t ht

lemma gapPieces_meets (g : ℕ) : (gapPieces g).IsChain Piece.MayMeet := by
  rw [gapPieces]
  split_ifs
  · exact List.isChain_singleton _
  · exact List.isChain_singleton _
  · exact List.isChain_nil

lemma packed_free_ge {n : ℕ} (hn : .free n ∈ packed obj stop e l) : pmMinBlock ≤ n := by
  have hgap : ∀ g, Piece.free n ∈ gapPieces g → pmMinBlock ≤ n := by
    intro g hg
    rw [gapPieces] at hg
    split_ifs at hg with h1 h2
    · rw [Piece.free.inj (List.mem_singleton.mp hg)]
      exact h1
    · exact absurd (List.mem_singleton.mp hg) (by simp)
    · exact absurd hg List.not_mem_nil
  induction l generalizing e with
  | nil => exact hgap _ hn
  | cons i l ih =>
      rcases List.mem_append.mp hn with hn | hn
      · exact hgap _ hn
      · rcases List.mem_cons.mp hn with hn | hn
        · exact absurd hn (by simp)
        · exact ih hn

/-- Blocks in a row make a healthy layout. -/
lemma layoutOk_packed (h : Fits obj stop e l) (hblk : ∀ i ∈ l, BlockOk (obj i) i)
    (he : e % 8 = 0) (hstop : stop % 8 = 0) (hnd : l.Nodup) :
    LayoutOk (packed obj stop e l) := by
  refine ⟨packed_ok h hblk he hstop, ?_, fun n hn => Or.inl (packed_free_ge hn), ?_⟩
  · clear h hblk he hnd
    induction l generalizing e with
    | nil => exact gapPieces_meets _
    | cons i l ih =>
        rw [packed, List.isChain_append]
        have hcons : ∀ M : List Piece, M.IsChain Piece.MayMeet →
            (Piece.live i (obj i).blockSize :: M).IsChain Piece.MayMeet :=
          fun M hM => List.isChain_cons.mpr ⟨fun t _ => by cases t <;> trivial, hM⟩
        refine ⟨gapPieces_meets _, hcons _ ih, fun t _ u hu => ?_⟩
        obtain rfl : Piece.live i (obj i).blockSize = u := by simpa using hu
        cases t <;> trivial
  · rw [liveSlots_packed]
    exact hnd

end Packed

/-! ### The loop -/

omit [PmConfig] in
lemma FreeAt.append_left {a x n : ℕ} {L M : List Piece} (h : FreeAt a L x n) :
    FreeAt a (L ++ M) x n :=
  (freeAt_append a x n L M).mpr (Or.inl h)

omit [PmConfig] in
/-- The block a sequence ends with is no longer than the sequence. -/
lemma lastOwn_le_total (L : List Piece) : lastOwn 0 L ≤ total Piece.len L := by
  rcases List.eq_nil_or_concat L with rfl | ⟨M, t, rfl⟩
  · simp [lastOwn]
  · have hle : t.own ≤ t.len := by cases t <;> simp [Piece.own, Piece.len]
    rw [List.concat_eq_append, lastOwn_append]
    simp only [lastOwn, total_append, total_cons, total_nil]
    omega

omit [PmConfig] in
lemma MetaByte.append_left {a z : ℕ} {L M : List Piece} (h : MetaByte a L z) :
    MetaByte a (L ++ M) z := by
  rcases h with ⟨u, hu, hz⟩ | ⟨x, n, hx, hz⟩
  · exact Or.inl ⟨u, by rw [place_append]; exact List.mem_append_left _ hu, hz⟩
  · exact Or.inr ⟨x, n, hx.append_left, hz⟩

/-- The invariant of the loop of `finalize_layout`: what is behind it represents `L`, and
only metadata of `L` has been written. -/
structure Built (zone a : ℕ) (m₀ : Mem) (r : Rebuild) (L : List Piece) : Prop where
  pieces : ∀ t ∈ L, t.Ok
  rep : HeapRep zone a r.mem r.bins L
  own : r.prevOwn = lastOwn 0 L
  used : r.used = usedOf L
  lost : r.fragment = lostOf L
  frame : ∀ z, ¬ MetaByte a L z → r.mem z = m₀ z

section Steps

variable {zone a : ℕ} {m₀ : Mem} {r : Rebuild} {L : List Piece}

/-- A free block behind what has been built. -/
lemma Built.free (h : Built zone a m₀ r L) {n : ℕ} (hn : 16 ≤ n) (hmod : n % 8 = 0)
    (hlo : zone ≤ a) (hhi : a + total Piece.len L + n < zone + 2 ^ 31) :
    let bm := putFree zone r (a + total Piece.len L) n
    Built zone a m₀ { r with bins := bm.1, mem := bm.2, prevOwn := n } (L ++ [Piece.free n]) := by
  have hok' : ∀ t ∈ L ++ [Piece.free n], t.Ok := by
    intro t ht
    rcases List.mem_append.mp ht with ht | ht
    · exact h.pieces t ht
    · rw [List.mem_singleton.mp ht]
      exact ⟨hn, hmod⟩
  have hplace : (a + total Piece.len L, Piece.free n) ∈
      place Piece.len a (L ++ [Piece.free n]) := by
    simp
  have hset : ∀ y k, addBlock (FreeAt a L) (a + total Piece.len L) n y k ↔
      FreeAt a (L ++ [Piece.free n]) y k := by
    intro y k
    simp [addBlock]
  have hbelow : ∀ u ∈ place Piece.len a L, u.1 + 8 ≤ a + total Piece.len L := by
    intro u hu
    have hb := place_bounds (t := u.2) hu
    have hlen := (h.pieces u.2 (mem_of_mem_place hu)).len_ge
    omega
  have hnear : ∀ y k, FreeAt a L y k → y + 16 ≤ a + total Piece.len L := by
    intro y k hy
    have hb := hy.bounds
    have hk := (hy.size_ge h.pieces).1
    omega
  have hput : putFree zone r (a + total Piece.len L) n = binsInsert zone r.bins
      (stampRest r.mem (a + total Piece.len L) n r.prevOwn) (a + total Piece.len L) := rfl
  have hown : r.prevOwn < 2 ^ 31 := by
    have hle := lastOwn_le_total L
    rw [h.own]
    omega
  -- the new header and links lie behind all blocks that have been laid out
  have hb₁ : BinsRep zone (stampRest r.mem (a + total Piece.len L) n r.prevOwn) r.bins
      (FreeAt a L) := by
    refine h.rep.bins.congr fun z hz => stampRest_frame _ fun hin => ?_
    obtain ⟨y, k, hy, hylo, hyhi⟩ := hz
    have := hnear y k hy
    omega
  have hsz : blkSizeOf (stampRest r.mem (a + total Piece.len L) n r.prevOwn)
      (a + total Piece.len L) = n :=
    blkSizeOf_free hmod (stampRest_word _ hmod (by omega))
  have hsep : Separated zone (addBlock (FreeAt a L) (a + total Piece.len L) n) := by
    refine (freeAt_separated hok' hlo ?_).mono fun y k => (hset y k).mp
    simp only [total_append, total_cons, total_nil, Piece.len]
    omega
  have hfresh : ∀ k, ¬ FreeAt a L (a + total Piece.len L) k := by
    intro k hy
    have := hnear _ k hy
    omega
  have hframe : ∀ z, ¬ LinkByte (FreeAt a (L ++ [Piece.free n])) z →
      (putFree zone r (a + total Piece.len L) n).2 z =
        stampRest r.mem (a + total Piece.len L) n r.prevOwn z := by
    intro z hz
    rw [hput]
    refine binsInsert_frame hb₁ hsz fun hl => hz ?_
    obtain ⟨y, k, hy, hyz⟩ := hl
    exact ⟨y, k, (hset y k).mp hy, hyz⟩
  have hhead : ∀ u ∈ place Piece.len a (L ++ [Piece.free n]), ∀ k < 8,
      (putFree zone r (a + total Piece.len L) n).2 (u.1 + k) =
        stampRest r.mem (a + total Piece.len L) n r.prevOwn (u.1 + k) :=
    fun u hu k hk => hframe _ (header_not_link hok' hu hk)
  refine ⟨hok', ⟨headers_append.mpr ⟨?_, ⟨?_, trivial⟩⟩, ?_⟩, ?_, ?_, ?_, fun z hz => ?_⟩
  · refine h.rep.headers.congr fun u hu k hk => ?_
    dsimp only
    rw [hhead u (by rw [place_append]; exact List.mem_append_left _ hu) k hk]
    have := hbelow u hu
    exact stampRest_frame _ (by omega)
  · -- `bins_insert` writes links, so both header words are the stamped ones
    have hword : ∀ j < 2, load32 (putFree zone r (a + total Piece.len L) n).2
        (a + total Piece.len L + 4 * j) = load32 (stampRest r.mem (a + total Piece.len L) n
          r.prevOwn) (a + total Piece.len L + 4 * j) := by
      intro j hj
      refine load32_congr fun k hk => ?_
      rw [Nat.add_assoc]
      exact hhead _ hplace (4 * j + k) (by omega)
    exact ⟨(hword 0 (by omega)).trans (stampRest_word _ hmod (by omega)),
      (hword 1 (by omega)).trans ((stampRest_prev _ hown).trans h.own)⟩
  · exact (binsInsert_rep hb₁ hsep hfresh hsz).congr_set hset
  · rw [lastOwn_append]
    rfl
  · simp [Piece.used, h.used]
  · simp [Piece.lost, h.lost]
  · have hnl : ¬ LinkByte (FreeAt a (L ++ [Piece.free n])) z := fun hl => hz (Or.inr hl)
    have hnh : ¬ (a + total Piece.len L ≤ z ∧ z < a + total Piece.len L + 16) := by
      rintro ⟨h₁, h₂⟩
      by_cases h8 : z < a + total Piece.len L + 8
      · exact hz (.header hplace h₁ h8)
      · exact hz (.link hplace (by omega) h₂)
    have hstep : (putFree zone r (a + total Piece.len L) n).2 z = r.mem z :=
      (hframe z hnl).trans (stampRest_frame _ hnh)
    exact hstep.trans (h.frame z fun hm => hz hm.append_left)

/-- Slack behind what has been built. -/
lemma Built.slack (h : Built zone a m₀ r L) {n : ℕ} (hn : 0 < n) (hlt : n < pmMinBlock)
    (hmod : n % 8 = 0) (hhi : a + total Piece.len L + n < zone + 2 ^ 31) (hlo : zone ≤ a) :
    Built zone a m₀ { r with
      mem := store32 r.mem (a + total Piece.len L) 0
      prevOwn := 0
      fragment := u32 (r.fragment + n) } (L ++ [Piece.slack n]) := by
  have hplace : (a + total Piece.len L, Piece.slack n) ∈
      place Piece.len a (L ++ [Piece.slack n]) := by
    simp
  have hsum := usedOf_add_lostOf_le L
  refine ⟨?_, ⟨headers_append.mpr ⟨?_, ⟨?_, trivial⟩⟩, ?_⟩, ?_, ?_, ?_, fun z hz => ?_⟩
  · intro t ht
    rcases List.mem_append.mp ht with ht | ht
    · exact h.pieces t ht
    · rw [List.mem_singleton.mp ht]
      exact ⟨hn, hlt, hmod⟩
  · refine h.rep.headers.congr fun u hu k hk => store32_apply_of_lt _ ?_
    have hb := place_bounds (t := u.2) hu
    have hlen := (h.pieces u.2 (mem_of_mem_place hu)).len_ge
    omega
  · exact load32_store32_self _ _ _
  · refine (h.rep.bins.congr fun z hz => store32_apply_of_lt _ ?_).congr_set fun x k => by simp
    obtain ⟨y, k, hy, hylo, hyhi⟩ := hz
    have hb := hy.bounds
    have hk := (hy.size_ge h.pieces).1
    omega
  · rw [lastOwn_append]
    rfl
  · simp [Piece.used, h.used]
  · simp only [lostOf_append, lostOf_cons, lostOf_nil, Piece.lost, h.lost]
    exact u32_of_lt (by omega)
  · refine (store32_apply_of_not_mem _ fun hin => hz ?_).trans
      (h.frame z fun hm => hz hm.append_left)
    exact .header hplace hin.1 (by omega)

/-- `fill_gap`: the gap becomes its piece. -/
lemma Built.gap (h : Built zone a m₀ r L) {g : ℕ} (hend : r.prevEnd = a + total Piece.len L)
    (hmod : g % 8 = 0) (hlo : zone ≤ a) (hhi : a + total Piece.len L + g < zone + 2 ^ 31) :
    Built zone a m₀ (fillGap zone r g) (L ++ gapPieces g) := by
  have hmin := PmConfig.minBlock_ge
  rw [fillGap, gapPieces]
  split_ifs with h1 h2
  · have hfree := h.free (by omega) hmod hlo hhi
    rwa [← hend] at hfree
  · have hslack := h.slack h2 (by omega) hmod hhi hlo
    rwa [← hend] at hslack
  · rw [List.append_nil]
    exact h

/-- The live block behind what has been built. -/
lemma Built.live (h : Built zone a m₀ r L) {i n : ℕ} (hi : i < pmMaxObjects)
    (hmin : pmMinBlock ≤ n) (hmod : n % 8 = 0) (hlo : zone ≤ a)
    (hhi : a + total Piece.len L + n < zone + 2 ^ 31) :
    Built zone a m₀ (putLive r (a + total Piece.len L) n) (L ++ [Piece.live i n]) := by
  have h16 := PmConfig.minBlock_ge
  have hplace : (a + total Piece.len L, Piece.live i n) ∈
      place Piece.len a (L ++ [Piece.live i n]) := by
    simp
  have hsum := usedOf_add_lostOf_le L
  have hown : r.prevOwn < 2 ^ 31 := by
    have hle := lastOwn_le_total L
    rw [h.own]
    omega
  -- only the two header words of the new block are written
  have hstore : ∀ z, z < a + total Piece.len L ∨ a + total Piece.len L + 8 ≤ z →
      (putLive r (a + total Piece.len L) n).mem z = r.mem z := by
    intro z hz
    exact (store32_apply_of_not_mem _ (by omega)).trans (store32_apply_of_not_mem _ (by omega))
  refine ⟨?_, ⟨headers_append.mpr ⟨?_, ⟨⟨?_, ?_⟩, trivial⟩⟩, ?_⟩, ?_, ?_, ?_, fun z hz => ?_⟩
  · intro t ht
    rcases List.mem_append.mp ht with ht | ht
    · exact h.pieces t ht
    · rw [List.mem_singleton.mp ht]
      exact ⟨hi, hmin, hmod⟩
  · refine h.rep.headers.congr fun u hu k hk => hstore _ (Or.inl ?_)
    have hb := place_bounds (t := u.2) hu
    have hlen := (h.pieces u.2 (mem_of_mem_place hu)).len_ge
    omega
  · refine (load32_store32_of_disjoint _ (by omega)).trans ((load32_store32_self _ _ _).trans ?_)
    omega
  · refine (load32_store32_self _ _ _).trans ?_
    rw [Nat.mod_eq_of_lt (by omega)]
    exact h.own
  · refine (h.rep.bins.congr fun z hz => hstore z (Or.inl ?_)).congr_set fun x k => by simp
    obtain ⟨y, k, hy, hylo, hyhi⟩ := hz
    have hb := hy.bounds
    have hk := (hy.size_ge h.pieces).1
    omega
  · rw [lastOwn_append]
    rfl
  · simp only [putLive, usedOf_append, usedOf_cons, usedOf_nil, Piece.used, h.used]
    exact u32_of_lt (by omega)
  · simp [putLive, Piece.lost, h.lost]
  · refine (hstore z ?_).trans (h.frame z fun hm => hz hm.append_left)
    by_contra hin
    exact hz (.header hplace (by omega) (by omega))

/-- The slots whose block lies in the window of the rebuild. -/
def insideWindow (obj : ℕ → ObjectDesc) (start stop i : ℕ) : Bool :=
  start ≤ (obj i).block && (obj i).block + (obj i).blockSize ≤ stop

omit [PmConfig] in
/-- A row that fits lies in the window. -/
lemma Fits.filter_inside {obj : ℕ → ObjectDesc} {start stop : ℕ} {l : List ℕ}
    (h : Fits obj stop start l) : l.filter (insideWindow obj start stop) = l := by
  refine List.filter_eq_self.mpr fun i hi => ?_
  have hb := h.bounds hi
  simp only [insideWindow, Bool.and_eq_true, decide_eq_true_eq]
  exact hb

/-- The whole of `finalize_layout`, its closing gap included. -/
theorem finalizeLoop_built {obj : ℕ → ObjectDesc} {start stop : ℕ} {slots : List ℕ}
    (h : Built zone a m₀ r L) (hend : r.prevEnd = a + total Piece.len L)
    (hfit : Fits obj stop r.prevEnd (slots.filter (insideWindow obj start stop)))
    (hblk : ∀ i ∈ slots.filter (insideWindow obj start stop), BlockOk (obj i) i)
    (ha : a % 8 = 0) (hstop : stop % 8 = 0) (hlo : zone ≤ a) (hhi : stop < zone + 2 ^ 31) :
    let r' := finalizeLoop zone start stop obj slots r
    Built zone a m₀ (fillGap zone r' (stop - r'.prevEnd))
      (L ++ packed obj stop r.prevEnd (slots.filter (insideWindow obj start stop))) := by
  induction slots generalizing r L with
  | nil =>
      have hle := hfit.le
      have hL := total_mod h.pieces
      simp only [finalizeLoop, List.filter_nil, packed]
      exact h.gap hend (by omega) hlo (by omega)
  | cons i slots ih =>
      by_cases hi : insideWindow obj start stop i = true
      swap
      · -- a slot outside of the window is skipped
        have hskip : (obj i).block < start ∨ stop < (obj i).block + (obj i).blockSize := by
          simp only [insideWindow, Bool.and_eq_true, decide_eq_true_eq] at hi
          omega
        rw [List.filter_cons_of_neg hi] at hfit hblk ⊢
        simp only [finalizeLoop, if_pos hskip]
        exact ih h hend hfit hblk
      · have hkeep : ¬ ((obj i).block < start ∨ stop < (obj i).block + (obj i).blockSize) := by
          simp only [insideWindow, Bool.and_eq_true, decide_eq_true_eq] at hi
          omega
        rw [List.filter_cons_of_pos hi] at hfit hblk ⊢
        obtain ⟨hlt, hmin, hmod, hbmod⟩ := hblk i List.mem_cons_self
        obtain ⟨hle, hfit'⟩ := hfit
        have hle' := hfit'.le
        have hL := total_mod h.pieces
        simp only [finalizeLoop, if_neg hkeep, packed]
        -- the gap in front of the block, then the block
        have hgap := h.gap (g := (obj i).block - r.prevEnd) hend (by omega) hlo (by omega)
        have hat : a + total Piece.len (L ++ gapPieces ((obj i).block - r.prevEnd)) =
            (obj i).block := by
          rw [total_append, total_gapPieces]
          omega
        have hlive := hgap.live hlt hmin hmod hlo (by omega)
        rw [hat] at hlive
        have hres := ih hlive (by
          rw [total_append, ← Nat.add_assoc, hat]
          simp [putLive, Piece.len]) hfit' fun j hj => hblk j (List.mem_cons_of_mem _ hj)
        simpa [putLive, List.append_assoc] using hres

end Steps

/-! ### The pool -/

section Pool

variable {G : GlobalState} {p start stop : ℕ} {slots : List ℕ}

lemma finalizeLayout_objects :
    (finalizeLayout G p start stop slots).objects = G.objects := rfl

lemma finalizeLayout_pools_ne {q : ℕ} (hq : q ≠ p) :
    (finalizeLayout G p start stop slots).pools q = G.pools q :=
  Function.update_of_ne hq _ _

lemma finalizeLayout_rest :
    SameZone G (finalizeLayout G p start stop slots)
      ∧ (finalizeLayout G p start stop slots).freeSlotHead = G.freeSlotHead
      ∧ (finalizeLayout G p start stop slots).liveObjectCount = G.liveObjectCount :=
  ⟨⟨rfl, rfl, rfl, rfl, rfl⟩, rfl, rfl⟩

lemma finalizeLayout_start :
    poolStart (finalizeLayout G p start stop slots)
      ((finalizeLayout G p start stop slots).pools p) = poolStart G (G.pools p) := by
  rw [finalizeLayout]
  simp [poolStart, segBase]

lemma finalizeLayout_entry :
    ((finalizeLayout G p start stop slots).pools p).segmentFirst = (G.pools p).segmentFirst
      ∧ ((finalizeLayout G p start stop slots).pools p).segmentCount = (G.pools p).segmentCount
      ∧ ((finalizeLayout G p start stop slots).pools p).orderHead = (G.pools p).orderHead
      ∧ ((finalizeLayout G p start stop slots).pools p).liveObjects
        = (G.pools p).liveObjects := by
  rw [finalizeLayout]
  simp

/-- `finalize_layout` on blocks in a row, whatever else their descriptors say: the packed
layout tiles the window, and only its metadata has been written. -/
theorem finalizeLayout_tiled (hz : ZoneOk G)
    (hle : (G.pools p).segmentFirst + (G.pools p).segmentCount ≤ G.segmentCount)
    (hstart : start = poolStart G (G.pools p)) (hstop : stop = poolEnd G (G.pools p))
    {l : List ℕ} (hl : slots.filter (insideWindow G.objects start stop) = l)
    (hfit : Fits G.objects stop start l) (hblk : ∀ i ∈ l, BlockOk (G.objects i) i)
    (hnd : l.Nodup) :
    Tiled (finalizeLayout G p start stop slots) p (packed G.objects stop start l)
      ∧ ∀ z, ¬ MetaByte start (packed G.objects stop start l) z →
        (finalizeLayout G p start stop slots).mem z = G.mem z := by
  have hlen : poolEnd G (G.pools p) = poolStart G (G.pools p)
      + (G.pools p).segmentCount * G.segmentSize := by
    rw [poolEnd, poolStart, segBase, segBase, Nat.add_mul, Nat.add_assoc]
  have hseg8 : (G.pools p).segmentCount * G.segmentSize % 8 = 0 := by
    rw [Nat.mul_mod, hz.segMod, Nat.mul_zero, Nat.zero_mod]
  have hmod : start % 8 = 0 := hstart ▸ PoolInv.start_mod hz
  have hstopmod : stop % 8 = 0 := by omega
  have hlo : G.zone ≤ start := by
    rw [hstart, poolStart_eq]
    omega
  have hhi : stop < G.zone + 2 ^ 31 := by
    have hsz := hz.zoneSize_lt
    have hmul := Nat.mul_le_mul_right G.segmentSize hle
    rw [← hz.size] at hmul
    rw [hstop, poolEnd, segBase]
    omega
  have hrep₀ : HeapRep G.zone start G.mem .reset [] :=
    ⟨trivial, (binsRep_reset G.zone G.mem).congr_set fun x n => by simp⟩
  -- the loop builds the layout up to the last block, and the last gap closes it
  have hbuilt := finalizeLoop_built
    (r := ⟨.reset, G.mem, start, 0, 0, 0⟩) (L := [])
    (a := start) ⟨by simp, hrep₀, rfl, rfl, rfl, fun _ _ => rfl⟩ (by simp)
    (by rw [hl]; exact hfit) (by rw [hl]; exact hblk) hmod hstopmod hlo hhi
  rw [hl] at hbuilt
  dsimp only [List.nil_append] at hbuilt
  have htotal := total_packed hfit
  have hsum := usedOf_add_lostOf_le (packed G.objects stop start l)
  have hgaplive : usedOf (packed G.objects stop start l) ≤ stop - start := by omega
  have hstart' : poolStart (finalizeLayout G p start stop slots)
      ((finalizeLayout G p start stop slots).pools p) = start := by
    rw [finalizeLayout_start, hstart]
  generalize hr : fillGap G.zone (finalizeLoop G.zone start stop G.objects slots
    ⟨.reset, G.mem, start, 0, 0, 0⟩) (stop - (finalizeLoop G.zone start stop G.objects slots
    ⟨.reset, G.mem, start, 0, 0, 0⟩).prevEnd) = r at hbuilt
  have hfin : finalizeLayout G p start stop slots =
      { G.setPool p { G.pools p with
          bins := r.bins
          usedBytes := r.used
          freeBytes := sub32 (u32 (stop - start)) r.used
          fragmentBytes := r.fragment } with mem := r.mem } := by
    rw [← hr]
    rfl
  refine ⟨⟨?_, layoutOk_packed hfit hblk hmod hstopmod hnd, ?_, ?_, ?_, ?_, ?_⟩, fun z hz => ?_⟩
  · rw [hfin, htotal]
    simp only [GlobalState.setPool_pools, Function.update_self, GlobalState.setPool_segmentSize]
    omega
  · rw [hstart', hfin]
    exact hbuilt.rep.headers
  · rw [hstart', hfin]
    simpa using hbuilt.rep.bins
  · rw [hfin]
    simpa using hbuilt.used
  · rw [hfin]
    simp only [GlobalState.setPool_pools, Function.update_self]
    rw [hbuilt.used, u32_of_lt (by omega), sub32_of_le hgaplive (by omega), htotal]
  · rw [hfin]
    simpa using hbuilt.lost
  · rw [hfin]
    exact hbuilt.frame z hz

/-- `finalize_layout` on the blocks of the pool's live objects: the pool represents the
packed layout. -/
theorem finalizeLayout_inv (hz : ZoneOk G) (hpos : 0 < (G.pools p).segmentCount)
    (hle : (G.pools p).segmentFirst + (G.pools p).segmentCount ≤ G.segmentCount)
    (hstart : start = poolStart G (G.pools p)) (hstop : stop = poolEnd G (G.pools p))
    {l : List ℕ} (hl : slots.filter (insideWindow G.objects start stop) = l)
    (hfit : Fits G.objects stop start l) (hblk : ∀ i ∈ l, BlockOk (G.objects i) i)
    (hdesc : ∀ i ∈ l, DescOk (G.objects i) p (G.objects i).block (G.objects i).blockSize)
    (hnd : l.Nodup) (horder : OrderOk G.objects (G.pools p).orderHead
      (packed G.objects stop start l))
    (hlive : (G.pools p).liveObjects = l.length) :
    PoolInv (finalizeLayout G p start stop slots) p (packed G.objects stop start l)
      ∧ ∀ z, ¬ MetaByte start (packed G.objects stop start l) z →
        (finalizeLayout G p start stop slots).mem z = G.mem z := by
  obtain ⟨htiled, hframe⟩ := finalizeLayout_tiled hz hle hstart hstop hl hfit hblk hnd
  obtain ⟨hfirst, hcount, hhead, hlv⟩ := @finalizeLayout_entry _ G p start
    stop slots
  refine ⟨htiled.poolInv (hcount ▸ hpos) (by rw [hfirst, hcount]; exact hle)
    (fun {x s n} hx => ?_) (by rw [hhead]; exact horder) ?_, hframe⟩
  · rw [finalizeLayout_start, ← hstart, liveAt_packed hfit] at hx
    obtain ⟨hs, rfl, rfl⟩ := hx
    exact hdesc s hs
  · rw [hlv, liveSlots_packed]
    exact hlive

end Pool

/-! ### Pools ready for a layout -/

/-- Everything `finalize_layout` needs to lay out the slots `l` of pool `p`. -/
structure Rebuildable (G : GlobalState) (p start stop : ℕ) (slots l : List ℕ) : Prop where
  segPos : 0 < (G.pools p).segmentCount
  segLe : (G.pools p).segmentFirst + (G.pools p).segmentCount ≤ G.segmentCount
  startEq : start = poolStart G (G.pools p)
  stopEq : stop = poolEnd G (G.pools p)
  filter : slots.filter (insideWindow G.objects start stop) = l
  fits : Fits G.objects stop start l
  blocks : ∀ i ∈ l, BlockOk (G.objects i) i
  desc : ∀ i ∈ l, DescOk (G.objects i) p (G.objects i).block (G.objects i).blockSize
  nodup : l.Nodup
  order : IsDList (fun i => (G.objects i).addrNext) (fun i => (G.objects i).addrPrev) noOrder
    noOrder (G.pools p).orderHead l
  live : (G.pools p).liveObjects = l.length

/-- `finalize_layout` of a rebuildable pool. -/
lemma Rebuildable.finalize {G : GlobalState} {p start stop : ℕ} {slots l : List ℕ}
    (hz : ZoneOk G) (h : Rebuildable G p start stop slots l) :
    PoolInv (finalizeLayout G p start stop slots) p (packed G.objects stop start l)
      ∧ ∀ z, ¬ MetaByte start (packed G.objects stop start l) z →
        (finalizeLayout G p start stop slots).mem z = G.mem z :=
  finalizeLayout_inv hz h.segPos h.segLe h.startEq h.stopEq h.filter h.fits h.blocks h.desc h.nodup
    ⟨l, h.order, by rw [liveSlots_packed]⟩ h.live

end PondMerge
