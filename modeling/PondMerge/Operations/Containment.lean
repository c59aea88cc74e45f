import PondMerge.Model.Writes
import PondMerge.Operations.Heap
import PondMerge.Operations.References

/-!
Where the zone writes of `alloc` and `free` lie, over arbitrary bins and zone bytes.

* `LinkWithin`: a link is null, or its word lies in a window.
* `binsRemoveWrites_within`, `binsInsertWrites_within`: the writes of the bins.
* `freeWrites_within_iff`, `allocWrites_within_iff`: the writes of the two mutation phases lie
  in the window exactly where the links they follow do.
-/

namespace PondMerge

open ByteMemory

variable [PmConfig]

/-! ### Single words -/

/-- Two 32-bit words that share no byte. -/
def WordsApart (a b : ℕ) : Prop := a + 4 ≤ b ∨ b + 4 ≤ a

/-- The word `k` bytes behind the block at zone offset `o` lies in `[lo, hi)`, if there is such
a block. -/
def LinkWithin (zone lo hi o k : ℕ) : Prop :=
  o = nullOff ∨ (lo ≤ ptrOf zone o + k ∧ ptrOf zone o + k + 4 ≤ hi)

section Bins

variable {zone lo hi blk a : ℕ} {b : TlsfBins} {m : Mem}

omit [PmConfig] in
lemma load32_word (m : Mem) {a x v : ℕ} (h : WordsApart a x) :
    load32 ((Write.word x v).run m) a = load32 m a :=
  load32_store32_of_disjoint m h

omit [PmConfig] in
/-- A write to the link word of `o`, if there is an `o`. -/
lemma allWithin_link {o k v : ℕ} :
    AllWithin lo hi (if o ≠ nullOff then [.word (ptrOf zone o + k) v] else []) ↔
      LinkWithin zone lo hi o k := by
  rw [LinkWithin]
  split_ifs with h
  · simp [Write.Within, h]
  · simp [not_not.mp h]

/-- The writes of an insertion. -/
lemma binsInsertWrites_within :
    AllWithin lo hi (binsInsertWrites zone b m blk) ↔
      (lo ≤ blk + 8 ∧ blk + 16 ≤ hi)
        ∧ LinkWithin zone lo hi (b.head (flBin (blkSizeOf m blk)) (slBin (blkSizeOf m blk))) 8 := by
  rw [binsInsertWrites, allWithin_append, allWithin_link]
  simp only [allWithin_cons, allWithin_nil, and_true, Write.Within]
  refine and_congr_left fun _ => ⟨fun h => ?_, fun h => ?_⟩ <;> omega

/-! ### Unlinking -/

/-- The first write of an unlinking leaves the block's own `next` link alone. -/
def OwnNext (zone : ℕ) (m : Mem) (blk : ℕ) : Prop :=
  blkPrev m blk = nullOff ∨ ptrOf zone (blkPrev m blk) = blk
    ∨ WordsApart (ptrOf zone (blkPrev m blk) + 12) (blk + 12)

/-- The writes of an unlinking to the neighbours of a block leave the word at `a` alone. -/
def Spares (zone : ℕ) (m : Mem) (blk a : ℕ) : Prop :=
  (blkPrev m blk = nullOff ∨ WordsApart (ptrOf zone (blkPrev m blk) + 12) a)
    ∧ (blkNext m blk = nullOff ∨ WordsApart (ptrOf zone (blkNext m blk) + 8) a)

omit [PmConfig] in
lemma OwnNext.next (h : OwnNext zone m blk) :
    blkNext (replay m (unlinkPrevWrites zone m blk)) blk = blkNext m blk := by
  rw [unlinkPrevWrites]
  split_ifs with hp
  · rw [replay_cons, replay_nil, Write.run, blkNext]
    rcases h.resolve_left hp with heq | hap
    · rw [heq, load32_store32_self]
      exact Nat.mod_eq_of_lt (load32_lt _ _)
    · exact load32_store32_of_disjoint m hap.symm
  · rfl

omit [PmConfig] in
/-- The writes of an unlinking. -/
lemma binsRemoveWrites_within (hown : OwnNext zone m blk) :
    AllWithin lo hi (binsRemoveWrites zone m blk) ↔
      LinkWithin zone lo hi (blkPrev m blk) 12 ∧ LinkWithin zone lo hi (blkNext m blk) 8
        ∧ lo ≤ blk + 8 ∧ blk + 16 ≤ hi := by
  rw [binsRemoveWrites, allWithin_append, allWithin_append, unlinkNextWrites, hown.next,
    allWithin_link, unlinkPrevWrites, allWithin_link]
  simp only [allWithin_cons, allWithin_nil, and_true, Write.Within, and_assoc]
  refine and_congr_right fun _ => and_congr_right fun _ => ⟨fun h => ?_, fun h => ?_⟩ <;> omega

/-- What an unlinking leaves of a word apart from the block's own links. -/
lemma binsRemove_word (hown : OwnNext zone m blk) (h₁ : WordsApart (blk + 8) a)
    (h₂ : WordsApart (blk + 12) a) :
    load32 (binsRemove zone b m blk).2 a =
      load32 (replay (replay m (unlinkPrevWrites zone m blk))
        (if blkNext m blk ≠ nullOff then
          [.word (ptrOf zone (blkNext m blk) + 8)
            (blkPrev (replay m (unlinkPrevWrites zone m blk)) blk)] else [])) a := by
  rw [binsRemove_replay, binsRemoveWrites, replay_append, replay_append, unlinkNextWrites,
    hown.next, replay_cons, replay_cons, replay_nil, load32_word _ h₁.symm,
    load32_word _ h₂.symm]

/-- A word that an unlinking spares. -/
lemma binsRemove_spares (hown : OwnNext zone m blk) (h : Spares zone m blk a)
    (h₁ : WordsApart (blk + 8) a) (h₂ : WordsApart (blk + 12) a) :
    load32 (binsRemove zone b m blk).2 a = load32 m a := by
  have hfirst : load32 (replay m (unlinkPrevWrites zone m blk)) a = load32 m a := by
    rw [unlinkPrevWrites]
    split_ifs with hp
    · exact load32_word m (h.1.resolve_left hp).symm
    · rfl
  rw [binsRemove_word hown h₁ h₂]
  split_ifs with hn
  · rw [replay_cons, replay_nil, load32_word _ (h.2.resolve_left hn).symm, hfirst]
  · exact hfirst

/-- The bin heads behind an unlinking. -/
lemma binsRemove_head (f s : ℕ) :
    (binsRemove zone b m blk).1.head f s =
      if blkPrev m blk = nullOff ∧ f = flBin (blkSizeOf m blk) ∧ s = slBin (blkSizeOf m blk)
      then blkNext m blk else b.head f s := by
  have hclear : ∀ (c : TlsfBins) (f s : ℕ), (c.clearBits f s).head = c.head := fun _ _ _ => rfl
  have hset : ∀ (c : TlsfBins) (f' s' off : ℕ), (c.setHead f' s' off).head f s =
      if f = f' ∧ s = s' then off else c.head f s := by
    intro c f' s' off
    rw [TlsfBins.setHead]
    dsimp only
    by_cases hf : f = f'
    · subst hf
      by_cases hs : s = s'
      · simp [hs]
      · simp [hs]
    · simp [hf]
  rw [binsRemove]
  by_cases hp : blkPrev m blk = nullOff
  · simp only [hp, ne_eq, not_true_eq_false, if_false, true_and]
    rw [← hset]
    split_ifs
    · rw [hclear]
    · rfl
  · simp only [hp, ne_eq, not_false_eq_true, if_true, false_and, if_false]
    split_ifs
    · rw [hclear]
    · rfl

end Bins

/-- Both links of a free block, as far as they name blocks, have their words in `[lo, hi)`. -/
def LinksWithin (zone lo hi : ℕ) (m : Mem) (blk : ℕ) : Prop :=
  LinkWithin zone lo hi (blkPrev m blk) 12 ∧ LinkWithin zone lo hi (blkNext m blk) 8

/-! ### `free` -/

section Free

/-- `free` merges with the block in front. -/
def PrevFree (m : Mem) (block : ℕ) : Prop :=
  load32 m (block + 4) ≠ 0 ∧ blkIsFree m (block - load32 m (block + 4))

/-- `free` merges with the block behind. -/
def NextFree (m : Mem) (stop block n : ℕ) : Prop :=
  block + n < stop ∧ blkIsFree m (block + n)

instance (m : Mem) (block : ℕ) : Decidable (PrevFree m block) :=
  inferInstanceAs (Decidable (_ ∧ _))

instance (m : Mem) (stop block n : ℕ) : Decidable (NextFree m stop block n) :=
  inferInstanceAs (Decidable (_ ∧ _))

/-- The block in front, as `prev_size` has it. -/
def prevBlock (m : Mem) (block : ℕ) : ℕ := block - load32 m (block + 4)

/-- The size of the free block that `free` leaves. -/
def mergedSize (m : Mem) (stop block n : ℕ) : ℕ :=
  n + (if PrevFree m block then load32 m (block + 4) else 0)
    + if NextFree m stop block n then blkSizeOf m (block + n) else 0

/-- Two sizes select the same bin. -/
def SameBin (n k : ℕ) : Prop := flBin n = flBin k ∧ slBin n = slBin k

instance (n k : ℕ) : Decidable (SameBin n k) := inferInstanceAs (Decidable (_ ∧ _))

/-- What the proofs of `free` have shown about the block at `block` of `n` bytes in the window
`[lo, hi)` and about the words in front of it and behind it. -/
structure Verified (zone lo hi : ℕ) (m : Mem) (block n : ℕ) : Prop where
  window : zone ≤ lo ∧ hi ≤ zone + 2 ^ 31 ∧ hi % 8 = 0
  inside : lo ≤ block ∧ block + n ≤ hi ∧ block % 8 = 0 ∧ n % 8 = 0 ∧ 16 ≤ n
  prev : load32 m (block + 4) ≠ 0 → 16 ≤ load32 m (block + 4) ∧ load32 m (block + 4) % 8 = 0
    ∧ load32 m (block + 4) ≤ block - lo
  links : PrevFree m block →
    (blkPrev m (prevBlock m block) ≠ nullOff →
      blkNext m (ptrOf zone (blkPrev m (prevBlock m block))) = offOf zone (prevBlock m block))
    ∧ (blkNext m (prevBlock m block) ≠ nullOff →
      blkPrev m (ptrOf zone (blkNext m (prevBlock m block))) = offOf zone (prevBlock m block))
  next : NextFree m hi block n → 16 ≤ blkSizeOf m (block + n) ∧ blkSizeOf m (block + n) % 8 = 0
    ∧ blkSizeOf m (block + n) ≤ hi - (block + n)

/-- No link word that the merges write overlaps a word they read afterwards, other than the
link it stands for. -/
structure Untorn (zone stop : ℕ) (m : Mem) (block n : ℕ) : Prop where
  prevOwn : PrevFree m block → OwnNext zone m (prevBlock m block)
    ∧ (blkPrev m (prevBlock m block) = nullOff
      ∨ WordsApart (ptrOf zone (blkPrev m (prevBlock m block)) + 12) (prevBlock m block + 8))
  header : PrevFree m block → block + n < stop → Spares zone m (prevBlock m block) (block + n)
  prevLink : PrevFree m block → NextFree m stop block n →
    blkPrev m (prevBlock m block) = nullOff
      ∨ ptrOf zone (blkPrev m (prevBlock m block)) = block + n
      ∨ (WordsApart (ptrOf zone (blkPrev m (prevBlock m block)) + 12) (block + n + 8)
        ∧ WordsApart (ptrOf zone (blkPrev m (prevBlock m block)) + 12) (block + n + 12))
  nextLink : PrevFree m block → NextFree m stop block n →
    blkNext m (prevBlock m block) = nullOff
      ∨ ptrOf zone (blkNext m (prevBlock m block)) = block + n
      ∨ (WordsApart (ptrOf zone (blkNext m (prevBlock m block)) + 8) (block + n + 8)
        ∧ WordsApart (ptrOf zone (blkNext m (prevBlock m block)) + 8) (block + n + 12))
  nextOwn : NextFree m stop block n →
    OwnNext zone m (block + n) ∧ Spares zone m (block + n) (block + n)

/-- The merges replace the head of the bin that receives the merged block. -/
def HeadReplaced (zone stop : ℕ) (m : Mem) (block n : ℕ) : Prop :=
  (PrevFree m block ∧ blkPrev m (prevBlock m block) = nullOff
      ∧ SameBin (mergedSize m stop block n) (blkSizeOf m (prevBlock m block)))
    ∨ (NextFree m stop block n
      ∧ (blkPrev m (block + n) = nullOff
        ∨ (PrevFree m block ∧ blkPrev m (prevBlock m block) = nullOff
          ∧ ptrOf zone (blkNext m (prevBlock m block)) = block + n))
      ∧ SameBin (mergedSize m stop block n) (blkSizeOf m (block + n)))

/-- The links of the merged blocks and the head of the receiving bin lead into the window. -/
structure FreeRoom (zone lo hi : ℕ) (b : TlsfBins) (m : Mem) (block n : ℕ) : Prop where
  prev : PrevFree m block → LinksWithin zone lo hi m (prevBlock m block)
  next : NextFree m hi block n → LinksWithin zone lo hi m (block + n)
  head : HeadReplaced zone hi m block n
    ∨ LinkWithin zone lo hi
      (b.head (flBin (mergedSize m hi block n)) (slBin (mergedSize m hi block n))) 8

variable {zone lo hi block n : ℕ} {b : TlsfBins} {m : Mem}

omit [PmConfig] in
lemma OwnNext.prev {blk : ℕ} (h : blkPrev m blk = nullOff
    ∨ WordsApart (ptrOf zone (blkPrev m blk) + 12) (blk + 8)) :
    blkPrev (replay m (unlinkPrevWrites zone m blk)) blk = blkPrev m blk := by
  rw [unlinkPrevWrites]
  split_ifs with hp
  · exact load32_word m (h.resolve_left hp).symm
  · rfl

/-- What the backward merge leaves to the forward one. -/
structure MergedBack (zone lo hi : ℕ) (b : TlsfBins) (m : Mem) (block n : ℕ)
    (r : TlsfBins × Mem × ℕ × ℕ) : Prop where
  start : lo ≤ r.2.2.1 ∧ r.2.2.1 % 8 = 0
  size : r.2.2.2 = n + if PrevFree m block then load32 m (block + 4) else 0
  stop : r.2.2.1 + r.2.2.2 = block + n
  header : block + n < hi → load32 r.2.1 (block + n) = load32 m (block + n)
  prevLink : NextFree m hi block n → blkPrev r.2.1 (block + n) =
    if PrevFree m block ∧ ptrOf zone (blkNext m (prevBlock m block)) = block + n then
      blkPrev m (prevBlock m block) else blkPrev m (block + n)
  nextLink : NextFree m hi block n → blkNext r.2.1 (block + n) =
    if PrevFree m block ∧ ptrOf zone (blkPrev m (prevBlock m block)) = block + n then
      blkNext m (prevBlock m block) else blkNext m (block + n)
  head : ∀ f s, r.1.head f s =
    if PrevFree m block ∧ blkPrev m (prevBlock m block) = nullOff
        ∧ f = flBin (blkSizeOf m (prevBlock m block))
        ∧ s = slBin (blkSizeOf m (prevBlock m block))
    then blkNext m (prevBlock m block) else b.head f s

omit [PmConfig] in
lemma Verified.prevBlock (h : Verified zone lo hi m block n) (hp : PrevFree m block) :
    lo ≤ prevBlock m block ∧ prevBlock m block % 8 = 0 ∧ prevBlock m block + 16 ≤ block
      ∧ prevBlock m block + load32 m (block + 4) = block := by
  obtain ⟨h₁, h₂, h₃⟩ := h.prev hp.1
  have := h.inside
  rw [PondMerge.prevBlock]
  omega

omit [PmConfig] in
lemma ptrOf_null_ne {a : ℕ} (ha : a < zone + 2 ^ 31) : ptrOf zone nullOff ≠ a := by
  rw [ptrOf, nullOff]
  omega

/-- What unlinking the block in front leaves of the links of the block behind. -/
lemma Untorn.links (h : Verified zone lo hi m block n) (ht : Untorn zone hi m block n)
    (hp : PrevFree m block) (hnf : NextFree m hi block n) :
    blkPrev (binsRemove zone b m (prevBlock m block)).2 (block + n) =
        (if ptrOf zone (blkNext m (prevBlock m block)) = block + n then
          blkPrev m (prevBlock m block) else blkPrev m (block + n))
      ∧ blkNext (binsRemove zone b m (prevBlock m block)).2 (block + n) =
        if ptrOf zone (blkPrev m (prevBlock m block)) = block + n then
          blkNext m (prevBlock m block) else blkNext m (block + n) := by
  have hpb := h.prevBlock hp
  have hlt : block + n < zone + 2 ^ 31 := lt_of_lt_of_le hnf.1 h.window.2.1
  obtain ⟨hown, hprev⟩ := ht.prevOwn hp
  have h₁ := ht.prevLink hp hnf
  have h₂ := ht.nextLink hp hnf
  have hkeep := OwnNext.prev hprev
  generalize prevBlock m block = x at *
  have hword : ∀ k, load32 (binsRemove zone b m x).2 (block + n + k) =
      load32 (replay (replay m (unlinkPrevWrites zone m x)) (if blkNext m x ≠ nullOff then
        [.word (ptrOf zone (blkNext m x) + 8) (blkPrev m x)] else [])) (block + n + k) := by
    intro k
    rw [binsRemove_word hown (Or.inl (by omega)) (Or.inl (by omega)), hkeep]
  have h8 := hword 8
  have h12 := hword 12
  rw [← blkPrev] at h8
  rw [← blkNext] at h12
  rw [h8, h12]
  -- the first write, to the `next` link of the predecessor
  have hfirst : load32 (replay m (unlinkPrevWrites zone m x)) (block + n + 8) =
        blkPrev m (block + n)
      ∧ load32 (replay m (unlinkPrevWrites zone m x)) (block + n + 12) =
        if ptrOf zone (blkPrev m x) = block + n then blkNext m x else blkNext m (block + n) := by
    rw [unlinkPrevWrites]
    by_cases hnull : blkPrev m x = nullOff
    · rw [if_neg (not_not.mpr hnull), hnull, if_neg (ptrOf_null_ne hlt)]
      exact ⟨rfl, rfl⟩
    · rw [if_pos hnull, replay_cons, replay_nil]
      rcases h₁.resolve_left hnull with heq | ⟨ha, hb⟩
      · rw [heq, if_pos rfl, Write.run, load32_store32_self]
        exact ⟨load32_store32_of_disjoint m (Or.inl (by omega)), Nat.mod_eq_of_lt (load32_lt _ _)⟩
      · rw [load32_word _ ha.symm, load32_word _ hb.symm, if_neg]
        · exact ⟨rfl, rfl⟩
        · rintro heq
          rw [heq, WordsApart] at hb
          omega
  obtain ⟨hfirst₁, hfirst₂⟩ := hfirst
  -- the second write, to the `prev` link of the successor
  by_cases hnull : blkNext m x = nullOff
  · rw [if_neg (not_not.mpr hnull), replay_nil, hfirst₁, hfirst₂, hnull,
      if_neg (ptrOf_null_ne hlt)]
    exact ⟨rfl, rfl⟩
  · rw [if_pos hnull, replay_cons, replay_nil]
    rcases h₂.resolve_left hnull with heq | ⟨ha, hb⟩
    · rw [heq, if_pos rfl, Write.run, load32_store32_self]
      rw [load32_store32_of_disjoint _ (Or.inr (by omega)), hfirst₂]
      exact ⟨Nat.mod_eq_of_lt (load32_lt _ _), rfl⟩
    · rw [load32_word _ ha.symm, load32_word _ hb.symm, hfirst₁, hfirst₂, if_neg]
      · exact ⟨rfl, rfl⟩
      · rintro heq
        rw [heq, WordsApart] at ha
        omega

/-- The backward merge in these terms. -/
lemma mergePrev_eq : mergePrev zone b m block n =
    if PrevFree m block then
      ((binsRemove zone b m (prevBlock m block)).1, (binsRemove zone b m (prevBlock m block)).2,
        prevBlock m block, u32 (n + load32 m (block + 4)))
    else (b, m, block, n) := rfl

lemma mergePrev_back (h : Verified zone lo hi m block n) (ht : Untorn zone hi m block n) :
    MergedBack zone lo hi b m block n (mergePrev zone b m block n) := by
  have hblock := h.inside
  have hwin := h.window
  rw [mergePrev_eq]
  by_cases hp : PrevFree m block
  · have hpb := h.prevBlock hp
    obtain ⟨hown, hprev⟩ := ht.prevOwn hp
    rw [if_pos hp]
    refine ⟨⟨hpb.1, hpb.2.1⟩, ?_, ?_, fun hlt => ?_, fun hnf => ?_, fun hnf => ?_, fun f s => ?_⟩
    · rw [if_pos hp, u32_of_lt (by omega)]
    · rw [u32_of_lt (by omega)]
      show prevBlock m block + (n + load32 m (block + 4)) = block + n
      omega
    · exact @binsRemove_spares _ zone _ _ b m hown (ht.header hp hlt) (Or.inl (by omega))
        (Or.inl (by omega))
    · rw [(ht.links h hp hnf).1]
      simp only [hp, true_and]
    · rw [(ht.links h hp hnf).2]
      simp only [hp, true_and]
    · rw [binsRemove_head]
      simp only [hp, true_and]
  · rw [if_neg hp]
    refine ⟨⟨hblock.1, hblock.2.2.1⟩, ?_, rfl, fun _ => rfl, fun _ => ?_, fun _ => ?_,
      fun f s => ?_⟩
    · rw [if_neg hp, Nat.add_zero]
    · rw [if_neg fun hc => hp hc.1]
    · rw [if_neg fun hc => hp hc.1]
    · rw [if_neg fun hc => hp hc.1]

omit [PmConfig] in
/-- The writes of the backward merge. -/
lemma mergePrevWrites_within (h : Verified zone lo hi m block n) (ht : Untorn zone hi m block n) :
    AllWithin lo hi (mergePrevWrites zone m block) ↔
      (PrevFree m block → LinksWithin zone lo hi m (prevBlock m block)) := by
  have hblock := h.inside
  have heq : mergePrevWrites zone m block =
      if PrevFree m block then binsRemoveWrites zone m (prevBlock m block) else [] := rfl
  rw [heq]
  by_cases hp : PrevFree m block
  · have hpb := h.prevBlock hp
    rw [if_pos hp, binsRemoveWrites_within (ht.prevOwn hp).1, LinksWithin]
    constructor
    · rintro ⟨h₁, h₂, -⟩ -
      exact ⟨h₁, h₂⟩
    · intro hl
      exact ⟨(hl hp).1, (hl hp).2, by omega, by omega⟩
  · rw [if_neg hp]
    simp [hp]

/-- The block behind, as the forward merge finds it. -/
lemma MergedBack.next {r : TlsfBins × Mem × ℕ × ℕ} (hr : MergedBack zone lo hi b m block n r) :
    (r.2.2.1 + r.2.2.2 < hi ∧ blkIsFree r.2.1 (r.2.2.1 + r.2.2.2) = true)
      ↔ NextFree m hi block n := by
  rw [hr.stop, NextFree]
  refine and_congr_right fun hlt => ?_
  rw [blkIsFree, blkIsFree, hr.header hlt]

/-- The forward merge unlinks a block that it has not torn. -/
lemma MergedBack.own {r : TlsfBins × Mem × ℕ × ℕ} (hr : MergedBack zone lo hi b m block n r)
    (ht : Untorn zone hi m block n) (hnf : NextFree m hi block n) :
    OwnNext zone r.2.1 (block + n) ∧ Spares zone r.2.1 (block + n) (block + n) := by
  obtain ⟨hown, hsp⟩ := ht.nextOwn hnf
  rw [OwnNext, Spares, hr.prevLink hnf, hr.nextLink hnf]
  refine ⟨?_, ?_, ?_⟩
  · split_ifs with hc
    · exact (ht.prevLink hc.1 hnf).imp_right fun h => h.imp_right fun h => h.2
    · exact hown
  · split_ifs with hc
    · exact (ht.header hc.1 hnf.1).1
    · exact hsp.1
  · split_ifs with hc
    · exact (ht.header hc.1 hnf.1).2
    · exact hsp.2

omit [PmConfig] in
/-- A link to a block of the window is within it. -/
lemma linkWithin_of_ptr {o x k : ℕ} (hx : offOf zone x = o) (hz : zone ≤ x)
    (hx' : x < zone + 2 ^ 31) (hlo : lo ≤ x) (hhi : x + k + 4 ≤ hi) :
    LinkWithin zone lo hi o k := by
  subst hx
  rw [offOf, u32_of_lt (by omega)]
  refine Or.inr ?_
  rw [ptrOf]
  omega

/-- The links of the block behind lead into the window after the backward merge where they did
before it. -/
lemma MergedBack.links {r : TlsfBins × Mem × ℕ × ℕ} (hr : MergedBack zone lo hi b m block n r)
    (h : Verified zone lo hi m block n)
    (hprev : PrevFree m block → LinksWithin zone lo hi m (prevBlock m block))
    (hnf : NextFree m hi block n) :
    LinksWithin zone lo hi r.2.1 (block + n) ↔ LinksWithin zone lo hi m (block + n) := by
  have hwin := h.window
  have hblock := h.inside
  rw [LinksWithin, LinksWithin, hr.prevLink hnf, hr.nextLink hnf]
  -- a link that has been replaced led to the block in front
  have hback : PrevFree m block → ∀ o, offOf zone (prevBlock m block) = o →
      ∀ k ≤ 12, LinkWithin zone lo hi o k := by
    intro hp o ho k hk
    have hpb := h.prevBlock hp
    exact linkWithin_of_ptr ho (by omega) (by omega) hpb.1 (by omega)
  have hnb : PrevFree m block → ∀ o, ptrOf zone o = block + n → o ≠ nullOff := by
    rintro - o ho rfl
    exact ptrOf_null_ne (lt_of_lt_of_le hnf.1 hwin.2.1) ho
  refine and_congr ?_ ?_
  · split_ifs with hc
    · obtain ⟨hp, heq⟩ := hc
      have hrec := (h.links hp).2 (hnb hp _ heq)
      rw [heq] at hrec
      exact iff_of_true (hprev hp).1 (hback hp _ hrec.symm 12 le_rfl)
    · exact Iff.rfl
  · split_ifs with hc
    · obtain ⟨hp, heq⟩ := hc
      have hrec := (h.links hp).1 (hnb hp _ heq)
      rw [heq] at hrec
      exact iff_of_true (hprev hp).2 (hback hp _ hrec.symm 8 (by omega))
    · exact Iff.rfl

/-- The merged block, stamped and binned. -/
lemma putMergedWrites_within {x k : ℕ} (hx : lo ≤ x ∧ x % 8 = 0 ∧ k % 8 = 0 ∧ 16 ≤ k)
    (hstop : x + k ≤ hi) (hk : k < 2 ^ 32) (hhi : hi % 8 = 0) :
    AllWithin lo hi (putMergedWrites zone hi b m x k) ↔
      LinkWithin zone lo hi (b.head (flBin k) (slBin k)) 8 := by
  have hsize : blkSizeOf (replay m [.word x (k ||| blockFreeBit), .word (x + 12) nullOff,
      .word (x + 8) nullOff]) x = k := by
    rw [replay_cons, replay_cons, replay_cons, replay_nil, blkSizeOf,
      load32_word _ (Or.inl (by omega)), load32_word _ (Or.inl (by omega)), Write.run,
      load32_store32_self, or_freeBit hx.2.2.1]
    omega
  rw [putMergedWrites, allWithin_append, allWithin_append, binsInsertWrites_within, hsize]
  have htail : AllWithin lo hi
      (if x + k < hi then [.word (x + k + 4) k] else ([] : List Write)) := by
    split_ifs
    · simp only [allWithin_cons, allWithin_nil, and_true, Write.Within]
      omega
    · exact allWithin_nil
  simp only [allWithin_cons, allWithin_nil, and_true, Write.Within]
  constructor
  · rintro ⟨⟨-, -, h⟩, -⟩
    exact h
  · exact fun h => ⟨⟨by omega, by omega, h⟩, htail⟩

/-- The merged block fits in the window. -/
lemma Verified.merged (h : Verified zone lo hi m block n) {r : TlsfBins × Mem × ℕ × ℕ}
    (hr : MergedBack zone lo hi b m block n r) :
    r.2.2.1 + mergedSize m hi block n ≤ hi ∧ mergedSize m hi block n % 8 = 0
      ∧ 16 ≤ mergedSize m hi block n := by
  have hstop := hr.stop
  have hblock := h.inside
  rw [mergedSize, ← hr.size]
  have hrmod : r.2.2.2 % 8 = 0 := by
    have := hr.start.2
    omega
  have hle : 16 ≤ r.2.2.2 := by
    rw [hr.size]
    omega
  split_ifs with hnf
  · obtain ⟨h₁, h₂, h₃⟩ := h.next hnf
    omega
  · omega

/-- The forward merge: bins and size. -/
structure MergedFwd (zone hi : ℕ) (m : Mem) (block n : ℕ) (r : TlsfBins × Mem × ℕ × ℕ)
    (fwd : TlsfBins × Mem × ℕ) : Prop where
  size : fwd.2.2 = mergedSize m hi block n
  head : ∀ f s, fwd.1.head f s =
    if NextFree m hi block n ∧ blkPrev r.2.1 (block + n) = nullOff
        ∧ f = flBin (blkSizeOf m (block + n)) ∧ s = slBin (blkSizeOf m (block + n))
    then blkNext r.2.1 (block + n) else r.1.head f s

lemma mergeNext_fwd (h : Verified zone lo hi m block n) (ht : Untorn zone hi m block n)
    {r : TlsfBins × Mem × ℕ × ℕ} (hr : MergedBack zone lo hi b m block n r) :
    MergedFwd zone hi m block n r (mergeNext zone hi r.1 r.2.1 r.2.2.1 r.2.2.2)
      ∧ (AllWithin lo hi (mergeNextWrites zone hi r.2.1 r.2.2.1 r.2.2.2) ↔
        (NextFree m hi block n → LinksWithin zone lo hi r.2.1 (block + n))) := by
  have hblock := h.inside
  have hwin := h.window
  have hcond := hr.next
  have hstop := hr.stop
  rw [mergeNext, mergeNextWrites]
  dsimp only
  by_cases hnf : NextFree m hi block n
  · obtain ⟨hown, hsp⟩ := hr.own ht hnf
    have hmerged := h.merged hr
    have hstart := hr.start
    have hn := h.next hnf
    rw [if_pos (hcond.mpr hnf), if_pos (hcond.mpr hnf), hstop]
    have hsize : blkSizeOf (binsRemove zone r.1 r.2.1 (block + n)).2 (block + n) =
        blkSizeOf m (block + n) := by
      rw [blkSizeOf, binsRemove_spares hown hsp (Or.inr (by omega)) (Or.inr (by omega)),
        hr.header hnf.1, ← blkSizeOf]
    -- the writes so far have kept the header of the block behind
    have hsize' : blkSizeOf r.2.1 (block + n) = blkSizeOf m (block + n) := by
      rw [blkSizeOf, hr.header hnf.1, ← blkSizeOf]
    refine ⟨⟨?_, fun f s => ?_⟩, ?_⟩
    · rw [mergedSize, ← hr.size, if_pos hnf] at hmerged ⊢
      dsimp only
      rw [hsize, u32_of_lt (by omega)]
    · rw [binsRemove_head, hsize']
      simp only [hnf, true_and]
    · rw [binsRemoveWrites_within hown, LinksWithin]
      constructor
      · rintro ⟨h₁, h₂, -⟩ -
        exact ⟨h₁, h₂⟩
      · intro hl
        exact ⟨(hl hnf).1, (hl hnf).2, by omega, by omega⟩
  · rw [if_neg fun hc => hnf (hcond.mp hc), if_neg fun hc => hnf (hcond.mp hc)]
    refine ⟨⟨?_, fun f s => ?_⟩, ?_⟩
    · rw [mergedSize, ← hr.size, if_neg hnf, Nat.add_zero]
    · rw [if_neg fun hc => hnf hc.1]
    · simp [hnf]

/-- The head of the receiving bin, once both merges are done. -/
lemma MergedFwd.room (h : Verified zone lo hi m block n) {r : TlsfBins × Mem × ℕ × ℕ}
    {fwd : TlsfBins × Mem × ℕ}
    (hf : MergedFwd zone hi m block n r fwd) (hr : MergedBack zone lo hi b m block n r)
    (hprev : PrevFree m block → LinksWithin zone lo hi m (prevBlock m block))
    (hnext : NextFree m hi block n → LinksWithin zone lo hi r.2.1 (block + n)) :
    LinkWithin zone lo hi (fwd.1.head (flBin (mergedSize m hi block n))
        (slBin (mergedSize m hi block n))) 8
      ↔ HeadReplaced zone hi m block n ∨ LinkWithin zone lo hi
        (b.head (flBin (mergedSize m hi block n)) (slBin (mergedSize m hi block n))) 8 := by
  have hwin := h.window
  have hblock := h.inside
  -- a null `prev` of the block behind is its own or that of the block in front
  have hnull : NextFree m hi block n → (blkPrev r.2.1 (block + n) = nullOff ↔
        blkPrev m (block + n) = nullOff ∨ (PrevFree m block
          ∧ blkPrev m (prevBlock m block) = nullOff
          ∧ ptrOf zone (blkNext m (prevBlock m block)) = block + n)) := by
    intro hnf
    rw [hr.prevLink hnf]
    split_ifs with hc
    · obtain ⟨hp, heq⟩ := hc
      have hpb := h.prevBlock hp
      have hlt : block + n < zone + 2 ^ 31 := lt_of_lt_of_le hnf.1 hwin.2.1
      have hrec := (h.links hp).2 fun ho => ptrOf_null_ne hlt (ho ▸ heq)
      rw [heq, offOf, u32_of_lt (by omega)] at hrec
      have hne : blkPrev m (block + n) ≠ nullOff := by
        rw [hrec, nullOff]
        omega
      exact ⟨fun h => Or.inr ⟨hp, h, heq⟩, fun h => (h.resolve_left hne).2.1⟩
    · exact ⟨Or.inl, fun h => h.resolve_right fun h => hc ⟨h.1, h.2.2⟩⟩
  rw [hf.head, hr.head]
  split_ifs with hA hB
  · exact iff_of_true (hnext hA.1).2 (Or.inl (Or.inr ⟨hA.1, (hnull hA.1).mp hA.2.1, hA.2.2⟩))
  · exact iff_of_true (hprev hB.1).2 (Or.inl (Or.inl ⟨hB.1, hB.2.1, hB.2.2⟩))
  · refine ⟨Or.inr, fun h => h.resolve_left ?_⟩
    rintro (⟨hp, hnull', hbin⟩ | ⟨hnf, hnull', hbin⟩)
    · exact hB ⟨hp, hnull', hbin⟩
    · exact hA ⟨hnf, (hnull hnf).mpr hnull', hbin⟩

/-- The writes of `free`'s mutation phase lie in the window exactly where the links it follows
lead into it. -/
theorem freeWrites_within_iff (h : Verified zone lo hi m block n)
    (ht : Untorn zone hi m block n) :
    AllWithin lo hi (freeWrites zone hi b m block n) ↔ FreeRoom zone lo hi b m block n := by
  have hr := @mergePrev_back _ zone lo hi block n b m h ht
  have hmerged := h.merged hr
  obtain ⟨hf, hnextw⟩ := mergeNext_fwd h ht hr
  rw [freeWrites, allWithin_append, allWithin_append, mergePrevWrites_within h ht]
  generalize mergePrev zone b m block n = r at *
  rw [hnextw]
  generalize mergeNext zone hi r.1 r.2.1 r.2.2.1 r.2.2.2 = fwd at *
  rw [hf.size, putMergedWrites_within ⟨hr.start.1, hr.start.2, hmerged.2⟩ hmerged.1 (by
    have := h.window
    have := hr.start
    omega) h.window.2.2]
  constructor
  · rintro ⟨⟨hprev, hnext⟩, hhead⟩
    exact ⟨hprev, fun hnf => (hr.links h hprev hnf).mp (hnext hnf),
      (hf.room h hr hprev hnext).mp hhead⟩
  · rintro ⟨hprev, hnext, hhead⟩
    have hnext' := fun hnf => (hr.links h hprev hnf).mpr (hnext hnf)
    exact ⟨⟨hprev, hnext'⟩, (hf.room h hr hprev hnext').mpr hhead⟩

end Free

/-! ### `alloc` -/

section Alloc

/-- No link word that unlinking the chosen block writes overlaps its header or its own `next`
link, other than the link itself. -/
structure AllocUntorn (zone : ℕ) (m : Mem) (blk : ℕ) : Prop where
  own : OwnNext zone m blk
  header : Spares zone m blk blk

/-- The links of the chosen block, the block itself, what lies behind it, the remainder and the
head of its bin are in the window. -/
structure AllocRoom (zone lo hi : ℕ) (b : TlsfBins) (m : Mem) (blk need size flags : ℕ) :
    Prop where
  own : blk + 16 ≤ hi
  links : LinksWithin zone lo hi m blk
  after : blk + blkSizeOf m blk < hi → blk + blkSizeOf m blk + 8 ≤ hi
  rest : pmMinBlock ≤ blkSizeOf m blk - need → blk + need + 16 ≤ hi
    ∧ ((blkPrev m blk = nullOff ∧ SameBin (blkSizeOf m blk - need) (blkSizeOf m blk))
      ∨ LinkWithin zone lo hi
        (b.head (flBin (blkSizeOf m blk - need)) (slBin (blkSizeOf m blk - need))) 8)
  zero : flags &&& pmZeroInit ≠ 0 → blk + 8 + size ≤ hi

variable {zone lo hi blk need size flags : ℕ} {b : TlsfBins} {m : Mem}

/-- The writes behind the chosen block of `k` bytes, once it has left its bin. -/
lemma allocSplitWrites_within {k : ℕ} (hlo : lo ≤ blk) (hneed : need ≤ k) (hpos : 0 < k)
    (heven : k % 2 = 0 ∧ need % 2 = 0) (hk : k < 2 ^ 32) :
    AllWithin lo hi (allocSplitWrites zone hi b m blk k need) ↔
      (blk + k < hi → blk + k + 8 ≤ hi) ∧ (pmMinBlock ≤ k - need → blk + need + 16 ≤ hi
        ∧ LinkWithin zone lo hi (b.head (flBin (k - need)) (slBin (k - need))) 8) := by
  have htail : ∀ v, AllWithin lo hi
      (if blk + k < hi then [.word (blk + k + 4) v] else ([] : List Write)) ↔
        (blk + k < hi → blk + k + 8 ≤ hi) := by
    intro v
    split_ifs with h
    · simp only [allWithin_cons, allWithin_nil, and_true, Write.Within]
      omega
    · simp [h]
  rw [allocSplitWrites, sub32_of_le hneed hk]
  dsimp only
  by_cases hmin : pmMinBlock ≤ k - need
  · have hsize : blkSizeOf (replay m [.word (blk + need) ((k - need) ||| blockFreeBit),
        .word (blk + need + 4) need, .word (blk + need + 12) nullOff,
        .word (blk + need + 8) nullOff]) (blk + need) = k - need := by
      rw [replay_cons, replay_cons, replay_cons, replay_cons, replay_nil, blkSizeOf,
        load32_word _ (Or.inl (by omega)), load32_word _ (Or.inl (by omega)),
        load32_word _ (Or.inl (by omega)), Write.run, load32_store32_self,
        or_freeBit_even (by omega)]
      omega
    rw [if_pos hmin, allWithin_append, allWithin_append, htail, binsInsertWrites_within, hsize]
    simp only [allWithin_cons, allWithin_nil, and_true, Write.Within]
    constructor
    · rintro ⟨⟨h₁, -, hhead⟩, hafter⟩
      exact ⟨hafter, fun _ => ⟨by omega, hhead⟩⟩
    · rintro ⟨hafter, hrest⟩
      obtain ⟨hfit, hhead⟩ := hrest hmin
      exact ⟨⟨by omega, by omega, hhead⟩, hafter⟩
  · rw [if_neg hmin, htail]
    simp [hmin]

/-- The zone writes of `alloc`'s mutation phase lie in the window exactly where the chosen
block and the links it follows do. -/
theorem allocWrites_within_iff (hlo : lo ≤ blk)
    (hlarge : need ≤ blkSizeOf m blk) (hmin : 16 ≤ need) (heven : need % 2 = 0)
    (hsize : 0 < size) (ht : AllocUntorn zone m blk) :
    AllWithin lo hi (allocBlockWrites zone hi b m blk need
        ++ if flags &&& pmZeroInit ≠ 0 then [.fill (blk + 8) 0 size] else [])
      ↔ AllocRoom zone lo hi b m blk need size flags := by
  have hkeep : blkSizeOf (binsRemove zone b m blk).2 blk = blkSizeOf m blk := by
    rw [blkSizeOf, binsRemove_spares ht.own ht.header (Or.inr (by omega)) (Or.inr (by omega)),
      ← blkSizeOf]
  have hk : blkSizeOf m blk % 2 = 0 ∧ blkSizeOf m blk < 2 ^ 32 := by
    have := load32_lt m blk
    rw [blkSizeOf]
    omega
  have hzero : AllWithin lo hi
      (if flags &&& pmZeroInit ≠ 0 then [.fill (blk + 8) 0 size] else ([] : List Write)) ↔
        (flags &&& pmZeroInit ≠ 0 → blk + 8 + size ≤ hi) := by
    split_ifs with h
    · simp only [allWithin_cons, allWithin_nil, and_true, Write.Within, h, not_false_eq_true,
        ne_eq, true_imp_iff]
      omega
    · simp [h]
  rw [allocBlockWrites, allWithin_append, allWithin_append, allWithin_append, hzero, hkeep,
    binsRemoveWrites_within ht.own,
    allocSplitWrites_within hlo hlarge (by omega) ⟨hk.1, heven⟩ hk.2, binsRemove_head]
  simp only [allWithin_cons, allWithin_nil, and_true, Write.Within]
  -- the head of the remainder's bin, once the block has left its own
  have hhead : LinkWithin zone lo hi (blkNext m blk) 8 →
      (LinkWithin zone lo hi (if blkPrev m blk = nullOff
          ∧ flBin (blkSizeOf m blk - need) = flBin (blkSizeOf m blk)
          ∧ slBin (blkSizeOf m blk - need) = slBin (blkSizeOf m blk) then blkNext m blk
          else b.head (flBin (blkSizeOf m blk - need)) (slBin (blkSizeOf m blk - need))) 8
        ↔ (blkPrev m blk = nullOff ∧ SameBin (blkSizeOf m blk - need) (blkSizeOf m blk))
          ∨ LinkWithin zone lo hi
            (b.head (flBin (blkSizeOf m blk - need)) (slBin (blkSizeOf m blk - need))) 8) := by
    intro hnext
    split_ifs with hc
    · exact iff_of_true hnext (Or.inl hc)
    · exact ⟨Or.inr, fun h => h.resolve_left hc⟩
  constructor
  · rintro ⟨⟨⟨⟨hp, hn, -, hown⟩, hafter, hrest⟩, -⟩, hz⟩
    exact ⟨hown, ⟨hp, hn⟩, hafter, fun hm => (hrest hm).imp_right (hhead hn).mp, hz⟩
  · rintro ⟨hown, ⟨hp, hn⟩, hafter, hrest, hz⟩
    exact ⟨⟨⟨⟨hp, hn, by omega, hown⟩, hafter, fun hm => (hrest hm).imp_right (hhead hn).mpr⟩,
      by omega, by omega⟩, hz⟩

end Alloc

end PondMerge
