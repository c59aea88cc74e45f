import PondMerge.Structure.Pool

/-!
`bins_find` on bins that represent a set of free blocks.

* `scanBins`: the search as one scan over the bins it visits, in their order.
* `binsFind_sound`: what it returns is a free block that is large enough.
* `binsFind_complete`: it finds a block whenever one is large enough, provided size classes
  ascend with the size and the hop cap admits all free blocks.
-/

namespace PondMerge

open ByteMemory LinkedList

variable [PmConfig]

/-! ### One list -/

omit [PmConfig] in
lemma binsFindWalk_null (G : GlobalState) (need left : ℕ) :
    binsFindWalk G need left nullOff = .missed left := by
  cases left <;> rw [binsFindWalk, if_pos rfl]

omit [PmConfig] in
lemma binsFindWalk_zero (G : GlobalState) (need : ℕ) {off : ℕ} (hne : off ≠ nullOff) :
    binsFindWalk G need 0 off = .refused := by
  rw [binsFindWalk, if_neg hne]

omit [PmConfig] in
lemma binsFindWalk_succ (G : GlobalState) (need left : ℕ) {off : ℕ} (hne : off ≠ nullOff) :
    binsFindWalk G need (left + 1) off =
      if !zoneOffReadable G off then .refused
      else if need ≤ blkSizeOf G.mem (ptrOf G.zone off) then .found (ptrOf G.zone off)
      else binsFindWalk G need left (blkNext G.mem (ptrOf G.zone off)) := by
  rw [binsFindWalk, if_neg hne]

omit [PmConfig] in
/-- A block found in a walk is on the list and large enough. -/
lemma binsFindWalk_sound {G : GlobalState} {need left off blk : ℕ} {l : List ℕ}
    (hl : IsChain (fun o => blkNext G.mem (ptrOf G.zone o)) nullOff off l)
    (h : binsFindWalk G need left off = .found blk) :
    ∃ o ∈ l, blk = ptrOf G.zone o ∧ need ≤ blkSizeOf G.mem blk := by
  induction l generalizing left off with
  | nil =>
      obtain rfl : off = nullOff := hl
      rw [binsFindWalk_null] at h
      cases h
  | cons o l ih =>
      obtain ⟨rfl, hne, htl⟩ := hl
      cases left with
      | zero =>
          rw [binsFindWalk_zero G need hne] at h
          cases h
      | succ left =>
          rw [binsFindWalk_succ G need left hne] at h
          split_ifs at h with hr hsz
          · obtain rfl := Search.found.inj h
            exact ⟨off, List.mem_cons_self, rfl, hsz⟩
          · obtain ⟨o, ho, hblk⟩ := ih htl h
            exact ⟨o, List.mem_cons_of_mem _ ho, hblk⟩

omit [PmConfig] in
/-- A walk that is long enough finds a fitting block or passes over the whole list. -/
lemma binsFindWalk_complete {G : GlobalState} {need left off : ℕ} {l : List ℕ}
    (hl : IsChain (fun o => blkNext G.mem (ptrOf G.zone o)) nullOff off l)
    (hread : ∀ o ∈ l, zoneOffReadable G o = true) (hleft : l.length ≤ left) :
    (∃ blk, binsFindWalk G need left off = .found blk)
      ∨ (binsFindWalk G need left off = .missed (left - l.length)
        ∧ ∀ o ∈ l, blkSizeOf G.mem (ptrOf G.zone o) < need) := by
  induction l generalizing left off with
  | nil =>
      obtain rfl : off = nullOff := hl
      exact Or.inr ⟨binsFindWalk_null G need left, fun o ho => absurd ho List.not_mem_nil⟩
  | cons o l ih =>
      obtain ⟨rfl, hne, htl⟩ := hl
      cases left with
      | zero => simp at hleft
      | succ left =>
          rw [binsFindWalk_succ G need left hne, hread off List.mem_cons_self]
          by_cases hsz : need ≤ blkSizeOf G.mem (ptrOf G.zone off)
          · exact Or.inl ⟨_, by rw [if_neg (by simp), if_pos hsz]⟩
          · rw [if_neg (by simp), if_neg hsz]
            rcases ih htl (fun o ho => hread o (List.mem_cons_of_mem _ ho))
              (by simpa using hleft) with hf | ⟨hm, hall⟩
            · exact Or.inl hf
            · refine Or.inr ⟨?_, ?_⟩
              · rw [hm, List.length_cons, Nat.add_sub_add_right]
              · intro o ho
                rcases List.mem_cons.mp ho with rfl | ho
                · exact not_le.mp hsz
                · exact hall o ho

/-! ### The scan -/

/-- The bins of a list in order, as far as the hops reach. -/
def scanBins (G : GlobalState) (b : TlsfBins) (need : ℕ) : List (ℕ × ℕ) → ℕ → Search
  | [], left => .missed left
  | (f, s) :: bs, left =>
    match binsFindWalk G need left (b.head f s) with
    | .missed left => scanBins G b need bs left
    | r => r

omit [PmConfig] in
lemma scanBins_append (G : GlobalState) (b : TlsfBins) (need : ℕ) (bs bs' : List (ℕ × ℕ))
    (left : ℕ) : scanBins G b need (bs ++ bs') left =
      match scanBins G b need bs left with
      | .missed left => scanBins G b need bs' left
      | r => r := by
  induction bs generalizing left with
  | nil => rfl
  | cons fs bs ih =>
      obtain ⟨f, s⟩ := fs
      rw [List.cons_append, scanBins, scanBins]
      cases binsFindWalk G need left (b.head f s) with
      | found blk => rfl
      | refused => rfl
      | missed left => exact ih left

omit [PmConfig] in
lemma binsFindRow_eq (G : GlobalState) (b : TlsfBins) (need f : ℕ) (ss : List ℕ) (left : ℕ) :
    binsFindRow G b need f ss left = scanBins G b need (ss.map fun s => (f, s)) left := by
  induction ss generalizing left with
  | nil => rfl
  | cons s ss ih =>
      rw [binsFindRow, List.map_cons, scanBins]
      cases binsFindWalk G need left (b.head f s) with
      | found blk => rfl
      | refused => rfl
      | missed left => exact ih left

omit [PmConfig] in
lemma binsFindRows_eq (G : GlobalState) (b : TlsfBins) (need : ℕ) (fs : List ℕ) (left : ℕ) :
    binsFindRows G b need fs left = scanBins G b need
      (fs.flatMap fun f => (bitsFrom 16 0 (b.slBitmap f)).map fun s => (f, s)) left := by
  induction fs generalizing left with
  | nil => rfl
  | cons f fs ih =>
      rw [binsFindRows, List.flatMap_cons, scanBins_append, binsFindRow_eq]
      cases scanBins G b need ((bitsFrom 16 0 (b.slBitmap f)).map fun s => (f, s)) left with
      | found blk => rfl
      | refused => rfl
      | missed left => exact ih left

/-- The bins `bins_find` visits for a request, in order. -/
def searchOrder (b : TlsfBins) (need : ℕ) : List (ℕ × ℕ) :=
  ((bitsFrom 16 (slBin need) (b.slBitmap (flBin need))).map fun s => (flBin need, s))
    ++ (bitsFrom 32 (flBin need + 1) b.flBitmap).flatMap fun f =>
      (bitsFrom 16 0 (b.slBitmap f)).map fun s => (f, s)

lemma binsFind_eq (G : GlobalState) (b : TlsfBins) {need : ℕ} (hneed : need < 2 ^ pmFlMax) :
    binsFind G b need =
      match scanBins G b need (searchOrder b need) (G.zoneSize / pmMinBlock + 1) with
      | .found blk => some blk
      | _ => none := by
  rw [binsFind, if_neg (not_le.mpr hneed), searchOrder, scanBins_append]
  simp only [binsFindRow_eq]
  cases scanBins G b need
    ((bitsFrom 16 (slBin need) (b.slBitmap (flBin need))).map fun s => (flBin need, s))
    (G.zoneSize / pmMinBlock + 1) with
  | found blk => rfl
  | refused => rfl
  | missed left =>
      dsimp only
      rewrite [binsFindRows_eq]
      rfl

omit [PmConfig] in
lemma mem_bitsFrom {w lo map i : ℕ} :
    i ∈ bitsFrom w lo map ↔ i < w ∧ lo ≤ i ∧ map.testBit i = true := by
  simp [bitsFrom]

omit [PmConfig] in
lemma bitsFrom_nodup (w lo map : ℕ) : (bitsFrom w lo map).Nodup :=
  List.nodup_range.filter _

/-- Every bin the search visits is in range. -/
lemma searchOrder_range {zone : ℕ} {m : Mem} {b : TlsfBins} {F : ℕ → ℕ → Prop}
    (h : BinsRep zone m b F) {need : ℕ} {fs : ℕ × ℕ} (hfs : fs ∈ searchOrder b need) :
    fs.1 < flCount ∧ fs.2 < pmSlCount := by
  rcases List.mem_append.mp hfs with hm | hm
  · obtain ⟨s, hs, rfl⟩ := List.mem_map.mp hm
    exact ⟨flBin_lt need, ((h.slBit _ (flBin_lt need) s).mp (mem_bitsFrom.mp hs).2.2).1⟩
  · obtain ⟨f, hf, hm⟩ := List.mem_flatMap.mp hm
    obtain ⟨s, hs, rfl⟩ := List.mem_map.mp hm
    have hf' := ((h.flBit f).mp (mem_bitsFrom.mp hf).2.2).1
    exact ⟨hf', ((h.slBit f hf' s).mp (mem_bitsFrom.mp hs).2.2).1⟩

/-- The bin of `k` bytes is no later in the order of the search than that of `n` bytes. -/
def ClassBelow (k n : ℕ) : Prop := flBin k < flBin n ∨ flBin k = flBin n ∧ slBin k ≤ slBin n

instance (k n : ℕ) : Decidable (ClassBelow k n) :=
  inferInstanceAs (Decidable (flBin k < flBin n ∨ flBin k = flBin n ∧ slBin k ≤ slBin n))

/-- The search starts at the request's own bin. -/
lemma searchOrder_class {b : TlsfBins} {need n : ℕ}
    (hn : (flBin n, slBin n) ∈ searchOrder b need) : ClassBelow need n := by
  cases List.mem_append.mp hn with
  | inl hm =>
      obtain ⟨s, hs, heq⟩ := List.mem_map.mp hm
      obtain ⟨hf, rfl⟩ := Prod.mk.inj heq
      exact Or.inr ⟨hf, (mem_bitsFrom.mp hs).2.1⟩
  | inr hm =>
      obtain ⟨f, hf, hm⟩ := List.mem_flatMap.mp hm
      obtain ⟨s, -, heq⟩ := List.mem_map.mp hm
      obtain ⟨rfl, -⟩ := Prod.mk.inj heq
      exact Or.inl (mem_bitsFrom.mp hf).2.1

lemma searchOrder_nodup (b : TlsfBins) (need : ℕ) : (searchOrder b need).Nodup := by
  refine List.nodup_append.mpr ⟨?_, ?_, ?_⟩
  · exact (bitsFrom_nodup _ _ _).map fun s s' h => (Prod.mk.inj h).2
  · refine List.nodup_flatMap.mpr ⟨fun f _ => ?_, ?_⟩
    · exact (bitsFrom_nodup _ _ _).map fun s s' h => (Prod.mk.inj h).2
    · refine (bitsFrom_nodup 32 (flBin need + 1) b.flBitmap).imp fun {f f'} hne fs hfs hfs' => ?_
      obtain ⟨s, -, rfl⟩ := List.mem_map.mp hfs
      obtain ⟨s', -, heq⟩ := List.mem_map.mp hfs'
      exact hne (Prod.mk.inj heq).1.symm
  · rintro fs hfs fs' hfs' rfl
    obtain ⟨s, -, rfl⟩ := List.mem_map.mp hfs
    obtain ⟨f, hf, hm⟩ := List.mem_flatMap.mp hfs'
    obtain ⟨s', -, heq⟩ := List.mem_map.mp hm
    have hlo := (mem_bitsFrom.mp hf).2.1
    have := (Prod.mk.inj heq).1
    omega

/-! ### The search on represented bins -/

section Rep

variable {G : GlobalState} {b : TlsfBins} {F : ℕ → ℕ → Prop}

lemma scanBins_sound (h : BinsRep G.zone G.mem b F) {bs : List (ℕ × ℕ)}
    (hbs : ∀ fs ∈ bs, fs.1 < flCount ∧ fs.2 < pmSlCount) {need left blk : ℕ}
    (hr : scanBins G b need bs left = .found blk) :
    (∃ n, F blk n ∧ (flBin n, slBin n) ∈ bs) ∧ need ≤ blkSizeOf G.mem blk := by
  induction bs generalizing left with
  | nil => cases hr
  | cons fs bs ih =>
      obtain ⟨f, s⟩ := fs
      obtain ⟨hf, hs⟩ := hbs (f, s) List.mem_cons_self
      obtain ⟨l, hl, hmem⟩ := h.list f hf s hs
      rw [scanBins] at hr
      cases hw : binsFindWalk G need left (b.head f s) with
      | found blk' =>
          rw [hw] at hr
          obtain rfl := Search.found.inj hr
          obtain ⟨o, ho, rfl, hsz⟩ := binsFindWalk_sound hl.isChain hw
          obtain ⟨n, hn, rfl, rfl⟩ := (hmem o).mp ho
          exact ⟨⟨n, hn, List.mem_cons_self⟩, hsz⟩
      | refused =>
          rw [hw] at hr
          cases hr
      | missed left' =>
          rw [hw] at hr
          obtain ⟨⟨n, hn, hbin⟩, hsz⟩ := ih (fun fs hfs => hbs fs (List.mem_cons_of_mem _ hfs)) hr
          exact ⟨⟨n, hn, List.mem_cons_of_mem _ hbin⟩, hsz⟩

/-- What `bins_find` returns is a free block that is large enough, in no bin below that of the
request. -/
theorem binsFind_sound (h : BinsRep G.zone G.mem b F) {need blk : ℕ}
    (hr : binsFind G b need = some blk) :
    (∃ n, F blk n ∧ ClassBelow need n) ∧ need ≤ blkSizeOf G.mem blk := by
  by_cases hneed : need < 2 ^ pmFlMax
  · rw [binsFind_eq G b hneed] at hr
    cases hs : scanBins G b need (searchOrder b need) (G.zoneSize / pmMinBlock + 1) with
    | found blk' =>
        rw [hs] at hr
        obtain rfl := Option.some.inj hr
        obtain ⟨⟨n, hn, hbin⟩, hsz⟩ :=
          scanBins_sound h (fun fs hfs => searchOrder_range h hfs) hs
        exact ⟨⟨n, hn, searchOrder_class hbin⟩, hsz⟩
    | refused =>
        rw [hs] at hr
        cases hr
    | missed left =>
        rw [hs] at hr
        cases hr
  · rw [binsFind, if_pos (not_lt.mp hneed)] at hr
    cases hr

/-- A scan whose hops suffice for all blocks of its bins finds one that fits, if there is
one. -/
lemma scanBins_complete (h : BinsRep G.zone G.mem b F) {bs : List (ℕ × ℕ)}
    (hbs : ∀ fs ∈ bs, fs.1 < flCount ∧ fs.2 < pmSlCount) (hnd : bs.Nodup)
    (hread : ∀ o n, F (ptrOf G.zone o) n → zoneOffReadable G o = true)
    (hsep : Separated G.zone F) (hsize : ∀ x n, F x n → blkSizeOf G.mem x = n)
    {need left : ℕ}
    (hleft : ∀ V : List ℕ, V.Nodup →
      (∀ o ∈ V, ∃ n, F (ptrOf G.zone o) n ∧ (flBin n, slBin n) ∈ bs) → V.length ≤ left)
    {x n : ℕ} (hx : F x n) (hfit : need ≤ n) (hmem : (flBin n, slBin n) ∈ bs) :
    ∃ blk, scanBins G b need bs left = .found blk := by
  induction bs generalizing left with
  | nil => exact absurd hmem List.not_mem_nil
  | cons fs bs ih =>
      obtain ⟨f, s⟩ := fs
      obtain ⟨hf, hs⟩ := hbs (f, s) List.mem_cons_self
      obtain ⟨hnew, hnd'⟩ := List.nodup_cons.mp hnd
      obtain ⟨l, hl, hlmem⟩ := h.list f hf s hs
      have hllen : l.length ≤ left := hleft l hl.nodup fun o ho => by
        obtain ⟨k, hk, rfl, rfl⟩ := (hlmem o).mp ho
        exact ⟨k, hk, List.mem_cons_self⟩
      have hwalk := @binsFindWalk_complete _ need _ _ _ hl.isChain
        (fun o ho => by
          obtain ⟨k, hk, -, -⟩ := (hlmem o).mp ho
          exact hread o k hk) hllen
      rw [scanBins]
      rcases hwalk with ⟨blk, hblk⟩ | ⟨hmiss, hall⟩
      · exact ⟨blk, by rw [hblk]⟩
      · rw [hmiss]
        refine ih (fun fs hfs => hbs fs (List.mem_cons_of_mem _ hfs)) hnd' (fun V hV hVF => ?_) ?_
        · -- the blocks of the later bins come on top of those of this one
          have hlen := hleft (l ++ V) (List.nodup_append.mpr ⟨hl.nodup, hV, ?_⟩) ?_
          · rw [List.length_append] at hlen
            omega
          · rintro o ho o' ho' rfl
            obtain ⟨k, hk, rfl, rfl⟩ := (hlmem o).mp ho
            obtain ⟨k', hk', hbin⟩ := hVF o ho'
            rw [hsep.size_unique hk' hk] at hbin
            exact hnew hbin
          · intro o ho
            rcases List.mem_append.mp ho with ho | ho
            · obtain ⟨k, hk, rfl, rfl⟩ := (hlmem o).mp ho
              exact ⟨k, hk, List.mem_cons_self⟩
            · obtain ⟨k, hk, hbin⟩ := hVF o ho
              exact ⟨k, hk, List.mem_cons_of_mem _ hbin⟩
        · rcases List.mem_cons.mp hmem with heq | hm
          · -- a fitting block of this bin would have been found
            have hfs := Prod.mk.inj heq
            have hol := BinList.mem ⟨hl, hlmem⟩ hsep hx hfs.1 hfs.2
            have hlt := hall _ hol
            rw [hsep.ptrOf_offOf hx, hsize x n hx] at hlt
            omega
          · exact hm

/-- `bins_find` finds a block whenever a free block is large enough: classes ascend with the
size, the blocks are readable, and the hop cap admits them all. -/
theorem binsFind_complete (h : BinsRep G.zone G.mem b F)
    (hread : ∀ o n, F (ptrOf G.zone o) n → zoneOffReadable G o = true)
    (hsep : Separated G.zone F) (hsize : ∀ x n, F x n → blkSizeOf G.mem x = n)
    (hcap : ∀ V : List ℕ, V.Nodup → (∀ o ∈ V, ∃ n, F (ptrOf G.zone o) n) →
      V.length ≤ G.zoneSize / pmMinBlock + 1)
    {need : ℕ} (hneed : need < 2 ^ pmFlMax) {x n : ℕ} (hx : F x n) (hfit : need ≤ n)
    (hclass : ClassBelow need n) : ∃ blk, binsFind G b need = some blk := by
  have h16 := PmConfig.slCount_le
  have h31 := PmConfig.flMax_le
  obtain ⟨l, hl⟩ := h.list _ (flBin_lt n) _ (slBin_lt n)
  have hhead : b.head (flBin n) (slBin n) ≠ nullOff := by
    intro hnull
    have := hl.mem hsep hx rfl rfl
    rw [hl.head_null.mp hnull] at this
    exact List.not_mem_nil this
  have hbit : (b.slBitmap (flBin n)).testBit (slBin n) = true :=
    (h.slBit _ (flBin_lt n) _).mpr ⟨slBin_lt n, hhead⟩
  have hrow : b.flBitmap.testBit (flBin n) = true :=
    (h.flBit _).mpr ⟨flBin_lt n, (ne_zero_iff_testBit _).mpr ⟨_, hbit⟩⟩
  have hmem : (flBin n, slBin n) ∈ searchOrder b need := by
    have hsn := slBin_lt n
    have hfn := flBin_lt n
    have hfc : flCount ≤ 27 := by rw [flCount]; omega
    rcases hclass with hlt | ⟨heq, hle⟩
    · refine List.mem_append_right _ (List.mem_flatMap.mpr ⟨flBin n, ?_, ?_⟩)
      · exact mem_bitsFrom.mpr ⟨by omega, hlt, hrow⟩
      · exact List.mem_map.mpr ⟨slBin n, mem_bitsFrom.mpr ⟨by omega, Nat.zero_le _, hbit⟩, rfl⟩
    · refine List.mem_append_left _ (List.mem_map.mpr ⟨slBin n, ?_, by rw [heq]⟩)
      rw [heq]
      exact mem_bitsFrom.mpr ⟨by omega, hle, hbit⟩
  obtain ⟨blk, hblk⟩ := scanBins_complete h (fun fs hfs => searchOrder_range h hfs)
    (searchOrder_nodup b need) hread hsep hsize (fun V hV hVF => hcap V hV fun o ho => by
      obtain ⟨k, hk, -⟩ := hVF o ho
      exact ⟨k, hk⟩) hx hfit hmem
  exact ⟨blk, by rw [binsFind_eq G b hneed, hblk]⟩

end Rep

end PondMerge
