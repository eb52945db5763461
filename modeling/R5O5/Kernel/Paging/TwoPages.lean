import R5O5.Kernel.Paging.Deallocate
import R5O5.Kernel.Paging.Order

/-!
# Tables of two pages

The smallest page table of a process maps the two pages of its stack, next to each other at the
start of the address space. Its directories are known frame by frame, so that what its allocation
takes from the free stack and what its end gives back can be written out.

## Main definitions

- `MapsTwoPages`: a table with these directories and pages.

## Main results

- `allocateTwoPages`: the frames that an empty table takes for the two pages;
- `MapsTwoPages.deallocatePageTable`: the frames come back in another order, the pages as they are.
-/

namespace R5O5

/-- The first slot of a directory. -/
def slot0 : Fin numPte := ⟨0, by decide⟩

/-- The second slot of a directory. -/
def slot1 : Fin numPte := ⟨1, by decide⟩

/-- The table `t` maps pages 0 and 1 to the frames `g` and `h`, and no other page. -/
structure MapsTwoPages (mem : Mem) (t x y g h : BitVec 64) : Prop where
  root : ∀ i, child mem t i = if i = slot0 then some x else none
  level1 : ∀ i, child mem x i = if i = slot0 then some y else none
  level0 : ∀ i, child mem y i = if i = slot1 then some h else if i = slot0 then some g else none

section Frames

variable {K : KernelImage} {live : Set (BitVec 64)} {own : Places} {leaked : ℕ} {s s' : Paging}
  {mem : Mem} {f g h t u v x y : BitVec 64} {rest : List (BitVec 64)}

/-- Pages 0 and 1 of an empty table. -/
theorem allocateTwoPages (ha : s.alloc.WellFormed)
    (hfree : s.alloc.freeList = u :: x :: y :: g :: v :: h :: rest)
    (hlt : ∀ f ∈ [t, x, y, g, h], f.toNat < 2 ^ 44) (hnodup : [t, x, y].Nodup)
    (hempty : ∀ f ∈ [t, x, y], EmptyDirectory s.mem f) (perm : Permissions) :
    ∃ s₁ s', allocateVirtualPage (t <<< 12) 0 perm s = .ok s₁ ∧
      allocateVirtualPage (t <<< 12) (0 + 1) perm s₁ = .ok s' ∧ s'.alloc.freeList = rest ∧
      s'.alloc.WellFormed ∧ MapsTwoPages s'.mem t x y g h ∧
      ∀ a : BitVec 64, a >>> 12 ∉ [t, x, y] → s'.mem a = s.mem a := by
  have hzero : slotL2 ((0 : BitVec 64) <<< 12) = slot0 ∧ slotL1 ((0 : BitVec 64) <<< 12) = slot0 ∧
    slotL0 ((0 : BitVec 64) <<< 12) = slot0 := by decide
  have hone : slotL2 ((0 + 1 : BitVec 64) <<< 12) = slot0 ∧
    slotL1 ((0 + 1 : BitVec 64) <<< 12) = slot0 ∧
    slotL0 ((0 + 1 : BitVec 64) <<< 12) = slot1 := by decide
  obtain ⟨s₁, mem₁, mem₂, hs₁, hfree₁, hwf₁, h₁, h₂, h₃⟩ :=
    allocateVirtualPage_of_root_none 0 ha hfree
      (fun f hf => hlt f (List.mem_append_left [h] hf)) hnodup hempty perm
  simp only [List.forall_mem_cons] at hlt
  obtain ⟨ht, hx, hy, hg, hh, -⟩ := hlt
  rw [hzero.1] at h₁
  rw [hzero.2.1] at h₂
  rw [hzero.2.2] at h₃
  simp only [List.forall_mem_cons] at hempty
  obtain ⟨hroot, hlevel1, hlevel0, -⟩ := hempty
  simp only [List.nodup_cons, List.mem_cons, not_or] at hnodup
  obtain ⟨⟨htx, hty, -⟩, ⟨hxy, -⟩, -⟩ := hnodup
  -- the directories after the first page
  have hchildt : ∀ i, child s₁.mem t i = if i = slot0 then some x else none := fun i => by
    rw [h₃.child_of_ne ht hty, h₂.child_of_ne ht htx, h₁.child_eq ht, hroot]
    simp only [true_and]
  have hchildx : ∀ i, child s₁.mem x i = if i = slot0 then some y else none := fun i => by
    rw [h₃.child_of_ne hx hxy, h₂.child_eq hx, h₁.child_of_ne hx (Ne.symm htx), hlevel1]
    simp only [true_and]
  have hchildy : ∀ i, child s₁.mem y i = if i = slot0 then some g else none := fun i => by
    rw [h₃.child_eq hy, h₂.child_of_ne hy (Ne.symm hxy), h₁.child_of_ne hy (Ne.symm hty), hlevel0]
    simp only [true_and]
  obtain ⟨s', hs', hfree', hwf', h₄⟩ := allocateVirtualPage_of_directories (0 + 1) hwf₁ hfree₁
    hy hh (by rw [hone.1, hchildt, if_pos rfl]) (by rw [hone.2.1, hchildx, if_pos rfl])
    (by rw [hone.2.2, hchildy, if_neg (by decide)]) perm
  rw [hone.2.2] at h₄
  refine ⟨s₁, s', hs₁, hs', hfree', hwf', ?_, ?_⟩
  · constructor
    case root => exact fun i => (h₄.child_of_ne ht hty i).trans (hchildt i)
    case level1 => exact fun i => (h₄.child_of_ne hx hxy i).trans (hchildx i)
    case level0 =>
      intro i
      rw [h₄.child_eq hy, hchildy]
      simp only [true_and]
  · intro a ha
    simp only [List.mem_cons, List.not_mem_nil, or_false, not_or] at ha
    rw [h₄.mem_eq ha.2.2, h₃.mem_eq ha.2.2, h₂.mem_eq ha.2.1, h₁.mem_eq ha.1]

/-- Only the first two slots are in use. -/
theorem flatMap_finRange_add_two {n : ℕ} {α : Type} {next : Fin (n + 2) → List α}
    (h : ∀ i : Fin (n + 2), 2 ≤ i.val → next i = []) :
    (List.finRange (n + 2)).flatMap next = next 0 ++ next 1 := by
  have hrest : (((List.finRange n).map Fin.succ).map Fin.succ).flatMap next = [] := by
    refine List.flatMap_eq_nil_iff.mpr fun i hi => h i ?_
    rw [List.map_map, List.mem_map] at hi
    obtain ⟨j, -, rfl⟩ := hi
    simp only [Function.comp_apply, Fin.val_succ]
    omega
  rw [List.finRange_succ, List.finRange_succ, List.map_cons, List.flatMap_cons, List.flatMap_cons,
    hrest, List.append_nil, Fin.succ_zero_eq_one]

/-- Below a directory whose first two slots only are in use. -/
theorem belowNodes_of_two {levels : ℕ}
    (hnone : ∀ i, i ≠ slot0 → i ≠ slot1 → child mem f i = none) :
    belowNodes (levels + 1) mem f =
      slotNodes levels mem f slot0 ++ slotNodes levels mem f slot1 := by
  rw [belowNodes_succ]
  refine flatMap_finRange_add_two (n := 510) fun i hi => slotNodes_of_none (hnone i ?_ ?_)
  · rintro rfl
    exact absurd hi (by decide)
  · rintro rfl
    exact absurd hi (by decide)

/-- The nodes of the page table, in the order in which they are freed. -/
theorem MapsTwoPages.tableNodes_eq (hmap : MapsTwoPages mem t x y g h) :
    tableNodes mem t = [g, h, y, x, t] := by
  have hne : slot1 ≠ slot0 := by decide
  have hone : ∀ {levels f f'}, (∀ i, child mem f i = if i = slot0 then some f' else none) →
      belowNodes (levels + 1) mem f = belowNodes levels mem f' ++ [f'] := by
    intro levels f f' hchild
    rw [belowNodes_of_two fun i hi _ => (hchild i).trans (if_neg hi),
      slotNodes_of_some ((hchild _).trans (if_pos rfl)),
      slotNodes_of_none ((hchild _).trans (if_neg hne)), List.append_nil]
  have hlevel0 : belowNodes 1 mem y = [g, h] := by
    rw [belowNodes_of_two fun i hi hi' => by rw [hmap.level0, if_neg hi', if_neg hi],
      slotNodes_of_some ((hmap.level0 _).trans ((if_neg hne.symm).trans (if_pos rfl))),
      slotNodes_of_some ((hmap.level0 _).trans (if_pos rfl))]
    rfl
  rw [tableNodes, hone hmap.root, hone hmap.level1, hlevel0]
  rfl

theorem MapsTwoPages.walk (hmap : MapsTwoPages mem t x y g h) :
    Forest.walk (child mem) t (path 5) = some g := by
  have hpath : path 5 = [slot0, slot0, slot0] := by decide
  rw [hpath]
  simp [Forest.walk, hmap.root, hmap.level1, hmap.level0, show slot0 ≠ slot1 by decide]

/-- The map depends on the directories only. -/
theorem MapsTwoPages.congr {mem' : Mem} (hmap : MapsTwoPages mem t x y g h)
    (hlt : ∀ f ∈ [t, x, y], f.toNat < 2 ^ 44)
    (hkeep : ∀ a : BitVec 64, a >>> 12 ∈ [t, x, y] → mem' a = mem a) :
    MapsTwoPages mem' t x y g h := by
  have hchild : ∀ f ∈ [t, x, y], ∀ i, child mem' f i = child mem f i := by
    intro f hf i
    refine child_congr (hlt f hf) ?_
    rintro a rfl
    exact hkeep a hf
  constructor
  case root => exact fun i => (hchild t (by simp) i).trans (hmap.root i)
  case level1 => exact fun i => (hchild x (by simp) i).trans (hmap.level1 i)
  case level0 => exact fun i => (hchild y (by simp) i).trans (hmap.level0 i)

theorem MapsTwoPages.walk_second (hmap : MapsTwoPages mem t x y g h) :
    Forest.walk (child mem) t (path 4104) = some h := by
  have hpath : path 4104 = [slot0, slot0, slot1] := by decide
  rw [hpath]
  simp [Forest.walk, hmap.root, hmap.level1, hmap.level0]

/-- The directories of the table are `t`, `x` and `y`. -/
theorem MapsTwoPages.mem_of_walk (hmap : MapsTwoPages mem t x y g h) {p : List (Fin numPte)}
    (hp : p.length < 3) (hwalk : Forest.walk (child mem) t p = some f) : f ∈ [t, x, y] := by
  match p, hp with
  | [], _ =>
    cases hwalk
    simp
  | [i], _ =>
    simp only [Forest.walk, hmap.root] at hwalk
    split at hwalk <;> cases hwalk
    simp
  | [i, j], _ =>
    simp only [Forest.walk, hmap.root] at hwalk
    split at hwalk
    · simp only [Option.bind_some, hmap.level1] at hwalk
      split at hwalk <;> cases hwalk
      simp
    · cases hwalk

/-- An entry whose first byte is even is not valid. -/
theorem child_eq_none_of_even {i : Fin numPte} (h : (mem (slotAddr f i)).toNat % 2 = 0) :
    child mem f i = none := by
  have haddr : slotAddr f i + BitVec.ofNat 64 0 = slotAddr f i := BitVec.add_zero _
  have hbyte : Mem.byteOf (entry mem f i) 0 = mem (slotAddr f i) :=
    (Mem.byteOf_load64 mem (slotAddr f i) (by decide)).trans (congrArg mem haddr)
  have hlow : (entry mem f i).toNat % 2 ^ 8 % 2 = 0 := by
    rw [Mem.byteOf] at hbyte
    have hnat := congrArg BitVec.toNat hbyte
    rw [BitVec.extractLsb'_toNat, Nat.mul_zero, Nat.shiftRight_zero] at hnat
    rwa [hnat]
  have hflags : getFlags (entry mem f i) &&& pteV = 0 := by
    apply BitVec.eq_of_toNat_eq
    rw [BitVec.toNat_and, show pteV.toNat = 2 ^ 1 - 1 from rfl, Nat.and_two_pow_sub_one_eq_mod,
      toNat_getFlags, show (0 : BitVec 64).toNat = 0 from rfl]
    omega
  rw [child, isValid, ← entry, hflags]
  rfl

/-- A frame of even bytes holds no entries. -/
theorem emptyDirectory_of_even (hf : f.toNat < 2 ^ 44)
    (heven : ∀ a : BitVec 64, a >>> 12 = f → (mem a).toNat % 2 = 0) : EmptyDirectory mem f :=
  fun i => child_eq_none_of_even (heven _ (page_of_slot (i := i) hf (by simp)))

/-- The frames come back with the second page on top of the first one, and the pages as they are. -/
theorem MapsTwoPages.deallocatePageTable (hmap : MapsTwoPages s.mem t x y g h)
    (hinv : s.Inv K live own leaked) (ht : t ∈ live)
    (hempty : ∀ f ∈ managed K, f ∉ [t, x, y] → EmptyDirectory s.mem f) :
    ∃ s' own', R5O5.deallocatePageTable (t <<< 12) s = .ok s' ∧ s'.Inv K (live \ {t}) own' leaked ∧
      s'.alloc.freeList = t :: x :: y :: h :: g :: s.alloc.freeList ∧
      (∀ f ∈ s'.alloc.freeList, EmptyDirectory s'.mem f) ∧
      ∀ a : BitVec 64, a >>> 12 ∉ [t, x, y] → s'.mem a = s.mem a := by
  obtain ⟨s', own', hok, hinv', hrem⟩ := hinv.deallocatePageTable ht
  have htown := hinv.owned.own_root ht
  have hxown := hinv.owned.own_child htown (by simp) ((hmap.root _).trans (if_pos rfl))
  have hyown := hinv.owned.own_child hxown (by simp) ((hmap.level1 _).trans (if_pos rfl))
  -- only the directories hold entries
  have hclean : Clean K own s.mem := by
    intro f hf hdir
    refine hempty f hf ?_
    simp only [List.mem_cons, List.not_mem_nil, or_false]
    rintro (rfl | rfl | rfl)
    · exact absurd (hdir _ htown) (by simp)
    · exact absurd (hdir _ hxown) (by simp)
    · exact absurd (hdir _ hyown) (by simp)
  refine ⟨s', own', hok, hinv', ?_, ?_, ?_⟩
  · rw [hinv.deallocatePageTable_freeList ht hok, hmap.tableNodes_eq]
    rfl
  · intro f hf
    refine hrem.clean hclean f (hinv'.ledger.managed_of_free hf) fun b hb => ?_
    rw [hinv'.ledger.own_of_free hf] at hb
    cases hb
  · intro a ha
    refine hrem.mem_eq fun q hq _ => ?_
    by_contra hlt
    have hwalk := (hinv.owned.walk_eq_some_iff ht (hinv.owned.length_le hq)).mpr hq
    exact ha (hmap.mem_of_walk (by omega) hwalk)

end Frames

end R5O5
