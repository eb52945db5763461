import R5O5.Kernel.Paging.Deallocate

/-!
# The order of the frames

`deallocatePageTable` pushes the frames of a page table on the free stack in postorder: what is
below a slot before the frame in the slot, slot by slot. So the frames come back in an order that
depends on the directories only. They are taken from the top again, a lost frame before the
directories and the page.

## Main definitions

- `belowNodes`, `tableNodes`: the nodes of a tree in postorder;
- `Filled`: one slot of a directory has been filled.

## Main results

- `Paging.Inv.deallocatePageTable_freeList`: the free stack after a table is deallocated;
- `allocateVirtualPage_of_root_none`, `allocateVirtualPage_of_directories`: the frames a page takes.
-/

namespace R5O5

/-- The nodes below a frame with `levels` levels under it, in postorder. -/
def belowNodes : ℕ → Mem → BitVec 64 → List (BitVec 64)
  | 0, _, _ => []
  | levels + 1, mem, f => (List.finRange numPte).flatMap fun i =>
    (child mem f i).elim [] fun g => belowNodes levels mem g ++ [g]

/-- The nodes at and below a slot of a frame. -/
def slotNodes (levels : ℕ) (mem : Mem) (f : BitVec 64) (i : Fin numPte) : List (BitVec 64) :=
  (child mem f i).elim [] fun g => belowNodes levels mem g ++ [g]

/-- The nodes of a page table. -/
def tableNodes (mem : Mem) (t : BitVec 64) : List (BitVec 64) := belowNodes 3 mem t ++ [t]

section Nodes

variable {K : KernelImage} {live : Set (BitVec 64)} {own : Places} {leaked levels : ℕ}
  {s s' : Paging} {f g t : BitVec 64} {p : List (Fin numPte)} {i : Fin numPte} {mem mem' : Mem}

/-- The nodes below a frame, slot by slot. -/
theorem belowNodes_succ :
    belowNodes (levels + 1) mem f = (List.finRange numPte).flatMap (slotNodes levels mem f) := rfl

/-- There are no nodes below an empty slot. -/
theorem slotNodes_of_none (h : child mem f i = none) : slotNodes levels mem f i = [] := by
  rw [slotNodes, h]
  rfl

/-- The node at a slot comes behind those below it. -/
theorem slotNodes_of_some (h : child mem f i = some g) :
    slotNodes levels mem f i = belowNodes levels mem g ++ [g] := by
  rw [slotNodes, h]
  rfl

/-- The order depends on the directories at and below the frame only. -/
theorem belowNodes_congr (h : Forest.Owned (child mem) 3 live own) (hf : own f = some (t, p))
    (hlevels : p.length + levels ≤ 3)
    (hkeep : ∀ {f' q} i, own f' = some (t, q) → p <+: q → q.length < 3 →
      child mem' f' i = child mem f' i) :
    belowNodes levels mem' f = belowNodes levels mem f := by
  -- level by level: a node and the nodes below its slots
  induction levels generalizing f p with
  | zero => rfl
  | succ levels ih =>
    rw [belowNodes_succ, belowNodes_succ]
    refine congrArg (List.finRange numPte).flatMap (funext fun i => ?_)
    rw [slotNodes, slotNodes, hkeep i hf List.prefix_rfl (by omega)]
    cases hchild : child mem f i with
    | none => rfl
    | some g =>
      have hg := h.own_child hf (by omega) hchild
      rw [Option.elim_some, Option.elim_some, ih hg]
      · rw [List.length_append, List.length_singleton]
        omega
      · intro f' q j hf' hq hlt
        exact hkeep j hf' ((List.prefix_append ..).trans hq) hlt

/-- A freed page is on top of the free stack. -/
theorem freePage_eq_ok {a a' : PageAllocator} (ha : a.WellFormed) (h : freePage g a = .ok a') :
    a'.freeList = g :: a.freeList := by
  have hle : a.numFreePages ≤ numPages := by
    rw [PageAllocator.WellFormed] at ha
    omega
  rcases Nat.lt_or_eq_of_le hle with hlt | heq
  · obtain ⟨b, hb, hfree, -⟩ := freePage_of_lt g ha hlt
    rw [h] at hb
    cases hb
    exact hfree
  · rw [freePage, if_pos heq] at h
    cases h

end Nodes

/-! ## The loops -/

/-- `inner` pushes the nodes below a frame, which has `levels` levels under it. -/
structure FreesInOrder (inner : BitVec 64 → Paging → Except Stop Paging) (levels : ℕ) : Prop where
  freeList : ∀ {K live own leaked s s' f t p}, Paging.Inv K live own leaked s →
    own f = some (t, p) → p.length + levels = 3 → inner (f <<< 12) s = .ok s' →
    s'.alloc.freeList = (belowNodes levels s.mem f).reverse ++ s.alloc.freeList

/-- Where a loop over the directory `f` at `p` stands after the rounds `done`: what was below their
slots has been pushed, and the other slots are as they were, with all below them. -/
structure RoundsOrdered (own : Places) (levels : ℕ) (s : Paging) (f t : BitVec 64)
    (p done : List (Fin numPte)) (s' : Paging) : Prop where
  freeList : s'.alloc.freeList =
    (done.flatMap (slotNodes levels s.mem f)).reverse ++ s.alloc.freeList
  entries : ∀ j ∉ done, entry s'.mem f j = entry s.mem f j
  below : ∀ {f' q j}, own f' = some (t, q) → p ++ [j] <+: q → j ∉ done →
    ∀ x : BitVec 64, x >>> 12 = f' → s'.mem x = s.mem x

section Loops

variable {K : KernelImage} {live : Set (BitVec 64)} {own : Places} {leaked levels : ℕ}
  {s : Paging} {f t : BitVec 64} {p : List (Fin numPte)} {i : Fin numPte}
  {inner : BitVec 64 → Paging → Except Stop Paging}

theorem slot_eq_of_append {j : Fin numPte} {q : List (Fin numPte)} (hi : p ++ [i] <+: q)
    (hj : p ++ [j] <+: q) : i = j := by
  have heq : p ++ [i] = p ++ [j] :=
    (List.prefix_of_prefix_length_le hi hj (by simp)).eq_of_length (by simp)
  simpa using heq

/-- One round pushes the nodes of its slot. -/
theorem RoundsOrdered.freeEntry {s₁ : Paging} {done : List (Fin numPte)}
    (hinner : FreesBelow inner (p.length + 1)) (hordered : FreesInOrder inner levels)
    (h : s.Inv K live own leaked) (hf : own f = some (t, p)) (hlevels : p.length + 1 + levels = 3)
    (hi : i ∉ done) (hdone : RoundsDone K live own leaked s t p done s₁)
    (hrounds : RoundsOrdered own levels s f t p done s₁) {s' : Paging}
    (hok : R5O5.freeEntry inner (f <<< 12) s₁ i = .ok s') :
    RoundsOrdered own levels s f t p (done ++ [i]) s' := by
  obtain ⟨own₁, h₁, hrem₁⟩ := hdone
  have hflt := h.toNat_lt hf
  have hf₁ : own₁ f = some (t, p) := by
    refine hrem₁.own_iff.mpr ⟨hf, ?_⟩
    rintro ⟨-, j, -, hj⟩
    exact Forest.not_append_singleton_prefix _ _ hj
  have hsame : child s₁.mem f i = child s.mem f i := child_eq_of_entry_eq (hrounds.entries i hi)
  rw [R5O5.freeEntry, ← slotAddr, isValid_eq] at hok
  cases hchild : child s₁.mem f i with
  | none =>
    rw [hchild] at hok
    cases hok
    constructor
    case freeList =>
      rw [List.flatMap_append, List.flatMap_singleton, slotNodes_of_none (hsame ▸ hchild),
        List.append_nil, hrounds.freeList]
    case entries => exact fun j hj => hrounds.entries j fun hmem => hj (List.mem_append_left _ hmem)
    case below =>
      exact fun hf' hq hj => hrounds.below hf' hq fun hmem => hj (List.mem_append_left _ hmem)
  | some g =>
    have hg₁ := h₁.owned.own_child hf₁ (by omega) hchild
    have hg := (hrem₁.own_iff.mp hg₁).1
    obtain ⟨s₂, own₂, hs₂, h₂, hrem₂⟩ := hinner.frees h₁ hg₁ (by simp)
    rw [hchild, Option.isSome_some, if_pos rfl, getPageNum_of_child hchild, hs₂, Except.ok_bind]
      at hok
    -- the inner loop leaves this directory alone
    have hmem : ∀ x : BitVec 64, x >>> 12 = f → s₂.mem x = s₁.mem x := by
      rintro x rfl
      refine hrem₂.mem_eq fun q hq hpq => ?_
      rw [hf₁] at hq
      cases hq
      exact absurd hpq (Forest.not_append_singleton_prefix _ _)
    have hchild₂ : child s₂.mem f i = some g := by rw [child_congr hflt hmem, hchild]
    rw [getPageNum_of_child hchild₂] at hok
    obtain ⟨a, ha, hend⟩ := Except.bind_eq_ok.mp hok
    cases hend
    have hbelow : belowNodes levels s₁.mem g = belowNodes levels s.mem g := by
      refine belowNodes_congr h.owned hg (by simp; omega) ?_
      intro f' q j hf' hq _
      exact child_congr (h.toNat_lt hf') (hrounds.below hf' hq hi)
    constructor
    case freeList =>
      dsimp only
      rw [freePage_eq_ok h₂.ledger.wellFormed ha, hordered.freeList h₁ hg₁ (by simp; omega) hs₂,
        hrounds.freeList, hbelow, List.flatMap_append, List.flatMap_singleton,
        slotNodes_of_some (hsame ▸ hchild)]
      simp
    case entries =>
      intro j hj
      rw [List.mem_append, List.mem_singleton, not_or] at hj
      dsimp only
      rw [entry_store64_of_ne hflt hflt (by simp [hj.2]), entry_congr hflt hmem]
      exact hrounds.entries j hj.1
    case below =>
      rintro f' q j hf' hq hj x rfl
      rw [List.mem_append, List.mem_singleton, not_or] at hj
      have hne : x >>> 12 ≠ f := by
        intro heq
        rw [heq, hf] at hf'
        cases hf'
        exact Forest.not_append_singleton_prefix _ _ hq
      dsimp only
      change s₂.mem.store64 (slotAddr f i) 0 x = _
      rw [store64_slotAddr_of_page_ne hflt hne, hrem₂.mem_eq]
      · exact hrounds.below hf' hq hj.1 x rfl
      · -- the frame is below another slot
        intro q' hq' hpre
        have hplace := (hrem₁.own_iff.mp hq').1
        rw [hf'] at hplace
        cases hplace
        exact absurd (slot_eq_of_append hq hpre) hj.2

/-- A loop pushes all that is below its directory. -/
theorem FreesInOrder.freeEntries (hinner : FreesBelow inner (3 - levels))
    (hordered : FreesInOrder inner levels) :
    FreesInOrder (R5O5.freeEntries inner) (levels + 1) := by
  constructor
  intro K live own leaked s s' f t p h hf hp hok
  have hbelow : FreesBelow inner (p.length + 1) := by
    rwa [show p.length + 1 = 3 - levels by omega]
  -- after some slots the frames below them are on the stack, the last ones on top
  have hloop : ∀ slots : List (Fin numPte), slots.Nodup →
      slots.foldlM (R5O5.freeEntry inner (f <<< 12)) s = .ok s' →
      RoundsDone K live own leaked s t p slots s' ∧ RoundsOrdered own levels s f t p slots s' := by
    intro slots hnodup hrun
    refine Except.foldlM_invariant (P := fun done s' => RoundsDone K live own leaked s t p done s' ∧
      RoundsOrdered own levels s f t p done s') ?_ ?_ hrun
    · refine ⟨⟨own, h, Removal.rfl_of_not (by simp)⟩, ?_⟩
      refine ⟨?_, fun _ _ => rfl, fun _ _ _ _ _ => rfl⟩
      rw [List.flatMap_nil, List.reverse_nil, List.nil_append]
    · rintro done i rest s₁ s₂ rfl ⟨hdone, hrounds⟩ hround
      have hi : i ∉ done := fun hmem =>
        (List.nodup_append.mp hnodup).2.2 i hmem i List.mem_cons_self rfl
      obtain ⟨s₂', hround', hdone'⟩ := hbelow.freeEntry (i := i) (by omega) hf (h.toNat_lt hf) hdone
      rw [hround] at hround'
      cases hround'
      exact ⟨hdone', hrounds.freeEntry hbelow hordered h hf (by omega) hi hdone hround⟩
  rw [(hloop _ (List.nodup_finRange numPte) hok).2.freeList, belowNodes_succ]

/-- A page is freed without looking at it. -/
theorem freesInOrder_leaf : FreesInOrder (fun _ s => return s) 0 := by
  constructor
  intro K live own leaked s s' f t p _ _ _ hok
  cases hok
  rfl

/-- A page table is pushed on the free stack in postorder. -/
theorem Paging.Inv.deallocatePageTable_freeList {s' : Paging} (h : Inv K live own leaked s)
    (ht : t ∈ live) (hok : R5O5.deallocatePageTable (t <<< 12) s = .ok s') :
    s'.alloc.freeList = (tableNodes s.mem t).reverse ++ s.alloc.freeList := by
  have hlevel1 : FreesBelow freeLevel0 2 := freesBelow_leaf.freeEntries (by decide)
  have hlevel2 : FreesBelow freeLevel1 1 := hlevel1.freeEntries (by decide)
  have horder : FreesInOrder (freeEntries freeLevel1) 3 :=
    FreesInOrder.freeEntries hlevel2 (FreesInOrder.freeEntries hlevel1
      (FreesInOrder.freeEntries freesBelow_leaf freesInOrder_leaf))
  have htown := h.owned.own_root ht
  obtain ⟨s₁, own₁, hs₁, h₁, -⟩ := (hlevel2.freeEntries (by decide)).frees h htown rfl
  rw [R5O5.deallocatePageTable, hs₁, Except.ok_bind, page_shiftLeft (h.toNat_lt htown)] at hok
  obtain ⟨a, ha, hend⟩ := Except.bind_eq_ok.mp hok
  cases hend
  dsimp only
  rw [freePage_eq_ok h₁.ledger.wellFormed ha, horder.freeList h htown rfl hs₁, tableNodes,
    List.reverse_append, List.reverse_singleton, List.singleton_append, List.cons_append]

end Loops

/-! ## The frames taken -/

/-- Slot `i` of the frame `f` has been made to point to `g`. -/
structure Filled (f : BitVec 64) (i : Fin numPte) (g : BitVec 64) (mem mem' : Mem) : Prop where
  child_eq : ∀ {f' : BitVec 64} {j}, f'.toNat < 2 ^ 44 →
    child mem' f' j = if f' = f ∧ j = i then some g else child mem f' j
  mem_eq : ∀ {x : BitVec 64}, x >>> 12 ≠ f → mem' x = mem x

section FreeList

variable {s : Paging} {mem mem' : Mem} {f g t u x y vpn : BitVec 64} {i : Fin numPte}
  {rest : List (BitVec 64)}

/-- An invalid entry gets the top of the free stack. -/
theorem fillEntry_of_none {perm : Permissions} (h : child s.mem f i = none) :
    fillEntry (slotAddr f i) perm s = allocatePage s.alloc >>= fun r => .ok
      { alloc := r.2
        mem := s.mem.store64 (slotAddr f i) (r.1 <<< 10 ||| (pteV ||| perm.flags)) } := by
  rw [fillEntry, isValid_eq, h, if_neg (by simp)]
  cases allocatePage s.alloc with
  | error e => rfl
  | ok r =>
    simp only [setFlags_eq, Mem.load64_store64_self, Mem.store64_store64_self, BitVec.or_assoc,
      Except.ok_bind]
    rfl

theorem Filled.child_self (h : Filled f i g mem mem') (hf : f.toNat < 2 ^ 44) :
    child mem' f i = some g := by
  rw [h.child_eq hf, if_pos ⟨rfl, rfl⟩]

theorem Filled.child_of_ne (h : Filled f i g mem mem') {f' : BitVec 64} (hf' : f'.toNat < 2 ^ 44)
    (hne : f' ≠ f) (j : Fin numPte) : child mem' f' j = child mem f' j := by
  rw [h.child_eq hf', if_neg fun heq => hne heq.1]

/-- An entry is filled with the frame on top of the free stack. -/
theorem fillEntry_of_freeList (ha : s.alloc.WellFormed) (hfree : s.alloc.freeList = g :: rest)
    (hf : f.toNat < 2 ^ 44) (hg : g.toNat < 2 ^ 44) (hnone : child s.mem f i = none)
    (perm : Permissions) :
    ∃ s', fillEntry (slotAddr f i) perm s = .ok s' ∧ s'.alloc.freeList = rest ∧
      s'.alloc.WellFormed ∧ Filled f i g s.mem s'.mem := by
  obtain ⟨a, halloc, hrest, hwf⟩ := allocatePage_of_freeList ha hfree
  refine ⟨_, by rw [fillEntry_of_none hnone, halloc, Except.ok_bind], hrest, hwf, ?_⟩
  constructor
  case child_eq =>
    intro f' j hf'
    by_cases heq : f' = f ∧ j = i
    · obtain ⟨rfl, rfl⟩ := heq
      rw [if_pos ⟨rfl, rfl⟩]
      exact child_of_entry hg (toNat_flags_lt perm) (flags_and_pteV perm) entry_store64_self
    · rw [if_neg heq]
      refine child_eq_of_entry_eq (entry_store64_of_ne hf hf' ?_)
      rwa [Ne, Prod.mk.injEq]
  case mem_eq => exact fun hx => store64_slotAddr_of_page_ne hf hx

/-- The first page of an empty table costs four frames: one is lost, and two are directories. -/
theorem allocateVirtualPage_of_root_none (vpn : BitVec 64) (ha : s.alloc.WellFormed)
    (hfree : s.alloc.freeList = u :: x :: y :: g :: rest)
    (hlt : ∀ f ∈ [t, x, y, g], f.toNat < 2 ^ 44) (hnodup : [t, x, y].Nodup)
    (hempty : ∀ f ∈ [t, x, y], EmptyDirectory s.mem f) (perm : Permissions) :
    ∃ s' mem₁ mem₂, allocateVirtualPage (t <<< 12) vpn perm s = .ok s' ∧ s'.alloc.freeList = rest ∧
      s'.alloc.WellFormed ∧ Filled t (slotL2 (vpn <<< 12)) x s.mem mem₁ ∧
      Filled x (slotL1 (vpn <<< 12)) y mem₁ mem₂ ∧
      Filled y (slotL0 (vpn <<< 12)) g mem₂ s'.mem := by
  simp only [List.forall_mem_cons] at hlt hempty
  obtain ⟨ht, hx, hy, hg, -⟩ := hlt
  obtain ⟨hroot, hlevel1, hlevel0, -⟩ := hempty
  simp only [List.nodup_cons, List.mem_cons, not_or] at hnodup
  obtain ⟨⟨htx, hty, -⟩, ⟨hxy, -⟩, -⟩ := hnodup
  -- the root is empty, so the walk ends there
  have hnot : isVirtualPageAllocated s.mem (t <<< 12) vpn = false := by
    simp [isVirtualPageAllocated_eq, vpnPath, path, Forest.walk, hroot _]
  obtain ⟨a, halloc, hrest, hwf⟩ := allocatePage_of_freeList ha hfree
  -- the three entries are filled from the root down
  obtain ⟨s₁, hs₁, hfree₁, hwf₁, h₁⟩ := fillEntry_of_freeList (s := { s with alloc := a }) hwf hrest
    ht hx (hroot (slotL2 (vpn <<< 12))) ⟨true, false, false⟩
  obtain ⟨s₂, hs₂, hfree₂, hwf₂, h₂⟩ := fillEntry_of_freeList (i := slotL1 (vpn <<< 12)) hwf₁ hfree₁
    hx hy (by rw [h₁.child_of_ne hx (Ne.symm htx), hlevel1]) ⟨true, false, false⟩
  obtain ⟨s₃, hs₃, hfree₃, hwf₃, h₃⟩ := fillEntry_of_freeList (i := slotL0 (vpn <<< 12)) hwf₂ hfree₂
    hy hg (by rw [h₂.child_of_ne hy (Ne.symm hxy), h₁.child_of_ne hy (Ne.symm hty), hlevel0]) perm
  refine ⟨s₃, s₁.mem, s₂.mem, ?_, hfree₃, hwf₃, h₁, h₂, h₃⟩
  rw [allocateVirtualPage, hnot, if_neg (by decide), halloc, Except.ok_bind]
  simp only [mapVirtualPage, pteAddr_getL2, hs₁, Except.ok_bind,
    getPageNum_of_child (h₁.child_self ht), pteAddr_getL1, hs₂,
    getPageNum_of_child (h₂.child_self hx), pteAddr_getL0, hs₃]

/-- A further page in the last directory costs two frames. -/
theorem allocateVirtualPage_of_directories (vpn : BitVec 64) (ha : s.alloc.WellFormed)
    (hfree : s.alloc.freeList = u :: g :: rest) (hy : y.toNat < 2 ^ 44) (hg : g.toNat < 2 ^ 44)
    (hroot : child s.mem t (slotL2 (vpn <<< 12)) = some x)
    (hlevel1 : child s.mem x (slotL1 (vpn <<< 12)) = some y)
    (hlevel0 : child s.mem y (slotL0 (vpn <<< 12)) = none) (perm : Permissions) :
    ∃ s', allocateVirtualPage (t <<< 12) vpn perm s = .ok s' ∧ s'.alloc.freeList = rest ∧
      s'.alloc.WellFormed ∧ Filled y (slotL0 (vpn <<< 12)) g s.mem s'.mem := by
  have hnot : isVirtualPageAllocated s.mem (t <<< 12) vpn = false := by
    simp [isVirtualPageAllocated_eq, vpnPath, path, Forest.walk, hroot, hlevel1, hlevel0]
  obtain ⟨a, halloc, hrest, hwf⟩ := allocatePage_of_freeList ha hfree
  obtain ⟨s', hs', hfree', hwf', h'⟩ := fillEntry_of_freeList (s := { s with alloc := a }) hwf hrest
    hy hg hlevel0 perm
  refine ⟨s', ?_, hfree', hwf', h'⟩
  rw [allocateVirtualPage, hnot, if_neg (by decide), halloc, Except.ok_bind]
  simp only [mapVirtualPage, pteAddr_getL2, fillEntry_of_child (s := { s with alloc := a }) hroot,
    Except.ok_bind, getPageNum_of_child hroot, pteAddr_getL1,
    fillEntry_of_child (s := { s with alloc := a }) hlevel1, getPageNum_of_child hlevel1,
    pteAddr_getL0, hs']

end FreeList

end R5O5
