import Mathlib.Algebra.Order.Group.Multiset
import R5O5.Kernel.Paging.Conservation

/-!
# Separation of page tables

With memory filled with zeros at boot and changed by the paging operations only, every managed frame
plays at most one role, so that page tables share no frame.

## Main definitions

- `Role`: what a frame can be used for;
- `Tables.Plays`: a frame is used for something.

## Main results

- `Tables.Inv.role_unique`: a frame plays at most one role;
- `Tables.separated_of_trace`: what follows for translations, and for allocating and freeing pages.
-/

namespace R5O5

/-- What a frame can be used for. Virtual page numbers have 27 bits. -/
inductive Role
  /-- An entry of the free stack, counted from its top. -/
  | free (position : ℕ)
  | root (pagetable : BitVec 64)
  | level1 (pagetable : BitVec 64) (i : Fin numPte)
  | level0 (pagetable : BitVec 64) (i j : Fin numPte)
  | leaf (pagetable : BitVec 64) (virtualPageNum : BitVec 27)

/-- The table that a frame belongs to, with the slots on the way to it. -/
def Role.place : Role → Option (BitVec 64 × List (Fin numPte))
  | free _ => none
  | root pagetable => some (pagetable, [])
  | level1 pagetable i => some (pagetable, [i])
  | level0 pagetable i j => some (pagetable, [i, j])
  | leaf pagetable virtualPageNum => some (pagetable, vpnPath (virtualPageNum.setWidth 64))

/-- Page numbers of 27 bits have different paths. -/
theorem vpnPath_setWidth_inj {vpn vpn' : BitVec 27}
    (h : vpnPath (vpn.setWidth 64) = vpnPath (vpn'.setWidth 64)) : vpn = vpn' := by
  have hmod := vpnPath_eq_iff.mp h
  rw [BitVec.toNat_setWidth, BitVec.toNat_setWidth] at hmod
  have hlt := vpn.isLt
  have hlt' := vpn'.isLt
  exact BitVec.eq_of_toNat_eq (by omega)

theorem Role.place_length_le {r : Role} {pt : BitVec 64} {slots : List (Fin numPte)}
    (h : r.place = some (pt, slots)) : slots.length ≤ 3 := by
  cases r <;> cases h <;> simp

theorem Role.place_inj {r r' : Role} {x : BitVec 64 × List (Fin numPte)} (h : r.place = some x)
    (h' : r'.place = some x) : r = r' := by
  have hplace : r.place = r'.place := h.trans h'.symm
  -- the length of a place tells the level
  cases r with
  | free => cases h
  | root =>
    clear h h'
    cases r' <;> simp_all [place, vpnPath, path]
  | level1 =>
    clear h h'
    cases r' <;> simp_all [place, vpnPath, path]
  | level0 =>
    clear h h'
    cases r' <;> simp_all [place, vpnPath, path]
  | leaf =>
    cases r' with
    | leaf =>
      obtain ⟨rfl, hpath⟩ := Prod.mk.inj (Option.some.inj hplace)
      rw [vpnPath_setWidth_inj hpath]
    | free => cases h'
    | root => simp [place, vpnPath, path] at hplace
    | level1 => simp [place, vpnPath, path] at hplace
    | level0 => simp [place, vpnPath, path] at hplace

namespace Tables

/-- The frame is used for this. -/
def Plays (s : Tables) (f : BitVec 64) : Role → Prop
  | .free position => s.paging.alloc.freeList[position]? = some f
  | role => ∃ pt slots, role.place = some (pt, slots) ∧ pt ∈ s.live ∧
      Forest.walk (child s.paging.mem) (pt >>> 12) slots = some f

section Separation

variable {K : KernelImage} {own own' : Places} {leaked : ℕ} {s s' : Tables} {f pt : BitVec 64}
  {r r' : Role} {mem mem' : Mem} {t virtualAddress : BitVec 64}

/-- A frame that is used is free or a node of a live table. -/
theorem Inv.plays_cases (h : Inv K own leaked s) (hplays : s.Plays f r) :
    (∃ position, r = .free position ∧ s.paging.alloc.freeList[position]? = some f) ∨
    ∃ pt slots, r.place = some (pt, slots) ∧ pt ∈ s.live ∧ own f = some (pt >>> 12, slots) := by
  have hnode : (∃ pt slots, r.place = some (pt, slots) ∧ pt ∈ s.live ∧
      Forest.walk (child s.paging.mem) (pt >>> 12) slots = some f) →
      ∃ pt slots, r.place = some (pt, slots) ∧ pt ∈ s.live ∧ own f = some (pt >>> 12, slots) := by
    rintro ⟨pt, slots, hplace, hpt, hwalk⟩
    exact ⟨pt, slots, hplace, hpt, (h.paging.owned.walk_eq_some_iff (mem_roots hpt)
      (Role.place_length_le hplace)).mp hwalk⟩
  cases r with
  | free position => exact Or.inl ⟨position, rfl, hplays⟩
  | root => exact Or.inr (hnode hplays)
  | level1 => exact Or.inr (hnode hplays)
  | level0 => exact Or.inr (hnode hplays)
  | leaf => exact Or.inr (hnode hplays)

/-- A frame plays at most one role. -/
theorem Inv.role_unique (h : Inv K own leaked s) (hplays : s.Plays f r) (hplays' : s.Plays f r') :
    r = r' := by
  have hfree : ∀ {position : ℕ}, s.paging.alloc.freeList[position]? = some f → own f = none :=
    fun hposition => h.paging.ledger.own_of_free (List.mem_of_getElem? hposition)
  rcases h.plays_cases hplays with ⟨position, rfl, hposition⟩ | ⟨pt, slots, hplace, hpt, hown⟩
  · rcases h.plays_cases hplays' with ⟨position', rfl, hposition'⟩ | ⟨pt', slots', -, -, hown'⟩
    · -- a frame is on the free stack once
      have hlt : position < s.paging.alloc.freeList.length :=
        (List.getElem?_eq_some_iff.mp hposition).1
      rw [(List.getElem?_inj hlt h.paging.ledger.nodup).mp (hposition.trans hposition'.symm)]
    · rw [hfree hposition] at hown'
      cases hown'
  · rcases h.plays_cases hplays' with
      ⟨position', -, hposition'⟩ | ⟨pt', slots', hplace', hpt', hown'⟩
    · rw [hfree hposition'] at hown
      cases hown
    · -- a frame has one place in one table
      obtain ⟨hroot, rfl⟩ := Prod.mk.inj (Option.some.inj (hown.symm.trans hown'))
      obtain rfl : pt = pt' := by
        rw [← h.aligned hpt, ← h.aligned hpt', hroot]
      exact Role.place_inj hplace hplace'

/-- The translation of an address depends on the walk down its page table only. -/
theorem virtualToPhysical_congr
    (h : Forest.walk (child mem') t (path virtualAddress) =
      Forest.walk (child mem) t (path virtualAddress)) :
    virtualToPhysical mem' (t <<< 12) virtualAddress =
      virtualToPhysical mem (t <<< 12) virtualAddress := by
  cases hwalk : Forest.walk (child mem) t (path virtualAddress) with
  | some f => rw [virtualToPhysical_eq_ok hwalk, virtualToPhysical_eq_ok (h.trans hwalk)]
  | none =>
    have hnot : ∀ m : Mem, Forest.walk (child m) t (path virtualAddress) = none →
        isVirtualPageAllocated m (t <<< 12) (getVirtPage virtualAddress) = false := by
      intro m hm
      rw [isVirtualPageAllocated_eq, vpnPath_getVirtPage, hm]
      rfl
    rw [virtualToPhysical_of_not_allocated (hnot _ hwalk),
      virtualToPhysical_of_not_allocated (hnot _ (h.trans hwalk))]

/-- Two states in which the same frame, if any, has the place of a page translate its addresses
alike. -/
theorem Inv.virtualToPhysical_congr {leaked' : ℕ} (h : Inv K own leaked s)
    (h' : Inv K own' leaked' s') (hpt : pt ∈ s.live) (hpt' : pt ∈ s'.live)
    (hown : ∀ f, own' f = some (pt >>> 12, path virtualAddress) ↔
      own f = some (pt >>> 12, path virtualAddress)) :
    R5O5.virtualToPhysical s'.paging.mem pt virtualAddress =
      R5O5.virtualToPhysical s.paging.mem pt virtualAddress := by
  rw [← h.aligned hpt]
  refine Tables.virtualToPhysical_congr (Option.ext fun f => ?_)
  rw [h'.paging.owned.walk_eq_some_iff (mem_roots hpt') (by simp [path]),
    h.paging.owned.walk_eq_some_iff (mem_roots hpt) (by simp [path])]
  exact hown f

/-- What a request adds to a table leaves the translations of all other pages alone. -/
theorem Inv.virtualToPhysical_allocateVirtualPage (h : Inv K own leaked s)
    (hclean : Clean K own s.paging.mem) {request : PageRequest}
    (hstep : Step s (.allocateVirtualPage pt request) s') {pt' : BitVec 64} (hpt' : pt' ∈ s.live)
    (hne : ¬(pt' = pt ∧
      (getVirtPage virtualAddress).toNat = request.virtualPageNum.toNat % 2 ^ 27)) :
    R5O5.virtualToPhysical s'.paging.mem pt' virtualAddress =
      R5O5.virtualToPhysical s.paging.mem pt' virtualAddress := by
  have hempty := Clean.takesEmptyDirectories hclean h (.allocateVirtualPage pt request)
  cases hstep with
  | allocateVirtualPage hpt hok =>
    obtain ⟨own', h', hext⟩ := h.allocateVirtualPage hpt hempty hok
    refine h.virtualToPhysical_congr h' hpt' hpt' fun f => ⟨fun hf => ?_, hext.keeps⟩
    rcases hext.new hf with hf | ⟨-, hroot, hpre⟩
    · exact hf
    · -- a new leaf is the one of the requested page
      have hpath : path virtualAddress = vpnPath request.virtualPageNum :=
        hpre.eq_of_length (by simp [path])
      rw [← vpnPath_getVirtPage, vpnPath_eq_iff, toNat_getVirtPage, Nat.mod_mod] at hpath
      refine absurd ⟨?_, ?_⟩ hne
      · by_contra hdiff
        exact h.shift_ne hpt hpt' hdiff hroot
      · rw [toNat_getVirtPage, hpath]

/-- The frames of a table. -/
def frames (s : Tables) (pt : BitVec 64) : Set (BitVec 64) :=
  {f | ∃ slots : List (Fin numPte), slots.length ≤ 3 ∧
    Forest.walk (child s.paging.mem) (pt >>> 12) slots = some f}

/-- Deallocating a table never fails, pushes each of its frames once and leaves the translations of
the other tables alone. -/
theorem Inv.deallocatePageTable_frames (h : Inv K own leaked s) (hpt : pt ∈ s.live) :
    ∃ paging, R5O5.deallocatePageTable pt s.paging = .ok paging ∧
      (∃ freed : Finset (BitVec 64), ↑freed = s.frames pt ∧
        (paging.alloc.freeList : Multiset (BitVec 64)) =
          s.paging.alloc.freeList + freed.val) ∧
      ∀ pt' ∈ s.live, pt' ≠ pt → ∀ virtualAddress,
        R5O5.virtualToPhysical paging.mem pt' virtualAddress =
          R5O5.virtualToPhysical s.paging.mem pt' virtualAddress := by
  obtain ⟨paging, -, hok, -⟩ := h.paging.deallocatePageTable (mem_roots hpt)
  rw [h.aligned hpt] at hok
  obtain ⟨own', h', hrem⟩ := h.deallocatePageTable hpt hok
  refine ⟨paging, hok,
    ⟨(managed K).filter fun f => (own f).map Prod.fst = some (pt >>> 12), ?_, ?_⟩,
    fun pt' hpt' hne virtualAddress => ?_⟩
  · ext f
    rw [Finset.coe_filter, frames, Set.mem_ofPred_eq, Set.mem_ofPred_eq]
    constructor
    · rintro ⟨-, hf⟩
      obtain ⟨⟨t, slots⟩, hown, rfl⟩ := Option.map_eq_some_iff.mp hf
      have hslots := h.paging.owned.length_le hown
      exact ⟨slots, hslots, (h.paging.owned.walk_eq_some_iff (mem_roots hpt) hslots).mpr hown⟩
    · rintro ⟨slots, hslots, hwalk⟩
      have hown := (h.paging.owned.walk_eq_some_iff (mem_roots hpt) hslots).mp hwalk
      exact ⟨h.paging.ledger.managed_of_own hown, by rw [hown]; rfl⟩
  · -- no frame is pushed twice, and none that was free already
    have hdisjoint : Disjoint (s.paging.alloc.freeList : Multiset (BitVec 64))
        ((managed K).filter fun f => (own f).map Prod.fst = some (pt >>> 12)).val := by
      refine Multiset.disjoint_left.mpr fun {f} hfree hf => ?_
      have hown := (Finset.mem_filter.mp (Finset.mem_val.mp hf)).2
      rw [h.paging.ledger.own_of_free (Multiset.mem_coe.mp hfree)] at hown
      cases hown
    have hnodup := Multiset.coe_nodup.mpr h.paging.ledger.nodup
    refine (Multiset.Nodup.ext (Multiset.coe_nodup.mpr h'.paging.ledger.nodup)
      (Multiset.nodup_add.mpr ⟨hnodup, Finset.nodup _, hdisjoint⟩)).mpr fun f => ?_
    rw [Multiset.mem_add, Multiset.mem_coe, Multiset.mem_coe, Finset.mem_val, Finset.mem_filter,
      Option.map_eq_some_iff]
    refine hrem.free_iff.trans (or_congr_right ?_)
    constructor
    · rintro ⟨x, hown, hx⟩
      exact ⟨h.paging.ledger.managed_of_own hown, x, hown, hx⟩
    · rintro ⟨-, x, hown, hx⟩
      exact ⟨x, hown, hx⟩
  -- no leaf of another table is removed
  · have hother : ∀ f, own' f = some (pt' >>> 12, path virtualAddress) ↔
        own f = some (pt' >>> 12, path virtualAddress) := by
      intro f
      rw [hrem.own_iff]
      exact and_iff_left (h.shift_ne hpt hpt' hne)
    exact (h.virtualToPhysical_congr h' hpt' (Finset.mem_erase.mpr ⟨hne, hpt'⟩) hother :)

/-- Different pages, of one table or of two, lie in different frames. -/
theorem Inv.eq_of_frame_eq (h : Inv K own leaked s) {pt' virtualAddress' : BitVec 64}
    {physicalAddress physicalAddress' : BitVec 64} (hpt : pt ∈ s.live) (hpt' : pt' ∈ s.live)
    (hok : R5O5.virtualToPhysical s.paging.mem pt virtualAddress = .ok physicalAddress)
    (hok' : R5O5.virtualToPhysical s.paging.mem pt' virtualAddress' = .ok physicalAddress')
    (hframe : physicalAddress >>> 12 = physicalAddress' >>> 12) :
    pt = pt' ∧ getVirtPage virtualAddress = getVirtPage virtualAddress' := by
  obtain ⟨f, hown, rfl⟩ := h.virtualToPhysical hpt hok
  obtain ⟨f', hown', rfl⟩ := h.virtualToPhysical hpt' hok'
  rw [page_translated (h.paging.toNat_lt hown), page_translated (h.paging.toNat_lt hown')] at hframe
  subst hframe
  obtain ⟨hroot, hpath⟩ := Prod.mk.inj (Option.some.inj (hown.symm.trans hown'))
  refine ⟨by rw [← h.aligned hpt, ← h.aligned hpt', hroot], ?_⟩
  rw [← vpnPath_getVirtPage, ← vpnPath_getVirtPage, vpnPath_eq_iff] at hpath
  have hlt : ∀ x : BitVec 64, (getVirtPage x).toNat < 2 ^ 27 := fun x => by
    rw [toNat_getVirtPage]
    exact Nat.mod_lt _ (by decide)
  rw [Nat.mod_eq_of_lt (hlt _), Nat.mod_eq_of_lt (hlt _)] at hpath
  exact BitVec.eq_of_toNat_eq hpath

variable {ops : List Op}

/-- Over every run of the paging operations, each managed frame plays at most one role: different
pages lie in different frames, a request changes the translation of its own page only, and
deallocating a table never fails, frees each of its frames once and leaves the other tables
alone. -/
theorem separated_of_trace (hzero : ∀ x : BitVec 64, x >>> 12 ∈ managed K → mem x = 0)
    (hrun : Trace Step (boot K mem) ops s) (hops : ∀ op ∈ ops, op.isStore = false) :
    (∀ f r r', s.Plays f r → s.Plays f r' → r = r') ∧
    (∀ pt ∈ s.live, ∀ pt' ∈ s.live, ∀ virtualAddress virtualAddress' physicalAddress physicalAddress',
      R5O5.virtualToPhysical s.paging.mem pt virtualAddress = .ok physicalAddress →
      R5O5.virtualToPhysical s.paging.mem pt' virtualAddress' = .ok physicalAddress' →
      physicalAddress >>> 12 = physicalAddress' >>> 12 →
      pt = pt' ∧ getVirtPage virtualAddress = getVirtPage virtualAddress') ∧
    (∀ pt request s', Step s (.allocateVirtualPage pt request) s' →
      ∀ pt' ∈ s.live, ∀ virtualAddress,
        ¬(pt' = pt ∧ (getVirtPage virtualAddress).toNat = request.virtualPageNum.toNat % 2 ^ 27) →
        R5O5.virtualToPhysical s'.paging.mem pt' virtualAddress =
          R5O5.virtualToPhysical s.paging.mem pt' virtualAddress) ∧
    ∀ pt ∈ s.live, ∃ paging, R5O5.deallocatePageTable pt s.paging = .ok paging ∧
      (∃ freed : Finset (BitVec 64), ↑freed = s.frames pt ∧
        (paging.alloc.freeList : Multiset (BitVec 64)) = s.paging.alloc.freeList + freed.val) ∧
      ∀ pt' ∈ s.live, pt' ≠ pt → ∀ virtualAddress,
        R5O5.virtualToPhysical paging.mem pt' virtualAddress =
          R5O5.virtualToPhysical s.paging.mem pt' virtualAddress := by
  -- without stores only directories hold valid entries
  obtain ⟨own, h, hclean⟩ := cleanInv_of_trace hzero hrun hops
  refine ⟨fun f r r' => h.role_unique, ?_, ?_, fun pt => h.deallocatePageTable_frames⟩
  · intro pt hpt pt' hpt' virtualAddress virtualAddress' physicalAddress physicalAddress' hok hok'
    exact h.eq_of_frame_eq hpt hpt' hok hok'
  · intro pt request s' hstep pt' hpt' virtualAddress
    exact h.virtualToPhysical_allocateVirtualPage hclean hstep hpt'

/-- In the run that allocates one page table and page 0 in it, the table can be deallocated. -/
theorem separated_requested : ∃ paging,
    R5O5.deallocatePageTable sampleTable requested.paging = .ok paging := by
  have hrun : Trace Step (boot sampleKernel zeroMem)
      [.allocatePageTable sampleTable, .allocateVirtualPage sampleTable sampleRequest] requested :=
    (Trace.refl.snoc step_created).snoc step_requested
  obtain ⟨paging, hok, -⟩ := (separated_of_trace (fun _ _ => by unfold zeroMem; rfl) hrun
    (by decide)).2.2.2 sampleTable (Finset.mem_insert_self ..)
  exact ⟨paging, hok⟩

end Separation

end Tables

end R5O5
