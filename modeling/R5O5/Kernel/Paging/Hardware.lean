import R5O5.Kernel.Paging.Conservation
import R5O5.Lib.Sv39

/-!
# The page tables as the processor sees them

The processor walks the same words as `virtualToPhysical` by the rules of Sv39. `mapVirtualPage`
marks the entries that point to directories readable, which makes them superpages without user
access for the processor, so that no access from user mode gets past the root directory.

## Main definitions

- `Tables.Agrees`: processor and kernel translate an address alike.

## Main results

- `Tables.translate_eq_none`: every access from user mode faults;
- `Tables.agrees_iff`: when the two translations agree.
-/

namespace R5O5

/-- The permission allows the access. -/
def Permissions.allows (perm : Permissions) : Sv39.Access → Bool
  | .load => perm.read
  | .store => perm.write
  | .fetch => perm.execute

namespace Tables

/-- For an address whose page is allocated, every access that the permissions requested for the page
allow is translated by the processor as by the kernel; for any other address both fail. -/
def Agrees (s : Tables) (pt virtualAddress : BitVec 64) : Prop :=
  (isVirtualPageAllocated s.paging.mem pt (getVirtPage virtualAddress) = true →
    ∀ access, (∃ request ∈ s.requests pt,
        request.virtualPageNum.toNat % 2 ^ 27 = (getVirtPage virtualAddress).toNat % 2 ^ 27 ∧
          request.perm.allows access = true) →
      ∃ physicalAddress,
        virtualToPhysical s.paging.mem pt virtualAddress = .ok physicalAddress ∧
          Sv39.translate s.paging.mem (pt >>> 12) access virtualAddress = some physicalAddress) ∧
  (isVirtualPageAllocated s.paging.mem pt (getVirtPage virtualAddress) = false →
    (∃ e, virtualToPhysical s.paging.mem pt virtualAddress = .error e) ∧
      ∀ access, Sv39.translate s.paging.mem (pt >>> 12) access virtualAddress = none)

section Hardware

variable {K : KernelImage} {own : Places} {leaked : ℕ} {mem : Mem} {ops : List Op} {s : Tables}
  {pt virtualAddress : BitVec 64} {access : Sv39.Access}

/-- The hardware takes the same index in the root. -/
theorem vpn_two : Sv39.vpn virtualAddress 2 = getL2 virtualAddress := by
  apply BitVec.eq_of_toNat_eq
  rw [Sv39.vpn, BitField.toNat_and (show (0x1ff : BitVec 64).toNat = 2 ^ 9 - 1 by decide),
    toNat_getL2, BitVec.toNat_ushiftRight, Nat.shiftRight_eq_div_pow]

/-- The flags of an entry show through masks of flags. -/
theorem and_eq_getFlags_and {pte mask : BitVec 64} (hmask : 0x3ff &&& mask = mask) :
    pte &&& mask = getFlags pte &&& mask := by
  rw [getFlags, BitVec.and_assoc, hmask]

/-- No access from user mode is translated through a live page table. -/
theorem translate_eq_none (h : Inv K own leaked s) (hpt : pt ∈ s.live) :
    Sv39.translate s.paging.mem (pt >>> 12) access virtualAddress = none := by
  rw [Sv39.translate]
  split
  case isFalse => rfl
  case isTrue =>
    have haddr : (pt >>> 12) <<< 12 + Sv39.vpn virtualAddress 2 * (8 : BitVec 64) =
        slotAddr (pt >>> 12) (slotL2 virtualAddress) := by
      rw [vpn_two, ← pteAddr_getL2, pteAddr]
    cases hchild : child s.paging.mem (pt >>> 12) (slotL2 virtualAddress) with
    | none =>
      refine Sv39.walk_of_invalid ?_
      have hvalid :
          isValid s.paging.mem (slotAddr (pt >>> 12) (slotL2 virtualAddress)) = false := by
        rw [isValid_eq, hchild]
        rfl
      rw [isValid] at hvalid
      rw [decide_eq_false_iff_not, not_not] at hvalid
      rw [haddr, and_eq_getFlags_and (by decide)]
      exact hvalid
    | some g =>
      -- the root entry is a readable superpage without user access
      have hflags := h.paging.directory_flags (h.paging.owned.own_root (Inv.mem_roots hpt))
        (by simp) hchild
      rw [entry, ← haddr] at hflags
      refine Sv39.walk_of_leaf_without_user ?_ ?_
      · rw [Sv39.isLeaf, and_eq_getFlags_and (by decide), hflags]
        decide
      · rw [and_eq_getFlags_and (by decide), hflags]
        decide

/-- Processor and kernel agree on an address exactly when no request for its page asked for a
permission. -/
theorem agrees_iff (hrun : Trace CleanStep (boot K mem) ops s) (hpt : pt ∈ s.live) :
    s.Agrees pt virtualAddress ↔
      ∀ request ∈ s.requests pt,
        request.virtualPageNum.toNat % 2 ^ 27 = (getVirtPage virtualAddress).toNat % 2 ^ 27 →
        ∀ access, request.perm.allows access = false := by
  obtain ⟨own, h⟩ := inv_of_trace hrun
  constructor
  · rintro ⟨hallocated, -⟩ request hmem hvpn access
    by_contra hallows
    rw [Bool.not_eq_false] at hallows
    have hmapped := (h.isVirtualPageAllocated_iff hpt).mpr ⟨request, hmem, hvpn⟩
    obtain ⟨physicalAddress, -, hsome⟩ := hallocated hmapped access ⟨request, hmem, hvpn, hallows⟩
    rw [translate_eq_none h hpt] at hsome
    cases hsome
  · intro hnone
    constructor
    · rintro - access ⟨request, hmem, hvpn, hallows⟩
      rw [hnone request hmem hvpn access] at hallows
      cases hallows
    · intro hnot
      exact ⟨⟨_, virtualToPhysical_of_not_allocated hnot⟩, fun access => translate_eq_none h hpt⟩

/-- Page 1, without any permission. -/
def guardRequest : PageRequest := ⟨1, ⟨false, false, false⟩⟩

/-- After page 0 has been requested for reading and writing, and page 1 without any permission. -/
def guarded : Tables where
  paging := (allocateVirtualPage sampleTable guardRequest.virtualPageNum guardRequest.perm
    requested.paging).getD requested.paging
  live := requested.live
  requests := Function.update requested.requests sampleTable
    (requested.requests sampleTable ++ [guardRequest])

/-- A page without permissions is requested. -/
theorem step_guarded :
    Step requested (.allocateVirtualPage sampleTable guardRequest) guarded :=
  .allocateVirtualPage (Finset.mem_insert_self ..) (Except.eq_ok_getD _ (by decide +kernel))

theorem requests_guarded : guarded.requests sampleTable = [sampleRequest, guardRequest] := by
  simp [guarded, requested, created]

/-- Then processor and kernel agree on the addresses of page 1, which is allocated, and of page 2,
which is not. -/
theorem agrees_guarded :
    (isVirtualPageAllocated guarded.paging.mem sampleTable 1 = true ∧
      guarded.Agrees sampleTable 0x1008) ∧
    isVirtualPageAllocated guarded.paging.mem sampleTable 2 = false ∧
      guarded.Agrees sampleTable 0x2008 := by
  have hrun := cleanTrace_of_trace (fun _ _ => by unfold zeroMem; rfl)
    (((Trace.refl.snoc step_created).snoc step_requested).snoc step_guarded) (by decide)
  have hlive : sampleTable ∈ guarded.live := Finset.mem_insert_self ..
  obtain ⟨own, h⟩ := inv_of_trace hrun
  refine ⟨⟨?_, (agrees_iff hrun hlive).mpr ?_⟩, ?_, (agrees_iff hrun hlive).mpr ?_⟩
  · rw [h.isVirtualPageAllocated_iff hlive, requests_guarded]
    exact ⟨guardRequest, by simp, rfl⟩
  · rw [requests_guarded, List.forall_mem_cons, List.forall_mem_singleton]
    exact ⟨fun hvpn => absurd hvpn (by decide), fun _ access => by cases access <;> rfl⟩
  · rw [Bool.eq_false_iff, Ne, h.isVirtualPageAllocated_iff hlive, requests_guarded]
    decide
  · rw [requests_guarded, List.forall_mem_cons, List.forall_mem_singleton]
    exact ⟨fun hvpn => absurd hvpn (by decide), fun hvpn => absurd hvpn (by decide)⟩

/-- Once page 0 has been allocated for reading and writing, they do not. -/
theorem not_agrees_requested : Trace Step (boot sampleKernel zeroMem)
      [.allocatePageTable sampleTable, .allocateVirtualPage sampleTable sampleRequest] requested ∧
    sampleTable ∈ requested.live ∧ ¬requested.Agrees sampleTable 0 := by
  have hrun : Trace Step (boot sampleKernel zeroMem)
      [.allocatePageTable sampleTable, .allocateVirtualPage sampleTable sampleRequest] requested :=
    (Trace.refl.snoc step_created).snoc step_requested
  obtain ⟨own, h, -⟩ := cleanInv_of_trace (fun _ _ => by unfold zeroMem; rfl) hrun (by decide)
  have hlive : sampleTable ∈ requested.live := Finset.mem_insert_self ..
  have hmapped :
      isVirtualPageAllocated requested.paging.mem sampleTable (getVirtPage 0) = true := by
    decide +kernel
  have hrequests : sampleRequest ∈ requested.requests sampleTable := by
    simp only [requested, Function.update_self]
    exact List.mem_append_right _ List.mem_cons_self
  refine ⟨hrun, hlive, ?_⟩
  rintro ⟨hallocated, -⟩
  obtain ⟨pa, -, hsome⟩ := hallocated hmapped .load ⟨sampleRequest, hrequests, by decide, rfl⟩
  rw [translate_eq_none h hlive] at hsome
  cases hsome

end Hardware

end Tables

end R5O5
