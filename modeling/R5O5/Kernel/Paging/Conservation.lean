import R5O5.Kernel.Paging.Runs

/-!
# Conservation of page frames

With memory filled with zeros at boot and changed by the paging operations only, frames that are not
directories never hold a valid entry, so that the invariant holds in every run. Counting frames then
shows that each call of `allocateVirtualPage` loses one of them.

## Main results

- `Tables.cleanInv_of_trace`, `Tables.cleanTrace_of_trace`: the invariant, without an assumption on
  the steps;
- `Tables.numFreePages_add_ncard_reachable`: how many frames are free and reachable;
- `Tables.frames_conserved_iff`: when all frames are accounted for.
-/

namespace R5O5.Tables

/-- The operations between the allocation and the deallocation of one page table. -/
def lifetime (pt : BitVec 64) (requests : List PageRequest) : List Op :=
  .allocatePageTable pt :: requests.map (.allocateVirtualPage pt) ++ [.deallocatePageTable pt]

section Clean

variable {K : KernelImage} {own own' : Places} {leaked : ℕ} {s s' : Tables} {pt t : BitVec 64}
  {target : List (Fin numPte)} {paging paging' : Paging} {mem : Mem} {ops : List Op}

/-- When the frames are clean, every call takes empty directories. -/
theorem Clean.takesEmptyDirectories (hclean : Clean K own s.paging.mem) (h : Inv K own leaked s)
    (op : Op) : TakesEmptyDirectories s op := by
  cases op with
  | allocateVirtualPage pt request =>
    intro f hf
    have hfree := List.mem_of_mem_drop (List.mem_of_mem_take hf)
    refine hclean f (h.paging.ledger.managed_of_free hfree) fun x hx => ?_
    rw [h.paging.ledger.own_of_free hfree] at hx
    cases hx
  | _ => trivial

theorem Clean.addRoot {g : BitVec 64} (hclean : Clean K own mem) {mem' : Mem}
    (hmem : ∀ x : BitVec 64, x >>> 12 ≠ g → mem' x = mem x) :
    Clean K (Function.update own g (some (g, []))) mem' := by
  intro f hf hdir
  have hne : f ≠ g := by
    rintro rfl
    have := hdir (f, []) (Function.update_self ..)
    simp at this
  refine EmptyDirectory.congr (hclean f hf fun x hx => ?_) (toNat_lt_of_managed hf) ?_
  · exact hdir x (by rwa [Function.update_of_ne hne])
  · rintro x rfl
    exact hmem x hne

theorem Clean.extension (hclean : Clean K own paging.mem)
    (hext : Extension t target own own' paging paging') : Clean K own' paging'.mem := by
  intro f hf hdir
  refine EmptyDirectory.congr (hclean f hf fun x hx => hdir x (hext.keeps hx))
    (toNat_lt_of_managed hf) ?_
  rintro x rfl
  exact hext.mem_eq fun q hq => hdir (t, q) hq

/-- Boot memory filled with zeros holds no valid entry. -/
theorem clean_of_zero (hzero : ∀ x : BitVec 64, x >>> 12 ∈ managed K → mem x = 0) :
    Clean K (fun _ => none) mem := by
  intro f hf _ i
  refine child_of_entry_zero (Mem.load64_of_zero fun x hx => hzero x ?_)
  rwa [page_of_slot (toNat_lt_of_managed hf) hx]

/-- Without stores the frames that are not directories stay clean, and every step keeps the
invariant. -/
theorem Inv.step_clean {op : Op} (h : Inv K own leaked s) (hclean : Clean K own s.paging.mem)
    (hop : op.isStore = false) (hstep : Step s op s') :
    ∃ own', Inv K own' (leaked + if op.isAllocateVirtualPage then 1 else 0) s' ∧
      Clean K own' s'.paging.mem := by
  have hempty := Clean.takesEmptyDirectories hclean h op
  cases hstep with
  | allocatePageTable hok =>
    obtain ⟨g, -, -, h', hmem⟩ := h.allocatePageTable hok
    exact ⟨_, h', Clean.addRoot hclean hmem⟩
  | allocateVirtualPage hpt hok =>
    obtain ⟨own', h', hext⟩ := h.allocateVirtualPage hpt hempty hok
    exact ⟨own', h', Clean.extension hclean hext⟩
  | store => cases hop
  | deallocatePageTable hpt hok =>
    obtain ⟨own', h', hrem⟩ := h.deallocatePageTable hpt hok
    exact ⟨own', h', hrem.clean hclean⟩

/-- Without stores the frames are clean in every run. -/
theorem cleanInv_of_trace (hzero : ∀ x : BitVec 64, x >>> 12 ∈ managed K → mem x = 0)
    (hrun : Trace Step (boot K mem) ops s) (hops : ∀ op ∈ ops, op.isStore = false) :
    ∃ own, Inv K own (ops.countP Op.isAllocateVirtualPage) s ∧ Clean K own s.paging.mem := by
  revert hops
  refine hrun.invariant_of_labels (I := fun ops s => (∀ op ∈ ops, op.isStore = false) →
    ∃ own, Inv K own (ops.countP Op.isAllocateVirtualPage) s ∧ Clean K own s.paging.mem) ?_ ?_
  · intro _
    exact ⟨_, inv_boot, clean_of_zero hzero⟩
  · intro ops s op s' ih hstep hops
    obtain ⟨own, h, hclean⟩ := ih fun op hop => hops op (List.mem_append_left _ hop)
    rw [List.countP_append, List.countP_singleton]
    exact h.step_clean hclean (hops op (by simp)) hstep

/-- A run without stores takes only frames without valid entries for directories. -/
theorem cleanTrace_of_trace (hzero : ∀ x : BitVec 64, x >>> 12 ∈ managed K → mem x = 0)
    (hrun : Trace Step (boot K mem) ops s) (hops : ∀ op ∈ ops, op.isStore = false) :
    Trace CleanStep (boot K mem) ops s := by
  induction hrun with
  | refl => exact .refl
  | snoc hrun hstep ih =>
    have hinit := fun op hop => hops op (List.mem_append_left _ hop)
    obtain ⟨own, h, hclean⟩ := cleanInv_of_trace hzero hrun hinit
    exact (ih hinit).snoc ⟨hstep, Clean.takesEmptyDirectories hclean h _⟩

end Clean

section Counting

variable {K : KernelImage} {own : Places} {leaked : ℕ} {s s' : Tables} {pt : BitVec 64}
  {mem : Mem} {ops : List Op}

/-- The reachable frames are the nodes of the forest. -/
theorem Inv.reachable_eq (h : Inv K own leaked s) : s.reachable = ↑(ownedFrames K own) := by
  ext f
  simp only [reachable, Set.mem_ofPred_eq, ownedFrames, Finset.coe_filter,
    Option.isSome_iff_exists]
  constructor
  · rintro ⟨pt, hpt, slots, hslots, hwalk⟩
    have hf := (h.paging.owned.walk_eq_some_iff (mem_roots hpt) hslots).mp hwalk
    exact ⟨h.paging.ledger.managed_of_own hf, _, hf⟩
  · rintro ⟨-, ⟨t, slots⟩, hf⟩
    obtain ⟨pt, hpt, rfl⟩ := h.paging.owned.mem_live hf
    have hslots := h.paging.owned.length_le hf
    exact ⟨pt, hpt, slots, hslots,
      (h.paging.owned.walk_eq_some_iff (mem_roots hpt) hslots).mpr hf⟩

theorem Inv.count_reachable (h : Inv K own leaked s) :
    s.paging.alloc.numFreePages + s.reachable.ncard + leaked = numPages := by
  rw [h.reachable_eq, Set.ncard_coe_finset]
  exact h.paging.ledger.count

/-- Besides the free and the reachable frames there is one for each page ever requested. -/
theorem numFreePages_add_ncard_reachable
    (hzero : ∀ x : BitVec 64, x >>> 12 ∈ managed K → mem x = 0)
    (hrun : Trace Step (boot K mem) ops s) (hops : ∀ op ∈ ops, op.isStore = false) :
    s.paging.alloc.numFreePages + s.reachable.ncard + ops.countP Op.isAllocateVirtualPage =
      numPages := by
  obtain ⟨own, h, -⟩ := cleanInv_of_trace hzero hrun hops
  exact h.count_reachable

/-- Pages requested in one table only add nodes to it. -/
theorem Inv.requests_of_trace {requests : List PageRequest} (h : Inv K own leaked s)
    (hclean : Clean K own s.paging.mem) (hpt : pt ∈ s.live)
    (hrun : Trace Step s (requests.map (.allocateVirtualPage pt)) s') :
    ∃ own', Inv K own' (leaked + requests.length) s' ∧ pt ∈ s'.live ∧
      (∀ {f x}, own f = some x → own' f = some x) ∧
      (∀ {f x}, own' f = some x → own f = some x ∨ x.1 = pt >>> 12) ∧
      (requests = [] → s' = s ∧ own' = own) ∧ Clean K own' s'.paging.mem := by
  -- each request loses one frame and adds leaves to this table only
  induction requests using List.reverseRecOn generalizing s' with
  | nil =>
    rw [List.map_nil, Trace.nil_iff] at hrun
    subst hrun
    exact ⟨own, h, hpt, id, Or.inl, fun _ => ⟨rfl, rfl⟩, hclean⟩
  | append_singleton requests request ih =>
    rw [List.map_append, List.map_singleton, Trace.append_singleton_iff] at hrun
    obtain ⟨u, hinit, hlast⟩ := hrun
    obtain ⟨own₁, h₁, hpt₁, hkeeps, hnew, -, hclean₁⟩ := ih hinit
    have hempty := Clean.takesEmptyDirectories hclean₁ h₁ (.allocateVirtualPage pt request)
    cases hlast with
    | allocateVirtualPage hlive hok =>
      obtain ⟨own₂, h₂, hext⟩ := h₁.allocateVirtualPage hlive hempty hok
      refine ⟨own₂, ?_, hpt₁, fun hf => hext.keeps (hkeeps hf), fun hf => ?_, by simp,
        Clean.extension hclean₁ hext⟩
      · rw [List.length_append, List.length_singleton, ← Nat.add_assoc]
        exact h₂
      · rcases hext.new hf with hf | ⟨-, hroot, -⟩
        · exact hnew hf
        · exact Or.inr hroot

/-- A table that is created, filled and destroyed leaves the other tables in place and loses one
frame for each page requested. -/
theorem Inv.lifetime {requests : List PageRequest} (h : Inv K own leaked s)
    (hclean : Clean K own s.paging.mem) (hrun : Trace Step s (lifetime pt requests) s') :
    s'.paging.alloc.numFreePages + requests.length = s.paging.alloc.numFreePages ∧
      (requests = [] → ∀ f, f ∈ s'.paging.alloc.freeList ↔ f ∈ s.paging.alloc.freeList) := by
  rw [Tables.lifetime, List.cons_append, Trace.cons_iff] at hrun
  obtain ⟨s₁, hcreate, hrun⟩ := hrun
  obtain ⟨s₂, hfill, hdestroy⟩ := Trace.append_singleton_iff.mp hrun
  cases hcreate with
  | allocatePageTable hok =>
    obtain ⟨g, hg, hfree, h₁, hmem⟩ := h.allocatePageTable hok
    have hgown : own g = none := h.paging.ledger.own_of_free (by simp [hfree])
    have hgroot : ∀ {f x}, own f = some x → x.1 ≠ g := by
      rintro f x hf rfl
      rw [h.paging.owned.own_root (h.paging.owned.mem_live hf)] at hgown
      cases hgown
    obtain ⟨own₂, h₂, hpt₂, hkeeps, hnew, hnil, -⟩ :=
      h₁.requests_of_trace (Clean.addRoot hclean hmem) (Finset.mem_insert_self ..) hfill
    cases hdestroy with
    | deallocatePageTable hpt hok' =>
      obtain ⟨own₃, h₃, hrem⟩ := h₂.deallocatePageTable hpt hok'
      rw [hg] at hrem hnew
      -- the places are what they were before
      have hown : own₃ = own := by
        funext f
        refine Option.ext fun x => ?_
        rw [hrem.own_iff]
        constructor
        · rintro ⟨hf, hx⟩
          have hf₁ := (hnew hf).resolve_right hx
          rcases eq_or_ne f g with rfl | hne
          · rw [Function.update_self] at hf₁
            cases hf₁
            exact absurd rfl hx
          · rwa [Function.update_of_ne hne] at hf₁
        · intro hf
          refine ⟨hkeeps ?_, hgroot hf⟩
          rw [Function.update_of_ne]
          · exact hf
          · rintro rfl
            rw [hgown] at hf
            cases hf
      subst hown
      constructor
      · have hcount := h.paging.ledger.count
        have hcount₃ := h₃.paging.ledger.count
        omega
      · intro hreq f
        obtain ⟨rfl, rfl⟩ := hnil hreq
        simp only
        rw [hrem.free_iff, hfree, List.mem_cons, or_comm]
        refine or_congr_left ?_
        constructor
        · rintro ⟨x, hf, rfl⟩
          by_contra hne
          rw [Function.update_of_ne hne] at hf
          exact hgroot hf rfl
        · rintro rfl
          exact ⟨_, Function.update_self .., rfl⟩

/-- All frames are free or reachable exactly when no page was ever requested; and a table that is
created, filled and destroyed restores the free frames exactly when no page was requested in it. -/
theorem frames_conserved_iff (hzero : ∀ x : BitVec 64, x >>> 12 ∈ managed K → mem x = 0)
    (hrun : Trace Step (boot K mem) ops s) (hops : ∀ op ∈ ops, op.isStore = false) :
    (s.paging.alloc.numFreePages + s.reachable.ncard = numPages ↔
      ∀ op ∈ ops, op.isAllocateVirtualPage = false) ∧
    ∀ pt requests s', Trace Step s (lifetime pt requests) s' →
      (s'.paging.alloc.numFreePages = s.paging.alloc.numFreePages ∧
        (∀ f, f ∈ s'.paging.alloc.freeList ↔ f ∈ s.paging.alloc.freeList) ↔ requests = []) := by
  obtain ⟨own, h, hclean⟩ := cleanInv_of_trace hzero hrun hops
  constructor
  -- the missing frames are as many as the requests
  · have hcount := h.count_reachable
    have hnone : (∀ op ∈ ops, op.isAllocateVirtualPage = false) ↔
        ops.countP Op.isAllocateVirtualPage = 0 := by
      simp [List.countP_eq_zero]
    rw [hnone]
    omega
  · intro pt requests s' hlife
    obtain ⟨hnum, hfree⟩ := h.lifetime hclean hlife
    constructor
    · rintro ⟨heq, -⟩
      exact List.eq_nil_of_length_eq_zero (by omega)
    · rintro rfl
      exact ⟨hnum, hfree rfl⟩

/-- In the run that allocates one page table all frames are accounted for. -/
theorem frames_conserved_created :
    created.paging.alloc.numFreePages + created.reachable.ncard = numPages :=
  (frames_conserved_iff (fun _ _ => by unfold zeroMem; rfl) (Trace.refl.snoc step_created)
    (by decide)).1.mpr (by decide)

/-- Once a page has been allocated in it, one frame is missing. -/
theorem frames_not_conserved_requested : Trace Step (boot sampleKernel zeroMem)
      [.allocatePageTable sampleTable, .allocateVirtualPage sampleTable sampleRequest] requested ∧
    requested.paging.alloc.numFreePages + requested.reachable.ncard ≠ numPages := by
  have hrun : Trace Step (boot sampleKernel zeroMem)
      [.allocatePageTable sampleTable, .allocateVirtualPage sampleTable sampleRequest] requested :=
    (Trace.refl.snoc step_created).snoc step_requested
  have hcount := numFreePages_add_ncard_reachable (fun _ _ => by unfold zeroMem; rfl) hrun
    (by decide)
  have hone : [Op.allocatePageTable sampleTable,
      Op.allocateVirtualPage sampleTable sampleRequest].countP Op.isAllocateVirtualPage = 1 := rfl
  refine ⟨hrun, ?_⟩
  omega

end Counting

end R5O5.Tables
