import R5O5.Kernel.Paging.Allocate

/-!
# Deallocating a table

`deallocatePageTable` tears a tree down with three nested loops, each an instance of `freeEntries`.
One round of a loop frees the frame an entry points to, after everything below it; a whole loop
frees all that is below its directory.

## Main definitions

- `Clean`: only directories hold valid entries;
- `Removal`: some places of the forest have become free frames;
- `FreesBelow`: the contract of a loop.

## Main results

- `FreesBelow.freeEntries`: a loop meets its contract if the loop inside it does;
- `Paging.Inv.deallocatePageTable`: a whole tree becomes free, and no call fails.
-/

namespace R5O5

/-- The managed frames that are not directories hold no valid entry. -/
def Clean (K : KernelImage) (own : Places) (mem : Mem) : Prop :=
  ∀ f ∈ managed K, (∀ x, own f = some x → 3 ≤ x.2.length) → EmptyDirectory mem f

/-- The places that satisfy `P` have been freed, and memory has changed only in directories at and
below the slots `p` of the tree `t`. -/
structure Removal (K : KernelImage) (t : BitVec 64) (p : List (Fin numPte))
    (P : BitVec 64 × List (Fin numPte) → Prop) (own own' : Places) (s s' : Paging) : Prop where
  own_iff : ∀ {f x}, own' f = some x ↔ own f = some x ∧ ¬P x
  free_iff : ∀ {f}, f ∈ s'.alloc.freeList ↔
    f ∈ s.alloc.freeList ∨ ∃ x, own f = some x ∧ P x
  mem_eq : ∀ {x : BitVec 64}, (∀ q, own (x >>> 12) = some (t, q) → p <+: q → 3 ≤ q.length) →
    s'.mem x = s.mem x
  clean : Clean K own s.mem → Clean K own' s'.mem

namespace Removal

variable {K : KernelImage} {t : BitVec 64} {p p' : List (Fin numPte)}
  {P Q : BitVec 64 × List (Fin numPte) → Prop} {own own' own'' : Places} {s s' s'' : Paging}

theorem rfl_of_not (h : ∀ f x, own f = some x → ¬P x) : Removal K t p P own own s s where
  own_iff := ⟨fun hf => ⟨hf, h _ _ hf⟩, And.left⟩
  free_iff := by
    intro f
    constructor
    · exact Or.inl
    · rintro (hf | ⟨x, hf, hP⟩)
      · exact hf
      · exact absurd hP (h f x hf)
  mem_eq _ := rfl
  clean := id

/-- Freeing some places and then others frees both. -/
theorem trans (h : Removal K t p P own own' s s') (h' : Removal K t p Q own' own'' s' s'') :
    Removal K t p (fun x => P x ∨ Q x) own own'' s s'' where
  own_iff := by
    intro f x
    rw [h'.own_iff, h.own_iff, not_or, and_assoc]
  free_iff := by
    intro f
    rw [h'.free_iff, h.free_iff, or_assoc]
    refine or_congr_right ?_
    constructor
    · rintro (⟨x, hf, hP⟩ | ⟨x, hf, hQ⟩)
      · exact ⟨x, hf, Or.inl hP⟩
      · exact ⟨x, (h.own_iff.mp hf).1, Or.inr hQ⟩
    · rintro ⟨x, hf, hPQ⟩
      by_cases hP : P x
      · exact Or.inl ⟨x, hf, hP⟩
      · exact Or.inr ⟨x, h.own_iff.mpr ⟨hf, hP⟩, hPQ.resolve_left hP⟩
  mem_eq hx := by
    rw [h'.mem_eq fun q hq => hx q (h.own_iff.mp hq).1, h.mem_eq hx]
  clean := fun hclean => h'.clean (h.clean hclean)

/-- What is freed depends on the places in use only. -/
theorem congr (h : Removal K t p P own own' s s') (hPQ : ∀ f x, own f = some x → (P x ↔ Q x)) :
    Removal K t p Q own own' s s' where
  own_iff := by
    intro f x
    rw [h.own_iff]
    exact and_congr_right fun hf => not_congr (hPQ f x hf)
  free_iff := by
    intro f
    rw [h.free_iff]
    exact or_congr_right (exists_congr fun x => and_congr_right fun hf => hPQ f x hf)
  mem_eq := h.mem_eq
  clean := h.clean

/-- What changes below a path changes below any prefix of it. -/
theorem widen (h : Removal K t p P own own' s s') (hp : p' <+: p) :
    Removal K t p' P own own' s s' :=
  { h with mem_eq := fun hx => h.mem_eq fun q hq hpq => hx q hq (hp.trans hpq) }

end Removal

/-- `inner` frees everything below a node at the given depth, and never stops. -/
structure FreesBelow (inner : BitVec 64 → Paging → Except Stop Paging) (depth : ℕ) : Prop where
  frees : ∀ {K live own leaked s f t p}, Paging.Inv K live own leaked s → own f = some (t, p) →
    p.length = depth →
    ∃ s' own', inner (f <<< 12) s = .ok s' ∧ Paging.Inv K live own' leaked s' ∧
      Removal K t p (fun x => x.1 = t ∧ p <+: x.2 ∧ x.2 ≠ p) own own' s s'

section FreeEntries

variable {K : KernelImage} {live : Set (BitVec 64)} {own : Places} {leaked : ℕ} {s : Paging}
  {f g t : BitVec 64} {p : List (Fin numPte)} {i : Fin numPte}

/-- Freeing one node without children and clearing the entry that points to it. -/
theorem Paging.Inv.freeChild (h : Inv K live own leaked s) (hf : own f = some (t, p))
    (hp : p.length < 3) (hchild : child s.mem f i = some g)
    (hempty : p.length + 1 < 3 → EmptyDirectory s.mem g) :
    ∃ a own', freePage g s.alloc = .ok a ∧
      Inv K live own' leaked { alloc := a, mem := s.mem.store64 (slotAddr f i) 0 } ∧
      Removal K t p (· = (t, p ++ [i])) own own' s
        { alloc := a, mem := s.mem.store64 (slotAddr f i) 0 } := by
  have hg := h.owned.own_child hf hp hchild
  have hflt := h.toNat_lt hf
  have hgf : g ≠ f := by
    rintro rfl
    rw [hf] at hg
    simp at hg
  obtain ⟨h', hloose⟩ := h.unlink (m := s.mem.store64 (slotAddr f i) 0) hf hp hchild hempty
    (child_of_entry_zero entry_store64_self)
    fun f' j hf' hne => entry_store64_of_ne hflt hf' hne
  obtain ⟨a, ha, hledger, hfree⟩ := h'.ledger.freePage hloose
  refine ⟨a, Function.update own g none, ha, { h' with ledger := hledger }, ?_⟩
  constructor
  case own_iff => exact h.owned.update_none_iff hg
  case free_iff =>
    intro f'
    dsimp only
    rw [hfree, List.mem_cons, h.owned.exists_own_iff hg, or_comm]
  case mem_eq =>
    intro x hx
    refine store64_slotAddr_of_page_ne hflt ?_
    rintro rfl
    have := hx p hf List.prefix_rfl
    omega
  case clean =>
    intro hclean f' hf' hdir
    have hne : f' ≠ f := by
      rintro rfl
      have := hdir (t, p) (by rw [Function.update_of_ne hgf.symm, hf])
      simp only at this
      omega
    -- the entries of the other frames are as before, and `g` is empty
    have hkeep : EmptyDirectory s.mem f' →
        EmptyDirectory (s.mem.store64 (slotAddr f i) 0) f' := fun hemp =>
      hemp.congr (toNat_lt_of_managed hf') fun x hx =>
        store64_slotAddr_of_page_ne hflt (by rw [hx]; exact hne)
    refine hkeep ?_
    rcases eq_or_ne f' g with rfl | hfg
    · rcases Nat.lt_or_ge (p.length + 1) 3 with hlt | hge
      · exact hempty hlt
      · refine hclean f' hf' fun x hx => ?_
        rw [hg] at hx
        cases hx
        rw [List.length_append, List.length_singleton]
        exact hge
    · exact hclean f' hf' fun x hx => hdir x (by rwa [Function.update_of_ne hfg])

/-- Below a page there is nothing to free. -/
theorem freesBelow_leaf : FreesBelow (fun _ s => return s) 3 := by
  constructor
  intro K live own leaked s f t p h hf hp
  refine ⟨s, own, rfl, h, Removal.rfl_of_not ?_⟩
  rintro f' ⟨t', q⟩ hf' ⟨-, hpq, hne⟩
  have hlen : q.length ≤ p.length := by
    rw [hp]
    exact h.owned.length_le hf'
  exact hne (hpq.eq_of_length_le hlen).symm

/-- Where a loop over the directory at `p` stands after the rounds `done`: what was below their
slots is free. -/
def RoundsDone (K : KernelImage) (live : Set (BitVec 64)) (own : Places) (leaked : ℕ) (s : Paging)
    (t : BitVec 64) (p done : List (Fin numPte)) (s' : Paging) : Prop :=
  ∃ own', Paging.Inv K live own' leaked s' ∧
    Removal K t p (fun x => x.1 = t ∧ ∃ i ∈ done, p ++ [i] <+: x.2) own own' s s'

/-- One round of a loop frees all that is below its slot. -/
theorem FreesBelow.freeEntry {inner : BitVec 64 → Paging → Except Stop Paging} {s₁ : Paging}
    {done : List (Fin numPte)} (hinner : FreesBelow inner (p.length + 1)) (hp : p.length < 3)
    (hf : own f = some (t, p)) (hflt : f.toNat < 2 ^ 44)
    (hdone : RoundsDone K live own leaked s t p done s₁) :
    ∃ s', R5O5.freeEntry inner (f <<< 12) s₁ i = .ok s' ∧
      RoundsDone K live own leaked s t p (done ++ [i]) s' := by
  obtain ⟨own₁, h₁, hrem₁⟩ := hdone
  have hf₁ : own₁ f = some (t, p) := by
    refine hrem₁.own_iff.mpr ⟨hf, ?_⟩
    rintro ⟨-, j, -, hj⟩
    exact Forest.not_append_singleton_prefix _ _ hj
  rw [R5O5.freeEntry, ← slotAddr, isValid_eq]
  cases hchild : child s₁.mem f i with
  | none =>
    refine ⟨s₁, rfl, own₁, h₁, hrem₁.congr ?_⟩
    rintro f' ⟨t', q⟩ hf'
    constructor
    · rintro ⟨rfl, j, hj, hq⟩
      exact ⟨rfl, j, List.mem_append_left _ hj, hq⟩
    · rintro ⟨rfl, j, hj, hq⟩
      refine by_contra fun hnot => ?_
      rcases List.mem_append.mp hj with hj | hj
      · exact hnot ⟨rfl, j, hj, hq⟩
      · obtain rfl := List.mem_singleton.mp hj
        exact h₁.owned.not_below_of_child_eq_none hf₁ hchild hq (hrem₁.own_iff.mpr ⟨hf', hnot⟩)
  | some g =>
    have hg₁ := h₁.owned.own_child hf₁ hp hchild
    obtain ⟨s₂, own₂, hs₂, h₂, hrem₂⟩ := hinner.frees h₁ hg₁ (by simp)
    -- the inner loop leaves this directory alone
    have hf₂ : own₂ f = some (t, p) := by
      refine hrem₂.own_iff.mpr ⟨hf₁, ?_⟩
      rintro ⟨-, hq, -⟩
      exact Forest.not_append_singleton_prefix _ _ hq
    have hentry : entry s₂.mem f i = entry s₁.mem f i := by
      refine entry_congr hflt ?_
      rintro x rfl
      refine hrem₂.mem_eq fun q hq hpq => ?_
      rw [hf₁] at hq
      cases hq
      exact absurd hpq (Forest.not_append_singleton_prefix _ _)
    have hchild₂ : child s₂.mem f i = some g := by rw [child_eq_of_entry_eq hentry, hchild]
    have hempty : p.length + 1 < 3 → EmptyDirectory s₂.mem g := by
      intro hlt j
      refine Option.eq_none_iff_forall_ne_some.mpr fun g' hg' => ?_
      have hg₂ := h₂.owned.own_child hf₂ hp hchild₂
      have hown := h₂.owned.own_child hg₂ (by simpa using hlt) hg'
      refine (hrem₂.own_iff.mp hown).2 ⟨rfl, List.prefix_append .., ?_⟩
      simp
    obtain ⟨a, own₃, ha, h₃, hrem₃⟩ := h₂.freeChild hf₂ hp hchild₂ hempty
    refine ⟨{ alloc := a, mem := s₂.mem.store64 (slotAddr f i) 0 }, ?_, own₃, h₃, ?_⟩
    · rw [Option.isSome_some, if_pos rfl, getPageNum_of_child hchild, hs₂, Except.ok_bind,
        getPageNum_of_child hchild₂, ha]
      rfl
    · refine ((hrem₁.trans (hrem₂.widen (List.prefix_append ..))).trans hrem₃).congr ?_
      rintro f' ⟨t', q⟩ hf'
      constructor
      · rintro ((⟨rfl, j, hj, hq⟩ | ⟨rfl, hq, -⟩) | hq)
        · exact ⟨rfl, j, List.mem_append_left _ hj, hq⟩
        · exact ⟨rfl, i, by simp, hq⟩
        · cases hq
          exact ⟨rfl, i, by simp, List.prefix_rfl⟩
      · rintro ⟨rfl, j, hj, hq⟩
        rcases List.mem_append.mp hj with hj | hj
        · exact Or.inl (Or.inl ⟨rfl, j, hj, hq⟩)
        · obtain rfl := List.mem_singleton.mp hj
          by_cases heq : q = p ++ [j]
          · exact Or.inr (by rw [heq])
          · exact Or.inl (Or.inr ⟨rfl, hq, heq⟩)

/-- A loop over the entries of a directory frees all that is below it. -/
theorem FreesBelow.freeEntries {inner : BitVec 64 → Paging → Except Stop Paging} {depth : ℕ}
    (hinner : FreesBelow inner (depth + 1)) (hdepth : depth < 3) :
    FreesBelow (R5O5.freeEntries inner) depth := by
  constructor
  intro K live own leaked s f t p h hf hp
  subst hp
  -- slot by slot, what is below it becomes free
  have hloop : ∀ slots : List (Fin numPte), ∃ s',
      slots.foldlM (R5O5.freeEntry inner (f <<< 12)) s = .ok s' ∧
        RoundsDone K live own leaked s t p slots s' := by
    intro slots
    refine Except.foldlM_total ⟨own, h, Removal.rfl_of_not (by simp)⟩ ?_
    intro done i rest s₁ _ hdone
    exact hinner.freeEntry hdepth hf (h.toNat_lt hf) hdone
  obtain ⟨s', hs', own', h', hrem⟩ := hloop (List.finRange numPte)
  refine ⟨s', own', hs', h', hrem.congr ?_⟩
  rintro f' ⟨t', q⟩ -
  constructor
  · rintro ⟨rfl, i, -, hq⟩
    refine ⟨rfl, (List.prefix_append ..).trans hq, ?_⟩
    rintro rfl
    exact Forest.not_append_singleton_prefix _ _ hq
  · rintro ⟨rfl, ⟨r, rfl⟩, hne⟩
    cases r with
    | nil => simp at hne
    | cons i r => exact ⟨rfl, i, List.mem_finRange i, r, by simp⟩

end FreeEntries

/-- Deallocating a live table frees exactly its nodes and never stops. -/
theorem Paging.Inv.deallocatePageTable {K : KernelImage} {live : Set (BitVec 64)} {own : Places}
    {leaked : ℕ} {s : Paging} {t : BitVec 64} (h : Inv K live own leaked s) (ht : t ∈ live) :
    ∃ s' own', R5O5.deallocatePageTable (t <<< 12) s = .ok s' ∧
      Inv K (live \ {t}) own' leaked s' ∧ Removal K t [] (fun x => x.1 = t) own own' s s' := by
  have hloops : FreesBelow (freeEntries freeLevel1) 0 :=
    ((freesBelow_leaf.freeEntries (by decide)).freeEntries (by decide)).freeEntries (by decide)
  have htown := h.owned.own_root ht
  obtain ⟨s₁, own₁, hs₁, h₁, hrem₁⟩ := hloops.frees h htown rfl
  have ht₁ : own₁ t = some (t, []) := hrem₁.own_iff.mpr ⟨htown, by simp⟩
  -- without nodes below, the root is an empty directory and can go
  have hempty : EmptyDirectory s₁.mem t := by
    intro j
    refine Option.eq_none_iff_forall_ne_some.mpr fun g hg => ?_
    exact (hrem₁.own_iff.mp (h₁.owned.own_child ht₁ (by simp) hg)).2 ⟨rfl, by simp, by simp⟩
  obtain ⟨h₂, hloose⟩ := h₁.removeRoot ht hempty
  obtain ⟨a, ha, hledger, hfree⟩ := h₂.ledger.freePage hloose
  have hpage := page_shiftLeft (h.toNat_lt htown)
  refine ⟨{ s₁ with alloc := a }, Function.update own₁ t none, ?_, { h₂ with ledger := hledger },
    ?_⟩
  · rw [R5O5.deallocatePageTable, hs₁, Except.ok_bind, hpage, ha]
    rfl
  -- the last step frees the root itself
  · have hroot : Removal K t [] (· = (t, [])) own₁ (Function.update own₁ t none) s₁
        { s₁ with alloc := a } := by
      constructor
      case own_iff => exact h₁.owned.update_none_iff ht₁
      case free_iff =>
        intro f
        dsimp only
        rw [hfree, List.mem_cons, h₁.owned.exists_own_iff ht₁, or_comm]
      case mem_eq => exact fun _ => rfl
      case clean =>
        intro hclean f hf hdir
        rcases eq_or_ne f t with rfl | hne
        · exact hempty
        · exact hclean f hf fun x hx => hdir x (by rwa [Function.update_of_ne hne])
    refine (hrem₁.trans hroot).congr ?_
    rintro f ⟨t', q⟩ -
    constructor
    · rintro (⟨rfl, -⟩ | hq)
      · rfl
      · cases hq
        rfl
    · rintro rfl
      by_cases hq : q = []
      · exact Or.inr (by rw [hq])
      · exact Or.inl ⟨rfl, List.nil_prefix, hq⟩

end R5O5
