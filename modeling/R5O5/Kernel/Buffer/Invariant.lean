import R5O5.Kernel.Buffer
import R5O5.Lib.Trace

/-!
# The invariant of the buffer cache

The buffers form a ring, and no two buffers in use carry the same block. The second part rests on
the order of the list: all buffers start with block 0, and the buffer that really holds block 0
comes before those that were never used.

## Main definitions

- `BufferCache.Inv`: the invariant, over the order of the list;
- `Session.Step`: `bread` and `brelse` with the number of outstanding reads of each buffer.

## Main results

- `BufferCache.Inv.bread`, `BufferCache.Inv.brelse`: what the operations do to the cache;
- `cache_invariant`: the ring, the reference counts and the blocks in every run.
-/

namespace R5O5

/-- The buffers are linked in this order. Buffers that were never used are invalid, without
references and marked with block 0; no two valid buffers carry one block. -/
structure BufferCache.Inv (c : BufferCache) (order : List BufRef) : Prop where
  ring : Ring.IsRing c.links .head order
  complete : ∀ i, .buf i ∈ order
  valid_of_refcnt : ∀ {b}, b ∈ order → (c.buf b).refcnt ≠ 0 → (c.buf b).valid = true
  blockno_of_invalid : ∀ {b}, b ∈ order → (c.buf b).valid = false → (c.buf b).blockno = 0
  unique : ∀ {a b}, a ∈ order → b ∈ order → (c.buf a).valid = true → (c.buf b).valid = true →
    (c.buf a).blockno = (c.buf b).blockno → a = b
  /-- No unused buffer comes before a valid one with block 0. -/
  live_first : order.Pairwise fun a b =>
    (c.buf a).valid = false → (c.buf b).valid = true → (c.buf b).blockno ≠ 0

/-- The buffer `bget` returns: the first one that carries the block, or if there is none the last
one without references. -/
def Chosen (c : BufferCache) (order : List BufRef) (blockno : BitVec 32) (b : BufRef) : Prop :=
  ∃ before after, order = before ++ b :: after ∧
    ((c.buf b).blockno = blockno ∧ (∀ a ∈ before, (c.buf a).blockno ≠ blockno) ∨
      (∀ a ∈ order, (c.buf a).blockno ≠ blockno) ∧ (c.buf b).refcnt = 0 ∧
        ∀ a ∈ after, (c.buf a).refcnt ≠ 0)

/-- What `bread` makes of the buffer it returns. -/
def Buffer.touch (disk : ℕ → BitVec 8) (blockno : BitVec 32) (x : Buffer) : Buffer where
  valid := true
  blockno := blockno
  refcnt := x.refcnt + 1
  data := if x.valid ∧ x.blockno = blockno then x.data else blockData disk blockno.toNat

section Lists

/-- The list around the first element that a search finds. -/
theorem exists_split_of_find? {α : Type*} {p : α → Bool} {l : List α} {a : α}
    (h : l.find? p = some a) :
    ∃ before after, l = before ++ a :: after ∧ p a = true ∧ ∀ x ∈ before, p x = false := by
  obtain ⟨ha, before, after, rfl, hbefore⟩ := List.find?_eq_some_iff_append.mp h
  exact ⟨before, after, rfl, ha, fun x hx => by simpa using hbefore x hx⟩

/-- A pairwise relation may change at one element. -/
theorem pairwise_of_split {α : Type*} {R R' : α → α → Prop} {before after : List α} {b : α}
    (h : (before ++ b :: after).Pairwise R) (hnodup : (before ++ b :: after).Nodup)
    (hbefore : ∀ a ∈ before, R' a b) (hafter : ∀ a ∈ after, R' b a)
    (hother : ∀ x y, x ≠ b → y ≠ b → R x y → R' x y) : (before ++ b :: after).Pairwise R' := by
  rw [List.nodup_append, List.nodup_cons] at hnodup
  obtain ⟨-, ⟨hb, -⟩, hdisj⟩ := hnodup
  have hne : ∀ x ∈ before, x ≠ b := fun x hx => hdisj x hx b List.mem_cons_self
  have hne' : ∀ x ∈ after, x ≠ b := by
    rintro x hx rfl
    exact hb hx
  rw [List.pairwise_append, List.pairwise_cons] at h ⊢
  obtain ⟨hpre, ⟨-, hpost⟩, hcross⟩ := h
  refine ⟨hpre.imp_of_mem fun hx hy => hother _ _ (hne _ hx) (hne _ hy),
    ⟨hafter, hpost.imp_of_mem fun hx hy => hother _ _ (hne' _ hx) (hne' _ hy)⟩, ?_⟩
  intro x hx y hy
  rcases List.mem_cons.mp hy with rfl | hy
  · exact hbefore x hx
  · exact hother x y (hne x hx) (hne' y hy) (hcross x hx y (List.mem_cons_of_mem _ hy))

end Lists

namespace BufferCache

@[simp]
theorem modify_same (c : BufferCache) (b : BufRef) (f : Buffer → Buffer) :
    (c.modify b f).buf b = f (c.buf b) :=
  Function.update_self ..

theorem modify_of_ne (c : BufferCache) {a b : BufRef} (f : Buffer → Buffer) (h : a ≠ b) :
    (c.modify b f).buf a = c.buf a :=
  Function.update_of_ne h ..

@[simp]
theorem modify_modify (c : BufferCache) (b : BufRef) (f g : Buffer → Buffer) :
    (c.modify b f).modify b g = c.modify b (g ∘ f) := by
  simp [modify]

theorem modify_congr {c : BufferCache} {b : BufRef} {f g : Buffer → Buffer}
    (h : f (c.buf b) = g (c.buf b)) : c.modify b f = c.modify b g := by
  rw [modify, modify, h]

/-- Moving a released buffer changes the list only. -/
theorem buf_brelse (b : BufRef) (c : BufferCache) :
    (R5O5.brelse b c).buf = (c.modify b fun x => { x with refcnt := x.refcnt - 1 }).buf := by
  rw [R5O5.brelse]
  split <;> rfl

end BufferCache

namespace BufferCache.Inv

variable {c : BufferCache} {order : List BufRef} {b : BufRef} {blockno : BitVec 32}
  {disk : ℕ → BitVec 8}

/-- The order lists each buffer at most once. -/
theorem length_le (h : Inv c order) : order.length ≤ nbuf := by
  have hnodup : order.Nodup := (List.nodup_cons.mp h.ring.nodup).2
  have hsub : order ⊆ (List.finRange nbuf).map .buf := by
    intro b hb
    cases b with
    | head => exact absurd hb (List.nodup_cons.mp h.ring.nodup).1
    | buf i => exact List.mem_map_of_mem (List.mem_finRange i)
  have hlen := (hnodup.subperm hsub).length_le
  rwa [List.length_map, List.length_finRange] at hlen

/-- The order lists all buffers but the head. -/
theorem mem_iff (h : Inv c order) : b ∈ order ↔ b ≠ .head := by
  constructor
  · rintro hb rfl
    exact (List.nodup_cons.mp h.ring.nodup).1 hb
  · intro hb
    cases b with
    | head => exact absurd rfl hb
    | buf i => exact h.complete i

/-- The searches of `bget`. -/
theorem bget_cases (h : Inv c order) (blockno : BitVec 32) :
    (∃ b, Chosen c order blockno b ∧ (c.buf b).blockno = blockno ∧
      bget blockno c = .ok (b, c.modify b fun x => { x with refcnt := x.refcnt + 1 })) ∨
    (∃ b, Chosen c order blockno b ∧ (c.buf b).blockno ≠ blockno ∧ (c.buf b).refcnt = 0 ∧
      bget blockno c =
        .ok (b, c.modify b fun x => { x with blockno := blockno, valid := false, refcnt := 1 })) ∨
    ((∀ a ∈ order, (c.buf a).blockno ≠ blockno ∧ (c.buf a).refcnt ≠ 0) ∧
      bget blockno c = .error (.error "bget: no buffers")) := by
  have hfuel : order.length < nbuf + 1 := Nat.lt_succ_of_le h.length_le
  rw [bget, h.ring.find_next hfuel, h.ring.find_prev hfuel]
  -- the first loop looks for the block, from the front of the list
  cases hfind : order.find? fun b => (c.buf b).blockno = blockno with
  | some b =>
    obtain ⟨before, after, horder, hb, hbefore⟩ := exists_split_of_find? hfind
    rw [decide_eq_true_iff] at hb
    exact Or.inl ⟨b, ⟨before, after, horder, Or.inl ⟨hb, fun a ha => by simpa using hbefore a ha⟩⟩,
      hb, rfl⟩
  | none =>
    have hmiss : ∀ a ∈ order, (c.buf a).blockno ≠ blockno := fun a ha => by
      simpa using List.find?_eq_none.mp hfind a ha
    -- the second loop looks for a free buffer, from the back
    cases hfind' : order.reverse.find? fun b => (c.buf b).refcnt = 0 with
    | some b =>
      obtain ⟨after, before, horder, hb, hafter⟩ := exists_split_of_find? hfind'
      rw [decide_eq_true_iff] at hb
      have horder' : order = before.reverse ++ b :: after.reverse := by
        rw [← List.reverse_reverse order, horder]
        simp
      have hlast : ∀ a ∈ after.reverse, (c.buf a).refcnt ≠ 0 := fun a ha => by
        simpa using hafter a (List.mem_reverse.mp ha)
      exact Or.inr (Or.inl ⟨b, ⟨_, _, horder', Or.inr ⟨hmiss, hb, hlast⟩⟩,
        hmiss b (by simp [horder']), hb, rfl⟩)
    | none =>
      refine Or.inr (Or.inr ⟨fun a ha => ⟨hmiss a ha, ?_⟩, rfl⟩)
      simpa using List.find?_eq_none.mp hfind' a (List.mem_reverse.mpr ha)

/-- `bread` touches the chosen buffer and nothing else; it fails when the block is in no buffer and
all of them have references. -/
theorem bread_cases (h : Inv c order) (disk : ℕ → BitVec 8) (blockno : BitVec 32) :
    (∃ b, Chosen c order blockno b ∧
      bread blockno ⟨c, disk⟩ = .ok (b, ⟨c.modify b (Buffer.touch disk blockno), disk⟩)) ∨
    ((∀ a ∈ order, (c.buf a).blockno ≠ blockno ∧ (c.buf a).refcnt ≠ 0) ∧
      bread blockno ⟨c, disk⟩ = .error (.error "bget: no buffers")) := by
  rcases h.bget_cases blockno with ⟨b, hb, hblock, hget⟩ | ⟨b, hb, hne, hfree, hget⟩ |
    ⟨hnone, hget⟩
  · refine Or.inl ⟨b, hb, ?_⟩
    rw [bread, hget, Except.ok_bind]
    -- a buffer that carries the block may still have to be read
    cases hvalid : (c.buf b).valid with
    | true =>
      simp only [modify_same, hvalid, if_true]
      congr 3
      exact modify_congr (by simp [Buffer.touch, hvalid, hblock])
    | false =>
      simp only [modify_same, hvalid, Bool.false_eq_true, if_false, diskRW, modify_modify]
      congr 3
      exact modify_congr (by simp [Buffer.touch, hvalid, hblock])
  · refine Or.inl ⟨b, hb, ?_⟩
    rw [bread, hget, Except.ok_bind]
    simp only [modify_same, Bool.false_eq_true, if_false, diskRW, modify_modify]
    congr 3
    exact modify_congr (by simp [Buffer.touch, hne, hfree])
  · refine Or.inr ⟨hnone, ?_⟩
    rw [bread, hget, Except.error_bind]

/-- The buffer that `bget` chooses is on the list. -/
theorem mem_of_chosen (hb : Chosen c order blockno b) : b ∈ order := by
  obtain ⟨before, after, rfl, -⟩ := hb
  simp

/-- A valid buffer that carries the block is the one chosen. -/
theorem eq_of_chosen (h : Inv c order) (hb : Chosen c order blockno b) {a : BufRef} (ha : a ∈ order)
    (hvalid : (c.buf a).valid = true) (hblock : (c.buf a).blockno = blockno) : a = b := by
  have hbmem := mem_of_chosen hb
  obtain ⟨before, after, horder, ⟨hblock', hfirst⟩ | ⟨hmiss, -⟩⟩ := hb
  · cases hvalid' : (c.buf b).valid with
    | true => exact h.unique ha hbmem hvalid hvalid' (by rw [hblock, hblock'])
    | false =>
      -- an unused buffer carries block 0, and so the valid one would come before it
      have hzero := h.blockno_of_invalid hbmem hvalid'
      rw [horder, List.mem_append, List.mem_cons] at ha
      rcases ha with ha | rfl | ha
      · exact absurd hblock (hfirst a ha)
      · rfl
      · have hpair := h.live_first
        rw [horder, List.pairwise_append, List.pairwise_cons] at hpair
        refine absurd ?_ (hpair.2.1.1 a ha hvalid' hvalid)
        rw [hblock, ← hblock', hzero]
  · exact absurd hblock (hmiss a ha)

/-- The chosen buffer can be touched. -/
theorem touch (h : Inv c order) (hb : Chosen c order blockno b) :
    Inv (c.modify b (Buffer.touch disk blockno)) order := by
  have hbmem := mem_of_chosen hb
  -- a valid buffer with this block would have been chosen
  have hnew : ∀ a ∈ order, a ≠ b → (c.buf a).valid = true → (c.buf a).blockno ≠ blockno :=
    fun a ha hab hvalid hblock => hab (h.eq_of_chosen hb ha hvalid hblock)
  constructor
  case ring => exact h.ring
  case complete => exact h.complete
  case valid_of_refcnt =>
    intro a ha hrefcnt
    rcases eq_or_ne a b with rfl | hab
    · rw [modify_same]
      rfl
    · rw [modify_of_ne _ _ hab] at *
      exact h.valid_of_refcnt ha hrefcnt
  case blockno_of_invalid =>
    intro a ha hinvalid
    rcases eq_or_ne a b with rfl | hab
    · rw [modify_same] at hinvalid
      cases hinvalid
    · rw [modify_of_ne _ _ hab] at *
      exact h.blockno_of_invalid ha hinvalid
  case unique =>
    intro a a' ha ha' hvalid hvalid' hblock
    by_cases hab : a = b <;> by_cases hab' : a' = b
    · rw [hab, hab']
    · rw [hab, modify_same, modify_of_ne _ _ hab'] at hblock
      rw [modify_of_ne _ _ hab'] at hvalid'
      exact absurd hblock.symm (hnew a' ha' hab' hvalid')
    · rw [hab', modify_same, modify_of_ne _ _ hab] at hblock
      rw [modify_of_ne _ _ hab] at hvalid
      exact absurd hblock (hnew a ha hab hvalid)
    · rw [modify_of_ne _ _ hab, modify_of_ne _ _ hab'] at hblock
      rw [modify_of_ne _ _ hab] at hvalid
      rw [modify_of_ne _ _ hab'] at hvalid'
      exact h.unique ha ha' hvalid hvalid' hblock
  case live_first =>
    obtain ⟨before, after, horder, hwhy⟩ := hb
    -- an unused buffer before the chosen one carries block 0, so the block is another one
    have hbefore : ∀ a ∈ before, (c.buf a).valid = false → blockno ≠ 0 := by
      rintro a ha hinvalid rfl
      have hamem : a ∈ order := by simp [horder, ha]
      have hzero := h.blockno_of_invalid hamem hinvalid
      rcases hwhy with ⟨-, hfirst⟩ | ⟨hmiss, -⟩
      · exact hfirst a ha hzero
      · exact hmiss a hamem hzero
    have hnodup := (List.nodup_cons.mp h.ring.nodup).2
    have hpair := h.live_first
    rw [horder] at hnodup hpair ⊢
    refine pairwise_of_split hpair hnodup ?_ ?_ ?_
    · intro a ha hinvalid _
      rw [List.nodup_append] at hnodup
      rw [modify_of_ne _ _ (hnodup.2.2 a ha b List.mem_cons_self)] at hinvalid
      rw [modify_same]
      exact hbefore a ha hinvalid
    · intro a _ hinvalid
      rw [modify_same] at hinvalid
      cases hinvalid
    · intro x y hx hy hxy
      rwa [modify_of_ne _ _ hx, modify_of_ne _ _ hy]

/-- Changes that keep the block of a buffer and whether it is valid. -/
theorem modify (h : Inv c order) {f : Buffer → Buffer}
    (hvalid : (f (c.buf b)).valid = (c.buf b).valid)
    (hblockno : (f (c.buf b)).blockno = (c.buf b).blockno)
    (hrefcnt : (f (c.buf b)).refcnt ≠ 0 → (c.buf b).valid = true) :
    Inv (c.modify b f) order := by
  -- the change is seen in the buffer's data and reference count only
  have hfields : ∀ a, ((c.modify b f).buf a).valid = (c.buf a).valid ∧
      ((c.modify b f).buf a).blockno = (c.buf a).blockno := by
    intro a
    rcases eq_or_ne a b with rfl | hab
    · rw [modify_same]
      exact ⟨hvalid, hblockno⟩
    · rw [modify_of_ne _ _ hab]
      exact ⟨rfl, rfl⟩
  constructor
  case ring => exact h.ring
  case complete => exact h.complete
  case valid_of_refcnt =>
    intro a ha hne
    rw [(hfields a).1]
    rcases eq_or_ne a b with rfl | hab
    · rw [modify_same] at hne
      exact hrefcnt hne
    · rw [modify_of_ne _ _ hab] at hne
      exact h.valid_of_refcnt ha hne
  case blockno_of_invalid =>
    intro a ha
    rw [(hfields a).1, (hfields a).2]
    exact h.blockno_of_invalid ha
  case unique =>
    intro a a' ha ha'
    rw [(hfields a).1, (hfields a').1, (hfields a).2, (hfields a').2]
    exact h.unique ha ha'
  case live_first =>
    refine h.live_first.imp fun {x y} hxy => ?_
    rwa [(hfields x).1, (hfields y).1, (hfields y).2]

/-- A valid buffer can be released. It moves to the front if no references are left, and otherwise
the order stays. -/
theorem brelse_order (h : Inv c order) (hb : b ∈ order) (hvalid : (c.buf b).valid = true) :
    ∃ order', Inv (R5O5.brelse b c) order' ∧
      (order' = order ∧ ((R5O5.brelse b c).buf b).refcnt ≠ 0 ∨
        order' = b :: order.erase b ∧ ((R5O5.brelse b c).buf b).refcnt = 0) := by
  have hmod : Inv (c.modify b fun x => { x with refcnt := x.refcnt - 1 }) order :=
    h.modify rfl rfl fun _ => hvalid
  rw [R5O5.brelse]
  split
  case isFalse hrefs => exact ⟨order, hmod, Or.inl ⟨rfl, hrefs⟩⟩
  case isTrue hrefs =>
    -- the buffer moves to the front; it is valid, and no unused buffer moves
    obtain ⟨before, after, rfl⟩ := List.append_of_mem hb
    have hring := hmod.ring.unlink
    have hperm : (before ++ b :: after).Perm (b :: (before ++ after)) := List.perm_middle
    have hnodup := hmod.ring.nodup
    have hbnot : b ∉ .head :: (before ++ after) := by
      have hnodup' := (hperm.cons BufRef.head).nodup_iff.mp hnodup
      rw [List.nodup_cons, List.mem_cons, not_or, List.nodup_cons] at hnodup'
      rw [List.mem_cons, not_or]
      exact ⟨Ne.symm hnodup'.1.1, hnodup'.2.1⟩
    have herase : (before ++ b :: after).erase b = before ++ after := by
      rw [List.erase_append_right _ fun hmem => hbnot (by simp [hmem]), List.erase_cons_head]
    refine ⟨b :: (before ++ after), ?_, Or.inr ⟨by rw [herase], hrefs⟩⟩
    constructor
    case ring => exact hring.pushFront hbnot
    case complete => exact fun i => hperm.mem_iff.mp (hmod.complete i)
    case valid_of_refcnt => exact fun ha => hmod.valid_of_refcnt (hperm.mem_iff.mpr ha)
    case blockno_of_invalid => exact fun ha => hmod.blockno_of_invalid (hperm.mem_iff.mpr ha)
    case unique =>
      exact fun ha ha' => hmod.unique (hperm.mem_iff.mpr ha) (hperm.mem_iff.mpr ha')
    case live_first =>
      refine List.pairwise_cons.mpr ⟨fun a _ hinvalid => ?_, ?_⟩
      · simp only [modify_same, hvalid] at hinvalid
        cases hinvalid
      · exact hmod.live_first.sublist
          (List.Sublist.append_left (List.sublist_cons_self ..) _)

/-- Releasing a valid buffer keeps the invariant, in another order. -/
theorem brelse (h : Inv c order) (hb : b ∈ order) (hvalid : (c.buf b).valid = true) :
    ∃ order', Inv (R5O5.brelse b c) order' :=
  (h.brelse_order hb hvalid).imp fun _ horder => horder.1

end BufferCache.Inv

/-! ## Runs -/

/-- The buffer cache before `binit`: zeros, with whatever the pointers are read as. -/
def zeroCache (links : Ring.Links BufRef) : BufferCache where
  buf _ := { valid := false, blockno := 0, refcnt := 0, data := fun _ => 0 }
  links := links

/-- The order after `binit`. -/
def bootOrder : List BufRef := ((List.finRange nbuf).map .buf).reverse

/-- Reading and releasing buffers. -/
inductive BufferOp
  /-- `bread` of this block returns the buffer. -/
  | bread (blockno : BitVec 32) (b : BufRef)
  | brelse (b : BufRef)
  deriving DecidableEq, Repr

/-- The cache, and how many reads of each buffer have not been released. -/
structure Session where
  cache : BufferCache
  outstanding : BufRef → ℕ

namespace Session

/-- The state after `binit`. -/
def boot (links : Ring.Links BufRef) : Session where
  cache := binit (zeroCache links)
  outstanding _ := 0

/-- One operation; the contents of the disk may be different every time. -/
inductive Step : Session → BufferOp → Session → Prop
  | bread {s : Session} {blockno : BitVec 32} {b : BufRef} {disk : ℕ → BitVec 8} {io : CachedDisk} :
      R5O5.bread blockno ⟨s.cache, disk⟩ = .ok (b, io) →
      Step s (.bread blockno b)
        { cache := io.cache
          outstanding := Function.update s.outstanding b (s.outstanding b + 1) }
  | brelse {s : Session} {b : BufRef} :
      0 < s.outstanding b →
      Step s (.brelse b)
        { cache := R5O5.brelse b s.cache
          outstanding := Function.update s.outstanding b (s.outstanding b - 1) }

/-- The buffer is held or valid. -/
def InUse (s : Session) (b : BufRef) : Prop :=
  (s.cache.buf b).refcnt ≠ 0 ∨ (s.cache.buf b).valid = true

/-- The invariant of the runs. -/
structure Inv (s : Session) (order : List BufRef) : Prop where
  cache : s.cache.Inv order
  /-- A reference count holds 32 bits. -/
  refcnt : ∀ b ≠ BufRef.head, (s.cache.buf b).refcnt.toNat = s.outstanding b % 2 ^ 32
  valid_of_outstanding : ∀ b, 0 < s.outstanding b → b ≠ .head ∧ (s.cache.buf b).valid = true

section Runs

variable {s s' : Session} {order : List BufRef} {links : Ring.Links BufRef} {ops : List BufferOp}
  {b : BufRef} {blockno : BitVec 32}

theorem inv_binit : (binit (zeroCache links)).Inv bootOrder where
  ring := by
    have hempty : Ring.IsRing
        (⟨Function.update links.next .head .head, Function.update links.prev .head .head⟩ :
          Ring.Links BufRef) .head [] :=
      Ring.isRing_nil (by simp) (by simp)
    have hnodup : ((List.finRange nbuf).map BufRef.buf ++ [BufRef.head]).Nodup := by decide +kernel
    have hring := hempty.foldl_pushFront hnodup
    rw [List.append_nil, List.foldl_map] at hring
    exact hring
  complete i := by
    rw [bootOrder, List.mem_reverse]
    exact List.mem_map_of_mem (List.mem_finRange i)
  valid_of_refcnt _ h := absurd rfl h
  blockno_of_invalid _ _ := rfl
  unique _ _ h := by cases h
  live_first := List.pairwise_of_forall fun _ _ _ h => by cases h

/-- The invariant holds at boot. -/
theorem inv_boot : Inv (boot links) bootOrder where
  cache := inv_binit
  refcnt _ _ := rfl
  valid_of_outstanding _ h := absurd h (Nat.lt_irrefl 0)

/-- A `bread` keeps the invariant and the order. -/
theorem Inv.bread (h : Inv s order) {disk : ℕ → BitVec 8} {io : CachedDisk}
    (hok : R5O5.bread blockno ⟨s.cache, disk⟩ = .ok (b, io)) :
    Inv { cache := io.cache
          outstanding := Function.update s.outstanding b (s.outstanding b + 1) } order := by
  rcases h.cache.bread_cases disk blockno with ⟨b', hb, hread⟩ | ⟨-, hread⟩
  · rw [hok] at hread
    cases hread
    have hmem := BufferCache.Inv.mem_of_chosen hb
    -- one more reference for the buffer that is chosen, and for no other
    refine ⟨h.cache.touch hb, fun a ha => ?_, fun a ha => ?_⟩
    · rcases eq_or_ne a b with rfl | hab
      · have hcount := h.refcnt a ha
        simp only [BufferCache.modify_same, Buffer.touch, Function.update_self, BitVec.toNat_add]
        rw [hcount, show (1 : BitVec 32).toNat = 1 from rfl, Nat.mod_add_mod]
      · simp only [BufferCache.modify_of_ne _ _ hab, Function.update_of_ne hab]
        exact h.refcnt a ha
    · rcases eq_or_ne a b with rfl | hab
      · exact ⟨h.cache.mem_iff.mp hmem, by simp [Buffer.touch]⟩
      · simp only [Function.update_of_ne hab] at ha
        simp only [BufferCache.modify_of_ne _ _ hab]
        exact h.valid_of_outstanding a ha
  · rw [hok] at hread
    cases hread

/-- A `brelse` by a caller that holds the buffer keeps the invariant. -/
theorem Inv.brelse (h : Inv s order) (hb : 0 < s.outstanding b) :
    ∃ order', Inv { cache := R5O5.brelse b s.cache
                    outstanding := Function.update s.outstanding b (s.outstanding b - 1) }
        order' ∧
      (order' = order ∧ ((R5O5.brelse b s.cache).buf b).refcnt ≠ 0 ∨
        order' = b :: order.erase b ∧ ((R5O5.brelse b s.cache).buf b).refcnt = 0) := by
  obtain ⟨hhead, hvalid⟩ := h.valid_of_outstanding b hb
  obtain ⟨order', horder', hmove⟩ := h.cache.brelse_order (h.cache.mem_iff.mpr hhead) hvalid
  refine ⟨order', ⟨horder', fun a ha => ?_, fun a ha => ?_⟩, hmove⟩
  · simp only [BufferCache.buf_brelse]
    rcases eq_or_ne a b with rfl | hab
    · have hcount := h.refcnt a ha
      -- the count is not 0, so the subtraction does not wrap around
      simp only [BufferCache.modify_same, Function.update_self, BitVec.toNat_sub]
      rw [hcount, show (1 : BitVec 32).toNat = 1 from rfl]
      omega
    · simp only [BufferCache.modify_of_ne _ _ hab, Function.update_of_ne hab]
      exact h.refcnt a ha
  · simp only [BufferCache.buf_brelse]
    rcases eq_or_ne a b with rfl | hab
    · exact ⟨hhead, by simpa using hvalid⟩
    · simp only [Function.update_of_ne hab] at ha
      simp only [BufferCache.modify_of_ne _ _ hab]
      exact h.valid_of_outstanding a ha

/-- The invariant holds in every run. -/
theorem inv_of_trace (hrun : Trace Step (boot links) ops s) : ∃ order, Inv s order := by
  refine hrun.invariant (I := fun s => ∃ order, Inv s order) ⟨_, inv_boot⟩ ?_
  rintro s op s' ⟨order, h⟩ hstep
  cases hstep with
  | bread hok => exact ⟨order, h.bread hok⟩
  | brelse hb => exact (h.brelse hb).imp fun _ horder => horder.1

/-- A buffer that a caller holds is valid. -/
theorem Inv.valid_of_inUse (h : Inv s order) (hb : b ≠ .head) (huse : s.InUse b) :
    (s.cache.buf b).valid = true :=
  huse.elim (h.cache.valid_of_refcnt (h.cache.mem_iff.mpr hb)) id

/-- In every run the list is a ring of all buffers; the reference counts are the numbers of
outstanding reads modulo `2 ^ 32`; no two buffers in use carry one block, and `bread` returns the
buffer in use that carries its block if there is one. -/
theorem cache_invariant (hrun : Trace Step (boot links) ops s) :
    (∃ order, Ring.IsRing s.cache.links .head order ∧ ∀ b, b ∈ order ↔ b ≠ .head) ∧
    (∀ b ≠ BufRef.head, (s.cache.buf b).refcnt.toNat = s.outstanding b % 2 ^ 32) ∧
    (∀ a b, a ≠ .head → b ≠ .head → s.InUse a → s.InUse b →
      (s.cache.buf a).blockno = (s.cache.buf b).blockno → a = b) ∧
    (∀ blockno disk b io, bread blockno ⟨s.cache, disk⟩ = .ok (b, io) →
      ∀ a, a ≠ .head → s.InUse a → (s.cache.buf a).blockno = blockno → a = b) := by
  obtain ⟨order, h⟩ := inv_of_trace hrun
  refine ⟨⟨order, h.cache.ring, fun b => h.cache.mem_iff⟩, h.refcnt, ?_, ?_⟩
  · intro a b ha hb husea huseb hblock
    exact h.cache.unique (h.cache.mem_iff.mpr ha) (h.cache.mem_iff.mpr hb)
      (h.valid_of_inUse ha husea) (h.valid_of_inUse hb huseb) hblock
  · intro blockno disk b io hok a ha huse hblock
    rcases h.cache.bread_cases disk blockno with ⟨b', hb', hread⟩ | ⟨-, hread⟩
    · rw [hok] at hread
      cases hread
      exact h.cache.eq_of_chosen hb' (h.cache.mem_iff.mpr ha) (h.valid_of_inUse ha huse) hblock
    · rw [hok] at hread
      cases hread

/-! ### Many reads of one block -/

/-- The block in a buffer can be read any number of times. -/
theorem Inv.exists_replicate (h : Inv s order) (hb : b ∈ order) (blockno : BitVec 32)
    (hvalid : (s.cache.buf b).valid = true) (hblock : (s.cache.buf b).blockno = blockno) (n : ℕ) :
    ∃ s', Trace Step s (List.replicate n (.bread blockno b)) s' ∧ Inv s' order ∧
      s'.outstanding b = s.outstanding b + n ∧ (s'.cache.buf b).valid = true ∧
      (s'.cache.buf b).blockno = blockno ∧ ∀ a ≠ b, s'.cache.buf a = s.cache.buf a := by
  -- the block is found in its buffer each time
  induction n with
  | zero => exact ⟨s, .refl, h, rfl, hvalid, hblock, fun a _ => rfl⟩
  | succ n ih =>
    obtain ⟨s₁, hrun, h₁, hcount, hvalid₁, hblock₁, hother⟩ := ih
    rcases h₁.cache.bread_cases (fun _ => 0) blockno with ⟨b', hb', hread⟩ | ⟨hnone, -⟩
    · obtain rfl := h₁.cache.eq_of_chosen hb' hb hvalid₁ hblock₁
      refine ⟨_, ?_, h₁.bread hread, ?_, ?_, ?_, fun a hab => ?_⟩
      · rw [List.replicate_succ']
        exact hrun.snoc (.bread hread)
      · simp only [Function.update_self, hcount]
        omega
      · simp only [BufferCache.modify_same, Buffer.touch]
      · simp only [BufferCache.modify_same, Buffer.touch]
      · exact (BufferCache.modify_of_ne _ _ hab).trans (hother a hab)
    · exact absurd hblock₁ (hnone b hb).1

/-- The buffer at the front after `binit`. -/
def firstBuf : BufRef := .buf ⟨29, by decide⟩

/-- Reading block 0 any number of times holds the buffer at the front. -/
theorem trace_replicate (links : Ring.Links BufRef) (n : ℕ) :
    ∃ s, Trace Step (boot links) (List.replicate n (.bread 0 firstBuf)) s ∧
      s.outstanding firstBuf = n ∧ (s.cache.buf firstBuf).blockno = 0 ∧ Inv s bootOrder := by
  cases n with
  | zero => exact ⟨boot links, .refl, rfl, rfl, inv_boot⟩
  | succ n =>
    have hboot : Inv (boot links) bootOrder := inv_boot
    obtain ⟨rest, hrest⟩ : ∃ rest, bootOrder = firstBuf :: rest :=
      ⟨bootOrder.tail, (List.cons_head?_tail (by decide +kernel)).symm⟩
    have hmem : firstBuf ∈ bootOrder := by rw [hrest]; exact List.mem_cons_self
    have hblock : ∀ a, ((boot links).cache.buf a).blockno = 0 := fun _ => rfl
    rcases hboot.cache.bread_cases (fun _ => 0) 0 with ⟨b, hb, hread⟩ | ⟨hnone, -⟩
    case inr => exact absurd (hblock firstBuf) (hnone firstBuf hmem).1
    -- all buffers carry block 0, so that the one at the front is chosen
    obtain rfl : b = firstBuf := by
      obtain ⟨before, after, horder, ⟨-, hbefore⟩ | ⟨hmiss, -⟩⟩ := hb
      · cases before with
        | nil => exact (List.cons.inj (hrest.symm.trans horder)).1.symm
        | cons a before => exact absurd (hblock a) (hbefore a List.mem_cons_self)
      · exact absurd (hblock firstBuf) (hmiss firstBuf hmem)
    obtain ⟨s, hrun, h, hcount, -, hfirst, -⟩ := (hboot.bread hread).exists_replicate hmem 0
      (by simp [Buffer.touch]) (by simp [Buffer.touch]) n
    refine ⟨s, ?_, ?_, hfirst, h⟩
    · rw [List.replicate_succ]
      exact Trace.cons_iff.mpr ⟨_, .bread hread, hrun⟩
    · rw [hcount]
      simp [boot]
      omega

/-- The invariant after block 1 is read and released, which moves its buffer to the front, and block
0 is read. -/
theorem cache_invariant_two_blocks : ∃ s a b,
    Trace Step (boot ⟨id, id⟩) [.bread 1 a, .brelse a, .bread 0 b] s ∧
    s.cache.links.next .head = a ∧ (s.cache.buf a).blockno = 1 ∧ (s.cache.buf b).blockno = 0 ∧
    s.InUse a ∧ s.InUse b ∧
    (∃ order, Ring.IsRing s.cache.links .head order ∧ ∀ b, b ∈ order ↔ b ≠ .head) ∧
    (∀ b ≠ BufRef.head, (s.cache.buf b).refcnt.toNat = s.outstanding b % 2 ^ 32) ∧
    (∀ a b, a ≠ .head → b ≠ .head → s.InUse a → s.InUse b →
      (s.cache.buf a).blockno = (s.cache.buf b).blockno → a = b) ∧
    (∀ blockno disk b io, bread blockno ⟨s.cache, disk⟩ = .ok (b, io) →
      ∀ a, a ≠ .head → s.InUse a → (s.cache.buf a).blockno = blockno → a = b) := by
  have hboot : Inv (boot ⟨id, id⟩) bootOrder := inv_boot
  have hfirst := hboot.cache.complete ⟨0, by decide⟩
  rcases hboot.cache.bread_cases (fun _ => 0) 1 with ⟨a, ha, hread⟩ | ⟨hnone, -⟩
  case inr => exact absurd rfl (hnone _ hfirst).2
  have hhead : a ≠ .head := hboot.cache.mem_iff.mp (BufferCache.Inv.mem_of_chosen ha)
  have hheld : 0 < Function.update (boot ⟨id, id⟩).outstanding a ((boot ⟨id, id⟩).outstanding a + 1)
      a := by
    rw [Function.update_self]
    exact Nat.succ_pos _
  -- the release leaves the buffer without references, so that it moves
  obtain ⟨hrefcnt, hblock, hvalid⟩ :
      ((R5O5.brelse a ((boot ⟨id, id⟩).cache.modify a
          (Buffer.touch (fun _ => 0) 1))).buf a).refcnt = 0 ∧
        ((R5O5.brelse a ((boot ⟨id, id⟩).cache.modify a
          (Buffer.touch (fun _ => 0) 1))).buf a).blockno = 1 ∧
        ((R5O5.brelse a ((boot ⟨id, id⟩).cache.modify a
          (Buffer.touch (fun _ => 0) 1))).buf a).valid = true := by
    rw [BufferCache.buf_brelse, BufferCache.modify_same, BufferCache.modify_same]
    exact ⟨(by decide : (0 + 1 - 1 : BitVec 32) = 0), rfl, rfl⟩
  obtain ⟨order, h, ⟨-, hrefs⟩ | ⟨hmoved, -⟩⟩ := (hboot.bread hread).brelse hheld
  · exact absurd hrefcnt hrefs
  obtain ⟨rest, rfl⟩ : ∃ rest, order = a :: rest := ⟨_, hmoved⟩
  rcases h.cache.bread_cases (fun _ => 0) 0 with ⟨b, hb, hread'⟩ | ⟨hnone, -⟩
  case inr => exact absurd hrefcnt (hnone a List.mem_cons_self).2
  -- another buffer carries block 0
  have hab : a ≠ b := by
    rintro rfl
    obtain ⟨c, hc, hca⟩ : ∃ c ≠ BufRef.head, c ≠ a := by
      by_cases heq : a = .buf ⟨0, by decide⟩
      · exact ⟨.buf ⟨1, by decide⟩, nofun, by rw [heq]; decide⟩
      · exact ⟨.buf ⟨0, by decide⟩, nofun, Ne.symm heq⟩
    obtain ⟨before, after, -, ⟨hzero, -⟩ | ⟨hmiss, -⟩⟩ := hb
    · exact absurd (hblock.symm.trans hzero) (by decide)
    · refine hmiss c (h.cache.mem_iff.mpr hc) ?_
      dsimp only
      rw [BufferCache.buf_brelse, BufferCache.modify_of_ne _ _ hca,
        BufferCache.modify_of_ne _ _ hca]
      rfl
  have hrun : Trace Step (boot ⟨id, id⟩) [.bread 1 a, .brelse a, .bread 0 b] _ :=
    ((Trace.refl.snoc (Step.bread hread)).snoc (Step.brelse hheld)).snoc (Step.bread hread')
  refine ⟨_, a, b, hrun, h.cache.ring.segment.1, ?_, ?_, Or.inr ?_, Or.inr ?_, cache_invariant hrun⟩
  · exact (congrArg Buffer.blockno (BufferCache.modify_of_ne _ _ hab)).trans hblock
  · exact congrArg Buffer.blockno (BufferCache.modify_same ..)
  · exact (congrArg Buffer.valid (BufferCache.modify_of_ne _ _ hab)).trans hvalid
  · exact congrArg Buffer.valid (BufferCache.modify_same ..)

/-- After `2 ^ 32` outstanding reads of block 0 the reference count of its buffer is 0. -/
theorem refcnt_wraps : ∃ s,
    Trace Step (boot ⟨id, id⟩) (List.replicate (2 ^ 32) (.bread 0 firstBuf)) s ∧
      s.outstanding firstBuf = 2 ^ 32 ∧ (s.cache.buf firstBuf).refcnt.toNat = 0 := by
  obtain ⟨s, hrun, hcount, -, h⟩ := trace_replicate ⟨id, id⟩ (2 ^ 32)
  refine ⟨s, hrun, hcount, ?_⟩
  rw [h.refcnt firstBuf (by decide), hcount, Nat.mod_self]

end Runs

end Session

end R5O5
