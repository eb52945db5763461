import Mathlib.Data.Fintype.Card
import R5O5.Kernel.Buffer.Replacement

/-!
# Which blocks are in the cache

The contents of the cache are a function of the calls so far: they are the blocks that are held and,
of the others, those that were released most recently, as many as there are buffers. So it can be
told from the calls alone which reads need the disk.

## Main definitions

- `Usage`: what the calls so far say about each block;
- `Usage.Kept`: fewer than `NBUF` other blocks were used since the block was released.

## Main results

- `Session.cached_iff_kept`: the cache holds exactly the blocks that are kept.
-/

namespace R5O5

/-- What the calls so far say about the buffers and the blocks. -/
structure Usage where
  /-- The number of calls. -/
  clock : ℕ
  block : BufRef → Option (BitVec 32)
  /-- The blocks that have been read. -/
  blocks : Finset (BitVec 32)
  /-- How many reads of a block have not been released. -/
  held : BitVec 32 → ℕ
  /-- When a block was last released, 0 if it never was. -/
  released : BitVec 32 → ℕ

namespace Usage

/-- Before the first call. -/
def start : Usage where
  clock := 0
  block _ := none
  blocks := ∅
  held _ := 0
  released _ := 0

/-- After one more call. -/
def record (u : Usage) : BufferOp → Usage
  | .bread blockno b =>
    { u with
      clock := u.clock + 1
      block := Function.update u.block b (some blockno)
      blocks := insert blockno u.blocks
      held := Function.update u.held blockno (u.held blockno + 1) }
  | .brelse b =>
    match u.block b with
    | none => { u with clock := u.clock + 1 }
    | some blockno =>
      { u with
        clock := u.clock + 1
        held := Function.update u.held blockno (u.held blockno - 1)
        released := Function.update u.released blockno (u.clock + 1) }

/-- After some calls. -/
def after (ops : List BufferOp) : Usage := ops.foldl record start

/-- The blocks that are held, or were released later than this one. -/
def laterThan (u : Usage) (blockno : BitVec 32) : Finset (BitVec 32) :=
  u.blocks.filter fun n => 0 < u.held n ∨ u.released blockno < u.released n

/-- The block is held, or it was released and fewer than `NBUF` blocks were used since then. -/
def Kept (u : Usage) (blockno : BitVec 32) : Prop :=
  0 < u.held blockno ∨ 0 < u.released blockno ∧ (u.laterThan blockno).card < nbuf

instance (u : Usage) (blockno : BitVec 32) : Decidable (u.Kept blockno) :=
  inferInstanceAs (Decidable (_ ∨ _))

theorem after_append (ops : List BufferOp) (op : BufferOp) :
    after (ops ++ [op]) = (after ops).record op := by
  rw [after, List.foldl_append]
  rfl

/-- A release moves the clock, and counts as a use of the block. -/
theorem record_brelse {u : Usage} {b : BufRef} {blockno : BitVec 32}
    (h : u.block b = some blockno) :
    u.record (.brelse b) =
      { u with
        clock := u.clock + 1
        held := Function.update u.held blockno (u.held blockno - 1)
        released := Function.update u.released blockno (u.clock + 1) } := by
  rw [record, h]

end Usage

/-- No two buffers were last released by one call. -/
theorem eq_of_lastRelease {a b : BufRef} {ops : List BufferOp}
    (h : lastRelease a ops = lastRelease b ops) (hne : lastRelease a ops ≠ 0) : a = b := by
  induction ops using List.reverseRecOn with
  | nil => exact absurd rfl hne
  | append_singleton ops op ih =>
    have hlea := lastRelease_le a ops
    have hleb := lastRelease_le b ops
    rw [lastRelease_append] at h hne
    rw [lastRelease_append] at h
    split_ifs at h hne with ha hb
    · rw [ha] at hb
      cases hb
      rfl
    · omega
    · omega
    · exact ih h hne

namespace Session

/-- The history of the blocks goes with that of the buffers. -/
structure Recency (s : Session) (ops : List BufferOp) (u : Usage) : Prop where
  clock : u.clock = ops.length
  block : ∀ b ≠ BufRef.head, (s.cache.buf b).valid = true →
    u.block b = some (s.cache.buf b).blockno
  held : ∀ b ≠ BufRef.head, (s.cache.buf b).valid = true →
    u.held (s.cache.buf b).blockno = s.outstanding b
  cached_of_held : ∀ {n}, 0 < u.held n → s.Cached n
  released : ∀ b ≠ BufRef.head, (s.cache.buf b).valid = true → s.outstanding b = 0 →
    u.released (s.cache.buf b).blockno = lastRelease b ops
  released_le : ∀ n, u.released n ≤ ops.length
  mem_blocks : ∀ {n}, 0 < u.held n ∨ 0 < u.released n → n ∈ u.blocks
  /-- A block that was replaced was released before all the blocks in the cache. -/
  replaced : ∀ {n}, ¬s.Cached n → 0 < u.released n → ∀ b ≠ BufRef.head,
    (s.cache.buf b).valid = true ∧ (s.outstanding b = 0 → u.released n < lastRelease b ops)

section Runs

variable {s s' : Session} {ops : List BufferOp} {order : List BufRef} {b : BufRef} {u : Usage}
  {blockno : BitVec 32} {links : Ring.Links BufRef}

theorem recency_boot : Recency (boot links) [] .start where
  clock := rfl
  block _ _ h := by cases h
  held _ _ h := by cases h
  cached_of_held h := absurd h (Nat.lt_irrefl 0)
  released _ _ h := by cases h
  released_le _ := Nat.le_refl 0
  mem_blocks h := by rcases h with h | h <;> exact absurd h (Nat.lt_irrefl 0)
  replaced _ h := absurd h (Nat.lt_irrefl 0)

/-- A read that returns: the buffer carries the block, or its own block is replaced. -/
theorem Recency.bread (hr : Recency s ops u) (h : History s ops order) {disk : ℕ → BitVec 8}
    (hb : Chosen s.cache order blockno b) :
    Recency { cache := s.cache.modify b (Buffer.touch disk blockno)
              outstanding := Function.update s.outstanding b (s.outstanding b + 1) }
      (ops ++ [.bread blockno b]) (u.record (.bread blockno b)) := by
  have hmem := BufferCache.Inv.mem_of_chosen hb
  have hhead : b ≠ .head := h.inv.cache.mem_iff.mp hmem
  have hother : ∀ {a}, a ≠ b →
      (s.cache.modify b (Buffer.touch disk blockno)).buf a = s.cache.buf a :=
    fun hab => BufferCache.modify_of_ne _ _ hab
  have hnew : ((s.cache.modify b (Buffer.touch disk blockno)).buf b).blockno = blockno := by
    rw [BufferCache.modify_same]
    rfl
  have hcached : Cached { cache := s.cache.modify b (Buffer.touch disk blockno)
                          outstanding := Function.update s.outstanding b (s.outstanding b + 1) }
      blockno := by
    refine ⟨b, hhead, ?_, hnew⟩
    rw [BufferCache.modify_same]
    rfl
  -- the other buffers carry other blocks
  have hne : ∀ a ≠ BufRef.head, a ≠ b → (s.cache.buf a).valid = true →
      (s.cache.buf a).blockno ≠ blockno := by
    intro a ha hab hvalid hblock
    exact hab (h.inv.cache.eq_of_chosen hb (h.inv.cache.mem_iff.mpr ha) hvalid hblock)
  have hheld : u.held blockno = s.outstanding b := by
    by_cases hhit : s.Cached blockno
    · obtain ⟨a, ha, hvalid, hblock⟩ := hhit
      obtain rfl := h.inv.cache.eq_of_chosen hb (h.inv.cache.mem_iff.mpr ha) hvalid hblock
      rw [← hblock, hr.held a ha hvalid]
    · rw [(h.least_recent hhit hb).1]
      by_contra hpos
      exact hhit (hr.cached_of_held (Nat.pos_of_ne_zero hpos))
  -- a block that leaves the cache was in the chosen buffer
  have hleaves : ∀ {n}, s.Cached n → n ≠ blockno →
      ¬Cached { cache := s.cache.modify b (Buffer.touch disk blockno)
                outstanding := Function.update s.outstanding b (s.outstanding b + 1) } n →
      (s.cache.buf b).valid = true ∧ (s.cache.buf b).blockno = n ∧ ¬s.Cached blockno := by
    rintro n ⟨a, ha, hvalid, hblock⟩ hn hout
    obtain rfl : a = b := by
      by_contra hab
      refine hout ⟨a, ha, ?_, ?_⟩
      · dsimp only
        rw [hother hab, hvalid]
      · dsimp only
        rw [hother hab, hblock]
    refine ⟨hvalid, hblock, ?_⟩
    rintro ⟨c, hc, hvalid', hblock'⟩
    obtain rfl := h.inv.cache.eq_of_chosen hb (h.inv.cache.mem_iff.mpr hc) hvalid' hblock'
    exact hn (hblock.symm.trans hblock')
  constructor
  case clock =>
    rw [List.length_append, List.length_singleton, ← hr.clock]
    rfl
  case block =>
    intro a ha hvalid
    dsimp only [Usage.record] at hvalid ⊢
    rcases eq_or_ne a b with rfl | hab
    · rw [Function.update_self, hnew]
    · rw [hother hab] at hvalid ⊢
      rw [Function.update_of_ne hab, hr.block a ha hvalid]
  case held =>
    intro a ha hvalid
    dsimp only [Usage.record] at hvalid ⊢
    rcases eq_or_ne a b with rfl | hab
    · rw [hnew, Function.update_self, Function.update_self, hheld]
    · rw [hother hab] at hvalid ⊢
      rw [Function.update_of_ne hab, Function.update_of_ne (hne a ha hab hvalid),
        hr.held a ha hvalid]
  case cached_of_held =>
    intro n hpos
    by_contra hout
    have hn : n ≠ blockno := by
      rintro rfl
      exact hout hcached
    dsimp only [Usage.record] at hpos
    rw [Function.update_of_ne hn] at hpos
    obtain ⟨hvalid, hblock, hmiss⟩ := hleaves (hr.cached_of_held hpos) hn hout
    rw [← hblock, hr.held b hhead hvalid, (h.least_recent hmiss hb).1] at hpos
    exact Nat.lt_irrefl 0 hpos
  case released =>
    intro a ha hvalid hzero
    dsimp only [Usage.record] at hvalid hzero ⊢
    have hab : a ≠ b := by
      rintro rfl
      rw [Function.update_self] at hzero
      cases hzero
    rw [hother hab] at hvalid ⊢
    rw [Function.update_of_ne hab] at hzero
    rw [lastRelease_bread, hr.released a ha hvalid hzero]
  case released_le =>
    intro n
    rw [List.length_append]
    exact Nat.le_add_right_of_le (hr.released_le n)
  case mem_blocks =>
    intro n hn
    rcases eq_or_ne n blockno with rfl | hne'
    · exact Finset.mem_insert_self _ _
    · refine Finset.mem_insert_of_mem (hr.mem_blocks ?_)
      dsimp only [Usage.record] at hn
      rwa [Function.update_of_ne hne'] at hn
  case replaced =>
    intro n hout hpos a ha
    dsimp only [Usage.record] at hpos ⊢
    have hn : n ≠ blockno := by
      rintro rfl
      exact hout hcached
    rcases eq_or_ne a b with rfl | hab
    · refine ⟨?_, fun hzero => ?_⟩
      · rw [BufferCache.modify_same]
        rfl
      · rw [Function.update_self] at hzero
        cases hzero
    rw [hother hab, Function.update_of_ne hab, lastRelease_bread]
    by_cases hin : s.Cached n
    case neg => exact hr.replaced hin hpos a ha
    -- the block that is replaced now was released first of all
    obtain ⟨hvalid, hblock, hmiss⟩ := hleaves hin hn hout
    obtain ⟨hzero, hleast⟩ := h.least_recent hmiss hb
    have hreleased := hr.released b hhead hvalid hzero
    rw [hblock] at hreleased
    have hvalida : (s.cache.buf a).valid = true := by
      by_contra hinvalid
      have hzeroa : s.outstanding a = 0 := by
        by_contra hposa
        exact hinvalid (h.inv.valid_of_outstanding a (Nat.pos_of_ne_zero hposa)).2
      have hnever : lastRelease a ops = 0 := by
        by_contra hne'
        exact hinvalid (h.valid_of_released a hne')
      have hle := hleast a ha hzeroa
      omega
    refine ⟨hvalida, fun hzeroa => ?_⟩
    have hle := hleast a ha hzeroa
    have hneq : lastRelease b ops ≠ lastRelease a ops := by
      intro heq
      exact hab (eq_of_lastRelease heq (by omega)).symm
    omega

/-- A release is the latest of all. -/
theorem Recency.brelse (hr : Recency s ops u) (h : History s ops order)
    (hb : 0 < s.outstanding b) :
    Recency { cache := R5O5.brelse b s.cache
              outstanding := Function.update s.outstanding b (s.outstanding b - 1) }
      (ops ++ [.brelse b]) (u.record (.brelse b)) := by
  obtain ⟨hhead, hvalidb⟩ := h.inv.valid_of_outstanding b hb
  rw [Usage.record_brelse (hr.block b hhead hvalidb)]
  -- only the count of `b` and the links change
  have hfields : ∀ a, ((R5O5.brelse b s.cache).buf a).valid = (s.cache.buf a).valid ∧
      ((R5O5.brelse b s.cache).buf a).blockno = (s.cache.buf a).blockno := by
    intro a
    rw [BufferCache.buf_brelse]
    rcases eq_or_ne a b with rfl | hab
    · rw [BufferCache.modify_same]
      exact ⟨rfl, rfl⟩
    · rw [BufferCache.modify_of_ne _ _ hab]
      exact ⟨rfl, rfl⟩
  have hcached : ∀ {n}, Cached
      { cache := R5O5.brelse b s.cache
        outstanding := Function.update s.outstanding b (s.outstanding b - 1) } n ↔ s.Cached n := by
    intro n
    simp only [Cached, hfields]
  -- the block of `b` is in no other buffer, so what is recorded for it concerns `b` alone
  have hne : ∀ a ≠ BufRef.head, a ≠ b → (s.cache.buf a).valid = true →
      (s.cache.buf a).blockno ≠ (s.cache.buf b).blockno := by
    intro a ha hab hvalid hblock
    exact hab (h.inv.cache.unique (h.inv.cache.mem_iff.mpr ha) (h.inv.cache.mem_iff.mpr hhead)
      hvalid hvalidb hblock)
  have hin : s.Cached (s.cache.buf b).blockno := ⟨b, hhead, hvalidb, rfl⟩
  constructor
  case clock =>
    rw [List.length_append, List.length_singleton, ← hr.clock]
  case block =>
    intro a ha hvalid
    rw [(hfields a).1] at hvalid
    rw [(hfields a).2]
    exact hr.block a ha hvalid
  case held =>
    intro a ha hvalid
    rw [(hfields a).1] at hvalid
    dsimp only
    rw [(hfields a).2]
    rcases eq_or_ne a b with rfl | hab
    · rw [Function.update_self, Function.update_self, hr.held a ha hvalid]
    · rw [Function.update_of_ne hab, Function.update_of_ne (hne a ha hab hvalid),
        hr.held a ha hvalid]
  case cached_of_held =>
    intro n hpos
    rw [hcached]
    rcases eq_or_ne n (s.cache.buf b).blockno with rfl | hn
    · exact hin
    · dsimp only at hpos
      rw [Function.update_of_ne hn] at hpos
      exact hr.cached_of_held hpos
  case released =>
    intro a ha hvalid hzero
    rw [(hfields a).1] at hvalid
    dsimp only at hzero ⊢
    rw [(hfields a).2]
    rcases eq_or_ne a b with rfl | hab
    · rw [Function.update_self, lastRelease_brelse_self, hr.clock]
    · rw [Function.update_of_ne hab] at hzero
      rw [Function.update_of_ne (hne a ha hab hvalid), lastRelease_brelse_of_ne hab,
        hr.released a ha hvalid hzero]
  case released_le =>
    intro n
    dsimp only
    rw [List.length_append, List.length_singleton]
    rcases eq_or_ne n (s.cache.buf b).blockno with rfl | hn
    · rw [Function.update_self, hr.clock]
    · rw [Function.update_of_ne hn]
      exact Nat.le_succ_of_le (hr.released_le n)
  case mem_blocks =>
    intro n hpos
    dsimp only at hpos ⊢
    rcases eq_or_ne n (s.cache.buf b).blockno with rfl | hn
    · refine hr.mem_blocks (Or.inl ?_)
      rwa [hr.held b hhead hvalidb]
    · rw [Function.update_of_ne hn, Function.update_of_ne hn] at hpos
      exact hr.mem_blocks hpos
  case replaced =>
    intro n hout hpos a ha
    rw [hcached] at hout
    -- a block that is not cached is not the one released
    have hn : n ≠ (s.cache.buf b).blockno := by
      rintro rfl
      exact hout hin
    dsimp only at hpos ⊢
    rw [Function.update_of_ne hn] at hpos ⊢
    obtain ⟨hvalid, hlater⟩ := hr.replaced hout hpos a ha
    refine ⟨(hfields a).1.trans hvalid, fun hzero => ?_⟩
    rcases eq_or_ne a b with rfl | hab
    · rw [lastRelease_brelse_self]
      exact Nat.lt_succ_of_le (hr.released_le n)
    · rw [Function.update_of_ne hab] at hzero
      rw [lastRelease_brelse_of_ne hab]
      exact hlater hzero

/-- The usage of the blocks tells the state of the cache in every run. -/
theorem recency_of_trace (hrun : Trace BoundedStep (boot links) ops s) :
    ∃ order, History s ops order ∧ Recency s ops (.after ops) := by
  refine hrun.invariant_of_labels
    (I := fun ops s => ∃ order, History s ops order ∧ Recency s ops (.after ops))
    ⟨_, history_boot, recency_boot⟩ ?_
  rintro ops s op s' ⟨order, h, hr⟩ ⟨hstep, hbounded⟩
  rw [Usage.after_append]
  cases hstep with
  | @bread blockno b disk io hok =>
    refine ⟨order, h.bread hok hbounded, ?_⟩
    rcases h.inv.cache.bread_cases disk blockno with ⟨b', hb, hread⟩ | ⟨-, hread⟩
    case inr =>
      rw [hok] at hread
      cases hread
    rw [hok] at hread
    cases hread
    exact hr.bread h hb
  | brelse hb =>
    obtain ⟨order', h'⟩ := h.brelse hb
    exact ⟨order', h', hr.brelse h hb⟩

/-- No two valid buffers hold the same block. -/
theorem blockno_injective (h : s.Inv order) {i j : Fin nbuf}
    (hi : (s.cache.buf (.buf i)).valid = true) (hj : (s.cache.buf (.buf j)).valid = true)
    (heq : (s.cache.buf (.buf i)).blockno = (s.cache.buf (.buf j)).blockno) : i = j := by
  have hbuf := h.cache.unique (h.cache.complete i) (h.cache.complete j) hi hj heq
  cases hbuf
  rfl

/-- A block in the cache that is not held has fewer than `NBUF` blocks that were used later. -/
theorem Recency.card_laterThan_lt (hr : Recency s ops u)
    (hin : s.Cached blockno) (hheld : u.held blockno = 0) :
    (u.laterThan blockno).card < nbuf := by
  obtain ⟨b, hb, hvalid, hblock⟩ := hin
  cases b with
  | head => exact absurd rfl hb
  | buf i =>
    have hzero : s.outstanding (.buf i) = 0 := by rw [← hr.held _ hb hvalid, hblock, hheld]
    have hreleased := hr.released _ hb hvalid hzero
    rw [hblock] at hreleased
    -- the blocks used later are in the other buffers
    have hsub : u.laterThan blockno ⊆
        (Finset.univ.erase i).image fun j => (s.cache.buf (.buf j)).blockno := by
      intro n hn
      obtain ⟨-, hlater⟩ := Finset.mem_filter.mp hn
      have hin : s.Cached n := by
        rcases hlater with hpos | hlt
        · exact hr.cached_of_held hpos
        · by_contra hout
          have hlt' := (hr.replaced hout (Nat.zero_lt_of_lt hlt) _ hb).2 hzero
          omega
      obtain ⟨a, ha, hvalida, rfl⟩ := hin
      cases a with
      | head => exact absurd rfl ha
      | buf j =>
        refine Finset.mem_image_of_mem _ (Finset.mem_erase.mpr ⟨?_, Finset.mem_univ j⟩)
        rintro rfl
        rw [hblock] at hlater
        omega
    have hle := (Finset.card_le_card hsub).trans Finset.card_image_le
    rw [Finset.card_erase_of_mem (Finset.mem_univ i), Finset.card_univ, Fintype.card_fin] at hle
    have hpos : 0 < nbuf := by decide
    omega

/-- A block that was replaced has at least `NBUF` blocks that were used later. -/
theorem Recency.le_card_laterThan (hr : Recency s ops u) (h : History s ops order)
    (hout : ¬s.Cached blockno) (hpos : 0 < u.released blockno) :
    nbuf ≤ (u.laterThan blockno).card := by
  have hvalid : ∀ i, (s.cache.buf (.buf i)).valid = true :=
    fun i => (hr.replaced hout hpos (.buf i) (by simp)).1
  -- the blocks in the cache were all used later
  have hsub : (Finset.univ.image fun i => (s.cache.buf (.buf i)).blockno) ⊆
      u.laterThan blockno := by
    intro n hn
    obtain ⟨i, -, rfl⟩ := Finset.mem_image.mp hn
    have hhead : BufRef.buf i ≠ .head := by simp
    have hlater : 0 < u.held (s.cache.buf (.buf i)).blockno ∨
        u.released blockno < u.released (s.cache.buf (.buf i)).blockno := by
      rcases Nat.eq_zero_or_pos (s.outstanding (.buf i)) with hzero | hheld
      · refine Or.inr ?_
        rw [hr.released _ hhead (hvalid i) hzero]
        exact (hr.replaced hout hpos _ hhead).2 hzero
      · refine Or.inl ?_
        rwa [hr.held _ hhead (hvalid i)]
    refine Finset.mem_filter.mpr ⟨hr.mem_blocks (hlater.imp_right ?_), hlater⟩
    exact Nat.zero_lt_of_lt
  have hle := Finset.card_le_card hsub
  rwa [Finset.card_image_of_injective _ fun i j => blockno_injective h.inv (hvalid i) (hvalid j),
    Finset.card_univ, Fintype.card_fin] at hle

/-- The blocks in the cache are those that the usage keeps. -/
theorem Recency.cached_iff (hr : Recency s ops u) (h : History s ops order) :
    s.Cached blockno ↔ u.Kept blockno := by
  constructor
  · intro hin
    rcases Nat.eq_zero_or_pos (u.held blockno) with hheld | hheld
    · refine Or.inr ⟨?_, hr.card_laterThan_lt hin hheld⟩
      obtain ⟨b, hb, hvalid, rfl⟩ := hin
      rw [hr.held b hb hvalid] at hheld
      rw [hr.released b hb hvalid hheld]
      exact Nat.pos_of_ne_zero (h.released_of_valid b hb hvalid hheld)
    · exact Or.inl hheld
  · rintro (hheld | ⟨hpos, hlt⟩)
    · exact hr.cached_of_held hheld
    · by_contra hout
      exact absurd hlt (Nat.not_lt.mpr (hr.le_card_laterThan h hout hpos))

/-- In every run in which the reference counts do not overflow, the cache holds exactly the blocks
that are held and those that were released with fewer than `NBUF` other blocks used since then; so
these are the reads that need no transfer from the disk. -/
theorem cached_iff_kept (hrun : Trace BoundedStep (boot links) ops s) (blockno : BitVec 32) :
    (s.Cached blockno ↔ (Usage.after ops).Kept blockno) ∧
    ∀ disk b io, bread blockno ⟨s.cache, disk⟩ = .ok (b, io) →
      (io.cache.buf b).data =
        if (Usage.after ops).Kept blockno then (s.cache.buf b).data
        else blockData disk blockno.toNat := by
  obtain ⟨order, h, hr⟩ := recency_of_trace hrun
  have hiff : s.Cached blockno ↔ (Usage.after ops).Kept blockno := hr.cached_iff h
  refine ⟨hiff, fun disk b io hok => ?_⟩
  rcases h.inv.cache.bread_cases disk blockno with ⟨b', hb, hread⟩ | ⟨-, hread⟩
  case inr =>
    rw [hok] at hread
    cases hread
  rw [hok] at hread
  cases hread
  rw [BufferCache.modify_same, Buffer.touch]
  dsimp only
  refine if_congr ?_ rfl rfl
  rw [← hiff]
  constructor
  · rintro ⟨hvalid, hblock⟩
    exact ⟨b, h.inv.cache.mem_iff.mp (BufferCache.Inv.mem_of_chosen hb), hvalid, hblock⟩
  · rintro ⟨a, ha, hvalid, hblock⟩
    obtain rfl := h.inv.cache.eq_of_chosen hb (h.inv.cache.mem_iff.mpr ha) hvalid hblock
    exact ⟨hvalid, hblock⟩

/-- After block 0 is read and released it is still in the cache. -/
theorem cached_iff_kept_released : ∃ s,
    Trace BoundedStep (boot ⟨id, id⟩) [.bread 0 firstBuf, .brelse firstBuf] s ∧ s.Cached 0 := by
  obtain ⟨s, hrun, hcount, -⟩ := trace_replicate ⟨id, id⟩ 1
  change Trace Step (boot ⟨id, id⟩) ([] ++ [.bread 0 firstBuf]) s at hrun
  obtain ⟨s₀, hinit, hstep⟩ := Trace.append_singleton_iff.mp hrun
  obtain rfl := Trace.nil_iff.mp hinit
  have hone : ∀ b, s.outstanding b ≤ 1 := by
    intro b
    cases hstep
    dsimp only
    rcases eq_or_ne b firstBuf with rfl | hb
    · rw [Function.update_self]
      exact Nat.le_refl 1
    · rw [Function.update_of_ne hb]
      exact Nat.zero_le 1
  have hrun' : Trace BoundedStep (boot ⟨id, id⟩) ([] ++ [.bread 0 firstBuf] ++ [.brelse firstBuf])
      { cache := brelse firstBuf s.cache
        outstanding := Function.update s.outstanding firstBuf (s.outstanding firstBuf - 1) } := by
    refine Trace.snoc (Trace.snoc .refl ⟨hstep, fun b => ?_⟩) ⟨.brelse (by omega), fun b => ?_⟩
    · exact Nat.lt_of_le_of_lt (hone b) (by decide)
    · dsimp only
      rcases eq_or_ne b firstBuf with rfl | hb
      · rw [Function.update_self, hcount]
        decide
      · rw [Function.update_of_ne hb]
        exact Nat.lt_of_le_of_lt (hone b) (by decide)
  exact ⟨_, hrun', (cached_iff_kept hrun' 0).1.mpr (by decide)⟩

end Runs

end Session

end R5O5
