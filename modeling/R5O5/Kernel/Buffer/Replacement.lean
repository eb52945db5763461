import R5O5.Kernel.Buffer.Invariant

/-!
# Which buffer is replaced

The list of the buffers shows when they were last released: among those without references it is
sorted by the time of the last release, the latest first. Hence a block that is in no buffer takes
the place of the one that was least recently released.

## Main definitions

- `lastRelease`: when a buffer was last released;
- `Session.BoundedStep`: an operation within the range of the reference counts;
- `Session.Sorted`: the order of the list.

## Main results

- `Session.replaces_least_recent`: the order of the list, and the buffer that is replaced.
-/

namespace R5O5

/-- When the buffer was last released in a history with the latest operation first. -/
def lastReleaseRev (b : BufRef) : List BufferOp → ℕ
  | [] => 0
  | op :: earlier => if op = .brelse b then earlier.length + 1 else lastReleaseRev b earlier

/-- When the buffer was last released: the number of operations up to then, and 0 if it never
was. -/
def lastRelease (b : BufRef) (ops : List BufferOp) : ℕ := lastReleaseRev b ops.reverse

section LastRelease

variable {a b : BufRef} {ops : List BufferOp} {blockno : BitVec 32}

@[simp]
theorem lastRelease_nil (b : BufRef) : lastRelease b [] = 0 := rfl

/-- The time of the last release after one more call. -/
theorem lastRelease_append (b : BufRef) (ops : List BufferOp) (op : BufferOp) :
    lastRelease b (ops ++ [op]) =
      if op = .brelse b then ops.length + 1 else lastRelease b ops := by
  rw [lastRelease, List.reverse_append, List.reverse_singleton, List.singleton_append,
    lastReleaseRev, List.length_reverse, lastRelease]

@[simp]
theorem lastRelease_bread : lastRelease b (ops ++ [.bread blockno a]) = lastRelease b ops := by
  rw [lastRelease_append, if_neg (by simp)]

@[simp]
theorem lastRelease_brelse_self : lastRelease b (ops ++ [.brelse b]) = ops.length + 1 := by
  rw [lastRelease_append, if_pos rfl]

theorem lastRelease_brelse_of_ne (hab : a ≠ b) :
    lastRelease a (ops ++ [.brelse b]) = lastRelease a ops := by
  rw [lastRelease_append, if_neg (by simpa using hab.symm)]

/-- No release lies in the future. -/
theorem lastRelease_le (b : BufRef) (ops : List BufferOp) : lastRelease b ops ≤ ops.length := by
  induction ops using List.reverseRecOn with
  | nil => exact Nat.le_refl 0
  | append_singleton ops op ih =>
    rw [lastRelease_append, List.length_append, List.length_singleton]
    split_ifs
    · exact Nat.le_refl _
    · exact Nat.le_succ_of_le ih

end LastRelease

namespace Session

/-- One operation after which no buffer has more outstanding reads than a reference count can
hold. -/
def BoundedStep (s : Session) (op : BufferOp) (s' : Session) : Prop :=
  Step s op s' ∧ ∀ b, s'.outstanding b < 2 ^ 32

/-- The block is in a buffer. -/
def Cached (s : Session) (blockno : BitVec 32) : Prop :=
  ∃ b ≠ BufRef.head, (s.cache.buf b).valid = true ∧ (s.cache.buf b).blockno = blockno

/-- The buffers without references are sorted by the time of their last release, the latest first;
those that were never released come last. -/
def Sorted (s : Session) (ops : List BufferOp) (order : List BufRef) : Prop :=
  order.Pairwise fun a b => (s.cache.buf a).refcnt = 0 → (s.cache.buf b).refcnt = 0 →
    lastRelease b ops < lastRelease a ops ∨ lastRelease b ops = 0

/-- The invariant of the runs with their histories. -/
structure History (s : Session) (ops : List BufferOp) (order : List BufRef) : Prop where
  inv : s.Inv order
  bounded : ∀ b, s.outstanding b < 2 ^ 32
  sorted : s.Sorted ops order
  valid_of_released : ∀ b, lastRelease b ops ≠ 0 → (s.cache.buf b).valid = true
  /-- A buffer that holds a block is held or was released. -/
  released_of_valid : ∀ b ≠ BufRef.head, (s.cache.buf b).valid = true → s.outstanding b = 0 →
    lastRelease b ops ≠ 0

section Runs

variable {s s' : Session} {ops : List BufferOp} {order bufs : List BufRef} {b : BufRef}
  {blockno : BitVec 32} {links : Ring.Links BufRef}

/-- The reference count is zero when no caller holds the buffer. -/
theorem History.refcnt_eq_zero_iff (h : History s ops order) (hb : b ≠ .head) :
    (s.cache.buf b).refcnt = 0 ↔ s.outstanding b = 0 := by
  have hcount := h.inv.refcnt b hb
  rw [Nat.mod_eq_of_lt (h.bounded b)] at hcount
  rw [← hcount, ← BitVec.toNat_inj]
  rfl

/-- At boot the history is empty. -/
theorem history_boot : History (boot links) [] bootOrder where
  inv := inv_boot
  bounded _ := by
    change 0 < 2 ^ 32
    decide
  sorted := List.pairwise_of_forall fun _ _ _ _ => Or.inr rfl
  valid_of_released _ h := absurd rfl h
  released_of_valid _ _ h := by cases h

/-- A read changes no order, and the buffer it returns has references. -/
theorem History.bread (h : History s ops order) {disk : ℕ → BitVec 8} {io : CachedDisk}
    (hok : R5O5.bread blockno ⟨s.cache, disk⟩ = .ok (b, io))
    (hbounded : ∀ a, Function.update s.outstanding b (s.outstanding b + 1) a < 2 ^ 32) :
    History { cache := io.cache
              outstanding := Function.update s.outstanding b (s.outstanding b + 1) }
      (ops ++ [.bread blockno b]) order := by
  have hinv := h.inv.bread hok
  have hcases := h.inv.cache.bread_cases disk blockno
  rw [hok] at hcases
  obtain ⟨b', hb, hread⟩ | ⟨-, hread⟩ := hcases
  case inr => cases hread
  cases hread
  have hmem := BufferCache.Inv.mem_of_chosen hb
  have hhead : b ≠ .head := h.inv.cache.mem_iff.mp hmem
  -- the buffer is in use afterwards: its count has not wrapped around
  have hrefs : ((s.cache.modify b (Buffer.touch disk blockno)).buf b).refcnt ≠ 0 := by
    have hcount := hinv.refcnt b hhead
    have hlt := hbounded b
    simp only [Function.update_self] at hcount hlt
    rw [Nat.mod_eq_of_lt hlt] at hcount
    intro hzero
    rw [hzero] at hcount
    cases hcount
  -- the other buffers keep their place in the order and their last release
  refine ⟨hinv, hbounded, h.sorted.imp ?_, fun a ha => ?_, fun a ha hvalid hzero => ?_⟩
  · intro x y hxy hx hy
    have hxb : x ≠ b := by
      rintro rfl
      exact hrefs hx
    have hyb : y ≠ b := by
      rintro rfl
      exact hrefs hy
    simp only [BufferCache.modify_of_ne _ _ hxb, BufferCache.modify_of_ne _ _ hyb] at hx hy
    simpa only [lastRelease_bread] using hxy hx hy
  · rw [lastRelease_bread] at ha
    rcases eq_or_ne a b with rfl | hab
    · simp only [BufferCache.modify_same, Buffer.touch]
    · simpa only [BufferCache.modify_of_ne _ _ hab] using h.valid_of_released a ha
  · rcases eq_or_ne a b with rfl | hab
    · simp only [Function.update_self] at hzero
      cases hzero
    · simp only [Function.update_of_ne hab, BufferCache.modify_of_ne _ _ hab] at hvalid hzero
      rw [lastRelease_bread]
      exact h.released_of_valid a ha hvalid hzero

/-- A release moves the buffer to the front if it was the last one, at the latest time of all. -/
theorem History.brelse (h : History s ops order) (hb : 0 < s.outstanding b) :
    ∃ order', History
      { cache := R5O5.brelse b s.cache
        outstanding := Function.update s.outstanding b (s.outstanding b - 1) }
      (ops ++ [.brelse b]) order' := by
  obtain ⟨hhead, hvalid⟩ := h.inv.valid_of_outstanding b hb
  obtain ⟨order', hinv, hmove⟩ := h.inv.brelse hb
  have hother {a : BufRef} (hab : a ≠ b) : (R5O5.brelse b s.cache).buf a = s.cache.buf a := by
    rw [BufferCache.buf_brelse, BufferCache.modify_of_ne _ _ hab]
  have hvalid' : ((R5O5.brelse b s.cache).buf b).valid = true := by
    rw [BufferCache.buf_brelse, BufferCache.modify_same]
    exact hvalid
  -- two other buffers are as they were
  have hkeep {x y : BufRef} (hxb : x ≠ b) (hyb : y ≠ b)
      (hxy : (s.cache.buf x).refcnt = 0 → (s.cache.buf y).refcnt = 0 →
        lastRelease y ops < lastRelease x ops ∨ lastRelease y ops = 0) :
      ((R5O5.brelse b s.cache).buf x).refcnt = 0 → ((R5O5.brelse b s.cache).buf y).refcnt = 0 →
        lastRelease y (ops ++ [.brelse b]) < lastRelease x (ops ++ [.brelse b]) ∨
          lastRelease y (ops ++ [.brelse b]) = 0 := by
    rw [hother hxb, hother hyb, lastRelease_brelse_of_ne hxb, lastRelease_brelse_of_ne hyb]
    exact hxy
  have hnodup : order.Nodup := (List.nodup_cons.mp h.inv.cache.ring.nodup).2
  refine ⟨order', hinv, fun a => ?_, ?_, fun a ha => ?_, fun a ha hvalida hzero => ?_⟩
  · have hlt := h.bounded a
    rcases eq_or_ne a b with rfl | hab
    · simp only [Function.update_self]
      omega
    · simpa only [Function.update_of_ne hab] using hlt
  · rcases hmove with ⟨rfl, hrefs⟩ | ⟨rfl, -⟩
    · -- the buffer still has references, so its place does not matter
      refine h.sorted.imp fun {x y} hxy hx hy => ?_
      have hxb : x ≠ b := by
        rintro rfl
        exact hrefs hx
      have hyb : y ≠ b := by
        rintro rfl
        exact hrefs hy
      exact hkeep hxb hyb hxy hx hy
    · refine List.pairwise_cons.mpr ⟨fun y hy _ _ => Or.inl ?_, ?_⟩
      · have hyb : y ≠ b := (hnodup.mem_erase_iff.mp hy).1
        rw [lastRelease_brelse_self, lastRelease_brelse_of_ne hyb]
        exact Nat.lt_succ_of_le (lastRelease_le y ops)
      · refine (h.sorted.sublist List.erase_sublist).imp_of_mem fun {x y} hx hy hxy => ?_
        exact hkeep (hnodup.mem_erase_iff.mp hx).1 (hnodup.mem_erase_iff.mp hy).1 hxy
  · rcases eq_or_ne a b with rfl | hab
    · exact hvalid'
    · rw [lastRelease_brelse_of_ne hab] at ha
      simpa only [hother hab] using h.valid_of_released a ha
  · rcases eq_or_ne a b with rfl | hab
    · rw [lastRelease_brelse_self]
      exact Nat.succ_ne_zero _
    · simp only [Function.update_of_ne hab, hother hab] at hvalida hzero
      rw [lastRelease_brelse_of_ne hab]
      exact h.released_of_valid a ha hvalida hzero

/-- The history describes the cache in every run. -/
theorem history_of_trace (hrun : Trace BoundedStep (boot links) ops s) :
    ∃ order, History s ops order := by
  refine hrun.invariant_of_labels (I := fun ops s => ∃ order, History s ops order)
    ⟨_, history_boot⟩ ?_
  rintro ops s op s' ⟨order, h⟩ ⟨hstep, hbounded⟩
  cases hstep with
  | bread hok => exact ⟨order, h.bread hok hbounded⟩
  | brelse hb => exact h.brelse hb

/-- The buffer chosen for a block that is in none was released before all others that are not
held. -/
theorem History.least_recent (h : History s ops order) (hmiss : ¬s.Cached blockno)
    (hb : Chosen s.cache order blockno b) :
    s.outstanding b = 0 ∧
      ∀ a ≠ BufRef.head, s.outstanding a = 0 → lastRelease b ops ≤ lastRelease a ops := by
  have hmem := BufferCache.Inv.mem_of_chosen hb
  have hhead : b ≠ .head := h.inv.cache.mem_iff.mp hmem
  obtain ⟨before, after, horder, ⟨hblock, -⟩ | ⟨-, hfree, hafter⟩⟩ := hb
  · -- a buffer that was never used, which carries block 0
    have hinvalid : (s.cache.buf b).valid = false :=
      Bool.eq_false_iff.mpr fun hvalid => hmiss ⟨b, hhead, hvalid, hblock⟩
    have hnever : lastRelease b ops = 0 := by
      by_contra hne
      rw [h.valid_of_released b hne] at hinvalid
      cases hinvalid
    refine ⟨?_, fun a _ _ => by omega⟩
    rw [← h.refcnt_eq_zero_iff hhead]
    by_contra hrefs
    rw [h.inv.cache.valid_of_refcnt hmem hrefs] at hinvalid
    cases hinvalid
  -- the last buffer without references: those in front of it were released later
  · refine ⟨(h.refcnt_eq_zero_iff hhead).mp hfree, fun a ha hunheld => ?_⟩
    rw [← h.refcnt_eq_zero_iff ha] at hunheld
    have hmema := h.inv.cache.mem_iff.mpr ha
    have hsorted := h.sorted
    rw [Sorted, horder, List.pairwise_append] at hsorted
    rw [horder, List.mem_append, List.mem_cons] at hmema
    rcases hmema with hbefore | rfl | hin
    · have hlt := hsorted.2.2 a hbefore b List.mem_cons_self hunheld hfree
      omega
    · exact Nat.le_refl _
    · exact absurd hunheld (hafter a hin)

/-- In every run in which the reference counts do not overflow, the buffers without references are
sorted by the time of their last release; a block that is in no buffer takes the place of the one
released least recently, a buffer never used if there is one, and `bget` fails exactly when the
block is in no buffer and all of them are held. -/
theorem replaces_least_recent (hrun : Trace BoundedStep (boot links) ops s) :
    (∃ order, Ring.IsRing s.cache.links .head order ∧ (∀ b, b ∈ order ↔ b ≠ .head) ∧
      s.Sorted ops order) ∧
    (∀ b ≠ BufRef.head, (s.cache.buf b).refcnt = 0 ↔ s.outstanding b = 0) ∧
    (∀ b ≠ BufRef.head, s.outstanding b = 0 →
      (lastRelease b ops = 0 ↔ (s.cache.buf b).valid = false)) ∧
    (∀ blockno disk b io, ¬s.Cached blockno → bread blockno ⟨s.cache, disk⟩ = .ok (b, io) →
      b ≠ .head ∧ s.outstanding b = 0 ∧
        (∀ a ≠ BufRef.head, s.outstanding a = 0 → lastRelease b ops ≤ lastRelease a ops) ∧
        (io.cache.buf b).blockno = blockno ∧ ∀ a ≠ b, io.cache.buf a = s.cache.buf a) ∧
    ∀ blockno, bget blockno s.cache = .error (.error "bget: no buffers") ↔
      ¬s.Cached blockno ∧ ∀ b ≠ BufRef.head, 0 < s.outstanding b := by
  obtain ⟨order, h⟩ := history_of_trace hrun
  have hmem (b : BufRef) : b ∈ order ↔ b ≠ .head := h.inv.cache.mem_iff
  refine ⟨⟨order, h.inv.cache.ring, hmem, h.sorted⟩, fun b hb => h.refcnt_eq_zero_iff hb,
    fun b hb hunheld => ⟨fun hnever => ?_, fun hinvalid => ?_⟩, ?_, fun blockno => ?_⟩
  · exact Bool.eq_false_iff.mpr fun hvalid => h.released_of_valid b hb hvalid hunheld hnever
  · by_contra hne
    rw [h.valid_of_released b hne] at hinvalid
    cases hinvalid
  -- a miss replaces the buffer that was released first
  · intro blockno disk b io hmiss hok
    have hcases := h.inv.cache.bread_cases disk blockno
    rw [hok] at hcases
    obtain ⟨b', hb, hread⟩ | ⟨-, hread⟩ := hcases
    case inr => cases hread
    cases hread
    obtain ⟨hunheld, hleast⟩ := h.least_recent hmiss hb
    refine ⟨(hmem b).mp (BufferCache.Inv.mem_of_chosen hb), hunheld, hleast, ?_, fun a hab => ?_⟩
    · simp only [BufferCache.modify_same, Buffer.touch]
    · exact BufferCache.modify_of_ne _ _ hab
  · constructor
    · intro herr
      have hcases := h.inv.cache.bget_cases blockno
      rw [herr] at hcases
      obtain ⟨b, -, -, hget⟩ | ⟨b, -, -, -, hget⟩ | ⟨hnone, -⟩ := hcases
      · cases hget
      · cases hget
      refine ⟨?_, fun b hb => Nat.pos_of_ne_zero fun hzero => ?_⟩
      · rintro ⟨b, hb, -, hblock⟩
        exact (hnone b ((hmem b).mpr hb)).1 hblock
      · exact (hnone b ((hmem b).mpr hb)).2 ((h.refcnt_eq_zero_iff hb).mpr hzero)
    -- with all buffers held neither loop of `bget` can find one
    · rintro ⟨hmiss, hheld⟩
      have hrefs {b : BufRef} (hb : b ∈ order) : (s.cache.buf b).refcnt ≠ 0 := fun hzero =>
        Nat.ne_of_gt (hheld b ((hmem b).mp hb)) ((h.refcnt_eq_zero_iff ((hmem b).mp hb)).mp hzero)
      rcases h.inv.cache.bget_cases blockno with ⟨b, hb, hblock, -⟩ | ⟨b, hb, -, hfree, -⟩ |
        ⟨-, hget⟩
      · -- a held buffer is valid, so the block would be in it
        have hbmem := BufferCache.Inv.mem_of_chosen hb
        exact absurd ⟨b, (hmem b).mp hbmem,
          h.inv.cache.valid_of_refcnt hbmem (hrefs hbmem), hblock⟩ hmiss
      · exact absurd hfree (hrefs (BufferCache.Inv.mem_of_chosen hb))
      · exact hget

/-! ### A full cache -/

/-- The blocks 1, 2, 3, ... are read, in these buffers, and each is released at once. -/
def fillOps (bufs : List BufRef) : List BufferOp :=
  bufs.zipIdx.flatMap fun x => [.bread (BitVec.ofNat 32 (x.2 + 1)) x.1, .brelse x.1]

/-- One more block is read and released. -/
theorem fillOps_append (bufs : List BufRef) (b : BufRef) :
    fillOps (bufs ++ [b]) =
      (fillOps bufs ++ [.bread (BitVec.ofNat 32 (bufs.length + 1)) b]) ++ [.brelse b] := by
  simp [fillOps, List.zipIdx_append]

/-- Each block takes two calls. -/
theorem length_fillOps (bufs : List BufRef) : (fillOps bufs).length = 2 * bufs.length := by
  induction bufs using List.reverseRecOn with
  | nil => rfl
  | append_singleton bufs b ih =>
    rw [fillOps_append, List.length_append, List.length_append, ih, List.length_append]
    simp only [List.length_singleton]
    omega

/-- The buffers were released in the order in which they were read. -/
theorem lastRelease_fillOps {bufs : List BufRef} (hnodup : bufs.Nodup) {i : ℕ} {b : BufRef}
    (hb : bufs[i]? = some b) : lastRelease b (fillOps bufs) = 2 * (i + 1) := by
  induction bufs using List.reverseRecOn with
  | nil => cases hb
  | append_singleton bufs a ih =>
    have hparts := List.nodup_append.mp hnodup
    have hlt := (List.getElem?_eq_some_iff.mp hb).1
    rw [List.length_append, List.length_singleton] at hlt
    rw [fillOps_append]
    rcases Nat.lt_or_ge i bufs.length with hi | hi
    · rw [List.getElem?_append_left hi] at hb
      have hne : b ≠ a := hparts.2.2 b (List.mem_of_getElem? hb) a (List.mem_singleton_self a)
      rw [lastRelease_brelse_of_ne hne, lastRelease_bread]
      exact ih hparts.1 hb
    · obtain rfl : i = bufs.length := by omega
      rw [List.getElem?_concat_length] at hb
      cases hb
      rw [lastRelease_brelse_self, List.length_append, length_fillOps, List.length_singleton]
      omega

/-- The cache after the blocks have been read: no buffer is held, and those not used yet hold
none. -/
structure Filled (s : Session) (bufs : List BufRef) : Prop where
  history : ∃ order, History s (fillOps bufs) order
  nodup : bufs.Nodup
  head : BufRef.head ∉ bufs
  outstanding : ∀ b, s.outstanding b = 0
  block : ∀ {i b}, bufs[i]? = some b →
    (s.cache.buf b).valid = true ∧ (s.cache.buf b).blockno = BitVec.ofNat 32 (i + 1)
  unused : ∀ b ∉ bufs, (s.cache.buf b).valid = false

/-- The next block is in no buffer. -/
theorem Filled.not_cached (h : Filled s bufs) (hlt : bufs.length < 2 ^ 31) :
    ¬s.Cached (BitVec.ofNat 32 (bufs.length + 1)) := by
  rintro ⟨b, -, hvalid, hblock⟩
  by_cases hb : b ∈ bufs
  · obtain ⟨i, hi⟩ := List.mem_iff_getElem?.mp hb
    have hile := (List.getElem?_eq_some_iff.mp hi).1
    have heq := congrArg BitVec.toNat ((h.block hi).2.symm.trans hblock)
    rw [BitVec.toNat_ofNat, BitVec.toNat_ofNat] at heq
    omega
  · rw [h.unused b hb] at hvalid
    cases hvalid

/-- Buffers that are all different and as many as there are. -/
theorem mem_iff_of_length_eq (hnodup : bufs.Nodup) (hhead : BufRef.head ∉ bufs) :
    bufs.length = nbuf ↔ ∀ b, b ∈ bufs ↔ b ≠ .head := by
  have hmem : ∀ b, b ∈ (List.finRange nbuf).map BufRef.buf ↔ b ≠ .head := by
    intro b
    cases b with
    | head => simp
    | buf i => simp [List.mem_finRange]
  have hlength : ((List.finRange nbuf).map BufRef.buf).length = nbuf := by
    rw [List.length_map, List.length_finRange]
  have hsub : bufs ⊆ (List.finRange nbuf).map BufRef.buf := fun b hb =>
    (hmem b).mpr fun heq => hhead (heq ▸ hb)
  constructor
  · intro heq b
    rw [((hnodup.subperm hsub).perm_of_length_le (by omega)).mem_iff, hmem]
  · intro hall
    have hperm : bufs.Perm ((List.finRange nbuf).map BufRef.buf) :=
      (List.perm_ext_iff_of_nodup hnodup
        ((List.nodup_finRange nbuf).map fun i j hij => BufRef.buf.inj hij)).mpr fun b => by
        rw [hall, hmem]
    rw [hperm.length_eq, hlength]

/-- The next block is read into a buffer that was not used yet. -/
theorem Filled.notMem_of_chosen (h : Filled s bufs) (hlt : bufs.length < nbuf)
    (hhist : History s (fillOps bufs) order) {blockno : BitVec 32} (hmiss : ¬s.Cached blockno)
    (hb : Chosen s.cache order blockno b) : b ∉ bufs := by
  intro hused
  -- one buffer at least was never released, so the chosen one was not either
  obtain ⟨a, hahead, ha⟩ : ∃ a ≠ BufRef.head, a ∉ bufs := by
    by_contra hall
    push Not at hall
    have hlength := (mem_iff_of_length_eq h.nodup h.head).mpr fun b =>
      ⟨fun hb heq => h.head (heq ▸ hb), hall b⟩
    omega
  obtain ⟨i, hi⟩ := List.mem_iff_getElem?.mp hused
  have hleast := (hhist.least_recent hmiss hb).2 a hahead (h.outstanding a)
  have hnever : lastRelease a (fillOps bufs) = 0 := by
    by_contra hne
    have hvalid := hhist.valid_of_released a hne
    rw [h.unused a ha] at hvalid
    cases hvalid
  rw [lastRelease_fillOps h.nodup hi, hnever] at hleast
  omega

/-- A block is read and released; the other buffers are as they were. -/
theorem buf_brelse_touch (c : BufferCache) (b : BufRef) (disk : ℕ → BitVec 8) (blockno : BitVec 32)
    (a : BufRef) : (R5O5.brelse b (c.modify b (Buffer.touch disk blockno))).buf a =
      if a = b then
        { Buffer.touch disk blockno (c.buf b) with refcnt := (c.buf b).refcnt + 1 - 1 }
      else c.buf a := by
  rw [BufferCache.buf_brelse]
  split
  case isTrue heq =>
    subst heq
    simp only [BufferCache.modify_same, Buffer.touch]
  case isFalse hab => rw [BufferCache.modify_of_ne _ _ hab, BufferCache.modify_of_ne _ _ hab]

/-- The next block is read and released. -/
theorem Filled.exists_snoc (h : Filled s bufs) (hlt : bufs.length < nbuf)
    (hrun : Trace BoundedStep (boot links) (fillOps bufs) s) :
    ∃ b s', Filled s' (bufs ++ [b]) ∧
      Trace BoundedStep (boot links) (fillOps (bufs ++ [b])) s' := by
  obtain ⟨order, hhist⟩ := h.history
  have hmiss := h.not_cached (hlt.trans (by decide))
  generalize hblockno : BitVec.ofNat 32 (bufs.length + 1) = blockno at hmiss
  -- no buffer is held, so one is chosen
  rcases hhist.inv.cache.bread_cases (fun _ => 0) blockno with ⟨b, hb, hread⟩ | ⟨hnone, -⟩
  case inr =>
    have hfirst := hhist.inv.cache.complete ⟨0, by decide⟩
    have hhead := hhist.inv.cache.mem_iff.mp hfirst
    exact absurd ((hhist.refcnt_eq_zero_iff hhead).mpr (h.outstanding _)) (hnone _ hfirst).2
  have hmem := BufferCache.Inv.mem_of_chosen hb
  have hhead : b ≠ .head := hhist.inv.cache.mem_iff.mp hmem
  have hnot := h.notMem_of_chosen hlt hhist hmiss hb
  -- only this buffer is held in between
  have hcount : ∀ a, Function.update s.outstanding b (s.outstanding b + 1) a < 2 ^ 32 := by
    intro a
    rcases eq_or_ne a b with rfl | hab
    · simp [h.outstanding]
    · simp [Function.update_of_ne hab, h.outstanding]
  have hhist₁ := hhist.bread hread hcount
  have hheld : 0 < Function.update s.outstanding b (s.outstanding b + 1) b := by
    rw [Function.update_self]
    exact Nat.succ_pos _
  obtain ⟨order', hhist₂⟩ := hhist₁.brelse hheld
  have hfill : fillOps (bufs ++ [b]) = (fillOps bufs ++ [.bread blockno b]) ++ [.brelse b] := by
    rw [fillOps_append, hblockno]
  have hbounded := hhist₂.bounded
  rw [← hfill] at hhist₂
  have hbuf := buf_brelse_touch s.cache b (fun _ => 0) blockno
  refine ⟨b, _, ⟨⟨order', hhist₂⟩, ?_, ?_, fun a => ?_, fun {i a} ha => ?_, fun a ha => ?_⟩, ?_⟩
  · exact List.nodup_append.mpr ⟨h.nodup, List.nodup_singleton b, by
      rintro a ha _ hb' rfl
      rw [List.mem_singleton] at hb'
      exact hnot (hb' ▸ ha)⟩
  · simpa using ⟨h.head, hhead.symm⟩
  · dsimp only
    rcases eq_or_ne a b with rfl | hab
    · simp [h.outstanding]
    · simp [Function.update_of_ne hab, h.outstanding]
  · dsimp only
    rw [hbuf]
    -- an old block or the new one
    rcases Nat.lt_or_ge i bufs.length with hi | hi
    · rw [List.getElem?_append_left hi] at ha
      have hne : a ≠ b := by
        rintro rfl
        exact hnot (List.mem_of_getElem? ha)
      rw [if_neg hne]
      exact h.block ha
    · have hlast := (List.getElem?_eq_some_iff.mp ha).1
      rw [List.length_append, List.length_singleton] at hlast
      obtain rfl : i = bufs.length := by omega
      rw [List.getElem?_concat_length] at ha
      cases ha
      rw [if_pos rfl]
      exact ⟨rfl, hblockno.symm⟩
  · dsimp only
    rw [List.mem_append, List.mem_singleton, not_or] at ha
    rw [hbuf, if_neg ha.2]
    exact h.unused a ha.1
  · rw [hfill]
    exact (hrun.snoc ⟨.bread hread, hcount⟩).snoc ⟨.brelse hheld, hbounded⟩

/-- The blocks from 1 on fill the cache. -/
theorem exists_filled (links : Ring.Links BufRef) {n : ℕ} (hn : n ≤ nbuf) :
    ∃ bufs s, bufs.length = n ∧ Filled s bufs ∧
      Trace BoundedStep (boot links) (fillOps bufs) s := by
  induction n with
  | zero =>
    refine ⟨[], boot links, rfl, ?_, .refl⟩
    exact ⟨⟨_, history_boot⟩, List.nodup_nil, List.not_mem_nil, fun _ => rfl, nofun, fun _ _ => rfl⟩
  | succ n ih =>
    obtain ⟨bufs, s, hlength, hfilled, hrun⟩ := ih (Nat.le_of_succ_le hn)
    obtain ⟨b, s', hfilled', hrun'⟩ := hfilled.exists_snoc (hlength ▸ hn) hrun
    exact ⟨bufs ++ [b], s', by simp [hlength], hfilled', hrun'⟩

/-- All buffers are filled with the blocks 1 to 30, and released; then block 31 takes the place of
block 1. -/
theorem replaces_least_recent_filled : ∃ bufs s, bufs.length = nbuf ∧ bufs.Nodup ∧
    Trace BoundedStep (boot ⟨id, id⟩) (fillOps bufs) s ∧
    (∃ order, Ring.IsRing s.cache.links .head order ∧ (∀ b, b ∈ order ↔ b ≠ .head) ∧
      s.Sorted (fillOps bufs) order) ∧
    (∀ b ≠ BufRef.head, (s.cache.buf b).refcnt = 0 ∧ (s.cache.buf b).valid = true) ∧
    ¬s.Cached 31 ∧ bget 31 s.cache ≠ .error (.error "bget: no buffers") ∧
    ∃ disk b io, bread 31 ⟨s.cache, disk⟩ = .ok (b, io) ∧ bufs[0]? = some b ∧
      (s.cache.buf b).blockno = 1 ∧ (io.cache.buf b).blockno = 31 ∧
      ∀ a ≠ b, io.cache.buf a = s.cache.buf a := by
  obtain ⟨bufs, s, hlength, hfilled, hrun⟩ := exists_filled ⟨id, id⟩ (Nat.le_refl nbuf)
  obtain ⟨horder, hunheld, hnever, hreplaced, hfull⟩ := replaces_least_recent hrun
  have hmiss : ¬s.Cached 31 := by
    have hnext := hfilled.not_cached (hlength ▸ by decide)
    rwa [hlength] at hnext
  have hget : bget 31 s.cache ≠ .error (.error "bget: no buffers") := fun herr => by
    have hheld := ((hfull 31).mp herr).2 (.buf ⟨0, by decide⟩) nofun
    rw [hfilled.outstanding] at hheld
    exact absurd hheld (Nat.lt_irrefl 0)
  -- there are no other buffers
  have hall := (mem_iff_of_length_eq hfilled.nodup hfilled.head).mp hlength
  have hused : ∀ b ≠ BufRef.head, (s.cache.buf b).refcnt = 0 ∧ (s.cache.buf b).valid = true := by
    intro b hb
    obtain ⟨i, hi⟩ := List.mem_iff_getElem?.mp ((hall b).mpr hb)
    exact ⟨(hunheld b hb).mpr (hfilled.outstanding b), (hfilled.block hi).1⟩
  obtain ⟨disk, b, io, hread⟩ : ∃ disk b io, bread 31 ⟨s.cache, disk⟩ = .ok (b, io) := by
    obtain ⟨order, hhist⟩ := hfilled.history
    rcases hhist.inv.cache.bread_cases (fun _ => 0) 31 with ⟨b, -, hread⟩ | ⟨hnone, -⟩
    · exact ⟨_, b, _, hread⟩
    · have hfirst := hhist.inv.cache.complete ⟨0, by decide⟩
      exact absurd (hused _ (hhist.inv.cache.mem_iff.mp hfirst)).1 (hnone _ hfirst).2
  obtain ⟨hhead, -, hleast, hblock, hother⟩ := hreplaced 31 disk b io hmiss hread
  -- the first buffer was released first
  obtain ⟨i, hi⟩ := List.mem_iff_getElem?.mp ((hall b).mpr hhead)
  obtain ⟨a, ha⟩ : ∃ a, bufs[0]? = some a :=
    ⟨_, List.getElem?_eq_getElem (hlength ▸ (by decide : 0 < nbuf))⟩
  have hle := hleast a ((hall a).mp (List.mem_of_getElem? ha)) (hfilled.outstanding a)
  rw [lastRelease_fillOps hfilled.nodup hi, lastRelease_fillOps hfilled.nodup ha] at hle
  obtain rfl : i = 0 := by omega
  exact ⟨bufs, s, hlength, hfilled.nodup, hrun, horder, hused, hmiss, hget, disk, b, io, hread, hi,
    (hfilled.block hi).2, hblock, hother⟩

/-! ### An overflow -/

/-- Reading a block again and again releases nothing. -/
theorem lastRelease_replicate (a : BufRef) (ops : List BufferOp) (n : ℕ) :
    lastRelease a (ops ++ List.replicate n (.bread blockno b)) = lastRelease a ops := by
  induction n with
  | zero => rw [List.replicate_zero, List.append_nil]
  | succ n ih => rw [List.replicate_succ', ← List.append_assoc, lastRelease_bread, ih]

/-- The buffer at the end of the list is read twice and released once; reads up to `2 ^ 32` then
take its reference count to 0 behind the buffers that were never released. -/
theorem not_sorted_of_overflow : ∃ ops s, Trace Step (boot ⟨id, id⟩) ops s ∧
    ∀ order, Ring.IsRing s.cache.links .head order → ¬s.Sorted ops order := by
  have hboot : Inv (boot ⟨id, id⟩) bootOrder := inv_boot
  have hfree : ∀ a, ((boot ⟨id, id⟩).cache.buf a).refcnt = 0 := fun _ => rfl
  have hzero : ∀ a, ((boot ⟨id, id⟩).cache.buf a).blockno = 0 := fun _ => rfl
  rcases hboot.cache.bread_cases (fun _ => 0) 1 with ⟨b, hb, hread⟩ | ⟨hnone, -⟩
  case inr =>
    have hlast := hboot.cache.complete ⟨0, by decide⟩
    exact absurd (hfree _) (hnone _ hlast).2
  have hmem := BufferCache.Inv.mem_of_chosen hb
  have hhead := hboot.cache.mem_iff.mp hmem
  -- block 1 takes the last buffer
  obtain ⟨before, after, horder, ⟨hblock, -⟩ | ⟨-, -, hafter⟩⟩ := hb
  · rw [hzero] at hblock
    exact absurd hblock (by decide)
  obtain rfl : after = [] := List.eq_nil_iff_forall_not_mem.mpr fun a ha => hafter a ha (hfree a)
  obtain ⟨a, rest, rfl⟩ : ∃ a rest, before = a :: rest := by
    cases before with
    | nil =>
      have hlength : bootOrder.length = 1 := congrArg List.length horder
      exact absurd hlength (by decide +kernel)
    | cons a rest => exact ⟨a, rest, rfl⟩
  have hab : a ≠ b := by
    have hnodup := (List.nodup_cons.mp hboot.cache.ring.nodup).2
    rw [horder] at hnodup
    exact (List.nodup_append.mp hnodup).2.2 a List.mem_cons_self b List.mem_cons_self
  have h₁ := hboot.bread hread
  obtain ⟨s₂, hrun₂, h₂, hcount₂, hvalid₂, hblock₂, hother₂⟩ :=
    h₁.exists_replicate hmem 1 (by simp [Buffer.touch]) (by simp [Buffer.touch]) 1
  simp only [Function.update_self] at hcount₂
  change s₂.outstanding b = 0 + 1 + 1 at hcount₂
  -- it is released once, and stays where it is
  obtain ⟨order₃, h₃, hmove⟩ := h₂.brelse (b := b) (by omega)
  have hrefcnt₃ := h₃.refcnt b hhead
  simp only [Function.update_self, hcount₂] at hrefcnt₃
  obtain ⟨rfl, -⟩ | ⟨-, hempty⟩ := hmove
  case inr =>
    rw [hempty] at hrefcnt₃
    cases hrefcnt₃
  obtain ⟨s₄, hrun₄, h₄, hcount₄, -, -, hother₄⟩ :=
    h₃.exists_replicate hmem 1 (by rw [BufferCache.buf_brelse]; simpa using hvalid₂)
      (by rw [BufferCache.buf_brelse]; simpa using hblock₂) (2 ^ 32 - 1)
  simp only [Function.update_self, hcount₂] at hcount₄
  have hrun : Trace Step (boot ⟨id, id⟩)
      (([] ++ [.bread 1 b] ++ List.replicate 1 (.bread 1 b)) ++ [.brelse b] ++
        List.replicate (2 ^ 32 - 1) (.bread 1 b)) s₄ :=
    Trace.append_iff.mpr ⟨_, (Trace.append_iff.mpr ⟨_, Trace.refl.snoc (.bread hread), hrun₂⟩).snoc
      (.brelse (by omega)), hrun₄⟩
  refine ⟨_, s₄, hrun, fun order hring hsorted => ?_⟩
  obtain rfl := hring.unique h₄.cache.ring
  rw [horder, Sorted, List.cons_append, List.pairwise_cons] at hsorted
  have hlast := hsorted.1 b (List.mem_append_right _ List.mem_cons_self)
  rw [lastRelease_replicate, lastRelease_replicate, lastRelease_brelse_self,
    lastRelease_brelse_of_ne hab] at hlast
  have hrefcnt₄ : (s₄.cache.buf b).refcnt = 0 := by
    have hcount := h₄.refcnt b hhead
    rw [hcount₄] at hcount
    exact BitVec.eq_of_toNat_eq hcount
  have hrefcnta : (s₄.cache.buf a).refcnt = 0 := by
    rw [hother₄ a hab, BufferCache.buf_brelse, BufferCache.modify_of_ne _ _ hab, hother₂ a hab,
      BufferCache.modify_of_ne _ _ hab]
    exact hfree a
  have hnever : lastRelease a ([] ++ [.bread 1 b] ++ List.replicate 1 (.bread 1 b)) = 0 := by
    rw [lastRelease_replicate, lastRelease_bread, lastRelease_nil]
  have hcontra := hlast hrefcnta hrefcnt₄
  rw [hnever] at hcontra
  rcases hcontra with hlt | hne
  · exact Nat.not_lt_zero _ hlt
  · exact Nat.succ_ne_zero _ hne

end Runs

end Session

end R5O5
