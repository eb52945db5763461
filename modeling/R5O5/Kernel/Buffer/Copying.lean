import R5O5.Kernel.Buffer.Invariant

/-!
# Copying between disk and memory

The loop of the copying functions, seen as one pass over the flat array of disk bytes. Between two
calls the cache agrees with the disk and no buffer is held; inside a call exactly one buffer is
held, and the array is the disk with the bytes written to this buffer so far.

## Main definitions

- `Settled`, `Holding`: the states between and inside calls;
- `BodySpec`: the contract of what a copying function does with one byte;
- `StoresByte`: the same for a byte that is stored at a virtual address.

## Main results

- `copyBytes_cases`: how a copying function ends, and with which array;
- `readBytesVirtual_rule`: how `readBytesVirtual` ends, and with which memory.
-/

namespace R5O5

/-- No buffer is held, and the valid ones agree with the disk. -/
structure Settled (s : CachedDisk) : Prop where
  cache : ∃ order, s.cache.Inv order
  refcnt : ∀ a ≠ BufRef.head, (s.cache.buf a).refcnt = 0
  coherent : ∀ a ≠ BufRef.head, (s.cache.buf a).valid = true →
    (s.cache.buf a).data = blockData s.disk (s.cache.buf a).blockno.toNat

/-- Only the buffer `b` is held, which carries block `n` of the array `D`; the rest of the array is
on the disk. -/
structure Holding (s : CachedDisk) (b : BufRef) (n : ℕ) (D : ℕ → BitVec 8) : Prop where
  cache : ∃ order, s.cache.Inv order
  ne_head : b ≠ .head
  valid : (s.cache.buf b).valid = true
  blockno : (s.cache.buf b).blockno.toNat = n
  data : (s.cache.buf b).data = blockData D n
  refcnt_self : (s.cache.buf b).refcnt = 1
  refcnt : ∀ a ≠ BufRef.head, a ≠ b → (s.cache.buf a).refcnt = 0
  coherent : ∀ a ≠ BufRef.head, a ≠ b → (s.cache.buf a).valid = true →
    (s.cache.buf a).data = blockData s.disk (s.cache.buf a).blockno.toNat
  disk : ∀ p, p / bsize ≠ n → s.disk p = D p

section Blocks

/-- The byte at index `j` of block `n` lies in block `n`. -/
theorem div_bsize (n : ℕ) (j : Fin bsize) : (n * bsize + j) / bsize = n := by
  have hj := j.isLt
  simp only [bsize] at *
  omega

theorem toNat_bsize : (BitVec.ofNat 64 bsize).toNat = bsize := by decide

/-- An offset reduced modulo the block size lies in a block. -/
theorem toNat_mod_bsize_lt (off : BitVec 64) : (off % BitVec.ofNat 64 bsize).toNat < bsize := by
  rw [BitVec.toNat_umod, toNat_bsize]
  exact Nat.mod_lt _ (by decide)

/-- A position on the disk is computed without wrapping around. -/
theorem toNat_mul_bsize_add {block off : BitVec 64}
    (hlt : block.toNat * bsize + off.toNat < diskSize * bsize) :
    (block * BitVec.ofNat 64 bsize + off).toNat = block.toNat * bsize + off.toNat := by
  rw [BitVec.toNat_add, BitVec.toNat_mul, toNat_bsize]
  simp only [bsize, diskSize] at *
  omega

/-- The check that a block is not on the disk. -/
theorem ge_diskSize_iff {block : BitVec 64} :
    block ≥ BitVec.ofNat 64 diskSize ↔ diskSize ≤ block.toNat := by
  rw [ge_iff_le, BitVec.le_def, BitVec.toNat_ofNat]
  simp only [diskSize]

theorem blockData_congr {D D' : ℕ → BitVec 8} {n : ℕ} (h : ∀ p, p / bsize = n → D p = D' p) :
    blockData D n = blockData D' n := by
  funext j
  exact h _ (div_bsize n j)

end Blocks

section States

variable {s : CachedDisk} {b : BufRef} {n : ℕ} {D : ℕ → BitVec 8} {diskBlockNum : BitVec 64}

/-- Opening a block holds its buffer. -/
theorem Settled.bread (h : Settled s) (blockno : BitVec 32) :
    ∃ b s', R5O5.bread blockno s = .ok (b, s') ∧ Holding s' b blockno.toNat s.disk ∧
      s'.disk = s.disk := by
  obtain ⟨order, hinv⟩ := h.cache
  rcases hinv.bread_cases s.disk blockno with ⟨b, hb, hread⟩ | ⟨hnone, -⟩
  · have hbmem := BufferCache.Inv.mem_of_chosen hb
    have hbhead := hinv.mem_iff.mp hbmem
    refine ⟨b, _, hread, ?_, rfl⟩
    constructor
    case cache => exact ⟨order, hinv.touch hb⟩
    case ne_head => exact hbhead
    case valid => simp [Buffer.touch]
    case blockno => simp [Buffer.touch]
    -- a hit agrees with the disk, and a miss has just been read
    case data =>
      simp only [BufferCache.modify_same, Buffer.touch]
      split
      case isTrue hhit => rw [h.coherent b hbhead hhit.1, hhit.2]
      case isFalse => rfl
    case refcnt_self =>
      simp only [BufferCache.modify_same, Buffer.touch, h.refcnt b hbhead]
      rfl
    case refcnt =>
      intro a ha hab
      simp only [BufferCache.modify_of_ne _ _ hab]
      exact h.refcnt a ha
    case coherent =>
      intro a ha hab
      simp only [BufferCache.modify_of_ne _ _ hab]
      exact h.coherent a ha
    case disk => exact fun _ _ => rfl
  · -- no buffer has references
    refine absurd (h.refcnt (.buf ⟨0, by decide⟩) (by simp)) (hnone _ ?_).2
    exact hinv.mem_iff.mpr (by simp)

/-- A block that exists is opened, and held with its contents. -/
theorem Settled.openBlock (h : Settled s) (message : String) (hlt : diskBlockNum.toNat < diskSize) :
    ∃ b s', R5O5.openBlock message diskBlockNum s = .ok (b, s') ∧
      Holding s' b diskBlockNum.toNat s.disk ∧ s'.disk = s.disk := by
  have hnot : ¬diskBlockNum ≥ BitVec.ofNat 64 diskSize :=
    mt ge_diskSize_iff.mp (Nat.not_le_of_lt hlt)
  have hword : (diskBlockNum.setWidth 32).toNat = diskBlockNum.toNat := by
    rw [BitVec.toNat_setWidth]
    simp only [diskSize] at hlt
    omega
  obtain ⟨b, s', hread, hhold, hdisk⟩ := h.bread (diskBlockNum.setWidth 32)
  rw [hword] at hhold
  exact ⟨b, s', by rw [R5O5.openBlock, if_neg hnot, hread], hhold, hdisk⟩

/-- A block behind the end of the disk is not opened. -/
theorem openBlock_of_ge {message : String} (hge : diskSize ≤ diskBlockNum.toNat) :
    openBlock message diskBlockNum s = .error (.error message) := by
  rw [openBlock, if_pos (ge_diskSize_iff.mpr hge)]

theorem Settled.of_openBlock (h : Settled s) {message : String} {b : BufRef} {s' : CachedDisk}
    (hok : R5O5.openBlock message diskBlockNum s = .ok (b, s')) :
    Holding s' b diskBlockNum.toNat s.disk ∧ s'.disk = s.disk := by
  rcases Nat.lt_or_ge diskBlockNum.toNat diskSize with hlt | hge
  · obtain ⟨b', s'', hok', hhold, hdisk⟩ := h.openBlock message hlt
    rw [hok] at hok'
    cases hok'
    exact ⟨hhold, hdisk⟩
  · rw [openBlock_of_ge hge] at hok
    cases hok

/-- Writing the buffer back brings the disk up to the array. -/
theorem Holding.bwrite (h : Holding s b n D) :
    Holding (R5O5.bwrite b s) b n D ∧ (R5O5.bwrite b s).disk = D := by
  have hdisk : (R5O5.bwrite b s).disk = D := by
    funext p
    simp only [R5O5.bwrite, diskRW, if_true, h.blockno]
    split
    case isTrue hp =>
      rw [h.data, blockData, ← hp]
      exact congrArg D (Nat.div_add_mod' p bsize)
    case isFalse hp => exact h.disk p hp
  have hcache : (R5O5.bwrite b s).cache = s.cache := rfl
  refine ⟨?_, hdisk⟩
  refine { h with coherent := fun a ha hab hvalid => ?_, disk := fun p _ => by rw [hdisk] }
  rw [hdisk, hcache] at *
  rw [h.coherent a ha hab hvalid]
  -- the other valid buffers carry other blocks
  obtain ⟨order, hinv⟩ := h.cache
  refine blockData_congr fun p hp => h.disk p ?_
  rw [hp, ← h.blockno]
  intro heq
  exact hab (hinv.unique (hinv.mem_iff.mpr ha) (hinv.mem_iff.mpr h.ne_head) hvalid h.valid
    (BitVec.eq_of_toNat_eq heq))

/-- Once the array is on the disk the buffer can be released. -/
theorem Holding.brelse (h : Holding s b n D) (hdisk : s.disk = D) :
    Settled { s with cache := R5O5.brelse b s.cache } := by
  obtain ⟨order, hinv⟩ := h.cache
  refine ⟨hinv.brelse (hinv.mem_iff.mpr h.ne_head) h.valid, ?_, ?_⟩
  · intro a ha
    simp only [BufferCache.buf_brelse]
    rcases eq_or_ne a b with rfl | hab
    · rw [BufferCache.modify_same]
      simp only [h.refcnt_self]
      rfl
    · rw [BufferCache.modify_of_ne _ _ hab]
      exact h.refcnt a ha hab
  · intro a ha hvalid
    simp only [BufferCache.buf_brelse] at hvalid ⊢
    rcases eq_or_ne a b with rfl | hab
    · rw [BufferCache.modify_same]
      simp only [h.data, h.blockno, hdisk]
    · rw [BufferCache.modify_of_ne _ _ hab] at *
      exact h.coherent a ha hab hvalid

/-- Releasing the buffer settles the cache; with a flush the disk has the new contents. -/
theorem Holding.release (h : Holding s b n D) {flush : Bool} (hdisk : flush = false → s.disk = D) :
    Settled (R5O5.release flush b s) ∧ (R5O5.release flush b s).disk = D := by
  cases flush with
  | true =>
    obtain ⟨hhold, hdisk'⟩ := h.bwrite
    exact ⟨hhold.brelse hdisk', hdisk'⟩
  | false => exact ⟨h.brelse (hdisk rfl), hdisk rfl⟩

/-- A byte written to the buffer is a byte of the array. -/
theorem Holding.setData (h : Holding s b n D) {pos : BitVec 64} (hpos : pos.toNat < bsize)
    (v : BitVec 8) : ∃ s', R5O5.setData b pos v s = .ok s' ∧
      Holding s' b n (Function.update D (n * bsize + pos.toNat) v) := by
  obtain ⟨order, hinv⟩ := h.cache
  refine ⟨_, by rw [R5O5.setData, dif_pos hpos], ?_⟩
  constructor
  case cache =>
    refine ⟨order, ?_⟩
    dsimp only
    exact hinv.modify rfl rfl fun _ => h.valid
  case ne_head => exact h.ne_head
  case valid => simpa using h.valid
  case blockno => simpa using h.blockno
  -- inside the block the byte goes to the buffer, not to the disk
  case data =>
    funext j
    simp only [BufferCache.modify_same, blockData]
    rcases eq_or_ne j ⟨pos.toNat, hpos⟩ with rfl | hj
    · simp
    · have hne : n * bsize + j.val ≠ n * bsize + pos.toNat := by
        intro heq
        exact hj (Fin.ext (Nat.add_left_cancel heq))
      rw [Function.update_of_ne hj, Function.update_of_ne hne, h.data, blockData]
  case refcnt_self => simpa using h.refcnt_self
  case refcnt =>
    intro a ha hab
    simp only [BufferCache.modify_of_ne _ _ hab]
    exact h.refcnt a ha hab
  case coherent =>
    intro a ha hab
    simp only [BufferCache.modify_of_ne _ _ hab]
    exact h.coherent a ha hab
  -- the other blocks do not see the byte
  case disk =>
    intro p hp
    rw [Function.update_of_ne]
    · exact h.disk p hp
    · rintro rfl
      exact hp (div_bsize n ⟨pos.toNat, hpos⟩)

/-- A byte of the buffer that is held is a byte of its block. -/
theorem Holding.dataAt (h : Holding s b n D) (wild : Wild) {pos : BitVec 64}
    (hpos : pos.toNat < bsize) : R5O5.dataAt wild s b pos = D (n * bsize + pos.toNat) := by
  rw [R5O5.dataAt, dif_pos hpos, h.data, blockData]

end States

/-! ## The loop -/

section Loop

variable {τ : Type}

/-- What a copying function does with byte `k` of `count` at a position of a held block: it goes on
with the array and its own state changed as the relation `J` says, or stops with an error in `E`.
Without `flush` the array stays what the disk holds. `start` is the position of byte 0. -/
structure BodySpec (flush : Bool) (start count : ℕ) (J : ℕ → (ℕ → BitVec 8) → τ → Prop)
    (E : Stop → Prop)
    (byte : ℕ → BufRef → BitVec 64 → CachedDisk × τ → Except Stop (CachedDisk × τ)) : Prop where
  step : ∀ {k b pos s t D n}, k < count → pos.toNat < bsize → Holding s b n D → J k D t →
    start + k = n * bsize + pos.toNat → (flush = false → s.disk = D) →
    (∃ s' t' D', byte k b pos (s, t) = .ok (s', t') ∧ Holding s' b n D' ∧ J (k + 1) D' t' ∧
      (flush = false → s'.disk = D')) ∨
    (∃ e, byte k b pos (s, t) = .error e ∧ E e)

/-- How a copying function ends after `count` bytes: with the array on the disk if all bytes lie on
the disk, with its message if they do not, or with an error of its body. -/
def CopyResult (message : String) (start count : ℕ) (J : ℕ → (ℕ → BitVec 8) → τ → Prop)
    (E : Stop → Prop) (result : Except Stop (CachedDisk × τ)) : Prop :=
  (∃ s t, result = .ok (s, t) ∧ start + count ≤ diskSize * bsize ∧ Settled s ∧ J count s.disk t) ∨
  (result = .error (.error message) ∧ diskSize * bsize < start + count) ∨
  (∃ e, result = .error e ∧ E e)

variable {flush : Bool} {start : ℕ} {J : ℕ → (ℕ → BitVec 8) → τ → Prop}
  {E : Stop → Prop}
  {byte : ℕ → BufRef → BitVec 64 → CachedDisk × τ → Except Stop (CachedDisk × τ)}

/-- The loop ends with all bytes copied, or at the end of the disk, or with the error of a byte. -/
theorem copyLoop_cases (message : String) (left : ℕ) {k : ℕ}
    (hbyte : BodySpec flush start (k + left) J E byte)
    {diskBlockNum pos : BitVec 64} {b : BufRef} {s : CachedDisk} {t : τ} {D : ℕ → BitVec 8}
    (hhold : Holding s b diskBlockNum.toNat D) (hJ : J k D t)
    (hstart : start + k = diskBlockNum.toNat * bsize + pos.toNat) (hpos : pos.toNat ≤ bsize)
    (hblock : diskBlockNum.toNat < diskSize) (hdisk : flush = false → s.disk = D) :
    CopyResult message start (k + left) J E
      (copyLoop flush message byte left k diskBlockNum pos b (s, t)) := by
  -- the induction is on the bytes left; the loop stays within the blocks of the disk
  induction left generalizing k diskBlockNum pos b s t D with
  | zero =>
    obtain ⟨hsettled, hD⟩ := hhold.release hdisk
    refine Or.inl ⟨_, t, rfl, ?_, hsettled, by rwa [hD]⟩
    simp only [bsize, diskSize] at *
    omega
  | succ left ih =>
    have hcount : k + (left + 1) = (k + 1) + left := by omega
    have hk : k < (k + 1) + left := by omega
    rw [hcount] at hbyte ⊢
    rw [copyLoop]
    by_cases hend : pos = BitVec.ofNat 64 bsize
    · -- the next byte is the first one of the next block
      have hposend : pos.toNat = bsize := by
        rw [hend]
        decide
      obtain ⟨hsettled, hD⟩ := hhold.release hdisk
      have hnext : (diskBlockNum + 1).toNat = diskBlockNum.toNat + 1 := by
        rw [BitVec.toNat_add, show (1 : BitVec 64).toNat = 1 from rfl]
        simp only [diskSize] at hblock
        omega
      rw [if_pos hend]
      rcases Nat.lt_or_ge (diskBlockNum + 1).toNat diskSize with hlt | hge
      · obtain ⟨b', s', hopen, hhold', hdisk'⟩ := hsettled.openBlock message hlt
        rw [hopen, Except.ok_bind]
        dsimp only
        rw [hD] at hhold' hdisk'
        have hstart' : start + k = (diskBlockNum + 1).toNat * bsize + (0 : BitVec 64).toNat := by
          rw [hstart, hnext, hposend, show (0 : BitVec 64).toNat = 0 from rfl]
          simp only [bsize]
          omega
        rcases hbyte.step hk (by decide) hhold' hJ hstart' fun _ => hdisk' with
          ⟨s'', t'', D'', hok, hhold'', hJ'', hdisk''⟩ | ⟨e, herr, he⟩
        · rw [hok, Except.ok_bind]
          refine ih hbyte hhold'' hJ'' ?_ (by decide) hlt hdisk''
          rw [← Nat.add_assoc, hstart', show (0 : BitVec 64).toNat = 0 from rfl,
            show (0 + 1 : BitVec 64).toNat = 1 from rfl]
        · rw [herr, Except.error_bind]
          exact Or.inr (Or.inr ⟨e, rfl, he⟩)
      · rw [openBlock_of_ge hge, Except.error_bind]
        refine Or.inr (Or.inl ⟨rfl, ?_⟩)
        simp only [bsize, diskSize] at *
        omega
    · have hlt : pos.toNat < bsize := by
        rcases Nat.lt_or_eq_of_le hpos with hlt | heq
        · exact hlt
        · exact absurd (BitVec.eq_of_toNat_eq (heq.trans (by decide))) hend
      have hposnext : (pos + 1).toNat = pos.toNat + 1 := by
        rw [BitVec.toNat_add, show (1 : BitVec 64).toNat = 1 from rfl]
        simp only [bsize] at hlt
        omega
      rw [if_neg hend]
      rcases hbyte.step hk hlt hhold hJ hstart hdisk with
        ⟨s', t', D', hok, hhold', hJ', hdisk'⟩ | ⟨e, herr, he⟩
      · rw [hok, Except.ok_bind]
        refine ih hbyte hhold' hJ' ?_ (by omega) hblock hdisk'
        omega
      · rw [herr, Except.error_bind]
        exact Or.inr (Or.inr ⟨e, rfl, he⟩)

/-- How a copying function ends. -/
theorem copyBytes_cases (message : String) {diskBlockNum offset nBytes : BitVec 64}
    {s : CachedDisk} {t : τ} (hstart : start = diskBlockNum.toNat * bsize + offset.toNat)
    (hbyte : BodySpec flush start nBytes.toNat J E byte) (hs : Settled s)
    (hJ : J 0 s.disk t) (hoffset : offset.toNat ≤ bsize) (hblock : diskBlockNum.toNat < diskSize) :
    CopyResult message start nBytes.toNat J E
      (copyBytes flush message byte diskBlockNum offset nBytes (s, t)) := by
  obtain ⟨b, s', hopen, hhold, hdisk⟩ := hs.openBlock message hblock
  rw [copyBytes, hopen, Except.ok_bind]
  rw [← Nat.zero_add nBytes.toNat] at hbyte
  have hloop :=
    copyLoop_cases message nBytes.toNat hbyte hhold hJ hstart hoffset hblock fun _ => hdisk
  rwa [Nat.zero_add] at hloop

/-- A copying function that only looks at its buffers leaves the disk alone, wherever it looks. -/
theorem copyLoop_readOnly {message : String} {left k : ℕ} {diskBlockNum pos : BitVec 64}
    {b : BufRef} {n : ℕ} {s s' : CachedDisk} {t t' : τ}
    (hread : ∀ {k b pos s t s' t'}, byte k b pos (s, t) = .ok (s', t') → s' = s)
    (hhold : Holding s b n s.disk)
    (hok : copyLoop false message byte left k diskBlockNum pos b (s, t) = .ok (s', t')) :
    Settled s' ∧ s'.disk = s.disk := by
  induction left generalizing k diskBlockNum pos b n s t with
  | zero =>
    cases hok
    exact hhold.release fun _ => rfl
  | succ left ih =>
    rw [copyLoop] at hok
    split at hok
    -- the block is used up: it is given back and the next one is opened
    case isTrue =>
      obtain ⟨hsettled, hdisk⟩ := hhold.release fun _ : false = false => rfl
      obtain ⟨⟨b', s₁⟩, hopen, hbody⟩ := Except.bind_eq_ok.mp hok
      obtain ⟨⟨s₂, t₂⟩, hbyte, hloop⟩ := Except.bind_eq_ok.mp hbody
      obtain ⟨hhold', hdisk'⟩ := hsettled.of_openBlock hopen
      obtain rfl := hread hbyte
      rw [← hdisk'] at hhold'
      obtain ⟨h, heq⟩ := ih hhold' hloop
      exact ⟨h, by rw [heq, hdisk', hdisk]⟩
    case isFalse =>
      obtain ⟨⟨s₁, t₁⟩, hbyte, hloop⟩ := Except.bind_eq_ok.mp hok
      obtain rfl := hread hbyte
      exact ih hhold hloop

theorem copyBytes_readOnly {message : String} {diskBlockNum offset nBytes : BitVec 64}
    {s s' : CachedDisk} {t t' : τ} (hs : Settled s)
    (hread : ∀ {k b pos s t s' t'}, byte k b pos (s, t) = .ok (s', t') → s' = s)
    (hok : copyBytes false message byte diskBlockNum offset nBytes (s, t) = .ok (s', t')) :
    Settled s' ∧ s'.disk = s.disk := by
  obtain ⟨⟨b, s₁⟩, hopen, hok⟩ := Except.bind_eq_ok.mp hok
  obtain ⟨hhold, hdisk⟩ := hs.of_openBlock hopen
  rw [← hdisk] at hhold
  obtain ⟨h, heq⟩ := copyLoop_readOnly hread hhold hok
  exact ⟨h, by rw [heq, hdisk]⟩

end Loop

/-! ### Reading through a page table -/

section Virtual

variable {J : ℕ → Mem → Prop} {E : Stop → Prop} {memoryLocation pagetable : BitVec 64}
  {disk : ℕ → BitVec 8}

/-- What `readBytesVirtual` does with byte `k` of `count`: it stores the byte that the disk holds
behind `start` at the translated address, or stops when the translation does. -/
def StoresByte (memoryLocation pagetable : BitVec 64) (disk : ℕ → BitVec 8) (start count : ℕ)
    (J : ℕ → Mem → Prop) (E : Stop → Prop) : Prop :=
  ∀ k < count, ∀ mem, J k mem →
    (∃ physicaladdr,
      virtualToPhysical mem pagetable (memoryLocation + BitVec.ofNat 64 k) = .ok physicaladdr ∧
      J (k + 1) (mem.write physicaladdr (disk (start + k)))) ∨
    (∃ e, virtualToPhysical mem pagetable (memoryLocation + BitVec.ofNat 64 k) = .error e ∧ E e)

/-- The round of `readBytesVirtual` stores the byte at its virtual address. -/
theorem bodySpec_readBytesVirtual {start count : ℕ} (wild : Wild)
    (hbyte : StoresByte memoryLocation pagetable disk start count J E) :
    BodySpec false start count (fun k D mem => D = disk ∧ J k mem) E (fun k b pos (s, mem) => do
      let physicaladdr ← virtualToPhysical mem pagetable (memoryLocation + BitVec.ofNat 64 k)
      return (s, mem.write physicaladdr (dataAt wild s b pos))) := by
  constructor
  rintro k b pos s mem D n hlt hpos hhold ⟨rfl, hJ⟩ hk hdisk
  rcases hbyte k hlt mem hJ with ⟨physicaladdr, hphys, hJ'⟩ | ⟨e, hphys, he⟩
  · refine Or.inl ⟨s, _, D, by simp only [hphys]; rfl, hhold, ⟨rfl, ?_⟩, hdisk⟩
    rwa [hhold.dataAt wild hpos, ← hk]
  · exact Or.inr ⟨e, by simp only [hphys]; rfl, he⟩

/-- To follow `readBytesVirtual` it is enough to follow its bytes. -/
theorem readBytesVirtual_rule {s : CachedDisk} {mem : Mem} {diskBlockNum offset nBytes : BitVec 64}
    (hs : Settled s) (hoffset : offset.toNat ≤ bsize) (hblock : diskBlockNum.toNat < diskSize)
    (wild : Wild) (hJ : J 0 mem)
    (hbyte : StoresByte memoryLocation pagetable s.disk
      (diskBlockNum.toNat * bsize + offset.toNat) nBytes.toNat J E) :
    (∃ s' mem', readBytesVirtual wild diskBlockNum offset nBytes memoryLocation pagetable s mem =
        .ok (s', mem') ∧
      diskBlockNum.toNat * bsize + offset.toNat + nBytes.toNat ≤ diskSize * bsize ∧
      Settled s' ∧ s'.disk = s.disk ∧ J nBytes.toNat mem') ∨
    (readBytesVirtual wild diskBlockNum offset nBytes memoryLocation pagetable s mem =
        .error (.error "readBytesVirtual: block exceeds disk size") ∧
      diskSize * bsize < diskBlockNum.toNat * bsize + offset.toNat + nBytes.toNat) ∨
    (∃ e, readBytesVirtual wild diskBlockNum offset nBytes memoryLocation pagetable s mem =
        .error e ∧ E e) :=
  copyBytes_cases "readBytesVirtual: block exceeds disk size" rfl
    (bodySpec_readBytesVirtual wild hbyte) hs ⟨rfl, hJ⟩ hoffset hblock

end Virtual

/-! ### Two runs -/

section TwoRuns

variable {τ τ' : Type} {flush : Bool} {message : String}
  {byte : ℕ → BufRef → BitVec 64 → CachedDisk × τ → Except Stop (CachedDisk × τ)}
  {byte' : ℕ → BufRef → BitVec 64 → CachedDisk × τ' → Except Stop (CachedDisk × τ')}

/-- The same buffers, and related states beside them. -/
def SameBuffers (R : τ → τ' → Prop) (r : CachedDisk × τ) (r' : CachedDisk × τ') : Prop :=
  r'.1 = r.1 ∧ R r.2 r'.2

variable {R : ℕ → τ → τ' → Prop}

/-- What is copied byte by byte alike is copied alike; `R k` relates the states after `k` bytes. -/
theorem copyLoop_related
    (hbyte : ∀ k b pos s t t', R k t t' →
      Except.Related (SameBuffers (R (k + 1))) (byte k b pos (s, t)) (byte' k b pos (s, t')))
    {left k : ℕ} {diskBlockNum pos : BitVec 64} {b : BufRef} {s : CachedDisk} {t : τ} {t' : τ'}
    (ht : R k t t') :
    Except.Related (SameBuffers (R (k + left)))
      (copyLoop flush message byte left k diskBlockNum pos b (s, t))
      (copyLoop flush message byte' left k diskBlockNum pos b (s, t')) := by
  induction left generalizing k diskBlockNum pos b s t t' with
  | zero => exact ⟨rfl, ht⟩
  | succ left ih =>
    rw [copyLoop, copyLoop, show k + (left + 1) = k + 1 + left by omega]
    split
    case isTrue =>
      -- the next block is opened alike
      cases openBlock message (diskBlockNum + 1) (release flush b s) with
      | error e => exact Except.Related.error e
      | ok r =>
        refine (hbyte k r.1 0 r.2 t t' ht).bind ?_
        rintro ⟨s₁, t₁⟩ ⟨_, t₁'⟩ ⟨rfl, ht₁⟩
        exact ih ht₁
    case isFalse =>
      refine (hbyte k b pos s t t' ht).bind ?_
      rintro ⟨s₁, t₁⟩ ⟨_, t₁'⟩ ⟨rfl, ht₁⟩
      exact ih ht₁

/-- Copying keeps a relation between two states that every round keeps. -/
theorem copyBytes_related
    (hbyte : ∀ k b pos s t t', R k t t' →
      Except.Related (SameBuffers (R (k + 1))) (byte k b pos (s, t)) (byte' k b pos (s, t')))
    {diskBlockNum offset nBytes : BitVec 64} {s : CachedDisk} {t : τ} {t' : τ'} (ht : R 0 t t') :
    Except.Related (SameBuffers (R nBytes.toNat))
      (copyBytes flush message byte diskBlockNum offset nBytes (s, t))
      (copyBytes flush message byte' diskBlockNum offset nBytes (s, t')) := by
  rw [copyBytes, copyBytes]
  cases openBlock message diskBlockNum s with
  | error e => exact Except.Related.error e
  | ok r =>
    have hloop : Except.Related (SameBuffers (R (0 + nBytes.toNat)))
        (copyLoop flush message byte nBytes.toNat 0 diskBlockNum offset r.1 (r.2, t))
        (copyLoop flush message byte' nBytes.toNat 0 diskBlockNum offset r.1 (r.2, t')) :=
      copyLoop_related hbyte ht
    rwa [Nat.zero_add] at hloop

end TwoRuns

/-! ### The end of the disk -/

section Range

variable {τ : Type} {flush : Bool} {message : String} {t : τ} {s : CachedDisk} {b : BufRef}
  {byte : ℕ → BufRef → BitVec 64 → CachedDisk × τ → Except Stop (CachedDisk × τ)}
  {diskBlockNum pos : BitVec 64} {r : CachedDisk × τ}

theorem lt_of_openBlock {r : BufRef × CachedDisk}
    (hok : openBlock message diskBlockNum s = .ok r) : diskBlockNum.toNat < diskSize := by
  by_contra hge
  rw [openBlock_of_ge (Nat.le_of_not_lt hge)] at hok
  cases hok

/-- A loop that returns has stayed on the disk. -/
theorem copyLoop_le {left k : ℕ} (hblock : diskBlockNum.toNat < diskSize) (hpos : pos.toNat ≤ bsize)
    (hok : copyLoop flush message byte left k diskBlockNum pos b (s, t) = .ok r) :
    diskBlockNum.toNat * bsize + pos.toNat + left ≤ diskSize * bsize := by
  induction left generalizing k diskBlockNum pos b s t with
  | zero =>
    simp only [diskSize, bsize] at hblock hpos ⊢
    omega
  | succ left ih =>
    rw [copyLoop] at hok
    split at hok
    -- the next byte is the first one of the next block, which is opened
    case isTrue hend =>
      obtain ⟨⟨b', s'⟩, hopen, hok⟩ := Except.bind_eq_ok.mp hok
      obtain ⟨⟨s₁, t₁⟩, -, hok⟩ := Except.bind_eq_ok.mp hok
      have hlt := lt_of_openBlock hopen
      have hle := ih hlt (by decide) hok
      have hnext : (diskBlockNum + 1).toNat = diskBlockNum.toNat + 1 := by
        rw [BitVec.toNat_add]
        simp only [diskSize, BitVec.reduceToNat] at hblock ⊢
        omega
      have hone : ((0 : BitVec 64) + 1).toNat = 1 := by decide
      rw [hnext, hone] at hle
      have hfull : pos.toNat = bsize := by
        rw [hend]
        decide
      rw [Nat.add_mul] at hle
      omega
    case isFalse hend =>
      obtain ⟨⟨s₁, t₁⟩, -, hok⟩ := Except.bind_eq_ok.mp hok
      have hne : pos.toNat ≠ bsize := by
        intro heq
        refine hend (BitVec.eq_of_toNat_eq ?_)
        rw [heq]
        decide
      have hnext : (pos + 1).toNat = pos.toNat + 1 := by
        rw [BitVec.toNat_add]
        simp only [bsize, BitVec.reduceToNat] at hpos ⊢
        omega
      have hle := ih hblock (by omega) hok
      rw [hnext] at hle
      omega

/-- A copy that returns has stayed on the disk. -/
theorem copyBytes_le {offset nBytes : BitVec 64} (hoffset : offset.toNat ≤ bsize)
    (hok : copyBytes flush message byte diskBlockNum offset nBytes (s, t) = .ok r) :
    diskBlockNum.toNat < diskSize ∧
      diskBlockNum.toNat * bsize + offset.toNat + nBytes.toNat ≤ diskSize * bsize := by
  obtain ⟨⟨b, s₁⟩, hopen, hok⟩ := Except.bind_eq_ok.mp hok
  have hlt := lt_of_openBlock hopen
  exact ⟨hlt, copyLoop_le hlt hoffset hok⟩

end Range

/-- `readBytes` leaves the disk alone, wherever it reads. -/
theorem readBytes_readOnly {wild : Wild} {diskBlockNum offset nBytes : BitVec 64}
    {s s' : CachedDisk} {bytes : List (BitVec 8)} (hs : Settled s)
    (hok : readBytes wild diskBlockNum offset nBytes s = .ok (s', bytes)) :
    Settled s' ∧ s'.disk = s.disk := by
  refine copyBytes_readOnly hs ?_ hok
  intro k b pos s t s' t' h
  cases h
  rfl

end R5O5
