import R5O5.Kernel.Buffer.Copying
import R5O5.Kernel.Debug

/-!
# The disk as a flat array of bytes

Seen through `readBytes`, `writeBytes` and `logData`, the buffer cache and the disk are one array of
`DISKSIZE * BSIZE` bytes with a position for the log.

## Main definitions

- `FlatDisk`: the array and the position of the log, and what a call does to them;
- `LogState.Refines`: every call in a state ends as the array says.

## Main results

- `readBytes_cases`, `writeBytes_cases`, `logData_cases`: the functions on the array;
- `DiskCall.refines_of_trace`: every run of the functions refines the array.
-/

namespace R5O5

/-- The array with `count` bytes written from position `start` on. -/
def writeRange (D : ℕ → BitVec 8) (start count : ℕ) (bytes : ℕ → BitVec 8) (p : ℕ) : BitVec 8 :=
  if start ≤ p ∧ p < start + count then bytes (p - start) else D p

section WriteRange

variable (D : ℕ → BitVec 8) (start count : ℕ) (bytes : ℕ → BitVec 8)

@[simp]
theorem writeRange_zero : writeRange D start 0 bytes = D := by
  funext p
  rw [writeRange, if_neg (by omega)]

theorem writeRange_succ : writeRange D start (count + 1) bytes =
    Function.update (writeRange D start count bytes) (start + count) (bytes count) := by
  funext p
  rcases eq_or_ne p (start + count) with rfl | hp
  · rw [Function.update_self, writeRange, if_pos (by omega), Nat.add_sub_cancel_left]
  · rw [Function.update_of_ne hp]
    unfold writeRange
    rcases Nat.lt_or_gt_of_ne hp with hlt | hgt
    · have hiff : p < start + (count + 1) ↔ p < start + count := by omega
      simp only [hiff]
    · rw [if_neg (by omega), if_neg (by omega)]

/-- The first byte of a range is written first. -/
theorem writeRange_update : writeRange (Function.update D start (bytes 0)) (start + 1) count
    (fun i => bytes (i + 1)) = writeRange D start (count + 1) bytes := by
  funext p
  unfold writeRange
  rcases Nat.lt_trichotomy p start with hlt | rfl | hgt
  · rw [if_neg (by omega), if_neg (by omega), Function.update_of_ne (by omega)]
  · rw [if_neg (by omega), if_pos (by omega), Function.update_self, Nat.sub_self]
  · by_cases hp : p < start + 1 + count
    · rw [if_pos (by omega), if_pos (by omega)]
      show bytes (p - (start + 1) + 1) = bytes (p - start)
      rw [show p - (start + 1) + 1 = p - start by omega]
    · rw [if_neg (by omega), if_neg (by omega), Function.update_of_ne (by omega)]

end WriteRange

/-! ## The copying functions -/

section Functions

variable {s : CachedDisk} {diskBlockNum offset : BitVec 64}

/-- The next byte of the array is appended. -/
theorem bodySpec_readBytes (wild : Wild) (disk : ℕ → BitVec 8) (start count : ℕ) :
    BodySpec false start count
      (fun k D bytes => D = disk ∧ bytes = (List.range k).map fun i => disk (start + i))
      (fun _ => False) (fun _ b pos (s, bytes) => .ok (s, bytes ++ [dataAt wild s b pos])) := by
  constructor
  rintro k b pos s' _ D n - hpos hhold ⟨rfl, rfl⟩ hk hdisk
  refine Or.inl ⟨s', _, D, rfl, hhold, ⟨rfl, ?_⟩, hdisk⟩
  rw [hhold.dataAt wild hpos, List.range_succ, List.map_append, List.map_singleton, hk]

/-- The next byte of memory is written to the array. -/
theorem bodySpec_writeBytes (memory disk : ℕ → BitVec 8) (start count : ℕ) :
    BodySpec true start count (fun k D _ => D = writeRange disk start k memory) (fun _ => False)
      (fun k b pos (s, (t : Unit)) => do
        let s ← setData b pos (memory k) s
        return (s, t)) := by
  constructor
  rintro k b pos s' t _ n - hpos hhold rfl hk -
  obtain ⟨s'', hset, hhold'⟩ := hhold.setData hpos (memory k)
  refine Or.inl ⟨s'', t, _, by simp only [hset, Except.ok_bind]; rfl, hhold', ?_, by simp⟩
  rw [← hk, ← writeRange_succ]

/-- `readBytes` reads the array. -/
theorem readBytes_cases (hs : Settled s) (hblock : diskBlockNum.toNat < diskSize)
    (hoffset : offset.toNat ≤ bsize) (wild : Wild) (nBytes : BitVec 64) :
    (∃ s', readBytes wild diskBlockNum offset nBytes s =
        .ok (s', (List.range nBytes.toNat).map fun i =>
          s.disk (diskBlockNum.toNat * bsize + offset.toNat + i)) ∧
      diskBlockNum.toNat * bsize + offset.toNat + nBytes.toNat ≤ diskSize * bsize ∧
      Settled s' ∧ s'.disk = s.disk) ∨
    (readBytes wild diskBlockNum offset nBytes s =
        .error (.error "readBytes: block exceeds disk size") ∧
      diskSize * bsize < diskBlockNum.toNat * bsize + offset.toNat + nBytes.toNat) := by
  rcases copyBytes_cases "readBytes: block exceeds disk size" rfl
    (bodySpec_readBytes wild s.disk _ _) hs ⟨rfl, rfl⟩ hoffset hblock with
    ⟨s', bytes, hok, hle, hsettled, hdisk, rfl⟩ | herr | ⟨e, -, hfalse⟩
  · exact Or.inl ⟨s', hok, hle, hsettled, hdisk⟩
  · exact Or.inr herr
  · exact hfalse.elim

/-- `writeBytes` writes the array. -/
theorem writeBytes_cases (hs : Settled s) (hblock : diskBlockNum.toNat < diskSize)
    (hoffset : offset.toNat ≤ bsize) (nBytes : BitVec 64) (memory : ℕ → BitVec 8) :
    (∃ s', writeBytes diskBlockNum offset nBytes memory s = .ok s' ∧
      diskBlockNum.toNat * bsize + offset.toNat + nBytes.toNat ≤ diskSize * bsize ∧
      Settled s' ∧
      s'.disk = writeRange s.disk (diskBlockNum.toNat * bsize + offset.toNat) nBytes.toNat memory) ∨
    (writeBytes diskBlockNum offset nBytes memory s =
        .error (.error "writeBytes: block exceeds disk size") ∧
      diskSize * bsize < diskBlockNum.toNat * bsize + offset.toNat + nBytes.toNat) := by
  rw [writeBytes]
  rcases copyBytes_cases "writeBytes: block exceeds disk size" rfl
    (bodySpec_writeBytes memory s.disk _ _) hs (writeRange_zero ..).symm hoffset hblock with
    ⟨s', t, hok, hle, hsettled, hdisk⟩ | ⟨herr, hlt⟩ | ⟨e, -, hfalse⟩
  · exact Or.inl ⟨s', by rw [hok]; rfl, hle, hsettled, hdisk⟩
  · exact Or.inr ⟨by rw [herr]; rfl, hlt⟩
  · exact hfalse.elim

end Functions

/-! ## The log -/

/-- The log continues at this position of the array. -/
structure LogAt (s : LogState) (pos : ℕ) : Prop where
  position : s.blockNo.toNat * bsize + s.off.toNat = pos
  off_le : s.off.toNat ≤ bsize
  blockNo_lt : s.blockNo.toNat < diskSize

section Log

variable {s : LogState} {pos : ℕ}

/-- The number of a block of the disk fits in 32 bits. -/
theorem toNat_setWidth_of_lt {blockNo : BitVec 64} (h : blockNo.toNat < diskSize) :
    (blockNo.setWidth 32).toNat = blockNo.toNat := by
  rw [BitVec.toNat_setWidth]
  simp only [diskSize] at h
  omega

/-- The loop of `logData` writes the string, or stops at the end of the disk. -/
theorem logLoop_cases (str : List (BitVec 8)) {b : BufRef} {D : ℕ → BitVec 8} (hs : LogAt s pos)
    (hhold : Holding s.io b s.blockNo.toNat D) :
    (∃ s', logLoop str b s = .ok s' ∧ pos + str.length ≤ diskSize * bsize ∧ Settled s'.io ∧
      s'.io.disk = writeRange D pos str.length (fun i => str.getD i 0) ∧
      LogAt s' (pos + str.length)) ∨
    (logLoop str b s = .error (.error "logData") ∧ diskSize * bsize < pos + str.length) := by
  induction str generalizing s pos b D with
  | nil =>
    obtain ⟨hsettled, hdisk⟩ := hhold.release fun h : true = false => absurd h (by decide)
    obtain ⟨hpos, hoff, hlt⟩ := hs
    refine Or.inl ⟨_, rfl, ?_, hsettled, by simpa using hdisk, ⟨hpos, hoff, hlt⟩⟩
    simp only [bsize, diskSize, List.length_nil] at *
    omega
  | cons c str ih =>
    obtain ⟨hpos, hoff, hlt⟩ := hs
    -- the first byte and then the others is the whole string
    have hwrite : writeRange (Function.update D pos c) (pos + 1) str.length
        (fun i => str.getD i 0) =
          writeRange D pos (c :: str).length (fun i => (c :: str).getD i 0) :=
      writeRange_update D pos str.length fun i => (c :: str).getD i 0
    have hlength : pos + (c :: str).length = pos + 1 + str.length := by
      rw [List.length_cons]
      omega
    rw [logLoop, hlength]
    by_cases hend : s.off = BitVec.ofNat 64 bsize
    · -- the byte is the first one of the next block
      have hoffend : s.off.toNat = bsize := by
        rw [hend]
        decide
      have hnext : (s.blockNo + 1).toNat = s.blockNo.toNat + 1 := by
        rw [BitVec.toNat_add, show (1 : BitVec 64).toNat = 1 from rfl]
        simp only [diskSize] at hlt
        omega
      obtain ⟨hsettled, hdisk⟩ := hhold.release fun h : true = false => absurd h (by decide)
      rw [if_pos hend]
      dsimp only
      by_cases hfull : s.blockNo + 1 = BitVec.ofNat 64 diskSize
      · rw [if_pos hfull]
        refine Or.inr ⟨rfl, ?_⟩
        have hlast : (s.blockNo + 1).toNat = diskSize := by
          rw [hfull]
          decide
        simp only [bsize, diskSize] at *
        omega
      · have hlt' : (s.blockNo + 1).toNat < diskSize := by
          refine Nat.lt_of_le_of_ne (by omega) fun heq => hfull ?_
          exact BitVec.eq_of_toNat_eq (heq.trans (by decide))
        obtain ⟨b', io', hread, hhold', -⟩ := hsettled.bread ((s.blockNo + 1).setWidth 32)
        rw [toNat_setWidth_of_lt hlt', hdisk] at hhold'
        have hzero : (0 : BitVec 64).toNat < bsize := by decide
        obtain ⟨io'', hset, hhold''⟩ := hhold'.setData hzero c
        have hpos' : (s.blockNo + 1).toNat * bsize + (0 : BitVec 64).toNat = pos := by
          rw [← hpos, hoffend, hnext, show (0 : BitVec 64).toNat = 0 from rfl, Nat.add_mul,
            Nat.one_mul, Nat.add_zero]
        rw [hpos'] at hhold''
        rw [if_neg hfull, hread, Except.ok_bind]
        dsimp only
        rw [hset, Except.ok_bind]
        have hone : (0 + 1 : BitVec 64).toNat ≤ bsize := by decide
        have hat : LogAt ⟨io'', s.blockNo + 1, 0 + 1⟩ (pos + 1) :=
          ⟨by rw [← hpos', show (0 + 1 : BitVec 64).toNat = 1 from rfl,
            show (0 : BitVec 64).toNat = 0 from rfl], hone, hlt'⟩
        have hloop := ih hat hhold''
        rwa [hwrite] at hloop
    · have hlt' : s.off.toNat < bsize := by
        refine Nat.lt_of_le_of_ne hoff fun heq => hend ?_
        exact BitVec.eq_of_toNat_eq (heq.trans (by decide))
      have hoffnext : (s.off + 1).toNat = s.off.toNat + 1 := by
        rw [BitVec.toNat_add, show (1 : BitVec 64).toNat = 1 from rfl]
        simp only [bsize] at hlt'
        omega
      obtain ⟨io', hset, hhold'⟩ := hhold.setData hlt' c
      rw [hpos] at hhold'
      rw [if_neg hend, hset, Except.ok_bind]
      have hat : LogAt ⟨io', s.blockNo, s.off + 1⟩ (pos + 1) :=
        ⟨by rw [hoffnext, ← hpos, Nat.add_assoc], by rw [hoffnext]; exact hlt', hlt⟩
      have hloop := ih hat hhold'
      rwa [hwrite] at hloop

/-- `logData` appends to the log. -/
theorem logData_cases (hs : Settled s.io) (hat : LogAt s pos) (str : List (BitVec 8)) :
    (∃ s', logData str s = .ok s' ∧ pos + str.length ≤ diskSize * bsize ∧ Settled s'.io ∧
      s'.io.disk = writeRange s.io.disk pos str.length (fun i => str.getD i 0) ∧
      LogAt s' (pos + str.length)) ∨
    (logData str s = .error (.error "logData") ∧ diskSize * bsize < pos + str.length) := by
  obtain ⟨b, io', hread, hhold, -⟩ := hs.bread (s.blockNo.setWidth 32)
  rw [toNat_setWidth_of_lt hat.blockNo_lt] at hhold
  rw [logData, hread, Except.ok_bind]
  exact logLoop_cases str ⟨hat.position, hat.off_le, hat.blockNo_lt⟩ hhold

end Log

/-! ## Runs -/

/-- The calls that reach the disk. -/
inductive DiskCall
  | readBytes (diskBlockNum offset nBytes : BitVec 64)
  | writeBytes (diskBlockNum offset nBytes : BitVec 64) (memory : ℕ → BitVec 8)
  | logData (str : List (BitVec 8))

/-- The disk as an array of bytes, with the position where the log continues. -/
structure FlatDisk where
  bytes : ℕ → BitVec 8
  logPos : ℕ

namespace FlatDisk

/-- The array after a call. -/
def apply (A : FlatDisk) : DiskCall → FlatDisk
  | .readBytes _ _ _ => A
  | .writeBytes diskBlockNum offset nBytes memory =>
      { A with
        bytes := writeRange A.bytes (diskBlockNum.toNat * bsize + offset.toNat) nBytes.toNat memory }
  | .logData str =>
      { bytes := writeRange A.bytes A.logPos str.length fun i => str.getD i 0
        logPos := A.logPos + str.length }

/-- The bytes that a call stores to memory. -/
def output (A : FlatDisk) : DiskCall → List (BitVec 8)
  | .readBytes diskBlockNum offset nBytes =>
      (List.range nBytes.toNat).map fun i => A.bytes (diskBlockNum.toNat * bsize + offset.toNat + i)
  | _ => []

/-- The end of the range of a call. -/
def rangeEnd (A : FlatDisk) : DiskCall → ℕ
  | .readBytes diskBlockNum offset nBytes
  | .writeBytes diskBlockNum offset nBytes _ =>
      diskBlockNum.toNat * bsize + offset.toNat + nBytes.toNat
  | .logData str => A.logPos + str.length

end FlatDisk

namespace DiskCall

/-- The range of a call starts in a block of the disk, or right behind it. -/
def StartsInBlock : DiskCall → Prop
  | readBytes diskBlockNum offset _
  | writeBytes diskBlockNum offset _ _ => diskBlockNum.toNat < diskSize ∧ offset.toNat ≤ bsize
  | logData _ => True

/-- The message of the panic of a call. -/
def message : DiskCall → String
  | readBytes _ _ _ => "readBytes: block exceeds disk size"
  | writeBytes _ _ _ _ => "writeBytes: block exceeds disk size"
  | logData _ => "logData"

/-- Perform a call; the bytes are those it stores to memory. -/
def run (wild : Wild) : DiskCall → LogState → Except Stop (LogState × List (BitVec 8))
  | readBytes diskBlockNum offset nBytes, s => do
      let (io, bytes) ← R5O5.readBytes wild diskBlockNum offset nBytes s.io
      return ({ s with io }, bytes)
  | writeBytes diskBlockNum offset nBytes memory, s => do
      let io ← R5O5.writeBytes diskBlockNum offset nBytes memory s.io
      return ({ s with io }, [])
  | logData str, s => do
      let s ← R5O5.logData str s
      return (s, [])

/-- One call that returns. -/
def Step (wild : Wild) (s : LogState) (call : DiskCall) (s' : LogState) : Prop :=
  call.StartsInBlock ∧ ∃ bytes, call.run wild s = .ok (s', bytes)

/-- The state after `binit` and `logDataInit`. -/
def boot (links : Ring.Links BufRef) (disk : ℕ → BitVec 8) : LogState :=
  logDataInit { cache := binit (zeroCache links), disk }

end DiskCall

/-- The state carries the array. -/
structure LogState.Carries (s : LogState) (A : FlatDisk) : Prop where
  settled : Settled s.io
  disk : s.io.disk = A.bytes
  log : LogAt s A.logPos

/-- In this state the disk is the array, and a call returns what the array says, leaves the disk as
the array says and all references counts as they are, or panics if its range ends behind the
disk. -/
structure LogState.Refines (wild : Wild) (s : LogState) (A : FlatDisk) : Prop where
  disk : s.io.disk = A.bytes
  returns : ∀ call : DiskCall, call.StartsInBlock → A.rangeEnd call ≤ diskSize * bsize →
    ∃ s', call.run wild s = .ok (s', A.output call) ∧ s'.io.disk = (A.apply call).bytes ∧
      ∀ b ≠ BufRef.head, (s'.io.cache.buf b).refcnt = (s.io.cache.buf b).refcnt
  panics : ∀ call : DiskCall, call.StartsInBlock →
    (call.run wild s = .error (.error call.message) ↔ diskSize * bsize < A.rangeEnd call)

section Runs

variable {wild : Wild} {s s' : LogState} {A : FlatDisk} {links : Ring.Links BufRef}
  {disk : ℕ → BitVec 8}

/-- A call in a state that carries the array. -/
theorem LogState.Carries.run_cases (h : s.Carries A) (wild : Wild) (call : DiskCall)
    (hcall : call.StartsInBlock) :
    (∃ s', call.run wild s = .ok (s', A.output call) ∧ A.rangeEnd call ≤ diskSize * bsize ∧
      s'.Carries (A.apply call)) ∨
    (call.run wild s = .error (.error call.message) ∧ diskSize * bsize < A.rangeEnd call) := by
  -- only `logData` moves the position in the log
  cases call with
  | readBytes diskBlockNum offset nBytes =>
    obtain ⟨hblock, hoffset⟩ := hcall
    rcases readBytes_cases h.settled hblock hoffset wild nBytes with
      ⟨io, hok, hle, hsettled, hdisk⟩ | ⟨herr, hlt⟩
    · refine Or.inl ⟨{ s with io }, ?_, hle, hsettled, hdisk.trans h.disk, ?_⟩
      · rw [DiskCall.run, hok, h.disk]
        rfl
      · exact ⟨h.log.position, h.log.off_le, h.log.blockNo_lt⟩
    · exact Or.inr ⟨by rw [DiskCall.run, herr]; rfl, hlt⟩
  | writeBytes diskBlockNum offset nBytes memory =>
    obtain ⟨hblock, hoffset⟩ := hcall
    rcases writeBytes_cases h.settled hblock hoffset nBytes memory with
      ⟨io, hok, hle, hsettled, hdisk⟩ | ⟨herr, hlt⟩
    · refine Or.inl ⟨{ s with io }, by rw [DiskCall.run, hok]; rfl, hle, hsettled, ?_, ?_⟩
      · rw [hdisk, h.disk]
        rfl
      · exact ⟨h.log.position, h.log.off_le, h.log.blockNo_lt⟩
    · exact Or.inr ⟨by rw [DiskCall.run, herr]; rfl, hlt⟩
  | logData str =>
    rcases logData_cases h.settled h.log str with ⟨s', hok, hle, hsettled, hdisk, hat⟩ | ⟨herr, hlt⟩
    · refine Or.inl ⟨s', by rw [DiskCall.run, hok]; rfl, hle, hsettled, ?_, hat⟩
      rw [hdisk, h.disk]
      rfl
    · exact Or.inr ⟨by rw [DiskCall.run, herr]; rfl, hlt⟩

/-- A state that carries a flat disk refines it in every call. -/
theorem LogState.Carries.refines (h : s.Carries A) : s.Refines wild A where
  disk := h.disk
  returns call hcall hle := by
    rcases h.run_cases wild call hcall with ⟨s', hok, -, hcarries⟩ | ⟨-, hlt⟩
    · -- between two calls no buffer is held
      refine ⟨s', hok, hcarries.disk, fun b hb => ?_⟩
      rw [hcarries.settled.refcnt b hb, h.settled.refcnt b hb]
    · exact absurd hle (Nat.not_le.mpr hlt)
  panics call hcall := by
    rcases h.run_cases wild call hcall with ⟨s', hok, hle, -⟩ | ⟨herr, hlt⟩
    · rw [hok]
      exact iff_of_false (by simp) (Nat.not_lt.mpr hle)
    · exact iff_of_true herr hlt

theorem DiskCall.carries_boot (links : Ring.Links BufRef) (disk : ℕ → BitVec 8) :
    (boot links disk).Carries ⟨disk, logStart * bsize⟩ where
  settled :=
    { cache := ⟨_, Session.inv_binit⟩
      refcnt := fun _ _ => rfl
      coherent := fun _ _ h => by cases h }
  disk := rfl
  log :=
    { position := show (BitVec.ofNat 64 logStart).toNat * bsize + (0 : BitVec 64).toNat =
        logStart * bsize by decide
      off_le := show (0 : BitVec 64).toNat ≤ bsize by decide
      blockNo_lt := show (BitVec.ofNat 64 logStart).toNat < diskSize by decide }

/-- A call does on the flat disk what it does on the cached one. -/
theorem DiskCall.Step.carries {call : DiskCall} (hstep : Step wild s call s') (h : s.Carries A) :
    s'.Carries (A.apply call) := by
  obtain ⟨hcall, bytes, hok⟩ := hstep
  rcases h.run_cases wild call hcall with ⟨s'', hok', -, hcarries⟩ | ⟨herr, -⟩
  · rw [hok] at hok'
    cases hok'
    exact hcarries
  · rw [hok] at herr
    cases herr

/-- After every sequence of calls the functions behave as the array does. -/
theorem DiskCall.refines_of_trace {calls : List DiskCall}
    (hrun : Trace (Step wild) (boot links disk) calls s) :
    s.Refines wild (calls.foldl FlatDisk.apply ⟨disk, logStart * bsize⟩) := by
  suffices hcarries : s.Carries (calls.foldl FlatDisk.apply ⟨disk, logStart * bsize⟩) from
    hcarries.refines
  refine hrun.invariant_of_labels (I := fun calls s =>
    s.Carries (calls.foldl FlatDisk.apply ⟨disk, logStart * bsize⟩)) (carries_boot links disk) ?_
  intro calls s call s' hs hstep
  rw [List.foldl_append]
  exact hstep.carries hs

/-- A write over the border of two blocks, read back. -/
theorem DiskCall.refines_of_trace_write : ∃ s,
    Trace (Step fun _ _ _ => 0) (boot ⟨id, id⟩ fun _ => 0)
      [writeBytes 3 1023 2 fun i => BitVec.ofNat 8 (i + 7), readBytes 3 1023 2] s ∧
    s.Refines (fun _ _ _ => 0)
      ([writeBytes 3 1023 2 fun i => BitVec.ofNat 8 (i + 7), readBytes 3 1023 2].foldl
        FlatDisk.apply ⟨fun _ => 0, logStart * bsize⟩) := by
  have hblock : (3 : BitVec 64).toNat < diskSize ∧ (1023 : BitVec 64).toNat ≤ bsize := by decide
  have hend : (3 : BitVec 64).toNat * bsize + (1023 : BitVec 64).toNat + (2 : BitVec 64).toNat ≤
      diskSize * bsize := by decide
  rcases (carries_boot ⟨id, id⟩ fun _ => 0).run_cases (fun _ _ _ => 0)
    (writeBytes 3 1023 2 fun i => BitVec.ofNat 8 (i + 7)) hblock with ⟨s, hwrite, -, hs⟩ | ⟨-, hlt⟩
  · rcases hs.run_cases (fun _ _ _ => 0) (readBytes 3 1023 2) hblock with
      ⟨s', hread, -, -⟩ | ⟨-, hlt⟩
    · have hrun : Trace (Step fun _ _ _ => 0) (boot ⟨id, id⟩ fun _ => 0)
          [writeBytes 3 1023 2 fun i => BitVec.ofNat 8 (i + 7), readBytes 3 1023 2] s' :=
        (Trace.refl.snoc ⟨hblock, _, hwrite⟩).snoc ⟨hblock, _, hread⟩
      exact ⟨s', hrun, refines_of_trace hrun⟩
    · exact absurd hend (Nat.not_le.mpr hlt)
  · exact absurd hend (Nat.not_le.mpr hlt)

end Runs

end R5O5
