import R5O5.Kernel.Buffer.FlatDisk

/-!
# The log region

Runs in which strings are logged and the disk is read. The log region of the disk holds the strings
one after the other; when it is full, the next byte stops the kernel.

## Main definitions

- `LogOp.Step`: a call of `logData` or `readBytes` that returns;
- `logged`: all strings so far.

## Main results

- `log_of_trace`: what the disk holds, and when the next string is refused.
-/

namespace R5O5

/-- The bytes of the log region. -/
def logCapacity : ℕ := (diskSize - logStart) * bsize

/-- The calls that log strings and read the disk. -/
inductive LogOp
  | logData (str : List (BitVec 8))
  | readBytes (diskBlockNum offset nBytes : BitVec 64)

/-- The string that is logged by a call. -/
def LogOp.str : LogOp → List (BitVec 8)
  | logData str => str
  | readBytes _ _ _ => []

/-- One call that returns. -/
inductive LogOp.Step (wild : Wild) : LogState → LogOp → LogState → Prop
  | logData {s s' : LogState} {str : List (BitVec 8)} :
      R5O5.logData str s = .ok s' →
      Step wild s (.logData str) s'
  | readBytes {s : LogState} {diskBlockNum offset nBytes : BitVec 64} {io : CachedDisk}
      {bytes : List (BitVec 8)} :
      R5O5.readBytes wild diskBlockNum offset nBytes s.io = .ok (io, bytes) →
      Step wild s (.readBytes diskBlockNum offset nBytes) { s with io }

/-- All strings logged by some calls. -/
def logged (ops : List LogOp) : List (BitVec 8) := ops.flatMap LogOp.str

/-- One more string is logged behind the others. -/
@[simp]
theorem logged_append_singleton (ops : List LogOp) (op : LogOp) :
    logged (ops ++ [op]) = logged ops ++ op.str := by
  simp [logged]

/-- The log region holds these bytes, and the rest of the disk is as it was. -/
structure LogHolds (disk : ℕ → BitVec 8) (text : List (BitVec 8)) (s : LogState) : Prop where
  settled : Settled s.io
  fits : text.length ≤ logCapacity
  disk : s.io.disk = writeRange disk (logStart * bsize) text.length fun i => text.getD i 0
  position : LogAt s (logStart * bsize + text.length)

section Runs

variable {wild : Wild} {links : Ring.Links BufRef} {disk : ℕ → BitVec 8} {s s' : LogState}
  {op : LogOp} {ops : List LogOp} {text : List (BitVec 8)}

theorem logHolds_boot (links : Ring.Links BufRef) (disk : ℕ → BitVec 8) :
    LogHolds disk [] (DiskCall.boot links disk) := by
  obtain ⟨hsettled, hdisk, hat⟩ := DiskCall.carries_boot links disk
  exact ⟨hsettled, Nat.zero_le _, hdisk.trans (writeRange_zero ..).symm, hat⟩

/-- Writing a string behind another one is writing both. -/
theorem writeRange_append (disk : ℕ → BitVec 8) (start : ℕ) (text str : List (BitVec 8)) :
    writeRange (writeRange disk start text.length fun i => text.getD i 0) (start + text.length)
        str.length (fun i => str.getD i 0) =
      writeRange disk start (text ++ str).length fun i => (text ++ str).getD i 0 := by
  funext p
  unfold writeRange
  rw [List.length_append]
  by_cases hold : start ≤ p ∧ p < start + text.length
  · rw [if_neg (by omega), if_pos hold, if_pos (by omega)]
    exact (List.getD_append _ _ _ _ (by omega)).symm
  · by_cases hnew : start + text.length ≤ p ∧ p < start + text.length + str.length
    · have hindex : p - start - text.length = p - (start + text.length) := by omega
      rw [if_pos hnew, if_pos (by omega)]
      show str.getD (p - (start + text.length)) 0 = (text ++ str).getD (p - start) 0
      rw [List.getD_append_right _ _ _ _ (by omega), hindex]
    · rw [if_neg hnew, if_neg hold, if_neg (by omega)]

/-- The next string is written behind the others, or refused when it does not fit. -/
theorem LogHolds.logData_cases (h : LogHolds disk text s) (str : List (BitVec 8)) :
    (∃ s', logData str s = .ok s' ∧ LogHolds disk (text ++ str) s') ∨
    (logData str s = .error (.error "logData") ∧ logCapacity < (text ++ str).length) := by
  have hlength : (text ++ str).length = text.length + str.length := List.length_append
  rcases R5O5.logData_cases h.settled h.position str with
    ⟨s', hok, hle, hsettled, hdisk, hat⟩ | ⟨herr, hlt⟩
  · refine Or.inl ⟨s', hok, hsettled, ?_, ?_, ?_⟩
    · simp only [logCapacity, logStart, diskSize, bsize] at *
      omega
    · rw [hdisk, h.disk, writeRange_append]
    · rwa [hlength, ← Nat.add_assoc]
  · refine Or.inr ⟨herr, ?_⟩
    simp only [logCapacity, logStart, diskSize, bsize] at *
    omega

/-- A call logs its string behind the others. -/
theorem LogHolds.step (h : LogHolds disk text s) (hstep : LogOp.Step wild s op s') :
    LogHolds disk (text ++ op.str) s' := by
  cases hstep with
  | logData hok =>
    rename_i str
    rcases h.logData_cases str with ⟨s'', hok', hholds⟩ | ⟨herr, -⟩
    · rw [hok] at hok'
      cases hok'
      exact hholds
    · rw [hok] at herr
      cases herr
  | readBytes hok =>
    obtain ⟨hsettled, hdisk⟩ := readBytes_readOnly h.settled hok
    rw [LogOp.str, List.append_nil]
    exact ⟨hsettled, h.fits, hdisk.trans h.disk,
      ⟨h.position.position, h.position.off_le, h.position.blockNo_lt⟩⟩

/-- The log holds the strings in every run. -/
theorem logHolds_of_trace (hrun : Trace (LogOp.Step wild) (DiskCall.boot links disk) ops s) :
    LogHolds disk (logged ops) s :=
  hrun.invariant_of_labels (I := fun ops s => LogHolds disk (logged ops) s)
    (logHolds_boot links disk) fun ops s op s' h hstep => by
      rw [logged_append_singleton]
      exact h.step hstep

/-- After every run the log region starts with all strings so far, and the other bytes of the disk
are as they were. The next string is accepted exactly when it fits, and so are reads of the disk. -/
theorem log_of_trace (hrun : Trace (LogOp.Step wild) (DiskCall.boot links disk) ops s) :
    (∀ (i : ℕ) (hi : i < (logged ops).length),
      s.io.disk (logStart * bsize + i) = (logged ops)[i]) ∧
    (∀ p, p < logStart * bsize ∨ logStart * bsize + (logged ops).length ≤ p →
      s.io.disk p = disk p) ∧
    (∀ str, (logged ops).length + str.length ≤ logCapacity → ∃ s', logData str s = .ok s') ∧
    (∀ str, logCapacity < (logged ops).length + str.length →
      logData str s = .error (.error "logData")) ∧
    ∀ diskBlockNum offset nBytes : BitVec 64,
      diskBlockNum.toNat < diskSize → offset.toNat ≤ bsize →
      diskBlockNum.toNat * bsize + offset.toNat + nBytes.toNat ≤ diskSize * bsize →
      ∃ io bytes, readBytes wild diskBlockNum offset nBytes s.io = .ok (io, bytes) := by
  have h := logHolds_of_trace hrun
  have hlength : ∀ str, (logged ops ++ str).length = (logged ops).length + str.length :=
    fun str => List.length_append
  -- the disk is its first contents with the logged bytes written over
  refine ⟨fun i hi => ?_, fun p hp => ?_, fun str hle => ?_, fun str hlt => ?_, ?_⟩
  · rw [h.disk, writeRange, if_pos (by omega), Nat.add_sub_cancel_left]
    exact List.getD_eq_getElem _ _ hi
  · rw [h.disk, writeRange, if_neg (by omega)]
  · rcases h.logData_cases str with ⟨s', hok, -⟩ | ⟨-, hlt⟩
    · exact ⟨s', hok⟩
    · rw [hlength] at hlt
      omega
  · rcases h.logData_cases str with ⟨s', hok, hholds⟩ | ⟨herr, -⟩
    · have hfits := hholds.fits
      rw [hlength] at hfits
      omega
    · exact herr
  · intro diskBlockNum offset nBytes hblock hoffset hle
    rcases readBytes_cases h.settled hblock hoffset wild nBytes with ⟨io, hok, -⟩ | ⟨-, hlt⟩
    · exact ⟨io, _, hok⟩
    · omega

/-- A string is logged and the next one is accepted. -/
theorem log_of_trace_hello : ∃ s s', Trace (LogOp.Step fun _ _ _ => 0)
      (DiskCall.boot ⟨id, id⟩ fun _ => 32) [.logData [104, 105]] s ∧
    s.io.disk (logStart * bsize + 1) = 105 ∧ logData [33] s = .ok s' := by
  rcases (logHolds_boot ⟨id, id⟩ fun _ => 32).logData_cases [104, 105] with
    ⟨s, hok, -⟩ | ⟨-, hlt⟩
  · have hrun : Trace (LogOp.Step fun _ _ _ => 0) (DiskCall.boot ⟨id, id⟩ fun _ => 32)
        [.logData [104, 105]] s := Trace.refl.snoc (.logData hok)
    obtain ⟨hbytes, -, haccepts, -⟩ := log_of_trace hrun
    obtain ⟨s', hok'⟩ := haccepts [33] (by decide)
    exact ⟨s, s', hrun, hbytes 1 (by decide), hok'⟩
  · exact absurd hlt (by decide)

end Runs

end R5O5
