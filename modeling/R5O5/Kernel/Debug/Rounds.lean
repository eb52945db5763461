import R5O5.Kernel.Debug.Log

/-!
# The log in the middle of a call

`logData` keeps the bytes of a block in its buffer until the block is full or the string ends. When
the machine is switched off in between, the disk has the log up to the last block that was written;
blocks are written whole.

## Main definitions

- `logRound`: a round of the loop of `logData`;
- `logRounds`: a call of `logData` up to the end of a round.

## Main results

- `logData_append`: a call goes on after any of its rounds;
- `LogHolds.logRounds`: what the disk holds then.
-/

namespace R5O5

/-- One round of the loop of `logData`. -/
def logRound (c : BitVec 8) (buff : BufRef) (s : LogState) : Except Stop (BufRef × LogState) :=
  if s.off = BitVec.ofNat 64 bsize then
    let io := release true buff s.io
    let blockNo := s.blockNo + 1
    if blockNo = BitVec.ofNat 64 diskSize then .error (.error "logData")
    else do
      let (buff, io) ← bread (blockNo.setWidth 32) io
      let io ← setData buff 0 c io
      return (buff, { io, blockNo, off := 0 + 1 })
  else do
    let io ← setData buff s.off c s.io
    return (buff, { s with io, off := s.off + 1 })

/-- The rounds for some bytes. -/
def logRoundLoop : List (BitVec 8) → BufRef → LogState → Except Stop (BufRef × LogState)
  | [], buff, s => .ok (buff, s)
  | c :: str, buff, s => do
    let (buff, s) ← logRound c buff s
    logRoundLoop str buff s

/-- A call of `logData` up to the round for the last one of these bytes. -/
def logRounds (str : List (BitVec 8)) (s : LogState) : Except Stop (BufRef × LogState) := do
  let (buff, io) ← bread (s.blockNo.setWidth 32) s.io
  logRoundLoop str buff { s with io }

section Rounds

variable {s s' : LogState} {b b' : BufRef} {c : BitVec 8} {str rest text : List (BitVec 8)}
  {disk : ℕ → BitVec 8}

/-- The loop of `logData` is made of rounds. -/
theorem logLoop_cons (c : BitVec 8) (str : List (BitVec 8)) (b : BufRef) (s : LogState) :
    logLoop (c :: str) b s = logRound c b s >>= fun r => logLoop str r.1 r.2 := by
  rw [logLoop, logRound]
  split_ifs with hend
  · dsimp only
    split_ifs with hfull
    · rfl
    · simp only [bind_assoc, pure_bind]
  · simp only [bind_assoc, pure_bind]

/-- The loop goes on after any of its rounds. -/
theorem logLoop_append (str rest : List (BitVec 8)) (b : BufRef) (s : LogState) :
    logLoop (str ++ rest) b s = logRoundLoop str b s >>= fun r => logLoop rest r.1 r.2 := by
  induction str generalizing b s with
  | nil => rfl
  | cons c str ih =>
    rw [List.cons_append, logLoop_cons, logRoundLoop, bind_assoc]
    exact congrArg _ (funext fun r => ih r.1 r.2)

/-- A call of `logData` goes on after any of its rounds. -/
theorem logData_append (str rest : List (BitVec 8)) (s : LogState) :
    logData (str ++ rest) s = logRounds str s >>= fun r => logLoop rest r.1 r.2 := by
  rw [logData, logRounds, bind_assoc]
  exact congrArg _ (funext fun r => logLoop_append str rest r.1 { s with io := r.2 })

/-- The disk with this text in the log region. -/
def logText (disk : ℕ → BitVec 8) (text : List (BitVec 8)) : ℕ → BitVec 8 :=
  writeRange disk (logStart * bsize) text.length fun i => text.getD i 0

theorem logText_append_singleton (disk : ℕ → BitVec 8) (text : List (BitVec 8)) (c : BitVec 8) :
    logText disk (text ++ [c]) =
      Function.update (logText disk text) (logStart * bsize + text.length) c := by
  rw [logText, ← writeRange_append, List.length_singleton, writeRange_succ, writeRange_zero]
  rfl

/-- The call stands behind the round for the last byte of `str`; `text` was logged before. The bytes
of the current block are in its buffer only. -/
structure Midway (disk : ℕ → BitVec 8) (text str : List (BitVec 8)) (b : BufRef) (s : LogState) :
    Prop where
  hold : Holding s.io b s.blockNo.toNat (logText disk (text ++ str))
  position : LogAt s (logStart * bsize + (text ++ str).length)
  disk : s.io.disk = logText disk (text ++ str.take (str.length - s.off.toNat))

/-- Changing a buffer does not change the disk. -/
theorem setData_disk {io io' : CachedDisk} {pos : BitVec 64} (h : setData b pos c io = .ok io') :
    io'.disk = io.disk := by
  unfold setData at h
  split at h
  · cases h
    rfl
  · cases h

/-- The next byte is stored in the block that is held. -/
theorem Midway.store {io : CachedDisk} {blockNo off : BitVec 64} {D : ℕ → BitVec 8}
    (hhold : Holding io b blockNo.toNat D) (hD : D = logText disk (text ++ str))
    (hpos : blockNo.toNat * bsize + off.toNat = logStart * bsize + (text ++ str).length)
    (hlt : blockNo.toNat < diskSize) (hoff : off.toNat < bsize)
    (hdisk : io.disk = logText disk (text ++ str.take (str.length - off.toNat)))
    {io' : CachedDisk} (hok : setData b off c io = .ok io') :
    Midway disk text (str ++ [c]) b { io := io', blockNo, off := off + 1 } := by
  have hnext : (off + 1).toNat = off.toNat + 1 := by
    rw [BitVec.toNat_add, show (1 : BitVec 64).toNat = 1 from rfl]
    simp only [bsize] at hoff
    omega
  obtain ⟨io'', hset, hhold'⟩ := hhold.setData hoff c
  rw [hok] at hset
  cases hset
  rw [hpos, hD, ← logText_append_singleton, List.append_assoc] at hhold'
  refine ⟨hhold', ⟨?_, ?_, hlt⟩, ?_⟩
  · show blockNo.toNat * bsize + (off + 1).toNat = _
    rw [hnext, ← Nat.add_assoc, hpos, Nat.add_assoc, ← List.append_assoc]
    have hlength : (text ++ str ++ [c]).length = (text ++ str).length + 1 := List.length_append
    rw [hlength]
  · show (off + 1).toNat ≤ bsize
    rw [hnext]
    exact hoff
  · show io'.disk = logText disk (text ++ (str ++ [c]).take ((str ++ [c]).length - (off + 1).toNat))
    rw [setData_disk hok, hdisk, hnext, List.length_append, List.length_singleton,
      Nat.add_sub_add_right, List.take_append_of_le_length (Nat.sub_le ..)]

/-- A round brings one more byte, and the full block to the disk when there is one. -/
theorem Midway.round (h : Midway disk text str b s) (hok : logRound c b s = .ok (b', s')) :
    Midway disk text (str ++ [c]) b' s' := by
  obtain ⟨hpos, hoff, hlt⟩ := h.position
  rw [logRound] at hok
  split_ifs at hok with hend
  · -- the block is full: it is written, and the byte is the first one of the next block
    dsimp only at hok
    split_ifs at hok with hfull
    have hoffend : s.off.toNat = bsize := by
      rw [hend]
      decide
    have hnext : (s.blockNo + 1).toNat = s.blockNo.toNat + 1 := by
      rw [BitVec.toNat_add, show (1 : BitVec 64).toNat = 1 from rfl]
      simp only [diskSize] at hlt
      omega
    have hlt' : (s.blockNo + 1).toNat < diskSize := by
      refine Nat.lt_of_le_of_ne (by omega) fun heq => hfull ?_
      exact BitVec.eq_of_toNat_eq (heq.trans (by decide))
    obtain ⟨hsettled, hdisk⟩ :=
      h.hold.release fun hflush : true = false => absurd hflush (by decide)
    obtain ⟨b₁, io₁, hread, hhold, hdisk₁⟩ := hsettled.bread ((s.blockNo + 1).setWidth 32)
    rw [toNat_setWidth_of_lt hlt'] at hhold
    rw [hread, Except.ok_bind] at hok
    obtain ⟨io₂, hset, hrest⟩ := Except.bind_eq_ok.mp hok
    cases hrest
    refine Midway.store hhold hdisk ?_ hlt' (by decide) ?_ hset
    · rw [hoffend] at hpos
      rw [hnext, Nat.add_mul, Nat.one_mul, hpos]
      exact Nat.add_zero _
    · rw [hdisk₁, hdisk, show (0 : BitVec 64).toNat = 0 from rfl, Nat.sub_zero, List.take_length]
  · have hlt' : s.off.toNat < bsize := by
      refine Nat.lt_of_le_of_ne hoff fun heq => hend ?_
      exact BitVec.eq_of_toNat_eq (heq.trans (by decide))
    obtain ⟨io₂, hset, hrest⟩ := Except.bind_eq_ok.mp hok
    cases hrest
    exact Midway.store h.hold rfl hpos hlt hlt' h.disk hset

theorem Midway.roundLoop (h : Midway disk text str b s)
    (hok : logRoundLoop rest b s = .ok (b', s')) : Midway disk text (str ++ rest) b' s' := by
  induction rest generalizing str b s with
  | nil =>
    cases hok
    rwa [List.append_nil]
  | cons c rest ih =>
    rw [logRoundLoop] at hok
    obtain ⟨r, hround, hrest⟩ := Except.bind_eq_ok.mp hok
    have hloop := ih (h.round hround) hrest
    rwa [List.append_assoc] at hloop

/-- After any rounds of a call the state is in the middle of it. -/
theorem LogHolds.midway (h : LogHolds disk text s) (hok : R5O5.logRounds str s = .ok (b', s')) :
    Midway disk text str b' s' := by
  obtain ⟨b, io, hread, hhold, hdisk⟩ := h.settled.bread (s.blockNo.setWidth 32)
  have hat := h.position
  rw [toNat_setWidth_of_lt hat.blockNo_lt, h.disk] at hhold
  rw [R5O5.logRounds, hread, Except.ok_bind] at hok
  have hstart : Midway disk text [] b { s with io } := by
    rw [← h.disk] at hhold
    refine ⟨?_, ?_, ?_⟩
    · rw [List.append_nil, logText, ← h.disk]
      exact hhold
    · rw [List.append_nil]
      exact ⟨hat.position, hat.off_le, hat.blockNo_lt⟩
    · rw [List.take_nil, List.append_nil]
      exact hdisk.trans h.disk
  exact hstart.roundLoop hok

/-- In the middle of a call the log on the disk is what was logged before with the blocks of the
string that are full: at most one block of it is missing. -/
theorem LogHolds.logRounds (h : LogHolds disk text s) (hok : R5O5.logRounds str s = .ok (b', s')) :
    s'.io.disk = logText disk (text ++ str.take (str.length - s'.off.toNat)) ∧
      s'.off.toNat ≤ bsize :=
  ⟨(h.midway hok).disk, (h.midway hok).position.off_le⟩

/-- When a full block is written, all bytes so far are on the disk. -/
theorem LogHolds.release_logRounds (h : LogHolds disk text s)
    (hok : R5O5.logRounds str s = .ok (b', s')) :
    (release true b' s'.io).disk = logText disk (text ++ str) :=
  ((h.midway hok).hold.release fun hflush : true = false => absurd hflush (by decide)).2

end Rounds

end R5O5
