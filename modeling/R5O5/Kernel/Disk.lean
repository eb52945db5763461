import Mathlib.Data.Fin.VecNotation
import Mathlib.Data.Fintype.Card
import R5O5.Kernel.Buffer
import R5O5.Lib.Except

/-!
# The disk driver

The structures that `kernel/disk.c` shares with the virtio block device, and the parts of its
functions between which the driver waits. A descriptor names what it points at instead of an
address. The fields of the used area that the driver does not read are left out.

## Main definitions

- `Disk`: the descriptors, the available and the used ring, and the driver's own book-keeping;
- `Disk.submit`: `diskRW` up to the notification of the device;
- `Disk.freeChain`: give the descriptors of a request back;
- `Disk.diskIntrRound`: one round of the loop of `diskIntr`.

## Main results

- `Disk.freeChain_ne_diverge`: `freeChain` terminates, whatever the descriptors hold;
- `Disk.submit_of_free`: a request takes three descriptors when all are free;
- `Disk.freeChain_of_chained`: they are the ones that are given back.
-/

namespace R5O5

/-- `NUM`, the descriptors of the queue. -/
def num : ℕ := 8

/-- What a descriptor points at. -/
inductive DescAddr
  | null
  /-- The header of the request, a local variable of `diskRW`. -/
  | buf0
  /-- The data of a buffer. -/
  | data (b : BufRef)
  /-- A status byte of `disk.info`. -/
  | status (i : Fin num)
  deriving DecidableEq, Repr

/-- A descriptor. -/
structure VRingDesc where
  addr : DescAddr
  len : BitVec 32
  flags : BitVec 16
  next : BitVec 16

/-- `VRING_DESC_F_NEXT`: chained with another descriptor. -/
def vringDescFNext : BitVec 16 := 1

/-- `VRING_DESC_F_WRITE`: the device writes. -/
def vringDescFWrite : BitVec 16 := 2

/-- The used area: the counter of the device and the `id` of each element. -/
structure UsedArea where
  id : BitVec 16
  elems : Fin num → BitVec 32

/-- An operation in flight. -/
structure DiskInfo where
  b : Option BufRef
  status : BitVec 8

/-- `disk`. -/
structure Disk where
  desc : Fin num → VRingDesc
  /-- `avail[1]`, the counter of the driver. -/
  availIdx : BitVec 16
  /-- The ring that starts at `avail[2]`. -/
  ring : Fin num → BitVec 16
  used : UsedArea
  free : Fin num → Bool
  usedIdx : BitVec 16
  info : Fin num → DiskInfo

/-- The header of a request. -/
structure BlkOuthdr where
  type : BitVec 32
  reserved : BitVec 32
  sector : BitVec 64

/-- `VIRTIO_BLK_T_IN`: read the disk. -/
def virtioBlkTIn : BitVec 32 := 0

/-- `VIRTIO_BLK_T_OUT`: write the disk. -/
def virtioBlkTOut : BitVec 32 := 1

/-- The slot of a ring for the value of a counter. -/
def slot (count : BitVec 16) : Fin num := ⟨count.toNat % num, Nat.mod_lt _ (by decide)⟩

/-- The structures as `diskInit` leaves them. -/
def diskInit : Disk where
  desc _ :=
    { addr := .null
      len := 0
      flags := 0
      next := 0 }
  availIdx := 0
  ring _ := 0
  used :=
    { id := 0
      elems := fun _ => 0 }
  free _ := true
  usedIdx := 0
  info _ :=
    { b := none
      status := 0 }

namespace Disk

/-- Take the first free descriptor. -/
def allocDesc (d : Disk) : Option (Fin num × Disk) :=
  ((List.finRange num).find? fun i => d.free i).map fun i =>
    (i, { d with free := Function.update d.free i false })

/-- Give a descriptor back. -/
def freeDesc (i : ℕ) (d : Disk) : Except Stop Disk :=
  if h : i < num then
    if d.free ⟨i, h⟩ then .error (.error "virtio_disk_intr 2")
    else
      .ok { d with
        desc := Function.update d.desc ⟨i, h⟩ { d.desc ⟨i, h⟩ with addr := .null }
        free := Function.update d.free ⟨i, h⟩ true }
  else .error (.error "virtio_disk_intr 1")

/-- The loop of `free_chain`, with so many rounds. -/
def freeChainLoop : ℕ → ℕ → Disk → Except Stop Disk
  | 0, _, _ => .error .diverge
  | fuel + 1, i, d => do
    let d ← freeDesc i d
    if h : i < num then
      if (d.desc ⟨i, h⟩).flags &&& vringDescFNext ≠ 0 then
        freeChainLoop fuel (d.desc ⟨i, h⟩).next.toNat d
      else return d
    else .error .outOfBounds

/-- Give a chain of descriptors back. -/
def freeChain (i : ℕ) (d : Disk) : Except Stop Disk := freeChainLoop (num + 1) i d

/-- Take three descriptors, or none. -/
def alloc3Desc (d : Disk) : Except Stop (Option (Fin 3 → Fin num) × Disk) :=
  match allocDesc d with
  | none => .ok (none, d)
  | some (i, d) =>
    match allocDesc d with
    | none => do
      let d ← freeDesc i d
      return (none, d)
    | some (j, d) =>
      match allocDesc d with
      | none => do
        let d ← freeDesc i d
        let d ← freeDesc j d
        return (none, d)
      | some (k, d) => .ok (some ![i, j, k], d)

/-- The descriptors of a block request: its header, the data and the status byte. -/
def requestDesc (idx : Fin 3 → Fin num) (b : BufRef) (write : Bool) : Fin 3 → VRingDesc :=
  ![{ addr := .buf0
      len := 16
      flags := vringDescFNext
      next := BitVec.ofNat 16 (idx 1) },
    { addr := .data b
      len := BitVec.ofNat 32 bsize
      flags := (if write then 0 else vringDescFWrite) ||| vringDescFNext
      next := BitVec.ofNat 16 (idx 2) },
    { addr := .status (idx 0)
      len := 1
      flags := vringDescFWrite
      next := 0 }]

/-- Describe a request and make it available to the device. -/
def publish (idx : Fin 3 → Fin num) (b : BufRef) (write : Bool) (d : Disk) : Disk :=
  let request := requestDesc idx b write
  let desc := Function.update d.desc (idx 0) (request 0)
  let desc := Function.update desc (idx 1) (request 1)
  let desc := Function.update desc (idx 2) (request 2)
  { d with
    desc
    info := Function.update d.info (idx 0)
      { b := some b
        status := 0 }
    ring := Function.update d.ring (slot d.availIdx) (BitVec.ofNat 16 (idx 0))
    availIdx := d.availIdx + 1 }

/-- `diskRW` up to the notification of the device. Nothing frees a descriptor while `diskRW` tries
to take three of them, so that it tries forever when there are too few. -/
def submit (b : BufRef) (write : Bool) (d : Disk) : Except Stop ((Fin 3 → Fin num) × Disk) := do
  match ← alloc3Desc d with
  | (some idx, d) => return (idx, publish idx b write d)
  | (none, _) => .error .diverge

/-- `diskRW` after the wait. -/
def release (idx : Fin 3 → Fin num) (d : Disk) : Except Stop Disk :=
  freeChain (idx 0)
    { d with info := Function.update d.info (idx 0) { d.info (idx 0) with b := none } }

/-- One round of the loop of `diskIntr`: the request that the device has finished and its buffer. -/
def diskIntrRound (d : Disk) : Except Stop (Option (Fin num × BufRef × Disk)) :=
  if slot d.usedIdx = slot d.used.id then .ok none
  else if h : d.usedIdx.toNat < num then
    if hid : (d.used.elems ⟨d.usedIdx.toNat, h⟩).toNat < num then
      let id : Fin num := ⟨(d.used.elems ⟨d.usedIdx.toNat, h⟩).toNat, hid⟩
      if (d.info id).status ≠ 0 then .error (.error "diskIntr status")
      else
        match (d.info id).b with
        | none => .error .outOfBounds
        | some b => .ok (some (id, b, { d with usedIdx := (d.usedIdx + 1) % BitVec.ofNat 16 num }))
    else .error .outOfBounds
  else .error .outOfBounds

/-! ## Descriptors -/

/-- The descriptors in use. -/
def inUse (d : Disk) : Finset (Fin num) := Finset.univ.filter fun i => d.free i = false

theorem freeDesc_ne_diverge (i : ℕ) (d : Disk) : freeDesc i d ≠ .error .diverge := by
  unfold freeDesc
  split
  · split <;> simp
  · simp

/-- Freeing a descriptor leaves fewer descriptors in use. -/
theorem inUse_freeDesc {i : ℕ} {d d' : Disk} (h : freeDesc i d = .ok d') :
    d'.inUse.card < d.inUse.card := by
  unfold freeDesc at h
  split at h
  · rename_i hi
    split at h
    · cases h
    · rename_i hused
      cases h
      apply Finset.card_lt_card
      refine ⟨fun j hj => ?_, fun hsub => ?_⟩
      · simp only [inUse, Finset.mem_filter, Finset.mem_univ, true_and] at hj ⊢
        by_cases hji : j = ⟨i, hi⟩
        · simp [hji] at hj
        · rwa [Function.update_of_ne hji] at hj
      · have hmem : (⟨i, hi⟩ : Fin num) ∈ d.inUse := by
          simpa [inUse] using hused
        simpa [inUse] using hsub hmem
  · cases h

/-- Each round gives back a descriptor in use. -/
theorem freeChainLoop_ne_diverge (fuel : ℕ) :
    ∀ (i : ℕ) (d : Disk), d.inUse.card < fuel → freeChainLoop fuel i d ≠ .error .diverge := by
  induction fuel with
  | zero => intro i d hlt; omega
  | succ fuel ih =>
    intro i d hlt
    rw [freeChainLoop]
    cases hfree : freeDesc i d with
    | error e =>
      intro h
      cases h
      exact freeDesc_ne_diverge i d hfree
    | ok d' =>
      -- each round frees one descriptor that was in use
      have hcard := inUse_freeDesc hfree
      show (if h : i < num then _ else _) ≠ _
      split
      · split
        · exact ih _ _ (by omega)
        · simp [pure, Except.pure]
      · simp

/-- `free_chain` terminates, whatever the descriptors hold. -/
theorem freeChain_ne_diverge (i : ℕ) (d : Disk) : freeChain i d ≠ .error .diverge := by
  apply freeChainLoop_ne_diverge
  have hle := Finset.card_le_univ d.inUse
  rw [Fintype.card_fin] at hle
  omega

/-- The descriptors of a request are distinct and hold the request. -/
structure Chained (idx : Fin 3 → Fin num) (b : BufRef) (write : Bool) (d : Disk) : Prop where
  distinct : Function.Injective idx
  desc : ∀ k, d.desc (idx k) = requestDesc idx b write k

/-- The first three descriptors. -/
def firstThree (k : Fin 3) : Fin num := k.castLE (by decide)

/-- The first descriptor. -/
abbrev firstDesc : Fin num := firstThree 0

/-- The first three descriptors are distinct. -/
theorem firstThree_injective : Function.Injective firstThree := Fin.castLE_injective (by decide)

/-- A published request is a chain of its three descriptors. -/
theorem chained_publish {idx : Fin 3 → Fin num} (hdistinct : Function.Injective idx) (b : BufRef)
    (write : Bool) (d : Disk) : (publish idx b write d).Chained idx b write := by
  have hne : ∀ {j k : Fin 3}, j ≠ k → idx j ≠ idx k := fun h heq => h (hdistinct heq)
  refine ⟨hdistinct, fun k => ?_⟩
  show Function.update (Function.update (Function.update _ _ _) _ _) _ _ (idx k) = _
  match k with
  | 0 =>
    rw [Function.update_of_ne (hne (by decide)), Function.update_of_ne (hne (by decide)),
      Function.update_self]
  | 1 => rw [Function.update_of_ne (hne (by decide)), Function.update_self]
  | 2 => rw [Function.update_self]

/-- The first free descriptor is taken. -/
theorem allocDesc_eq {d : Disk} {i : Fin num}
    (h : (List.finRange num).find? (fun i => d.free i) = some i) :
    allocDesc d = some (i, { d with free := Function.update d.free i false }) := by
  rw [allocDesc, h]
  rfl

/-- Three descriptors are taken when all are free. -/
theorem alloc3Desc_of_free {d : Disk} (hfree : ∀ i, d.free i = true) :
    alloc3Desc d = .ok (some firstThree, { d with free := fun i => decide (3 ≤ i.val) }) := by
  have hall : d.free = fun _ => true := funext hfree
  unfold alloc3Desc
  rw [allocDesc_eq (i := firstThree 0) (by simp only [hall]; decide)]
  dsimp only
  rw [allocDesc_eq (i := firstThree 1) (by simp only [hall]; decide)]
  dsimp only
  rw [allocDesc_eq (i := firstThree 2) (by simp only [hall]; decide)]
  dsimp only
  rw [hall]
  congr 3
  · decide
  · decide

/-- A request takes three descriptors when all are free. -/
theorem submit_of_free {d : Disk} (hfree : ∀ i, d.free i = true) (b : BufRef) (write : Bool) :
    submit b write d = .ok (firstThree,
      publish firstThree b write { d with free := fun i => decide (3 ≤ i.val) }) := by
  rw [submit, alloc3Desc_of_free hfree]
  rfl

/-- The state after `freeDesc`. -/
def freed (i : Fin num) (d : Disk) : Disk :=
  { d with
    desc := Function.update d.desc i { d.desc i with addr := .null }
    free := Function.update d.free i true }

/-- A descriptor in use is freed. -/
theorem freeDesc_of_inUse {d : Disk} {i : Fin num} (h : d.free i = false) :
    freeDesc i d = .ok (freed i d) := by
  rw [freeDesc, dif_pos i.isLt, if_neg (by simp [h])]
  rfl

/-- A round of the loop frees a descriptor and goes on when it has a next one. -/
theorem freeChainLoop_of_inUse {d : Disk} {i : Fin num} (h : d.free i = false) (fuel : ℕ) :
    freeChainLoop (fuel + 1) i d =
      if (d.desc i).flags &&& vringDescFNext ≠ 0 then
        freeChainLoop fuel (d.desc i).next.toNat (freed i d)
      else .ok (freed i d) := by
  rw [freeChainLoop, freeDesc_of_inUse h, Except.ok_bind, dif_pos i.isLt]
  simp only [Fin.eta, freed, Function.update_self]
  rfl

theorem freed_desc_of_ne {i j : Fin num} (hne : j ≠ i) (d : Disk) :
    (freed i d).desc j = d.desc j := Function.update_of_ne hne ..

theorem freed_free_of_ne {i j : Fin num} (hne : j ≠ i) (d : Disk) :
    (freed i d).free j = d.free j := Function.update_of_ne hne ..

/-- One more descriptor is free. -/
theorem freed_free_iff {i j : Fin num} {d : Disk} :
    (freed i d).free j = true ↔ d.free j = true ∨ j = i := by
  by_cases h : j = i
  · simp [freed, h]
  · simp [freed_free_of_ne h, h]

/-- The index of a descriptor fits in 16 bits. -/
theorem toNat_ofNat_index (i : Fin num) : (BitVec.ofNat 16 i).toNat = i := by
  have hlt : (i : ℕ) < 8 := i.isLt
  rw [BitVec.toNat_ofNat]
  omega

/-- Descriptors are told apart by their indices. -/
theorem ofNat_index_inj {i j : Fin num} (h : BitVec.ofNat 16 i = BitVec.ofNat 16 j) : i = j := by
  apply Fin.ext
  rw [← toNat_ofNat_index i, h, toNat_ofNat_index]

/-- A chain is one request only. -/
theorem Chained.unique {d : Disk} {idx idx' : Fin 3 → Fin num} {b b' : BufRef} {write write' : Bool}
    (h : d.Chained idx b write) (h' : d.Chained idx' b' write') (hhead : idx 0 = idx' 0) :
    idx = idx' ∧ b = b' ∧ write = write' := by
  have hfirst : requestDesc idx b write 0 = requestDesc idx' b' write' 0 := by
    rw [← h.desc, ← h'.desc, hhead]
  have hmiddle : idx 1 = idx' 1 := ofNat_index_inj (congrArg VRingDesc.next hfirst :)
  have hsecond : requestDesc idx b write 1 = requestDesc idx' b' write' 1 := by
    rw [← h.desc, ← h'.desc, hmiddle]
  have hlast : idx 2 = idx' 2 := ofNat_index_inj (congrArg VRingDesc.next hsecond :)
  have hdata : DescAddr.data b = .data b' := (congrArg VRingDesc.addr hsecond :)
  have hflags : (if write then 0 else vringDescFWrite) ||| vringDescFNext =
      (if write' then 0 else vringDescFWrite) ||| vringDescFNext :=
    (congrArg VRingDesc.flags hsecond :)
  refine ⟨funext fun k => ?_, DescAddr.data.inj hdata, ?_⟩
  · match k with
    | 0 => exact hhead
    | 1 => exact hmiddle
    | 2 => exact hlast
  · cases write <;> cases write' <;> first | rfl | exact absurd hflags (by decide)

/-- A chain in use is given back as a whole. -/
theorem freeChain_of_chained {d : Disk} {idx : Fin 3 → Fin num} {b : BufRef} {write : Bool}
    (hchain : d.Chained idx b write) (huse : ∀ k, d.free (idx k) = false) :
    freeChain (idx 0) d = .ok (freed (idx 2) (freed (idx 1) (freed (idx 0) d))) := by
  have hne : ∀ {j k : Fin 3}, j ≠ k → idx j ≠ idx k := fun h heq => h (hchain.distinct heq)
  have hnext : (requestDesc idx b write 1).flags &&& vringDescFNext ≠ 0 := by
    cases write <;> simp [requestDesc, vringDescFWrite, vringDescFNext]
  rw [freeChain, freeChainLoop_of_inUse (huse 0), hchain.desc 0,
    if_pos (by simp [requestDesc, vringDescFNext])]
  -- The first descriptor leads to the second one,
  show freeChainLoop (7 + 1) (BitVec.ofNat 16 (idx 1)).toNat (freed (idx 0) d) = _
  have huse1 : (freed (idx 0) d).free (idx 1) = false := by
    rw [freed_free_of_ne (hne (by decide)), huse]
  rw [toNat_ofNat_index, freeChainLoop_of_inUse huse1,
    freed_desc_of_ne (hne (by decide)), hchain.desc 1, if_pos hnext]
  -- and the second one to the third, which is the last.
  show freeChainLoop (6 + 1) (BitVec.ofNat 16 (idx 2)).toNat (freed (idx 1) (freed (idx 0) d)) = _
  have huse2 : (freed (idx 1) (freed (idx 0) d)).free (idx 2) = false := by
    rw [freed_free_of_ne (hne (by decide)), freed_free_of_ne (hne (by decide)), huse]
  rw [toNat_ofNat_index, freeChainLoop_of_inUse huse2,
    freed_desc_of_ne (hne (by decide)), freed_desc_of_ne (hne (by decide)), hchain.desc 2,
    if_neg (by simp [requestDesc, vringDescFWrite, vringDescFNext])]

end Disk

end R5O5
