import MiniRiscV.Lib.ByteStore
import MiniRiscV.Rtl.Riscv

/-! The module `mem` by itself: over any run of accesses inside the array, a store of bytes. -/

namespace MiniRiscV

open ByteStore

/-- The inputs of `mem` at one clock edge, but for the reset. -/
structure MemRequest where
  memRW : Bool
  dataSecI : BitVec 2
  dataWI : Word
  addrI : Word

/-- The number of bytes of an access, where the code `11` masks nothing. -/
def accessSize (dataSecI : BitVec 2) : ℕ :=
  if dataSecI = 0b00#2 then 1 else if dataSecI = 0b01#2 then 2 else 4

namespace MemRequest

/-- The access to a byte store that a request stands for. -/
def access (request : MemRequest) : Request 32 :=
  if request.memRW then
    .store request.addrI.toNat (accessSize request.dataSecI) request.dataWI
  else .load request.addrI.toNat (accessSize request.dataSecI)

/-- The request is of one, two or four bytes, all of them inside the array. -/
def Inside (n : ℕ) (request : MemRequest) : Prop :=
  request.dataSecI ≠ 0b11#2 ∧ request.addrI.toNat + accessSize request.dataSecI - 1 ≤ n

end MemRequest

/-- The registers of the module `mem`. -/
structure DataMem (n : ℕ) where
  mem : Mem n
  dataO : Word
  aluO : Word

namespace DataMem

variable {n : ℕ} (outer : Word → BitVec 8)

/-- One clock edge of `mem`. -/
def step (rst : Bool) (s : DataMem n) (request : MemRequest) : DataMem n where
  mem :=
    if rst then Mem.reset
    else if request.memRW then
      s.mem.clockedWrite request.dataSecI request.dataWI request.addrI
    else s.mem
  dataO :=
    if rst then 0xffffffff
    else s.mem.dataR outer request.memRW request.dataSecI request.addrI
  aluO := if rst then 0 else request.addrI

/-- The module as a reset edge leaves it. -/
def reset : DataMem n where
  mem := Mem.reset
  dataO := 0xffffffff
  aluO := 0

/-- What a reset leaves depends on nothing. -/
theorem step_reset (s : DataMem n) (request : MemRequest) : s.step outer true request = reset := rfl

/-- The module after a reset and some more edges with these requests. -/
def run (requests : List MemRequest) : DataMem n := requests.foldl (step outer false) reset

end DataMem

namespace Core

open ControlLogic

/-- The module `mem` of the processor. -/
def dataMem (s : Core) : DataMem 63 where
  mem := s.mem
  dataO := s.dataO
  aluO := s.aluO

/-- What the processor asks of its data memory. -/
def memRequest (rst : Bool) (s : Core) : MemRequest where
  memRW := memRwO rst s.instReg1
  dataSecI := memSizeO rst s.instReg1
  dataWI := s.dataWO
  addrI := s.aluResultO

/-- The data memory of the processor is such a module. -/
theorem step_dataMem (outer : Word → BitVec 8) (rst : Bool) (s : Core) (instL : Word) :
    (s.step outer rst instL).dataMem = s.dataMem.step outer rst (s.memRequest rst) := rfl

end Core

namespace Mem

variable {n : ℕ}

/-- The byte at an address, and zero behind the end of the array. -/
def byte (mem : Mem n) (i : ℕ) : BitVec 8 := if inside : i < n + 1 then mem ⟨i, inside⟩ else 0

/-- A read inside the array finds the byte at the address. -/
theorem read_eq_byte (outer : Word → BitVec 8) (mem : Mem n) {index : Word}
    (inside : index.toNat ≤ n) : mem.read outer index = mem.byte index.toNat := by
  -- Inside the array, neither of the two has to do with what is outside.
  rw [read, byte, dif_pos (Nat.lt_succ_of_le inside), dif_pos (Nat.lt_succ_of_le inside)]

/-- An assignment changes the byte at its address, if there is one. -/
theorem byte_write (mem : Mem n) (index : Word) (value : BitVec 8) {i : ℕ} (inside : i ≤ n) :
    (mem.write index value).byte i = if i = index.toNat then value else mem.byte i := by
  -- Both sides look the byte up at the same place.
  have inside := Nat.lt_succ_of_le inside
  simp only [byte, write, dif_pos inside]

/-- An address that does not wrap around is followed by the next number. -/
theorem toNat_addr_add {addrI : Word} (offset : ℕ) (below : addrI.toNat + offset < 2 ^ 32) :
    (addrI + BitVec.ofNat 32 offset).toNat = addrI.toNat + offset := by
  -- The sum is below the modulus.
  rw [BitVec.toNat_add, BitVec.toNat_ofNat, Nat.add_mod_mod, Nat.mod_eq_of_lt below]

/-- The guard of an address that does not wrap around compares numbers. -/
theorem guard_iff (parameter : n < 2 ^ 32) {addrI : Word} (offset : ℕ)
    (below : addrI.toNat + offset < 2 ^ 32) :
    addrI + BitVec.ofNat 32 offset ≤ BitVec.ofNat 32 n ↔ addrI.toNat + offset ≤ n := by
  -- Neither the sum nor the parameter is reduced.
  rw [BitVec.le_def, toNat_addr_add offset below, BitVec.toNat_ofNat, Nat.mod_eq_of_lt parameter]

/-- The number of bytes that a read takes from the array before it masks them. -/
def readCount (n : ℕ) (addrI : Word) : ℕ :=
  if addrI + 1 > BitVec.ofNat 32 n then 1
  -- The branch for three bytes is never taken.
  else if addrI + 2 > BitVec.ofNat 32 n then 2 else 4

/-- One byte and zeros. -/
private theorem one_byte (bytes : ℕ → BitVec 8) :
    ((0xffffffff : Word).setSlice 8 (0 : BitVec 24)).setSlice 0 (bytes 0) =
      littleEndian 32 bytes 1 := by
  -- The slice of zeros has all bits but those of the byte.
  refine BitVec.eq_of_getLsbD_eq fun i inside => ?_
  rw [getLsbD_littleEndian inside]
  iterate 2 rw [BitVec.getLsbD_setSlice _ _ _ inside]
  by_cases low : i < 8
  · simp [low, show i / 8 = 0 by omega, show i % 8 = i by omega]
  · simp [low, inside, show 8 ≤ i by omega]

/-- Two bytes and zeros. -/
private theorem two_bytes (bytes : ℕ → BitVec 8) :
    (((0xffffffff : Word).setSlice 16 (0 : BitVec 16)).setSlice 0 (bytes 0)).setSlice 8
      (bytes 1) = littleEndian 32 bytes 2 := by
  -- One case for each byte, and one for the zeros.
  refine BitVec.eq_of_getLsbD_eq fun i inside => ?_
  rw [getLsbD_littleEndian inside]
  iterate 3 rw [BitVec.getLsbD_setSlice _ _ _ inside]
  rcases (by omega : i < 8 ∨ (8 ≤ i ∧ i < 16) ∨ 16 ≤ i) with low | ⟨above, below⟩ | high
  · simp [low, show i / 8 = 0 by omega, show i % 8 = i by omega, show i < 16 by omega]
  · simp [above, below, show i / 8 = 1 by omega, show i % 8 = i - 8 by omega]
  · simp [high, inside, show ¬ i < 16 by omega, show ¬ i < 8 by omega]

/-- Four bytes. -/
private theorem four_bytes (bytes : ℕ → BitVec 8) :
    ((((0xffffffff : Word).setSlice 24 (bytes 3)).setSlice 16 (bytes 2)).setSlice 8
      (bytes 1)).setSlice 0 (bytes 0) = littleEndian 32 bytes 4 := by
  -- One case for each byte, assigned from the top one down.
  refine BitVec.eq_of_getLsbD_eq fun i inside => ?_
  rw [getLsbD_littleEndian inside]
  iterate 4 rw [BitVec.getLsbD_setSlice _ _ _ inside]
  rcases (by omega : i < 8 ∨ (8 ≤ i ∧ i < 16) ∨ (16 ≤ i ∧ i < 24) ∨ 24 ≤ i) with
    low | ⟨above, below⟩ | ⟨above, below⟩ | high
  · simp [low, inside, show i / 8 = 0 by omega, show i % 8 = i by omega]
  · simp [above, below, inside, show i / 8 = 1 by omega, show i % 8 = i - 8 by omega,
      show ¬ i < 8 by omega]
  · simp [above, below, inside, show i / 8 = 2 by omega, show i % 8 = i - 16 by omega,
      show ¬ i < 8 by omega, show ¬ i < 16 by omega]
  · simp [high, inside, show i / 8 = 3 by omega, show i % 8 = i - 24 by omega,
      show ¬ i < 8 by omega, show ¬ i < 16 by omega, show ¬ i < 24 by omega]

/-- A mask of zeros leaves the lower bytes. -/
private theorem mask_bytes (bytes : ℕ → BitVec 8) (size kept : ℕ) :
    (littleEndian 32 bytes size).setSlice (8 * kept) (0 : BitVec (32 - 8 * kept)) =
      littleEndian 32 bytes (min kept size) := by
  -- Below the mask nothing changes, and inside it there are zeros.
  refine BitVec.eq_of_getLsbD_eq fun i inside => ?_
  rw [BitVec.getLsbD_setSlice _ _ _ inside, getLsbD_littleEndian inside,
    getLsbD_littleEndian inside]
  by_cases low : i < 8 * kept
  · simp [show ¬ 8 * kept ≤ i by omega, show i < 8 * min kept size ↔ i < 8 * size by omega]
  · simp [show 8 * kept ≤ i by omega, show i < 8 * kept + (32 - 8 * kept) by omega,
      show ¬ i < 8 * min kept size by omega]

/-- A read takes as many bytes as its size and the guards allow, and fills up with zeros. -/
theorem dataR_eq (outer : Word → BitVec 8) (mem : Mem n) (dataSecI : BitVec 2) (addrI : Word) :
    mem.dataR outer false dataSecI addrI =
      littleEndian 32 (fun j => mem.read outer (addrI + BitVec.ofNat 32 j))
        (min (accessSize dataSecI) (readCount n addrI)) := by
  generalize read : (fun j => mem.read outer (addrI + BitVec.ofNat 32 j)) = bytes
  have first : mem.read outer addrI = bytes 0 := by simp [← read]
  have others (j : ℕ) : mem.read outer (addrI + BitVec.ofNat 32 j) = bytes j := by simp [← read]
  have second : mem.read outer (addrI + 1) = bytes 1 := others 1
  have third : mem.read outer (addrI + 2) = bytes 2 := others 2
  have fourth : mem.read outer (addrI + 3) = bytes 3 := others 3
  -- The bytes before the mask are as many as the guards allow.
  have unmasked : (if addrI + 1 > BitVec.ofNat 32 n then
        ((0xffffffff : Word).setSlice 8 (0 : BitVec 24)).setSlice 0 (mem.read outer addrI)
      else if addrI + 2 > BitVec.ofNat 32 n then
        (((0xffffffff : Word).setSlice 16 (0 : BitVec 16)).setSlice 0
          (mem.read outer addrI)).setSlice 8 (mem.read outer (addrI + 1))
      else if addrI + 1 > BitVec.ofNat 32 n then
        ((((0xffffffff : Word).setSlice 24 (0 : BitVec 8)).setSlice 0
          (mem.read outer addrI)).setSlice 8 (mem.read outer (addrI + 1))).setSlice 15
            ((mem.read outer (addrI + 2)).setWidth 9)
      else
        ((((0xffffffff : Word).setSlice 24 (mem.read outer (addrI + 3))).setSlice 16
          (mem.read outer (addrI + 2))).setSlice 8 (mem.read outer (addrI + 1))).setSlice 0
            (mem.read outer addrI)) = littleEndian 32 bytes (readCount n addrI) := by
    rw [first, second, third, fourth, readCount]
    by_cases one : addrI + 1 > BitVec.ofNat 32 n
    · rw [if_pos one, if_pos one, one_byte]
    · by_cases two : addrI + 2 > BitVec.ofNat 32 n
      · simp only [if_neg one, if_pos two, two_bytes]
      · simp only [if_neg one, if_neg two, four_bytes]
  have most : readCount n addrI ≤ 4 := by
    rw [readCount]
    split
    · decide
    · split <;> decide
  simp only [dataR, Bool.false_eq_true, if_false]
  rw [unmasked, accessSize]
  -- The mask leaves as many of them as the size of the access.
  by_cases byteWide : dataSecI = 0b00#2
  · rw [if_pos byteWide, if_pos byteWide]
    exact mask_bytes bytes _ 1
  · rw [if_neg byteWide, if_neg byteWide]
    by_cases halfWide : dataSecI = 0b01#2
    · rw [if_pos halfWide, if_pos halfWide]
      exact mask_bytes bytes _ 2
    · rw [if_neg halfWide, if_neg halfWide, Nat.min_eq_right most]

/-- The three sizes of an access. -/
theorem dataSec_cases (dataSecI : BitVec 2) (sized : dataSecI ≠ 0b11#2) :
    dataSecI = 0b00#2 ∨ dataSecI = 0b01#2 ∨ dataSecI = 0b10#2 := by
  revert dataSecI
  decide

/-- A byte is written when the offset on the other side of the access is inside the array. -/
theorem byte_clockedWrite (parameter : n < 2 ^ 32) (mem : Mem n) {dataSecI : BitVec 2}
    (sized : dataSecI ≠ 0b11#2) (dataWI : Word) {addrI : Word} (starts : addrI.toNat ≤ n)
    (below : addrI.toNat + accessSize dataSecI ≤ 2 ^ 32) {i : ℕ} (inside : i ≤ n) :
    (mem.clockedWrite dataSecI dataWI addrI).byte i =
      if addrI.toNat ≤ i ∧ i < addrI.toNat + accessSize dataSecI ∧
          addrI.toNat + (accessSize dataSecI - 1 - (i - addrI.toNat)) ≤ n then
        dataWI.extractLsb' (8 * (i - addrI.toNat)) 8
      else mem.byte i := by
  -- One case for each size; the other code is excluded.
  rcases dataSec_cases dataSecI sized with rfl | rfl | rfl
  · have size : accessSize 0b00#2 = 1 := rfl
    rw [size] at below ⊢
    change (mem.write addrI (dataWI.extractLsb' 0 8)).byte i = _
    rw [byte_write _ _ _ inside]
    by_cases here : i = addrI.toNat
    · simp [here, starts]
    · rw [if_neg here, if_neg (by omega)]
  · have size : accessSize 0b01#2 = 2 := rfl
    rw [size] at below ⊢
    have next : (addrI + 1).toNat = addrI.toNat + 1 := toNat_addr_add 1 (by omega)
    have guard : addrI + 1 ≤ BitVec.ofNat 32 n ↔ addrI.toNat + 1 ≤ n :=
      guard_iff parameter 1 (by omega)
    change (if addrI + 1 ≤ BitVec.ofNat 32 n then _ else _ : Mem n).byte i = _
    simp only [apply_ite (fun m : Mem n => m.byte i), byte_write _ _ _ inside, next, guard]
    rcases (by omega : i < addrI.toNat ∨ i = addrI.toNat ∨ i = addrI.toNat + 1 ∨
      addrI.toNat + 2 ≤ i) with low | rfl | rfl | high
    · simp [show ¬ addrI.toNat ≤ i by omega, show i ≠ addrI.toNat by omega,
        show i ≠ addrI.toNat + 1 by omega]
    · simp
    · simp [starts]
    · simp [show ¬ i < addrI.toNat + 2 by omega, show i ≠ addrI.toNat by omega,
        show i ≠ addrI.toNat + 1 by omega]
  · have size : accessSize 0b10#2 = 4 := rfl
    rw [size] at below ⊢
    have next : (addrI + 1).toNat = addrI.toNat + 1 := toNat_addr_add 1 (by omega)
    have third : (addrI + 2).toNat = addrI.toNat + 2 := toNat_addr_add 2 (by omega)
    have last : (addrI + 3).toNat = addrI.toNat + 3 := toNat_addr_add 3 (by omega)
    have guard1 : addrI + 1 ≤ BitVec.ofNat 32 n ↔ addrI.toNat + 1 ≤ n :=
      guard_iff parameter 1 (by omega)
    have guard2 : addrI + 2 ≤ BitVec.ofNat 32 n ↔ addrI.toNat + 2 ≤ n :=
      guard_iff parameter 2 (by omega)
    have guard3 : addrI + 3 ≤ BitVec.ofNat 32 n ↔ addrI.toNat + 3 ≤ n :=
      guard_iff parameter 3 (by omega)
    change (if addrI + 3 ≤ BitVec.ofNat 32 n then _ else _ : Mem n).byte i = _
    simp only [apply_ite (fun m : Mem n => m.byte i), byte_write _ _ _ inside, next, third, last,
      guard1, guard2, guard3]
    rcases (by omega : i < addrI.toNat ∨ i = addrI.toNat ∨ i = addrI.toNat + 1 ∨
      i = addrI.toNat + 2 ∨ i = addrI.toNat + 3 ∨ addrI.toNat + 4 ≤ i) with
      low | rfl | rfl | rfl | rfl | high
    · simp [show ¬ addrI.toNat ≤ i by omega, show i ≠ addrI.toNat by omega,
        show i ≠ addrI.toNat + 1 by omega, show i ≠ addrI.toNat + 2 by omega,
        show i ≠ addrI.toNat + 3 by omega]
    · simp
    · simp
    · simp
    · simp [starts]
    · simp [show ¬ i < addrI.toNat + 4 by omega, show i ≠ addrI.toNat by omega,
        show i ≠ addrI.toNat + 1 by omega, show i ≠ addrI.toNat + 2 by omega,
        show i ≠ addrI.toNat + 3 by omega]

/-- An access has one, two or four bytes. -/
theorem accessSize_cases (dataSecI : BitVec 2) :
    accessSize dataSecI = 1 ∨ accessSize dataSecI = 2 ∨ accessSize dataSecI = 4 := by
  revert dataSecI
  decide

/-- A read inside the array takes all its bytes from there. -/
theorem accessSize_le_readCount (parameter : n < 2 ^ 32) {dataSecI : BitVec 2} {addrI : Word}
    (inside : addrI.toNat + accessSize dataSecI - 1 ≤ n) :
    accessSize dataSecI ≤ readCount n addrI := by
  -- A guard that stops the read would find the access outside.
  rw [readCount]
  rcases accessSize_cases dataSecI with size | size | size
  · rw [size]
    split
    · decide
    · split <;> decide
  · -- Of a half-word, the second byte passes the first guard.
    rw [size] at inside ⊢
    have guard : addrI + 1 ≤ BitVec.ofNat 32 n := (guard_iff parameter 1 (by omega)).mpr (by omega)
    rw [if_neg (BitVec.not_lt.mpr guard)]
    split <;> decide
  · -- Of a word, the third one passes the second guard as well.
    rw [size] at inside ⊢
    have guard1 : addrI + 1 ≤ BitVec.ofNat 32 n := (guard_iff parameter 1 (by omega)).mpr (by omega)
    have guard2 : addrI + 2 ≤ BitVec.ofNat 32 n := (guard_iff parameter 2 (by omega)).mpr (by omega)
    rw [if_neg (BitVec.not_lt.mpr guard1), if_neg (BitVec.not_lt.mpr guard2)]

/-- A read inside the array gives its bytes in little-endian order. -/
theorem dataR_inside (parameter : n < 2 ^ 32) (outer : Word → BitVec 8) (mem : Mem n)
    {dataSecI : BitVec 2} {addrI : Word} (inside : addrI.toNat + accessSize dataSecI - 1 ≤ n) :
    mem.dataR outer false dataSecI addrI =
      littleEndian 32 (fun j => mem.byte (addrI.toNat + j)) (accessSize dataSecI) := by
  rw [dataR_eq, Nat.min_eq_left (accessSize_le_readCount parameter inside)]
  refine littleEndian_congr fun j less => ?_
  -- The address of each byte is the next number, and inside the array.
  have index := @toNat_addr_add addrI j (by omega)
  rw [read_eq_byte outer mem (by omega), index]

end Mem

namespace DataMem

variable {n : ℕ} {outer : Word → BitVec 8}

/-- The last request of a run is one more edge. -/
theorem run_append (requests : List MemRequest) (request : MemRequest) :
    (run outer (requests ++ [request]) : DataMem n) =
      (run outer requests : DataMem n).step outer false request :=
  List.foldl_append

/-- An edge with a request inside the array does to each byte what the access does. -/
theorem byte_step (parameter : n < 2 ^ 32) (s : DataMem n) {request : MemRequest}
    (accepted : request.Inside n) {i : ℕ} (inside : i ≤ n) :
    (s.step outer false request).mem.byte i =
      (request.access.byteAt i).getD (s.mem.byte i) := by
  obtain ⟨sized, within⟩ := accepted
  have some := Mem.accessSize_cases request.dataSecI
  simp only [step, Bool.false_eq_true, if_false, MemRequest.access]
  by_cases write : request.memRW
  · rw [if_pos write, if_pos write, Request.byteAt,
      Mem.byte_clockedWrite parameter s.mem sized request.dataWI (by omega) (by omega) inside]
    -- All the guards hold, as the whole access is inside.
    by_cases covered : request.addrI.toNat ≤ i ∧
        i < request.addrI.toNat + accessSize request.dataSecI
    · rw [if_pos covered, if_pos ⟨covered.1, covered.2, by omega⟩, Option.getD_some]
    · rw [if_neg covered, if_neg fun all => covered ⟨all.1, all.2.1⟩, Option.getD_none]
  · rw [if_neg write, if_neg write]
    rfl

/-- After requests inside the array, each byte is the one last stored, or as the reset left it. -/
theorem byte_run (parameter : n < 2 ^ 32) (requests : List MemRequest)
    (accepted : ∀ request ∈ requests, request.Inside n) {i : ℕ} (inside : i ≤ n) :
    (run outer requests : DataMem n).mem.byte i =
      lastByte (fun _ => 0xff) (requests.map MemRequest.access) i := by
  have started (i : ℕ) (inside : i ≤ n) : (reset : DataMem n).mem.byte i = 0xff :=
    dif_pos (Nat.lt_succ_of_le inside)
  exact @bytes_foldl 32 (DataMem n) MemRequest (step outer false) (fun s => s.mem.byte)
    MemRequest.access (· ≤ n) (MemRequest.Inside n) (fun _ => 0xff) reset started
    (fun s _ _ accepted inside => byte_step parameter s accepted inside) requests accepted i inside

/-- Over a run of requests, the module answers as a store of bytes does. -/
structure IsByteStore (n : ℕ) (outer : Word → BitVec 8) (requests : List MemRequest) : Prop where
  /-- A load gives the bytes last stored at its addresses, in little-endian order. -/
  loaded : ∀ before load after, requests = before ++ load :: after → load.memRW = false →
    (run outer (before ++ [load]) : DataMem n).dataO =
      littleEndian 32
        (fun j => lastByte (fun _ => 0xff) (before.map MemRequest.access) (load.addrI.toNat + j))
        (accessSize load.dataSecI)
  /-- A store leaves the bytes before and behind its own. -/
  kept : ∀ before store after, requests = before ++ store :: after → store.memRW → ∀ i ≤ n,
    i < store.addrI.toNat ∨ store.addrI.toNat + accessSize store.dataSecI ≤ i →
    (run outer (before ++ [store]) : DataMem n).mem.byte i =
      (run outer before : DataMem n).mem.byte i

/-- The data memory is a store of bytes over every run of requests inside the array. -/
theorem isByteStore (parameter : n < 2 ^ 32) (outer : Word → BitVec 8)
    (requests : List MemRequest) (accepted : ∀ request ∈ requests, request.Inside n) :
    IsByteStore n outer requests where
  loaded := by
    intro before load after split read
    have inside := accepted load (by simp [split])
    have some := Mem.accessSize_cases load.dataSecI
    have stored : ∀ request ∈ before, request.Inside n :=
      fun request member => accepted request (by simp [split, member])
    -- The word is read from the array as the requests before have left it.
    have latched : (run outer (before ++ [load]) : DataMem n).dataO =
        (run outer before : DataMem n).mem.dataR outer false load.dataSecI load.addrI := by
      simp [run_append, step, read]
    rw [latched, Mem.dataR_inside parameter outer _ inside.2]
    refine littleEndian_congr fun j less => ?_
    exact byte_run parameter before stored (by have within := inside.2; omega)
  kept := by
    intro before store after split write i within outside
    have inside := accepted store (by simp [split])
    rw [run_append, byte_step parameter _ inside within, MemRequest.access, if_pos write,
      Request.byteAt, if_neg (by omega), Option.getD_none]

/-- A word at six, a half-word over its first bytes and a load across both, up to the last byte. -/
theorem isByteStore_overlap :
    IsByteStore 9 (fun _ => 0)
      [⟨true, 0b10#2, 0x44332211#32, 6#32⟩, ⟨true, 0b01#2, 0xBBAA#32, 5#32⟩,
        ⟨false, 0b10#2, 0#32, 6#32⟩] :=
  isByteStore (by decide) _ _ (by
    simp [MemRequest.Inside, accessSize])

end DataMem
end MiniRiscV
