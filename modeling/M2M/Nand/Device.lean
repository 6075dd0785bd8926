import M2M.Lib.ByteFile
import M2M.Lib.Bytes

namespace M2M.Nand

open M2M.Lib

/-- The memory of the guest. -/
abbrev Memory := UInt32 → UInt8

inductive NandCmd
  | getDevName
  | read
  | write
  | erase
  | blockBadGet
  | blockBadSet
  deriving DecidableEq

def nandDevFlagReadOnly : UInt32 := 1

/-- A device. `data` is the buffer for its file, or its contents if it has no file.
`nand_add_dev` divides by the erase size. -/
structure NandDev where
  devname : List UInt8
  data : List UInt8
  fd : Option ByteFile
  flags : UInt32
  eraseSize : UInt32
  maxSize : UInt64
  eraseSize_pos : 0 < eraseSize.toNat

theorem toNat_four_pos : 0 < (4 : UInt32).toNat := by decide

/-- The registers of the controller that a command reads. -/
structure ControllerState where
  dev : UInt32
  addrLow : UInt32
  addrHigh : UInt32
  transferSize : UInt32
  data : UInt32

section Sizes

/-- A size as an `int`. -/
def asInt (size : Nat) : Int := (size : Int).bmod (2 ^ 32)

/-- An `int` as a size. -/
def asSize (n : Int) : Nat := (n % 2 ^ 64).toNat

end Sizes

/-- `do_lseek` from the start of a file. A negative offset is refused. -/
def doLseek (file : ByteFile) (offset : Nat) : ByteFile :=
  if offset < 2 ^ 63 then file.seek offset else file

/-- The guest's memory after `bytes` are copied to `addr`. -/
def copy (memory : Memory) (addr : UInt32) (bytes : List UInt8) : Memory :=
  fun a => bytes.getD (a - addr).toNat (memory a)

/-- `cpu_memory_rw_debug`, writing. Its length is an `int`, and nothing is copied if that is
negative. -/
def toGuest (memory : Memory) (addr : UInt32) (buf : List UInt8) (len : Nat) : Memory :=
  copy memory addr (buf.take (asInt len).toNat)

def fetch (memory : Memory) (addr : UInt32) (len : Nat) : List UInt8 :=
  (List.range len).map fun i => memory (addr + .ofNat i)

/-- `cpu_memory_rw_debug`, reading. -/
def fromGuest (memory : Memory) (addr : UInt32) (buf : List UInt8) (len : Nat) : List UInt8 :=
  Bytes.overwrite buf (fetch memory addr (asInt len).toNat)

section Reading

/-- The variables of `nand_dev_read_file`, with the buffer, the file and the guest's memory. -/
structure ReadState where
  memory : Memory
  file : ByteFile
  buf : List UInt8
  data : UInt32
  len : UInt32
  readLen : Nat
  eof : Bool

/-- After a short read, the buffer is filled with what stands behind the end of the file. -/
def ReadState.prepare (eraseSize : Nat) (s : ReadState) : ReadState :=
  if s.readLen < eraseSize then
    { s with buf := List.replicate eraseSize 0xff, readLen := eraseSize, eof := true }
  else s

/-- Reads from the file until its end, and clips the length to what is left. -/
def ReadState.fill (s : ReadState) : ReadState :=
  let readLen := if s.len.toNat < s.readLen then s.len.toNat else s.readLen
  if s.eof then { s with readLen }
  else
    let (bytes, file) := s.file.read readLen
    { s with file, buf := Bytes.overwrite s.buf bytes, readLen := asSize (asInt bytes.length) }

def ReadState.deliver (s : ReadState) : ReadState :=
  { s with
    memory := toGuest s.memory s.data s.buf s.readLen
    data := s.data + .ofNat s.readLen
    len := s.len - .ofNat s.readLen }

/-- The loop, with a bound on its rounds. -/
def readLoop (eraseSize : Nat) : Nat → ReadState → Option ReadState
  | 0, _ => none
  | rounds + 1, s =>
    if s.len = 0 then some s
    else readLoop eraseSize rounds (s.prepare eraseSize).fill.deliver

end Reading

section Writing

/-- The variables of the loops that write, with the buffer and the file. -/
structure WriteState where
  file : ByteFile
  buf : List UInt8
  data : UInt32
  len : UInt32
  writeLen : Nat

/-- `do_write` writes all it is given. -/
def WriteState.put (s : WriteState) : WriteState :=
  { s with file := s.file.write (s.buf.take s.writeLen) }

def WriteState.advance (s : WriteState) : WriteState :=
  { s with data := s.data + .ofNat s.writeLen, len := s.len - .ofNat s.writeLen }

/-- The loop, with what a round does with the buffer before it is written. A result that is
less than the length ends it. -/
def writeLoop (load : WriteState → List UInt8) : Nat → WriteState → Option WriteState
  | 0, _ => none
  | rounds + 1, s =>
    if s.len = 0 then some s
    else
      let s := { s with
        writeLen := if s.len.toNat < s.writeLen then s.len.toNat else s.writeLen }
      let s := { s with buf := load s }.put
      if asSize (asInt s.writeLen) < s.writeLen then some s
      else writeLoop load rounds s.advance

end Writing

/-- What a command changes, and its result. -/
structure Outcome where
  result : UInt32
  dev : NandDev
  memory : Memory

def nandDevReadFile (dev : NandDev) (file : ByteFile) (memory : Memory) (data : UInt32)
    (addr : Nat) (totalLen : UInt32) : Option Outcome :=
  (readLoop dev.eraseSize.toNat (totalLen.toNat + 2)
    ⟨memory, doLseek file addr, dev.data, data, totalLen, dev.eraseSize.toNat, false⟩).map
    fun s => ⟨totalLen, { dev with data := s.buf, fd := some s.file }, s.memory⟩

def nandDevWriteFile (dev : NandDev) (file : ByteFile) (memory : Memory) (data : UInt32)
    (addr : Nat) (totalLen : UInt32) : Option Outcome :=
  (writeLoop (fun s => fromGuest memory s.data s.buf s.writeLen) (totalLen.toNat + 1)
    ⟨doLseek file addr, dev.data, data, totalLen, dev.eraseSize.toNat⟩).map
    fun s => ⟨totalLen - s.len, { dev with data := s.buf, fd := some s.file }, memory⟩

def nandDevEraseFile (dev : NandDev) (file : ByteFile) (memory : Memory) (addr : Nat)
    (totalLen : UInt32) : Option Outcome :=
  (writeLoop WriteState.buf (totalLen.toNat + 1)
    ⟨doLseek file addr, List.replicate dev.eraseSize.toNat 0xff, 0, totalLen,
      dev.eraseSize.toNat⟩).map
    fun s => ⟨totalLen - s.len, { dev with data := s.buf, fd := some s.file }, memory⟩

/-- The address of a command. -/
def ControllerState.addr (s : ControllerState) : Nat :=
  s.addrLow.toNat ||| (s.addrHigh.toNat <<< 32)

/-- The size of a command, clipped at the end of the device. -/
def NandDev.clip (dev : NandDev) (s : ControllerState) : UInt32 :=
  if s.transferSize.toNat > dev.maxSize.toNat - s.addr then .ofNat (dev.maxSize.toNat - s.addr)
  else s.transferSize

/-- Bytes of `data`. There is no result if they are not in the buffer. -/
def NandDev.slice (dev : NandDev) (addr size : Nat) : Option (List UInt8) :=
  if addr + size ≤ dev.data.length then some ((dev.data.drop addr).take size) else none

def NandDev.patch (dev : NandDev) (addr : Nat) (bytes : List UInt8) : Option NandDev :=
  if addr + bytes.length ≤ dev.data.length then
    some { dev with
      data := dev.data.take addr ++ bytes ++ dev.data.drop (addr + bytes.length) }
  else none

def NandDev.doCmd (dev : NandDev) (s : ControllerState) (cmd : NandCmd) (memory : Memory) :
    Option Outcome :=
  let refused : Outcome := ⟨0, dev, memory⟩
  let size := dev.clip s
  match cmd with
  | .getDevName =>
    let size := if s.transferSize.toNat > dev.devname.length then .ofNat dev.devname.length
      else s.transferSize
    some ⟨size, dev, toGuest memory s.data dev.devname size.toNat⟩
  | .read =>
    if s.addr ≥ dev.maxSize.toNat then some refused
    else
      match dev.fd with
      | some file => nandDevReadFile dev file memory s.data s.addr size
      | none => (dev.slice s.addr size.toNat).map fun bytes =>
        ⟨size, dev, toGuest memory s.data bytes size.toNat⟩
  | .write =>
    if dev.flags &&& nandDevFlagReadOnly ≠ 0 then some refused
    else if s.addr ≥ dev.maxSize.toNat then some refused
    else
      match dev.fd with
      | some file => nandDevWriteFile dev file memory s.data s.addr size
      | none => (dev.patch s.addr (fetch memory s.data (asInt size.toNat).toNat)).map fun dev =>
        ⟨size, dev, memory⟩
  | .erase =>
    if dev.flags &&& nandDevFlagReadOnly ≠ 0 then some refused
    else if s.addr ≥ dev.maxSize.toNat then some refused
    else
      match dev.fd with
      | some file => nandDevEraseFile dev file memory s.addr size
      | none => (dev.patch s.addr (List.replicate size.toNat 0xff)).map fun dev =>
        ⟨size, dev, memory⟩
  | .blockBadGet => some refused
  | .blockBadSet => some refused

/-- `nand_dev_do_cmd`, with the result, the devices and the guest's memory after it. -/
def nandDevDoCmd (devs : List NandDev) (s : ControllerState) (cmd : NandCmd) (memory : Memory) :
    Option (UInt32 × List NandDev × Memory) :=
  match devs[s.dev.toNat]? with
  | none => some (0, devs, memory)
  | some dev => (dev.doCmd s cmd memory).map fun out =>
    (out.result, devs.set s.dev.toNat out.dev, out.memory)

section Laws

theorem asInt_of_lt {n : Nat} (h : n < 2 ^ 31) : asInt n = n := by
  apply Int.bmod_eq_of_le
  · omega
  · omega

theorem asSize_asInt {n : Nat} (h : n < 2 ^ 31) : asSize (asInt n) = n := by
  rw [asInt_of_lt h]
  unfold asSize
  omega

theorem le_asSize_asInt {n : Nat} (h : n < 2 ^ 32) : n ≤ asSize (asInt n) := by
  unfold asSize asInt
  rw [Int.bmod_def]
  split <;> omega

theorem toNat_sub_ofNat {len : UInt32} {n : Nat} (h : n ≤ len.toNat) :
    (len - .ofNat n).toNat = len.toNat - n := by
  have hlt := len.toNat_lt
  have hn : (UInt32.ofNat n).toNat = n := by
    rw [UInt32.toNat_ofNat', Nat.mod_eq_of_lt (by omega)]
  rw [UInt32.toNat_sub_of_le _ _ (UInt32.le_iff_toNat_le.mpr (hn.symm ▸ h)), hn]

@[simp] theorem copy_nil (memory : Memory) (addr : UInt32) : copy memory addr [] = memory := rfl

theorem copy_append (memory : Memory) (addr : UInt32) (front back : List UInt8)
    (h : front.length + back.length ≤ 2 ^ 32) :
    copy memory addr (front ++ back) =
      copy (copy memory addr front) (addr + .ofNat front.length) back := by
  funext a
  have hoff : (a - (addr + .ofNat front.length)).toNat =
      ((a - addr).toNat + (2 ^ 32 - front.length % 2 ^ 32)) % 2 ^ 32 := by
    have hsub : a - (addr + .ofNat front.length) = a - addr - .ofNat front.length := by grind
    rw [hsub, UInt32.toNat_sub, UInt32.toNat_ofNat']
    omega
  have hlt := (a - addr).toNat_lt
  unfold copy
  rw [hoff]
  by_cases hfront : (a - addr).toNat < front.length
  · rw [List.getD_append _ _ _ _ hfront, List.getD_eq_default back _ (by omega)]
  · have hle := Nat.not_lt.mp hfront
    have hsub : ((a - addr).toNat + (2 ^ 32 - front.length % 2 ^ 32)) % 2 ^ 32 =
        (a - addr).toNat - front.length := by omega
    rw [List.getD_append_right _ _ _ _ hle, List.getD_eq_default front _ hle, hsub]

theorem fetch_add (memory : Memory) (addr : UInt32) (n m : Nat) :
    fetch memory addr (n + m) = fetch memory addr n ++ fetch memory (addr + .ofNat n) m := by
  unfold fetch
  rw [List.range_add, List.map_append, List.map_map]
  simp only [Function.comp_def, UInt32.ofNat_add, UInt32.add_assoc]

end Laws

end M2M.Nand
