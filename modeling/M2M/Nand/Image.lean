import M2M.Lib.Runs
import M2M.Nand.Transfers
import Mathlib

/-! A device with a file as an array of bytes: `goldfish_nand.c`. -/

namespace M2M.Nand

open M2M.Lib

section Files

variable {addr : Nat}

theorem doLseek_of_lt {file : ByteFile} (h : addr < 2 ^ 63) :
    doLseek file addr = file.seek addr := if_pos h

theorem nandDevReadFile_eq (dev : NandDev) (file : ByteFile) (haddr : addr < 2 ^ 63)
    {totalLen : UInt32}
    (hchunk : min totalLen.toNat dev.eraseSize.toNat < 2 ^ 31) (memory : Memory) (data : UInt32) :
    ∃ buf file', file'.bytes = file.bytes ∧
      nandDevReadFile dev file memory data addr totalLen = some ⟨totalLen,
        { dev with data := buf, fd := some file' },
        copy memory data (file.span erased addr totalLen.toNat)⟩ := by
  obtain ⟨s, hs, hbytes, hmemory⟩ := readLoop_reading dev.eraseSize_pos (totalLen.toNat + 2)
    (s := ⟨memory, doLseek file addr, dev.data, data, totalLen, dev.eraseSize.toNat, false⟩)
    ⟨rfl, .inl rfl⟩ (Nat.lt_succ_self _) hchunk
  rw [doLseek_of_lt haddr] at hs hbytes hmemory
  refine ⟨s.buf, s.file, hbytes, ?_⟩
  unfold nandDevReadFile
  rw [doLseek_of_lt haddr, hs, Option.map_some, hmemory]
  rfl

theorem nandDevWriteFile_eq (dev : NandDev) (file : ByteFile) (haddr : addr < 2 ^ 63)
    {totalLen : UInt32}
    (hchunk : min totalLen.toNat dev.eraseSize.toNat < 2 ^ 31) (memory : Memory) (data : UInt32) :
    ∃ buf, nandDevWriteFile dev file memory data addr totalLen = some ⟨totalLen,
      { dev with
        data := buf
        fd := some ((file.seek addr).write (fetch memory data totalLen.toNat)) }, memory⟩ := by
  obtain ⟨s, hs, hlen, hfile⟩ := writeLoop_spec
    (s := ⟨doLseek file addr, dev.data, data, totalLen, dev.eraseSize.toNat⟩)
    (fun s => fromGuest memory s.data s.buf s.writeLen) (fetch memory) (fun _ => True)
    (min totalLen.toNat dev.eraseSize.toNat) (totalLen.toNat + 1) dev.eraseSize_pos (fun _ => rfl)
    (fetch_add memory) (fun s _ hle => by
      refine ⟨?_, trivial⟩
      unfold fromGuest Bytes.overwrite
      rw [asInt_of_lt (Nat.lt_of_le_of_lt hle hchunk), Int.toNat_natCast]
      exact List.take_left' (by simp [fetch]))
    trivial (Nat.le_refl _) (.inl rfl) (Nat.lt_succ_self _)
  refine ⟨s.buf, ?_⟩
  unfold nandDevWriteFile
  rw [hs, Option.map_some, hlen, hfile, doLseek_of_lt haddr, UInt32.sub_zero]

theorem nandDevEraseFile_eq (dev : NandDev) (file : ByteFile) (haddr : addr < 2 ^ 63)
    (totalLen : UInt32) (memory : Memory) :
    ∃ buf, nandDevEraseFile dev file memory addr totalLen = some ⟨totalLen,
      { dev with
        data := buf
        fd := some ((file.seek addr).write (List.replicate totalLen.toNat erased)) }, memory⟩ := by
  obtain ⟨s, hs, hlen, hfile⟩ := writeLoop_spec
    (s := ⟨doLseek file addr, List.replicate dev.eraseSize.toNat erased, 0, totalLen,
      dev.eraseSize.toNat⟩)
    WriteState.buf (fun _ n => List.replicate n erased)
    (fun buf => buf = List.replicate dev.eraseSize.toNat erased) dev.eraseSize.toNat
    (totalLen.toNat + 1) dev.eraseSize_pos (fun _ => rfl)
    (fun _ n m => (List.replicate_append_replicate).symm) (fun s hbuf hle => by
      refine ⟨?_, hbuf⟩
      rw [hbuf, List.take_replicate, Nat.min_eq_left hle])
    rfl (Nat.min_le_right _ _) (.inl rfl) (Nat.lt_succ_self _)
  refine ⟨s.buf, ?_⟩
  unfold nandDevEraseFile
  have hs' : writeLoop WriteState.buf (totalLen.toNat + 1) ⟨doLseek file addr,
      List.replicate dev.eraseSize.toNat 0xff, 0, totalLen, dev.eraseSize.toNat⟩ = some s := hs
  rw [hs', Option.map_some, hlen, hfile, doLseek_of_lt haddr, UInt32.sub_zero]

end Files

/-- What a device is for: an array of bytes that commands read, write and erase. -/
structure Image where
  contents : Nat → UInt8
  maxSize : Nat
  readOnly : Bool

namespace Image

def clip (im : Image) (s : ControllerState) : Nat :=
  min s.transferSize.toNat (im.maxSize - s.addr)

/-- The bytes that a command reads. -/
def read (im : Image) (s : ControllerState) : List UInt8 :=
  if s.addr ≥ im.maxSize then []
  else (List.range (im.clip s)).map fun i => im.contents (s.addr + i)

def change (im : Image) (s : ControllerState) (bytes : List UInt8) : Image :=
  if im.readOnly ∨ s.addr ≥ im.maxSize then im
  else { im with contents := put im.contents s.addr bytes }

def run (im : Image) (s : ControllerState) (cmd : NandCmd) (memory : Memory) : Image :=
  match cmd with
  | .write => im.change s (fetch memory s.data (im.clip s))
  | .erase => im.change s (List.replicate (im.clip s) erased)
  | _ => im

end Image

/-- The image of a device, in its file if it has one. Behind the end of the file it is erased. -/
def NandDev.image (dev : NandDev) : Image where
  contents := match dev.fd with
    | some file => file.array erased
    | none => fun p => dev.data.getD p 0
  maxSize := dev.maxSize.toNat
  readOnly := dev.flags &&& nandDevFlagReadOnly ≠ 0

structure Command where
  regs : ControllerState
  cmd : NandCmd
  memory : Memory

/-- The offset of the command fits into a file offset, the pieces that it moves fit into an
`int`, and what it writes begins within the file or at its end. -/
structure NandDev.Fits (dev : NandDev) (c : Command) : Prop where
  offset : c.regs.addr < 2 ^ 63
  chunk : c.cmd ≠ .erase → min (dev.clip c.regs).toNat dev.eraseSize.toNat < 2 ^ 31
  inside : c.cmd = .write ∨ c.cmd = .erase → dev.flags &&& nandDevFlagReadOnly = 0 →
    c.regs.addr < dev.maxSize.toNat → 0 < c.regs.transferSize.toNat →
      ∀ file ∈ dev.fd, c.regs.addr ≤ file.bytes.length

section Devices

variable {dev : NandDev} {c : Command} {file : ByteFile}

theorem toNat_clip (dev : NandDev) (s : ControllerState) :
    (dev.clip s).toNat = dev.image.clip s := by
  have hlt := s.transferSize.toNat_lt
  unfold NandDev.clip Image.clip NandDev.image
  dsimp only
  split
  case isTrue h =>
    rw [UInt32.toNat_ofNat', Nat.mod_eq_of_lt (by omega), Nat.min_eq_right (by omega)]
  case isFalse h => rw [Nat.min_eq_left (by omega)]

theorem image_eq (hfd : dev.fd = some file) :
    dev.image = { dev.image with contents := file.array erased } := by
  unfold NandDev.image
  rw [hfd]

theorem doCmd_read (hfd : dev.fd = some file) (hcmd : c.cmd = .read) (h : dev.Fits c) :
    ∃ out, dev.doCmd c.regs c.cmd c.memory = some out ∧
      out.result.toNat = (dev.image.read c.regs).length ∧
      out.memory = copy c.memory c.regs.data (dev.image.read c.regs) ∧
      out.dev.image = dev.image ∧ out.dev.fd.isSome := by
  have hmax : dev.image.maxSize = dev.maxSize.toNat := rfl
  unfold NandDev.doCmd Image.read
  rw [hcmd, hmax]
  dsimp only
  by_cases hrange : c.regs.addr ≥ dev.maxSize.toNat
  · rw [if_pos hrange, if_pos hrange]
    exact ⟨_, rfl, rfl, rfl, rfl, Option.isSome_of_eq_some hfd⟩
  · have hchunk := h.chunk (by rw [hcmd]; exact nofun)
    obtain ⟨buf, file', hbytes, hout⟩ :=
      nandDevReadFile_eq dev file h.offset hchunk c.memory c.regs.data
    have harray : file'.array erased = file.array erased := by
      unfold ByteFile.array
      rw [hbytes]
    rw [if_neg hrange, if_neg hrange, hfd]
    dsimp only
    rw [hout]
    refine ⟨_, rfl, ?_, ?_, ?_, rfl⟩
    · rw [List.length_map, List.length_range]
      exact toNat_clip dev c.regs
    · rw [← toNat_clip, image_eq hfd]
      rfl
    · rw [image_eq hfd, ← harray]
      rfl

theorem array_write_seek {addr : Nat} {bytes : List UInt8}
    (h : bytes ≠ [] → addr ≤ file.bytes.length) :
    ((file.seek addr).write bytes).array erased = put (file.array erased) addr bytes := by
  by_cases hnil : bytes = []
  · rw [hnil, ByteFile.write_nil, put_nil]
    rfl
  · exact (file.seek addr).array_write erased (h hnil) bytes

theorem doCmd_change (hfd : dev.fd = some file) (hcmd : c.cmd = .write ∨ c.cmd = .erase)
    (h : dev.Fits c) :
    ∃ out, dev.doCmd c.regs c.cmd c.memory = some out ∧
      out.dev.image = dev.image.run c.regs c.cmd c.memory ∧ out.dev.fd.isSome := by
  have hmax : dev.image.maxSize = dev.maxSize.toNat := rfl
  have hflag : dev.image.readOnly = true ↔ dev.flags &&& nandDevFlagReadOnly ≠ 0 :=
    decide_eq_true_iff
  have hempty : c.regs.transferSize.toNat = 0 → dev.image.clip c.regs = 0 := by
    intro h0
    unfold Image.clip
    rw [h0, Nat.zero_min]
  have hinside : dev.flags &&& nandDevFlagReadOnly = 0 → c.regs.addr < dev.maxSize.toNat →
      ∀ bytes : List UInt8, bytes.length = dev.image.clip c.regs → bytes ≠ [] →
        c.regs.addr ≤ file.bytes.length := by
    intro hwritable hlt bytes hlength hne
    refine h.inside hcmd hwritable hlt (Nat.pos_of_ne_zero fun h0 => hne ?_) file hfd
    exact List.eq_nil_of_length_eq_zero (hlength.trans (hempty h0))
  by_cases hrefused : dev.flags &&& nandDevFlagReadOnly ≠ 0
  · have hchange : ∀ bytes, dev.image.change c.regs bytes = dev.image := fun bytes =>
      if_pos (.inl (hflag.mpr hrefused))
    unfold NandDev.doCmd Image.run
    rcases hcmd with hcmd | hcmd
    all_goals
      rw [hcmd]
      dsimp only
      rw [if_pos hrefused, hchange]
      exact ⟨_, rfl, rfl, Option.isSome_of_eq_some hfd⟩
  by_cases hrange : c.regs.addr ≥ dev.maxSize.toNat
  · have hchange : ∀ bytes, dev.image.change c.regs bytes = dev.image := fun bytes =>
      if_pos (.inr hrange)
    unfold NandDev.doCmd Image.run
    rcases hcmd with hcmd | hcmd
    all_goals
      rw [hcmd]
      dsimp only
      rw [if_neg hrefused, if_pos hrange, hchange]
      exact ⟨_, rfl, rfl, Option.isSome_of_eq_some hfd⟩
  have hchange : ∀ bytes, dev.image.change c.regs bytes =
      { dev.image with contents := put (file.array erased) c.regs.addr bytes } := by
    intro bytes
    rw [image_eq hfd]
    refine if_neg ?_
    rintro (hro | hge)
    · exact hrefused (hflag.mp hro)
    · exact hrange hge
  rcases hcmd with hcmd | hcmd
  · have hchunk := h.chunk (by rw [hcmd]; exact nofun)
    obtain ⟨buf, hout⟩ :=
      nandDevWriteFile_eq dev file h.offset hchunk c.memory c.regs.data
    unfold NandDev.doCmd Image.run
    rw [hcmd]
    dsimp only
    rw [if_neg hrefused, if_neg hrange, hfd]
    dsimp only
    rw [hout, hchange, ← toNat_clip, ← array_write_seek]
    · exact ⟨_, rfl, rfl, rfl⟩
    · apply hinside (not_not.mp hrefused) (Nat.not_le.mp hrange)
      rw [← toNat_clip]
      simp [fetch]
  · obtain ⟨buf, hout⟩ :=
      nandDevEraseFile_eq dev file h.offset (dev.clip c.regs) c.memory
    unfold NandDev.doCmd Image.run
    rw [hcmd]
    dsimp only
    rw [if_neg hrefused, if_neg hrange, hfd]
    dsimp only
    rw [hout, hchange, ← toNat_clip, ← array_write_seek]
    · exact ⟨_, rfl, rfl, rfl⟩
    · apply hinside (not_not.mp hrefused) (Nat.not_le.mp hrange)
      rw [← toNat_clip, List.length_replicate]

theorem doCmd_run (hfd : dev.fd = some file) (h : dev.Fits c) :
    ∃ out, dev.doCmd c.regs c.cmd c.memory = some out ∧
      out.dev.image = dev.image.run c.regs c.cmd c.memory ∧ out.dev.fd.isSome := by
  have hsome : dev.fd.isSome := Option.isSome_of_eq_some hfd
  cases hcmd : c.cmd with
  | read =>
    obtain ⟨out, hout, -, -, himage, hback⟩ := doCmd_read hfd hcmd h
    rw [hcmd] at hout
    exact ⟨out, hout, himage, hback⟩
  | write => exact hcmd ▸ doCmd_change hfd (.inl hcmd) h
  | erase => exact hcmd ▸ doCmd_change hfd (.inr hcmd) h
  | getDevName => exact ⟨_, rfl, rfl, hsome⟩
  | blockBadGet => exact ⟨_, rfl, rfl, hsome⟩
  | blockBadSet => exact ⟨_, rfl, rfl, hsome⟩

end Devices

section Runs

/-- The devices after a command. -/
def step (devs : List NandDev) (c : Command) : List NandDev :=
  match nandDevDoCmd devs c.regs c.cmd c.memory with
  | none => devs
  | some result => result.2.1

/-- The arrays of bytes after a command. -/
def imageStep (ims : List Image) (c : Command) : List Image :=
  match ims[c.regs.dev.toNat]? with
  | none => ims
  | some im => ims.set c.regs.dev.toNat (im.run c.regs c.cmd c.memory)

/-- The number of bytes that a read delivers, and the guest's memory after it. -/
def readImages (ims : List Image) (c : Command) : Nat × Memory :=
  match ims[c.regs.dev.toNat]? with
  | none => (0, c.memory)
  | some im => ((im.read c.regs).length, copy c.memory c.regs.data (im.read c.regs))

def FitsIn (devs : List NandDev) (c : Command) : Prop :=
  ∀ dev ∈ devs[c.regs.dev.toNat]?, dev.Fits c

/-- Every device has a file. -/
def FileBacked (devs : List NandDev) : Prop := ∀ dev ∈ devs, dev.fd.isSome

variable {devs : List NandDev} {c : Command}

theorem step_images (hfile : FileBacked devs) (h : FitsIn devs c) :
    (step devs c).map NandDev.image = imageStep (devs.map NandDev.image) c ∧
      FileBacked (step devs c) := by
  unfold step imageStep nandDevDoCmd
  rw [List.getElem?_map]
  cases hdev : devs[c.regs.dev.toNat]? with
  | none => exact ⟨rfl, hfile⟩
  | some dev =>
    obtain ⟨file, hfd⟩ := Option.isSome_iff_exists.mp (hfile dev (List.mem_of_getElem? hdev))
    obtain ⟨out, hout, himage, hback⟩ := doCmd_run hfd (h dev hdev)
    dsimp only
    rw [hout]
    refine ⟨?_, ?_⟩
    · rw [Option.map_some, Option.map_some]
      dsimp only
      rw [← himage]
      exact List.map_set
    · intro dev' hdev'
      cases List.mem_or_eq_of_mem_set hdev' with
      | inl hmem => exact hfile dev' hmem
      | inr heq => exact heq ▸ hback

theorem run_images {cmds : List Command} (hfile : FileBacked devs)
    (h : Along step FitsIn devs cmds) :
    (cmds.foldl step devs).map NandDev.image =
        cmds.foldl imageStep (devs.map NandDev.image) ∧
      FileBacked (cmds.foldl step devs) := by
  induction cmds generalizing devs with
  | nil => exact ⟨rfl, hfile⟩
  | cons c cmds ih =>
    obtain ⟨hfits, hrest⟩ := Along.cons_iff.mp h
    obtain ⟨himages, hfile'⟩ := step_images hfile hfits
    obtain ⟨hrun, hback⟩ := ih hfile' hrest
    rw [List.foldl_cons, List.foldl_cons, ← himages]
    exact ⟨hrun, hback⟩

/-- After any commands that fit, a read delivers what was last written or erased at each of
its positions, and otherwise what was there before. -/
theorem read_after_run {cmds : List Command} (hfile : FileBacked devs) (hcmd : c.cmd = .read)
    (h : Along step FitsIn devs (cmds ++ [c])) :
    (nandDevDoCmd (cmds.foldl step devs) c.regs c.cmd c.memory).map
        (fun result => (result.1.toNat, result.2.2)) =
      some (readImages (cmds.foldl imageStep (devs.map NandDev.image)) c) := by
  obtain ⟨hcmds, hfits⟩ := Along.concat_iff.mp h
  obtain ⟨himages, hback⟩ := run_images hfile hcmds
  rw [← himages]
  unfold readImages nandDevDoCmd
  rw [List.getElem?_map]
  cases hdev : (cmds.foldl step devs)[c.regs.dev.toNat]? with
  | none => rfl
  | some dev =>
    obtain ⟨file, hfd⟩ := Option.isSome_iff_exists.mp (hback dev (List.mem_of_getElem? hdev))
    obtain ⟨out, hout, hresult, hmemory, -⟩ := doCmd_read hfd hcmd (hfits dev hdev)
    dsimp only
    rw [hout, Option.map_some, Option.map_some, Option.map_some, hresult, hmemory]

/-- A device of 16 bytes whose file is empty. -/
def blank : NandDev where
  devname := []
  data := [0, 0, 0, 0]
  fd := some ⟨[], 0⟩
  flags := 0
  eraseSize := 4
  maxSize := 16
  eraseSize_pos := toNat_four_pos

/-- A command that moves two bytes from or to the start of the guest's memory. -/
def moveTwo (cmd : NandCmd) (addr : UInt32) : Command := ⟨⟨0, addr, 0, 2, 0⟩, cmd, fun _ => 7⟩

theorem read_after_run_blank :
    (nandDevDoCmd ([moveTwo .write 0].foldl step [blank]) (moveTwo .read 1).regs .read
        fun _ => 7).map (fun result => (result.1.toNat, result.2.2)) =
      some (readImages ([moveTwo .write 0].foldl imageStep ([blank].map NandDev.image))
        (moveTwo .read 1)) := by
  apply read_after_run (c := moveTwo .read 1) (List.forall_mem_singleton.mpr rfl) rfl
  refine Along.concat_iff.mpr ⟨Along.cons_iff.mpr ⟨?_, .nil⟩, ?_⟩
  · rintro _ ⟨⟩
    exact ⟨by decide, fun _ => by decide, fun _ _ _ _ _ _ => Nat.zero_le _⟩
  · rintro _ ⟨⟩
    exact ⟨by decide, fun _ => by decide, nofun⟩

/-- Erasing behind the end of the file changes what is read before. -/
theorem read_after_gap : ¬∀ (devs : List NandDev) (cmds : List Command) (c : Command),
    FileBacked devs → c.cmd = .read →
      (nandDevDoCmd (cmds.foldl step devs) c.regs c.cmd c.memory).map
          (fun result => (result.1.toNat, result.2.2)) =
        some (readImages (cmds.foldl imageStep (devs.map NandDev.image)) c) := by
  intro h
  have hread := h [blank] [moveTwo .erase 8] (moveTwo .read 0)
    (List.forall_mem_singleton.mpr rfl) rfl
  have hbyte := congrArg (Option.map fun result => result.2 0) hread
  revert hbyte
  decide

end Runs

end M2M.Nand
