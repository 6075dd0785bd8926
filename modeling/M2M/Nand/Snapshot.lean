import M2M.Nand.Device
import Mathlib

/-! The images in a snapshot file: `goldfish_nand.c`. -/

namespace M2M.Nand

open M2M.Lib M2M.Lib.Bytes

/-- A file that is written. -/
structure QemuFile where
  bytes : List UInt8
  hasError : Bool

def nandDevSaveDiskBufSize : Nat := 2048

/-- The error code `EIO`. -/
def eio : Int := 5

def be64 (v : Nat) : List UInt8 := (toLE 8 v).reverse

/-- `qemu_put_be64`, which looks at no error. -/
def QemuFile.putBe64 (f : QemuFile) (v : Nat) : QemuFile := { f with bytes := f.bytes ++ be64 v }

/-- `qemu_put_buffer`. -/
def QemuFile.putBuffer (f : QemuFile) (buf : List UInt8) : QemuFile :=
  if f.hasError then f else { f with bytes := f.bytes ++ buf }

def QemuFile.setError (f : QemuFile) : QemuFile := { f with hasError := true }

/-- `qemu_get_be64`. Behind its end, a file has zeroes. -/
def getBe64 (f : List UInt8) : Nat × List UInt8 :=
  (ofLE ((List.range 8).map fun i => f.getD i 0).reverse, f.drop 8)

/-- `do_lseek` to the end of a file, and its result. -/
def doLseekEnd (file : ByteFile) : Int × ByteFile :=
  (asInt file.bytes.length, file.seek file.bytes.length)

/-- `do_write`. A file of a read-only device is open for reading. -/
def NandDev.doWrite (dev : NandDev) (file : ByteFile) (buf : List UInt8) : Int × ByteFile :=
  if dev.flags &&& nandDevFlagReadOnly ≠ 0 then (-1, file)
  else (asInt buf.length, file.write buf)

def NandDev.doFtruncate (dev : NandDev) (file : ByteFile) (size : Nat) : Int × ByteFile :=
  if dev.flags &&& nandDevFlagReadOnly ≠ 0 then (-1, file) else (0, file.truncate size)

/-- The loop that saves the contents, with a bound on its rounds. -/
def saveLoop (maxSize : Nat) : Nat → ByteFile → QemuFile → Nat → Option QemuFile
  | 0, _, _, _ => none
  | rounds + 1, file, f, totalCopied =>
    let (buffer, file) := file.read nandDevSaveDiskBufSize
    let f := f.putBuffer buffer
    let totalCopied := totalCopied + buffer.length
    if buffer.length = nandDevSaveDiskBufSize ∧ totalCopied < maxSize then
      saveLoop maxSize rounds file f totalCopied
    else some f

/-- A device without a file has none to seek in. -/
def nandDevSaveDiskState (f : QemuFile) (dev : NandDev) : Option QemuFile :=
  match dev.fd with
  | none => some f.setError
  | some file =>
    let (ret, file) := doLseekEnd file
    if ret < 0 then some f.setError
    else
      saveLoop dev.maxSize.toNat (file.bytes.length + 1) (doLseek file 0)
        (f.putBe64 (asSize ret)) 0

def nandDevSaveDisks (f : QemuFile) (devs : List NandDev) : Option QemuFile :=
  devs.foldlM nandDevSaveDiskState f

/-- The loop that restores the contents, with a bound on its rounds. -/
def loadLoop (dev : NandDev) (totalSize : Nat) :
    Nat → List UInt8 → ByteFile → Nat → Option (Int × List UInt8 × ByteFile)
  | 0, _, _, _ => none
  | rounds + 1, f, file, nextOffset =>
    if nextOffset < totalSize then
      let bufSize := min nandDevSaveDiskBufSize (totalSize - nextOffset)
      let buffer := f.take bufSize
      let f := f.drop bufSize
      if buffer.length ≠ bufSize then some (-eio, f, file)
      else
        let (ret, file) := dev.doWrite file buffer
        if ret ≠ bufSize then some (-eio, f, file)
        else loadLoop dev totalSize rounds f file (nextOffset + bufSize)
    else some (0, f, file)

/-- The result, the rest of the snapshot file and the device. -/
def nandDevLoadDiskState (f : List UInt8) (dev : NandDev) : Option (Int × List UInt8 × NandDev) :=
  let (totalSize, f) := getBe64 f
  if totalSize > dev.maxSize.toNat then some (-eio, f, dev)
  else
    match dev.fd with
    | none => some (-eio, f, dev)
    | some file =>
      (loadLoop dev totalSize (f.length + 1) f (doLseek file 0) 0).map fun (ret, f, file) =>
        if ret ≠ 0 then (ret, f, { dev with fd := some file })
        else
          let (ret, file) := dev.doFtruncate file totalSize
          (if ret < 0 then -eio else 0, f, { dev with fd := some file })

/-- Stops at the first error. -/
def nandDevLoadDisks (f : List UInt8) :
    List NandDev → Option (Int × List UInt8 × List NandDev)
  | [] => some (0, f, [])
  | dev :: devs =>
    (nandDevLoadDiskState f dev).bind fun (ret, f, dev) =>
      if ret ≠ 0 then some (ret, f, dev :: devs)
      else (nandDevLoadDisks f devs).map fun (ret, f, devs) => (ret, f, dev :: devs)

section Saving

theorem getBe64_be64 {v : Nat} (h : v < 2 ^ 64) (rest : List UInt8) :
    getBe64 (be64 v ++ rest) = (v, rest) := by
  have hlength : (be64 v).length = 8 := by
    rw [be64, List.length_reverse, length_toLE]
  have hbytes : ((List.range 8).map fun i => (be64 v ++ rest).getD i 0) = be64 v := by
    apply List.ext_getElem
    · rw [List.length_map, List.length_range, hlength]
    · intro i hi hi'
      simp [List.getElem?_append_left hi', List.getElem?_eq_getElem hi']
  have hmod : v % 256 ^ 8 = v := Nat.mod_eq_of_lt (by omega)
  unfold getBe64
  rw [hbytes, List.drop_left' hlength, be64, List.reverse_reverse, ofLE_toLE, hmod]

theorem putBuffer_append (f : QemuFile) (front back : List UInt8) :
    (f.putBuffer front).putBuffer back = f.putBuffer (front ++ back) := by
  cases f with
  | mk bytes hasError => cases hasError <;> simp [QemuFile.putBuffer]

theorem saveLoop_eq {maxSize : Nat} {bytes : List UInt8} (hmax : bytes.length ≤ maxSize)
    {rounds pos : Nat} (hrounds : bytes.length - pos < rounds) (f : QemuFile) :
    saveLoop maxSize rounds ⟨bytes, pos⟩ f pos = some (f.putBuffer (bytes.drop pos)) := by
  induction rounds generalizing pos f with
  | zero => exact absurd hrounds (Nat.not_lt_zero _)
  | succ rounds ih =>
    unfold saveLoop ByteFile.read
    dsimp only
    have hlength : ((bytes.drop pos).take nandDevSaveDiskBufSize).length =
        min nandDevSaveDiskBufSize (bytes.length - pos) := by
      rw [List.length_take, List.length_drop]
    have hsize : nandDevSaveDiskBufSize = 2048 := rfl
    split
    case isTrue h =>
      rw [h.1, ih (by omega), putBuffer_append, ← List.drop_drop, List.take_append_drop]
    case isFalse h =>
      rw [hlength] at h
      rw [List.take_of_length_le]
      rw [List.length_drop]
      omega

/-- What a file gets from the devices that are saved. -/
def saved (hasError : Bool) : List NandDev → List UInt8
  | [] => []
  | dev :: devs =>
    match dev.fd with
    | none => saved true devs
    | some file =>
      if asInt file.bytes.length < 0 then saved true devs
      else
        be64 (asSize (asInt file.bytes.length)) ++ (if hasError then [] else file.bytes) ++
          saved hasError devs

/-- The files of the devices fit into the devices. -/
def Fitting (devs : List NandDev) : Prop :=
  ∀ dev ∈ devs, ∀ file ∈ dev.fd, file.bytes.length ≤ dev.maxSize.toNat

theorem nandDevSaveDisks_eq {devs : List NandDev} (h : Fitting devs) (f : QemuFile) :
    ∃ hasError, nandDevSaveDisks f devs = some ⟨f.bytes ++ saved f.hasError devs, hasError⟩ := by
  induction devs generalizing f with
  | nil => exact ⟨f.hasError, by rw [saved, List.append_nil]; rfl⟩
  | cons dev devs ih =>
    obtain ⟨hdev, hdevs⟩ := List.forall_mem_cons.mp h
    unfold nandDevSaveDisks at ih ⊢
    rw [List.foldlM_cons]
    unfold nandDevSaveDiskState saved
    cases hfd : dev.fd with
    | none => exact ih hdevs f.setError
    | some file =>
      have hmax := hdev file hfd
      unfold doLseekEnd
      dsimp only
      split
      case isTrue => exact ih hdevs f.setError
      case isFalse =>
        have hseek : doLseek (file.seek file.bytes.length) 0 = ⟨file.bytes, 0⟩ := rfl
        have hfile : (file.seek file.bytes.length).bytes = file.bytes := rfl
        rw [hseek, hfile, saveLoop_eq hmax (Nat.lt_succ_of_le (Nat.sub_le _ _)), List.drop_zero]
        obtain ⟨hasError, htail⟩ :=
          ih hdevs ((f.putBe64 (asSize (asInt file.bytes.length))).putBuffer file.bytes)
        refine ⟨hasError, htail.trans ?_⟩
        cases f with
        | mk bytes err => cases err <;> simp [QemuFile.putBuffer, QemuFile.putBe64]

end Saving

section Loading

variable {dev : NandDev} {file : ByteFile}

def NandDev.Writable (dev : NandDev) : Prop := dev.flags &&& nandDevFlagReadOnly = 0

theorem doWrite_eq (hdev : dev.Writable) (file : ByteFile) (buf : List UInt8) :
    dev.doWrite file buf = (asInt buf.length, file.write buf) := if_neg (not_not.mpr hdev)

theorem doFtruncate_eq (hdev : dev.Writable) (file : ByteFile) (size : Nat) :
    dev.doFtruncate file size = (0, file.truncate size) := if_neg (not_not.mpr hdev)

theorem loadLoop_eq (hdev : dev.Writable) {totalSize nextOffset rounds : Nat}
    (bytes : List UInt8) (hbytes : bytes.length = totalSize - nextOffset)
    (hrounds : bytes.length < rounds) (more : List UInt8) (file : ByteFile) :
    loadLoop dev totalSize rounds (bytes ++ more) file nextOffset =
      some (0, more, file.write bytes) := by
  induction rounds generalizing bytes nextOffset file with
  | zero => exact absurd hrounds (Nat.not_lt_zero _)
  | succ rounds ih =>
    unfold loadLoop
    by_cases hlt : nextOffset < totalSize
    · have hsize : min nandDevSaveDiskBufSize (totalSize - nextOffset) ≤ bytes.length :=
        hbytes ▸ Nat.min_le_right _ _
      have hpos : 0 < min nandDevSaveDiskBufSize (totalSize - nextOffset) :=
        Nat.lt_min.mpr ⟨by decide, Nat.sub_pos_of_lt hlt⟩
      have hmax : min nandDevSaveDiskBufSize (totalSize - nextOffset) ≤ 2048 := Nat.min_le_left _ _
      rw [if_pos hlt]
      generalize min nandDevSaveDiskBufSize (totalSize - nextOffset) = n at hsize hpos hmax ⊢
      have hlength : (bytes.take n).length = n := List.length_take_of_le hsize
      dsimp only
      rw [List.take_append_of_le_length hsize, List.drop_append_of_le_length hsize]
      rw [if_neg (not_not.mpr hlength)]
      have hret : asInt (bytes.take n).length = n := by
        rw [hlength]
        exact asInt_of_lt (Nat.lt_of_le_of_lt hmax (by omega))
      rw [doWrite_eq hdev]
      dsimp only
      rw [if_neg (not_not.mpr hret),
        ih (bytes.drop n) (by rw [List.length_drop]; omega) (by rw [List.length_drop]; omega),
        ← ByteFile.write_append, List.take_append_drop]
    · have hnil : bytes = [] := List.eq_nil_of_length_eq_zero (by omega)
      rw [if_neg hlt, hnil, List.nil_append, ByteFile.write_nil]

theorem truncate_write (bytes : List UInt8) :
    (((file.seek 0).write bytes).truncate bytes.length).bytes = bytes := by
  unfold ByteFile.truncate ByteFile.write ByteFile.seek
  split
  case isTrue hnil =>
    rw [hnil]
    simp
  case isFalse => simp

theorem nandDevLoadDiskState_eq (hdev : dev.Writable) (hfd : dev.fd = some file)
    {bytes : List UInt8} (hmax : bytes.length ≤ dev.maxSize.toNat) (more : List UInt8) :
    ∃ file', file'.bytes = bytes ∧
      nandDevLoadDiskState (be64 bytes.length ++ bytes ++ more) dev =
        some (0, more, { dev with fd := some file' }) := by
  have hlt : bytes.length < 2 ^ 64 := Nat.lt_of_le_of_lt hmax dev.maxSize.toNat_lt
  refine ⟨((file.seek 0).write bytes).truncate bytes.length, truncate_write bytes, ?_⟩
  have hrounds : bytes.length < (bytes ++ more).length + 1 := by
    rw [List.length_append]
    omega
  unfold nandDevLoadDiskState
  rw [List.append_assoc, getBe64_be64 hlt]
  dsimp only
  rw [if_neg (Nat.not_lt.mpr hmax), hfd]
  dsimp only
  have hseek : doLseek file 0 = file.seek 0 := rfl
  rw [hseek, loadLoop_eq hdev bytes rfl hrounds, Option.map_some]
  dsimp only
  rw [if_neg (not_not.mpr rfl), doFtruncate_eq hdev]
  rfl

theorem of_nandDevLoadDiskState {f rest : List UInt8} {dev' : NandDev} (hfd : dev.fd = some file)
    (h : nandDevLoadDiskState f dev = some (0, rest, dev')) :
    dev.Writable ∧ ∃ file', dev'.fd = some file' ∧ file'.bytes.length = (getBe64 f).1 := by
  unfold nandDevLoadDiskState at h
  dsimp only at h
  split at h
  case isTrue => cases h
  case isFalse =>
    rw [hfd] at h
    dsimp only at h
    obtain ⟨⟨ret, rest', file'⟩, -, hret⟩ := Option.map_eq_some_iff.mp h
    dsimp only at hret
    split at hret
    case isTrue hne =>
      cases hret
      exact absurd rfl hne
    case isFalse =>
      unfold NandDev.doFtruncate at hret
      split at hret
      case isTrue => cases hret
      case isFalse hwritable =>
        cases hret
        refine ⟨not_not.mp hwritable, _, rfl, ?_⟩
        unfold ByteFile.truncate
        simp
        omega

end Loading

section RoundTrip

def files (devs : List NandDev) : List (Option (List UInt8)) :=
  devs.map fun dev => dev.fd.map ByteFile.bytes

/-- The snapshot of the devices is read back whole into the others, whatever follows it. -/
def RoundTrip (devs devs' : List NandDev) : Prop :=
  ∃ f, nandDevSaveDisks ⟨[], false⟩ devs = some f ∧
    ∀ more, ∃ loaded, nandDevLoadDisks (f.bytes ++ more) devs' = some (0, more, loaded) ∧
      files loaded = files devs

/-- One device with two contents of its file, the first of which fits into it. -/
structure SameDevice (dev dev' : NandDev) : Prop where
  maxSize : dev'.maxSize = dev.maxSize
  flags : dev'.flags = dev.flags
  saved : ∃ file, dev.fd = some file ∧ file.bytes.length ≤ dev.maxSize.toNat
  loaded : dev'.fd.isSome

/-- The size of the file is an `int`, and the file can be written. -/
def NandDev.Restorable (dev : NandDev) : Prop :=
  (∀ file ∈ dev.fd, file.bytes.length < 2 ^ 31) ∧ dev.Writable

variable {devs devs' : List NandDev}

theorem fitting_of_same (h : List.Forall₂ SameDevice devs devs') : Fitting devs := by
  induction h with
  | nil => exact nofun
  | cons hdev _ ih =>
    obtain ⟨file, hfd, hmax⟩ := hdev.saved
    apply List.forall_mem_cons.mpr ⟨_, ih⟩
    intro file' hfd'
    rw [hfd] at hfd'
    cases hfd'
    exact hmax

theorem asSize_asInt_lt {size : Nat} (h : ¬asInt size < 0) : asSize (asInt size) < 2 ^ 31 := by
  unfold asSize asInt at *
  rw [Int.bmod_def] at *
  split at h <;> omega

theorem getBe64_saved_true (devs : List NandDev) : (getBe64 (saved true devs)).1 < 2 ^ 31 := by
  induction devs with
  | nil => decide
  | cons dev devs ih =>
    unfold saved
    split
    case h_1 => exact ih
    case h_2 file _ =>
      split
      case isTrue => exact ih
      case isFalse hneg =>
        have hlt := asSize_asInt_lt hneg
        rw [List.append_assoc, getBe64_be64 (Nat.lt_trans hlt (by omega))]
        dsimp only
        exact hlt

theorem saved_cons {dev : NandDev} {file : ByteFile} (hfd : dev.fd = some file)
    (hint : file.bytes.length < 2 ^ 31) (devs : List NandDev) :
    saved false (dev :: devs) = be64 file.bytes.length ++ file.bytes ++ saved false devs := by
  have hnonneg : ¬asInt file.bytes.length < 0 := by
    rw [asInt_of_lt hint]
    exact Int.not_lt.mpr (Int.natCast_nonneg _)
  rw [saved, hfd]
  dsimp only
  rw [if_neg hnonneg, asSize_asInt hint]
  rfl

theorem SameDevice.writable {dev dev' : NandDev} (h : SameDevice dev dev') :
    dev'.Writable ↔ dev.Writable := by
  unfold NandDev.Writable
  rw [h.flags]

theorem load_saved (h : List.Forall₂ SameDevice devs devs')
    (hrest : ∀ dev ∈ devs, dev.Restorable) (more : List UInt8) :
    ∃ loaded, nandDevLoadDisks (saved false devs ++ more) devs' = some (0, more, loaded) ∧
      files loaded = files devs := by
  induction h with
  | nil => exact ⟨[], rfl, rfl⟩
  | @cons dev dev' devs devs' hdev _ ih =>
    obtain ⟨⟨hsize, hwritable⟩, hdevs⟩ := List.forall_mem_cons.mp hrest
    obtain ⟨file, hfd, hmax⟩ := hdev.saved
    obtain ⟨file', hfd'⟩ := Option.isSome_iff_exists.mp hdev.loaded
    have hint := hsize file hfd
    obtain ⟨loaded, hload, hfiles⟩ := ih hdevs
    obtain ⟨restored, hbytes, hstate⟩ := nandDevLoadDiskState_eq (hdev.writable.mpr hwritable)
      hfd' (hdev.maxSize ▸ hmax) (saved false devs ++ more)
    refine ⟨{ dev' with fd := some restored } :: loaded, ?_, ?_⟩
    · rw [saved_cons hfd hint, List.append_assoc, nandDevLoadDisks, hstate, Option.bind_some]
      dsimp only
      rw [if_neg (not_not.mpr rfl), hload]
      rfl
    · unfold files at hfiles ⊢
      rw [List.map_cons, List.map_cons, hfiles, hfd, Option.map_some, Option.map_some, hbytes]

theorem restorable_of_load (h : List.Forall₂ SameDevice devs devs') {loaded : List NandDev}
    {rest : List UInt8} (hload : nandDevLoadDisks (saved false devs) devs' = some (0, rest, loaded))
    (hfiles : files loaded = files devs) : ∀ dev ∈ devs, dev.Restorable := by
  induction h generalizing loaded with
  | nil => exact nofun
  | @cons dev dev' devs devs' hdev _ ih =>
    obtain ⟨file, hfd, hmax⟩ := hdev.saved
    obtain ⟨file', hfd'⟩ := Option.isSome_iff_exists.mp hdev.loaded
    rw [nandDevLoadDisks] at hload
    obtain ⟨⟨ret, rest', head⟩, hstate, hload⟩ := Option.bind_eq_some_iff.mp hload
    dsimp only at hload
    split at hload
    case isTrue hne =>
      cases hload
      exact absurd rfl hne
    case isFalse hret =>
      obtain rfl : ret = 0 := not_not.mp hret
      obtain ⟨⟨ret, rest'', tail⟩, htail, hloaded⟩ := Option.map_eq_some_iff.mp hload
      obtain ⟨rfl, rfl, rfl⟩ : ret = 0 ∧ rest'' = rest ∧ head :: tail = loaded := by
        simpa using hloaded
      obtain ⟨hwritable, file'', hfd'', hlength⟩ := of_nandDevLoadDiskState hfd' hstate
      obtain ⟨hhead, htailFiles⟩ := List.cons_eq_cons.mp hfiles
      have hbytes : file''.bytes = file.bytes := by
        dsimp only at hhead
        rw [hfd'', hfd] at hhead
        exact Option.some_inj.mp hhead
      rw [hbytes] at hlength
      -- the size that is read is the size of the file only if it is an `int`
      have hint : file.bytes.length < 2 ^ 31 := by
        rw [hlength, saved, hfd]
        dsimp only
        split
        case isTrue => exact getBe64_saved_true devs
        case isFalse hneg =>
          have hlt := asSize_asInt_lt hneg
          rw [List.append_assoc, getBe64_be64 (Nat.lt_trans hlt (by omega))]
          dsimp only
          exact hlt
      obtain ⟨restored, -, hstate'⟩ := nandDevLoadDiskState_eq hwritable hfd'
        (hdev.maxSize ▸ hmax) (saved false devs)
      rw [saved_cons hfd hint, hstate'] at hstate
      cases hstate
      refine List.forall_mem_cons.mpr ⟨⟨?_, hdev.writable.mp hwritable⟩, ih htail htailFiles⟩
      intro f hf
      rw [hfd] at hf
      cases hf
      exact hint

theorem RoundTrip.restorable (h : List.Forall₂ SameDevice devs devs')
    (hload : RoundTrip devs devs') :
    ∀ dev ∈ devs, dev.Restorable := by
  obtain ⟨hasError, hsave⟩ := nandDevSaveDisks_eq (fitting_of_same h) ⟨[], false⟩
  obtain ⟨f, hf, hload⟩ := hload
  rw [hsave] at hf
  cases hf
  obtain ⟨loaded, hloaded, hfiles⟩ := hload []
  rw [List.append_nil] at hloaded
  exact restorable_of_load h hloaded hfiles

/-- The images survive a snapshot if and only if their sizes are `int`s and the devices can
be written. -/
theorem disksRestored_iff (h : List.Forall₂ SameDevice devs devs') :
    RoundTrip devs devs' ↔ ∀ dev ∈ devs, dev.Restorable := by
  refine ⟨fun hload => hload.restorable h, fun hrest => ?_⟩
  obtain ⟨hasError, hsave⟩ := nandDevSaveDisks_eq (fitting_of_same h) ⟨[], false⟩
  exact ⟨_, hsave, load_saved h hrest⟩

/-- A writable device of 4 GiB with a file. -/
def disk (bytes : List UInt8) : NandDev where
  devname := []
  data := []
  fd := some ⟨bytes, 0⟩
  flags := 0
  eraseSize := 4
  maxSize := 2 ^ 32
  eraseSize_pos := toNat_four_pos

theorem same_disk {bytes : List UInt8} (h : bytes.length ≤ 2 ^ 32) (bytes' : List UInt8) :
    SameDevice (disk bytes) (disk bytes') := ⟨rfl, rfl, ⟨⟨bytes, 0⟩, rfl, h⟩, rfl⟩

theorem disksRestored_iff_small : RoundTrip [disk [1, 2, 3]] [disk [4]] ↔
    ∀ dev ∈ [disk [1, 2, 3]], dev.Restorable :=
  disksRestored_iff (.cons (same_disk (by decide) [4]) .nil)

/-- A file of 2 GiB is not restored. -/
theorem big_disk_lost : ¬∀ devs devs' : List NandDev, List.Forall₂ SameDevice devs devs' →
    RoundTrip devs devs' := by
  intro h
  have hlength : (List.replicate (2 ^ 31) (0 : UInt8)).length = 2 ^ 31 := List.length_replicate
  generalize List.replicate (2 ^ 31) (0 : UInt8) = bytes at hlength
  have hsame : List.Forall₂ SameDevice [disk bytes] [disk []] :=
    .cons (same_disk (by omega) []) .nil
  have hrest := (h _ _ hsame).restorable hsame (disk bytes) (List.mem_singleton_self _)
  have hlt := hrest.1 ⟨bytes, 0⟩ rfl
  dsimp only at hlt
  omega

end RoundTrip

end M2M.Nand
