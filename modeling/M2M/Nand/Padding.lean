import M2M.Nand.Image

/-! What a read of a device with a file gives the guest, for all sizes: `goldfish_nand.c`. -/

namespace M2M.Nand

open M2M.Lib

/-- The guest gets the bytes of the file from `addr` on, and erased bytes behind its end. -/
def Delivers (dev : NandDev) (file : ByteFile) (data : UInt32) (addr : Nat) (totalLen : UInt32) :
    Prop :=
  ∀ memory, ∃ out, nandDevReadFile dev file memory data addr totalLen = some out ∧
    out.result = totalLen ∧
    out.memory = copy memory data (file.span erased addr totalLen.toNat)

/-- Where the file is read from, and how many bytes it has from there on. -/
def readStart (file : ByteFile) (addr : Nat) : Nat := (doLseek file addr).pos

def readable (file : ByteFile) (addr : Nat) : Nat := file.bytes.length - readStart file addr

/-- No piece is too long for an `int`: neither one that is read, nor one behind the end of the
file. -/
def SmallPieces (dev : NandDev) (file : ByteFile) (addr : Nat) (totalLen : UInt32) : Prop :=
  min totalLen.toNat dev.eraseSize.toNat < 2 ^ 31 ∨
    readable file addr < 2 ^ 31 ∧ totalLen.toNat - readable file addr < 2 ^ 31

instance (dev : NandDev) (file : ByteFile) (addr : Nat) (totalLen : UInt32) :
    Decidable (SmallPieces dev file addr totalLen) :=
  inferInstanceAs (Decidable (_ ∨ _))

section Frame

variable {eraseSize rounds : Nat} {s s' : ReadState}

theorem toNat_asInt_of_le {n : Nat} (h : 2 ^ 31 ≤ n) (h' : n < 2 ^ 32) : (asInt n).toNat = 0 := by
  unfold asInt
  rw [Int.bmod_def]
  split <;> omega

theorem toNat_asInt_le {n : Nat} (h : n < 2 ^ 32) : (asInt n).toNat ≤ n := by
  unfold asInt
  rw [Int.bmod_def]
  split <;> omega

theorem asSize_asInt_mod (n : Nat) : asSize (asInt n) % 2 ^ 32 = n % 2 ^ 32 := by
  unfold asSize asInt
  rw [Int.bmod_def]
  split <;> omega

theorem asInt_asSize_asInt (n : Nat) : asInt (asSize (asInt n)) = asInt n := by
  have hmod : ((asSize (asInt n) : Nat) : Int) % ((2 ^ 32 : Nat) : Int) =
      (n : Int) % ((2 ^ 32 : Nat) : Int) := by
    rw [← Int.natCast_mod, ← Int.natCast_mod, asSize_asInt_mod]
  have hbmod : ((asSize (asInt n) : Nat) : Int).bmod (2 ^ 32) = (n : Int).bmod (2 ^ 32) := by
    rw [← Int.emod_bmod, hmod, Int.emod_bmod]
  exact hbmod

theorem ofNat_asSize_asInt (n : Nat) : UInt32.ofNat (asSize (asInt n)) = .ofNat n := by
  rw [← UInt32.toNat_inj, UInt32.toNat_ofNat', UInt32.toNat_ofNat']
  exact asSize_asInt_mod n

theorem fill_readLen (s : ReadState) :
    ∃ m, m ≤ s.len.toNat ∧ UInt32.ofNat s.fill.readLen = .ofNat m ∧
      (asInt s.fill.readLen).toNat ≤ m := by
  have hlt := s.len.toNat_lt
  have hclip : (if s.len.toNat < s.readLen then s.len.toNat else s.readLen) ≤ s.len.toNat := by
    split <;> omega
  unfold ReadState.fill
  dsimp only
  split
  · exact ⟨_, hclip, rfl, toNat_asInt_le (Nat.lt_of_le_of_lt hclip hlt)⟩
  · dsimp only [ByteFile.read]
    have hread : (((s.file.bytes.drop s.file.pos).take
        (if s.len.toNat < s.readLen then s.len.toNat else s.readLen)).length) ≤ s.len.toNat :=
      Nat.le_trans (List.length_take_le _ _) hclip
    refine ⟨_, hread, ofNat_asSize_asInt _, ?_⟩
    rw [asInt_asSize_asInt]
    exact toNat_asInt_le (Nat.lt_of_le_of_lt hread hlt)

theorem copy_of_le {memory : Memory} {addr a : UInt32} {bytes : List UInt8}
    (h : bytes.length ≤ (a - addr).toNat) : copy memory addr bytes a = memory a :=
  List.getD_eq_default _ _ h

theorem prepare_frame (eraseSize : Nat) (s : ReadState) : (s.prepare eraseSize).memory = s.memory ∧
    (s.prepare eraseSize).data = s.data ∧ (s.prepare eraseSize).len = s.len := by
  unfold ReadState.prepare
  split
  · exact ⟨rfl, rfl, rfl⟩
  · exact ⟨rfl, rfl, rfl⟩

theorem fill_frame (s : ReadState) :
    s.fill.memory = s.memory ∧ s.fill.data = s.data ∧ s.fill.len = s.len := by
  unfold ReadState.fill
  dsimp only
  split
  · exact ⟨rfl, rfl, rfl⟩
  · exact ⟨rfl, rfl, rfl⟩

theorem round_spec (eraseSize : Nat) (s : ReadState) :
    ∃ m, m ≤ s.len.toNat ∧ UInt32.ofNat (s.prepare eraseSize).fill.readLen = .ofNat m ∧
      (s.prepare eraseSize).fill.deliver.data = s.data + .ofNat m ∧
      (s.prepare eraseSize).fill.deliver.len.toNat = s.len.toNat - m ∧
      ∀ a : UInt32, m ≤ (a - s.data).toNat ∨
        (asInt (s.prepare eraseSize).fill.readLen).toNat = 0 →
        (s.prepare eraseSize).fill.deliver.memory a = s.memory a := by
  obtain ⟨m, hm, hofNat, hcopied⟩ := fill_readLen (s.prepare eraseSize)
  obtain ⟨hmemory, hdata, hlen⟩ := prepare_frame eraseSize s
  obtain ⟨hmemory', hdata', hlen'⟩ := fill_frame (s.prepare eraseSize)
  rw [hlen] at hm
  unfold ReadState.deliver
  dsimp only
  rw [hmemory', hmemory, hdata', hdata, hlen', hlen, hofNat]
  refine ⟨m, hm, rfl, rfl, toNat_sub_ofNat hm, fun a ha => copy_of_le ?_⟩
  refine Nat.le_trans (List.length_take_le _ _) ?_
  omega

theorem toNat_sub_add {a addr : UInt32} {m : Nat} (h : m ≤ (a - addr).toNat) :
    (a - (addr + .ofNat m)).toNat = (a - addr).toNat - m := by
  have hsub : a - (addr + .ofNat m) = a - addr - .ofNat m := by grind
  rw [hsub, toNat_sub_ofNat h]

theorem readLoop_frame (h : readLoop eraseSize rounds s = some s') {a : UInt32}
    (ha : s.len.toNat ≤ (a - s.data).toNat) : s'.memory a = s.memory a := by
  induction rounds generalizing s with
  | zero => cases h
  | succ rounds ih =>
    rw [readLoop] at h
    split at h
    · exact congrArg (fun s => s.memory a) (Option.some.inj h).symm
    · obtain ⟨m, hm, -, hdata, hlen, hmemory⟩ := round_spec eraseSize s
      rw [ih h (by rw [hdata, hlen, toNat_sub_add (by omega)]; omega), hmemory a (.inl (by omega))]

theorem readLoop_skips (h : readLoop eraseSize rounds s = some s') (hlen : s.len ≠ 0)
    (hskip : (asInt (s.prepare eraseSize).fill.readLen).toNat = 0)
    (hmoved : UInt32.ofNat (s.prepare eraseSize).fill.readLen ≠ 0) :
    s'.memory s.data = s.memory s.data := by
  cases rounds with
  | zero => cases h
  | succ rounds =>
    rw [readLoop, if_neg hlen] at h
    obtain ⟨m, hm, hofNat, hdata, hrest, hmemory⟩ := round_spec eraseSize s
    have hpos : 0 < m := by
      refine Nat.pos_of_ne_zero fun h0 => hmoved ?_
      rw [hofNat, h0]
      rfl
    have hlt := s.len.toNat_lt
    have hback : (s.data - (s.data + .ofNat m)).toNat = 2 ^ 32 - m := by
      have hsub : s.data - (s.data + .ofNat m) = 0 - .ofNat m := by grind
      rw [hsub, UInt32.toNat_sub, UInt32.toNat_ofNat', UInt32.toNat_zero]
      omega
    rw [readLoop_frame h (by rw [hdata, hrest, hback]; omega), hmemory _ (.inr hskip)]

theorem ReadState.Reading.fill_readLen (h : s.Reading eraseSize) (hlen : s.len ≠ 0) :
    (s.prepare eraseSize).fill.readLen =
      asSize (asInt (min (min s.len.toNat eraseSize) (s.file.bytes.length - s.file.pos))) := by
  obtain ⟨heof, hread⟩ := h
  have hread := hread.resolve_right hlen
  have hsize : (if s.len.toNat < s.readLen then s.len.toNat else s.readLen) =
      min s.len.toNat eraseSize := by
    rw [hread]
    split <;> omega
  have hprepare : s.prepare eraseSize = s :=
    if_neg (Nat.not_lt.mpr (Nat.le_of_eq hread.symm))
  rw [hprepare, ReadState.fill, heof, hsize, if_neg Bool.false_ne_true]
  dsimp only [ByteFile.read]
  rw [List.length_take, List.length_drop]

theorem ReadState.Filling.fill_readLen (h : s.Filling eraseSize) :
    (s.prepare eraseSize).fill.readLen = min s.len.toNat eraseSize := by
  rw [h.prepare, ReadState.fill]
  dsimp only
  rw [if_pos rfl]
  dsimp only
  split <;> omega

theorem ofNat_ne_zero {n : Nat} (hpos : 0 < n) (h : n < 2 ^ 32) : UInt32.ofNat n ≠ 0 := by
  intro h0
  have hn := congrArg UInt32.toNat h0
  rw [UInt32.toNat_ofNat', Nat.mod_eq_of_lt h, UInt32.toNat_zero] at hn
  omega

theorem ReadState.Reading.skipped (h : s.Reading eraseSize) (hlen : s.len ≠ 0)
    (hloop : readLoop eraseSize rounds s = some s')
    (hpiece : 2 ^ 31 ≤ min (min s.len.toNat eraseSize) (s.file.bytes.length - s.file.pos)) :
    s'.memory s.data = s.memory s.data := by
  have hlt := s.len.toNat_lt
  have hbound : min (min s.len.toNat eraseSize) (s.file.bytes.length - s.file.pos) < 2 ^ 32 := by
    omega
  refine readLoop_skips hloop hlen ?_ ?_
  · rw [h.fill_readLen hlen, asInt_asSize_asInt]
    exact toNat_asInt_of_le hpiece hbound
  · rw [h.fill_readLen hlen, ofNat_asSize_asInt]
    exact ofNat_ne_zero (Nat.lt_of_lt_of_le (by decide) hpiece) hbound

theorem ReadState.Filling.skipped (h : s.Filling eraseSize) (hlen : s.len ≠ 0)
    (hloop : readLoop eraseSize rounds s = some s')
    (hpiece : 2 ^ 31 ≤ min s.len.toNat eraseSize) : s'.memory s.data = s.memory s.data := by
  have hlt := s.len.toNat_lt
  have hbound : min s.len.toNat eraseSize < 2 ^ 32 := by omega
  refine readLoop_skips hloop hlen ?_ ?_
  · rw [h.fill_readLen]
    exact toNat_asInt_of_le hpiece hbound
  · rw [h.fill_readLen]
    exact ofNat_ne_zero (Nat.lt_of_lt_of_le (by decide) hpiece) hbound

theorem ReadState.Reading.skipped_behind {n : Nat} (h : s.Reading eraseSize) (hlen : s.len ≠ 0)
    (hloop : readLoop eraseSize rounds s = some s')
    (hn : n = min (min s.len.toNat eraseSize) (s.file.bytes.length - s.file.pos))
    (hn31 : n < 2 ^ 31) (hpiece : 2 ^ 31 ≤ min (s.len.toNat - n) eraseSize) :
    s'.memory (s.data + .ofNat n) = s.memory (s.data + .ofNat n) := by
  have hlt := s.len.toNat_lt
  have hsub : (s.len - .ofNat n).toNat = s.len.toNat - n := toNat_sub_ofNat (by omega)
  cases rounds with
  | zero => cases hloop
  | succ rounds =>
    rw [readLoop, if_neg hlen, h.round hlen hn hn31] at hloop
    have hfilling : ReadState.Filling eraseSize
        ⟨copy s.memory s.data (s.file.span erased s.file.pos n), s.file.seek (s.file.pos + n),
          Bytes.overwrite s.buf (s.file.span erased s.file.pos n), s.data + .ofNat n,
          s.len - .ofNat n, n, false⟩ := .inl (show n < eraseSize by omega)
    have hleft : s.len - .ofNat n ≠ 0 := by
      intro h0
      rw [h0, UInt32.toNat_zero] at hsub
      omega
    have hskip := hfilling.skipped hleft hloop (by rw [hsub]; exact hpiece)
    refine hskip.trans (copy_of_le ?_)
    have hback : s.data + .ofNat n - s.data = .ofNat n := by grind
    rw [ByteFile.length_span, hback, UInt32.toNat_ofNat']
    omega

end Frame

theorem copy_at {memory : Memory} {addr : UInt32} {bytes : List UInt8} {i : Nat}
    (hi : i < bytes.length) (hlength : bytes.length ≤ 2 ^ 32) :
    copy memory addr bytes (addr + .ofNat i) = bytes[i] := by
  have hsub : addr + .ofNat i - addr = .ofNat i := by grind
  have hoff : (UInt32.ofNat i).toNat = i := by
    rw [UInt32.toNat_ofNat', Nat.mod_eq_of_lt (by omega)]
  rw [copy, hsub, hoff, List.getD_eq_getElem _ _ hi]

theorem bytes_doLseek (file : ByteFile) (addr : Nat) :
    (doLseek file addr).bytes = file.bytes := by
  unfold doLseek
  split
  · rfl
  · rfl

theorem span_doLseek (file : ByteFile) (addr start len : Nat) :
    (doLseek file addr).span erased start len = file.span erased start len := by
  unfold doLseek
  split
  · rfl
  · rfl

theorem readable_eq (file : ByteFile) (addr : Nat) :
    readable file addr = (doLseek file addr).bytes.length - (doLseek file addr).pos := by
  rw [bytes_doLseek]
  rfl

section Delivery

variable {dev : NandDev} {file : ByteFile} {data totalLen : UInt32} {addr : Nat}

def readInit (dev : NandDev) (file : ByteFile) (memory : Memory) (data : UInt32) (addr : Nat)
    (totalLen : UInt32) : ReadState :=
  ⟨memory, doLseek file addr, dev.data, data, totalLen, dev.eraseSize.toNat, false⟩

theorem reading_readInit (memory : Memory) :
    (readInit dev file memory data addr totalLen).Reading dev.eraseSize.toNat := ⟨rfl, .inl rfl⟩

theorem nandDevReadFile_eq_some {memory : Memory} {out : Outcome}
    (h : nandDevReadFile dev file memory data addr totalLen = some out) :
    ∃ s, readLoop dev.eraseSize.toNat (totalLen.toNat + 2)
      (readInit dev file memory data addr totalLen) = some s ∧ out.memory = s.memory := by
  obtain ⟨s, hs, rfl⟩ := Option.map_eq_some_iff.mp h
  exact ⟨s, hs, rfl⟩

theorem read_of_smallPieces (h : SmallPieces dev file addr totalLen) (memory : Memory) :
    ∃ out, nandDevReadFile dev file memory data addr totalLen = some out ∧ out.result = totalLen ∧
      out.memory = copy memory data (file.span erased (readStart file addr) totalLen.toNat) := by
  have hloop : ∃ s, readLoop dev.eraseSize.toNat (totalLen.toNat + 2)
      (readInit dev file memory data addr totalLen) = some s ∧
        s.memory = copy memory data (file.span erased (readStart file addr) totalLen.toNat) := by
    by_cases hsmall : min totalLen.toNat dev.eraseSize.toNat < 2 ^ 31
    · obtain ⟨s, hs, -, hmemory⟩ := readLoop_reading dev.eraseSize_pos (totalLen.toNat + 2)
        (reading_readInit memory) (Nat.lt_succ_self _) hsmall
      exact ⟨s, hs, hmemory.trans (by rw [← span_doLseek file addr]; rfl)⟩
    · obtain ⟨hread, hrest⟩ := h.resolve_left hsmall
      have hlen : totalLen ≠ 0 := by
        rintro rfl
        rw [UInt32.toNat_zero] at hsmall
        omega
      have hreadable := readable_eq file addr
      have hn : readable file addr = min (min totalLen.toNat dev.eraseSize.toNat)
          ((doLseek file addr).bytes.length - (doLseek file addr).pos) := by omega
      have hless : readable file addr < min totalLen.toNat dev.eraseSize.toNat := by omega
      have hchunk : min (totalLen.toNat - readable file addr) dev.eraseSize.toNat < 2 ^ 31 :=
        Nat.lt_of_le_of_lt (Nat.min_le_left _ _) hrest
      obtain ⟨s, hs, -, hmemory⟩ := (reading_readInit memory).short dev.eraseSize_pos hlen hn hread
        hless (Nat.lt_succ_self totalLen.toNat) hchunk
      exact ⟨s, hs, hmemory.trans (by rw [← span_doLseek file addr]; rfl)⟩
  obtain ⟨s, hs, hmemory⟩ := hloop
  exact ⟨⟨totalLen, { dev with data := s.buf, fd := some s.file }, s.memory⟩,
    Option.map_eq_some_iff.mpr ⟨s, hs, rfl⟩, rfl, hmemory⟩

variable (data) in
/-- A piece that is too long leaves a place as it was, the same whatever stood there. -/
theorem skipped_of_largePiece (h : ¬SmallPieces dev file addr totalLen) :
    ∃ i, i < totalLen.toNat ∧ ∀ memory out,
      nandDevReadFile dev file memory data addr totalLen = some out →
        out.memory (data + .ofNat i) = memory (data + .ofNat i) := by
  have hlt := totalLen.toNat_lt
  have he := dev.eraseSize.toNat_lt
  have hreadable := readable_eq file addr
  obtain ⟨hmin, hrest⟩ := not_or.mp h
  have hlen : totalLen ≠ 0 := by
    rintro rfl
    rw [UInt32.toNat_zero] at hmin
    omega
  by_cases hread : readable file addr < 2 ^ 31
  · -- the file ends in the first piece, and the next one is too long
    have hn : readable file addr = min (min totalLen.toNat dev.eraseSize.toNat)
        ((doLseek file addr).bytes.length - (doLseek file addr).pos) := by omega
    refine ⟨readable file addr, by omega, fun memory out hout => ?_⟩
    obtain ⟨s, hs, hmemory⟩ := nandDevReadFile_eq_some hout
    rw [hmemory]
    exact (reading_readInit memory).skipped_behind hlen hs hn hread (by
      change 2 ^ 31 ≤ min (totalLen.toNat - _) _
      omega)
  · refine ⟨0, by omega, fun memory out hout => ?_⟩
    obtain ⟨s, hs, hmemory⟩ := nandDevReadFile_eq_some hout
    have hpiece : 2 ^ 31 ≤ min (min totalLen.toNat dev.eraseSize.toNat)
        ((doLseek file addr).bytes.length - (doLseek file addr).pos) := by omega
    have hzero : data + .ofNat 0 = data := UInt32.add_zero data
    rw [hmemory, hzero]
    exact (reading_readInit memory).skipped hlen hs hpiece

theorem Delivers.smallPieces (h : Delivers dev file data addr totalLen) :
    SmallPieces dev file addr totalLen := by
  by_contra hlarge
  have hlt := totalLen.toNat_lt
  obtain ⟨i, hi, hskip⟩ := skipped_of_largePiece data hlarge
  have hin : i < (file.span erased addr totalLen.toNat).length := by
    rwa [ByteFile.length_span]
  obtain ⟨out, hout, -, hmemory⟩ := h fun _ => (file.span erased addr totalLen.toNat)[i] + 1
  have hat := hskip _ out hout
  rw [hmemory, copy_at hin (by rw [ByteFile.length_span]; omega)] at hat
  generalize (file.span erased addr totalLen.toNat)[i] = byte at hat
  grind

/-- The guest gets the file with erased bytes behind its end, exactly when no piece is too long
and the bytes from where the file is read are those from `addr` on. -/
theorem nandDevReadFile_delivers_iff : Delivers dev file data addr totalLen ↔
    SmallPieces dev file addr totalLen ∧
      file.span erased (readStart file addr) totalLen.toNat =
        file.span erased addr totalLen.toNat := by
  have hlt := totalLen.toNat_lt
  constructor
  · intro h
    refine ⟨h.smallPieces, List.ext_getElem (by simp) fun i hi hi' => ?_⟩
    obtain ⟨out, hout, -, hmemory⟩ := h fun _ => 0
    obtain ⟨out', hout', -, hmemory'⟩ := read_of_smallPieces h.smallPieces fun _ => 0
    obtain rfl := Option.some.inj (hout.symm.trans hout')
    have hat := congrFun (hmemory'.symm.trans hmemory) (data + .ofNat i)
    rwa [copy_at hi (by rw [ByteFile.length_span]; omega),
      copy_at hi' (by rw [ByteFile.length_span]; omega)] at hat
  · rintro ⟨hsmall, hspan⟩ memory
    rw [← hspan]
    exact read_of_smallPieces hsmall memory

/-- A device whose one piece is too long for an `int`. -/
def largePiece : NandDev where
  devname := []
  data := List.replicate 2147483648 0
  fd := some ⟨[], 0⟩
  flags := 0
  eraseSize := 2147483648
  maxSize := 2147483648
  eraseSize_pos := by decide

/-- Of an empty file the guest gets nothing at all. -/
theorem largePiece_not_delivers : ¬Delivers largePiece ⟨[], 0⟩ 0 0 2147483648 := by
  intro h
  have hsmall := h.smallPieces
  revert hsmall
  decide

end Delivery

end M2M.Nand
