import M2M.Nand.Device

/-! What the read and write loops of a device with a file do: `goldfish_nand.c`. -/

namespace M2M.Nand

open M2M.Lib

/-- What is read behind the end of a file. -/
def erased : UInt8 := 0xff

section Reading

variable {eraseSize : Nat} {s : ReadState}

/-- The file has ended, or the next round will find that it has. -/
def ReadState.Filling (eraseSize : Nat) (s : ReadState) : Prop :=
  s.readLen < eraseSize ∨
    s.eof = true ∧ s.buf = List.replicate eraseSize erased ∧ s.readLen = eraseSize

theorem ReadState.Filling.prepare (h : s.Filling eraseSize) : s.prepare eraseSize =
    { s with buf := List.replicate eraseSize erased, readLen := eraseSize, eof := true } := by
  unfold ReadState.prepare
  cases h with
  | inl hlt => exact if_pos hlt
  | inr h =>
    obtain ⟨heof, hbuf, hlen⟩ := h
    rw [if_neg (Nat.not_lt.mpr (Nat.le_of_eq hlen.symm)), ← heof, ← hbuf, ← hlen]

theorem readLoop_filling (he : 0 < eraseSize) (rounds : Nat) (h : s.Filling eraseSize)
    (hrounds : s.len.toNat < rounds) (hchunk : min s.len.toNat eraseSize < 2 ^ 31) :
    ∃ s', readLoop eraseSize rounds s = some s' ∧ s'.file = s.file ∧
      s'.memory = copy s.memory s.data (List.replicate s.len.toNat erased) := by
  induction rounds generalizing s with
  | zero => exact absurd hrounds (Nat.not_lt_zero _)
  | succ rounds ih =>
    unfold readLoop
    by_cases hlen : s.len = 0
    · rw [if_pos hlen]
      refine ⟨s, rfl, rfl, ?_⟩
      rw [hlen]
      rfl
    · have hpos : 0 < s.len.toNat := by
        apply Nat.pos_of_ne_zero
        exact fun h0 => hlen (UInt32.toNat_inj.mp h0)
      have hn : (if s.len.toNat < eraseSize then s.len.toNat else eraseSize) =
          min s.len.toNat eraseSize := by
        split <;> omega
      rw [if_neg hlen, h.prepare]
      unfold ReadState.fill ReadState.deliver
      dsimp only
      rw [if_pos rfl]
      dsimp only
      rw [hn]
      generalize hmin : min s.len.toNat eraseSize = n at hchunk ⊢
      have hsub : (s.len - .ofNat n).toNat = s.len.toNat - n := toNat_sub_ofNat (by omega)
      obtain ⟨s', hs', hfile, hmemory⟩ := ih (s := ⟨toGuest s.memory s.data
        (List.replicate eraseSize erased) n, s.file, List.replicate eraseSize erased,
        s.data + .ofNat n, s.len - .ofNat n, n, true⟩)
        (by
          by_cases hlt : n < eraseSize
          · exact .inl hlt
          · exact .inr ⟨rfl, rfl, show n = eraseSize by omega⟩)
        (by dsimp only; omega) (by dsimp only; omega)
      refine ⟨s', hs', hfile, ?_⟩
      have hbuf : (List.replicate eraseSize erased).take n = List.replicate n erased := by
        rw [List.take_replicate, Nat.min_eq_left (by omega)]
      have hfront := copy_append s.memory s.data (List.replicate n erased)
        (List.replicate (s.len.toNat - n) erased)
        (by rw [List.length_replicate, List.length_replicate]; have := s.len.toNat_lt; omega)
      rw [List.replicate_append_replicate, Nat.add_sub_cancel' (by omega),
        List.length_replicate] at hfront
      rw [hmemory, hfront]
      dsimp only
      unfold toGuest
      rw [asInt_of_lt hchunk, Int.toNat_natCast, hbuf, hsub]

def ReadState.Reading (eraseSize : Nat) (s : ReadState) : Prop :=
  s.eof = false ∧ (s.readLen = eraseSize ∨ s.len = 0)

theorem ReadState.Reading.round (h : s.Reading eraseSize) (hlen : s.len ≠ 0) {n : Nat}
    (hn : n = min (min s.len.toNat eraseSize) (s.file.bytes.length - s.file.pos))
    (hn31 : n < 2 ^ 31) :
    (s.prepare eraseSize).fill.deliver =
      ⟨copy s.memory s.data (s.file.span erased s.file.pos n), s.file.seek (s.file.pos + n),
        Bytes.overwrite s.buf (s.file.span erased s.file.pos n), s.data + .ofNat n,
        s.len - .ofNat n, n, false⟩ := by
  obtain ⟨heof, hread⟩ := h
  have hread := hread.resolve_right hlen
  have hsize : (if s.len.toNat < s.readLen then s.len.toNat else s.readLen) =
      min s.len.toNat eraseSize := by
    rw [hread]
    split <;> omega
  have hprepare : s.prepare eraseSize = s :=
    if_neg (Nat.not_lt.mpr (Nat.le_of_eq hread.symm))
  have hbytes := s.file.read_eq_span erased (min s.len.toNat eraseSize)
  have hfile : (s.file.read (min s.len.toNat eraseSize)).2 = s.file.seek (s.file.pos + n) := by
    unfold ByteFile.read ByteFile.seek
    dsimp only
    rw [List.length_take, List.length_drop, hn]
  have htake : (Bytes.overwrite s.buf (s.file.span erased s.file.pos n)).take n =
      s.file.span erased s.file.pos n :=
    List.take_left' (s.file.length_span erased s.file.pos n)
  rw [hprepare]
  unfold ReadState.fill ReadState.deliver
  dsimp only
  rw [heof, hsize, if_neg Bool.false_ne_true]
  dsimp only
  rw [hbytes, hfile, ← hn, ByteFile.length_span, asSize_asInt hn31]
  unfold toGuest
  rw [asInt_of_lt hn31, Int.toNat_natCast, htake]

theorem ReadState.Reading.short (he : 0 < eraseSize) {rounds n : Nat} (h : s.Reading eraseSize)
    (hlen : s.len ≠ 0)
    (hn : n = min (min s.len.toNat eraseSize) (s.file.bytes.length - s.file.pos))
    (hn31 : n < 2 ^ 31) (hshort : n < min s.len.toNat eraseSize)
    (hrounds : s.len.toNat < rounds) (hchunk : min (s.len.toNat - n) eraseSize < 2 ^ 31) :
    ∃ s', readLoop eraseSize (rounds + 1) s = some s' ∧ s'.file.bytes = s.file.bytes ∧
      s'.memory = copy s.memory s.data (s.file.span erased s.file.pos s.len.toNat) := by
  have hlt := s.len.toNat_lt
  have hsub : (s.len - .ofNat n).toNat = s.len.toNat - n := toNat_sub_ofNat (by omega)
  have hspan := copy_append s.memory s.data (s.file.span erased s.file.pos n)
    (s.file.span erased (s.file.pos + n) (s.len.toNat - n))
    (by rw [ByteFile.length_span, ByteFile.length_span]; omega)
  rw [← ByteFile.span_add, Nat.add_sub_cancel' (by omega), ByteFile.length_span] at hspan
  obtain ⟨s', hs', hsfile, hmemory⟩ := readLoop_filling he rounds
    (s := ⟨copy s.memory s.data (s.file.span erased s.file.pos n),
      s.file.seek (s.file.pos + n), Bytes.overwrite s.buf (s.file.span erased s.file.pos n),
      s.data + .ofNat n, s.len - .ofNat n, n, false⟩)
    (.inl (show n < eraseSize by omega)) (by dsimp only; omega) (by dsimp only; omega)
  have hrest := s.file.span_of_le erased
    (show s.file.bytes.length ≤ s.file.pos + n by omega) (s.len.toNat - n)
  refine ⟨s', ?_, (congrArg ByteFile.bytes hsfile).trans rfl, ?_⟩
  · rw [readLoop, if_neg hlen, h.round hlen hn hn31]
    exact hs'
  · rw [hmemory, hspan, hrest]
    dsimp only
    rw [hsub]

theorem readLoop_reading (he : 0 < eraseSize) (rounds : Nat) (h : s.Reading eraseSize)
    (hrounds : s.len.toNat + 1 < rounds) (hchunk : min s.len.toNat eraseSize < 2 ^ 31) :
    ∃ s', readLoop eraseSize rounds s = some s' ∧ s'.file.bytes = s.file.bytes ∧
      s'.memory = copy s.memory s.data (s.file.span erased s.file.pos s.len.toNat) := by
  induction rounds generalizing s with
  | zero => exact absurd hrounds (Nat.not_lt_zero _)
  | succ rounds ih =>
    by_cases hlen : s.len = 0
    · rw [readLoop, if_pos hlen]
      refine ⟨s, rfl, rfl, ?_⟩
      rw [hlen]
      rfl
    · have hpos : 0 < s.len.toNat := by
        apply Nat.pos_of_ne_zero
        exact fun h0 => hlen (UInt32.toNat_inj.mp h0)
      have hlt := s.len.toNat_lt
      obtain ⟨n, hn⟩ :
          ∃ n, n = min (min s.len.toNat eraseSize) (s.file.bytes.length - s.file.pos) := ⟨_, rfl⟩
      by_cases hshort : n < min s.len.toNat eraseSize
      · exact h.short he hlen hn (by omega) hshort (by omega) (by omega)
      · have hfull : n = min s.len.toNat eraseSize := by omega
        have hsub : (s.len - .ofNat n).toNat = s.len.toNat - n := toNat_sub_ofNat (by omega)
        have hspan := copy_append s.memory s.data (s.file.span erased s.file.pos n)
          (s.file.span erased (s.file.pos + n) (s.len.toNat - n))
          (by rw [ByteFile.length_span, ByteFile.length_span]; omega)
        rw [← ByteFile.span_add, Nat.add_sub_cancel' (by omega), ByteFile.length_span] at hspan
        obtain ⟨s', hs', hsfile, hmemory⟩ := ih
          (s := ⟨copy s.memory s.data (s.file.span erased s.file.pos n),
            s.file.seek (s.file.pos + n), Bytes.overwrite s.buf (s.file.span erased s.file.pos n),
            s.data + .ofNat n, s.len - .ofNat n, n, false⟩)
          ⟨rfl, by
            by_cases hle : eraseSize ≤ s.len.toNat
            · exact .inl (show n = eraseSize by omega)
            · exact .inr (UInt32.toNat_inj.mp (hsub.trans (by rw [UInt32.toNat_zero]; omega)))⟩
          (by dsimp only; omega) (by dsimp only; omega)
        refine ⟨s', ?_, hsfile, ?_⟩
        · rw [readLoop, if_neg hlen, h.round hlen hn (by omega)]
          exact hs'
        · rw [hmemory, hspan]
          dsimp only
          rw [hsub]
          rfl

end Reading

section Writing

variable {eraseSize : Nat} {s : WriteState}

theorem writeLoop_spec (load : WriteState → List UInt8) (bytes : UInt32 → Nat → List UInt8)
    (good : List UInt8 → Prop) (limit rounds : Nat) (he : 0 < eraseSize)
    (hnil : ∀ addr, bytes addr 0 = [])
    (hadd : ∀ addr n m, bytes addr (n + m) = bytes addr n ++ bytes (addr + .ofNat n) m)
    (hload : ∀ s : WriteState, good s.buf → s.writeLen ≤ limit →
      (load s).take s.writeLen = bytes s.data s.writeLen ∧ good (load s))
    (hgood : good s.buf) (hlimit : min s.len.toNat eraseSize ≤ limit)
    (hwrite : s.writeLen = eraseSize ∨ s.len = 0) (hrounds : s.len.toNat < rounds) :
    ∃ s', writeLoop load rounds s = some s' ∧ s'.len = 0 ∧
      s'.file = s.file.write (bytes s.data s.len.toNat) := by
  induction rounds generalizing s with
  | zero => exact absurd hrounds (Nat.not_lt_zero _)
  | succ rounds ih =>
    unfold writeLoop
    by_cases hlen : s.len = 0
    · rw [if_pos hlen]
      refine ⟨s, rfl, hlen, ?_⟩
      rw [hlen, UInt32.toNat_zero, hnil, ByteFile.write_nil]
    · have hwrite := hwrite.resolve_right hlen
      have hpos : 0 < s.len.toNat := by
        apply Nat.pos_of_ne_zero
        exact fun h0 => hlen (UInt32.toNat_inj.mp h0)
      have hlt := s.len.toNat_lt
      have hsize : (if s.len.toNat < s.writeLen then s.len.toNat else s.writeLen) =
          min s.len.toNat eraseSize := by
        rw [hwrite]
        split <;> omega
      rw [if_neg hlen]
      dsimp only
      rw [hsize]
      generalize hmin : min s.len.toNat eraseSize = n at hlimit ⊢
      obtain ⟨htake, hgood'⟩ := hload { s with writeLen := n } hgood hlimit
      unfold WriteState.put WriteState.advance
      dsimp only at htake ⊢
      rw [if_neg (Nat.not_lt.mpr (le_asSize_asInt (by omega))), htake]
      have hsub : (s.len - .ofNat n).toNat = s.len.toNat - n := toNat_sub_ofNat (by omega)
      obtain ⟨s', hs', hzero, hfile⟩ := ih
        (s := ⟨s.file.write (bytes s.data n), load { s with writeLen := n }, s.data + .ofNat n,
          s.len - .ofNat n, n⟩) hgood' (by dsimp only; omega)
        (by
          by_cases hle : eraseSize ≤ s.len.toNat
          · exact .inl (show n = eraseSize by omega)
          · exact .inr (UInt32.toNat_inj.mp (hsub.trans (by rw [UInt32.toNat_zero]; omega))))
        (by dsimp only; omega)
      refine ⟨s', hs', hzero, ?_⟩
      rw [hfile]
      dsimp only
      rw [hsub, ← ByteFile.write_append, ← hadd, Nat.add_sub_cancel' (by omega)]

end Writing

end M2M.Nand
