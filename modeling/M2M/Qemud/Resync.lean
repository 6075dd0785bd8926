import M2M.Qemud.Packets

/-! The serial port after a bad packet.  Packets with a bad header and empty packets are passed
over, but a packet that is too large is the last one that the port reads. -/

open M2M.Lib

namespace M2M.Qemud

/-- A packet as it stands in the stream, with any header. -/
structure SerialPacket where
  header : List UInt8
  payload : List UInt8
  length_header : header.length = headerSize

namespace SerialPacket

open QemudSerial

variable (version : QemudVersion) (p : SerialPacket)

def bytes : List UInt8 := p.header ++ p.payload

def Garbled : Prop := announced version p.header < 0 ∨ addressed version p.header < 0

def Oversized : Prop := ¬p.Garbled version ∧ (maxSerialPayload : Int) < announced version p.header

def WellFormed : Prop :=
  ¬p.Garbled version ∧ 0 < announced version p.header ∧
    announced version p.header ≤ maxSerialPayload

instance : Decidable (p.Garbled version) := inferInstanceAs (Decidable (_ ∨ _))

instance : Decidable (p.Oversized version) := inferInstanceAs (Decidable (_ ∧ _))

instance : Decidable (p.WellFormed version) := inferInstanceAs (Decidable (_ ∧ _ ∧ _))

/-- The payload has the size that the header announces, if it can be read. -/
def Complete : Prop :=
  ¬p.Garbled version → (p.payload.length : Int) = announced version p.header

/-- No bytes stand behind a header that cannot be read. -/
def Alone : Prop := p.Garbled version → p.payload = []

def wellFormed (ps : List SerialPacket) : List (Int × List UInt8) :=
  (ps.filter fun p => p.WellFormed version).map fun p => (addressed version p.header, p.payload)

/-- What is delivered before the port goes deaf. -/
def heard : List SerialPacket → List (Int × List UInt8)
  | [] => []
  | p :: ps =>
    if p.Oversized version then []
    else if p.WellFormed version then (addressed version p.header, p.payload) :: heard ps
    else heard ps

/-- No well-formed packet stands behind one that is too large. -/
def LargeLast (ps : List SerialPacket) : Prop :=
  ps.Pairwise fun p p' => p.Oversized version → ¬p'.WellFormed version

variable {version p} {ps : List SerialPacket}

theorem not_wellFormed_of_oversized (h : p.Oversized version) : ¬p.WellFormed version :=
  fun hgood => Int.not_lt.mpr hgood.2.2 h.2

theorem passed_over (hcomplete : p.Complete version) (halone : p.Alone version)
    (hlarge : ¬p.Oversized version) (hgood : ¬p.WellFormed version) :
    (announced version p.header ≤ 0 ∨ addressed version p.header < 0) ∧ p.payload = [] := by
  by_cases hgarbled : p.Garbled version
  · exact ⟨hgarbled.imp Int.le_of_lt id, halone hgarbled⟩
  · have hle : announced version p.header ≤ maxSerialPayload :=
      Int.not_lt.mp fun h => hlarge ⟨hgarbled, h⟩
    have hzero : announced version p.header ≤ 0 :=
      Int.not_lt.mp fun h => hgood ⟨hgarbled, h, hle⟩
    have hlength := hcomplete hgarbled
    exact ⟨.inl hzero, List.length_eq_zero_iff.mp (by omega)⟩

theorem wellFormed_cons (ps : List SerialPacket) : wellFormed version (p :: ps) =
    if p.WellFormed version then (addressed version p.header, p.payload) :: wellFormed version ps
    else wellFormed version ps := by
  rw [wellFormed, List.filter_cons]
  by_cases h : p.WellFormed version
  · simp only [h, decide_true, if_true]
    rfl
  · simp only [h, decide_false, if_false]
    rfl

theorem wellFormed_eq_nil : wellFormed version ps = [] ↔ ∀ p ∈ ps, ¬p.WellFormed version := by
  rw [wellFormed, List.map_eq_nil_iff, List.filter_eq_nil_iff]
  simp only [decide_eq_true_eq]

theorem heard_eq_wellFormed : heard version ps = wellFormed version ps ↔ LargeLast version ps := by
  rw [LargeLast]
  induction ps with
  | nil => exact iff_of_true rfl .nil
  | cons p ps ih =>
    rw [heard, wellFormed_cons, List.pairwise_cons]
    by_cases hlarge : p.Oversized version
    · rw [if_pos hlarge, if_neg (not_wellFormed_of_oversized hlarge), eq_comm, wellFormed_eq_nil]
      refine ⟨fun h => ⟨fun p' hp' _ => h p' hp', ?_⟩, fun h p' hp' => h.1 p' hp' hlarge⟩
      exact List.pairwise_of_forall_mem_list fun _ _ p' hp' _ => h p' hp'
    · have hhead : (∀ p' ∈ ps, p.Oversized version → ¬p'.WellFormed version) :=
        fun _ _ h => absurd h hlarge
      rw [if_neg hlarge, and_iff_right hhead, ← ih]
      split
      · rw [List.cons.injEq, and_iff_right rfl]
      · rfl

end SerialPacket

namespace Receiver

variable {σ : Type} (r : Receiver σ)

def logged : Receiver (σ × List (Int × List UInt8)) where
  serial s := r.serial s.1
  setSerial q s := (r.setSerial q s.1, s.2)
  recvFunc channel msg s := (r.recvFunc channel msg s.1).map fun s' => (s', s.2 ++ [(channel, msg)])
  serial_setSerial q s := r.serial_setSerial q s.1
  setSerial_setSerial q q' s := by rw [r.setSerial_setSerial]
  setSerial_serial s := by rw [r.setSerial_serial]
  sameReading channel msg s s' h := by
    obtain ⟨s₁, hrecv, rfl⟩ := Option.map_eq_some_iff.mp h
    exact r.sameReading channel msg s.1 s₁ hrecv

/-- The receiver returns, and leaves a version that was found out. -/
def Answers : Prop :=
  ∀ channel msg s, (r.serial s).version ≠ .unknown →
    ∃ s', r.recvFunc channel msg s = some s' ∧ (r.serial s').version = (r.serial s).version

/-- However the packets are cut into chunks, the well-formed ones are delivered, and no others. -/
def Resynchronises (s : σ) (ps : List SerialPacket) : Prop :=
  ∀ chunks : List (List UInt8), chunks.flatten = ps.flatMap SerialPacket.bytes →
    ∃ s', chunks.foldlM r.logged.serialRead (s, []) =
      some (s', SerialPacket.wellFormed (r.serial s).version ps)

variable {r} {s : σ} {q : QemudSerial} {p : SerialPacket} {version : QemudVersion}
  (log : List (Int × List UInt8))

/-- The port is between two packets, and knows the version. -/
structure Ready (r : Receiver σ) (version : QemudVersion) (s : σ) : Prop where
  idle : (r.serial s).Idle
  version : (r.serial s).version = version

theorem setSerial_logged (s : σ) :
    r.logged.setSerial (r.serial s) (s, log) = (s, log) :=
  r.logged.setSerial_serial (s, log)

theorem foldlM_header_logged (hs : r.Ready version s) {header : List UInt8}
    (hlength : header.length = headerSize) : header.foldlM r.logged.readByte (s, log) =
      some (r.setSerial ((r.serial s).fillHeader header).afterHeader s, log) := by
  have hfull : (r.serial s).header.used + header.length = (r.serial s).header.size := by
    rw [hs.idle.headerEmpty, hlength, hs.idle.headerSize, Nat.zero_add]
  have hread := r.logged.foldlM_fullHeader hs.idle.toValid hs.idle.overflow hs.idle.needHeader hfull
    (List.ne_nil_of_length_eq_add_one hlength) (s := (s, log))
  rwa [setSerial_logged] at hread

theorem passes_badHeader (hs : r.Ready version s) (hversion : version ≠ .unknown)
    (hlength : p.header.length = headerSize)
    (hbad : QemudSerial.announced version p.header ≤ 0 ∨
      QemudSerial.addressed version p.header < 0) :
    ∃ s', p.header.foldlM r.logged.readByte (s, log) = some (s', log) ∧ r.Ready version s' := by
  obtain rfl := hs.version
  have hparse := QemudSerial.parseHeader_eq hlength hs.idle hversion
  have hafter : ((r.serial s).fillHeader p.header).afterHeader =
      ((r.serial s).fillHeader p.header).parseHeader := by
    rw [QemudSerial.afterHeader, hparse]
    exact if_pos hbad
  have hfull : (r.serial s).header.used + p.header.length = (r.serial s).header.size := by
    rw [hs.idle.headerEmpty, hlength, hs.idle.headerSize, Nat.zero_add]
  have hvalid := hs.idle.fullHeader hs.idle.needHeader hfull.le
  refine ⟨_, foldlM_header_logged log hs hlength, ⟨?_, ?_, ?_, ?_⟩, ?_⟩
  · rwa [r.serial_setSerial]
  · rw [r.serial_setSerial, hafter, hparse]
    exact hs.idle.needHeader
  · rw [r.serial_setSerial, hafter, hparse]
    exact hs.idle.overflow
  · rw [r.serial_setSerial, hafter, hparse]
    exact hs.idle.headerEmpty
  · rw [r.serial_setSerial, hafter, hparse]

theorem deaf_oversized (hs : r.Ready version s) (hversion : version ≠ .unknown)
    (hlarge : p.Oversized version) : ∃ s', ∀ rest,
      (p.header ++ rest).foldlM r.logged.readByte (s, log) = some (s', log) := by
  obtain rfl := hs.version
  have hgood : ¬(QemudSerial.announced (r.serial s).version p.header ≤ 0 ∨
      QemudSerial.addressed (r.serial s).version p.header < 0) := by
    rintro (hsize | hchannel)
    · exact absurd hlarge.2 (Int.not_lt.mpr (hsize.trans (Int.natCast_nonneg _)))
    · exact hlarge.1 (.inr hchannel)
  refine ⟨r.setSerial ((r.serial s).fillHeader p.header).afterHeader s, fun rest => ?_⟩
  rw [List.foldlM_append, foldlM_header_logged log hs p.length_header]
  refine r.logged.foldlM_overflow ?_ rest
  change 0 < (r.serial (r.setSerial _ s)).overflow
  rw [r.serial_setSerial, QemudSerial.afterHeader,
    QemudSerial.parseHeader_eq p.length_header hs.idle hversion]
  dsimp only
  rw [if_neg hgood, if_pos hlarge.2]
  exact Int.lt_of_le_of_lt (Int.natCast_nonneg _) hlarge.2

theorem delivers_wellFormed (hanswers : r.Answers) (hs : r.Ready version s)
    (hversion : version ≠ .unknown) (hcomplete : p.Complete version)
    (hgood : p.WellFormed version) :
    ∃ s', p.bytes.foldlM r.logged.readByte (s, log) =
      some (s', log ++ [(QemudSerial.addressed version p.header, p.payload)]) ∧
        r.Ready version s' := by
  obtain rfl := hs.version
  have hannounced := (hcomplete hgood.1).symm
  have hpos : p.payload ≠ [] := by
    intro hnil
    rw [hnil] at hannounced
    exact hgood.2.1.ne' hannounced
  have hsize : p.payload.length ≤ maxSerialPayload := Int.ofNat_le.mp (hannounced ▸ hgood.2.2)
  have hchannel : 0 ≤ QemudSerial.addressed (r.serial s).version p.header :=
    Int.not_lt.mp fun h => hgood.1 (.inr h)
  obtain ⟨q, -, hq, hread, hidle⟩ := r.logged.foldlM_goodHeader (s := (s, log)) hs.idle hversion
    p.length_header hchannel hannounced hpos hsize
  obtain ⟨s', hs', hv⟩ := hanswers (QemudSerial.addressed (r.serial s).version p.header) p.payload
    (r.setSerial q s) (by rw [r.serial_setSerial, hq]; exact hversion)
  rw [r.serial_setSerial] at hv
  have hrecv : r.logged.recvFunc (QemudSerial.addressed (r.serial s).version p.header) p.payload
      (r.logged.setSerial q (s, log)) =
        some (s', log ++ [(QemudSerial.addressed (r.serial s).version p.header, p.payload)]) :=
    congrArg (Option.map _) hs'
  refine ⟨r.done s', ?_, hidle _ hrecv, ?_⟩
  · rw [SerialPacket.bytes, hread]
    exact congrArg (Option.map _) hrecv
  · rw [done, r.serial_setSerial]
    exact hv.trans hq

theorem reads_packets (hanswers : r.Answers) (hs : r.Ready version s)
    (hversion : version ≠ .unknown) {ps : List SerialPacket}
    (hcomplete : ∀ p ∈ ps, p.Complete version) (halone : ∀ p ∈ ps, p.Alone version) :
    ∃ s', (ps.flatMap SerialPacket.bytes).foldlM r.logged.readByte (s, log) =
      some (s', log ++ SerialPacket.heard version ps) := by
  induction ps generalizing s log with
  | nil => exact ⟨s, by rw [SerialPacket.heard, List.append_nil]; rfl⟩
  | cons p ps ih =>
    rw [List.forall_mem_cons] at hcomplete halone
    rw [List.flatMap_cons, SerialPacket.heard]
    by_cases hlarge : p.Oversized version
    · obtain ⟨s', hdeaf⟩ := deaf_oversized log hs hversion hlarge
      refine ⟨s', ?_⟩
      rw [if_pos hlarge, List.append_nil, SerialPacket.bytes, List.append_assoc]
      exact hdeaf _
    · rw [if_neg hlarge, List.foldlM_append]
      by_cases hgood : p.WellFormed version
      · obtain ⟨s₁, hread, hs₁⟩ :=
          delivers_wellFormed log hanswers hs hversion hcomplete.1 hgood
        obtain ⟨s', hrest⟩ := ih (log ++ [(QemudSerial.addressed version p.header, p.payload)])
          hs₁ hcomplete.2 halone.2
        refine ⟨s', ?_⟩
        rw [if_pos hgood, hread]
        rw [List.append_assoc] at hrest
        exact hrest
      · obtain ⟨hbad, hpayload⟩ := SerialPacket.passed_over hcomplete.1 halone.1 hlarge hgood
        obtain ⟨s₁, hread, hs₁⟩ :=
          passes_badHeader log hs hversion p.length_header hbad
        obtain ⟨s', hrest⟩ := ih log hs₁ hcomplete.2 halone.2
        refine ⟨s', ?_⟩
        rw [if_neg hgood, SerialPacket.bytes, hpayload, List.append_nil, hread]
        exact hrest

theorem resynchronises_iff_heard (hanswers : r.Answers) (hidle : (r.serial s).Idle)
    (hversion : (r.serial s).version ≠ .unknown) {ps : List SerialPacket}
    (hcomplete : ∀ p ∈ ps, p.Complete (r.serial s).version)
    (halone : ∀ p ∈ ps, p.Alone (r.serial s).version) : r.Resynchronises s ps ↔
      SerialPacket.heard (r.serial s).version ps =
        SerialPacket.wellFormed (r.serial s).version ps := by
  obtain ⟨s', hread⟩ := reads_packets [] hanswers ⟨hidle, rfl⟩ hversion hcomplete halone
  rw [List.nil_append] at hread
  have hchunks : ∀ chunks : List (List UInt8), chunks.flatten = ps.flatMap SerialPacket.bytes →
      chunks.foldlM r.logged.serialRead (s, []) =
        some (s', SerialPacket.heard (r.serial s).version ps) := by
    intro chunks hflatten
    rw [r.logged.serialRead_chunks (s := (s, [])) hidle.toValid, hflatten, hread]
  constructor
  · intro h
    obtain ⟨s₁, hs₁⟩ := h [ps.flatMap SerialPacket.bytes] (List.flatten_singleton ..)
    rw [hchunks _ (List.flatten_singleton ..)] at hs₁
    exact congrArg Prod.snd (Option.some.inj hs₁)
  · intro h chunks hflatten
    exact ⟨s', h ▸ hchunks chunks hflatten⟩

/-- The port gets over its bad packets if and only if no well-formed packet stands behind one that
is too large. -/
theorem resynchronises_iff (hanswers : r.Answers) (hidle : (r.serial s).Idle)
    (hversion : (r.serial s).version ≠ .unknown) (ps : List SerialPacket)
    (hcomplete : ∀ p ∈ ps, p.Complete (r.serial s).version)
    (halone : ∀ p ∈ ps, p.Alone (r.serial s).version) :
    r.Resynchronises s ps ↔ SerialPacket.LargeLast (r.serial s).version ps :=
  (resynchronises_iff_heard hanswers hidle hversion hcomplete halone).trans
    SerialPacket.heard_eq_wellFormed

/-- A receiver that is called, and does nothing. -/
def quiet : Receiver QemudSerial where
  serial s := s
  setSerial q _ := q
  recvFunc _ _ s := some s
  serial_setSerial _ _ := rfl
  setSerial_setSerial _ _ _ := rfl
  setSerial_serial _ := rfl
  sameReading _ _ _ _ h := Option.some.inj h ▸ ⟨rfl, rfl⟩

theorem quiet_answers : quiet.Answers := fun _ _ s _ => ⟨s, rfl, rfl⟩

/-- The port when its version is known. -/
def known : QemudSerial := { QemudSerial.init with version := .normal }

theorem idle_known : known.Idle :=
  { QemudSerial.idle_init with }

def smallPacket : SerialPacket := ⟨ascii "010001", ascii "a", rfl⟩

def emptyPacket : SerialPacket := ⟨ascii "010000", [], rfl⟩

def garbledPacket : SerialPacket := ⟨ascii "0x0001", [], rfl⟩

def largePacket : SerialPacket := ⟨ascii "010fa1", List.replicate 4001 0, rfl⟩

theorem complete_largePacket : largePacket.Complete .normal := by
  intro _
  rw [largePacket, List.length_replicate]
  decide

theorem resynchronises_small : quiet.Resynchronises known
    [emptyPacket, smallPacket, garbledPacket, smallPacket, largePacket] := by
  refine (resynchronises_iff quiet_answers idle_known (by decide)
    [emptyPacket, smallPacket, garbledPacket, smallPacket, largePacket] ?_ ?_).mpr ?_
  · intro p hp
    simp only [List.mem_cons, List.not_mem_nil, or_false] at hp
    obtain rfl | rfl | rfl | rfl | rfl := hp
    · exact fun _ => rfl
    · exact fun _ => rfl
    · exact fun h => absurd (by decide) h
    · exact fun _ => rfl
    · exact complete_largePacket
  · intro p hp
    simp only [List.mem_cons, List.not_mem_nil, or_false] at hp
    obtain rfl | rfl | rfl | rfl | rfl := hp
    · exact fun _ => rfl
    · exact fun h => absurd h (by decide)
    · exact fun _ => rfl
    · exact fun h => absurd h (by decide)
    · exact fun h => absurd h (by decide)
  · rw [SerialPacket.LargeLast]
    decide

/-- A packet behind one that is too large is not delivered. -/
theorem not_resynchronises_large : ¬quiet.Resynchronises known [largePacket, smallPacket] := by
  rw [resynchronises_iff_heard (s := known) quiet_answers idle_known (by decide)]
  · decide
  · intro p hp
    simp only [List.mem_cons, List.not_mem_nil, or_false] at hp
    obtain rfl | rfl := hp
    · exact complete_largePacket
    · exact fun _ => rfl
  · intro p hp
    simp only [List.mem_cons, List.not_mem_nil, or_false] at hp
    obtain rfl | rfl := hp
    · exact fun h => absurd h (by decide)
    · exact fun h => absurd h (by decide)

end Receiver

end M2M.Qemud
