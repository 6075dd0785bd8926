import M2M.Lib.Region
import M2M.Network.Dbp
import M2M.Network.NodeInfo

/-! The objects in the shared segment, with the sizes that the C code accesses them with. -/

namespace M2M.Network.Layout

open M2M.Lib M2M.Network.NodeInfo M2M.Network.Dbp

def alignUp (align n : Nat) : Nat := (n + align - 1) / align * align

/-- `sizeof` of a struct whose fields have the given sizes and alignments. -/
def structSize (fields : List (Nat × Nat)) : Nat :=
  alignUp (fields.foldl (fun a f => max a f.2) 1)
    (fields.foldl (fun off f => alignUp f.2 off + f.1) 0)

/-- The alignment of a `uint64_t` member. -/
def alignUint64 : Abi → Nat
  | .i386 => 4
  | .x86_64 => 8

/-- `m2m_HQ_meta_t`: `producer`, `pad[6]` and `consumer`. -/
def sizeofHQMeta : Nat := structSize [(4, 4), (24, 4), (4, 4)]

/-- `m2m_HQ_cf_t`: `dataflag` and `transtime`. -/
def sizeofHQCf (abi : Abi) : Nat := structSize [(4, 4), (8, alignUint64 abi)]

/-- `m2m_DB_meta_t`: `dataflag` and `transtime`. -/
def sizeofDBMeta (abi : Abi) : Nat := structSize [(4, 4), (8, alignUint64 abi)]

/-- What a device places in its part of the segment. -/
inductive Object
  | entry (link ent : Nat)
  | hqMeta (link : Nat)
  | conflag
  | data (index : Nat)
  | dataMeta (index : Nat)
  deriving DecidableEq

namespace Object

def start (a : Addresses) (deviceID : Nat) : Object → Option Nat
  | entry link ent => a.hqBufferStart link ent
  | hqMeta link => a.hqMetaStart link
  | conflag => a.hqConflagStart deviceID
  | data index => a.dbpBufferStart index
  | dataMeta index => a.dbpMetaStart index

def size (abi : Abi) : Object → Nat
  | entry _ _ => headerQueueEntrySize
  | hqMeta _ => sizeofHQMeta
  | conflag => sizeofHQCf abi
  | data _ => dataBufferEntrySize
  | dataMeta _ => sizeofDBMeta abi

end Object

/-- The objects of the whole segment: the local-time words and the devices' objects. -/
inductive Item
  | localtime (ind : Nat)
  | object (deviceID : Nat) (o : Object)
  deriving DecidableEq

/-- `SHM_SIZE` of `m2m_mm_init`. -/
def shmSize (v : Info) : Nat :=
  v.totalNetworkTypeDevice .zc * coordinatorSize + v.totalNetworkTypeDevice .zr * routerSize +
    v.totalNetworkTypeDevice .zed * endDeviceSize + maxNodeNum * 8

/-- The bytes of an item relative to the segment, every device computing its own. -/
def Item.region (abi : Abi) (conf : Conf) : Item → Option Region
  | localtime ind =>
    if ind ≤ conf.totalDeviceNum then
      some ⟨(dbpInit 0 (conf.info 1)).localtimeStart ind, 8⟩
    else none
  | object deviceID o =>
    if Device conf.totalDeviceNum deviceID then
      (o.start (dbpInit 0 (conf.info deviceID)) deviceID).map (fun s => ⟨s, o.size abi⟩)
    else none

/-- The items are pairwise disjoint and lie in `[0, SHM_SIZE)`. -/
structure Sound (abi : Abi) (conf : Conf) : Prop where
  apart : ∀ i j r r', i ≠ j → Item.region abi conf i = some r → Item.region abi conf j = some r' →
    r.Apart r'
  inRange : ∀ i r deviceID, Item.region abi conf i = some r → Device conf.totalDeviceNum deviceID →
    r.Within 0 (shmSize (conf.info deviceID))

namespace Object

/-- The address of an object of a device of the given type at `base`. -/
def addr (base : Nat) (type : DeviceType) : Object → Option Nat
  | entry link ent => hqBufferStart base (some type) link ent
  | hqMeta link => hqMetaStart base (some type) link
  | conflag => hqConflagStart base (some type)
  | data index => dbpBufferStart base (some type) index
  | dataMeta index => dbpMetaStart base (some type) index

theorem addr_base (base : Nat) (type : DeviceType) (o : Object) :
    o.addr base type = (o.addr 0 type).map (base + ·) := by
  cases o with
  | entry link ent =>
    simp only [addr, hqBufferStart]
    split_ifs <;> simp only [Option.map_some, Option.map_none, Option.some.injEq] <;> omega
  | hqMeta link =>
    simp only [addr, hqMetaStart]
    split_ifs <;> simp only [Option.map_some, Option.map_none, Option.some.injEq] <;> omega
  | conflag =>
    cases type <;> simp only [addr, hqConflagStart, Option.map_some, Option.map_none,
      Option.some.injEq] <;> omega
  | data index =>
    simp only [addr, dbpBufferStart, dbDataBase]
    split_ifs <;> simp only [Option.map_some, Option.map_none, Option.some.injEq] <;> omega
  | dataMeta index =>
    simp only [addr, dbpMetaStart, dbDataBase]
    split_ifs <;> simp only [Option.map_some, Option.map_none, Option.some.injEq] <;> omega

def queues (first num : Nat) : List Object :=
  (List.range' first num).flatMap (fun link => (List.range headerQueueEntryNum).map (entry link))

def metas (first num : Nat) : List Object := (List.range' first num).map hqMeta

def buffers : List Object :=
  (List.range dataBufferEntryNum).map data ++ (List.range dataBufferEntryNum).map dataMeta

/-- The objects of a device in the order of their addresses. -/
def memoryOrder : DeviceType → List Object
  | .zed => queues 0 1 ++ metas 0 1 ++ [conflag] ++ buffers
  | .zr => queues 0 nodeMaxLinks ++ metas 0 nodeMaxLinks
  | .zc => queues 0 nodeMaxLinks ++ metas 0 nodeMaxLinks ++ buffers ++
      queues nodeMaxLinks 2 ++ metas nodeMaxLinks 2 ++ [conflag]

def region (abi : Abi) (type : DeviceType) (o : Object) : Region :=
  ⟨(o.addr 0 type).getD 0, o.size abi⟩

theorem packed_memoryOrder (type : DeviceType) :
    Region.Packed 0 type.size ((memoryOrder type).map (region .i386 type)) := by
  cases type <;> decide

theorem mem_queues {first num link ent : Nat} :
    entry link ent ∈ queues first num ↔
      first ≤ link ∧ link < first + num ∧ ent < headerQueueEntryNum := by
  simp [queues, List.mem_flatMap, List.mem_range'_1, and_assoc]

theorem mem_metas {first num link : Nat} :
    hqMeta link ∈ metas first num ↔ first ≤ link ∧ link < first + num := by
  simp [metas, List.mem_range'_1]

def queueCount : DeviceType → Nat
  | .zed => 1
  | .zr => nodeMaxLinks
  | .zc => nodeMaxLinks + 2

theorem entry_bounds {type : DeviceType} {link ent a : Nat}
    (h : (entry link ent).addr 0 type = some a) :
    link < queueCount type ∧ ent < headerQueueEntryNum := by
  cases type <;> grind [addr, hqBufferStart, queueCount]

theorem hqMeta_bounds {type : DeviceType} {link a : Nat} (h : (hqMeta link).addr 0 type = some a) :
    link < queueCount type := by
  cases type <;> grind [addr, hqMetaStart, queueCount]

theorem mem_memoryOrder {type : DeviceType} {o : Object} {a : Nat} (h : o.addr 0 type = some a) :
    o ∈ memoryOrder type := by
  cases o with
  | entry link ent =>
    obtain ⟨hlink, hent⟩ := entry_bounds h
    cases type <;> simp only [queueCount] at hlink <;> simp [memoryOrder, mem_queues, hent] <;>
      omega
  | hqMeta link =>
    have hlink := hqMeta_bounds h
    cases type <;> simp only [queueCount] at hlink <;> simp [memoryOrder, mem_metas] <;> omega
  | conflag =>
    cases type with
    | zr => simp [addr, hqConflagStart] at h
    | zed | zc => simp [memoryOrder]
  | data index =>
    have hindex : index < dataBufferEntryNum := by
      by_contra hindex
      simp [addr, dbpBufferStart, hindex] at h
    cases type with
    | zr => simp [addr, dbpBufferStart, dbDataBase] at h
    | zed | zc => simp [memoryOrder, buffers, hindex]
  | dataMeta index =>
    have hindex : index < dataBufferEntryNum := by
      by_contra hindex
      simp [addr, dbpMetaStart, hindex] at h
    cases type with
    | zr => simp [addr, dbpMetaStart, dbDataBase] at h
    | zed | zc => simp [memoryOrder, buffers, hindex]

theorem region_apart {type : DeviceType} {o o' : Object} {a a' : Nat} (hne : o ≠ o')
    (h : o.addr 0 type = some a) (h' : o'.addr 0 type = some a') :
    (region .i386 type o).Apart (region .i386 type o') := by
  have : Std.Symm (fun o o' => (region .i386 type o).Apart (region .i386 type o')) :=
    ⟨fun _ _ h => h.symm⟩
  exact (List.pairwise_map.mp (packed_memoryOrder type).pairwise).forall
    (mem_memoryOrder h) (mem_memoryOrder h') hne

theorem region_within {type : DeviceType} {o : Object} {a : Nat} (h : o.addr 0 type = some a) :
    (region .i386 type o).Within 0 type.size :=
  (packed_memoryOrder type).within _ (List.mem_map_of_mem (mem_memoryOrder h))

end Object

theorem region_localtime {abi : Abi} {conf : Conf} {ind : Nat} {r : Region}
    (hn : conf.totalDeviceNum < maxNodeNum)
    (h : Item.region abi conf (.localtime ind) = some r) :
    r = ⟨ind * 8, 8⟩ ∧ r.Within 0 localtimeSize := by
  simp only [Item.region, dbpInit] at h
  split at h
  · cases h
    refine ⟨by simp, Nat.zero_le _, ?_⟩
    simp only [localtimeSize]
    omega
  · cases h

section Devices

variable {conf : Conf} (hc : conf.totalDeviceNum = conf.lines.length)
include hc

theorem region_object_eq {deviceID : Nat} {l : Line} (hd : Device conf.totalDeviceNum deviceID)
    (hl : conf.line deviceID = some l) (abi : Abi) (o : Object) :
    Item.region abi conf (.object deviceID o) = (o.addr 0 l.type).map
      (fun _ => (o.region abi l.type).shift (localtimeSize + conf.offset (deviceID - 1))) := by
  obtain ⟨-, loc, hf⟩ := Conf.info_eq hc hd
  obtain ⟨htype, -, -⟩ := hf.own l hd hl
  have hbase : nodeShmLocation 0 (conf.info deviceID) deviceID =
      localtimeSize + conf.offset (deviceID - 1) := by
    rw [nodeShmLocation, hf.num_eq, if_pos hd, hf.shm_eq deviceID hd]
    omega
  have haddr : o.start (dbpInit 0 (conf.info deviceID)) deviceID =
      o.addr (localtimeSize + conf.offset (deviceID - 1)) l.type := by
    cases o <;> simp only [Object.start, Object.addr, dbpInit, hf.id_eq, hf.num_eq, hbase, htype,
      hf.type_eq deviceID l hd hl, hd, if_true]
  simp only [Item.region, hd, if_true, haddr, o.addr_base (localtimeSize + _)]
  cases ha : o.addr 0 l.type with
  | none => rfl
  | some a => simp [Object.region, Region.shift, ha]

theorem region_object {abi : Abi} {deviceID : Nat} {o : Object} {r : Region}
    (h : Item.region abi conf (.object deviceID o) = some r) :
    ∃ l, conf.line deviceID = some l ∧ Device conf.totalDeviceNum deviceID ∧
      (∃ a, o.addr 0 l.type = some a) ∧
      r = (o.region abi l.type).shift (localtimeSize + conf.offset (deviceID - 1)) := by
  have hd : Device conf.totalDeviceNum deviceID := by
    by_contra hd
    simp [Item.region, hd] at h
  obtain ⟨l, hl, -⟩ := conf.line_isSome (hc ▸ hd)
  rw [region_object_eq hc hd hl, Option.map_eq_some_iff] at h
  obtain ⟨a, ha, hr⟩ := h
  exact ⟨l, hl, hd, ⟨a, ha⟩, hr.symm⟩

theorem shmSize_eq {deviceID : Nat} (hd : Device conf.totalDeviceNum deviceID) :
    shmSize (conf.info deviceID) = localtimeSize + conf.offset conf.totalDeviceNum := by
  obtain ⟨-, loc, hf⟩ := Conf.info_eq hc hd
  simp only [shmSize, hf.total_eq, Conf.offset, sum_size, localtimeSize]
  omega

theorem object_within {deviceID : Nat} {o : Object} {r : Region}
    (h : Item.region .i386 conf (.object deviceID o) = some r) :
    r.Within (localtimeSize + conf.offset (deviceID - 1))
      (localtimeSize + conf.offset deviceID) := by
  obtain ⟨l, hl, -, ⟨a, ha⟩, rfl⟩ := region_object hc h
  refine ((Object.region_within ha).shift _).mono le_rfl ?_
  cases deviceID with
  | zero => cases hl
  | succ d =>
    rw [conf.offset_succ hl, Nat.add_sub_cancel]
    omega

theorem objects_apart {d d' : Nat} {o o' : Object} {r r' : Region} (hd : d < d')
    (h : Item.region .i386 conf (.object d o) = some r)
    (h' : Item.region .i386 conf (.object d' o') = some r') : r.Apart r' := by
  have hmono := conf.offset_mono (show d ≤ d' - 1 by omega)
  exact (object_within hc h).apart ((object_within hc h').mono (by omega) le_rfl)

theorem sound_i386 (hn : conf.totalDeviceNum < maxNodeNum) : Sound .i386 conf := by
  constructor
  case apart =>
    rintro (ind | ⟨d, o⟩) (ind' | ⟨d', o'⟩) r r' hne h h'
    · obtain ⟨rfl, -⟩ := region_localtime hn h
      obtain ⟨rfl, -⟩ := region_localtime hn h'
      have : ind ≠ ind' := fun heq => hne (congrArg Item.localtime heq)
      simp only [Region.Apart]
      omega
    · exact (region_localtime hn h).2.apart ((object_within hc h').mono (by omega) le_rfl)
    · exact ((region_localtime hn h').2.apart ((object_within hc h).mono (by omega) le_rfl)).symm
    · rcases Nat.lt_trichotomy d d' with hlt | rfl | hlt
      · exact objects_apart hc hlt h h'
      · obtain ⟨l, hl, -, ⟨a, ha⟩, rfl⟩ := region_object hc h
        obtain ⟨l', hl', -, ⟨a', ha'⟩, rfl⟩ := region_object hc h'
        rw [hl, Option.some.injEq] at hl'
        subst hl'
        have hne' : o ≠ o' := fun heq => hne (congrArg (Item.object d) heq)
        exact (Object.region_apart hne' ha ha').shift _
      · exact (objects_apart hc hlt h' h).symm
  case inRange =>
    rintro (ind | ⟨d, o⟩) r deviceID h hd
    · rw [shmSize_eq hc hd]
      exact (region_localtime hn h).2.mono le_rfl (by omega)
    · rw [shmSize_eq hc hd]
      obtain ⟨-, -, hdev, -⟩ := region_object hc h
      have hmono := conf.offset_mono hdev.2
      exact (object_within hc h).mono (by omega) (by omega)

theorem not_sound_x86_64 {deviceID : Nat} {l : Line} (hl : conf.line deviceID = some l)
    (hd : Device conf.totalDeviceNum deviceID) (ht : l.type ≠ .zr) : ¬ Sound .x86_64 conf := by
  intro hs
  have hsome : ∀ index, index < 2 → Item.region .x86_64 conf (.object deviceID (.dataMeta index)) =
      some (((Object.dataMeta index).region .x86_64 l.type).shift
        (localtimeSize + conf.offset (deviceID - 1))) := by
    intro index hi
    have hindex : index < dataBufferEntryNum := by
      simp only [dataBufferEntryNum]
      omega
    rw [region_object_eq hc hd hl]
    cases h : l.type with
    | zr => exact absurd h ht
    | zed | zc => simp [Object.addr, dbpMetaStart, dbDataBase, hindex]
  have hapart := hs.apart _ _ _ _ (by simp) (hsome 0 (by omega)) (hsome 1 (by omega))
  cases h : l.type with
  | zr => exact ht h
  | zed | zc =>
    simp [h, Region.Apart, Region.shift, Object.region, Object.addr, dbpMetaStart, dbDataBase,
      Object.size, sizeofDBMeta, structSize, alignUint64, alignUp, dataBufferEntryNum,
      dataBufferMetadataEntrySize] at hapart
    omega

theorem region_of_zr (hzr : ∀ l ∈ conf.lines, l.type = .zr) {abi : Abi} {i : Item} {r : Region}
    (h : Item.region abi conf i = some r) : Item.region .i386 conf i = some r := by
  cases i with
  | localtime ind => exact h
  | object d o =>
    obtain ⟨l, hl, hd, ⟨a, ha⟩, hr⟩ := region_object hc h
    rw [region_object_eq hc hd hl, ha, Option.map_some, hr]
    rw [hzr l (Conf.mem_of_line hl)] at ha ⊢
    cases o with
    | entry | hqMeta => rfl
    | conflag => cases ha
    | data index => simp [Object.addr, dbpBufferStart, dbDataBase] at ha
    | dataMeta index => simp [Object.addr, dbpMetaStart, dbDataBase] at ha

theorem layout_sound_iff (hn : conf.totalDeviceNum < maxNodeNum) (abi : Abi) :
    Sound abi conf ↔ abi = .i386 ∨ ∀ l ∈ conf.lines, l.type = .zr := by
  have hi386 := sound_i386 hc hn
  constructor
  · intro hs
    cases abi with
    | i386 => exact .inl rfl
    | x86_64 =>
      right
      intro l hl
      by_contra ht
      obtain ⟨i, hi, hline⟩ := Conf.exists_line hl
      exact not_sound_x86_64 hc hline (hc ▸ hi) ht hs
  · rintro (rfl | hzr)
    · exact hi386
    · constructor
      case apart =>
        intro i j r r' hne h h'
        exact hi386.apart i j r r' hne (region_of_zr hc hzr h) (region_of_zr hc hzr h')
      case inRange =>
        intro i r deviceID h hd
        exact hi386.inRange i r deviceID (region_of_zr hc hzr h) hd

end Devices

/-- A coordinator with one end device. -/
def pair : Conf := ⟨2, [⟨.zc, (0, 0, 0), [2]⟩, ⟨.zed, (10, 0, 0), [1]⟩]⟩

theorem layout_sound_pair :
    pair.totalDeviceNum < maxNodeNum ∧ Sound .i386 pair ∧ ¬ Sound .x86_64 pair := by
  have hiff := @layout_sound_iff pair rfl (by decide)
  refine ⟨by decide, (hiff .i386).mpr (.inl rfl), ?_⟩
  rw [hiff .x86_64]
  decide

/-- The end device's control flag reaches four bytes into its first data buffer entry. -/
theorem layout_overlaps : ¬ Sound .x86_64 pair := by
  intro hs
  have hflag : Item.region .x86_64 pair (.object 2 .conflag) = some ⟨23228, 16⟩ := by decide
  have hdata : Item.region .x86_64 pair (.object 2 (.data 0)) = some ⟨23240, 4096⟩ := by decide
  have := hs.apart _ _ _ _ (by decide) hflag hdata
  simp [Region.Apart] at this

end M2M.Network.Layout
