import M2M.Lib.Loop
import M2M.Network.Packet
import Mathlib.Data.List.Basic
import Mathlib.Logic.Function.Basic
import Mathlib.Order.Monotone.Basic
import Mathlib.Tactic.Tauto

/-! `m2m_topology_init`: what a device's process takes from the lines of `topology.conf`,
and the sizes of `m2m_mm.h` that place the devices in the shared segment. -/

namespace M2M.Network

open M2M.Lib.Loop

def dataBufferEntrySize : Nat := 4096
def dataBufferEntryNum : Nat := 4
def dataBufferSize : Nat := dataBufferEntrySize * dataBufferEntryNum
def dataBufferMetadataEntrySize : Nat := 4 + 8
def dataBufferMetadataSize : Nat := dataBufferEntryNum * dataBufferMetadataEntrySize
def totalDataBufferSize : Nat := dataBufferSize + dataBufferMetadataSize

def headerQueueSize : Nat := headerQueueEntryNum * headerQueueEntrySize
def headerQueueMetadataSize : Nat := 4 + 4 + 24
def totalHeaderQueueSize : Nat := headerQueueSize + headerQueueMetadataSize

def headerQueueContrlflag : Nat := 4 + 8

def endDeviceSize : Nat := totalDataBufferSize + totalHeaderQueueSize + headerQueueContrlflag

def coordinatorSize : Nat :=
  totalHeaderQueueSize * nodeMaxLinks + endDeviceSize + totalHeaderQueueSize

/-- `ROUTER_SIZE` with `ROUTER_RFD` defined, as `m2m.h` does. -/
def routerSize : Nat := nodeMaxLinks * totalHeaderQueueSize

def DeviceType.size : DeviceType → Nat
  | .zc => coordinatorSize
  | .zr => routerSize
  | .zed => endDeviceSize

namespace NodeInfo

/-- One device's line of `topology.conf`, `TYPE {x,y,z} {a,b,...}`. -/
structure Line where
  type : DeviceType
  location : Nat × Nat × Nat
  links : List Nat

/-- `topology.conf`: the count line and the devices' lines. -/
structure Conf where
  totalDeviceNum : Nat
  lines : List Line

/-- The line of device `index`, the `index`-th after the count line. -/
def Conf.line (conf : Conf) : Nat → Option Line
  | 0 => none
  | index + 1 => conf.lines[index]?

def Conf.links (conf : Conf) (index : Nat) : List Nat :=
  match conf.line index with
  | some l => l.links
  | none => []

/-- A file that stays inside the arrays: all lines are there, and links lead to devices of
the file. -/
structure Conf.Readable (conf : Conf) : Prop where
  complete : conf.totalDeviceNum = conf.lines.length
  size : conf.totalDeviceNum < maxNodeNum
  few : ∀ l ∈ conf.lines, l.links.length ≤ nodeMaxLinks
  inRange : ∀ l ∈ conf.lines, ∀ j ∈ l.links, Device conf.totalDeviceNum j

instance (conf : Conf) : Decidable conf.Readable :=
  decidable_of_iff
    (conf.totalDeviceNum = conf.lines.length ∧ conf.totalDeviceNum < maxNodeNum ∧
      (∀ l ∈ conf.lines, l.links.length ≤ nodeMaxLinks) ∧
      ∀ l ∈ conf.lines, ∀ j ∈ l.links, Device conf.totalDeviceNum j)
    ⟨fun h => ⟨h.1, h.2.1, h.2.2.1, h.2.2.2⟩, fun h => ⟨h.1, h.2, h.3, h.4⟩⟩

/-- The globals that `node_infofetch` fills; a type is `none` while its string is empty. -/
structure Info where
  deviceID : Nat
  totalDeviceNum : Nat
  totalNetworkTypeDevice : DeviceType → Nat
  beforeNetworkTypeDevice : DeviceType → Nat
  nodeType : Nat → Option DeviceType
  nodeLocation : Nat → Nat × Nat × Nat
  nodeMap : Nat → Nat → Nat
  nodeShmLocation : Nat → Nat
  deviceType : Option DeviceType
  position : Nat × Nat × Nat
  neighbors : List Nat
  neighborNum : Nat

/-- The zero-initialised globals of a new process. -/
def Info.fresh : Info where
  deviceID := 0
  totalDeviceNum := 0
  totalNetworkTypeDevice _ := 0
  beforeNetworkTypeDevice _ := 0
  nodeType _ := none
  nodeLocation _ := (0, 0, 0)
  nodeMap _ _ := 0
  nodeShmLocation _ := 0
  deviceType := none
  position := (0, 0, 0)
  neighbors := []
  neighborNum := 0

def setLink (nodeMap : Nat → Nat → Nat) (a b : Nat) : Nat → Nat → Nat :=
  fun x y => if x = a ∧ y = b then 1 else nodeMap x y

/-- `NODE_MAP[index][sum] = 1; NODE_MAP[sum][index] = 1;` for every link of the line. -/
def enterLinks (index : Nat) (links : List Nat) (nodeMap : Nat → Nat → Nat) : Nat → Nat → Nat :=
  links.foldl (fun m sum => setLink (setLink m index sum) sum index) nodeMap

/-- The counts, the type and the position that both parsers record. -/
def enterDevice (index : Nat) (l : Line) (s : Info) : Info :=
  { s with
    totalNetworkTypeDevice :=
      Function.update s.totalNetworkTypeDevice l.type (s.totalNetworkTypeDevice l.type + 1)
    nodeType := Function.update s.nodeType index (some l.type)
    nodeLocation := Function.update s.nodeLocation index l.location }

def fetchOther (index : Nat) (l : Line) (s : Info) : Info :=
  { enterDevice index l s with nodeMap := enterLinks index l.links s.nodeMap }

/-- The device's own line: its links go to `Neighbors` only. -/
def fetchOwn (index : Nat) (l : Line) (s : Info) : Info :=
  { enterDevice index l { s with beforeNetworkTypeDevice := s.totalNetworkTypeDevice } with
    deviceType := some l.type
    position := l.location
    neighbors := l.links
    neighborNum := l.links.length }

/-- One round of the loop over `index`, with the running `shm_location`.  When `fgets`
has no line left the process exits, except at the device's own line. -/
def fetchLine (conf : Conf) (deviceID index : Nat) (shmLocation : Nat) (s : Info) :
    Option (Nat × Info) :=
  let s := { s with nodeShmLocation := Function.update s.nodeShmLocation index shmLocation }
  match conf.line index with
  | some l =>
    some (shmLocation + l.type.size,
      if index ≠ deviceID then fetchOther index l s else fetchOwn index l s)
  | none => if index ≠ deviceID then none else some (shmLocation, s)

def nodeInfofetch (conf : Conf) (deviceID : Nat) (s : Info) : Option Info :=
  let s := { s with deviceID := deviceID, totalDeviceNum := conf.totalDeviceNum }
  if deviceID > conf.totalDeviceNum then none
  else
    (forUpTo (fun index st => st.bind (fun st => fetchLine conf deviceID index st.1 st.2))
      (some (0, s)) conf.totalDeviceNum).map Prod.snd

def topologyInit (conf : Conf) (deviceID : Nat) (s : Info) : Option Info :=
  nodeInfofetch conf deviceID
    { s with totalNetworkTypeDevice := fun _ => 0, beforeNetworkTypeDevice := fun _ => 0 }

/-- The globals of device `a`'s process after `m2m_topology_init`. -/
def Conf.info (conf : Conf) (a : Nat) : Info := (topologyInit conf a .fresh).getD .fresh

theorem enterLinks_eq (index : Nat) (links : List Nat) (nodeMap : Nat → Nat → Nat) (x y : Nat) :
    enterLinks index links nodeMap x y =
      if (x = index ∧ y ∈ links) ∨ (y = index ∧ x ∈ links) then 1 else nodeMap x y := by
  unfold enterLinks
  induction links generalizing nodeMap with
  | nil => simp
  | cons sum links ih =>
    simp only [List.foldl_cons, ih, setLink, List.mem_cons]
    by_cases h₁ : x = sum ∧ y = index
    · simp [h₁]
    · by_cases h₂ : x = index ∧ y = sum
      · simp [h₂]
      · refine if_congr ?_ rfl ?_
        · tauto
        · rw [if_neg h₁, if_neg h₂]

/-- The bytes that the devices `1..k` take in the segment. -/
def Conf.offset (conf : Conf) (k : Nat) : Nat := ((conf.lines.take k).map (·.type.size)).sum

theorem Conf.offset_succ (conf : Conf) {k : Nat} {l : Line} (h : conf.line (k + 1) = some l) :
    conf.offset (k + 1) = conf.offset k + l.type.size := by
  have h' : conf.lines[k]? = some l := h
  simp [offset, List.take_add_one, h']

theorem Conf.offset_mono (conf : Conf) : Monotone conf.offset := by
  refine monotone_nat_of_le_succ ?_
  intro k
  simp [offset, List.take_add_one]

theorem sum_size (ls : List Line) :
    (ls.map (·.type.size)).sum =
      ls.countP (·.type = .zc) * coordinatorSize + ls.countP (·.type = .zr) * routerSize +
        ls.countP (·.type = .zed) * endDeviceSize := by
  induction ls with
  | nil => simp
  | cons l ls ih =>
    rw [List.map_cons, List.sum_cons, ih, List.countP_cons, List.countP_cons, List.countP_cons]
    cases l.type <;>
      simp only [DeviceType.size, decide_true, decide_false, reduceCtorEq, if_true, if_false,
        Bool.false_eq_true, Nat.add_mul, Nat.one_mul, Nat.add_zero] <;>
      omega

theorem Conf.line_isSome (conf : Conf) {i : Nat} (hi : Device conf.lines.length i) :
    ∃ l, conf.line i = some l ∧ l ∈ conf.lines := by
  obtain ⟨h₁, h₂⟩ := hi
  cases i with
  | zero => omega
  | succ i => exact ⟨conf.lines[i], List.getElem?_eq_getElem h₂, List.getElem_mem h₂⟩

theorem Conf.mem_of_line {conf : Conf} {i : Nat} {l : Line} (h : conf.line i = some l) :
    l ∈ conf.lines := by
  cases i with
  | zero => cases h
  | succ i => exact List.mem_of_getElem? h

theorem Conf.exists_line {conf : Conf} {l : Line} (h : l ∈ conf.lines) :
    ∃ i, Device conf.lines.length i ∧ conf.line i = some l := by
  obtain ⟨i, hi⟩ := List.mem_iff_getElem?.mp h
  exact ⟨i + 1, ⟨by omega, (List.getElem?_eq_some_iff.mp hi).1⟩, hi⟩

theorem Conf.Readable.link {conf : Conf} (h : conf.Readable) {i j : Nat} (hj : j ∈ conf.links i) :
    Device conf.totalDeviceNum j := by
  unfold Conf.links at hj
  cases hl : conf.line i with
  | none => simp [hl] at hj
  | some l =>
    rw [hl] at hj
    exact h.inRange l (conf.mem_of_line hl) j hj

/-- A line of `1..k` other than the device's own names the link between `a` and `b`. -/
def Entered (conf : Conf) (deviceID k a b : Nat) : Prop :=
  (Device k a ∧ a ≠ deviceID ∧ b ∈ conf.links a) ∨ (Device k b ∧ b ≠ deviceID ∧ a ∈ conf.links b)

instance (conf : Conf) (deviceID k a b : Nat) : Decidable (Entered conf deviceID k a b) :=
  inferInstanceAs (Decidable (_ ∨ _))

theorem Entered.symm {conf : Conf} {deviceID k a b : Nat} (h : Entered conf deviceID k a b) :
    Entered conf deviceID k b a := Or.symm h

/-- The globals that the lines of `1..k` leave of the globals `s₀`. -/
structure FetchedFrom (s₀ : Info) (conf : Conf) (deviceID k : Nat) (shmLocation : Nat) (s : Info) :
    Prop where
  id_eq : s.deviceID = deviceID
  num_eq : s.totalDeviceNum = conf.totalDeviceNum
  loc_eq : shmLocation = conf.offset k
  shm_eq : ∀ i, s.nodeShmLocation i =
    if Device k i then conf.offset (i - 1) else s₀.nodeShmLocation i
  type_eq : ∀ i, s.nodeType i = if Device k i then (conf.line i).map (·.type) else s₀.nodeType i
  location_eq : ∀ i l, Device k i → conf.line i = some l → s.nodeLocation i = l.location
  total_eq : ∀ t, s.totalNetworkTypeDevice t =
    s₀.totalNetworkTypeDevice t + (conf.lines.take k).countP (·.type = t)
  map_eq : ∀ a b, s.nodeMap a b = if Entered conf deviceID k a b then 1 else s₀.nodeMap a b
  own : ∀ l, Device k deviceID → conf.line deviceID = some l →
    s.deviceType = some l.type ∧ s.position = l.location ∧ s.neighbors = l.links ∧
      s.neighborNum = l.links.length

theorem fetchedFrom_zero (conf : Conf) (deviceID : Nat) (s₀ : Info) :
    FetchedFrom s₀ conf deviceID 0 0
      { s₀ with deviceID := deviceID, totalDeviceNum := conf.totalDeviceNum } where
  id_eq := rfl
  num_eq := rfl
  loc_eq := by simp [Conf.offset]
  shm_eq i := by simp [not_device_zero]
  type_eq i := by simp [not_device_zero]
  location_eq i l hi := absurd hi not_device_zero
  total_eq t := by simp
  map_eq a b := by simp [Entered, not_device_zero]
  own l hi := absurd hi not_device_zero

theorem FetchedFrom.next {s₀ : Info} {conf : Conf} {deviceID k shmLocation : Nat} {s : Info}
    (h : FetchedFrom s₀ conf deviceID k shmLocation s) (hk : k < conf.lines.length) :
    ∃ loc t, fetchLine conf deviceID (k + 1) shmLocation s = some (loc, t) ∧
      FetchedFrom s₀ conf deviceID (k + 1) loc t := by
  obtain ⟨l, hl, -⟩ := conf.line_isSome (i := k + 1) ⟨by omega, hk⟩
  have hget : conf.lines[k]? = some l := hl
  have hlinks : conf.links (k + 1) = l.links := by simp [Conf.links, hl]
  have hne : ∀ i, Device k i → i ≠ k + 1 := by
    intro i hi
    have := hi.2
    omega
  have hshm : ∀ i, Function.update s.nodeShmLocation (k + 1) shmLocation i =
      if Device (k + 1) i then conf.offset (i - 1) else s₀.nodeShmLocation i := by
    intro i
    by_cases hi : i = k + 1
    · subst hi
      simp [h.loc_eq, device_succ]
    · simp [device_succ, hi, h.shm_eq]
  have htype : ∀ i, Function.update s.nodeType (k + 1) (some l.type) i =
      if Device (k + 1) i then (conf.line i).map (·.type) else s₀.nodeType i := by
    intro i
    by_cases hi : i = k + 1
    · subst hi
      simp [hl, device_succ]
    · simp [device_succ, hi, h.type_eq]
  have hlocation : ∀ i l', Device (k + 1) i → conf.line i = some l' →
      Function.update s.nodeLocation (k + 1) l.location i = l'.location := by
    intro i l' hi hl'
    rcases device_succ.mp hi with rfl | hi
    · rw [hl, Option.some.injEq] at hl'
      simp [hl']
    · rw [Function.update_of_ne (hne i hi), h.location_eq i l' hi hl']
  have htotal : ∀ t, Function.update s.totalNetworkTypeDevice l.type
      (s.totalNetworkTypeDevice l.type + 1) t =
        s₀.totalNetworkTypeDevice t + (conf.lines.take (k + 1)).countP (·.type = t) := by
    intro t
    rw [List.take_add_one, List.countP_append, ← Nat.add_assoc, ← h.total_eq, hget]
    by_cases ht : l.type = t
    · subst ht
      simp
    · simp [Function.update_of_ne (Ne.symm ht), ht]
  by_cases hid : k + 1 = deviceID
  · subst hid
    refine ⟨_, _, by simp only [fetchLine, hl, ne_eq, not_true, if_false]; rfl, ?_⟩
    constructor
    case id_eq => exact h.id_eq
    case num_eq => exact h.num_eq
    case loc_eq => rw [conf.offset_succ hl, h.loc_eq]
    case shm_eq => exact hshm
    case type_eq => exact htype
    case location_eq => exact hlocation
    case total_eq => exact htotal
    case map_eq =>
      intro a b
      refine (h.map_eq a b).trans (if_congr ?_ rfl rfl)
      simp only [Entered, device_succ]
      tauto
    case own =>
      intro l' _ hl'
      rw [hl, Option.some.injEq] at hl'
      subst hl'
      exact ⟨rfl, rfl, rfl, rfl⟩
  · refine ⟨_, _, by simp only [fetchLine, hl, hid, ne_eq, not_false_eq_true, if_true]; rfl, ?_⟩
    constructor
    case id_eq => exact h.id_eq
    case num_eq => exact h.num_eq
    case loc_eq => rw [conf.offset_succ hl, h.loc_eq]
    case shm_eq => exact hshm
    case type_eq => exact htype
    case location_eq => exact hlocation
    case total_eq => exact htotal
    case map_eq =>
      intro a b
      refine (enterLinks_eq (k + 1) l.links s.nodeMap a b).trans ?_
      rw [h.map_eq, ← ite_or]
      refine if_congr ?_ rfl rfl
      simp only [Entered, device_succ, ← hlinks]
      constructor
      · rintro ((⟨rfl, h₂⟩ | ⟨rfl, h₂⟩) | ⟨h₁, h₂⟩ | ⟨h₁, h₂⟩)
        · exact .inl ⟨.inl rfl, hid, h₂⟩
        · exact .inr ⟨.inl rfl, hid, h₂⟩
        · exact .inl ⟨.inr h₁, h₂⟩
        · exact .inr ⟨.inr h₁, h₂⟩
      · rintro (⟨rfl | h₁, h₂, h₃⟩ | ⟨rfl | h₁, h₂, h₃⟩)
        · exact .inl (.inl ⟨rfl, h₃⟩)
        · exact .inr (.inl ⟨h₁, h₂, h₃⟩)
        · exact .inl (.inr ⟨rfl, h₃⟩)
        · exact .inr (.inr ⟨h₁, h₂, h₃⟩)
    case own =>
      intro l' hi hl'
      rcases device_succ.mp hi with rfl | hi
      · exact absurd rfl hid
      · exact h.own l' hi hl'

/-- `m2m_topology_init` clears the counts of the types before it reads the file. -/
def Info.cleared (s : Info) : Info :=
  { s with totalNetworkTypeDevice := fun _ => 0, beforeNetworkTypeDevice := fun _ => 0 }

/-- Every device reads a complete file to its end, whatever its globals held before. -/
theorem topologyInit_from {conf : Conf} (hc : conf.totalDeviceNum = conf.lines.length)
    {deviceID : Nat} (hd : deviceID ≤ conf.totalDeviceNum) (s : Info) :
    ∃ loc t, topologyInit conf deviceID s = some t ∧
      FetchedFrom s.cleared conf deviceID conf.totalDeviceNum loc t := by
  have hloop : ∃ loc t, forUpTo
      (fun index st => st.bind (fun st => fetchLine conf deviceID index st.1 st.2))
      (some (0, { s.cleared with
        deviceID := deviceID, totalDeviceNum := conf.totalDeviceNum })) conf.totalDeviceNum =
        some (loc, t) ∧ FetchedFrom s.cleared conf deviceID conf.totalDeviceNum loc t := by
    refine forUpTo_induct
      (fun k st => ∃ loc t, st = some (loc, t) ∧ FetchedFrom s.cleared conf deviceID k loc t) ?_ ?_
    · exact ⟨_, _, rfl, fetchedFrom_zero conf deviceID s.cleared⟩
    · rintro k _ hk ⟨loc, t, rfl, ht⟩
      exact ht.next (hc ▸ hk)
  obtain ⟨loc, t, hrun, ht⟩ := hloop
  refine ⟨loc, t, ?_, ht⟩
  unfold topologyInit nodeInfofetch
  rw [if_neg (by omega)]
  exact congrArg (Option.map Prod.snd) hrun

/-- A device's globals after the lines of `1..k`. -/
structure Fetched (conf : Conf) (deviceID k : Nat) (shmLocation : Nat) (s : Info) : Prop where
  id_eq : s.deviceID = deviceID
  num_eq : s.totalDeviceNum = conf.totalDeviceNum
  loc_eq : shmLocation = conf.offset k
  shm_eq : ∀ i, Device k i → s.nodeShmLocation i = conf.offset (i - 1)
  type_eq : ∀ i l, Device k i → conf.line i = some l → s.nodeType i = some l.type
  total_eq : ∀ t, s.totalNetworkTypeDevice t = (conf.lines.take k).countP (·.type = t)
  map_iff : ∀ a b, s.nodeMap a b ≠ 0 ↔
    (Device k a ∧ a ≠ deviceID ∧ b ∈ conf.links a) ∨ (Device k b ∧ b ≠ deviceID ∧ a ∈ conf.links b)
  own : ∀ l, Device k deviceID → conf.line deviceID = some l →
    s.deviceType = some l.type ∧ s.neighbors = l.links ∧ s.neighborNum = l.links.length

theorem FetchedFrom.fetched {conf : Conf} {deviceID k shmLocation : Nat} {s : Info}
    (h : FetchedFrom .fresh conf deviceID k shmLocation s) :
    Fetched conf deviceID k shmLocation s where
  id_eq := h.id_eq
  num_eq := h.num_eq
  loc_eq := h.loc_eq
  shm_eq i hi := by rw [h.shm_eq, if_pos hi]
  type_eq i l hi hl := by rw [h.type_eq, if_pos hi, hl, Option.map_some]
  total_eq t := by rw [h.total_eq, Info.fresh, Nat.zero_add]
  map_iff a b := by
    rw [h.map_eq]
    change _ ↔ Entered conf deviceID k a b
    split <;> simp_all [Info.fresh]
  own l hi hl := by
    obtain ⟨h₁, -, h₂, h₃⟩ := h.own l hi hl
    exact ⟨h₁, h₂, h₃⟩

theorem topologyInit_fresh {conf : Conf} (hc : conf.totalDeviceNum = conf.lines.length)
    {deviceID : Nat} (hd : deviceID ≤ conf.totalDeviceNum) :
    ∃ loc s, topologyInit conf deviceID .fresh = some s ∧
      Fetched conf deviceID conf.totalDeviceNum loc s := by
  obtain ⟨loc, s, hs, hf⟩ := topologyInit_from hc hd .fresh
  exact ⟨loc, s, hs, hf.fetched⟩

theorem Conf.info_eq {conf : Conf} (hc : conf.totalDeviceNum = conf.lines.length) {a : Nat}
    (ha : Device conf.totalDeviceNum a) :
    topologyInit conf a .fresh = some (conf.info a) ∧
      ∃ loc, Fetched conf a conf.totalDeviceNum loc (conf.info a) := by
  obtain ⟨loc, s, hs, hf⟩ := topologyInit_fresh hc ha.2
  have heq : conf.info a = s := by simp [info, hs]
  exact ⟨heq ▸ hs, loc, heq ▸ hf⟩

end NodeInfo

end M2M.Network
