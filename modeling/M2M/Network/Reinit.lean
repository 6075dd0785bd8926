import M2M.Lib.Store
import M2M.Network.Dbp
import M2M.Network.Routing
import M2M.Network.RoutingLaws
import M2M.Network.TopologyRoundTrip
import Mathlib.Data.List.Basic

/-! `NETWORK_INIT` and `NETWORK_EXIT` of one process: the topology globals through any
number of initialisations, with what `m2m_dbp_exit` and `m2m_route_processor_exit` clear. -/

namespace M2M.Network.Reinit

open M2M.Lib.Loop M2M.Lib.Store M2M.Network.NodeInfo M2M.Network.Dbp
open M2M.Network.TopologyFile (Globals Fitting fileText typeName refines_toInfo topologyInit_whole)

/-- The topology globals of a process. -/
structure Process where
  globals : Globals
  neighborEnd : Nat
  endCount : Nat
  routerCount : Nat
  neighborEndList : Nat → Nat
  neighborRouterList : Nat → Nat

def Process.fresh : Process where
  globals := .fresh
  neighborEnd := 0
  endCount := 0
  routerCount := 0
  neighborEndList _ := 0
  neighborRouterList _ := 0

/-- One round of the loop over the neighbours in `m2m_route_processor_init`. -/
def splitNeighbor (p : Process) (ind : Nat) : Process :=
  if p.globals.nodeType (p.globals.neighbors ind) = some .zed then
    { p with
      neighborEndList := Function.update p.neighborEndList p.endCount (p.globals.neighbors ind)
      endCount := p.endCount + 1
      neighborEnd := if p.neighborEnd = 0 then p.neighborEnd + 1 else p.neighborEnd }
  else
    { p with
      neighborRouterList :=
        Function.update p.neighborRouterList p.routerCount (p.globals.neighbors ind)
      routerCount := p.routerCount + 1 }

def routeProcessorInit (p : Process) : Process :=
  let p := { p with neighborEnd := 0, endCount := 0, routerCount := 0 }
  if p.globals.type ≠ some .zed then (List.range p.globals.neighborNum).foldl splitNeighbor p
  else p

/-- The process once the fetch has left `g` and `m2m_dbp_init` has added the addresses. -/
def Process.placed (p : Process) (shm : Nat) (g : Globals) : Process :=
  { p with globals := { g with nodeShmLocation := (dbpInit shm g.toInfo).nodeShmLocation } }

/-- `NETWORK_INIT` with the segment attached at `shm`; `info` is what the buffer of
`node_infofetch` holds before.  What the steps after `m2m_route_processor_init` write is not part
of the topology. -/
def networkInit (file : List Char) (deviceID : Nat) (info : Nat → Char) (shm : Nat) (p : Process) :
    Option Process :=
  (TopologyFile.topologyInit file deviceID info p.globals).map
    fun g => routeProcessorInit (p.placed shm g)

def routeProcessorExit (p : Process) : Process :=
  { p with neighborEnd := 0, endCount := 0, routerCount := 0 }

/-- `m2m_dbp_exit`, the only part of the exit that clears what the parser set. -/
def dbpExit (p : Process) : Process :=
  { p with
    globals := { p.globals with
      deviceType := fun ind => if ind < 3 then '\x00' else p.globals.deviceType ind
      nodeType := fun ind => if ind < maxNodeNum then none else p.globals.nodeType ind } }

def networkExit (p : Process) : Process := dbpExit (routeProcessorExit p)

/-- A start of a process as a device of a network: the file, what the line buffer holds, and where
the segment is attached. -/
structure Start where
  conf : Conf
  deviceID : Nat
  info : Nat → Char
  shm : Nat

def Start.run (s : Start) (p : Process) : Option Process :=
  networkInit (fileText s.conf) s.deviceID s.info s.shm p

/-- The device is one of a file that the line buffer takes whole. -/
structure Start.Ok (s : Start) : Prop where
  readable : s.conf.Readable
  linked : ∀ l ∈ s.conf.lines, l.links ≠ []
  fitting : Fitting s.conf
  device : Device s.conf.totalDeviceNum s.deviceID

/-- A process that starts, leaves the network and starts again. -/
def restart (s₁ s₂ : Start) : Option Process :=
  (s₁.run .fresh).bind fun p => s₂.run (networkExit p)

/-- The words of the topology state are the same in two processes. -/
structure SameTopology (p q : Process) : Prop where
  nodeType : p.globals.nodeType = q.globals.nodeType
  nodeMap : p.globals.nodeMap = q.globals.nodeMap
  nodeShmLocation : p.globals.nodeShmLocation = q.globals.nodeShmLocation
  deviceType : ∀ k < 3, p.globals.deviceType k = q.globals.deviceType k
  neighbors : p.globals.neighbors = q.globals.neighbors
  neighborNum : p.globals.neighborNum = q.globals.neighborNum
  neighborEnd : p.neighborEnd = q.neighborEnd
  endCount : p.endCount = q.endCount
  routerCount : p.routerCount = q.routerCount
  neighborEndList : p.neighborEndList = q.neighborEndList
  neighborRouterList : p.neighborRouterList = q.neighborRouterList
  route : ∀ visited g start dest,
    Routing.routeDiscovery p.globals.nodeMap p.globals.totalDeviceNum.toNat visited g start dest =
      Routing.routeDiscovery q.globals.nodeMap q.globals.totalDeviceNum.toNat visited g start dest

/-- The words that belong to the `n` devices of the network, and the entries below the
counts, are the same in two processes. -/
structure SameUse (n : Nat) (p q : Process) : Prop where
  nodeType : ∀ i, Device n i → p.globals.nodeType i = q.globals.nodeType i
  nodeMap : ∀ a b, Device n a → Device n b → p.globals.nodeMap a b = q.globals.nodeMap a b
  nodeShmLocation : ∀ i, Device n i → p.globals.nodeShmLocation i = q.globals.nodeShmLocation i
  deviceType : ∀ k < 3, p.globals.deviceType k = q.globals.deviceType k
  neighborNum : p.globals.neighborNum = q.globals.neighborNum
  neighbors : ∀ k < q.globals.neighborNum, p.globals.neighbors k = q.globals.neighbors k
  neighborEnd : p.neighborEnd = q.neighborEnd
  endCount : p.endCount = q.endCount
  routerCount : p.routerCount = q.routerCount
  neighborEndList : ∀ k < q.endCount, p.neighborEndList k = q.neighborEndList k
  neighborRouterList : ∀ k < q.routerCount, p.neighborRouterList k = q.neighborRouterList k
  route : ∀ visited g start dest,
    Routing.routeDiscovery p.globals.nodeMap p.globals.totalDeviceNum.toNat visited g start dest =
      Routing.routeDiscovery q.globals.nodeMap q.globals.totalDeviceNum.toNat visited g start dest

def typeOf (conf : Conf) (i : Nat) : Option DeviceType := (conf.line i).map (·.type)

/-- The links that a device sorts into its two lists; an end device has no lists. -/
def listed (conf : Conf) (d : Nat) : List Nat :=
  if typeOf conf d = some .zed then [] else conf.links d

def endNeighbors (conf : Conf) (d : Nat) : List Nat :=
  (listed conf d).filter (typeOf conf · = some .zed)

def routerNeighbors (conf : Conf) (d : Nat) : List Nat :=
  (listed conf d).filter (¬ typeOf conf · = some .zed)

/-- What `NETWORK_INIT` makes of the topology globals of `p`. -/
structure Initialised (s : Start) (p q : Process) : Prop where
  num_eq : q.globals.totalDeviceNum = s.conf.totalDeviceNum
  type_eq : ∀ i, q.globals.nodeType i =
    if Device s.conf.totalDeviceNum i then typeOf s.conf i else p.globals.nodeType i
  map_eq : ∀ a b, q.globals.nodeMap a b =
    if Entered s.conf s.deviceID s.conf.totalDeviceNum a b then 1 else p.globals.nodeMap a b
  shm_eq : ∀ i, q.globals.nodeShmLocation i =
    if Device s.conf.totalDeviceNum i then s.conf.offset (i - 1) + (s.shm + localtimeSize)
    else p.globals.nodeShmLocation i
  deviceType_eq : ∀ k < 3, q.globals.deviceType k =
    ((typeOf s.conf s.deviceID).elim [] typeName).getD k '\x00'
  neighbors_eq : q.globals.neighbors = store (s.conf.links s.deviceID) p.globals.neighbors
  neighborNum_eq : q.globals.neighborNum = (s.conf.links s.deviceID).length
  neighborEnd_eq : q.neighborEnd = if endNeighbors s.conf s.deviceID = [] then 0 else 1
  endCount_eq : q.endCount = (endNeighbors s.conf s.deviceID).length
  routerCount_eq : q.routerCount = (routerNeighbors s.conf s.deviceID).length
  endList_eq : q.neighborEndList = store (endNeighbors s.conf s.deviceID) p.neighborEndList
  routerList_eq :
    q.neighborRouterList = store (routerNeighbors s.conf s.deviceID) p.neighborRouterList

/-- The lists and counts after the loop has split the neighbours `l` of `p`. -/
structure Split (l : List Nat) (p q : Process) : Prop where
  globals_eq : q.globals = p.globals
  neighborEnd_eq :
    q.neighborEnd = if l.filter (p.globals.nodeType · = some .zed) = [] then 0 else 1
  endCount_eq : q.endCount = (l.filter (p.globals.nodeType · = some .zed)).length
  routerCount_eq : q.routerCount = (l.filter (¬ p.globals.nodeType · = some .zed)).length
  endList_eq : q.neighborEndList =
    store (l.filter (p.globals.nodeType · = some .zed)) p.neighborEndList
  routerList_eq : q.neighborRouterList =
    store (l.filter (¬ p.globals.nodeType · = some .zed)) p.neighborRouterList

theorem Split.next {l : List Nat} {p q : Process} (h : Split l p q) (ind : Nat) :
    Split (l ++ [p.globals.neighbors ind]) p (splitNeighbor q ind) := by
  unfold splitNeighbor
  rw [h.globals_eq]
  by_cases ht : p.globals.nodeType (p.globals.neighbors ind) = some .zed
  · rw [if_pos ht]
    constructor
    case globals_eq => rfl
    case neighborEnd_eq =>
      simp only [h.neighborEnd_eq, List.filter_append, ht, List.filter_cons, decide_true, if_true]
      split <;> simp
    case endCount_eq => simp [h.endCount_eq, List.filter_append, ht]
    case routerCount_eq => simpa [List.filter_append, ht] using h.routerCount_eq
    case endList_eq =>
      simp [h.endList_eq, h.endCount_eq, List.filter_append, ht, store_concat]
    case routerList_eq => simpa [List.filter_append, ht] using h.routerList_eq
  · rw [if_neg ht]
    constructor
    case globals_eq => rfl
    case neighborEnd_eq => simpa [List.filter_append, ht] using h.neighborEnd_eq
    case endCount_eq => simpa [List.filter_append, ht] using h.endCount_eq
    case routerCount_eq => simp [h.routerCount_eq, List.filter_append, ht]
    case endList_eq => simpa [List.filter_append, ht] using h.endList_eq
    case routerList_eq =>
      simp [h.routerList_eq, h.routerCount_eq, List.filter_append, ht, store_concat]

theorem split_range (p : Process) (n : Nat) :
    Split ((List.range n).map p.globals.neighbors) (routeProcessorExit p)
      ((List.range n).foldl splitNeighbor (routeProcessorExit p)) := by
  induction n with
  | zero => exact ⟨rfl, rfl, rfl, rfl, rfl, rfl⟩
  | succ n ih =>
    rw [List.range_succ, List.map_append, List.foldl_append]
    exact ih.next n

theorem routeProcessorInit_split {p : Process} {l : List Nat} {array : Nat → Nat}
    (hnum : p.globals.neighborNum = l.length) (hlist : p.globals.neighbors = store l array) :
    Split (if p.globals.type = some .zed then [] else l) (routeProcessorExit p)
      (routeProcessorInit p) := by
  unfold routeProcessorInit
  by_cases hz : p.globals.type = some .zed
  · rw [if_pos hz, if_neg (not_not.mpr hz)]
    exact split_range p 0
  · have h := split_range p l.length
    rw [hlist, map_range_store, ← hnum] at h
    rw [if_neg hz, if_pos hz]
    exact h

/-- The type of the device is not set. -/
structure Process.Clear (p : Process) : Prop where
  num_nonneg : 0 ≤ p.globals.totalDeviceNum
  deviceType_eq : ∀ k < 3, p.globals.deviceType k = '\x00'

theorem clear_fresh : Process.fresh.Clear := ⟨le_rfl, fun _ _ => rfl⟩

theorem run_spec {s : Start} (h : s.Ok) {p : Process} (hp : p.Clear) :
    ∃ q, s.run p = some q ∧ Initialised s p q := by
  have hreadable := h.readable
  have hd := h.device
  obtain ⟨g, v, hg, hv, href, hneighbors⟩ := topologyInit_whole hreadable h.linked h.fitting hd
    s.info (refines_toInfo hp.num_nonneg hp.deviceType_eq) rfl
  obtain ⟨loc, v', hv', hf⟩ := topologyInit_from hreadable.complete hd.2
    { p.globals.toInfo with deviceType := none }
  obtain rfl : v = v' := Option.some.inj (hv.symm.trans hv')
  obtain ⟨l, hl, -⟩ := s.conf.line_isSome (hreadable.complete ▸ hd)
  obtain ⟨htype, -, hlist, hnum⟩ := hf.own l hd hl
  have hlinks : s.conf.links s.deviceID = l.links := by simp [Conf.links, hl]
  have hown : v.deviceType = typeOf s.conf s.deviceID := by simp [htype, typeOf, hl]
  have htypes : ∀ i, v.nodeType i =
      if Device s.conf.totalDeviceNum i then typeOf s.conf i else p.globals.nodeType i := hf.type_eq
  have hneighbor : ∀ j ∈ listed s.conf s.deviceID, v.nodeType j = typeOf s.conf j := by
    intro j hj
    have hmem : j ∈ s.conf.links s.deviceID := by
      unfold listed at hj
      split at hj
      · cases hj
      · exact hj
    rw [htypes, if_pos (hreadable.link hmem)]
  have hzed : (listed s.conf s.deviceID).filter (g.nodeType · = some .zed) =
      endNeighbors s.conf s.deviceID :=
    List.filter_congr (fun j hj => by rw [href.nodeType, hneighbor j hj])
  have hother : (listed s.conf s.deviceID).filter (¬ g.nodeType · = some .zed) =
      routerNeighbors s.conf s.deviceID :=
    List.filter_congr (fun j hj => by rw [href.nodeType, hneighbor j hj])
  have hshm : ∀ i, (dbpInit s.shm g.toInfo).nodeShmLocation i =
      if Device s.conf.totalDeviceNum i then s.conf.offset (i - 1) + (s.shm + localtimeSize)
      else p.globals.nodeShmLocation i := by
    intro i
    simp only [href.toInfo_eq, dbpInit, nodeShmLocation, hf.num_eq, hf.shm_eq]
    split <;> rfl
  have hs := @routeProcessorInit_split (p.placed s.shm g) l.links p.globals.neighbors
    (href.neighborNum.trans hnum) (hneighbors.trans (by rw [hlist]))
  rw [show (p.placed s.shm g).globals.type = typeOf s.conf s.deviceID from
    href.type_eq.trans hown, ← hlinks] at hs
  change Split (listed s.conf s.deviceID) _ _ at hs
  refine ⟨_, by rw [Start.run, networkInit, hg, Option.map_some], ?_⟩
  constructor
  case num_eq =>
    rw [hs.globals_eq]
    exact href.totalDeviceNum.trans (congrArg Nat.cast hf.num_eq)
  case type_eq =>
    rw [hs.globals_eq]
    exact fun i => (congrFun href.nodeType i).trans (htypes i)
  case map_eq =>
    rw [hs.globals_eq]
    exact fun a b => (congrFun (congrFun href.nodeMap a) b).trans (hf.map_eq a b)
  case shm_eq =>
    rw [hs.globals_eq]
    exact hshm
  case deviceType_eq =>
    rw [hs.globals_eq, ← hown]
    exact href.deviceType
  case neighbors_eq =>
    rw [hs.globals_eq, hlinks, ← hlist]
    exact hneighbors
  case neighborNum_eq =>
    rw [hs.globals_eq, hlinks]
    exact href.neighborNum.trans hnum
  case neighborEnd_eq => rw [← hzed]; exact hs.neighborEnd_eq
  case endCount_eq => rw [← hzed]; exact hs.endCount_eq
  case routerCount_eq => rw [← hother]; exact hs.routerCount_eq
  case endList_eq => rw [← hzed]; exact hs.endList_eq
  case routerList_eq => rw [← hother]; exact hs.routerList_eq

/-- Nothing of the first network shows in any word after the second initialisation. -/
structure Forgotten (s₁ s₂ : Start) : Prop where
  num_le : s₁.conf.totalDeviceNum ≤ s₂.conf.totalDeviceNum
  entered : ∀ a b, Entered s₁.conf s₁.deviceID s₁.conf.totalDeviceNum a b →
    Entered s₂.conf s₂.deviceID s₂.conf.totalDeviceNum a b
  links_le : (s₁.conf.links s₁.deviceID).length ≤ (s₂.conf.links s₂.deviceID).length
  ends_le : (endNeighbors s₁.conf s₁.deviceID).length ≤ (endNeighbors s₂.conf s₂.deviceID).length
  routers_le :
    (routerNeighbors s₁.conf s₁.deviceID).length ≤ (routerNeighbors s₂.conf s₂.deviceID).length

section Restart

variable {s₁ s₂ : Start} {p₁ p q : Process}

theorem restart_spec (h₁ : s₁.Ok) (h₂ : s₂.Ok) :
    ∃ p₁ p q, restart s₁ s₂ = some p ∧ s₂.run .fresh = some q ∧ Initialised s₁ .fresh p₁ ∧
      Initialised s₂ (networkExit p₁) p ∧ Initialised s₂ .fresh q := by
  obtain ⟨p₁, hp₁, hi₁⟩ := run_spec h₁ clear_fresh
  have hclear : (networkExit p₁).Clear := by
    refine ⟨?_, fun k hk => if_pos hk⟩
    change 0 ≤ p₁.globals.totalDeviceNum
    rw [hi₁.num_eq]
    exact Int.natCast_nonneg _
  obtain ⟨p, hp, hi⟩ := run_spec h₂ hclear
  obtain ⟨q, hq, hiq⟩ := run_spec h₂ clear_fresh
  exact ⟨p₁, p, q, by rw [restart, hp₁, Option.bind_some, hp], hq, hi₁, hi, hiq⟩

theorem endNeighbors_subset (conf : Conf) (d : Nat) : endNeighbors conf d ⊆ conf.links d := by
  intro j hj
  have hmem := (List.mem_filter.mp hj).1
  unfold listed at hmem
  split at hmem
  · cases hmem
  · exact hmem

theorem routerNeighbors_subset (conf : Conf) (d : Nat) :
    routerNeighbors conf d ⊆ conf.links d := by
  intro j hj
  have hmem := (List.mem_filter.mp hj).1
  unfold listed at hmem
  split at hmem
  · cases hmem
  · exact hmem

theorem nodeType_exit (h₁ : s₁.Ok) (hi₁ : Initialised s₁ .fresh p₁) (i : Nat) :
    (networkExit p₁).globals.nodeType i = none := by
  change (if i < maxNodeNum then none else p₁.globals.nodeType i) = none
  split
  · rfl
  · have := h₁.readable.size
    rw [hi₁.type_eq, if_neg (by simp only [Device]; omega)]
    rfl

theorem nodeMap_restart (hi₁ : Initialised s₁ .fresh p₁) (hi : Initialised s₂ (networkExit p₁) p)
    (hiq : Initialised s₂ .fresh q) (a b : Nat) :
    p.globals.nodeMap a b = q.globals.nodeMap a b ↔
      (Entered s₁.conf s₁.deviceID s₁.conf.totalDeviceNum a b →
        Entered s₂.conf s₂.deviceID s₂.conf.totalDeviceNum a b) := by
  have hold : (networkExit p₁).globals.nodeMap a b =
      if Entered s₁.conf s₁.deviceID s₁.conf.totalDeviceNum a b then 1 else 0 := hi₁.map_eq a b
  have hnew : Process.fresh.globals.nodeMap a b = 0 := rfl
  rw [hi.map_eq, hiq.map_eq, hold, hnew]
  by_cases h₂ : Entered s₂.conf s₂.deviceID s₂.conf.totalDeviceNum a b
  · simp [h₂]
  · by_cases h₁ : Entered s₁.conf s₁.deviceID s₁.conf.totalDeviceNum a b <;> simp [h₁, h₂]

theorem nodeShmLocation_restart (hi₁ : Initialised s₁ .fresh p₁)
    (hi : Initialised s₂ (networkExit p₁) p) (hiq : Initialised s₂ .fresh q) (i : Nat) :
    p.globals.nodeShmLocation i = q.globals.nodeShmLocation i ↔
      (Device s₁.conf.totalDeviceNum i → Device s₂.conf.totalDeviceNum i) := by
  have hold : (networkExit p₁).globals.nodeShmLocation i =
      if Device s₁.conf.totalDeviceNum i then s₁.conf.offset (i - 1) + (s₁.shm + localtimeSize)
      else 0 := hi₁.shm_eq i
  have hnew : Process.fresh.globals.nodeShmLocation i = 0 := rfl
  have hpos : 0 < localtimeSize := by decide
  rw [hi.shm_eq, hiq.shm_eq, hold, hnew]
  by_cases h₂ : Device s₂.conf.totalDeviceNum i
  · simp [h₂]
  · by_cases h₁ : Device s₁.conf.totalDeviceNum i
    · simp only [h₁, h₂, if_true, if_false, imp_false, not_true, iff_false]
      omega
    · simp [h₁, h₂]

theorem nodeType_restart (h₁ : s₁.Ok) (hi₁ : Initialised s₁ .fresh p₁)
    (hi : Initialised s₂ (networkExit p₁) p) (hiq : Initialised s₂ .fresh q) :
    p.globals.nodeType = q.globals.nodeType := by
  funext i
  rw [hi.type_eq, hiq.type_eq, nodeType_exit h₁ hi₁]
  rfl

theorem lists_restart (h₁ : s₁.Ok) (hi₁ : Initialised s₁ .fresh p₁)
    (hi : Initialised s₂ (networkExit p₁) p) (hiq : Initialised s₂ .fresh q) :
    (p.globals.neighbors = q.globals.neighbors ↔
      (s₁.conf.links s₁.deviceID).length ≤ (s₂.conf.links s₂.deviceID).length) ∧
    (p.neighborEndList = q.neighborEndList ↔
      (endNeighbors s₁.conf s₁.deviceID).length ≤ (endNeighbors s₂.conf s₂.deviceID).length) ∧
    (p.neighborRouterList = q.neighborRouterList ↔ (routerNeighbors s₁.conf s₁.deviceID).length ≤
      (routerNeighbors s₂.conf s₂.deviceID).length) := by
  have hne : ∀ j ∈ s₁.conf.links s₁.deviceID, j ≠ 0 := by
    intro j hj
    have := (h₁.readable.link hj).1
    omega
  refine ⟨?_, ?_, ?_⟩
  · rw [hi.neighbors_eq, hiq.neighbors_eq,
      show (networkExit p₁).globals.neighbors = store _ _ from hi₁.neighbors_eq]
    exact store_store_iff hne _
  · rw [hi.endList_eq, hiq.endList_eq,
      show (networkExit p₁).neighborEndList = store _ _ from hi₁.endList_eq]
    exact store_store_iff (fun j hj => hne j (endNeighbors_subset _ _ hj)) _
  · rw [hi.routerList_eq, hiq.routerList_eq,
      show (networkExit p₁).neighborRouterList = store _ _ from hi₁.routerList_eq]
    exact store_store_iff (fun j hj => hne j (routerNeighbors_subset _ _ hj)) _

theorem sameTopology_iff (h₁ : s₁.Ok) (hi₁ : Initialised s₁ .fresh p₁)
    (hi : Initialised s₂ (networkExit p₁) p) (hiq : Initialised s₂ .fresh q) :
    SameTopology p q ↔ Forgotten s₁ s₂ := by
  obtain ⟨hneighbors, hends, hrouters⟩ := lists_restart h₁ hi₁ hi hiq
  constructor
  · intro h
    constructor
    case num_le =>
      have hlast : Device s₁.conf.totalDeviceNum s₁.conf.totalDeviceNum :=
        ⟨h₁.device.1.trans h₁.device.2, le_rfl⟩
      exact ((nodeShmLocation_restart hi₁ hi hiq _).mp (congrFun h.nodeShmLocation _) hlast).2
    case entered =>
      intro a b
      exact (nodeMap_restart hi₁ hi hiq a b).mp (congrFun (congrFun h.nodeMap a) b)
    case links_le => exact hneighbors.mp h.neighbors
    case ends_le => exact hends.mp h.neighborEndList
    case routers_le => exact hrouters.mp h.neighborRouterList
  · intro h
    have hmap : p.globals.nodeMap = q.globals.nodeMap := by
      funext a b
      exact (nodeMap_restart hi₁ hi hiq a b).mpr (h.entered a b)
    constructor
    case nodeType => exact nodeType_restart h₁ hi₁ hi hiq
    case nodeMap => exact hmap
    case nodeShmLocation =>
      funext i
      exact (nodeShmLocation_restart hi₁ hi hiq i).mpr (fun hi => ⟨hi.1, hi.2.trans h.num_le⟩)
    case deviceType => exact fun k hk => (hi.deviceType_eq k hk).trans (hiq.deviceType_eq k hk).symm
    case neighbors => exact hneighbors.mpr h.links_le
    case neighborNum => rw [hi.neighborNum_eq, hiq.neighborNum_eq]
    case neighborEnd => rw [hi.neighborEnd_eq, hiq.neighborEnd_eq]
    case endCount => rw [hi.endCount_eq, hiq.endCount_eq]
    case routerCount => rw [hi.routerCount_eq, hiq.routerCount_eq]
    case neighborEndList => exact hends.mpr h.ends_le
    case neighborRouterList => exact hrouters.mpr h.routers_le
    case route =>
      intro visited g start dest
      rw [hmap, hi.num_eq, hiq.num_eq]

theorem sameUse_iff (h₁ : s₁.Ok) (hi₁ : Initialised s₁ .fresh p₁)
    (hi : Initialised s₂ (networkExit p₁) p) (hiq : Initialised s₂ .fresh q) :
    SameUse s₂.conf.totalDeviceNum p q ↔
      ∀ a b, Device s₂.conf.totalDeviceNum a → Device s₂.conf.totalDeviceNum b →
        Entered s₁.conf s₁.deviceID s₁.conf.totalDeviceNum a b →
          Entered s₂.conf s₂.deviceID s₂.conf.totalDeviceNum a b := by
  constructor
  · intro h a b ha hb
    exact (nodeMap_restart hi₁ hi hiq a b).mp (h.nodeMap a b ha hb)
  · intro h
    have hmap : ∀ a b, Device s₂.conf.totalDeviceNum a → Device s₂.conf.totalDeviceNum b →
        p.globals.nodeMap a b = q.globals.nodeMap a b :=
      fun a b ha hb => (nodeMap_restart hi₁ hi hiq a b).mpr (h a b ha hb)
    constructor
    case nodeType =>
      intro i _
      rw [nodeType_restart h₁ hi₁ hi hiq]
    case nodeMap => exact hmap
    case nodeShmLocation =>
      intro i hd
      exact (nodeShmLocation_restart hi₁ hi hiq i).mpr (fun _ => hd)
    case deviceType => exact fun k hk => (hi.deviceType_eq k hk).trans (hiq.deviceType_eq k hk).symm
    case neighborNum => rw [hi.neighborNum_eq, hiq.neighborNum_eq]
    case neighbors =>
      intro k hk
      rw [hiq.neighborNum_eq] at hk
      rw [hi.neighbors_eq, hiq.neighbors_eq]
      rw [store_of_lt hk, store_of_lt hk]
    case neighborEnd => rw [hi.neighborEnd_eq, hiq.neighborEnd_eq]
    case endCount => rw [hi.endCount_eq, hiq.endCount_eq]
    case routerCount => rw [hi.routerCount_eq, hiq.routerCount_eq]
    case neighborEndList =>
      intro k hk
      rw [hiq.endCount_eq] at hk
      rw [hi.endList_eq, hiq.endList_eq]
      rw [store_of_lt hk, store_of_lt hk]
    case neighborRouterList =>
      intro k hk
      rw [hiq.routerCount_eq] at hk
      rw [hi.routerList_eq, hiq.routerList_eq]
      rw [store_of_lt hk, store_of_lt hk]
    case route =>
      intro visited g start dest
      rw [hi.num_eq, hiq.num_eq, Int.toNat_natCast]
      exact Routing.routeDiscovery_congr hmap visited g start dest

end Restart

/-- A second initialisation leaves the state of a new process exactly when the second
network covers every word that the first one set; on the words of its own devices, when
it names every link between them that the first one entered. -/
theorem reinit_iff {s₁ s₂ : Start} (h₁ : s₁.Ok) (h₂ : s₂.Ok) :
    ∃ p q, restart s₁ s₂ = some p ∧ s₂.run .fresh = some q ∧
      (SameTopology p q ↔ Forgotten s₁ s₂) ∧
      (SameUse s₂.conf.totalDeviceNum p q ↔
        ∀ a b, Device s₂.conf.totalDeviceNum a → Device s₂.conf.totalDeviceNum b →
          Entered s₁.conf s₁.deviceID s₁.conf.totalDeviceNum a b →
            Entered s₂.conf s₂.deviceID s₂.conf.totalDeviceNum a b) := by
  obtain ⟨p₁, p, q, hp, hq, hi₁, hi, hiq⟩ := restart_spec h₁ h₂
  exact ⟨p, q, hp, hq, sameTopology_iff h₁ hi₁ hi hiq, sameUse_iff h₁ hi₁ hi hiq⟩

/-- Three devices that are all linked to each other. -/
def ring : Conf where
  totalDeviceNum := 3
  lines := [⟨.zc, (0, 0, 0), [2, 3]⟩, ⟨.zr, (1, 0, 0), [1, 3]⟩, ⟨.zr, (2, 0, 0), [1, 2]⟩]

/-- The same devices with the middle one between the others. -/
def chain : Conf where
  totalDeviceNum := 3
  lines := [⟨.zc, (0, 0, 0), [2]⟩, ⟨.zr, (1, 0, 0), [1, 3]⟩, ⟨.zr, (2, 0, 0), [2]⟩]

/-- Device 1 of a network, with the segment attached at `shm`. -/
def first (conf : Conf) (shm : Nat) : Start := ⟨conf, 1, fun _ => '\x00', shm⟩

theorem first_ok (conf : Conf) (h : conf.Readable) (hpos : 0 < conf.totalDeviceNum)
    (hlinked : ∀ l ∈ conf.lines, l.links ≠ [])
    (hshort : ∀ l ∈ conf.lines, (TopologyFile.lineText l).length + 1 < TopologyFile.infoSize)
    (shm : Nat) : (first conf shm).Ok where
  readable := h
  linked := hlinked
  fitting :=
    { short := fun _ l _ hl => hshort l (conf.mem_of_line hl)
      last := fun l hl => by
        have := hshort l (conf.mem_of_line hl)
        omega }
  device := ⟨le_rfl, hpos⟩

theorem forgotten_chain_ring : Forgotten (first chain 0) (first ring 4096) where
  num_le := by decide
  entered := by
    have hlines : ∀ a < 4, Device 3 a → a ≠ 1 → ∀ b ∈ chain.links a, Entered ring 1 3 a b := by
      decide
    have hline : ∀ a b, Device 3 a ∧ a ≠ 1 ∧ b ∈ chain.links a → Entered ring 1 3 a b := by
      rintro a b ⟨ha, hne, hb⟩
      exact hlines a (by have := ha.2; omega) ha hne b hb
    rintro a b (h | h)
    · exact hline a b h
    · exact (hline b a h).symm
  links_le := by decide
  ends_le := by decide
  routers_le := by decide

theorem reinit_chain_ring : ∃ p q, restart (first chain 0) (first ring 4096) = some p ∧
    (first ring 4096).run .fresh = some q ∧ SameTopology p q := by
  obtain ⟨p, q, hp, hq, hsame, -⟩ := reinit_iff
    (first_ok chain (by decide) (by decide) (by decide) (by decide) 0)
    (first_ok ring (by decide) (by decide) (by decide) (by decide) 4096)
  exact ⟨p, q, hp, hq, hsame.mpr forgotten_chain_ring⟩

/-- The first hop from device 1 to device 3, searched for with cleared arrays. -/
def hop (p : Process) : Option Nat :=
  (Routing.routeDiscovery p.globals.nodeMap p.globals.totalDeviceNum.toNat (fun _ => false)
    ⟨fun _ => 0, fun _ => 0, fun _ => 0, 0⟩ 1 3).map Prod.fst

/-- The link between devices 1 and 3 outlives the network that had it, and carries a route. -/
theorem reinit_stale : ∃ p q, restart (first ring 0) (first chain 4096) = some p ∧
    (first chain 4096).run .fresh = some q ∧ hop p = some 3 ∧ hop q = some 2 ∧
      ¬ SameTopology p q ∧ ¬ SameUse 3 p q := by
  have hp : (restart (first ring 0) (first chain 4096)).map
      (fun p => (p.globals.nodeMap 1 3, hop p)) = some (1, some 3) := by decide +kernel
  have hq : ((first chain 4096).run .fresh).map
      (fun q => (q.globals.nodeMap 1 3, hop q)) = some (0, some 2) := by decide +kernel
  obtain ⟨p, hp, hpv⟩ := Option.map_eq_some_iff.mp hp
  obtain ⟨q, hq, hqv⟩ := Option.map_eq_some_iff.mp hq
  rw [Prod.mk.injEq] at hpv hqv
  have hne : p.globals.nodeMap 1 3 ≠ q.globals.nodeMap 1 3 := by omega
  refine ⟨p, q, hp, hq, hpv.2, hqv.2, ?_, ?_⟩
  · intro h
    exact hne (congrFun (congrFun h.nodeMap 1) 3)
  · intro h
    exact hne (h.nodeMap 1 3 (by decide) (by decide))

end M2M.Network.Reinit
