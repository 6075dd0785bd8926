import M2M.Network.NodeInfo

/-! `m2m_dbp_init`: the addresses of the objects in the shared segment, as one device's
process computes them from its `Info`. -/

namespace M2M.Network.Dbp

open M2M.Lib.Loop M2M.Network.NodeInfo

/-- `MAX_NODE_NUM * sizeof(uint64_t)`, the local-time words in front of the devices. -/
def localtimeSize : Nat := maxNodeNum * 8

/-- The address arrays.  An element is `none` where `m2m_dbp_init` stores no address. -/
structure Addresses where
  nodeShmLocation : Nat → Nat
  localtimeStart : Nat → Nat
  hqConflagStart : Nat → Option Nat
  hqBufferStart : Nat → Nat → Option Nat
  hqMetaStart : Nat → Option Nat
  dbpBufferStart : Nat → Option Nat
  dbpMetaStart : Nat → Option Nat
  remoteHqBufferStart : Nat → Nat → Option Nat
  remoteHqMetaStart : Nat → Option Nat

/-- `NODE_SHM_LOCATION[ind] += shm_address_location + MAX_NODE_NUM * sizeof(uint64_t)`. -/
def nodeShmLocation (shm : Nat) (v : Info) (ind : Nat) : Nat :=
  if Device v.totalDeviceNum ind then v.nodeShmLocation ind + (shm + localtimeSize)
  else v.nodeShmLocation ind

def hqConflagStart (location : Nat) : Option DeviceType → Option Nat
  | some .zed => some (location + totalHeaderQueueSize)
  | some .zc =>
    some (location + (nodeMaxLinks + 2) * totalHeaderQueueSize + totalDataBufferSize)
  | _ => none

/-- The queues of an end device (one), of a router (one for each link) and of a
coordinator, which has two more between itself and its router. -/
def hqBufferStart (base : Nat) (type : Option DeviceType) (link ent : Nat) : Option Nat :=
  if ent < headerQueueEntryNum then
    if type = some .zed then
      if link = 0 then some (base + ent * headerQueueEntrySize) else none
    else if link < nodeMaxLinks then
      some (base + link * headerQueueSize + ent * headerQueueEntrySize)
    else if type = some .zr then none
    else if link = nodeMaxLinks then
      some (base + totalHeaderQueueSize * nodeMaxLinks + totalDataBufferSize +
        ent * headerQueueEntrySize)
    else if link = nodeMaxLinks + 1 then
      some (base + totalHeaderQueueSize * nodeMaxLinks + totalDataBufferSize + headerQueueSize +
        ent * headerQueueEntrySize)
    else none
  else none

def hqMetaStart (base : Nat) (type : Option DeviceType) (link : Nat) : Option Nat :=
  if type = some .zed then
    if link = 0 then some (base + headerQueueSize) else none
  else if link < nodeMaxLinks then
    some (base + nodeMaxLinks * headerQueueSize + link * headerQueueMetadataSize)
  else if type = some .zr then none
  else if link = nodeMaxLinks then
    some (base + totalHeaderQueueSize * nodeMaxLinks + totalDataBufferSize + headerQueueSize * 2)
  else if link = nodeMaxLinks + 1 then
    some (base + totalHeaderQueueSize * nodeMaxLinks + totalDataBufferSize + headerQueueSize * 2 +
      headerQueueMetadataSize)
  else none

/-- The start of the data buffer; a router of reduced function has none. -/
def dbDataBase (base : Nat) (type : Option DeviceType) : Option Nat :=
  if type = some .zed then some (base + totalHeaderQueueSize + headerQueueContrlflag)
  else if type = some .zr then none
  else some (base + totalHeaderQueueSize * nodeMaxLinks)

def dbpBufferStart (base : Nat) (type : Option DeviceType) (index : Nat) : Option Nat :=
  if index < dataBufferEntryNum then
    (dbDataBase base type).map (fun b => b + index * dataBufferEntrySize)
  else none

def dbpMetaStart (base : Nat) (type : Option DeviceType) (index : Nat) : Option Nat :=
  if index < dataBufferEntryNum then
    (dbDataBase base type).map
      (fun b => b + dataBufferSize + index * dataBufferMetadataEntrySize)
  else none

/-- `count`: the nodes with a smaller ID than this device that are linked to `neighbor`. -/
def remoteCount (v : Info) (neighbor : Nat) : Nat :=
  forUpTo (fun i count => if v.nodeMap neighbor i ≠ 0 then count + 1 else count) 0
    (v.deviceID - 1)

def remoteHqBufferStart (shm : Nat) (v : Info) (index ent : Nat) : Option Nat :=
  if index < v.neighborNum ∧ ent < headerQueueEntryNum then
    (v.neighbors[index]?).map (fun neighbor =>
      let remoteLocation := nodeShmLocation shm v neighbor
      if v.nodeType neighbor = some .zed then remoteLocation + ent * headerQueueEntrySize
      else
        remoteLocation + headerQueueSize * remoteCount v neighbor + ent * headerQueueEntrySize)
  else none

def remoteHqMetaStart (shm : Nat) (v : Info) (index : Nat) : Option Nat :=
  if index < v.neighborNum then
    (v.neighbors[index]?).map (fun neighbor =>
      let remoteLocation := nodeShmLocation shm v neighbor
      if v.nodeType neighbor = some .zed then remoteLocation + headerQueueSize
      else
        remoteLocation + headerQueueSize * nodeMaxLinks +
          headerQueueMetadataSize * remoteCount v neighbor)
  else none

/-- `m2m_dbp_init` in a process that has the segment attached at `shm`. -/
def dbpInit (shm : Nat) (v : Info) : Addresses :=
  let base := nodeShmLocation shm v v.deviceID
  { nodeShmLocation := nodeShmLocation shm v
    localtimeStart := fun ind => shm + ind * 8
    hqConflagStart := fun ind =>
      if Device v.totalDeviceNum ind then
        hqConflagStart (nodeShmLocation shm v ind) (v.nodeType ind)
      else none
    hqBufferStart := hqBufferStart base v.deviceType
    hqMetaStart := hqMetaStart base v.deviceType
    dbpBufferStart := dbpBufferStart base v.deviceType
    dbpMetaStart := dbpMetaStart base v.deviceType
    remoteHqBufferStart := remoteHqBufferStart shm v
    remoteHqMetaStart := remoteHqMetaStart shm v }

end M2M.Network.Dbp
