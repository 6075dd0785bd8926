import M2M.Lib.Decimal
import M2M.Lib.Store
import M2M.Network.NodeInfo

/-! `node_infofetch` character by character: the line buffer of 40 bytes that `fgets`
fills, and the two scans, of the other devices' lines and of the device's own.  An access
that leaves the buffer has no result. -/

namespace M2M.Network.TopologyFile

open M2M.Lib.Decimal M2M.Lib.Loop M2M.Lib.Store M2M.Network.NodeInfo

/-- The length of `info`. -/
def infoSize : Nat := 40

/-- The globals as arrays; `deviceType` is `GlobalVND.DeviceType`, three characters. -/
structure Globals where
  deviceID : Nat
  totalDeviceNum : Int
  totalNetworkTypeDevice : DeviceType → Nat
  beforeNetworkTypeDevice : DeviceType → Nat
  nodeType : Nat → Option DeviceType
  nodeLocation : Nat → Nat → Nat
  nodeMap : Nat → Nat → Nat
  nodeShmLocation : Nat → Nat
  deviceType : Nat → Char
  position : Nat → Nat
  neighbors : Nat → Nat
  neighborNum : Nat

def Globals.fresh : Globals where
  deviceID := 0
  totalDeviceNum := 0
  totalNetworkTypeDevice _ := 0
  beforeNetworkTypeDevice _ := 0
  nodeType _ := none
  nodeLocation _ _ := 0
  nodeMap _ _ := 0
  nodeShmLocation _ := 0
  deviceType _ := '\x00'
  position _ := 0
  neighbors _ := 0
  neighborNum := 0

/-- At most `room` characters of the file, up to a newline, and what is left of the file. -/
def readLine : Nat → List Char → List Char × List Char
  | 0, file => ([], file)
  | _ + 1, [] => ([], [])
  | room + 1, c :: file =>
    if c = '\n' then ([c], file)
    else (c :: (readLine room file).1, (readLine room file).2)

/-- `fgets(info, n, pFile)`; the line is empty where it returns `NULL`. -/
def fgets (n : Nat) (file : List Char) : List Char × List Char := readLine (n - 1) file

/-- The buffer after `fgets` has stored a line. -/
def load (line : List Char) (info : Nat → Char) : Nat → Char := store (line ++ ['\x00']) info

def strlen (line : List Char) : Nat := line.findIdx (· = '\x00')

def isSpace (c : Char) : Bool := c = ' ' ∨ ('\t' ≤ c ∧ c ≤ '\r')

def atoi (s : List Char) : Int :=
  match s.dropWhile isSpace with
  | '-' :: s => -Nat.ofDigitChars 10 (s.takeWhile Char.isDigit) 0
  | '+' :: s => Nat.ofDigitChars 10 (s.takeWhile Char.isDigit) 0
  | s => Nat.ofDigitChars 10 (s.takeWhile Char.isDigit) 0

/-- `while(info[ind] <= '9' && info[ind] >= '0')`, the sum and the index after it; `flag`
says that the index has moved. -/
def scanNumber (info : Nat → Char) : Nat → Nat → Nat → Option (Nat × Nat)
  | 0, _, _ => none
  | fuel + 1, sum, ind =>
    if (info ind).isDigit then
      scanNumber info fuel (sum * 10 + ((info ind).toNat - '0'.toNat)) (ind + 1)
    else some (sum, ind)

/-- `while(info[ind] != '}' && ind < strlen(info))`, with what is done with a number. -/
def scanBraces {σ : Type} (info : Nat → Char) (lens : Nat) (put : Nat → σ → σ) :
    Nat → Nat → σ → Option (Nat × σ)
  | 0, _, _ => none
  | fuel + 1, ind, s =>
    if info ind ≠ '}' ∧ ind < lens then
      (scanNumber info infoSize 0 ind).bind (fun r =>
        if r.2 ≠ ind then scanBraces info lens put fuel r.2 (put r.1 s)
        else scanBraces info lens put fuel (ind + 1) s)
    else some (ind, s)

def setLocation (nodeLocation : Nat → Nat → Nat) (index dim sum : Nat) : Nat → Nat → Nat :=
  fun x y => if x = index ∧ y = dim then sum else nodeLocation x y

/-- `NODE_LOCATION[index][dim] = sum; dim++;` -/
def putLocation (index sum : Nat) (s : Nat × Globals) : Nat × Globals :=
  (s.1 + 1, { s.2 with nodeLocation := setLocation s.2.nodeLocation index s.1 sum })

/-- `NODE_MAP[index][sum] = 1; NODE_MAP[sum][index] = 1;` -/
def putLink (index sum : Nat) (g : Globals) : Globals :=
  { g with nodeMap := setLink (setLink g.nodeMap index sum) sum index }

def scanOther (info : Nat → Char) (lens index : Nat) : Nat → Nat → Nat → Globals → Option Globals
  | 0, _, _, _ => none
  | fuel + 1, ind, select, g =>
    if ind < lens then
      if info ind = '{' then
        if select = 0 then
          (scanBraces info lens (putLocation index) infoSize (ind + 1) (0, g)).bind
            (fun r => scanOther info lens index fuel (r.1 + 1) (select + 1) r.2.2)
        else
          (scanBraces info lens (putLink index) infoSize (ind + 1) g).bind
            (fun r => scanOther info lens index fuel (r.1 + 1) select r.2)
      else scanOther info lens index fuel (ind + 1) select g
    else some g

/-- `case 0`: two characters of the type, or three when no blank follows them. -/
def setDeviceType (info : Nat → Char) (count : Nat) (g : Globals) : Nat × Globals :=
  let deviceType :=
    Function.update (Function.update g.deviceType 0 (info count)) 1 (info (count + 1))
  if info (count + 2) ≠ ' ' then
    (count + 1 + 3, { g with deviceType := Function.update deviceType 2 (info (count + 2)) })
  else (count + 3, { g with deviceType := deviceType })

/-- `case 1`: three numbers, with one character after the first two and two after the last. -/
def scanPosition (info : Nat → Char) (index count : Nat) (g : Globals) : Option (Nat × Globals) :=
  (List.range 3).foldlM (fun s ind =>
    (scanNumber info infoSize 0 s.1).map (fun r =>
      (if ind ≠ 2 then r.2 + 1 else r.2 + 2,
        { s.2 with
          position := Function.update s.2.position ind r.1
          nodeLocation := setLocation s.2.nodeLocation index ind r.1 }))) (count, g)

/-- `case 2`: numbers as long as commas follow them. -/
def scanNeighbors (info : Nat → Char) : Nat → Nat → Nat → Globals → Option (Nat × Globals)
  | 0, _, _, _ => none
  | fuel + 1, count, linknum, g =>
    (scanNumber info infoSize 0 count).bind (fun r =>
      let g := { g with neighbors := Function.update g.neighbors linknum r.1 }
      if info r.2 = ',' then scanNeighbors info fuel (r.2 + 1) (linknum + 1) g
      else some (r.2, { g with neighborNum := linknum + 1 }))

def scanOwn (info : Nat → Char) (lens index : Nat) : Nat → Nat → Nat → Globals → Option Globals
  | 0, _, _, _ => none
  | fuel + 1, count, select, g =>
    if count < lens then
      if info count ≠ ' ' then
        match select with
        | 0 =>
          scanOwn info lens index fuel ((setDeviceType info count g).1 + 1) 1
            (setDeviceType info count g).2
        | 1 =>
          (scanPosition info index count g).bind
            (fun r => scanOwn info lens index fuel (r.1 + 1) 2 r.2)
        | 2 =>
          (scanNeighbors info infoSize count 0 g).bind
            (fun r => scanOwn info lens index fuel (r.1 + 1) 3 r.2)
        | select => scanOwn info lens index fuel (count + 1) select g
      else scanOwn info lens index fuel (count + 1) select g
    else some g

/-- `switch(info[1])`, which tells the types apart. -/
def typeOf : Char → Option DeviceType
  | 'C' => some .zc
  | 'R' => some .zr
  | 'E' => some .zed
  | _ => none

/-- The file, the buffer, `shm_location` and the globals between two lines. -/
structure Reading where
  pFile : List Char
  info : Nat → Char
  shmLocation : Nat
  globals : Globals

/-- The counts, the size and the type that `switch(info[1])` records. -/
def countType (index : Nat) (s : Reading) : Reading :=
  match typeOf (s.info 1) with
  | some t =>
    { s with
      shmLocation := s.shmLocation + t.size
      globals := { s.globals with
        totalNetworkTypeDevice := Function.update s.globals.totalNetworkTypeDevice t
          (s.globals.totalNetworkTypeDevice t + 1)
        nodeType := Function.update s.globals.nodeType index (some t) } }
  | none => s

/-- One round of the loop over `index`.  Without a line the process exits, except at the
device's own line. -/
def fetchLine (deviceID index : Nat) (s : Reading) : Option Reading :=
  let g := { s.globals with
    nodeShmLocation := Function.update s.globals.nodeShmLocation index s.shmLocation }
  let (line, pFile) := fgets infoSize s.pFile
  if index ≠ deviceID then
    if line = [] then none
    else
      let s := countType index
        { pFile := pFile, info := load line s.info, shmLocation := s.shmLocation, globals := g }
      (scanOther s.info (strlen line) index infoSize 0 0 s.globals).map
        (fun g => { s with globals := g })
  else if line ≠ [] then
    let s := countType index
      { pFile := pFile, info := load line s.info, shmLocation := s.shmLocation
        globals := { g with beforeNetworkTypeDevice := g.totalNetworkTypeDevice } }
    (scanOwn s.info (strlen line) index infoSize 0 0 s.globals).map
      (fun g => { s with globals := g })
  else some { s with globals := g }

/-- `node_infofetch(DeviceID)` on the characters of the file, with whatever the buffer
held before. -/
def nodeInfofetch (pFile : List Char) (deviceID : Nat) (info : Nat → Char) (g : Globals) :
    Option Globals :=
  let (line, pFile) := fgets infoSize pFile
  if line = [] then none
  else
    let total := atoi line
    if (deviceID : Int) > total then none
    else
      (forUpTo (fun index s => s.bind (fetchLine deviceID index))
        (some
          { pFile := pFile, info := load line info, shmLocation := 0
            globals := { g with deviceID := deviceID, totalDeviceNum := total } })
        total.toNat).map (·.globals)

/-- `m2m_topology_init(DeviceID)` -/
def topologyInit (pFile : List Char) (deviceID : Nat) (info : Nat → Char) (g : Globals) :
    Option Globals :=
  nodeInfofetch pFile deviceID info
    { g with totalNetworkTypeDevice := fun _ => 0, beforeNetworkTypeDevice := fun _ => 0 }

def typeName : DeviceType → List Char
  | .zc => ['Z', 'C']
  | .zr => ['Z', 'R']
  | .zed => ['Z', 'E', 'D']

/-- The type that `strcmp(GlobalVND.DeviceType, ..)` finds. -/
def Globals.type (g : Globals) : Option DeviceType :=
  [DeviceType.zc, .zr, .zed].find? fun t =>
    (List.range 3).all fun k => g.deviceType k = (typeName t).getD k '\x00'

/-- The globals as the functions behind `node_infofetch` use them. -/
def Globals.toInfo (g : Globals) : Info where
  deviceID := g.deviceID
  totalDeviceNum := g.totalDeviceNum.toNat
  totalNetworkTypeDevice := g.totalNetworkTypeDevice
  beforeNetworkTypeDevice := g.beforeNetworkTypeDevice
  nodeType := g.nodeType
  nodeLocation i := (g.nodeLocation i 0, g.nodeLocation i 1, g.nodeLocation i 2)
  nodeMap := g.nodeMap
  nodeShmLocation := g.nodeShmLocation
  deviceType := g.type
  position := (g.position 0, g.position 1, g.position 2)
  neighbors := (List.range g.neighborNum).map g.neighbors
  neighborNum := g.neighborNum

/-- A line up to the first number of its links. -/
def lineHead (l : Line) : List Char :=
  typeName l.type ++ ([' ', '{'] ++
    (render [l.location.1, l.location.2.1, l.location.2.2] ++ ['}', ' ', '{']))

/-- `TYPE {x,y,z} {a,b,...}` -/
def lineText (l : Line) : List Char := lineHead l ++ (render l.links ++ ['}'])

def fileText (conf : Conf) : List Char :=
  Nat.toDigits 10 conf.totalDeviceNum ++
    '\n' :: conf.lines.flatMap (fun l => lineText l ++ ['\n'])

/-- A network as the file describes it. -/
structure Topology where
  conf : Conf
  readable : conf.Readable
  linked : ∀ l ∈ conf.lines, l.links ≠ []
  nodup : ∀ l ∈ conf.lines, l.links.Nodup
  location : ∀ l ∈ conf.lines,
    l.location.1 < 1000 ∧ l.location.2.1 < 1000 ∧ l.location.2.2 < 1000
  symm : ∀ a b, b ∈ conf.links a → a ∈ conf.links b

/-- The globals are those that the file describes for a device. -/
structure Recovered (conf : Conf) (deviceID : Nat) (g : Globals) : Prop where
  nodeType : ∀ i, g.nodeType i = (conf.line i).map (·.type)
  nodeLocation : ∀ i l, conf.line i = some l →
    (g.nodeLocation i 0, g.nodeLocation i 1, g.nodeLocation i 2) = l.location
  nodeMap : ∀ a b, g.nodeMap a b = if b ∈ conf.links a then 1 else 0
  deviceType : ∀ l, conf.line deviceID = some l →
    ∀ k < 3, g.deviceType k = (typeName l.type).getD k '\x00'
  position : ∀ l, conf.line deviceID = some l →
    (g.position 0, g.position 1, g.position 2) = l.location
  neighbors : (List.range g.neighborNum).map g.neighbors = conf.links deviceID
  nodeShmLocation : ∀ i, Device conf.lines.length i →
    g.nodeShmLocation i = ((conf.lines.take (i - 1)).map (·.type.size)).sum

def cutLinks (l : Line) : List Nat :=
  numbers ((render l.links).take (infoSize - 1 - (lineHead l).length))

/-- Every line but the last one fits into the buffer with its newline. -/
def Short (conf : Conf) : Prop := ∀ i l, i < conf.lines.length → conf.line i = some l →
  (lineText l).length + 1 < infoSize

/-- The buffer takes every line whole, and every line but the last with its newline. -/
structure Fitting (conf : Conf) : Prop where
  short : Short conf
  last : ∀ l, conf.line conf.lines.length = some l → (lineText l).length ≤ infoSize

/-- What the buffer cuts off the last line does not matter to a device. -/
def CutHarmless (conf : Conf) (deviceID : Nat) (last : Line) : Prop :=
  if deviceID = conf.lines.length then (lineText last).length ≤ infoSize
  else
    (∀ b ∈ cutLinks last, b ∈ last.links) ∧
      ∀ b ∈ [deviceID, conf.lines.length], b ∈ last.links → b ∈ cutLinks last

instance (conf : Conf) (deviceID : Nat) (last : Line) :
    Decidable (CutHarmless conf deviceID last) := inferInstanceAs (Decidable (ite _ _ _))

/-- The file is one that a device reads back. -/
structure Fits (conf : Conf) (deviceID : Nat) : Prop where
  noLoop : deviceID ∉ conf.links deviceID
  short : ∀ i l, i < conf.lines.length → conf.line i = some l →
    (lineText l).length + 1 < infoSize
  last : ∀ l, conf.line conf.lines.length = some l → CutHarmless conf deviceID l

end M2M.Network.TopologyFile
