import M2M.Network.NodeInfo
import M2M.Network.TopologyScan
import Mathlib.Data.Bool.AllAny

namespace M2M.Network.TopologyFile

open M2M.Lib.Decimal M2M.Lib.Loop M2M.Lib.Store M2M.Network.NodeInfo

theorem readLine_short {s : List Char} (hs : '\n' ∉ s) {room : Nat} (hroom : s.length < room)
    (rest : List Char) : readLine room (s ++ '\n' :: rest) = (s ++ ['\n'], rest) := by
  induction s generalizing room with
  | nil =>
    obtain ⟨room, rfl⟩ : ∃ m, room = m + 1 := ⟨room - 1, by simp at hroom; omega⟩
    simp [readLine]
  | cons c s ih =>
    obtain ⟨room, rfl⟩ : ∃ m, room = m + 1 := ⟨room - 1, by simp at hroom; omega⟩
    have hc : c ≠ '\n' := by
      rintro rfl
      exact hs (List.mem_cons_self ..)
    have hnext := ih (fun h => hs (List.mem_cons_of_mem c h)) (by simpa using hroom)
    simp [readLine, hc, hnext]

theorem readLine_end {s : List Char} (hs : '\n' ∉ s) {room : Nat} (hroom : s.length ≤ room) :
    readLine room (s ++ []) = (s, []) := by
  rw [List.append_nil]
  induction s generalizing room with
  | nil => cases room <;> rfl
  | cons c s ih =>
    obtain ⟨room, rfl⟩ : ∃ m, room = m + 1 := ⟨room - 1, by simp at hroom; omega⟩
    have hc : c ≠ '\n' := by
      rintro rfl
      exact hs (List.mem_cons_self ..)
    have hnext := ih (fun h => hs (List.mem_cons_of_mem c h)) (by simpa using hroom)
    simp [readLine, hc, hnext]

theorem readLine_long {s : List Char} (hs : '\n' ∉ s) {room : Nat} (hroom : room ≤ s.length)
    (rest : List Char) : readLine room (s ++ rest) = (s.take room, s.drop room ++ rest) := by
  induction room generalizing s with
  | zero => simp [readLine]
  | succ room ih =>
    obtain ⟨c, s, rfl⟩ := List.exists_cons_of_length_pos (show 0 < s.length by omega)
    have hc : c ≠ '\n' := by
      rintro rfl
      exact hs (List.mem_cons_self ..)
    have hnext := ih (fun h => hs (List.mem_cons_of_mem c h)) (by simpa using hroom)
    simp [readLine, hc, hnext]

theorem strlen_eq {s : List Char} (h : '\x00' ∉ s) : strlen s = s.length := by
  refine List.findIdx_eq_length_of_false ?_
  intro c hc
  have hne : c ≠ '\x00' := by
    rintro rfl
    exact h hc
  simpa using hne

def Plain (c : Char) : Prop := c.isDigit ∨ c ∈ [',', ' ', '{', '}', 'Z', 'C', 'R', 'E', 'D']

instance (c : Char) : Decidable (Plain c) := inferInstanceAs (Decidable (_ ∨ _))

theorem plain_of_all {s : List Char} (h : s.all (Plain ·) = true) : ∀ c ∈ s, Plain c :=
  List.all_iff_forall_prop.mp h

theorem plain_of_text {s : List Char} (h : ∀ c ∈ s, c.isDigit ∨ c = ',') : ∀ c ∈ s, Plain c := by
  intro c hc
  rcases h c hc with h | rfl
  · exact .inl h
  · exact .inr (by decide)

theorem plain_typeName (t : DeviceType) : ∀ c ∈ typeName t, Plain c := by
  cases t <;> exact plain_of_all (by decide)

theorem Head.plain (t : Head) : ∀ c ∈ t.text, Plain c := by
  intro c hc
  simp only [Head.text, List.mem_append] at hc
  rcases hc with hc | hc | hc | hc
  · exact plain_typeName t.type c hc
  · exact plain_of_all (by decide) c hc
  · exact plain_of_text t.isDigit_or_of_mem_coords c hc
  · exact plain_of_all (by decide) c hc

/-- A whole line, of which the list of links is `u`. -/
def Head.line (t : Head) (u : List Char) : List Char := t.text ++ (u ++ ['}'])

theorem Head.plain_line (t : Head) {u : List Char} (hu : ∀ c ∈ u, c.isDigit ∨ c = ',') :
    ∀ c ∈ t.line u, Plain c := by
  intro c hc
  simp only [Head.line, List.mem_append] at hc
  rcases hc with hc | hc | hc
  · exact t.plain c hc
  · exact plain_of_text hu c hc
  · exact plain_of_all (by decide) c hc

theorem plain_lineText (l : Line) : ∀ c ∈ lineText l, Plain c :=
  (Head.ofLine l).plain_line isDigit_or_of_mem_render

theorem notMem_lineText (l : Line) {c : Char} (h : ¬ Plain c) : c ∉ lineText l :=
  fun hc => h (plain_lineText l c hc)

def cutText (l : Line) : List Char :=
  (render l.links).take (infoSize - 1 - (lineHead l).length)

theorem cutText_eq {l : Line} (h : (lineText l).length ≤ infoSize) :
    cutText l = render l.links := by
  refine List.take_of_length_le ?_
  simp only [lineText, List.length_append, List.length_cons, List.length_nil] at h
  omega

section Chunk

variable {t : Head} {u tail : List Char}

theorem loaded_of_chunk (hu : ∀ c ∈ u, c.isDigit ∨ c = ',') (ht : Tail tail)
    (hlt : (t.text ++ (u ++ tail)).length < infoSize) (info : Nat → Char) :
    Loaded (load (t.text ++ (u ++ tail)) info) (strlen (t.text ++ (u ++ tail))) t u tail := by
  have hplain : '\x00' ∉ t.text ++ (u ++ tail) := by
    intro hmem
    simp only [List.mem_append] at hmem
    rcases hmem with hmem | hmem | hmem
    · exact absurd (t.plain _ hmem) (by decide)
    · exact absurd (hu _ hmem) (by decide)
    · cases ht <;> revert hmem <;> decide
  constructor
  case text => exact hu
  case isTail => exact ht
  case holds => simpa [load, List.append_assoc] using
      holds_store (t.text ++ (u ++ tail) ++ ['\x00']) info
  case lens_eq => exact strlen_eq hplain
  case lens_lt => rwa [strlen_eq hplain]

theorem exists_chunk (hu : ∀ c ∈ u, c.isDigit ∨ c = ',') (hhead : t.text.length < infoSize - 1)
    (rest : List Char) (hrest : rest.headD '\n' = '\n') :
    ∃ tail, Tail tail ∧
      (fgets infoSize (t.line u ++ rest)).1 =
        t.text ++ (u.take (infoSize - 1 - t.text.length) ++ tail) ∧
      t.text.length < (t.text ++ (u.take (infoSize - 1 - t.text.length) ++ tail)).length ∧
      (t.text ++ (u.take (infoSize - 1 - t.text.length) ++ tail)).length < infoSize := by
  have hnl : '\n' ∉ t.line u := fun h => absurd (t.plain_line hu _ h) (by decide)
  have hlen : (t.line u).length = t.text.length + u.length + 1 := by
    simp [Head.line, Nat.add_assoc]
  have hsize : infoSize = 40 := rfl
  rcases Nat.lt_or_ge (t.line u).length (infoSize - 1) with hlt | hge
  · rw [List.take_of_length_le (by omega)]
    cases rest with
    | nil =>
      refine ⟨_, .closed, ?_, ?_, ?_⟩
      · rw [fgets, readLine_end hnl hlt.le, Head.line]
      · simp only [List.length_append, List.length_cons, List.length_nil]
        omega
      · simp only [List.length_append, List.length_cons, List.length_nil]
        omega
    | cons c rest =>
      obtain rfl : c = '\n' := hrest
      refine ⟨_, .complete, ?_, ?_, ?_⟩
      · rw [fgets, readLine_short hnl hlt, Head.line]
        simp [List.append_assoc]
      · simp only [List.length_append, List.length_cons, List.length_nil]
        omega
      · simp only [List.length_append, List.length_cons, List.length_nil]
        omega
  · have hread : (fgets infoSize (t.line u ++ rest)).1 = t.text ++
        (u ++ ['}']).take (infoSize - 1 - t.text.length) := by
      rw [fgets, readLine_long hnl hge, Head.line, List.take_append,
        List.take_of_length_le (by omega)]
    rw [hread]
    rcases Nat.lt_or_ge u.length (infoSize - 1 - t.text.length) with hlt | hge'
    · rw [List.take_of_length_le (l := u) (by omega), List.take_of_length_le (by
        simp only [List.length_append, List.length_cons, List.length_nil]
        omega)]
      refine ⟨_, .closed, rfl, ?_, ?_⟩
      · simp only [List.length_append, List.length_cons, List.length_nil]
        omega
      · simp only [List.length_append, List.length_cons, List.length_nil]
        omega
    · refine ⟨_, .cut, ?_, ?_, ?_⟩
      · rw [List.take_append_of_le_length hge', List.append_nil]
      · simp only [List.length_append, List.length_nil, List.length_take]
        omega
      · simp only [List.length_append, List.length_nil, List.length_take]
        omega

theorem loaded_fgets (hu : ∀ c ∈ u, c.isDigit ∨ c = ',') (hhead : t.text.length < infoSize - 1)
    (rest : List Char) (hrest : rest.headD '\n' = '\n') :
    t.text.length < strlen (fgets infoSize (t.line u ++ rest)).1 ∧
    ∃ tail, ∀ info, Loaded (load (fgets infoSize (t.line u ++ rest)).1 info)
      (strlen (fgets infoSize (t.line u ++ rest)).1) t
      (u.take (infoSize - 1 - t.text.length)) tail := by
  obtain ⟨tail, ht, hchunk, hroom, hlt⟩ := exists_chunk hu hhead rest hrest
  have hload := loaded_of_chunk (fun c hc => hu c (List.mem_of_mem_take hc)) ht hlt
  refine ⟨?_, tail, hchunk ▸ hload⟩
  rwa [hchunk, (hload fun _ => '\x00').lens_eq]

end Chunk

theorem fgets_ne_nil (l : Line) (hhead : (lineHead l).length < infoSize - 1) (rest : List Char) :
    (fgets infoSize (lineText l ++ '\n' :: rest)).1 ≠ [] := by
  obtain ⟨tail, -, hchunk, -, -⟩ := exists_chunk (t := .ofLine l) isDigit_or_of_mem_render
    hhead ('\n' :: rest) rfl
  refine ne_of_eq_of_ne hchunk ?_
  cases h : l.type <;> simp [Head.text, Head.ofLine, h, typeName]

/-- The arrays hold what the line-wise reading says. -/
structure Refines (g : Globals) (s : Info) : Prop where
  deviceID : g.deviceID = s.deviceID
  totalDeviceNum : g.totalDeviceNum = s.totalDeviceNum
  total : g.totalNetworkTypeDevice = s.totalNetworkTypeDevice
  before : g.beforeNetworkTypeDevice = s.beforeNetworkTypeDevice
  nodeType : g.nodeType = s.nodeType
  nodeLocation : ∀ i,
    (g.nodeLocation i 0, g.nodeLocation i 1, g.nodeLocation i 2) = s.nodeLocation i
  nodeMap : g.nodeMap = s.nodeMap
  nodeShmLocation : g.nodeShmLocation = s.nodeShmLocation
  deviceType : ∀ k < 3, g.deviceType k = (s.deviceType.elim [] typeName).getD k '\x00'
  position : (g.position 0, g.position 1, g.position 2) = s.position
  neighbors : (List.range g.neighborNum).map g.neighbors = s.neighbors
  neighborNum : g.neighborNum = s.neighborNum

theorem refines_toInfo {g : Globals} (hnum : 0 ≤ g.totalDeviceNum)
    (htype : ∀ k < 3, g.deviceType k = '\x00') : Refines g { g.toInfo with deviceType := none } where
  deviceID := rfl
  totalDeviceNum := (Int.toNat_of_nonneg hnum).symm
  total := rfl
  before := rfl
  nodeType := rfl
  nodeLocation _ := rfl
  nodeMap := rfl
  nodeShmLocation := rfl
  deviceType := htype
  position := rfl
  neighbors := rfl
  neighborNum := rfl

theorem refines_fresh : Refines .fresh .fresh := refines_toInfo le_rfl fun _ _ => rfl

theorem Refines.type_eq {g : Globals} {s : Info} (h : Refines g s) : g.type = s.deviceType := by
  have h₀ := h.deviceType 0 (by decide)
  have h₁ := h.deviceType 1 (by decide)
  have h₂ := h.deviceType 2 (by decide)
  have hrange : List.range 3 = [0, 1, 2] := rfl
  simp only [Globals.type, hrange, List.all_cons, List.all_nil, h₀, h₁, h₂]
  cases s.deviceType with
  | none => rfl
  | some t => cases t <;> rfl

theorem Refines.toInfo_eq {g : Globals} {s : Info} (h : Refines g s) : g.toInfo = s := by
  have hlocation : (fun i => (g.nodeLocation i 0, g.nodeLocation i 1, g.nodeLocation i 2)) =
      s.nodeLocation := funext h.nodeLocation
  rw [Globals.toInfo, h.deviceID, h.totalDeviceNum, Int.toNat_natCast, h.total, h.before,
    h.nodeType, hlocation, h.nodeMap, h.nodeShmLocation, h.type_eq, h.position, h.neighbors,
    h.neighborNum]

theorem locate_eq (index i : Nat) (location : Nat × Nat × Nat) (nodeLocation : Nat → Nat → Nat) :
    (locate index location nodeLocation i 0, locate index location nodeLocation i 1,
      locate index location nodeLocation i 2) =
    if i = index then location
    else (nodeLocation i 0, nodeLocation i 1, nodeLocation i 2) := by
  by_cases hi : i = index
  · simp [locate, setLocation, hi]
  · simp [locate, setLocation, hi]

theorem typeOf_name {info : Nat → Char} {t : DeviceType} {s : List Char}
    (h : Holds info 0 (typeName t ++ s)) : typeOf (info 1) = some t := by
  have h₁ := (holds_append.mp h).1
  cases t <;> rw [h₁.2.1] <;> rfl

theorem Loaded.typeOf {info : Nat → Char} {lens : Nat} {t : Head} {u tail : List Char}
    (h : Loaded info lens t u tail) : typeOf (info 1) = some t.type := by
  have hhead := (holds_append.mp h.holds).1
  exact typeOf_name hhead

theorem Loaded.countType {s : Reading} {lens index : Nat} {t : Head} {u tail : List Char}
    (h : Loaded s.info lens t u tail) : countType index s =
      { s with
        shmLocation := s.shmLocation + t.type.size
        globals := { s.globals with
          totalNetworkTypeDevice := Function.update s.globals.totalNetworkTypeDevice t.type
            (s.globals.totalNetworkTypeDevice t.type + 1)
          nodeType := Function.update s.globals.nodeType index (some t.type) } } := by
  simp only [TopologyFile.countType, h.typeOf]

theorem Loaded.ne_nil {line : List Char} {info : Nat → Char} {t : Head} {u tail : List Char}
    (h : Loaded info (strlen line) t u tail) : line ≠ [] := by
  rintro rfl
  have hlens := h.lens_sum
  have hlen := t.length_text
  change 0 = _ at hlens
  omega

section Step

variable {deviceID index : Nat} {s : Reading} {v : Info} {t : Head} {u tail : List Char}

theorem fetchOther_refines (hr : Refines s.globals v) (hne : index ≠ deviceID)
    (hload : Loaded (load (fgets infoSize s.pFile).1 s.info)
      (strlen (fgets infoSize s.pFile).1) t u tail) :
    ∃ s', fetchLine deviceID index s = some s' ∧
      s'.pFile = (fgets infoSize s.pFile).2 ∧ s'.shmLocation = s.shmLocation + t.type.size ∧
      s'.globals.neighbors = s.globals.neighbors ∧
      Refines s'.globals (fetchOther index ⟨t.type, t.location, numbers u⟩
        { v with nodeShmLocation := Function.update v.nodeShmLocation index s.shmLocation }) := by
  refine ⟨_, by
    rw [fetchLine]
    simp only [if_pos hne, if_neg hload.ne_nil]
    rw [Loaded.countType hload, hload.scanOther_spec, Option.map_some], ?_, ?_, ?_, ?_⟩
  · rfl
  · rfl
  · rfl
  constructor
  case deviceID => exact hr.deviceID
  case totalDeviceNum => exact hr.totalDeviceNum
  case total => simp only [hr.total]; rfl
  case before => exact hr.before
  case nodeType => simp only [hr.nodeType]; rfl
  case nodeLocation =>
    intro i
    simp only [locate_eq, hr.nodeLocation]
    exact (Function.update_apply ..).symm
  case nodeMap => simp only [hr.nodeMap]; rfl
  case nodeShmLocation => simp only [hr.nodeShmLocation]; rfl
  case deviceType => exact hr.deviceType
  case position => exact hr.position
  case neighbors => exact hr.neighbors
  case neighborNum => exact hr.neighborNum

theorem fetchOwn_refines (hr : Refines s.globals v) (hown : v.deviceType = none)
    (hroom : t.text.length < strlen (fgets infoSize s.pFile).1)
    (hload : Loaded (load (fgets infoSize s.pFile).1 s.info)
      (strlen (fgets infoSize s.pFile).1) t u tail) :
    ∃ s', fetchLine index index s = some s' ∧
      s'.pFile = (fgets infoSize s.pFile).2 ∧ s'.shmLocation = s.shmLocation + t.type.size ∧
      s'.globals.neighbors = store (fields u) s.globals.neighbors ∧
      Refines s'.globals (fetchOwn index ⟨t.type, t.location, fields u⟩
        { v with nodeShmLocation := Function.update v.nodeShmLocation index s.shmLocation }) := by
  refine ⟨_, by
    rw [fetchLine]
    simp only [ne_eq, not_true, if_false, hload.ne_nil, not_false_eq_true, if_true]
    rw [Loaded.countType hload, hload.scanOwn_spec hroom, Option.map_some], ?_, ?_, ?_, ?_⟩
  · rfl
  · rfl
  · rfl
  constructor
  case deviceID => exact hr.deviceID
  case totalDeviceNum => exact hr.totalDeviceNum
  case total => simp only [hr.total]; rfl
  case before => simp only [hr.total]; rfl
  case nodeType => simp only [hr.nodeType]; rfl
  case nodeLocation =>
    intro i
    simp only [locate_eq, hr.nodeLocation]
    exact (Function.update_apply ..).symm
  case nodeMap => exact hr.nodeMap
  case nodeShmLocation => simp only [hr.nodeShmLocation]; rfl
  case deviceType =>
    intro k hk
    have hold : s.globals.deviceType k = '\x00' := by
      rw [hr.deviceType k hk, hown]
      rfl
    change store _ _ k = _
    rw [store, hold]
    rfl
  case position => rfl
  case neighbors => exact map_range_store _ _
  case neighborNum => rfl

end Step

/-- The lines that a device takes from a file, from device `index` on. -/
def Yields (deviceID : Nat) : Nat → List Line → List Char → Prop
  | _, [], _ => True
  | index, l :: lines, file =>
    (∃ t u tail, t.text.length < strlen (fgets infoSize file).1 ∧
      (∀ info,
        Loaded (load (fgets infoSize file).1 info) (strlen (fgets infoSize file).1) t u tail) ∧
      l = ⟨t.type, t.location, if index = deviceID then fields u else numbers u⟩) ∧
    Yields deviceID (index + 1) lines (fgets infoSize file).2

/-- The links that a device takes from the line of device `index`. -/
def readLinks (deviceID index : Nat) (l : Line) : List Nat :=
  if index = deviceID then fields (cutText l) else cutLinks l

/-- The file as it reaches a device through the line buffer. -/
def readConf (conf : Conf) (deviceID : Nat) : Conf :=
  { conf with
    lines := conf.lines.mapIdx (fun k l => { l with links := readLinks deviceID (k + 1) l }) }

theorem line_readConf (conf : Conf) (deviceID i : Nat) :
    (readConf conf deviceID).line i =
      (conf.line i).map (fun l => { l with links := readLinks deviceID i l }) := by
  cases i with
  | zero => rfl
  | succ i => exact List.getElem?_mapIdx

theorem atoi_toDigits (n : Nat) (rest : List Char) :
    atoi (Nat.toDigits 10 n ++ '\n' :: rest) = n := by
  obtain ⟨c, cs, hc⟩ := List.exists_cons_of_ne_nil (@Nat.toDigits_ne_nil n 10)
  have hdigit : c.isDigit := isDigit_toDigits (hc ▸ List.mem_cons_self ..)
  have hspace : isSpace c = false := by
    have hrange := Char.isDigit_iff_toNat.mp hdigit
    have hblank : c ≠ ' ' := by
      rintro rfl
      exact absurd hdigit (by decide)
    have hle : ¬ c ≤ '\r' := by
      rw [Char.le_def, UInt32.le_iff_toNat_le]
      exact fun h => absurd (hrange.1.trans h) (by decide)
    simp [isSpace, hblank, hle]
  have htake : (Nat.toDigits 10 n ++ '\n' :: rest).takeWhile Char.isDigit = Nat.toDigits 10 n := by
    rw [List.takeWhile_append_of_pos (fun d hd => isDigit_toDigits hd)]
    simp
  have hdrop : (Nat.toDigits 10 n ++ '\n' :: rest).dropWhile isSpace =
      Nat.toDigits 10 n ++ '\n' :: rest := by
    rw [hc, List.cons_append, List.dropWhile_cons_of_neg (by simp [hspace])]
  rw [atoi, hdrop]
  split
  · rename_i heq
    rw [hc] at heq
    rw [(List.cons.inj heq).1] at hdigit
    exact absurd hdigit (by decide)
  · rename_i heq
    rw [hc] at heq
    rw [(List.cons.inj heq).1] at hdigit
    exact absurd hdigit (by decide)
  · rw [htake, Nat.ofDigitChars_ten_toDigits]

def linesText (lines : List Line) : List Char := lines.flatMap (fun l => lineText l ++ ['\n'])

@[simp] theorem linesText_cons (l : Line) (lines : List Line) :
    linesText (l :: lines) = lineText l ++ '\n' :: linesText lines := by
  simp [linesText]

theorem fgets_short {l : Line} (h : (lineText l).length + 1 < infoSize) (rest : List Char) :
    (fgets infoSize (lineText l ++ '\n' :: rest)).2 = rest := by
  rw [fgets, readLine_short (notMem_lineText l (by decide)) (by
    have : infoSize = 40 := rfl
    omega)]

/-- The loop over the lines does to the arrays `g₀` what it does to the line-wise globals. -/
structure Simulates (conf : Conf) (deviceID : Nat) (g₀ : Globals) (k : Nat) (s : Reading)
    (loc : Nat) (v : Info) : Prop where
  shmLocation : s.shmLocation = loc
  globals : Refines s.globals v
  file : Yields deviceID (k + 1) (conf.lines.drop k) s.pFile
  before : k < deviceID → v.deviceType = none ∧ s.globals.neighbors = g₀.neighbors
  behind : deviceID ≤ k → s.globals.neighbors = store v.neighbors g₀.neighbors

theorem Simulates.next {conf : Conf} {deviceID k loc : Nat} {g₀ : Globals} {s : Reading}
    {v : Info} (h : Simulates conf deviceID g₀ k s loc v) (hk : k < conf.lines.length) :
    ∃ s' loc' w, fetchLine deviceID (k + 1) s = some s' ∧
      NodeInfo.fetchLine conf deviceID (k + 1) loc v = some (loc', w) ∧
      Simulates conf deviceID g₀ (k + 1) s' loc' w := by
  have hline : conf.line (k + 1) = some conf.lines[k] := List.getElem?_eq_getElem hk
  have hfile := h.file
  rw [List.drop_eq_getElem_cons hk] at hfile
  obtain ⟨⟨t, u, tail, hroom, hload, hl⟩, hnext⟩ := hfile
  rw [hl] at hline
  by_cases hid : k + 1 = deviceID
  · subst hid
    obtain ⟨htype, hlist⟩ := h.before (by omega)
    obtain ⟨s', hs, hpf, hloc, hlist', href⟩ := fetchOwn_refines h.globals htype hroom
      (hload s.info)
    refine ⟨s', _, _, hs, by
      simp only [NodeInfo.fetchLine, hline, ne_eq, not_true, if_false]
      rfl, ?_⟩
    constructor
    case shmLocation => rw [hloc, h.shmLocation]
    case globals => simpa [h.shmLocation] using href
    case file => rwa [hpf]
    case before => omega
    case behind =>
      intro _
      rw [hlist', hlist]
      simp [fetchOwn]
  · obtain ⟨s', hs, hpf, hloc, hlist', href⟩ := fetchOther_refines h.globals hid (hload s.info)
    refine ⟨s', _, _, hs, by
      simp only [NodeInfo.fetchLine, hline, ne_eq, hid, not_false_eq_true, if_true]
      rfl, ?_⟩
    constructor
    case shmLocation => rw [hloc, h.shmLocation]
    case globals => simpa [hid, h.shmLocation] using href
    case file => rwa [hpf]
    case before =>
      intro hlt
      obtain ⟨htype, hlist⟩ := h.before (by omega)
      exact ⟨htype, hlist'.trans hlist⟩
    case behind => exact fun hle => hlist'.trans (h.behind (by omega))

theorem fgets_count {n : Nat} (hn : n < maxNodeNum) (rest : List Char) :
    fgets infoSize (Nat.toDigits 10 n ++ '\n' :: rest) = (Nat.toDigits 10 n ++ ['\n'], rest) := by
  have hlen : (Nat.toDigits 10 n).length ≤ 2 :=
    (Nat.length_toDigits_le_iff (by decide) (by decide)).mpr hn
  refine readLine_short ?_ (Nat.lt_of_le_of_lt hlen (by decide)) rest
  exact fun h => absurd (isDigit_toDigits h) (by decide)

/-- What the count line leaves behind. -/
def afterCount (conf : Conf) (deviceID : Nat) (info : Nat → Char) : Reading where
  pFile := linesText conf.lines
  info := load (Nat.toDigits 10 conf.totalDeviceNum ++ ['\n']) info
  shmLocation := 0
  globals := { Globals.fresh with deviceID := deviceID, totalDeviceNum := conf.totalDeviceNum }

section Count

variable {file line rest : List Char} {n deviceID : Nat}

theorem nodeInfofetch_loop (hfile : fgets infoSize file = (line, rest)) (hline : line ≠ [])
    (hn : atoi line = n) (hd : deviceID ≤ n) (info : Nat → Char) (g₀ : Globals) :
    nodeInfofetch file deviceID info g₀ =
      (forUpTo (fun index s => s.bind (fetchLine deviceID index))
        (some
          { pFile := rest, info := load line info, shmLocation := 0
            globals := { g₀ with deviceID := deviceID, totalDeviceNum := n } })
        n).map (·.globals) := by
  have hle : ¬ (deviceID : Int) > n := by omega
  rw [nodeInfofetch, hfile]
  simp only [if_neg hline, hn, if_neg hle, Int.toNat_natCast]

theorem nodeInfofetch_yields (conf : Conf) (hc : conf.totalDeviceNum = conf.lines.length)
    (hfile : fgets infoSize file = (line, rest)) (hline : line ≠ [])
    (hn : atoi line = conf.totalDeviceNum) (hrest : Yields deviceID 1 conf.lines rest)
    (hd : Device conf.totalDeviceNum deviceID) (info : Nat → Char) {g₀ : Globals} {v₀ : Info}
    (h₀ : Refines g₀ v₀) (htype : v₀.deviceType = none) :
    ∃ g v, topologyInit file deviceID info g₀ = some g ∧
      NodeInfo.topologyInit conf deviceID v₀ = some v ∧ Refines g v ∧
      g.neighbors = store v.neighbors g₀.neighbors := by
  have hloop : ∃ s loc v,
      forUpTo (fun index s => s.bind (fetchLine deviceID index))
        (some
          { pFile := rest, info := load line info, shmLocation := 0
            globals :=
              { g₀ with
                totalNetworkTypeDevice := fun _ => 0
                beforeNetworkTypeDevice := fun _ => 0
                deviceID := deviceID
                totalDeviceNum := conf.totalDeviceNum } })
        conf.totalDeviceNum = some s ∧
      forUpTo
        (fun index st => st.bind (fun st => NodeInfo.fetchLine conf deviceID index st.1 st.2))
        (some (0, { v₀.cleared with
          deviceID := deviceID, totalDeviceNum := conf.totalDeviceNum }))
        conf.totalDeviceNum = some (loc, v) ∧
      Simulates conf deviceID g₀ conf.totalDeviceNum s loc v := by
    refine forUpTo_rel
      (fun k st st' => ∃ s loc v, st = some s ∧ st' = some (loc, v) ∧
        Simulates conf deviceID g₀ k s loc v) ?_ ?_
    · refine ⟨_, _, _, rfl, rfl, ?_⟩
      have hpos := hd.1
      constructor
      case shmLocation => rfl
      case globals =>
        exact { h₀ with deviceID := rfl, totalDeviceNum := rfl, total := rfl, before := rfl }
      case file => exact hrest
      case before => exact fun _ => ⟨htype, rfl⟩
      case behind => omega
    · rintro k _ _ hk ⟨s, loc, v, rfl, rfl, hs⟩
      exact hs.next (hc ▸ hk)
  obtain ⟨s, loc, v, hs, hv, hsim⟩ := hloop
  refine ⟨s.globals, v, ?_, ?_, hsim.globals, hsim.behind hd.2⟩
  · rw [topologyInit, nodeInfofetch_loop hfile hline hn hd.2, hs, Option.map_some]
  · have hle : ¬ deviceID > conf.totalDeviceNum := Nat.not_lt.mpr hd.2
    rw [NodeInfo.topologyInit, NodeInfo.nodeInfofetch]
    simp only [if_neg hle]
    exact congrArg (Option.map Prod.snd) hv

end Count

theorem nodeInfofetch_eq {conf : Conf} (hc : conf.Readable) {deviceID : Nat}
    (hd : deviceID ≤ conf.totalDeviceNum) (info : Nat → Char) :
    nodeInfofetch (fileText conf) deviceID info .fresh =
      (forUpTo (fun index s => s.bind (fetchLine deviceID index))
        (some (afterCount conf deviceID info)) conf.totalDeviceNum).map (·.globals) :=
  nodeInfofetch_loop (fgets_count hc.size (linesText conf.lines)) (by simp)
    (atoi_toDigits conf.totalDeviceNum []) hd info .fresh

theorem yields_linesText (deviceID : Nat) {lines : List Line} (index : Nat)
    (hhead : ∀ l ∈ lines, (lineHead l).length < infoSize - 1)
    (hshort : ∀ l ∈ lines.dropLast, (lineText l).length + 1 < infoSize) :
    Yields deviceID index
      (lines.mapIdx (fun k l => { l with links := readLinks deviceID (k + index) l }))
      (linesText lines) := by
  induction lines generalizing index with
  | nil => trivial
  | cons l lines ih =>
    rw [List.mapIdx_cons, linesText_cons, Nat.zero_add]
    refine ⟨?_, ?_⟩
    · obtain ⟨hroom, tail, hload⟩ := loaded_fgets (t := .ofLine l) isDigit_or_of_mem_render
        (hhead l (List.mem_cons_self ..)) ('\n' :: linesText lines) rfl
      refine ⟨_, _, tail, hroom, hload, ?_⟩
      rw [Head.location_ofLine]
      rfl
    · have hnext := ih (index + 1) (fun m hm => hhead m (List.mem_cons_of_mem l hm))
        (by
          intro m hm
          cases lines with
          | nil => cases hm
          | cons _ _ => exact hshort m (List.mem_cons_of_mem l hm))
      cases lines with
      | nil => trivial
      | cons m lines =>
        rw [fgets_short (hshort l (List.mem_cons_self ..))]
        simpa [Nat.add_comm, Nat.add_left_comm] using hnext

theorem topologyInit_refines {conf : Conf} (hc : conf.Readable) {deviceID : Nat}
    (hd : Device conf.totalDeviceNum deviceID)
    (hhead : ∀ l ∈ conf.lines, (lineHead l).length < infoSize - 1)
    (hshort : ∀ i l, i < conf.lines.length → conf.line i = some l →
      (lineText l).length + 1 < infoSize) (info : Nat → Char) {g₀ : Globals} {v₀ : Info}
    (h₀ : Refines g₀ v₀) (htype : v₀.deviceType = none) :
    ∃ g v, topologyInit (fileText conf) deviceID info g₀ = some g ∧
      NodeInfo.topologyInit (readConf conf deviceID) deviceID v₀ = some v ∧ Refines g v ∧
      g.neighbors = store v.neighbors g₀.neighbors := by
  have hbut : ∀ l ∈ conf.lines.dropLast, (lineText l).length + 1 < infoSize := by
    intro l hl
    obtain ⟨k, hk, rfl⟩ := List.mem_iff_getElem.mp hl
    have hlt : k + 1 < conf.lines.length := by
      rw [List.length_dropLast] at hk
      omega
    refine hshort (k + 1) _ hlt ?_
    rw [List.getElem_dropLast]
    exact List.getElem?_eq_getElem (by omega)
  have hread := yields_linesText deviceID 1 hhead hbut
  exact nodeInfofetch_yields (readConf conf deviceID) (by simp [readConf, hc.complete])
    (fgets_count hc.size (linesText conf.lines)) (by simp) (atoi_toDigits conf.totalDeviceNum [])
    hread hd info h₀ htype

theorem nodeInfofetch_refines {conf : Conf} (hc : conf.Readable) {deviceID : Nat}
    (hd : Device conf.totalDeviceNum deviceID)
    (hhead : ∀ l ∈ conf.lines, (lineHead l).length < infoSize - 1)
    (hshort : ∀ i l, i < conf.lines.length → conf.line i = some l →
      (lineText l).length + 1 < infoSize) (info : Nat → Char) :
    ∃ g v, nodeInfofetch (fileText conf) deviceID info .fresh = some g ∧
      NodeInfo.topologyInit (readConf conf deviceID) deviceID .fresh = some v ∧ Refines g v := by
  obtain ⟨g, v, hg, hv, href, -⟩ :=
    topologyInit_refines hc hd hhead hshort info refines_fresh rfl
  exact ⟨g, v, hg, hv, href⟩

end M2M.Network.TopologyFile
