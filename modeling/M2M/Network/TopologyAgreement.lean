import M2M.Network.TopologyReading

namespace M2M.Network.TopologyFile

open M2M.Lib.Decimal M2M.Lib.Store M2M.Network.NodeInfo

/-- A line as it is written, with the digits of its numbers. -/
structure Written extends Head where
  links : List (List Char)
  linked : links ≠ []
  link_ne_nil : ∀ s ∈ links, s ≠ []
  link_isDigit : ∀ s ∈ links, ∀ c ∈ s, c.isDigit

namespace Written

variable (w : Written)

def linksText : List Char := [','].intercalate w.links

/-- `TYPE {x,y,z} {a,b,...}` -/
def chars : List Char := w.toHead.line w.linksText

def linkIDs : List Nat := w.links.map (Nat.ofDigitChars 10 · 0)

/-- The links are columns of `NODE_MAP`; an ID beyond them is written outside its row. -/
def InMap : Prop := ∀ v ∈ w.linkIDs, v < maxNodeNum

instance : Decidable w.InMap := inferInstanceAs (Decidable (∀ v ∈ w.linkIDs, v < maxNodeNum))

def toLine : NodeInfo.Line := ⟨w.type, w.location, w.linkIDs⟩

theorem fields_linksText : fields w.linksText = w.linkIDs :=
  fields_intercalate w.linked w.link_isDigit

theorem numbers_linksText : numbers w.linksText = w.linkIDs :=
  numbers_intercalate w.linked w.link_ne_nil w.link_isDigit

theorem linksText_ne_nil : w.linksText ≠ [] := by
  intro h
  have hfields := w.fields_linksText
  have hnumbers := w.numbers_linksText
  rw [h] at hfields hnumbers
  rw [← hnumbers] at hfields
  cases hfields

theorem isDigit_or_of_mem_linksText : ∀ c ∈ w.linksText, c.isDigit ∨ c = ',' :=
  isDigit_or_of_mem_intercalate w.link_isDigit

theorem length_chars : w.chars.length = w.toHead.text.length + w.linksText.length + 1 := by
  simp [chars, Head.line, Nat.add_assoc]

theorem newline_notMem_chars : '\n' ∉ w.chars :=
  fun h => absurd (w.toHead.plain_line w.isDigit_or_of_mem_linksText _ h) (by decide)

theorem loaded {w : Written} (hlen : w.chars.length < infoSize) (rest : List Char)
    (hrest : rest.headD '\n' = '\n') :
    w.toHead.text.length < strlen (fgets infoSize (w.chars ++ rest)).1 ∧
    ∃ tail, ∀ info, Loaded (load (fgets infoSize (w.chars ++ rest)).1 info)
      (strlen (fgets infoSize (w.chars ++ rest)).1) w.toHead w.linksText tail := by
  have hpos := List.length_pos_iff.mpr w.linksText_ne_nil
  have hsize : infoSize = 40 := rfl
  rw [length_chars] at hlen
  obtain ⟨hroom, tail, h⟩ := loaded_fgets w.isDigit_or_of_mem_linksText
    (show w.toHead.text.length < infoSize - 1 by omega) rest hrest
  rw [List.take_of_length_le (by omega)] at h
  exact ⟨hroom, tail, h⟩

end Written

/-- The number of elements of `GlobalVND.Neighbors`. -/
def neighborsSize : Nat := 8

/-- `GlobalVND.Neighbors[ind]`; `NeighborNum` lies behind the eight elements. -/
def Globals.neighbor (g : Globals) (ind : Nat) : Nat :=
  if ind = neighborsSize then g.neighborNum else g.neighbors ind

/-- `Neighbors[0..NeighborNum)` -/
def Globals.ownLinks (g : Globals) : List Nat := (List.range g.neighborNum).map g.neighbor

theorem ownLinks_eq {g : Globals} (h : g.neighborNum ≤ neighborsSize) :
    g.ownLinks = (List.range g.neighborNum).map g.neighbors := by
  unfold Globals.ownLinks
  apply List.map_congr_left
  intro k hk
  have hlt := List.mem_range.mp hk
  rw [Globals.neighbor, if_neg (by omega)]

/-- The own-line parser stores of a line what the other-line parser stores of it. -/
structure SameLine (index : Nat) (g own other : Globals) : Prop where
  location : ∀ k < 3, own.position k = other.nodeLocation index k
  links : ∀ v, other.nodeMap index v = if v ∈ own.ownLinks then 1 else g.nodeMap index v

/-- Both parsers read the line, wherever it stands in a file, and store the same. -/
def ParsersAgree (w : Written) : Prop :=
  ∀ rest : List Char, rest.headD '\n' = '\n' → ∀ (info : Nat → Char) (index : Nat),
    index < maxNodeNum → ∀ g g' : Globals, ∃ own other,
      scanOwn (load (fgets infoSize (w.chars ++ rest)).1 info)
        (strlen (fgets infoSize (w.chars ++ rest)).1) index infoSize 0 0 g = some own ∧
      scanOther (load (fgets infoSize (w.chars ++ rest)).1 info)
        (strlen (fgets infoSize (w.chars ++ rest)).1) index infoSize 0 0 g' = some other ∧
      SameLine index g' own other

theorem parsersAgree_of_few {w : Written} (hlen : w.chars.length < infoSize)
    (hfew : w.links.length ≤ neighborsSize) : ParsersAgree w := by
  intro rest hrest info index _ g g'
  obtain ⟨hroom, tail, h⟩ := Written.loaded hlen rest hrest
  refine ⟨_, _, (h info).scanOwn_spec hroom index g, (h info).scanOther_spec index g',
    ?_, ?_⟩
  · intro k hk
    have hcases : k = 0 ∨ k = 1 ∨ k = 2 := by omega
    rcases hcases with rfl | rfl | rfl <;> simp [store, locate, setLocation]
  · intro v
    rw [ownLinks_eq (by simpa [w.fields_linksText, Written.linkIDs] using hfew)]
    simp only [map_range_store, w.fields_linksText, w.numbers_linksText, enterLinks_eq, true_and]
    refine if_congr ?_ rfl rfl
    constructor
    · rintro (hv | ⟨rfl, hv⟩)
      · exact hv
      · exact hv
    · exact .inl

def confOf (lines : List Written) : Conf := ⟨lines.length, lines.map Written.toLine⟩

/-- A file with symmetric links, of which every line fits into the buffer with its newline. -/
structure File where
  count : List Char
  lines : List Written
  newline_notMem : '\n' ∉ count
  count_lt : count.length + 1 < infoSize
  atoi_eq : atoi (count ++ ['\n']) = lines.length
  size : lines.length < maxNodeNum
  short : ∀ w ∈ lines, w.chars.length + 1 < infoSize
  symm : ∀ a ≤ lines.length, ∀ b ∈ (confOf lines).links a, a ∈ (confOf lines).links b

namespace File

/-- The links that the line of device `index` names. -/
def links (f : File) (index : Nat) : List Nat := (confOf f.lines).links index

def linesText (lines : List Written) : List Char := lines.flatMap (fun w => w.chars ++ ['\n'])

def text (f : File) : List Char := f.count ++ '\n' :: linesText f.lines

theorem yields (deviceID : Nat) {lines : List Written}
    (hshort : ∀ w ∈ lines, w.chars.length + 1 < infoSize) (index : Nat) :
    Yields deviceID index (lines.map Written.toLine) (linesText lines) := by
  induction lines generalizing index with
  | nil => trivial
  | cons w lines ih =>
    have hw := hshort w (List.mem_cons_self ..)
    have hsize : infoSize = 40 := rfl
    have htext : linesText (w :: lines) = w.chars ++ '\n' :: linesText lines := by
      simp [linesText]
    rw [htext]
    constructor
    · obtain ⟨hroom, tail, h⟩ := Written.loaded (show w.chars.length < infoSize by omega)
        ('\n' :: linesText lines) rfl
      refine ⟨_, _, tail, hroom, h, ?_⟩
      rw [w.fields_linksText, w.numbers_linksText, ite_self]
      rfl
    · rw [fgets, readLine_short w.newline_notMem_chars (by omega)]
      exact ih (fun x hx => hshort x (List.mem_cons_of_mem w hx)) (index + 1)

/-- What a device has read of a symmetric file. -/
structure Read (f : File) (deviceID : Nat) (g : Globals) : Prop where
  nodeMap : ∀ a b, g.nodeMap a b = if b ∈ f.links a ∧ ¬ (a = deviceID ∧ b = deviceID) then 1 else 0
  ownLinks : (f.links deviceID).length ≤ neighborsSize → g.ownLinks = f.links deviceID

theorem mem_links_device {f : File} {a b : Nat} (h : b ∈ f.links a) : Device f.lines.length a := by
  unfold links Conf.links at h
  cases a with
  | zero => cases h
  | succ a =>
    cases hl : (confOf f.lines).line (a + 1) with
    | none => simp [hl] at h
    | some l =>
      have hlt := (List.getElem?_eq_some_iff.mp hl).1
      have hlen : (confOf f.lines).lines.length = f.lines.length := by simp [confOf]
      exact ⟨by omega, by omega⟩

theorem mem_links_comm {f : File} {a b : Nat} (h : b ∈ f.links a) : a ∈ f.links b :=
  f.symm a (mem_links_device h).2 b h

theorem entered_iff (f : File) (deviceID a b : Nat) :
    Entered (confOf f.lines) deviceID f.lines.length a b ↔
      b ∈ f.links a ∧ ¬ (a = deviceID ∧ b = deviceID) := by
  constructor
  · rintro (⟨-, hne, hb⟩ | ⟨-, hne, ha⟩)
    · exact ⟨hb, fun h => hne h.1⟩
    · exact ⟨mem_links_comm ha, fun h => hne h.2⟩
  · rintro ⟨hb, hne⟩
    have ha := mem_links_comm hb
    by_cases h : a = deviceID
    · exact .inr ⟨mem_links_device ha, fun h' => hne ⟨h, h'⟩, ha⟩
    · exact .inl ⟨mem_links_device hb, h, hb⟩

theorem read (f : File) {deviceID : Nat} (hd : Device f.lines.length deviceID)
    (info : Nat → Char) :
    ∃ g, nodeInfofetch f.text deviceID info .fresh = some g ∧ Read f deviceID g := by
  have hcomplete : (confOf f.lines).totalDeviceNum = (confOf f.lines).lines.length := by
    simp [confOf]
  have hcount : fgets infoSize f.text = (f.count ++ ['\n'], linesText f.lines) :=
    readLine_short f.newline_notMem (by
      have := f.count_lt
      omega) _
  obtain ⟨g, v, hg, hv, href, -⟩ := nodeInfofetch_yields (confOf f.lines) hcomplete hcount (by simp)
    f.atoi_eq (yields deviceID f.short 1) hd info refines_fresh rfl
  obtain ⟨loc, v', hv', hf⟩ := topologyInit_from hcomplete hd.2 .fresh
  obtain rfl : v = v' := Option.some.inj (hv.symm.trans hv')
  change FetchedFrom .fresh _ _ f.lines.length _ _ at hf
  refine ⟨g, hg, ?_, ?_⟩
  · intro a b
    rw [href.nodeMap, hf.map_eq]
    exact if_congr (f.entered_iff deviceID a b) rfl rfl
  · intro hfew
    obtain ⟨l, hl, -⟩ := (confOf f.lines).line_isSome
      (show Device (confOf f.lines).lines.length deviceID by simpa [confOf] using hd)
    obtain ⟨-, -, hneighbors, hnum⟩ := hf.own l hd hl
    have hlinks : f.links deviceID = l.links := by
      simp [links, Conf.links, hl]
    rw [hlinks] at hfew ⊢
    rw [ownLinks_eq (by rwa [href.neighborNum, hnum]), href.neighbors, hneighbors]

end File

/-- Of a line of less than 40 characters with at most eight links both parsers store the same.
Each device reads the links of a symmetric file apart from its own link to itself, so that
without such links `NODE_MAP` is the same at all devices and `Neighbors` is a row of it. -/
theorem parsers_agree :
    (∀ w : Written, w.chars.length < infoSize → w.links.length ≤ neighborsSize → w.InMap →
      ParsersAgree w) ∧
    (∀ (f : File) (deviceID : Nat), Device f.lines.length deviceID → ∀ info, ∃ g,
      nodeInfofetch f.text deviceID info .fresh = some g ∧ f.Read deviceID g) ∧
    ∀ f : File, (∀ i, i ∉ f.links i) → ∃ nodeMap : Nat → Nat → Nat,
      ∀ deviceID, Device f.lines.length deviceID → ∀ info, ∃ g,
        nodeInfofetch f.text deviceID info .fresh = some g ∧ g.nodeMap = nodeMap ∧
        ((f.links deviceID).length ≤ neighborsSize →
          ∀ v, v ∈ g.ownLinks ↔ nodeMap deviceID v = 1) := by
  refine ⟨fun w hlen hfew _ => parsersAgree_of_few hlen hfew,
    fun f deviceID hd info => f.read hd info, ?_⟩
  intro f hloop
  refine ⟨fun a b => if b ∈ f.links a then 1 else 0, ?_⟩
  intro deviceID hd info
  obtain ⟨g, hg, hread⟩ := f.read hd info
  refine ⟨g, hg, ?_, ?_⟩
  · funext a b
    rw [hread.nodeMap]
    refine if_congr ⟨And.left, fun hb => ⟨hb, fun h => hloop deviceID ?_⟩⟩ rfl rfl
    rwa [h.1, h.2] at hb
  · intro hfew v
    rw [hread.ownLinks hfew]
    simp

def spareLine : Written where
  type := .zed
  x := ['0', '7']
  y := ['0']
  z := ['1', '0', '2', '4']
  ne_nil := by decide
  isDigit := by simp
  links := [['0', '1']]
  linked := by decide
  link_ne_nil := by decide
  link_isDigit := by simp

/-- A line that starts the file of a coordinator with the links `links`. -/
def firstLine (links : List (List Char)) (h : links ≠ [])
    (hd : ∀ s ∈ links, s ≠ [] ∧ ∀ c ∈ s, c.isDigit) : Written where
  type := .zc
  x := ['0']
  y := ['0']
  z := ['0']
  ne_nil := by decide
  isDigit := by simp
  links := links
  linked := h
  link_ne_nil s hs := (hd s hs).1
  link_isDigit s hs := (hd s hs).2

def pairFile : File where
  count := ['2']
  lines := [firstLine [['2']] (by decide) (by simp), spareLine]
  newline_notMem := by decide
  count_lt := by decide
  atoi_eq := by decide
  size := by decide
  short := by decide
  symm := by decide +kernel

theorem parsers_agree_pair :
    ParsersAgree spareLine ∧
    (∃ g, nodeInfofetch pairFile.text 2 (fun _ => '\x00') .fresh = some g ∧ pairFile.Read 2 g) ∧
    ∃ nodeMap : Nat → Nat → Nat, ∀ deviceID, Device pairFile.lines.length deviceID →
      ∀ info, ∃ g, nodeInfofetch pairFile.text deviceID info .fresh = some g ∧
        g.nodeMap = nodeMap ∧
        ((pairFile.links deviceID).length ≤ neighborsSize →
          ∀ v, v ∈ g.ownLinks ↔ nodeMap deviceID v = 1) := by
  refine ⟨parsers_agree.1 spareLine (by decide) (by decide) (by decide),
    parsers_agree.2.1 pairFile 2 (by decide) _, parsers_agree.2.2 pairFile ?_⟩
  intro i hi
  have hd : Device pairFile.lines.length i := File.mem_links_device hi
  have hcases : i = 1 ∨ i = 2 := by
    have h₂ : i ≤ 2 := hd.2
    have h₁ := hd.1
    omega
  rcases hcases with rfl | rfl <;> revert hi <;> decide +kernel

def nineLinks : Written :=
  firstLine [['1'], ['2'], ['3'], ['4'], ['5'], ['6'], ['7'], ['8'], ['1', '0']]
    (by decide) (by simp)

/-- Two devices, of which the first one is linked to itself. -/
def selfFile : File where
  count := ['2']
  lines := [firstLine [['1'], ['2']] (by decide) (by simp), spareLine]
  newline_notMem := by decide
  count_lt := by decide
  atoi_eq := by decide
  size := by decide
  short := by decide
  symm := by decide +kernel

/-- The ninth link is overwritten by `NeighborNum`, and a device does not enter its own link
to itself. -/
theorem not_parsers_agree :
    (¬ ∀ w : Written, w.chars.length < infoSize → ParsersAgree w) ∧
    ¬ ∀ f : File, ∃ nodeMap : Nat → Nat → Nat,
      ∀ deviceID, Device f.lines.length deviceID → ∀ info, ∃ g,
        nodeInfofetch f.text deviceID info .fresh = some g ∧ g.nodeMap = nodeMap ∧
        ∀ v, v ∈ g.ownLinks ↔ nodeMap deviceID v = 1 := by
  constructor
  · intro h
    obtain ⟨own, other, hown, hother, -, hlinks⟩ := h nineLinks (by decide +kernel) ['\n'] rfl
      (fun _ => '\x00') 1 (by decide) .fresh .fresh
    have hleft : (scanOwn (load (fgets infoSize (nineLinks.chars ++ ['\n'])).1 fun _ => '\x00')
        (strlen (fgets infoSize (nineLinks.chars ++ ['\n'])).1) 1 infoSize 0 0 .fresh).map
          (·.ownLinks) = some [1, 2, 3, 4, 5, 6, 7, 8, 9] := by decide +kernel
    have hright : (scanOther (load (fgets infoSize (nineLinks.chars ++ ['\n'])).1 fun _ => '\x00')
        (strlen (fgets infoSize (nineLinks.chars ++ ['\n'])).1) 1 infoSize 0 0 .fresh).map
          (·.nodeMap 1 10) = some 1 := by decide +kernel
    rw [hown, Option.map_some, Option.some.injEq] at hleft
    rw [hother, Option.map_some, Option.some.injEq] at hright
    have hten := hlinks 10
    rw [hleft, hright] at hten
    exact absurd hten (by decide)
  · intro h
    obtain ⟨nodeMap, h⟩ := h selfFile
    obtain ⟨g₁, hg₁, hmap₁, -⟩ := h 1 (by decide) (fun _ => '\x00')
    obtain ⟨g₂, hg₂, hmap₂, -⟩ := h 2 (by decide) (fun _ => '\x00')
    have h₁ : (nodeInfofetch selfFile.text 1 (fun _ => '\x00') .fresh).map (·.nodeMap 1 1) =
        some 0 := by decide +kernel
    have h₂ : (nodeInfofetch selfFile.text 2 (fun _ => '\x00') .fresh).map (·.nodeMap 1 1) =
        some 1 := by decide +kernel
    rw [hg₁, Option.map_some, Option.some.injEq, hmap₁] at h₁
    rw [hg₂, Option.map_some, Option.some.injEq, hmap₂] at h₂
    exact absurd (h₁.symm.trans h₂) (by decide)

end M2M.Network.TopologyFile
