import Mathlib
import M2M.Lib.Chunks
import M2M.Network.TopologyReading
import M2M.Vpmu.TickConsistency

/-! `VPMU_set_config_from_file`: the settings of a configuration file, which are told apart by the
number of the line.  A write outside an array has no result. -/

namespace M2M.Vpmu.ConfigFile

open M2M.Lib M2M.Network.TopologyFile M2M.Vpmu.ArmTicks

/-- `strtol(s, NULL, 10)` with a `long` of 64 bits. -/
def strtol (s : List Char) : Int := max (-2 ^ 63) (min (2 ^ 63 - 1) (atoi s))

/-- `value[0]`, which is signed. -/
def firstChar (value : List Char) : Int32 :=
  (UInt8.ofNat (value.headD '\x00').toNat).toInt8.toInt32

/-- The fields `d4_level_*` at one index. -/
structure CacheConfig where
  size : UInt32
  blocksize : UInt32
  subblocksize : UInt32
  assoc : UInt32
  replacement : Int32
  walloc : Int32
  wback : Int32
  fetch : Int32
  prefetchAbortpercent : Int32
  prefetchDistance : Int32
  deriving DecidableEq

/-- What the file sets, and the cursors `lev` and `idu`. -/
structure Settings where
  targetCpuFrequency : UInt64
  l1CacheMissLat : UInt64
  l2CacheMissLat : UInt64
  d4Maxlevel : Int32
  d4Level : Nat → Nat → CacheConfig
  armInstrTime : Nat → UInt32
  lev : Nat
  idu : Nat

namespace Settings

/-- The settings with other fields `d4_level_*[idu][lev]`. -/
def put (s : Settings) (d : CacheConfig) : Settings :=
  { s with
    d4Level := Function.update s.d4Level s.idu (Function.update (s.d4Level s.idu) s.lev d) }

/-- A write to one of the fields `d4_level_*[idu][lev]`. -/
def setLevel (s : Settings) (f : CacheConfig → CacheConfig) : Option Settings :=
  if s.idu < 3 ∧ s.lev < 5 then some (s.put (f (s.d4Level s.idu s.lev))) else none

/-- `lev++; if (lev == 1) idu = 0;` -/
def nextLevel (s : Settings) : Settings :=
  { s with lev := s.lev + 1, idu := if s.lev + 1 = 1 then 0 else s.idu }

/-- `arm_instr_time[instr] = time` -/
def setTime (s : Settings) (instr : Nat) (time : UInt32) : Option Settings :=
  if instr < armInstructions then
    some { s with armInstrTime := Function.update s.armInstrTime instr time }
  else none

end Settings

section Load

-- `atof(value) * GlobalVPMU.target_cpu_frequency / 1000`
variable (missLat : List Char → UInt64 → UInt64)

/-- `VPMU_set_config` -/
def setConfig (configId : Nat) (value : List Char) (s : Settings) : Option Settings :=
  match configId with
  | 0 => some { s with targetCpuFrequency := UInt64.ofInt (strtol value) }
  | 1 => some { s with l1CacheMissLat := missLat value s.targetCpuFrequency }
  | 2 => some { s with l2CacheMissLat := missLat value s.targetCpuFrequency }
  | 24 | 3 =>
    some { s with
      lev := 0
      d4Maxlevel := Int32.ofInt (strtol value)
      idu := if configId ≥ 22 then 2 else 1 }
  | 35 | 25 | 14 | 4 => s.setLevel fun d => { d with size := UInt32.ofInt (strtol value) }
  | 36 | 26 | 15 | 5 => s.setLevel fun d => { d with blocksize := UInt32.ofInt (strtol value) }
  | 37 | 27 | 16 | 6 => s.setLevel fun d => { d with subblocksize := UInt32.ofInt (strtol value) }
  | 38 | 28 | 17 | 7 => s.setLevel fun d => { d with assoc := UInt32.ofInt (strtol value) }
  | 39 | 29 | 18 | 8 => s.setLevel fun d => { d with replacement := firstChar value }
  | 40 | 30 | 19 | 9 => s.setLevel fun d => { d with walloc := firstChar value }
  | 41 | 31 | 20 | 10 => s.setLevel fun d => { d with wback := firstChar value }
  | 42 | 32 | 21 | 11 => s.setLevel fun d => { d with fetch := firstChar value }
  | 43 | 33 | 22 | 12 =>
    s.setLevel fun d => { d with prefetchAbortpercent := Int32.ofInt (strtol value) }
  | 44 | 34 | 23 | 13 =>
    (s.setLevel fun d => { d with prefetchDistance := Int32.ofInt (strtol value) }).map
      Settings.nextLevel
  | configId => s.setTime (configId - 45) (UInt32.ofInt (strtol value))

/-- The tokens that `strtok` finds between commas. -/
def strtok (tmp : List Char) : List (List Char) :=
  ((tmp.takeWhile (· ≠ '\x00')).splitOn ',').filter (· ≠ [])

/-- The settings, and the number of the next line. -/
structure Loading where
  settings : Settings
  line : Nat

/-- The loop body on what `fgets` has read: the second token of a line is a value. -/
def readSetting (tmp : List Char) (s : Loading) : Option Loading :=
  if tmp.head? = some '#' then some s
  else
    match (strtok tmp)[1]? with
    | some value =>
      (setConfig missLat s.line value s.settings).map fun settings => ⟨settings, s.line + 1⟩
    | none => some s

/-- A round of `while (fgets(tmp, 255, config_file) != NULL)`. -/
def fetchSetting (s : Loading) (file : List Char) : Option (Loading × List Char) :=
  let (tmp, file) := fgets 255 file
  (readSetting missLat tmp s).map fun s => (s, file)

/-- `VPMU_set_config_from_file` on the characters of the file. -/
def setConfigFromFile (file : List Char) (s : Settings) : Option Settings :=
  (readAll (fetchSetting missLat) ⟨s, 0⟩ file).map (·.settings)

end Load

section Lines

variable {missLat : List Char → UInt64 → UInt64} {s : Loading}

/-- A line of a configuration file: a comment, or a name and a value. -/
inductive Line
  | comment (text : List Char)
  | entry (name value : List Char)

namespace Line

/-- The characters of a line before the newline. -/
def text : Line → List Char
  | comment text => '#' :: text
  | entry name value => name ++ ',' :: (value ++ [','])

/-- Names and values are not empty and have no commas, newlines or ends of strings, and no name
begins like a comment. -/
def Valid : Line → Prop
  | comment text => '\n' ∉ text
  | entry name value => name ≠ [] ∧ value ≠ [] ∧ name.head? ≠ some '#' ∧
      ∀ c ∈ name ++ value, c ≠ ',' ∧ c ≠ '\n' ∧ c ≠ '\x00'

/-- The line with its newline and the end of the string fits into `tmp`. -/
def Fits (l : Line) : Prop := l.text.length + 2 ≤ 255

def value : Line → Option (List Char)
  | comment _ => none
  | entry _ value => some value

theorem Valid.newline_notMem {l : Line} (h : l.Valid) : '\n' ∉ l.text := by
  cases l with
  | comment chars => simpa [Line.text, Valid] using h
  | entry name value =>
    intro hmem
    have hchars := fun c hc => (h.2.2.2 c hc).2.1
    simp only [Line.text, List.mem_append, List.mem_cons, List.not_mem_nil, or_false] at hmem
    rcases hmem with hname | hcomma | hvalue | hcomma
    · exact hchars _ (List.mem_append_left _ hname) rfl
    · exact absurd hcomma (by decide)
    · exact hchars _ (List.mem_append_right _ hvalue) rfl
    · exact absurd hcomma (by decide)

theorem Valid.strtok_entry {name value : List Char} (h : (entry name value).Valid) :
    strtok ((entry name value).text ++ ['\n']) = [name, value, ['\n']] := by
  obtain ⟨hname, hvalue, -, hchars⟩ := h
  have htext : (entry name value).text ++ ['\n'] = name ++ ',' :: (value ++ ',' :: ['\n']) := by
    simp [Line.text]
  have hnul : (name ++ ',' :: (value ++ ',' :: ['\n'])).takeWhile (· ≠ '\x00') =
      name ++ ',' :: (value ++ ',' :: ['\n']) := by
    rw [List.takeWhile_eq_self_iff]
    intro c hc
    simp only [List.mem_append, List.mem_cons, List.not_mem_nil, or_false] at hc
    rcases hc with hc | rfl | hc | rfl | rfl
    · simpa using (hchars c (List.mem_append_left _ hc)).2.2
    · decide
    · simpa using (hchars c (List.mem_append_right _ hc)).2.2
    · decide
    · decide
  have hcomma : ',' ∉ name ∧ ',' ∉ value :=
    ⟨fun hc => (hchars ',' (List.mem_append_left _ hc)).1 rfl,
      fun hc => (hchars ',' (List.mem_append_right _ hc)).1 rfl⟩
  rw [htext, strtok, hnul, List.splitOn_append_cons_self_of_not_mem hcomma.1,
    List.splitOn_append_cons_self_of_not_mem hcomma.2, List.splitOn_eq_singleton (by decide)]
  simp [hname, hvalue]

end Line

/-- The settings with the next value. -/
def next (missLat : List Char → UInt64 → UInt64) (s : Loading) (value : List Char) :
    Option Loading :=
  (setConfig missLat s.line value s.settings).map fun settings => ⟨settings, s.line + 1⟩

theorem readSetting_line {l : Line} (h : l.Valid) :
    readSetting missLat (l.text ++ ['\n']) s = l.value.elim (some s) (next missLat s) := by
  cases l with
  | comment chars => rfl
  | entry name value =>
    have hhead : ((Line.entry name value).text ++ ['\n']).head? ≠ some '#' := by
      rw [Line.text, List.append_assoc, List.head?_append_of_ne_nil _ h.1]
      exact h.2.2.1
    rw [readSetting, if_neg hhead, h.strtok_entry]
    rfl

theorem fetchSetting_line {l : Line} (h : l.Valid) (hfits : l.Fits) (rest : List Char) :
    fetchSetting missLat s (l.text ++ '\n' :: rest) =
      (l.value.elim (some s) (next missLat s)).map fun s => (s, rest) := by
  have hroom : l.text.length < 255 - 1 := by
    have := hfits
    rw [Line.Fits] at this
    omega
  rw [fetchSetting, fgets, readLine_short h.newline_notMem hroom, ← readSetting_line h]

theorem length_readLine (room : Nat) (file : List Char) :
    (readLine room file).2.length ≤ file.length := by
  induction file generalizing room with
  | nil => cases room <;> exact Nat.le_refl 0
  | cons c file ih =>
    cases room with
    | zero => exact Nat.le_refl _
    | succ room =>
      rw [readLine]
      split
      · exact Nat.le_succ _
      · exact (ih room).trans (Nat.le_succ _)

theorem length_fgets (c : Char) (file : List Char) :
    (fgets 255 (c :: file)).2.length < (c :: file).length := by
  rw [fgets, show 255 - 1 = 253 + 1 from rfl, readLine]
  split
  · exact Nat.lt_succ_self _
  · exact Nat.lt_succ_of_le (length_readLine 253 file)

theorem fetchSetting_shortens {s' : Loading} {file rest : List Char} (hne : file ≠ [])
    (h : fetchSetting missLat s file = some (s', rest)) : rest.length < file.length := by
  obtain ⟨c, file, rfl⟩ := List.exists_cons_of_ne_nil hne
  obtain ⟨t, -, ht⟩ := Option.map_eq_some_iff.1 h
  rw [← (Prod.mk.inj ht).2]
  exact length_fgets c file

/-- The characters of a file. -/
def fileText (lines : List Line) : List Char := lines.flatMap fun l => l.text ++ ['\n']

theorem readAll_lines {lines : List Line} (hvalid : ∀ l ∈ lines, l.Valid)
    (hfits : ∀ l ∈ lines, l.Fits) (s : Loading) :
    readAll (fetchSetting missLat) s (fileText lines) =
      (lines.filterMap Line.value).foldlM (next missLat) s := by
  induction lines generalizing s with
  | nil => rfl
  | cons l lines ih =>
    rw [List.forall_mem_cons] at hvalid hfits
    have htext : fileText (l :: lines) = l.text ++ '\n' :: fileText lines := by
      simp [fileText]
    have hround : fetchSetting missLat s (l.text ++ '\n' :: fileText lines) =
        (l.value.elim (some s) (next missLat s)).map fun s => (s, fileText lines) :=
      fetchSetting_line hvalid.1 hfits.1 (fileText lines)
    obtain ⟨c, cs, hcons⟩ : ∃ c cs, l.text ++ '\n' :: fileText lines = c :: cs :=
      List.exists_cons_of_ne_nil (by simp)
    rw [htext, hcons, readAll_cons (fun _ _ _ _ => fetchSetting_shortens), ← hcons, hround]
    cases l with
    | comment chars => exact ih hvalid.2 hfits.2 s
    | entry name value =>
      change ((next missLat s value).map fun s => (s, fileText lines)).bind _ =
        (next missLat s value).bind fun s => (lines.filterMap Line.value).foldlM (next missLat) s
      rw [Option.bind_map]
      exact Option.bind_congr fun s' _ => ih hvalid.2 hfits.2 s'

end Lines

section Caches

variable {missLat : List Char → UInt64 → UInt64} {s : Settings}

/-- The values of the ten lines of a cache. -/
structure CacheLines where
  size : List Char
  blocksize : List Char
  subblocksize : List Char
  assoc : List Char
  replacement : List Char
  walloc : List Char
  wback : List Char
  fetch : List Char
  prefetchAbortpercent : List Char
  prefetchDistance : List Char

namespace CacheLines

def toList (b : CacheLines) : List (List Char) :=
  [b.size, b.blocksize, b.subblocksize, b.assoc, b.replacement, b.walloc, b.wback, b.fetch,
    b.prefetchAbortpercent, b.prefetchDistance]

def config (b : CacheLines) : CacheConfig where
  size := UInt32.ofInt (strtol b.size)
  blocksize := UInt32.ofInt (strtol b.blocksize)
  subblocksize := UInt32.ofInt (strtol b.subblocksize)
  assoc := UInt32.ofInt (strtol b.assoc)
  replacement := firstChar b.replacement
  walloc := firstChar b.walloc
  wback := firstChar b.wback
  fetch := firstChar b.fetch
  prefetchAbortpercent := Int32.ofInt (strtol b.prefetchAbortpercent)
  prefetchDistance := Int32.ofInt (strtol b.prefetchDistance)

end CacheLines

namespace Settings

theorem put_put (s : Settings) (d e : CacheConfig) : (s.put d).put e = s.put e := by
  simp [put]

theorem put_self (s : Settings) : s.put (s.d4Level s.idu s.lev) = s := by
  simp [put]

theorem setLevel_put (h : s.idu < 3 ∧ s.lev < 5) (d : CacheConfig)
    (f : CacheConfig → CacheConfig) : (s.put d).setLevel f = some (s.put (f d)) := by
  have hcell : (s.put d).d4Level s.idu s.lev = d := by simp [put]
  have hput : (s.put d).setLevel f =
      some ((s.put d).put (f ((s.put d).d4Level s.idu s.lev))) := if_pos h
  rw [hput, hcell, put_put]

end Settings

/-- A number of a line from which the ten lines of a cache are counted. -/
structure CacheLine (k : Nat) : Prop where
  size : ∀ missLat v s, setConfig missLat k v s =
    s.setLevel fun d => { d with size := UInt32.ofInt (strtol v) }
  blocksize : ∀ missLat v s, setConfig missLat (k + 1) v s =
    s.setLevel fun d => { d with blocksize := UInt32.ofInt (strtol v) }
  subblocksize : ∀ missLat v s, setConfig missLat (k + 2) v s =
    s.setLevel fun d => { d with subblocksize := UInt32.ofInt (strtol v) }
  assoc : ∀ missLat v s, setConfig missLat (k + 3) v s =
    s.setLevel fun d => { d with assoc := UInt32.ofInt (strtol v) }
  replacement : ∀ missLat v s, setConfig missLat (k + 4) v s =
    s.setLevel fun d => { d with replacement := firstChar v }
  walloc : ∀ missLat v s, setConfig missLat (k + 5) v s =
    s.setLevel fun d => { d with walloc := firstChar v }
  wback : ∀ missLat v s, setConfig missLat (k + 6) v s =
    s.setLevel fun d => { d with wback := firstChar v }
  fetch : ∀ missLat v s, setConfig missLat (k + 7) v s =
    s.setLevel fun d => { d with fetch := firstChar v }
  prefetchAbortpercent : ∀ missLat v s, setConfig missLat (k + 8) v s =
    s.setLevel fun d => { d with prefetchAbortpercent := Int32.ofInt (strtol v) }
  prefetchDistance : ∀ missLat v s, setConfig missLat (k + 9) v s =
    (s.setLevel fun d => { d with prefetchDistance := Int32.ofInt (strtol v) }).map
      Settings.nextLevel

theorem cacheLine_four : CacheLine 4 := by constructor <;> exact fun _ _ _ => rfl

theorem cacheLine_fourteen : CacheLine 14 := by constructor <;> exact fun _ _ _ => rfl

theorem cacheLine_twentyFive : CacheLine 25 := by constructor <;> exact fun _ _ _ => rfl

theorem cacheLine_thirtyFive : CacheLine 35 := by constructor <;> exact fun _ _ _ => rfl

theorem foldlM_setLevel {k : Nat} {v : List Char} {f : CacheConfig → CacheConfig}
    (h : s.idu < 3 ∧ s.lev < 5) (hset : ∀ missLat s, setConfig missLat k v s = s.setLevel f)
    (d : CacheConfig) (rest : List (List Char)) :
    (v :: rest).foldlM (next missLat) ⟨s.put d, k⟩ =
      rest.foldlM (next missLat) ⟨s.put (f d), k + 1⟩ := by
  rw [List.foldlM_cons, next, hset, Settings.setLevel_put h]
  rfl

theorem foldlM_cache {k : Nat} (hk : CacheLine k) (h : s.idu < 3 ∧ s.lev < 5) (b : CacheLines)
    (rest : List (List Char)) :
    (b.toList ++ rest).foldlM (next missLat) ⟨s, k⟩ =
      rest.foldlM (next missLat) ⟨(s.put b.config).nextLevel, k + 10⟩ := by
  have hlast : ∀ d, next missLat ⟨s.put d, k + 9⟩ b.prefetchDistance = some
      ⟨(s.put { d with
        prefetchDistance := Int32.ofInt (strtol b.prefetchDistance) }).nextLevel, k + 10⟩ := by
    intro d
    rw [next, hk.prefetchDistance, Settings.setLevel_put h]
    rfl
  conv_lhs => rw [← Settings.put_self s]
  simp only [CacheLines.toList, List.cons_append, List.nil_append]
  rw [foldlM_setLevel h fun m s => hk.size m b.size s,
    foldlM_setLevel h fun m s => hk.blocksize m b.blocksize s,
    foldlM_setLevel h fun m s => hk.subblocksize m b.subblocksize s,
    foldlM_setLevel h fun m s => hk.assoc m b.assoc s,
    foldlM_setLevel h fun m s => hk.replacement m b.replacement s,
    foldlM_setLevel h fun m s => hk.walloc m b.walloc s,
    foldlM_setLevel h fun m s => hk.wback m b.wback s,
    foldlM_setLevel h fun m s => hk.fetch m b.fetch s,
    foldlM_setLevel h fun m s => hk.prefetchAbortpercent m b.prefetchAbortpercent s,
    List.foldlM_cons, hlast]
  rfl

/-- The values of the 45 lines of the processor and of the caches. -/
structure CpuLines where
  frequency : List Char
  l1MissLatency : List Char
  l2MissLatency : List Char
  iLevel : List Char
  iL1 : CacheLines
  iL2 : CacheLines
  dLevel : List Char
  dL1 : CacheLines
  dL2 : CacheLines

namespace CpuLines

def front (c : CpuLines) : List (List Char) :=
  c.frequency :: c.l1MissLatency :: c.l2MissLatency :: c.iLevel :: (c.iL1.toList ++ c.iL2.toList)

def back (c : CpuLines) : List (List Char) := c.dLevel :: (c.dL1.toList ++ c.dL2.toList)

def toList (c : CpuLines) : List (List Char) := c.front ++ c.back

def iStart (missLat : List Char → UInt64 → UInt64) (c : CpuLines) (s : Settings) : Settings :=
  { s with
    targetCpuFrequency := UInt64.ofInt (strtol c.frequency)
    l1CacheMissLat := missLat c.l1MissLatency (UInt64.ofInt (strtol c.frequency))
    l2CacheMissLat := missLat c.l2MissLatency (UInt64.ofInt (strtol c.frequency))
    d4Maxlevel := Int32.ofInt (strtol c.iLevel)
    lev := 0
    idu := 1 }

def frontSettings (missLat : List Char → UInt64 → UInt64) (c : CpuLines) (s : Settings) :
    Settings :=
  (((c.iStart missLat s).put c.iL1.config).nextLevel.put c.iL2.config).nextLevel

def dStart (c : CpuLines) (s : Settings) : Settings :=
  { s with d4Maxlevel := Int32.ofInt (strtol c.dLevel), lev := 0, idu := 2 }

def backSettings (c : CpuLines) (s : Settings) : Settings :=
  (((c.dStart s).put c.dL1.config).nextLevel.put c.dL2.config).nextLevel

end CpuLines

theorem foldlM_next {k : Nat} {v : List Char} {s t : Settings}
    (h : setConfig missLat k v s = some t) (rest : List (List Char)) :
    (v :: rest).foldlM (next missLat) ⟨s, k⟩ = rest.foldlM (next missLat) ⟨t, k + 1⟩ := by
  rw [List.foldlM_cons, next, h]
  rfl

theorem foldlM_front (c : CpuLines) (s : Settings) (rest : List (List Char)) :
    (c.front ++ rest).foldlM (next missLat) ⟨s, 0⟩ =
      rest.foldlM (next missLat) ⟨c.frontSettings missLat s, 24⟩ := by
  have hstart : ∀ vs, (c.frequency :: c.l1MissLatency :: c.l2MissLatency :: c.iLevel :: vs).foldlM
      (next missLat) ⟨s, 0⟩ = vs.foldlM (next missLat) ⟨c.iStart missLat s, 4⟩ := fun vs =>
    (foldlM_next rfl _).trans ((foldlM_next rfl _).trans ((foldlM_next rfl _).trans
      (foldlM_next rfl vs)))
  simp only [CpuLines.front, List.cons_append, List.append_assoc]
  rw [hstart, foldlM_cache cacheLine_four (show 1 < 3 ∧ 0 < 5 by decide),
    foldlM_cache cacheLine_fourteen (show 0 < 3 ∧ 1 < 5 by decide)]
  rfl

theorem foldlM_back (c : CpuLines) (s : Settings) (rest : List (List Char)) :
    (c.back ++ rest).foldlM (next missLat) ⟨s, 24⟩ =
      rest.foldlM (next missLat) ⟨c.backSettings s, 45⟩ := by
  have hstart : ∀ vs, (c.dLevel :: vs).foldlM (next missLat) ⟨s, 24⟩ =
      vs.foldlM (next missLat) ⟨c.dStart s, 25⟩ := fun vs => foldlM_next rfl vs
  simp only [CpuLines.back, List.cons_append, List.append_assoc]
  rw [hstart, foldlM_cache cacheLine_twentyFive (show 2 < 3 ∧ 0 < 5 by decide),
    foldlM_cache cacheLine_thirtyFive (show 0 < 3 ∧ 1 < 5 by decide)]
  rfl

theorem d4Level_backSettings (c : CpuLines) (s : Settings) :
    (c.backSettings s).d4Level 1 0 = s.d4Level 1 0 ∧
      (c.backSettings s).d4Level 2 0 = c.dL1.config ∧
      (c.backSettings s).d4Level 0 1 = c.dL2.config := by
  exact ⟨rfl, rfl, rfl⟩

theorem d4Level_frontSettings (c : CpuLines) (s : Settings) :
    (c.frontSettings missLat s).d4Level 1 0 = c.iL1.config ∧
      (c.frontSettings missLat s).d4Level 0 1 = c.iL2.config := by
  exact ⟨rfl, rfl⟩

end Caches

section Classes

variable {missLat : List Char → UInt64 → UInt64}

theorem setConfig_class (i : Nat) (v : List Char) (s : Settings) :
    setConfig missLat (i + 45) v s = s.setTime i (UInt32.ofInt (strtol v)) := by
  change s.setTime (i + 45 - 45) _ = _
  rw [Nat.add_sub_cancel]

theorem foldlM_classes (missLat : List Char → UInt64 → UInt64) {classes : List (List Char)}
    {i : Nat} (s : Settings) (h : i + classes.length ≤ armInstructions) :
    ∃ t n, classes.foldlM (next missLat) ⟨s, i + 45⟩ = some ⟨t, n⟩ ∧ t.d4Level = s.d4Level ∧
      (∀ k < i, t.armInstrTime k = s.armInstrTime k) ∧
      ∀ k v, classes[k]? = some v → t.armInstrTime (i + k) = UInt32.ofInt (strtol v) := by
  induction classes generalizing i s with
  | nil => exact ⟨s, i + 45, rfl, rfl, fun _ _ => rfl, by simp⟩
  | cons v classes ih =>
    rw [List.length_cons] at h
    have hset : setConfig missLat (i + 45) v s = some { s with
        armInstrTime := Function.update s.armInstrTime i (UInt32.ofInt (strtol v)) } := by
      rw [setConfig_class]
      exact if_pos (by omega)
    obtain ⟨t, n, ht, hlevel, hbelow, htimes⟩ := ih { s with
        armInstrTime := Function.update s.armInstrTime i (UInt32.ofInt (strtol v)) }
      (i := i + 1) (by omega)
    refine ⟨t, n, ?_, hlevel, fun k hk => ?_, fun k w hw => ?_⟩
    · rw [foldlM_next hset, Nat.add_right_comm, ht]
    · rw [hbelow k (by omega)]
      exact Function.update_of_ne (by omega) _ _
    · cases k with
      | zero =>
        rw [Nat.add_zero, hbelow i (by omega)]
        obtain rfl : v = w := by simpa using hw
        exact Function.update_self ..
      | succ k =>
        rw [← htimes k w (by simpa using hw)]
        congr 1
        omega

theorem foldlM_classes_none {classes : List (List Char)} {i : Nat} (s : Settings)
    (hi : i ≤ armInstructions) (h : armInstructions < i + classes.length) :
    classes.foldlM (next missLat) ⟨s, i + 45⟩ = none := by
  induction classes generalizing i s with
  | nil => exact absurd h (Nat.not_lt.2 hi)
  | cons v classes ih =>
    rw [List.length_cons] at h
    rw [List.foldlM_cons, next, setConfig_class, Settings.setTime]
    split
    · next hlt =>
      change List.foldlM (next missLat) ⟨_, i + 45 + 1⟩ classes = none
      rw [Nat.add_right_comm]
      exact ih _ hlt (by omega)
    · rfl

end Classes

section File

/-- A file with the 45 values of the processor and of the caches, and a line for each class of
instructions. -/
structure File where
  lines : List Line
  valid : ∀ l ∈ lines, l.Valid
  cpu : CpuLines
  classes : List (List Char)
  values_eq : lines.filterMap Line.value = cpu.toList ++ classes

variable (missLat : List Char → UInt64 → UInt64)

/-- The caches and the latencies of the file are in their places: both second level caches are
stored at one index, where that of the data is what is left. -/
def LoadsRight (f : File) (s : Settings) : Prop :=
  ∃ t, setConfigFromFile missLat (fileText f.lines) s = some t ∧
    t.d4Level 1 0 = f.cpu.iL1.config ∧ t.d4Level 2 0 = f.cpu.dL1.config ∧
    (∀ front back, f.lines = front ++ back → (front.filterMap Line.value).length = 24 →
      ∃ t', setConfigFromFile missLat (fileText front) s = some t' ∧
        t'.d4Level 0 1 = f.cpu.iL2.config) ∧
    t.d4Level 0 1 = f.cpu.dL2.config ∧
    ∀ k v, f.classes[k]? = some v → t.armInstrTime k = UInt32.ofInt (strtol v)

theorem setConfigFromFile_lines {lines : List Line} (hvalid : ∀ l ∈ lines, l.Valid)
    (hfits : ∀ l ∈ lines, l.Fits) (s : Settings) :
    setConfigFromFile missLat (fileText lines) s =
      ((lines.filterMap Line.value).foldlM (next missLat) ⟨s, 0⟩).map (·.settings) := by
  rw [setConfigFromFile, readAll_lines hvalid hfits]

theorem foldlM_values (f : File) (s : Settings) :
    (f.lines.filterMap Line.value).foldlM (next missLat) ⟨s, 0⟩ =
      f.classes.foldlM (next missLat)
        ⟨f.cpu.backSettings (f.cpu.frontSettings missLat s), 0 + 45⟩ := by
  rw [f.values_eq, CpuLines.toList, List.append_assoc, foldlM_front, foldlM_back]

/-- A file is loaded right exactly when the table has an entry for each of its classes. -/
theorem loadsRight_iff (f : File) (hfits : ∀ l ∈ f.lines, l.Fits) (s : Settings) :
    LoadsRight missLat f s ↔ f.classes.length ≤ armInstructions := by
  constructor
  · rintro ⟨t, ht, -⟩
    by_contra hlong
    rw [setConfigFromFile_lines missLat f.valid hfits, foldlM_values,
      foldlM_classes_none _ (Nat.zero_le _) (by omega)] at ht
    cases ht
  · intro hshort
    have hroom : 0 + f.classes.length ≤ armInstructions := by rwa [Nat.zero_add]
    obtain ⟨t, n, ht, hlevel, -, htimes⟩ :=
      foldlM_classes missLat (f.cpu.backSettings (f.cpu.frontSettings missLat s)) hroom
    obtain ⟨hiL1, hdL1, hdL2⟩ := d4Level_backSettings f.cpu (f.cpu.frontSettings missLat s)
    refine ⟨t, ?_, ?_, ?_, fun front back happend hlength => ?_, ?_, fun k v hv => ?_⟩
    · rw [setConfigFromFile_lines missLat f.valid hfits, foldlM_values, ht]
      rfl
    · rw [hlevel, hiL1]
      exact (d4Level_frontSettings f.cpu s).1
    · rw [hlevel, hdL1]
    · have hfront : ∀ l ∈ front, l ∈ f.lines := fun l hl =>
        happend ▸ List.mem_append_left back hl
      have hvalues : front.filterMap Line.value = f.cpu.front := by
        have happend' := f.values_eq
        rw [happend, List.filterMap_append, CpuLines.toList, List.append_assoc] at happend'
        exact (List.append_inj happend' hlength).1
      refine ⟨f.cpu.frontSettings missLat s, ?_, (d4Level_frontSettings f.cpu s).2⟩
      rw [setConfigFromFile_lines missLat (fun l hl => f.valid l (hfront l hl))
        (fun l hl => hfits l (hfront l hl)), hvalues]
      rw [← List.append_nil f.cpu.front, foldlM_front]
      rfl
    · rw [hlevel, hdL2]
    · rw [← htimes k v hv, Nat.zero_add]

def Plain (v : List Char) : Prop :=
  v ≠ [] ∧ v.length ≤ 250 ∧ (v.all fun c => c ≠ ',' && c ≠ '\n' && c ≠ '\x00') = true

instance (v : List Char) : Decidable (Plain v) := inferInstanceAs (Decidable (_ ∧ _))

theorem plain_toDigits (t : UInt32) : Plain (Nat.toDigits 10 t.toNat) := by
  have hlength : (Nat.toDigits 10 t.toNat).length ≤ 10 :=
    (Nat.length_toDigits_le_iff (by decide) (by decide)).2
      ((UInt32.toNat_lt t).trans (by decide))
  refine ⟨Nat.toDigits_ne_nil, hlength.trans (by decide), ?_⟩
  rw [List.all_eq_true]
  intro c hc
  have hdigit : c.isDigit := Lib.Decimal.isDigit_toDigits hc
  have hne : ∀ d : Char, d.isDigit = false → c ≠ d := by
    rintro d hd rfl
    rw [hd] at hdigit
    cases hdigit
  simp [hne ',' rfl, hne '\n' rfl, hne '\x00' rfl]

theorem valid_entry {v : List Char} (h : Plain v) : (Line.entry ['x'] v).Valid := by
  refine ⟨by simp, h.1, by simp, ?_⟩
  have hchars := List.all_eq_true.1 h.2.2
  intro c hc
  rcases List.mem_cons.1 hc with rfl | hc
  · decide
  · simpa [and_assoc] using hchars c hc

theorem fits_entry {v : List Char} (h : Plain v) : (Line.entry ['x'] v).Fits := by
  have hlength := h.2.1
  simp only [Line.Fits, Line.text, List.length_append, List.length_cons, List.length_nil]
  omega

theorem valid_entries {values : List (List Char)} (h : ∀ v ∈ values, Plain v) :
    ∀ l ∈ values.map (Line.entry ['x']), l.Valid := by
  intro l hl
  obtain ⟨v, hv, rfl⟩ := List.mem_map.1 hl
  exact valid_entry (h v hv)

theorem value_entries (values : List (List Char)) :
    (values.map (Line.entry ['x'])).filterMap Line.value = values := by
  rw [List.filterMap_map]
  exact List.filterMap_some

/-- The file with given values, all under one name: the loader does not read it. -/
def File.ofValues (cpu : CpuLines) (classes : List (List Char))
    (h : ∀ v ∈ cpu.toList ++ classes, Plain v) : File where
  lines := (cpu.toList ++ classes).map (Line.entry ['x'])
  valid := valid_entries h
  cpu := cpu
  classes := classes
  values_eq := value_entries _

/-- The values of `def-config-cortex-a9` for the first and the second level caches. -/
def cortexA9L1 : CacheLines :=
  ⟨['3', '2', '7', '6', '8'], ['3', '2'], ['3', '2'], ['4'], ['r'], ['n'], ['a'], ['d'], ['0'],
    ['1']⟩

def cortexA9L2 : CacheLines :=
  ⟨['1', '0', '4', '8', '5', '7', '6'], ['6', '4'], ['6', '4'], ['8'], ['r'], ['n'], ['a'], ['d'],
    ['0'], ['1']⟩

/-- The values of `def-config-cortex-a9` before the latencies. -/
def cortexA9Cpu : CpuLines where
  frequency := ['1', '0', '0', '0']
  l1MissLatency := ['2', '9', '.', '5', '4']
  l2MissLatency := ['1', '1', '0', '.', '9']
  iLevel := ['2']
  iL1 := cortexA9L1
  iL2 := cortexA9L2
  dLevel := ['2']
  dL1 := cortexA9L1
  dL2 := cortexA9L2

theorem plain_cortexA9 (latencies : List UInt32) :
    ∀ v ∈ cortexA9Cpu.toList ++ latencies.map fun t => Nat.toDigits 10 t.toNat, Plain v := by
  have hcpu : ∀ v ∈ cortexA9Cpu.toList, Plain v := by decide
  intro v hv
  rcases List.mem_append.1 hv with hv | hv
  · exact hcpu v hv
  · obtain ⟨t, -, rfl⟩ := List.mem_map.1 hv
    exact plain_toDigits t

/-- The values of `def-config-cortex-a9` before given latencies. -/
def cortexA9File (latencies : List UInt32) : File :=
  .ofValues cortexA9Cpu (latencies.map fun t => Nat.toDigits 10 t.toNat) (plain_cortexA9 latencies)

theorem fits_cortexA9File (latencies : List UInt32) :
    ∀ l ∈ (cortexA9File latencies).lines, l.Fits := by
  intro l hl
  obtain ⟨v, hv, rfl⟩ := List.mem_map.1 hl
  exact fits_entry (plain_cortexA9 latencies v hv)

/-- The settings before a file is loaded. -/
def Settings.zero : Settings where
  targetCpuFrequency := 0
  l1CacheMissLat := 0
  l2CacheMissLat := 0
  d4Maxlevel := 0
  d4Level _ _ := ⟨0, 0, 0, 0, 0, 0, 0, 0, 0, 0⟩
  armInstrTime _ := 0
  lev := 0
  idu := 0

/-- The file with the first 172 of its latencies. -/
theorem cortexA9_loadsRight_iff :
    LoadsRight (fun _ _ => 0) (cortexA9File (cortexA9Latencies.take 172)) .zero ↔
      (cortexA9File (cortexA9Latencies.take 172)).classes.length ≤ armInstructions :=
  loadsRight_iff (fun _ _ => 0) (cortexA9File (cortexA9Latencies.take 172))
    (fits_cortexA9File (cortexA9Latencies.take 172)) .zero

/-- The file has 173 latencies, the last of which is written behind the table. -/
theorem cortexA9_not_loadsRight :
    (cortexA9File cortexA9Latencies).classes.length = 173 ∧
      ¬LoadsRight (fun _ _ => 0) (cortexA9File cortexA9Latencies) .zero := by
  have hlength : (cortexA9File cortexA9Latencies).classes.length = 173 := by
    change (cortexA9Latencies.map _).length = 173
    rw [List.length_map]
    rfl
  refine ⟨hlength, ?_⟩
  rintro ⟨t, ht, -⟩
  rw [setConfigFromFile_lines _ (cortexA9File cortexA9Latencies).valid
    (fits_cortexA9File cortexA9Latencies), foldlM_values,
    foldlM_classes_none _ (Nat.zero_le _) (by rw [hlength]; decide)] at ht
  cases ht

end File

end M2M.Vpmu.ConfigFile
