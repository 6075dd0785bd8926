import M2M.Network.TopologyFile

namespace M2M.Network.TopologyFile

open M2M.Lib.Decimal M2M.Lib.Store M2M.Network.NodeInfo

variable {info : Nat → Char} {lens index fuel ind : Nat}

theorem scanNumber_spec {s : List Char} (hs : ∀ c ∈ s, c.isDigit) (h : Holds info ind s)
    (hstop : (info (ind + s.length)).isDigit = false) (hf : s.length < fuel) (sum : Nat) :
    scanNumber info fuel sum ind = some (Nat.ofDigitChars 10 s sum, ind + s.length) := by
  induction s generalizing ind fuel sum with
  | nil =>
    obtain ⟨fuel, rfl⟩ : ∃ f, fuel = f + 1 := ⟨fuel - 1, by simp at hf; omega⟩
    rw [scanNumber, if_neg (by simpa using hstop)]
    rfl
  | cons c s ih =>
    obtain ⟨fuel, rfl⟩ : ∃ f, fuel = f + 1 := ⟨fuel - 1, by simp at hf; omega⟩
    obtain ⟨hc, h⟩ := h
    have hdigit : (info ind).isDigit = true := hc ▸ hs c (List.mem_cons_self ..)
    have hend : ind + (c :: s).length = ind + 1 + s.length := by
      rw [List.length_cons]
      omega
    rw [hend] at hstop ⊢
    rw [scanNumber, if_pos hdigit,
      ih (fun d hd => hs d (List.mem_cons_of_mem c hd)) h hstop (by simpa using hf),
      Nat.ofDigitChars_cons, hc, Nat.mul_comm sum 10]

section Braces

variable {σ : Type} {put : Nat → σ → σ} {s : σ}

theorem scanBraces_stop (h : info ind = '}' ∨ lens ≤ ind) :
    scanBraces info lens put (fuel + 1) ind s = some (ind, s) := by
  rw [scanBraces, if_neg]
  rintro ⟨h₁, h₂⟩
  rcases h with h | h
  · exact h₁ h
  · omega

theorem scanBraces_step {r : Nat × Nat} (h : info ind ≠ '}' ∧ ind < lens)
    (hnum : scanNumber info infoSize 0 ind = some r) :
    scanBraces info lens put (fuel + 1) ind s =
      if r.2 ≠ ind then scanBraces info lens put fuel r.2 (put r.1 s)
      else scanBraces info lens put fuel (ind + 1) s := by
  rw [scanBraces, if_pos h, hnum, Option.bind_some]

theorem scanBraces_comma (h : info ind = ',') (hlt : ind < lens) :
    scanBraces info lens put (fuel + 1) ind s = scanBraces info lens put fuel (ind + 1) s := by
  have hnum : scanNumber info infoSize 0 ind = some (0, ind) :=
    scanNumber_spec (s := []) (by simp) trivial (by simp [h]) (by decide) 0
  rw [scanBraces_step ⟨by simp [h], hlt⟩ hnum, if_neg (by simp)]

theorem scanBraces_number {digits : List Char} (hne : digits ≠ []) (hd : ∀ c ∈ digits, c.isDigit)
    (h : Holds info ind digits) (hstop : (info (ind + digits.length)).isDigit = false)
    (hlens : ind + digits.length ≤ lens) (hsize : digits.length < infoSize) :
    scanBraces info lens put (fuel + 1) ind s =
      scanBraces info lens put fuel (ind + digits.length)
        (put (Nat.ofDigitChars 10 digits 0) s) := by
  obtain ⟨c, cs, rfl⟩ := List.exists_cons_of_ne_nil hne
  have hc : (info ind).isDigit = true := h.1 ▸ hd c (List.mem_cons_self ..)
  have hbrace : info ind ≠ '}' := by
    intro heq
    rw [heq] at hc
    exact absurd hc (by decide)
  have hpos : 0 < (c :: cs).length := by simp
  rw [scanBraces_step ⟨hbrace, by omega⟩ (scanNumber_spec hd h hstop hsize 0), if_pos (by simp)]

theorem scanBraces_fields {segs : List (List Char)} (hne : segs ≠ [])
    (hd : ∀ d ∈ segs, ∀ c ∈ d, c.isDigit) (h : Holds info ind ([','].intercalate segs))
    (hstop : (info (ind + ([','].intercalate segs).length)).isDigit = false)
    (hend : info (ind + ([','].intercalate segs).length) = '}' ∨
      lens ≤ ind + ([','].intercalate segs).length)
    (hlens : ind + ([','].intercalate segs).length ≤ lens)
    (hf : ([','].intercalate segs).length < fuel)
    (hsize : ([','].intercalate segs).length < infoSize) :
    scanBraces info lens put fuel ind s =
      some (ind + ([','].intercalate segs).length,
        ((segs.filter (· ≠ [])).map (Nat.ofDigitChars 10 · 0)).foldl (fun s v => put v s) s) := by
  induction segs generalizing ind fuel s with
  | nil => exact absurd rfl hne
  | cons d segs ih =>
    have hdig : ∀ c ∈ d, c.isDigit := hd d (List.mem_cons_self ..)
    cases segs with
    | nil =>
      simp only [List.intercalate_singleton] at *
      by_cases hnil : d = []
      · subst hnil
        obtain ⟨fuel, rfl⟩ : ∃ f, fuel = f + 1 := ⟨fuel - 1, by simp at hf; omega⟩
        simpa using scanBraces_stop hend
      · have hpos := List.length_pos_iff.mpr hnil
        obtain ⟨fuel, rfl⟩ : ∃ f, fuel = f + 2 := ⟨fuel - 2, by omega⟩
        rw [scanBraces_number hnil hdig h hstop hlens hsize, scanBraces_stop hend]
        simp [hnil]
    | cons d' segs =>
      have htext : [','].intercalate (d :: d' :: segs) =
          d ++ ',' :: [','].intercalate (d' :: segs) := by
        simp [List.intercalate_cons_cons]
      rw [htext] at h hstop hend hlens hf hsize ⊢
      obtain ⟨h₁, hcomma, h₂⟩ := holds_append.mp h
      have hlen : ind + (d ++ ',' :: [','].intercalate (d' :: segs)).length =
          ind + d.length + 1 + ([','].intercalate (d' :: segs)).length := by
        simp only [List.length_append, List.length_cons]
        omega
      simp only [List.length_append, List.length_cons] at hf hsize
      rw [hlen] at hstop hend hlens ⊢
      have hrest : ∀ (fuel : Nat) (s : σ), ([','].intercalate (d' :: segs)).length < fuel →
          scanBraces info lens put (fuel + 1) (ind + d.length) s =
            some (ind + d.length + 1 + ([','].intercalate (d' :: segs)).length,
              (((d' :: segs).filter (· ≠ [])).map (Nat.ofDigitChars 10 · 0)).foldl
                (fun s v => put v s) s) := by
        intro fuel s hf
        rw [scanBraces_comma hcomma (by omega)]
        exact ih (by simp) (fun x hx => hd x (List.mem_cons_of_mem d hx)) h₂ hstop hend hlens hf
          (by omega)
      by_cases hnil : d = []
      · subst hnil
        obtain ⟨fuel, rfl⟩ : ∃ f, fuel = f + 1 := ⟨fuel - 1, by omega⟩
        have := hrest fuel s (by simp at hf; omega)
        simpa using this
      · have hpos := List.length_pos_iff.mpr hnil
        obtain ⟨fuel, rfl⟩ : ∃ f, fuel = f + 2 := ⟨fuel - 2, by omega⟩
        rw [scanBraces_number hnil hdig h₁ (by simp [hcomma]) (by omega) (by omega),
          hrest fuel _ (by omega)]
        simp [hnil]

theorem scanBraces_text {u : List Char} (hu : ∀ c ∈ u, c.isDigit ∨ c = ',') (h : Holds info ind u)
    (hstop : (info (ind + u.length)).isDigit = false)
    (hend : info (ind + u.length) = '}' ∨ lens ≤ ind + u.length) (hlens : ind + u.length ≤ lens)
    (hf : u.length < fuel) (hsize : u.length < infoSize) :
    scanBraces info lens put fuel ind s =
      some (ind + u.length, (numbers u).foldl (fun s v => put v s) s) := by
  have hsplit : [','].intercalate (u.splitOn ',') = u := List.intercalate_splitOn ','
  have hfields := @scanBraces_fields info lens fuel ind σ put s (u.splitOn ',')
    (List.splitOn_ne_nil ',' u) (isDigit_of_mem_splitOn hu)
  rw [hsplit] at hfields
  exact hfields h hstop hend hlens hf hsize

end Braces

theorem scanOther_skip {select : Nat} {g : Globals} {s : List Char} (hs : '{' ∉ s)
    (h : Holds info ind s) (hlens : s ≠ [] → ind + s.length ≤ lens) :
    scanOther info lens index (s.length + fuel) ind select g =
      scanOther info lens index fuel (ind + s.length) select g := by
  induction s generalizing ind with
  | nil => simp
  | cons c s ih =>
    have hlens := hlens (by simp)
    rw [List.length_cons] at hlens
    rw [List.length_cons, show s.length + 1 + fuel = s.length + fuel + 1 by omega, scanOther,
      if_pos (by omega), if_neg (by
        rw [h.1]
        rintro rfl
        exact hs (List.mem_cons_self ..)),
      ih (fun hmem => hs (List.mem_cons_of_mem c hmem)) h.2 (fun _ => by omega)]
    congr 1
    omega

theorem scanOther_end {select : Nat} {g : Globals} (h : lens ≤ ind) :
    scanOther info lens index (fuel + 1) ind select g = some g := by
  rw [scanOther, if_neg (by omega)]

theorem scanOther_brace (select : Nat) (g : Globals) (h : info ind = '{') (hlt : ind < lens) :
    scanOther info lens index (fuel + 1) ind select g =
      if select = 0 then
        (scanBraces info lens (putLocation index) infoSize (ind + 1) (0, g)).bind
          (fun r => scanOther info lens index fuel (r.1 + 1) (select + 1) r.2.2)
      else
        (scanBraces info lens (putLink index) infoSize (ind + 1) g).bind
          (fun r => scanOther info lens index fuel (r.1 + 1) select r.2) := by
  rw [scanOther, if_pos hlt, if_pos h]

theorem scanOther_location {g g' : Globals} {e dim : Nat} (h : info ind = '{') (hlt : ind < lens)
    (hscan : scanBraces info lens (putLocation index) infoSize (ind + 1) (0, g) =
      some (e, (dim, g'))) :
    scanOther info lens index (fuel + 1) ind 0 g = scanOther info lens index fuel (e + 1) 1 g' := by
  rw [scanOther_brace 0 g h hlt, if_pos rfl, hscan, Option.bind_some]

theorem scanOther_links {g g' : Globals} {e : Nat} (h : info ind = '{') (hlt : ind < lens)
    (hscan : scanBraces info lens (putLink index) infoSize (ind + 1) g = some (e, g')) :
    scanOther info lens index (fuel + 1) ind 1 g = scanOther info lens index fuel (e + 1) 1 g' := by
  rw [scanOther_brace 1 g h hlt, if_neg (by decide), hscan, Option.bind_some]

/-- The three coordinates of a device in `NODE_LOCATION`. -/
def locate (index : Nat) (location : Nat × Nat × Nat) (nodeLocation : Nat → Nat → Nat) :
    Nat → Nat → Nat :=
  setLocation (setLocation (setLocation nodeLocation index 0 location.1) index 1 location.2.1)
    index 2 location.2.2

theorem foldl_putLink (index : Nat) (links : List Nat) (g : Globals) :
    links.foldl (fun g v => putLink index v g) g =
      { g with nodeMap := enterLinks index links g.nodeMap } := by
  induction links generalizing g with
  | nil => rfl
  | cons v links ih =>
    rw [List.foldl_cons, ih]
    rfl

theorem scanNeighbors_fields {segs : List (List Char)} (hne : segs ≠ [])
    (hd : ∀ d ∈ segs, ∀ c ∈ d, c.isDigit) (h : Holds info ind ([','].intercalate segs))
    (hstop : (info (ind + ([','].intercalate segs).length)).isDigit = false)
    (hend : info (ind + ([','].intercalate segs).length) ≠ ',')
    (hf : ([','].intercalate segs).length < fuel)
    (hsize : ([','].intercalate segs).length < infoSize) {done : List Nat} {array : Nat → Nat}
    {g : Globals} (hg : g.neighbors = store done array) :
    scanNeighbors info fuel ind done.length g =
      some (ind + ([','].intercalate segs).length,
        { g with
          neighbors := store (done ++ segs.map (Nat.ofDigitChars 10 · 0)) array
          neighborNum := done.length + segs.length }) := by
  induction segs generalizing ind fuel done g with
  | nil => exact absurd rfl hne
  | cons d segs ih =>
    have hdig : ∀ c ∈ d, c.isDigit := hd d (List.mem_cons_self ..)
    obtain ⟨fuel, rfl⟩ : ∃ f, fuel = f + 1 := ⟨fuel - 1, by omega⟩
    have hstore : ∀ v, Function.update g.neighbors done.length v = store (done ++ [v]) array := by
      intro v
      rw [hg, store_concat]
    cases segs with
    | nil =>
      simp only [List.intercalate_singleton] at *
      rw [scanNeighbors, scanNumber_spec hdig h hstop hsize, Option.bind_some]
      simp only [if_neg hend, hstore]
      rfl
    | cons d' segs =>
      have htext : [','].intercalate (d :: d' :: segs) =
          d ++ ',' :: [','].intercalate (d' :: segs) := by
        simp [List.intercalate_cons_cons]
      rw [htext] at h hstop hend hf hsize ⊢
      obtain ⟨h₁, hcomma, h₂⟩ := holds_append.mp h
      have hlen : ind + (d ++ ',' :: [','].intercalate (d' :: segs)).length =
          ind + d.length + 1 + ([','].intercalate (d' :: segs)).length := by
        simp only [List.length_append, List.length_cons]
        omega
      simp only [List.length_append, List.length_cons] at hf hsize
      rw [hlen] at hstop hend ⊢
      rw [scanNeighbors, scanNumber_spec hdig h₁ (by simp [hcomma]) (by omega), Option.bind_some]
      simp only [if_pos hcomma, hstore]
      rw [show done.length + 1 = (done ++ [Nat.ofDigitChars 10 d 0]).length by simp]
      refine (ih (by simp) (fun x hx => hd x (List.mem_cons_of_mem d hx)) h₂ hstop hend
        (by omega) (by omega) rfl).trans ?_
      simp [Nat.add_assoc, Nat.add_comm 1]

theorem scanNeighbors_text {u : List Char} (hu : ∀ c ∈ u, c.isDigit ∨ c = ',')
    (h : Holds info ind u) (hstop : (info (ind + u.length)).isDigit = false)
    (hend : info (ind + u.length) ≠ ',') (hsize : u.length < infoSize) (g : Globals) :
    scanNeighbors info infoSize ind 0 g =
      some (ind + u.length,
        { g with
          neighbors := store (fields u) g.neighbors
          neighborNum := (fields u).length }) := by
  have hsplit : [','].intercalate (u.splitOn ',') = u := List.intercalate_splitOn ','
  have hfields := @scanNeighbors_fields info infoSize ind (u.splitOn ',')
    (List.splitOn_ne_nil ',' u) (isDigit_of_mem_splitOn hu)
  rw [hsplit] at hfields
  have hscan := hfields h hstop hend hsize hsize (show g.neighbors = store [] g.neighbors from rfl)
  simpa [fields] using hscan

/-- A line before its links, with the digits of its coordinates. -/
structure Head where
  type : DeviceType
  x : List Char
  y : List Char
  z : List Char
  ne_nil : ∀ s ∈ [x, y, z], s ≠ []
  isDigit : ∀ s ∈ [x, y, z], ∀ c ∈ s, c.isDigit

namespace Head

def coords (t : Head) : List Char := [','].intercalate [t.x, t.y, t.z]

def text (t : Head) : List Char := typeName t.type ++ ([' ', '{'] ++ (t.coords ++ ['}', ' ', '{']))

def location (t : Head) : Nat × Nat × Nat :=
  (Nat.ofDigitChars 10 t.x 0, Nat.ofDigitChars 10 t.y 0, Nat.ofDigitChars 10 t.z 0)

theorem coords_eq (t : Head) : t.coords = t.x ++ ',' :: (t.y ++ ',' :: t.z) := by
  simp [coords, List.intercalate_cons_cons]

theorem length_coords (t : Head) :
    t.coords.length = t.x.length + (t.y.length + (t.z.length + 1) + 1) := by
  simp only [coords_eq, List.length_append, List.length_cons]

theorem length_text (t : Head) :
    t.text.length = (typeName t.type).length + 2 + t.coords.length + 3 := by
  simp only [text, List.length_append, List.length_cons, List.length_nil]
  omega

theorem isDigit_or_of_mem_coords (t : Head) : ∀ c ∈ t.coords, c.isDigit ∨ c = ',' :=
  isDigit_or_of_mem_intercalate t.isDigit

theorem numbers_coords (t : Head) :
    numbers t.coords = [t.location.1, t.location.2.1, t.location.2.2] :=
  numbers_intercalate (by simp) t.ne_nil t.isDigit

/-- The head of a line with its numbers in the usual notation. -/
def ofLine (l : Line) : Head where
  type := l.type
  x := Nat.toDigits 10 l.location.1
  y := Nat.toDigits 10 l.location.2.1
  z := Nat.toDigits 10 l.location.2.2
  ne_nil := by simp
  isDigit := by
    simp only [List.mem_cons, List.not_mem_nil, or_false, forall_eq_or_imp, forall_eq]
    exact ⟨fun c => isDigit_toDigits, fun c => isDigit_toDigits, fun c => isDigit_toDigits⟩

theorem location_ofLine (l : Line) : (ofLine l).location = l.location := by
  simp [location, ofLine, Nat.ofDigitChars_ten_toDigits]

end Head

theorem scanPosition_spec (t : Head) (h : Holds info ind t.coords)
    (hstop : info (ind + t.coords.length) = '}') (hsize : t.coords.length < infoSize)
    (index : Nat) (g : Globals) :
    scanPosition info index ind g =
      some (ind + t.coords.length + 2,
        { g with
          position := store [t.location.1, t.location.2.1, t.location.2.2] g.position
          nodeLocation := locate index t.location g.nodeLocation }) := by
  rw [Head.length_coords] at hstop hsize ⊢
  rw [Head.coords_eq] at h
  obtain ⟨hx, hcx, hrest⟩ := holds_append.mp h
  obtain ⟨hy, hcy, hz⟩ := holds_append.mp hrest
  have hx := scanNumber_spec (t.isDigit t.x (by simp)) hx (by simp [hcx])
    (show t.x.length < infoSize by omega) 0
  have hy := scanNumber_spec (t.isDigit t.y (by simp)) hy (by simp [hcy])
    (show t.y.length < infoSize by omega) 0
  have hz := scanNumber_spec (t.isDigit t.z (by simp)) hz (by
    rw [show ind + t.x.length + 1 + t.y.length + 1 + t.z.length =
      ind + (t.x.length + (t.y.length + (t.z.length + 1) + 1)) by omega, hstop]
    decide) (show t.z.length < infoSize by omega) 0
  have hend : ind + t.x.length + 1 + t.y.length + 1 + t.z.length + 2 =
      ind + (t.x.length + (t.y.length + (t.z.length + 1) + 1)) + 2 := by omega
  simp only [scanPosition, show List.range 3 = [0, 1, 2] from rfl, List.foldlM_cons,
    List.foldlM_nil, hx, hy, hz, Option.map_some, Option.bind_eq_bind, Option.bind_some,
    Option.pure_def, ne_eq, not_true, not_false_eq_true, if_true, if_false, Nat.reduceEqDiff,
    hend, store_triple]
  rfl

theorem scanOwn_type {type : DeviceType} {g : Globals} (h : Holds info 0 (typeName type))
    (hblank : info (typeName type).length = ' ') (hlens : 0 < lens) :
    scanOwn info lens index (fuel + 1) 0 0 g =
      scanOwn info lens index fuel ((typeName type).length + 2) 1
        { g with deviceType := store (typeName type) g.deviceType } := by
  have hset : setDeviceType info 0 g = ((typeName type).length + 1,
      { g with deviceType := store (typeName type) g.deviceType }) := by
    cases type with
    | zc =>
      obtain ⟨h₀, h₁, -⟩ := h
      simp [setDeviceType, h₀, h₁, show info 2 = ' ' from hblank, typeName, store_pair]
    | zr =>
      obtain ⟨h₀, h₁, -⟩ := h
      simp [setDeviceType, h₀, h₁, show info 2 = ' ' from hblank, typeName, store_pair]
    | zed =>
      obtain ⟨h₀, h₁, h₂, -⟩ := h
      simp [setDeviceType, h₀, h₁, h₂, typeName, store_triple]
  have hfirst : info 0 ≠ ' ' := by
    cases type <;> rw [h.1] <;> decide
  rw [scanOwn, if_pos hlens, if_pos hfirst]
  simp only [hset]

theorem scanOwn_rest {g : Globals} (hf : 0 < fuel) (h : lens < ind + fuel) :
    scanOwn info lens index fuel ind 3 g = some g := by
  induction fuel generalizing ind with
  | zero => omega
  | succ fuel ih =>
    have hstep : scanOwn info lens index (fuel + 1) ind 3 g =
        if ind < lens then scanOwn info lens index fuel (ind + 1) 3 g else some g := by
      simp [scanOwn]
    rw [hstep]
    by_cases hlt : ind < lens
    · rw [if_pos hlt]
      exact ih (by omega) (by omega)
    · rw [if_neg hlt]

/-- What the buffer may hold behind the numbers of the links. -/
inductive Tail : List Char → Prop
  | cut : Tail []
  | closed : Tail ['}']
  | complete : Tail ['}', '\n']

/-- The buffer holds a line of which the list of links is complete up to `u`. -/
structure Loaded (info : Nat → Char) (lens : Nat) (t : Head) (u tail : List Char) : Prop where
  text : ∀ c ∈ u, c.isDigit ∨ c = ','
  isTail : Tail tail
  holds : Holds info 0 (t.text ++ (u ++ (tail ++ ['\x00'])))
  lens_eq : lens = (t.text ++ (u ++ tail)).length
  lens_lt : lens < infoSize

namespace Loaded

variable {t : Head} {u tail : List Char}

theorem lens_sum (h : Loaded info lens t u tail) :
    lens = t.text.length + u.length + tail.length := by
  rw [h.lens_eq, List.length_append, List.length_append]
  omega

theorem holds_links (h : Loaded info lens t u tail) :
    Holds info t.text.length (u ++ (tail ++ ['\x00'])) := by
  simpa using (holds_append.mp h.holds).2

theorem stop (h : Loaded info lens t u tail) :
    (info (t.text.length + u.length) = '}' ∧
      t.text.length + u.length < lens) ∨
    (info (t.text.length + u.length) = '\x00' ∧ t.text.length + u.length = lens) := by
  have hrest := (holds_append.mp h.holds_links).2
  have hlens := h.lens_sum
  cases h.isTail with
  | cut => exact .inr ⟨hrest.1, by simp at hlens; omega⟩
  | closed => exact .inl ⟨hrest.1, by simp at hlens; omega⟩
  | complete => exact .inl ⟨hrest.1, by simp at hlens; omega⟩

theorem holds_head (h : Loaded info lens t u tail) :
    Holds info 0 (typeName t.type) ∧ info (typeName t.type).length = ' ' ∧
      info ((typeName t.type).length + 1) = '{' ∧
      Holds info ((typeName t.type).length + 2)
        (t.coords ++ ['}', ' ', '{']) := by
  have hhead := (holds_append.mp h.holds).1
  obtain ⟨h₁, h₂⟩ := holds_append.mp hhead
  rw [Nat.zero_add] at h₂
  exact ⟨h₁, h₂.1, h₂.2.1, h₂.2.2⟩

theorem scanOther_spec (h : Loaded info lens t u tail) (index : Nat) (g : Globals) :
    scanOther info lens index infoSize 0 0 g =
      some { g with
        nodeLocation := locate index t.location g.nodeLocation
        nodeMap := enterLinks index (numbers u) g.nodeMap } := by
  obtain ⟨hname, hblank, hbrace, hcoords⟩ := h.holds_head
  obtain ⟨hcoords, hclose, hblank', hbrace', -⟩ := holds_append.mp hcoords
  obtain ⟨hlinks, hafter⟩ := holds_append.mp h.holds_links
  have hlen := t.length_text
  have hlens := h.lens_sum
  have hlt := h.lens_lt
  have hskip : '{' ∉ typeName t.type ++ [' '] := by
    cases t.type <;> decide
  have hrest : '{' ∉ tail.drop 1 := by
    cases h.isTail <;> decide
  have htail : Holds info (t.text.length + u.length + 1) (tail.drop 1) := by
    cases h.isTail with
    | cut => trivial
    | closed => trivial
    | complete => exact ⟨hafter.2.1, trivial⟩
  generalize hN : (typeName t.type).length = N at *
  generalize hC : t.coords.length = C at *
  have hloc := @scanBraces_text info lens infoSize (N + 2) _ (putLocation index) (0, g) _
    t.isDigit_or_of_mem_coords hcoords
    (by rw [hC, hclose]; decide) (.inl (hC ▸ hclose)) (by omega) (by omega) (by omega)
  have hmap := @scanBraces_text info lens infoSize t.text.length _ (putLink index)
    { g with nodeLocation := locate index t.location g.nodeLocation } u h.text hlinks
    (by rcases h.stop with ⟨h', -⟩ | ⟨h', -⟩ <;> rw [h'] <;> decide)
    (by rcases h.stop with ⟨h', -⟩ | ⟨-, h'⟩; exacts [.inl h', .inr h'.ge])
    (by omega) (by omega) (by omega)
  rw [t.numbers_coords] at hloc
  rw [foldl_putLink] at hmap
  obtain ⟨f, hf⟩ : ∃ f, infoSize = (typeName t.type ++ [' ']).length +
      (([' '].length + (((tail.drop 1).length + (f + 1)) + 1)) + 1) := by
    refine ⟨infoSize - (N + 1 + (tail.drop 1).length + 4), ?_⟩
    simp only [List.length_append, List.length_cons, List.length_nil, List.length_drop, hN]
    omega
  have hstart : (typeName t.type ++ [' ']).length = N + 1 := by simp [hN]
  calc scanOther info lens index infoSize 0 0 g
      = scanOther info lens index (([' '].length + (((tail.drop 1).length + (f + 1)) + 1)) + 1)
          (N + 1) 0 g := by
        conv_lhs => rw [hf]
        rw [scanOther_skip hskip
          (holds_append.mpr ⟨hname, by simpa [hN] using hblank, trivial⟩) (fun _ => by omega),
          hstart, Nat.zero_add]
    _ = scanOther info lens index ([' '].length + (((tail.drop 1).length + (f + 1)) + 1))
          (N + 2 + C + 1) 1 { g with nodeLocation := locate index t.location g.nodeLocation } :=
        scanOther_location hbrace (by omega) (by rw [hloc, hC]; rfl)
    _ = scanOther info lens index (((tail.drop 1).length + (f + 1)) + 1) (N + 2 + C + 2) 1
          { g with nodeLocation := locate index t.location g.nodeLocation } :=
        scanOther_skip (by decide) ⟨hC ▸ hblank', trivial⟩ (fun _ => by simp; omega)
    _ = scanOther info lens index ((tail.drop 1).length + (f + 1))
          (t.text.length + u.length + 1) 1
          { g with
            nodeLocation := locate index t.location g.nodeLocation
            nodeMap := enterLinks index (numbers u) g.nodeMap } :=
        scanOther_links (hC ▸ hbrace') (by omega)
          (by rw [show N + 2 + C + 2 + 1 = t.text.length by omega]; exact hmap)
    _ = _ := by
        have hroom : tail.drop 1 ≠ [] → t.text.length + u.length + 1 +
            (tail.drop 1).length ≤ lens := by
          intro hne
          have := List.length_pos_iff.mpr hne
          rw [List.length_drop] at this ⊢
          omega
        rw [scanOther_skip hrest htail hroom]
        exact scanOther_end (by rw [List.length_drop]; omega)

theorem scanOwn_spec (h : Loaded info lens t u tail) (hroom : t.text.length < lens) (index : Nat)
    (g : Globals) :
    scanOwn info lens index infoSize 0 0 g =
      some { g with
        deviceType := store (typeName t.type) g.deviceType
        position := store [t.location.1, t.location.2.1, t.location.2.2] g.position
        nodeLocation := locate index t.location g.nodeLocation
        neighbors := store (fields u) g.neighbors
        neighborNum := (fields u).length } := by
  obtain ⟨hname, hblank, hbrace, hcoords⟩ := h.holds_head
  obtain ⟨hcoords, hclose, hblank', hbrace', -⟩ := holds_append.mp hcoords
  obtain ⟨hlinks, hafter⟩ := holds_append.mp h.holds_links
  have hlen := t.length_text
  have hlens := h.lens_sum
  have hlt := h.lens_lt
  have hfirst : info ((typeName t.type).length + 2) ≠ ' ' := by
    obtain ⟨c, cs, hc⟩ := List.exists_cons_of_ne_nil (t.ne_nil t.x (by simp))
    rw [t.coords_eq, hc] at hcoords
    have hdigit : c.isDigit := t.isDigit t.x (by simp) c (hc ▸ List.mem_cons_self ..)
    rw [hcoords.1]
    rintro rfl
    exact absurd hdigit (by decide)
  have hlink : info t.text.length ≠ ' ' := by
    cases u with
    | nil =>
      rcases h.stop with ⟨h', -⟩ | ⟨-, h'⟩
      · rw [List.length_nil, Nat.add_zero] at h'
        rw [h']
        decide
      · exact absurd h' (Nat.ne_of_lt hroom)
    | cons c cs =>
      rw [hlinks.1]
      rintro rfl
      exact absurd (h.text ' ' (List.mem_cons_self ..)) (by decide)
  have hposition := scanPosition_spec t hcoords hclose (by omega) index
    { g with deviceType := store (typeName t.type) g.deviceType }
  have hneighbors := scanNeighbors_text h.text hlinks
    (by rcases h.stop with ⟨h', -⟩ | ⟨h', -⟩ <;> rw [h'] <;> decide)
    (by rcases h.stop with ⟨h', -⟩ | ⟨h', -⟩ <;> rw [h'] <;> decide) (by omega)
    { g with
      deviceType := store (typeName t.type) g.deviceType
      position := store [t.location.1, t.location.2.1, t.location.2.2] g.position
      nodeLocation := locate index t.location g.nodeLocation }
  calc scanOwn info lens index infoSize 0 0 g
      = scanOwn info lens index 39 ((typeName t.type).length + 2) 1
          { g with deviceType := store (typeName t.type) g.deviceType } :=
        scanOwn_type hname hblank (by omega)
    _ = scanOwn info lens index 38 t.text.length 2
          { g with
            deviceType := store (typeName t.type) g.deviceType
            position := store [t.location.1, t.location.2.1, t.location.2.2] g.position
            nodeLocation := locate index t.location g.nodeLocation } := by
        rw [scanOwn, if_pos (by omega), if_pos hfirst, hposition, hlen]
        rfl
    _ = scanOwn info lens index 37 (t.text.length + u.length + 1) 3 _ := by
        rw [scanOwn, if_pos (by omega), if_pos hlink, hneighbors, Option.bind_some]
    _ = _ := scanOwn_rest (by decide) (by
        have : infoSize = 40 := rfl
        omega)

end Loaded

end M2M.Network.TopologyFile
