import M2M.Lib.OpenAddressing
import M2M.Tracing.Records

/-! The hash table of the functions of an object file: how `SET_create_obj` fills it, and the
searches of the branch events in it. -/

open M2M.Lib M2M.Lib.OpenAddressing

namespace M2M.Tracing.FuncTable

open Records (FuncSym)

/-- An `Elf32_Sym`. -/
structure ElfSym where
  stInfo : UInt8
  stOther : UInt8
  stShndx : UInt16
  stValue : UInt32
  stSize : UInt32

/-- `IS_FUNC`. -/
def ElfSym.isFunc (sym : ElfSym) : Bool :=
  sym.stInfo &&& 0xf = 2 ∧ sym.stOther &&& 0x3 = 0 ∧ sym.stShndx ≠ 0

/-- What is used of an `EFD`: the type in the header and the symbol table. -/
structure Efd where
  eType : UInt16
  symtab : List ElfSym

def thumbInsnMask : UInt32 := 0xfffffffe

def targetPageBits : UInt32 := 10

def Efd.vaddrOff (efd : Efd) (start pgoff : UInt32) : UInt32 :=
  if efd.eType = 3 then start - (pgoff <<< targetPageBits) else 0

/-- The function symbols, masked and relocated. -/
def Efd.funcSyms (efd : Efd) (start pgoff : UInt32) : List FuncSym :=
  (efd.symtab.filter ElfSym.isFunc).map fun sym =>
    ⟨(sym.stValue &&& thumbInsnMask) + efd.vaddrOff start pgoff, sym.stSize⟩

def hashTableSize : List Nat :=
  [1, 13, 61, 127, 509, 1021, 2039, 4093, 8191, 16381, 32749, 65521, 131071, 262139, 524287,
    1048573, 0, 0, 0, 0, 0, 0, 0, 0, 0, 0, 0, 0, 0, 0, 0, 0]

/-- The entry for a number of functions: `31 - __builtin_clz(size)` is its logarithm. -/
def sizeFor (size : Nat) : Nat := hashTableSize.getD size.log2 0

structure Func where
  addr : UInt32
  symtabFuncIdx : Nat

def hash (addr : UInt32) (size : Nat) : Nat := (addr.toNat >>> 2) % size

def slots (funcTable : Nat → Func) (i : Nat) : Option Func :=
  if (funcTable i).addr = 0 then none else some (funcTable i)

/-- The loop that looks for an address, with a bound on its rounds.  With no slot at all `HASH`
divides by zero. -/
def search (fuel : Nat) (funcTable : Nat → Func) (size : Nat) (addr : UInt32) : Option Nat :=
  if size = 0 then none
  else probe size (slots funcTable) (fun f => f.addr = addr) (hash addr size) fuel

/-- The variables of the second pass of `SET_create_obj`. -/
structure Building where
  funcTable : Nat → Func
  funcTableSize : Nat
  symtabFuncIdx : Nat
  min : UInt32
  max : UInt32

/-- One function of the second pass. -/
def Building.push (fuel : Nat) (b : Building) (sym : FuncSym) : Option Building :=
  (search fuel b.funcTable b.funcTableSize sym.vaddr).map fun idx =>
    if (b.funcTable idx).addr ≠ sym.vaddr then
      { b with
        funcTable := Function.update b.funcTable idx ⟨sym.vaddr, b.symtabFuncIdx⟩
        symtabFuncIdx := b.symtabFuncIdx + 1
        min := if sym.vaddr < b.min then sym.vaddr else b.min
        max := if sym.vaddr + sym.size > b.max then sym.vaddr + sym.size else b.max }
    else b

structure ObjFile where
  id : UInt16
  funcTable : Nat → Func
  funcTableSize : Nat
  textStart : UInt32
  textEnd : UInt32

/-- `SET_create_obj`, of a file that has been opened: no result if it does not return, and
`none` for a file without functions. -/
def setCreateObj (fuel : Nat) (currentId : UInt16) (efd : Efd) (start pgoff : UInt32) :
    Option (Option ObjFile) :=
  let syms := efd.funcSyms start pgoff
  if syms = [] then some none
  else
    (syms.foldlM (Building.push fuel)
      ⟨fun _ => ⟨0, 0⟩, sizeFor syms.length, 0, 0xc0000000, 0⟩).map fun b =>
        some ⟨currentId, b.funcTable, b.funcTableSize, b.min, b.max⟩

/-- The search of `SET_event_branch_user`, of `SET_event_branch_kernel` and of
`SET_event_branch_irq`: the index of the function, or `none` if there is none. -/
def ObjFile.find (fuel : Nat) (obj : ObjFile) (targetAddr : UInt32) : Option (Option Nat) :=
  (search fuel obj.funcTable obj.funcTableSize targetAddr).map fun idx =>
    (slots obj.funcTable idx).map Func.symtabFuncIdx

def distinct (addrs : List UInt32) : List UInt32 :=
  addrs.foldl (fun l addr => if addr = 0 ∨ addr ∈ l then l else l ++ [addr]) []

/-- The functions of the file. -/
def Efd.addrs (efd : Efd) (start pgoff : UInt32) : List UInt32 :=
  (efd.funcSyms start pgoff).map FuncSym.vaddr

/-- The table is built, and every search in it ends and finds what it should. -/
def ExactLookup (currentId : UInt16) (efd : Efd) (start pgoff : UInt32) : Prop :=
  ∃ fuel obj, setCreateObj fuel currentId efd start pgoff = some (some obj) ∧
    ∀ targetAddr, ∃ fuel found, obj.find fuel targetAddr = some found ∧
      (found.isSome ↔ targetAddr ≠ 0 ∧ targetAddr ∈ efd.addrs start pgoff) ∧
      found = (distinct (efd.addrs start pgoff)).idxOf? targetAddr

def entries (funcs : List UInt32) : List Func := funcs.zipIdx.map fun p => ⟨p.1, p.2⟩

theorem entries_append (funcs : List UInt32) (addr : UInt32) :
    entries (funcs ++ [addr]) = entries funcs ++ [⟨addr, funcs.length⟩] := by
  simp [entries, List.zipIdx_append]

theorem mem_entries_iff {funcs : List UInt32} {f : Func} :
    f ∈ entries funcs ↔ funcs[f.symtabFuncIdx]? = some f.addr := by
  simp only [entries, List.mem_map, List.mem_zipIdx_iff_getElem?]
  constructor
  · rintro ⟨p, hp, rfl⟩
    exact hp
  · intro h
    exact ⟨(f.addr, f.symtabFuncIdx), h, rfl⟩

@[simp] theorem length_entries (funcs : List UInt32) : (entries funcs).length = funcs.length := by
  simp [entries]

/-- The table under construction, beside the object with the list of its functions. -/
structure Builds (b : Building) (obj : Records.ObjFile) : Prop where
  filled : Filled b.funcTableSize (fun addr => hash addr b.funcTableSize) Func.addr
    (slots b.funcTable) (entries obj.funcs)
  next : b.symtabFuncIdx = obj.funcs.length
  min : b.min = obj.textStart
  max : b.max = obj.textEnd

theorem hash_lt {size : Nat} (h : 0 < size) (addr : UInt32) : hash addr size < size :=
  Nat.mod_lt _ h

theorem slots_update {t : Nat → Func} {i : Nat} {f : Func} (h : f.addr ≠ 0) :
    slots (Function.update t i f) = Function.update (slots t) i (some f) := by
  funext j
  by_cases hj : j = i
  · subst hj
    rw [slots, Function.update_self, Function.update_self, if_neg h]
  · rw [slots, Function.update_of_ne hj, Function.update_of_ne hj, slots]

theorem slots_eq_some {t : Nat → Func} {i : Nat} {f : Func} (h : slots t i = some f) :
    t i = f ∧ f.addr ≠ 0 := by
  rw [slots] at h
  split at h
  · cases h
  · rename_i hne
    obtain rfl := Option.some.inj h
    exact ⟨rfl, hne⟩

theorem slots_eq_none {t : Nat → Func} {i : Nat} (h : slots t i = none) : (t i).addr = 0 := by
  rw [slots] at h
  split at h
  · assumption
  · cases h

theorem search_eq {t : Nat → Func} {size : Nat} {funcs : List UInt32}
    (h : Filled size (fun addr => hash addr size) Func.addr (slots t) (entries funcs))
    (hl : funcs.length < size) (addr : UInt32) :
    ∃ d < size, search size t size addr = some ((hash addr size + d) % size) ∧
      ((∃ k, funcs[k]? = some addr ∧ slots t ((hash addr size + d) % size) = some ⟨addr, k⟩) ∨
        addr ∉ funcs ∧ slots t ((hash addr size + d) % size) = none ∧
          ∀ j < d, slots t ((hash addr size + j) % size) ≠ none) := by
  have hpos : 0 < size := Nat.zero_lt_of_lt hl
  obtain ⟨d, hd, hprobe, hend⟩ := h.search (k := addr) (by simpa using hl) (hash_lt hpos addr)
  refine ⟨d, hd, ?_, ?_⟩
  · rw [search, if_neg (Nat.ne_of_gt hpos)]
    exact hprobe
  · rcases hend with ⟨f, hf, rfl, hslot⟩ | ⟨hnone, hslot, hpath⟩
    · exact .inl ⟨f.symtabFuncIdx, mem_entries_iff.mp hf, hslot⟩
    · refine .inr ⟨fun hmem => ?_, hslot, hpath⟩
      obtain ⟨k, hk⟩ := List.mem_iff_getElem?.mp hmem
      exact hnone ⟨addr, k⟩ (mem_entries_iff.mpr hk) rfl

theorem Builds.push {b : Building} {obj : Records.ObjFile} (h : Builds b obj)
    (hl : obj.funcs.length < b.funcTableSize) (sym : FuncSym) :
    ∃ b', b.push b.funcTableSize sym = some b' ∧ Builds b' (Records.pushFunc obj sym) ∧
      b'.funcTableSize = b.funcTableSize := by
  obtain ⟨d, hd, hsearch, hend⟩ := search_eq h.filled hl sym.vaddr
  rw [Building.push, hsearch, Option.map_some, Records.pushFunc]
  rcases hend with ⟨k, hk, hslot⟩ | ⟨hnew, hslot, hpath⟩
  · obtain ⟨hfunc, -⟩ := slots_eq_some hslot
    have hmem : sym.vaddr ∈ obj.funcs := List.mem_iff_getElem?.mpr ⟨k, hk⟩
    rw [if_neg (by rw [hfunc]; exact not_not_intro rfl), if_pos (.inr hmem)]
    exact ⟨b, rfl, h, rfl⟩
  · have hempty := slots_eq_none hslot
    by_cases hzero : sym.vaddr = 0
    · rw [if_neg (by rw [hempty, hzero]; exact not_not_intro rfl), if_pos (.inl hzero)]
      exact ⟨b, rfl, h, rfl⟩
    · rw [if_pos (by rw [hempty]; exact Ne.symm hzero), if_neg (not_or.mpr ⟨hzero, hnew⟩)]
      refine ⟨_, rfl, ⟨?_, ?_, ?_, ?_⟩, rfl⟩
      · have hfresh : (⟨sym.vaddr, b.symtabFuncIdx⟩ : Func) ∉ entries obj.funcs := by
          intro hmem
          exact hnew (List.mem_iff_getElem?.mpr ⟨_, mem_entries_iff.mp hmem⟩)
        have hput := h.filled.put (a := ⟨sym.vaddr, b.symtabFuncIdx⟩) hd hslot hpath hfresh
        rw [slots_update hzero, entries_append, ← h.next]
        exact hput
      · simp [h.next]
      · rw [h.min]
      · rw [h.max]

theorem length_pushFunc_le (obj : Records.ObjFile) (sym : FuncSym) :
    obj.funcs.length ≤ (Records.pushFunc obj sym).funcs.length := by
  rw [Records.pushFunc]
  split
  · exact Nat.le_refl _
  · simp

theorem length_foldl_pushFunc_le (syms : List FuncSym) (obj : Records.ObjFile) :
    obj.funcs.length ≤ (syms.foldl Records.pushFunc obj).funcs.length := by
  induction syms generalizing obj with
  | nil => exact Nat.le_refl _
  | cons sym syms ih => exact Nat.le_trans (length_pushFunc_le obj sym) (ih _)

theorem Builds.pushAll {b : Building} {obj : Records.ObjFile} (h : Builds b obj)
    (syms : List FuncSym)
    (hl : (syms.foldl Records.pushFunc obj).funcs.length < b.funcTableSize) :
    ∃ b', syms.foldlM (Building.push b.funcTableSize) b = some b' ∧
      Builds b' (syms.foldl Records.pushFunc obj) ∧ b'.funcTableSize = b.funcTableSize := by
  induction syms generalizing b obj with
  | nil => exact ⟨b, rfl, h, rfl⟩
  | cons sym syms ih =>
    have hle := length_foldl_pushFunc_le (sym :: syms) obj
    obtain ⟨b₁, hpush, hbuilds, hsize⟩ := h.push (Nat.lt_of_le_of_lt hle hl) sym
    obtain ⟨b', hrest, hbuilds', hsize'⟩ := ih hbuilds (by rwa [hsize])
    refine ⟨b', ?_, hbuilds', hsize'.trans hsize⟩
    rw [List.foldlM_cons, hpush, ← hsize]
    exact hrest

/-- The list of an object has no address twice, and not 0. -/
def Listed (obj : Records.ObjFile) : Prop := obj.funcs.Nodup ∧ 0 ∉ obj.funcs

theorem Listed.pushFunc {obj : Records.ObjFile} (h : Listed obj) (sym : FuncSym) :
    Listed (Records.pushFunc obj sym) := by
  rw [Records.pushFunc]
  split
  · exact h
  · rename_i hnew
    obtain ⟨hzero, hmem⟩ := not_or.mp hnew
    refine ⟨?_, ?_⟩
    · simpa [List.nodup_append, h.1] using fun a ha => ne_of_mem_of_not_mem ha hmem
    · simpa [h.2] using fun h0 => hzero h0.symm

theorem funcs_pushFuncs (id : UInt16) (syms : List FuncSym) :
    (Records.pushFuncs id syms).funcs = distinct (syms.map FuncSym.vaddr) ∧
      Listed (Records.pushFuncs id syms) := by
  rw [Records.pushFuncs, distinct]
  induction syms using List.reverseRecOn with
  | nil => exact ⟨rfl, List.nodup_nil, List.not_mem_nil⟩
  | append_singleton syms sym ih =>
    rw [List.foldl_append, List.map_append, List.foldl_append, ← ih.1]
    refine ⟨?_, ih.2.pushFunc sym⟩
    simp only [List.foldl_cons, List.foldl_nil, List.map_cons, List.map_nil, Records.pushFunc]
    split
    · rfl
    · rfl

theorem mem_distinct_iff {addrs : List UInt32} {addr : UInt32} :
    addr ∈ distinct addrs ↔ addr ≠ 0 ∧ addr ∈ addrs := by
  rw [distinct]
  induction addrs using List.reverseRecOn with
  | nil => simp
  | append_singleton addrs last ih =>
    simp only [List.foldl_append, List.foldl_cons, List.foldl_nil, List.mem_append,
      List.mem_singleton]
    split
    · rename_i hskip
      rw [ih]
      refine ⟨fun h => ⟨h.1, .inl h.2⟩, fun h => ⟨h.1, h.2.elim id fun hlast => ?_⟩⟩
      subst hlast
      exact (ih.mp (hskip.resolve_left h.1)).2
    · rename_i hnew
      rw [List.mem_append, List.mem_singleton, ih]
      constructor
      · rintro (h | rfl)
        · exact ⟨h.1, .inl h.2⟩
        · exact ⟨fun h0 => hnew (.inl h0), .inr rfl⟩
      · rintro ⟨hne, h | rfl⟩
        · exact .inl ⟨hne, h⟩
        · exact .inr rfl

theorem length_distinct_le (addrs : List UInt32) : (distinct addrs).length ≤ addrs.length := by
  rw [distinct]
  induction addrs using List.reverseRecOn with
  | nil => exact Nat.le_refl _
  | append_singleton addrs last ih =>
    simp only [List.foldl_append, List.foldl_cons, List.foldl_nil, List.length_append,
      List.length_singleton]
    split
    · exact Nat.le_succ_of_le ih
    · simpa using ih

/-- The object with its table stands for the object with the list of its functions. -/
structure ObjFile.Represents (obj : ObjFile) (o : Records.ObjFile) : Prop where
  id : obj.id = o.id
  filled : Filled obj.funcTableSize (fun addr => hash addr obj.funcTableSize) Func.addr
    (slots obj.funcTable) (entries o.funcs)
  textStart : obj.textStart = o.textStart
  textEnd : obj.textEnd = o.textEnd

variable {efd : Efd} {start pgoff : UInt32} {currentId : UInt16}

theorem setCreateObj_eq (currentId : UInt16) (hsyms : efd.funcSyms start pgoff ≠ [])
    (hroom : (distinct (efd.addrs start pgoff)).length <
      sizeFor (efd.funcSyms start pgoff).length) :
    ∃ obj, setCreateObj (sizeFor (efd.funcSyms start pgoff).length) currentId efd start pgoff =
        some (some obj) ∧ obj.funcTableSize = sizeFor (efd.funcSyms start pgoff).length ∧
      obj.Represents (Records.pushFuncs currentId (efd.funcSyms start pgoff)) := by
  have hbuilds : Builds
      ⟨fun _ => ⟨0, 0⟩, sizeFor (efd.funcSyms start pgoff).length, 0, 0xc0000000, 0⟩
      ⟨currentId, [], 0xc0000000, 0⟩ := by
    have hempty : slots (fun _ => ⟨0, 0⟩) = fun _ => none := by
      funext i
      rfl
    refine ⟨?_, rfl, rfl, rfl⟩
    rw [hempty]
    exact .empty _ _ _
  have hfuncs := (funcs_pushFuncs currentId (efd.funcSyms start pgoff)).1
  have hall := hbuilds.pushAll (efd.funcSyms start pgoff) (by
    rw [Records.pushFuncs] at hfuncs
    rw [hfuncs]
    exact hroom)
  obtain ⟨b, hfold, hb, hsize⟩ := hall
  refine ⟨⟨currentId, b.funcTable, b.funcTableSize, b.min, b.max⟩, ?_, hsize, ?_, hb.filled, hb.min,
    hb.max⟩
  · rw [setCreateObj, if_neg hsyms, hfold, Option.map_some]
  · rw [Records.pushFuncs_id]

theorem ObjFile.Represents.find_eq {obj : ObjFile} {o : Records.ObjFile} (h : obj.Represents o)
    (ho : Listed o) (hroom : o.funcs.length < obj.funcTableSize) (targetAddr : UInt32) :
    obj.find obj.funcTableSize targetAddr = some (o.find targetAddr) := by
  obtain ⟨d, -, hsearch, hend⟩ := search_eq h.filled hroom targetAddr
  rw [ObjFile.find, hsearch, Option.map_some, Records.ObjFile.find]
  rcases hend with ⟨k, hk, hslot⟩ | ⟨hnew, hslot, -⟩
  · obtain ⟨hlt, hat⟩ := List.getElem?_eq_some_iff.mp hk
    rw [hslot, Option.map_some, Option.some.injEq, eq_comm, List.idxOf?_eq_some_iff]
    refine ⟨hlt, hat, fun j (hj : j < k) hsame => ?_⟩
    exact Nat.ne_of_lt hj ((List.Nodup.getElem_inj_iff ho.1).mp (hsame.trans hat.symm))
  · rw [hslot, Option.map_none, List.idxOf?_eq_none_iff.mpr hnew]

theorem exactLookup_of_room (hsyms : efd.funcSyms start pgoff ≠ [])
    (hroom : (distinct (efd.addrs start pgoff)).length <
      sizeFor (efd.funcSyms start pgoff).length) :
    ExactLookup currentId efd start pgoff := by
  obtain ⟨obj, hcreate, hsize, hobj⟩ := setCreateObj_eq currentId hsyms hroom
  obtain ⟨hfuncs, hlisted⟩ := funcs_pushFuncs currentId (efd.funcSyms start pgoff)
  refine ⟨_, obj, hcreate, fun targetAddr => ⟨obj.funcTableSize, _,
    hobj.find_eq hlisted (by rw [hfuncs, hsize]; exact hroom) targetAddr, ?_, ?_⟩⟩
  · rw [Records.ObjFile.find, List.isSome_idxOf?, hfuncs]
    exact mem_distinct_iff
  · rw [Records.ObjFile.find, hfuncs]
    rfl

theorem sizeFor_of_large {n : Nat} (h : 65536 ≤ n) : sizeFor n = 0 := by
  have hlog : 16 ≤ n.log2 := (Nat.le_log2 (by omega)).mpr h
  have hentries : ∀ k < 32, 16 ≤ k → hashTableSize.getD k 0 = 0 := by decide
  rcases Nat.lt_or_ge n.log2 32 with hlt | hge
  · exact hentries _ hlt hlog
  · rw [sizeFor, List.getD_eq_getElem?_getD, List.getElem?_eq_none (l := hashTableSize) hge,
      Option.getD_none]

theorem lt_sizeFor {n : Nat} (h : 2 ≤ n) (h' : n < 65536) : n < sizeFor n := by
  have hlt : n < 2 ^ (n.log2 + 1) := Nat.lt_log2_self
  have hlow : 1 ≤ n.log2 := (Nat.le_log2 (by omega)).mpr h
  have hhigh : n.log2 < 16 := (Nat.log2_lt (by omega)).mpr h'
  have hentries : ∀ k < 16, 1 ≤ k → 2 ^ (k + 1) ≤ hashTableSize.getD k 0 := by decide
  exact Nat.lt_of_lt_of_le hlt (hentries _ hhigh hlow)

theorem not_exactLookup_of_large (hlarge : 65536 ≤ (efd.funcSyms start pgoff).length) :
    ¬ExactLookup currentId efd start pgoff := by
  rintro ⟨fuel, obj, hcreate, -⟩
  rw [setCreateObj, sizeFor_of_large hlarge] at hcreate
  cases hsyms : efd.funcSyms start pgoff with
  | nil =>
    rw [hsyms] at hlarge
    cases hlarge
  | cons sym syms =>
    rw [hsyms, if_neg (List.cons_ne_nil _ _), List.foldlM_cons, Building.push, search,
      if_pos rfl] at hcreate
    cases hcreate

theorem search_single_empty {fuel i : Nat} {t : Nat → Func} {addr : UInt32}
    (hempty : (t 0).addr = 0) (h : search fuel t 1 addr = some i) : i = 0 := by
  have hslot : slots t 0 = none := by rw [slots, if_pos hempty]
  have hhash : hash addr 1 = 0 := Nat.mod_one _
  rw [search, if_neg Nat.one_ne_zero, hhash] at h
  cases fuel with
  | zero => cases h
  | succ fuel =>
    rw [probe, hslot] at h
    exact (Option.some.inj h).symm

theorem search_single_taken (fuel : Nat) {t : Nat → Func} {addr : UInt32}
    (htaken : (t 0).addr ≠ 0) (hne : (t 0).addr ≠ addr) : search fuel t 1 addr = none := by
  rw [search, if_neg Nat.one_ne_zero]
  refine Probing.probe_eq_none (hash_lt Nat.one_pos addr) fun i hi => ?_
  obtain rfl := Nat.lt_one_iff.mp hi
  exact ⟨t 0, by rw [slots, if_neg htaken], decide_eq_false hne⟩

theorem push_single {b b' : Building} {fuel : Nat} {sym : FuncSym} (hsize : b.funcTableSize = 1)
    (hempty : (b.funcTable 0).addr = 0) (hne : sym.vaddr ≠ 0) (h : b.push fuel sym = some b') :
    b'.funcTableSize = 1 ∧ (b'.funcTable 0).addr = sym.vaddr := by
  obtain ⟨i, hsearch, hb'⟩ := Option.map_eq_some_iff.mp h
  rw [hsize] at hsearch
  obtain rfl := search_single_empty hempty hsearch
  have hpush : (b.funcTable 0).addr ≠ sym.vaddr := by
    rw [hempty]
    exact hne.symm
  rw [if_pos hpush] at hb'
  subst hb'
  refine ⟨hsize, ?_⟩
  dsimp only
  rw [Function.update_self]

theorem not_exactLookup_of_single {sym : FuncSym} (hsyms : efd.funcSyms start pgoff = [sym])
    (hne : sym.vaddr ≠ 0) : ¬ExactLookup currentId efd start pgoff := by
  rintro ⟨fuel, obj, hcreate, hfind⟩
  rw [setCreateObj, hsyms, if_neg (List.cons_ne_nil _ _), List.foldlM_cons] at hcreate
  obtain ⟨b, hb, hobj⟩ := Option.map_eq_some_iff.mp hcreate
  obtain ⟨b', hpush, hnil⟩ := Option.bind_eq_some_iff.mp hb
  obtain rfl := Option.some.inj hnil
  obtain rfl := Option.some.inj hobj
  obtain ⟨hsize, haddr⟩ := push_single rfl rfl hne hpush
  obtain ⟨fuel', found, hfound, -⟩ := hfind (sym.vaddr + 1)
  have hother : (b'.funcTable 0).addr ≠ sym.vaddr + 1 := by
    rw [haddr]
    grind
  have hnone := search_single_taken fuel' (by rwa [haddr]) hother
  rw [ObjFile.find, hsize, hnone] at hfound
  cases hfound

/-- Lookup is exact and ends, exactly when the table has a size, which it has below 65536
functions, and an empty slot, which it has unless its one function is not at 0. -/
theorem exactLookup_iff (hsyms : efd.funcSyms start pgoff ≠ []) :
    ExactLookup currentId efd start pgoff ↔ (efd.funcSyms start pgoff).length ≤ 65535 ∧
      ((efd.funcSyms start pgoff).length = 1 → efd.addrs start pgoff = [0]) := by
  have hlength : (efd.addrs start pgoff).length = (efd.funcSyms start pgoff).length :=
    List.length_map _
  constructor
  · intro h
    refine ⟨?_, fun hone => ?_⟩
    · by_contra hlarge
      exact not_exactLookup_of_large (by omega) h
    · obtain ⟨sym, hsym⟩ := List.length_eq_one_iff.mp hone
      have hzero : sym.vaddr = 0 := by
        by_contra hne
        exact not_exactLookup_of_single hsym hne h
      rw [Efd.addrs, hsym, List.map_singleton, hzero]
  · rintro ⟨hlarge, hone⟩
    refine exactLookup_of_room hsyms ?_
    have hle := length_distinct_le (efd.addrs start pgoff)
    by_cases hsingle : (efd.funcSyms start pgoff).length = 1
    · rw [hone hsingle, hsingle]
      decide
    · have hpos := List.length_pos_iff.mpr hsyms
      exact Nat.lt_of_le_of_lt (hlength ▸ hle) (lt_sizeFor (by omega) (by omega))

/-- A function of 4 bytes. -/
def funcAt (addr : UInt32) : ElfSym := ⟨2, 0, 1, addr, 4⟩

theorem exactLookup_two : ExactLookup 2 ⟨2, [funcAt 0x8000, funcAt 0x8011]⟩ 0 0 :=
  (exactLookup_iff (by decide)).mpr (by decide)

theorem not_exactLookup_one : ¬ExactLookup 2 ⟨2, [funcAt 0x8000]⟩ 0 0 := by
  have hsyms : Efd.funcSyms ⟨2, [funcAt 0x8000]⟩ 0 0 = [⟨0x8000, 4⟩] := by decide
  exact not_exactLookup_of_single hsyms (by decide)

end M2M.Tracing.FuncTable
