import M2M.Lib.Runs
import Mathlib.Data.UInt

/-! The func records of a trace: object files with their ids, and the words that stand for
function entries and returns. -/

open M2M.Lib

namespace M2M.Tracing.Records

def maxStackSize : Nat := 1024

/-- A function symbol of an ELF file, at the address where the file is loaded. -/
structure FuncSym where
  vaddr : UInt32
  size : UInt32
  deriving DecidableEq

/-- `ObjFile`.  `funcs` lists the addresses in `funcTable` by their `symtabFuncIdx`. -/
structure ObjFile where
  id : UInt16
  funcs : List UInt32
  textStart : UInt32
  textEnd : UInt32
  deriving DecidableEq

/-- The search of `funcTable` for a function entry. -/
def ObjFile.find (obj : ObjFile) (addr : UInt32) : Option Nat := obj.funcs.idxOf? addr

/-- The second pass of `SET_create_obj` at one symbol.  An address is pushed once, and 0 marks
the empty slots of the table. -/
def pushFunc (obj : ObjFile) (sym : FuncSym) : ObjFile :=
  if sym.vaddr = 0 ∨ sym.vaddr ∈ obj.funcs then obj
  else
    { obj with
      funcs := obj.funcs ++ [sym.vaddr]
      textStart := if sym.vaddr < obj.textStart then sym.vaddr else obj.textStart
      textEnd := if sym.vaddr + sym.size > obj.textEnd then sym.vaddr + sym.size
        else obj.textEnd }

def pushFuncs (id : UInt16) (syms : List FuncSym) : ObjFile :=
  syms.foldl pushFunc ⟨id, [], 0xc0000000, 0⟩

/-- The object files of a run in the order of loading, with `current_id`.  `kernels` and `irqs` are
the places of those that were loaded as the kernel of a process that traces the kernel and
interrupts. -/
structure Loaded where
  currentId : UInt16
  objs : List ObjFile
  kernels : List Nat
  irqs : List Nat
  deriving DecidableEq

def Loaded.start : Loaded := ⟨2, [], [], []⟩

/-- A call of `SET_create_obj`.  For a kernel the flags are `SET_PROCESS_KERNEL` and
`SET_PROCESS_IRQ` of the process, for another file they are not set. -/
structure Load where
  syms : List FuncSym
  kernel : Bool
  irq : Bool
  deriving DecidableEq

/-- `SET_create_obj`.  A file without functions is not loaded.  One of 65536 functions or more,
for whose table the code divides by zero, is loaded here. -/
def Loaded.load (s : Loaded) (l : Load) : Loaded :=
  if l.syms = [] then s
  else
    { currentId := s.currentId + 1
      objs := s.objs ++ [pushFuncs s.currentId l.syms]
      kernels := if l.kernel then s.kernels ++ [s.objs.length] else s.kernels
      irqs := if l.irq then s.irqs ++ [s.objs.length] else s.irqs }

/-- A func record by what it means. -/
inductive Record
  | userEntry (id : UInt16) (f : Nat)
  | userReturn (i : Nat)
  | kernelEntry (id : UInt16) (f : Nat)
  | kernelReturn (i : Nat)
  | icEntry (f : Nat)
  | icReturn (i : Nat)
  deriving DecidableEq

/-- The argument of `SET_output_write_func`. -/
def Record.word : Record → UInt32
  | userEntry id f => id.toUInt32 <<< 16 ||| .ofNat f
  | userReturn i => .ofNat i
  | kernelEntry id f => id.toUInt32 <<< 16 ||| .ofNat f
  | kernelReturn i => 0x00010000 ||| .ofNat i
  | icEntry f => 0x00030000 ||| .ofNat f
  | icReturn i => 0x00020000 ||| .ofNat i

/-- What a word is meant to say: `entry o f` is the entry of function `f` of the object that
was loaded at place `o`. -/
inductive Meaning
  | userReturn (i : Nat)
  | kernelReturn (i : Nat)
  | icReturn (i : Nat)
  | icEntry (f : Nat)
  | entry (o f : Nat)
  deriving DecidableEq

namespace Loaded

variable (s : Loaded)

def funcsOf (o : Nat) : Nat := ((s.objs[o]?).map (·.funcs.length)).getD 0

def idOf (o : Nat) : UInt16 := ((s.objs[o]?).map (·.id)).getD 0

def record : Meaning → Record
  | .userReturn i => .userReturn i
  | .kernelReturn i => .kernelReturn i
  | .icReturn i => .icReturn i
  | .icEntry f => .icEntry f
  | .entry o f => .userEntry (s.idOf o) f

/-- What the events of a run can write.  A return pops between one frame and a full stack, and
records of kernel space and of interrupts need a process that traces them. -/
def Written : Meaning → Prop
  | .userReturn i => 1 ≤ i ∧ i ≤ maxStackSize
  | .kernelReturn i => s.kernels ≠ [] ∧ 1 ≤ i ∧ i ≤ maxStackSize
  | .icReturn i => s.irqs ≠ [] ∧ 1 ≤ i ∧ i ≤ maxStackSize
  | .icEntry f => ∃ k ∈ s.irqs, f < s.funcsOf k
  | .entry o f => f < s.funcsOf o

instance : ∀ m, Decidable (s.Written m)
  | .userReturn _ => inferInstanceAs (Decidable (_ ∧ _))
  | .kernelReturn _ => inferInstanceAs (Decidable (_ ∧ _))
  | .icReturn _ => inferInstanceAs (Decidable (_ ∧ _))
  | .icEntry f => inferInstanceAs (Decidable (∃ k ∈ s.irqs, f < s.funcsOf k))
  | .entry _ _ => inferInstanceAs (Decidable (_ < _))

/-- Distinct meanings have distinct words. -/
def Unique : Prop :=
  ∀ m m', s.Written m → s.Written m' → (s.record m).word = (s.record m').word → m = m'

/-- The ids of the files do not come round to the reserved ones, function indices fit in 16
bits, and a kernel whose interrupts are traced is the only file of the run and has one function. -/
def Fits (l : Load) : Prop :=
  l.syms ≠ [] →
    s.objs.length < 65534 ∧ (pushFuncs s.currentId l.syms).funcs.length ≤ 65536 ∧ s.irqs = [] ∧
      (l.irq = true → s.objs = [] ∧ (pushFuncs s.currentId l.syms).funcs.length ≤ 1)

instance (l : Load) : Decidable (s.Fits l) :=
  inferInstanceAs (Decidable (_ → _ ∧ _ ∧ _ ∧ (_ → _)))

end Loaded

theorem pushFunc_id (obj : ObjFile) (sym : FuncSym) : (pushFunc obj sym).id = obj.id := by
  rw [pushFunc]
  split <;> rfl

theorem pushFuncs_id (id : UInt16) (syms : List FuncSym) : (pushFuncs id syms).id = id := by
  rw [pushFuncs]
  induction syms using List.reverseRecOn with
  | nil => rfl
  | append_singleton syms sym ih =>
    rw [List.foldl_append, List.foldl_cons, List.foldl_nil, pushFunc_id, ih]

theorem toNat_shiftLeft_or (tag : UInt16) {x : Nat} (hx : x < 65536) :
    (tag.toUInt32 <<< 16 ||| .ofNat x : UInt32).toNat = tag.toNat * 65536 + x := by
  have htag := tag.toNat_lt
  have hshift : (tag.toUInt32 <<< 16 : UInt32).toNat = tag.toNat * 65536 := by
    rw [UInt32.toNat_shiftLeft, UInt16.toNat_toUInt32, show (16 : UInt32).toNat % 32 = 16 from rfl,
      Nat.shiftLeft_eq, Nat.mod_eq_of_lt (by omega)]
  rw [UInt32.toNat_or, hshift, UInt32.toNat_ofNat', Nat.mod_eq_of_lt (by omega),
    show tag.toNat * 65536 = tag.toNat <<< 16 from (Nat.shiftLeft_eq _ 16).symm,
    ← Nat.shiftLeft_add_eq_or_of_lt hx]

def Record.halves : Record → Nat × Nat
  | userEntry id f => (id.toNat, f)
  | userReturn i => (0, i)
  | kernelEntry id f => (id.toNat, f)
  | kernelReturn i => (1, i)
  | icEntry f => (3, f)
  | icReturn i => (2, i)

theorem Record.word_eq (r : Record) (hr : r.halves.2 < 65536) :
    r.word.toNat = r.halves.1 * 65536 + r.halves.2 := by
  cases r with
  | userEntry id f => exact toNat_shiftLeft_or id hr
  | userReturn i =>
    have hi : i < 65536 := hr
    rw [word, UInt32.toNat_ofNat', Nat.mod_eq_of_lt (by omega)]
    simp [halves]
  | kernelEntry id f => exact toNat_shiftLeft_or id hr
  | kernelReturn i => exact toNat_shiftLeft_or 1 hr
  | icEntry f => exact toNat_shiftLeft_or 3 hr
  | icReturn i => exact toNat_shiftLeft_or 2 hr

theorem Record.halves_inj {r r' : Record} (hr : r.halves.2 < 65536) (hr' : r'.halves.2 < 65536)
    (h : r.word = r'.word) : r.halves = r'.halves := by
  have hword := congrArg UInt32.toNat h
  rw [r.word_eq hr, r'.word_eq hr'] at hword
  exact Prod.ext (by omega) (by omega)

namespace Loaded

/-- The files have the ids from 2 on, and a kernel whose interrupts are traced is alone. -/
structure Numbered (s : Loaded) : Prop where
  few : s.objs.length ≤ 65534
  currentId : s.currentId.toNat = (s.objs.length + 2) % 65536
  id : ∀ o, (ho : o < s.objs.length) → s.objs[o].id.toNat = o + 2
  funcs : ∀ o, s.funcsOf o ≤ 65536
  irq : s.irqs ≠ [] → s.objs.length = 1 ∧ s.funcsOf 0 ≤ 1

theorem start_numbered : start.Numbered where
  few := by decide
  currentId := rfl
  id o ho := by simp [start] at ho
  funcs o := by simp [funcsOf, start]
  irq h := by simp [start] at h

theorem funcsOf_pos {s : Loaded} {o f : Nat} (hf : f < s.funcsOf o) : o < s.objs.length := by
  by_contra hge
  rw [funcsOf, List.getElem?_eq_none (Nat.le_of_not_lt hge)] at hf
  simp at hf

namespace Numbered

variable {s : Loaded} (h : s.Numbered)

include h

theorem load {l : Load} (hfits : s.Fits l) : (s.load l).Numbered := by
  rw [Loaded.load]
  split
  · exact h
  · rename_i hsyms
    obtain ⟨hfew, hfuncs, hirqs, hirq⟩ := hfits hsyms
    have hcurrent := h.currentId
    rw [Nat.mod_eq_of_lt (by omega)] at hcurrent
    refine ⟨?_, ?_, fun o ho => ?_, fun o => ?_, fun hne => ?_⟩
    · simp only [List.length_append, List.length_singleton]
      exact hfew
    · simp only [UInt16.toNat_add, hcurrent, List.length_append, List.length_singleton]
      rfl
    · simp only [List.length_append, List.length_singleton] at ho
      simp only [List.getElem_append]
      split
      · rename_i hlt
        exact h.id o hlt
      · rw [List.getElem_singleton, pushFuncs_id, hcurrent]
        omega
    · simp only [funcsOf, List.getElem?_append]
      split
      · exact h.funcs o
      · rw [List.getElem?_singleton]
        split
        · exact hfuncs
        · exact Nat.zero_le _
    · simp only [hirqs, List.nil_append] at hne ⊢
      cases hl : l.irq with
      | false => simp [hl] at hne
      | true =>
        obtain ⟨hobjs, hone⟩ := hirq hl
        simpa [hobjs, funcsOf] using hone

theorem idOf_eq {o f : Nat} (hf : f < s.funcsOf o) : (s.idOf o).toNat = o + 2 := by
  have ho := funcsOf_pos hf
  rw [idOf, List.getElem?_eq_getElem ho]
  exact h.id o ho

theorem halves_lt {m : Meaning} (hm : s.Written m) : (s.record m).halves.2 < 65536 := by
  have hmax : maxStackSize < 65536 := by decide
  match m with
  | .userReturn i => exact Nat.lt_of_le_of_lt hm.2 hmax
  | .kernelReturn i => exact Nat.lt_of_le_of_lt hm.2.2 hmax
  | .icReturn i => exact Nat.lt_of_le_of_lt hm.2.2 hmax
  | .icEntry f =>
    obtain ⟨k, -, hf⟩ := hm
    exact Nat.lt_of_lt_of_le hf (h.funcs k)
  | .entry o f => exact Nat.lt_of_lt_of_le hm (h.funcs o)

theorem entry_irq {o f : Nat} (hf : f < s.funcsOf o) (hi : s.irqs ≠ []) : o = 0 ∧ f = 0 := by
  obtain ⟨hlen, hone⟩ := h.irq hi
  have ho := funcsOf_pos hf
  obtain rfl : o = 0 := by omega
  exact ⟨rfl, by omega⟩

theorem unique : s.Unique := by
  intro m m' hm hm' hword
  have hhalves := Record.halves_inj (h.halves_lt hm) (h.halves_lt hm') hword
  have hentry : ∀ {o f : Nat}, f < s.funcsOf o → (s.record (.entry o f)).halves = (o + 2, f) :=
    fun hf => Prod.ext (h.idOf_eq hf) rfl
  have hirqs : ∀ {f : Nat}, s.Written (.icEntry f) → s.irqs ≠ [] := by
    rintro f ⟨k, hk, -⟩
    exact List.ne_nil_of_mem hk
  cases m with
  | entry o f =>
    rw [hentry hm] at hhalves
    cases m' with
    | entry o' f' =>
      rw [hentry hm', Prod.mk.injEq] at hhalves
      obtain ⟨ho, rfl⟩ := hhalves
      obtain rfl : o = o' := by omega
      rfl
    | icReturn i =>
      -- the object with id 2 has function 0 only, and a return pops a frame
      obtain ⟨-, rfl⟩ := Prod.mk.inj hhalves
      have hzero := (h.entry_irq hm hm'.1).2
      have hpos := hm'.2.1
      omega
    | icEntry f' =>
      obtain ⟨ho, -⟩ := Prod.mk.inj hhalves
      have hzero := (h.entry_irq hm (hirqs hm')).1
      omega
    | userReturn i | kernelReturn i =>
      obtain ⟨ho, -⟩ := Prod.mk.inj hhalves
      omega
  | icReturn i =>
    cases m' with
    | entry o' f' =>
      rw [hentry hm'] at hhalves
      obtain ⟨-, rfl⟩ := Prod.mk.inj hhalves
      have hzero := (h.entry_irq hm' hm.1).2
      have hpos := hm.2.1
      omega
    | icReturn i' => exact congrArg _ (Prod.mk.inj hhalves).2
    | userReturn i' | kernelReturn i' | icEntry f' =>
      exact absurd (Prod.mk.inj hhalves).1 (by decide)
  | icEntry f =>
    cases m' with
    | entry o' f' =>
      rw [hentry hm'] at hhalves
      obtain ⟨ho, -⟩ := Prod.mk.inj hhalves
      have hzero := (h.entry_irq hm' (hirqs hm)).1
      omega
    | icEntry f' => exact congrArg _ (Prod.mk.inj hhalves).2
    | userReturn i' | kernelReturn i' | icReturn i' =>
      exact absurd (Prod.mk.inj hhalves).1 (by decide)
  | userReturn i =>
    cases m' with
    | entry o' f' =>
      rw [hentry hm'] at hhalves
      obtain ⟨ho, -⟩ := Prod.mk.inj hhalves
      omega
    | userReturn i' => exact congrArg _ (Prod.mk.inj hhalves).2
    | icEntry f' | kernelReturn i' | icReturn i' => exact absurd (Prod.mk.inj hhalves).1 (by decide)
  | kernelReturn i =>
    cases m' with
    | entry o' f' =>
      rw [hentry hm'] at hhalves
      obtain ⟨ho, -⟩ := Prod.mk.inj hhalves
      omega
    | kernelReturn i' => exact congrArg _ (Prod.mk.inj hhalves).2
    | icEntry f' | userReturn i' | icReturn i' => exact absurd (Prod.mk.inj hhalves).1 (by decide)

end Numbered

/-- In a run whose files fit, what is written at any time is unique. -/
theorem unique_of_fits (ls : List Load) (hfits : Along load Fits start ls) :
    ∀ before, before <+: ls → (before.foldl load start).Unique := by
  rintro before ⟨after, rfl⟩
  have hnumbered : (before.foldl load start).Numbered :=
    Along.invariant (fun s l h hl => h.load hl) start_numbered
      (fun pre l hpre => hfits pre l (hpre.trans (List.prefix_append _ _)))
  exact hnumbered.unique

/-- The kernel without its interrupts, a program and a library. -/
theorem unique_user_files :
    ([⟨[⟨0xc0008000, 16⟩, ⟨0xc0008010, 16⟩], true, false⟩, ⟨[⟨0x8000, 16⟩], false, false⟩,
      ⟨[⟨0x40000000, 8⟩], false, false⟩].foldl load start).Unique :=
  unique_of_fits _ (by decide) _ List.prefix_rfl

/-- The first file of a run has the id that is reserved for returns of interrupt context. -/
theorem kernel_words_clash : ¬∀ ls : List Load, (ls.foldl load start).Unique := by
  intro h
  have hclash := h [⟨[⟨0xc0008000, 16⟩, ⟨0xc0008010, 16⟩], true, true⟩] (.entry 0 1) (.icReturn 1)
    (by decide) (by decide) (by decide)
  cases hclash

end Loaded

end M2M.Tracing.Records
