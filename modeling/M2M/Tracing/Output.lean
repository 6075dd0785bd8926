import M2M.Lib.Buffer
import Mathlib.Data.UInt

/-! The output files of a traced process: types and pids share one fill counter, and the
payloads of each kind of record have a buffer of their own. -/

open M2M.Lib

namespace M2M.Tracing.Output

def maxBufSize : Nat := 1024

instance : NeZero maxBufSize := ⟨by decide⟩

/-- `SET_OUTPUT_FUNC`, `SET_OUTPUT_METHOD` and `SET_OUTPUT_SYSCALL`. -/
def outputFunc : UInt8 := 0x1

def outputMethod : UInt8 := 0x2

def outputSyscall : UInt8 := 0x3

structure Method where
  id : UInt16
  addr : UInt32
  deriving DecidableEq

/-- `SETOut`, with what has been written to the files.  `fpFunc`, `fpMethod` and `fpSyscall` say
which of the payload files are open. -/
structure SETOut where
  fileType : List UInt8
  filePid : List Int
  bufType : Fin maxBufSize → UInt8
  bufPid : Fin maxBufSize → Int
  bufGlobalSize : Fin maxBufSize
  fpFunc : Bool
  func : Buffer UInt32 maxBufSize
  fpMethod : Bool
  method : Buffer Method maxBufSize
  fpSyscall : Bool
  syscall : Buffer UInt32 maxBufSize

/-- One recorded event after its pid. -/
inductive Payload
  | func (idIndex : UInt32)
  | method (id : UInt16) (addr : UInt32)
  | syscall (nrSyscall : UInt32)
  deriving DecidableEq

namespace SETOut

/-- `SET_output_create`, and the files of the process type opened. -/
def start (fpFunc fpMethod fpSyscall : Bool) : SETOut where
  fileType := []
  filePid := []
  bufType _ := 0
  bufPid _ := 0
  bufGlobalSize := 0
  fpFunc := fpFunc
  func := ⟨[], fun _ => 0, 0⟩
  fpMethod := fpMethod
  method := ⟨[], fun _ => ⟨0, 0⟩, 0⟩
  fpSyscall := fpSyscall
  syscall := ⟨[], fun _ => 0, 0⟩

variable (o : SETOut)

/-- `SET_output_buffer_flush_pid` on `n` entries. -/
def flushPid (n : Nat) : SETOut := { o with filePid := o.filePid ++ held o.bufPid n }

/-- `SET_output_buffer_flush_type_vpmu` on `n` entries. -/
def flushTypeVpmu (n : Nat) : SETOut :=
  { o.flushPid n with
    fileType := o.fileType ++ held o.bufType n
    bufGlobalSize := 0 }

/-- `SET_output_write_pid`. -/
def writePid (pid : Int) : SETOut :=
  { o with bufPid := Function.update o.bufPid o.bufGlobalSize pid }

/-- `SET_output_write_type_vpmu`. -/
def writeTypeVpmu (type : UInt8) : SETOut :=
  let typed := { o with bufType := Function.update o.bufType o.bufGlobalSize type }
  match next o.bufGlobalSize with
  | some size => { typed with bufGlobalSize := size }
  | none => typed.flushTypeVpmu (o.bufGlobalSize + 1)

/-- `SET_output_write_func`. -/
def writeFunc (idIndex : UInt32) : SETOut :=
  { o with func := o.func.push idIndex }.writeTypeVpmu outputFunc

/-- `SET_output_write_method`. -/
def writeMethod (id : UInt16) (addr : UInt32) : SETOut :=
  { o with method := o.method.push ⟨id, addr⟩ }.writeTypeVpmu outputMethod

/-- `SET_output_write_syscall`. -/
def writeSyscall (nrSyscall : UInt32) : SETOut :=
  { o with syscall := o.syscall.push nrSyscall }.writeTypeVpmu outputSyscall

def write : Payload → SETOut
  | .func idIndex => o.writeFunc idIndex
  | .method id addr => o.writeMethod id addr
  | .syscall nrSyscall => o.writeSyscall nrSyscall

/-- One recorded event. -/
def record (e : Int × Payload) : SETOut := (o.writePid e.1).write e.2

/-- `SET_output_close`. -/
def close : SETOut :=
  let flushed := o.flushTypeVpmu o.bufGlobalSize
  { flushed with
    func := if o.fpFunc then o.func.flush else o.func
    method := if o.fpMethod then o.method.flush else o.method
    syscall := if o.fpSyscall then o.syscall.flush else o.syscall }

/-- The payload file of an event is open. -/
def Opened : Payload → Prop
  | .func _ => o.fpFunc = true
  | .method _ _ => o.fpMethod = true
  | .syscall _ => o.fpSyscall = true

instance : ∀ x, Decidable (o.Opened x)
  | .func _ => inferInstanceAs (Decidable (_ = _))
  | .method _ _ => inferInstanceAs (Decidable (_ = _))
  | .syscall _ => inferInstanceAs (Decidable (_ = _))

end SETOut

def Payload.type : Payload → UInt8
  | func _ => outputFunc
  | method _ _ => outputMethod
  | syscall _ => outputSyscall

def Payload.funcs : Payload → List UInt32
  | func idIndex => [idIndex]
  | _ => []

def Payload.methods : Payload → List Method
  | method id addr => [⟨id, addr⟩]
  | _ => []

def Payload.syscalls : Payload → List UInt32
  | syscall nrSyscall => [nrSyscall]
  | _ => []

/-- Reads the type and pid files in parallel and takes each payload from the file of its
kind. -/
def merge : List Int → List UInt8 → List UInt32 → List Method → List UInt32 →
    Option (List (Int × Payload))
  | [], [], _, _, _ => some []
  | pid :: pids, type :: types, funcs, methods, syscalls =>
    if type = outputFunc then
      match funcs with
      | [] => none
      | f :: funcs => (merge pids types funcs methods syscalls).map ((pid, .func f) :: ·)
    else if type = outputMethod then
      match methods with
      | [] => none
      | m :: methods =>
        (merge pids types funcs methods syscalls).map ((pid, .method m.id m.addr) :: ·)
    else if type = outputSyscall then
      match syscalls with
      | [] => none
      | n :: syscalls => (merge pids types funcs methods syscalls).map ((pid, .syscall n) :: ·)
    else none
  | _, _, _, _, _ => none

def SETOut.read (o : SETOut) : Option (List (Int × Payload)) :=
  merge o.filePid o.fileType o.func.file o.method.file o.syscall.file

theorem merge_streams (es : List (Int × Payload)) :
    merge (es.map (·.1)) (es.map (·.2.type)) (es.flatMap (·.2.funcs)) (es.flatMap (·.2.methods))
      (es.flatMap (·.2.syscalls)) = some es := by
  induction es with
  | nil => rfl
  | cons e es ih =>
    obtain ⟨pid, x⟩ := e
    cases x <;> simp [merge, Payload.type, Payload.funcs, Payload.methods, Payload.syscalls,
      outputFunc, outputMethod, outputSyscall] <;> exact ih

namespace SETOut

/-- The files with what is still in the buffers are the streams of the events. -/
structure Streams (o : SETOut) (es : List (Int × Payload)) : Prop where
  pid : o.filePid ++ held o.bufPid o.bufGlobalSize = es.map (·.1)
  type : o.fileType ++ held o.bufType o.bufGlobalSize = es.map (·.2.type)
  func : o.func.contents = es.flatMap (·.2.funcs)
  method : o.method.contents = es.flatMap (·.2.methods)
  syscall : o.syscall.contents = es.flatMap (·.2.syscalls)

theorem streams_start (fpFunc fpMethod fpSyscall : Bool) :
    (start fpFunc fpMethod fpSyscall).Streams [] := ⟨rfl, rfl, rfl, rfl, rfl⟩

theorem pids_writeTypeVpmu (o : SETOut) (type : UInt8) :
    (o.writeTypeVpmu type).filePid ++
        held (o.writeTypeVpmu type).bufPid (o.writeTypeVpmu type).bufGlobalSize =
      o.filePid ++ held o.bufPid (o.bufGlobalSize + 1) := by
  rw [writeTypeVpmu]
  cases hnext : next o.bufGlobalSize with
  | some size => simp only [val_of_next hnext]
  | none => simp [flushTypeVpmu, flushPid]

theorem types_writeTypeVpmu (o : SETOut) (type : UInt8) :
    (o.writeTypeVpmu type).fileType ++
        held (o.writeTypeVpmu type).bufType (o.writeTypeVpmu type).bufGlobalSize =
      o.fileType ++ held o.bufType o.bufGlobalSize ++ [type] := by
  rw [writeTypeVpmu]
  cases hnext : next o.bufGlobalSize with
  | some size => simp only [val_of_next hnext, held_update_succ, List.append_assoc]
  | none => simp [flushTypeVpmu, flushPid, held_update_succ]

theorem payloads_writeTypeVpmu (o : SETOut) (type : UInt8) :
    (o.writeTypeVpmu type).func = o.func ∧ (o.writeTypeVpmu type).method = o.method ∧
      (o.writeTypeVpmu type).syscall = o.syscall ∧
      (o.writeTypeVpmu type).Opened = o.Opened := by
  have hopened : ∀ o' : SETOut, o'.fpFunc = o.fpFunc → o'.fpMethod = o.fpMethod →
      o'.fpSyscall = o.fpSyscall → o'.Opened = o.Opened := by
    intro o' h1 h2 h3
    funext x
    cases x <;> simp [Opened, h1, h2, h3]
  rw [writeTypeVpmu]
  split
  · exact ⟨rfl, rfl, rfl, hopened _ rfl rfl rfl⟩
  · exact ⟨rfl, rfl, rfl, hopened _ rfl rfl rfl⟩

theorem opened_record (o : SETOut) (e : Int × Payload) : (o.record e).Opened = o.Opened := by
  obtain ⟨pid, x⟩ := e
  cases x with
  | func idIndex =>
    exact (payloads_writeTypeVpmu _ _).2.2.2.trans (funext fun y => by cases y <;> rfl)
  | method id addr =>
    exact (payloads_writeTypeVpmu _ _).2.2.2.trans (funext fun y => by cases y <;> rfl)
  | syscall nrSyscall =>
    exact (payloads_writeTypeVpmu _ _).2.2.2.trans (funext fun y => by cases y <;> rfl)

theorem Streams.writeTypeVpmu {o o' : SETOut} {es : List (Int × Payload)} (h : o.Streams es)
    {pid : Int} {x : Payload} (hpid : o'.filePid = o.filePid)
    (hbufPid : o'.bufPid = Function.update o.bufPid o.bufGlobalSize pid)
    (hsize : o'.bufGlobalSize = o.bufGlobalSize) (htype : o'.fileType = o.fileType)
    (hbufType : o'.bufType = o.bufType) (hfunc : o'.func.contents = o.func.contents ++ x.funcs)
    (hmethod : o'.method.contents = o.method.contents ++ x.methods)
    (hsyscall : o'.syscall.contents = o.syscall.contents ++ x.syscalls) :
    (o'.writeTypeVpmu x.type).Streams (es ++ [(pid, x)]) := by
  obtain ⟨hf, hm, hs, -⟩ := payloads_writeTypeVpmu o' x.type
  constructor
  · rw [pids_writeTypeVpmu, hpid, hbufPid, hsize, held_update_succ, ← List.append_assoc, h.pid]
    simp
  · rw [types_writeTypeVpmu, htype, hbufType, hsize, h.type]
    simp
  · rw [hf, hfunc, h.func]
    simp
  · rw [hm, hmethod, h.method]
    simp
  · rw [hs, hsyscall, h.syscall]
    simp

theorem Streams.record {o : SETOut} {es : List (Int × Payload)} (h : o.Streams es)
    (e : Int × Payload) : (o.record e).Streams (es ++ [e]) := by
  obtain ⟨pid, x⟩ := e
  cases x with
  | func idIndex =>
    exact h.writeTypeVpmu (x := .func idIndex) rfl rfl rfl rfl rfl
      (Buffer.contents_push _ _) (List.append_nil _).symm (List.append_nil _).symm
  | method id addr =>
    exact h.writeTypeVpmu (x := .method id addr) rfl rfl rfl rfl rfl
      (List.append_nil _).symm (Buffer.contents_push _ _) (List.append_nil _).symm
  | syscall nrSyscall =>
    exact h.writeTypeVpmu (x := .syscall nrSyscall) rfl rfl rfl rfl rfl
      (List.append_nil _).symm (List.append_nil _).symm (Buffer.contents_push _ _)

theorem streams_records {o : SETOut} {es : List (Int × Payload)} (h : o.Streams es)
    (more : List (Int × Payload)) : (more.foldl SETOut.record o).Streams (es ++ more) := by
  induction more generalizing o es with
  | nil => simpa using h
  | cons e more ih => simpa using ih (h.record e)

theorem opened_records (o : SETOut) (es : List (Int × Payload)) :
    (es.foldl SETOut.record o).Opened = o.Opened := by
  induction es generalizing o with
  | nil => rfl
  | cons e es ih => exact (ih _).trans (opened_record o e)

theorem file_of_contents {α : Type} {b : Buffer α maxBufSize} {l : List α} {opened : Bool}
    (hcontents : b.contents = l) (hclosed : opened = false → l = []) :
    (if opened then b.flush else b).file = l := by
  cases opened with
  | true => exact hcontents
  | false =>
    rw [hclosed rfl] at hcontents ⊢
    exact (List.append_eq_nil_iff.1 hcontents).1

theorem Streams.read_close {o : SETOut} {es : List (Int × Payload)} (h : o.Streams es)
    (hopened : ∀ e ∈ es, o.Opened e.2) : o.close.read = some es := by
  have hfunc : o.close.func.file = es.flatMap (·.2.funcs) := by
    refine file_of_contents h.func fun hclosed => List.flatMap_eq_nil_iff.2 fun e he => ?_
    have ho := hopened e he
    obtain ⟨pid, x⟩ := e
    cases x with
    | func idIndex => exact absurd ho (by simp [Opened, hclosed])
    | method _ _ | syscall _ => rfl
  have hmethod : o.close.method.file = es.flatMap (·.2.methods) := by
    refine file_of_contents h.method fun hclosed => List.flatMap_eq_nil_iff.2 fun e he => ?_
    have ho := hopened e he
    obtain ⟨pid, x⟩ := e
    cases x with
    | method id addr => exact absurd ho (by simp [Opened, hclosed])
    | func _ | syscall _ => rfl
  have hsyscall : o.close.syscall.file = es.flatMap (·.2.syscalls) := by
    refine file_of_contents h.syscall fun hclosed => List.flatMap_eq_nil_iff.2 fun e he => ?_
    have ho := hopened e he
    obtain ⟨pid, x⟩ := e
    cases x with
    | syscall nrSyscall => exact absurd ho (by simp [Opened, hclosed])
    | func _ | method _ _ => rfl
  rw [read, hfunc, hmethod, hsyscall]
  exact (congrArg₂ (merge · · _ _ _) h.pid h.type).trans (merge_streams es)

/-- Whatever is recorded on open files is read back after the files are closed. -/
theorem read_close_records (fpFunc fpMethod fpSyscall : Bool) (es : List (Int × Payload))
    (hopened : ∀ e ∈ es, (start fpFunc fpMethod fpSyscall).Opened e.2) :
    (es.foldl SETOut.record (start fpFunc fpMethod fpSyscall)).close.read = some es := by
  refine (streams_records (streams_start _ _ _) es).read_close fun e he => ?_
  rw [opened_records]
  exact hopened e he

theorem read_close_mixed :
    ([(7, .func 0x20001), (8, .syscall 4), (7, .func 1), (9, .method 3 0x40), (8, .syscall 5)].foldl
        SETOut.record (start true true true)).close.read =
      some [(7, .func 0x20001), (8, .syscall 4), (7, .func 1), (9, .method 3 0x40),
        (8, .syscall 5)] :=
  read_close_records true true true _ (by decide)

end SETOut

end M2M.Tracing.Output
