import M2M.Lib.Probing
import Mathlib.Data.Finset.Basic
import Mathlib.Data.List.Sort
import Mathlib.Logic.Function.Basic

/-! The traced processes of the SET device: the table of processes, the hash table by pid, and
the object files that processes and their threads share. -/

open M2M.Lib

namespace M2M.Tracing

def maxObjTableSize : Nat := 256

def maxProcTableSize : Nat := 1024

def procHashTableSize : Nat := 32749

/-- `SETProcess`.  The pointers are addresses: `tracing` of a counter, `objKernel` and
`objTable` of object files, `hashPos` of a slot of the hash table. -/
structure SETProcess where
  pid : Int
  tracing : Nat
  objKernel : Option Nat
  objTable : List Nat
  idx : Int
  hashPos : Option Nat
  deriving DecidableEq

structure ObjFile where
  textStart : UInt32
  count : Int
  deriving DecidableEq

/-- `set` and `procHashTable`, with the memory that `malloc` hands out: `live` and `loaded` are
the processes and the object files that have not been freed. -/
structure SET where
  process : Nat → SETProcess
  live : Finset Nat
  nextProcess : Nat
  tracing : Nat → Int
  obj : Nat → ObjFile
  loaded : Finset Nat
  nextObj : Nat
  procTable : Nat → Option Nat
  procTableSize : Nat
  tracingProcess : Option Nat
  procHashTable : Nat → Option Nat

namespace SET

def start : SET where
  process _ := ⟨0, 0, none, [], 0, none⟩
  live := ∅
  nextProcess := 0
  tracing _ := 0
  obj _ := ⟨0, 0⟩
  loaded := ∅
  nextObj := 0
  procTable _ := none
  procTableSize := 0
  tracingProcess := none
  procHashTable _ := none

variable (s : SET)

def modify (p : Nat) (f : SETProcess → SETProcess) : SET :=
  { s with process := Function.update s.process p (f (s.process p)) }

/-- `(*process->tracing) += d`. -/
def addTracing (p : Nat) (d : Int) : SET :=
  let t := (s.process p).tracing
  { s with tracing := Function.update s.tracing t (s.tracing t + d) }

/-- `obj->count += d`. -/
def addCount (o : Nat) (d : Int) : SET :=
  { s with obj := Function.update s.obj o { s.obj o with count := (s.obj o).count + d } }

section Objects

/-- `SET_create_obj`.  The object gets the address `s.nextObj`. -/
def createObj (textStart : UInt32) : SET :=
  { s with
    obj := Function.update s.obj s.nextObj ⟨textStart, 0⟩
    loaded := insert s.nextObj s.loaded
    nextObj := s.nextObj + 1 }

/-- `SET_delete_obj`. -/
def deleteObj (o : Nat) : SET :=
  if (s.obj o).count ≤ 0 then { s with loaded := s.loaded.erase o } else s

/-- The loop of `SET_attach_obj`: the place of an object by the start of its text. -/
def insertObj (o : Nat) (table : List Nat) : List Nat :=
  table.orderedInsert (fun a b => (s.obj a).textStart < (s.obj b).textStart) o

/-- `SET_attach_obj`. -/
def attachObj (p o : Nat) : SET :=
  if (s.process p).objTable.length = maxObjTableSize then s
  else
    (s.addCount o 1).modify p
      (fun x => { x with objTable := s.insertObj o x.objTable })

def releaseObj (o : Nat) : SET := (s.addCount o (-1)).deleteObj o

/-- `SET_event_start_dalvik` with `SET_PROCESS_LIBRARY`: the objects of the zygote are copied
over those of `p`. -/
def copyObjs (p zygote : Nat) : SET :=
  ((s.process zygote).objTable.foldl (fun s o => s.addCount o 1) s).modify p
    (fun x => { x with objTable := (s.process zygote).objTable })

end Objects

section Processes

/-- `SET_create_process`.  The process gets the address `s.nextProcess`, and so does its
tracing count. -/
def createProcess : SET :=
  { s with
    process := Function.update s.process s.nextProcess
      ⟨-1, s.nextProcess, none, [], -1, none⟩
    live := insert s.nextProcess s.live
    nextProcess := s.nextProcess + 1
    tracing := Function.update s.tracing s.nextProcess 0 }

/-- `SET_copy_process`. -/
def copyProcess (p : Nat) : SET :=
  { s.addTracing p 1 with
    process := Function.update s.process s.nextProcess (s.process p)
    live := insert s.nextProcess s.live
    nextProcess := s.nextProcess + 1 }

def refs (p : Nat) : List Nat := (s.process p).objKernel.toList ++ (s.process p).objTable

/-- `SET_delete_process`.  The tracing count keeps its value when it is freed. -/
def deleteProcess (p : Nat) : SET :=
  let counted := s.addTracing p (-1)
  let released :=
    if counted.tracing (s.process p).tracing < 1 then (s.refs p).foldl releaseObj counted
    else counted
  { released with live := s.live.erase p }

/-- `SET_attach_process`. -/
def attachProcess (p : Nat) : SET :=
  if s.procTableSize = maxProcTableSize then s
  else
    { s.modify p (fun x => { x with idx := s.procTableSize }) with
      procTable := Function.update s.procTable s.procTableSize (some p)
      procTableSize := s.procTableSize + 1 }

/-- The loop of `SET_detach_process` from `i` on.  The entry after the last one is not part of
the table. -/
def shiftLeft (table : Nat → Option Nat) (i size : Nat) : Nat → Option Nat :=
  (List.range' i (size - i)).foldl (fun t j => Function.update t j (t (j + 1))) table

/-- `SET_detach_process`. -/
def detachProcess (p : Nat) : SET :=
  if s.procTableSize = 0 then s
  else if (s.process p).idx ≤ 0 then s
  else
    { s.modify p (fun x => { x with idx := -1 }) with
      procTable := shiftLeft s.procTable (s.process p).idx.toNat s.procTableSize
      procTableSize := s.procTableSize - 1 }

/-- `SET_start_tracing` loads the program if the type of the process asks for it. -/
def loadUser (p : Nat) : Option UInt32 → SET
  | none => s
  | some textStart => (s.createObj textStart).attachObj p s.nextObj

/-- `SET_start_tracing` loads the kernel if the type of the process asks for it. -/
def loadKernel (p : Nat) : Option UInt32 → SET
  | none => s
  | some textStart =>
    ((s.createObj textStart).addCount s.nextObj 1).modify p
      (fun x => { x with objKernel := some s.nextObj })

/-- `SET_start_tracing` when nothing fails. -/
def startTracing (p : Nat) (nowPid : Int) (userC kernel : Option UInt32) : SET :=
  { (((s.loadUser p userC).loadKernel p kernel).modify p
      (fun x => { x with pid := nowPid })).addTracing p 1 with tracingProcess := some p }

end Processes

section HashTable

def hasPid (pid : Int) (p : Nat) : Bool := (s.process p).pid = pid

/-- `pid % PROC_HASH_TABLE_SIZE`.  A pid of the guest is not negative. -/
def home (pid : Int) : Nat := pid.toNat % procHashTableSize

/-- `procHashTable[hash] = process` and the pointer back. -/
def place (p hash : Nat) : SET :=
  { s.modify p (fun x => { x with hashPos := some hash }) with
    procHashTable := Function.update s.procHashTable hash (some p) }

/-- `proc_insert`, or `none` when the search does not end. -/
def procInsert (p : Nat) : Option SET :=
  (probe procHashTableSize s.procHashTable (s.hasPid (s.process p).pid)
      (home (s.process p).pid) procHashTableSize).map fun hash =>
    match s.procHashTable hash with
    | some _ => s
    | none => s.place p hash

/-- `proc_find`, or `none` when the search does not end. -/
def procFind (pid : Int) : Option (Option Nat) :=
  (probe procHashTableSize s.procHashTable (s.hasPid pid) (home pid) procHashTableSize).map
    s.procHashTable

/-- `*((SETProcess **) tracing_process->hash_pos) = NULL`. -/
def clearSlot (p : Nat) : SET :=
  match (s.process p).hashPos with
  | none => s
  | some hash => { s with procHashTable := Function.update s.procHashTable hash none }

/-- `SET_event_exit`. -/
def eventExit : SET :=
  match s.tracingProcess with
  | none => s
  | some p => (({ s with tracingProcess := none }.clearSlot p).detachProcess p).deleteProcess p

/-- The copy of `SET_event_thread_create` before it is inserted. -/
def threadOf (p : Nat) (childPid : Int) : SET :=
  ((s.copyProcess p).modify s.nextProcess (fun x => { x with pid := childPid })).attachProcess
    s.nextProcess

/-- `SET_event_thread_create`. -/
def eventThreadCreate (childPid : Int) : Option SET :=
  match s.tracingProcess with
  | none => some s
  | some p => (s.threadOf p childPid).procInsert s.nextProcess

/-- `SET_event_cs`. -/
def eventCs (nowPid : Int) : Option SET :=
  (s.procFind nowPid).map fun found => { s with tracingProcess := found }

end HashTable

end SET

end M2M.Tracing
