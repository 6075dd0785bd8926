import M2M.Lib.Reserve
import M2M.Trace.BasicBlocks
import M2M.Trace.Instructions
import M2M.Trace.Varint

/-! What the trace recorders store through `compressed_ptr`: `trace.c`, and the addresses of
`dcache.c`. -/

namespace M2M.Trace.Streams

open M2M.Lib M2M.Trace.Varint

abbrev Stream := Outgoing UInt8

section Sizes

def kCompressedSize : Nat := 8192

def kMaxInsnCompressed : Nat := 14

def kMaxBBCompressed : Nat := 32

def kMaxAddrCompressed : Nat := 14

def kMaxMethodCompressed : Nat := 18

def kMaxExcCompressed : Nat := 38

def kMaxPidCompressed : Nat := 15

def kMaxPid2Compressed : Nat := 20

def kMaxExecArgsCompressed : Nat := 15

def kMaxNameCompressed : Nat := 20

def kMaxMmapCompressed : Nat := 33

def kMaxMunmapCompressed : Nat := 28

def kMaxSymbolCompressed : Nat := 24

def kMaxKthreadNameCompressed : Nat := 25

def kMaxNumAddrs : Nat := 1024

end Sizes

section Blocks

def entryBytes (e : BB.Entry) : List UInt8 :=
  varintEncodeSigned e.bbDiff ++ varintEncode e.timeDiff ++ varintEncode e.repeatCount.toUInt64 ++
    (e.interval.map varintEncode).getD []

/-- The loops of `trace_bb_helper` and `trace_cleanup` store one entry after the other. -/
def bbStream (entries : List BB.Entry) : Stream :=
  (entries.map entryBytes).foldl
    (.storeBelow (kCompressedSize - kMaxBBCompressed) kMaxBBCompressed) .empty

def cleanupBB (t : BB.TraceBB) (simTime : UInt64) : Stream :=
  let written := BB.encode t.prevBbNum t.prevBbTime t.buffered
  let out := bbStream (t.file ++ written.1)
  let timeDiff := simTime - written.2.2
  -- the extra record is stored without a look at the high water mark
  if timeDiff > 0 then out.store kMaxBBCompressed (entryBytes ⟨-written.2.1, timeDiff, 0, none⟩)
  else out

def insnBytes (r : Insn.InsnRec) : List UInt8 :=
  varintEncode r.timeDiff ++ varintEncode r.repeatCount.toUInt64

def cleanupInsn (t : Insn.TraceInsn) : Stream :=
  ((Insn.traceCleanup t).map insnBytes).foldl
    (.storeBelow (kCompressedSize - kMaxInsnCompressed) kMaxInsnCompressed) .empty

end Blocks

section Addresses

structure AddrRec where
  time : UInt64
  addr : UInt32

structure TraceAddr where
  buffer : List AddrRec
  compressed : Stream
  prevAddr : UInt32
  prevTime : UInt64

def createTraceAddr : TraceAddr := ⟨[], .empty, 0, 0⟩

def addrBytes (prevAddr : UInt32) (prevTime : UInt64) (r : AddrRec) : List UInt8 :=
  varintEncodeSigned (r.addr - prevAddr).toInt32.toInt64 ++ varintEncode (r.time - prevTime)

def TraceAddr.compressRecord (t : TraceAddr) (r : AddrRec) : TraceAddr :=
  { t with
    compressed := t.compressed.storeBelow (kCompressedSize - kMaxAddrCompressed) kMaxAddrCompressed
      (addrBytes t.prevAddr t.prevTime r)
    prevAddr := r.addr
    prevTime := r.time }

def compressTraceAddresses (t : TraceAddr) : TraceAddr :=
  { t.buffer.foldl TraceAddr.compressRecord t with buffer := [] }

def traceAddr (t : TraceAddr) (simTime : UInt64) (addr : UInt32) : TraceAddr :=
  let t := { t with buffer := t.buffer ++ [⟨simTime, addr⟩] }
  if t.buffer.length = kMaxNumAddrs then compressTraceAddresses t else t

end Addresses

section Exceptions

/-- An `int` that is passed for a `uint64_t`. -/
def intWord (n : Int32) : UInt64 := n.toInt64.toUInt64

structure TraceExc where
  compressed : Stream
  prevTime : UInt64
  prevBbRecnum : UInt64

def createTraceExc : TraceExc := ⟨.empty, 0, 0⟩

def excValues (t : TraceExc) (bb : BB.TraceBB) (simTime : UInt64) (targetPc : UInt32) :
    List UInt64 :=
  let currentPc := bb.currentBbAddr + 4 * (.ofNat bb.numInsns - 1)
  [simTime - t.prevTime, currentPc.toUInt64, .ofNat bb.recnum - t.prevBbRecnum, targetPc.toUInt64,
    bb.currentBbNum, bb.currentBbStartTime, intWord (.ofNat bb.numInsns)]

def traceException (t : TraceExc) (bb : BB.TraceBB) (simTime : UInt64) (targetPc : UInt32) :
    TraceExc :=
  if bb.currentBbNum = 0 then t
  else
    { compressed := t.compressed.storeBelow (kCompressedSize - kMaxExcCompressed) kMaxExcCompressed
        ((excValues t bb simTime targetPc).flatMap varintEncode)
      prevTime := simTime
      prevBbRecnum := .ofNat bb.recnum }

end Exceptions

section Pids

def kPidFork : UInt64 := 1

def kPidClone : UInt64 := 2

def kPidSwitch : UInt64 := 3

def kPidExec : UInt64 := 4

def kPidMmap : UInt64 := 5

def kPidExit : UInt64 := 6

def kPidKthreadName : UInt64 := 7

def kPidSymbolAdd : UInt64 := 8

def kPidSymbolRemove : UInt64 := 9

def kPidMunmap : UInt64 := 10

def kPidName : UInt64 := 12

structure TracePid where
  compressed : Stream
  prevTime : UInt64

def createTracePid : TracePid := ⟨.empty, 0⟩

/-- A record: the time since the last one, its type, its values, and the bytes behind them. -/
def TracePid.record (t : TracePid) (simTime : UInt64) (reserve : Int) (recType : UInt64)
    (values : List UInt64) (bytes : List UInt8) : TracePid where
  compressed := t.compressed.storeWithin kCompressedSize reserve
    (((simTime - t.prevTime) :: recType :: values).flatMap varintEncode ++ bytes)
  prevTime := simTime

def tracePid1arg (t : TracePid) (simTime : UInt64) (pid : Int32) (recType : UInt64) : TracePid :=
  t.record simTime kMaxPidCompressed recType [intWord pid] []

def tracePid2arg (t : TracePid) (simTime : UInt64) (tgid pid : Int32) (recType : UInt64) :
    TracePid :=
  t.record simTime kMaxPid2Compressed recType [intWord tgid, intWord pid] []

def traceName (t : TracePid) (simTime : UInt64) (currentPid : Int32) (name : List UInt8) :
    TracePid :=
  t.record simTime (name.length + kMaxNameCompressed) kPidName
    [intWord currentPid, .ofNat name.length] name

/-- The strings of `argv`, as many as begin in its first `len` bytes. Behind its bytes, there are
zeros. -/
def args (argv : List UInt8) (len : Nat) : List (List UInt8) :=
  if h : 0 < len then
    let arg := argv.takeWhile (· ≠ 0)
    arg :: args (argv.drop (arg.length + 1)) (len - (arg.length + 1))
  else []
termination_by len

def traceExecve (t : TracePid) (simTime : UInt64) (argv : List UInt8) (len : Int32) : TracePid :=
  let strings := args argv len.toInt.toNat
  t.record simTime (len.toInt + 5 * strings.length + kMaxExecArgsCompressed) kPidExec
    [.ofNat strings.length] (strings.flatMap fun arg => varintEncode (.ofNat arg.length) ++ arg)

def traceMmap (t : TracePid) (simTime vstart vend offset : UInt64) (path : List UInt8) : TracePid :=
  t.record simTime (path.length + kMaxMmapCompressed) kPidMmap
    [vstart, vend, offset, .ofNat path.length] path

def traceMunmap (t : TracePid) (simTime vstart vend : UInt64) : TracePid :=
  t.record simTime kMaxMunmapCompressed kPidMunmap [vstart, vend] []

def traceDynamicSymbolAdd (t : TracePid) (simTime vaddr : UInt64) (name : List UInt8) : TracePid :=
  t.record simTime (name.length + kMaxSymbolCompressed) kPidSymbolAdd
    [vaddr, .ofNat name.length] name

def traceDynamicSymbolRemove (t : TracePid) (simTime vaddr : UInt64) : TracePid :=
  t.record simTime kMaxSymbolCompressed kPidSymbolRemove [vaddr] []

def traceInitName (t : TracePid) (simTime : UInt64) (tgid pid : Int32) (name : List UInt8) :
    TracePid :=
  t.record simTime (name.length + kMaxKthreadNameCompressed) kPidKthreadName
    [intWord tgid, intWord pid, .ofNat name.length] name

end Pids

section Methods

structure TraceMethod where
  compressed : Stream
  prevTime : UInt64
  prevAddr : UInt32
  prevPid : Int32

def createTraceMethod : TraceMethod := ⟨.empty, 0, 0, 0⟩

def methodBytes (t : TraceMethod) (simTime : UInt64) (currentPid : Int32) (addr : UInt32)
    (callType : Int32) : List UInt8 :=
  varintEncode (simTime - t.prevTime) ++
    varintEncodeSigned (addr - t.prevAddr).toInt32.toInt64 ++
    varintEncodeSigned (currentPid - t.prevPid).toInt64 ++ varintEncode (intWord callType)

def traceInterpretedMethod (t : TraceMethod) (simTime : UInt64) (currentPid : Int32)
    (addr : UInt32) (callType : Int32) : TraceMethod where
  compressed := t.compressed.storeWithin kCompressedSize kMaxMethodCompressed
    (methodBytes t simTime currentPid addr callType)
  prevTime := simTime
  prevAddr := addr
  prevPid := currentPid

end Methods

section Runs

structure World where
  simTime : UInt64
  currentPid : Int32
  tbs : Nat → BB.TranslationBlock
  bb : BB.TraceBB
  insn : Insn.TraceInsn
  load : TraceAddr
  store : TraceAddr
  exc : TraceExc
  pid : TracePid
  method : TraceMethod

inductive Event
  | clock (simTime : UInt64)
  /-- The block is translated anew. -/
  | generate (tb : Nat) (pc : UInt32)
  | bb (tb : Nat) (bbNum : UInt64)
  | insn
  | load (addr : UInt32)
  | store (addr : UInt32)
  | exception (targetPc : UInt32)
  | switch (pid : Int32)
  | fork (tgid pid : Int32)
  | clone (tgid pid : Int32)
  | exit (exitcode : Int32)
  | name (name : List UInt8)
  | execve (argv : List UInt8) (len : Int32)
  | mmap (vstart vend offset : UInt64) (path : List UInt8)
  | munmap (vstart vend : UInt64)
  | dynamicSymbolAdd (vaddr : UInt64) (name : List UInt8)
  | dynamicSymbolRemove (vaddr : UInt64)
  | initName (tgid pid : Int32) (name : List UInt8)
  | interpretedMethod (addr : UInt32) (callType : Int32)

def step (w : World) : Event → World
  | .clock simTime => { w with simTime := simTime }
  | .generate tb pc => { w with tbs := Function.update w.tbs tb ⟨pc, none, 0⟩ }
  | .bb tb bbNum =>
    let result := BB.traceBbHelper w.bb (w.tbs tb) bbNum w.simTime
    { w with bb := result.1, tbs := Function.update w.tbs tb result.2 }
  | .insn =>
    { w with
      insn := Insn.traceInsnHelper w.insn w.simTime
      bb := { w.bb with numInsns := w.bb.numInsns + 1 } }
  | .load addr => { w with load := traceAddr w.load w.simTime addr }
  | .store addr => { w with store := traceAddr w.store w.simTime addr }
  | .exception targetPc => { w with exc := traceException w.exc w.bb w.simTime targetPc }
  | .switch pid => { w with pid := tracePid1arg w.pid w.simTime pid kPidSwitch, currentPid := pid }
  | .fork tgid pid => { w with pid := tracePid2arg w.pid w.simTime tgid pid kPidFork }
  | .clone tgid pid => { w with pid := tracePid2arg w.pid w.simTime tgid pid kPidClone }
  | .exit exitcode => { w with pid := tracePid1arg w.pid w.simTime exitcode kPidExit }
  | .name name => { w with pid := traceName w.pid w.simTime w.currentPid name }
  | .execve argv len => { w with pid := traceExecve w.pid w.simTime argv len }
  | .mmap vstart vend offset path =>
    { w with pid := traceMmap w.pid w.simTime vstart vend offset path }
  | .munmap vstart vend => { w with pid := traceMunmap w.pid w.simTime vstart vend }
  | .dynamicSymbolAdd vaddr name =>
    { w with pid := traceDynamicSymbolAdd w.pid w.simTime vaddr name }
  | .dynamicSymbolRemove vaddr => { w with pid := traceDynamicSymbolRemove w.pid w.simTime vaddr }
  | .initName tgid pid name => { w with pid := traceInitName w.pid w.simTime tgid pid name }
  | .interpretedMethod addr callType =>
    { w with
      method := traceInterpretedMethod w.method w.simTime w.currentPid addr callType }

def start (pcs : Nat → UInt32) : World where
  simTime := 1
  currentPid := 0
  tbs := fun tb => ⟨pcs tb, none, 0⟩
  bb := BB.createTraceBB
  insn := Insn.createTraceInsn
  load := createTraceAddr
  store := createTraceAddr
  exc := createTraceExc
  pid := createTracePid
  method := createTraceMethod

/-- The streams after `trace_cleanup`. -/
def traceCleanup (w : World) : List Stream :=
  [cleanupBB w.bb w.simTime, cleanupInsn w.insn, (compressTraceAddresses w.load).compressed,
    (compressTraceAddresses w.store).compressed, w.exc.compressed, w.pid.compressed,
    w.method.compressed]

/-- The strings are shorter than a page, and so is the command line. -/
def Event.Valid : Event → Prop
  | .name s | .dynamicSymbolAdd _ s | .initName _ _ s | .mmap _ _ _ s => s.length < 4096
  | .execve argv len => argv.length < 4096 ∧ len.toInt ≤ 4096
  | _ => True

instance : DecidablePred Event.Valid
  | .name s | .dynamicSymbolAdd _ s | .initName _ _ s | .mmap _ _ _ s =>
    inferInstanceAs (Decidable (s.length < 4096))
  | .execve argv len => inferInstanceAs (Decidable (argv.length < 4096 ∧ len.toInt ≤ 4096))
  | .clock _ | .generate _ _ | .bb _ _ | .insn | .load _ | .store _ | .exception _ | .switch _
  | .fork _ _ | .clone _ _ | .exit _ | .munmap _ _ | .dynamicSymbolRemove _
  | .interpretedMethod _ _ => inferInstanceAs (Decidable True)

/-- All records of a run ended by `trace_cleanup` are stored inside of `compressed`, and fit into
what is reserved for them. -/
def Sound (w : World) : Prop := ∀ out ∈ traceCleanup w, out.Sound kCompressedSize

instance : DecidablePred Sound := fun _ => List.decidableBAll _ _

end Runs

end M2M.Trace.Streams
