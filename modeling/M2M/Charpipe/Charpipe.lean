import M2M.Charpipe.CBuffer
import M2M.Lib.Chains
import M2M.Lib.Machine

universe u

namespace M2M.Charpipe

open M2M.Lib

def bipBufferSize : Nat := 512

/-- The `BipBuffer`s by address, field by field.  `malloc` has given the addresses below
`brk`. -/
structure BipBuffers where
  next : Nat → Option Nat
  cb : Nat → CBuffer
  freeBipBuffers : Option Nat
  brk : Nat

namespace BipBuffers

variable (m : BipBuffers)

/-- The buffer is `none` before the first one is linked. -/
def setNext (bip : Nat) (next : Option Nat) : BipBuffers :=
  { m with next := Function.update m.next bip next }

def setCb (bip : Nat) (cb : CBuffer) : BipBuffers := { m with cb := Function.update m.cb bip cb }

/-- The end of `bip_buffer_alloc`. -/
def fresh (bip : Nat) : BipBuffers :=
  (m.setNext bip none).setCb bip (cbufferReset (m.cb bip).buff bipBufferSize)

def bipBufferAlloc : Nat × BipBuffers :=
  match m.freeBipBuffers with
  | some bip => (bip, { m with freeBipBuffers := m.next bip }.fresh bip)
  | none => (m.brk, { m with brk := m.brk + 1 }.fresh m.brk)

def bipBufferFree (bip : Nat) : BipBuffers :=
  { m.setNext bip m.freeBipBuffers with freeBipBuffers := some bip }

end BipBuffers

/-- One half of a pipe.  The handlers are those of its `CharDriverState`, by whether they
are installed. -/
structure CharPipeHalf (η : Type u) where
  chrCanRead : Bool
  chrRead : Bool
  bipFirst : Option Nat
  bipLast : Option Nat
  peer : Option η

/-- The last loop of `charpipehalf_write`: buffers `buf` in `bip` and further buffers, of which
the last one is given back, with the number of bytes stored.  Only the first round may store
nothing. -/
def bufferLoop : Nat → BipBuffers → Nat → List UInt8 → BipBuffers × Nat × Nat
  | 0, m, bip, _ => (m, bip, 0)
  | rounds + 1, m, bip, buf =>
    let result := cbufferWrite (m.cb bip) buf
    let m := m.setCb bip result.1
    let len2 := buf.length - result.2.length
    if result.2 = [] then (m, bip, len2)
    else
      let (last, m) := m.bipBufferAlloc
      let (m, bip, ret) := bufferLoop rounds (m.setNext bip (some last)) last result.2
      (m, bip, len2 + ret)

/-- Where the code of a half is when a handler runs. -/
inductive Call
  | idle
  /-- In the direct loop of `charpipehalf_write`, with `buf` to go. -/
  | direct (buf : List UInt8) (ret : Nat)
  | directAsking (buf : List UInt8) (ret : Nat)
  /-- At the top of the loop of `charpipehalf_poll`. -/
  | polling
  | pollAsking (bip size : Nat)
  /-- In the `chr_read` of `charpipehalf_poll`. -/
  | reading (bip avail : Nat)
  deriving DecidableEq

/-- A half with the call in progress on it, what was written to it, what each write returned,
and the bytes it has handed to the `chr_read` of its peer. -/
structure Running (η : Type u) extends CharPipeHalf η where
  call : Call
  writes : List (List UInt8)
  returned : List Nat
  handed : List UInt8

structure World (η : Type u) where
  bips : BipBuffers
  half : η → Running η

inductive Event (η : Type u)
  | addHandlers (p : η) (canRead read : Bool)
  | write (p : η) (buf : List UInt8)
  | poll (p : η)
  /-- The code of a half goes on, up to the next call of a handler. -/
  | resume (p : η)
  /-- The `chr_can_read` of the peer returns. -/
  | answer (p : η) (size : Nat)

section Step

variable {η : Type u} [DecidableEq η] (w : World η) (p : η)

def World.setHalf (half : Running η) : World η :=
  { w with half := Function.update w.half p half }

def World.setCall (call : Call) : World η := w.setHalf p { w.half p with call }

/-- `qemu_chr_read` of the peer of `p`, and where the code is after it.  A null handler is not
survived. -/
def World.chrRead (bytes : List UInt8) (call : Call) : Option (World η) :=
  match (w.half p).peer with
  | none => none
  | some peer =>
    if (w.half peer).chrRead then
      some (w.setHalf p { w.half p with call, handed := (w.half p).handed ++ bytes })
    else none

/-- The buffer in which `charpipehalf_write` puts the remaining data, a new one if there is none,
with `bip_first` then. -/
def World.lastBip : Nat × Option Nat × BipBuffers :=
  match (w.half p).bipLast with
  | some bip => (bip, (w.half p).bipFirst, w.bips)
  | none => (w.bips.bipBufferAlloc.1, some w.bips.bipBufferAlloc.1, w.bips.bipBufferAlloc.2)

/-- The end of `charpipehalf_write`, when its `bip` is `bip_last`. -/
def World.bufferRest (buf : List UInt8) (ret : Nat) : World η :=
  let half := { w.half p with call := .idle }
  if buf = [] then w.setHalf p { half with returned := half.returned ++ [ret] }
  else
    let (bip, first, m) := w.lastBip p
    let (m, last, stored) := bufferLoop (buf.length + 1) m bip buf
    { w with bips := m }.setHalf p { half with
      bipFirst := first, bipLast := some last, returned := half.returned ++ [ret + stored] }

def World.charpipehalfWrite (buf : List UInt8) : World η :=
  let w := w.setHalf p { w.half p with writes := (w.half p).writes ++ [buf] }
  match (w.half p).bipLast, (w.half p).peer with
  | none, some peer =>
    if (w.half peer).chrRead then w.setCall p (.direct buf 0) else w.bufferRest p buf 0
  | _, _ => w.bufferRest p buf 0

/-- A round of the direct loop hands `size` bytes over. -/
def World.directRead (buf : List UInt8) (ret size : Nat) : Option (World η) :=
  w.chrRead p (buf.take size) (.direct (buf.drop size) (ret + size))

def World.charpipehalfPoll : World η :=
  match (w.half p).peer with
  | none => w
  | some peer => if (w.half peer).chrRead then w.setCall p .polling else w

/-- A round of the loop of `charpipehalf_poll` hands at most `size` bytes over. -/
def World.pollRead (bip size : Nat) : Option (World η) :=
  let bytes := cbufferReadPeek (w.bips.cb bip)
  let avail := if bytes.length > size then size else bytes.length
  w.chrRead p (bytes.take avail) (.reading bip avail)

/-- The top of the loop of `charpipehalf_poll`, up to the first handler. -/
def World.pollTop : Option (World η) :=
  let half := w.half p
  match half.bipFirst with
  | none => some (w.setCall p .idle)
  | some bip =>
    let size := cbufferReadAvail (w.bips.cb bip)
    if size = 0 then
      let next := w.bips.next bip
      some ({ w with bips := w.bips.bipBufferFree bip }.setHalf p { half with
        bipFirst := next
        bipLast := if next = none then none else half.bipLast })
    else if half.chrCanRead then
      match half.peer with
      | none => none
      | some peer =>
        -- without the handler `qemu_chr_can_read` is zero
        if (w.half peer).chrCanRead then some (w.setCall p (.pollAsking bip size))
        else some (w.setCall p .idle)
    else w.pollRead p bip size

/-- A call on a half starts when no other one is in progress. -/
def step : Machine.Step (World η) (Event η)
  | w, .addHandlers p canRead read =>
    some (w.setHalf p { w.half p with chrCanRead := canRead, chrRead := read })
  | w, .write p buf => if (w.half p).call = .idle then some (w.charpipehalfWrite p buf) else none
  | w, .poll p => if (w.half p).call = .idle then some (w.charpipehalfPoll p) else none
  | w, .resume p =>
    match (w.half p).call with
    | .direct buf ret =>
      if buf = [] then some (w.bufferRest p buf ret)
      else
        match (w.half p).peer with
        | none => none
        | some peer =>
          if (w.half peer).chrCanRead then some (w.setCall p (.directAsking buf ret))
          else w.directRead p buf ret buf.length
    | .polling => w.pollTop p
    | .reading bip avail =>
      some ({ w with bips := w.bips.setCb bip (cbufferReadStep (w.bips.cb bip) avail) }.setCall p
        .polling)
    | _ => none
  | w, .answer p size =>
    match (w.half p).call with
    | .directAsking buf ret =>
      if size = 0 then some (w.bufferRest p buf ret)
      else w.directRead p buf ret (if size > buf.length then buf.length else size)
    | .pollAsking bip avail =>
      if size = 0 then some (w.setCall p .idle)
      else w.pollRead p bip (if avail > size then size else avail)
    | _ => none

/-- Pipes that have just been opened. -/
def Init (w : World η) : Prop :=
  w.bips.freeBipBuffers = none ∧
    ∀ p, (w.half p).bipFirst = none ∧ (w.half p).bipLast = none ∧ (w.half p).call = .idle ∧
      (w.half p).writes = [] ∧ (w.half p).returned = [] ∧ (w.half p).handed = []

end Step

end M2M.Charpipe
