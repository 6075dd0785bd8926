import M2M.Lib.Bytes
import Mathlib.Data.List.Basic

namespace M2M.Network

open M2M.Lib.Bytes

def nodeMaxLinks : Nat := 8
def headerQueueEntrySize : Nat := 128
def headerQueueEntryNum : Nat := 4
def maxNodeNum : Nat := 100

/-- The device IDs of a network of `n` devices. -/
def Device (n i : Nat) : Prop := 1 ≤ i ∧ i ≤ n

instance (n i : Nat) : Decidable (Device n i) := inferInstanceAs (Decidable (_ ∧ _))

theorem device_succ {k i : Nat} : Device (k + 1) i ↔ i = k + 1 ∨ Device k i := by
  simp only [Device]
  omega

theorem not_device_zero {i : Nat} : ¬ Device 0 i := by
  simp only [Device]
  omega

/-- `MAX_TIME` is `-1` stored in a `uint64_t`: a device that has not warmed up. -/
def maxTime : UInt64 := 18446744073709551615

/-- The two x86 ABIs the Makefile builds for. -/
inductive Abi
  | i386 | x86_64
  deriving DecidableEq

inductive DeviceType
  | zc | zr | zed
  deriving DecidableEq

/-- `m2m_HQe_t`, the packet header. -/
structure HQe where
  tag : UInt32
  packetSize : UInt32
  senderID : UInt32
  receiverID : UInt32
  forwardID : UInt32
  entryNum : Int32
  sendTime : UInt64
  transTime : UInt64
  deriving DecidableEq

namespace HQe

/-- The 40 bytes that a copy of `sizeof(m2m_HQe_t)` moves. -/
def encode (h : HQe) : List UInt8 :=
  toLE 4 h.tag.toNat ++ (toLE 4 h.packetSize.toNat ++ (toLE 4 h.senderID.toNat ++
    (toLE 4 h.receiverID.toNat ++ (toLE 4 h.forwardID.toNat ++
      (toLE 4 h.entryNum.toUInt32.toNat ++ (toLE 8 h.sendTime.toNat ++
        toLE 8 h.transTime.toNat))))))

def decode (bs : List UInt8) : HQe :=
  let (tag, bs) := readLE 4 bs
  let (packetSize, bs) := readLE 4 bs
  let (senderID, bs) := readLE 4 bs
  let (receiverID, bs) := readLE 4 bs
  let (forwardID, bs) := readLE 4 bs
  let (entryNum, bs) := readLE 4 bs
  let (sendTime, bs) := readLE 8 bs
  let (transTime, _) := readLE 8 bs
  { tag := .ofNat tag
    packetSize := .ofNat packetSize
    senderID := .ofNat senderID
    receiverID := .ofNat receiverID
    forwardID := .ofNat forwardID
    entryNum := (UInt32.ofNat entryNum).toInt32
    sendTime := .ofNat sendTime
    transTime := .ofNat transTime }

@[simp] theorem length_encode (h : HQe) : h.encode.length = 40 := by
  simp [encode]

@[simp] theorem decode_encode_append (h : HQe) (rest : List UInt8) :
    decode (h.encode ++ rest) = h := by
  simp [decode, encode]

@[simp] theorem decode_overwrite (h : HQe) (bs : List UInt8) :
    decode (overwrite bs h.encode) = h := decode_encode_append h _

/-- The arrival time that both a router and the receiver compute from a header. -/
def arrival (h : HQe) : UInt64 := h.sendTime + h.transTime

/-- Two headers of one message: a router may only have rewritten the hop fields. -/
def SameMessage (h h' : HQe) : Prop :=
  h'.tag = h.tag ∧ h'.packetSize = h.packetSize ∧ h'.senderID = h.senderID ∧
    h'.receiverID = h.receiverID ∧ h'.entryNum = h.entryNum

theorem SameMessage.refl (h : HQe) : SameMessage h h := ⟨rfl, rfl, rfl, rfl, rfl⟩

theorem SameMessage.trans {h₁ h₂ h₃ : HQe} (h : SameMessage h₁ h₂) (h' : SameMessage h₂ h₃) :
    SameMessage h₁ h₃ :=
  ⟨h'.1.trans h.1, h'.2.1.trans h.2.1, h'.2.2.1.trans h.2.2.1, h'.2.2.2.1.trans h.2.2.2.1,
    h'.2.2.2.2.trans h.2.2.2.2⟩

end HQe

/-- A message of the SMALL scheme: `m2m_send` admits at most one queue entry of
payload and records its length, and `m2m_post_remote_msg` marks it with `-1`. -/
structure Msg where
  header : HQe
  payload : List UInt8
  size_eq : header.packetSize.toNat = payload.length
  fits : payload.length ≤ headerQueueEntrySize
  small : header.entryNum = -1

end M2M.Network
