import Mathlib.Data.List.Basic

/-! A buffer of fixed size before a file.  Records are stored one behind the other, and the buffer
is written to the file when there may be no room for what is reserved for the next one. -/

universe u

namespace M2M.Lib

/-- Where a record was stored, its size, and what was reserved for it. -/
structure Stored where
  start : Nat
  size : Nat
  reserve : Int
  deriving DecidableEq

/-- A record lies inside of the buffer and of what was reserved for it. -/
structure Stored.Fits (cap : Nat) (r : Stored) : Prop where
  inside : r.start + r.size ≤ cap
  reserved : (r.size : Int) ≤ r.reserve

instance (cap : Nat) (r : Stored) : Decidable (r.Fits cap) :=
  decidable_of_iff (r.start + r.size ≤ cap ∧ (r.size : Int) ≤ r.reserve)
    ⟨fun h => ⟨h.1, h.2⟩, fun h => ⟨h.inside, h.reserved⟩⟩

structure Outgoing (α : Type u) where
  file : List α
  pending : List α
  log : List Stored

namespace Outgoing

variable {α : Type u}

def empty : Outgoing α := ⟨[], [], []⟩

def flush (out : Outgoing α) : Outgoing α :=
  { out with file := out.file ++ out.pending, pending := [] }

/-- A record is stored whether there is room for it or not. -/
def store (out : Outgoing α) (reserve : Int) (record : List α) : Outgoing α :=
  { out with
    pending := out.pending ++ record
    log := out.log ++ [⟨out.pending.length, record.length, reserve⟩] }

def storeBelow (high reserve : Nat) (out : Outgoing α) (record : List α) : Outgoing α :=
  (if high ≤ out.pending.length then out.flush else out).store reserve record

def storeWithin (cap : Nat) (reserve : Int) (out : Outgoing α) (record : List α) : Outgoing α :=
  (if (cap : Int) ≤ out.pending.length + reserve then out.flush else out).store reserve record

/-- All records were stored inside of the buffer and of what was reserved for them. -/
def Sound (cap : Nat) (out : Outgoing α) : Prop := ∀ r ∈ out.log, r.Fits cap

instance (cap : Nat) (out : Outgoing α) : Decidable (out.Sound cap) := List.decidableBAll _ _

variable {cap high : Nat} {out : Outgoing α} {record : List α}

theorem sound_empty : (empty : Outgoing α).Sound cap := List.forall_mem_nil _

theorem sound_store_iff {reserve : Int} : (out.store reserve record).Sound cap ↔
    out.Sound cap ∧ out.pending.length + record.length ≤ cap ∧
      (record.length : Int) ≤ reserve := by
  rw [Sound, store, List.forall_mem_append, List.forall_mem_singleton]
  exact and_congr_right fun _ => ⟨fun h => ⟨h.inside, h.reserved⟩, fun h => ⟨h.1, h.2⟩⟩

theorem sound_flush : out.flush.Sound cap ↔ out.Sound cap := Iff.rfl

theorem sound_storeBelow_iff {reserve : Nat} (hpos : 0 < high) (hcap : high + reserve ≤ cap) :
    (out.storeBelow high reserve record).Sound cap ↔
      out.Sound cap ∧ record.length ≤ reserve := by
  rw [storeBelow]
  split
  · rw [sound_store_iff, sound_flush, Int.ofNat_le]
    refine and_congr_right fun _ => and_iff_right_of_imp fun hle => ?_
    change 0 + record.length ≤ cap
    omega
  · rw [sound_store_iff, Int.ofNat_le]
    exact and_congr_right fun _ => and_iff_right_of_imp fun hle => by omega

theorem sound_storeWithin_iff {reserve : Int} (hrecord : record.length ≤ cap) :
    (out.storeWithin cap reserve record).Sound cap ↔
      out.Sound cap ∧ (record.length : Int) ≤ reserve := by
  rw [storeWithin]
  split
  · rw [sound_store_iff, sound_flush]
    refine and_congr_right fun _ => and_iff_right_of_imp fun _ => ?_
    change 0 + record.length ≤ cap
    omega
  · rw [sound_store_iff]
    exact and_congr_right fun _ => and_iff_right_of_imp fun hle => by omega

theorem sound_foldl_storeBelow {reserve : Nat} (hpos : 0 < high) (hcap : high + reserve ≤ cap)
    {records : List (List α)} (hrecords : ∀ record ∈ records, record.length ≤ reserve) :
    (records.foldl (storeBelow high reserve) out).Sound cap ↔ out.Sound cap := by
  induction records generalizing out with
  | nil => exact Iff.rfl
  | cons record records ih =>
    obtain ⟨hrecord, hrest⟩ := List.forall_mem_cons.mp hrecords
    rw [List.foldl_cons, ih hrest, sound_storeBelow_iff hpos hcap]
    exact and_iff_left hrecord

theorem log_storeWithin (cap : Nat) (reserve : Int) (out : Outgoing α) (record : List α) :
    (out.storeWithin cap reserve record).log = out.log ++
      [⟨if (cap : Int) ≤ out.pending.length + reserve then 0 else out.pending.length,
        record.length, reserve⟩] := by
  rw [storeWithin]
  split <;> rfl

theorem length_pending_storeWithin (cap : Nat) (reserve : Int) (out : Outgoing α)
    (record : List α) :
    (out.storeWithin cap reserve record).pending.length =
      (if (cap : Int) ≤ out.pending.length + reserve then 0 else out.pending.length) +
        record.length := by
  rw [storeWithin]
  split <;> exact List.length_append

def fill (high offset size : Nat) : Nat := (if high ≤ offset then 0 else offset) + size

theorem length_pending_foldl_storeBelow {reserve : Nat} (records : List (List α)) :
    (records.foldl (storeBelow high reserve) out).pending.length =
      (records.map List.length).foldl (fill high) out.pending.length := by
  induction records generalizing out with
  | nil => rfl
  | cons record records ih =>
    rw [List.foldl_cons, ih, List.map_cons, List.foldl_cons]
    refine congrArg (List.foldl (fill high) · _) ?_
    rw [storeBelow, fill]
    split
    · exact List.length_append
    · exact List.length_append

end Outgoing

end M2M.Lib
