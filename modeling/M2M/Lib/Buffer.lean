import Mathlib

universe u

namespace M2M.Lib

variable {α : Type u} {c : Nat}

/-- The first `n` entries of an array. -/
def held (buf : Fin c → α) (n : Nat) : List α := (List.ofFn buf).take n

@[simp] theorem held_zero (buf : Fin c → α) : held buf 0 = [] := rfl

theorem held_update_of_le (buf : Fin c → α) (i : Fin c) (a : α) {n : Nat} (h : n ≤ i) :
    held (Function.update buf i a) n = held buf n := by
  refine List.ext_getElem? fun j => ?_
  simp only [held, List.getElem?_take, List.getElem?_ofFn]
  by_cases hj : j < n
  · rw [if_pos hj, if_pos hj]
    split
    · rw [Function.update_of_ne]
      intro heq
      have hval := congrArg Fin.val heq
      simp only at hval
      omega
    · rfl
  · rw [if_neg hj, if_neg hj]

theorem held_update_succ (buf : Fin c → α) (i : Fin c) (a : α) :
    held (Function.update buf i a) (i + 1) = held buf i ++ [a] := by
  have hget : (List.ofFn (Function.update buf i a))[(i : Nat)]? = some a := by
    simp
  rw [← held_update_of_le buf i a (Nat.le_refl _), held, held, List.take_add_one, hget,
    Option.toList_some]

/-- The fill counter after one more entry, or `none` when the array is full. -/
def next (i : Fin c) : Option (Fin c) := if h : i + 1 < c then some ⟨i + 1, h⟩ else none

theorem val_of_next {i n : Fin c} (h : next i = some n) : (n : Nat) = i + 1 := by
  rw [next] at h
  split at h
  · rw [← Option.some.inj h]
  · cases h

/-- An array of `c` entries before a file.  It is written to the file when it is full. -/
structure Buffer (α : Type u) (c : Nat) where
  file : List α
  buf : Fin c → α
  size : Fin c

namespace Buffer

variable [NeZero c] (b : Buffer α c)

def contents : List α := b.file ++ held b.buf b.size

def flush : Buffer α c := { b with file := b.file ++ held b.buf b.size, size := 0 }

def push (a : α) : Buffer α c :=
  let buf := Function.update b.buf b.size a
  match next b.size with
  | some size => { b with buf, size }
  | none => { file := b.file ++ held buf (b.size + 1), buf, size := 0 }

@[simp] theorem file_flush : b.flush.file = b.contents := rfl

@[simp] theorem contents_push (a : α) : (b.push a).contents = b.contents ++ [a] := by
  rw [push]
  cases hnext : next b.size with
  | some size =>
    simp only [contents, val_of_next hnext, held_update_succ, List.append_assoc]
  | none =>
    simp only [contents, held_update_succ, Fin.val_zero, held_zero, List.append_nil,
      List.append_assoc]

end Buffer

end M2M.Lib
