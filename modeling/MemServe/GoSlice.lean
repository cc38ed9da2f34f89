import Mathlib.Data.List.TakeDrop

/-!
Go's slices: a part of an array that is written through the slice.

The array is kept from where the slice starts, so its length is the capacity. `append` writes into
the array while there is room, over whatever stands there, and moves to a new array when there is
none.
-/

namespace MemServe

structure GoSlice (α : Type) where
  arr : List α
  len : ℕ
  len_le : len ≤ arr.length

namespace GoSlice

variable {α : Type}

/-- What a reader of the slice sees. -/
def toList (s : GoSlice α) : List α := s.arr.take s.len

/-- `s[:0]`, on the same array. -/
def reset (s : GoSlice α) : GoSlice α := ⟨s.arr, 0, Nat.zero_le _⟩

def append (s : GoSlice α) (x : α) : GoSlice α :=
  if h : s.len < s.arr.length then ⟨s.arr.set s.len x, s.len + 1, by rw [List.length_set]; omega⟩
  else ⟨s.arr ++ [x], s.len + 1, by have := s.len_le; rw [List.length_append]; simp; omega⟩

@[simp] lemma toList_reset (s : GoSlice α) : s.reset.toList = [] := rfl

@[simp] lemma toList_append (s : GoSlice α) (x : α) : (s.append x).toList = s.toList ++ [x] := by
  unfold append
  split_ifs with h
  · simp only [toList]
    rw [List.take_add_one, List.take_set_of_le (Nat.le_refl s.len), List.getElem?_set_self h]
    rfl
  · have hlen : s.len = s.arr.length := Nat.le_antisymm s.len_le (Nat.not_lt.mp h)
    simp only [toList, hlen]
    rw [List.take_length, List.take_of_length_le (by simp)]

end GoSlice

end MemServe
