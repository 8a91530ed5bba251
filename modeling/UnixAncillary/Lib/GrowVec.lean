import Mathlib.Data.List.Basic

/-!
# Vectors that grow

A vector keeps its items in a block with room for `capacity` of them. Pushing onto a full
block allocates a larger one; how much larger is left to the parameter `grow`. A vector
that is created with room for everything pushed onto it never allocates again.
-/

namespace GrowVec

variable {α : Type*}

/-- The items, the room of the block that holds them, and the allocations so far. -/
structure Vec (α : Type*) where
  items : List α
  capacity : Nat
  allocations : Nat
  fits : items.length ≤ capacity

namespace Vec

/-- An empty vector with room for `n` items; none need no block. -/
def withCapacity (n : Nat) : Vec α := ⟨[], n, if n = 0 then 0 else 1, Nat.zero_le _⟩

variable (grow : Nat → Nat)

/-- Append an item, after moving a full block to a larger one. -/
def push (v : Vec α) (a : α) : Vec α :=
  if h : v.items.length < v.capacity then
    ⟨v.items ++ [a], v.capacity, v.allocations, by rw [List.length_append]; exact h⟩
  else
    ⟨v.items ++ [a], max (grow v.capacity) (v.items.length + 1), v.allocations + 1, by
      rw [List.length_append]
      exact Nat.le_max_right ..⟩

def extend (v : Vec α) (as : List α) : Vec α := as.foldl (push grow) v

variable {grow} {v : Vec α}

theorem items_push (a : α) : (v.push grow a).items = v.items ++ [a] := by
  rw [push]
  split <;> rfl

theorem items_extend (as : List α) : (v.extend grow as).items = v.items ++ as := by
  induction as generalizing v with
  | nil => simp [extend]
  | cons a as ih =>
      calc
        (v.extend grow (a :: as)).items = ((v.push grow a).extend grow as).items := rfl
        _ = (v.items ++ [a]) ++ as := by rw [ih, items_push]
        _ = v.items ++ a :: as := by rw [List.append_assoc, List.singleton_append]

theorem push_of_room (h : v.items.length < v.capacity) (a : α) :
    (v.push grow a).capacity = v.capacity ∧ (v.push grow a).allocations = v.allocations := by
  rw [push, dif_pos h]
  exact ⟨rfl, rfl⟩

/-- A vector with enough room keeps its block. -/
theorem extend_of_room {as : List α} (h : v.items.length + as.length ≤ v.capacity) :
    (v.extend grow as).capacity = v.capacity ∧
      (v.extend grow as).allocations = v.allocations := by
  induction as generalizing v with
  | nil => exact ⟨rfl, rfl⟩
  | cons a as ih =>
      rw [List.length_cons] at h
      obtain ⟨hcapacity, hallocations⟩ := push_of_room (show v.items.length < v.capacity by omega) a
      have hroom : (v.push grow a).items.length + as.length ≤ (v.push grow a).capacity := by
        rw [items_push, List.length_append, hcapacity, List.length_singleton]
        omega
      obtain ⟨hcapacity', hallocations'⟩ := ih hroom
      constructor
      · exact hcapacity'.trans hcapacity
      · exact hallocations'.trans hallocations

end Vec

end GrowVec
