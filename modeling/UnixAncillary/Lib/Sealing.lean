import UnixAncillary.Lib.HandleTable

/-!
# Sealed objects

Some objects of a table keep their number marked for as long as they are open. Marks belong
to numbers, and a number is reused: an object is sealed by marking the number under which it
is opened, and stays sealed while no mark of an open number is taken away.
-/

namespace HandleTable

namespace Table

variable {α : Type*} [DecidableEq α]

section Slots

theorem slots_open1_self (t : Table α) (a : α) : (t.open1 a).slots a = some t.next :=
  Function.update_self ..

theorem slots_close_self (t : Table α) (a : α) : (t.close a).slots a = none :=
  Function.update_self ..

variable {t : Table α} {a : α} {i : Nat}

/-- An open number was not closed since. -/
theorem slots_closeAll_some {as : List α} (h : (t.closeAll as).slots a = some i) :
    a ∉ as ∧ t.slots a = some i := by
  induction as generalizing t with
  | nil => exact ⟨List.not_mem_nil, h⟩
  | cons b as ih =>
      obtain ⟨hnot, hslot⟩ := ih h
      have hne : a ≠ b := by
        rintro rfl
        exact Option.some_ne_none i (hslot.symm.trans (slots_close_self t a))
      rw [slots_close_of_ne hne] at hslot
      exact ⟨fun hmem => (List.mem_cons.mp hmem).elim hne hnot, hslot⟩

/-- What is behind a number after others were opened: what was there, or a new object. -/
theorem slots_openAll_some {as : List α} (h : (t.openAll as).slots a = some i) :
    (a ∉ as ∧ t.slots a = some i) ∨ (a ∈ as ∧ t.next ≤ i ∧ i < t.next + as.length) := by
  induction as generalizing t with
  | nil => exact .inl ⟨List.not_mem_nil, h⟩
  | cons b as ih =>
      have hnext : (t.open1 b).next = t.next + 1 := rfl
      rw [List.length_cons]
      rcases ih h with ⟨hnot, hslot⟩ | ⟨hmem, hle, hlt⟩
      · by_cases hsame : a = b
        · subst hsame
          obtain rfl := Option.some.inj ((slots_open1_self t a).symm.trans hslot)
          exact .inr ⟨List.mem_cons_self, le_refl _, by omega⟩
        · rw [slots_open1_of_ne hsame] at hslot
          exact .inl ⟨fun hmem => (List.mem_cons.mp hmem).elim hsame hnot, hslot⟩
      · rw [hnext] at hle hlt
        exact .inr ⟨List.mem_cons_of_mem _ hmem, by omega, by omega⟩

end Slots

/-- The open ones of `objects` are behind marked numbers, and all of them have been opened. -/
structure Sealed (t : Table α) (marked : α → Prop) (objects : List Nat) : Prop where
  below : ∀ a i, t.slots a = some i → i < t.next
  opened : ∀ i ∈ objects, i < t.next
  marked : ∀ a, ∀ i ∈ objects, t.slots a = some i → marked a

namespace Sealed

variable {t : Table α} {marked marked' : α → Prop} {objects : List Nat}

omit [DecidableEq α] in
theorem empty (marked : α → Prop) : Sealed (.empty : Table α) marked [] where
  below := fun _ _ h => by cases h
  opened := fun _ h => by cases h
  marked := fun _ _ h => by cases h

omit [DecidableEq α] in
/-- Marks may change where no sealed object loses its own. -/
theorem remark (h : Sealed t marked objects)
    (hkeep : ∀ a, ∀ i ∈ objects, t.slots a = some i → marked a → marked' a) :
    Sealed t marked' objects :=
  { h with marked := fun a i hi hslot => hkeep a i hi hslot (h.marked a i hi hslot) }

theorem closeAll (h : Sealed t marked objects) (as : List α) :
    Sealed (t.closeAll as) marked objects := by
  constructor
  · intro a i hslot
    rw [next_closeAll]
    exact h.below a i (slots_closeAll_some hslot).2
  · intro i hi
    rw [next_closeAll]
    exact h.opened i hi
  · intro a i hi hslot
    exact h.marked a i hi (slots_closeAll_some hslot).2

/-- Opening objects, of which some stay unmarked because they are closed at once. -/
theorem openAll (h : Sealed t marked objects) {as gone : List α}
    (hkeep : ∀ a ∉ as, marked a → marked' a) (hnew : ∀ a ∈ as, a ∉ gone → marked' a) :
    Sealed ((t.openAll as).closeAll gone) marked'
      (objects ++ (t.openAll as).serials as) := by
  have hslots : ∀ {a i}, ((t.openAll as).closeAll gone).slots a = some i → a ∉ gone ∧
      ((a ∉ as ∧ t.slots a = some i) ∨ (a ∈ as ∧ t.next ≤ i ∧ i < t.next + as.length)) :=
    fun hslot => (slots_closeAll_some hslot).imp_right slots_openAll_some
  constructor
  · intro a i hslot
    rw [next_closeAll, next_openAll]
    rcases (hslots hslot).2 with ⟨-, hold⟩ | ⟨-, -, hlt⟩
    · exact (h.below a i hold).trans_le (Nat.le_add_right ..)
    · exact hlt
  · intro i hi
    rw [next_closeAll, next_openAll]
    rcases List.mem_append.mp hi with hold | hnew
    · exact (h.opened i hold).trans_le (Nat.le_add_right ..)
    · obtain ⟨a, hmem, hslot⟩ := mem_serials.mp hnew
      rcases slots_openAll_some hslot with ⟨hnot, -⟩ | ⟨-, -, hlt⟩
      · exact absurd hmem hnot
      · exact hlt
  · intro a i hi hslot
    obtain ⟨hopen, hcases⟩ := hslots hslot
    rcases hcases with ⟨hnot, hold⟩ | ⟨hmem, -⟩
    · -- The object is older than those that were opened, so it is one of `objects`.
      have hobject : i ∈ objects := by
        refine (List.mem_append.mp hi).resolve_right fun hlate => ?_
        obtain ⟨b, hb, hslot'⟩ := mem_serials.mp hlate
        have hlt := h.below a i hold
        rcases slots_openAll_some hslot' with ⟨hnot', -⟩ | ⟨-, hle, -⟩
        · exact hnot' hb
        · omega
      exact hkeep a hnot (h.marked a i hobject hold)
    · exact hnew a hmem hopen

/-- Opening one object that need not be sealed. -/
theorem open1 (h : Sealed t marked objects) {a : α} (hkeep : ∀ b ≠ a, marked b → marked' b) :
    Sealed (t.open1 a) marked' objects := by
  have hslots : ∀ {b i}, (t.open1 a).slots b = some i →
      (b ≠ a ∧ t.slots b = some i) ∨ i = t.next := by
    intro b i hslot
    by_cases hsame : b = a
    · subst hsame
      exact .inr (Option.some.inj (hslot.symm.trans (slots_open1_self t b)))
    · exact .inl ⟨hsame, (slots_open1_of_ne hsame).symm.trans hslot⟩
  have hnext : (t.open1 a).next = t.next + 1 := rfl
  constructor
  · intro b i hslot
    rw [hnext]
    rcases hslots hslot with ⟨-, hold⟩ | rfl
    · exact (h.below b i hold).trans (Nat.lt_succ_self _)
    · exact Nat.lt_succ_self _
  · exact fun i hi => (h.opened i hi).trans (Nat.lt_succ_self _)
  · intro b i hi hslot
    rcases hslots hslot with ⟨hne, hold⟩ | rfl
    · exact hkeep b hne (h.marked b i hi hold)
    · exact absurd (h.opened _ hi) (lt_irrefl _)

end Sealed

end Table

end HandleTable
