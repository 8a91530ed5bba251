import Mathlib.Data.List.Nodup
import Mathlib.Data.List.Perm.Basic
import Mathlib.Data.List.Range

/-!
# Tables of handles

A handle number names one object while it is open and may be reused after it is
closed. The table gives every opened object a serial number, so that a close can
be charged to the object it hits; a close of a number that is not open hits
nothing and is logged as such.
-/

namespace HandleTable

variable {α : Type*}

/-- The open numbers with the serial of the object behind each, the next serial,
and every close so far with the serial it hit. -/
structure Table (α : Type*) where
  slots : α → Option Nat
  next : Nat
  log : List (α × Option Nat)

namespace Table

def empty : Table α := ⟨fun _ => none, 0, []⟩

/-- The serials behind a list of numbers. -/
def serials (t : Table α) (as : List α) : List Nat := as.filterMap t.slots

/-- The serials of the objects closed so far, once for every close. -/
def closed (t : Table α) : List Nat := t.log.filterMap Prod.snd

/-- The numbers passed to close so far. -/
def closeCalls (t : Table α) : List α := t.log.map Prod.fst

theorem serials_append (t : Table α) (as bs : List α) :
    t.serials (as ++ bs) = t.serials as ++ t.serials bs :=
  List.filterMap_append ..

theorem serials_congr {t t' : Table α} {as : List α} (h : ∀ a ∈ as, t.slots a = t'.slots a) :
    t.serials as = t'.serials as :=
  List.filterMap_congr h

theorem mem_serials {t : Table α} {as : List α} {i : Nat} :
    i ∈ t.serials as ↔ ∃ a ∈ as, t.slots a = some i :=
  List.mem_filterMap

section Operations

variable [DecidableEq α]

/-- Open a new object under the number `a`. -/
def open1 (t : Table α) (a : α) : Table α :=
  { t with slots := Function.update t.slots a (some t.next), next := t.next + 1 }

def openAll (t : Table α) (as : List α) : Table α := as.foldl open1 t

/-- Close the number `a`. -/
def close (t : Table α) (a : α) : Table α :=
  { t with slots := Function.update t.slots a none, log := t.log ++ [(a, t.slots a)] }

def closeAll (t : Table α) (as : List α) : Table α := as.foldl close t

@[simp] theorem openAll_cons (t : Table α) (a : α) (as : List α) :
    t.openAll (a :: as) = (t.open1 a).openAll as := rfl

@[simp] theorem closeAll_nil (t : Table α) : t.closeAll [] = t := rfl

@[simp] theorem closeAll_cons (t : Table α) (a : α) (as : List α) :
    t.closeAll (a :: as) = (t.close a).closeAll as := rfl

theorem closeAll_append (t : Table α) (as bs : List α) :
    t.closeAll (as ++ bs) = (t.closeAll as).closeAll bs := by
  simp [closeAll, List.foldl_append]

@[simp] theorem closeCalls_close (t : Table α) (a : α) :
    (t.close a).closeCalls = t.closeCalls ++ [a] := by
  simp [closeCalls, close]

@[simp] theorem closeCalls_closeAll (t : Table α) (as : List α) :
    (t.closeAll as).closeCalls = t.closeCalls ++ as := by
  induction as generalizing t with
  | nil => simp
  | cons a as ih => simp [ih]

@[simp] theorem closeCalls_openAll (t : Table α) (as : List α) :
    (t.openAll as).closeCalls = t.closeCalls := by
  induction as generalizing t with
  | nil => rfl
  | cons a as ih => rw [openAll_cons, ih]; rfl

/-! ## One step seen by other numbers -/

section Slots

variable {t t' : Table α} {a b : α} {as : List α}

theorem slots_open1_of_ne (h : b ≠ a) : (t.open1 a).slots b = t.slots b :=
  Function.update_of_ne h ..

theorem slots_close_of_ne (h : b ≠ a) : (t.close a).slots b = t.slots b :=
  Function.update_of_ne h ..

theorem slots_openAll_of_notMem (h : b ∉ as) : (t.openAll as).slots b = t.slots b := by
  induction as generalizing t with
  | nil => rfl
  | cons a as ih =>
      obtain ⟨hne, hrest⟩ := not_or.mp (mt List.mem_cons.mpr h)
      rw [openAll_cons, ih hrest, slots_open1_of_ne hne]

theorem slots_closeAll_of_notMem (h : b ∉ as) : (t.closeAll as).slots b = t.slots b := by
  induction as generalizing t with
  | nil => rfl
  | cons a as ih =>
      obtain ⟨hne, hrest⟩ := not_or.mp (mt List.mem_cons.mpr h)
      rw [closeAll_cons, ih hrest, slots_close_of_ne hne]

/-- New objects get the next serials in order. -/
theorem serials_openAll (h : as.Nodup) :
    (t.openAll as).serials as = List.range' t.next as.length := by
  induction as generalizing t with
  | nil => rfl
  | cons a as ih =>
      obtain ⟨hnot, hrest⟩ := List.nodup_cons.mp h
      have hslot : ((t.open1 a).openAll as).slots a = some t.next := by
        rw [slots_openAll_of_notMem hnot]
        exact Function.update_self ..
      rw [openAll_cons, serials, List.filterMap_cons_some hslot, List.length_cons,
        List.range'_succ]
      exact congrArg _ (ih hrest)

@[simp] theorem next_openAll (t : Table α) (as : List α) :
    (t.openAll as).next = t.next + as.length := by
  induction as generalizing t with
  | nil => rfl
  | cons a as ih =>
      rw [openAll_cons, ih, List.length_cons]
      simp only [open1]
      omega

@[simp] theorem next_closeAll (t : Table α) (as : List α) : (t.closeAll as).next = t.next := by
  induction as generalizing t with
  | nil => rfl
  | cons a as ih => rw [closeAll_cons, ih]; rfl

@[simp] theorem log_openAll (t : Table α) (as : List α) : (t.openAll as).log = t.log := by
  induction as generalizing t with
  | nil => rfl
  | cons a as ih => rw [openAll_cons, ih]; rfl

@[simp] theorem closed_openAll (t : Table α) (as : List α) : (t.openAll as).closed = t.closed := by
  rw [closed, log_openAll, closed]

theorem closed_close (t : Table α) (a : α) : (t.close a).closed = t.closed ++ t.serials [a] := by
  simp only [closed, close, serials, List.filterMap_append]
  cases h : t.slots a <;> simp [h]

/-- A close of distinct numbers is charged to the objects behind them. -/
theorem closed_closeAll (h : as.Nodup) : (t.closeAll as).closed = t.closed ++ t.serials as := by
  induction as generalizing t with
  | nil => simp [serials]
  | cons a as ih =>
      obtain ⟨hnot, hrest⟩ := List.nodup_cons.mp h
      have hsame : (t.close a).serials as = t.serials as :=
        serials_congr fun b hb => slots_close_of_ne fun hba => hnot (hba ▸ hb)
      rw [closeAll_cons, ih hrest, closed_close, hsame, List.append_assoc, ← serials_append]
      rfl

end Slots

end Operations

/-! ## Accounts -/

/-- The open numbers are exactly the owned ones, each owned once; every serial given out is
either behind an owned number or was closed, once; and no close missed. -/
structure Accounts (t : Table α) (owners : List α) : Prop where
  nodup : owners.Nodup
  open_iff : ∀ a, a ∈ owners ↔ ∃ i, t.slots a = some i
  ledger : (t.serials owners ++ t.closed).Perm (List.range t.next)
  hits : ∀ e ∈ t.log, e.2 ≠ none

namespace Accounts

variable {t : Table α} {owners owners' as : List α} {a b : α} {i : Nat}

theorem empty : Accounts (.empty : Table α) [] where
  nodup := .nil
  open_iff := by simp [Table.empty]
  ledger := .refl _
  hits := by simp [Table.empty]

theorem perm (h : Accounts t owners) (hp : owners.Perm owners') : Accounts t owners' where
  nodup := hp.nodup_iff.mp h.nodup
  open_iff a := hp.mem_iff.symm.trans (h.open_iff a)
  ledger := ((hp.symm.filterMap _).append_right _).trans h.ledger
  hits := h.hits

theorem serials_nodup (h : Accounts t owners) : (t.serials owners ++ t.closed).Nodup :=
  h.ledger.nodup_iff.mpr List.nodup_range

theorem lt_next (h : Accounts t owners) (hi : t.slots a = some i) : i < t.next := by
  have hmem : i ∈ t.serials owners := mem_serials.mpr ⟨a, (h.open_iff a).mpr ⟨i, hi⟩, hi⟩
  exact List.mem_range.mp (h.ledger.mem_iff.mp (List.mem_append_left _ hmem))

/-- An object behind an open number was not closed. -/
theorem not_closed (h : Accounts t owners) (ha : t.slots a = some i) : i ∉ t.closed := by
  have hmem : i ∈ t.serials owners := mem_serials.mpr ⟨a, (h.open_iff a).mpr ⟨i, ha⟩, ha⟩
  exact (List.disjoint_of_nodup_append h.serials_nodup) hmem

variable [DecidableEq α]

/-- An object is behind one number. -/
theorem inj (h : Accounts t owners) (ha : t.slots a = some i) (hb : t.slots b = some i) :
    a = b := by
  by_contra hne
  have hmem := (h.open_iff a).mpr ⟨i, ha⟩
  have hmem' : b ∈ owners.erase a :=
    (List.mem_erase_of_ne (Ne.symm hne)).mpr ((h.open_iff b).mpr ⟨i, hb⟩)
  have hnodup := (h.perm (List.perm_cons_erase hmem)).serials_nodup.of_append_left
  rw [serials, List.filterMap_cons_some ha, List.nodup_cons] at hnodup
  exact hnodup.1 (mem_serials.mpr ⟨b, hmem', hb⟩)

theorem open1 (h : Accounts t owners) (ha : t.slots a = none) :
    Accounts (t.open1 a) (a :: owners) := by
  have hnot : a ∉ owners := fun hmem => by
    obtain ⟨i, hi⟩ := (h.open_iff a).mp hmem
    rw [ha] at hi
    cases hi
  have hself : (t.open1 a).slots a = some t.next := Function.update_self ..
  refine ⟨List.nodup_cons.mpr ⟨hnot, h.nodup⟩, fun b => ?_, ?_, h.hits⟩
  · by_cases hb : b = a
    · subst hb
      exact ⟨fun _ => ⟨_, hself⟩, fun _ => List.mem_cons_self⟩
    · rw [List.mem_cons, slots_open1_of_ne hb, ← h.open_iff b]
      exact or_iff_right hb
  · have hsame : (t.open1 a).serials owners = t.serials owners :=
      serials_congr fun b hb => slots_open1_of_ne fun hba => hnot (hba ▸ hb)
    have hserials : (t.open1 a).serials (a :: owners) = t.next :: t.serials owners := by
      rw [← hsame]
      exact List.filterMap_cons_some hself
    rw [hserials, List.cons_append]
    refine (List.Perm.cons _ h.ledger).trans ?_
    simp only [Table.open1, List.range_succ]
    exact (List.perm_append_singleton ..).symm

theorem close (h : Accounts t (a :: owners)) : Accounts (t.close a) owners := by
  obtain ⟨hnot, hnodup⟩ := List.nodup_cons.mp h.nodup
  obtain ⟨i, hi⟩ := (h.open_iff a).mp List.mem_cons_self
  have hself : (t.close a).slots a = none := Function.update_self ..
  refine ⟨hnodup, fun b => ?_, ?_, fun e he => ?_⟩
  · by_cases hb : b = a
    · subst hb
      rw [hself]
      exact ⟨fun hmem => absurd hmem hnot, fun ⟨j, hj⟩ => by cases hj⟩
    · rw [slots_close_of_ne hb, ← h.open_iff b, List.mem_cons]
      exact (or_iff_right hb).symm
  · have hsame : (t.close a).serials owners = t.serials owners :=
      serials_congr fun b hb => slots_close_of_ne fun hba => hnot (hba ▸ hb)
    have hone : ∀ as, t.serials (a :: as) = i :: t.serials as :=
      fun as => List.filterMap_cons_some hi
    have hledger := h.ledger
    rw [hone, List.cons_append] at hledger
    rw [hsame, closed_close, hone, ← List.append_assoc]
    exact (List.perm_append_singleton ..).trans hledger
  · rcases List.mem_append.mp he with he | he
    · exact h.hits e he
    · obtain rfl := List.mem_singleton.mp he
      simp [hi]

theorem openAll (h : Accounts t owners) (hnodup : as.Nodup)
    (hfresh : ∀ a ∈ as, t.slots a = none) : Accounts (t.openAll as) (as ++ owners) := by
  induction as generalizing t owners with
  | nil => exact h
  | cons a as ih =>
      obtain ⟨hnot, hrest⟩ := List.nodup_cons.mp hnodup
      obtain ⟨ha, has⟩ := List.forall_mem_cons.mp hfresh
      refine (ih (h.open1 ha) hrest fun b hb => ?_).perm List.perm_middle
      have hne : b ≠ a := fun hba => hnot (hba ▸ hb)
      rw [slots_open1_of_ne hne]
      exact has b hb

theorem closeAll (h : Accounts t (as ++ owners)) : Accounts (t.closeAll as) owners := by
  induction as generalizing t with
  | nil => exact h
  | cons a as ih => exact ih h.close

end Accounts

end Table

end HandleTable
