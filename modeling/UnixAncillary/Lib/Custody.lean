import Mathlib.Data.List.Count
import Mathlib.Logic.Relation
import UnixAncillary.Lib.HandleTable

/-!
# Custody of handles

A component acquires handles from its environment, closes some of them and yields the
others to a client, in a table that it shares with handles of other origin. `Move` lists
what may happen, `Kept` is what every run keeps, and `Kept.conserved` accounts for every
acquired object at every point.
-/

namespace HandleTable

open Table

variable {α : Type*}

/-- Who holds which numbers, and the history in serials: what was acquired, what was never
to be yielded, what was yielded, what the client lent to the component, and what the
client's side closed. -/
structure Custody (α : Type*) where
  table : Table α
  held : List α
  client : List α
  others : List α
  acquired : List Nat
  discarded : List Nat
  yielded : List Nat
  lent : List Nat
  clientClosed : List Nat

namespace Custody

def empty : Custody α := ⟨.empty, [], [], [], [], [], [], [], []⟩

/-- All numbers that someone holds. -/
def owners (c : Custody α) : List α := c.held ++ (c.client ++ c.others)

/-- What every run keeps. -/
structure Kept (c : Custody α) : Prop where
  accounts : c.table.Accounts c.owners
  acquired_lt : ∀ i ∈ c.acquired, i < c.table.next
  held_acquired : ∀ a ∈ c.held, ∀ i, c.table.slots a = some i → i ∈ c.acquired
  client_acquired : ∀ a ∈ c.client, ∀ i, c.table.slots a = some i → i ∈ c.acquired
  others_foreign : ∀ a ∈ c.others, ∀ i, c.table.slots a = some i → i ∉ c.acquired
  yielded_once : c.yielded.Nodup
  yielded_acquired : ∀ i ∈ c.yielded, i ∈ c.acquired
  held_unyielded : ∀ a ∈ c.held, ∀ i, c.table.slots a = some i → i ∉ c.yielded
  discarded_closed : ∀ i ∈ c.discarded, i ∈ c.acquired ∧ i ∈ c.table.closed ∧ i ∉ c.yielded
  lent_kept : ∀ i ∈ c.lent, i < c.table.next ∧ (i ∈ c.table.closed → i ∈ c.clientClosed) ∧
    ∀ a ∈ c.held, c.table.slots a ≠ some i

theorem kept_empty : Kept (empty : Custody α) := by
  constructor <;> simp [empty, owners, Accounts.empty]

section Moves

variable [DecidableEq α]

/-- What may happen: the component acquires handles under numbers that are not open,
closes handles, or yields one; the client lends open handles; the client's side opens and
closes handles of its own. -/
inductive Move : Custody α → Custody α → Prop
  | acquire (c : Custody α) (as : List α) (hnodup : as.Nodup)
      (hfresh : ∀ a ∈ as, c.table.slots a = none) :
      Move c { c with
        table := c.table.openAll as
        held := as ++ c.held
        acquired := c.acquired ++ (c.table.openAll as).serials as }
  | arrange (c : Custody α) (held : List α) (h : c.held.Perm held) :
      Move c { c with held := held }
  | release (c : Custody α) (as rest : List α) (h : c.held = as ++ rest) :
      Move c { c with table := c.table.closeAll as, held := rest }
  | discard (c : Custody α) (as rest : List α) (h : c.held = as ++ rest) :
      Move c { c with
        table := c.table.closeAll as
        held := rest
        discarded := c.discarded ++ c.table.serials as }
  | yield (c : Custody α) (a : α) (rest : List α) (h : c.held = a :: rest) :
      Move c { c with
        held := rest
        client := a :: c.client
        yielded := c.yielded ++ c.table.serials [a] }
  | lend (c : Custody α) (as : List α) (h : ∀ a ∈ as, a ∈ c.client ∨ a ∈ c.others) :
      Move c { c with lent := c.lent ++ c.table.serials as }
  | clientClose (c : Custody α) (a : α) (h : a ∈ c.client) :
      Move c { c with
        table := c.table.close a
        client := c.client.erase a
        clientClosed := c.clientClosed ++ c.table.serials [a] }
  | otherOpen (c : Custody α) (a : α) (hfresh : c.table.slots a = none) :
      Move c { c with table := c.table.open1 a, others := a :: c.others }
  | otherClose (c : Custody α) (a : α) (h : a ∈ c.others) :
      Move c { c with
        table := c.table.close a
        others := c.others.erase a
        clientClosed := c.clientClosed ++ c.table.serials [a] }

/-- Moves on handles that are not in front. -/
theorem moves_release {c : Custody α} {as rest : List α} (h : c.held.Perm (as ++ rest)) :
    Relation.ReflTransGen Move c { c with table := c.table.closeAll as, held := rest } :=
  .tail (.single (.arrange c (as ++ rest) h)) (.release { c with held := as ++ rest } as rest rfl)

theorem moves_discard {c : Custody α} {as rest : List α} (h : c.held.Perm (as ++ rest)) :
    Relation.ReflTransGen Move c { c with
      table := c.table.closeAll as
      held := rest
      discarded := c.discarded ++ c.table.serials as } :=
  .tail (.single (.arrange c (as ++ rest) h)) (.discard { c with held := as ++ rest } as rest rfl)

theorem moves_yield {c : Custody α} {a : α} {rest : List α} (h : c.held.Perm (a :: rest)) :
    Relation.ReflTransGen Move c { c with
      held := rest
      client := a :: c.client
      yielded := c.yielded ++ c.table.serials [a] } :=
  .tail (.single (.arrange c (a :: rest) h)) (.yield { c with held := a :: rest } a rest rfl)

/-- The client takes handles over one after the other. -/
theorem moves_yieldAll (as : List α) {c : Custody α} {rest : List α}
    (h : c.held.Perm (as ++ rest)) : Relation.ReflTransGen Move c { c with
      held := rest
      client := as.reverse ++ c.client
      yielded := c.yielded ++ c.table.serials as } := by
  induction as generalizing c with
  | nil =>
      have hnone := Relation.ReflTransGen.single (Move.arrange c rest h)
      simpa [Table.serials] using hnone
  | cons a as ih =>
      have hone := moves_yield h
      have hrest := ih (c := { c with
        held := as ++ rest
        client := a :: c.client
        yielded := c.yielded ++ c.table.serials [a] }) (.refl _)
      have hserials : c.table.serials (a :: as) = c.table.serials [a] ++ c.table.serials as :=
        serials_append c.table [a] as
      rw [hserials, List.reverse_cons, List.append_assoc, ← List.append_assoc c.yielded]
      exact hone.trans hrest

/-! ## Frames -/

/-- The custody of a component that holds `extra` as well. -/
def frame (c : Custody α) (extra : List α) : Custody α := { c with held := c.held ++ extra }

/-- A component makes every move of a part of it. -/
theorem Move.frame {c c' : Custody α} (h : Move c c') (extra : List α) :
    Move (c.frame extra) (c'.frame extra) := by
  cases h with
  | acquire as hnodup hfresh =>
      have hmove := Move.acquire (c.frame extra) as hnodup hfresh
      simpa only [Custody.frame, List.append_assoc] using hmove
  | arrange held h => exact .arrange (c.frame extra) (held ++ extra) (h.append_right extra)
  | release as rest h =>
      apply Move.release (c.frame extra) as (rest ++ extra)
      rw [Custody.frame, h, List.append_assoc]
  | discard as rest h =>
      apply Move.discard (c.frame extra) as (rest ++ extra)
      rw [Custody.frame, h, List.append_assoc]
  | yield a rest h =>
      apply Move.yield (c.frame extra) a (rest ++ extra)
      rw [Custody.frame, h, List.cons_append]
  | lend as h => exact .lend (c.frame extra) as h
  | clientClose a h => exact .clientClose (c.frame extra) a h
  | otherOpen a hfresh => exact .otherOpen (c.frame extra) a hfresh
  | otherClose a h => exact .otherClose (c.frame extra) a h

theorem moves_frame {c c' : Custody α} (h : Relation.ReflTransGen Move c c') (extra : List α) :
    Relation.ReflTransGen Move (c.frame extra) (c'.frame extra) := by
  induction h with
  | refl => exact .refl
  | tail _ hmove ih => exact ih.tail (hmove.frame extra)

end Moves

namespace Kept

variable {c : Custody α} {as rest : List α} {a : α}

/-- Every acquired object is behind one number, held by the component or by its client, or
was closed, once. -/
theorem conserved (h : Kept c) {i : Nat} (hi : i ∈ c.acquired) :
    (c.table.serials c.held).count i + (c.table.serials c.client).count i +
      c.table.closed.count i = 1 := by
  have hothers : (c.table.serials c.others).count i = 0 := by
    refine List.count_eq_zero.mpr fun hmem => ?_
    obtain ⟨a, ha, hai⟩ := mem_serials.mp hmem
    exact h.others_foreign a ha i hai hi
  have hcount := h.accounts.ledger.count_eq i
  rw [List.count_eq_one_of_mem List.nodup_range (List.mem_range.mpr (h.acquired_lt i hi)),
    List.count_append, owners, serials_append, serials_append, List.count_append,
    List.count_append, hothers] at hcount
  omega

theorem arrange (h : Kept c) {held : List α} (hp : c.held.Perm held) :
    Kept { c with held := held } where
  accounts := h.accounts.perm (hp.append_right _)
  acquired_lt := h.acquired_lt
  held_acquired := fun a ha => h.held_acquired a (hp.mem_iff.mpr ha)
  client_acquired := h.client_acquired
  others_foreign := h.others_foreign
  yielded_once := h.yielded_once
  yielded_acquired := h.yielded_acquired
  held_unyielded := fun a ha => h.held_unyielded a (hp.mem_iff.mpr ha)
  discarded_closed := h.discarded_closed
  lent_kept := fun i hi =>
    ⟨(h.lent_kept i hi).1, (h.lent_kept i hi).2.1,
      fun a ha => (h.lent_kept i hi).2.2 a (hp.mem_iff.mpr ha)⟩

variable [DecidableEq α]

theorem release (h : Kept c) (hheld : c.held = as ++ rest) :
    Kept { c with table := c.table.closeAll as, held := rest } := by
  have hacc : c.table.Accounts (as ++ (rest ++ (c.client ++ c.others))) := by
    have := h.accounts
    rwa [owners, hheld, List.append_assoc] at this
  obtain ⟨has, -, hdisjoint⟩ := List.nodup_append'.mp hacc.nodup
  have hsame : ∀ b ∈ rest ++ (c.client ++ c.others),
      (c.table.closeAll as).slots b = c.table.slots b :=
    fun b hb => slots_closeAll_of_notMem fun hmem => hdisjoint hmem hb
  have hrest : ∀ b ∈ rest, b ∈ c.held := fun b hb => hheld ▸ List.mem_append_right _ hb
  have hsameRest : ∀ b ∈ rest, (c.table.closeAll as).slots b = c.table.slots b :=
    fun b hb => hsame b (List.mem_append_left _ hb)
  constructor
  · exact hacc.closeAll
  · simpa using h.acquired_lt
  · exact fun b hb i hi => h.held_acquired b (hrest b hb) i (hsameRest b hb ▸ hi)
  · intro b hb i hi
    rw [hsame b (by simp [hb])] at hi
    exact h.client_acquired b hb i hi
  · intro b hb i hi
    rw [hsame b (by simp [hb])] at hi
    exact h.others_foreign b hb i hi
  · exact h.yielded_once
  · exact h.yielded_acquired
  · exact fun b hb i hi => h.held_unyielded b (hrest b hb) i (hsameRest b hb ▸ hi)
  · intro i hi
    obtain ⟨hacq, hclosed, hnot⟩ := h.discarded_closed i hi
    rw [closed_closeAll has]
    exact ⟨hacq, List.mem_append_left _ hclosed, hnot⟩
  · intro i hi
    obtain ⟨hlt, hclosed, hheld'⟩ := h.lent_kept i hi
    refine ⟨by simpa using hlt, fun hmem => ?_, fun b hb => ?_⟩
    · rw [closed_closeAll has] at hmem
      rcases List.mem_append.mp hmem with hmem | hmem
      · exact hclosed hmem
      · obtain ⟨b, hb, hbi⟩ := mem_serials.mp hmem
        exact absurd hbi (hheld' b (hheld ▸ List.mem_append_left _ hb))
    · rw [hsameRest b hb]
      exact hheld' b (hrest b hb)

theorem discard (h : Kept c) (hheld : c.held = as ++ rest) :
    Kept { c with
      table := c.table.closeAll as
      held := rest
      discarded := c.discarded ++ c.table.serials as } := by
  have has : as.Nodup := by
    have := h.accounts.nodup
    rw [owners, hheld, List.append_assoc] at this
    exact this.of_append_left
  refine { h.release hheld with discarded_closed := fun i hi => ?_ }
  rcases List.mem_append.mp hi with hi | hi
  · exact (h.release hheld).discarded_closed i hi
  · obtain ⟨b, hb, hbi⟩ := mem_serials.mp hi
    have hmem : b ∈ c.held := hheld ▸ List.mem_append_left _ hb
    refine ⟨h.held_acquired b hmem i hbi, ?_, h.held_unyielded b hmem i hbi⟩
    rw [closed_closeAll has]
    exact List.mem_append_right _ hi

theorem acquire (h : Kept c) (hnodup : as.Nodup) (hfresh : ∀ a ∈ as, c.table.slots a = none) :
    Kept { c with
      table := c.table.openAll as
      held := as ++ c.held
      acquired := c.acquired ++ (c.table.openAll as).serials as } := by
  have hacc := h.accounts.openAll hnodup hfresh
  have hsame : ∀ b ∈ c.owners, (c.table.openAll as).slots b = c.table.slots b := by
    intro b hb
    refine slots_openAll_of_notMem fun hmem => ?_
    obtain ⟨i, hi⟩ := (h.accounts.open_iff b).mp hb
    rw [hfresh b hmem] at hi
    cases hi
  have hnew : ∀ i ∈ (c.table.openAll as).serials as,
      c.table.next ≤ i ∧ i < c.table.next + as.length := by
    intro i hi
    rw [serials_openAll hnodup] at hi
    exact List.mem_range'_1.mp hi
  have hheld : ∀ b ∈ c.held, (c.table.openAll as).slots b = c.table.slots b :=
    fun b hb => hsame b (List.mem_append_left _ hb)
  have hclient : ∀ b ∈ c.client, (c.table.openAll as).slots b = c.table.slots b :=
    fun b hb => hsame b (by simp [owners, hb])
  have hothers : ∀ b ∈ c.others, (c.table.openAll as).slots b = c.table.slots b :=
    fun b hb => hsame b (by simp [owners, hb])
  constructor
  · rw [owners, List.append_assoc]
    exact hacc
  · intro i hi
    rw [next_openAll]
    rcases List.mem_append.mp hi with hi | hi
    · exact (h.acquired_lt i hi).trans_le (Nat.le_add_right ..)
    · exact (hnew i hi).2
  · intro b hb i hi
    rcases List.mem_append.mp hb with hb | hb
    · exact List.mem_append_right _ (mem_serials.mpr ⟨b, hb, hi⟩)
    · exact List.mem_append_left _ (h.held_acquired b hb i (hheld b hb ▸ hi))
  · exact fun b hb i hi =>
      List.mem_append_left _ (h.client_acquired b hb i (hclient b hb ▸ hi))
  · intro b hb i hi hmem
    rw [hothers b hb] at hi
    rcases List.mem_append.mp hmem with hmem | hmem
    · exact h.others_foreign b hb i hi hmem
    · have := h.accounts.lt_next hi
      have := (hnew i hmem).1
      omega
  · exact h.yielded_once
  · exact fun i hi => List.mem_append_left _ (h.yielded_acquired i hi)
  · intro b hb i hi hmem
    rcases List.mem_append.mp hb with hb | hb
    · have := (hnew i (mem_serials.mpr ⟨b, hb, hi⟩)).1
      have := h.acquired_lt i (h.yielded_acquired i hmem)
      omega
    · exact h.held_unyielded b hb i (hheld b hb ▸ hi) hmem
  · intro i hi
    obtain ⟨hacq, hclosed, hnot⟩ := h.discarded_closed i hi
    rw [closed_openAll]
    exact ⟨List.mem_append_left _ hacq, hclosed, hnot⟩
  · intro i hi
    obtain ⟨hlt, hclosed, hheld'⟩ := h.lent_kept i hi
    rw [next_openAll, closed_openAll]
    refine ⟨by omega, hclosed, fun b hb hbi => ?_⟩
    rcases List.mem_append.mp hb with hb | hb
    · have := (hnew i (mem_serials.mpr ⟨b, hb, hbi⟩)).1
      omega
    · exact hheld' b hb (hheld b hb ▸ hbi)

theorem yield (h : Kept c) (hheld : c.held = a :: rest) :
    Kept { c with
      held := rest
      client := a :: c.client
      yielded := c.yielded ++ c.table.serials [a] } := by
  have hmem : a ∈ c.held := hheld ▸ List.mem_cons_self
  have hrest : ∀ b ∈ rest, b ∈ c.held := fun b hb => hheld ▸ List.mem_cons_of_mem _ hb
  have howners : c.owners.Perm (rest ++ (a :: c.client ++ c.others)) := by
    rw [owners, hheld]
    exact List.perm_middle.symm
  obtain ⟨i, hi⟩ := (h.accounts.open_iff a).mp (List.mem_append_left _ hmem)
  have hserial : c.table.serials [a] = [i] := List.filterMap_cons_some hi
  have hnot : a ∉ rest := by
    have := h.accounts.nodup
    rw [owners, hheld, List.cons_append, List.nodup_cons] at this
    exact fun hmem => this.1 (List.mem_append_left _ hmem)
  rw [hserial]
  constructor
  · exact h.accounts.perm howners
  · exact h.acquired_lt
  · exact fun b hb => h.held_acquired b (hrest b hb)
  · intro b hb
    rcases List.mem_cons.mp hb with rfl | hb
    · exact h.held_acquired b hmem
    · exact h.client_acquired b hb
  · exact h.others_foreign
  · refine List.nodup_append'.mpr ⟨h.yielded_once, List.nodup_singleton i, fun j hj hji => ?_⟩
    obtain rfl := List.mem_singleton.mp hji
    exact h.held_unyielded a hmem j hi hj
  · intro j hj
    rcases List.mem_append.mp hj with hj | hj
    · exact h.yielded_acquired j hj
    · obtain rfl := List.mem_singleton.mp hj
      exact h.held_acquired a hmem j hi
  · intro b hb j hbj hj
    rcases List.mem_append.mp hj with hj | hj
    · exact h.held_unyielded b (hrest b hb) j hbj hj
    · obtain rfl := List.mem_singleton.mp hj
      exact hnot (h.accounts.inj hbj hi ▸ hb)
  · intro j hj
    obtain ⟨hacq, hclosed, hnotj⟩ := h.discarded_closed j hj
    refine ⟨hacq, hclosed, fun hmemj => ?_⟩
    rcases List.mem_append.mp hmemj with hmemj | hmemj
    · exact hnotj hmemj
    · obtain rfl := List.mem_singleton.mp hmemj
      exact h.accounts.not_closed hi hclosed
  · exact fun j hj => ⟨(h.lent_kept j hj).1, (h.lent_kept j hj).2.1,
      fun b hb => (h.lent_kept j hj).2.2 b (hrest b hb)⟩

theorem lend (h : Kept c) (has : ∀ a ∈ as, a ∈ c.client ∨ a ∈ c.others) :
    Kept { c with lent := c.lent ++ c.table.serials as } := by
  refine { h with lent_kept := fun i hi => ?_ }
  rcases List.mem_append.mp hi with hi | hi
  · exact h.lent_kept i hi
  · obtain ⟨a, ha, hai⟩ := mem_serials.mp hi
    refine ⟨h.accounts.lt_next hai, fun hmem => absurd hmem (h.accounts.not_closed hai),
      fun b hb hbi => ?_⟩
    obtain rfl := h.accounts.inj hbi hai
    have hdisjoint := List.disjoint_of_nodup_append h.accounts.nodup
    exact hdisjoint hb (List.mem_append.mpr (has b ha))

/-- The client's side closes a handle of its own. -/
theorem clientSideClose (h : Kept c) {client others : List α}
    (hp : (c.client ++ c.others).Perm (a :: (client ++ others)))
    (hclient : ∀ b ∈ client, b ∈ c.client) (hothers : ∀ b ∈ others, b ∈ c.others) :
    Kept { c with
      table := c.table.close a
      client := client
      others := others
      clientClosed := c.clientClosed ++ c.table.serials [a] } := by
  have hacc : c.table.Accounts (a :: (c.held ++ (client ++ others))) :=
    h.accounts.perm ((hp.append_left c.held).trans List.perm_middle)
  have hnot := (List.nodup_cons.mp hacc.nodup).1
  have hsame : ∀ b ∈ c.held ++ (client ++ others), (c.table.close a).slots b = c.table.slots b :=
    fun b hb => slots_close_of_ne fun hba => hnot (hba ▸ hb)
  have hheld : ∀ b ∈ c.held, (c.table.close a).slots b = c.table.slots b :=
    fun b hb => hsame b (List.mem_append_left _ hb)
  constructor
  · exact hacc.close
  · exact h.acquired_lt
  · exact fun b hb i hi => h.held_acquired b hb i (hheld b hb ▸ hi)
  · intro b hb i hi
    rw [hsame b (by simp [hb])] at hi
    exact h.client_acquired b (hclient b hb) i hi
  · intro b hb i hi
    rw [hsame b (by simp [hb])] at hi
    exact h.others_foreign b (hothers b hb) i hi
  · exact h.yielded_once
  · exact h.yielded_acquired
  · exact fun b hb i hi => h.held_unyielded b hb i (hheld b hb ▸ hi)
  · intro i hi
    obtain ⟨hacq, hclosed, hnoti⟩ := h.discarded_closed i hi
    rw [closed_close]
    exact ⟨hacq, List.mem_append_left _ hclosed, hnoti⟩
  · intro i hi
    obtain ⟨hlt, hclosed, hheld'⟩ := h.lent_kept i hi
    refine ⟨hlt, fun hmem => ?_, fun b hb => hheld b hb ▸ hheld' b hb⟩
    rw [closed_close] at hmem
    rcases List.mem_append.mp hmem with hmem | hmem
    · exact List.mem_append_left _ (hclosed hmem)
    · exact List.mem_append_right _ hmem

theorem otherOpen (h : Kept c) (hfresh : c.table.slots a = none) :
    Kept { c with table := c.table.open1 a, others := a :: c.others } := by
  have hacc := h.accounts.open1 hfresh
  have hne : ∀ b i, c.table.slots b = some i → b ≠ a := fun b i hb hba => by
    rw [hba, hfresh] at hb
    cases hb
  have hsame : ∀ b ∈ c.owners, (c.table.open1 a).slots b = c.table.slots b := fun b hb => by
    obtain ⟨i, hi⟩ := (h.accounts.open_iff b).mp hb
    exact slots_open1_of_ne (hne b i hi)
  have hheld : ∀ b ∈ c.held, (c.table.open1 a).slots b = c.table.slots b :=
    fun b hb => hsame b (List.mem_append_left _ hb)
  have hclient : ∀ b ∈ c.client, (c.table.open1 a).slots b = c.table.slots b :=
    fun b hb => hsame b (by simp [owners, hb])
  have hothers : ∀ b ∈ c.others, (c.table.open1 a).slots b = c.table.slots b :=
    fun b hb => hsame b (by simp [owners, hb])
  constructor
  · refine hacc.perm ?_
    simp only [owners, ← List.append_assoc]
    exact List.perm_middle.symm
  · exact fun i hi => Nat.lt_succ_of_lt (h.acquired_lt i hi)
  · exact fun b hb i hi => h.held_acquired b hb i (hheld b hb ▸ hi)
  · exact fun b hb i hi => h.client_acquired b hb i (hclient b hb ▸ hi)
  · intro b hb i hi hmem
    rcases List.mem_cons.mp hb with rfl | hb
    · rw [show (c.table.open1 b).slots b = some c.table.next from Function.update_self ..] at hi
      cases hi
      exact absurd (h.acquired_lt _ hmem) (lt_irrefl _)
    · exact h.others_foreign b hb i (hothers b hb ▸ hi) hmem
  · exact h.yielded_once
  · exact h.yielded_acquired
  · exact fun b hb i hi => h.held_unyielded b hb i (hheld b hb ▸ hi)
  · exact h.discarded_closed
  · exact fun i hi => ⟨Nat.lt_succ_of_lt (h.lent_kept i hi).1, (h.lent_kept i hi).2.1,
      fun b hb => hheld b hb ▸ (h.lent_kept i hi).2.2 b hb⟩

/-- One move. -/
theorem move {c' : Custody α} (h : Kept c) (hmove : Move c c') : Kept c' := by
  cases hmove with
  | acquire as hnodup hfresh => exact h.acquire hnodup hfresh
  | arrange held hp => exact h.arrange hp
  | release as rest hheld => exact h.release hheld
  | discard as rest hheld => exact h.discard hheld
  | yield a rest hheld => exact h.yield hheld
  | lend as has => exact h.lend has
  | clientClose a ha =>
      exact h.clientSideClose ((List.perm_cons_erase ha).append_right _)
        (fun _ => List.mem_of_mem_erase) (fun _ hb => hb)
  | otherOpen a hfresh => exact h.otherOpen hfresh
  | otherClose a ha =>
      refine h.clientSideClose (((List.perm_cons_erase ha).append_left _).trans
        List.perm_middle) (fun _ hb => hb) (fun _ => List.mem_of_mem_erase)

/-- A run of moves. -/
theorem moves {c' : Custody α} (h : Kept c) (hmoves : Relation.ReflTransGen Move c c') :
    Kept c' := by
  induction hmoves with
  | refl => exact h
  | tail _ hmove ih => exact ih.move hmove

/-- What the client lent is not yielded from then on. -/
theorem lent_unyielded {c' : Custody α} (h : Kept c) (hmoves : Relation.ReflTransGen Move c c')
    {i : Nat} (hi : i ∈ c.lent) : i ∈ c'.lent ∧ (i ∈ c'.yielded → i ∈ c.yielded) := by
  induction hmoves with
  | refl => exact ⟨hi, id⟩
  | tail hmoves hmove ih =>
      obtain ⟨hlent, hold⟩ := ih
      have hkept := (h.moves hmoves).lent_kept i hlent
      cases hmove with
      | acquire as hnodup hfresh => exact ⟨hlent, hold⟩
      | arrange held hp => exact ⟨hlent, hold⟩
      | release as rest hheld => exact ⟨hlent, hold⟩
      | discard as rest hheld => exact ⟨hlent, hold⟩
      | yield a rest hheld =>
          refine ⟨hlent, fun hmem => ?_⟩
          rcases List.mem_append.mp hmem with hmem | hmem
          · exact hold hmem
          · obtain ⟨b, hb, hbi⟩ := mem_serials.mp hmem
            obtain rfl := List.mem_singleton.mp hb
            exact absurd hbi (hkept.2.2 b (hheld ▸ List.mem_cons_self))
      | lend as has => exact ⟨List.mem_append_left _ hlent, hold⟩
      | clientClose a ha => exact ⟨hlent, hold⟩
      | otherOpen a hfresh => exact ⟨hlent, hold⟩
      | otherClose a ha => exact ⟨hlent, hold⟩

end Kept

end Custody

end HandleTable
