import Mathlib.Data.List.Flatten
import Mathlib.Data.List.Infix

/-!
# Streams with attachments

A message is a nonempty list of items with attachments that travel with its first item.
`marked` lays a message out item by item, so that cutting a stream of messages anywhere
says which attachments lie on which side.
-/

namespace Marked

variable {α β : Type*}

/-- The items of a message, the first one with the attachments. -/
def marked (attached : List β) : List α → List (α × List β)
  | [] => []
  | item :: items => (item, attached) :: items.map fun item => (item, [])

/-- The items of a stretch of the stream. -/
def items (stream : List (α × List β)) : List α := stream.map Prod.fst

/-- The attachments of a stretch of the stream, in order. -/
def attachments (stream : List (α × List β)) : List β := stream.flatMap Prod.snd

@[simp] theorem items_append (s s' : List (α × List β)) : items (s ++ s') = items s ++ items s' :=
  List.map_append

@[simp] theorem attachments_append (s s' : List (α × List β)) :
    attachments (s ++ s') = attachments s ++ attachments s' :=
  List.flatMap_append

theorem items_flatMap {γ : Type*} (f : γ → List (α × List β)) (cs : List γ) :
    items (cs.flatMap f) = cs.flatMap fun c => items (f c) :=
  List.map_flatMap ..

theorem attachments_flatMap {γ : Type*} (f : γ → List (α × List β)) (cs : List γ) :
    attachments (cs.flatMap f) = cs.flatMap fun c => attachments (f c) :=
  List.flatMap_assoc ..

theorem prefix_items {s s' : List (α × List β)} (h : s <+: s') : items s <+: items s' :=
  h.map _

theorem prefix_attachments {s s' : List (α × List β)} (h : s <+: s') :
    attachments s <+: attachments s' := by
  obtain ⟨rest, rfl⟩ := h
  rw [attachments_append]
  exact List.prefix_append ..

@[simp] theorem length_marked (attached : List β) (is : List α) :
    (marked attached is).length = is.length := by
  cases is <;> simp [marked]

@[simp] theorem items_marked (attached : List β) (is : List α) :
    items (marked attached is) = is := by
  cases is <;> simp [marked, items, Function.comp_def]

theorem attachments_plain (is : List α) :
    attachments (is.map fun item => (item, ([] : List β))) = [] := by
  simp [attachments]

theorem attachments_marked {attached : List β} {is : List α} (h : is ≠ []) :
    attachments (marked attached is) = attached := by
  obtain ⟨item, rest, rfl⟩ := List.exists_cons_of_ne_nil h
  have hrest := attachments_plain (β := β) rest
  rw [attachments] at hrest
  rw [attachments, marked, List.flatMap_cons, hrest, List.append_nil]

theorem marked_nil_attached (is : List α) :
    marked ([] : List β) is = is.map fun item => (item, []) := by
  cases is <;> rfl

/-- A cut leaves the attachments with the first part. -/
theorem take_marked (attached : List β) (is : List α) (n : Nat) :
    (marked attached is).take n = marked attached (is.take n) := by
  cases is with
  | nil => simp [marked]
  | cons item rest =>
      cases n with
      | zero => simp [marked]
      | succ n => simp [marked, List.map_take]

/-- The part behind a cut has none. -/
theorem drop_marked (attached : List β) (is : List α) {n : Nat} (h : 0 < n) :
    (marked attached is).drop n = marked [] (is.drop n) := by
  obtain ⟨n, rfl⟩ := Nat.exists_eq_succ_of_ne_zero h.ne'
  rw [marked_nil_attached]
  cases is with
  | nil => simp [marked]
  | cons item rest => simp [marked, List.map_drop]

/-- Every attachment of a stretch of a message is one of the message's. -/
theorem mem_marked {attached : List β} {is : List α} {p : α × List β}
    (h : p ∈ marked attached is) : p.2 = attached ∨ p.2 = [] := by
  cases is with
  | nil => cases h
  | cons item rest =>
      rcases List.mem_cons.mp h with rfl | h
      · exact .inl rfl
      · obtain ⟨_, -, rfl⟩ := List.mem_map.mp h
        exact .inr rfl

/-- A stretch with at most one carrier has the attachments of at most one message. -/
theorem length_attachments_le {stream : List (α × List β)} {n : Nat}
    (hone : (stream.filter fun p => !p.2.isEmpty).length ≤ 1) (hn : ∀ p ∈ stream, p.2.length ≤ n) :
    (attachments stream).length ≤ n := by
  induction stream with
  | nil => exact Nat.zero_le _
  | cons p rest ih =>
      obtain ⟨hp, hrest⟩ := List.forall_mem_cons.mp hn
      rw [attachments, List.flatMap_cons, List.length_append]
      cases hempty : p.2.isEmpty with
      | true =>
          rw [List.filter_cons_of_neg (by simp [hempty])] at hone
          rw [List.isEmpty_iff.mp hempty, List.length_nil, Nat.zero_add]
          exact ih hone hrest
      | false =>
          rw [List.filter_cons_of_pos (by simp [hempty]), List.length_cons] at hone
          have hnone : rest.filter (fun p => !p.2.isEmpty) = [] :=
            List.length_eq_zero_iff.mp (by omega)
          have hall : rest.flatMap Prod.snd = [] := by
            rw [List.flatMap_eq_nil_iff]
            intro q hq
            simpa using List.filter_eq_nil_iff.mp hnone q hq
          rw [hall, List.length_nil, Nat.add_zero]
          exact hp

end Marked
