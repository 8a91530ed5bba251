import UnixAncillary.Format
import UnixAncillary.Received

/-!
# Truncated control data

Apple keeps the full `cmsg_len` of a message while copying only what fits. Here a
layout of any messages is cut at any byte, and the parser yields exactly what
arrived: `parse_take` gives the parsed messages, `truncated_receive` also splits
them into whole messages and at most one cut message and states which descriptors
become owned.
-/

namespace UnixAncillary

open ByteCodec

variable {ℓ : AlignedLayout}

/-- The messages with the positions of their headers, the first one at `start`. -/
def place (start : Nat) : List (KernelMessage ℓ) → List (Nat × KernelMessage ℓ)
  | [] => []
  | m :: rest => (start, m) :: place (start + m.bytes.length) rest

/-- What arrives of a message at a position when the bytes are cut at `c`: nothing
unless its whole header does, and then the payload bytes before the cut. -/
def arrived (c : Nat) (p : Nat × KernelMessage ℓ) : Option RawMessage :=
  if p.1 + ℓ.headerLen ≤ c then some (p.2.cut (c - (p.1 + ℓ.headerLen))) else none

/-- The message lies before the cut with its whole header and payload. -/
def Whole (c : Nat) (p : Nat × KernelMessage ℓ) : Prop :=
  p.1 + ℓ.headerLen + p.2.payload.length ≤ c

theorem le_of_mem_place {start : Nat} {msgs : List (KernelMessage ℓ)}
    {p : Nat × KernelMessage ℓ} (hp : p ∈ place start msgs) : start ≤ p.1 := by
  induction msgs generalizing start with
  | nil => simp [place] at hp
  | cons m rest ih =>
      rcases List.mem_cons.mp hp with rfl | hp
      · exact le_rfl
      · exact (Nat.le_add_right ..).trans (ih hp)

/-- Nothing arrives of messages that start too late for a header. -/
theorem filterMap_arrived_late {start c : Nat} (msgs : List (KernelMessage ℓ))
    (h : c < start + ℓ.headerLen) : (place start msgs).filterMap (arrived c) = [] := by
  rw [List.filterMap_eq_nil_iff]
  intro p hp
  have := le_of_mem_place hp
  exact if_neg (by omega)

theorem arrived_some {c : Nat} {p : Nat × KernelMessage ℓ} (h : p.1 + ℓ.headerLen ≤ c) :
    arrived c p = some (p.2.cut (c - (p.1 + ℓ.headerLen))) :=
  if_pos h

theorem arrived_none {c : Nat} {p : Nat × KernelMessage ℓ} (h : ¬ p.1 + ℓ.headerLen ≤ c) :
    arrived c p = none :=
  if_neg h

theorem arrived_whole {c : Nat} {p : Nat × KernelMessage ℓ} (h : Whole c p) :
    arrived c p = some p.2.message := by
  rw [Whole] at h
  rw [arrived_some (by omega), p.2.cut_of_le (by omega)]

theorem parse_take_place (start c : Nat) (msgs : List (KernelMessage ℓ)) :
    ℓ.parse ((msgs.flatMap (·.bytes)).take c) =
      (place start msgs).filterMap (arrived (start + c)) := by
  induction msgs generalizing start c with
  | nil =>
      have hnil : ¬ ℓ.StartsMessage [] := fun h => absurd ℓ.size_pos (by simpa using h.1)
      simp [place, ℓ.parse_nil hnil]
  | cons m rest ih =>
      have hle := m.header_add_payload_le
      have hpos := ℓ.headerLen_pos
      rw [List.flatMap_cons, place]
      by_cases hheader : c < ℓ.headerLen
      · rw [m.parse_take_header _ hheader]
        exact (filterMap_arrived_late (m :: rest) (by omega)).symm
      by_cases hpayload : c < ℓ.headerLen + m.payload.length
      · rw [m.parse_take_payload _ (by omega) hpayload,
          List.filterMap_cons_some (b := m.cut (c - ℓ.headerLen)),
          filterMap_arrived_late rest (by omega)]
        rw [arrived, if_pos (by simp only; omega)]
        congr 2
        simp only
        omega
      have hwhole : Whole (start + c) (start, m) := by
        rw [Whole]
        simp only
        omega
      rw [m.parse_take_message _ (by omega), List.filterMap_cons_some (arrived_whole hwhole)]
      congr 1
      by_cases hc : m.bytes.length ≤ c
      · rw [ih (start + m.bytes.length)]
        congr 2
        omega
      · rw [Nat.sub_eq_zero_of_le (by omega), ih (start + m.bytes.length),
          filterMap_arrived_late rest (by omega), filterMap_arrived_late rest (by omega)]

/-- The parser yields what arrived, for every cut of every layout. -/
theorem parse_take (msgs : List (KernelMessage ℓ)) (c : Nat) :
    ℓ.parse ((msgs.flatMap (·.bytes)).take c) =
      (place 0 msgs).filterMap (arrived c) := by
  have h := parse_take_place 0 c msgs
  rwa [Nat.zero_add] at h

/-- What arrived is the whole messages before the cut and at most one more. -/
theorem filterMap_arrived_split (start c : Nat) (msgs : List (KernelMessage ℓ)) :
    ∃ k, (∀ p ∈ (place start msgs).take k, Whole c p) ∧
      (∀ p ∈ (place start msgs).drop k, ¬ Whole c p) ∧
      (place start msgs).filterMap (arrived c) =
        ((place start msgs).take k).map (·.2.message) ++
          (((place start msgs).drop k).head?.bind (arrived c)).toList := by
  induction msgs generalizing start with
  | nil => exact ⟨0, by simp [place]⟩
  | cons m rest ih =>
      have hle := m.header_add_payload_le
      have hpos := ℓ.headerLen_pos
      rw [place]
      by_cases hwhole : Whole c (start, m)
      · obtain ⟨k, htake, hdrop, heq⟩ := ih (start + m.bytes.length)
        refine ⟨k + 1, ?_, ?_, ?_⟩
        · rw [List.take_succ_cons]
          exact List.forall_mem_cons.mpr ⟨hwhole, htake⟩
        · rwa [List.drop_succ_cons]
        · rw [List.filterMap_cons_some (arrived_whole hwhole), heq, List.take_succ_cons,
            List.drop_succ_cons, List.map_cons, List.cons_append]
      · have hlate : c < start + m.bytes.length + ℓ.headerLen := by
          rw [Whole] at hwhole
          simp only at hwhole
          omega
        refine ⟨0, by simp, ?_, ?_⟩
        · rw [List.drop_zero]
          refine List.forall_mem_cons.mpr ⟨hwhole, fun p hp hw => ?_⟩
          have := le_of_mem_place hp
          rw [Whole] at hw
          omega
        · rw [List.take_zero, List.map_nil, List.nil_append, List.drop_zero, List.head?_cons,
            Option.bind_some, List.filterMap_cons, filterMap_arrived_late rest hlate]
          cases arrived c (start, m) <;> rfl

/-! ## Owned descriptors -/

section Owned

variable (t : Target)

/-- The numbers in a message whose four bytes all lie before `c`. -/
def numbersBefore (c : Nat) (p : Nat × KernelMessage t.layout) : List RawFd :=
  ((List.range (p.2.payload.length / 4)).filter fun i =>
      p.1 + t.layout.headerLen + 4 * i + 4 ≤ c).map fun i =>
    decodeI32 t.layout.bigEndian (readAt p.2.payload (4 * i) 4)

/-- The non-negative ones among them. -/
def descriptorsBefore (c : Nat) (p : Nat × KernelMessage t.layout) : List RawFd :=
  (numbersBefore t c p).filter (0 ≤ ·)

theorem filter_range_eq_take (n k : Nat) {p : Nat → Bool} (hp : ∀ i, p i = true ↔ i < k) :
    (List.range n).filter p = (List.range n).take k := by
  induction n with
  | zero => simp
  | succ n ih =>
      rw [List.range_succ, List.filter_append, ih, List.take_append, List.length_range]
      congr 1
      by_cases hn : n < k
      · rw [List.filter_singleton, (hp n).mpr hn, cond_true,
          List.take_of_length_le (by rw [List.length_singleton]; omega)]
      · have hfalse : p n = false := by
          rw [Bool.eq_false_iff]
          exact fun h => hn ((hp n).mp h)
        rw [List.filter_singleton, hfalse, cond_false, Nat.sub_eq_zero_of_le (by omega),
          List.take_zero]

theorem rights_cut (c : Nat) (p : Nat × KernelMessage t.layout) :
    (p.2.cut (c - (p.1 + t.layout.headerLen))).rights t.layout.toLayout =
      descriptorsBefore t c p := by
  have hslots : ((List.range (p.2.payload.length / 4)).filter fun i =>
      p.1 + t.layout.headerLen + 4 * i + 4 ≤ c) =
      (List.range (p.2.payload.length / 4)).take ((c - (p.1 + t.layout.headerLen)) / 4) := by
    apply filter_range_eq_take
    intro i
    rw [decide_eq_true_eq]
    omega
  rw [RawMessage.rights, descriptorsBefore, numbersBefore, hslots, KernelMessage.cut, chunks4_take,
    chunks4_eq_map_readAt, ← List.map_take, List.map_map]
  rfl

/-- A walk over what arrived collects the descriptors before the cut. -/
theorem flatMap_filterMap_arrived (c : Nat) (ps : List (Nat × KernelMessage t.layout))
    (keep : RawMessage → Bool) (hkeep : ∀ (m : KernelMessage t.layout) n,
      keep (m.cut n) = keep m.message) :
    (ps.filterMap (arrived c)).flatMap (fun m =>
        if keep m then m.rights t.layout.toLayout else []) =
      ps.flatMap fun p => if keep p.2.message then descriptorsBefore t c p else [] := by
  induction ps with
  | nil => rfl
  | cons p ps ih =>
      rw [List.flatMap_cons, ← ih]
      by_cases hc : p.1 + t.layout.headerLen ≤ c
      · rw [List.filterMap_cons_some (arrived_some hc), List.flatMap_cons, hkeep, rights_cut]
      · have hnone : descriptorsBefore t c p = [] := by
          rw [← rights_cut, Nat.sub_eq_zero_of_le (by omega)]
          rfl
        rw [List.filterMap_cons_none (arrived_none hc), hnone, ite_self, List.nil_append]

/-- A truncated receive yields exactly what arrived: the messages before the cut unchanged,
then at most the one whose payload is cut, and of the descriptors those whose four bytes
all lie before the cut. -/
theorem truncated_receive (msgs : List (KernelMessage t.layout)) (c : Nat)
    (messages : List ReceivedMessage) (w : World) :
    let placed := place 0 msgs
    let bytes := (msgs.flatMap (·.bytes)).take c
    let owned := placed.flatMap fun p =>
      if p.2.message.isRights t then descriptorsBefore t c p else []
    let closed := w.close (placed.flatMap fun p =>
      if p.2.message.isPidfd t then descriptorsBefore t c p else [])
    (∃ k, (∀ p ∈ placed.take k, Whole c p) ∧ (∀ p ∈ placed.drop k, ¬ Whole c p) ∧
      t.layout.parse bytes = (placed.take k).map (·.2.message) ++
        ((placed.drop k).head?.bind (arrived c)).toList) ∧
    (takeFds t bytes w) = (owned, closed) ∧
    (takeReceivedInto t bytes messages w).1.flatMap ReceivedMessage.fds =
      messages.flatMap ReceivedMessage.fds ++ owned ∧
    (takeReceivedInto t bytes messages w).2 = closed := by
  intro placed bytes owned closed
  have hparse : t.layout.parse bytes = placed.filterMap (arrived c) := parse_take msgs c
  have howned : (t.layout.parse bytes).flatMap (·.rightsFds t) = owned := by
    rw [hparse]
    exact flatMap_filterMap_arrived t c placed (·.isRights t) fun _ _ => rfl
  have hclosed : (t.layout.parse bytes).flatMap (·.pidfds t) = placed.flatMap fun p =>
      if p.2.message.isPidfd t then descriptorsBefore t c p else [] := by
    rw [hparse]
    exact flatMap_filterMap_arrived t c placed (·.isPidfd t) fun _ _ => rfl
  refine ⟨?_, ?_, ?_, ?_⟩
  · obtain ⟨k, htake, hdrop, heq⟩ := filterMap_arrived_split 0 c msgs
    exact ⟨k, htake, hdrop, hparse.trans heq⟩
  · rw [takeFds_eq, howned, hclosed]
  · rw [takeReceivedInto_eq, List.flatMap_append, List.flatMap_assoc]
    simp only [RawMessage.fds_received, howned]
  · rw [takeReceivedInto_eq, hclosed]

end Owned

end UnixAncillary
