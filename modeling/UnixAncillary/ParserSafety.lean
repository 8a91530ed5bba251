import UnixAncillary.Received

/-!
# The parser on arbitrary bytes

Nothing is assumed of the bytes: `cmsg_len` may be zero, shorter than a header,
beyond the buffer or close to the largest value of its type. The loop ends without
a slice out of range, and what it visits lies in the buffer in disjoint,
increasing ranges, so no byte belongs to two descriptors.
-/

namespace UnixAncillary

open ByteCodec

/-- A visit reads its own header and the payload right behind it, inside `bytes`,
up to the end that `cmsg_len` gives or to the end of the bytes. -/
structure Visit (ℓ : Layout) (bytes : Bytes) (position : Nat) (m : RawMessage) : Prop where
  in_bounds : position + ℓ.headerLen + m.data.length ≤ bytes.length
  data_eq : m.data = readAt bytes (position + ℓ.headerLen) m.data.length
  length_eq : m.data.length =
    min (ℓ.readHeader (bytes.drop position)).cmsgLen (bytes.length - position) - ℓ.headerLen
  level_eq : m.level = (ℓ.readHeader (bytes.drop position)).cmsgLevel
  kind_eq : m.kind = (ℓ.readHeader (bytes.drop position)).cmsgType

/-- The positions of the complete descriptor slots in a visited payload. -/
def descriptorSlots (ℓ : Layout) (visit : Nat × RawMessage) : List Nat :=
  (List.range (visit.2.data.length / 4)).map fun i => visit.1 + ℓ.headerLen + 4 * i

section

variable (ℓ : Layout)

/-- A visit in the rest of a buffer is a visit in the buffer. -/
theorem Visit.of_drop {ℓ : Layout} {bytes : Bytes} {n position : Nat} {m : RawMessage}
    (hn : n ≤ bytes.length) (h : Visit ℓ (bytes.drop n) position m) :
    Visit ℓ bytes (n + position) m where
  in_bounds := by
    have := h.in_bounds
    rw [List.length_drop] at this
    omega
  data_eq := by
    have hdata := h.data_eq
    rw [readAt, List.drop_drop] at hdata
    rw [readAt, Nat.add_assoc]
    exact hdata
  length_eq := by rw [h.length_eq, List.drop_drop, List.length_drop, Nat.sub_sub]
  level_eq := by rw [h.level_eq, List.drop_drop]
  kind_eq := by rw [h.kind_eq, List.drop_drop]

theorem visit_firstMessage {bytes : Bytes} (h : ℓ.StartsMessage bytes) :
    Visit ℓ bytes 0 (ℓ.firstMessage bytes) where
  in_bounds := by
    rw [Nat.zero_add]
    exact h.headerLen_add_le
  data_eq := by
    rw [ℓ.length_firstMessage, Nat.zero_add]
    rfl
  length_eq := ℓ.length_firstMessage bytes
  level_eq := rfl
  kind_eq := rfl

/-- Positions are counted from where the slice starts. -/
theorem parseFrom_offset (offset : Nat) (bytes : Bytes) :
    ℓ.parseFrom offset bytes =
      (ℓ.parseFrom 0 bytes).map fun v => (offset + v.1, v.2) := by
  have hgen : ∀ start, ℓ.parseFrom (offset + start) bytes =
      (ℓ.parseFrom start bytes).map fun v => (offset + v.1, v.2) := by
    induction bytes using ℓ.messageInduction with
    | stop bytes h =>
        intro start
        rw [ℓ.parseFrom_nil _ h, ℓ.parseFrom_nil _ h, List.map_nil]
    | step bytes h ih =>
        intro start
        rw [ℓ.parseFrom_cons _ h, ℓ.parseFrom_cons _ h, List.map_cons, Nat.add_assoc, ih]
  exact hgen 0

theorem length_parseFrom_mul_le (offset : Nat) (bytes : Bytes) :
    (ℓ.parseFrom offset bytes).length * ℓ.headerLen ≤ bytes.length := by
  induction bytes using ℓ.messageInduction generalizing offset with
  | stop bytes h => simp [ℓ.parseFrom_nil _ h]
  | step bytes h ih =>
      have hrest := ih (offset + ℓ.advance bytes)
      have hlt := h.length_rest
      rw [ℓ.parseFrom_cons _ h, List.length_cons, Nat.add_one_mul]
      omega

theorem visit_of_mem {bytes : Bytes} {v : Nat × RawMessage} (hv : v ∈ ℓ.parseFrom 0 bytes) :
    Visit ℓ bytes v.1 v.2 := by
  induction bytes using ℓ.messageInduction generalizing v with
  | stop bytes h => simp [ℓ.parseFrom_nil _ h] at hv
  | step bytes h ih =>
      rw [ℓ.parseFrom_cons _ h, Nat.zero_add, parseFrom_offset] at hv
      rcases List.mem_cons.mp hv with rfl | hv
      · exact visit_firstMessage ℓ h
      · obtain ⟨u, hu, rfl⟩ := List.mem_map.mp hv
        exact (ih hu).of_drop (ℓ.advance_le bytes)

/-- Every visit ends before the next one begins. -/
theorem pairwise_parseFrom (bytes : Bytes) :
    (ℓ.parseFrom 0 bytes).Pairwise fun v w =>
      v.1 + ℓ.headerLen + v.2.data.length ≤ w.1 := by
  induction bytes using ℓ.messageInduction with
  | stop bytes h => simp [ℓ.parseFrom_nil _ h]
  | step bytes h ih =>
      have hadv := h.le_advance
      rw [ℓ.parseFrom_cons _ h, Nat.zero_add, parseFrom_offset]
      refine List.pairwise_cons.mpr ⟨?_, ?_⟩
      · intro w hw
        obtain ⟨w, -, rfl⟩ := List.mem_map.mp hw
        simp only
        omega
      · rw [List.pairwise_map]
        refine ih.imp fun {v w} hvw => ?_
        simp only
        omega

/-- The descriptor slots of all visits are disjoint and increasing. -/
theorem pairwise_descriptorSlots (bytes : Bytes) :
    ((ℓ.parseFrom 0 bytes).flatMap (descriptorSlots ℓ)).Pairwise fun s s' => s + 4 ≤ s' := by
  rw [List.pairwise_flatMap]
  refine ⟨fun v _ => ?_, (pairwise_parseFrom ℓ bytes).imp fun {v w} hvw s hs s' hs' => ?_⟩
  · rw [descriptorSlots, List.pairwise_map]
    exact List.pairwise_lt_range.imp fun {i j} hij => by omega
  · obtain ⟨i, hi, rfl⟩ := List.mem_map.mp hs
    obtain ⟨j, -, rfl⟩ := List.mem_map.mp hs'
    rw [List.mem_range] at hi
    omega

/-- A visited payload is cut into descriptors exactly at its slots. -/
theorem Visit.rights_eq {ℓ : Layout} {bytes : Bytes} {v : Nat × RawMessage}
    (h : Visit ℓ bytes v.1 v.2) :
    v.2.rights ℓ = ((descriptorSlots ℓ v).map fun s =>
      decodeI32 ℓ.bigEndian (readAt bytes s 4)).filter (0 ≤ ·) := by
  have hslots : chunks4 v.2.data = (descriptorSlots ℓ v).map fun s => readAt bytes s 4 := by
    rw [chunks4_eq_map_readAt, descriptorSlots, List.map_map]
    apply List.map_congr_left
    intro i hi
    have hlt := List.mem_range.mp hi
    rw [h.data_eq, readAt_readAt _ (by omega)]
    rfl
  rw [RawMessage.rights, hslots, List.map_map]
  rfl

/-- On arbitrary bytes the loop over `RawMessages` ends without a slice out of range
or an overflow, whatever number of calls beyond the buffer length is allowed. It
visits at most one message per header length of bytes; each visit reads the
in-bounds payload right behind its own header; the header and payload ranges are
disjoint and increasing, and so are the descriptor slots that are read in them. -/
theorem parser_safe (bytes : Bytes) :
    ∃ visits : List (Nat × RawMessage),
      (∀ fuel, bytes.length < fuel →
        RawMessages.drain ℓ fuel ⟨0, bytes⟩ = .ok (some visits)) ∧
      visits.map Prod.snd = ℓ.parse bytes ∧
      visits.length ≤ bytes.length / ℓ.headerLen ∧
      (∀ v ∈ visits, Visit ℓ bytes v.1 v.2 ∧ v.2.rights ℓ =
        ((descriptorSlots ℓ v).map fun s =>
          decodeI32 ℓ.bigEndian (readAt bytes s 4)).filter (0 ≤ ·)) ∧
      visits.Pairwise (fun v w => v.1 + ℓ.headerLen + v.2.data.length ≤ w.1) ∧
      (visits.flatMap (descriptorSlots ℓ)).Pairwise (fun s s' => s + 4 ≤ s') := by
  refine ⟨ℓ.parseFrom 0 bytes, fun fuel h => RawMessages.drain_eq_parseFrom ℓ _ h, rfl, ?_,
    fun v hv => ?_, pairwise_parseFrom ℓ bytes, pairwise_descriptorSlots ℓ bytes⟩
  · rw [Nat.le_div_iff_mul_le ℓ.headerLen_pos]
    exact length_parseFrom_mul_le ℓ 0 bytes
  · have hvisit := visit_of_mem ℓ hv
    exact ⟨hvisit, hvisit.rights_eq⟩

end

end UnixAncillary
