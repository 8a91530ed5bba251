import UnixAncillary.Layout

/-!
# The control-message parser

`RawMessages.next` is the iterator step of the source with every slice and every
`CMSG_SPACE` call checked. `parse` is the list of messages that a `for` loop over
the iterator visits; `parse_cons` and `parse_nil` are its two equations, from
which every later result about the parser is derived.
-/

namespace UnixAncillary

open ByteCodec

/-- One control message as it lies in the buffer. -/
structure RawMessage where
  level : Int32
  kind : Int32
  data : Bytes
  deriving DecidableEq

/-- The iterator: the unparsed rest of the buffer and where that rest starts. -/
structure RawMessages where
  offset : Nat
  remaining : Bytes

namespace RawMessages

variable (ℓ : Layout)

/-- One call of `next`: the message, if any, and the iterator afterwards.
`mem::take` leaves an empty rest, placed here at the end of the buffer. -/
def next (it : RawMessages) : Except Panic (Option RawMessage × RawMessages) :=
  let bytes := it.remaining
  let taken : RawMessages := ⟨it.offset + bytes.length, []⟩
  if bytes.length < ℓ.cmsghdr.size then .ok (none, taken)
  else
    let header := ℓ.readHeader bytes
    let stop := min header.cmsgLen bytes.length
    if stop < ℓ.headerLen then .ok (none, taken)
    else do
      let data ← slice bytes ℓ.headerLen stop
      let message : RawMessage := ⟨header.cmsgLevel, header.cmsgType, data⟩
      match (← ℓ.cmsgSpace data.length).filter (· ≤ bytes.length) with
      | some next => do
          let rest ← slice bytes next bytes.length
          pure (some message, ⟨it.offset + next, rest⟩)
      | none => pure (some message, taken)

/-- A `for` loop over the iterator: the messages visited, each with the position
of its header. The outer `none` is a loop that has not ended within `fuel` calls. -/
def drain : Nat → RawMessages → Except Panic (Option (List (Nat × RawMessage)))
  | 0, _ => .ok none
  | fuel + 1, it => do
      match ← it.next ℓ with
      | (none, _) => pure (some [])
      | (some message, it') => do
          match ← drain fuel it' with
          | some rest => pure (some ((it.offset, message) :: rest))
          | none => pure none

end RawMessages

namespace Layout

variable (ℓ : Layout)

/-- The messages of `bytes` with the positions of their headers, when the slice
starts at `offset`. -/
def parseFrom (offset : Nat) (bytes : Bytes) : List (Nat × RawMessage) :=
  match RawMessages.drain ℓ (bytes.length + 1) ⟨offset, bytes⟩ with
  | .ok (some messages) => messages
  | _ => []

/-- What `for message in (RawMessages { remaining: bytes })` visits. -/
def parse (bytes : Bytes) : List RawMessage :=
  (ℓ.parseFrom 0 bytes).map Prod.snd

/-- The payload end that `next` computes: `cmsg_len` clipped to the bytes. -/
def payloadEnd (bytes : Bytes) : Nat :=
  min (ℓ.readHeader bytes).cmsgLen bytes.length

/-- The message at the start of `bytes`. -/
def firstMessage (bytes : Bytes) : RawMessage where
  level := (ℓ.readHeader bytes).cmsgLevel
  kind := (ℓ.readHeader bytes).cmsgType
  data := readAt bytes ℓ.headerLen (ℓ.payloadEnd bytes - ℓ.headerLen)

/-- How far `next` advances past the first message: by its space, or to the end
of the bytes when that space does not fit. -/
def advance (bytes : Bytes) : Nat :=
  let n := (ℓ.firstMessage bytes).data.length
  if n ≤ i32Max ∧ ℓ.CMSG_SPACE n ≤ bytes.length then ℓ.CMSG_SPACE n else bytes.length

/-- `bytes` starts with a message: a whole `cmsghdr` is there, and the clipped
`cmsg_len` covers the header length. -/
def StartsMessage (bytes : Bytes) : Prop :=
  ℓ.cmsghdr.size ≤ bytes.length ∧ ℓ.headerLen ≤ ℓ.payloadEnd bytes

instance (bytes : Bytes) : Decidable (ℓ.StartsMessage bytes) :=
  inferInstanceAs (Decidable (_ ∧ _))

theorem length_firstMessage (bytes : Bytes) :
    (ℓ.firstMessage bytes).data.length = ℓ.payloadEnd bytes - ℓ.headerLen := by
  simp only [firstMessage, readAt, List.length_take, List.length_drop, payloadEnd]
  omega

variable {ℓ} in
theorem StartsMessage.headerLen_add_le {bytes : Bytes} (h : ℓ.StartsMessage bytes) :
    ℓ.headerLen + (ℓ.firstMessage bytes).data.length ≤ bytes.length := by
  have hend : ℓ.payloadEnd bytes ≤ bytes.length := Nat.min_le_right _ _
  have := h.2
  rw [ℓ.length_firstMessage]
  omega

theorem advance_le (bytes : Bytes) : ℓ.advance bytes ≤ bytes.length := by
  simp only [advance]
  split
  · omega
  · exact le_refl _

variable {ℓ} in
/-- The advance covers the header and the payload. -/
theorem StartsMessage.le_advance {bytes : Bytes} (h : ℓ.StartsMessage bytes) :
    ℓ.headerLen + (ℓ.firstMessage bytes).data.length ≤ ℓ.advance bytes := by
  simp only [advance]
  split
  case isTrue hs => exact ℓ.space_ge _ hs.1
  case isFalse => exact h.headerLen_add_le

variable {ℓ} in
/-- The rest after a message is shorter by at least a header. -/
theorem StartsMessage.length_rest {bytes : Bytes} (h : ℓ.StartsMessage bytes) :
    (bytes.drop (ℓ.advance bytes)).length + ℓ.headerLen ≤ bytes.length := by
  have hadv := h.le_advance
  have hle := ℓ.advance_le bytes
  rw [List.length_drop]
  omega

/-- Induction along the messages of a buffer: bytes that start no message, and bytes
that start one, given the rest behind it. -/
@[elab_as_elim]
theorem messageInduction {motive : Bytes → Prop}
    (stop : ∀ bytes, ¬ ℓ.StartsMessage bytes → motive bytes)
    (step : ∀ bytes, ℓ.StartsMessage bytes →
      motive (bytes.drop (ℓ.advance bytes)) → motive bytes)
    (bytes : Bytes) : motive bytes := by
  induction hn : bytes.length using Nat.strongRecOn generalizing bytes with
  | ind n ih =>
      by_cases h : ℓ.StartsMessage bytes
      · have hlt := h.length_rest
        have hpos := ℓ.headerLen_pos
        exact step bytes h (ih (bytes.drop (ℓ.advance bytes)).length (by omega) _ rfl)
      · exact stop bytes h

end Layout

namespace RawMessages

variable (ℓ : Layout)

/-- The iterator after the first message. -/
def rest (it : RawMessages) : RawMessages :=
  ⟨it.offset + ℓ.advance it.remaining, it.remaining.drop (ℓ.advance it.remaining)⟩

/-- A rest that starts no message ends the iteration. -/
theorem next_none (it : RawMessages) (h : ¬ ℓ.StartsMessage it.remaining) :
    it.next ℓ = .ok (none, ⟨it.offset + it.remaining.length, []⟩) := by
  by_cases hsize : it.remaining.length < ℓ.cmsghdr.size
  · simp [next, hsize]
  · have hend : ℓ.payloadEnd it.remaining < ℓ.headerLen := by
      by_contra hend
      exact h ⟨by omega, by omega⟩
    rw [next, if_neg hsize]
    exact if_pos hend

theorem filter_space? (n len : Nat) :
    (ℓ.space? n).filter (· ≤ len) =
      if n ≤ i32Max ∧ ℓ.CMSG_SPACE n ≤ len then some (ℓ.CMSG_SPACE n) else none := by
  by_cases hn : n ≤ i32Max <;> by_cases hs : ℓ.CMSG_SPACE n ≤ len <;>
    simp [Layout.space?, Option.filter, hn, hs]

/-- Otherwise `next` yields the first message and advances past it; no slice is
out of range and no space overflows. -/
theorem next_some (it : RawMessages) (h : ℓ.StartsMessage it.remaining) :
    it.next ℓ = .ok (some (ℓ.firstMessage it.remaining), it.rest ℓ) := by
  obtain ⟨hsize, hend⟩ := h
  have hstop : ℓ.payloadEnd it.remaining ≤ it.remaining.length := Nat.min_le_right _ _
  have hdata : slice it.remaining ℓ.headerLen (ℓ.payloadEnd it.remaining) =
      .ok (ℓ.firstMessage it.remaining).data := slice_eq hend hstop
  rw [next, if_neg (by omega)]
  simp only [← Layout.payloadEnd.eq_def]
  rw [if_neg (by omega), hdata]
  simp only [bind, Except.bind, Layout.cmsgSpace_eq, filter_space?, rest, Layout.advance]
  by_cases hs : (ℓ.firstMessage it.remaining).data.length ≤ i32Max ∧
      ℓ.CMSG_SPACE (ℓ.firstMessage it.remaining).data.length ≤ it.remaining.length
  · simp only [if_pos hs, slice_eq hs.2 le_rfl, readAt_to_end]
    rfl
  · simp only [if_neg hs, List.drop_length]
    rfl

theorem drain_none (fuel : Nat) (it : RawMessages) (h : ¬ ℓ.StartsMessage it.remaining) :
    it.drain ℓ (fuel + 1) = .ok (some []) := by
  rw [drain, next_none ℓ it h]
  rfl

theorem drain_some {fuel : Nat} (it : RawMessages) (h : ℓ.StartsMessage it.remaining)
    {messages : List (Nat × RawMessage)}
    (hrest : (it.rest ℓ).drain ℓ fuel = .ok (some messages)) :
    it.drain ℓ (fuel + 1) =
      .ok (some ((it.offset, ℓ.firstMessage it.remaining) :: messages)) := by
  rw [drain, next_some ℓ it h]
  simp only [bind, Except.bind, hrest]
  rfl

/-- A loop with more calls than remaining bytes ends, without a panic, and its
visits do not depend on how many more calls were allowed. -/
theorem drain_eq_parseFrom {fuel : Nat} (it : RawMessages) (h : it.remaining.length < fuel) :
    it.drain ℓ fuel = .ok (some (ℓ.parseFrom it.offset it.remaining)) := by
  have hex : ∀ (bytes : Bytes) (offset : Nat), ∃ messages, ∀ fuel, bytes.length < fuel →
      drain ℓ fuel ⟨offset, bytes⟩ = .ok (some messages) := by
    intro bytes
    induction bytes using ℓ.messageInduction with
    | stop bytes hstop =>
        refine fun offset => ⟨[], fun fuel hf => ?_⟩
        obtain ⟨fuel, rfl⟩ : ∃ k, fuel = k + 1 := ⟨fuel - 1, by omega⟩
        exact drain_none ℓ fuel ⟨offset, bytes⟩ hstop
    | step bytes hstart ih =>
        intro offset
        have hlt := hstart.length_rest
        have hpos := ℓ.headerLen_pos
        obtain ⟨messages, hm⟩ := ih (offset + ℓ.advance bytes)
        refine ⟨(offset, ℓ.firstMessage bytes) :: messages, fun fuel hf => ?_⟩
        obtain ⟨fuel, rfl⟩ : ∃ k, fuel = k + 1 := ⟨fuel - 1, by omega⟩
        exact drain_some ℓ ⟨offset, bytes⟩ hstart (hm fuel (by omega))
  obtain ⟨messages, hm⟩ := hex it.remaining it.offset
  rw [hm fuel h, Layout.parseFrom, hm _ (Nat.lt_succ_self _)]

end RawMessages

namespace Layout

variable (ℓ : Layout)

theorem parseFrom_nil {bytes : Bytes} (offset : Nat) (h : ¬ ℓ.StartsMessage bytes) :
    ℓ.parseFrom offset bytes = [] := by
  have hd := RawMessages.drain_eq_parseFrom ℓ ⟨offset, bytes⟩ (Nat.lt_succ_self _)
  rw [RawMessages.drain_none ℓ _ _ h] at hd
  exact (Option.some.inj (Except.ok.inj hd)).symm

theorem parseFrom_cons {bytes : Bytes} (offset : Nat) (h : ℓ.StartsMessage bytes) :
    ℓ.parseFrom offset bytes = (offset, ℓ.firstMessage bytes) ::
      ℓ.parseFrom (offset + ℓ.advance bytes) (bytes.drop (ℓ.advance bytes)) := by
  have hpos := ℓ.headerLen_pos
  have hlt := h.length_rest
  have hrest : (RawMessages.rest ℓ ⟨offset, bytes⟩).drain ℓ bytes.length = _ :=
    RawMessages.drain_eq_parseFrom ℓ _ (by simp only [RawMessages.rest]; omega)
  have hd := RawMessages.drain_eq_parseFrom ℓ ⟨offset, bytes⟩ (Nat.lt_succ_self _)
  rw [RawMessages.drain_some ℓ _ h hrest] at hd
  exact (Option.some.inj (Except.ok.inj hd)).symm

/-- The messages do not depend on where the slice lies. -/
theorem map_snd_parseFrom (offset : Nat) (bytes : Bytes) :
    (ℓ.parseFrom offset bytes).map Prod.snd = ℓ.parse bytes := by
  rw [parse]
  generalize 0 = start
  induction bytes using ℓ.messageInduction generalizing offset start with
  | stop bytes h => rw [ℓ.parseFrom_nil _ h, ℓ.parseFrom_nil _ h]
  | step bytes h ih =>
      rw [ℓ.parseFrom_cons _ h, ℓ.parseFrom_cons _ h, List.map_cons, List.map_cons,
        ih (offset + ℓ.advance bytes) (start + ℓ.advance bytes)]

theorem parse_nil {bytes : Bytes} (h : ¬ ℓ.StartsMessage bytes) : ℓ.parse bytes = [] := by
  rw [parse, ℓ.parseFrom_nil 0 h, List.map_nil]

theorem parse_cons {bytes : Bytes} (h : ℓ.StartsMessage bytes) :
    ℓ.parse bytes = ℓ.firstMessage bytes :: ℓ.parse (bytes.drop (ℓ.advance bytes)) := by
  rw [parse, ℓ.parseFrom_cons 0 h, List.map_cons, map_snd_parseFrom]

end Layout

end UnixAncillary
