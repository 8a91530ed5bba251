import UnixAncillary.RawMessages

/-!
# The control format

A `KernelMessage` is one control message as the kernel lays it out: a header with
the full `cmsg_len`, the payload, and padding to the alignment, where the padding
bytes are arbitrary. The lemmas below say what the parser makes of such a message
at the start of a buffer that is cut anywhere. `encodeMessage` is the canonical
layout, with all padding zero.
-/

namespace UnixAncillary

open ByteCodec

/-- A control message laid out in a buffer. -/
structure KernelMessage (ℓ : AlignedLayout) where
  header : Bytes
  payload : Bytes
  padding : Bytes
  length_header : header.length = ℓ.headerLen
  cmsgLen_eq : (ℓ.readHeader header).cmsgLen = ℓ.headerLen + payload.length
  payload_le : payload.length ≤ i32Max
  length_padding : padding.length = roundUp ℓ.align payload.length - payload.length

namespace KernelMessage

variable {ℓ : AlignedLayout} (m : KernelMessage ℓ)

def bytes : Bytes := m.header ++ m.payload ++ m.padding

/-- The message that the layout stands for. -/
def message : RawMessage where
  level := (ℓ.readHeader m.header).cmsgLevel
  kind := (ℓ.readHeader m.header).cmsgType
  data := m.payload

/-- The message with only the first `n` payload bytes. -/
def cut (n : Nat) : RawMessage :=
  { m.message with data := m.payload.take n }

theorem length_bytes : m.bytes.length = ℓ.CMSG_SPACE m.payload.length := by
  have hle := le_roundUp ℓ.align_pos m.payload.length
  simp only [bytes, List.length_append, m.length_header, m.length_padding,
    ℓ.space_eq _ m.payload_le]
  omega

theorem header_add_payload_le : ℓ.headerLen + m.payload.length ≤ m.bytes.length := by
  rw [length_bytes]
  exact ℓ.space_ge _ m.payload_le

theorem cut_of_le {n : Nat} (h : m.payload.length ≤ n) : m.cut n = m.message := by
  simp [cut, message, List.take_of_length_le h]

section Cut

variable (rest : Bytes) {c : Nat}

theorem readHeader_take (h : ℓ.headerLen ≤ c) :
    ℓ.readHeader ((m.bytes ++ rest).take c) = ℓ.readHeader m.header := by
  have hsize := ℓ.size_le_headerLen
  have hlen := m.length_header
  rw [ℓ.readHeader_take (by omega), bytes, List.append_assoc, List.append_assoc,
    ℓ.readHeader_append (by omega)]

/-- The clipped payload end of a message whose header arrived. -/
theorem payloadEnd_take (h : ℓ.headerLen ≤ c) :
    ℓ.payloadEnd ((m.bytes ++ rest).take c) = min (ℓ.headerLen + m.payload.length) c := by
  have hle := m.header_add_payload_le
  rw [Layout.payloadEnd, readHeader_take m rest h, m.cmsgLen_eq, List.length_take,
    List.length_append]
  omega

theorem startsMessage_take (h : ℓ.headerLen ≤ c) :
    ℓ.StartsMessage ((m.bytes ++ rest).take c) := by
  have hle := m.header_add_payload_le
  have hsize := ℓ.size_le_headerLen
  refine ⟨?_, ?_⟩
  · rw [List.length_take, List.length_append]
    omega
  · rw [payloadEnd_take m rest h]
    omega

/-- The parser yields the payload bytes before the cut. -/
theorem firstMessage_take (h : ℓ.headerLen ≤ c) :
    ℓ.firstMessage ((m.bytes ++ rest).take c) = m.cut (c - ℓ.headerLen) := by
  have hdata : readAt ((m.bytes ++ rest).take c) ℓ.headerLen
      (min (ℓ.headerLen + m.payload.length) c - ℓ.headerLen) =
      m.payload.take (c - ℓ.headerLen) := by
    rw [readAt_take (by omega), bytes, List.append_assoc, List.append_assoc,
      readAt_append_right (le_of_eq m.length_header), m.length_header, Nat.sub_self,
      readAt_append_left (by omega), readAt, List.drop_zero]
    by_cases hc : ℓ.headerLen + m.payload.length ≤ c
    · rw [List.take_of_length_le (by omega), List.take_of_length_le (by omega)]
    · congr 1
      omega
  simp only [Layout.firstMessage, payloadEnd_take m rest h, readHeader_take m rest h,
    hdata, cut, message]

/-- Nothing is read from a message whose header is cut. -/
theorem parse_take_header (h : c < ℓ.headerLen) :
    ℓ.parse ((m.bytes ++ rest).take c) = [] := by
  apply ℓ.parse_nil
  rintro ⟨-, hend⟩
  have hstop := Nat.min_le_right (ℓ.readHeader ((m.bytes ++ rest).take c)).cmsgLen
    ((m.bytes ++ rest).take c).length
  rw [Layout.payloadEnd] at hend
  rw [List.length_take] at hstop hend
  omega

/-- A message whose payload is cut is the last one, and parsing does not resume in
what is left of it. -/
theorem parse_take_payload (h : ℓ.headerLen ≤ c) (hc : c < ℓ.headerLen + m.payload.length) :
    ℓ.parse ((m.bytes ++ rest).take c) = [m.cut (c - ℓ.headerLen)] := by
  have hle := m.header_add_payload_le
  have hstart := startsMessage_take m rest h
  have hlen : ((m.bytes ++ rest).take c).length = c := by
    rw [List.length_take, List.length_append]
    omega
  have hdata : (m.cut (c - ℓ.headerLen)).data.length = c - ℓ.headerLen := by
    simp only [cut, List.length_take]
    omega
  have hadv := hstart.le_advance
  rw [firstMessage_take m rest h, hdata] at hadv
  rw [ℓ.parse_cons hstart, firstMessage_take m rest h,
    List.drop_of_length_le (by omega), ℓ.parse_nil]
  rintro ⟨hsize, -⟩
  have hpos := ℓ.size_pos
  simp only [List.length_nil] at hsize
  omega

/-- A message that arrived whole is parsed, and parsing resumes behind its padding. -/
theorem parse_take_message (h : ℓ.headerLen + m.payload.length ≤ c) :
    ℓ.parse ((m.bytes ++ rest).take c) =
      m.message :: ℓ.parse (rest.take (c - m.bytes.length)) := by
  have hstart := startsMessage_take m rest (c := c) (by omega)
  have hfirst : ℓ.firstMessage ((m.bytes ++ rest).take c) = m.message := by
    rw [firstMessage_take m rest (by omega), m.cut_of_le (by omega)]
  have hrest : ((m.bytes ++ rest).take c).drop (ℓ.advance ((m.bytes ++ rest).take c)) =
      rest.take (c - m.bytes.length) := by
    simp only [Layout.advance, hfirst, message, ← m.length_bytes, m.payload_le, true_and,
      List.length_take, List.length_append]
    split
    case isTrue hs =>
        rw [List.drop_take, List.drop_left]
    case isFalse hs =>
        rw [List.drop_of_length_le (by rw [List.length_take, List.length_append]),
          Nat.sub_eq_zero_of_le (by omega), List.take_zero]
  rw [ℓ.parse_cons hstart, hfirst, hrest]

end Cut

/-- A whole message followed by anything. -/
theorem parse_append (rest : Bytes) :
    ℓ.parse (m.bytes ++ rest) = m.message :: ℓ.parse rest := by
  have hle := m.header_add_payload_le
  have h := parse_take_message m rest (c := (m.bytes ++ rest).length)
    (by rw [List.length_append]; omega)
  rwa [List.take_length, List.length_append, Nat.add_sub_cancel_left,
    List.take_length] at h

/-- A whole layout parses to its messages. -/
theorem parse_bytes {ℓ : AlignedLayout} (msgs : List (KernelMessage ℓ)) :
    ℓ.parse (msgs.flatMap (·.bytes)) = msgs.map (·.message) := by
  induction msgs with
  | nil =>
      apply ℓ.parse_nil
      rintro ⟨hsize, -⟩
      exact absurd ℓ.size_pos (by simpa using hsize)
  | cons m rest ih => rw [List.flatMap_cons, parse_append, ih, List.map_cons]

end KernelMessage

/-! ## Canonical messages -/

/-- The header of a message of `n` payload bytes over zeroed bytes. -/
def Layout.encodeHeader (ℓ : Layout) (level kind : Int32) (n : Nat) : Bytes :=
  ℓ.writeHeader (List.replicate ℓ.headerLen 0) ⟨ℓ.headerLen + n, level, kind⟩

/-- The canonical layout of a message: header, payload and zero padding. -/
def Layout.encodeMessage (ℓ : Layout) (m : RawMessage) : Bytes :=
  ℓ.encodeHeader m.level m.kind m.data.length ++ m.data ++
    List.replicate (ℓ.CMSG_SPACE m.data.length - (ℓ.headerLen + m.data.length)) 0

section Canonical

variable (ℓ : Layout)

@[simp] theorem length_encodeHeader (level kind : Int32) (n : Nat) :
    (ℓ.encodeHeader level kind n).length = ℓ.headerLen := by
  have hsize := ℓ.size_le_headerLen
  rw [Layout.encodeHeader, ℓ.length_writeHeader _ (by rwa [List.length_replicate]),
    List.length_replicate]

/-- The length of a payload that `cmsg_space` accepts fits `cmsg_len`. -/
theorem cmsgLen_lt {n : Nat} (h : n ≤ i32Max) :
    ℓ.headerLen + n < 256 ^ ℓ.cmsghdr.lenWidth := by
  have hge := ℓ.space_ge n h
  have hlt := ℓ.space_lt n h
  have hpow : 256 ^ 4 ≤ 256 ^ ℓ.cmsghdr.lenWidth :=
    Nat.pow_le_pow_right (by decide) ℓ.cmsghdr.four_le_lenWidth
  have hmax : u32Max + 1 = 256 ^ 4 := by decide
  omega

theorem readHeader_encodeHeader (level kind : Int32) {n : Nat} (h : n ≤ i32Max) :
    ℓ.readHeader (ℓ.encodeHeader level kind n) = ⟨ℓ.headerLen + n, level, kind⟩ := by
  have hsize := ℓ.size_le_headerLen
  exact ℓ.readHeader_writeHeader (by rwa [List.length_replicate]) (cmsgLen_lt ℓ h)

theorem length_encodeMessage {m : RawMessage} (h : m.data.length ≤ i32Max) :
    (ℓ.encodeMessage m).length = ℓ.CMSG_SPACE m.data.length := by
  have hge := ℓ.space_ge _ h
  simp only [Layout.encodeMessage, List.length_append, length_encodeHeader,
    List.length_replicate]
  omega

end Canonical

/-- The canonical layout is one of the layouts the kernel may use. -/
def KernelMessage.canonical (ℓ : AlignedLayout) (m : RawMessage)
    (h : m.data.length ≤ i32Max) : KernelMessage ℓ where
  header := ℓ.encodeHeader m.level m.kind m.data.length
  payload := m.data
  padding := List.replicate (ℓ.CMSG_SPACE m.data.length - (ℓ.headerLen + m.data.length)) 0
  length_header := length_encodeHeader ..
  cmsgLen_eq := by rw [readHeader_encodeHeader _ _ _ h]
  payload_le := h
  length_padding := by
    rw [List.length_replicate, ℓ.space_eq _ h]
    omega

theorem KernelMessage.message_canonical (ℓ : AlignedLayout) (m : RawMessage)
    (h : m.data.length ≤ i32Max) : (canonical ℓ m h).message = m := by
  simp only [message, canonical, readHeader_encodeHeader _ _ _ h]

/-- Parsing undoes encoding, message by message. -/
theorem parse_encodeMessages (ℓ : AlignedLayout) (ms : List RawMessage)
    (h : ∀ m ∈ ms, m.data.length ≤ i32Max) :
    ℓ.parse (ms.flatMap ℓ.encodeMessage) = ms := by
  induction ms with
  | nil => exact KernelMessage.parse_bytes (ℓ := ℓ) []
  | cons m ms ih =>
      have hm := h m (by simp)
      have hbytes : ℓ.encodeMessage m = (KernelMessage.canonical ℓ m hm).bytes := rfl
      rw [List.flatMap_cons, hbytes, KernelMessage.parse_append,
        KernelMessage.message_canonical, ih fun m' hm' => h m' (by simp [hm'])]

end UnixAncillary
