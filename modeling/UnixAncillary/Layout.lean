import UnixAncillary.Lib.ByteCodec

/-!
# Control-message layout of a target

The crate reads `cmsghdr`, `CMSG_LEN` and `CMSG_SPACE` from libc, and their
values differ between targets. `Layout` holds what the parser relies on,
`AlignedLayout` the rounding rule that libc uses on Linux, the BSDs and Apple.
Both carry their side conditions, so an inconsistent layout cannot be built.
-/

namespace UnixAncillary

open ByteCodec

abbrev RawFd := Int32

def u32Max : Nat := 2 ^ 32 - 1

def i32Max : Nat := 2 ^ 31 - 1

/-- The ways in which the Rust code could abort. -/
inductive Panic where
  | sliceOutOfRange
  | arithmeticOverflow
  | expectFailed (message : String)
  deriving DecidableEq

/-- `&bytes[start..stop]`. -/
def slice (bytes : Bytes) (start stop : Nat) : Except Panic Bytes :=
  if start ≤ stop ∧ stop ≤ bytes.length then .ok (readAt bytes start (stop - start))
  else .error .sliceOutOfRange

theorem slice_eq {bytes : Bytes} {start stop : Nat} (h : start ≤ stop)
    (hlen : stop ≤ bytes.length) :
    slice bytes start stop = .ok (readAt bytes start (stop - start)) :=
  if_pos ⟨h, hlen⟩

/-- Where the fields of `libc::cmsghdr` lie. `cmsg_len` is a `size_t` or a
`socklen_t`; `cmsg_level` and `cmsg_type` are C integers. -/
structure Cmsghdr where
  size : Nat
  lenOffset : Nat
  lenWidth : Nat
  levelOffset : Nat
  typeOffset : Nat
  four_le_lenWidth : 4 ≤ lenWidth
  len_fits : lenOffset + lenWidth ≤ size
  level_fits : levelOffset + 4 ≤ size
  type_fits : typeOffset + 4 ≤ size
  len_level : lenOffset + lenWidth ≤ levelOffset ∨ levelOffset + 4 ≤ lenOffset
  len_type : lenOffset + lenWidth ≤ typeOffset ∨ typeOffset + 4 ≤ lenOffset
  level_type : levelOffset + 4 ≤ typeOffset ∨ typeOffset + 4 ≤ levelOffset

/-- What the parser needs of a target. `CMSG_SPACE` is given by its exact value;
`space_lt` says that a payload of at most `i32::MAX` bytes does not overflow the
`c_uint` that libc returns. -/
structure Layout where
  usizeBits : Nat
  bigEndian : Bool
  cmsghdr : Cmsghdr
  headerLen : Nat
  CMSG_SPACE : Nat → Nat
  u32_fits : 32 ≤ usizeBits
  cmsgLen_fits : 8 * cmsghdr.lenWidth ≤ usizeBits
  size_le_headerLen : cmsghdr.size ≤ headerLen
  space_ge : ∀ n ≤ i32Max, headerLen + n ≤ CMSG_SPACE n
  space_lt : ∀ n ≤ i32Max, CMSG_SPACE n ≤ u32Max

namespace Layout

variable (ℓ : Layout)

def usizeMax : Nat := 2 ^ ℓ.usizeBits - 1

theorem size_pos : 0 < ℓ.cmsghdr.size := by
  have := ℓ.cmsghdr.level_fits
  omega

theorem headerLen_pos : 0 < ℓ.headerLen :=
  lt_of_lt_of_le ℓ.size_pos ℓ.size_le_headerLen

theorem u32Max_le_usizeMax : u32Max ≤ ℓ.usizeMax :=
  Nat.sub_le_sub_right (Nat.pow_le_pow_right (by decide) ℓ.u32_fits) 1

/-- `cmsg_space`: the space of one message, or `None` for a payload whose
aligned size could overflow `CMSG_SPACE`'s `u32`. -/
def cmsgSpace (payloadLen : Nat) : Except Panic (Option Nat) :=
  if payloadLen ≤ u32Max ∧ payloadLen ≤ i32Max then
    if ℓ.CMSG_SPACE payloadLen ≤ u32Max then .ok (some (ℓ.CMSG_SPACE payloadLen))
    else .error .arithmeticOverflow
  else .ok none

/-- The value of `cmsgSpace`, which never overflows. -/
def space? (payloadLen : Nat) : Option Nat :=
  if payloadLen ≤ i32Max then some (ℓ.CMSG_SPACE payloadLen) else none

@[simp] theorem cmsgSpace_eq (n : Nat) : ℓ.cmsgSpace n = .ok (ℓ.space? n) := by
  by_cases h : n ≤ i32Max
  · have hu : n ≤ u32Max := h.trans (by decide)
    simp [cmsgSpace, space?, h, hu, ℓ.space_lt n h]
  · simp [cmsgSpace, space?, h]

/-- The integer fields of a received `cmsghdr`. -/
structure Header where
  cmsgLen : Nat
  cmsgLevel : Int32
  cmsgType : Int32
  deriving DecidableEq

/-- `read_unaligned` of a `cmsghdr` at the start of `bytes`. -/
def readHeader (bytes : Bytes) : Header where
  cmsgLen := decode ℓ.bigEndian (readAt bytes ℓ.cmsghdr.lenOffset ℓ.cmsghdr.lenWidth)
  cmsgLevel := decodeI32 ℓ.bigEndian (readAt bytes ℓ.cmsghdr.levelOffset 4)
  cmsgType := decodeI32 ℓ.bigEndian (readAt bytes ℓ.cmsghdr.typeOffset 4)

/-- The three `write_unaligned` calls on the header at the start of `bytes`. -/
def writeHeader (bytes : Bytes) (header : Header) : Bytes :=
  let bytes := overwrite bytes ℓ.cmsghdr.levelOffset (encodeI32 ℓ.bigEndian header.cmsgLevel)
  let bytes := overwrite bytes ℓ.cmsghdr.typeOffset (encodeI32 ℓ.bigEndian header.cmsgType)
  overwrite bytes ℓ.cmsghdr.lenOffset
    (encode ℓ.bigEndian ℓ.cmsghdr.lenWidth header.cmsgLen)

/-- The header is read from the first `size_of::<cmsghdr>()` bytes alone. -/
theorem readHeader_take {bytes : Bytes} {c : Nat} (h : ℓ.cmsghdr.size ≤ c) :
    ℓ.readHeader (bytes.take c) = ℓ.readHeader bytes := by
  have h1 := ℓ.cmsghdr.len_fits
  have h2 := ℓ.cmsghdr.level_fits
  have h3 := ℓ.cmsghdr.type_fits
  simp only [readHeader]
  rw [readAt_take (by omega), readAt_take (by omega), readAt_take (by omega)]

theorem readHeader_append {bytes rest : Bytes} (h : ℓ.cmsghdr.size ≤ bytes.length) :
    ℓ.readHeader (bytes ++ rest) = ℓ.readHeader bytes := by
  have h1 := ℓ.cmsghdr.len_fits
  have h2 := ℓ.cmsghdr.level_fits
  have h3 := ℓ.cmsghdr.type_fits
  simp only [readHeader]
  rw [readAt_append_left (by omega), readAt_append_left (by omega),
    readAt_append_left (by omega)]

theorem length_writeLevel {bytes : Bytes} (header : Header)
    (h : ℓ.cmsghdr.size ≤ bytes.length) :
    (overwrite bytes ℓ.cmsghdr.levelOffset
      (encodeI32 ℓ.bigEndian header.cmsgLevel)).length = bytes.length := by
  have hfits := ℓ.cmsghdr.level_fits
  rw [length_overwrite (by rw [length_encodeI32]; omega)]

theorem length_writeType {bytes : Bytes} (header : Header)
    (h : ℓ.cmsghdr.size ≤ bytes.length) :
    (overwrite (overwrite bytes ℓ.cmsghdr.levelOffset
      (encodeI32 ℓ.bigEndian header.cmsgLevel)) ℓ.cmsghdr.typeOffset
      (encodeI32 ℓ.bigEndian header.cmsgType)).length = bytes.length := by
  have hfits := ℓ.cmsghdr.type_fits
  have hlevel := ℓ.length_writeLevel header h
  rw [length_overwrite (by rw [length_encodeI32]; omega), hlevel]

/-- Writing the header keeps the length of the bytes under it. -/
theorem length_writeHeader {bytes : Bytes} (header : Header)
    (h : ℓ.cmsghdr.size ≤ bytes.length) :
    (ℓ.writeHeader bytes header).length = bytes.length := by
  have h1 := ℓ.cmsghdr.len_fits
  have h2 := ℓ.cmsghdr.level_fits
  have h3 := ℓ.cmsghdr.type_fits
  have hlevel := ℓ.length_writeLevel header h
  have htype := ℓ.length_writeType header h
  rw [writeHeader, length_overwrite (by rw [length_encode]; omega), htype]

/-- Only the header at the start is written. -/
theorem writeHeader_append {bytes rest : Bytes} (header : Header)
    (h : ℓ.cmsghdr.size ≤ bytes.length) :
    ℓ.writeHeader (bytes ++ rest) header = ℓ.writeHeader bytes header ++ rest := by
  have h1 := ℓ.cmsghdr.len_fits
  have h2 := ℓ.cmsghdr.level_fits
  have h3 := ℓ.cmsghdr.type_fits
  have hlevel := ℓ.length_writeLevel header h
  have htype := ℓ.length_writeType header h
  simp only [writeHeader]
  rw [overwrite_append_left (by rw [length_encodeI32]; omega),
    overwrite_append_left (by rw [length_encodeI32]; omega),
    overwrite_append_left (by rw [length_encode]; omega)]

/-- A header reads back as it was written, whatever the bytes held before. -/
theorem readHeader_writeHeader {bytes : Bytes} {header : Header}
    (h : ℓ.cmsghdr.size ≤ bytes.length)
    (hlen : header.cmsgLen < 256 ^ ℓ.cmsghdr.lenWidth) :
    ℓ.readHeader (ℓ.writeHeader bytes header) = header := by
  have h1 := ℓ.cmsghdr.len_fits
  have h2 := ℓ.cmsghdr.level_fits
  have h3 := ℓ.cmsghdr.type_fits
  have h4 := ℓ.cmsghdr.len_level
  have h5 := ℓ.cmsghdr.len_type
  have h6 := ℓ.cmsghdr.level_type
  have hlevel := ℓ.length_writeLevel header h
  have htype := ℓ.length_writeType header h
  have hread : ∀ offset, ℓ.cmsghdr.lenOffset + ℓ.cmsghdr.lenWidth ≤ offset ∨
      offset + 4 ≤ ℓ.cmsghdr.lenOffset → readAt (ℓ.writeHeader bytes header) offset 4 =
        readAt (overwrite (overwrite bytes ℓ.cmsghdr.levelOffset
          (encodeI32 ℓ.bigEndian header.cmsgLevel)) ℓ.cmsghdr.typeOffset
          (encodeI32 ℓ.bigEndian header.cmsgType)) offset 4 := by
    intro offset hd
    rw [writeHeader, readAt_overwrite_disjoint]
    · rw [length_encode]
      omega
    · rw [length_encode]
      omega
  have hl : readAt (ℓ.writeHeader bytes header) ℓ.cmsghdr.lenOffset ℓ.cmsghdr.lenWidth =
      encode ℓ.bigEndian ℓ.cmsghdr.lenWidth header.cmsgLen := by
    rw [writeHeader, readAt_overwrite_self (length_encode ..).symm]
    rw [length_encode]
    omega
  have hv : readAt (ℓ.writeHeader bytes header) ℓ.cmsghdr.levelOffset 4 =
      encodeI32 ℓ.bigEndian header.cmsgLevel := by
    rw [hread _ h4, readAt_overwrite_disjoint, readAt_overwrite_self (length_encodeI32 ..).symm]
    all_goals rw [length_encodeI32]; omega
  have ht : readAt (ℓ.writeHeader bytes header) ℓ.cmsghdr.typeOffset 4 =
      encodeI32 ℓ.bigEndian header.cmsgType := by
    rw [hread _ h5, readAt_overwrite_self (length_encodeI32 ..).symm]
    rw [length_encodeI32]
    omega
  simp only [readHeader, hl, hv, ht, decode_encode ℓ.bigEndian hlen, decodeI32_encodeI32]

end Layout

/-! ## The rounding rule of libc -/

/-- `CMSG_ALIGN`: the least multiple of `align` that is at least `n`. -/
def roundUp (align n : Nat) : Nat :=
  (n + align - 1) / align * align

theorem le_roundUp {align : Nat} (h : 0 < align) (n : Nat) : n ≤ roundUp align n := by
  have hmod := Nat.mod_lt (n + align - 1) h
  have hdiv := Nat.div_add_mod (n + align - 1) align
  rw [Nat.mul_comm] at hdiv
  simp only [roundUp]
  omega

theorem dvd_roundUp (align n : Nat) : align ∣ roundUp align n :=
  Nat.dvd_mul_left ..

theorem roundUp_mono {align m n : Nat} (h : m ≤ n) : roundUp align m ≤ roundUp align n :=
  Nat.mul_le_mul_right _ (Nat.div_le_div_right (by omega))

/-- A target whose header length is a multiple of the alignment and whose
`CMSG_SPACE` adds the aligned payload to it, as on Linux, the BSDs and Apple. -/
structure AlignedLayout extends Layout where
  align : Nat
  align_pos : 0 < align
  align_dvd_headerLen : align ∣ headerLen
  space_eq : ∀ n ≤ i32Max, CMSG_SPACE n = headerLen + roundUp align n

namespace AlignedLayout

theorem space_mono (ℓ : AlignedLayout) {m n : Nat} (h : m ≤ n) (hn : n ≤ i32Max) :
    ℓ.CMSG_SPACE m ≤ ℓ.CMSG_SPACE n := by
  rw [ℓ.space_eq m (h.trans hn), ℓ.space_eq n hn]
  exact Nat.add_le_add_left (roundUp_mono h) _

/-- The layout that libc computes from a `cmsghdr` and an alignment:
`CMSG_LEN(0)` is the aligned header, `CMSG_SPACE` adds the aligned payload. -/
def ofCmsghdr (usizeBits : Nat) (bigEndian : Bool) (cmsghdr : Cmsghdr) (align : Nat)
    (u32_fits : 32 ≤ usizeBits) (cmsgLen_fits : 8 * cmsghdr.lenWidth ≤ usizeBits)
    (align_pos : 0 < align)
    (fits : roundUp align cmsghdr.size + roundUp align i32Max ≤ u32Max) :
    AlignedLayout where
  usizeBits := usizeBits
  bigEndian := bigEndian
  cmsghdr := cmsghdr
  headerLen := roundUp align cmsghdr.size
  CMSG_SPACE n := roundUp align cmsghdr.size + roundUp align n
  u32_fits := u32_fits
  cmsgLen_fits := cmsgLen_fits
  size_le_headerLen := le_roundUp align_pos _
  space_ge n _ := Nat.add_le_add_left (le_roundUp align_pos n) _
  space_lt _ h := (Nat.add_le_add_left (roundUp_mono h) _).trans fits
  align := align
  align_pos := align_pos
  align_dvd_headerLen := dvd_roundUp ..
  space_eq _ _ := rfl

/-- 64-bit little-endian Linux: `cmsg_len` is a `size_t`, alignment 8. -/
def linux64 : AlignedLayout :=
  ofCmsghdr 64 false ⟨16, 0, 8, 8, 12, by decide, by decide, by decide, by decide, by decide,
    by decide, by decide⟩ 8 (by decide) (by decide) (by decide) (by decide)

/-- 32-bit little-endian Linux: `cmsg_len` is a `size_t`, alignment 4. -/
def linux32 : AlignedLayout :=
  ofCmsghdr 32 false ⟨12, 0, 4, 4, 8, by decide, by decide, by decide, by decide, by decide,
    by decide, by decide⟩ 4 (by decide) (by decide) (by decide) (by decide)

/-- 64-bit FreeBSD: `cmsg_len` is a `socklen_t`, and the header is padded to 16. -/
def bsd64 : AlignedLayout :=
  ofCmsghdr 64 false ⟨12, 0, 4, 4, 8, by decide, by decide, by decide, by decide, by decide,
    by decide, by decide⟩ 8 (by decide) (by decide) (by decide) (by decide)

/-- Apple: `cmsg_len` is a `socklen_t`, alignment 4. -/
def apple : AlignedLayout :=
  ofCmsghdr 64 false ⟨12, 0, 4, 4, 8, by decide, by decide, by decide, by decide, by decide,
    by decide, by decide⟩ 4 (by decide) (by decide) (by decide) (by decide)

end AlignedLayout

end UnixAncillary
