import Mathlib.Data.List.Basic
import Mathlib.Tactic.Ring

/-!
# Fixed-width integers and slots in byte lists

`encode` writes a natural number as a fixed number of bytes in either byte
order and `decode` reads it back. `readAt` and `overwrite` read and replace a
slot of a list without moving its neighbours, and `chunks4` cuts a list into
complete groups of four, dropping an incomplete tail.
-/

namespace ByteCodec

abbrev Bytes := List UInt8

/-! ## Integers -/

/-- The `w` low bytes of `n`, least significant first. -/
def encodeLE : Nat → Nat → Bytes
  | 0, _ => []
  | w + 1, n => UInt8.ofNat (n % 256) :: encodeLE w (n / 256)

/-- The number whose bytes are given least significant first. -/
def decodeLE : Bytes → Nat
  | [] => 0
  | b :: bytes => b.toNat + 256 * decodeLE bytes

/-- The `w` low bytes of `n` in the given byte order. -/
def encode (bigEndian : Bool) (w n : Nat) : Bytes :=
  if bigEndian then (encodeLE w n).reverse else encodeLE w n

/-- The number stored in `bytes` in the given byte order. -/
def decode (bigEndian : Bool) (bytes : Bytes) : Nat :=
  decodeLE (if bigEndian then bytes.reverse else bytes)

theorem length_encodeLE (w n : Nat) : (encodeLE w n).length = w := by
  induction w generalizing n with
  | zero => rfl
  | succ w ih => simp [encodeLE, ih]

@[simp] theorem length_encode (bigEndian : Bool) (w n : Nat) :
    (encode bigEndian w n).length = w := by
  cases bigEndian <;> simp [encode, length_encodeLE]

theorem decodeLE_encodeLE (w n : Nat) : decodeLE (encodeLE w n) = n % 256 ^ w := by
  induction w generalizing n with
  | zero => simp [encodeLE, decodeLE, Nat.mod_one]
  | succ w ih =>
      simp only [encodeLE, decodeLE, ih]
      rw [Nat.pow_succ, Nat.mul_comm _ 256, Nat.mod_mul]
      simp

/-- Reading back a number that fits its width. -/
theorem decode_encode (bigEndian : Bool) {w n : Nat} (h : n < 256 ^ w) :
    decode bigEndian (encode bigEndian w n) = n := by
  cases bigEndian <;>
    simp [decode, encode, decodeLE_encodeLE, Nat.mod_eq_of_lt h]

/-- The four bytes of a signed word. -/
def encodeI32 (bigEndian : Bool) (x : Int32) : Bytes :=
  encode bigEndian 4 x.toBitVec.toNat

/-- The signed word stored in four bytes. -/
def decodeI32 (bigEndian : Bool) (bytes : Bytes) : Int32 :=
  Int32.ofBitVec (BitVec.ofNat 32 (decode bigEndian bytes))

/-- The four bytes of an unsigned word. -/
def encodeU32 (bigEndian : Bool) (x : UInt32) : Bytes :=
  encode bigEndian 4 x.toNat

/-- The unsigned word stored in four bytes. -/
def decodeU32 (bigEndian : Bool) (bytes : Bytes) : UInt32 :=
  UInt32.ofNat (decode bigEndian bytes)

@[simp] theorem length_encodeI32 (bigEndian : Bool) (x : Int32) :
    (encodeI32 bigEndian x).length = 4 := by
  simp [encodeI32]

@[simp] theorem length_encodeU32 (bigEndian : Bool) (x : UInt32) :
    (encodeU32 bigEndian x).length = 4 := by
  simp [encodeU32]

@[simp] theorem decodeI32_encodeI32 (bigEndian : Bool) (x : Int32) :
    decodeI32 bigEndian (encodeI32 bigEndian x) = x := by
  have hx : x.toBitVec.toNat < 256 ^ 4 := x.toBitVec.isLt
  rw [decodeI32, encodeI32, decode_encode bigEndian hx, BitVec.ofNat_toNat,
    BitVec.setWidth_eq, Int32.ofBitVec_toBitVec]

@[simp] theorem decodeU32_encodeU32 (bigEndian : Bool) (x : UInt32) :
    decodeU32 bigEndian (encodeU32 bigEndian x) = x := by
  have hx : x.toNat < 256 ^ 4 := x.toNat_lt
  rw [decodeU32, encodeU32, decode_encode bigEndian hx, UInt32.ofNat_toNat]

/-! ## Slots -/

section Slots

variable {α : Type*}

/-- The `n` elements of `xs` from position `offset`. -/
def readAt (xs : List α) (offset n : Nat) : List α :=
  (xs.drop offset).take n

/-- Replace the elements of `xs` from position `offset` by `ys`. -/
def overwrite (xs : List α) (offset : Nat) (ys : List α) : List α :=
  xs.take offset ++ ys ++ xs.drop (offset + ys.length)

@[simp] theorem length_overwrite {xs ys : List α} {offset : Nat}
    (h : offset + ys.length ≤ xs.length) :
    (overwrite xs offset ys).length = xs.length := by
  simp only [overwrite, List.length_append, List.length_take, List.length_drop]
  omega

theorem length_readAt {xs : List α} {offset n : Nat} (h : offset + n ≤ xs.length) :
    (readAt xs offset n).length = n := by
  simp only [readAt, List.length_take, List.length_drop]
  omega

theorem readAt_readAt (xs : List α) {offset n i k : Nat} (h : i + k ≤ n) :
    readAt (readAt xs offset n) i k = readAt xs (offset + i) k := by
  simp only [readAt, List.drop_take, List.take_take, List.drop_drop]
  congr 1
  omega

theorem readAt_to_end (xs : List α) (offset : Nat) :
    readAt xs offset (xs.length - offset) = xs.drop offset :=
  List.take_of_length_le (by rw [List.length_drop])

/-- A slot that lies inside a prefix is read from the prefix. -/
theorem readAt_append_left {xs ys : List α} {offset n : Nat}
    (h : offset + n ≤ xs.length) : readAt (xs ++ ys) offset n = readAt xs offset n := by
  simp only [readAt]
  rw [List.drop_append_of_le_length (by omega),
    List.take_append_of_le_length (by rw [List.length_drop]; omega)]

theorem readAt_append_right {xs ys : List α} {offset n : Nat} (h : xs.length ≤ offset) :
    readAt (xs ++ ys) offset n = readAt ys (offset - xs.length) n := by
  simp only [readAt]
  rw [List.drop_append, List.drop_of_length_le h, List.nil_append]

/-- The prefix of an append is read back. -/
theorem readAt_append_self {xs ys : List α} {n : Nat} (h : xs.length = n) :
    readAt (xs ++ ys) 0 n = xs := by
  rw [readAt, List.drop_zero, ← h, List.take_left]

theorem readAt_take {xs : List α} {offset n c : Nat} (h : offset + n ≤ c) :
    readAt (xs.take c) offset n = readAt xs offset n := by
  simp only [readAt, List.drop_take, List.take_take]
  congr 1
  omega

theorem getElem?_overwrite {xs ys : List α} {offset : Nat}
    (h : offset + ys.length ≤ xs.length) (i : Nat) :
    (overwrite xs offset ys)[i]? =
      if offset ≤ i ∧ i < offset + ys.length then ys[i - offset]? else xs[i]? := by
  have hlen : (xs.take offset).length = offset := by
    rw [List.length_take]
    omega
  simp only [overwrite, List.append_assoc]
  by_cases h1 : i < offset
  · rw [List.getElem?_append_left (by omega), List.getElem?_take, if_pos h1,
      if_neg (by omega)]
  · rw [List.getElem?_append_right (by omega), hlen]
    by_cases h2 : i < offset + ys.length
    · rw [List.getElem?_append_left (by omega), if_pos (by omega)]
    · rw [List.getElem?_append_right (by omega), List.getElem?_drop,
        if_neg (by omega)]
      congr 1
      omega

/-- The slot just written reads back. -/
theorem readAt_overwrite_self {xs ys : List α} {offset n : Nat}
    (hn : n = ys.length) (h : offset + ys.length ≤ xs.length) :
    readAt (overwrite xs offset ys) offset n = ys := by
  subst hn
  have hlen : (xs.take offset).length = offset := by
    rw [List.length_take]
    omega
  simp only [readAt, overwrite, List.append_assoc]
  rw [List.drop_append_of_le_length (by omega), List.drop_of_length_le (by omega),
    List.nil_append, List.take_left]

/-- A slot apart from the one written is unchanged. -/
theorem readAt_overwrite_disjoint {xs ys : List α} {offset offset' n : Nat}
    (h : offset + ys.length ≤ xs.length)
    (hd : offset' + n ≤ offset ∨ offset + ys.length ≤ offset') :
    readAt (overwrite xs offset ys) offset' n = readAt xs offset' n := by
  apply List.ext_getElem?
  intro i
  simp only [readAt, List.getElem?_take, List.getElem?_drop]
  by_cases hi : i < n
  · rw [if_pos hi, if_pos hi, getElem?_overwrite h, if_neg (by omega)]
  · rw [if_neg hi, if_neg hi]

theorem overwrite_append_left {xs ys zs : List α} {offset : Nat}
    (h : offset + zs.length ≤ xs.length) :
    overwrite (xs ++ ys) offset zs = overwrite xs offset zs ++ ys := by
  simp only [overwrite]
  rw [List.take_append_of_le_length (by omega), List.drop_append_of_le_length h,
    ← List.append_assoc]

/-- What lies before the written slot, and the slot itself. -/
theorem take_overwrite {xs ys : List α} {offset : Nat} (h : offset ≤ xs.length) :
    (overwrite xs offset ys).take (offset + ys.length) = xs.take offset ++ ys := by
  have hlen : (xs.take offset ++ ys).length = offset + ys.length := by
    rw [List.length_append, List.length_take]
    omega
  rw [overwrite, ← hlen, List.take_left]

/-- A write inside a slot just written is a write of the changed slot. -/
theorem overwrite_overwrite {xs ys zs : List α} {offset k : Nat}
    (hys : offset + ys.length ≤ xs.length) (hzs : k + zs.length ≤ ys.length) :
    overwrite (overwrite xs offset ys) (offset + k) zs =
      overwrite xs offset (overwrite ys k zs) := by
  have hlen := length_overwrite hys
  have hin := length_overwrite hzs
  apply List.ext_getElem?
  intro i
  rw [getElem?_overwrite (by omega), getElem?_overwrite hys,
    getElem?_overwrite (by omega), hin]
  by_cases hi : offset ≤ i
  · obtain ⟨j, rfl⟩ : ∃ j, i = offset + j := ⟨i - offset, by omega⟩
    rw [Nat.add_sub_cancel_left, getElem?_overwrite hzs, Nat.add_sub_add_left]
    by_cases hj : k ≤ j ∧ j < k + zs.length
    · rw [if_pos (by omega), if_pos (by omega), if_pos hj]
    · rw [if_neg (by omega), if_neg hj]
  · rw [if_neg (by omega), if_neg (by omega), if_neg (by omega)]

/-- The written slot between its unchanged neighbours. -/
theorem overwrite_middle (xs zs : List α) {ys ws : List α} (h : ws.length = ys.length) :
    overwrite (xs ++ ys ++ zs) xs.length ws = xs ++ ws ++ zs := by
  have hlen : (xs ++ ys).length = xs.length + ws.length := by
    rw [List.length_append, h]
  rw [overwrite, ← hlen, List.drop_left, List.append_assoc xs, List.take_left]

end Slots

/-! ## Groups of four -/

section Chunks

variable {α : Type*}

/-- The complete groups of four elements, in order; a shorter tail is dropped. -/
def chunks4 : List α → List (List α)
  | a :: b :: c :: d :: rest => [a, b, c, d] :: chunks4 rest
  | _ => []

theorem chunks4_eq_nil {xs : List α} (h : xs.length < 4) : chunks4 xs = [] := by
  match xs, h with
  | [], _ | [_], _ | [_, _], _ | [_, _, _], _ => rfl
  | _ :: _ :: _ :: _ :: _, h =>
      simp only [List.length_cons] at h
      omega

theorem length_lt_four {xs : List α}
    (h : ∀ a b c d rest, xs = a :: b :: c :: d :: rest → False) : xs.length < 4 := by
  match xs, h with
  | [], _ | [_], _ | [_, _], _ | [_, _, _], _ => simp
  | a :: b :: c :: d :: rest, h => exact (h a b c d rest rfl).elim

/-- A leading group of four is the first chunk. -/
theorem chunks4_append {xs ys : List α} (h : xs.length = 4) :
    chunks4 (xs ++ ys) = xs :: chunks4 ys := by
  match xs, h with
  | [a, b, c, d], _ => rfl

/-- The chunks are the slots of four at the multiples of four. -/
theorem chunks4_eq_map_readAt (xs : List α) :
    chunks4 xs = (List.range (xs.length / 4)).map fun i => readAt xs (4 * i) 4 := by
  induction xs using chunks4.induct with
  | case1 a b c d rest ih =>
      have hdiv : (a :: b :: c :: d :: rest).length / 4 = rest.length / 4 + 1 := by
        simp only [List.length_cons]
        omega
      have htail : ∀ i, readAt (a :: b :: c :: d :: rest) (4 * (i + 1)) 4 =
          readAt rest (4 * i) 4 := by
        intro i
        rw [readAt, readAt, Nat.mul_add_one]
        rfl
      rw [chunks4, hdiv, List.range_succ_eq_map, List.map_cons, List.map_map, ih]
      exact congrArg _ (List.map_congr_left fun i _ => (htail i).symm)
  | case2 xs h =>
      have hlt := length_lt_four h
      rw [chunks4_eq_nil hlt, Nat.div_eq_of_lt hlt, List.range_zero, List.map_nil]

/-- Cutting the input keeps exactly the groups that end before the cut. -/
theorem chunks4_take (xs : List α) (n : Nat) :
    chunks4 (xs.take n) = (chunks4 xs).take (n / 4) := by
  induction xs using chunks4.induct generalizing n with
  | case1 a b c d rest ih =>
      by_cases hn : n < 4
      · rw [chunks4_eq_nil (by rw [List.length_take]; omega),
          Nat.div_eq_of_lt hn, List.take_zero]
      · obtain ⟨m, rfl⟩ : ∃ m, n = m + 4 := ⟨n - 4, by omega⟩
        have hdiv : (m + 4) / 4 = m / 4 + 1 := by omega
        simp only [List.take_succ_cons, chunks4, ih, hdiv]
  | case2 xs h =>
      have hlt := length_lt_four h
      rw [chunks4_eq_nil (by rw [List.length_take]; omega), chunks4_eq_nil hlt,
        List.take_nil]

/-- Joining groups of four and cutting them again changes nothing. -/
theorem chunks4_flatMap {β : Type*} (f : β → List α) (hf : ∀ b, (f b).length = 4)
    (bs : List β) : chunks4 (bs.flatMap f) = bs.map f := by
  induction bs with
  | nil => rfl
  | cons b bs ih => rw [List.flatMap_cons, chunks4_append (hf b), ih, List.map_cons]

end Chunks

end ByteCodec
