import UnixAncillary.Format
import UnixAncillary.Received

/-!
# The ancillary buffer

`SocketAncillary` and its operations, with every check and every write in the
order of the source, so that the state left by an early return is the one the
code leaves. `addFds_eq` and `addCredentials_eq` say exactly when an add is
accepted and what it does: it writes the canonical layout of one message behind
the previous ones, or leaves the whole object as it was.
-/

namespace UnixAncillary

open ByteCodec HandleTable Program Program.Prog

/-- The ancillary buffer is too small, or must be cleared before building a send. -/
structure AncillaryError where
  deriving DecidableEq

def AncillaryError.message : String :=
  "ancillary buffer too small or not cleared after receive"

structure SocketAncillary where
  buffer : Bytes
  length : Nat
  truncated : Bool
  received : List ReceivedMessage
  receiveMode : Bool

/-- An operation on one `SocketAncillary`; what it leaves behind on an error counts. -/
abbrev Building (α : Type) : Type := Prog SocketAncillary AncillaryError Panic Syscall α

namespace Layout

variable (ℓ : Layout)

def checkedAdd (m n : Nat) : Option Nat :=
  if m + n ≤ ℓ.usizeMax then some (m + n) else none

def checkedMul (m n : Nat) : Option Nat :=
  if m * n ≤ ℓ.usizeMax then some (m * n) else none

/-- `try_into` from `usize` to the type of `cmsg_len`. -/
def toCmsgLen (n : Nat) : Option Nat :=
  if n < 256 ^ ℓ.cmsghdr.lenWidth then some n else none

/-- `expect` on a size. -/
def expectSpace (message : String) : Option Nat → Except Panic Nat
  | some size => .ok size
  | none => .error (.expectFailed message)

/-- Buffer size for one SCM_RIGHTS message of `numFds` descriptors. -/
def bufferSizeForRights (numFds : Nat) : Except Panic Nat :=
  match ℓ.checkedMul numFds 4 with
  | none => .error (.expectFailed "ancillary buffer size overflow")
  | some bytes => ℓ.cmsgSpace bytes >>= expectSpace "ancillary buffer size overflow"

def bufferSizeForCredentials : Except Panic Nat :=
  ℓ.cmsgSpace ScmCredentials.SIZE >>= expectSpace "credentials fit in usize"

theorem bufferSizeForRights_eq {n : Nat} (h : n * 4 ≤ i32Max) :
    ℓ.bufferSizeForRights n = .ok (ℓ.CMSG_SPACE (n * 4)) := by
  have hmax : n * 4 ≤ ℓ.usizeMax :=
    (h.trans (by decide : i32Max ≤ u32Max)).trans ℓ.u32Max_le_usizeMax
  simp only [bufferSizeForRights, checkedMul, if_pos hmax, cmsgSpace_eq, space?, if_pos h]
  rfl

theorem bufferSizeForCredentials_eq :
    ℓ.bufferSizeForCredentials = .ok (ℓ.CMSG_SPACE ScmCredentials.SIZE) := by
  have h : ScmCredentials.SIZE ≤ i32Max := by decide
  simp only [bufferSizeForCredentials, cmsgSpace_eq, space?, if_pos h]
  rfl

end Layout

namespace SocketAncillary

def new (buffer : Bytes) : SocketAncillary := ⟨buffer, 0, false, [], false⟩

variable (t : Target)

/-- Write a control header; the result is where its zeroed payload starts. -/
def reserveCmsg (level kind : Int32) (payloadLen : Nat) : Building Nat := do
  let anc ← read id
  if anc.receiveMode then throw ⟨⟩
  else
    let space ← ofExcept (t.layout.cmsgSpace payloadLen)
    let space ← okOr ⟨⟩ space
    let stop ← okOr ⟨⟩ (t.layout.checkedAdd anc.length space)
    if anc.buffer.length < stop then throw ⟨⟩
    else
      let length ← okOr ⟨⟩ (t.layout.checkedAdd t.layout.headerLen payloadLen)
      let cmsgLen ← okOr ⟨⟩ (t.layout.toCmsgLen length)
      let start := anc.length
      update fun anc => { anc with length := stop }
      let bytes ← ofExcept (slice anc.buffer start stop)
      let bytes := t.layout.writeHeader (List.replicate bytes.length 0) ⟨cmsgLen, level, kind⟩
      update fun anc => { anc with buffer := overwrite anc.buffer start bytes }
      let _ ← ofExcept (slice bytes t.layout.headerLen length)
      pure (start + t.layout.headerLen)

/-- `copy_from_slice` into the payload at `offset`. -/
def fill (offset : Nat) (payload : Bytes) : Building Unit :=
  update fun anc => { anc with buffer := overwrite anc.buffer offset payload }

/-- The payload of one SCM_RIGHTS message. -/
def encodeFds (fds : List RawFd) : Bytes := fds.flatMap (encodeI32 t.layout.bigEndian)

/-- Encode descriptor numbers into the buffer. An empty list writes nothing. -/
def addRights (fds : List RawFd) : Building Unit := do
  if (← read id).receiveMode then throw ⟨⟩
  else if fds.length = 0 then pure ()
  else
    let len ← okOr ⟨⟩ (t.layout.checkedMul fds.length 4)
    let payload ← reserveCmsg t t.SOL_SOCKET t.SCM_RIGHTS len
    fill payload (encodeFds t fds)

def addFds (fds : List RawFd) : Building Unit := addRights t fds

def addCredentials (creds : ScmCredentials) : Building Unit := do
  let bytes := creds.toUcred t.layout.bigEndian
  let payload ← reserveCmsg t t.SOL_SOCKET SCM_CREDENTIALS bytes.length
  fill payload bytes

/-- Drain the received messages into an iterator. -/
def messages : Building (List ReceivedMessage) := do
  let anc ← read id
  update fun anc => { anc with received := [] }
  pure anc.received

def isTruncated (anc : SocketAncillary) : Bool := anc.truncated

/-- The descriptors owned by unread messages. -/
def receivedFds (anc : SocketAncillary) : List RawFd :=
  anc.received.flatMap ReceivedMessage.fds

/-- Close unread descriptors and reset the storage for a new send. -/
def clear (s : SocketAncillary × World) : SocketAncillary × World :=
  ({ s.1 with received := [], length := 0, truncated := false, receiveMode := false },
    s.2.close s.1.receivedFds)

/-! ## What an add does -/

/-- The message of a non-empty `add_fds`. -/
def rightsMessage (fds : List RawFd) : RawMessage :=
  ⟨t.SOL_SOCKET, t.SCM_RIGHTS, encodeFds t fds⟩

/-- The message of an `add_credentials`. -/
def credentialsMessage (creds : ScmCredentials) : RawMessage :=
  ⟨t.SOL_SOCKET, SCM_CREDENTIALS, creds.toUcred t.layout.bigEndian⟩

/-- The buffer accepts a message of `n` payload bytes. -/
def Fits (anc : SocketAncillary) (n : Nat) : Prop :=
  anc.receiveMode = false ∧ n ≤ i32Max ∧
    anc.length + t.layout.CMSG_SPACE n ≤ anc.buffer.length

instance (anc : SocketAncillary) (n : Nat) : Decidable (Fits t anc n) :=
  inferInstanceAs (Decidable (_ ∧ _ ∧ _))

/-- The buffer with one more message behind the previous ones. -/
def append (anc : SocketAncillary) (m : RawMessage) : SocketAncillary :=
  { anc with
    length := anc.length + t.layout.CMSG_SPACE m.data.length
    buffer := overwrite anc.buffer anc.length (t.layout.encodeMessage m) }

@[simp] theorem length_encodeFds (fds : List RawFd) :
    (encodeFds t fds).length = fds.length * 4 := by
  induction fds with
  | nil => rfl
  | cons fd fds ih =>
      simp only [encodeFds, List.flatMap_cons, List.length_append, length_encodeI32,
        List.length_cons] at ih ⊢
      omega

/-- The space reserved by a message, before its payload is filled in. -/
theorem reserved_eq {level kind : Int32} {n : Nat} (h : n ≤ i32Max) :
    t.layout.writeHeader (List.replicate (t.layout.CMSG_SPACE n) 0)
        ⟨t.layout.headerLen + n, level, kind⟩ =
      t.layout.encodeHeader level kind n ++ List.replicate n 0 ++
        List.replicate (t.layout.CMSG_SPACE n - (t.layout.headerLen + n)) 0 := by
  have hge := t.layout.space_ge n h
  have hzero : List.replicate (t.layout.CMSG_SPACE n) (0 : UInt8) =
      List.replicate t.layout.headerLen 0 ++ (List.replicate n 0 ++
        List.replicate (t.layout.CMSG_SPACE n - (t.layout.headerLen + n)) 0) := by
    rw [← List.replicate_add, ← List.replicate_add]
    congr 1
    omega
  rw [hzero, t.layout.writeHeader_append _
    (by rw [List.length_replicate]; exact t.layout.size_le_headerLen), List.append_assoc]
  rfl

variable {t} {anc : SocketAncillary}

/-- An accepted reservation writes a header over zeroed bytes. -/
theorem reserveCmsg_of_fits {level kind : Int32} {n : Nat}
    (hbuf : anc.buffer.length ≤ t.layout.usizeMax) (h : Fits t anc n) :
    (reserveCmsg t level kind n).run anc = (.ok (anc.length + t.layout.headerLen),
      { anc with
        length := anc.length + t.layout.CMSG_SPACE n
        buffer := overwrite anc.buffer anc.length
          (t.layout.encodeHeader level kind n ++ List.replicate n 0 ++
            List.replicate (t.layout.CMSG_SPACE n - (t.layout.headerLen + n)) 0) }) := by
  obtain ⟨hmode, hn, hfit⟩ := h
  have hge := t.layout.space_ge n hn
  have hlen := cmsgLen_lt t.layout.toLayout hn
  have hslice : slice anc.buffer anc.length (anc.length + t.layout.CMSG_SPACE n) =
      .ok (readAt anc.buffer anc.length (t.layout.CMSG_SPACE n)) := by
    rw [slice_eq (by omega) hfit, Nat.add_sub_cancel_left]
  have hread := length_readAt hfit
  have hpayload : slice (t.layout.encodeHeader level kind n ++ List.replicate n 0 ++
      List.replicate (t.layout.CMSG_SPACE n - (t.layout.headerLen + n)) 0)
      t.layout.headerLen (t.layout.headerLen + n) = .ok (List.replicate n 0) := by
    rw [slice_eq (by omega) (by
      simp only [List.length_append, length_encodeHeader, List.length_replicate]
      omega), List.append_assoc, readAt_append_right (by rw [length_encodeHeader]),
      length_encodeHeader, Nat.sub_self, Nat.add_sub_cancel_left,
      readAt_append_self (List.length_replicate ..)]
  rw [reserveCmsg]
  simp only [run_bind, andThen, run_read, id_eq, hmode, Bool.false_eq_true, if_false,
    Layout.cmsgSpace_eq, run_ofExcept_ok, Layout.space?, if_pos hn, run_okOr_some,
    Layout.checkedAdd, if_pos (hfit.trans hbuf), if_neg (Nat.not_lt.mpr hfit),
    if_pos (show t.layout.headerLen + n ≤ t.layout.usizeMax by omega), Layout.toCmsgLen,
    if_pos hlen, run_update, hslice, hread, reserved_eq t hn, hpayload, run_pure]

/-- A rejected reservation leaves the whole object as it was. -/
theorem reserveCmsg_of_not_fits {level kind : Int32} {n : Nat} (h : ¬ Fits t anc n) :
    (reserveCmsg t level kind n).run anc = (.err ⟨⟩, anc) := by
  rw [reserveCmsg]
  simp only [run_bind, andThen, run_read, id_eq]
  by_cases hmode : anc.receiveMode = true
  · rw [if_pos hmode, run_throw]
  · rw [if_neg hmode]
    by_cases hn : n ≤ i32Max
    · have hfit : anc.buffer.length < anc.length + t.layout.CMSG_SPACE n := by
        by_contra hfit
        exact h ⟨by simpa using hmode, hn, by omega⟩
      by_cases hadd : anc.length + t.layout.CMSG_SPACE n ≤ t.layout.usizeMax <;>
        simp [run_bind, andThen, Layout.space?, Layout.checkedAdd, hn, hadd, hfit]
    · simp [run_bind, andThen, Layout.space?, hn]

/-- Filling the payload completes the canonical layout of the message. -/
theorem overwrite_payload {buffer : Bytes} {start : Nat} {m : RawMessage}
    (hm : m.data.length ≤ i32Max)
    (hfit : start + t.layout.CMSG_SPACE m.data.length ≤ buffer.length) :
    overwrite (overwrite buffer start
        (t.layout.encodeHeader m.level m.kind m.data.length ++
          List.replicate m.data.length 0 ++
          List.replicate (t.layout.CMSG_SPACE m.data.length -
            (t.layout.headerLen + m.data.length)) 0))
        (start + t.layout.headerLen) m.data =
      overwrite buffer start (t.layout.encodeMessage m) := by
  have hge := t.layout.space_ge _ hm
  have hzeros : m.data.length = (List.replicate m.data.length (0 : UInt8)).length :=
    List.length_replicate.symm
  have hmiddle := overwrite_middle (t.layout.encodeHeader m.level m.kind m.data.length)
    (List.replicate (t.layout.CMSG_SPACE m.data.length -
      (t.layout.headerLen + m.data.length)) 0) hzeros
  rw [length_encodeHeader] at hmiddle
  rw [overwrite_overwrite _ _, hmiddle]
  · rfl
  all_goals
    simp only [List.length_append, length_encodeHeader, List.length_replicate]
    omega

/-- Reserving and filling appends the message. -/
theorem reserve_fill_of_fits {m : RawMessage} (hbuf : anc.buffer.length ≤ t.layout.usizeMax)
    (h : Fits t anc m.data.length) :
    (reserveCmsg t m.level m.kind m.data.length >>= fun payload => fill payload m.data).run anc =
      (.ok (), append t anc m) := by
  rw [bind_ok (reserveCmsg_of_fits hbuf h), fill, run_update]
  simp only [overwrite_payload h.2.1 h.2.2, append]

/-- `add_fds` accepts a list exactly when the buffer is not in receive mode and the
list is empty or its message fits; otherwise it changes nothing. -/
theorem addFds_eq (hbuf : anc.buffer.length ≤ t.layout.usizeMax) (fds : List RawFd) :
    (addFds t fds).run anc =
      if anc.receiveMode = true then (.err ⟨⟩, anc)
      else if fds = [] then (.ok (), anc)
      else if Fits t anc (fds.length * 4) then (.ok (), append t anc (rightsMessage t fds))
      else (.err ⟨⟩, anc) := by
  rw [addFds, addRights]
  simp only [run_bind (m := read id), andThen, run_read, id_eq, List.length_eq_zero_iff]
  split
  · rfl
  split
  · rfl
  have hmax := t.layout.u32Max_le_usizeMax
  have hmsg : (rightsMessage t fds).data.length = fds.length * 4 := length_encodeFds t fds
  by_cases hmul : fds.length * 4 ≤ t.layout.usizeMax
  · rw [Layout.checkedMul, if_pos hmul, bind_ok (run_okOr_some ..)]
    split
    case isTrue hfit =>
        rw [← hmsg] at hfit ⊢
        exact reserve_fill_of_fits (m := rightsMessage t fds) hbuf hfit
    case isFalse hfit =>
        rw [bind_err (reserveCmsg_of_not_fits hfit)]
  · rw [Layout.checkedMul, if_neg hmul, bind_err (run_okOr_none ..), if_neg]
    rintro ⟨-, hn, -⟩
    have : i32Max ≤ u32Max := by decide
    omega

/-- `add_credentials` accepts the credentials exactly when their message fits;
otherwise it changes nothing. -/
theorem addCredentials_eq (hbuf : anc.buffer.length ≤ t.layout.usizeMax)
    (creds : ScmCredentials) :
    (addCredentials t creds).run anc =
      if Fits t anc ScmCredentials.SIZE then
        (.ok (), append t anc (credentialsMessage t creds))
      else (.err ⟨⟩, anc) := by
  have hlen : (creds.toUcred t.layout.bigEndian).length = ScmCredentials.SIZE :=
    ScmCredentials.length_toUcred ..
  rw [addCredentials]
  split
  case isTrue hfit =>
      rw [← hlen] at hfit
      exact reserve_fill_of_fits (m := credentialsMessage t creds) hbuf hfit
  case isFalse hfit =>
      rw [← hlen] at hfit
      rw [bind_err (reserveCmsg_of_not_fits hfit)]

end SocketAncillary

end UnixAncillary
