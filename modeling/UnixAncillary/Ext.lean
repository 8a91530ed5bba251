import UnixAncillary.Ancillary
import UnixAncillary.Cmsg

/-!
# The convenience operations

The scalar and vectored sends and the receives with a descriptor-count policy, as
`ext.rs` implements them for the blocking and the asynchronous traits.
-/

namespace UnixAncillary

open ByteCodec HandleTable Program Program.Prog

def DEFAULT_STREAM_BUF : Nat := 4096

def DEFAULT_DATAGRAM_BUF : Nat := 65536

/-- Datagrams reject payload truncation; streams cannot truncate. -/
inductive SocketKind where
  | stream
  | datagram
  deriving DecidableEq

/-- Descriptor-count policy: up-to keeps the first `n` and closes the surplus, exact
errors unless the peer sent exactly `n`. -/
inductive CountMode where
  | upTo (n : Nat)
  | exact (n : Nat)
  deriving DecidableEq

def CountMode.count : CountMode → Nat
  | upTo n => n
  | exact n => n

structure ReceivedFds where
  data : Bytes
  fds : List RawFd
  surplusClosed : Nat
  deriving DecidableEq

variable (t : Target)

/-! ## Sends -/

/-- The error of a stream send that would carry descriptors without a payload. -/
def streamPayloadError : IoError :=
  .custom .invalidInput "SCM_RIGHTS over a Unix stream requires at least one payload byte"

def validateStreamSend (data : Bytes) (fdCount : Nat) : Sys Unit :=
  if data = [] ∧ fdCount ≠ 0 then throw streamPayloadError else pure ()

/-- Run `f` with `size` zeroed bytes of control storage. Small sizes come from the
stack and large ones from the heap; the bytes are the same. -/
def withControl {α : Type} (size : Nat) (f : Bytes → Sys α) : Sys α :=
  f (List.replicate size 0)

def controlError (_ : AncillaryError) : IoError :=
  .custom .invalidInput AncillaryError.message

def sendFdsVectoredImpl (iov : List Bytes) (fds : List RawFd) : Sys Nat :=
  -- No descriptors: send no control message, not an empty SCM_RIGHTS header.
  if fds = [] then sendmsgVectored t iov [] 0
  else do
    let size ← ofExcept (t.layout.bufferSizeForRights fds.length)
    withControl size fun buf => do
      let (_, ancillary) ← withLocal (.new buf) controlError (SocketAncillary.addRights t fds)
      sendmsgVectored t iov ancillary.buffer ancillary.length

def sendFdsImpl (data : Bytes) (fds : List RawFd) : Sys Nat :=
  sendFdsVectoredImpl t [data] fds

/-! ## Receives -/

def controlOverflowError : IoError :=
  .custom .invalidInput "ancillary buffer size overflow"

/-- The control buffer that a receive reserves. -/
def recvControlSize (mode : CountMode) : Sys Nat := do
  let budget ← maxRecvFds t
  let size ← ofExcept (t.layout.bufferSizeForRights (max mode.count budget))
  if t.hasCredentials then
    let credentials ← ofExcept t.layout.bufferSizeForCredentials
    okOr controlOverflowError (t.layout.checkedAdd size credentials)
  else pure size

/-- How the sizing ends under a descriptor limit. -/
def controlSizeAt (mode : CountMode) (rlimit : Option Nat) :
    Outcome IoError Panic Syscall Nat :=
  match t.layout.bufferSizeForRights (max mode.count (maxRecvFdsAt t rlimit)) with
  | .error p => .panic p
  | .ok size =>
      if t.hasCredentials then
        match t.layout.bufferSizeForCredentials with
        | .error p => .panic p
        | .ok credentials =>
            match t.layout.checkedAdd size credentials with
            | none => .err controlOverflowError
            | some total => .ok total
      else .ok size

/-- The sizing depends on the descriptor limit alone and changes nothing. -/
theorem run_recvControlSize (mode : CountMode) (w : World) :
    (recvControlSize t mode).run w = (controlSizeAt t mode w.rlimit, w) := by
  rw [recvControlSize, maxRecvFds, bind_ok (run_read ..), controlSizeAt]
  cases t.layout.bufferSizeForRights (max mode.count (maxRecvFdsAt t w.rlimit)) with
  | error p => rfl
  | ok size =>
      rw [bind_ok (run_ofExcept_ok ..)]
      cases t.hasCredentials with
      | false => rfl
      | true =>
          simp only [if_true]
          cases t.layout.bufferSizeForCredentials with
          | error p => rfl
          | ok credentials =>
              rw [bind_ok (run_ofExcept_ok ..)]
              simp only
              cases t.layout.checkedAdd size credentials <;> rfl

/-- The control bytes reserved for a receive. -/
def controlCapacity (mode : CountMode) (rlimit : Option Nat) : Nat :=
  t.layout.CMSG_SPACE (max mode.count (maxRecvFdsAt t rlimit) * 4) +
    if t.hasCredentials then t.layout.CMSG_SPACE ScmCredentials.SIZE else 0

/-- The largest control buffer of a receive is a `usize`. -/
def Target.ControlFits : Prop :=
  t.layout.CMSG_SPACE i32Max + t.layout.CMSG_SPACE ScmCredentials.SIZE ≤ t.layout.usizeMax

instance : Decidable t.ControlFits := inferInstanceAs (Decidable (_ ≤ _))

theorem controlSizeAt_eq (hfit : t.ControlFits) {mode : CountMode} {rlimit : Option Nat}
    (h : max mode.count (maxRecvFdsAt t rlimit) * 4 ≤ i32Max) :
    controlSizeAt t mode rlimit = .ok (controlCapacity t mode rlimit) := by
  have hmono := t.layout.space_mono h le_rfl
  rw [Target.ControlFits] at hfit
  rw [controlSizeAt, t.layout.bufferSizeForRights_eq h, t.layout.bufferSizeForCredentials_eq,
    controlCapacity]
  cases t.hasCredentials with
  | false => rfl
  | true =>
      simp only [if_true]
      rw [Layout.checkedAdd, if_pos (by omega)]

/-- A size is never anything but the capacity. -/
theorem controlSizeAt_ok {mode : CountMode} {rlimit : Option Nat} {size : Nat}
    (h : max mode.count (maxRecvFdsAt t rlimit) * 4 ≤ i32Max)
    (hsize : controlSizeAt t mode rlimit = .ok size) : size = controlCapacity t mode rlimit := by
  rw [controlSizeAt, t.layout.bufferSizeForRights_eq h, t.layout.bufferSizeForCredentials_eq]
    at hsize
  rw [controlCapacity]
  cases hcreds : t.hasCredentials with
  | false =>
      simp only [hcreds, Bool.false_eq_true, if_false, Outcome.ok.injEq] at hsize
      exact hsize.symm
  | true =>
      simp only [hcreds, if_true, Layout.checkedAdd] at hsize
      by_cases hle : t.layout.CMSG_SPACE (max mode.count (maxRecvFdsAt t rlimit) * 4) +
          t.layout.CMSG_SPACE ScmCredentials.SIZE ≤ t.layout.usizeMax
      · simp only [if_pos hle, Outcome.ok.injEq] at hsize
        exact hsize.symm
      · simp only [if_neg hle] at hsize
        cases hsize

/-- A receive whose sizing succeeds asks for a number of descriptors that fits one message. -/
theorem count_le_of_controlSizeAt {mode : CountMode} {rlimit : Option Nat} {size : Nat}
    (hsize : controlSizeAt t mode rlimit = .ok size) :
    max mode.count (maxRecvFdsAt t rlimit) * 4 ≤ i32Max := by
  by_contra hmax
  have hpanic : ∃ p, t.layout.bufferSizeForRights (max mode.count (maxRecvFdsAt t rlimit)) =
      .error p := by
    simp only [Layout.bufferSizeForRights, Layout.checkedMul]
    by_cases hmul : max mode.count (maxRecvFdsAt t rlimit) * 4 ≤ t.layout.usizeMax
    · rw [if_pos hmul]
      simp only [Layout.cmsgSpace_eq, Layout.space?, if_neg hmax]
      exact ⟨_, rfl⟩
    · rw [if_neg hmul]
      exact ⟨_, rfl⟩
  obtain ⟨p, hp⟩ := hpanic
  rw [controlSizeAt, hp] at hsize
  cases hsize

/-- `msg_controllen` holds the capacity of a receive. -/
theorem count_controlSizeAt {mode : CountMode} {rlimit : Option Nat} {size : Nat}
    (hsize : controlSizeAt t mode rlimit = .ok size) : t.msgControllen.count size = size := by
  have hmax := count_le_of_controlSizeAt t hsize
  have hmono := t.layout.space_mono hmax le_rfl
  have hspace := (t.layout.space_lt _ hmax).trans t.layout.u32Max_le_usizeMax
  have hsum := controlSizeAt_ok t hmax hsize
  rw [controlSizeAt, t.layout.bufferSizeForRights_eq hmax, t.layout.bufferSizeForCredentials_eq]
    at hsize
  rw [controlCapacity] at hsum
  refine t.controllen_fits size ?_ ?_
  · cases hcreds : t.hasCredentials with
    | false =>
        rw [hcreds, if_neg Bool.false_ne_true] at hsum
        omega
    | true =>
        simp only [hcreds, if_true, Layout.checkedAdd] at hsize
        split at hsize
        · cases hsize
        case h_2 total htotal =>
            split at htotal
            case isTrue hle =>
                cases htotal
                cases hsize
                exact hle
            case isFalse => cases htotal
  · rw [hsum]
    split
    · omega
    · omega

/-- The capacity that the kernel sees is the one that the receive reserved. -/
theorem recvCall_control {mode : CountMode} {rlimit : Option Nat} {size : Nat}
    (hsize : controlSizeAt t mode rlimit = .ok size) (peek : Bool) (w : World) :
    (recvCall t size peek w).control = size :=
  count_controlSizeAt t hsize

def ancillaryTruncatedError : IoError :=
  .custom .invalidData "ancillary data truncated; discard the incomplete message"

def payloadTruncatedError : IoError :=
  .custom .invalidData "datagram payload truncated before it fit the receive buffer"

def countError (n received : Nat) : IoError :=
  .custom .invalidData s!"expected exactly {n} file descriptors, received {received}"

/-- Fail after closing the descriptors received so far. -/
def rejectFds {α : Type} (fds : List RawFd) (error : IoError) : Sys α := do
  dropFds fds
  throw error

/-- What `recv_core` does with the descriptors it owns. -/
def applyPolicy (kind : SocketKind) (mode : CountMode) (result : RecvMsgResult)
    (fds : List RawFd) : Sys (Nat × List RawFd × Nat) := do
  if result.ancillaryTruncated then rejectFds fds ancillaryTruncatedError
  else if kind = .datagram ∧ result.dataTruncated then rejectFds fds payloadTruncatedError
  else
    match mode with
    | .upTo n =>
        let surplus := fds.length - n
        dropFds (fds.drop n)
        pure (result.bytesRead, fds.take n, surplus)
    | .exact n =>
        if fds.length ≠ n then rejectFds fds (countError n fds.length)
        else pure (result.bytesRead, fds, 0)

/-- The result is `(bytes_read, fds, surplus_closed)`. -/
def recvCore (kind : SocketKind) (mode : CountMode) : Sys (Nat × List RawFd × Nat) := do
  let size ← recvControlSize t mode
  let (result, fds) ← withControl size fun buf => recvFds t buf
  applyPolicy kind mode result fds

def recvFdsIntoVectoredImpl (kind : SocketKind) (mode : CountMode) :
    Sys (Nat × List RawFd) := do
  let (bytesRead, fds, _) ← recvCore t kind mode
  pure (bytesRead, fds)

def recvFdsIntoImpl (kind : SocketKind) (mode : CountMode) : Sys (Nat × List RawFd) :=
  recvFdsIntoVectoredImpl t kind mode

/-- Move the data buffer out of the receive: `std::mem::take(data_buf)`. -/
def takeDataBuf : Sys Bytes := do
  let data ← read (·.iov.flatten)
  update fun w => { w with iov := [[]] }
  pure data

/-- Receive into the data buffer and move it into a `ReceivedFds`. On an error the
buffer stays in place for a retry. -/
def recvOwnedImpl (kind : SocketKind) (mode : CountMode) : Sys ReceivedFds := do
  let (bytesRead, fds, surplusClosed) ← recvCore t kind mode
  let data ← takeDataBuf
  pure ⟨data.take bytesRead, fds, surplusClosed⟩

/-- The buffers that the caller passes to a receive. -/
def setIov (bufs : List Bytes) : Sys Unit := update fun w => { w with iov := bufs }

def zeroed (n : Nat) : Bytes := List.replicate n 0

end UnixAncillary
