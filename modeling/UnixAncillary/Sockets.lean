import UnixAncillary.Ext
import UnixAncillary.Lib.Retry

/-!
# The socket traits

Every operation comes as a blocking call and, where the crate has it, as the same
closures run under tokio's `async_io`. `Runtime.io` is the only difference, so each
shared body is written once and instantiated for both.
-/

namespace UnixAncillary

open ByteCodec HandleTable Program Program.Prog

/-- Whether an operation blocks in the kernel or is driven by tokio readiness. -/
inductive Runtime where
  | blocking
  | tokio
  deriving DecidableEq

def IoError.isWouldBlock (e : IoError) : Bool := e.kind = .wouldBlock

theorem isWouldBlock_os {e : OsError} : (IoError.os e).isWouldBlock = true ↔ e = .EAGAIN := by
  simp [IoError.isWouldBlock, IoError.kind, OsError.kind_eq_wouldBlock]

def failsWith {α : Type} (e : OsError) : Except OsError α → Bool
  | .error e' => e' = e
  | .ok _ => false

/-- The answers to come that are `WouldBlock`. -/
def World.wouldBlocks (w : World) : Nat :=
  w.sends.countP (failsWith .EAGAIN) + w.recvs.countP (failsWith .EAGAIN)

/-- tokio's `async_io`: call the closure again while it returns `WouldBlock`, and
return the first other result. One call is allowed for every `WouldBlock` answer to
come, after which the task is left waiting for readiness. -/
def asyncIo {α : Type} (f : Sys α) : Sys α :=
  ⟨fun w => (f.retry IoError.isWouldBlock .readiness w.wouldBlocks).run w⟩

def Runtime.io {α : Type} : Runtime → Sys α → Sys α
  | blocking, f => f
  | tokio, f => asyncIo f

/-! ## Shared bodies -/

section Bodies

variable (t : Target) (rt : Runtime)

def streamSendFds (data : Bytes) (fds : List RawFd) : Sys Nat := do
  validateStreamSend data fds.length
  rt.io (sendFdsImpl t data fds)

/-- Total payload bytes across the slices, summed as `usize`. -/
def iovLen (iov : List Bytes) : Except Panic Nat :=
  (iov.map List.length).foldlM t.addUsize 0

def streamSendFdsVectored (iov : List Bytes) (fds : List RawFd) : Sys Nat := do
  if fds ≠ [] then
    let total ← ofExcept (iovLen t iov)
    if total = 0 then throw streamPayloadError
    else rt.io (sendFdsVectoredImpl t iov fds)
  else rt.io (sendFdsVectoredImpl t iov fds)

/-- The completion loop of `send_fds_all`. Every turn sends at least one byte, so the
loop test fails within `data.length` turns. -/
def sendRest (data : Bytes) : Nat → Nat → Sys Unit
  | 0, _ => pure ()
  | fuel + 1, sent =>
      if sent < data.length then do
        let n ← rt.io (sendBytes t (data.drop sent))
        if n = 0 then throw (.custom .writeZero "short write")
        else sendRest data fuel (sent + n)
      else pure ()

/-- The first send of `send_fds_all`: how many bytes it sent. -/
def sendFirst (data : Bytes) (fds : List RawFd) : Sys Nat := do
  if fds = [] then pure 0
  else
    let first ← rt.io (sendFdsImpl t data fds)
    if first = 0 then throw (.custom .writeZero "failed to send fd payload byte")
    else pure first

def streamSendFdsAll (data : Bytes) (fds : List RawFd) : Sys Unit := do
  validateStreamSend data fds.length
  let sent ← sendFirst t rt data fds
  sendRest t rt data data.length sent

def datagramSendFds (data : Bytes) (fds : List RawFd) : Sys Nat :=
  rt.io (sendFdsImpl t data fds)

/-- A receive into a fresh buffer of `size` bytes. -/
def recvOwned (kind : SocketKind) (mode : CountMode) (size : Nat) : Sys ReceivedFds := do
  setIov [zeroed size]
  rt.io (recvOwnedImpl t kind mode)

/-- A receive into a caller-supplied buffer. -/
def recvInto (kind : SocketKind) (mode : CountMode) (dataBuf : Bytes) :
    Sys (Nat × List RawFd) := do
  setIov [dataBuf]
  rt.io (recvFdsIntoImpl t kind mode)

/-- A receive into several caller-supplied buffers. -/
def recvVectored (kind : SocketKind) (mode : CountMode) (iov : List Bytes) :
    Sys (Nat × List RawFd) := do
  setIov iov
  rt.io (recvFdsIntoVectoredImpl t kind mode)

end Bodies

/-! ## Streams -/

namespace UnixStreamExt

variable (t : Target) (rt : Runtime)

def sendFds (data : Bytes) (fds : List RawFd) : Sys Nat := streamSendFds t rt data fds

def sendFdsVectored (iov : List Bytes) (fds : List RawFd) : Sys Nat :=
  streamSendFdsVectored t rt iov fds

def sendFdsAll (data : Bytes) (fds : List RawFd) : Sys Unit := streamSendFdsAll t rt data fds

def recvFdsVectored (n : Nat) (iov : List Bytes) : Sys (Nat × List RawFd) :=
  recvVectored t rt .stream (.upTo n) iov

def recvFds (n : Nat) : Sys ReceivedFds :=
  recvOwned t rt .stream (.upTo n) DEFAULT_STREAM_BUF

def recvFdsInto (n : Nat) (dataBuf : Bytes) : Sys (Nat × List RawFd) :=
  recvInto t rt .stream (.upTo n) dataBuf

def recvFdsExact (n : Nat) : Sys ReceivedFds :=
  recvOwned t rt .stream (.exact n) DEFAULT_STREAM_BUF

def recvFdsExactInto (n : Nat) (dataBuf : Bytes) : Sys (Nat × List RawFd) :=
  recvInto t rt .stream (.exact n) dataBuf

end UnixStreamExt

/-! ## Datagrams -/

namespace UnixDatagramExt

variable (t : Target) (rt : Runtime)

def sendFds (data : Bytes) (fds : List RawFd) : Sys Nat := datagramSendFds t rt data fds

/-- Blocking only. -/
def sendFdsVectored (iov : List Bytes) (fds : List RawFd) : Sys Nat :=
  sendFdsVectoredImpl t iov fds

/-- Blocking only. -/
def recvFdsVectored (n : Nat) (iov : List Bytes) : Sys (Nat × List RawFd) :=
  recvVectored t .blocking .datagram (.upTo n) iov

def recvFds (n : Nat) : Sys ReceivedFds :=
  recvOwned t rt .datagram (.upTo n) DEFAULT_DATAGRAM_BUF

def recvFdsInto (n : Nat) (dataBuf : Bytes) : Sys (Nat × List RawFd) :=
  recvInto t rt .datagram (.upTo n) dataBuf

def recvFdsExact (n : Nat) : Sys ReceivedFds :=
  recvOwned t rt .datagram (.exact n) DEFAULT_DATAGRAM_BUF

def recvFdsExactInto (n : Nat) (dataBuf : Bytes) : Sys (Nat × List RawFd) :=
  recvInto t rt .datagram (.exact n) dataBuf

end UnixDatagramExt

/-! ## Seqpacket sockets -/

namespace Seqpacket

def DEFAULT_BUF : Nat := DEFAULT_DATAGRAM_BUF

variable (t : Target) (rt : Runtime)

def sendFds (data : Bytes) (fds : List RawFd) : Sys Nat := datagramSendFds t rt data fds

/-- Blocking only. -/
def recvFds (n : Nat) : Sys ReceivedFds :=
  recvOwned t .blocking .datagram (.upTo n) DEFAULT_BUF

def recvFdsInto (n : Nat) (dataBuf : Bytes) : Sys (Nat × List RawFd) :=
  recvInto t rt .datagram (.upTo n) dataBuf

def recvFdsExactInto (n : Nat) (dataBuf : Bytes) : Sys (Nat × List RawFd) :=
  recvInto t rt .datagram (.exact n) dataBuf

end Seqpacket

end UnixAncillary
