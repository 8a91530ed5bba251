import UnixAncillary.Layout
import UnixAncillary.Lib.HandleTable
import UnixAncillary.Lib.Program

/-!
# The kernel as the crate sees it

A run of the crate is driven by a script: the answers that the kernel gives to
successive `sendmsg` and `recvmsg` calls. `World` holds the answers still to come,
the calls made so far, the descriptor table and the caller's receive buffers. A
call for which the script has no answer leaves the operation pending, which is
also how a cancelled asynchronous operation is seen.
-/

namespace UnixAncillary

open ByteCodec HandleTable Program

/-! ## Lengths in a `msghdr` -/

/-- The types of `msg_iovlen` and `msg_controllen`: a `size_t` on glibc and Android,
elsewhere a C integer. -/
inductive LenType where
  | sizeT
  | cUint
  | cInt
  deriving DecidableEq

namespace LenType

/-- `n as _` of a `usize`. -/
def narrow : LenType → Nat → Int
  | sizeT, n => n
  | cUint, n => n % 2 ^ 32
  | cInt, n => Int.bmod n (2 ^ 32)

/-- How many elements a field holding `n as _` names; a negative one names none. -/
def count (ty : LenType) (n : Nat) : Nat := (ty.narrow n).toNat

theorem count_sizeT (n : Nat) : sizeT.count n = n := rfl

theorem count_cUint (n : Nat) : cUint.count n = ((n : Int) % 2 ^ 32).toNat := rfl

theorem count_cInt (n : Nat) : cInt.count n = (Int.bmod n (2 ^ 32)).toNat := rfl

theorem count_cUint_of_le {n : Nat} (h : n ≤ u32Max) : cUint.count n = n := by
  rw [u32Max] at h
  rw [count_cUint]
  omega

theorem count_cInt_of_le {n : Nat} (h : n ≤ i32Max) : cInt.count n = n := by
  rw [i32Max] at h
  rw [count_cInt, Int.bmod_def]
  omega

/-- A length that every C integer holds is not changed. -/
theorem count_of_le (ty : LenType) {n : Nat} (h : n ≤ i32Max) : ty.count n = n := by
  cases ty with
  | sizeT => exact count_sizeT n
  | cUint => exact count_cUint_of_le (h.trans (by decide))
  | cInt => exact count_cInt_of_le h

/-- A narrowed length does not grow. -/
theorem count_le (ty : LenType) (n : Nat) : ty.count n ≤ n := by
  cases ty with
  | sizeT => exact (count_sizeT n).le
  | cUint =>
      rw [count_cUint]
      omega
  | cInt =>
      rw [count_cInt, Int.bmod_def]
      omega

end LenType

/-! ## Targets -/

/-- The `cfg` families that select code: `linux` stands for Linux and Android,
`other` for the Unix targets without `MSG_CMSG_CLOEXEC` that are not Apple's. -/
inductive Os where
  | linux
  | bsd
  | apple
  | other
  deriving DecidableEq

def SCM_CREDENTIALS : Int32 := 2

def SCM_PIDFD : Int32 := 4

/-- `size_of::<libc::ucred>()`. -/
def ScmCredentials.SIZE : Nat := 12

/-- A target: its `cfg` family, whether the build checks integer overflow, and the libc
types and constants that the crate uses. `msg_controllen` holds every control size that
the crate computes: one rights message, and the credentials that a receive may add. -/
structure Target where
  os : Os
  layout : AlignedLayout
  overflowChecks : Bool
  msgIovlen : LenType
  msgControllen : LenType
  SOL_SOCKET : Int32
  SCM_RIGHTS : Int32
  RLIM_INFINITY : Nat
  rights_ne_credentials : SCM_RIGHTS ≠ SCM_CREDENTIALS
  rights_ne_pidfd : SCM_RIGHTS ≠ SCM_PIDFD
  controllen_fits : ∀ size ≤ layout.usizeMax,
    size ≤ layout.CMSG_SPACE i32Max + layout.CMSG_SPACE ScmCredentials.SIZE →
    msgControllen.count size = size

namespace Target

variable (t : Target)

/-- `cfg(any(target_os = "linux", target_os = "android"))`. -/
def hasCredentials : Bool := t.os = .linux

/-- The targets that set `FD_CLOEXEC` by `fcntl` after the receive. -/
def cloexecFallback : Bool := t.os = .apple ∨ t.os = .other

/-- `+` on `usize`: an overflow panics where the build checks it and wraps elsewhere. -/
def addUsize (m n : Nat) : Except Panic Nat :=
  if m + n ≤ t.layout.usizeMax then .ok (m + n)
  else if t.overflowChecks then .error .arithmeticOverflow
  else .ok ((m + n) % 2 ^ t.layout.usizeBits)

/-- The slices that `msg_iov` and `msg_iovlen` name. -/
def named {α : Type} (iov : List α) : List α := iov.take (t.msgIovlen.count iov.length)

/-- Every slice is named. -/
def Names {α : Type} (iov : List α) : Prop := t.msgIovlen.count iov.length = iov.length

instance {α : Type} (iov : List α) : Decidable (t.Names iov) := inferInstanceAs (Decidable (_ = _))

theorem named_eq {α : Type} {iov : List α} (h : t.Names iov) : t.named iov = iov := by
  rw [named, h, List.take_length]

theorem names_of_le {α : Type} {iov : List α} (h : iov.length ≤ i32Max) : t.Names iov :=
  t.msgIovlen.count_of_le h

theorem names_singleton {α : Type} (x : α) : t.Names [x] := by
  refine t.names_of_le ?_
  rw [List.length_singleton, i32Max]
  omega

@[simp] theorem named_singleton {α : Type} (x : α) : t.named [x] = [x] :=
  t.named_eq (t.names_singleton x)

def linux64 : Target where
  os := .linux
  layout := .linux64
  overflowChecks := true
  msgIovlen := .sizeT
  msgControllen := .sizeT
  SOL_SOCKET := 1
  SCM_RIGHTS := 1
  RLIM_INFINITY := 2 ^ 64 - 1
  rights_ne_credentials := by decide
  rights_ne_pidfd := by decide
  controllen_fits size _ _ := LenType.count_sizeT size

/-- A build without overflow checks, as release builds are by default. -/
def linux32 : Target where
  os := .linux
  layout := .linux32
  overflowChecks := false
  msgIovlen := .sizeT
  msgControllen := .sizeT
  SOL_SOCKET := 1
  SCM_RIGHTS := 1
  RLIM_INFINITY := 2 ^ 32 - 1
  rights_ne_credentials := by decide
  rights_ne_pidfd := by decide
  controllen_fits size _ _ := LenType.count_sizeT size

def macos : Target where
  os := .apple
  layout := .apple
  overflowChecks := true
  msgIovlen := .cInt
  msgControllen := .cUint
  SOL_SOCKET := 0xffff
  SCM_RIGHTS := 1
  RLIM_INFINITY := 2 ^ 63 - 1
  rights_ne_credentials := by decide
  rights_ne_pidfd := by decide
  controllen_fits _ _ h := LenType.count_cUint_of_le (h.trans (by decide))

end Target

/-! ## Errors -/

/-- The `errno` values that the crate or the runtime under it distinguishes. -/
inductive OsError where
  | EINTR
  | EAGAIN
  | EINVAL
  | EPIPE
  | other (code : Nat)
  deriving DecidableEq

inductive ErrorKind where
  | interrupted
  | wouldBlock
  | invalidInput
  | invalidData
  | writeZero
  | brokenPipe
  | other
  deriving DecidableEq

namespace OsError

def kind : OsError → ErrorKind
  | EINTR => .interrupted
  | EAGAIN => .wouldBlock
  | EINVAL => .invalidInput
  | EPIPE => .brokenPipe
  | other _ => .other

theorem kind_eq_interrupted {e : OsError} : e.kind = .interrupted ↔ e = .EINTR := by
  cases e <;> simp [kind]

theorem kind_eq_wouldBlock {e : OsError} : e.kind = .wouldBlock ↔ e = .EAGAIN := by
  cases e <;> simp [kind]

end OsError

/-- `io::Error`: an `errno`, or a kind with a message. -/
inductive IoError where
  | os (error : OsError)
  | custom (kind : ErrorKind) (message : String)
  deriving DecidableEq

def IoError.kind : IoError → ErrorKind
  | .os error => error.kind
  | .custom kind _ => kind

/-! ## Calls and answers -/

/-- One `sendmsg` call: the slices and the control bytes that the header names (`none` for a
null `msg_control`), and whether `MSG_NOSIGNAL` is set. -/
structure SendCall where
  iov : List Bytes
  control : Option Bytes
  noSignal : Bool
  deriving DecidableEq

/-- The payload of a call as one byte string. -/
def SendCall.payload (call : SendCall) : Bytes := call.iov.flatten

/-- One `recvmsg` call: the buffer lengths, the control capacity and the flags. -/
structure RecvCall where
  iov : List Nat
  control : Nat
  cmsgCloexec : Bool
  peek : Bool
  deriving DecidableEq

/-- What a successful `recvmsg` delivers: the payload bytes, the control bytes,
`MSG_CTRUNC`, `MSG_TRUNC`, and the descriptors it installs. -/
structure Delivery where
  data : Bytes
  control : Bytes
  ctrunc : Bool
  trunc : Bool
  installed : List RawFd
  deriving DecidableEq

/-- The kernel never writes past the buffers it is given. -/
def Delivery.clip (d : Delivery) (call : RecvCall) : Delivery :=
  { d with data := d.data.take call.iov.sum, control := d.control.take call.control }

/-- What an operation can be left waiting for: a system call that the script does not
answer, or the readiness of the socket. -/
inductive Syscall where
  | sendmsg (call : SendCall)
  | recvmsg (call : RecvCall)
  | readiness
  deriving DecidableEq

/-- An answered call. -/
inductive Attempt where
  | sendmsg (call : SendCall) (answer : Except OsError Nat)
  | recvmsg (call : RecvCall) (answer : Except OsError Delivery)

/-- The errors of `setsockopt`, which never blocks. -/
abbrev SetsockoptError : Type := { e : OsError // e ≠ .EAGAIN }

/-- The kernel and the memory that an operation works on. A scripted send answer
`.ok n` accepts `n` bytes, or all that are offered when they are fewer; `fcntls`
lists the errors of the coming `fcntl` calls, which succeed once it is used up;
`nosigpipe` is what `setsockopt(SO_NOSIGPIPE)` answers after that many finished and
that many blocked attempts to send, `refusals` of which it refused; `rlimit` is the soft
`RLIMIT_NOFILE`, or `none` when `getrlimit` fails; `iov` holds the buffers that the
running receive fills. -/
structure World where
  sends : List (Except OsError Nat)
  recvs : List (Except OsError Delivery)
  fcntls : List (Option OsError)
  nosigpipe : Nat → Nat → Option SetsockoptError
  refusals : Nat
  rlimit : Option Nat
  iov : List Bytes
  trace : List Attempt
  fds : Table RawFd
  flags : RawFd → Nat

/-- A process that has made no call yet, facing the given answers. -/
def World.scripted (sends : List (Except OsError Nat)) (recvs : List (Except OsError Delivery)) :
    World where
  sends := sends
  recvs := recvs
  fcntls := []
  nosigpipe _ _ := none
  refusals := 0
  rlimit := none
  iov := []
  trace := []
  fds := .empty
  flags _ := 0

/-- An operation of the crate on the world. -/
abbrev Sys (α : Type) : Type := Prog World IoError Panic Syscall α

/-! ## Descriptors -/

/-- Dropping owned descriptors closes them in order. -/
def World.close (w : World) (fds : List RawFd) : World :=
  { w with fds := w.fds.closeAll fds }

@[simp] theorem World.close_nil (w : World) : w.close [] = w := rfl

theorem World.close_close (w : World) (as bs : List RawFd) :
    (w.close as).close bs = w.close (as ++ bs) := by
  simp only [World.close, Table.closeAll_append]

end UnixAncillary
