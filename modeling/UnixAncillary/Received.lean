import UnixAncillary.RawMessages
import UnixAncillary.World

/-!
# Taking ownership of received descriptors

`takeReceivedInto` and `takeFds` walk the control bytes of a fresh receive. The
first builds the message list of a `SocketAncillary`, the second one flat list.
Both close `SCM_PIDFD` descriptors on the way. `takeReceivedInto_eq` and
`takeFds_eq` state what they do in terms of the parsed messages.
-/

namespace UnixAncillary

open ByteCodec HandleTable

/-- Credentials of the sending process. -/
structure ScmCredentials where
  pid : Int32
  uid : UInt32
  gid : UInt32
  deriving DecidableEq

namespace ScmCredentials

/-- The bytes of the `ucred`: three consecutive fields without padding. -/
def toUcred (bigEndian : Bool) (creds : ScmCredentials) : Bytes :=
  encodeI32 bigEndian creds.pid ++ encodeU32 bigEndian creds.uid ++
    encodeU32 bigEndian creds.gid

/-- `read_unaligned` of a `ucred` at the start of `bytes`. -/
def fromUcred (bigEndian : Bool) (bytes : Bytes) : ScmCredentials where
  pid := decodeI32 bigEndian (readAt bytes 0 4)
  uid := decodeU32 bigEndian (readAt bytes 4 4)
  gid := decodeU32 bigEndian (readAt bytes 8 4)

@[simp] theorem length_toUcred (bigEndian : Bool) (creds : ScmCredentials) :
    (creds.toUcred bigEndian).length = ScmCredentials.SIZE := by
  simp [toUcred, ScmCredentials.SIZE]

@[simp] theorem fromUcred_toUcred (bigEndian : Bool) (creds : ScmCredentials) :
    fromUcred bigEndian (creds.toUcred bigEndian) = creds := by
  have hpid : readAt (creds.toUcred bigEndian) 0 4 = encodeI32 bigEndian creds.pid := by
    rw [toUcred, List.append_assoc, readAt_append_self (length_encodeI32 ..)]
  have huid : readAt (creds.toUcred bigEndian) 4 4 = encodeU32 bigEndian creds.uid := by
    rw [toUcred, List.append_assoc, readAt_append_right (by rw [length_encodeI32]),
      length_encodeI32, readAt_append_self (length_encodeU32 ..)]
  have hgid : readAt (creds.toUcred bigEndian) 8 4 = encodeU32 bigEndian creds.gid := by
    have hlen : (encodeI32 bigEndian creds.pid ++ encodeU32 bigEndian creds.uid).length = 8 := by
      simp
    have hall : encodeU32 bigEndian creds.gid = encodeU32 bigEndian creds.gid ++ [] :=
      (List.append_nil _).symm
    rw [toUcred, readAt_append_right (le_of_eq hlen), hlen, hall,
      readAt_append_self (length_encodeU32 ..), List.append_nil]
  simp [fromUcred, hpid, huid, hgid]

end ScmCredentials

inductive ReceivedMessage where
  | rights (fds : List RawFd)
  | credentials (creds : ScmCredentials)
  deriving DecidableEq

/-- The descriptors that a message owns. -/
def ReceivedMessage.fds : ReceivedMessage → List RawFd
  | .rights fds => fds
  | .credentials _ => []

namespace RawMessage

/-- The non-negative descriptors in the complete slots of the payload. -/
def rights (ℓ : Layout) (message : RawMessage) : List RawFd :=
  ((chunks4 message.data).map (decodeI32 ℓ.bigEndian)).filter (0 ≤ ·)

variable (t : Target) (message : RawMessage)

def isRights : Bool := message.level = t.SOL_SOCKET ∧ message.kind = t.SCM_RIGHTS

def isPidfd : Bool :=
  t.hasCredentials ∧ message.level = t.SOL_SOCKET ∧ message.kind = SCM_PIDFD

def credentials : Option ScmCredentials :=
  if t.hasCredentials = false ∨ message.level ≠ t.SOL_SOCKET ∨
      message.kind ≠ SCM_CREDENTIALS ∨ message.data.length < ScmCredentials.SIZE then none
  else some (ScmCredentials.fromUcred t.layout.bigEndian message.data)

/-- The descriptors that a receive hands over for this message. -/
def rightsFds : List RawFd :=
  if message.isRights t then message.rights t.layout.toLayout else []

/-- The descriptors that a receive closes for this message. -/
def pidfds : List RawFd :=
  if message.isPidfd t then message.rights t.layout.toLayout else []

/-- What a receive stores for this message. -/
def received : List ReceivedMessage :=
  (if message.isRights t then [.rights (message.rights t.layout.toLayout)] else []) ++
    (message.credentials t).toList.map .credentials

end RawMessage

variable (t : Target)

def closePidfd (message : RawMessage) (w : World) : World :=
  if message.isPidfd t then w.close (message.rights t.layout.toLayout) else w

/-- The loop body of `take_received_into`. -/
def takeReceived (acc : List ReceivedMessage × World) (message : RawMessage) :
    List ReceivedMessage × World :=
  let w := closePidfd t message acc.2
  let messages :=
    if message.isRights t then acc.1 ++ [.rights (message.rights t.layout.toLayout)]
    else acc.1
  match message.credentials t with
  | some creds => (messages ++ [.credentials creds], w)
  | none => (messages, w)

def takeReceivedInto (buffer : Bytes) (messages : List ReceivedMessage) (w : World) :
    List ReceivedMessage × World :=
  (t.layout.parse buffer).foldl (takeReceived t) (messages, w)

/-- The counting pass of `take_fds`, which sizes its vector. -/
def takeFdsCount (buffer : Bytes) : Nat :=
  (((t.layout.parse buffer).filter (·.isRights t)).map
    fun message => (message.rights t.layout.toLayout).length).sum

/-- The loop body of `take_fds`. -/
def takeFd (acc : List RawFd × World) (message : RawMessage) : List RawFd × World :=
  let w := closePidfd t message acc.2
  if message.isRights t then (acc.1 ++ message.rights t.layout.toLayout, w)
  else (acc.1, w)

def takeFds (buffer : Bytes) (w : World) : List RawFd × World :=
  (t.layout.parse buffer).foldl (takeFd t) ([], w)

/-! ## What the walks compute -/

theorem closePidfd_eq (message : RawMessage) (w : World) :
    closePidfd t message w = w.close (message.pidfds t) := by
  simp only [closePidfd, RawMessage.pidfds]
  split <;> rfl

theorem takeReceived_eq (messages : List ReceivedMessage) (w : World)
    (message : RawMessage) :
    takeReceived t (messages, w) message =
      (messages ++ message.received t, w.close (message.pidfds t)) := by
  simp only [takeReceived, closePidfd_eq, RawMessage.received]
  cases message.credentials t <;> cases message.isRights t <;> simp

/-- The stored messages are appended in arrival order, and every pidfd is closed. -/
theorem takeReceivedInto_eq (buffer : Bytes) (messages : List ReceivedMessage) (w : World) :
    takeReceivedInto t buffer messages w =
      (messages ++ (t.layout.parse buffer).flatMap (·.received t),
        w.close ((t.layout.parse buffer).flatMap (·.pidfds t))) := by
  rw [takeReceivedInto]
  induction t.layout.parse buffer generalizing messages w with
  | nil => simp
  | cons message rest ih =>
      rw [List.foldl_cons, takeReceived_eq, ih, World.close_close, List.flatMap_cons,
        List.flatMap_cons, List.append_assoc]

theorem takeFd_eq (fds : List RawFd) (w : World) (message : RawMessage) :
    takeFd t (fds, w) message =
      (fds ++ message.rightsFds t, w.close (message.pidfds t)) := by
  simp only [takeFd, closePidfd_eq, RawMessage.rightsFds]
  split <;> simp

/-- The flat list holds every rights descriptor in arrival order. -/
theorem takeFds_eq (buffer : Bytes) (w : World) :
    takeFds t buffer w = ((t.layout.parse buffer).flatMap (·.rightsFds t),
      w.close ((t.layout.parse buffer).flatMap (·.pidfds t))) := by
  have hfold : ∀ (raw : List RawMessage) (fds : List RawFd) (w : World),
      raw.foldl (takeFd t) (fds, w) = (fds ++ raw.flatMap (·.rightsFds t),
        w.close (raw.flatMap (·.pidfds t))) := by
    intro raw
    induction raw with
    | nil => simp
    | cons message rest ih =>
        intro fds w
        rw [List.foldl_cons, takeFd_eq, ih, World.close_close, List.flatMap_cons,
          List.flatMap_cons, List.append_assoc]
  simpa [takeFds] using hfold (t.layout.parse buffer) [] w

/-- A stored message owns the descriptors that the flat list has for it. -/
theorem RawMessage.fds_received (message : RawMessage) :
    (message.received t).flatMap ReceivedMessage.fds = message.rightsFds t := by
  simp only [received, rightsFds]
  cases message.credentials t <;> cases message.isRights t <;>
    simp [ReceivedMessage.fds]

end UnixAncillary
