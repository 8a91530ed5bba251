import UnixAncillary.Messages
import UnixAncillary.Policy
import UnixAncillary.Sends

/-!
# The low-level operations by hand

The migration guide builds sends and receives from a `SocketAncillary`. Written with the
checks of the convenience operations, they are these operations, whatever the storage held
before: `sendByHand_eq` and `receiveByHand_eq`. A program can therefore move between the two
levels without any other change.
-/

namespace UnixAncillary

open ByteCodec HandleTable Program Program.Prog

/-! ## A buffer in scope -/

/-- Use a new `SocketAncillary` over `storage`, and drop it at the end. -/
def withAncillary {α : Type} (storage : Bytes) (m : Low α) : Sys α :=
  ⟨fun w => let r := m.run (.new storage, w)
    (r.1, r.2.2.close r.2.1.receivedFds)⟩

/-- An operation on the buffer alone. -/
def onAncillary {α : Type} (m : Building α) : Low α :=
  ⟨fun s => match m.run s.1 with
    | (.ok a, anc) => (.ok a, (anc, s.2))
    | (.err e, anc) => (.err (controlError e), (anc, s.2))
    | (.panic p, anc) => (.panic p, (anc, s.2))
    | (.pending c, anc) => (.pending c, (anc, s.2))⟩

/-- The loop over `messages()`: it takes what every rights message holds. -/
def collectRights : List ReceivedMessage → List RawFd
  | [] => []
  | .rights fds :: rest => fds ++ collectRights rest
  | .credentials _ :: rest => collectRights rest

theorem collectRights_eq (messages : List ReceivedMessage) :
    collectRights messages = messages.flatMap ReceivedMessage.fds := by
  induction messages with
  | nil => rfl
  | cons message rest ih => cases message <;> simp [collectRights, ReceivedMessage.fds, ih]

/-! ## Sending -/

/-- A low-level send of borrowed descriptors. -/
def sendByHand (t : Target) (storage : Bytes) (iov : List Bytes) (fds : List RawFd) : Sys Nat :=
  withAncillary storage do
    onAncillary (SocketAncillary.addFds t fds)
    let ancillary ← read (·.1)
    onSnd (cmsgSendmsg t iov ancillary)

section Sending

variable {t : Target} {fds : List RawFd}

/-- A low-level send is the convenience send. -/
theorem sendByHand_eq (storage : Storage t) (iov : List Bytes) (hlen : fds.length * 4 ≤ i32Max)
    (hfit : fds ≠ [] → t.layout.CMSG_SPACE (fds.length * 4) ≤ storage.1.length) (w : World) :
    (sendByHand t storage.1 iov fds).run w = (sendFdsVectoredImpl t iov fds).run w := by
  obtain ⟨anc, hrun, hmode, hreceived, hcontrol⟩ := run_addFds_fits storage hlen hfit
  have hadd : (onAncillary (SocketAncillary.addFds t fds)).run (.new storage.1, w) =
      (.ok (), (anc, w)) := by
    simp only [onAncillary, hrun]
  have hsend : cmsgSendmsg t iov anc = sendWith t (sendCallFor t iov fds) := by
    rw [cmsgSendmsg, if_neg (by simp [hmode]), sendmsgVectored, hcontrol]
    rfl
  have hnone : anc.receivedFds = [] := by rw [SocketAncillary.receivedFds, hreceived]; rfl
  rw [sendFdsVectoredImpl_eq iov hlen, ← hsend]
  simp only [sendByHand, withAncillary]
  rw [bind_ok hadd, bind_ok (run_read ..)]
  simp only [onSnd, hnone, World.close_nil]

end Sending

/-! ## Receiving -/

/-- A low-level receive that checks the flags and collects the descriptors. -/
def receiveChecked (t : Target) (check : RecvResult → Option IoError) :
    Low (Nat × List RawFd) := do
  let result ← cmsgRecvmsg t
  match check result with
  | some error => throw error
  | none =>
      let messages ← onAncillary SocketAncillary.messages
      pure (result.bytesRead, collectRights messages)

/-- The checks of the convenience receives. -/
def checkTruncation (kind : SocketKind) (result : RecvResult) : Option IoError :=
  if result.truncated then some ancillaryTruncatedError
  else if kind = .datagram ∧ result.dataTruncated then some payloadTruncatedError
  else none

/-- Their count policy. -/
def keepCount (mode : CountMode) (bytesRead : Nat) (fds : List RawFd) :
    Sys (Nat × List RawFd × Nat) :=
  match mode with
  | .upTo n => do
      dropFds (fds.drop n)
      pure (bytesRead, fds.take n, fds.length - n)
  | .exact n =>
      if fds.length ≠ n then rejectFds fds (countError n fds.length)
      else pure (bytesRead, fds, 0)

/-- A low-level receive with the checks of the convenience receives. -/
def receiveByHand (t : Target) (storage : Bytes) (kind : SocketKind) (mode : CountMode) :
    Sys (Nat × List RawFd × Nat) := do
  let (bytesRead, fds) ← withAncillary storage (receiveChecked t (checkTruncation kind))
  keepCount mode bytesRead fds

section Receiving

variable {t : Target} {check : RecvResult → Option IoError} {kind : SocketKind}
  {mode : CountMode} {storage : Bytes} {w w₁ : World}

/-- What the low-level receive reports of a delivery. -/
def Delivery.recvResult (d : Delivery) : RecvResult := ⟨d.data.length, d.ctrunc, d.trunc⟩

/-- A checked receive that gets a delivery: when a check or close-on-exec fails, the buffer
is dropped with all descriptors in it. -/
theorem run_receiveChecked_ok {d : Delivery}
    (h : (awaitRecv t storage.length false).run w = (.ok d, w₁)) :
    (withAncillary storage (receiveChecked t check)).run w =
      andThen (fun _ => match check d.recvResult with
        | some error => rejectFds (d.rights t) error
        | none => pure (d.data.length, d.rights t))
      (((cloexecFds t (d.rights t)).onError (·.close (d.rights t))).run (w₁.own t d)) := by
  have hlow : (recvIntoAncillary t false).run (.new storage, w) =
      finishReceive t (.new storage) d ((cloexecFds t (d.rights t)).run (w₁.own t d)) :=
    run_recvIntoAncillary_ok h
  have hrights : collectRights (d.messages t) = d.rights t := by
    rw [collectRights_eq, d.fds_messages]
  obtain ⟨fcntls, flags, hok | ⟨e, -, herr⟩⟩ := cloexecFds_run t (d.rights t) (w₁.own t d)
  · rw [hok] at hlow
    simp only [withAncillary, receiveChecked, onError, hok, andThen]
    rw [cmsgRecvmsg, bind_ok hlow, show (⟨d.data.length, d.ctrunc, d.trunc⟩ : RecvResult) =
      d.recvResult from rfl]
    cases check d.recvResult with
    | some error =>
        simp only [run_throw, SocketAncillary.receivedFds, SocketAncillary.delivered,
          d.fds_messages]
        rfl
    | none =>
        simp only [← hrights]
        rfl
  · rw [herr] at hlow
    simp only [withAncillary, receiveChecked, onError, herr, andThen]
    rw [cmsgRecvmsg, bind_err hlow]
    rfl

theorem run_receiveChecked_err {e : IoError}
    (h : (awaitRecv t storage.length false).run w = (.err e, w₁)) :
    (withAncillary storage (receiveChecked t check)).run w = (.err e, w₁) := by
  have hlow : (recvIntoAncillary t false).run (.new storage, w) =
      (.err e, (SocketAncillary.new storage).receiving, w₁) := run_recvIntoAncillary_err h
  simp only [withAncillary, receiveChecked]
  rw [cmsgRecvmsg, bind_err hlow]
  rfl

theorem run_receiveChecked_pending {c : Syscall}
    (h : (awaitRecv t storage.length false).run w = (.pending c, w₁)) :
    (withAncillary storage (receiveChecked t check)).run w = (.pending c, w₁) := by
  have hlow : (recvIntoAncillary t false).run (.new storage, w) =
      (.pending c, (SocketAncillary.new storage).receiving, w₁) := run_recvIntoAncillary_pending h
  simp only [withAncillary, receiveChecked]
  rw [cmsgRecvmsg, bind_pending hlow]
  rfl

/-- The policy of a convenience receive is its checks and its count. -/
theorem applyPolicy_eq (d : Delivery) (fds : List RawFd) (w : World) :
    (applyPolicy kind mode d.result fds).run w =
      andThen (fun r => keepCount mode r.1 r.2) ((match checkTruncation kind d.recvResult with
        | some error => rejectFds fds error
        | none => pure (d.data.length, fds)).run w) := by
  rw [applyPolicy.eq_def, checkTruncation]
  simp only [Delivery.result, Delivery.recvResult]
  by_cases hctrunc : d.ctrunc = true
  · simp only [hctrunc, if_true]
    rfl
  by_cases htrunc : kind = .datagram ∧ d.trunc = true
  · simp only [hctrunc, htrunc, Bool.false_eq_true, if_false, and_self, if_true]
    rfl
  · simp only [hctrunc, htrunc, Bool.false_eq_true, if_false]
    cases mode <;> rfl

/-- A low-level receive with control storage of the same size is the convenience receive:
both end alike, hand over the same descriptors and close the same ones in the same order. -/
theorem receiveByHand_eq (storage : Bytes)
    (hsize : controlSizeAt t mode w.rlimit = .ok storage.length) :
    (receiveByHand t storage kind mode).run w = (recvCore t kind mode).run w := by
  have hsizing := run_recvControlSize t mode w
  rw [hsize] at hsizing
  have hbuf : (List.replicate storage.length (0 : UInt8)).length = storage.length :=
    List.length_replicate
  cases hrecv : (awaitRecv t storage.length false).run w with
  | mk o w₁ =>
      have hflat := hrecv
      rw [← hbuf] at hflat
      cases o with
      | ok d =>
          rw [receiveByHand, run_bind, run_receiveChecked_ok hrecv,
            recvCore_delivery kind hsize hrecv]
          generalize ((cloexecFds t (d.rights t)).onError (·.close (d.rights t))).run
            (w₁.own t d) = r
          obtain ⟨o, w₂⟩ := r
          cases o with
          | ok a => exact (applyPolicy_eq d (d.rights t) w₂).symm
          | err e => rfl
          | panic p => rfl
          | pending c => rfl
      | err e =>
          rw [receiveByHand, bind_err (run_receiveChecked_err hrecv)]
          rw [recvCore, bind_ok hsizing, withControl, bind_err (run_recvFds_err hflat)]
      | panic p => exact absurd (congrArg Prod.fst hrecv) (awaitRecv_ne_panic _ _ _ p)
      | pending c =>
          rw [receiveByHand, bind_pending (run_receiveChecked_pending hrecv)]
          rw [recvCore, bind_ok hsizing, withControl, bind_pending (run_recvFds_pending hflat)]

end Receiving

/-- The two levels of the API agree. Building a send in any storage that is long enough, or
receiving into storage of the size that the convenience receive reserves and checking what
it checks, has the same end and leaves the same world as the convenience operation, whatever
the storage held and whatever the kernel answers. -/
theorem api_levels_agree (t : Target) (storage : Storage t) :
    (∀ (iov : List Bytes) (fds : List RawFd), fds.length * 4 ≤ i32Max →
      (fds ≠ [] → t.layout.CMSG_SPACE (fds.length * 4) ≤ storage.1.length) →
      ∀ w, (sendByHand t storage.1 iov fds).run w = (sendFdsVectoredImpl t iov fds).run w) ∧
    ∀ (kind : SocketKind) (mode : CountMode) (w : World),
      controlSizeAt t mode w.rlimit = .ok storage.1.length →
      (receiveByHand t storage.1 kind mode).run w = (recvCore t kind mode).run w := by
  constructor
  · exact fun iov fds hlen hfit w => sendByHand_eq storage iov hlen hfit w
  · exact fun kind mode w hsize => receiveByHand_eq storage.1 hsize

/-- A receive into dirty storage, of two descriptors where one is asked for. -/
theorem api_levels_agree_dirty :
    let storage : Storage .linux64 := ⟨List.replicate 1064 0xff, by decide +kernel⟩
    let d : Delivery := ⟨[], Target.linux64.layout.encodeMessage
      ⟨1, 1, [5, 0, 0, 0, 6, 0, 0, 0]⟩, false, false, [5, 6]⟩
    let w := World.scripted [] [.ok d]
    let r := (receiveByHand .linux64 storage.1 .stream (.upTo 1)).run w
    r = (recvCore .linux64 .stream (.upTo 1)).run w ∧ r.1 = .ok (0, [5], 1) := by
  intro storage d w r
  have hagree : r = (recvCore .linux64 .stream (.upTo 1)).run w :=
    (api_levels_agree .linux64 storage).2 .stream (.upTo 1) w (by decide +kernel)
  refine ⟨hagree, ?_⟩
  rw [hagree]
  decide +kernel

end UnixAncillary
