import UnixAncillary.Ancillary
import UnixAncillary.Cmsg

/-!
# The low-level operations

`cmsgSendmsg` and `cmsgRecvmsg` work on a caller's `SocketAncillary`. A receive
clears the buffer first and leaves it in receive mode however it ends.
-/

namespace UnixAncillary

open ByteCodec HandleTable Program Program.Prog

structure RecvResult where
  bytesRead : Nat
  truncated : Bool
  dataTruncated : Bool
  deriving DecidableEq

/-- An operation on a `SocketAncillary` and the world. -/
abbrev Low (α : Type) : Type := Prog (SocketAncillary × World) IoError Panic Syscall α

variable (t : Target)

/-- The error of a send from a buffer that was received into. -/
def receiveModeError : IoError :=
  .custom .invalidInput "clear the receive buffer before building a send"

/-- Send data with the control messages of `ancillary`. -/
def cmsgSendmsg (iov : List Bytes) (ancillary : SocketAncillary) : Sys Nat :=
  if ancillary.receiveMode then throw receiveModeError
  else sendmsgVectored t iov ancillary.buffer ancillary.length

/-- Close the unread descriptors: `ancillary.received.clear()`. -/
def clearReceived (s : SocketAncillary × World) : SocketAncillary × World :=
  ({ s.1 with received := [] }, s.2.close s.1.receivedFds)

def recvIntoAncillary (peek : Bool) : Low RecvResult := do
  update SocketAncillary.clear
  update fun s => ({ s.1 with receiveMode := true }, s.2)
  let buffer ← read (·.1.buffer)
  let (result, buffer) ← onSnd (recvmsgRaw t buffer peek)
  update fun s => ({ s.1 with buffer := buffer }, s.2)
  let bytes ← ofExcept (slice buffer 0 result.ancillaryLen)
  update fun s =>
    let taken := takeReceivedInto t bytes s.1.received s.2
    ({ s.1 with received := taken.1 }, taken.2)
  let received ← read (·.1.received)
  (onSnd (cloexecReceived t received)).onError clearReceived
  update fun s =>
    ({ s.1 with length := result.ancillaryLen, truncated := result.ancillaryTruncated }, s.2)
  pure ⟨result.bytesRead, result.ancillaryTruncated, result.dataTruncated⟩

def cmsgRecvmsg : Low RecvResult := recvIntoAncillary t false

/-- Like `cmsgRecvmsg`, but leave the message queued. -/
def cmsgRecvmsgPeek : Low RecvResult := recvIntoAncillary t true

/-! ## What a receive does -/

/-- The buffer from the start of a receive on: cleared, and in receive mode. -/
def SocketAncillary.receiving (anc : SocketAncillary) : SocketAncillary :=
  { anc with received := [], length := 0, truncated := false, receiveMode := true }

/-- The messages stored for a delivery. -/
def Delivery.messages (d : Delivery) : List ReceivedMessage :=
  (t.layout.parse d.control).flatMap (·.received t)

variable {t} {peek : Bool} {anc : SocketAncillary} {w w₁ : World} {d : Delivery}

theorem Delivery.fds_messages (d : Delivery) :
    (d.messages t).flatMap ReceivedMessage.fds = d.rights t := by
  simp only [Delivery.messages, Delivery.rights, List.flatMap_assoc, RawMessage.fds_received]

/-- The per-message pass makes the calls of the flat pass. -/
theorem cloexecReceived_messages (d : Delivery) (w : World) :
    (cloexecReceived t (d.messages t)).run w = (cloexecFds t (d.rights t)).run w := by
  rw [cloexecReceived, cloexecFds]
  split
  · rw [setCloexecReceived_eq, d.fds_messages]
  · rfl

/-- The buffer after a delivery, before it is known that close-on-exec succeeded. -/
def SocketAncillary.delivered (t : Target) (anc : SocketAncillary) (d : Delivery) :
    SocketAncillary :=
  { anc.receiving with buffer := overwrite anc.buffer 0 d.control, received := d.messages t }

/-- The part of a receive behind the delivery. -/
def finishReceive (t : Target) (anc : SocketAncillary) (d : Delivery) :
    Outcome IoError Panic Syscall Unit × World →
      Outcome IoError Panic Syscall RecvResult × (SocketAncillary × World)
  | (.ok (), w) => (.ok ⟨d.data.length, d.ctrunc, d.trunc⟩,
      ({ anc.delivered t d with length := d.control.length, truncated := d.ctrunc }, w))
  | (.err e, w) => (.err e, ({ anc.delivered t d with received := [] }, w.close (d.rights t)))
  | (.panic p, w) => (.panic p, (anc.delivered t d, w))
  | (.pending c, w) => (.pending c, (anc.delivered t d, w))

/-- A receive that the kernel answers with a delivery. -/
theorem run_recvIntoAncillary_ok
    (h : (awaitRecv t anc.buffer.length peek).run (w.close anc.receivedFds) = (.ok d, w₁)) :
    (recvIntoAncillary t peek).run (anc, w) =
      finishReceive t anc d ((cloexecFds t (d.rights t)).run (w₁.own t d)) := by
  have hslice := slice_overwrite (awaitRecv_ok h).1
  simp only [recvIntoAncillary, run_bind, run_update, run_read, andThen,
    SocketAncillary.clear, onSnd, run_recvmsgRaw_ok h, hslice, run_ofExcept_ok,
    takeReceivedInto_eq, List.nil_append, onError]
  have hown : (w₁.deliver (recvCmsgCloexec t) d).close
      ((t.layout.parse d.control).flatMap (·.pidfds t)) = w₁.own t d := rfl
  rw [hown]
  have hmessages : (t.layout.parse d.control).flatMap (·.received t) = d.messages t := rfl
  rw [hmessages, cloexecReceived_messages]
  obtain ⟨o, w₂⟩ := (cloexecFds t (d.rights t)).run (w₁.own t d)
  cases o with
  | ok a => rfl
  | err e =>
      simp only [finishReceive, clearReceived, SocketAncillary.receivedFds, d.fds_messages]
      rfl
  | panic p => rfl
  | pending c => rfl

/-- A receive that the kernel answers with an error. -/
theorem run_recvIntoAncillary_err {e : IoError}
    (h : (awaitRecv t anc.buffer.length peek).run (w.close anc.receivedFds) = (.err e, w₁)) :
    (recvIntoAncillary t peek).run (anc, w) = (.err e, (anc.receiving, w₁)) := by
  simp only [recvIntoAncillary, run_bind, run_update, run_read, andThen,
    SocketAncillary.clear, onSnd, recvmsgRaw, h]
  rfl

/-- A receive that is left waiting. -/
theorem run_recvIntoAncillary_pending {c : Syscall}
    (h : (awaitRecv t anc.buffer.length peek).run (w.close anc.receivedFds) = (.pending c, w₁)) :
    (recvIntoAncillary t peek).run (anc, w) = (.pending c, (anc.receiving, w₁)) := by
  simp only [recvIntoAncillary, run_bind, run_update, run_read, andThen,
    SocketAncillary.clear, onSnd, recvmsgRaw, h]
  rfl

/-- A receive without a delivery only clears the buffer. -/
theorem run_recvIntoAncillary_none (h : ∀ d, ((awaitRecv t anc.buffer.length peek).run
      (w.close anc.receivedFds)).1 ≠ .ok d) :
    ((recvIntoAncillary t peek).run (anc, w)).2 = (anc.receiving,
      ((awaitRecv t anc.buffer.length peek).run (w.close anc.receivedFds)).2) := by
  cases hr : (awaitRecv t anc.buffer.length peek).run (w.close anc.receivedFds) with
  | mk o w₁ =>
      cases o with
      | ok d => exact absurd (congrArg Prod.fst hr) (h d)
      | err e => rw [run_recvIntoAncillary_err hr]
      | panic p => exact absurd (congrArg Prod.fst hr) (awaitRecv_ne_panic _ _ _ p)
      | pending c => rw [run_recvIntoAncillary_pending hr]

/-- A send opens and closes nothing. -/
theorem cmsgSendmsg_fds (iov : List Bytes) (anc : SocketAncillary) (w : World) :
    ((cmsgSendmsg t iov anc).run w).2.fds = w.fds := by
  have hsend : ∀ call, Preserves (fun w' : World => w'.fds = w.fds) (awaitSend call) := by
    intro call w' hw'
    let inv (w'' : World) : Prop := w''.fds = w.fds
    have hstep : ∀ w'' a rest, inv w'' → inv (call.toCall.record w'' a rest) :=
      fun _ _ _ h => h
    exact Call.loop_inv hstep hw'
  have hprepare : Preserves (fun w' : World => w'.fds = w.fds) (prepareSend t) := by
    intro w' hw'
    cases hrefusal : w'.refusal t with
    | none =>
        rw [prepareSend_ok t hrefusal]
        exact hw'
    | some e =>
        rw [prepareSend_err t hrefusal]
        exact hw'
  have hall : Preserves (fun w' : World => w'.fds = w.fds) (cmsgSendmsg t iov anc) := by
    rw [cmsgSendmsg]
    split
    · exact .of_throw _
    · exact .bind hprepare fun _ => hsend _
  exact hall w rfl

end UnixAncillary
