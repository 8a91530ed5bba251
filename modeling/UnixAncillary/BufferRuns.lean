import UnixAncillary.Modes
import UnixAncillary.Transparency
import UnixAncillary.Vectored

/-!
# Whole runs on a buffer

The replies to a sequence of calls on one `SocketAncillary` depend neither on the interrupts
that its system calls meet nor on how the payloads are split into slices that a header can
name. `World.plain` takes both away, and `buffer_runs_plain` says that a run on the plain
world, with one slice for each payload, is the plain run.
-/

namespace UnixAncillary

open ByteCodec HandleTable Program Program.Prog Machine

/-! ## Plain calls -/

/-- A call with one slice for its payload. -/
def BufferCall.gather : BufferCall → BufferCall
  | .new => .new
  | .add a => .add a
  | .send iov => .send [iov.flatten]
  | .receive peek iov => .receive peek [iov.flatten]
  | .messages => .messages
  | .isTruncated => .isTruncated
  | .clear => .clear

/-- The header of a call holds the number of its slices. -/
def BufferCall.Names (t : Target) : BufferCall → Prop
  | .send iov | .receive _ iov => t.Names iov
  | _ => True

/-- A reply with one slice in the call that it may wait for. -/
def Reply.gather : Reply → Reply
  | .unit => .unit
  | .added result => .added result
  | .sent result => .sent (result.mapCall Syscall.gather)
  | .received result => .received (result.mapCall Syscall.gather)
  | .drained result => .drained result
  | .truncated flag => .truncated flag

/-- The world without interrupts, and with its buffers as one. -/
def World.plain (w : World) : World := (w.without .EINTR).gather

/-- On plain worlds, with its calls renamed, `m` is `n` from every world in `inv`. -/
def Plain (inv : World → Prop) {α : Type} (m n : Sys α) : Prop :=
  Simulates inv World.plain Syscall.gather m n

theorem World.plain_setIov (w : World) (iov : List Bytes) :
    ({ w with iov := iov } : World).plain = { w.plain with iov := [iov.flatten] } := rfl

section Operations

variable (t : Target) {inv : World → Prop}

/-- An operation that does not see interrupts, and that one slice serves as well. -/
theorem Plain.of {α : Type} {m n : Sys α} (hkeep : Preserves inv m) (hm : Uninterrupted m)
    (hn : Gathers inv m n) (hinv : ∀ w, inv w → inv (w.without .EINTR)) : Plain inv m n :=
  Simulates.comp ⟨hkeep, fun w _ => hm.run_map w trivial⟩ hn hinv

theorem plain_sendmsgVectored {iov : List Bytes} (hnames : t.Names iov) (buf : Bytes)
    (len : Nat) : Plain (fun _ => True) (sendmsgVectored t iov buf len)
      (sendmsgVectored t [iov.flatten] buf len) := by
  have hgathers := gathers_sendWith t ⟨t.named iov, msgControl t buf len, sendNoSignal t⟩
  rw [SendCall.gather, SendCall.payload, t.named_eq hnames,
    ← t.named_singleton iov.flatten] at hgathers
  refine .of (fun _ _ => trivial) (uninterrupted_sendmsgVectored t iov buf len) ?_
    fun _ _ => trivial
  rw [sendmsgVectored, t.named_eq hnames]
  exact hgathers

theorem plain_cmsgSendmsg {iov : List Bytes} (hnames : t.Names iov) (anc : SocketAncillary) :
    Plain (fun _ => True) (cmsgSendmsg t iov anc) (cmsgSendmsg t [iov.flatten] anc) := by
  rw [cmsgSendmsg, cmsgSendmsg]
  split
  · exact .of_throw _
  · exact plain_sendmsgVectored t hnames _ _

theorem plain_recvmsgRaw (buf : Bytes) (peek : Bool) :
    Plain (World.Named t) (recvmsgRaw t buf peek) (recvmsgRaw t buf peek) := by
  have hgathers := gathers_recvmsgRaw t buf peek
  refine .of hgathers.keeps ?_ hgathers fun _ hw => hw
  exact .bind (uninterrupted_awaitRecv t _ peek) fun d =>
    .bind (.of_update (fun _ _ => trivial) fun _ => rfl) fun _ => .of_pure _

theorem plain_cloexecReceived (messages : List ReceivedMessage) :
    Plain (World.Named t) (cloexecReceived t messages) (cloexecReceived t messages) := by
  have hrun : cloexecReceived t messages =
      cloexecFds t (messages.flatMap ReceivedMessage.fds) := by
    rw [cloexecReceived, cloexecFds]
    split
    · exact congrArg Prog.mk (funext fun w => setCloexecReceived_eq messages w)
    · rfl
  rw [hrun]
  have hgathers := gathers_cloexecFds t (messages.flatMap ReceivedMessage.fds)
  exact .of hgathers.keeps (refines_cloexecFds _ t stable_true _) hgathers fun _ hw => hw

/-- A receive into a buffer. -/
theorem plain_recvIntoAncillary (peek : Bool) :
    Simulates (fun s => s.2.Named t) (Prod.map id World.plain) Syscall.gather
      (recvIntoAncillary t peek) (recvIntoAncillary t peek) := by
  refine .bind (.of_update (fun _ hs => hs) fun _ _ => rfl) fun _ => ?_
  refine .bind (.of_update (fun _ hs => hs) fun _ _ => rfl) fun _ => ?_
  refine .bind (.of_read fun _ => rfl) fun buffer => ?_
  refine .bind (.onSnd (plain_recvmsgRaw t buffer peek)) fun received => ?_
  refine .bind (.of_update (fun _ hs => hs) fun _ _ => rfl) fun _ => ?_
  refine .bind (.of_ofExcept _) fun bytes => ?_
  refine .bind (.of_update (fun s hs => ?_) fun s _ => ?_) fun _ => ?_
  · simp only [takeReceivedInto_eq]
    exact hs
  · simp only [takeReceivedInto_eq]
    rfl
  refine .bind (.of_read fun _ => rfl) fun messages => ?_
  refine .bind (.onError (.onSnd (plain_cloexecReceived t messages)) (fun _ hs => hs)
    fun _ => rfl) fun _ => ?_
  exact .bind (.of_update (fun _ hs => hs) fun _ _ => rfl) fun _ => .of_pure _

/-- A call on a plain world. -/
theorem exec_plain {call : BufferCall} (hnames : call.Names t) (s : SocketAncillary × World) :
    call.gather.exec t (Prod.map id World.plain s) =
      ((call.exec t s).1.gather, Prod.map id World.plain (call.exec t s).2) := by
  obtain ⟨anc, w⟩ := s
  cases call with
  | send iov =>
      have hsend := (plain_cmsgSendmsg t hnames anc).run_map (s := w) trivial
      simp only [BufferCall.gather, BufferCall.exec, Prod.map, id, hsend]
      rfl
  | receive peek iov =>
      have hrecv := (plain_recvIntoAncillary t peek).run_map
        (s := (anc, { w with iov := iov })) hnames
      simp only [Prod.map, w.plain_setIov iov, id] at hrecv
      simp only [BufferCall.gather, BufferCall.exec, Prod.map, id, hrecv]
      rfl
  | _ => rfl

end Operations

/-- Interrupts and slices do not matter to a run of calls on a buffer, as long as `msg_iovlen`
holds the number of slices of each call. On the world without the interrupts, with the payload
of each call in one slice, every call has the same reply, and the run leaves the same buffer,
descriptors, flags and bytes; the system calls are those that were not interrupted. -/
theorem buffer_runs_plain (t : Target) (calls : List BufferCall)
    (hnames : ∀ call ∈ calls, call.Names t) (anc : SocketAncillary) (w : World) :
    let r := runs (BufferCall.exec t) calls (anc, w)
    runs (BufferCall.exec t) (calls.map BufferCall.gather) (anc, w.plain) =
      (r.1.map Reply.gather, (r.2.1, r.2.2.plain)) :=
  runs_map calls (fun call h => exec_plain t (hnames call h)) (anc, w)

/-- A send of two slices that is interrupted once, and a peek into two buffers. -/
theorem buffer_runs_plain_peek :
    let calls : List BufferCall := [.send [[1], [2]], .receive true [[0], [0]]]
    let d : Delivery := ⟨[7, 8], [], false, false, []⟩
    let w := World.scripted [.error .EINTR, .ok 2] [.error .EINTR, .ok d]
    let r := runs (BufferCall.exec .linux64) calls (.new [], w)
    r.2.2.trace.length = 4 ∧ r.2.2.plain.trace.length = 2 ∧ r.2.2.plain.iov = [[7, 8]] ∧
      runs (BufferCall.exec .linux64) (calls.map BufferCall.gather) (.new [], w.plain) =
        (r.1.map Reply.gather, (r.2.1, r.2.2.plain)) := by
  intro calls d w r
  refine ⟨by decide +kernel, by decide +kernel, by decide +kernel,
    buffer_runs_plain .linux64 calls ?_ (.new []) w⟩
  simp only [calls, List.forall_mem_cons]
  exact ⟨(by decide : Target.linux64.Names _), (by decide : Target.linux64.Names _),
    fun _ h => by cases h⟩

end UnixAncillary
