import UnixAncillary.Lib.Machine
import UnixAncillary.Lowlevel
import UnixAncillary.Sends

/-!
# A buffer has two modes

`BufferCall.exec` runs the calls on one `SocketAncillary`. `Mode` says what the buffer is
for: it holds the messages to send, or what a receive left undrained. `Mode.exec` answers
the same calls without bytes, length or flags, and `buffer_refines_mode` says that both
machines answer alike and make the same system calls over every run whose sends fit
`msg_controllen`. `buffer_refines_mode_narrowed` is a send that does not.
-/

namespace UnixAncillary

open ByteCodec HandleTable Program Program.Prog Machine

/-! ## The calls -/

inductive BufferCall where
  | new
  | add (add : Add)
  | send (iov : List Bytes)
  | receive (peek : Bool) (iov : List Bytes)
  | messages
  | isTruncated
  | clear

/-- What the caller sees of a call. -/
inductive Reply where
  | unit
  | added (result : Outcome AncillaryError Panic Syscall Unit)
  | sent (result : Outcome IoError Panic Syscall Nat)
  | received (result : Outcome IoError Panic Syscall RecvResult)
  | drained (result : Outcome AncillaryError Panic Syscall (List ReceivedMessage))
  | truncated (truncated : Bool)

section Calls

variable (t : Target)

/-- A call on a buffer. `new` drops the old object and starts over in its storage. -/
def BufferCall.exec : BufferCall → SocketAncillary × World → Reply × (SocketAncillary × World)
  | .new, s => (.unit, (.new s.1.buffer, s.2.close s.1.receivedFds))
  | .add a, s =>
      let r := (a.run t).run s.1
      (.added r.1, (r.2, s.2))
  | .send iov, s =>
      let r := (cmsgSendmsg t iov s.1).run s.2
      (.sent r.1, (s.1, r.2))
  | .receive peek iov, s =>
      let r := (recvIntoAncillary t peek).run (s.1, { s.2 with iov := iov })
      (.received r.1, r.2)
  | .messages, s =>
      let r := SocketAncillary.messages.run s.1
      (.drained r.1, (r.2, s.2))
  | .isTruncated, s => (.truncated s.1.isTruncated, s)
  | .clear, s => (.unit, SocketAncillary.clear s)

/-- `msg_controllen` holds the length of what a send passes. -/
def BufferCall.Fits : BufferCall → SocketAncillary × World → Prop
  | .send _, s => s.1.receiveMode = false → t.msgControllen.count s.1.length = s.1.length
  | _, _ => True

instance : ∀ (call : BufferCall) (s : SocketAncillary × World), Decidable (call.Fits t s)
  | .send _, _ => inferInstanceAs (Decidable (_ → _))
  | .new, _ | .add _, _ | .receive .., _ | .messages, _ | .isTruncated, _ | .clear, _ =>
      inferInstanceAs (Decidable True)

end Calls

/-! ## The two modes -/

/-- What a buffer is for: a send with the messages added so far, or a receive with the
messages that are not drained yet. -/
inductive Mode where
  | sending (added : List RawMessage)
  | receiving (undrained : List ReceivedMessage) (truncated : Bool)

namespace Mode

/-- The descriptors that close when the buffer is cleared. -/
def fds : Mode → List RawFd
  | sending _ => []
  | receiving undrained _ => undrained.flatMap ReceivedMessage.fds

variable (t : Target)

/-- The control bytes of a send: the canonical layouts of the messages, or no buffer. -/
def control (added : List RawMessage) : Option Bytes :=
  if added = [] then none else some (added.flatMap t.layout.encodeMessage)

/-- There is room for the message of an add. -/
def accepts (capacity : Nat) (added : List RawMessage) (add : Add) : Bool :=
  match add.message t with
  | none => true
  | some m => m.data.length ≤ i32Max ∧
      (added.flatMap t.layout.encodeMessage).length + t.layout.CMSG_SPACE m.data.length ≤ capacity

/-- A receive: what was undrained closes, and the buffer holds what is delivered. -/
def receive (capacity : Nat) (peek : Bool) (iov : List Bytes) :
    Prog (Mode × World) IoError Panic Syscall RecvResult := do
  update fun s => (.receiving [] false, { s.2.close s.1.fds with iov := iov })
  let d ← onSnd (awaitRecv t capacity peek)
  update fun s => (.receiving (d.messages t) false, s.2.own t d)
  (onSnd (cloexecFds t (d.rights t))).onError fun s =>
    (.receiving [] false, s.2.close (d.rights t))
  update fun s => (.receiving (d.messages t) d.ctrunc, s.2)
  pure ⟨d.data.length, d.ctrunc, d.trunc⟩

/-- The calls on a mode. -/
def exec (capacity : Nat) : BufferCall → Mode × World → Reply × (Mode × World)
  | .new, s => (.unit, (.sending [], s.2.close s.1.fds))
  | .add add, (.sending added, w) =>
      if accepts t capacity added add then
        (.added (.ok ()), (.sending (added ++ (add.message t).toList), w))
      else (.added (.err ⟨⟩), (.sending added, w))
  | .add _, (.receiving undrained truncated, w) =>
      (.added (.err ⟨⟩), (.receiving undrained truncated, w))
  | .send iov, (.sending added, w) =>
      let r := (sendWith t ⟨t.named iov, control t added, sendNoSignal t⟩).run w
      (.sent r.1, (.sending added, r.2))
  | .send _, (.receiving undrained truncated, w) =>
      (.sent (.err receiveModeError), (.receiving undrained truncated, w))
  | .receive peek iov, s =>
      let r := (receive t capacity peek iov).run s
      (.received r.1, r.2)
  | .messages, (.sending added, w) => (.drained (.ok []), (.sending added, w))
  | .messages, (.receiving undrained truncated, w) =>
      (.drained (.ok undrained), (.receiving [] truncated, w))
  | .isTruncated, (.sending added, w) => (.truncated false, (.sending added, w))
  | .isTruncated, (.receiving undrained truncated, w) =>
      (.truncated truncated, (.receiving undrained truncated, w))
  | .clear, s => (.unit, (.sending [], s.2.close s.1.fds))

end Mode

/-! ## The coupling -/

/-- A buffer with `capacity` bytes is in a mode. -/
def Coupled (t : Target) (capacity : Nat) (anc : SocketAncillary) : Mode → Prop
  | .sending added => Built t anc added ∧ anc.buffer.length = capacity
  | .receiving undrained truncated => anc.receiveMode = true ∧ anc.received = undrained ∧
      anc.truncated = truncated ∧ anc.buffer.length = capacity

section Coupling

variable {t : Target} {capacity : Nat} {anc : SocketAncillary} {m : Mode}

theorem Coupled.length (h : Coupled t capacity anc m) : anc.buffer.length = capacity := by
  cases m with
  | sending added => exact h.2
  | receiving undrained truncated => exact h.2.2.2

theorem Coupled.receivedFds (h : Coupled t capacity anc m) : anc.receivedFds = m.fds := by
  cases m with
  | sending added => rw [SocketAncillary.receivedFds, h.1.received]; rfl
  | receiving undrained truncated => rw [SocketAncillary.receivedFds, h.2.1]; rfl

theorem Coupled.receiving (h : anc.buffer.length = capacity) :
    Coupled t capacity anc.receiving (.receiving [] false) :=
  ⟨rfl, rfl, rfl, h⟩

/-- A cleared buffer is ready for a send, whatever its storage holds. -/
theorem Coupled.cleared (hcap : capacity ≤ t.layout.usizeMax) {buffer : Bytes}
    (h : buffer.length = capacity) : Coupled t capacity (.new buffer) (.sending []) :=
  ⟨Built.new ⟨buffer, h.trans_le hcap⟩, h⟩

theorem Built.length_eq {added : List RawMessage} (h : Built t anc added) :
    (added.flatMap t.layout.encodeMessage).length = anc.length := by
  rw [← h.bytes, List.length_take, Nat.min_eq_left h.length_le]

/-- A mode accepts an add exactly when the buffer does. -/
theorem Built.accepts_iff {added : List RawMessage} (h : Built t anc added) (add : Add) :
    Mode.accepts t anc.buffer.length added add = true ↔ Add.Accepted t anc add := by
  match add with
  | .addFds [] => simpa [Mode.accepts, Add.message, Add.Accepted] using h.receiveMode
  | .addFds (fd :: fds) =>
      simp [Mode.accepts, Add.message, Add.Accepted, SocketAncillary.Fits, h.receiveMode,
        h.length_eq, SocketAncillary.rightsMessage]
  | .addCredentials creds =>
      simp [Mode.accepts, Add.message, Add.Accepted, SocketAncillary.Fits, h.receiveMode,
        h.length_eq, SocketAncillary.credentialsMessage]

/-- A buffer and its mode, in the same world. -/
def InStep (t : Target) (capacity : Nat) (s : SocketAncillary × World) (s' : Mode × World) :
    Prop :=
  Coupled t capacity s.1 s'.1 ∧ s.2 = s'.2

/-- The part of a receive behind the delivery. -/
def Mode.finish (t : Target) (d : Delivery) : Outcome IoError Panic Syscall Unit × World →
    Outcome IoError Panic Syscall RecvResult × (Mode × World)
  | (.ok (), w) => (.ok ⟨d.data.length, d.ctrunc, d.trunc⟩, (.receiving (d.messages t) d.ctrunc, w))
  | (.err e, w) => (.err e, (.receiving [] false, w.close (d.rights t)))
  | (.panic p, w) => (.panic p, (.receiving (d.messages t) false, w))
  | (.pending c, w) => (.pending c, (.receiving (d.messages t) false, w))

theorem Mode.run_receive_ok {peek : Bool} {iov : List Bytes} {w w₁ : World} {d : Delivery}
    (h : (awaitRecv t capacity peek).run { w.close m.fds with iov := iov } = (.ok d, w₁)) :
    (Mode.receive t capacity peek iov).run (m, w) =
      Mode.finish t d ((cloexecFds t (d.rights t)).run (w₁.own t d)) := by
  simp only [Mode.receive, run_bind, run_update, andThen, onSnd, h, onError]
  obtain ⟨o, w₂⟩ := (cloexecFds t (d.rights t)).run (w₁.own t d)
  cases o <;> rfl

theorem inStep_receive (h : Coupled t capacity anc m) (peek : Bool) (iov : List Bytes)
    (w : World) :
    let r := (recvIntoAncillary t peek).run (anc, { w with iov := iov })
    let r' := (Mode.receive t capacity peek iov).run (m, w)
    r.1 = r'.1 ∧ InStep t capacity r.2 r'.2 := by
  intro r r'
  have hfds := h.receivedFds
  have hlen := h.length
  have hstart := Coupled.receiving (t := t) hlen
  cases hrecv : (awaitRecv t anc.buffer.length peek).run
      (World.close { w with iov := iov } anc.receivedFds) with
  | mk o w₁ =>
      have hrecv' : (awaitRecv t capacity peek).run { w.close m.fds with iov := iov } =
          (o, w₁) := by
        rw [← hlen, ← hfds]
        exact hrecv
      cases o with
      | ok d =>
          have hr : r = _ := run_recvIntoAncillary_ok hrecv
          have hr' : r' = _ := Mode.run_receive_ok hrecv'
          have hbuf : (overwrite anc.buffer 0 d.control).length = capacity := by
            rw [length_overwrite (by rw [Nat.zero_add]; exact (awaitRecv_ok hrecv).1), hlen]
          rw [hr, hr']
          obtain ⟨o₂, w₂⟩ := (cloexecFds t (d.rights t)).run (w₁.own t d)
          cases o₂ with
          | ok a => exact ⟨rfl, ⟨rfl, rfl, rfl, hbuf⟩, rfl⟩
          | err e => exact ⟨rfl, ⟨rfl, rfl, rfl, hbuf⟩, rfl⟩
          | panic p => exact ⟨rfl, ⟨rfl, rfl, rfl, hbuf⟩, rfl⟩
          | pending c => exact ⟨rfl, ⟨rfl, rfl, rfl, hbuf⟩, rfl⟩
      | err e =>
          have hr : r = _ := run_recvIntoAncillary_err hrecv
          have hr' : r' = (.err e, (.receiving [] false, w₁)) := by
            simp only [r', Mode.receive, run_bind, run_update, andThen, onSnd, hrecv']
          rw [hr, hr']
          exact ⟨rfl, hstart, rfl⟩
      | panic p =>
          exact absurd (congrArg Prod.fst hrecv) (awaitRecv_ne_panic _ _ _ p)
      | pending c =>
          have hr : r = _ := run_recvIntoAncillary_pending hrecv
          have hr' : r' = (.pending c, (.receiving [] false, w₁)) := by
            simp only [r', Mode.receive, run_bind, run_update, andThen, onSnd, hrecv']
          rw [hr, hr']
          exact ⟨rfl, hstart, rfl⟩

/-- What was built is the control data of a send. -/
theorem Built.control_eq {added : List RawMessage} (h : Built t anc added) :
    (if 0 < anc.length then some (anc.buffer.take anc.length) else none) =
      Mode.control t added := by
  rw [Mode.control, h.bytes]
  cases added with
  | nil => rw [← h.length_eq]; rfl
  | cons m rest =>
      have hm := t.layout.space_ge _ (h.payload_le m List.mem_cons_self)
      have hlen := length_encodeMessage t.layout.toLayout (h.payload_le m List.mem_cons_self)
      have hheader := t.layout.headerLen_pos
      rw [if_neg (List.cons_ne_nil m rest), if_pos]
      rw [← h.length_eq, List.flatMap_cons, List.length_append]
      omega

/-- A send names all of what was built exactly when `msg_controllen` holds its length. -/
theorem Built.msgControl_iff {added : List RawMessage} (h : Built t anc added) :
    msgControl t anc.buffer anc.length = Mode.control t added ↔
      t.msgControllen.count anc.length = anc.length := by
  rw [← h.control_eq]
  constructor
  · intro hsame
    rw [msgControl] at hsame
    by_cases hpos : 0 < anc.length
    · rw [if_pos hpos, if_pos hpos, Option.some.injEq] at hsame
      have hlen := congrArg List.length hsame
      have hbuf := h.length_le
      have hle := t.msgControllen.count_le anc.length
      rw [List.length_take, List.length_take] at hlen
      omega
    · have hle := t.msgControllen.count_le anc.length
      omega
  · exact msgControl_eq _

/-- The send of a filled buffer. -/
theorem Built.cmsgSendmsg_eq {added : List RawMessage} (h : Built t anc added)
    (hfits : t.msgControllen.count anc.length = anc.length) (iov : List Bytes) :
    cmsgSendmsg t iov anc = sendWith t ⟨t.named iov, Mode.control t added, sendNoSignal t⟩ := by
  rw [cmsgSendmsg, if_neg (by simp [h.receiveMode]), sendmsgVectored, h.msgControl_iff.mpr hfits]
  rfl

/-- Every call keeps the coupling and is answered alike, unless it is a send of more than
`msg_controllen` holds. -/
theorem inStep_exec (hcap : capacity ≤ t.layout.usizeMax) (call : BufferCall)
    (s : SocketAncillary × World) (s' : Mode × World) (hfits : call.Fits t s)
    (h : InStep t capacity s s') :
    (call.exec t s).1 = (Mode.exec t capacity call s').1 ∧
      InStep t capacity (call.exec t s).2 (Mode.exec t capacity call s').2 := by
  obtain ⟨anc, w⟩ := s
  obtain ⟨m, w'⟩ := s'
  obtain ⟨hm, rfl⟩ : Coupled t capacity anc m ∧ w = w' := h
  have hfds := hm.receivedFds
  have hlen := hm.length
  cases call with
  | new =>
      refine ⟨rfl, Coupled.cleared hcap hlen, ?_⟩
      simp only [BufferCall.exec, Mode.exec, hfds]
  | clear =>
      refine ⟨rfl, Coupled.cleared hcap hlen, ?_⟩
      simp only [BufferCall.exec, Mode.exec, SocketAncillary.clear, hfds]
  | add add =>
      simp only [BufferCall.exec, Add.run_eq (hlen.trans_le hcap)]
      cases m with
      | sending added =>
          have haccepts := hm.1.accepts_iff add
          have hbuilt := hm.1.add add
          rw [Add.run_eq (hlen.trans_le hcap)] at hbuilt
          rw [hlen] at haccepts
          by_cases hacc : Add.Accepted t anc add
          · rw [if_pos hacc, if_pos hacc] at hbuilt
            rw [if_pos hacc, Mode.exec, if_pos (haccepts.mpr hacc)]
            refine ⟨rfl, ⟨hbuilt, ?_⟩, rfl⟩
            cases hmsg : add.message t with
            | none => exact hlen
            | some message => exact (Built.length_append (hacc.fits hmsg)).trans hlen
          · rw [if_neg hacc, Mode.exec, if_neg (by rw [haccepts]; exact hacc)]
            exact ⟨rfl, hm, rfl⟩
      | receiving undrained truncated =>
          rw [if_neg fun hacc => by simpa [hm.1] using hacc.receiveMode]
          exact ⟨rfl, hm, rfl⟩
  | send iov =>
      cases m with
      | sending added =>
          rw [BufferCall.exec, hm.1.cmsgSendmsg_eq (hfits hm.1.receiveMode)]
          exact ⟨rfl, hm, rfl⟩
      | receiving undrained truncated =>
          have hsend : cmsgSendmsg t iov anc = Prog.throw receiveModeError := by
            rw [cmsgSendmsg, if_pos hm.1]
          rw [BufferCall.exec, hsend]
          exact ⟨rfl, hm, rfl⟩
  | receive peek iov =>
      obtain ⟨hout, hkeep⟩ := inStep_receive hm peek iov w
      exact ⟨congrArg Reply.received hout, hkeep⟩
  | messages =>
      cases m with
      | sending added =>
          have hnone := hm.1.received
          refine ⟨?_, ⟨{ hm.1 with received := rfl }, hlen⟩, rfl⟩
          simp only [BufferCall.exec, SocketAncillary.messages, run_bind, run_read, andThen,
            run_update, run_pure, id_eq, hnone, Mode.exec]
      | receiving undrained truncated =>
          obtain ⟨hmode, rfl, htrunc, -⟩ := hm
          exact ⟨rfl, ⟨hmode, rfl, htrunc, hlen⟩, rfl⟩
  | isTruncated =>
      cases m with
      | sending added =>
          exact ⟨congrArg Reply.truncated hm.1.truncated, hm, rfl⟩
      | receiving undrained truncated =>
          exact ⟨congrArg Reply.truncated hm.2.2.1, hm, rfl⟩

/-- Every call keeps the buffer in one of the two modes. -/
theorem coupled_exec (hcap : capacity ≤ t.layout.usizeMax) (call : BufferCall)
    (s : SocketAncillary × World) (h : ∃ m, Coupled t capacity s.1 m) :
    ∃ m, Coupled t capacity (call.exec t s).2.1 m := by
  obtain ⟨m, hm⟩ := h
  by_cases hfits : call.Fits t s
  · exact ⟨_, (inStep_exec hcap call s (m, s.2) hfits ⟨hm, rfl⟩).2.1⟩
  · cases call with
    | send iov => exact ⟨m, hm⟩
    | _ => exact absurd trivial hfits

end Coupling

/-! ## Whole runs -/

/-- What the caller knows of a buffer from the calls and replies so far: the accepted adds
since the last `new` or `clear`, or nothing after a receive attempt. -/
def BufferCall.track : Option (List Add) → BufferCall → Reply → Option (List Add)
  | _, .new, _ => some []
  | _, .clear, _ => some []
  | _, .receive _ _, _ => none
  | some adds, .add a, .added (.ok ()) => some (adds ++ [a])
  | tracked, _, _ => tracked

def Mode.tracked : Mode → Option (List RawMessage)
  | sending added => some added
  | receiving _ _ => none

theorem receive_tracked (t : Target) (capacity : Nat) (peek : Bool) (iov : List Bytes)
    (s : Mode × World) : ((Mode.receive t capacity peek iov).run s).2.1.tracked = none := by
  obtain ⟨m, w⟩ := s
  cases hrecv : (awaitRecv t capacity peek).run { w.close m.fds with iov := iov } with
  | mk o w₁ =>
      cases o with
      | ok d =>
          rw [Mode.run_receive_ok hrecv]
          obtain ⟨o₂, w₂⟩ := (cloexecFds t (d.rights t)).run (w₁.own t d)
          cases o₂ <;> rfl
      | err e => simp [Mode.receive, run_bind, andThen, onSnd, hrecv, Mode.tracked]
      | panic p => simp [Mode.receive, run_bind, andThen, onSnd, hrecv, Mode.tracked]
      | pending c => simp [Mode.receive, run_bind, andThen, onSnd, hrecv, Mode.tracked]

/-- The messages of the adds that the caller knows to be in the buffer are the mode. -/
def Tracks (t : Target) (tracked : Option (List Add)) (s : Mode × World) : Prop :=
  tracked.map (·.filterMap (·.message t)) = s.1.tracked

/-- The caller's knowledge follows the mode. -/
theorem tracks_exec (t : Target) (capacity : Nat) (tracked : Option (List Add))
    (call : BufferCall) (s : Mode × World) (h : Tracks t tracked s) :
    Tracks t (BufferCall.track tracked call (Mode.exec t capacity call s).1)
      (Mode.exec t capacity call s).2 := by
  obtain ⟨m, w⟩ := s
  rw [Tracks] at h ⊢
  cases call with
  | new => rfl
  | clear => rfl
  | add a =>
      cases m with
      | sending added =>
          obtain ⟨adds, rfl, hadds⟩ := Option.map_eq_some_iff.mp h
          rw [Mode.exec]
          split
          · simp only [BufferCall.track, Option.map_some, List.filterMap_append, hadds,
              Mode.tracked, List.filterMap_cons, List.filterMap_nil]
            cases a.message t <;> rfl
          · exact h
      | receiving undrained truncated =>
          obtain rfl := Option.map_eq_none_iff.mp h
          rfl
  | send iov => cases m <;> exact h
  | receive peek iov => exact (receive_tracked t capacity peek iov (m, w)).symm
  | messages => cases m <;> exact h
  | isTruncated => cases m <;> exact h

/-- A convenience send is the send of a buffer on which one `add_fds` of the same
descriptors succeeded. -/
theorem sendFdsVectoredImpl_eq_cmsgSendmsg {t : Target} (storage : Storage t)
    {fds : List RawFd} {anc : SocketAncillary}
    (h : (SocketAncillary.addFds t fds).run (.new storage.1) = (.ok (), anc))
    (iov : List Bytes) : sendFdsVectoredImpl t iov fds = cmsgSendmsg t iov anc := by
  have hrun := Add.run_eq (t := t) (Built.new storage).usize (.addFds fds)
  rw [show (Add.addFds fds).run t = SocketAncillary.addFds t fds from rfl, h] at hrun
  have hacc : Add.Accepted t (.new storage.1) (.addFds fds) := by
    by_contra hacc
    rw [if_neg hacc] at hrun
    cases hrun
  have hlen : fds.length * 4 ≤ i32Max := by
    cases fds with
    | nil => exact Nat.zero_le _
    | cons fd rest => exact hacc.2.1
  have hfit : fds ≠ [] → t.layout.CMSG_SPACE (fds.length * 4) ≤ storage.1.length := by
    cases fds with
    | nil => exact fun hne => absurd rfl hne
    | cons fd rest =>
        intro _
        simpa [SocketAncillary.new] using hacc.2.2
  obtain ⟨anc', hrun', hmode, -, hcontrol⟩ := run_addFds_fits storage hlen hfit
  obtain rfl : anc = anc' := congrArg Prod.snd (h.symm.trans hrun')
  rw [sendFdsVectoredImpl_eq iov hlen, cmsgSendmsg, if_neg (by simp [hmode]), sendmsgVectored,
    hcontrol]
  rfl

/-- A `SocketAncillary` refines the two modes over every run of its calls in which
`msg_controllen` holds the length of what each send passes, over any storage: it answers
alike, makes the same system calls and closes the same descriptors. A send passes exactly
the layouts of the adds accepted since the last `new` or `clear`, which read back as these
adds, as the convenience sends do; after any receive attempt, adds and sends are rejected
and change nothing until then. -/
theorem buffer_refines_mode (t : Target) (storage : Storage t) (w : World)
    (calls : List BufferCall)
    (hfits : Guarded (BufferCall.exec t) (BufferCall.Fits t) calls (.new storage.1, w)) :
    let r := runs (BufferCall.exec t) calls (.new storage.1, w)
    let r' := runs (Mode.exec t storage.1.length) calls (.sending [], w)
    r.1 = r'.1 ∧ InStep t storage.1.length r.2 r'.2 ∧
    (match observe BufferCall.track (some []) calls r.1 with
      | some adds =>
          let added := adds.filterMap (·.message t)
          (t.layout.parse (added.flatMap t.layout.encodeMessage)).map (Add.content t) =
            adds.filter (· ≠ .addFds []) ∧
          (msgControl t r.2.1.buffer r.2.1.length = Mode.control t added ↔
            t.msgControllen.count r.2.1.length = r.2.1.length) ∧
          ∀ iov, (BufferCall.send iov).Fits t r.2 → cmsgSendmsg t iov r.2.1 =
            sendWith t ⟨t.named iov, Mode.control t added, sendNoSignal t⟩
      | none =>
          (∀ a, BufferCall.exec t (.add a) r.2 = (.added (.err ⟨⟩), r.2)) ∧
          ∀ iov, BufferCall.exec t (.send iov) r.2 = (.sent (.err receiveModeError), r.2)) ∧
    ∀ fds anc, (SocketAncillary.addFds t fds).run (.new storage.1) = (.ok (), anc) →
      ∀ iov, sendFdsVectoredImpl t iov fds = cmsgSendmsg t iov anc := by
  intro r r'
  have hstart : InStep t storage.1.length (.new storage.1, w) (.sending [], w) :=
    ⟨Coupled.cleared storage.2 rfl, rfl⟩
  obtain ⟨hout, hkeep⟩ := runs_simulation (inStep_exec storage.2) calls hfits hstart
  have htrack : Tracks t (observe BufferCall.track (some []) calls r'.1) r'.2 :=
    runs_observe (fun tracked call s => tracks_exec t storage.1.length tracked call s) calls rfl
  refine ⟨hout, hkeep, ?_, fun fds anc h iov => sendFdsVectoredImpl_eq_cmsgSendmsg storage h iov⟩
  rw [Tracks] at htrack
  rw [show r.1 = r'.1 from hout]
  obtain ⟨hcoupled, -⟩ := hkeep
  cases hmode : r'.2.1 with
  | sending added =>
      rw [hmode] at hcoupled htrack
      obtain ⟨adds, hadds, rfl⟩ := Option.map_eq_some_iff.mp htrack
      rw [hadds]
      refine ⟨?_, hcoupled.1.msgControl_iff, fun iov h =>
        hcoupled.1.cmsgSendmsg_eq (h hcoupled.1.receiveMode) iov⟩
      rw [parse_encodeMessages _ _ hcoupled.1.payload_le, map_content_messages]
  | receiving undrained truncated =>
      rw [hmode] at hcoupled htrack
      rw [Option.map_eq_none_iff.mp htrack]
      refine ⟨fun a => ?_, fun iov => ?_⟩
      · rw [BufferCall.exec, Add.run_eq (hcoupled.length.trans_le storage.2), if_neg]
        exact fun hacc => by simpa [hcoupled.1] using hacc.receiveMode
      · rw [BufferCall.exec, cmsgSendmsg, if_pos hcoupled.1]
        rfl

/-- On macOS, a buffer that held other bytes is filled, sent, used for a receive and filled
again. -/
theorem buffer_refines_mode_reused :
    let d : Delivery := ⟨[1], Target.macos.layout.encodeMessage
      (SocketAncillary.rightsMessage .macos [7]), false, false, [7]⟩
    let calls : List BufferCall := [.add (.addFds [5]), .send [[1]], .receive false [[0]],
      .add (.addFds [6]), .clear, .add (.addFds [6]), .send [[2]]]
    let w := World.scripted [.ok 1] [.ok d]
    let storage : Storage .macos := ⟨List.replicate 16 0xff, by decide⟩
    let r := runs (BufferCall.exec .macos) calls (.new storage.1, w)
    let r' := runs (Mode.exec .macos storage.1.length) calls (.sending [], w)
    r.1 = r'.1 ∧ r.2.2 = r'.2.2 ∧ r.2.1.buffer.take r.2.1.length =
      Target.macos.layout.encodeMessage (SocketAncillary.rightsMessage .macos [6]) := by
  intro d calls w storage r r'
  have hfits : Guarded (BufferCall.exec .macos) (BufferCall.Fits .macos) calls
      (.new storage.1, w) := by decide +kernel
  have hrefines := buffer_refines_mode .macos storage w calls hfits
  exact ⟨hrefines.1, hrefines.2.1.2, by decide +kernel⟩

/-- An add that fits appends its message. -/
theorem exec_addFds {t : Target} {anc : SocketAncillary} {added : List RawMessage}
    (h : Built t anc added) {fds : List RawFd} (hne : fds ≠ [])
    (hlen : fds.length * 4 ≤ i32Max)
    (hfit : anc.length + t.layout.CMSG_SPACE (fds.length * 4) ≤ anc.buffer.length) (w : World) :
    ∃ anc', BufferCall.exec t (.add (.addFds fds)) (anc, w) = (.added (.ok ()), (anc', w)) ∧
      Built t anc' (added ++ [SocketAncillary.rightsMessage t fds]) ∧
      anc'.length = anc.length + t.layout.CMSG_SPACE (fds.length * 4) ∧
      anc'.buffer.length = anc.buffer.length := by
  obtain ⟨fd, rest, rfl⟩ := List.exists_cons_of_ne_nil hne
  have hacc : Add.Accepted t anc (.addFds (fd :: rest)) := ⟨h.receiveMode, hlen, hfit⟩
  have hmessage : Add.message t (.addFds (fd :: rest)) =
      some (SocketAncillary.rightsMessage t (fd :: rest)) := rfl
  have hrun := Add.run_eq h.usize (.addFds (fd :: rest))
  have hbuilt := h.add (.addFds (fd :: rest))
  rw [if_pos hacc] at hrun hbuilt
  rw [hrun, hmessage] at hbuilt
  refine ⟨_, ?_, hbuilt, ?_, ?_⟩
  · rw [BufferCall.exec, hrun, hmessage]
  · simp only [Option.elim_some, SocketAncillary.append, SocketAncillary.rightsMessage,
      SocketAncillary.length_encodeFds]
  · exact Built.length_append (hacc.fits hmessage)

/-- Two messages of 2³¹ bytes, where `msg_controllen` is a `socklen_t`: their length narrows
to zero, and the payload goes out without the descriptors. -/
theorem buffer_refines_mode_narrowed :
    let fds : List RawFd := List.replicate 536870909 7
    let message := SocketAncillary.rightsMessage .macos fds
    let storage : Bytes := List.replicate (2 ^ 32) 0
    let w := World.scripted [.ok 1] []
    let r := runs (BufferCall.exec .macos) [.add (.addFds fds), .add (.addFds fds)]
      (.new storage, w)
    fds.length * 4 ≤ i32Max ∧ storage.length ≤ Target.macos.layout.usizeMax ∧
      r.1 = [.added (.ok ()), .added (.ok ())] ∧
      ((cmsgSendmsg .macos [[1]] r.2.1).run w).2.trace =
        [.sendmsg ⟨[[1]], some [], sendNoSignal .macos⟩ (.ok 1)] ∧
      Mode.control .macos [message, message] ≠ some [] := by
  intro fds message storage w r
  have hfds : fds.length = 536870909 := List.length_replicate
  have hne : fds ≠ [] := List.ne_nil_of_length_pos (by rw [hfds]; decide)
  have hlen : fds.length * 4 ≤ i32Max := by rw [hfds]; decide
  have hspace : Target.macos.layout.CMSG_SPACE (fds.length * 4) = 2 ^ 31 := by rw [hfds]; decide
  have hstorage : storage.length = 2 ^ 32 := List.length_replicate
  have husize : storage.length ≤ Target.macos.layout.usizeMax := by rw [hstorage]; decide
  obtain ⟨anc₁, hfirst, hbuilt₁, hlen₁, hsize₁⟩ :=
    exec_addFds (Built.new ⟨storage, husize⟩) hne hlen (by
      rw [hspace, SocketAncillary.new, Nat.zero_add, hstorage]
      decide) w
  rw [SocketAncillary.new, Nat.zero_add, hspace] at hlen₁
  rw [SocketAncillary.new, hstorage] at hsize₁
  obtain ⟨anc₂, hsecond, hbuilt₂, hlen₂, -⟩ :=
    exec_addFds hbuilt₁ hne hlen (by
      rw [hspace, hlen₁, hsize₁]
      decide) w
  rw [hspace, hlen₁, show 2 ^ 31 + 2 ^ 31 = 2 ^ 32 from rfl] at hlen₂
  have hr : r = ([.added (.ok ()), .added (.ok ())], (anc₂, w)) := by
    rw [show r = _ from runs_cons .., hfirst, runs_cons, hsecond]
    rfl
  have hcount : Target.macos.msgControllen.count (2 ^ 32) = 0 := by decide
  have hcontrol : msgControl .macos anc₂.buffer anc₂.length = some [] := by
    rw [msgControl, hlen₂, if_pos (by decide), hcount, List.take_zero]
  have hmode : Mode.control .macos [message, message] ≠ some [] := by
    intro hnone
    have hsame := hbuilt₂.msgControl_iff.mp (hcontrol.trans hnone.symm)
    rw [hlen₂, hcount] at hsame
    cases hsame
  rw [hr]
  refine ⟨hlen, husize, rfl, ?_, hmode⟩
  rw [cmsgSendmsg, if_neg (by simp [hbuilt₂.receiveMode]), sendmsgVectored, hcontrol]
  rfl

end UnixAncillary
