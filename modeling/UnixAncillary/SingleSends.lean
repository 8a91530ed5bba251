import UnixAncillary.Acceptance
import UnixAncillary.Handoff
import UnixAncillary.Ownership
import UnixAncillary.PayloadRule

/-!
# Sends of one call

Every send but `send_fds_all` is one call, whatever interrupts it. It carries the whole
payload and all descriptors, and the send returns as soon as the kernel accepts some of it:
`Posting.Running.accepted`. A send that fails or is dropped while it waits has handed over
nothing.
-/

namespace UnixAncillary

open ByteCodec HandleTable Program Program.Prog

/-! ## Sends -/

/-- The sends of one call. The low-level send has a buffer with the messages that were added
to it. -/
inductive SingleSend where
  | streamFds (data : Bytes) (fds : List RawFd)
  | streamFdsVectored (iov : List Bytes) (fds : List RawFd)
  | datagramFds (data : Bytes) (fds : List RawFd)
  | datagramFdsVectored (iov : List Bytes) (fds : List RawFd)
  | seqpacketFds (data : Bytes) (fds : List RawFd)
  | lowlevel (iov : List Bytes) (ancillary : SocketAncillary)

namespace SingleSend

def run (t : Target) (rt : Runtime) : SingleSend → Sys Nat
  | streamFds data fds => UnixStreamExt.sendFds t rt data fds
  | streamFdsVectored iov fds => UnixStreamExt.sendFdsVectored t rt iov fds
  | datagramFds data fds => UnixDatagramExt.sendFds t rt data fds
  | datagramFdsVectored iov fds => UnixDatagramExt.sendFdsVectored t iov fds
  | seqpacketFds data fds => Seqpacket.sendFds t rt data fds
  | lowlevel iov ancillary => cmsgSendmsg t iov ancillary

/-- The sends that the crate has for blocking sockets only block under any runtime. -/
def runtime (rt : Runtime) : SingleSend → Runtime
  | datagramFdsVectored _ _ | lowlevel _ _ => .blocking
  | _ => rt

/-- What a send is asked to hand over: the payload, and the descriptors of every `add_fds`. The
header holds the number of slices and the length of the control bytes. A stream send with
descriptors has a payload, which is counted as `usize`. -/
inductive Carries (t : Target) : SingleSend → Message → Prop
  | streamFds (data : Bytes) (fds : List RawFd) (h : fds.length * 4 ≤ i32Max)
      (hpayload : data = [] → fds = []) : Carries t (streamFds data fds) ⟨data, fds⟩
  | streamFdsVectored (iov : List Bytes) (fds : List RawFd) (h : fds.length * 4 ≤ i32Max)
      (hnames : t.Names iov) (hpayload : iov.flatten = [] → fds = [])
      (hsum : fds ≠ [] → iov.flatten.length ≤ t.layout.usizeMax) :
      Carries t (streamFdsVectored iov fds) ⟨iov.flatten, fds⟩
  | datagramFds (data : Bytes) (fds : List RawFd) (h : fds.length * 4 ≤ i32Max) :
      Carries t (datagramFds data fds) ⟨data, fds⟩
  | datagramFdsVectored (iov : List Bytes) (fds : List RawFd) (h : fds.length * 4 ≤ i32Max)
      (hnames : t.Names iov) : Carries t (datagramFdsVectored iov fds) ⟨iov.flatten, fds⟩
  | seqpacketFds (data : Bytes) (fds : List RawFd) (h : fds.length * 4 ≤ i32Max) :
      Carries t (seqpacketFds data fds) ⟨data, fds⟩
  | lowlevel (iov : List Bytes) (storage : Storage t) (adds : List Add)
      (hok : ((addAll t adds).run (.new storage.1)).1 = .ok ()) (hnames : t.Names iov)
      (hfits : let length := ((addAll t adds).run (.new storage.1)).2.length
        t.msgControllen.count length = length) :
      Carries t (lowlevel iov ((addAll t adds).run (.new storage.1)).2)
        ⟨iov.flatten, adds.flatMap Add.fds⟩

end SingleSend

/-- The datagram of a call. -/
def SendCall.datagram (t : Target) (call : SendCall) : Message := ⟨call.payload, call.attached t⟩

section Sends

variable {t : Target} {rt : Runtime} {op : SingleSend} {m : Message}

theorem datagram_sendCallFor {iov : List Bytes} {fds : List RawFd} (hnames : t.Names iov)
    (h : fds.length * 4 ≤ i32Max) : (sendCallFor t iov fds).datagram t = ⟨iov.flatten, fds⟩ := by
  have hcall : sendCallFor t iov fds = { callAt t iov.flatten fds 0 with iov := iov } := by
    rw [sendCallFor, t.named_eq hnames]
    rfl
  have hattached := attached_callAt (t := t) (m := ⟨iov.flatten, fds⟩) h 0
  rw [if_pos rfl] at hattached
  rw [SendCall.datagram, hcall]
  exact congrArg (Message.mk iov.flatten) hattached

/-- The call of a scalar send. -/
theorem datagram_singleton (data : Bytes) {fds : List RawFd} (h : fds.length * 4 ≤ i32Max) :
    (sendCallFor t [data] fds).datagram t = ⟨data, fds⟩ := by
  have hone := datagram_sendCallFor (t.names_singleton data) h
  rwa [List.flatten_singleton] at hone

/-- A call names its slices once. -/
theorem sendCallFor_named {iov : List Bytes} {fds : List RawFd} (hnames : t.Names iov) :
    sendCallFor t iov fds = sendCallFor t (sendCallFor t iov fds).iov fds := by
  rw [show (sendCallFor t iov fds).iov = t.named iov from rfl, t.named_eq hnames]

/-- The descriptors that an added message attaches. -/
theorem attached_message (add : Add) : (add.message t).toList.flatMap (fun message =>
    if message.isRights t then (chunks4 message.data).map (decodeI32 t.layout.bigEndian)
      else []) = add.fds := by
  have hne := t.rights_ne_credentials
  match add with
  | .addFds [] => rfl
  | .addFds (fd :: fds) =>
      simp only [Add.message, Option.toList_some, List.flatMap_cons, List.flatMap_nil,
        List.append_nil, isRights_rightsMessage, if_true]
      simp only [Add.fds, SocketAncillary.rightsMessage, chunks4_encodeFds, List.map_map,
        Function.comp_def, decodeI32_encodeI32, List.map_id']
  | .addCredentials creds =>
      simp [Add.message, Add.fds, RawMessage.isRights, SocketAncillary.credentialsMessage,
        hne.symm]

/-- The call of a buffer carries the messages that were added to it. -/
theorem messages_control {added : List RawMessage} {anc : SocketAncillary} (iov : List Bytes)
    (h : Built t anc added) :
    SendCall.messages t ⟨iov, Mode.control t added, sendNoSignal t⟩ = added := by
  rw [SendCall.messages, Mode.control]
  split
  case isTrue hnil => exact hnil.symm
  case isFalse => exact parse_encodeMessages t.layout _ h.payload_le

/-- A buffer attaches the descriptors of all adds. -/
theorem attached_control {adds : List Add} {anc : SocketAncillary} (iov : List Bytes)
    (h : Built t anc (adds.filterMap (·.message t))) :
    SendCall.attached t ⟨iov, Mode.control t (adds.filterMap (·.message t)), sendNoSignal t⟩ =
      adds.flatMap Add.fds := by
  rw [SendCall.attached, messages_control iov h, flatMap_filterMap]
  exact List.flatMap_congr fun add _ => attached_message add

/-- Every send is one call, which carries what the send is asked to hand over. The call of a
convenience send has no other control messages. -/
theorem SingleSend.Carries.run_eq (h : op.Carries t m) : ∃ call : SendCall,
    call.datagram t = m ∧ (∀ rt, op.run t rt = (op.runtime rt).io (sendWith t call)) ∧
      ((∃ iov anc, op = .lowlevel iov anc) ∨ call = sendCallFor t call.iov m.fds) := by
  cases h with
  | streamFds data fds h hpayload =>
      have hcheck : ¬ (data = [] ∧ fds ≠ []) := fun hempty => hempty.2 (hpayload hempty.1)
      refine ⟨sendCallFor t [data] fds, datagram_singleton data h, fun rt => ?_,
        .inr (sendCallFor_named (t.names_singleton data))⟩
      rw [SingleSend.run, UnixStreamExt.sendFds, streamSendFds, validateStreamSend_eq,
        if_neg hcheck, pure_bind_eq]
      exact congrArg rt.io (sendFdsVectoredImpl_eq [data] h)
  | streamFdsVectored iov fds h hnames hpayload hsum =>
      refine ⟨sendCallFor t iov fds, datagram_sendCallFor hnames h, fun rt => ?_,
        .inr (sendCallFor_named hnames)⟩
      rw [SingleSend.run, UnixStreamExt.sendFdsVectored, streamSendFdsVectored]
      split
      case isTrue hfds =>
          have htotal : iovLen t iov = .ok iov.flatten.length := by
            rw [iovLen_eq, Target.addUsize, Nat.zero_add, if_pos (hsum hfds)]
          have hpos : iov.flatten.length ≠ 0 := fun hzero =>
            hfds (hpayload (List.length_eq_zero_iff.mp hzero))
          rw [htotal, ofExcept_ok_bind, if_neg hpos]
          exact congrArg rt.io (sendFdsVectoredImpl_eq iov h)
      case isFalse => exact congrArg rt.io (sendFdsVectoredImpl_eq iov h)
  | datagramFds data fds h =>
      exact ⟨sendCallFor t [data] fds, datagram_singleton data h,
        fun rt => congrArg rt.io (sendFdsVectoredImpl_eq [data] h),
        .inr (sendCallFor_named (t.names_singleton data))⟩
  | datagramFdsVectored iov fds h hnames =>
      exact ⟨sendCallFor t iov fds, datagram_sendCallFor hnames h,
        fun rt => sendFdsVectoredImpl_eq iov h, .inr (sendCallFor_named hnames)⟩
  | seqpacketFds data fds h =>
      exact ⟨sendCallFor t [data] fds, datagram_singleton data h,
        fun rt => congrArg rt.io (sendFdsVectoredImpl_eq [data] h),
        .inr (sendCallFor_named (t.names_singleton data))⟩
  | lowlevel iov storage adds hok hnames hfits =>
      have hbuilt := (Built.new storage).addAll hok
      rw [List.nil_append] at hbuilt
      refine ⟨_, ?_, fun rt => hbuilt.cmsgSendmsg_eq hfits iov, .inl ⟨_, _, rfl⟩⟩
      rw [SendCall.datagram, attached_control (t.named iov) hbuilt, t.named_eq hnames]
      rfl

end Sends

/-! ## A running send -/

/-- A running send: the world in which it was called and the answers that it got. -/
structure Posting where
  op : SingleSend
  rt : Runtime
  message : Message
  world : World
  answers : List (Except OsError Nat)

namespace Posting

/-- The send as far as its answers go. -/
def run (t : Target) (c : Posting) : Outcome IoError Panic Syscall Nat × World :=
  (c.op.run t c.rt).run { c.world with sends := c.answers }

/-- The send with one more answer. -/
def answer (c : Posting) (a : Except OsError Nat) : Posting :=
  { c with answers := c.answers ++ [a] }

/-- A send that carries its message and has failed calls behind it, if any. -/
structure Running (t : Target) (c : Posting) : Prop where
  carries : c.op.Carries t c.message
  failed : ∀ a ∈ c.answers, ∃ e, a = .error e

end Posting

section Running

variable {t : Target} {rt : Runtime} {call : SendCall} {refuses : Nat → Option OsError} {j : Nat}
  {answers errors : List (Except OsError Nat)} {o : Outcome IoError Panic Syscall Nat}

/-- A waiting turn has met errors that are retried. -/
theorem Turn.waiting_cases {c : Syscall} (h : Turn rt call refuses j answers (.pending c)) :
    c = .sendmsg call ∧ ∀ a ∈ answers, ∃ e, a = .error e ∧ rt.Retries e := by
  generalize ho : (.pending c : Outcome IoError Panic Syscall Nat) = o at h
  induction h with
  | refused e he => cases ho
  | waiting hfree =>
      cases ho
      exact ⟨rfl, fun _ h => by cases h⟩
  | accepted hfree n hn => cases ho
  | failed hfree e he => cases ho
  | retried hfree e he rest ih =>
      obtain ⟨hcall, hall⟩ := ih ho
      exact ⟨hcall, List.forall_mem_cons.mpr ⟨⟨e, rfl, he⟩, hall⟩⟩

/-- A turn succeeds only with the last of its answers. -/
theorem Turn.ok_mem {n : Nat} (h : Turn rt call refuses j answers (.ok n)) : .ok n ∈ answers := by
  generalize ho : (.ok n : Outcome IoError Panic Syscall Nat) = o at h
  induction h with
  | refused e he => cases ho
  | waiting hfree => cases ho
  | accepted hfree n' hn =>
      cases ho
      exact List.mem_singleton_self _
  | failed hfree e he => cases ho
  | retried hfree e he rest ih => exact List.mem_cons_of_mem _ (ih ho)

/-- Where a turn waits, the next answer ends it when it accepts. -/
theorem Turn.answered {script : List (Except OsError Nat)} {n : Nat} {c : Syscall}
    (hwaiting : Turn rt call refuses j errors (.pending c)) (h : Turn rt call refuses j answers o)
    (hscript : errors ++ [.ok n] = answers ++ script)
    (hdrained : ∀ c, o = .pending c → script = []) : o = .ok n := by
  generalize ho : (.pending c : Outcome IoError Panic Syscall Nat) = o' at hwaiting
  induction hwaiting generalizing answers with
  | refused e he => cases ho
  | accepted hfree n' hn => cases ho
  | failed hfree e he => cases ho
  | waiting hfree =>
      cases h with
      | refused e he => cases hfree.symm.trans he
      | waiting _ =>
          rw [hdrained _ rfl] at hscript
          cases hscript
      | accepted _ n' hn =>
          cases hscript
          rfl
      | failed _ e he => cases hscript
      | retried _ e he rest => cases hscript
  | retried hfree e he rest ih =>
      cases h with
      | refused e' he' => cases hfree.symm.trans he'
      | waiting _ =>
          rw [hdrained _ rfl] at hscript
          cases hscript
      | accepted _ n' hn => cases hscript
      | failed _ e' he' =>
          cases hscript
          exact absurd he he'
      | retried _ e' he' rest' =>
          obtain ⟨hhead, htail⟩ := List.cons_eq_cons.mp hscript
          cases hhead
          exact ih rest' htail ho

/-- A waiting turn has used up the script. -/
theorem Turned.waiting_answers {w : World} {r : Outcome IoError Panic Syscall Nat × World}
    {c : Syscall} (h : Turned t rt call w r answers) (hr : r.1 = .pending c) :
    answers = w.sends := by
  obtain ⟨raw, hraw, hanswers⟩ := h.script
  rw [h.drained c hr, List.append_nil] at hraw
  have hturn := h.turn
  rw [hr] at hturn
  rw [hraw, hanswers]
  refine (List.map_congr_left (g := id) fun a ha => ?_).trans (List.map_id _)
  have hmem : a.map (min · call.payload.length) ∈ answers := by
    rw [hanswers]
    exact List.mem_map_of_mem ha
  obtain ⟨e, he, -⟩ := hturn.waiting_cases.2 _ hmem
  cases a with
  | ok n => cases he
  | error e' => rfl

variable {c : Posting}

/-- A running send is a turn of the one call that carries its message. -/
theorem Posting.Running.turned (h : c.Running t) : ∃ call : SendCall, call.datagram t = c.message ∧
    ∀ script, ∃ answers, Turned t (c.op.runtime c.rt) call { c.world with sends := script }
      ((c.op.run t c.rt).run { c.world with sends := script }) answers := by
  obtain ⟨call, hcall, hrun, -⟩ := h.carries.run_eq
  refine ⟨call, hcall, fun script => ?_⟩
  rw [hrun]
  exact turned_io _ call _

/-- A waiting send is a waiting turn of its call with all its answers. -/
theorem Posting.Running.waiting (h : c.Running t) {s : Syscall} (hcall : (c.run t).1 = .pending s) :
    ∃ call : SendCall, call.datagram t = c.message ∧ s = .sendmsg call ∧
      Turn (c.op.runtime c.rt) call (t.refusal c.world.nosigpipe c.world.finished)
        c.world.blocked c.answers (.pending s) ∧
      ∀ script, ∃ answers, Turned t (c.op.runtime c.rt) call { c.world with sends := script }
        ((c.op.run t c.rt).run { c.world with sends := script }) answers := by
  obtain ⟨call, hmessage, hturned⟩ := h.turned
  obtain ⟨answers, hturn⟩ := hturned c.answers
  have hwaiting := hturn.turn
  rw [hturn.waiting_answers hcall] at hwaiting
  rw [show ((c.op.run t c.rt).run { c.world with sends := c.answers }).1 = .pending s
    from hcall] at hwaiting
  exact ⟨call, hmessage, hwaiting.waiting_cases.1, hwaiting, hturned⟩

/-- The call of a waiting send carries its message, and the send returns as soon as the
kernel accepts some of it. -/
theorem Posting.Running.accepted (h : c.Running t) {call : SendCall}
    (hcall : (c.run t).1 = .pending (.sendmsg call)) : call.datagram t = c.message ∧
      ∀ n ≤ call.payload.length, ((c.answer (.ok n)).run t).1 = .ok n := by
  obtain ⟨call', hcarries, heq, hwaiting, hturned⟩ := h.waiting hcall
  cases heq
  refine ⟨hcarries, fun n hn => ?_⟩
  obtain ⟨answers', hturn'⟩ := hturned (c.answers ++ [.ok n])
  let clip (a : Except OsError Nat) := Except.map (min · call.payload.length) a
  have hfixed : (c.answers ++ [Except.ok n]).map clip = c.answers ++ [.ok n] := by
    refine (List.map_congr_left (g := id) fun a ha => ?_).trans (List.map_id _)
    rcases List.mem_append.mp ha with ha | ha
    · obtain ⟨e, rfl, -⟩ := hwaiting.waiting_cases.2 a ha
      rfl
    · obtain rfl := List.mem_singleton.mp ha
      exact congrArg Except.ok (Nat.min_eq_left hn)
  obtain ⟨raw', hraw', hanswers'⟩ := hturn'.script
  have hscript := hfixed.symm.trans (congrArg (List.map clip) hraw')
  rw [List.map_append, ← hanswers'] at hscript
  refine hwaiting.answered hturn'.turn hscript fun c' hc' => ?_
  rw [hturn'.drained c' hc', List.map_nil]

/-- A send that is not accepted does not return `Ok`. -/
theorem Posting.Running.not_ok (h : c.Running t) (n : Nat) : (c.run t).1 ≠ .ok n := by
  intro hok
  obtain ⟨call, -, hturned⟩ := h.turned
  obtain ⟨answers, hturn⟩ := hturned c.answers
  have hturn' := hturn.turn
  rw [show ((c.op.run t c.rt).run { c.world with sends := c.answers }).1 = .ok n from hok] at hturn'
  obtain ⟨raw, hraw, rfl⟩ := hturn.script
  obtain ⟨a, ha, hmap⟩ := List.mem_map.mp hturn'.ok_mem
  have hmem : a ∈ c.answers := by
    rw [show c.answers = raw ++ _ from hraw]
    exact List.mem_append_left _ ha
  obtain ⟨e, rfl⟩ := h.failed a hmem
  cases hmap

theorem Posting.Running.ne_panic (h : c.Running t) (p : Panic) : (c.run t).1 ≠ .panic p := by
  obtain ⟨call, -, hturned⟩ := h.turned
  obtain ⟨answers, hturn⟩ := hturned c.answers
  exact hturn.turn.ne_panic p

end Running

end UnixAncillary
