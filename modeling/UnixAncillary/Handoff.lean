import UnixAncillary.Receives
import UnixAncillary.SendAll

/-!
# Handing messages over a stream

One sender hands its messages to `send_fds_all`, one after the other, while a receiver
calls `recv_fds_into` with buffers of any size. The two meet in the queue of a stream
kernel, and their system calls interleave in any order. `Handoff.Inv` is what every
interleaving keeps: what was received and what is queued is what was accepted so far.
-/

namespace UnixAncillary

open ByteCodec HandleTable Program Program.Prog Marked SendAttempt

/-! ## The kernel -/

/-- A byte of the stream with the descriptors that arrive with it. -/
abbrev StreamByte : Type := UInt8 × List RawFd

/-- The descriptors that a call hands to the kernel. -/
def SendCall.attached (t : Target) (call : SendCall) : List RawFd :=
  (call.messages t).flatMap fun message =>
    if message.isRights t then (chunks4 message.data).map (decodeI32 t.layout.bigEndian) else []

/-- The segment of a call of which `k` bytes are accepted. -/
def SendCall.segment (t : Target) (call : SendCall) (k : Nat) : List StreamByte :=
  marked (call.attached t) (call.payload.take k)

/-! ## The parties -/

/-- What one `send_fds_all` hands over. -/
structure Message where
  payload : Bytes
  fds : List RawFd
  deriving DecidableEq

/-- The stream of one message: its descriptors come with its first byte. -/
def Message.stream (m : Message) : List StreamByte := marked m.fds m.payload

/-- A running `recv_fds_into::<n>` on `buf`: the world in which it was called and the
answers that it got. -/
structure Receiving where
  n : Nat
  buf : Bytes
  world : World
  answers : List (Except OsError Delivery)

/-- The receive as far as its answers go. -/
def Receiving.run (t : Target) (c : Receiving) :
    Outcome IoError Panic Syscall (Nat × List RawFd) × World :=
  (UnixStreamExt.recvFdsInto t .blocking c.n c.buf).run { c.world with recvs := c.answers }

/-- A completed `recv_fds_into::<n>`: what it took from the queue, the numbers that the
kernel installed for the descriptors, the answers of the `fcntl` calls, its result, the data
buffer and the numbers closed. -/
structure Receive where
  n : Nat
  taken : List StreamByte
  installed : List RawFd
  fcntls : List (Option OsError)
  result : Outcome IoError Panic Syscall (Nat × List RawFd)
  buffer : Bytes
  closed : List RawFd

namespace Receive

/-- The bytes that the caller finds in its buffer. After a failed close-on-exec it is
told no count. -/
def bytes (r : Receive) : Bytes :=
  match r.result with
  | .ok (count, _) => r.buffer.take count
  | _ => r.buffer.take r.taken.length

/-- The numbers that the caller gets. -/
def returned (r : Receive) : List RawFd :=
  match r.result with
  | .ok (_, fds) => fds
  | _ => []

/-- The sent descriptor behind a number. -/
def file (r : Receive) (fd : RawFd) : Option RawFd :=
  (r.installed.zip (attachments r.taken)).lookup fd

/-- The sent descriptors that the receive returned or closed, in that order. -/
def files (r : Receive) : List RawFd := (r.returned ++ r.closed).filterMap r.file

end Receive

/-- The receive `c` after the kernel has answered it with `d`. -/
def Receiving.finish (t : Target) (c : Receiving) (taken : List StreamByte) (d : Delivery) :
    Receive :=
  let r := Receiving.run t { c with answers := c.answers ++ [.ok d] }
  ⟨c.n, taken, d.installed, c.world.fcntls, r.1, r.2.iov.flatten, closedSince c.world r.2⟩

/-- Both parties and the queue between them. The sender is done with the messages `done`
and inside the call for the first of `todo`, which started in `world` and got `answers`. -/
structure Handoff where
  done : List Message
  todo : List Message
  world : World
  answers : List (Except OsError Nat)
  queue : List StreamByte
  call : Option Receiving
  receives : List Receive

namespace Handoff

def start (msgs : List Message) (w : World) : Handoff := ⟨[], msgs, w, [], [], none, []⟩

/-- The call for the message `m` as far as its answers go. -/
def sending (t : Target) (rt : Runtime) (s : Handoff) (m : Message) :
    Outcome IoError Panic Syscall Unit × World :=
  (UnixStreamExt.sendFdsAll t rt m.payload m.fds).run { s.world with sends := s.answers }

/-- One step of the sender, the receiver or the kernel. A sender whose call fails stops. -/
inductive Step (t : Target) (rt : Runtime) : Handoff → Handoff → Prop
  | sendmsg (s : Handoff) (m : Message) (rest : List Message) (call : SendCall) (k : Nat)
      (htodo : s.todo = m :: rest) (hcall : (s.sending t rt m).1 = .pending (.sendmsg call))
      (hpos : 0 < k) (hk : k ≤ call.payload.length) :
      Step t rt s { s with
        answers := s.answers ++ [.ok k]
        queue := s.queue ++ call.segment t k }
  | sendFails (s : Handoff) (m : Message) (rest : List Message) (call : SendCall) (e : OsError)
      (htodo : s.todo = m :: rest) (hcall : (s.sending t rt m).1 = .pending (.sendmsg call)) :
      Step t rt s { s with answers := s.answers ++ [.error e] }
  | sent (s : Handoff) (m : Message) (rest : List Message) (w : World)
      (htodo : s.todo = m :: rest) (hok : (s.sending t rt m).1 = .ok ()) :
      Step t rt s { s with done := s.done ++ [m], todo := rest, world := w, answers := [] }
  | receive (s : Handoff) (n : Nat) (buf : Bytes) (w : World) (hidle : s.call = none)
      (hn : 4 * n ≤ i32Max) (hbuf : buf ≠ []) :
      Step t rt s { s with call := some ⟨n, buf, w, []⟩ }
  | recvmsg (s : Handoff) (c : Receiving) (call : RecvCall) (taken rest : List StreamByte)
      (d : Delivery) (hrunning : s.call = some c)
      (hcall : (c.run t).1 = .pending (.recvmsg call)) (hqueue : s.queue = taken ++ rest)
      (hkernel : Delivers t call taken d) :
      Step t rt s { s with
        queue := rest, call := none, receives := s.receives ++ [c.finish t taken d] }
  | recvFails (s : Handoff) (c : Receiving) (call : RecvCall) (e : OsError)
      (hrunning : s.call = some c) (hcall : (c.run t).1 = .pending (.recvmsg call)) :
      Step t rt s { s with call := some { c with answers := c.answers ++ [.error e] } }
  | recvEnds (s : Handoff) (c : Receiving) (hrunning : s.call = some c)
      (hended : ∀ call, (c.run t).1 ≠ .pending call) :
      Step t rt s { s with call := none }

/-- What was received and what is queued, in order. -/
def stream (s : Handoff) : List StreamByte := s.receives.flatMap Receive.taken ++ s.queue

end Handoff

/-! ## The receiver -/

/-- A receive that took something is accounted for: the caller finds the bytes in its
buffer, and every descriptor is returned or closed. It returns the first `n` and closes the
others, or an `fcntl` call fails and it closes all. -/
structure Receive.Accounted (t : Target) (r : Receive) : Prop where
  bytes : r.bytes = items r.taken
  files : r.files = attachments r.taken
  installed : r.returned ++ r.closed = r.installed
  ended : r.result = .ok (r.taken.length, r.installed.take r.n) ∨
    ∃ e, r.result = .err e ∧ t.CloexecFails r.fcntls e

/-- Looking up the keys of a table gives its values. -/
theorem filterMap_lookup_zip {α β : Type*} [BEq α] [LawfulBEq α] {keys : List α} {values : List β}
    (hlen : keys.length = values.length) (hnodup : keys.Nodup) :
    keys.filterMap (fun key => (keys.zip values).lookup key) = values := by
  induction keys generalizing values with
  | nil => exact (List.length_eq_zero_iff.mp hlen.symm).symm
  | cons key keys ih =>
      obtain ⟨value, values, rfl⟩ : ∃ value rest, values = value :: rest :=
        List.exists_cons_of_length_pos (by simp [← hlen])
      obtain ⟨hnot, hrest⟩ := List.nodup_cons.mp hnodup
      have hself : ((key, value) :: keys.zip values).lookup key = some value :=
        List.lookup_cons_self
      have hlookup : ∀ a ∈ keys, ((key, value) :: keys.zip values).lookup a =
          (keys.zip values).lookup a := by
        intro a ha
        have hne : (a == key) = false := by
          rw [beq_eq_false_iff_ne]
          rintro rfl
          exact hnot ha
        rw [List.lookup_cons, hne]
      rw [List.zip_cons_cons, List.filterMap_cons, hself, List.filterMap_congr hlookup,
        ih (by simpa using hlen) hrest]

section Receiver

variable {t : Target} {c : Receiving} {call : RecvCall} {taken : List StreamByte} {d : Delivery}

/-- A waiting receive has been interrupted at most, and waits in its system call. -/
theorem Receiving.run_pending (h : (c.run t).1 = .pending (.recvmsg call)) :
    ∃ capacity, controlSizeAt t (.upTo c.n) c.world.rlimit = .ok capacity ∧
      call = recvCall t capacity false { c.world with iov := [c.buf] } ∧
      ∀ a ∈ c.answers, a = .error .EINTR := by
  have hcore : ((recvCore t .stream (.upTo c.n)).run
      { c.world with recvs := c.answers, iov := [c.buf] }).1 = .pending (.recvmsg call) := by
    have hrun : c.run t = andThen (fun r => pure (r.1, r.2.1))
        ((recvCore t .stream (.upTo c.n)).run
          { c.world with recvs := c.answers, iov := [c.buf] }) := rfl
    rw [hrun] at h
    generalize (recvCore t .stream (.upTo c.n)).run
      { c.world with recvs := c.answers, iov := [c.buf] } = r at h
    obtain ⟨o, w⟩ := r
    cases o with
    | ok a => cases h
    | err e => cases h
    | panic p => cases h
    | pending call' =>
        cases h
        rfl
  obtain ⟨capacity, hsize, hwait⟩ := recvCore_pending hcore
  obtain ⟨hcall, hanswers⟩ := Call.loop_pending hwait
  cases hcall
  exact ⟨capacity, hsize, rfl, hanswers⟩

/-- A receive that the kernel answers is accounted for. -/
theorem Receiving.finish_accounted (hn : 4 * c.n ≤ i32Max)
    (hcall : (c.run t).1 = .pending (.recvmsg call)) (hkernel : Delivers t call taken d)
    (hcount : (attachments taken).length ≤ HARD_FLOOR) : (c.finish t taken d).Accounted t := by
  obtain ⟨capacity, hsize, rfl, hanswers⟩ := c.run_pending hcall
  let w : World := { c.world with recvs := c.answers ++ [.ok d], iov := [c.buf] }
  have hrecv : ((awaitRecv t capacity false).run w).1 = .ok d := by
    have hloop : ((recvCall t capacity false w).toCall.loop (c.answers ++ [.ok d]) w).1 =
        .ok (d.clip (recvCall t capacity false w)) := Call.loop_interrupted hanswers d w
    exact hloop.trans (congrArg _ hkernel.clip_eq)
  obtain ⟨hiov, hreceived⟩ := recvFdsIntoImpl_delivers (w := w) hn hsize hcount hkernel
    (Prod.ext hrecv rfl)
  have hroom : d.data.length ≤ c.buf.length := by
    rw [hkernel.data, items, List.length_map]
    simpa using hkernel.room.trans (sum_recvCall_le ..)
  have hlength : d.data.length = taken.length := by rw [hkernel.data, items, List.length_map]
  have hbuffer : ((scatter d.data w.iov).flatten).take d.data.length = d.data := by
    have hsame : d.data.take c.buf.length = d.data := List.take_of_length_le hroom
    simp [w, scatter, hsame, overwrite]
  have hrun : Receiving.run t { c with answers := c.answers ++ [.ok d] } =
      (recvFdsIntoImpl t .stream (.upTo c.n)).run w := rfl
  have hfiles : ∀ fds, fds = d.installed →
      fds.filterMap (fun fd => (d.installed.zip (attachments taken)).lookup fd) =
        attachments taken := by
    rintro _ rfl
    exact filterMap_lookup_zip hkernel.installed hkernel.nodup
  rw [Receiving.finish, hrun]
  generalize (recvFdsIntoImpl t .stream (.upTo c.n)).run w = r at hiov hreceived
  obtain ⟨o, w'⟩ := r
  have hclosed : closedSince c.world w' = closedSince w w' := rfl
  simp only at hiov
  rw [hiov, hclosed]
  cases o with
  | ok result =>
      obtain ⟨count, fds⟩ := result
      obtain ⟨rfl, rfl, hclose⟩ := hreceived
      have hall : d.installed.take c.n ++ closedSince w w' = d.installed := by
        rw [hclose, List.take_append_drop]
      refine ⟨?_, hfiles _ hall, hall, .inl ?_⟩
      · exact hbuffer.trans hkernel.data
      · rw [hlength]
  | err e =>
      obtain ⟨hfails, hclose⟩ := hreceived
      refine ⟨?_, hfiles _ hclose, hclose, .inr ⟨e, rfl, hfails⟩⟩
      change ((scatter d.data w.iov).flatten).take taken.length = items taken
      rw [← hlength]
      exact hbuffer.trans hkernel.data
  | panic p => exact hreceived.elim
  | pending call => exact hreceived.elim

end Receiver

/-! ## The sender -/

/-- A message that the sender may hand over. -/
def Message.Valid (m : Message) : Prop := m.payload ≠ [] ∧ m.fds.length ≤ 253

/-- A message that `send_fds_all` takes: its descriptors fit one control message and have a
payload to travel with. -/
structure Message.Sendable (m : Message) : Prop where
  fds_le : m.fds.length * 4 ≤ i32Max
  payload : m.payload = [] → m.fds = []

section Sender

variable {t : Target} {rt : Runtime} {m : Message} {w : World} {s : Handoff} {k : Nat}

theorem Message.Valid.sendable (h : m.Valid) : m.Sendable := by
  have hmax : 253 * 4 ≤ i32Max := by decide
  have hfds := h.2
  exact ⟨by omega, fun hnil => absurd hnil h.1⟩

/-- The descriptors are attached to the call at the start of the payload. -/
theorem attached_callAt (hlen : m.fds.length * 4 ≤ i32Max) (sent : Nat) :
    (callAt t m.payload m.fds sent).attached t = if sent = 0 then m.fds else [] := by
  have hfds : (if sent = 0 then m.fds else []).length * 4 ≤ i32Max := by
    split
    · exact hlen
    · exact Nat.zero_le _
  rw [SendCall.attached, callAt, messages_sendCallFor _ hfds]
  generalize (if sent = 0 then m.fds else []) = fds
  split
  case isTrue hnil => rw [hnil, List.flatMap_nil]
  case isFalse =>
      rw [List.flatMap_singleton, isRights_rightsMessage, if_pos rfl]
      exact decode_encodeFds t fds

/-- An accepted call extends what was accepted of the stream of the message. -/
theorem take_stream_segment (hlen : m.fds.length * 4 ≤ i32Max) (sent k : Nat) :
    m.stream.take sent ++ (callAt t m.payload m.fds sent).segment t k =
      m.stream.take (sent + k) := by
  have hpayload : (callAt t m.payload m.fds sent).payload = m.payload.drop sent := by
    simp [callAt, sendCallFor, SendCall.payload]
  rw [SendCall.segment, attached_callAt hlen, hpayload, List.take_add, ← take_marked]
  by_cases hsent : sent = 0
  · rw [if_pos hsent, hsent, List.drop_zero, List.drop_zero]
    rfl
  · rw [if_neg hsent, Message.stream, drop_marked _ _ (Nat.pos_of_ne_zero hsent)]

/-- The running call, if there is one, has got `k` bytes accepted. -/
def Handoff.Sent (t : Target) (rt : Runtime) (s : Handoff) (k : Nat) : Prop :=
  ∀ m rest, s.todo = m :: rest → ∃ attempts,
    SendingRun t rt m.payload m.fds 0 { s.world with sends := s.answers } (s.sending t rt m)
      attempts ∧ total attempts = k

variable (rt) in
/-- Every call is a run of the sending machine. -/
theorem Handoff.sendingRun (hm : m.Sendable) (w : World) (answers : List (Except OsError Nat)) :
    ∃ attempts, SendingRun t rt m.payload m.fds 0 { w with sends := answers }
      ((UnixStreamExt.sendFdsAll t rt m.payload m.fds).run { w with sends := answers }) attempts :=
  sendingRun_all rt hm.fds_le (fun h => h.2 (hm.payload h.1)) _

/-- A call that got no answer yet has sent nothing. -/
theorem Handoff.sent_start (hvalid : ∀ m ∈ s.todo, m.Sendable) (hanswers : s.answers = []) :
    s.Sent t rt 0 := by
  intro m rest htodo
  have hm : m.Sendable := hvalid m (by rw [htodo]; exact List.mem_cons_self)
  obtain ⟨attempts, hrun⟩ := Handoff.sendingRun (t := t) rt hm s.world s.answers
  obtain ⟨raw, hraw, hanswered⟩ := hrun.recorded.script
  simp only [hanswers] at hraw
  obtain ⟨rfl, -⟩ := List.append_eq_nil_iff.mp hraw.symm
  exact ⟨attempts, hrun, by rw [List.forall₂_nil_right_iff.mp hanswered, total_nil]⟩

/-- A waiting call makes the machine's call, and one more answer accepts what it says. -/
theorem Handoff.Sent.answer (h : s.Sent t rt k) {rest : List Message} (htodo : s.todo = m :: rest)
    (hm : m.Sendable) {call : SendCall} (hcall : (s.sending t rt m).1 = .pending (.sendmsg call))
    (answer : Except OsError Nat) (s' : Handoff) (htodo' : s'.todo = s.todo)
    (hworld : s'.world = s.world) (hanswers : s'.answers = s.answers ++ [answer]) :
    call = callAt t m.payload m.fds k ∧
      s'.Sent t rt (k + accepted (call, Except.map (min · call.payload.length) answer)) := by
  obtain ⟨attempts, hrun, htotal⟩ := h m rest htodo
  obtain rfl : call = callAt t m.payload m.fds k := by
    rcases hrun.sending.ends with h | ⟨_, h⟩ | ⟨_, h, -⟩ | h
    · cases hcall.symm.trans h
    · cases hcall.symm.trans h
    · cases hcall.symm.trans h
    · cases hcall.symm.trans h
      rw [Nat.zero_add, htotal]
  refine ⟨rfl, fun m' rest' htodo'' => ?_⟩
  obtain ⟨rfl, rfl⟩ := List.cons_eq_cons.mp (htodo.symm.trans (htodo'.symm.trans htodo''))
  obtain ⟨attempts', hrun'⟩ :=
    Handoff.sendingRun (t := t) rt hm s'.world s'.answers
  obtain ⟨raw, hraw, hanswered⟩ := hrun.recorded.script
  obtain ⟨raw', hraw', hanswered'⟩ := hrun'.recorded.script
  have hpending := hrun.sending
  rw [hcall] at hpending
  have hdrained := hrun.drained _ hcall
  rw [hdrained, List.append_nil] at hraw
  have hrun'' := hrun'
  simp only [hworld] at hrun''
  have hscript : raw ++ [answer] = raw' ++ ((UnixStreamExt.sendFdsAll t rt m.payload m.fds).run
      { s.world with sends := s'.answers }).2.sends := by
    rw [← hraw, ← hanswers, ← hworld]
    exact hraw'
  have hmore := hpending.answer hanswered hrun''.sending hanswered' hscript hrun''.drained
  refine ⟨attempts', hrun', ?_⟩
  rw [hmore, Nat.zero_add, htotal]
  simp [total, ← htotal]

/-- A call that returned `Ok` got the whole message accepted. -/
theorem Handoff.Sent.complete (h : s.Sent t rt k) {rest : List Message} (htodo : s.todo = m :: rest)
    (hok : (s.sending t rt m).1 = .ok ()) : m.stream.take k = m.stream := by
  obtain ⟨attempts, hrun, htotal⟩ := h m rest htodo
  have hall := (hrun.sending.total_le (Nat.zero_le _)).2.mp hok
  rw [List.take_of_length_le]
  rw [Message.stream, length_marked]
  omega

end Sender

/-! ## Every interleaving -/

namespace Handoff

/-- What every step keeps: the stream of what was accepted is what was received and what
is queued, and every receive is accounted for. -/
structure Inv (t : Target) (rt : Runtime) (msgs : List Message) (s : Handoff) : Prop where
  messages : s.done ++ s.todo = msgs
  accepted : ∃ k, s.Sent t rt k ∧ s.stream =
    s.done.flatMap Message.stream ++ (s.todo.take 1).flatMap fun m => m.stream.take k
  running : ∀ c, s.call = some c → 4 * c.n ≤ i32Max
  accounted : ∀ r ∈ s.receives, r.Accounted t

section Runs

variable {t : Target} {rt : Runtime} {msgs : List Message} {s s' : Handoff}

theorem Inv.start (hmsgs : ∀ m ∈ msgs, m.Valid) (w : World) :
    Inv t rt msgs (Handoff.start msgs w) := by
  refine ⟨rfl, ⟨0, sent_start (fun m hm => (hmsgs m hm).sendable) rfl, ?_⟩,
    fun _ h => (by cases h), fun _ h => (by cases h)⟩
  simp [stream, Handoff.start]

/-- What was accepted starts the stream of all messages, and is all of it in the end. -/
theorem Inv.stream_starts (h : Inv t rt msgs s) : s.stream <+: msgs.flatMap Message.stream := by
  obtain ⟨k, -, hstream⟩ := h.accepted
  rw [hstream, ← h.messages, List.flatMap_append, List.prefix_append_right_inj]
  cases s.todo with
  | nil => exact List.nil_prefix
  | cons m rest =>
      have htake : m.stream.take k <+: m.stream := List.take_prefix ..
      have happend : m.stream <+: m.stream ++ rest.flatMap Message.stream := List.prefix_append ..
      simpa using htake.trans happend

theorem Inv.stream_eq (h : Inv t rt msgs s) (hdone : s.todo = []) :
    s.stream = msgs.flatMap Message.stream := by
  obtain ⟨k, -, hstream⟩ := h.accepted
  rw [hstream, ← h.messages, hdone, List.append_nil]
  exact List.append_nil _

/-- No byte carries more descriptors than one message has. -/
theorem Inv.attached_le (hmsgs : ∀ m ∈ msgs, m.Valid) (h : Inv t rt msgs s) {p : StreamByte}
    (hp : p ∈ s.stream) : p.2.length ≤ 253 := by
  obtain ⟨m, hm, hmem⟩ := List.mem_flatMap.mp (h.stream_starts.subset hp)
  rcases mem_marked hmem with hfds | hnone
  · rw [hfds]
    exact (hmsgs m hm).2
  · rw [hnone]
    exact Nat.zero_le _

/-- Every step keeps the invariant. -/
theorem Inv.step (hmsgs : ∀ m ∈ msgs, m.Valid) (h : Inv t rt msgs s) (hstep : Step t rt s s') :
    Inv t rt msgs s' := by
  obtain ⟨k, hsent, hstream⟩ := h.accepted
  have hsendable : ∀ m ∈ s.todo, m.Sendable := fun m hm =>
    (hmsgs m (by rw [← h.messages]; exact List.mem_append_right _ hm)).sendable
  cases hstep with
  | sendmsg m rest call n htodo hcall hpos hn =>
      have hm : m.Sendable := hsendable m (by rw [htodo]; exact List.mem_cons_self)
      obtain ⟨rfl, hsent'⟩ := hsent.answer htodo hm hcall (.ok n)
        { s with
          answers := s.answers ++ [.ok n]
          queue := s.queue ++ call.segment t n } rfl rfl rfl
      refine ⟨h.messages, ⟨_, hsent', ?_⟩, h.running, h.accounted⟩
      have haccepted : SendAttempt.accepted (callAt t m.payload m.fds k, Except.map
          (min · (callAt t m.payload m.fds k).payload.length) (.ok n)) = n := Nat.min_eq_left hn
      simp only [stream, htodo, List.take_succ_cons, List.take_zero, List.flatMap_cons,
        List.flatMap_nil, List.append_nil] at hstream ⊢
      rw [haccepted, ← List.append_assoc, hstream, List.append_assoc,
        take_stream_segment hm.fds_le]
  | sendFails m rest call e htodo hcall =>
      have hm : m.Sendable := hsendable m (by rw [htodo]; exact List.mem_cons_self)
      have hsent' := (hsent.answer htodo hm hcall (.error e)
        { s with answers := s.answers ++ [.error e] } rfl rfl rfl).2
      exact ⟨h.messages, ⟨k, hsent', hstream⟩, h.running, h.accounted⟩
  | sent m rest w htodo hok =>
      refine ⟨?_, ⟨0, sent_start (fun m' hm' => ?_) rfl, ?_⟩, h.running, h.accounted⟩
      · rw [← h.messages, htodo, List.append_assoc]
        rfl
      · exact hsendable m' (by rw [htodo]; exact List.mem_cons_of_mem _ hm')
      · have hwhole := hsent.complete htodo hok
        simp only [stream, htodo, List.take_succ_cons, List.take_zero, List.flatMap_cons,
          List.flatMap_nil, List.append_nil, hwhole] at hstream
        simp [stream, hstream]
  | receive n buf w hidle hn hbuf =>
      refine ⟨h.messages, ⟨k, hsent, hstream⟩, fun c hc => ?_, h.accounted⟩
      cases hc
      exact hn
  | recvmsg c call taken rest d hrunning hcall hqueue hkernel =>
      have hattached : ∀ p ∈ taken, p.2.length ≤ 253 := fun p hp =>
        h.attached_le hmsgs (List.mem_append_right _ (by
          rw [hqueue]
          exact List.mem_append_left _ hp))
      have hcount := length_attachments_le hkernel.single hattached
      refine ⟨h.messages, ⟨k, hsent, ?_⟩, fun _ hc => (by cases hc), fun r hr => ?_⟩
      · rw [← hstream]
        simp [stream, hqueue, Receiving.finish]
      · rcases List.mem_append.mp hr with hr | hr
        · exact h.accounted r hr
        · rw [List.mem_singleton.mp hr]
          exact Receiving.finish_accounted (h.running c hrunning) hcall hkernel hcount
  | recvFails c call e hrunning hcall =>
      refine ⟨h.messages, ⟨k, hsent, hstream⟩, fun c' hc => ?_, h.accounted⟩
      cases hc
      exact h.running c hrunning
  | recvEnds c hrunning hended =>
      exact ⟨h.messages, ⟨k, hsent, hstream⟩, fun _ hc => (by cases hc), h.accounted⟩

/-- Every reachable state satisfies the invariant. -/
theorem inv_of_steps (hmsgs : ∀ m ∈ msgs, m.Valid) {w : World}
    (h : Relation.ReflTransGen (Step t rt) (Handoff.start msgs w) s) : Inv t rt msgs s := by
  induction h with
  | refl => exact .start hmsgs w
  | tail _ hstep ih => exact ih.step hmsgs hstep

/-- The receives, in terms of what they took. -/
theorem Inv.received (h : Inv t rt msgs s) :
    s.receives.flatMap Receive.bytes ++ items s.queue = items s.stream ∧
      s.receives.flatMap Receive.files ++ attachments s.queue = attachments s.stream := by
  have hbytes : s.receives.flatMap Receive.bytes = items (s.receives.flatMap Receive.taken) := by
    rw [items_flatMap]
    exact List.flatMap_congr fun r hr => (h.accounted r hr).bytes
  have hfiles : s.receives.flatMap Receive.files =
      attachments (s.receives.flatMap Receive.taken) := by
    rw [attachments_flatMap]
    exact List.flatMap_congr fun r hr => (h.accounted r hr).files
  rw [hbytes, hfiles, ← items_append, ← attachments_append]
  exact ⟨rfl, rfl⟩

/-- The stream of all messages, taken apart. -/
theorem items_streams (msgs : List Message) :
    items (msgs.flatMap Message.stream) = msgs.flatMap Message.payload := by
  rw [items_flatMap]
  exact List.flatMap_congr fun m _ => items_marked ..

theorem attachments_streams (hmsgs : ∀ m ∈ msgs, m.Valid) :
    attachments (msgs.flatMap Message.stream) = msgs.flatMap Message.fds := by
  rw [attachments_flatMap]
  exact List.flatMap_congr fun m hm => attachments_marked (hmsgs m hm).1

end Runs

/-- A stream handoff loses, duplicates and reorders nothing. In every state that the
parties reach, what was received and what is queued are a prefix of what is sent, in bytes
and in descriptors, the descriptors of a message come with its first byte, and every
receive returns or closes each descriptor that it was given. -/
theorem descriptors_follow_bytes (t : Target) (rt : Runtime) {msgs : List Message}
    (hmsgs : ∀ m ∈ msgs, m.payload ≠ [] ∧ m.fds.length ≤ 253) (w : World) {s : Handoff}
    (h : Relation.ReflTransGen (Step t rt) (start msgs w) s) :
    let bytes := s.receives.flatMap Receive.bytes ++ items s.queue
    let files := s.receives.flatMap Receive.files ++ attachments s.queue
    bytes <+: msgs.flatMap Message.payload ∧ files <+: msgs.flatMap Message.fds ∧
    s.stream <+: msgs.flatMap Message.stream ∧ (∀ r ∈ s.receives, r.Accounted t) ∧
    (s.todo = [] →
      bytes = msgs.flatMap Message.payload ∧ files = msgs.flatMap Message.fds) := by
  intro bytes files
  have hinv := inv_of_steps hmsgs h
  obtain ⟨hbytes, hfiles⟩ := hinv.received
  simp only [bytes, files, hbytes, hfiles, ← items_streams, ← attachments_streams hmsgs]
  refine ⟨prefix_items hinv.stream_starts, prefix_attachments hinv.stream_starts,
    hinv.stream_starts, hinv.accounted, fun hdone => ?_⟩
  rw [hinv.stream_eq hdone]
  exact ⟨rfl, rfl⟩

/-- The first byte of two is accepted with the descriptor, and received. -/
theorem descriptors_follow_bytes_partial :
    let call := callAt .linux64 [1, 2] [5] 0
    let d : Delivery := ⟨[1], AlignedLayout.linux64.encodeMessage
      (SocketAncillary.rightsMessage .linux64 [7]), false, false, [7]⟩
    let c : Receiving := ⟨1, [0], .scripted [] [], []⟩
    let s : Handoff := ⟨[], [⟨[1, 2], [5]⟩], .scripted [] [], [.ok 1], [], none,
      [c.finish .linux64 (call.segment .linux64 1) d]⟩
    s.receives.flatMap Receive.bytes <+: [1, 2] ∧ s.receives.flatMap Receive.files <+: [5] ∧
      s.receives.flatMap Receive.returned = [7] := by
  intro call d c s
  have hsegment : call.segment .linux64 1 = [(1, [5])] := by decide +kernel
  let sent : Handoff := ⟨[], [⟨[1, 2], [5]⟩], .scripted [] [], [.ok 1],
    call.segment .linux64 1, none, []⟩
  have hsend : Step .linux64 .blocking (start [⟨[1, 2], [5]⟩] (.scripted [] [])) sent :=
    .sendmsg _ ⟨[1, 2], [5]⟩ [] call 1 rfl (by decide +kernel) (by decide) (by decide)
  have hreceive : Step .linux64 .blocking sent { sent with call := some c } :=
    .receive sent 1 [0] (.scripted [] []) rfl (by decide) (by decide)
  have hkernel : Delivers .linux64 ⟨[1], 1064, true, false⟩ (call.segment .linux64 1) d := by
    rw [hsegment]
    exact ⟨rfl, by decide, by decide, rfl, by decide, by simp [d], .absent,
      [.canonical _ (SocketAncillary.rightsMessage .linux64 [7]) (by decide)], by decide,
      rfl, by decide +kernel, fun h => by cases h⟩
  have hrecv : Step .linux64 .blocking { sent with call := some c } s :=
    .recvmsg _ c ⟨[1], 1064, true, false⟩ _ [] d rfl (by decide +kernel)
      (List.append_nil _).symm hkernel
  have h := descriptors_follow_bytes .linux64 .blocking (by decide)
    (.scripted [] []) (((Relation.ReflTransGen.single hsend).tail hreceive).tail hrecv)
  simp only [s, attachments, items, List.append_nil, List.map_nil, List.flatMap_nil] at h
  exact ⟨h.1, h.2.1, by decide +kernel⟩

end Handoff

end UnixAncillary
