import UnixAncillary.Arrivals
import UnixAncillary.Lib.Channel
import UnixAncillary.SingleSends

/-!
# Sharing a stream

Any number of senders write to one stream with any of the stream sends, and any number of
receivers read from it, blocking or under tokio. The kernel accepts any part of what a call
offers, so the bytes of different senders mix. `Streams.Inv` is what every interleaving
keeps: each sender's own bytes stay in order, a message's descriptors travel with its first
byte, and what was accepted of a message is a prefix of it.
-/

namespace UnixAncillary

open ByteCodec HandleTable Program Program.Prog Fifo Marked

/-! ## A running send -/

/-- The sends on a stream. -/
inductive StreamSend where
  | single (op : SingleSend)
  | all (data : Bytes) (fds : List RawFd)

namespace StreamSend

/-- `send_fds_all` returns no count; it stands for the whole payload. -/
def run (t : Target) (rt : Runtime) : StreamSend → Sys Nat
  | single op => op.run t rt
  | all data fds => do
      UnixStreamExt.sendFdsAll t rt data fds
      pure data.length

/-- What a send is asked to hand over. -/
def Carries (t : Target) (m : Message) : StreamSend → Prop
  | single op => op.Carries t m
  | all data fds => m = ⟨data, fds⟩ ∧ m.Sendable

end StreamSend

/-- A running send: the world in which it was called, the answers that it got, and how many
bytes the kernel has accepted. -/
structure Streaming where
  op : StreamSend
  rt : Runtime
  message : Message
  world : World
  answers : List (Except OsError Nat)
  accepted : Nat

namespace Streaming

/-- The send as far as its answers go. -/
def run (t : Target) (c : Streaming) : Outcome IoError Panic Syscall Nat × World :=
  (c.op.run t c.rt).run { c.world with sends := c.answers }

/-- The send after the kernel has accepted `n` more bytes. -/
def accept (c : Streaming) (n : Nat) : Streaming :=
  { c with answers := c.answers ++ [.ok n], accepted := c.accepted + n }

/-- The send after a failed call. -/
def fail (c : Streaming) (e : OsError) : Streaming :=
  { c with answers := c.answers ++ [.error e] }

/-- What the kernel has accepted of the message. -/
def stream (c : Streaming) : List StreamByte := c.message.stream.take c.accepted

/-- The send as one of a single call. -/
def posting (c : Streaming) (op : SingleSend) : Posting :=
  ⟨op, c.rt, c.message, c.world, c.answers⟩

/-- The send as the one of a handoff. -/
def handoff (c : Streaming) : Handoff := ⟨[], [c.message], c.world, c.answers, [], none, []⟩

/-- A send of a single call has got nothing accepted, or it returned what was. -/
structure Once (t : Target) (c : Streaming) (op : SingleSend) : Prop where
  le : c.accepted ≤ c.message.payload.length
  phase : ((c.posting op).Running t ∧ c.accepted = 0) ∨ (c.run t).1 = .ok c.accepted

/-- The calls so far have got `accepted` bytes accepted. -/
def Got (t : Target) (c : Streaming) : Prop :=
  match c.op with
  | .single op => c.Once t op
  | .all _ _ => c.handoff.Sent t c.rt c.accepted

/-- A send of a message, with what it got accepted so far. -/
structure Running (t : Target) (c : Streaming) : Prop where
  carries : c.op.Carries t c.message
  got : c.Got t

end Streaming

section Running

variable {t : Target} {c : Streaming} {call : SendCall}

theorem Streaming.Running.start (hcarries : c.op.Carries t c.message)
    (hanswers : c.answers = []) (haccepted : c.accepted = 0) : c.Running t := by
  refine ⟨hcarries, ?_⟩
  obtain ⟨op, rt, m, w, answers, k⟩ := c
  subst hanswers haccepted
  cases op with
  | single op => exact ⟨Nat.zero_le _, .inl ⟨⟨hcarries, fun a ha => by cases ha⟩, rfl⟩⟩
  | all data fds => exact Handoff.sent_start (by simpa [Streaming.handoff] using hcarries.2) rfl

/-- A waiting `send_fds_all` waits in its call. -/
theorem run_all_pending {rt : Runtime} {data : Bytes} {fds : List RawFd} {w : World} {s : Syscall} :
    (((StreamSend.all data fds).run t rt).run w).1 = .pending s ↔
      ((UnixStreamExt.sendFdsAll t rt data fds).run w).1 = .pending s := by
  rw [StreamSend.run, run_bind]
  generalize (UnixStreamExt.sendFdsAll t rt data fds).run w = r
  obtain ⟨o, w'⟩ := r
  cases o <;> simp [andThen]

/-- What a waiting send offers continues what was accepted, and so does what is accepted of
it. -/
theorem Streaming.Running.answer (h : c.Running t)
    (hcall : (c.run t).1 = .pending (.sendmsg call)) :
    (∀ n, c.stream ++ call.segment t n = c.message.stream.take (c.accepted + n)) ∧
    (∀ n ≤ call.payload.length, (c.accept n).Running t) ∧ ∀ e, (c.fail e).Running t := by
  obtain ⟨hcarries, hgot⟩ := h
  obtain ⟨op, rt, m, w, answers, k⟩ := c
  cases op with
  | single op =>
      obtain ⟨-, ⟨hrunning, rfl⟩ | hok⟩ := hgot
      · obtain ⟨hdatagram, haccepts⟩ := hrunning.accepted hcall
        have hpayload : call.payload = m.payload := congrArg Message.payload hdatagram
        have hfds : call.attached t = m.fds := congrArg Message.fds hdatagram
        refine ⟨fun n => ?_, fun n hn => ⟨hcarries, ?_, .inr ?_⟩, fun e =>
          ⟨hcarries, Nat.zero_le _, .inl ⟨⟨hcarries, fun a ha => ?_⟩, rfl⟩⟩⟩
        · simp only [Streaming.stream, SendCall.segment, hpayload, hfds, Message.stream,
            List.take_zero, List.nil_append, Nat.zero_add]
          exact (take_marked ..).symm
        · simpa [Streaming.accept] using hpayload ▸ hn
        · exact (haccepts n hn).trans (by rw [Streaming.accept, Nat.zero_add])
        · rcases List.mem_append.mp ha with ha | ha
          · exact hrunning.failed a ha
          · exact ⟨e, List.mem_singleton.mp ha⟩
      · cases hcall.symm.trans hok
  | all data fds =>
      obtain ⟨rfl, hsendable⟩ := hcarries
      let m : Message := ⟨data, fds⟩
      have hwait := run_all_pending.mp hcall
      have hanswer := fun a => hgot.answer rfl hsendable hwait a
        (Streaming.handoff ⟨.all data fds, rt, m, w, answers ++ [a], k⟩) rfl rfl rfl
      have hrunning : ∀ a k', k' = k + SendAttempt.accepted (call, Except.map
          (min · call.payload.length) a) →
          (Streaming.mk (.all data fds) rt m w (answers ++ [a]) k').Running t := by
        rintro a _ rfl
        exact ⟨⟨rfl, hsendable⟩, (hanswer a).2⟩
      refine ⟨fun n => ?_, fun n hn => ?_, fun e => ?_⟩
      · rw [(hanswer (.ok n)).1]
        exact take_stream_segment hsendable.fds_le k n
      · exact hrunning (.ok n) _ (congrArg (k + ·) (Nat.min_eq_left hn).symm)
      · exact hrunning (.error e) _ rfl

/-- What a `send_fds_all` got accepted so far. -/
theorem Streaming.total_all {rt : Runtime} {data : Bytes} {fds : List RawFd} {w : World}
    {answers : List (Except OsError Nat)} {k : Nat}
    (hgot : (Streaming.mk (.all data fds) rt ⟨data, fds⟩ w answers k).Got t) :
    k ≤ data.length ∧ (((UnixStreamExt.sendFdsAll t rt data fds).run
      { w with sends := answers }).1 = .ok () ↔ k = data.length) := by
  obtain ⟨attempts, hrun, rfl⟩ := hgot ⟨data, fds⟩ [] rfl
  have htotal := hrun.sending.total_le (Nat.zero_le _)
  rw [Nat.zero_add] at htotal
  exact htotal

/-- A send that returned `Ok` reports what was accepted, and `send_fds_all` everything. -/
theorem Streaming.Running.ok (h : c.Running t) {n : Nat} (hok : (c.run t).1 = .ok n) :
    n = c.accepted ∧ ∀ data fds, c.op = .all data fds → c.accepted = c.message.payload.length := by
  obtain ⟨hcarries, hgot⟩ := h
  obtain ⟨op, rt, m, w, answers, k⟩ := c
  cases op with
  | single op =>
      refine ⟨?_, fun _ _ h => by cases h⟩
      obtain ⟨-, ⟨hrunning, -⟩ | hsame⟩ := hgot
      · exact absurd hok (hrunning.not_ok n)
      · cases hok.symm.trans hsame
        rfl
  | all data fds =>
      obtain ⟨rfl, -⟩ := hcarries
      obtain ⟨-, hall⟩ := Streaming.total_all hgot
      have hrun : (Streaming.run t ⟨.all data fds, rt, ⟨data, fds⟩, w, answers, k⟩) =
          andThen (fun _ => pure data.length)
            ((UnixStreamExt.sendFdsAll t rt data fds).run { w with sends := answers }) := rfl
      rw [hrun] at hok
      generalize (UnixStreamExt.sendFdsAll t rt data fds).run { w with sends := answers } = r
        at hok hall
      obtain ⟨o, w'⟩ := r
      cases o with
      | ok a =>
          cases hok
          have hk := hall.mp rfl
          exact ⟨hk.symm, fun _ _ _ => hk⟩
      | err e => cases hok
      | panic p => cases hok
      | pending call => cases hok

theorem Streaming.Running.le (h : c.Running t) : c.accepted ≤ c.message.payload.length := by
  obtain ⟨hcarries, hgot⟩ := h
  obtain ⟨op, rt, m, w, answers, k⟩ := c
  cases op with
  | single op => exact hgot.le
  | all data fds =>
      obtain ⟨rfl, -⟩ := hcarries
      exact (Streaming.total_all hgot).1

end Running

/-! ## The parties -/

/-- A send that is over, and how many bytes the kernel accepted of its message. One that was
dropped while it waited is pending. -/
structure Streamed where
  op : StreamSend
  message : Message
  accepted : Nat
  result : Outcome IoError Panic Syscall Nat

namespace Streamed

/-- What the kernel accepted of the message. -/
def stream (r : Streamed) : List StreamByte := r.message.stream.take r.accepted

/-- A send that returns `Ok` reports what was accepted, and for `send_fds_all` that is
everything. -/
structure Reported (r : Streamed) : Prop where
  le : r.accepted ≤ r.message.payload.length
  count : ∀ n, r.result = .ok n → n = r.accepted
  all : ∀ data fds n, r.op = .all data fds → r.result = .ok n →
    r.accepted = r.message.payload.length

end Streamed

theorem Streaming.Running.reported {t : Target} {c : Streaming} (h : c.Running t) :
    Streamed.Reported ⟨c.op, c.message, c.accepted, (c.run t).1⟩ :=
  ⟨h.le, fun _ hn => (h.ok hn).1, fun data fds _ hop hn => (h.ok hn).2 data fds hop⟩

/-- The parties and the queue between them. The receipts are in the order in which the kernel
answered, each with the stretch of the stream that was taken. -/
structure Streams (σ ρ : Type) where
  channel : Channel σ StreamByte
  sending : σ → Option Streaming
  sent : σ → List Streamed
  receiving : ρ → Option Fetching
  receipts : List (List (σ × StreamByte) × Receipt)

namespace Streams

variable {σ ρ : Type} [DecidableEq σ] [DecidableEq ρ]

def start : Streams σ ρ := ⟨.empty, fun _ => none, fun _ => [], fun _ => none, []⟩

/-- A stretch of the stream as one message: the bytes, and all descriptors on them. -/
def stretch (front : List (σ × StreamByte)) : Message :=
  ⟨items (front.map Prod.snd), attachments (front.map Prod.snd)⟩

/-- One step of a sender, a receiver or the kernel. The kernel accepts and delivers any part,
takes at most 253 descriptors in one call, and delivers those of one call at most. A call ends
when it returns or when its task is dropped. -/
inductive Step (t : Target) : Streams σ ρ → Streams σ ρ → Prop
  | send (s : Streams σ ρ) (i : σ) (c : Streaming) (hidle : s.sending i = none)
      (hcarries : c.op.Carries t c.message) (hanswers : c.answers = [])
      (haccepted : c.accepted = 0) :
      Step t s { s with sending := Function.update s.sending i (some c) }
  | sendmsg (s : Streams σ ρ) (i : σ) (c : Streaming) (call : SendCall) (n : Nat)
      (hrunning : s.sending i = some c) (hcall : (c.run t).1 = .pending (.sendmsg call))
      (hn : n ≤ call.payload.length) (hfds : (call.attached t).length ≤ 253) :
      Step t s { s with
        channel := s.channel.put i (call.segment t n)
        sending := Function.update s.sending i (some (c.accept n)) }
  | sendFails (s : Streams σ ρ) (i : σ) (c : Streaming) (call : SendCall) (e : OsError)
      (hrunning : s.sending i = some c) (hcall : (c.run t).1 = .pending (.sendmsg call)) :
      Step t s { s with sending := Function.update s.sending i (some (c.fail e)) }
  | sendEnds (s : Streams σ ρ) (i : σ) (c : Streaming) (hrunning : s.sending i = some c)
      (hended : c.rt = .tokio ∨ ∀ call, (c.run t).1 ≠ .pending call) :
      Step t s { s with
        sending := Function.update s.sending i none
        sent := Function.update s.sent i
          (s.sent i ++ [⟨c.op, c.message, c.accepted, (c.run t).1⟩]) }
  | receive (s : Streams σ ρ) (j : ρ) (c : Fetching) (hidle : s.receiving j = none)
      (hvalid : c.Valid t .stream) (hanswers : c.answers = []) :
      Step t s { s with receiving := Function.update s.receiving j (some c) }
  | recvmsg (s : Streams σ ρ) (j : ρ) (c : Fetching) (call : RecvCall)
      (front rest : List (σ × StreamByte)) (d : Delivery) (hrunning : s.receiving j = some c)
      (hcall : (c.run t).1 = .pending (.recvmsg call)) (hqueue : s.channel.queue = front ++ rest)
      (hsingle : (front.filter fun p => !p.2.2.isEmpty).length ≤ 1)
      (hkernel : Conveys t .stream call (stretch front) d) :
      Step t s { s with
        channel := s.channel.take front rest
        receiving := Function.update s.receiving j none
        receipts := s.receipts ++ [(front, c.finish t (stretch front) d)] }
  | recvFails (s : Streams σ ρ) (j : ρ) (c : Fetching) (call : RecvCall) (e : OsError)
      (hrunning : s.receiving j = some c) (hcall : (c.run t).1 = .pending (.recvmsg call)) :
      Step t s { s with receiving := Function.update s.receiving j (some (c.answer (.error e))) }
  | recvEnds (s : Streams σ ρ) (j : ρ) (c : Fetching) (hrunning : s.receiving j = some c)
      (hended : c.rt = .tokio ∨ ∀ call, (c.run t).1 ≠ .pending call) :
      Step t s { s with receiving := Function.update s.receiving j none }

/-- What was received, with its senders. -/
def received (s : Streams σ ρ) : List (σ × StreamByte) := s.receipts.flatMap Prod.fst

/-- What was accepted of a sender: of the sends that are over, and of the running one. -/
def contributed (s : Streams σ ρ) (i : σ) : List StreamByte :=
  (s.sent i).flatMap Streamed.stream ++ (s.sending i).elim [] Streaming.stream

/-- What every step keeps. -/
structure Inv (t : Target) (s : Streams σ ρ) : Prop where
  conserves : s.channel.Conserves
  taken : s.channel.taken = s.received
  accepted : ∀ i, sentBy i s.channel.accepted = s.contributed i
  reported : ∀ i, ∀ r ∈ s.sent i, r.Reported
  attached : ∀ p ∈ s.channel.accepted, p.2.2.length ≤ 253
  sending : ∀ i c, s.sending i = some c → c.Running t
  receiving : ∀ j c, s.receiving j = some c → c.Valid t .stream
  whole : ∀ r ∈ s.receipts, r.2.message = stretch r.1 ∧ r.2.Whole t

section Runs

variable {t : Target} {s s' : Streams σ ρ}

omit [DecidableEq ρ] in
theorem Inv.start (t : Target) : Inv t (Streams.start : Streams σ ρ) := by
  constructor
  · exact Channel.conserves_empty
  · rfl
  · exact fun i => rfl
  · exact fun i r hr => by cases hr
  · exact fun p hp => by cases hp
  · exact fun i c hc => by cases hc
  · exact fun j c hc => by cases hc
  · exact fun r hr => by cases hr

omit [DecidableEq ρ] in
/-- A change of a running call changes what its sender contributed by what it adds. -/
theorem contributed_update (s : Streams σ ρ) (i j : σ) {c : Option Streaming}
    (more : List StreamByte)
    (hmore : c.elim [] Streaming.stream = (s.sending i).elim [] Streaming.stream ++ more) :
    contributed { s with sending := Function.update s.sending i c } j =
      s.contributed j ++ ofSender i j more := by
  simp only [contributed, Function.update_apply, ofSender]
  by_cases hj : j = i
  · rw [if_pos hj, if_pos hj, hj, hmore, List.append_assoc]
  · rw [if_neg hj, if_neg hj, List.append_nil]

omit [DecidableEq ρ] in
/-- A send that is over contributed what it did while it ran. -/
theorem contributed_ends (s : Streams σ ρ) (i j : σ) {c : Streaming}
    (hrunning : s.sending i = some c) (result : Outcome IoError Panic Syscall Nat) :
    contributed { s with
        sending := Function.update s.sending i none
        sent := Function.update s.sent i
          (s.sent i ++ [⟨c.op, c.message, c.accepted, result⟩]) } j = s.contributed j := by
  simp only [contributed, Function.update_apply]
  by_cases hj : j = i
  · rw [if_pos hj, if_pos hj, hj, hrunning, List.flatMap_append, List.flatMap_singleton,
      Option.elim_none, List.append_nil]
    rfl
  · rw [if_neg hj, if_neg hj]

omit [DecidableEq ρ] in
/-- The kernel accepts a part of what a waiting send offers. -/
theorem Inv.sendmsg (h : Inv t s) {i : σ} {c : Streaming} {call : SendCall} {n : Nat}
    (hrunning : s.sending i = some c) (hcall : (c.run t).1 = .pending (.sendmsg call))
    (hn : n ≤ call.payload.length) (hfds : (call.attached t).length ≤ 253) :
    Inv t { s with
      channel := s.channel.put i (call.segment t n)
      sending := Function.update s.sending i (some (c.accept n)) } := by
  have hc := h.sending i c hrunning
  obtain ⟨hoffered, haccept, -⟩ := hc.answer hcall
  have hattached : ∀ p ∈ (call.segment t n).map (i, ·), p.2.2.length ≤ 253 := by
    intro p hp
    obtain ⟨b, hb, rfl⟩ := List.mem_map.mp hp
    rcases mem_marked hb with hall | hnone
    · exact hall ▸ hfds
    · exact hnone ▸ Nat.zero_le _
  refine { h with
    conserves := h.conserves.put i _
    accepted := fun j => ?_
    attached := List.forall_mem_append.mpr ⟨h.attached, hattached⟩
    sending := forall_update h.sending i fun c' hc' => ?_ }
  · have hmore : (some (c.accept n)).elim [] Streaming.stream =
        (s.sending i).elim [] Streaming.stream ++ call.segment t n := by
      rw [hrunning]
      exact (hoffered n).symm
    rw [sentBy_put, h.accepted j]
    exact (contributed_update s i j _ hmore).symm
  · cases hc'
    exact haccept n hn

omit [DecidableEq ρ] in
/-- A send that is over, also one that was dropped, reports what was accepted. -/
theorem Inv.sendEnds (h : Inv t s) {i : σ} {c : Streaming} (hrunning : s.sending i = some c) :
    Inv t { s with
      sending := Function.update s.sending i none
      sent := Function.update s.sent i
        (s.sent i ++ [⟨c.op, c.message, c.accepted, (c.run t).1⟩]) } := by
  have hc := h.sending i c hrunning
  refine { h with
    accepted := fun j => ?_
    reported := forall_update_append h.reported i hc.reported
    sending := forall_update h.sending i fun c' hc' => by cases hc' }
  rw [contributed_ends s i j hrunning]
  exact h.accepted j

/-- The kernel hands a stretch of the stream to a waiting receive, which is over then. -/
theorem Inv.recvmsg (h : Inv t s) {j : ρ} {c : Fetching} {call : RecvCall}
    {front rest : List (σ × StreamByte)} {d : Delivery} (hrunning : s.receiving j = some c)
    (hcall : (c.run t).1 = .pending (.recvmsg call)) (hqueue : s.channel.queue = front ++ rest)
    (hsingle : (front.filter fun p => !p.2.2.isEmpty).length ≤ 1)
    (hkernel : Conveys t .stream call (stretch front) d) :
    Inv t { s with
      channel := s.channel.take front rest
      receiving := Function.update s.receiving j none
      receipts := s.receipts ++ [(front, c.finish t (stretch front) d)] } := by
  have hattached : ∀ p ∈ front.map Prod.snd, p.2.length ≤ 253 := by
    intro p hp
    obtain ⟨q, hq, rfl⟩ := List.mem_map.mp hp
    apply h.attached q (h.conserves.mem _)
    rw [hqueue]
    exact List.mem_append_left _ hq
  have hone : ((front.map Prod.snd).filter fun p => !p.2.isEmpty).length ≤ 1 := by
    rw [List.filter_map, List.length_map]
    exact hsingle
  have hwhole : (c.finish t (stretch front) d).Whole t :=
    Fetching.finish_whole (h.receiving j c hrunning) hcall hkernel
      (length_attachments_le hone hattached)
  refine { h with
    conserves := h.conserves.take hqueue
    taken := ?_
    receiving := forall_update h.receiving j fun c' hc' => by cases hc'
    whole := List.forall_mem_append.mpr
      ⟨h.whole, List.forall_mem_singleton.mpr ⟨rfl, hwhole⟩⟩ }
  simp only [Channel.take, received, List.flatMap_append, h.taken]
  rw [List.flatMap_singleton]

/-- Every step keeps the invariant. -/
theorem Inv.step (h : Inv t s) (hstep : Step t s s') : Inv t s' := by
  cases hstep with
  | send i c hidle hcarries hanswers haccepted =>
      refine { h with
        accepted := fun j => ?_
        sending := forall_update h.sending i fun c' hc' => ?_ }
      · have hnone : (some c).elim [] Streaming.stream =
            (s.sending i).elim [] Streaming.stream ++ [] := by
          rw [hidle, Option.elim_some, Streaming.stream, haccepted]
          rfl
        rw [contributed_update s i j [] hnone, ofSender, ite_self, List.append_nil]
        exact h.accepted j
      · cases hc'
        exact .start hcarries hanswers haccepted
  | sendmsg i c call n hrunning hcall hn hfds => exact h.sendmsg hrunning hcall hn hfds
  | sendFails i c call e hrunning hcall =>
      have hc := h.sending i c hrunning
      refine { h with
        accepted := fun j => ?_
        sending := forall_update h.sending i fun c' hc' => ?_ }
      · have hsame : (some (c.fail e)).elim [] Streaming.stream =
            (s.sending i).elim [] Streaming.stream ++ [] := by
          rw [hrunning, List.append_nil]
          rfl
        rw [contributed_update s i j [] hsame, ofSender, ite_self, List.append_nil]
        exact h.accepted j
      · cases hc'
        exact (hc.answer hcall).2.2 e
  | sendEnds i c hrunning hended => exact h.sendEnds hrunning
  | receive j c hidle hvalid hanswers =>
      refine { h with receiving := forall_update h.receiving j fun c' hc' => ?_ }
      cases hc'
      exact hvalid
  | recvmsg j c call front rest d hrunning hcall hqueue hsingle hkernel =>
      exact h.recvmsg hrunning hcall hqueue hsingle hkernel
  | recvFails j c call e hrunning hcall =>
      have hc := h.receiving j c hrunning
      refine { h with receiving := forall_update h.receiving j fun c' hc' => ?_ }
      cases hc'
      exact ⟨hc.kind, hc.count, hc.names, hc.calm⟩
  | recvEnds j c hrunning hended =>
      exact { h with receiving := forall_update h.receiving j fun c' hc' => by cases hc' }

/-- What is sent, accepted and taken stays. -/
theorem step_grows (hstep : Step t s s') : (∀ i, s.sent i <+: s'.sent i) ∧
    s.channel.accepted <+: s'.channel.accepted ∧ s.channel.taken <+: s'.channel.taken := by
  cases hstep with
  | sendmsg i c call n hrunning hcall hn hfds =>
      exact ⟨fun _ => List.prefix_rfl, List.prefix_append .., List.prefix_rfl⟩
  | sendEnds i c hrunning hended =>
      refine ⟨fun j => ?_, List.prefix_rfl, List.prefix_rfl⟩
      simp only [update_append_eq]
      exact List.prefix_append ..
  | recvmsg j c call front rest d hrunning hcall hqueue hsingle hkernel =>
      exact ⟨fun _ => List.prefix_rfl, List.prefix_rfl, List.prefix_append ..⟩
  | _ => exact ⟨fun _ => List.prefix_rfl, List.prefix_rfl, List.prefix_rfl⟩

/-- Every reachable state satisfies the invariant. -/
theorem inv_of_steps (h : Relation.ReflTransGen (Step t) start s) : Inv t s := by
  induction h with
  | refl => exact .start t
  | tail _ hstep ih => exact ih.step hstep

end Runs

/-- Senders that share a stream keep their own order. In every state that the parties reach,
what was received and what is queued of a sender is, message by message, the prefix that the
kernel accepted, the descriptors on the first byte. A send that returned `Ok` reported that
prefix, and `send_fds_all` the whole message. A receive hands over the bytes that it took,
with their first descriptors, or fails; it closes the other descriptors. -/
theorem streams_keep_order (t : Target) {s : Streams σ ρ}
    (h : Relation.ReflTransGen (Step t) start s) :
    s.received ++ s.channel.queue = s.channel.accepted ∧
    (∀ i, sentBy i s.received ++ sentBy i s.channel.queue = s.contributed i) ∧
    (∀ i, ∀ r ∈ s.sent i, r.Reported) ∧
    ∀ r ∈ s.receipts, r.2.message = stretch r.1 ∧ r.2.Whole t := by
  have hinv := inv_of_steps h
  have hconserves := hinv.conserves
  refine ⟨?_, fun i => ?_, hinv.reported, hinv.whole⟩
  · rw [← hinv.taken]
    exact hconserves
  · rw [← hinv.taken, hconserves.sentBy i, hinv.accepted i]

/-- Two senders, and a receive that takes the first byte of each. -/
theorem streams_keep_order_mixed :
    let c : Streaming := ⟨.all [1, 2] [5], .tokio, ⟨[1, 2], [5]⟩, .scripted [] [], [], 0⟩
    let b : Streaming := ⟨.single (.streamFds [3] []), .blocking, ⟨[3], []⟩, .scripted [] [], [], 0⟩
    let f : Fetching := ⟨.streamFdsVectored 1 [[0], [0]], .blocking, .scripted [] [], []⟩
    let front : List (Bool × StreamByte) := [(true, 1, [5]), (false, 3, [])]
    let d : Delivery := ⟨[1, 3], AlignedLayout.linux64.encodeMessage
      (SocketAncillary.rightsMessage .linux64 [7]), false, false, [7]⟩
    let r := f.finish .linux64 (stretch front) d
    r.Whole .linux64 ∧ r.result = .ok ⟨[1, 3], [7]⟩ ∧
      sentBy true front ++ [] = (c.accept 1).stream ∧
      sentBy false front ++ [] = (b.accept 1).stream := by
  intro c b f front d r
  let s₀ : Streams Bool Unit := start
  let s₁ := { s₀ with sending := Function.update s₀.sending true (some c) }
  let s₂ := { s₁ with sending := Function.update s₁.sending false (some b) }
  let s₃ := { s₂ with
    channel := s₂.channel.put true ((callAt .linux64 [1, 2] [5] 0).segment .linux64 1)
    sending := Function.update s₂.sending true (some (c.accept 1)) }
  let s₄ := { s₃ with
    channel := s₃.channel.put false ((sendCallFor .linux64 [[3]] []).segment .linux64 1)
    sending := Function.update s₃.sending false (some (b.accept 1)) }
  let s₅ := { s₄ with receiving := Function.update s₄.receiving () (some f) }
  have hkernel : Conveys .linux64 .stream ⟨[1, 1], 1064, true, false⟩ (stretch front) d :=
    ⟨rfl, fun _ => by decide, fun h => (by cases h), rfl, by decide, by simp [d], .absent,
      [.canonical _ (SocketAncillary.rightsMessage .linux64 [7]) (by decide)], by decide, rfl,
      by decide +kernel, fun h => by cases h⟩
  have hfirst : Step .linux64 s₀ s₁ :=
    .send s₀ true c rfl ⟨rfl, by decide, fun h => by cases h⟩ rfl rfl
  have hsecond : Step .linux64 s₁ s₂ :=
    .send s₁ false b rfl (.streamFds [3] [] (by decide) fun _ => rfl) rfl rfl
  have haccepted : Step .linux64 s₂ s₃ :=
    .sendmsg s₂ true c (callAt .linux64 [1, 2] [5] 0) 1 rfl (by decide +kernel) (by decide)
      (by decide +kernel)
  have hmixed : Step .linux64 s₃ s₄ :=
    .sendmsg s₃ false b (sendCallFor .linux64 [[3]] []) 1 rfl (by decide +kernel) (by decide)
      (by decide +kernel)
  have hreceive : Step .linux64 s₄ s₅ :=
    .receive s₄ () f rfl ⟨rfl, by decide, by decide, fun h => by cases h⟩ rfl
  have hrecv := Step.recvmsg s₅ () f ⟨[1, 1], 1064, true, false⟩ front [] d rfl
    (by decide +kernel) (by decide +kernel) (by decide) hkernel
  have hsteps := (((((Relation.ReflTransGen.single hfirst).tail hsecond).tail haccepted).tail
    hmixed).tail hreceive).tail hrecv
  obtain ⟨-, horder, -, hwhole⟩ := streams_keep_order .linux64 hsteps
  exact ⟨(hwhole (front, r) (by simp [r])).2, by decide +kernel, horder true, horder false⟩

end Streams

end UnixAncillary
