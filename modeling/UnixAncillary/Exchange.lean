import UnixAncillary.Arrivals
import UnixAncillary.Lib.Channel
import UnixAncillary.SingleSends

/-!
# Exchanging datagrams

Any number of senders and receivers share a datagram or seqpacket socket, blocking or under
tokio. Their calls interleave in any order, fail, are interrupted and, under tokio, are
dropped while they wait; the sending end of a seqpacket socket may close. `Exchange.Inv` is
what every interleaving keeps: what was received and what is queued is what the sends that
returned `Ok` handed over, in the order of the kernel, no receive mixes two datagrams or leaks
a descriptor, and only an empty queue ends.
-/

namespace UnixAncillary

open ByteCodec HandleTable Program Program.Prog Fifo

/-- A send that is over. One that was dropped while it waited is pending. -/
structure Sent where
  message : Message
  result : Outcome IoError Panic Syscall Nat

/-- What a send handed over: its datagram, if it returned `Ok`. -/
def Sent.handedOver (r : Sent) : Option Message :=
  match r.result with
  | .ok _ => some r.message
  | _ => none

/-- A send that returns `Ok` reports the whole payload, and no send panics. -/
structure Sent.Reported (r : Sent) : Prop where
  count : ∀ n, r.result = .ok n → n = r.message.payload.length
  no_panic : ∀ p, r.result ≠ .panic p

/-- The parties and the queue between them. The receipts are in the order in which the kernel
answered, each with the sender of its datagram; `ends` are those of the receives that found
the end of file, which has no sender. -/
structure Exchange (σ ρ : Type) where
  channel : Channel σ Message
  sending : σ → Option Posting
  sent : σ → List Sent
  receiving : ρ → Option Fetching
  receipts : List (σ × Receipt)
  closed : Bool
  ends : List Receipt

namespace Exchange

variable {σ ρ : Type} [DecidableEq σ] [DecidableEq ρ]

def start : Exchange σ ρ where
  channel := .empty
  sending _ := none
  sent _ := []
  receiving _ := none
  receipts := []
  closed := false
  ends := []

/-- The send of `i` is over. -/
def finishSend (s : Exchange σ ρ) (i : σ) (r : Sent) : Exchange σ ρ :=
  { s with
    sending := Function.update s.sending i none
    sent := Function.update s.sent i (s.sent i ++ [r]) }

/-- One step of a sender, a receiver or the kernel. A call ends when it returns or when its
task is dropped. The kernel takes at most 253 descriptors in one call. The senders close their
end of a seqpacket socket together; a receive from the empty queue then gets an empty delivery
and takes nothing. -/
inductive Step (t : Target) : Exchange σ ρ → Exchange σ ρ → Prop
  | send (s : Exchange σ ρ) (i : σ) (c : Posting) (hopen : s.closed = false)
      (hidle : s.sending i = none) (hcarries : c.op.Carries t c.message)
      (hstart : c.answers = []) :
      Step t s { s with sending := Function.update s.sending i (some c) }
  | sendmsg (s : Exchange σ ρ) (i : σ) (c : Posting) (call : SendCall)
      (hrunning : s.sending i = some c) (hcall : (c.run t).1 = .pending (.sendmsg call))
      (hfds : (call.attached t).length ≤ 253) :
      Step t s { s.finishSend i ⟨c.message, ((c.answer (.ok call.payload.length)).run t).1⟩ with
        channel := s.channel.put i [call.datagram t] }
  | sendFails (s : Exchange σ ρ) (i : σ) (c : Posting) (call : SendCall) (e : OsError)
      (hrunning : s.sending i = some c) (hcall : (c.run t).1 = .pending (.sendmsg call)) :
      Step t s { s with sending := Function.update s.sending i (some (c.answer (.error e))) }
  | sendEnds (s : Exchange σ ρ) (i : σ) (c : Posting) (hrunning : s.sending i = some c)
      (hended : c.rt = .tokio ∨ ∀ call, (c.run t).1 ≠ .pending call) :
      Step t s (s.finishSend i ⟨c.message, (c.run t).1⟩)
  | receive (s : Exchange σ ρ) (j : ρ) (c : Fetching) (hidle : s.receiving j = none)
      (hvalid : c.Valid t .datagram) (hstart : c.answers = []) :
      Step t s { s with receiving := Function.update s.receiving j (some c) }
  | recvmsg (s : Exchange σ ρ) (j : ρ) (c : Fetching) (call : RecvCall) (p : σ × Message)
      (rest : List (σ × Message)) (d : Delivery) (hrunning : s.receiving j = some c)
      (hcall : (c.run t).1 = .pending (.recvmsg call)) (hqueue : s.channel.queue = p :: rest)
      (hkernel : Conveys t .datagram call p.2 d) :
      Step t s { s with
        channel := s.channel.take [p] rest
        receiving := Function.update s.receiving j none
        receipts := s.receipts ++ [(p.1, c.finish t p.2 d)] }
  | recvFails (s : Exchange σ ρ) (j : ρ) (c : Fetching) (call : RecvCall) (e : OsError)
      (hrunning : s.receiving j = some c) (hcall : (c.run t).1 = .pending (.recvmsg call)) :
      Step t s { s with receiving := Function.update s.receiving j (some (c.answer (.error e))) }
  | recvEnds (s : Exchange σ ρ) (j : ρ) (c : Fetching) (hrunning : s.receiving j = some c)
      (hended : c.rt = .tokio ∨ ∀ call, (c.run t).1 ≠ .pending call) :
      Step t s { s with receiving := Function.update s.receiving j none }
  | close (s : Exchange σ ρ) (hidle : ∀ i, s.sending i = none) :
      Step t s { s with closed := true }
  | endOfFile (s : Exchange σ ρ) (j : ρ) (c : Fetching) (call : RecvCall) (d : Delivery)
      (hrunning : s.receiving j = some c) (hcall : (c.run t).1 = .pending (.recvmsg call))
      (hclosed : s.closed = true) (hqueue : s.channel.queue = [])
      (hkernel : Conveys t .datagram call ⟨[], []⟩ d) :
      Step t s { s with
        receiving := Function.update s.receiving j none
        ends := s.ends ++ [c.finish t ⟨[], []⟩ d] }

/-- The datagrams of the receipts, with their senders. -/
def received (s : Exchange σ ρ) : List (σ × Message) := s.receipts.map fun r => (r.1, r.2.message)

/-- What every step keeps. -/
structure Inv (t : Target) (s : Exchange σ ρ) : Prop where
  conserves : s.channel.Conserves
  taken : s.channel.taken = s.received
  handedOver : ∀ i, sentBy i s.channel.accepted = (s.sent i).filterMap Sent.handedOver
  reported : ∀ i, ∀ r ∈ s.sent i, r.Reported
  small : ∀ p ∈ s.channel.accepted, p.2.fds.length ≤ 253
  sending : ∀ i c, s.sending i = some c → c.Running t ∧ s.closed = false
  receiving : ∀ j c, s.receiving j = some c → c.Valid t .datagram
  whole : ∀ r ∈ s.receipts, r.2.Whole t
  ended : ∀ r ∈ s.ends, r.message = ⟨[], []⟩ ∧ r.Whole t
  last : s.ends ≠ [] → s.closed = true ∧ s.channel.queue = []

section Runs

variable {t : Target} {s s' : Exchange σ ρ}

omit [DecidableEq ρ] in
theorem Inv.start (t : Target) : Inv t (Exchange.start : Exchange σ ρ) := by
  constructor
  · exact Channel.conserves_empty
  · rfl
  · exact fun i => rfl
  · exact fun i r hr => by cases hr
  · exact fun p hp => by cases hp
  · exact fun i c hc => by cases hc
  · exact fun j c hc => by cases hc
  · exact fun r hr => by cases hr
  · exact fun r hr => by cases hr
  · exact fun h => absurd rfl h

omit [DecidableEq ρ] in
/-- A send that is over extends the record of its sender alone. -/
theorem handedOver_finishSend (s : Exchange σ ρ) (i j : σ) (r : Sent) :
    ((s.finishSend i r).sent j).filterMap Sent.handedOver =
      (s.sent j).filterMap Sent.handedOver ++ ofSender i j r.handedOver.toList := by
  simp only [finishSend, update_append_eq, List.filterMap_append, ofSender]
  split
  · cases hr : r.handedOver <;> simp [hr]
  · rfl

omit [DecidableEq ρ] in
/-- Nobody has found the end of file while a send is running. -/
theorem Inv.no_end (h : Inv t s) (hopen : s.closed = false) : s.ends = [] := by
  by_contra hends
  rw [(h.last hends).1] at hopen
  cases hopen

omit [DecidableEq ρ] in
/-- The kernel takes the datagram of a waiting send, which is over then. -/
theorem Inv.sendmsg (h : Inv t s) {i : σ} {c : Posting} {call : SendCall}
    (hrunning : s.sending i = some c) (hcall : (c.run t).1 = .pending (.sendmsg call))
    (hfds : (call.attached t).length ≤ 253) :
    Inv t { s.finishSend i ⟨c.message, ((c.answer (.ok call.payload.length)).run t).1⟩ with
      channel := s.channel.put i [call.datagram t] } := by
  obtain ⟨hc, hopen⟩ := h.sending i c hrunning
  obtain ⟨hdatagram, hok⟩ := hc.accepted hcall
  have hattached : call.attached t = c.message.fds := congrArg Message.fds hdatagram
  rw [hattached] at hfds
  rw [hdatagram, hok _ le_rfl]
  have hpayload : call.payload = c.message.payload := congrArg Message.payload hdatagram
  have hreported : Sent.Reported ⟨c.message, .ok call.payload.length⟩ := by
    refine ⟨fun n hn => ?_, fun p hp => by cases hp⟩
    cases hn
    rw [hpayload]
  refine { h with
    conserves := h.conserves.put i _
    handedOver := fun j => ?_
    reported := forall_update_append h.reported i hreported
    small := List.forall_mem_append.mpr ⟨h.small, List.forall_mem_singleton.mpr hfds⟩
    sending := forall_update h.sending i fun c' hc' => (by cases hc')
    last := fun hends => absurd (h.no_end hopen) hends }
  have hlog := handedOver_finishSend s i j ⟨c.message, .ok call.payload.length⟩
  rw [sentBy_put, h.handedOver j]
  exact hlog.symm

omit [DecidableEq ρ] in
/-- A send that is dropped or fails hands nothing over. -/
theorem Inv.sendEnds (h : Inv t s) {i : σ} {c : Posting} (hrunning : s.sending i = some c) :
    Inv t (s.finishSend i ⟨c.message, (c.run t).1⟩) := by
  obtain ⟨hc, -⟩ := h.sending i c hrunning
  have hnone : Sent.handedOver ⟨c.message, (c.run t).1⟩ = none := by
    cases hr : (c.run t).1 with
    | ok n => exact absurd hr (hc.not_ok n)
    | err e => rfl
    | panic p => rfl
    | pending call => rfl
  have hreported : Sent.Reported ⟨c.message, (c.run t).1⟩ :=
    ⟨fun n hn => absurd hn (hc.not_ok n), hc.ne_panic⟩
  refine { h with
    handedOver := fun j => ?_
    reported := forall_update_append h.reported i hreported
    sending := forall_update h.sending i fun c' hc' => by cases hc' }
  rw [handedOver_finishSend, hnone, Option.toList_none, ofSender, ite_self, List.append_nil]
  exact h.handedOver j

/-- The kernel hands the datagram at the front to a waiting receive, which is over then. -/
theorem Inv.recvmsg (h : Inv t s) {j : ρ} {c : Fetching} {call : RecvCall} {p : σ × Message}
    {rest : List (σ × Message)} {d : Delivery} (hrunning : s.receiving j = some c)
    (hcall : (c.run t).1 = .pending (.recvmsg call)) (hqueue : s.channel.queue = p :: rest)
    (hkernel : Conveys t .datagram call p.2 d) :
    Inv t { s with
      channel := s.channel.take [p] rest
      receiving := Function.update s.receiving j none
      receipts := s.receipts ++ [(p.1, c.finish t p.2 d)] } := by
  have hqueued : p ∈ s.channel.queue := by
    rw [hqueue]
    exact List.mem_cons_self
  have hwhole : (c.finish t p.2 d).Whole t :=
    Fetching.finish_whole (h.receiving j c hrunning) hcall hkernel
      (h.small p (h.conserves.mem hqueued))
  refine { h with
    conserves := h.conserves.take hqueue
    taken := ?_
    receiving := forall_update h.receiving j fun c' hc' => by cases hc'
    whole := List.forall_mem_append.mpr ⟨h.whole, List.forall_mem_singleton.mpr hwhole⟩
    last := fun hends => ?_ }
  · simp only [Channel.take, received, List.map_append, h.taken]
    rfl
  · have hnil := (h.last hends).2
    rw [hqueue] at hnil
    cases hnil

/-- A receive from the empty queue of a closed socket ends with nothing. -/
theorem Inv.endOfFile (h : Inv t s) {j : ρ} {c : Fetching} {call : RecvCall} {d : Delivery}
    (hrunning : s.receiving j = some c) (hcall : (c.run t).1 = .pending (.recvmsg call))
    (hclosed : s.closed = true) (hqueue : s.channel.queue = [])
    (hkernel : Conveys t .datagram call ⟨[], []⟩ d) :
    Inv t { s with
      receiving := Function.update s.receiving j none
      ends := s.ends ++ [c.finish t ⟨[], []⟩ d] } := by
  have hwhole : (c.finish t ⟨[], []⟩ d).Whole t :=
    Fetching.finish_whole (h.receiving j c hrunning) hcall hkernel (Nat.zero_le _)
  exact { h with
    receiving := forall_update h.receiving j fun c' hc' => by cases hc'
    ended := List.forall_mem_append.mpr
      ⟨h.ended, List.forall_mem_singleton.mpr ⟨rfl, hwhole⟩⟩
    last := fun _ => ⟨hclosed, hqueue⟩ }

/-- Every step keeps the invariant. -/
theorem Inv.step (h : Inv t s) (hstep : Step t s s') : Inv t s' := by
  cases hstep with
  | send i c hopen hidle hcarries hstart =>
      have hc : c.Running t := ⟨hcarries, by simp [hstart]⟩
      refine { h with sending := forall_update h.sending i fun c' hc' => ?_ }
      cases hc'
      exact ⟨hc, hopen⟩
  | sendmsg i c call hrunning hcall hfds => exact h.sendmsg hrunning hcall hfds
  | sendFails i c call e hrunning hcall =>
      obtain ⟨hc, hopen⟩ := h.sending i c hrunning
      refine { h with sending := forall_update h.sending i fun c' hc' => ?_ }
      cases hc'
      refine ⟨⟨hc.carries, fun a ha => ?_⟩, hopen⟩
      rcases List.mem_append.mp ha with ha | ha
      · exact hc.failed a ha
      · exact ⟨e, List.mem_singleton.mp ha⟩
  | sendEnds i c hrunning hended => exact h.sendEnds hrunning
  | receive j c hidle hvalid hstart =>
      refine { h with receiving := forall_update h.receiving j fun c' hc' => ?_ }
      cases hc'
      exact hvalid
  | recvmsg j c call p rest d hrunning hcall hqueue hkernel =>
      exact h.recvmsg hrunning hcall hqueue hkernel
  | recvFails j c call e hrunning hcall =>
      have hc := h.receiving j c hrunning
      refine { h with receiving := forall_update h.receiving j fun c' hc' => ?_ }
      cases hc'
      exact ⟨hc.kind, hc.count, hc.names, hc.calm⟩
  | recvEnds j c hrunning hended =>
      exact { h with receiving := forall_update h.receiving j fun c' hc' => by cases hc' }
  | close hidle =>
      refine { h with
        sending := fun i c hc => ?_
        last := fun hends => ⟨rfl, (h.last hends).2⟩ }
      cases (hidle i).symm.trans hc
  | endOfFile j c call d hrunning hcall hclosed hqueue hkernel =>
      exact h.endOfFile hrunning hcall hclosed hqueue hkernel

/-- Every reachable state satisfies the invariant. -/
theorem inv_of_steps (h : Relation.ReflTransGen (Step t) start s) : Inv t s := by
  induction h with
  | refl => exact .start t
  | tail _ hstep ih => exact ih.step hstep

end Runs

/-- Datagrams arrive whole. In every state that the parties reach, what was received and what
is queued of a sender is what its sends that returned `Ok` were asked to hand over, each once
and in order. A send that returned `Ok` reported the whole payload. A receive hands over the
payload of one datagram with its first descriptors, or fails; it closes the others, and no
descriptor of another datagram is among them. A receive that found the end of file had nothing
to hand over, and then everything was received. -/
theorem datagrams_arrive_whole (t : Target) {s : Exchange σ ρ}
    (h : Relation.ReflTransGen (Step t) start s) :
    s.received ++ s.channel.queue = s.channel.accepted ∧
    (∀ i, sentBy i s.received ++ sentBy i s.channel.queue =
      (s.sent i).filterMap Sent.handedOver) ∧
    (∀ i, ∀ r ∈ s.sent i, r.Reported) ∧ (∀ r ∈ s.receipts, r.2.Whole t) ∧
    (∀ r ∈ s.ends, r.message = ⟨[], []⟩ ∧ r.Whole t) ∧
    (s.ends ≠ [] → s.received = s.channel.accepted) := by
  have hinv := inv_of_steps h
  have hconserves := hinv.conserves
  have hall : s.received ++ s.channel.queue = s.channel.accepted := by
    rw [← hinv.taken]
    exact hconserves
  refine ⟨hall, fun i => ?_, hinv.reported, hinv.whole, hinv.ended, fun hends => ?_⟩
  · rw [← hinv.taken, hconserves.sentBy i, hinv.handedOver i]
  · rw [← hall, (hinv.last hends).2, List.append_nil]

/-- A datagram of two bytes with a descriptor, sent under tokio after one `WouldBlock` and
received into one byte: the descriptor is closed. The sender closes, and the next receive is
empty. -/
theorem datagrams_arrive_whole_truncated :
    let c : Posting := ⟨.seqpacketFds [1, 2] [5], .tokio, ⟨[1, 2], [5]⟩, .scripted [] [], []⟩
    let f : Fetching := ⟨.seqpacketFdsInto 1 [0], .blocking, .scripted [] [], []⟩
    let d : Delivery := ⟨[1], AlignedLayout.linux64.encodeMessage
      (SocketAncillary.rightsMessage .linux64 [7]), false, true, [7]⟩
    let r := f.finish .linux64 c.message d
    let e := f.finish .linux64 ⟨[], []⟩ ⟨[], [], false, false, []⟩
    r.Whole .linux64 ∧ r.returned = [] ∧ r.closed = [7] ∧
      e.Whole .linux64 ∧ e.result = .ok ⟨[], []⟩ := by
  intro c f d r e
  let call : SendCall := sendCallFor .linux64 [[1, 2]] [5]
  let recv : RecvCall := ⟨[1], 1064, true, false⟩
  have hdatagram : call.datagram .linux64 = ⟨[1, 2], [5]⟩ := datagram_singleton _ (by decide)
  have hkernel : Conveys .linux64 .datagram recv c.message d :=
    ⟨rfl, fun h => (by cases h), fun _ => rfl, rfl, by decide, by simp [d], .absent,
      [.canonical _ (SocketAncillary.rightsMessage .linux64 [7]) (by decide)], by decide, rfl,
      by decide +kernel, fun h => by cases h⟩
  let s₀ : Exchange Unit Unit := start
  let s₁ := { s₀ with sending := Function.update s₀.sending () (some c) }
  let s₂ := { s₁ with
    sending := Function.update s₁.sending () (some (c.answer (.error .EAGAIN))) }
  let s₃ := { s₂.finishSend () ⟨c.message,
      (((c.answer (.error .EAGAIN)).answer (.ok call.payload.length)).run .linux64).1⟩ with
    channel := s₂.channel.put () [call.datagram .linux64] }
  let s₄ := { s₃ with receiving := Function.update s₃.receiving () (some f) }
  have hsend : Step .linux64 s₀ s₁ :=
    .send s₀ () c rfl rfl (.seqpacketFds [1, 2] [5] (by decide)) rfl
  have hblocked : Step .linux64 s₁ s₂ :=
    .sendFails s₁ () c call .EAGAIN rfl (by decide +kernel)
  have haccepted : Step .linux64 s₂ s₃ :=
    .sendmsg s₂ () (c.answer (.error .EAGAIN)) call rfl (by decide +kernel) (by decide +kernel)
  have hvalid : f.Valid .linux64 .datagram := ⟨rfl, by decide, by decide, fun h => by cases h⟩
  let s₅ := { s₄ with
    channel := s₄.channel.take [((), c.message)] []
    receiving := Function.update s₄.receiving () none
    receipts := [((), r)] }
  let s₆ := { s₅ with closed := true }
  let s₇ := { s₆ with receiving := Function.update s₆.receiving () (some f) }
  have hreceive : Step .linux64 s₃ s₄ := .receive s₃ () f rfl hvalid rfl
  have hrecv : Step .linux64 s₄ s₅ := .recvmsg s₄ () f recv ((), c.message) [] d rfl
    (by decide +kernel) (congrArg (fun m => [((), m)]) hdatagram) hkernel
  have hclose : Step .linux64 s₅ s₆ := .close s₅ fun _ => rfl
  have hagain : Step .linux64 s₆ s₇ := .receive s₆ () f rfl hvalid rfl
  have hnothing : Conveys .linux64 .datagram recv ⟨[], []⟩ ⟨[], [], false, false, []⟩ :=
    ⟨rfl, fun _ => by decide, fun _ => rfl, rfl, by decide, fun _ h => (by cases h), .absent, [],
      by decide, rfl, by decide +kernel, fun h => by cases h⟩
  have hend := Step.endOfFile s₇ () f recv _ rfl (by decide +kernel) rfl rfl hnothing
  have hsteps := (((((((Relation.ReflTransGen.single hsend).tail hblocked).tail haccepted).tail
    hreceive).tail hrecv).tail hclose).tail hagain).tail hend
  obtain ⟨-, -, -, hwhole, hended, -⟩ := datagrams_arrive_whole .linux64 hsteps
  exact ⟨hwhole ((), r) (List.mem_singleton_self _), by decide +kernel, by decide +kernel,
    (hended e (List.mem_singleton_self _)).2, by decide +kernel⟩

end Exchange

end UnixAncillary
