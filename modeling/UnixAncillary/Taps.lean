import UnixAncillary.Readings
import UnixAncillary.Streams

/-!
# Reading a shared stream into buffers

While any number of senders write to a stream, receivers read it with `cmsg_recvmsg` and
`cmsg_recvmsg_peek`, each through a `SocketAncillary` that it keeps using. `taps_in_order`
says that every read and peek reports the bytes at the front of the stream, and leaves the
descriptors that came with them in its buffer.
-/

namespace UnixAncillary

open ByteCodec HandleTable Program Program.Prog Fifo Marked

/-- A completed low-level receive, and the stretch of the stream that it read. -/
structure Tap (σ : Type) where
  front : List (σ × StreamByte)
  reading : Reading

namespace Tap

variable {σ : Type}

def takes (e : Tap σ) : Bool := !e.reading.peek

/-- A receive reports the stretch that it read, and leaves its descriptors in the buffer. -/
structure Sound (t : Target) (e : Tap σ) : Prop where
  message : e.reading.message = Streams.stretch e.front
  creds : e.reading.creds = none
  room : e.front.length ≤ e.reading.room
  faithful : e.reading.Faithful t

end Tap

/-- The senders and what they have written, and the receivers' buffers and reads. -/
structure Taps (σ ρ : Type) where
  writers : Streams σ Empty
  buffers : ρ → SocketAncillary
  log : List (Tap σ)

namespace Taps

variable {σ ρ : Type} [DecidableEq σ] [DecidableEq ρ]

/-- Nothing is sent yet, and the receivers have any buffers. -/
def start (buffers : ρ → SocketAncillary) : Taps σ ρ := ⟨.start, buffers, []⟩

/-- What the receivers have taken. -/
def taken (s : Taps σ ρ) : List (σ × StreamByte) := takenBy Tap.takes Tap.front s.log

/-- What is written and not taken. -/
def queue (s : Taps σ ρ) : List (σ × StreamByte) :=
  s.writers.channel.accepted.drop s.taken.length

/-- What a receive makes of the stretch `front`. -/
def tap (t : Target) (c : Reader) (front : List (σ × StreamByte)) (d : Delivery) : Tap σ :=
  ⟨front, c.finish t (Streams.stretch front) none d⟩

/-- One step of a sender, a receiver or the kernel, which delivers the descriptors of one call
at most. Only Linux peeks. -/
inductive Step (t : Target) : Taps σ ρ → Taps σ ρ → Prop
  | write (s : Taps σ ρ) (writers : Streams σ Empty) (h : Streams.Step t s.writers writers) :
      Step t s { s with writers := writers }
  | call (s : Taps σ ρ) (j : ρ) (c : BufferCall) (w : World)
      (hc : ∀ peek iov, c ≠ .receive peek iov) :
      Step t s { s with
        buffers := Function.update s.buffers j (c.exec t (s.buffers j, w)).2.1 }
  | recvmsg (s : Taps σ ρ) (j : ρ) (c : Reader) (front rest : List (σ × StreamByte))
      (d : Delivery) (hanc : c.anc = s.buffers j) (hpeek : c.peek = true → t.hasCredentials = true)
      (hqueue : s.queue = front ++ rest) (hroom : front.length ≤ (c.call t).iov.sum)
      (hsingle : (front.filter fun p => !p.2.2.isEmpty).length ≤ 1)
      (hkernel : Presents t (c.call t) (Streams.stretch front) none d) :
      Step t s { s with
        buffers := Function.update s.buffers j (tap t c front d).reading.anc
        log := s.log ++ [tap t c front d] }
  | recvFails (s : Taps σ ρ) (j : ρ) (c : Reader) (e : OsError) (hanc : c.anc = s.buffers j)
      (he : e ≠ .EINTR) :
      Step t s { s with
        buffers := Function.update s.buffers j (c.run t [.error e]).2.1 }

/-- What every step keeps. -/
structure Inv (t : Target) (s : Taps σ ρ) : Prop where
  writers : s.writers.Inv t
  taken : s.taken ++ s.queue = s.writers.channel.accepted
  inOrder : InOrder Tap.takes Tap.front s.writers.channel.accepted s.log
  sound : ∀ e ∈ s.log, e.Sound t

section Runs

variable {t : Target} {s s' : Taps σ ρ}

omit [DecidableEq ρ] in
theorem Inv.start (buffers : ρ → SocketAncillary) :
    Inv t (Taps.start buffers : Taps σ ρ) := by
  constructor
  · exact .start t
  · rfl
  · exact inOrder_nil _ _ _
  · exact fun e he => by cases he

/-- Every step keeps the invariant. -/
theorem Inv.step (h : Inv t s) (hstep : Step t s s') : Inv t s' := by
  cases hstep with
  | write writers hwrite =>
      obtain ⟨more, hmore⟩ := (Streams.step_grows hwrite).2.1
      refine ⟨h.writers.step hwrite, ?_, ?_, h.sound⟩
      · have hle : s.taken.length ≤ s.writers.channel.accepted.length := by
          rw [← h.taken]
          simp
        calc
          s.taken ++ writers.channel.accepted.drop s.taken.length =
              s.taken ++ (s.queue ++ more) := by
            rw [← hmore, List.drop_append_of_le_length hle, queue]
          _ = writers.channel.accepted := by rw [← List.append_assoc, h.taken, hmore]
      · simp only [← hmore]
        exact h.inOrder.put more
  | call j c w hc => exact { h with }
  | recvmsg j c front rest d hanc hpeek hqueue hroom hsingle hkernel =>
      have hnext : s.taken ++ front <+: s.writers.channel.accepted := by
        rw [← h.taken, hqueue, ← List.append_assoc]
        exact List.prefix_append ..
      have htaken : takenBy Tap.takes Tap.front (s.log ++ [tap t c front d]) <+:
          s.writers.channel.accepted := by
        rw [takenBy_append]
        split
        · exact hnext
        · exact (List.append_nil s.taken).symm ▸ (List.prefix_append _ front).trans hnext
      have hsound : (tap t c front d).Sound t :=
        ⟨rfl, rfl, hroom, Reader.finish_faithful hkernel fun h => absurd rfl h⟩
      exact ⟨h.writers, List.prefix_iff_eq_append.mp htaken, h.inOrder.read hnext,
        List.forall_mem_append.mpr ⟨h.sound, List.forall_mem_singleton.mpr hsound⟩⟩
  | recvFails j c e hanc he => exact { h with }

theorem inv_of_steps {buffers : ρ → SocketAncillary}
    (h : Relation.ReflTransGen (Step t) (Taps.start buffers) s) : Inv t s := by
  induction h with
  | refl => exact .start buffers
  | tail _ hstep ih => exact ih.step hstep

end Runs

/-- Buffers see a shared stream in order. In every state that the parties reach, each read
and peek read the stretch behind those that earlier reads took, and reported its bytes; its
buffer then held the descriptors on them and nothing else, unless the storage was too small or
close-on-exec failed. What is taken and queued of a sender are the prefixes of its messages
that the kernel accepted. -/
theorem taps_in_order (t : Target) (buffers : ρ → SocketAncillary) {s : Taps σ ρ}
    (h : Relation.ReflTransGen (Step t) (start buffers) s) :
    InOrder Tap.takes Tap.front (s.taken ++ s.queue) s.log ∧
    (∀ i, sentBy i s.taken ++ sentBy i s.queue = s.writers.contributed i) ∧
    (∀ i, ∀ r ∈ s.writers.sent i, r.Reported) ∧
    ∀ e ∈ s.log, e.Sound t := by
  have hinv := inv_of_steps h
  refine ⟨?_, fun i => ?_, hinv.writers.reported, hinv.sound⟩
  · rw [hinv.taken]
    exact hinv.inOrder
  · rw [← sentBy_append, hinv.taken, hinv.writers.accepted i]

/-- A peek and a receive of the first two bytes of a message, into one buffer. -/
theorem taps_in_order_peek :
    let front : List (Unit × StreamByte) := [((), 104, [5]), ((), 105, [])]
    let delivery (fd : RawFd) : Delivery := ⟨[104, 105], AlignedLayout.linux64.encodeMessage
      (SocketAncillary.rightsMessage .linux64 [fd]), false, false, [fd]⟩
    let reader (peek : Bool) (anc : SocketAncillary) : Reader :=
      ⟨anc, peek, [[0], [0]], .scripted [] [], 1⟩
    let peeked := tap .linux64 (reader true (.new (List.replicate 24 0xff))) front (delivery 7)
    let taken := tap .linux64 (reader false peeked.reading.anc) front (delivery 8)
    peeked.Sound .linux64 ∧ taken.Sound .linux64 ∧
      peeked.reading.anc.receivedFds = [7] ∧ taken.reading.anc.receivedFds = [8] := by
  intro front delivery reader peeked taken
  let fresh : SocketAncillary := .new (List.replicate 24 0xff)
  let m : Message := ⟨[104, 105, 33], [5]⟩
  let c : Streaming := ⟨.all m.payload m.fds, .tokio, m, .scripted [] [], [], 0⟩
  let call : SendCall := callAt .linux64 [104, 105, 33] [5] 0
  let w₀ : Streams Unit Empty := .start
  let w₁ := { w₀ with sending := Function.update w₀.sending () (some c) }
  let w₂ := { w₁ with
    channel := w₁.channel.put () (call.segment .linux64 2)
    sending := Function.update w₁.sending () (some (c.accept 2)) }
  let s₀ : Taps Unit Unit := start fun _ => fresh
  let s₁ : Taps Unit Unit := { s₀ with writers := w₁ }
  let s₂ : Taps Unit Unit := { s₁ with writers := w₂ }
  let s₃ : Taps Unit Unit := { s₂ with
    buffers := Function.update s₂.buffers () peeked.reading.anc
    log := [peeked] }
  have hpeek : Presents .linux64 ⟨[1, 1], 24, true, true⟩ (Streams.stretch front) none
      (delivery 7) :=
    ⟨rfl, rfl, by decide +kernel, .absent, rfl, fun _ => ⟨rfl, by simp [delivery],
      [.canonical _ (SocketAncillary.rightsMessage .linux64 [7]) (by decide)], rfl,
      by decide +kernel, fun h => by cases h⟩⟩
  have hrecv : Presents .linux64 ⟨[1, 1], 24, true, false⟩ (Streams.stretch front) none
      (delivery 8) :=
    ⟨rfl, rfl, by decide +kernel, .absent, rfl, fun _ => ⟨rfl, by simp [delivery],
      [.canonical _ (SocketAncillary.rightsMessage .linux64 [8]) (by decide)], rfl,
      by decide +kernel, fun h => by cases h⟩⟩
  have hcall : (reader true fresh).call .linux64 = ⟨[1, 1], 24, true, true⟩ := by decide +kernel
  have hcall' : (reader false peeked.reading.anc).call .linux64 = ⟨[1, 1], 24, true, false⟩ := by
    decide +kernel
  have hqueue : s₂.queue = front := by decide +kernel
  have hqueue' : s₃.queue = front := by decide +kernel
  have hsend : Step .linux64 s₀ s₁ :=
    .write s₀ w₁ (.send w₀ () c rfl ⟨rfl, by decide, fun h => by cases h⟩ rfl rfl)
  have haccepted : Step .linux64 s₁ s₂ :=
    .write s₁ w₂ (.sendmsg w₁ () c call 2 rfl (by decide +kernel) (by decide)
      (by decide +kernel))
  have hpeeked : Step .linux64 s₂ s₃ :=
    .recvmsg s₂ () (reader true fresh) front [] (delivery 7) rfl (fun _ => rfl)
      (by rw [hqueue, List.append_nil]) (by rw [hcall]; decide) (by decide)
      (by rw [hcall]; exact hpeek)
  have htaken : Step .linux64 s₃ { s₃ with
      buffers := Function.update s₃.buffers () taken.reading.anc
      log := [peeked, taken] } :=
    .recvmsg s₃ () (reader false peeked.reading.anc) front [] (delivery 8) rfl
      (fun h => by cases h) (by rw [hqueue', List.append_nil]) (by rw [hcall']; decide)
      (by decide) (by rw [hcall']; exact hrecv)
  have hsteps := (((Relation.ReflTransGen.single hsend).tail haccepted).tail hpeeked).tail htaken
  have hsound := (taps_in_order .linux64 (fun _ => fresh) hsteps).2.2.2
  exact ⟨hsound peeked (by simp), hsound taken (by simp), by decide +kernel, by decide +kernel⟩

end Taps

end UnixAncillary
