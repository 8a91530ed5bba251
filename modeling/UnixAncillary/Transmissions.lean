import UnixAncillary.Lowlevel
import UnixAncillary.Receptions
import UnixAncillary.Sizing

/-!
# The convenience sends

What one `sendmsg_vectored` keeps, every convenience send keeps: `Transmission.keeps`.
So a send opens and closes no descriptor, and it never raises `SIGPIPE` where the crate
can prevent that: `sends_raise_no_signal`.
-/

namespace UnixAncillary

open ByteCodec HandleTable Program Program.Prog

/-- The convenience sends on stream, datagram and seqpacket sockets, and the low-level
send. -/
inductive Transmission where
  | streamFds (data : Bytes) (fds : List RawFd)
  | streamFdsVectored (iov : List Bytes) (fds : List RawFd)
  | streamFdsAll (data : Bytes) (fds : List RawFd)
  | datagramFds (data : Bytes) (fds : List RawFd)
  | datagramFdsVectored (iov : List Bytes) (fds : List RawFd)
  | seqpacketFds (data : Bytes) (fds : List RawFd)
  | lowlevel (iov : List Bytes) (ancillary : SocketAncillary)

/-- A send whose byte count does not matter. -/
def ignoreCount (m : Sys Nat) : Sys Unit := do
  let _ ← m
  pure ()

namespace Transmission

def run (t : Target) (rt : Runtime) : Transmission → Sys Unit
  | streamFds data fds => ignoreCount (UnixStreamExt.sendFds t rt data fds)
  | streamFdsVectored iov fds => ignoreCount (UnixStreamExt.sendFdsVectored t rt iov fds)
  | streamFdsAll data fds => UnixStreamExt.sendFdsAll t rt data fds
  | datagramFds data fds => ignoreCount (UnixDatagramExt.sendFds t rt data fds)
  | datagramFdsVectored iov fds => ignoreCount (UnixDatagramExt.sendFdsVectored t iov fds)
  | seqpacketFds data fds => ignoreCount (Seqpacket.sendFds t rt data fds)
  | lowlevel iov ancillary => ignoreCount (cmsgSendmsg t iov ancillary)

/-- The descriptors that a send borrows. A low-level send finds them in its buffer. -/
def fds : Transmission → List RawFd
  | streamFds _ fds | streamFdsVectored _ fds | streamFdsAll _ fds | datagramFds _ fds
  | datagramFdsVectored _ fds | seqpacketFds _ fds => fds
  | lowlevel _ _ => []

end Transmission

theorem run_ignoreCount (m : Sys Nat) (w : World) :
    ((ignoreCount m).run w).2 = (m.run w).2 := by
  rw [ignoreCount, run_bind]
  generalize m.run w = r
  obtain ⟨o, w'⟩ := r
  cases o <;> rfl

/-! ## What every send keeps -/

section Keeps

variable {t : Target} {inv post : World → Prop}

/-- `m` keeps `inv`, unless it fails with an error that the runtime does not repeat. -/
abbrev Keeps (inv post : World → Prop) {α : Type} (m : Sys α) : Prop :=
  KeepsUntil inv post IoError.isWouldBlock m

theorem keeps_io (rt : Runtime) {α : Type} {m : Sys α} (hm : Keeps inv post m) :
    Keeps inv post (rt.io m) := by
  cases rt with
  | blocking => exact hm
  | tokio => exact fun w hw => hm.retry .readiness w.wouldBlocks w hw

theorem keeps_ignoreCount {m : Sys Nat} (hm : Keeps inv post m) :
    Keeps inv post (ignoreCount m) :=
  hm.bind fun _ => .of_preserves (.of_pure ())

theorem keeps_validateStreamSend (data : Bytes) (fdCount : Nat) :
    Keeps inv post (validateStreamSend data fdCount) := by
  rw [validateStreamSend]
  split
  · exact .of_preserves (.of_throw _)
  · exact .of_preserves (.of_pure ())

variable (hsend : ∀ iov buf len, Keeps inv post (sendmsgVectored t iov buf len))

include hsend

theorem keeps_sendFdsVectoredImpl (iov : List Bytes) (fds : List RawFd) :
    Keeps inv post (sendFdsVectoredImpl t iov fds) := by
  rw [sendFdsVectoredImpl]
  split
  · exact hsend iov [] 0
  · refine .bind (.of_preserves (.of_ofExcept _)) fun size => ?_
    exact .bind (.of_preserves (.of_withLocal _ _ _)) fun anc => hsend iov _ _

theorem keeps_sendRest (rt : Runtime) (data : Bytes) (fuel sent : Nat) :
    Keeps inv post (sendRest t rt data fuel sent) := by
  induction fuel generalizing sent with
  | zero => exact .of_preserves (.of_pure ())
  | succ fuel ih =>
      rw [sendRest]
      split
      · refine .bind (keeps_io rt (hsend _ [] 0)) fun n => ?_
        split
        · exact .of_preserves (.of_throw _)
        · exact ih _
      · exact .of_preserves (.of_pure ())

theorem keeps_streamSendFdsAll (rt : Runtime) (data : Bytes) (fds : List RawFd) :
    Keeps inv post (streamSendFdsAll t rt data fds) := by
  have hfirst : Keeps inv post (sendFirst t rt data fds) := by
    rw [sendFirst]
    split
    · exact .of_preserves (.of_pure 0)
    · refine .bind (keeps_io rt (keeps_sendFdsVectoredImpl hsend [data] fds)) fun n => ?_
      split
      · exact .of_preserves (.of_throw _)
      · exact .of_preserves (.of_pure n)
  refine .bind (keeps_validateStreamSend data fds.length) fun _ => ?_
  exact .bind hfirst fun sent => keeps_sendRest hsend rt data data.length sent

/-- What `sendmsg_vectored` keeps, every send keeps. -/
theorem Transmission.keeps (rt : Runtime) (op : Transmission) : Keeps inv post (op.run t rt) := by
  have hone := fun iov fds => keeps_io rt (keeps_sendFdsVectoredImpl hsend iov fds)
  cases op with
  | streamFds data fds =>
      apply keeps_ignoreCount
      exact .bind (keeps_validateStreamSend data fds.length) fun _ => hone [data] fds
  | streamFdsVectored iov fds =>
      apply keeps_ignoreCount
      rw [UnixStreamExt.sendFdsVectored, streamSendFdsVectored]
      split
      · refine .bind (.of_preserves (.of_ofExcept _)) fun total => ?_
        split
        · exact .of_preserves (.of_throw _)
        · exact hone iov fds
      · exact hone iov fds
  | streamFdsAll data fds => exact keeps_streamSendFdsAll hsend rt data fds
  | datagramFds data fds => exact keeps_ignoreCount (hone [data] fds)
  | datagramFdsVectored iov fds =>
      exact keeps_ignoreCount (keeps_sendFdsVectoredImpl hsend iov fds)
  | seqpacketFds data fds => exact keeps_ignoreCount (hone [data] fds)
  | lowlevel iov ancillary =>
      apply keeps_ignoreCount
      rw [cmsgSendmsg]
      split
      · exact .of_preserves (.of_throw _)
      · exact hsend iov _ _

end Keeps

/-- All that a send changes: it takes answers, makes `sendmsg` calls and may be refused. -/
theorem Transmission.run_world (t : Target) (rt : Runtime) (op : Transmission) (w : World) :
    ∃ sends refusals made, ((op.run t rt).run w).2 =
        { w with sends := sends, refusals := refusals, trace := w.trace ++ made } ∧
      ∀ a ∈ made, ∃ call answer, a = .sendmsg call answer := by
  let inv (w' : World) : Prop := ∃ sends refusals made,
    w' = { w with sends := sends, refusals := refusals, trace := w.trace ++ made } ∧
      ∀ a ∈ made, ∃ call answer, a = .sendmsg call answer
  have hprepare : Preserves inv (prepareSend t) := by
    rintro w' ⟨sends, refusals, made, hw', hmade⟩
    cases h : w'.refusal t with
    | none =>
        rw [prepareSend_ok t h]
        exact ⟨sends, refusals, made, hw', hmade⟩
    | some e =>
        rw [prepareSend_err t h, hw']
        exact ⟨sends, refusals + 1, made, rfl, hmade⟩
  have hrecord : ∀ (call : SendCall) w' a rest, inv w' → inv (call.toCall.record w' a rest) := by
    rintro call _ a rest ⟨sends, refusals, made, rfl, hmade⟩
    refine ⟨rest, refusals, made ++ [.sendmsg call a], ?_, fun b hb => ?_⟩
    · simp only [SendCall.toCall, List.append_assoc]
    · rcases List.mem_append.mp hb with hb | hb
      · exact hmade b hb
      · exact ⟨call, a, List.mem_singleton.mp hb⟩
  have hsend : ∀ iov buf len, Preserves inv (sendmsgVectored t iov buf len) :=
    fun iov buf len => .bind hprepare fun _ _ hw' => Call.loop_inv (hrecord _) hw'
  have hkeep : Keeps inv inv (op.run t rt) :=
    op.keeps (fun iov buf len => .of_preserves (hsend iov buf len)) rt
  exact hkeep.run_post (fun _ h => h)
    ⟨w.sends, w.refusals, [], by rw [List.append_nil], fun a ha => by cases ha⟩

/-- A send opens and closes nothing. -/
theorem Transmission.run_fds (t : Target) (rt : Runtime) (op : Transmission) (w : World) :
    ((op.run t rt).run w).2.fds = w.fds := by
  obtain ⟨sends, refusals, made, hworld, -⟩ := op.run_world t rt w
  rw [hworld]

theorem Transmission.run_flags (t : Target) (rt : Runtime) (op : Transmission) (w : World) :
    ((op.run t rt).run w).2.flags = w.flags := by
  obtain ⟨sends, refusals, made, hworld, -⟩ := op.run_world t rt w
  rw [hworld]

/-- A send delivers nothing. -/
theorem Transmission.run_deliveries (t : Target) (rt : Runtime) (op : Transmission) (w : World) :
    ((op.run t rt).run w).2.deliveries = w.deliveries := by
  obtain ⟨sends, refusals, made, hworld, hmade⟩ := op.run_world t rt w
  have hnone : made.filterMap Attempt.delivery? = [] := by
    refine List.filterMap_eq_nil_iff.mpr fun a ha => ?_
    obtain ⟨call, answer, rfl⟩ := hmade a ha
    rfl
  rw [hworld, World.deliveries, List.filterMap_append, hnone, List.append_nil, World.deliveries]

/-! ## `SIGPIPE` -/

/-- `SO_NOSIGPIPE` was set before the call that follows the calls `made`: `setsockopt`
succeeded in an operation that started in `w`. -/
def World.NoSigpipe (t : Target) (w : World) (made : List Attempt) : Prop :=
  t.os = .apple ∧ w.nosigpipe (w.refusals + made.countP (·.finishedSend))
    (made.countP (·.blockedSend)) = none

/-- The kernel raises `SIGPIPE` with a send that fails with `EPIPE`, unless the call or the
socket forbids it. -/
def Attempt.RaisesSigpipe (forbidden : Prop) : Attempt → Prop
  | .sendmsg call answer => answer = .error .EPIPE ∧ call.noSignal = false ∧ ¬ forbidden
  | .recvmsg _ _ => False

/-- No attempt between `w` and `w'` raised the signal. -/
structure SilentSince (t : Target) (w w' : World) : Prop where
  nosigpipe : w'.nosigpipe = w.nosigpipe
  silent : ∀ made a, w.trace <+: made → made ++ [a] <+: w'.trace →
    ¬ a.RaisesSigpipe (w.NoSigpipe t made)

section Sigpipe

variable {t : Target} {w w' : World}

theorem SilentSince.refl (t : Target) (w : World) : SilentSince t w w := by
  refine ⟨rfl, fun made a hfrom hto => ?_⟩
  have hle := hfrom.length_le
  have hlt := hto.length_le
  rw [List.length_append, List.length_singleton] at hlt
  omega

/-- One more attempt that raises no signal. -/
theorem SilentSince.record (h : SilentSince t w w') {call : SendCall} {answer : Except OsError Nat}
    (ha : answer = .error .EPIPE → call.noSignal = true ∨ w.NoSigpipe t w'.trace)
    (rest : List (Except OsError Nat)) :
    SilentSince t w (call.toCall.record w' answer rest) := by
  refine ⟨h.nosigpipe, fun made a hfrom hto => ?_⟩
  rcases List.prefix_concat_iff.mp hto with hlast | hbefore
  · obtain ⟨rfl, hone⟩ := List.append_inj' hlast rfl
    obtain rfl := List.singleton_inj.mp hone
    rintro ⟨hpipe, hflag, hoption⟩
    rcases ha hpipe with hset | hset
    · rw [hset] at hflag
      cases hflag
    · exact hoption hset
  · exact h.silent made a hfrom hbefore

theorem silent_loop {call : SendCall} (answers : List (Except OsError Nat))
    (h : SilentSince t w w')
    (hsafe : call.noSignal = true ∨ w.NoSigpipe t w'.trace) :
    SilentSince t w (call.toCall.loop answers w').2 := by
  induction answers generalizing w' with
  | nil => exact h
  | cons a rest ih =>
      cases a with
      | ok n => exact h.record (fun hpipe => by cases hpipe) rest
      | error e =>
          have hrecord : SilentSince t w (call.toCall.record w' (.error e) rest) :=
            h.record (fun _ => hsafe) rest
          rw [Call.loop]
          split
          · exact hrecord
          · apply ih hrecord
            rcases hsafe with hflag | ⟨happle, hset⟩
            · exact .inl hflag
            · refine .inr ⟨happle, ?_⟩
              -- An interrupted call is repeated within its attempt.
              obtain rfl : e = .EINTR := OsError.kind_eq_interrupted.mp (not_not.mp ‹_›)
              simpa [SendCall.toCall, Attempt.finishedSend, Attempt.blockedSend] using hset

/-- Every target but the unknown ones suppresses the signal before it calls. -/
theorem keeps_silent (ht : t.os ≠ .other) (w : World) (iov : List Bytes) (buf : Bytes)
    (len : Nat) : Keeps (fun w' => SilentSince t w w' ∧ w'.refusals = w.refusals)
      (SilentSince t w) (sendmsgVectored t iov buf len) := by
  rintro w' ⟨hw', hrefusals⟩
  cases hrefusal : w'.refusal t with
  | some e =>
      rw [sendmsgVectored, bind_err (prepareSend_err t hrefusal)]
      refine .inr ⟨⟨hw'.nosigpipe, hw'.silent⟩, _, rfl, ?_⟩
      rw [← Bool.not_eq_true, isWouldBlock_os]
      exact (t.refusal_some hrefusal).2
  | none =>
      rw [sendmsgVectored, bind_ok (prepareSend_ok t hrefusal)]
      let sameRefusals (w' : World) : Prop := w'.refusals = w.refusals
      have hsame : ∀ (call : SendCall) w' a rest, sameRefusals w' →
          sameRefusals (call.toCall.record w' a rest) := fun _ _ _ _ h => h
      refine .inl ⟨silent_loop _ hw' ?_, Call.loop_inv (hsame _) hrefusals⟩
      rw [World.refusal, Target.refusal, hw'.nosigpipe, World.finished, World.blocked,
        hrefusals] at hrefusal
      by_cases happle : t.os = .apple
      · rw [if_pos happle, Option.map_eq_none_iff] at hrefusal
        exact .inr ⟨happle, hrefusal⟩
      · refine .inl ?_
        cases hos : t.os <;> simp_all [sendNoSignal, Target.cloexecFallback]

/-- No send of the crate raises `SIGPIPE`, whatever the kernel answers and wherever the
send is cancelled, on every target that can suppress the signal. -/
theorem sends_raise_no_signal (ht : t.os ≠ .other) (rt : Runtime) (op : Transmission)
    (w : World) (made : List Attempt) (a : Attempt) (hfrom : w.trace <+: made)
    (hto : made ++ [a] <+: ((op.run t rt).run w).2.trace) :
    ¬ a.RaisesSigpipe (w.NoSigpipe t made) :=
  ((op.keeps (keeps_silent ht w) rt).run_post (fun _ h => h.1) ⟨.refl t w, rfl⟩).silent made a
    hfrom hto

/-- On macOS the socket option does it. -/
theorem sends_raise_no_signal_macos :
    let a : Attempt := .sendmsg ⟨[[1]], none, false⟩ (.error .EPIPE)
    ¬ a.RaisesSigpipe ((World.scripted [.error .EPIPE] []).NoSigpipe .macos []) :=
  sends_raise_no_signal (t := .macos) (by decide) .blocking (.streamFds [1] [])
    (.scripted [.error .EPIPE] []) [] _ List.nil_prefix ⟨[], rfl⟩

end Sigpipe

/-! ## A closed peer -/

/-- The peer is gone: the next call that is not interrupted fails with `EPIPE`, and a
`setsockopt` that fails does so with `EINVAL`, as on XNU. -/
structure ClosedPeer (w : World) : Prop where
  sends : ∃ interrupted rest, w.sends = interrupted ++ .error .EPIPE :: rest ∧
    ∀ a ∈ interrupted, a = .error .EINTR
  nosigpipe : ∀ k j e, w.nosigpipe k j = some e → e.1 = .EINVAL

/-- The arguments pass every check that the send makes before its call. -/
def Transmission.Valid (t : Target) : Transmission → Prop
  | streamFds data fds => data = [] → fds = []
  | streamFdsVectored iov fds =>
      fds ≠ [] → iov.flatten.length ≤ t.layout.usizeMax ∧ iov.flatten ≠ []
  | streamFdsAll data fds => data = [] → fds = []
  | datagramFds _ _ | datagramFdsVectored _ _ | seqpacketFds _ _ => True
  | lowlevel _ ancillary => ancillary.receiveMode = false

/-- With a closed peer, `m` fails with `EPIPE`. -/
def Breaks {α : Type} (m : Sys α) : Prop := ∀ w, ClosedPeer w → (m.run w).1 = .err (.os .EPIPE)

section Breaks

variable {t : Target}

theorem Breaks.bind {α β : Type} {m : Sys α} {f : α → Sys β} (hm : Breaks m) :
    Breaks (m >>= f) := by
  intro w hw
  rw [bind_err (Prod.ext (hm w hw) rfl)]

theorem Breaks.io {α : Type} {m : Sys α} (hm : Breaks m) (rt : Runtime) : Breaks (rt.io m) := by
  intro w hw
  rw [run_io_settled]
  · exact hm w hw
  · intro e he
    rw [hm w hw] at he
    cases he
    rfl

theorem loop_closed (call : SendCall) {interrupted rest : List (Except OsError Nat)}
    (h : ∀ a ∈ interrupted, a = .error .EINTR) (w : World) :
    (call.toCall.loop (interrupted ++ .error .EPIPE :: rest) w).1 = .err (.os .EPIPE) := by
  induction interrupted generalizing w with
  | nil => rfl
  | cons a interrupted ih =>
      obtain ⟨rfl, hrest⟩ := List.forall_mem_cons.mp h
      exact ih hrest _

theorem breaks_sendWith (call : SendCall) : Breaks (sendWith t call) := by
  rintro w ⟨⟨interrupted, rest, hsends, hinterrupted⟩, hnosigpipe⟩
  cases hrefusal : w.refusal t with
  | none =>
      rw [sendWith, bind_ok (prepareSend_ok t hrefusal)]
      simp only [awaitSend, hsends]
      exact loop_closed call hinterrupted w
  | some e =>
      rw [sendWith, bind_err (prepareSend_err t hrefusal)]
      have happle := (t.refusal_some hrefusal).1
      rw [World.refusal, Target.refusal, if_pos happle] at hrefusal
      obtain ⟨error, herror, rfl⟩ := Option.map_eq_some_iff.mp hrefusal
      rw [hnosigpipe _ _ _ herror]
      rfl

theorem breaks_sendmsgVectored (iov : List Bytes) (buf : Bytes) (len : Nat) :
    Breaks (sendmsgVectored t iov buf len) :=
  breaks_sendWith ⟨t.named iov, msgControl t buf len, sendNoSignal t⟩

theorem breaks_sendFdsVectoredImpl (iov : List Bytes) {fds : List RawFd}
    (hlen : 4 * fds.length ≤ i32Max) : Breaks (sendFdsVectoredImpl t iov fds) := by
  rw [sendFdsVectoredImpl_eq iov (by omega)]
  exact breaks_sendWith _

theorem breaks_streamSendFdsAll (rt : Runtime) {data : Bytes} (hdata : data ≠ [])
    {fds : List RawFd} (hlen : 4 * fds.length ≤ i32Max) :
    Breaks (streamSendFdsAll t rt data fds) := by
  have hpos : 0 < data.length := List.length_pos_of_ne_nil hdata
  have hrest : Breaks (sendRest t rt data data.length 0) := by
    obtain ⟨fuel, hfuel⟩ := Nat.exists_eq_succ_of_ne_zero (Nat.ne_of_gt hpos)
    rw [hfuel, sendRest, if_pos hpos]
    exact ((breaks_sendmsgVectored _ [] 0).io rt).bind
  rw [streamSendFdsAll, validateStreamSend, if_neg (fun h => hdata h.1), pure_bind_eq, sendFirst]
  split
  · exact hrest
  · exact ((breaks_sendFdsVectoredImpl [data] hlen).io rt).bind.bind

/-- Every send that makes a call breaks. -/
theorem Transmission.breaks (rt : Runtime) (op : Transmission) (hvalid : op.Valid t)
    (hlen : 4 * op.fds.length ≤ i32Max) (hcalls : op ≠ .streamFdsAll [] []) :
    Breaks (op.run t rt) := by
  have hone := fun (iov : List Bytes) => (breaks_sendFdsVectoredImpl (t := t) iov hlen).io rt
  cases op with
  | streamFds data fds =>
      have hcheck : ¬ (data = [] ∧ fds.length ≠ 0) := fun h =>
        h.2 (List.length_eq_zero_iff.mpr (hvalid h.1))
      apply Breaks.bind
      rw [UnixStreamExt.sendFds, streamSendFds, validateStreamSend, if_neg hcheck, pure_bind_eq]
      exact hone [data]
  | streamFdsVectored iov fds =>
      apply Breaks.bind
      rw [UnixStreamExt.sendFdsVectored, streamSendFdsVectored]
      split
      case isTrue hne =>
          obtain ⟨hsum, hpayload⟩ := hvalid hne
          have htotal : iovLen t iov = .ok iov.flatten.length := by
            rw [iovLen_eq, Target.addUsize, Nat.zero_add, if_pos hsum]
          have hpos : iov.flatten.length ≠ 0 := fun h =>
            hpayload (List.length_eq_zero_iff.mp h)
          rw [htotal, ofExcept_ok_bind, if_neg hpos]
          exact hone iov
      case isFalse => exact hone iov
  | streamFdsAll data fds =>
      refine breaks_streamSendFdsAll rt (fun hdata => hcalls ?_) hlen
      rw [hdata, hvalid hdata]
  | datagramFds data fds => exact (hone [data]).bind
  | datagramFdsVectored iov fds => exact (breaks_sendFdsVectoredImpl iov hlen).bind
  | seqpacketFds data fds => exact (hone [data]).bind
  | lowlevel iov ancillary =>
      have hmode : ¬ ancillary.receiveMode = true := by
        rw [show ancillary.receiveMode = false from hvalid]
        decide
      apply Breaks.bind
      rw [cmsgSendmsg, if_neg hmode]
      exact breaks_sendmsgVectored iov _ _

/-- Every send to a closed peer fails with `BrokenPipe` on every target, whatever
interrupts it. Only `send_fds_all` of nothing makes no call, and succeeds. -/
theorem closed_peer_breaks (t : Target) (rt : Runtime) (op : Transmission) (hvalid : op.Valid t)
    (hlen : 4 * op.fds.length ≤ i32Max) {w : World} (hclosed : ClosedPeer w) :
    (op ≠ .streamFdsAll [] [] →
      ∃ e, ((op.run t rt).run w).1 = .err e ∧ e.kind = .brokenPipe) ∧
    (op = .streamFdsAll [] [] → (op.run t rt).run w = (.ok (), w)) := by
  refine ⟨fun hcalls => ⟨_, op.breaks rt hvalid hlen hcalls w hclosed, rfl⟩, ?_⟩
  rintro rfl
  rfl

/-- A send with a descriptor, interrupted once, and a complete send of nothing. -/
theorem closed_peer_breaks_fds :
    let w := World.scripted [.error .EINTR, .error .EPIPE] []
    (∃ e, (((Transmission.streamFds [120] [5]).run .linux64 .blocking).run w).1 = .err e ∧
      e.kind = .brokenPipe) ∧
    ((Transmission.streamFdsAll [] []).run .linux64 .blocking).run w = (.ok (), w) := by
  intro w
  have hclosed : ClosedPeer w :=
    ⟨⟨[.error .EINTR], [], rfl, by simp⟩, fun _ _ _ h => by cases h⟩
  exact ⟨(closed_peer_breaks .linux64 .blocking (.streamFds [120] [5]) (fun h => by cases h)
      (by decide) hclosed).1 (fun h => by cases h),
    (closed_peer_breaks .linux64 .blocking (.streamFdsAll [] []) (fun _ => rfl)
      (by decide) hclosed).2 rfl⟩

end Breaks

end UnixAncillary
