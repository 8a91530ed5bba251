import UnixAncillary.Platform

/-!
# The two system calls

`sendmsgVectored` and `recvmsgRaw` loop over `EINTR` and return the first other
answer. Both loops are `Call.loop`; the calls differ in how an answer is clipped to
the buffers and which script it comes from. An answered call is recorded with its
answer; a successful receive fills the buffers and installs the descriptors.
-/

namespace UnixAncillary

open ByteCodec HandleTable Program Program.Prog

structure RecvMsgResult where
  bytesRead : Nat
  ancillaryLen : Nat
  ancillaryTruncated : Bool
  dataTruncated : Bool
  deriving DecidableEq

/-- One system call with answers in `β`: what an unanswered call waits for, the kernel's
limit on what it reports, and the world after an answer. -/
structure Call (β : Type) where
  wait : Syscall
  clip : β → β
  record : World → Except OsError β → List (Except OsError β) → World

/-- The `loop` around a system call, along the answers to come. -/
def Call.loop {β : Type} (call : Call β) : List (Except OsError β) → World →
    Outcome IoError Panic Syscall β × World
  | [], w => (.pending call.wait, w)
  | .ok b :: rest, w => (.ok (call.clip b), call.record w (.ok (call.clip b)) rest)
  | .error e :: rest, w =>
      let w := call.record w (.error e) rest
      if e.kind ≠ .interrupted then (.err (.os e), w) else call.loop rest w

/-! ## Sending -/

/-- `libc::sendmsg` accepts at most what is offered. -/
def SendCall.toCall (call : SendCall) : Call Nat where
  wait := .sendmsg call
  clip n := min n call.payload.length
  record w answer rest := { w with sends := rest, trace := w.trace ++ [.sendmsg call answer] }

/-- `libc::sendmsg`, repeated while it is interrupted. -/
def awaitSend (call : SendCall) : Sys Nat := ⟨fun w => call.toCall.loop w.sends w⟩

section Send

variable (t : Target)

/-- The control bytes that `msg_control` and `msg_controllen` name. The buffer is attached
only when `ancillaryLen` is positive. -/
def msgControl (ancillaryBuf : Bytes) (ancillaryLen : Nat) : Option Bytes :=
  if 0 < ancillaryLen then some (ancillaryBuf.take (t.msgControllen.count ancillaryLen))
  else none

/-- Send data and ancillary control messages. -/
def sendmsgVectored (iov : List Bytes) (ancillaryBuf : Bytes) (ancillaryLen : Nat) :
    Sys Nat := do
  prepareSend t
  awaitSend ⟨t.named iov, msgControl t ancillaryBuf ancillaryLen, sendNoSignal t⟩

/-- Send ordinary bytes without ancillary data. -/
def sendBytes (data : Bytes) : Sys Nat := sendmsgVectored t [data] [] 0

end Send

/-! ## Receiving -/

/-- `libc::recvmsg` reports what fits the buffers. -/
def RecvCall.toCall (call : RecvCall) : Call Delivery where
  wait := .recvmsg call
  clip d := d.clip call
  record w answer rest := { w with recvs := rest, trace := w.trace ++ [.recvmsg call answer] }

/-- Fill the buffers in order. -/
def scatter : Bytes → List Bytes → List Bytes
  | _, [] => []
  | data, buf :: bufs =>
      overwrite buf 0 (data.take buf.length) :: scatter (data.drop buf.length) bufs

/-- A successful `recvmsg` fills the buffers and installs the descriptors, with
`FD_CLOEXEC` set where the flags ask for it. -/
def World.deliver (cmsgCloexec : Bool) (d : Delivery) (w : World) : World :=
  { w with
    iov := scatter d.data w.iov
    fds := w.fds.openAll d.installed
    flags := fun fd =>
      if cmsgCloexec ∧ fd ∈ d.installed then w.flags fd ||| FD_CLOEXEC else w.flags fd }

section Receive

variable (t : Target)

/-- The `recvmsg` call that the running receive issues with `control` bytes of storage. -/
def recvCall (control : Nat) (peek : Bool) (w : World) : RecvCall :=
  ⟨(t.named w.iov).map List.length, t.msgControllen.count control, recvCmsgCloexec t, peek⟩

/-- `libc::recvmsg`, repeated while it is interrupted. -/
def awaitRecv (control : Nat) (peek : Bool) : Sys Delivery :=
  ⟨fun w => (recvCall t control peek w).toCall.loop w.recvs w⟩

/-- Receive into the buffers of the world and into `ancillaryBuf`, whose descriptors
stay unowned. The second result is what `ancillaryBuf` holds afterwards. -/
def recvmsgRaw (ancillaryBuf : Bytes) (peek : Bool) : Sys (RecvMsgResult × Bytes) := do
  let d ← awaitRecv t ancillaryBuf.length peek
  update (World.deliver (recvCmsgCloexec t) d)
  pure (⟨d.data.length, d.control.length, d.ctrunc, d.trunc⟩,
    overwrite ancillaryBuf 0 d.control)

/-- Dropping owned descriptors. -/
def dropFds (fds : List RawFd) : Sys Unit := update (·.close fds)

/-- Own every `SCM_RIGHTS` descriptor of a fresh receive as one flat list. -/
def takeFdsFrom (bytes : Bytes) : Sys (List RawFd) :=
  ⟨fun w => (.ok (takeFds t bytes w).1, (takeFds t bytes w).2)⟩

/-- Receive and own every delivered descriptor as one flat list. If close-on-exec
fails for any of them, all are closed. -/
def recvFds (ancillaryBuf : Bytes) : Sys (RecvMsgResult × List RawFd) := do
  let (result, ancillaryBuf) ← recvmsgRaw t ancillaryBuf false
  let bytes ← ofExcept (slice ancillaryBuf 0 result.ancillaryLen)
  let fds ← takeFdsFrom t bytes
  (cloexecFds t fds).onError (·.close fds)
  pure (result, fds)

end Receive

/-! ## What the loops do -/

section Loops

variable {β : Type} {call : Call β}

/-- What every answer preserves, the loop preserves. -/
theorem Call.loop_inv {β : Type} {call : Call β} {inv : World → Prop}
    (hinv : ∀ w a rest, inv w → inv (call.record w a rest)) {answers : List _} {w : World}
    (hw : inv w) : inv (call.loop answers w).2 := by
  induction answers generalizing w with
  | nil => exact hw
  | cons a rest ih =>
      cases a with
      | ok b => exact hinv w _ rest hw
      | error e =>
          rw [Call.loop]
          split
          · exact hinv w _ rest hw
          · exact ih (hinv w _ rest hw)

/-- A failing loop changes nothing that interruptions and its own error do not change. -/
theorem Call.loop_err {γ : Type*} (π : World → γ) {answers : List _} {w : World}
    {error : IoError}
    (hπ : ∀ w e rest, e = .EINTR ∨ .os e = error → π (call.record w (.error e) rest) = π w)
    (herr : (call.loop answers w).1 = .err error) : π (call.loop answers w).2 = π w := by
  induction answers generalizing w with
  | nil => cases herr
  | cons a rest ih =>
      cases a with
      | ok b => cases herr
      | error e =>
          rw [Call.loop] at herr ⊢
          split
          case isTrue hk =>
              rw [if_pos hk] at herr
              cases herr
              exact hπ w e rest (.inr rfl)
          case isFalse hk =>
              rw [if_neg hk] at herr
              exact (ih herr).trans
                (hπ w e rest (.inl (OsError.kind_eq_interrupted.mp (not_not.mp hk))))

/-- A successful loop returns an answer of the script. -/
theorem Call.loop_ok {answers : List (Except OsError β)} {w : World} {b : β}
    (hok : (call.loop answers w).1 = .ok b) : ∃ b₀, .ok b₀ ∈ answers ∧ b = call.clip b₀ := by
  induction answers generalizing w with
  | nil => cases hok
  | cons a rest ih =>
      cases a with
      | ok b₀ =>
          cases hok
          exact ⟨b₀, List.mem_cons_self, rfl⟩
      | error e =>
          rw [Call.loop] at hok
          split at hok
          · cases hok
          · obtain ⟨b₀, hmem, hb⟩ := ih hok
            exact ⟨b₀, List.mem_cons_of_mem _ hmem, hb⟩

/-- A loop waits only after interruptions. -/
theorem Call.loop_pending {answers : List (Except OsError β)} {w : World} {c : Syscall}
    (h : (call.loop answers w).1 = .pending c) :
    c = call.wait ∧ ∀ a ∈ answers, a = .error .EINTR := by
  induction answers generalizing w with
  | nil =>
      cases h
      exact ⟨rfl, by simp⟩
  | cons a rest ih =>
      cases a with
      | ok b => cases h
      | error e =>
          rw [Call.loop] at h
          split at h
          case isTrue hk => cases h
          case isFalse hk =>
              obtain ⟨hc, hrest⟩ := ih h
              obtain rfl := OsError.kind_eq_interrupted.mp (not_not.mp hk)
              exact ⟨hc, List.forall_mem_cons.mpr ⟨rfl, hrest⟩⟩

/-- An answer after interruptions is returned. -/
theorem Call.loop_interrupted {answers : List (Except OsError β)}
    (h : ∀ a ∈ answers, a = .error .EINTR) (b : β) (w : World) :
    (call.loop (answers ++ [.ok b]) w).1 = .ok (call.clip b) := by
  induction answers generalizing w with
  | nil => rfl
  | cons a rest ih =>
      obtain ⟨rfl, hrest⟩ := List.forall_mem_cons.mp h
      exact ih hrest _

end Loops

/-! ## What a completed receive does -/

/-- The descriptors handed over by the control bytes of a delivery. -/
def Delivery.rights (t : Target) (d : Delivery) : List RawFd :=
  (t.layout.parse d.control).flatMap (·.rightsFds t)

/-- The pidfds in the control bytes of a delivery. -/
def Delivery.pidfds (t : Target) (d : Delivery) : List RawFd :=
  (t.layout.parse d.control).flatMap (·.pidfds t)

/-- The world in which a receive owns what `d` delivered, all pidfds closed. -/
def World.own (t : Target) (d : Delivery) (w : World) : World :=
  (w.deliver (recvCmsgCloexec t) d).close (d.pidfds t)

section Received

variable {t : Target}

/-- The slices that a receive names hold no more than all its buffers. -/
theorem sum_recvCall_le (control : Nat) (peek : Bool) (w : World) :
    (recvCall t control peek w).iov.sum ≤ w.iov.flatten.length := by
  have hsplit := congrArg (·.flatten.length)
    (List.take_append_drop (t.msgIovlen.count w.iov.length) w.iov)
  simp only [List.flatten_append, List.length_append] at hsplit
  rw [recvCall, ← List.length_flatten, Target.named]
  omega

/-- Waiting for a receive changes only the script and the trace. -/
theorem awaitRecv_world (control : Nat) (peek : Bool) (w : World) : ∃ recvs trace,
    ((awaitRecv t control peek).run w).2 = { w with recvs := recvs, trace := trace } := by
  let inv (w' : World) : Prop := ∃ recvs trace, w' = { w with recvs := recvs, trace := trace }
  have hstep : ∀ w' a rest, inv w' → inv ((recvCall t control peek w).toCall.record w' a rest) := by
    rintro _ a rest ⟨recvs, trace, rfl⟩
    exact ⟨rest, _, rfl⟩
  have hstart : inv w := ⟨w.recvs, w.trace, rfl⟩
  exact Call.loop_inv hstep hstart

/-- A delivery never exceeds the control buffer. -/
theorem awaitRecv_ok {control : Nat} {peek : Bool} {w w₁ : World} {d : Delivery}
    (h : (awaitRecv t control peek).run w = (.ok d, w₁)) :
    d.control.length ≤ control ∧ ∃ recvs trace, w₁ = { w with recvs := recvs, trace := trace } := by
  have hok : ((recvCall t control peek w).toCall.loop w.recvs w).1 = .ok d :=
    congrArg Prod.fst h
  obtain ⟨d₀, -, rfl⟩ := Call.loop_ok hok
  have hworld := awaitRecv_world (t := t) control peek w
  rw [h] at hworld
  exact ⟨(List.length_take_le ..).trans (t.msgControllen.count_le _), hworld⟩

theorem awaitRecv_ne_panic (control : Nat) (peek : Bool) (w : World) (p : Panic) :
    ((awaitRecv t control peek).run w).1 ≠ .panic p := by
  have hloop : ∀ (answers : List (Except OsError Delivery)) (call : Call Delivery) (w : World),
      (call.loop answers w).1 ≠ .panic p := by
    intro answers call
    induction answers with
    | nil => exact fun _ h => by cases h
    | cons a rest ih =>
        intro w
        cases a with
        | ok b => exact fun h => by cases h
        | error e =>
            rw [Call.loop]
            split
            · exact fun h => by cases h
            · exact ih _
  exact hloop _ _ _

/-- Waiting opens and closes nothing. -/
theorem awaitRecv_fds (control : Nat) (peek : Bool) (w : World) :
    ((awaitRecv t control peek).run w).2.fds = w.fds := by
  obtain ⟨recvs, trace, hworld⟩ := awaitRecv_world (t := t) control peek w
  rw [hworld]

/-- A delivery that fits the control buffer reads back from it. -/
theorem slice_overwrite {buffer control : Bytes} (h : control.length ≤ buffer.length) :
    slice (overwrite buffer 0 control) 0 control.length = .ok control := by
  have hlen : (overwrite buffer 0 control).length = buffer.length :=
    length_overwrite (by omega)
  rw [slice_eq (Nat.zero_le _) (by omega), Nat.sub_zero,
    readAt_overwrite_self rfl (by omega)]

/-- A delivery is stored in the control buffer, and its descriptors are installed. -/
theorem run_recvmsgRaw_ok {buf : Bytes} {peek : Bool} {w w₁ : World} {d : Delivery}
    (h : (awaitRecv t buf.length peek).run w = (.ok d, w₁)) :
    (recvmsgRaw t buf peek).run w =
      (.ok (⟨d.data.length, d.control.length, d.ctrunc, d.trunc⟩, overwrite buf 0 d.control),
        w₁.deliver (recvCmsgCloexec t) d) := by
  rw [recvmsgRaw, bind_ok h]
  rfl

/-- `recv_fds` after a successful `recvmsg`: the batch is owned before close-on-exec is
set, and closed when that fails. -/
theorem recvFds_of_delivery {buf : Bytes} {w w₁ : World} {d : Delivery}
    (h : (awaitRecv t buf.length false).run w = (.ok d, w₁)) :
    (recvFds t buf).run w =
      andThen (fun _ => pure
        (⟨d.data.length, d.control.length, d.ctrunc, d.trunc⟩, d.rights t))
        (((cloexecFds t (d.rights t)).onError (·.close (d.rights t))).run (w₁.own t d)) := by
  have hslice := slice_overwrite (awaitRecv_ok h).1
  rw [recvFds, bind_ok (run_recvmsgRaw_ok h)]
  simp only [hslice]
  rw [bind_ok (run_ofExcept_ok ..)]
  have htake : (takeFdsFrom t d.control).run (w₁.deliver (recvCmsgCloexec t) d) =
      (.ok (d.rights t), w₁.own t d) := by
    simp only [takeFdsFrom, takeFds_eq]
    rfl
  rw [bind_ok htake]
  rfl

/-- `recv_fds` fails as its `recvmsg` does. -/
theorem run_recvFds_err {buf : Bytes} {w w₁ : World} {e : IoError}
    (h : (awaitRecv t buf.length false).run w = (.err e, w₁)) :
    (recvFds t buf).run w = (.err e, w₁) := by
  rw [recvFds, recvmsgRaw, bind_err (bind_err h)]

/-- `recv_fds` waits where its `recvmsg` does. -/
theorem run_recvFds_pending {buf : Bytes} {w w₁ : World} {c : Syscall}
    (h : (awaitRecv t buf.length false).run w = (.pending c, w₁)) :
    (recvFds t buf).run w = (.pending c, w₁) := by
  rw [recvFds, recvmsgRaw, bind_pending (bind_pending h)]

end Received

end UnixAncillary
