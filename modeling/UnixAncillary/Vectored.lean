import UnixAncillary.Receives
import UnixAncillary.Sizing

/-!
# Vectored operations

A vectored send or receive does what the scalar one does with the concatenation of its
buffers, as long as `msg_iovlen` holds their number: the calls differ in how the buffers are
listed, and in nothing else. `World.gather` is the map between the two, and `Gathers` says
that one operation is the other behind it.
-/

namespace UnixAncillary

open ByteCodec HandleTable Program Program.Prog

/-! ## One buffer for many -/

def SendCall.gather (call : SendCall) : SendCall := { call with iov := [call.payload] }

def RecvCall.gather (call : RecvCall) : RecvCall := { call with iov := [call.iov.sum] }

def Attempt.gather : Attempt → Attempt
  | .sendmsg call answer => .sendmsg call.gather answer
  | .recvmsg call answer => .recvmsg call.gather answer

def Syscall.gather : Syscall → Syscall
  | .sendmsg call => .sendmsg call.gather
  | .recvmsg call => .recvmsg call.gather
  | .readiness => .readiness

/-- The world with its buffers, and those of every call made, as one. -/
def World.gather (w : World) : World :=
  { w with iov := [w.iov.flatten], trace := w.trace.map Attempt.gather }

/-- From every world in `inv`, the operation `n` is `m` with one buffer for all of its
buffers. -/
def Gathers (inv : World → Prop) {α : Type} (m n : Sys α) : Prop :=
  Simulates inv World.gather Syscall.gather m n

/-- A receive names all buffers of the world. -/
def World.Named (t : Target) (w : World) : Prop := t.Names w.iov

theorem sum_recvCall_named {t : Target} {control : Nat} {peek : Bool} {w : World}
    (h : w.Named t) : (recvCall t control peek w).iov.sum = w.iov.flatten.length := by
  rw [recvCall, t.named_eq h, List.length_flatten]

theorem length_scatter (data : Bytes) (bufs : List Bytes) :
    (scatter data bufs).length = bufs.length := by
  induction bufs generalizing data with
  | nil => rfl
  | cons buf bufs ih => rw [scatter, List.length_cons, ih, List.length_cons]

/-- Filling the buffers in order fills their concatenation. -/
theorem flatten_scatter (data : Bytes) (bufs : List Bytes) :
    (scatter data bufs).flatten = overwrite bufs.flatten 0 (data.take bufs.flatten.length) := by
  induction bufs generalizing data with
  | nil => simp [scatter, overwrite]
  | cons buf bufs ih =>
      rw [scatter, List.flatten_cons, ih, List.flatten_cons]
      rcases Nat.le_total data.length buf.length with hle | hle
      · have hall : data.length ≤ (buf ++ bufs.flatten).length := by
          rw [List.length_append]
          omega
        rw [List.take_of_length_le hle, List.take_of_length_le hall, List.drop_of_length_le hle]
        simp [overwrite, List.drop_append_of_le_length hle]
      · have hbuf : (data.take buf.length).length = buf.length := List.length_take_of_le hle
        rw [List.length_append, List.take_add]
        simp only [overwrite, List.take_zero, List.nil_append, Nat.zero_add, List.length_append,
          hbuf, List.drop_length, List.append_nil, List.drop_append, Nat.add_sub_cancel_left,
          List.drop_of_length_le (Nat.le_add_right buf.length _), List.append_assoc]

/-- A call fills one buffer like several. -/
theorem gather_deliver (cmsgCloexec : Bool) (d : Delivery) (w : World)
    (hroom : d.data.length ≤ w.iov.flatten.length) :
    w.gather.deliver cmsgCloexec d = (w.deliver cmsgCloexec d).gather := by
  have hdata : d.data.take w.iov.flatten.length = d.data := List.take_of_length_le hroom
  simp only [World.gather, World.deliver, scatter, flatten_scatter, hdata]

/-! ## The loop around a system call -/

section Loop

variable {β : Type} {call call' : Call β}

/-- The loops of two calls that differ in their buffers. -/
theorem Call.loop_gather (hwait : call'.wait = call.wait.gather) (hclip : call'.clip = call.clip)
    (hrecord : ∀ w a rest, call'.record w.gather a rest = (call.record w a rest).gather)
    (answers : List (Except OsError β)) (w : World) :
    call'.loop answers w.gather =
      ((call.loop answers w).1.mapCall Syscall.gather, (call.loop answers w).2.gather) := by
  induction answers generalizing w with
  | nil =>
      rw [Call.loop, hwait]
      rfl
  | cons a rest ih =>
      cases a with
      | ok b =>
          rw [Call.loop, hclip, hrecord]
          rfl
      | error e =>
          simp only [Call.loop, hrecord]
          split
          · rfl
          · exact ih _

end Loop

section Operations

variable (t : Target) {inv : World → Prop}

theorem gathers_awaitSend (call : SendCall) :
    Gathers (fun _ => True) (awaitSend call) (awaitSend call.gather) := by
  refine .of_run_map (fun _ _ => trivial) fun w _ => ?_
  apply @Call.loop_gather Nat call.toCall call.gather.toCall
  · rfl
  · simp [SendCall.toCall, SendCall.gather, SendCall.payload]
  · intro w a rest
    simp [SendCall.toCall, World.gather, Attempt.gather]

theorem gathers_awaitRecv (control : Nat) (peek : Bool) :
    Gathers (World.Named t) (awaitRecv t control peek) (awaitRecv t control peek) := by
  refine .of_run_map (fun w hw => ?_) fun w hw => ?_
  · obtain ⟨recvs, trace, hworld⟩ := awaitRecv_world (t := t) control peek w
    rw [hworld]
    exact hw
  have hcall : recvCall t control peek w.gather = (recvCall t control peek w).gather := by
    simp [recvCall, World.gather, RecvCall.gather, t.named_eq hw]
  simp only [awaitRecv, hcall]
  apply Call.loop_gather
  · rfl
  · funext d
    simp [RecvCall.toCall, RecvCall.gather, Delivery.clip]
  · intro w a rest
    simp [RecvCall.toCall, World.gather, Attempt.gather]

theorem countP_gather (p : Attempt → Bool) (h : ∀ a : Attempt, p a.gather = p a)
    (trace : List Attempt) : (trace.map Attempt.gather).countP p = trace.countP p := by
  rw [List.countP_map]
  exact List.countP_congr fun a _ => by rw [Function.comp_apply, h]

theorem refusal_gather (w : World) : w.gather.refusal t = w.refusal t := by
  have hfinished : w.gather.finished = w.finished := by
    refine congrArg (w.refusals + ·) (countP_gather (·.finishedSend) ?_ w.trace)
    rintro (⟨call, answer⟩ | ⟨call, answer⟩)
    · cases answer <;> rfl
    · rfl
  have hblocked : w.gather.blocked = w.blocked := by
    refine countP_gather (·.blockedSend) ?_ w.trace
    rintro (⟨call, answer⟩ | ⟨call, answer⟩)
    · cases answer <;> rfl
    · rfl
  rw [World.refusal, hfinished, hblocked]
  rfl

theorem gathers_prepareSend : Gathers (fun _ => True) (prepareSend t) (prepareSend t) := by
  refine .of_run_map (fun _ _ => trivial) fun w _ => ?_
  have hsame := refusal_gather t w
  cases h : w.refusal t with
  | none =>
      rw [prepareSend_ok t h, prepareSend_ok t (hsame.trans h)]
      rfl
  | some e =>
      rw [prepareSend_err t h, prepareSend_err t (hsame.trans h)]
      rfl

theorem gathers_sendWith (call : SendCall) :
    Gathers (fun _ => True) (sendWith t call) (sendWith t call.gather) :=
  .bind (gathers_prepareSend t) fun _ => gathers_awaitSend call

theorem gathers_io (rt : Runtime) {α : Type} {m m' : Sys α} (h : Gathers inv m m') :
    Gathers inv (rt.io m) (rt.io m') := by
  cases rt with
  | blocking => exact h
  | tokio =>
      have hretry : ∀ n, Gathers inv (m.retry IoError.isWouldBlock .readiness n)
          (m'.retry IoError.isWouldBlock .readiness n) := fun n => Simulates.retry h rfl n
      refine .of_run_map (fun w hw => (hretry w.wouldBlocks).keeps w hw) fun w hw => ?_
      exact (hretry w.wouldBlocks).run_map hw

/-- A delivery fits the buffers of its call. -/
theorem awaitRecv_room {control : Nat} {peek : Bool} {w w₁ : World} {d : Delivery}
    (h : (awaitRecv t control peek).run w = (.ok d, w₁)) :
    d.data.length ≤ w₁.iov.flatten.length := by
  have hok : ((recvCall t control peek w).toCall.loop w.recvs w).1 = .ok d :=
    congrArg Prod.fst h
  obtain ⟨recvs, trace, hworld⟩ := awaitRecv_world (t := t) control peek w
  obtain ⟨d₀, -, rfl⟩ := Call.loop_ok hok
  rw [h] at hworld
  simp only at hworld
  rw [hworld]
  exact (List.length_take_le ..).trans (sum_recvCall_le control peek w)

theorem named_deliver {cmsgCloexec : Bool} {d : Delivery} {w : World} (h : w.Named t) :
    (w.deliver cmsgCloexec d).Named t := by
  rw [World.Named, Target.Names, World.deliver, length_scatter]
  exact h

theorem gathers_recvmsgRaw (buf : Bytes) (peek : Bool) :
    Gathers (World.Named t) (recvmsgRaw t buf peek) (recvmsgRaw t buf peek) := by
  have hawait := gathers_awaitRecv t buf.length peek
  refine .of_run_map ?_ fun w hw => ?_
  · exact .bind hawait.keeps fun d => .bind (.of_update fun _ => named_deliver t)
      fun _ => .of_pure _
  have hroom := @awaitRecv_room t buf.length peek w
  rw [recvmsgRaw, run_bind, run_bind, hawait.run_map hw]
  generalize (awaitRecv t buf.length peek).run w = r at hroom ⊢
  obtain ⟨o, w₁⟩ := r
  cases o with
  | ok d =>
      simp only [Outcome.mapCall, andThen, run_bind, run_update, run_pure,
        gather_deliver _ d w₁ (hroom rfl)]
  | err e => rfl
  | panic p => rfl
  | pending c => rfl

theorem gathers_fcntl : Gathers (World.Named t) fcntl fcntl := by
  refine .of_run_map (fun w hw => ?_) fun w _ => ?_
  · simp only [fcntl]
    split <;> exact hw
  · simp only [fcntl, World.gather]
    split <;> rfl

theorem gathers_cloexecFds (fds : List RawFd) :
    Gathers (World.Named t) (cloexecFds t fds) (cloexecFds t fds) := by
  have hone : ∀ fd, Gathers (World.Named t) (setCloexec fd) (setCloexec fd) := fun fd =>
    .bind (gathers_fcntl t) fun _ => .bind (.of_read fun _ => rfl) fun _ =>
      .bind (gathers_fcntl t) fun _ => .of_update (fun _ hw => hw) fun _ _ => rfl
  rw [cloexecFds]
  split
  · induction fds with
    | nil => exact .of_pure _
    | cons fd fds ih => exact .bind (hone fd) fun _ => ih
  · exact .of_pure _

theorem gathers_takeFdsFrom (bytes : Bytes) :
    Gathers (World.Named t) (takeFdsFrom t bytes) (takeFdsFrom t bytes) := by
  refine .of_run_map (fun w hw => ?_) fun w _ => ?_
  · simp only [takeFdsFrom, takeFds_eq]
    exact hw
  · simp only [takeFdsFrom, takeFds_eq]
    rfl

theorem gathers_recvFds (buf : Bytes) :
    Gathers (World.Named t) (recvFds t buf) (recvFds t buf) := by
  refine .bind (gathers_recvmsgRaw t buf false) fun received => ?_
  refine .bind (.of_ofExcept _) fun bytes => ?_
  refine .bind (gathers_takeFdsFrom t bytes) fun fds => ?_
  exact .bind (.onError (gathers_cloexecFds t fds) (fun _ hw => hw) fun _ => rfl)
    fun _ => .of_pure _

theorem gathers_dropFds (fds : List RawFd) :
    Gathers (World.Named t) (dropFds fds) (dropFds fds) :=
  .of_update (fun _ hw => hw) fun _ _ => rfl

theorem gathers_rejectFds {α : Type} (fds : List RawFd) (error : IoError) :
    Gathers (World.Named t) (rejectFds fds error : Sys α) (rejectFds fds error) :=
  .bind (gathers_dropFds t fds) fun _ => .of_throw _

theorem gathers_applyPolicy (kind : SocketKind) (mode : CountMode) (result : RecvMsgResult)
    (fds : List RawFd) :
    Gathers (World.Named t) (applyPolicy kind mode result fds)
      (applyPolicy kind mode result fds) := by
  rw [applyPolicy.eq_def]
  split
  · exact gathers_rejectFds t fds _
  split
  · exact gathers_rejectFds t fds _
  cases mode with
  | upTo n => exact .bind (gathers_dropFds t _) fun _ => .of_pure _
  | exact n =>
      simp only
      split
      · exact gathers_rejectFds t fds _
      · exact .of_pure _

theorem gathers_recvControlSize (mode : CountMode) :
    Gathers (World.Named t) (recvControlSize t mode) (recvControlSize t mode) := by
  refine .of_run_map (fun w hw => ?_) fun w _ => ?_
  · rwa [run_recvControlSize]
  have hsize : (controlSizeAt t mode w.rlimit).mapCall Syscall.gather =
      controlSizeAt t mode w.rlimit := by
    cases hsize : controlSizeAt t mode w.rlimit with
    | pending c => exact absurd hsize (controlSizeAt_ne_pending _ _ c)
    | ok size => rfl
    | err e => rfl
    | panic p => rfl
  rw [run_recvControlSize, run_recvControlSize, hsize]
  rfl

theorem gathers_recvFdsIntoVectoredImpl (kind : SocketKind) (mode : CountMode) :
    Gathers (World.Named t) (recvFdsIntoVectoredImpl t kind mode)
      (recvFdsIntoVectoredImpl t kind mode) := by
  refine .bind ?_ fun _ => .of_pure _
  refine .bind (gathers_recvControlSize t mode) fun size => ?_
  exact .bind (gathers_recvFds t _) fun received => gathers_applyPolicy t kind mode _ _

/-! ## The vectored operations -/

/-- A vectored receive is the scalar receive into the concatenation of its buffers. -/
theorem gathers_recvVectored (rt : Runtime) (kind : SocketKind) (mode : CountMode)
    {iov : List Bytes} (hnames : t.Names iov) : Gathers (fun _ => True)
      (recvVectored t rt kind mode iov) (recvInto t rt kind mode iov.flatten) := by
  refine .of_run_map (fun _ _ => trivial) fun w _ => ?_
  have hio := gathers_io rt (gathers_recvFdsIntoVectoredImpl t kind mode)
  exact hio.run_map (s := { w with iov := iov }) hnames

/-- A vectored send is the scalar send of the concatenation of its buffers. -/
theorem gathers_sendFdsVectoredImpl {iov : List Bytes} {fds : List RawFd}
    (hnames : t.Names iov) (hlen : 4 * fds.length ≤ i32Max) : Gathers (fun _ => True)
      (sendFdsVectoredImpl t iov fds) (sendFdsImpl t iov.flatten fds) := by
  have hlen' : fds.length * 4 ≤ i32Max := by omega
  have hcall : (sendCallFor t iov fds).gather = sendCallFor t [iov.flatten] fds := by
    rw [SendCall.gather, payload_sendCallFor, t.named_eq hnames, sendCallFor, sendCallFor,
      t.named_singleton]
  rw [sendFdsImpl, sendFdsVectoredImpl_eq iov hlen', sendFdsVectoredImpl_eq _ hlen', ← hcall]
  exact gathers_sendWith t (sendCallFor t iov fds)

theorem gathers_streamSendFdsVectored (rt : Runtime) {iov : List Bytes} {fds : List RawFd}
    (hnames : t.Names iov) (hlen : 4 * fds.length ≤ i32Max)
    (hsum : iov.flatten.length ≤ t.layout.usizeMax) : Gathers (fun _ => True)
      (streamSendFdsVectored t rt iov fds) (streamSendFds t rt iov.flatten fds) := by
  have hsend := gathers_io rt (gathers_sendFdsVectoredImpl t hnames hlen)
  rw [streamSendFdsVectored, streamSendFds, validateStreamSend_eq]
  by_cases hnil : fds = []
  · rw [if_neg (by simp [hnil]), if_neg (by simp [hnil]), pure_bind_eq]
    exact hsend
  · have htotal : iovLen t iov = .ok iov.flatten.length := by
      rw [iovLen_eq, Target.addUsize, Nat.zero_add, if_pos hsum]
    rw [if_pos hnil, htotal, ofExcept_ok_bind]
    by_cases hempty : iov.flatten = []
    · rw [if_pos (List.length_eq_zero_iff.mpr hempty), if_pos ⟨hempty, hnil⟩, throw_bind_eq]
      exact .of_throw _
    · rw [if_neg (mt List.length_eq_zero_iff.mp hempty), if_neg (fun h => hempty h.1),
        pure_bind_eq]
      exact hsend

end Operations

/-- Vectored operations agree with scalar ones. In every world and under both runtimes, a
vectored operation ends as the scalar operation on the concatenated buffers does, after the
same answers, with the same descriptors opened and closed and the same bytes sent or
received. Only the lists of buffers in the calls differ. The conditions are that `msg_iovlen`
holds the number of buffers, and that the total length of a stream payload is a `usize`. -/
theorem vectored_gathers (t : Target) (rt : Runtime) (iov : List Bytes)
    (hnames : t.Names iov) :
    (∀ fds : List RawFd, 4 * fds.length ≤ i32Max →
      (iov.flatten.length ≤ t.layout.usizeMax →
        Gathers (fun _ => True) (UnixStreamExt.sendFdsVectored t rt iov fds)
          (UnixStreamExt.sendFds t rt iov.flatten fds)) ∧
      Gathers (fun _ => True) (UnixDatagramExt.sendFdsVectored t iov fds)
        (UnixDatagramExt.sendFds t .blocking iov.flatten fds)) ∧
    ∀ n, Gathers (fun _ => True) (UnixStreamExt.recvFdsVectored t rt n iov)
        (UnixStreamExt.recvFdsInto t rt n iov.flatten) ∧
      Gathers (fun _ => True) (UnixDatagramExt.recvFdsVectored t n iov)
        (UnixDatagramExt.recvFdsInto t .blocking n iov.flatten) := by
  constructor
  · intro fds hlen
    constructor
    · exact gathers_streamSendFdsVectored t rt hnames hlen
    · exact gathers_sendFdsVectoredImpl t hnames hlen
  · intro n
    constructor
    · exact gathers_recvVectored t rt .stream (.upTo n) hnames
    · exact gathers_recvVectored t .blocking .datagram (.upTo n) hnames

/-- A header and a body with one descriptor, of which the kernel accepts one byte. -/
theorem vectored_gathers_header :
    let w := World.scripted [.ok 1] []
    let r := (UnixStreamExt.sendFdsVectored .linux64 .blocking [[1], [2]] [5]).run w
    r.1 = .ok 1 ∧ (UnixStreamExt.sendFds .linux64 .blocking [1, 2] [5]).run w.gather =
      (r.1.mapCall Syscall.gather, r.2.gather) := by
  intro w r
  have hgathers :=
    ((vectored_gathers .linux64 .blocking [[1], [2]] (by decide)).1 [5] (by decide)).1
  exact ⟨by decide +kernel, (hgathers (by decide)).run_map trivial⟩

end UnixAncillary
