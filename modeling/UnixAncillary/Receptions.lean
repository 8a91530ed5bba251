import UnixAncillary.Policy
import UnixAncillary.Transparency

/-!
# The convenience receives

An interrupted call is made again, and under tokio so is a call that would block. A
receive therefore ends as one call of its closure does in the world without those
answers: `Reception.run_settled`. What such a call does to the descriptors is the same for
all receives: they are handed over or closed, `recvCore_splits`.
-/

namespace UnixAncillary

open ByteCodec HandleTable Program Program.Prog

/-! ## Settled worlds -/

/-- The world without the answers after which a call is made again. -/
def Runtime.settle : Runtime → World → World
  | .blocking, w => w.without .EINTR
  | .tokio, w => (w.without .EAGAIN).without .EINTR

/-- The answer makes the runtime repeat the call. -/
def Runtime.repeats {β : Type} (rt : Runtime) (answer : Except OsError β) : Bool :=
  failsWith .EINTR answer || (rt = .tokio && failsWith .EAGAIN answer)

section Settled

variable (rt : Runtime) (w : World)

theorem settle_recvs : (rt.settle w).recvs = w.recvs.filter (!rt.repeats ·) := by
  cases rt with
  | blocking =>
      apply List.filter_congr
      simp [Runtime.repeats]
  | tokio =>
      simp only [Runtime.settle, World.without, List.filter_filter]
      apply List.filter_congr
      simp [Runtime.repeats]

theorem settle_fds : (rt.settle w).fds = w.fds := by
  cases rt <;> rfl

theorem settle_iov : (rt.settle w).iov = w.iov := by
  cases rt <;> rfl

theorem settle_rlimit : (rt.settle w).rlimit = w.rlimit := by
  cases rt <;> rfl

theorem settle_flags : (rt.settle w).flags = w.flags := by
  cases rt <;> rfl

theorem settle_fcntls : (rt.settle w).fcntls = w.fcntls := by
  cases rt <;> rfl

/-- The `fcntl` calls to come never block, as far as the runtime would notice. -/
def World.CalmFor (w : World) (rt : Runtime) : Prop :=
  rt = .tokio → some .EAGAIN ∉ w.fcntls

/-- Under either runtime, an operation ends as its closure does in the settled world. -/
theorem settled_io {α : Type} {m : Sys α} (hinterrupts : Uninterrupted m)
    (hblocks : ∀ start, Pollable start m) {w : World} (hcalm : w.CalmFor rt) :
    m.run (rt.settle w) = (((rt.io m).run w).1, rt.settle ((rt.io m).run w).2) := by
  cases rt with
  | blocking => exact hinterrupts.run_map w trivial
  | tokio =>
      have hone : Refines (Calm w) (World.without .EAGAIN) (Runtime.tokio.io m) m :=
        (hblocks w).io
      exact (hone.trans hinterrupts fun _ _ => trivial).run_map w ⟨hcalm rfl, rfl, rfl⟩

end Settled

/-! ## Deliveries -/

/-- The delivery of an answered call. -/
def Attempt.delivery? : Attempt → Option Delivery
  | .recvmsg _ (.ok d) => some d
  | _ => none

/-- What the kernel has delivered so far. -/
def World.deliveries (w : World) : List Delivery := w.trace.filterMap (·.delivery?)

theorem deliveries_without (e : OsError) (w : World) :
    (w.without e).deliveries = w.deliveries := by
  simp only [World.deliveries, World.without, List.filterMap_filter]
  apply List.filterMap_congr
  intro a _
  cases a with
  | sendmsg call answer => simp [Attempt.delivery?]
  | recvmsg call answer => cases answer <;> simp [Attempt.delivery?, Attempt.failed]

theorem deliveries_settle (rt : Runtime) (w : World) :
    (rt.settle w).deliveries = w.deliveries := by
  cases rt with
  | blocking => exact deliveries_without _ w
  | tokio => exact (deliveries_without _ _).trans (deliveries_without _ w)

/-- The delivery of a call that succeeded. -/
def deliveryOf : Outcome IoError Panic Syscall Delivery → List Delivery
  | .ok d => [d]
  | _ => []

/-- The loop around `recvmsg` records a delivery exactly when it returns one. -/
theorem awaitRecv_deliveries {t : Target} (control : Nat) (peek : Bool) (w : World) :
    ((awaitRecv t control peek).run w).2.deliveries =
      w.deliveries ++ deliveryOf ((awaitRecv t control peek).run w).1 := by
  have hloop : ∀ (call : RecvCall) (answers : List (Except OsError Delivery)) (w : World),
      (call.toCall.loop answers w).2.deliveries =
        w.deliveries ++ deliveryOf (call.toCall.loop answers w).1 := by
    intro call answers
    induction answers with
    | nil => simp [Call.loop, deliveryOf]
    | cons a rest ih =>
        intro w
        cases a with
        | ok d =>
            simp [Call.loop, RecvCall.toCall, World.deliveries, Attempt.delivery?,
              deliveryOf]
        | error e =>
            rw [Call.loop]
            split
            · simp [RecvCall.toCall, World.deliveries, Attempt.delivery?, deliveryOf]
            · rw [ih]
              simp [RecvCall.toCall, World.deliveries, Attempt.delivery?]
  exact hloop _ _ _

theorem awaitRecv_flags (t : Target) (control : Nat) (peek : Bool) (w : World) :
    ((awaitRecv t control peek).run w).2.flags = w.flags := by
  obtain ⟨recvs, trace, hworld⟩ := awaitRecv_world (t := t) control peek w
  rw [hworld]

/-! ## One receive -/

/-- The descriptors that a receive returns. -/
def coreFds : Outcome IoError Panic Syscall (Nat × List RawFd × Nat) → List RawFd
  | .ok (_, fds, _) => fds
  | _ => []

section Core

variable {t : Target} {kind : SocketKind} {mode : CountMode}

/-- The policy returns the first descriptors of a batch and closes the others. -/
theorem applyPolicy_splits (result : RecvMsgResult) (fds : List RawFd) (w : World) :
    let r := (applyPolicy kind mode result fds).run w
    ∃ lost, fds = coreFds r.1 ++ lost ∧ r.2 = w.close lost := by
  intro r
  by_cases hrej : Rejected kind mode result fds.length
  · have hr : r = _ := applyPolicy_rejected w hrej
    rw [hr]
    exact ⟨fds, rfl, rfl⟩
  · cases mode with
    | upTo n =>
        have hr : r = _ := applyPolicy_keeps w hrej
        rw [hr]
        exact ⟨fds.drop n, (List.take_append_drop n fds).symm, rfl⟩
    | exact n =>
        have hr : r = _ := applyPolicy_exact w hrej
        rw [hr]
        exact ⟨[], (List.append_nil fds).symm, rfl⟩

/-- A receive that the kernel did not answer with a delivery does nothing. -/
structure Undelivered (w : World)
    (r : Outcome IoError Panic Syscall (Nat × List RawFd × Nat) × World) : Prop where
  not_ok : ∀ a, r.1 ≠ .ok a
  fds : r.2.fds = w.fds
  deliveries : r.2.deliveries = w.deliveries
  flags : r.2.flags = w.flags

/-- A receive between `w` and `w'` that owned the delivery `d`: it closed the pidfds and the
descriptors `lost`, and those that it kept are close-on-exec. -/
structure Owned (t : Target) (d : Delivery) (kept lost : List RawFd) (w w' : World) : Prop where
  deliveries : w'.deliveries = w.deliveries ++ [d]
  rights : d.rights t = kept ++ lost
  fds : w'.fds = ((w.fds.openAll d.installed).closeAll (d.pidfds t)).closeAll lost
  others : ∀ fd ∉ d.installed, fd ∉ d.rights t → w'.flags fd = w.flags fd
  cloexec : ∀ fd ∈ kept, fd ∈ d.installed → CloseOnExec w'.flags fd

theorem Undelivered.coreFds {w : World}
    {r : Outcome IoError Panic Syscall (Nat × List RawFd × Nat) × World} (h : Undelivered w r) :
    UnixAncillary.coreFds r.1 = [] := by
  obtain ⟨o, w'⟩ := r
  cases o with
  | ok a => exact absurd rfl (h.not_ok a)
  | err e => rfl
  | panic p => rfl
  | pending c => rfl

/-- The system call of a receive decides whether there is a delivery. -/
theorem recvCore_undelivered_or (kind : SocketKind) (mode : CountMode) (w : World) :
    Undelivered w ((recvCore t kind mode).run w) ∨ ∃ capacity d w₁,
      controlSizeAt t mode w.rlimit = .ok capacity ∧
      (awaitRecv t capacity false).run w = (.ok d, w₁) := by
  have hsizing := run_recvControlSize t mode w
  have hnone : ∀ o : Outcome IoError Panic Syscall (Nat × List RawFd × Nat), (∀ a, o ≠ .ok a) →
      Undelivered w (o, w) := fun o ho => ⟨ho, rfl, rfl, rfl⟩
  cases hsize : controlSizeAt t mode w.rlimit with
  | err e =>
      rw [hsize] at hsizing
      rw [recvCore, bind_err hsizing]
      exact .inl (hnone _ fun _ h => by cases h)
  | panic p =>
      rw [hsize] at hsizing
      rw [recvCore, bind_panic hsizing]
      exact .inl (hnone _ fun _ h => by cases h)
  | pending c =>
      rw [hsize] at hsizing
      rw [recvCore, bind_pending hsizing]
      exact .inl (hnone _ fun _ h => by cases h)
  | ok capacity =>
      rw [hsize] at hsizing
      have hbuf : (List.replicate capacity (0 : UInt8)).length = capacity := List.length_replicate
      have hfds := awaitRecv_fds (t := t) capacity false w
      have hdeliveries := awaitRecv_deliveries (t := t) capacity false w
      have hflags := awaitRecv_flags t capacity false w
      cases hrecv : (awaitRecv t capacity false).run w with
      | mk o w₁ =>
          rw [hrecv] at hfds hdeliveries hflags
          have hrecv' := hrecv
          rw [← hbuf] at hrecv'
          cases o with
          | ok d => exact .inr ⟨capacity, d, w₁, rfl, hrecv⟩
          | err e =>
              rw [recvCore, bind_ok hsizing, withControl, bind_err (run_recvFds_err hrecv')]
              exact .inl ⟨fun _ h => (by cases h), hfds, by simpa [deliveryOf] using hdeliveries,
                hflags⟩
          | panic p => exact absurd (congrArg Prod.fst hrecv) (awaitRecv_ne_panic _ _ _ p)
          | pending c =>
              rw [recvCore, bind_ok hsizing, withControl,
                bind_pending (run_recvFds_pending hrecv')]
              exact .inl ⟨fun _ h => (by cases h), hfds, by simpa [deliveryOf] using hdeliveries,
                hflags⟩

/-- Close-on-exec after a delivery: the kernel or the pass sets it for every descriptor that
is kept. -/
theorem cloexec_owned (d : Delivery) (w : World) :
    let r := (cloexecFds t (d.rights t)).run (w.own t d)
    (∀ fd ∉ d.installed, fd ∉ d.rights t → r.2.flags fd = w.flags fd) ∧
    (r.1 = .ok () → ∀ fd ∈ d.rights t, fd ∈ d.installed → CloseOnExec r.2.flags fd) := by
  intro r
  by_cases hfallback : t.cloexecFallback = true
  · have hr : r = (setCloexecAll (d.rights t)).run (w.own t d) := by
      rw [show r = (cloexecFds t (d.rights t)).run (w.own t d) from rfl, cloexecFds,
        if_pos hfallback]
    have hown : (w.own t d).flags = w.flags := by
      simp [World.own, World.deliver, World.close, recvCmsgCloexec, hfallback]
    obtain ⟨hothers, -, hall⟩ := setCloexecAll_flags (d.rights t) (w.own t d)
    rw [hr]
    exact ⟨fun fd _ hnot => (hothers fd hnot).trans (congrFun hown fd),
      fun hok fd hmem _ => hall hok fd hmem⟩
  · have hr : r = (.ok (), w.own t d) := by
      rw [show r = (cloexecFds t (d.rights t)).run (w.own t d) from rfl, cloexecFds,
        if_neg hfallback]
      rfl
    rw [hr]
    refine ⟨fun fd hnot _ => ?_, fun _ fd _ hmem => ?_⟩
    · simp [World.own, World.deliver, World.close, hnot]
    · simp [CloseOnExec, World.own, World.deliver, World.close, recvCmsgCloexec, hfallback, hmem,
        closeOnExec_or]

/-- A receive owns at most one delivery, closes its pidfds, and returns the first of its
descriptors and closes the others. -/
theorem recvCore_splits (kind : SocketKind) (mode : CountMode) (w : World) :
    let r := (recvCore t kind mode).run w
    Undelivered w r ∨ ∃ d lost, Owned t d (coreFds r.1) lost w r.2 := by
  intro r
  rcases recvCore_undelivered_or kind mode w with h | ⟨capacity, d, w₁, hsize, hrecv⟩
  · exact .inl h
  have hdeliveries := awaitRecv_deliveries (t := t) capacity false w
  rw [hrecv] at hdeliveries
  obtain ⟨-, recvs, trace, rfl⟩ := awaitRecv_ok hrecv
  have hr : r = _ := recvCore_delivery kind hsize hrecv
  obtain ⟨hothers, hmarked⟩ := cloexec_owned (t := t) d { w with recvs := recvs, trace := trace }
  obtain ⟨fcntls, flags, hok | ⟨e, -, herr⟩⟩ := cloexecFds_run t (d.rights t)
    (({ w with recvs := recvs, trace := trace } : World).own t d)
  · rw [hok] at hothers hmarked
    simp only [onError, hok, andThen] at hr
    obtain ⟨lost, hsplit, hclose⟩ := @applyPolicy_splits kind mode d.result
      (d.rights t) { ({ w with recvs := recvs, trace := trace } : World).own t d with
        fcntls := fcntls, flags := flags }
    rw [hr]
    refine .inr ⟨d, lost, ?_, hsplit, ?_, ?_, fun fd hkept hmem => ?_⟩
    · rw [hclose]
      exact hdeliveries
    · rw [hclose]
      rfl
    · rw [hclose]
      exact hothers
    · rw [hclose]
      refine hmarked rfl fd ?_ hmem
      rw [hsplit]
      exact List.mem_append_left _ hkept
  · rw [herr] at hothers
    simp only [onError, herr, andThen] at hr
    rw [hr]
    exact .inr ⟨d, d.rights t, hdeliveries, rfl, rfl, hothers, fun fd h => by cases h⟩

end Core

/-! ## The receives of the crate -/

/-- What a receive hands to its caller: the bytes, in a buffer of the crate or of the
caller, and the descriptors. -/
structure Handed where
  bytes : Bytes
  fds : List RawFd
  deriving DecidableEq

/-- A receive that moves its own buffer out. -/
def handOver (m : Sys ReceivedFds) : Sys Handed := do
  let received ← m
  pure ⟨received.data, received.fds⟩

/-- A receive that fills the buffers of the caller. -/
def fillIn (m : Sys (Nat × List RawFd)) : Sys Handed := do
  let (bytesRead, fds) ← m
  let bytes ← read (·.iov.flatten.take bytesRead)
  pure ⟨bytes, fds⟩

/-- The convenience receives on stream, datagram and seqpacket sockets. -/
inductive Reception where
  | streamFds (n : Nat)
  | streamFdsInto (n : Nat) (dataBuf : Bytes)
  | streamFdsExact (n : Nat)
  | streamFdsExactInto (n : Nat) (dataBuf : Bytes)
  | streamFdsVectored (n : Nat) (iov : List Bytes)
  | datagramFds (n : Nat)
  | datagramFdsInto (n : Nat) (dataBuf : Bytes)
  | datagramFdsExact (n : Nat)
  | datagramFdsExactInto (n : Nat) (dataBuf : Bytes)
  | datagramFdsVectored (n : Nat) (iov : List Bytes)
  | seqpacketFds (n : Nat)
  | seqpacketFdsInto (n : Nat) (dataBuf : Bytes)
  | seqpacketFdsExactInto (n : Nat) (dataBuf : Bytes)

namespace Reception

def run (t : Target) (rt : Runtime) : Reception → Sys Handed
  | streamFds n => handOver (UnixStreamExt.recvFds t rt n)
  | streamFdsInto n dataBuf => fillIn (UnixStreamExt.recvFdsInto t rt n dataBuf)
  | streamFdsExact n => handOver (UnixStreamExt.recvFdsExact t rt n)
  | streamFdsExactInto n dataBuf => fillIn (UnixStreamExt.recvFdsExactInto t rt n dataBuf)
  | streamFdsVectored n iov => fillIn (UnixStreamExt.recvFdsVectored t rt n iov)
  | datagramFds n => handOver (UnixDatagramExt.recvFds t rt n)
  | datagramFdsInto n dataBuf => fillIn (UnixDatagramExt.recvFdsInto t rt n dataBuf)
  | datagramFdsExact n => handOver (UnixDatagramExt.recvFdsExact t rt n)
  | datagramFdsExactInto n dataBuf => fillIn (UnixDatagramExt.recvFdsExactInto t rt n dataBuf)
  | datagramFdsVectored n iov => fillIn (UnixDatagramExt.recvFdsVectored t n iov)
  | seqpacketFds n => handOver (Seqpacket.recvFds t n)
  | seqpacketFdsInto n dataBuf => fillIn (Seqpacket.recvFdsInto t rt n dataBuf)
  | seqpacketFdsExactInto n dataBuf => fillIn (Seqpacket.recvFdsExactInto t rt n dataBuf)

def kind : Reception → SocketKind
  | streamFds _ | streamFdsInto _ _ | streamFdsExact _ | streamFdsExactInto _ _
  | streamFdsVectored _ _ => .stream
  | _ => .datagram

def mode : Reception → CountMode
  | streamFds n | streamFdsInto n _ | streamFdsVectored n _ => .upTo n
  | streamFdsExact n | streamFdsExactInto n _ => .exact n
  | datagramFds n | datagramFdsInto n _ | datagramFdsVectored n _ => .upTo n
  | datagramFdsExact n | datagramFdsExactInto n _ => .exact n
  | seqpacketFds n | seqpacketFdsInto n _ => .upTo n
  | seqpacketFdsExactInto n _ => .exact n

/-- The buffers that the payload is received into. -/
def bufs : Reception → List Bytes
  | streamFds _ | streamFdsExact _ => [zeroed DEFAULT_STREAM_BUF]
  | datagramFds _ | datagramFdsExact _ => [zeroed DEFAULT_DATAGRAM_BUF]
  | seqpacketFds _ => [zeroed Seqpacket.DEFAULT_BUF]
  | streamFdsInto _ dataBuf | streamFdsExactInto _ dataBuf | datagramFdsInto _ dataBuf
  | datagramFdsExactInto _ dataBuf | seqpacketFdsInto _ dataBuf
  | seqpacketFdsExactInto _ dataBuf => [dataBuf]
  | streamFdsVectored _ iov | datagramFdsVectored _ iov => iov

/-- The receives that the crate has for blocking sockets only block under any runtime. -/
def runtime (rt : Runtime) : Reception → Runtime
  | datagramFdsVectored _ _ | seqpacketFds _ => .blocking
  | _ => rt

end Reception

section Runs

variable {t : Target} {w : World}

/-- What a receive makes of the end of `recv_core`. -/
def handed (r : Outcome IoError Panic Syscall (Nat × List RawFd × Nat) × World) :
    Outcome IoError Panic Syscall Handed :=
  r.1.map fun a => ⟨r.2.iov.flatten.take a.1, a.2.1⟩

/-- The run `r'` hands over what `recv_core` does in `r`. -/
structure HandsOver (r : Outcome IoError Panic Syscall (Nat × List RawFd × Nat) × World)
    (r' : Outcome IoError Panic Syscall Handed × World) : Prop where
  outcome : r'.1 = handed r
  fds : r'.2.fds = r.2.fds
  deliveries : r'.2.deliveries = r.2.deliveries
  flags : r'.2.flags = r.2.flags

theorem handsOver_owned (w : World) (rt : Runtime) (kind : SocketKind) (mode : CountMode)
    (hcalm : w.CalmFor rt) : HandsOver ((recvCore t kind mode).run (rt.settle w))
      ((handOver (rt.io (recvOwnedImpl t kind mode))).run w) := by
  have hio := settled_io rt (uninterrupted_recvOwnedImpl t kind mode)
    (fun start => pollable_recvOwnedImpl t start kind mode) hcalm
  rw [handOver, run_bind]
  generalize (rt.io (recvOwnedImpl t kind mode)).run w = r' at hio ⊢
  rw [recvOwnedImpl, run_bind] at hio
  generalize (recvCore t kind mode).run (rt.settle w) = r at hio ⊢
  obtain ⟨o, w₁⟩ := r
  obtain ⟨o', w'⟩ := r'
  have hfds := settle_fds rt w'
  have hdeliveries := deliveries_settle rt w'
  have hflags := settle_flags rt w'
  cases o <;>
    · obtain ⟨rfl, hw⟩ := Prod.mk.inj hio
      rw [← hw] at hfds hdeliveries hflags
      exact ⟨rfl, hfds.symm, hdeliveries.symm, hflags.symm⟩

theorem handsOver_filled (w : World) (rt : Runtime) (kind : SocketKind) (mode : CountMode)
    (hcalm : w.CalmFor rt) : HandsOver ((recvCore t kind mode).run (rt.settle w))
      ((fillIn (rt.io (recvFdsIntoVectoredImpl t kind mode))).run w) := by
  have hio := settled_io rt (uninterrupted_recvFdsIntoVectoredImpl t kind mode)
    (fun start => pollable_recvFdsIntoVectoredImpl t start kind mode) hcalm
  rw [fillIn, run_bind]
  generalize (rt.io (recvFdsIntoVectoredImpl t kind mode)).run w = r' at hio ⊢
  rw [recvFdsIntoVectoredImpl, run_bind] at hio
  generalize (recvCore t kind mode).run (rt.settle w) = r at hio ⊢
  obtain ⟨o, w₁⟩ := r
  obtain ⟨o', w'⟩ := r'
  have hfds := settle_fds rt w'
  have hiov := settle_iov rt w'
  have hdeliveries := deliveries_settle rt w'
  have hflags := settle_flags rt w'
  cases o <;>
    · obtain ⟨rfl, hw⟩ := Prod.mk.inj hio
      rw [← hw] at hfds hiov hdeliveries hflags
      refine ⟨?_, hfds.symm, hdeliveries.symm, hflags.symm⟩
      first
        | rfl
        | exact congrArg (fun iov : List Bytes => Outcome.ok (Handed.mk (iov.flatten.take _) _))
            hiov.symm

/-- Every receive of the crate hands over what one run of `recv_core` does in the settled
world, with its own buffers. -/
theorem Reception.run_settled (op : Reception) (rt : Runtime) (hcalm : w.CalmFor rt) :
    HandsOver ((recvCore t op.kind op.mode).run
        ((op.runtime rt).settle { w with iov := op.bufs }))
      ((op.run t rt).run w) := by
  have hblocking : w.CalmFor .blocking := fun h => by cases h
  cases op with
  | streamFds n => exact handsOver_owned { w with iov := _ } rt _ _ hcalm
  | streamFdsInto n dataBuf => exact handsOver_filled { w with iov := _ } rt _ _ hcalm
  | streamFdsExact n => exact handsOver_owned { w with iov := _ } rt _ _ hcalm
  | streamFdsExactInto n dataBuf => exact handsOver_filled { w with iov := _ } rt _ _ hcalm
  | streamFdsVectored n iov => exact handsOver_filled { w with iov := _ } rt _ _ hcalm
  | datagramFds n => exact handsOver_owned { w with iov := _ } rt _ _ hcalm
  | datagramFdsInto n dataBuf => exact handsOver_filled { w with iov := _ } rt _ _ hcalm
  | datagramFdsExact n => exact handsOver_owned { w with iov := _ } rt _ _ hcalm
  | datagramFdsExactInto n dataBuf => exact handsOver_filled { w with iov := _ } rt _ _ hcalm
  | datagramFdsVectored n iov =>
      exact handsOver_filled { w with iov := _ } .blocking _ _ hblocking
  | seqpacketFds n => exact handsOver_owned { w with iov := _ } .blocking _ _ hblocking
  | seqpacketFdsInto n dataBuf => exact handsOver_filled { w with iov := _ } rt _ _ hcalm
  | seqpacketFdsExactInto n dataBuf => exact handsOver_filled { w with iov := _ } rt _ _ hcalm

end Runs

end UnixAncillary
