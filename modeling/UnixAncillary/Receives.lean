import UnixAncillary.Capacity
import UnixAncillary.Lib.Marked
import UnixAncillary.Sockets

/-!
# One receive

A receive is left waiting only in its one `recvmsg` call, after interruptions.
`recvFdsIntoImpl_delivers` is what it does with a delivery of a stream kernel: the bytes are
in the buffer, and every descriptor is either returned or closed.
-/

namespace UnixAncillary

open ByteCodec HandleTable Program Program.Prog Marked

variable {t : Target} {kind : SocketKind} {mode : CountMode} {w w₁ : World}

/-! ## Waiting -/

theorem controlSizeAt_ne_pending (mode : CountMode) (rlimit : Option Nat) (c : Syscall) :
    controlSizeAt t mode rlimit ≠ .pending c := by
  rw [controlSizeAt]
  intro h
  repeat' split at h
  all_goals cases h

theorem applyPolicy_ne_pending (result : RecvMsgResult) (fds : List RawFd) (c : Syscall) :
    ((applyPolicy kind mode result fds).run w).1 ≠ .pending c := by
  intro h
  by_cases hrej : Rejected kind mode result fds.length
  · rw [applyPolicy_rejected w hrej] at h
    cases h
  · cases mode with
    | upTo n =>
        rw [applyPolicy_upTo w hrej] at h
        cases h
    | exact n =>
        rw [applyPolicy_exact w hrej] at h
        cases h

/-- Without a delivery a receive ends as its system call does. -/
theorem recvCore_undelivered {capacity : Nat} (hsize : controlSizeAt t mode w.rlimit = .ok capacity)
    (h : ∀ d, ((awaitRecv t capacity false).run w).1 ≠ .ok d) (c : Syscall) :
    ((recvCore t kind mode).run w).1 = .pending c ↔
      ((awaitRecv t capacity false).run w).1 = .pending c := by
  have hbuf : (List.replicate capacity (0 : UInt8)).length = capacity := List.length_replicate
  have hrun : (recvCore t kind mode).run w =
      andThen (fun r => applyPolicy kind mode r.1 r.2)
        ((recvFds t (List.replicate capacity 0)).run w) :=
    bind_ok ((run_recvControlSize t mode w).trans (by rw [hsize]))
  rw [← hbuf] at h ⊢
  rw [hrun]
  cases hr : (awaitRecv t (List.replicate capacity (0 : UInt8)).length false).run w with
  | mk o w₁ =>
      cases o with
      | ok d => exact absurd (congrArg Prod.fst hr) (h d)
      | err e =>
          rw [run_recvFds_err hr]
          simp [andThen]
      | panic p => exact absurd (congrArg Prod.fst hr) (awaitRecv_ne_panic _ _ _ p)
      | pending c' =>
          rw [run_recvFds_pending hr]
          simp [andThen]

/-- A receive waits only in its system call, which its sizing decides. -/
theorem recvCore_pending {c : Syscall} (h : ((recvCore t kind mode).run w).1 = .pending c) :
    ∃ capacity, controlSizeAt t mode w.rlimit = .ok capacity ∧
      ((awaitRecv t capacity false).run w).1 = .pending c := by
  cases hsize : controlSizeAt t mode w.rlimit with
  | ok capacity =>
      refine ⟨capacity, rfl, (recvCore_undelivered hsize (fun d hd => ?_) c).mp h⟩
      rw [recvCore_delivery kind hsize (Prod.ext hd rfl)] at h
      obtain ⟨fcntls, flags, hok | ⟨e, -, herr⟩⟩ := cloexecFds_run t (d.rights t)
        (((awaitRecv t capacity false).run w).2.own t d)
      · simp only [onError, hok, andThen] at h
        exact absurd h (applyPolicy_ne_pending _ _ _)
      · simp only [onError, herr, andThen] at h
        cases h
  | err e =>
      rw [recvCore, bind_err ((run_recvControlSize t mode w).trans (by rw [hsize]))] at h
      cases h
  | panic p =>
      rw [recvCore, bind_panic ((run_recvControlSize t mode w).trans (by rw [hsize]))] at h
      cases h
  | pending c' => exact absurd hsize (controlSizeAt_ne_pending _ _ _)

/-! ## A delivery of a stream kernel -/

/-- What a stream kernel delivers to `call` when it takes `taken` from the head of the
stream, in which every byte carries the descriptors attached to it: the bytes, and one
fresh number for each descriptor, of one send at most. -/
structure Delivers (t : Target) (call : RecvCall) (taken : List (UInt8 × List RawFd))
    (d : Delivery) : Prop where
  data : d.data = items taken
  room : taken.length ≤ call.iov.sum
  single : (taken.filter fun p => !p.2.isEmpty).length ≤ 1
  installed : d.installed.length = (attachments taken).length
  nodup : d.installed.Nodup
  valid : ∀ fd ∈ d.installed, 0 ≤ fd
  control : ∃ (place : CredentialsPlace) (msgs : List (KernelMessage t.layout)),
    (place ≠ .absent → t.hasCredentials = true) ∧
    msgs.map (·.message) = batchMessages t d.installed place ∧
    HonestDelivery (msgs.flatMap (·.bytes)) call.control d

section Delivered

variable {call : RecvCall} {taken : List (UInt8 × List RawFd)} {d : Delivery} {n : Nat}

/-- The delivery respects the buffers of the call. -/
theorem Delivers.clip_eq (h : Delivers t call taken d) : d.clip call = d := by
  obtain ⟨place, msgs, -, -, hkernel⟩ := h.control
  have hdata : d.data.take call.iov.sum = d.data := by
    rw [List.take_of_length_le]
    rw [h.data, items, List.length_map]
    exact h.room
  have hcontrol : d.control.take call.control = d.control := by
    rw [List.take_of_length_le]
    rw [hkernel.control_eq]
    exact List.length_take_le ..
  rw [Delivery.clip, hdata, hcontrol]

/-- A receive of any size reserves enough control space for one send. -/
theorem Delivers.whole {mode : CountMode} {rlimit : Option Nat} {capacity : Nat}
    (hmax : max mode.count (maxRecvFdsAt t rlimit) * 4 ≤ i32Max)
    (hsize : controlSizeAt t mode rlimit = .ok capacity) (hcall : call.control = capacity)
    (hcount : (attachments taken).length ≤ HARD_FLOOR) (h : Delivers t call taken d) :
    d.ctrunc = false ∧ d.rights t = d.installed ∧ d.pidfds t = [] := by
  obtain ⟨place, msgs, hplace, hmsgs, hkernel⟩ := h.control
  have hbudget := (maxRecvFdsAt_mem t rlimit).1
  have hinstalled := h.installed
  have hfits : (msgs.flatMap (·.bytes)).length ≤ call.control := by
    rw [length_flatMap_bytes, hmsgs, hcall, controlSizeAt_ok t hmax hsize]
    exact space_batchMessages_le hplace (by omega) hmax
  obtain ⟨hctrunc, -, hrights, hpidfds⟩ := hkernel.whole h.valid hmsgs hfits
  exact ⟨hctrunc, hrights, hpidfds⟩

/-- The numbers that a run passed to close, given those closed before it. -/
def closedSince (w w' : World) : List RawFd :=
  w'.fds.closeCalls.drop w.fds.closeCalls.length

/-- The error of a receive that got its delivery: that of a failing `fcntl` call. -/
def Target.CloexecFails (t : Target) (fcntls : List (Option OsError)) (e : IoError) : Prop :=
  t.cloexecFallback = true ∧ ∃ error, some error ∈ fcntls ∧ e = .os error

/-- What a receive of a stream delivery ends with: the first `n` descriptors are returned
and the others closed, or an `fcntl` call failed and all are closed. -/
def Received (t : Target) (fcntls : List (Option OsError)) (n : Nat) (d : Delivery)
    (closed : List RawFd) : Outcome IoError Panic Syscall (Nat × List RawFd) → Prop
  | .ok (count, fds) => count = d.data.length ∧ fds = d.installed.take n ∧
      closed = d.installed.drop n
  | .err e => t.CloexecFails fcntls e ∧ closed = d.installed
  | _ => False

/-- A stream delivery is in the buffers, and its descriptors are returned or closed. -/
theorem recvFdsIntoImpl_delivers (hn : 4 * n ≤ i32Max) {capacity : Nat}
    (hsize : controlSizeAt t (.upTo n) w.rlimit = .ok capacity)
    (hcount : (attachments taken).length ≤ HARD_FLOOR)
    (hdelivers : Delivers t (recvCall t capacity false w) taken d)
    (hrecv : (awaitRecv t capacity false).run w = (.ok d, w₁)) :
    let r := (recvFdsIntoImpl t .stream (.upTo n)).run w
    r.2.iov = scatter d.data w.iov ∧ Received t w.fcntls n d (closedSince w r.2) r.1 := by
  intro r
  have hmax : max (CountMode.upTo n).count (maxRecvFdsAt t w.rlimit) * 4 ≤ i32Max :=
    max_budget_le hn w.rlimit
  obtain ⟨hctrunc, hrights, hpidfds⟩ := hdelivers.whole hmax hsize
    (recvCall_control t hsize false w) hcount
  obtain ⟨-, recvs, trace, rfl⟩ := awaitRecv_ok hrecv
  have hcore := recvCore_delivery .stream hsize hrecv
  have hnot : ¬ Rejected .stream (.upTo n) d.result (d.rights t).length := by
    rintro (h | ⟨h, -⟩ | ⟨m, h, -⟩)
    · rw [show d.result.ancillaryTruncated = d.ctrunc from rfl, hctrunc] at h
      cases h
    · cases h
    · cases h
  rw [hrights] at hcore hnot
  have hr : r = andThen (fun r => pure (r.1, r.2.1)) ((recvCore t .stream (.upTo n)).run w) := rfl
  obtain ⟨fcntls, flags, hok | ⟨e, ⟨hfallback, hmem⟩, herr⟩⟩ := cloexecFds_run t d.installed
    (({ w with recvs := recvs, trace := trace } : World).own t d)
  · simp only [hcore, onError, hok, andThen, applyPolicy_keeps _ hnot] at hr
    rw [hr]
    simp [Received, closedSince, World.own, World.deliver, hpidfds, World.close, Delivery.result]
  · simp only [hcore, onError, herr, andThen] at hr
    rw [hr]
    refine ⟨by simp [World.own, World.deliver, hpidfds, World.close], ⟨hfallback, e, hmem, rfl⟩, ?_⟩
    simp [closedSince, World.own, World.deliver, hpidfds, World.close]

end Delivered

end UnixAncillary
