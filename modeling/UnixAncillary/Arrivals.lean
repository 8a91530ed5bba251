import UnixAncillary.Handoff
import UnixAncillary.Receptions
import UnixAncillary.Vectored

/-!
# One receive of any kind

A convenience receive on a stream, datagram or seqpacket socket, blocking or under tokio,
that the kernel answers: `Fetching.finish_whole` says that it hands over the payload with the
descriptors that its policy keeps, or fails and closes every descriptor.
-/

namespace UnixAncillary

open ByteCodec HandleTable Program Program.Prog Marked

/-! ## A running receive -/

/-- A running receive: the world in which it was called and the answers that it got. -/
structure Fetching where
  op : Reception
  rt : Runtime
  world : World
  answers : List (Except OsError Delivery)

namespace Fetching

/-- The receive as far as its answers go. -/
def run (t : Target) (c : Fetching) : Outcome IoError Panic Syscall Handed × World :=
  (c.op.run t c.rt).run { c.world with recvs := c.answers }

def answer (c : Fetching) (a : Except OsError Delivery) : Fetching :=
  { c with answers := c.answers ++ [a] }

/-- A receive of an admissible number from a socket of that kind, whose header names all of
its buffers. -/
structure Valid (t : Target) (kind : SocketKind) (c : Fetching) : Prop where
  kind : c.op.kind = kind
  count : 4 * c.op.mode.count ≤ i32Max
  names : t.Names c.op.bufs
  calm : c.world.CalmFor c.rt

end Fetching

/-- What the kernel delivers to `call`: what fits of the payload, and one fresh number for
each descriptor, in one rights message next to credentials. On a stream, `m` is what the
kernel takes, and it takes no more than fits. -/
structure Conveys (t : Target) (kind : SocketKind) (call : RecvCall) (m : Message)
    (d : Delivery) : Prop where
  data : d.data = m.payload.take call.iov.sum
  room : kind = .stream → m.payload.length ≤ call.iov.sum
  trunc : kind = .datagram → d.trunc = decide (call.iov.sum < m.payload.length)
  installed : d.installed.length = m.fds.length
  nodup : d.installed.Nodup
  valid : ∀ fd ∈ d.installed, 0 ≤ fd
  control : ∃ (place : CredentialsPlace) (msgs : List (KernelMessage t.layout)),
    (place ≠ .absent → t.hasCredentials = true) ∧
    msgs.map (·.message) = batchMessages t d.installed place ∧
    HonestDelivery (msgs.flatMap (·.bytes)) call.control d

/-- A completed receive: what it took, the numbers that the kernel installed for the
descriptors, the answers of the `fcntl` calls, its result and the numbers closed. -/
structure Receipt where
  op : Reception
  message : Message
  installed : List RawFd
  fcntls : List (Option OsError)
  result : Outcome IoError Panic Syscall Handed
  closed : List RawFd

/-- The policy returns a batch of `k` descriptors. -/
def CountMode.Admits (k : Nat) : CountMode → Prop
  | upTo _ => True
  | exact n => k = n

namespace Receipt

/-- The numbers that the caller gets. -/
def returned (r : Receipt) : List RawFd :=
  match r.result with
  | .ok handed => handed.fds
  | _ => []

/-- The sent descriptors that the receive returned or closed, in that order. -/
def files (r : Receipt) : List RawFd :=
  (r.returned ++ r.closed).filterMap fun fd => (r.installed.zip r.message.fds).lookup fd

/-- What was taken fits the buffers and the policy. -/
def Fits (r : Receipt) : Prop :=
  r.message.payload.length ≤ r.op.bufs.flatten.length ∧ r.op.mode.Admits r.message.fds.length

/-- How a receive ends: with the whole payload and the first descriptors, or with an error
that closes all of them, its own or that of an `fcntl` call. -/
def Ended (t : Target) (r : Receipt) : Prop :=
  match r.result with
  | .ok handed => r.Fits ∧ handed.bytes = r.message.payload ∧
      handed.fds = r.installed.take r.op.mode.count ∧ r.closed = r.installed.drop r.op.mode.count
  | .err e => r.closed = r.installed ∧
      (e.kind = .invalidData ∧ ¬ r.Fits ∨ t.CloexecFails r.fcntls e)
  | _ => False

/-- A receive is accounted for: it ends in one of the two ways, and every descriptor is
returned or closed. -/
structure Whole (t : Target) (r : Receipt) : Prop where
  ended : r.Ended t
  installed : r.returned ++ r.closed = r.installed
  files : r.files = r.message.fds

end Receipt

/-- The receive `c` after the kernel has answered it with `d`. -/
def Fetching.finish (t : Target) (c : Fetching) (m : Message) (d : Delivery) : Receipt :=
  let r := Fetching.run t (c.answer (.ok d))
  ⟨c.op, m, d.installed, c.world.fcntls, r.1, closedSince c.world r.2⟩

section Receives

variable {t : Target} {kind : SocketKind} {c : Fetching} {call : RecvCall} {m : Message}
  {d : Delivery}

/-- The delivery respects the buffers of the call. -/
theorem Conveys.clip_eq (h : Conveys t kind call m d) : d.clip call = d := by
  obtain ⟨place, msgs, -, -, hkernel⟩ := h.control
  have hdata : d.data.take call.iov.sum = d.data := by
    rw [h.data, List.take_take, Nat.min_self]
  have hcontrol : d.control.take call.control = d.control := by
    rw [hkernel.control_eq, List.take_take, Nat.min_self]
  rw [Delivery.clip, hdata, hcontrol]

/-- A receive of any size reserves enough control space for what is delivered. -/
theorem Conveys.whole {mode : CountMode} {rlimit : Option Nat} {capacity : Nat}
    (hmode : 4 * mode.count ≤ i32Max) (hsize : controlSizeAt t mode rlimit = .ok capacity)
    (hcall : call.control = capacity) (hcount : m.fds.length ≤ HARD_FLOOR)
    (h : Conveys t kind call m d) :
    d.ctrunc = false ∧ d.rights t = d.installed ∧ d.pidfds t = [] := by
  obtain ⟨place, msgs, hplace, hmsgs, hkernel⟩ := h.control
  have hmax := max_budget_le (t := t) hmode rlimit
  have hbudget := (maxRecvFdsAt_mem t rlimit).1
  have hinstalled := h.installed
  have hfits : (msgs.flatMap (·.bytes)).length ≤ call.control := by
    rw [length_flatMap_bytes, hmsgs, hcall, controlSizeAt_ok t hmax hsize]
    exact space_batchMessages_le hplace (by omega) hmax
  obtain ⟨hctrunc, -, hrights, hpidfds⟩ := hkernel.whole h.valid hmsgs hfits
  exact ⟨hctrunc, hrights, hpidfds⟩

/-- A receive rejects a delivery where what was taken does not fit. -/
theorem Conveys.rejected_iff (h : Conveys t kind call m d) (hctrunc : d.ctrunc = false)
    (mode : CountMode) : Rejected kind mode d.result d.installed.length ↔
      ¬ (m.payload.length ≤ call.iov.sum ∧ mode.Admits m.fds.length) := by
  have htrunc : kind = .datagram ∧ d.result.dataTruncated = true ↔
      ¬ m.payload.length ≤ call.iov.sum := by
    cases hkind : kind with
    | stream => simpa using h.room hkind
    | datagram =>
        rw [Nat.not_le, Delivery.result, h.trunc hkind, decide_eq_true_iff]
        exact and_iff_right rfl
  have hadmits : (∃ n, mode = .exact n ∧ d.installed.length ≠ n) ↔
      ¬ mode.Admits m.fds.length := by
    rw [h.installed]
    cases mode <;> simp [CountMode.Admits]
  rw [Rejected, htrunc, hadmits, not_and_or]
  exact or_iff_right (by simp [Delivery.result, hctrunc])

/-- A waiting receive has met answers that are repeated at most, and waits in its system
call. -/
theorem Fetching.run_pending (hvalid : c.Valid t kind)
    (h : (c.run t).1 = .pending (.recvmsg call)) :
    ∃ capacity, controlSizeAt t c.op.mode c.world.rlimit = .ok capacity ∧
      call = recvCall t capacity false { c.world with iov := c.op.bufs } ∧
      ∀ a ∈ c.answers, (c.op.runtime c.rt).repeats a = true := by
  let w : World := { c.world with recvs := c.answers, iov := c.op.bufs }
  have hhands : HandsOver ((recvCore t c.op.kind c.op.mode).run ((c.op.runtime c.rt).settle w))
      (c.run t) := Reception.run_settled (w := { c.world with recvs := c.answers }) c.op c.rt
        hvalid.calm
  have hcore : ((recvCore t c.op.kind c.op.mode).run ((c.op.runtime c.rt).settle w)).1 =
      .pending (.recvmsg call) := by
    have houtcome := hhands.outcome.symm.trans h
    rw [handed] at houtcome
    generalize ((recvCore t c.op.kind c.op.mode).run ((c.op.runtime c.rt).settle w)).1 = o
      at houtcome
    cases o with
    | ok a => cases houtcome
    | err e => cases houtcome
    | panic p => cases houtcome
    | pending call' =>
        cases houtcome
        rfl
  obtain ⟨capacity, hsize, hwait⟩ := recvCore_pending hcore
  obtain ⟨hcall, hanswers⟩ := Call.loop_pending hwait
  rw [settle_rlimit] at hsize
  refine ⟨capacity, hsize, ?_, fun a ha => ?_⟩
  · cases hcall
    rw [recvCall, settle_iov]
    rfl
  · by_contra hnot
    have hmem : a ∈ ((c.op.runtime c.rt).settle w).recvs := by
      rw [settle_recvs]
      exact List.mem_filter.mpr ⟨ha, by simpa using hnot⟩
    obtain rfl := hanswers a hmem
    exact hnot (by simp [Runtime.repeats])

/-- What a receive makes of a delivery: it keeps the first descriptors and closes the others,
or closes all of them. -/
theorem recvCore_conveyed {mode : CountMode} {w w₁ : World} {capacity : Nat}
    (hmode : 4 * mode.count ≤ i32Max) (hsize : controlSizeAt t mode w.rlimit = .ok capacity)
    (hnames : w.Named t) (hkernel : Conveys t kind (recvCall t capacity false w) m d)
    (hcount : m.fds.length ≤ HARD_FLOOR)
    (hrecv : (awaitRecv t capacity false).run w = (.ok d, w₁)) :
    let r := (recvCore t kind mode).run w
    let fits := m.payload.length ≤ w.iov.flatten.length ∧ mode.Admits m.fds.length
    (fits ∧ r.2.iov = scatter d.data w.iov ∧ closedSince w r.2 = d.installed.drop mode.count ∧
      ∃ surplus, r.1 = .ok (d.data.length, d.installed.take mode.count, surplus)) ∨
    closedSince w r.2 = d.installed ∧ ∃ e, r.1 = .err e ∧
      (e.kind = .invalidData ∧ ¬ fits ∨ t.CloexecFails w.fcntls e) := by
  intro r fits
  obtain ⟨hctrunc, hrights, hpidfds⟩ := hkernel.whole hmode hsize
    (recvCall_control t hsize false w) hcount
  obtain ⟨-, recvs, trace, rfl⟩ := awaitRecv_ok hrecv
  have hrej : Rejected kind mode d.result d.installed.length ↔ ¬ fits := by
    rw [hkernel.rejected_iff hctrunc, sum_recvCall_named hnames]
  have hr : r = _ := recvCore_delivery kind hsize hrecv
  rw [hrights] at hr
  obtain ⟨fcntls, flags, hok | ⟨e, ⟨hfallback, hmem⟩, herr⟩⟩ := cloexecFds_run t d.installed
    (({ w with recvs := recvs, trace := trace } : World).own t d)
  · simp only [onError, hok, andThen] at hr
    by_cases hfits : fits
    · have hkept : ¬ Rejected kind mode d.result d.installed.length := fun h => hrej.mp h hfits
      refine .inl ⟨hfits, ?_⟩
      cases mode with
      | upTo n =>
          rw [applyPolicy_keeps _ hkept] at hr
          rw [hr]
          refine ⟨rfl, ?_, _, rfl⟩
          simp [closedSince, World.own, World.deliver, hpidfds, World.close, CountMode.count]
      | exact n =>
          have hall : d.installed.length = n := hkernel.installed.trans hfits.2
          rw [applyPolicy_exact _ hkept] at hr
          rw [hr]
          refine ⟨rfl, ?_, 0, ?_⟩
          · simp [closedSince, World.own, World.deliver, hpidfds, World.close, CountMode.count,
              hall]
          · simp only [CountMode.count, ← hall, List.take_length]
            rfl
    · rw [applyPolicy_rejected _ (hrej.mpr hfits)] at hr
      rw [hr]
      refine .inr ⟨?_, _, rfl, .inl ⟨rejection_kind .., hfits⟩⟩
      simp [closedSince, World.own, World.deliver, hpidfds, World.close]
  · simp only [onError, herr, andThen] at hr
    rw [hr]
    refine .inr ⟨?_, _, rfl, .inr ⟨hfallback, e, hmem, rfl⟩⟩
    simp [closedSince, World.own, World.deliver, hpidfds, World.close]

/-- The answer to a waiting receive reaches `recv_core`, and the receive hands over what that
makes of it. -/
theorem Fetching.run_answered (hvalid : c.Valid t kind)
    (hcall : (c.run t).1 = .pending (.recvmsg call)) (hkernel : Conveys t kind call m d) :
    ∃ (capacity : Nat) (s s₁ : World), s.iov = c.op.bufs ∧ s.fds = c.world.fds ∧
      s.fcntls = c.world.fcntls ∧ controlSizeAt t c.op.mode s.rlimit = .ok capacity ∧
      call = recvCall t capacity false s ∧
      (awaitRecv t capacity false).run s = (.ok d, s₁) ∧
      HandsOver ((recvCore t kind c.op.mode).run s) (Fetching.run t (c.answer (.ok d))) := by
  obtain ⟨capacity, hsize, rfl, hanswers⟩ := c.run_pending hvalid hcall
  let w : World := { c.world with recvs := c.answers ++ [.ok d], iov := c.op.bufs }
  let s : World := (c.op.runtime c.rt).settle w
  have hrecvs : s.recvs = [.ok d] := by
    have hnone : c.answers.filter (!(c.op.runtime c.rt).repeats ·) = [] :=
      List.filter_eq_nil_iff.mpr fun a ha => by simp [hanswers a ha]
    rw [settle_recvs, List.filter_append, hnone]
    simp [Runtime.repeats]
  have hiov : s.iov = c.op.bufs := settle_iov ..
  have hsame : recvCall t capacity false s = recvCall t capacity false { c.world with
      iov := c.op.bufs } := by
    rw [recvCall, hiov]
    rfl
  have hrecv : ((awaitRecv t capacity false).run s).1 = .ok d := by
    simp only [awaitRecv, hrecvs, hsame]
    exact congrArg _ hkernel.clip_eq
  have hhands : HandsOver ((recvCore t c.op.kind c.op.mode).run s)
      (Fetching.run t (c.answer (.ok d))) :=
    Reception.run_settled (w := { c.world with recvs := c.answers ++ [.ok d] }) c.op c.rt
      hvalid.calm
  rw [hvalid.kind] at hhands
  exact ⟨capacity, s, _, hiov, settle_fds .., settle_fcntls ..,
    (settle_rlimit ..).symm ▸ hsize, hsame.symm,
    Prod.ext hrecv rfl, hhands⟩

/-- A receive that the kernel answers is accounted for. -/
theorem Fetching.finish_whole (hvalid : c.Valid t kind)
    (hcall : (c.run t).1 = .pending (.recvmsg call)) (hkernel : Conveys t kind call m d)
    (hcount : m.fds.length ≤ HARD_FLOOR) : (c.finish t m d).Whole t := by
  obtain ⟨capacity, s, s₁, hiov, hfds, hfcntls, hsize, rfl, hrecv, hhands⟩ :=
    c.run_answered hvalid hcall hkernel
  have hnames : s.Named t := by
    rw [World.Named, hiov]
    exact hvalid.names
  have hcore := recvCore_conveyed hvalid.count hsize hnames hkernel hcount hrecv
  rw [hfcntls] at hcore
  have hfiles : ∀ fds, fds = d.installed →
      fds.filterMap (fun fd => (d.installed.zip m.fds).lookup fd) = m.fds := by
    rintro _ rfl
    exact filterMap_lookup_zip hkernel.installed hkernel.nodup
  have hclosed : closedSince c.world (Fetching.run t (c.answer (.ok d))).2 =
      closedSince s ((recvCore t kind c.op.mode).run s).2 := by
    rw [closedSince, closedSince, hhands.fds, hfds]
  have hresult := hhands.outcome
  generalize (recvCore t kind c.op.mode).run s = r at hcore hclosed hresult
  rw [hiov] at hcore
  rcases hcore with ⟨hfits, hfilled, hdrop, surplus, hok⟩ | ⟨hall, e, herr, hcause⟩
  · have hdata : d.data = m.payload := by
      rw [hkernel.data, List.take_of_length_le]
      rw [sum_recvCall_named hnames, hiov]
      exact hfits.1
    have hbytes : r.2.iov.flatten.take d.data.length = m.payload := by
      rw [hfilled, flatten_scatter, hdata, List.take_of_length_le hfits.1]
      simp [overwrite]
    rw [handed, hok, Outcome.map, hbytes] at hresult
    have hreturned : (c.finish t m d).returned = d.installed.take c.op.mode.count := by
      rw [Receipt.returned, Fetching.finish, hresult]
    have hinstalled : (c.finish t m d).returned ++ (c.finish t m d).closed = d.installed := by
      rw [hreturned]
      exact (congrArg _ (hclosed.trans hdrop)).trans (List.take_append_drop ..)
    refine ⟨?_, hinstalled, hfiles _ hinstalled⟩
    rw [Receipt.Ended, Fetching.finish, hresult]
    exact ⟨hfits, rfl, rfl, hclosed.trans hdrop⟩
  · rw [handed, herr, Outcome.map] at hresult
    have hreturned : (c.finish t m d).returned = [] := by
      rw [Receipt.returned, Fetching.finish, hresult]
    have hinstalled : (c.finish t m d).returned ++ (c.finish t m d).closed = d.installed := by
      rw [hreturned, List.nil_append]
      exact hclosed.trans hall
    refine ⟨?_, hinstalled, hfiles _ hinstalled⟩
    rw [Receipt.Ended, Fetching.finish, hresult]
    exact ⟨hclosed.trans hall, hcause⟩

end Receives

end UnixAncillary
