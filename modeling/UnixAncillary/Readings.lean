import UnixAncillary.Handoff
import UnixAncillary.Inheritance
import UnixAncillary.Vectored

/-!
# One low-level receive of a datagram

`cmsg_recvmsg` and `cmsg_recvmsg_peek` read a datagram into a `SocketAncillary` that the
caller keeps using. `Reader.finish_faithful` says what the buffer holds afterwards: the
credentials that came with the datagram and its descriptors, and nothing of what it held
before.
-/

namespace UnixAncillary

open ByteCodec HandleTable Program Program.Prog

/-! ## What comes with a datagram -/

/-- The credentials in a message that was received. -/
def ReceivedMessage.creds? : ReceivedMessage → Option ScmCredentials
  | .rights _ => none
  | .credentials creds => some creds

namespace CredentialsPlace

def creds : CredentialsPlace → Option ScmCredentials
  | absent => none
  | before creds => some creds
  | behind creds => some creds

/-- The adds that would build the control messages of a batch. -/
def adds (fds : List RawFd) : CredentialsPlace → List Add
  | absent => [.addFds fds]
  | before creds => [.addCredentials creds, .addFds fds]
  | behind creds => [.addFds fds, .addCredentials creds]

variable {t : Target} {fds : List RawFd}

theorem batchMessages_eq (fds : List RawFd) (place : CredentialsPlace) :
    batchMessages t fds place = (place.adds fds).filterMap (·.message t) := by
  cases place <;> cases fds <;> rfl

/-- A receiver stores the credentials and the descriptors of a batch. -/
theorem received_batch (place : CredentialsPlace) (hvalid : ∀ fd ∈ fds, 0 ≤ fd)
    (hplace : place.creds ≠ none → t.hasCredentials = true) :
    let received := (batchMessages t fds place).flatMap (·.received t)
    received.filterMap ReceivedMessage.creds? = place.creds.toList ∧
      received.flatMap ReceivedMessage.fds = fds := by
  intro received
  have hadds : ∀ add ∈ place.adds fds, add.Valid t := by
    intro add hadd
    cases place with
    | absent =>
        obtain rfl := List.mem_singleton.mp hadd
        exact hvalid
    | before creds =>
        rcases List.mem_cons.mp hadd with rfl | hadd
        · exact hplace (Option.some_ne_none creds)
        · obtain rfl := List.mem_singleton.mp hadd
          exact hvalid
    | behind creds =>
        rcases List.mem_cons.mp hadd with rfl | hadd
        · exact hvalid
        · obtain rfl := List.mem_singleton.mp hadd
          exact hplace (Option.some_ne_none creds)
  have hreceived : received = (place.adds fds).filterMap (·.received) := by
    rw [show received = (batchMessages t fds place).flatMap (·.received t) from rfl,
      batchMessages_eq, flatMap_filterMap, List.filterMap_eq_flatMap_toList]
    exact List.flatMap_congr fun add hadd => received_message t (hadds add hadd)
  rw [hreceived]
  cases place <;> cases fds <;> exact ⟨rfl, by simp [adds, Add.received, ReceivedMessage.fds]⟩

end CredentialsPlace

/-- The space of the control messages of a batch. -/
def batchSpace (t : Target) (fds : List RawFd) (place : CredentialsPlace) : Nat :=
  ((batchMessages t fds place).map fun m => t.layout.CMSG_SPACE m.data.length).sum

/-- The kernel delivers all that comes with the datagram `m`: one number for each
descriptor, in one rights message next to the credentials. -/
structure Brings (t : Target) (call : RecvCall) (m : Message) (place : CredentialsPlace)
    (d : Delivery) : Prop where
  installed : d.installed.length = m.fds.length
  valid : ∀ fd ∈ d.installed, 0 ≤ fd
  control : ∃ msgs : List (KernelMessage t.layout),
    msgs.map (·.message) = batchMessages t d.installed place ∧
    HonestDelivery (msgs.flatMap (·.bytes)) call.control d

/-- What the kernel answers to a receive of the datagram `m` that comes with `creds`: what
fits of the payload, and all that comes with it where that has room. What it leaves of the
control messages in less room is up to the kernel. -/
structure Presents (t : Target) (call : RecvCall) (m : Message) (creds : Option ScmCredentials)
    (d : Delivery) : Prop where
  data : d.data = m.payload.take call.iov.sum
  trunc : d.trunc = decide (call.iov.sum < m.payload.length)
  control : d.control.length ≤ call.control
  brings : ∃ place : CredentialsPlace, place.creds = creds ∧
    (batchSpace t m.fds place ≤ call.control → Brings t call m place d)

section Room

variable {t : Target} {call : RecvCall} {m : Message} {creds : Option ScmCredentials}
  {d : Delivery}

/-- The delivery respects the buffers of the call. -/
theorem Presents.clip_eq (h : Presents t call m creds d) : d.clip call = d := by
  have hdata : d.data.take call.iov.sum = d.data := by
    rw [h.data, List.take_take, Nat.min_self]
  rw [Delivery.clip, hdata, List.take_of_length_le h.control]

/-- The helpers of the crate count what a batch takes. -/
theorem space_batch_le {fds : List RawFd} {place : CredentialsPlace} {rights credentials : Nat}
    (hrights : t.layout.bufferSizeForRights fds.length = .ok rights)
    (hcredentials : t.layout.bufferSizeForCredentials = .ok credentials) :
    batchSpace t fds place ≤ rights + (if place.creds = none then 0 else credentials) := by
  have hlen : fds.length * 4 ≤ i32Max := by
    by_contra hbig
    rw [bufferSizeForRights_panic (by omega)] at hrights
    cases hrights
  rw [t.layout.bufferSizeForRights_eq hlen] at hrights
  rw [t.layout.bufferSizeForCredentials_eq] at hcredentials
  cases hrights
  cases hcredentials
  have hbatch : (((Add.message t (.addFds fds)).toList).map
      fun m => t.layout.CMSG_SPACE m.data.length).sum ≤ t.layout.CMSG_SPACE (fds.length * 4) := by
    cases hm : Add.message t (.addFds fds) with
    | none => exact Nat.zero_le _
    | some m => simp [length_rightsData hm]
  have hcreds : ∀ creds : ScmCredentials,
      (SocketAncillary.credentialsMessage t creds).data.length = ScmCredentials.SIZE :=
    fun creds => ScmCredentials.length_toUcred ..
  cases place with
  | absent => exact hbatch.trans (Nat.le_add_right ..)
  | before creds =>
      simp only [batchSpace, batchMessages, CredentialsPlace.creds, List.map_cons, List.sum_cons,
        hcreds, reduceCtorEq, if_false]
      omega
  | behind creds =>
      simp only [batchSpace, batchMessages, CredentialsPlace.creds, List.map_append, List.map_cons,
        List.map_nil, List.sum_append, List.sum_cons, List.sum_nil, hcreds, reduceCtorEq, if_false]
      omega

/-- With room, all that comes with a datagram is stored. -/
theorem Presents.whole (h : Presents t call m creds d)
    (hcreds : creds ≠ none → t.hasCredentials = true) {rights credentials : Nat}
    (hrights : t.layout.bufferSizeForRights m.fds.length = .ok rights)
    (hcredentials : t.layout.bufferSizeForCredentials = .ok credentials)
    (hroom : rights + (if creds = none then 0 else credentials) ≤ call.control) :
    d.ctrunc = false ∧ d.rights t = d.installed ∧ d.pidfds t = [] ∧
      (d.messages t).filterMap ReceivedMessage.creds? = creds.toList := by
  obtain ⟨place, rfl, hbrings⟩ := h.brings
  obtain ⟨hinstalled, hvalid, msgs, hmsgs, hkernel⟩ :=
    hbrings ((space_batch_le hrights hcredentials).trans hroom)
  rw [← hinstalled] at hrights
  have hfits : (msgs.flatMap (·.bytes)).length ≤ call.control := by
    rw [length_flatMap_bytes, hmsgs]
    exact (space_batch_le hrights hcredentials).trans hroom
  obtain ⟨hctrunc, hparse, howned, hpidfds⟩ := hkernel.whole hvalid hmsgs hfits
  refine ⟨hctrunc, howned, hpidfds, ?_⟩
  rw [Delivery.messages, hparse]
  exact (CredentialsPlace.received_batch place hvalid hcreds).1

end Room

/-! ## A reader -/

/-- A low-level receive that waits: its buffer, the buffers for the payload, the world in
which it was called, and how often it was interrupted. -/
structure Reader where
  anc : SocketAncillary
  peek : Bool
  bufs : List Bytes
  world : World
  interrupts : Nat

/-- A completed low-level receive: the datagram and the credentials that came with it, the
room for payload and control bytes that its header named, the numbers that the kernel
installed, the answers of the `fcntl` calls, the result, the payload bytes, and the buffer and
the numbers closed. -/
structure Reading where
  peek : Bool
  message : Message
  creds : Option ScmCredentials
  room : Nat
  capacity : Nat
  installed : List RawFd
  fcntls : List (Option OsError)
  result : Outcome IoError Panic Syscall RecvResult
  bytes : Bytes
  anc : SocketAncillary
  closed : List RawFd

namespace Reader

/-- The call that the receive waits in. -/
def call (t : Target) (c : Reader) : RecvCall :=
  recvCall t c.anc.buffer.length c.peek { c.world with iov := c.bufs }

/-- The receive when the kernel gives the answers. -/
def run (t : Target) (c : Reader) (answers : List (Except OsError Delivery)) :
    Outcome IoError Panic Syscall RecvResult × (SocketAncillary × World) :=
  (recvIntoAncillary t c.peek).run (c.anc, { c.world with
    recvs := List.replicate c.interrupts (.error .EINTR) ++ answers
    iov := c.bufs })

/-- The receive after the kernel has answered it with `d`. -/
def finish (t : Target) (c : Reader) (m : Message) (creds : Option ScmCredentials)
    (d : Delivery) : Reading :=
  let r := c.run t [.ok d]
  ⟨c.peek, m, creds, (c.call t).iov.sum, (c.call t).control, d.installed, c.world.fcntls, r.1,
    r.2.2.iov.flatten.take d.data.length, r.2.1,
    closedSince (c.world.close c.anc.receivedFds) r.2.2⟩

end Reader

namespace Reading

/-- The storage that the header names is as large as the crate's helpers say, for the
descriptors of the datagram and for credentials where they come. -/
def HasRoom (t : Target) (r : Reading) : Prop :=
  ∃ rights credentials, t.layout.bufferSizeForRights r.message.fds.length = .ok rights ∧
    t.layout.bufferSizeForCredentials = .ok credentials ∧
    rights + (if r.creds = none then 0 else credentials) ≤ r.capacity

/-- A receive reports the datagram, and storage of the right size holds all that came with
it: the credentials once, and every descriptor. Otherwise an `fcntl` call failed, and the
buffer holds nothing. -/
def Faithful (t : Target) (r : Reading) : Prop :=
  match r.result with
  | .ok result =>
      result.bytesRead = min r.room r.message.payload.length ∧
      r.bytes = r.message.payload.take r.room ∧
      result.dataTruncated = decide (r.room < r.message.payload.length) ∧
      r.anc.truncated = result.truncated ∧
      (r.HasRoom t → result.truncated = false ∧
        r.anc.received.filterMap ReceivedMessage.creds? = r.creds.toList ∧
        r.anc.receivedFds = r.installed ∧ r.closed = [])
  | .err e =>
      t.CloexecFails r.fcntls e ∧ r.anc.received = [] ∧ (r.HasRoom t → r.closed = r.installed)
  | _ => False

end Reading

section Finish

variable {t : Target} {c : Reader} {m : Message} {creds : Option ScmCredentials} {d : Delivery}

/-- The world in which a receive makes its call. -/
def Reader.cleared (c : Reader) (answers : List (Except OsError Delivery)) : World :=
  { c.world.close c.anc.receivedFds with
    recvs := List.replicate c.interrupts (.error .EINTR) ++ answers
    iov := c.bufs }

/-- Interrupts do not matter to a receive that is answered. -/
theorem Reader.run_answered (h : Presents t (c.call t) m creds d) : ∃ recvs trace,
    c.run t [.ok d] = finishReceive t c.anc d ((cloexecFds t (d.rights t)).run
      (({ c.cleared [.ok d] with recvs := recvs, trace := trace } : World).own t d)) := by
  have hinterrupts : ∀ a ∈ List.replicate c.interrupts (.error .EINTR : Except OsError Delivery),
      a = .error .EINTR := fun a ha => List.eq_of_mem_replicate ha
  have hrecv : ((awaitRecv t c.anc.buffer.length c.peek).run (c.cleared [.ok d])).1 = .ok d := by
    have hloop := @Call.loop_interrupted _ (c.call t).toCall _ hinterrupts d (c.cleared [.ok d])
    exact hloop.trans (congrArg _ h.clip_eq)
  obtain ⟨-, recvs, trace, hworld⟩ := awaitRecv_ok (Prod.ext hrecv rfl)
  refine ⟨recvs, trace, ?_⟩
  rw [← hworld]
  exact run_recvIntoAncillary_ok (Prod.ext hrecv rfl)

/-- The buffers of the caller hold what was delivered. -/
theorem Presents.bytes_eq (h : Presents t (c.call t) m creds d) :
    (scatter d.data c.bufs).flatten.take d.data.length = m.payload.take (c.call t).iov.sum := by
  have hle : d.data.length ≤ c.bufs.flatten.length := by
    rw [h.data]
    exact (List.length_take_le ..).trans (sum_recvCall_le _ _ { c.world with iov := c.bufs })
  rw [flatten_scatter, List.take_of_length_le hle, overwrite, List.take_zero, List.nil_append,
    List.take_left' rfl, h.data]

/-- A completed receive is faithful. -/
theorem Reader.finish_faithful (h : Presents t (c.call t) m creds d)
    (hcreds : creds ≠ none → t.hasCredentials = true) : (c.finish t m creds d).Faithful t := by
  obtain ⟨recvs, trace, hrun⟩ := Reader.run_answered h
  have hwhole : (c.finish t m creds d).HasRoom t → d.ctrunc = false ∧ d.rights t = d.installed ∧
      d.pidfds t = [] ∧ (d.messages t).filterMap ReceivedMessage.creds? = creds.toList := by
    rintro ⟨rights, credentials, hrights, hcredentials, hroom⟩
    exact h.whole hcreds hrights hcredentials hroom
  obtain ⟨fcntls, flags, hok | ⟨e, ⟨hfallback, hmem⟩, herr⟩⟩ := cloexecFds_run t (d.rights t)
    (({ c.cleared [.ok d] with recvs := recvs, trace := trace } : World).own t d)
  · have hlen : d.data.length = min (c.call t).iov.sum m.payload.length := by
      rw [h.data, List.length_take]
    rw [hok] at hrun
    rw [Reading.Faithful]
    simp only [Reader.finish, hrun, finishReceive] at hwhole ⊢
    refine ⟨hlen, h.bytes_eq, h.trunc, trivial, fun hroom => ?_⟩
    obtain ⟨hctrunc, howned, hpidfds, hstored⟩ := hwhole hroom
    refine ⟨hctrunc, hstored, d.fds_messages.trans howned, ?_⟩
    simp [closedSince, World.own, World.deliver, hpidfds, World.close, Reader.cleared]
  · rw [herr] at hrun
    rw [Reading.Faithful]
    simp only [Reader.finish, hrun, finishReceive] at hwhole ⊢
    refine ⟨⟨hfallback, e, hmem, rfl⟩, trivial, fun hroom => ?_⟩
    obtain ⟨-, howned, hpidfds, -⟩ := hwhole hroom
    simp [closedSince, World.own, World.deliver, hpidfds, howned, World.close, Reader.cleared]

end Finish

end UnixAncillary
