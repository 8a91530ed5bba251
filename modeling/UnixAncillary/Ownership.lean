import UnixAncillary.Building
import UnixAncillary.Lib.Custody
import UnixAncillary.Messages
import UnixAncillary.Truncation

/-!
# Who owns a descriptor

`Session` is a process that uses one `SocketAncillary`: the buffer, the iterators taken
from it, and the descriptors of the caller and of everyone else in one table. `Session.Step`
is one call, one move of an iterator, or one open or close by the process itself. Every
session is a run of the custody machine, which accounts for every descriptor that a
receive installs: `descriptors_conserved`.
-/

namespace UnixAncillary

open ByteCodec HandleTable Program Program.Prog

/-! ## The kernel's side -/

/-- The descriptors that a control message lists before `c`. -/
def listedBefore (t : Target) (c : Nat) (p : Nat × KernelMessage t.layout) : List RawFd :=
  if p.2.message.isRights t ∨ p.2.message.isPidfd t then numbersBefore t c p else []

/-- A delivery installs fresh, distinct descriptors. Its control bytes are those of any
messages, cut anywhere, and what they list before the cut is what is installed, each once. -/
structure Delivery.Installs (t : Target) (d : Delivery) (table : Table RawFd) : Prop where
  nodup : d.installed.Nodup
  fresh : ∀ fd ∈ d.installed, table.slots fd = none
  valid : ∀ fd ∈ d.installed, 0 ≤ fd
  listed : ∃ (msgs : List (KernelMessage t.layout)) (c : Nat),
    d.control = (msgs.flatMap (·.bytes)).take c ∧
      ((place 0 msgs).flatMap (listedBefore t c)).Perm d.installed

/-- A message is of one kind, and where all its numbers are descriptors they are those that a
receive takes. -/
theorem listedBefore_eq {t : Target} {c : Nat} {p : Nat × KernelMessage t.layout}
    (hvalid : ∀ fd ∈ listedBefore t c p, 0 ≤ fd) : listedBefore t c p =
      (if p.2.message.isPidfd t then descriptorsBefore t c p else []) ++
        (if p.2.message.isRights t then descriptorsBefore t c p else []) := by
  have hone : ¬ (p.2.message.isPidfd t = true ∧ p.2.message.isRights t = true) := by
    rintro ⟨hpidfd, hrights⟩
    simp only [RawMessage.isPidfd, RawMessage.isRights, decide_eq_true_eq] at hpidfd hrights
    exact t.rights_ne_pidfd (hrights.2.symm.trans hpidfd.2.2)
  have hfilter : listedBefore t c p = (listedBefore t c p).filter (0 ≤ ·) :=
    (List.filter_eq_self.mpr fun fd hfd => decide_eq_true (hvalid fd hfd)).symm
  rw [hfilter, listedBefore, descriptorsBefore]
  by_cases hpidfd : p.2.message.isPidfd t = true
  · have hrights : p.2.message.isRights t = false := by simpa using fun h => hone ⟨hpidfd, h⟩
    simp [hpidfd, hrights]
  · by_cases hrights : p.2.message.isRights t = true
    · simp [hpidfd, hrights]
    · simp [hpidfd, hrights]

/-- A receive owns what is installed: the pidfds that it closes and the rights. -/
theorem Delivery.Installs.owned {t : Target} {d : Delivery} {table : Table RawFd}
    (h : d.Installs t table) : d.installed.Perm (d.pidfds t ++ d.rights t) := by
  obtain ⟨msgs, c, hcontrol, hlisted⟩ := h.listed
  have hkinds : ∀ p ∈ place 0 msgs, listedBefore t c p =
      (if p.2.message.isPidfd t then descriptorsBefore t c p else []) ++
        (if p.2.message.isRights t then descriptorsBefore t c p else []) := by
    intro p hp
    refine listedBefore_eq fun fd hfd => h.valid fd (hlisted.mem_iff.mp ?_)
    exact List.mem_flatMap.mpr ⟨p, hp, hfd⟩
  have hpidfds : d.pidfds t = (place 0 msgs).flatMap fun p =>
      if p.2.message.isPidfd t then descriptorsBefore t c p else [] := by
    rw [Delivery.pidfds, hcontrol, parse_take]
    exact flatMap_filterMap_arrived t c _ (·.isPidfd t) fun _ _ => rfl
  have hrights : d.rights t = (place 0 msgs).flatMap fun p =>
      if p.2.message.isRights t then descriptorsBefore t c p else [] := by
    rw [Delivery.rights, hcontrol, parse_take]
    exact flatMap_filterMap_arrived t c _ (·.isRights t) fun _ _ => rfl
  refine hlisted.symm.trans ?_
  rw [List.flatMap_congr hkinds, hpidfds, hrights]
  exact (List.flatMap_append_perm ..).symm

/-! ## Sessions -/

/-- The descriptors that a call borrows. -/
def Add.fds : Add → List RawFd
  | .addFds fds => fds
  | .addCredentials _ => []

/-- A process with one `SocketAncillary`, the iterators taken from it, the descriptors of
the caller and of others, and the history in serials of the table. -/
structure Session where
  anc : SocketAncillary
  alive : Bool
  drain : Option Messages
  rights : List ScmRights
  fds : Table RawFd
  caller : List RawFd
  others : List RawFd
  installed : List Nat
  pidfds : List Nat
  yielded : List Nat
  borrowed : List Nat
  callerClosed : List Nat

namespace Session

/-- A new buffer over any storage; nothing is open yet. -/
def start (storage : Bytes) : Session :=
  ⟨.new storage, true, none, [], .empty, [], [], [], [], [], [], []⟩

/-- The buffer can be used: it lives, and no iterator borrows it. -/
def Free (s : Session) : Prop := s.alive = true ∧ s.drain = none ∧ s.rights = []

/-- The descriptors in an undropped `Messages`. -/
def drainFds (s : Session) : List RawFd := s.drain.elim [] Messages.fds

/-- The descriptors in undropped `ScmRights`. -/
def rightsFds (s : Session) : List RawFd := s.rights.flatMap ScmRights.inner

/-- The descriptors that the buffer or an iterator owns. -/
def held (s : Session) : List RawFd := s.anc.receivedFds ++ (s.drainFds ++ s.rightsFds)

/-- One step of the process. An operation on the buffer meets a world with the session's
table and any answers. -/
inductive Step (t : Target) : Session → Session → Prop
  | add (s : Session) (a : Add) (hfree : s.Free)
      (hopen : ∀ fd ∈ a.fds, fd ∈ s.caller ∨ fd ∈ s.others) :
      Step t s { s with
        anc := ((a.run t).run s.anc).2
        borrowed := s.borrowed ++ s.fds.serials a.fds }
  | send (s : Session) (iov : List Bytes) (w : World) (hfree : s.Free) (hw : w.fds = s.fds) :
      Step t s { s with fds := ((cmsgSendmsg t iov s.anc).run w).2.fds }
  | received (s : Session) (peek : Bool) (w w₁ : World) (d : Delivery) (hfree : s.Free)
      (hw : w.fds = s.fds)
      (hrecv : (awaitRecv t s.anc.buffer.length peek).run (w.close s.anc.receivedFds) =
        (.ok d, w₁)) (hkernel : d.Installs t w₁.fds) :
      Step t s { s with
        anc := ((recvIntoAncillary t peek).run (s.anc, w)).2.1
        fds := ((recvIntoAncillary t peek).run (s.anc, w)).2.2.fds
        installed := s.installed ++ (w₁.fds.openAll d.installed).serials d.installed
        pidfds := s.pidfds ++ (w₁.fds.openAll d.installed).serials (d.pidfds t) }
  | notReceived (s : Session) (peek : Bool) (w : World) (hfree : s.Free) (hw : w.fds = s.fds)
      (hrecv : ∀ d, ((awaitRecv t s.anc.buffer.length peek).run
        (w.close s.anc.receivedFds)).1 ≠ .ok d) :
      Step t s { s with
        anc := ((recvIntoAncillary t peek).run (s.anc, w)).2.1
        fds := ((recvIntoAncillary t peek).run (s.anc, w)).2.2.fds }
  | messages (s : Session) (ms : List ReceivedMessage) (anc : SocketAncillary) (hfree : s.Free)
      (hrun : SocketAncillary.messages.run s.anc = (.ok ms, anc)) :
      Step t s { s with anc := anc, drain := some ⟨ms⟩ }
  | nextMessage (s : Session) (m : Messages) (hdrain : s.drain = some m) :
      Step t s { s with
        drain := some m.next.2
        rights := s.rights ++ m.next.1.elim [] AncillaryData.rights }
  | dropMessages (s : Session) (m : Messages) (hdrain : s.drain = some m) :
      Step t s { s with drain := none, fds := s.fds.closeAll m.fds }
  | nextFd (s : Session) (pre post : List ScmRights) (r : ScmRights)
      (hrights : s.rights = pre ++ r :: post) :
      Step t s { s with
        rights := pre ++ r.next.2 :: post
        caller := r.next.1.toList ++ s.caller
        yielded := s.yielded ++ s.fds.serials r.next.1.toList }
  | dropRights (s : Session) (pre post : List ScmRights) (r : ScmRights)
      (hrights : s.rights = pre ++ r :: post) :
      Step t s { s with rights := pre ++ post, fds := s.fds.closeAll r.inner }
  | clear (s : Session) (w : World) (hfree : s.Free) (hw : w.fds = s.fds) :
      Step t s { s with
        anc := (SocketAncillary.clear (s.anc, w)).1
        fds := (SocketAncillary.clear (s.anc, w)).2.fds }
  | drop (s : Session) (hfree : s.Free) :
      Step t s { s with
        alive := false
        anc := { s.anc with received := [] }
        fds := s.fds.closeAll s.anc.receivedFds }
  | callerClose (s : Session) (fd : RawFd) (h : fd ∈ s.caller) :
      Step t s { s with
        caller := s.caller.erase fd
        fds := s.fds.close fd
        callerClosed := s.callerClosed ++ s.fds.serials [fd] }
  | otherOpen (s : Session) (fd : RawFd) (hfresh : s.fds.slots fd = none) :
      Step t s { s with others := fd :: s.others, fds := s.fds.open1 fd }
  | otherClose (s : Session) (fd : RawFd) (h : fd ∈ s.others) :
      Step t s { s with
        others := s.others.erase fd
        fds := s.fds.close fd
        callerClosed := s.callerClosed ++ s.fds.serials [fd] }

/-- The session as a custody: the buffer and its iterators are the component. -/
def custody (s : Session) : Custody RawFd where
  table := s.fds
  held := s.held
  client := s.caller
  others := s.others
  acquired := s.installed
  discarded := s.pidfds
  yielded := s.yielded
  lent := s.borrowed
  clientClosed := s.callerClosed

section Simulation

variable {t : Target} {s : Session}

theorem Free.held (h : s.Free) : s.held = s.anc.receivedFds := by
  obtain ⟨-, hdrain, hrights⟩ := h
  simp [Session.held, drainFds, rightsFds, hdrain, hrights]

theorem perm_front {α : Type*} (as bs cs ds es : List α) :
    (as ++ (bs ++ (cs ++ (ds ++ es)))).Perm (ds ++ (as ++ (bs ++ (cs ++ es)))) := by
  simpa using List.perm_append_comm_assoc (as ++ bs ++ cs) ds es

/-- A failed receive closes what was unread. -/
theorem moves_notReceived {peek : Bool} {w : World} (hfree : s.Free) (hw : w.fds = s.fds)
    (hrecv : ∀ d, ((awaitRecv t s.anc.buffer.length peek).run
      (w.close s.anc.receivedFds)).1 ≠ .ok d) :
    Relation.ReflTransGen Custody.Move s.custody (custody { s with
      anc := ((recvIntoAncillary t peek).run (s.anc, w)).2.1
      fds := ((recvIntoAncillary t peek).run (s.anc, w)).2.2.fds }) := by
  have hfds : (w.close s.anc.receivedFds).fds = s.fds.closeAll s.anc.receivedFds := by
    rw [← hw]
    rfl
  have hheld : s.custody.held.Perm (s.anc.receivedFds ++ []) := by
    rw [List.append_nil]
    exact .of_eq hfree.held
  have hend := Custody.moves_release hheld
  obtain ⟨-, hdrain, hrights⟩ := hfree
  rw [run_recvIntoAncillary_none hrecv, awaitRecv_fds, hfds]
  simpa [custody, Session.held, drainFds, rightsFds, hdrain, hrights,
    SocketAncillary.receiving, SocketAncillary.receivedFds] using hend

/-- A delivery closes what was unread, installs descriptors, closes the pidfds and keeps
the rights, unless close-on-exec fails. -/
theorem moves_received {peek : Bool} {w w₁ : World} {d : Delivery} (hfree : s.Free)
    (hw : w.fds = s.fds)
    (hrecv : (awaitRecv t s.anc.buffer.length peek).run (w.close s.anc.receivedFds) = (.ok d, w₁))
    (hkernel : d.Installs t w₁.fds) :
    Relation.ReflTransGen Custody.Move s.custody (custody { s with
      anc := ((recvIntoAncillary t peek).run (s.anc, w)).2.1
      fds := ((recvIntoAncillary t peek).run (s.anc, w)).2.2.fds
      installed := s.installed ++ (w₁.fds.openAll d.installed).serials d.installed
      pidfds := s.pidfds ++ (w₁.fds.openAll d.installed).serials (d.pidfds t) }) := by
  have hfds : w₁.fds = s.custody.table.closeAll s.anc.receivedFds := by
    have h := awaitRecv_fds (t := t) s.anc.buffer.length peek (w.close s.anc.receivedFds)
    rw [hrecv] at h
    exact h.trans (congrArg (Table.closeAll · s.anc.receivedFds) hw)
  have hheld : s.custody.held.Perm (s.anc.receivedFds ++ []) := by
    rw [List.append_nil]
    exact .of_eq hfree.held
  have hclosed := Custody.moves_release hheld
  rw [← hfds] at hclosed
  have hinstalled := hclosed.tail (.acquire _ d.installed hkernel.nodup hkernel.fresh)
  have howned : (d.installed ++ []).Perm (d.pidfds t ++ d.rights t) := by
    rw [List.append_nil]
    exact hkernel.owned
  have hpidfds := hinstalled.trans (Custody.moves_discard howned)
  obtain ⟨-, hdrain, hrights⟩ := hfree
  rw [run_recvIntoAncillary_ok hrecv]
  obtain ⟨fcntls, flags, hok | ⟨e, -, herr⟩⟩ := cloexecFds_run t (d.rights t) (w₁.own t d)
  · rw [hok]
    simpa [finishReceive, custody, Session.held, drainFds, rightsFds, hdrain, hrights,
      SocketAncillary.delivered, SocketAncillary.receivedFds, d.fds_messages, World.own,
      World.deliver, World.close] using hpidfds
  · rw [herr]
    have hnone := hpidfds.trans (Custody.moves_release (.of_eq (List.append_nil _).symm))
    simpa [finishReceive, custody, Session.held, drainFds, rightsFds, hdrain, hrights,
      SocketAncillary.delivered, SocketAncillary.receivedFds, World.own, World.deliver,
      World.close] using hnone

/-- A session is a custody: every step is a run of moves. -/
theorem Step.moves {s' : Session} (h : Step t s s') :
    Relation.ReflTransGen Custody.Move s.custody s'.custody := by
  cases h with
  | add a hfree hopen =>
      have hlend := Relation.ReflTransGen.single (Custody.Move.lend s.custody a.fds hopen)
      simpa [custody, Session.held, drainFds, rightsFds, SocketAncillary.receivedFds,
        Add.received_run] using hlend
  | send iov w hfree hw =>
      rw [cmsgSendmsg_fds, hw]
  | received peek w w₁ d hfree hw hrecv hkernel => exact moves_received hfree hw hrecv hkernel
  | notReceived peek w hfree hw hrecv => exact moves_notReceived hfree hw hrecv
  | messages ms anc hfree hrun =>
      obtain ⟨rfl, rfl⟩ : s.anc.received = ms ∧ { s.anc with received := [] } = anc := by
        simpa [SocketAncillary.messages, run_bind, andThen] using hrun
      obtain ⟨-, hdrain, hrights⟩ := hfree
      refine .single (.arrange s.custody _ ?_)
      refine .of_eq ?_
      simp [custody, Session.held, drainFds, rightsFds, hdrain, hrights,
        SocketAncillary.receivedFds, Messages.fds]
  | nextMessage m hdrain =>
      refine .single (.arrange s.custody _ ?_)
      simp only [custody, Session.held, drainFds, rightsFds, hdrain, Option.elim_some,
        List.flatMap_append]
      rw [m.fds_next, List.append_assoc, ← List.append_assoc m.next.2.fds]
      exact List.perm_append_comm.append_left _
  | dropMessages m hdrain =>
      have hheld : s.custody.held.Perm (m.fds ++ (s.anc.receivedFds ++ ([] ++ s.rightsFds))) := by
        simp only [custody, Session.held, drainFds, hdrain, Option.elim_some, List.nil_append]
        exact List.perm_append_comm_assoc ..
      exact Custody.moves_release hheld
  | nextFd pre post r hrights =>
      obtain ⟨inner⟩ := r
      cases inner with
      | nil =>
          have hheld : s.custody.held = held { s with rights := pre ++ ⟨[]⟩ :: post } := by
            simp only [custody, Session.held, rightsFds, drainFds, hrights]
          have hsame := Relation.ReflTransGen.single
            (Custody.Move.arrange s.custody _ (.of_eq hheld))
          simpa [custody, ScmRights.next, Table.serials] using hsame
      | cons fd rest =>
          have hheld : s.custody.held.Perm (fd :: (s.anc.receivedFds ++
              (s.drainFds ++ (pre ++ ⟨rest⟩ :: post).flatMap ScmRights.inner))) := by
            simp only [custody, Session.held, rightsFds, hrights, List.flatMap_append,
              List.flatMap_cons]
            exact perm_front _ _ _ [fd] _
          exact Custody.moves_yield hheld
  | dropRights pre post r hrights =>
      have hheld : s.custody.held.Perm (r.inner ++ (s.anc.receivedFds ++
          (s.drainFds ++ (pre ++ post).flatMap ScmRights.inner))) := by
        simp only [custody, Session.held, rightsFds, hrights, List.flatMap_append,
          List.flatMap_cons]
        exact perm_front ..
      exact Custody.moves_release hheld
  | clear w hfree hw =>
      have hheld : s.custody.held.Perm (s.anc.receivedFds ++ []) := by
        rw [List.append_nil]
        exact .of_eq hfree.held
      have hend := Custody.moves_release hheld
      obtain ⟨-, hdrain, hrights⟩ := hfree
      simpa [SocketAncillary.clear, World.close, hw, custody, Session.held, drainFds, rightsFds,
        hdrain, hrights, SocketAncillary.receivedFds] using hend
  | drop hfree =>
      have hheld : s.custody.held.Perm (s.anc.receivedFds ++ []) := by
        rw [List.append_nil]
        exact .of_eq hfree.held
      have hend := Custody.moves_release hheld
      obtain ⟨-, hdrain, hrights⟩ := hfree
      simpa [custody, Session.held, drainFds, rightsFds, hdrain, hrights,
        SocketAncillary.receivedFds] using hend
  | callerClose fd hfd => exact .single (.clientClose s.custody fd hfd)
  | otherOpen fd hfresh => exact .single (.otherOpen s.custody fd hfresh)
  | otherClose fd hfd => exact .single (.otherClose s.custody fd hfd)

theorem moves_of_steps {s' : Session} (h : Relation.ReflTransGen (Step t) s s') :
    Relation.ReflTransGen Custody.Move s.custody s'.custody := by
  induction h with
  | refl => exact .refl
  | tail _ hstep ih => exact ih.trans hstep.moves

/-- A dropped buffer leaves no owner but the caller. -/
theorem Step.held_dropped {s' : Session} (h : Step t s s')
    (hs : s.alive = false → s.anc.received = [] ∧ s.drain = none ∧ s.rights = [])
    (hdead : s'.alive = false) :
    s'.anc.received = [] ∧ s'.drain = none ∧ s'.rights = [] := by
  have hfree : s.Free → s.alive = false → False := fun h hdead => by simp [h.1] at hdead
  cases h with
  | add a hfree' hopen => exact (hfree hfree' hdead).elim
  | send iov w hfree' hw => exact (hfree hfree' hdead).elim
  | received peek w w₁ d hfree' hw hrecv hkernel => exact (hfree hfree' hdead).elim
  | notReceived peek w hfree' hw hrecv => exact (hfree hfree' hdead).elim
  | messages ms anc hfree' hrun => exact (hfree hfree' hdead).elim
  | nextMessage m hdrain => simp [hdrain] at hs; exact absurd hdead (by simpa using hs)
  | dropMessages m hdrain => simp [hdrain] at hs; exact absurd hdead (by simpa using hs)
  | nextFd pre post r hrights => simp [hrights] at hs; exact absurd hdead (by simpa using hs)
  | dropRights pre post r hrights => simp [hrights] at hs; exact absurd hdead (by simpa using hs)
  | clear w hfree' hw => exact (hfree hfree' hdead).elim
  | drop hfree' => exact ⟨rfl, hfree'.2⟩
  | callerClose fd hfd => exact hs hdead
  | otherOpen fd hfresh => exact hs hdead
  | otherClose fd hfd => exact hs hdead

end Simulation

/-- Where the descriptors of a session are, by the serials of the table. -/
structure Conserved (s : Session) : Prop where
  /-- An installed descriptor has one owner (the received list, one iterator or the
  caller), or it was closed, once. -/
  installed : ∀ i ∈ s.installed,
    (s.fds.serials s.anc.receivedFds).count i +
      ((s.fds.serials s.drainFds).count i + (s.fds.serials s.rightsFds).count i) +
      (s.fds.serials s.caller).count i + s.fds.closed.count i = 1
  yielded : s.yielded.Nodup
  /-- A pidfd is closed inside the receive that installs it. -/
  pidfds : ∀ i ∈ s.pidfds, i ∈ s.installed ∧ i ∈ s.fds.closed ∧ i ∉ s.yielded
  /-- A borrowed descriptor is closed, if at all, by its owner. -/
  borrowed : ∀ i ∈ s.borrowed, i ∈ s.fds.closed → i ∈ s.callerClosed
  /-- Every close hits an open descriptor. -/
  hits : ∀ e ∈ s.fds.log, e.2 ≠ none
  dropped : s.alive = false → s.held = []

/-- Over any run of a session, every descriptor that a receive installs has exactly one
owner or was closed exactly once; none is yielded twice, pidfds never are, and what the
caller lent to a send is neither closed by the buffer nor yielded from then on. -/
theorem descriptors_conserved (t : Target) (storage : Bytes) {s : Session}
    (h : Relation.ReflTransGen (Step t) (start storage) s) :
    s.Conserved ∧ ∀ s', Relation.ReflTransGen (Step t) s s' →
      ∀ i ∈ s.borrowed, i ∈ s'.yielded → i ∈ s.yielded := by
  have hkept : s.custody.Kept := Custody.kept_empty.moves (moves_of_steps h)
  have hdropped : s.alive = false → s.anc.received = [] ∧ s.drain = none ∧ s.rights = [] := by
    induction h with
    | refl => exact fun h => by cases h
    | tail hsteps hstep ih =>
        exact hstep.held_dropped (ih (Custody.kept_empty.moves (moves_of_steps hsteps)))
  refine ⟨⟨fun i hi => ?_, hkept.yielded_once, fun i hi => ?_, fun i hi => ?_,
    hkept.accounts.hits, fun hdead => ?_⟩, fun s' hsteps i hi => ?_⟩
  · have hcount := hkept.conserved hi
    simpa only [custody, Session.held, Table.serials_append, List.count_append] using hcount
  · exact hkept.discarded_closed i hi
  · exact (hkept.lent_kept i hi).2.1
  · obtain ⟨hreceived, hdrain, hrights⟩ := hdropped hdead
    simp [Session.held, drainFds, rightsFds, SocketAncillary.receivedFds, hreceived, hdrain,
      hrights]
  · exact (hkept.lent_unyielded (moves_of_steps hsteps) hi).2

/-- A delivery with one descriptor. -/
def oneDescriptor : Delivery :=
  ⟨[1], AlignedLayout.linux64.encodeMessage (SocketAncillary.rightsMessage .linux64 [5]),
    false, false, [5]⟩

/-- Two descriptors are received and only the first is yielded. The buffer is used again for a
delivery that is cut behind its second descriptor, and dropped. -/
theorem descriptors_conserved_received :
    ∃ s, Relation.ReflTransGen (Step .macos) (start (List.replicate 20 0)) s ∧ s.Conserved ∧
      s.installed = [0, 1, 2, 3] ∧ s.yielded = [0] ∧ s.fds.serials s.caller = [0] ∧
      s.fds.closed = [1, 2, 3] ∧ s.alive = false := by
  let bytes (fds : List RawFd) : Bytes :=
    Target.macos.layout.encodeMessage (SocketAncillary.rightsMessage .macos fds)
  let message (fds : List RawFd) (h : fds.length * 4 ≤ i32Max) :
      KernelMessage Target.macos.layout :=
    .canonical _ (SocketAncillary.rightsMessage .macos fds) (by
      rwa [SocketAncillary.rightsMessage, SocketAncillary.length_encodeFds])
  let first : Delivery := ⟨[1], bytes [5, 6], false, false, [5, 6]⟩
  let second : Delivery := ⟨[1], (bytes [6, 7, 8]).take 20, false, true, [6, 7]⟩
  let wait (s : Session) (w : World) :=
    (awaitRecv .macos s.anc.buffer.length false).run (w.close s.anc.receivedFds)
  let receive (s : Session) (w : World) (d : Delivery) : Session :=
    let r := (recvIntoAncillary .macos false).run (s.anc, w)
    let opened := (wait s w).2.fds.openAll d.installed
    { s with
      anc := r.2.1
      fds := r.2.2.fds
      installed := s.installed ++ opened.serials d.installed
      pidfds := s.pidfds ++ opened.serials (d.pidfds .macos) }
  have hreceive : ∀ (s : Session) (w : World) (d : Delivery), s.Free → w.fds = s.fds →
      (wait s w).1 = .ok d → d.Installs .macos (wait s w).2.fds →
      Step .macos s (receive s w d) := by
    intro s w d hfree hw hrecv hkernel
    exact .received s false w _ d hfree hw (Prod.ext hrecv rfl) hkernel
  let s₀ := start (List.replicate 20 0)
  let w₀ : World := { World.scripted [] [.ok first] with iov := [[0]] }
  let s₁ := receive s₀ w₀ first
  let s₂ : Session := { s₁ with
    anc := { s₁.anc with received := [] }
    drain := some ⟨[.rights [5, 6]]⟩ }
  let s₃ : Session := { s₂ with drain := some ⟨[]⟩, rights := [⟨[5, 6]⟩] }
  let s₄ : Session := { s₃ with
    rights := [⟨[6]⟩]
    caller := [5]
    yielded := s₃.yielded ++ s₃.fds.serials [5] }
  let s₅ : Session := { s₄ with rights := [], fds := s₄.fds.closeAll [6] }
  let s₆ : Session := { s₅ with drain := none }
  let w₁ : World := { World.scripted [] [.ok second] with iov := [[0]], fds := s₆.fds }
  let s₇ := receive s₆ w₁ second
  have hfirst : Step .macos s₀ s₁ := by
    have hkernel : first.Installs .macos (wait s₀ w₀).2.fds := by
      refine ⟨by decide, fun fd _ => ?_, by simp [first], [message [5, 6] (by decide)], 20, ?_, ?_⟩
      · rw [awaitRecv_fds]
        rfl
      · decide +kernel
      · exact .of_eq (by decide +kernel)
    exact hreceive s₀ w₀ first ⟨rfl, rfl, rfl⟩ rfl (by decide +kernel) hkernel
  have hdrained : Relation.ReflTransGen (Step .macos) s₁ s₆ := by
    have hmessages : Step .macos s₁ s₂ := .messages s₁ [.rights [5, 6]] _ ⟨rfl, rfl, rfl⟩
      (Prod.ext (by decide +kernel) rfl)
    have hnext : Step .macos s₂ s₃ := .nextMessage s₂ ⟨[.rights [5, 6]]⟩ rfl
    have hyield : Step .macos s₃ s₄ := .nextFd s₃ [] [] ⟨[5, 6]⟩ rfl
    have hrights : Step .macos s₄ s₅ := .dropRights s₄ [] [] ⟨[6]⟩ rfl
    have hdrop : Step .macos s₅ s₆ := .dropMessages s₅ ⟨[]⟩ rfl
    exact ((((Relation.ReflTransGen.single hmessages).tail hnext).tail hyield).tail hrights).tail
      hdrop
  have hsecond : Step .macos s₆ s₇ := by
    have hkernel : second.Installs .macos (wait s₆ w₁).2.fds := by
      refine ⟨by decide, ?_, by simp [second], [message [6, 7, 8] (by decide)], 20, ?_, ?_⟩
      · rw [awaitRecv_fds]
        simp only [second, List.forall_mem_cons]
        exact ⟨by decide +kernel, by decide +kernel, fun fd hfd => by cases hfd⟩
      · decide +kernel
      · exact .of_eq (by decide +kernel)
    exact hreceive s₆ w₁ second ⟨rfl, rfl, rfl⟩ rfl (by decide +kernel) hkernel
  have hdropped : Step .macos s₇ _ := .drop s₇ ⟨rfl, rfl, rfl⟩
  have hsteps := ((Relation.ReflTransGen.head hfirst hdrained).tail hsecond).tail hdropped
  exact ⟨_, hsteps, (descriptors_conserved .macos (List.replicate 20 0) hsteps).1,
    by decide +kernel, by decide +kernel, by decide +kernel, by decide +kernel, rfl⟩

end Session

end UnixAncillary
