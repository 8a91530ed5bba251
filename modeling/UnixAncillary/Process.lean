import UnixAncillary.Ownership
import UnixAncillary.Receptions
import UnixAncillary.Transmissions

/-!
# A whole process

A process has any number of `SocketAncillary` buffers, and calls the convenience sends and
receives between the operations on them, blocking or under tokio. A descriptor that one of
these hands over may be lent to a later send. All of it is one custody: a buffer is a part
of it with the other buffers as its frame, and a convenience receive is a sequence of its
moves.
-/

namespace UnixAncillary

open ByteCodec HandleTable Program Program.Prog

/-- A `SocketAncillary` and the iterators taken from it. -/
structure Buffer where
  anc : SocketAncillary
  alive : Bool
  drain : Option Messages
  rights : List ScmRights

namespace Buffer

def new (storage : Bytes) : Buffer := ⟨.new storage, true, none, []⟩

/-- The descriptors that the buffer or an iterator owns. -/
def held (b : Buffer) : List RawFd :=
  b.anc.receivedFds ++ (b.drain.elim [] Messages.fds ++ b.rights.flatMap ScmRights.inner)

/-- What a dropped buffer leaves. -/
def Emptied (b : Buffer) : Prop := b.anc.received = [] ∧ b.drain = none ∧ b.rights = []

theorem Emptied.held {b : Buffer} (h : b.Emptied) : b.held = [] := by
  obtain ⟨hreceived, hdrain, hrights⟩ := h
  simp [Buffer.held, SocketAncillary.receivedFds, hreceived, hdrain, hrights]

end Buffer

/-- The buffers of a process, the descriptors of the caller and of others, and the history
in serials of the table. -/
structure Process where
  buffers : List Buffer
  fds : Table RawFd
  caller : List RawFd
  others : List RawFd
  installed : List Nat
  pidfds : List Nat
  yielded : List Nat
  borrowed : List Nat
  callerClosed : List Nat

/-- The descriptors that the caller gets. -/
def returnedFds : Outcome IoError Panic Syscall Handed → List RawFd
  | .ok handed => handed.fds
  | _ => []

namespace Process

def start : Process := ⟨[], .empty, [], [], [], [], [], [], []⟩

/-- The process as one of its buffers meets it. -/
def session (p : Process) (b : Buffer) : Session :=
  ⟨b.anc, b.alive, b.drain, b.rights, p.fds, p.caller, p.others, p.installed, p.pidfds,
    p.yielded, p.borrowed, p.callerClosed⟩

/-- The process around a session. -/
def around (pre post : List Buffer) (s : Session) : Process :=
  ⟨pre ++ ⟨s.anc, s.alive, s.drain, s.rights⟩ :: post, s.fds, s.caller, s.others, s.installed,
    s.pidfds, s.yielded, s.borrowed, s.callerClosed⟩

/-- The descriptors that the buffers and their iterators own. -/
def held (p : Process) : List RawFd := p.buffers.flatMap Buffer.held

/-- One step of the process: a new buffer, a step of a session with one of the buffers, or
a whole send or receive. A call that is left waiting is a cancelled one. -/
inductive Step (t : Target) : Process → Process → Prop
  | new (p : Process) (storage : Bytes) :
      Step t p { p with buffers := p.buffers ++ [.new storage] }
  | buffer (p : Process) (pre post : List Buffer) (b : Buffer) (s : Session)
      (hbuffers : p.buffers = pre ++ b :: post) (hstep : Session.Step t (p.session b) s) :
      Step t p (around pre post s)
  | sent (p : Process) (rt : Runtime) (op : Transmission) (w : World) (hw : w.fds = p.fds)
      (hopen : ∀ fd ∈ op.fds, fd ∈ p.caller ∨ fd ∈ p.others) :
      Step t p { p with
        fds := ((op.run t rt).run w).2.fds
        borrowed := p.borrowed ++ p.fds.serials op.fds }
  | received (p : Process) (rt : Runtime) (op : Reception) (w : World) (ds : List Delivery)
      (hw : w.fds = p.fds) (hcalm : w.CalmFor rt)
      (hds : ((op.run t rt).run w).2.deliveries = w.deliveries ++ ds)
      (hkernel : ∀ d ∈ ds, d.Installs t p.fds) :
      Step t p { p with
        fds := ((op.run t rt).run w).2.fds
        caller := (returnedFds ((op.run t rt).run w).1).reverse ++ p.caller
        installed := p.installed ++
          ds.flatMap fun d => (p.fds.openAll d.installed).serials d.installed
        pidfds := p.pidfds ++
          ds.flatMap fun d => (p.fds.openAll d.installed).serials (d.pidfds t)
        yielded := p.yielded ++
          ((op.run t rt).run w).2.fds.serials (returnedFds ((op.run t rt).run w).1) }

/-- The process as a custody: its buffers are the component. -/
def custody (p : Process) : Custody RawFd where
  table := p.fds
  held := p.held
  client := p.caller
  others := p.others
  acquired := p.installed
  discarded := p.pidfds
  yielded := p.yielded
  lent := p.borrowed
  clientClosed := p.callerClosed

section Simulation

variable {t : Target} {p p' : Process}

/-- A buffer is a part of the process. -/
theorem held_around (pre post : List Buffer) (s : Session) :
    (around pre post s).held.Perm (s.custody.held ++ (pre ++ post).flatMap Buffer.held) := by
  simp only [Process.held, around, List.flatMap_append, List.flatMap_cons]
  rw [← List.append_assoc, ← List.append_assoc]
  exact List.perm_append_comm.append_right _

/-- A receive acquires what the kernel installs, closes the pidfds and what its policy does
not keep, and yields the others. -/
theorem moves_delivered (c : Custody RawFd) {d : Delivery} {returned lost : List RawFd}
    (hkernel : d.Installs t c.table) (hsplit : d.rights t = returned ++ lost) :
    let opened := c.table.openAll d.installed
    let final := (opened.closeAll (d.pidfds t)).closeAll lost
    Relation.ReflTransGen Custody.Move c { c with
      table := final
      client := returned.reverse ++ c.client
      acquired := c.acquired ++ opened.serials d.installed
      discarded := c.discarded ++ opened.serials (d.pidfds t)
      yielded := c.yielded ++ final.serials returned } := by
  intro opened final
  have howned : (d.installed ++ c.held).Perm (d.pidfds t ++ (d.rights t ++ c.held)) := by
    rw [← List.append_assoc]
    exact hkernel.owned.append_right _
  have hlost : (d.rights t ++ c.held).Perm (lost ++ (returned ++ c.held)) := by
    rw [hsplit, ← List.append_assoc]
    exact List.perm_append_comm.append_right _
  have hacquired := Relation.ReflTransGen.single
    (Custody.Move.acquire c d.installed hkernel.nodup hkernel.fresh)
  have hdiscarded := hacquired.trans (Custody.moves_discard howned)
  have hreleased := hdiscarded.trans (Custody.moves_release hlost)
  exact hreleased.trans (Custody.moves_yieldAll returned (.refl _))

/-- A convenience receive is a run of moves. -/
theorem moves_reception (p : Process) (rt : Runtime) (op : Reception) (w : World)
    (ds : List Delivery) (hw : w.fds = p.fds) (hcalm : w.CalmFor rt)
    (hds : ((op.run t rt).run w).2.deliveries = w.deliveries ++ ds)
    (hkernel : ∀ d ∈ ds, d.Installs t p.fds) :
    Relation.ReflTransGen Custody.Move p.custody (custody { p with
      fds := ((op.run t rt).run w).2.fds
      caller := (returnedFds ((op.run t rt).run w).1).reverse ++ p.caller
      installed := p.installed ++
        ds.flatMap fun d => (p.fds.openAll d.installed).serials d.installed
      pidfds := p.pidfds ++
        ds.flatMap fun d => (p.fds.openAll d.installed).serials (d.pidfds t)
      yielded := p.yielded ++
        ((op.run t rt).run w).2.fds.serials (returnedFds ((op.run t rt).run w).1) }) := by
  obtain ⟨houtcome, hfds, hdeliveries⟩ := op.run_settled (t := t) rt hcalm
  have hstart : ((op.runtime rt).settle { w with iov := op.bufs }).fds = p.fds :=
    (settle_fds ..).trans hw
  have hbefore : ((op.runtime rt).settle { w with iov := op.bufs }).deliveries = w.deliveries :=
    deliveries_settle ..
  have hsplits := recvCore_splits (t := t) op.kind op.mode
    ((op.runtime rt).settle { w with iov := op.bufs })
  generalize (recvCore t op.kind op.mode).run
    ((op.runtime rt).settle { w with iov := op.bufs }) = r at *
  generalize (op.run t rt).run w = r' at *
  have hreturned : returnedFds r'.1 = coreFds r.1 := by
    rw [houtcome, handed]
    obtain ⟨o, w'⟩ := r
    cases o <;> rfl
  rw [hfds, hreturned]
  rw [hdeliveries] at hds
  rcases hsplits with hnone | ⟨d, lost, howned⟩
  · obtain rfl : ds = [] := by
      rw [hnone.deliveries, hbefore] at hds
      exact List.self_eq_append_right.mp hds
    rw [hnone.coreFds, hnone.fds, hstart]
    simpa [custody, Process.held, Table.serials] using Relation.ReflTransGen.refl
  · obtain rfl : ds = [d] := by
      rw [howned.deliveries, hbefore] at hds
      exact (List.append_cancel_left hds).symm
    rw [howned.fds, hstart]
    have hmoves := moves_delivered p.custody (hkernel d (List.mem_singleton_self d)) howned.rights
    simpa [custody, Process.held] using hmoves

/-- A process is a custody: every step is a run of moves. -/
theorem Step.moves (h : Step t p p') :
    Relation.ReflTransGen Custody.Move p.custody p'.custody := by
  cases h with
  | new storage =>
      refine .single (.arrange p.custody _ ?_)
      refine .of_eq ?_
      simp [custody, Process.held, Buffer.new, Buffer.held, SocketAncillary.new,
        SocketAncillary.receivedFds]
  | buffer pre post b s hbuffers hstep =>
      let extra := (pre ++ post).flatMap Buffer.held
      have hbefore : p.held.Perm ((p.session b).custody.held ++ extra) := by
        have hsame : p = around pre post (p.session b) := by
          rw [around, session, ← hbuffers]
        rw [hsame]
        exact held_around pre post _
      have hin := Custody.Move.arrange p.custody _ hbefore
      have hout := Custody.Move.arrange (s.custody.frame extra) _ (held_around pre post s).symm
      exact (Custody.moves_frame hstep.moves extra).head hin |>.tail hout
  | sent rt op w hw hopen =>
      rw [op.run_fds, hw]
      exact .single (.lend p.custody op.fds hopen)
  | received rt op w ds hw hcalm hds hkernel =>
      exact moves_reception p rt op w ds hw hcalm hds hkernel

theorem moves_of_steps (h : Relation.ReflTransGen (Step t) p p') :
    Relation.ReflTransGen Custody.Move p.custody p'.custody := by
  induction h with
  | refl => exact .refl
  | tail _ hstep ih => exact ih.trans hstep.moves

/-- Dropped buffers stay empty. -/
theorem Step.emptied (h : Step t p p') (hp : ∀ b ∈ p.buffers, b.alive = false → b.Emptied) :
    ∀ b ∈ p'.buffers, b.alive = false → b.Emptied := by
  cases h with
  | new storage =>
      intro b hb hdead
      rcases List.mem_append.mp hb with hb | hb
      · exact hp b hb hdead
      · obtain rfl := List.mem_singleton.mp hb
        cases hdead
  | buffer pre post b s hbuffers hstep =>
      intro b' hb' hdead
      rw [hbuffers] at hp
      rcases List.mem_append.mp hb' with hpre | hmid
      · exact hp b' (List.mem_append_left _ hpre) hdead
      rcases List.mem_cons.mp hmid with rfl | hpost
      · exact hstep.held_dropped (hp b (by simp)) hdead
      · exact hp b' (List.mem_append_right _ (List.mem_cons_of_mem _ hpost)) hdead
  | sent rt op w hw hopen => exact hp
  | received rt op w ds hw hcalm hds hkernel => exact hp

end Simulation

/-- Where the descriptors of a process are, by the serials of the table. -/
structure Conserved (p : Process) : Prop where
  /-- An installed descriptor is owned once, by one buffer or by the caller, or it was
  closed, once. -/
  installed : ∀ i ∈ p.installed, (p.fds.serials p.held).count i +
    (p.fds.serials p.caller).count i + p.fds.closed.count i = 1
  yielded : p.yielded.Nodup
  /-- A pidfd is closed inside the receive that installs it. -/
  pidfds : ∀ i ∈ p.pidfds, i ∈ p.installed ∧ i ∈ p.fds.closed ∧ i ∉ p.yielded
  /-- A borrowed descriptor is closed, if at all, by its owner. -/
  borrowed : ∀ i ∈ p.borrowed, i ∈ p.fds.closed → i ∈ p.callerClosed
  /-- Every close hits an open descriptor. -/
  hits : ∀ e ∈ p.fds.log, e.2 ≠ none
  dropped : ∀ b ∈ p.buffers, b.alive = false → b.held = []

/-- A process that uses any buffers, sends and receives of the crate, in any order, loses no
descriptor, closes none twice and yields none twice. What it lends to a send is closed by
its owner alone and is not yielded again. -/
theorem process_conserves_descriptors (t : Target) {p : Process}
    (h : Relation.ReflTransGen (Step t) start p) :
    p.Conserved ∧ ∀ p', Relation.ReflTransGen (Step t) p p' →
      ∀ i ∈ p.borrowed, i ∈ p'.yielded → i ∈ p.yielded := by
  have hemptied : ∀ b ∈ p.buffers, b.alive = false → b.Emptied := by
    induction h with
    | refl => exact fun b hb => by cases hb
    | tail _ hstep ih => exact hstep.emptied ih
  have hkept : p.custody.Kept := Custody.kept_empty.moves (moves_of_steps h)
  constructor
  · constructor
    · exact fun i hi => hkept.conserved hi
    · exact hkept.yielded_once
    · exact fun i hi => hkept.discarded_closed i hi
    · exact fun i hi => (hkept.lent_kept i hi).2.1
    · exact hkept.accounts.hits
    · exact fun b hb hdead => (hemptied b hb hdead).held
  · intro p' hsteps i hi
    exact (hkept.lent_unyielded (moves_of_steps hsteps) hi).2

/-- A descriptor is received under tokio, after one `WouldBlock`, and lent to a send. -/
theorem process_conserves_descriptors_forwarded :
    let w := World.scripted [] [.error .EAGAIN, .ok Session.oneDescriptor]
    let r := ((Reception.streamFdsInto 1 [0]).run .linux64 .tokio).run w
    returnedFds r.1 = [5] ∧ Conserved { start with
      fds := r.2.fds, caller := [5], installed := [0], yielded := [0], borrowed := [0] } := by
  intro w r
  have hreturned : returnedFds r.1 = [5] := by decide +kernel
  have hserials : r.2.fds.serials [5] = [0] := by decide +kernel
  have hdeliveries : r.2.deliveries = w.deliveries ++ [Session.oneDescriptor] := by
    decide +kernel
  have hkernel : Session.oneDescriptor.Installs .linux64 Table.empty := by
    refine ⟨by decide, fun fd _ => rfl, by simp [Session.oneDescriptor], ?_⟩
    refine ⟨[.canonical _ (SocketAncillary.rightsMessage .linux64 [5]) (by decide)], 24, ?_, ?_⟩
    · decide +kernel
    · exact .of_eq (by decide +kernel)
  have hinstalled : (start.fds.openAll Session.oneDescriptor.installed).serials
      Session.oneDescriptor.installed = [0] := by decide +kernel
  have hpidfds : Session.oneDescriptor.pidfds .linux64 = [] := by decide +kernel
  have hreceived := Step.received (t := .linux64) start .tokio (.streamFdsInto 1 [0]) w
    [Session.oneDescriptor] rfl (fun _ => by simp [w, World.scripted]) hdeliveries
    (List.forall_mem_singleton.mpr hkernel)
  have hrun : ((Reception.streamFdsInto 1 [0]).run .linux64 .tokio).run w = r := rfl
  clear_value r
  rw [List.flatMap_singleton, List.flatMap_singleton, hinstalled, hpidfds, hrun, hreturned,
    hserials] at hreceived
  have hsent := Step.sent (t := .linux64)
    { start with fds := r.2.fds, caller := [5], installed := [0], yielded := [0] }
    .blocking (.datagramFds [1] [5]) { World.scripted [] [] with fds := r.2.fds } rfl
    (by simp [Transmission.fds])
  simp only [Transmission.run_fds, Transmission.fds, hserials] at hsent
  have hsteps := (Relation.ReflTransGen.single hreceived).tail hsent
  exact ⟨hreturned, (process_conserves_descriptors .linux64 hsteps).1⟩

end Process

end UnixAncillary
