import UnixAncillary.Lib.Sealing
import UnixAncillary.Modes
import UnixAncillary.Ownership
import UnixAncillary.Transmissions

/-!
# What an `exec` inherits

A process uses any buffers, receives and sends of the crate, and opens, closes and flags
descriptors of its own. The descriptors that receives install are sealed by close-on-exec, in
the sense of the table: whatever the kernel answers to `fcntl`, a received descriptor that is
still open after an operation is marked, and no later operation takes the mark away. So no
program that the process executes inherits one, `received_not_inherited`.
-/

namespace UnixAncillary

open ByteCodec HandleTable Program Program.Prog

/-! ## The descriptors of a delivery -/

/-- The serials of what deliveries install in a table. -/
def installedSerials (fds : Table RawFd) (ds : List Delivery) : List Nat :=
  ds.flatMap fun d => (fds.openAll d.installed).serials d.installed

@[simp] theorem installedSerials_nil (fds : Table RawFd) : installedSerials fds [] = [] := rfl

/-- The marks of the world, on the objects that receives installed. -/
def World.Sealed (w : World) (received : List Nat) : Prop :=
  w.fds.Sealed (CloseOnExec w.flags) received

section Receives

variable {t : Target} {d : Delivery} {kept lost : List RawFd} {w w' : World} {received : List Nat}

/-- A receive seals what it keeps: the rest of the delivery is closed when it returns. -/
theorem Owned.sealed (h : Owned t d kept lost w w') (hkernel : d.Installs t w.fds)
    (hseal : w.Sealed received) : w'.Sealed (received ++ installedSerials w.fds [d]) := by
  have hrights : ∀ fd ∈ d.rights t, fd ∈ d.installed := fun fd hfd =>
    hkernel.owned.mem_iff.mpr (List.mem_append_right _ hfd)
  rw [World.Sealed, h.fds, ← Table.closeAll_append, installedSerials, List.flatMap_singleton]
  apply hseal.openAll
  · intro fd hnot hmarked
    exact hmarked.of_eq (h.others fd hnot fun hfd => hnot (hrights fd hfd))
  · intro fd hmem hopen
    have hone : fd ∈ d.pidfds t ++ (kept ++ lost) := by
      rw [← h.rights]
      exact hkernel.owned.mem_iff.mp hmem
    have hkept : fd ∈ kept := by
      simp only [List.mem_append, not_or] at hone hopen
      tauto
    exact h.cloexec fd hkept hmem

/-- A low-level receive owns at most one delivery. It closes the pidfds, and keeps the rights
in the buffer unless close-on-exec fails. -/
theorem recvIntoAncillary_splits (t : Target) (peek : Bool) (anc : SocketAncillary) (w : World) :
    let r := (recvIntoAncillary t peek).run (anc, w)
    let cleared := w.close anc.receivedFds
    (r.2.2.deliveries = cleared.deliveries ∧ r.2.2.fds = cleared.fds ∧
        r.2.2.flags = cleared.flags) ∨
      ∃ d lost, Owned t d r.2.1.receivedFds lost cleared r.2.2 := by
  intro r cleared
  have hdeliveries := awaitRecv_deliveries (t := t) anc.buffer.length peek cleared
  have hfds := awaitRecv_fds (t := t) anc.buffer.length peek cleared
  have hflags := awaitRecv_flags t anc.buffer.length peek cleared
  cases hrecv : (awaitRecv t anc.buffer.length peek).run cleared with
  | mk o w₁ =>
      rw [hrecv] at hdeliveries hfds hflags
      cases o with
      | ok d =>
          obtain ⟨-, recvs, trace, rfl⟩ := awaitRecv_ok hrecv
          have hr : r = _ := run_recvIntoAncillary_ok hrecv
          let answered : World := { cleared with recvs := recvs, trace := trace }
          obtain ⟨hothers, hmarked⟩ := cloexec_owned (t := t) d answered
          obtain ⟨fcntls, flags, hok | ⟨e, -, herr⟩⟩ :=
            cloexecFds_run t (d.rights t) (answered.own t d)
          · have hkept : r.2.1.receivedFds = d.rights t := by
              rw [hr, hok]
              exact d.fds_messages
            rw [hok] at hothers hmarked
            refine .inr ⟨d, [], ?_⟩
            rw [hkept, hr, hok]
            exact ⟨hdeliveries, (List.append_nil _).symm, rfl, hothers, hmarked rfl⟩
          · have hkept : r.2.1.receivedFds = [] := by
              rw [hr, herr]
              rfl
            rw [herr] at hothers
            refine .inr ⟨d, d.rights t, ?_⟩
            rw [hkept, hr, herr]
            exact ⟨hdeliveries, rfl, rfl, hothers, fun fd h => by cases h⟩
      | err e =>
          have hr : r = _ := run_recvIntoAncillary_err hrecv
          rw [hr]
          exact .inl ⟨by simpa [deliveryOf] using hdeliveries, hfds, hflags⟩
      | panic p => exact absurd (congrArg Prod.fst hrecv) (awaitRecv_ne_panic _ _ _ p)
      | pending c =>
          have hr : r = _ := run_recvIntoAncillary_pending hrecv
          rw [hr]
          exact .inl ⟨by simpa [deliveryOf] using hdeliveries, hfds, hflags⟩

end Receives

/-! ## Operations -/

section Operations

variable {t : Target} {w : World} {received : List Nat} {ds : List Delivery}

theorem World.Sealed.close (h : w.Sealed received) (fds : List RawFd) :
    (w.close fds).Sealed received :=
  h.closeAll fds

/-- The deliveries of an operation are at most the one that it owned. -/
theorem Owned.deliveries_eq {d : Delivery} {kept lost : List RawFd} {w' : World}
    (h : Owned t d kept lost w w') (hds : w'.deliveries = w.deliveries ++ ds) : ds = [d] := by
  rw [h.deliveries] at hds
  exact (List.append_cancel_left hds).symm

/-- A convenience receive seals what it returns. -/
theorem Reception.sealed (op : Reception) (rt : Runtime) (hcalm : w.CalmFor rt)
    (hds : ((op.run t rt).run w).2.deliveries = w.deliveries ++ ds)
    (hkernel : ∀ d ∈ ds, d.Installs t w.fds) (hseal : w.Sealed received) :
    ((op.run t rt).run w).2.Sealed (received ++ installedSerials w.fds ds) := by
  let settled : World := (op.runtime rt).settle { w with iov := op.bufs }
  have hfds : settled.fds = w.fds := settle_fds ..
  have hflags : settled.flags = w.flags := settle_flags ..
  have hdeliveries : settled.deliveries = w.deliveries := deliveries_settle ..
  have hands : HandsOver ((recvCore t op.kind op.mode).run settled) ((op.run t rt).run w) :=
    op.run_settled rt hcalm
  have hstart : settled.Sealed received := by
    rw [World.Sealed, hfds, hflags]
    exact hseal
  rw [hands.deliveries, ← hdeliveries] at hds
  rw [World.Sealed, hands.fds, hands.flags, ← hfds]
  rcases recvCore_splits (t := t) op.kind op.mode settled with hnone | ⟨d, lost, howned⟩
  · obtain rfl : ds = [] := by
      rw [hnone.deliveries] at hds
      exact List.self_eq_append_right.mp hds
    rw [hnone.fds, hnone.flags, installedSerials_nil, List.append_nil]
    exact hstart
  · obtain rfl := howned.deliveries_eq hds
    rw [← hfds] at hkernel
    exact howned.sealed (hkernel d (List.mem_singleton_self d)) hstart

/-- A low-level receive seals what it keeps in the buffer. -/
theorem recvIntoAncillary_sealed (peek : Bool) (anc : SocketAncillary)
    (hds : ((recvIntoAncillary t peek).run (anc, w)).2.2.deliveries = w.deliveries ++ ds)
    (hkernel : ∀ d ∈ ds, d.Installs t (w.close anc.receivedFds).fds) (hseal : w.Sealed received) :
    ((recvIntoAncillary t peek).run (anc, w)).2.2.Sealed
      (received ++ installedSerials (w.close anc.receivedFds).fds ds) := by
  have hcleared := hseal.close anc.receivedFds
  rcases recvIntoAncillary_splits t peek anc w with ⟨hsame, hfds, hflags⟩ | ⟨d, lost, howned⟩
  · obtain rfl : ds = [] := by
      rw [hsame] at hds
      exact List.self_eq_append_right.mp hds
    rw [World.Sealed, hfds, hflags, installedSerials_nil, List.append_nil]
    exact hcleared
  · obtain rfl := howned.deliveries_eq hds
    exact howned.sealed (hkernel d (List.mem_singleton_self d)) hcleared

/-- A send changes no descriptor. -/
theorem Transmission.sealed (op : Transmission) (rt : Runtime) (hseal : w.Sealed received) :
    ((op.run t rt).run w).2.Sealed received := by
  rw [World.Sealed, op.run_fds, op.run_flags]
  exact hseal

/-- Every call on a buffer keeps the seals, and a receive adds its own. -/
theorem BufferCall.sealed (call : BufferCall) (anc : SocketAncillary)
    (hds : (call.exec t (anc, w)).2.2.deliveries = w.deliveries ++ ds)
    (hkernel : ∀ d ∈ ds, d.Installs t (w.close anc.receivedFds).fds) (hseal : w.Sealed received) :
    (call.exec t (anc, w)).2.2.Sealed
      (received ++ installedSerials (w.close anc.receivedFds).fds ds) := by
  have hnone : ∀ w' : World, w'.deliveries = w.deliveries → w'.deliveries = w.deliveries ++ ds →
      w'.Sealed received →
      w'.Sealed (received ++ installedSerials (w.close anc.receivedFds).fds ds) := by
    intro w' hsame hds' h
    obtain rfl : ds = [] := List.self_eq_append_right.mp (hsame.symm.trans hds')
    rw [installedSerials_nil, List.append_nil]
    exact h
  cases call with
  | new => exact hnone _ rfl hds (hseal.close _)
  | clear => exact hnone _ rfl hds (hseal.close _)
  | add a => exact hnone _ rfl hds hseal
  | messages => exact hnone _ rfl hds hseal
  | isTruncated => exact hnone _ rfl hds hseal
  | send iov =>
      let op : Transmission := .lowlevel iov anc
      have hworld : ((op.run t .blocking).run w).2 = ((cmsgSendmsg t iov anc).run w).2 :=
        run_ignoreCount ..
      have hdeliveries := op.run_deliveries t .blocking w
      have hsealed := op.sealed (t := t) .blocking hseal
      rw [hworld] at hdeliveries hsealed
      exact hnone _ hdeliveries hds hsealed
  | receive peek iov =>
      exact recvIntoAncillary_sealed (w := { w with iov := iov }) peek anc hds hkernel hseal

end Operations

/-! ## The image of a process -/

/-- The buffers of a process, its descriptors with their flags, and the serials of those that
receives installed. -/
structure Image where
  buffers : List SocketAncillary
  fds : Table RawFd
  flags : RawFd → Nat
  received : List Nat

namespace Image

def start : Image := ⟨[], .empty, fun _ => 0, []⟩

/-- An operation meets the descriptors of the process. -/
def Meets (s : Image) (w : World) : Prop := w.fds = s.fds ∧ w.flags = s.flags

/-- The process after an operation that received `ds`, with the table as the deliveries found
it. -/
def after (s : Image) (w : World) (fds : Table RawFd) (ds : List Delivery) : Image :=
  { s with
    fds := w.fds
    flags := w.flags
    received := s.received ++ installedSerials fds ds }

/-- One step of the process: a buffer is made, called or dropped; a whole send or receive, a
call that is left waiting being a cancelled one; or an open, close or `F_SETFD` of its own. It
does not take the mark from a descriptor that a receive installed. -/
inductive Step (t : Target) : Image → Image → Prop
  | new (s : Image) (storage : Bytes) :
      Step t s { s with buffers := s.buffers ++ [.new storage] }
  | call (s : Image) (pre post : List SocketAncillary) (anc : SocketAncillary) (c : BufferCall)
      (w : World) (ds : List Delivery) (hbuffers : s.buffers = pre ++ anc :: post)
      (hw : s.Meets w) (hds : (c.exec t (anc, w)).2.2.deliveries = w.deliveries ++ ds)
      (hkernel : ∀ d ∈ ds, d.Installs t (s.fds.closeAll anc.receivedFds)) :
      Step t s { s.after (c.exec t (anc, w)).2.2 (s.fds.closeAll anc.receivedFds) ds with
        buffers := pre ++ (c.exec t (anc, w)).2.1 :: post }
  | drop (s : Image) (pre post : List SocketAncillary) (anc : SocketAncillary)
      (hbuffers : s.buffers = pre ++ anc :: post) :
      Step t s { s with buffers := pre ++ post, fds := s.fds.closeAll anc.receivedFds }
  | sent (s : Image) (rt : Runtime) (op : Transmission) (w : World) (hw : s.Meets w) :
      Step t s (s.after ((op.run t rt).run w).2 s.fds [])
  | received (s : Image) (rt : Runtime) (op : Reception) (w : World) (ds : List Delivery)
      (hw : s.Meets w) (hcalm : w.CalmFor rt)
      (hds : ((op.run t rt).run w).2.deliveries = w.deliveries ++ ds)
      (hkernel : ∀ d ∈ ds, d.Installs t s.fds) :
      Step t s (s.after ((op.run t rt).run w).2 s.fds ds)
  | opens (s : Image) (fd : RawFd) (flags : Nat) :
      Step t s { s with
        fds := s.fds.open1 fd
        flags := Function.update s.flags fd flags }
  | closes (s : Image) (fd : RawFd) : Step t s { s with fds := s.fds.close fd }
  | setFlags (s : Image) (fd : RawFd) (flags : Nat)
      (hkeep : ∀ i ∈ s.received, s.fds.slots fd = some i → flags &&& FD_CLOEXEC = FD_CLOEXEC) :
      Step t s { s with flags := Function.update s.flags fd flags }

/-- A program that the process executes now finds `fd` open. -/
def Inherits (s : Image) (fd : RawFd) : Prop :=
  s.fds.slots fd ≠ none ∧ ¬ CloseOnExec s.flags fd

/-- What receives installed is sealed. -/
def Seals (s : Image) : Prop := s.fds.Sealed (CloseOnExec s.flags) s.received

section Runs

variable {t : Target} {s s' : Image} {w : World}

theorem Meets.sealed (hw : s.Meets w) (h : s.Seals) : w.Sealed s.received := by
  rw [World.Sealed, hw.1, hw.2]
  exact h

/-- Every step keeps the seals. -/
theorem Step.seals (hstep : Step t s s') (h : s.Seals) : s'.Seals := by
  cases hstep with
  | new storage => exact h
  | call pre post anc c w ds hbuffers hw hds hkernel =>
      rw [← hw.1] at hkernel ⊢
      exact c.sealed anc hds hkernel (hw.sealed h)
  | drop pre post anc hbuffers => exact h.closeAll anc.receivedFds
  | sent rt op w hw =>
      rw [Seals, after, installedSerials_nil, List.append_nil]
      exact op.sealed rt (hw.sealed h)
  | received rt op w ds hw hcalm hds hkernel =>
      rw [← hw.1] at hkernel ⊢
      exact op.sealed rt hcalm hds hkernel (hw.sealed h)
  | opens fd flags =>
      apply h.open1
      exact fun fd' hne hmarked => hmarked.of_eq (Function.update_of_ne hne ..)
  | closes fd => exact h.closeAll [fd]
  | setFlags fd flags hkeep =>
      apply h.remark
      intro fd' i hi hslot hmarked
      by_cases hsame : fd' = fd
      · subst hsame
        exact (congrArg (· &&& FD_CLOEXEC) (Function.update_self ..)).trans (hkeep i hi hslot)
      · exact hmarked.of_eq (Function.update_of_ne hsame ..)

theorem seals_of_steps (h : Relation.ReflTransGen (Step t) start s) : s.Seals := by
  induction h with
  | refl => exact .empty _
  | tail _ hstep ih => exact hstep.seals ih

end Runs

/-- No received descriptor is inherited. Whatever buffers, receives and sends a process uses,
and however `fcntl` fails where close-on-exec is set by it, a program that it executes between
two operations finds no descriptor open that a receive installed, unless the process itself
has taken the mark away. -/
theorem received_not_inherited (t : Target) {s : Image}
    (h : Relation.ReflTransGen (Step t) start s) {fd : RawFd} (hinherits : s.Inherits fd) :
    ∀ i ∈ s.received, s.fds.slots fd ≠ some i :=
  fun i hi hslot => hinherits.2 ((seals_of_steps h).marked fd i hi hslot)

/-- On macOS, a descriptor of the process itself is inherited and a received one is not. -/
theorem received_not_inherited_macos :
    let d : Delivery := ⟨[7], Target.macos.layout.encodeMessage
      (SocketAncillary.rightsMessage .macos [5]), false, false, [5]⟩
    let own : Image := ⟨[], Table.empty.open1 3, Function.update (fun _ => 0) 3 0, []⟩
    let w : World := { World.scripted [] [.ok d] with
      fds := own.fds, flags := own.flags, rlimit := some 256 }
    let r := ((Reception.streamFdsInto 1 [0]).run .macos .blocking).run w
    let s := own.after r.2 own.fds [d]
    s.Inherits 3 ∧ s.fds.slots 5 ∈ s.received.map some ∧ ¬ s.Inherits 5 := by
  intro d own w r s
  have hkernel : d.Installs .macos own.fds := by
    refine ⟨by decide, fun fd hfd => ?_, by simp [d], ?_⟩
    · obtain rfl := List.mem_singleton.mp hfd
      rfl
    · refine ⟨[.canonical _ (SocketAncillary.rightsMessage .macos [5]) (by decide)], 16, ?_, ?_⟩
      · decide +kernel
      · exact .of_eq (by decide +kernel)
  have hdeliveries : r.2.deliveries = w.deliveries ++ [d] := by decide +kernel
  have hopened : Relation.ReflTransGen (Step .macos) start own := .single (.opens start 3 0)
  have hreceived : Step .macos own s :=
    .received own .blocking (.streamFdsInto 1 [0]) w [d] ⟨rfl, rfl⟩ (fun h => by cases h)
      hdeliveries (List.forall_mem_singleton.mpr hkernel)
  have hslot : s.fds.slots 5 = some 1 := by decide +kernel
  have hserial : 1 ∈ s.received := by decide +kernel
  refine ⟨⟨by decide +kernel, by decide +kernel⟩, ?_, fun hinherits => ?_⟩
  · rw [hslot]
    exact List.mem_map_of_mem hserial
  · exact received_not_inherited .macos (hopened.tail hreceived) hinherits 1 hserial hslot

end Image

end UnixAncillary
