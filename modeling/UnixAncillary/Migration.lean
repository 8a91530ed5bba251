import UnixAncillary.ByHand
import UnixAncillary.Receptions
import UnixAncillary.Transmissions

/-!
# The programs of the migration guide

`receive`, `send` and `transfer` are the programs that the guide gives to users of the
crate. Each hands over all descriptors of a delivery or closes all of them, and none of
the `unwrap` and `expect` in them can fail.
-/

namespace UnixAncillary

open ByteCodec HandleTable Program Program.Prog

namespace Migration

def truncatedMessageError : IoError := .custom .invalidData "truncated message"

def invalidMarkerError : IoError := .custom .invalidData "invalid marker"

/-- The guide rejects any truncation. -/
def checkTruncated (result : RecvResult) : Option IoError :=
  if result.truncated ∨ result.dataTruncated then some truncatedMessageError else none

/-- `unwrap` on a buffer operation. -/
def unwrap {α : Type} (m : Building α) : Low α :=
  ⟨fun s => match m.run s.1 with
    | (.ok a, anc) => (.ok a, (anc, s.2))
    | (.err _, anc) => (.panic (.expectFailed AncillaryError.message), (anc, s.2))
    | (.panic p, anc) => (.panic p, (anc, s.2))
    | (.pending c, anc) => (.pending c, (anc, s.2))⟩

variable (t : Target)

def receive : Sys (List RawFd) := do
  setIov [zeroed 1]
  let (_, fds) ← withAncillary (zeroed 128) (receiveChecked t checkTruncated)
  pure fds

def send (file : RawFd) : Sys Nat :=
  withAncillary (zeroed 128) do
    unwrap (SocketAncillary.addFds t [file])
    let ancillary ← read (·.1)
    onSnd (cmsgSendmsg t [[70]] ancillary)

/-- The end of `transfer`: the marker is checked, and the descriptor popped. -/
def checkMarker (received : Nat × List RawFd) : Sys RawFd := do
  let marker ← read (·.iov.flatten)
  if received.1 ≠ 1 ∨ marker ≠ [70] then rejectFds received.2 invalidMarkerError
  else
    match received.2.getLast? with
    | some fd => do
        dropFds received.2.dropLast
        pure fd
    | none => ofExcept (.error (.expectFailed "exact receive returned one fd"))

def transfer (file : RawFd) : Sys RawFd := do
  UnixStreamExt.sendFdsAll t .blocking [70] [file]
  let received ← UnixStreamExt.recvFdsExactInto t .blocking 1 [0]
  checkMarker received

variable {t}

/-- A run from `w` that returns `fds`, if it returns anything: it returns all descriptors of
the one delivery, or closes what it got. -/
def AllOrNone (t : Target) (w : World) (fds : Option (List RawFd)) (w' : World) : Prop :=
  (fds = none ∧ w'.fds = w.fds ∧ w'.deliveries = w.deliveries) ∨
  ∃ d, w'.deliveries = w.deliveries ++ [d] ∧
    ((fds = some (d.rights t) ∧
        w'.fds = (w.fds.openAll d.installed).closeAll (d.pidfds t)) ∨
      (fds = none ∧
        w'.fds = ((w.fds.openAll d.installed).closeAll (d.pidfds t)).closeAll (d.rights t)))

/-- What an outcome returns. -/
def returned {α : Type} (f : α → List RawFd) : Outcome IoError Panic Syscall α →
    Option (List RawFd)
  | .ok a => some (f a)
  | _ => none

/-- A program that never panics and hands over all or nothing. -/
structure Safe {α : Type} (t : Target) (f : α → List RawFd) (m : Sys α) : Prop where
  no_panic : NeverPanics m
  all_or_none : ∀ w, AllOrNone t w (returned f (m.run w).1) (m.run w).2

/-! ## The low-level receive -/

theorem safe_receive : Safe t id (receive t) := by
  have hrun : ∀ w, (receive t).run w = andThen (fun r => pure r.2)
      ((withAncillary (zeroed 128) (receiveChecked t checkTruncated)).run
        { w with iov := [zeroed 1] }) := fun _ => rfl
  have hall : ∀ w, (∀ p, ((receive t).run w).1 ≠ .panic p) ∧
      AllOrNone t w (returned id ((receive t).run w).1) ((receive t).run w).2 := by
    intro w
    have hfds := awaitRecv_fds (t := t) (zeroed 128).length false { w with iov := [zeroed 1] }
    have hdeliveries :=
      awaitRecv_deliveries (t := t) (zeroed 128).length false { w with iov := [zeroed 1] }
    rw [hrun]
    cases hrecv : (awaitRecv t (zeroed 128).length false).run { w with iov := [zeroed 1] } with
    | mk o w₁ =>
        rw [hrecv] at hfds hdeliveries
        cases o with
        | ok d =>
            have hown : (w₁.own t d).fds = (w.fds.openAll d.installed).closeAll (d.pidfds t) := by
              rw [World.own, World.deliver, World.close, hfds]
            rw [run_receiveChecked_ok hrecv]
            obtain ⟨fcntls, flags, hok | ⟨e, -, herr⟩⟩ :=
              cloexecFds_run t (d.rights t) (w₁.own t d)
            · simp only [onError, hok, andThen]
              cases checkTruncated d.recvResult with
              | some error =>
                  refine ⟨fun p h => (by cases h), .inr ⟨d, hdeliveries, .inr ⟨rfl, ?_⟩⟩⟩
                  rw [← hown]
                  rfl
              | none =>
                  exact ⟨fun p h => (by cases h), .inr ⟨d, hdeliveries, .inl ⟨rfl, hown⟩⟩⟩
            · simp only [onError, herr, andThen]
              refine ⟨fun p h => (by cases h), .inr ⟨d, hdeliveries, .inr ⟨rfl, ?_⟩⟩⟩
              rw [← hown]
              rfl
        | err e =>
            rw [run_receiveChecked_err hrecv]
            simp only [deliveryOf, List.append_nil] at hdeliveries
            exact ⟨fun p h => (by cases h), .inl ⟨rfl, hfds, hdeliveries⟩⟩
        | panic p => exact absurd (congrArg Prod.fst hrecv) (awaitRecv_ne_panic _ _ _ p)
        | pending c =>
            rw [run_receiveChecked_pending hrecv]
            simp only [deliveryOf, List.append_nil] at hdeliveries
            exact ⟨fun p h => (by cases h), .inl ⟨rfl, hfds, hdeliveries⟩⟩
  exact ⟨fun w => (hall w).1, fun w => (hall w).2⟩

/-! ## The low-level send -/

/-- The storage of the guide holds one descriptor, so `unwrap` succeeds and the send is the
convenience send. -/
theorem send_eq (hspace : t.layout.CMSG_SPACE 4 ≤ 128) (file : RawFd) (w : World) :
    (send t file).run w = (sendFdsImpl t [70] [file]).run w := by
  have hlen : [file].length * 4 ≤ i32Max := by
    rw [List.length_singleton]
    decide
  have husize : 128 ≤ t.layout.usizeMax := le_trans (by decide) t.layout.u32Max_le_usizeMax
  let storage : Storage t := ⟨zeroed 128, by simpa [zeroed] using husize⟩
  obtain ⟨anc, hrun, hmode, hreceived, hcontrol⟩ :=
    run_addFds_fits storage hlen fun _ => by simpa [storage, zeroed] using hspace
  have hadd : (unwrap (SocketAncillary.addFds t [file])).run (.new (zeroed 128), w) =
      (.ok (), (anc, w)) := by
    simp only [unwrap]
    rw [show zeroed 128 = storage.1 from rfl, hrun]
  have hsend : cmsgSendmsg t [[70]] anc = sendWith t (sendCallFor t [[70]] [file]) := by
    rw [cmsgSendmsg, if_neg (by simp [hmode]), sendmsgVectored, hcontrol]
    rfl
  have hnone : anc.receivedFds = [] := by
    rw [SocketAncillary.receivedFds, hreceived]
    rfl
  rw [sendFdsImpl, sendFdsVectoredImpl_eq _ hlen, ← hsend]
  simp only [send, withAncillary]
  rw [bind_ok hadd, bind_ok (run_read ..)]
  simp only [onSnd, hnone, World.close_nil]

/-! ## The exchange -/

/-- An exact receive gets nothing, or it returns all of the one delivery, which has the
number of descriptors that was asked for, or closes all of it. -/
theorem recvCore_exact_or (kind : SocketKind) {n : Nat} (hn : 4 * n ≤ i32Max) (w : World) :
    let r := (recvCore t kind (.exact n)).run w
    (∀ p, r.1 ≠ .panic p) ∧ (Undelivered w r ∨ ∃ d, r.2.deliveries = w.deliveries ++ [d] ∧
      ((r.1 = .ok (d.data.length, d.rights t, 0) ∧ (d.rights t).length = n ∧
          r.2.fds = (w.fds.openAll d.installed).closeAll (d.pidfds t)) ∨
        (∃ e, r.1 = .err e) ∧
          r.2.fds = ((w.fds.openAll d.installed).closeAll (d.pidfds t)).closeAll
            (d.rights t))) := by
  intro r
  have hsized : Sized (recvControlSize t (.exact n)) (t.recvSpace n)
      (recvCore t kind (.exact n)) := sized_recvCore hn
  refine ⟨hsized.no_panic w, ?_⟩
  rcases recvCore_undelivered_or kind (.exact n) w with h | ⟨capacity, d, w₁, hsize, hrecv⟩
  · exact .inl h
  have hfds := awaitRecv_fds (t := t) capacity false w
  have hdeliveries := awaitRecv_deliveries (t := t) capacity false w
  rw [hrecv] at hfds hdeliveries
  have hr : r = _ := recvCore_delivery kind hsize hrecv
  have hown : (w₁.own t d).fds = (w.fds.openAll d.installed).closeAll (d.pidfds t) := by
    rw [World.own, World.deliver, World.close, hfds]
  refine .inr ⟨d, ?_⟩
  obtain ⟨fcntls, flags, hok | ⟨e, -, herr⟩⟩ := cloexecFds_run t (d.rights t) (w₁.own t d)
  · simp only [onError, hok, andThen] at hr
    by_cases hrej : Rejected kind (.exact n) d.result (d.rights t).length
    · rw [applyPolicy_rejected _ hrej] at hr
      rw [hr, ← hown]
      exact ⟨hdeliveries, .inr ⟨⟨_, rfl⟩, rfl⟩⟩
    · have hcount : (d.rights t).length = n := by
        by_contra hne
        exact hrej (.inr (.inr ⟨n, rfl, hne⟩))
      rw [applyPolicy_exact _ hrej] at hr
      rw [hr, ← hown]
      exact ⟨hdeliveries, .inl ⟨rfl, hcount, rfl⟩⟩
  · simp only [onError, herr, andThen] at hr
    rw [hr, ← hown]
    exact ⟨hdeliveries, .inr ⟨⟨_, rfl⟩, rfl⟩⟩

/-- `expect` succeeds: the exact receive returns one descriptor, which is handed over or
closed. -/
theorem checkMarker_run (bytesRead : Nat) (fd : RawFd) (w : World) :
    (checkMarker (bytesRead, [fd])).run w = (.ok fd, w) ∨
      (checkMarker (bytesRead, [fd])).run w = (.err invalidMarkerError, w.close [fd]) := by
  rw [checkMarker, bind_ok (run_read ..)]
  by_cases hmarker : bytesRead ≠ 1 ∨ w.iov.flatten ≠ [70]
  · rw [if_pos hmarker]
    exact .inr rfl
  · rw [if_neg hmarker]
    exact .inl rfl

theorem AllOrNone.of_eq {w w₁ w' : World} {fds : Option (List RawFd)} (h : AllOrNone t w₁ fds w')
    (hfds : w₁.fds = w.fds) (hdeliveries : w₁.deliveries = w.deliveries) :
    AllOrNone t w fds w' := by
  rw [AllOrNone, hfds, hdeliveries] at h
  exact h

/-- The receiving half of the exchange. -/
theorem safe_received : Safe t (fun fd => [fd])
    (UnixStreamExt.recvFdsExactInto t .blocking 1 [0] >>= checkMarker) := by
  have hall : ∀ w, let r := (UnixStreamExt.recvFdsExactInto t .blocking 1 [0] >>= checkMarker).run w
      (∀ p, r.1 ≠ .panic p) ∧ AllOrNone t w (returned (fun fd => [fd]) r.1) r.2 := by
    intro w r
    have hr : r = andThen checkMarker (andThen (fun r => pure (r.1, r.2.1))
      ((recvCore t .stream (.exact 1)).run { w with iov := [[0]] })) := rfl
    obtain ⟨hpanic, hcases⟩ := recvCore_exact_or (t := t) .stream (n := 1) (by decide)
      { w with iov := [[0]] }
    generalize (recvCore t .stream (.exact 1)).run { w with iov := [[0]] } = r₀ at hr hpanic hcases
    obtain ⟨o, w₁⟩ := r₀
    rcases hcases with ⟨hnone, hfds, hdeliveries, -⟩ |
      ⟨d, hdeliveries, ⟨rfl, hcount, hfds⟩ | ⟨⟨e, rfl⟩, hfds⟩⟩
    · rw [hr]
      cases o with
      | ok a => exact absurd rfl (hnone a)
      | err e => exact ⟨fun p h => (by cases h), .inl ⟨rfl, hfds, hdeliveries⟩⟩
      | panic p => exact absurd rfl (hpanic p)
      | pending c => exact ⟨fun p h => (by cases h), .inl ⟨rfl, hfds, hdeliveries⟩⟩
    · obtain ⟨fd, hfd⟩ := List.length_eq_one_iff.mp hcount
      have hone : r = (checkMarker (d.data.length, [fd])).run w₁ := by
        rw [hr, hfd]
        rfl
      rw [hone]
      rcases checkMarker_run d.data.length fd w₁ with hok | herr
      · rw [hok]
        refine ⟨fun p h => (by cases h), .inr ⟨d, hdeliveries, .inl ⟨?_, hfds⟩⟩⟩
        rw [hfd]
        rfl
      · rw [herr]
        refine ⟨fun p h => (by cases h), .inr ⟨d, hdeliveries, .inr ⟨rfl, ?_⟩⟩⟩
        rw [hfd]
        exact congrArg (·.closeAll [fd]) hfds
    · rw [hr]
      exact ⟨fun p h => (by cases h), .inr ⟨d, hdeliveries, .inr ⟨rfl, hfds⟩⟩⟩
  exact ⟨fun w => (hall w).1, fun w => (hall w).2⟩

theorem safe_transfer (file : RawFd) : Safe t (fun fd => [fd]) (transfer t file) := by
  have hlen : [file].length * 4 ≤ i32Max := by
    rw [List.length_singleton]
    decide
  have hsend : NeverPanics (UnixStreamExt.sendFdsAll t .blocking [70] [file]) := by
    intro w p hp
    obtain ⟨attempts, hrun⟩ := @sendingRun_all t .blocking [70] [file] hlen (by simp) w
    rcases hrun.sending.ends with h | ⟨_, h⟩ | ⟨_, h, -⟩ | h
    all_goals cases hp.symm.trans h
  constructor
  · exact hsend.bind fun _ => safe_received.no_panic
  · intro w
    have hfds := (Transmission.streamFdsAll [70] [file]).run_fds t .blocking w
    have hdeliveries := (Transmission.streamFdsAll [70] [file]).run_deliveries t .blocking w
    have hpanic := hsend w
    rw [transfer, run_bind]
    simp only [Transmission.run] at hfds hdeliveries
    generalize (UnixStreamExt.sendFdsAll t .blocking [70] [file]).run w = r
      at hfds hdeliveries hpanic ⊢
    obtain ⟨o, w₁⟩ := r
    cases o with
    | ok a => exact (safe_received.all_or_none w₁).of_eq hfds hdeliveries
    | err e => exact .inl ⟨rfl, hfds, hdeliveries⟩
    | panic p => exact absurd rfl (hpanic p)
    | pending c => exact .inl ⟨rfl, hfds, hdeliveries⟩

/-- The programs of the guide are safe, whatever the kernel answers. The low-level send is
the convenience send where the storage of the guide has room for one descriptor, and so does
not panic; the two others do not panic either, and they hand over all descriptors of the one
delivery that they get or close all of them. -/
theorem guide_programs_safe (hspace : t.layout.CMSG_SPACE 4 ≤ 128) (file : RawFd) :
    (∀ w, (send t file).run w = (sendFdsImpl t [70] [file]).run w) ∧
    NeverPanics (send t file) ∧ Safe t id (receive t) ∧
    Safe t (fun fd => [fd]) (transfer t file) := by
  refine ⟨send_eq hspace file, fun w p => ?_, safe_receive, safe_transfer file⟩
  have hone : 4 * [file].length ≤ i32Max := by
    rw [List.length_singleton]
    decide
  rw [send_eq hspace file w]
  exact (sized_send (List.cons_ne_nil _ _) hone .blocking [[70]]).no_panic w p

/-- A marker with one descriptor, and a marker with two. -/
theorem guide_programs_safe_marker :
    let one : Delivery := ⟨[70], Target.linux64.layout.encodeMessage ⟨1, 1, [7, 0, 0, 0]⟩,
      false, false, [7]⟩
    let two : Delivery := ⟨[70], Target.linux64.layout.encodeMessage
      ⟨1, 1, [7, 0, 0, 0, 8, 0, 0, 0]⟩, false, false, [7, 8]⟩
    let w d := World.scripted [.ok 1] [.ok d]
    ((transfer .linux64 5).run (w one)).1 = .ok 7 ∧
      ((transfer .linux64 5).run (w two)).1 = .err (countError 1 2) ∧
      AllOrNone .linux64 (w two) none ((transfer .linux64 5).run (w two)).2 := by
  intro one two w
  obtain ⟨-, -, -, htransfer⟩ := guide_programs_safe (t := .linux64) (by decide) 5
  have hrejected : ((transfer .linux64 5).run (w two)).1 = .err (countError 1 2) := by
    decide +kernel
  have hall := htransfer.all_or_none (w two)
  rw [hrejected] at hall
  exact ⟨by decide +kernel, hrejected, hall⟩

end Migration

end UnixAncillary
