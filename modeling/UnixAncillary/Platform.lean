import UnixAncillary.Received

/-!
# Platform-specific glue

Targets with `MSG_CMSG_CLOEXEC` leave close-on-exec to the kernel; the others set it
by `fcntl` after the receive, and Apple's also need `SO_NOSIGPIPE` before a send. The
receive budget is a constant or a clamped `RLIMIT_NOFILE`.
-/

namespace UnixAncillary

open HandleTable Program Program.Prog

variable (t : Target)

/-- `RECV_FLAGS` asks the kernel to set `FD_CLOEXEC`. -/
def recvCmsgCloexec : Bool := !t.cloexecFallback

/-- `SEND_FLAGS` holds `MSG_NOSIGNAL`. -/
def sendNoSignal : Bool := !t.cloexecFallback

/-! ## Before a send -/

/-- XNU rejects `setsockopt` with `EINVAL` on a socket whose peer is gone; a send
would have failed with `EPIPE`. -/
def nosigpipeError : OsError → OsError
  | .EINVAL => .EPIPE
  | error => error

/-- The call ends an attempt to send: its answer is neither `EINTR` nor `WouldBlock`. -/
def Attempt.finishedSend : Attempt → Bool
  | .sendmsg _ (.ok _) => true
  | .sendmsg _ (.error e) => e ≠ .EINTR ∧ e ≠ .EAGAIN
  | .recvmsg .. => false

/-- The call ends an attempt to send with `WouldBlock`. -/
def Attempt.blockedSend : Attempt → Bool
  | .sendmsg _ (.error e) => e = .EAGAIN
  | _ => false

/-- The attempts to send that are over, other than the blocked ones. -/
def World.finished (w : World) : Nat := w.refusals + w.trace.countP (·.finishedSend)

/-- The attempts to send that were blocked. -/
def World.blocked (w : World) : Nat := w.trace.countP (·.blockedSend)

/-- What `setsockopt(SO_NOSIGPIPE)` answers now. -/
def World.nosigpipeAnswer (w : World) : Option OsError :=
  (w.nosigpipe w.finished w.blocked).map Subtype.val

/-- The world after a refused attempt. -/
def World.refuse (w : World) : World := { w with refusals := w.refusals + 1 }

def prepareSend : Sys Unit := do
  if t.os = .apple then
    match ← read (·.nosigpipeAnswer) with
    | some error => do
        update World.refuse
        throw (.os (nosigpipeError error))
    | none => pure ()
  else pure ()

/-- The error with which an attempt to send is refused before its call, after `k` finished
and `j` blocked ones. -/
def Target.refusal (nosigpipe : Nat → Nat → Option SetsockoptError) (k j : Nat) :
    Option OsError :=
  if t.os = .apple then (nosigpipe k j).map fun error => nosigpipeError error.1 else none

/-- Whether the next attempt to send is refused, and with which error. -/
def World.refusal (w : World) : Option OsError := t.refusal w.nosigpipe w.finished w.blocked

/-- A retry after `WouldBlock` is answered by `setsockopt` as the blocked attempt was. -/
def Target.Steady (nosigpipe : Nat → Nat → Option SetsockoptError) : Prop :=
  t.os = .apple → ∀ k j, nosigpipe k j = nosigpipe k 0

/-- Only `setsockopt` can stop a send before its call. -/
theorem prepareSend_ok {w : World} (h : w.refusal t = none) :
    (prepareSend t).run w = (.ok (), w) := by
  rw [World.refusal, Target.refusal] at h
  rw [prepareSend]
  by_cases happle : t.os = .apple
  · rw [if_pos happle, Option.map_eq_none_iff] at h
    rw [if_pos happle, bind_ok (run_read ..), World.nosigpipeAnswer, h]
    rfl
  · rw [if_neg happle]
    rfl

theorem prepareSend_err {w : World} {e : OsError} (h : w.refusal t = some e) :
    (prepareSend t).run w = (.err (.os e), w.refuse) := by
  rw [World.refusal, Target.refusal] at h
  rw [prepareSend]
  by_cases happle : t.os = .apple
  · rw [if_pos happle, Option.map_eq_some_iff] at h
    obtain ⟨error, herror, rfl⟩ := h
    rw [if_pos happle, bind_ok (run_read ..), World.nosigpipeAnswer, herror]
    rfl
  · rw [if_neg happle] at h
    cases h

theorem nosigpipeError_ne {error : OsError} (h : error ≠ .EAGAIN) :
    nosigpipeError error ≠ .EAGAIN := by
  cases error <;> simp_all [nosigpipeError]

/-- A refusal comes from `setsockopt`, which never blocks. -/
theorem Target.refusal_some {nosigpipe : Nat → Nat → Option SetsockoptError} {k j : Nat}
    {e : OsError} (h : t.refusal nosigpipe k j = some e) : t.os = .apple ∧ e ≠ .EAGAIN := by
  rw [Target.refusal] at h
  split at h
  case isTrue happle =>
      obtain ⟨error, -, rfl⟩ := Option.map_eq_some_iff.mp h
      exact ⟨happle, nosigpipeError_ne error.2⟩
  case isFalse => cases h

/-! ## After a receive -/

def FD_CLOEXEC : Nat := 1

/-- The result of one `fcntl` call. -/
def fcntl : Sys Unit :=
  ⟨fun w => match w.fcntls with
    | [] => (.ok (), w)
    | none :: rest => (.ok (), { w with fcntls := rest })
    | some error :: rest => (.err (.os error), { w with fcntls := rest })⟩

def setCloexec (fd : RawFd) : Sys Unit := do
  fcntl
  let flags ← read (·.flags fd)
  fcntl
  update fun w => { w with flags := Function.update w.flags fd (flags ||| FD_CLOEXEC) }

/-- `fallback::cloexec_fds`. -/
def setCloexecAll : List RawFd → Sys Unit
  | [] => pure ()
  | fd :: fds => do
      setCloexec fd
      setCloexecAll fds

/-- `fallback::cloexec_received`. -/
def setCloexecReceived : List ReceivedMessage → Sys Unit
  | [] => pure ()
  | message :: messages => do
      setCloexecAll message.fds
      setCloexecReceived messages

def cloexecFds (fds : List RawFd) : Sys Unit :=
  if t.cloexecFallback then setCloexecAll fds else pure ()

def cloexecReceived (messages : List ReceivedMessage) : Sys Unit :=
  if t.cloexecFallback then setCloexecReceived messages else pure ()

/-- The per-message path works through the same descriptors as the flat one. -/
theorem run_setCloexecAll_append (as bs : List RawFd) (w : World) :
    (setCloexecAll (as ++ bs)).run w =
      (setCloexecAll as >>= fun _ => setCloexecAll bs).run w := by
  induction as generalizing w with
  | nil => rfl
  | cons fd as ih =>
      rw [List.cons_append, setCloexecAll, setCloexecAll, run_bind, run_bind, run_bind]
      obtain ⟨o, w'⟩ := (setCloexec fd).run w
      cases o with
      | ok a => exact ih w'
      | err e => rfl
      | panic p => rfl
      | pending c => rfl

theorem setCloexecReceived_eq (messages : List ReceivedMessage) (w : World) :
    (setCloexecReceived messages).run w =
      (setCloexecAll (messages.flatMap ReceivedMessage.fds)).run w := by
  induction messages generalizing w with
  | nil => rfl
  | cons message messages ih =>
      rw [List.flatMap_cons, run_setCloexecAll_append, setCloexecReceived, run_bind, run_bind]
      obtain ⟨o, w'⟩ := (setCloexecAll message.fds).run w
      cases o with
      | ok a => exact ih w'
      | err e => rfl
      | panic p => rfl
      | pending c => rfl

/-- Setting close-on-exec changes nothing but the flags. -/
theorem setCloexecAll_world (fds : List RawFd) (w : World) : ∃ fcntls flags,
    ((setCloexecAll fds).run w).2 = { w with fcntls := fcntls, flags := flags } := by
  let inv (w' : World) : Prop :=
    ∃ fcntls flags, w' = { w with fcntls := fcntls, flags := flags }
  have hfcntl : Preserves inv fcntl := by
    rintro _ ⟨fcntls, flags, rfl⟩
    simp only [fcntl]
    split <;> exact ⟨_, _, rfl⟩
  have hone : ∀ fd, Preserves inv (setCloexec fd) := fun fd =>
    .bind hfcntl fun _ => .bind (.of_read _) fun _ => .bind hfcntl fun _ => .of_update <| by
      rintro _ ⟨fcntls, flags, rfl⟩
      exact ⟨fcntls, _, rfl⟩
  have hall : Preserves inv (setCloexecAll fds) := by
    induction fds with
    | nil => exact .of_pure _
    | cons fd fds ih => exact .bind (hone fd) fun _ => ih
  exact hall w ⟨w.fcntls, w.flags, rfl⟩

/-- Setting close-on-exec succeeds or fails with the error of an `fcntl` call. -/
theorem setCloexecAll_outcome (fds : List RawFd) (w : World) :
    ((setCloexecAll fds).run w).1 = .ok () ∨
      ∃ e, some e ∈ w.fcntls ∧ ((setCloexecAll fds).run w).1 = .err (.os e) := by
  let inv (w' : World) : Prop := ∀ a ∈ w'.fcntls, a ∈ w.fcntls
  let E (error : IoError) : Prop := ∃ e, some e ∈ w.fcntls ∧ error = .os e
  have hfcntl : FailsOnly inv E fcntl := by
    constructor
    · intro w' hw'
      simp only [fcntl]
      split
      · exact hw'
      all_goals
        rename_i hlist
        exact fun a ha => hw' a (by rw [hlist]; exact List.mem_cons_of_mem _ ha)
    · intro w' hw'
      simp only [fcntl]
      split
      · exact .inl ⟨(), rfl⟩
      · exact .inl ⟨(), rfl⟩
      case h_3 e rest hlist =>
          exact .inr ⟨.os e, ⟨e, hw' _ (by rw [hlist]; exact List.mem_cons_self), rfl⟩, rfl⟩
  have hall : FailsOnly inv E (setCloexecAll fds) := by
    induction fds with
    | nil => exact .of_pure _
    | cons fd fds ih =>
        have hone : FailsOnly inv E (setCloexec fd) :=
          .bind hfcntl fun _ => .bind (.of_read _) fun _ => .bind hfcntl fun _ =>
            .of_update fun _ h => h
        exact .bind hone fun _ => ih
  rcases hall.outcome w fun _ h => h with ⟨a, h⟩ | ⟨_, ⟨e, hmem, rfl⟩, h⟩
  · exact .inl h
  · exact .inr ⟨e, hmem, h⟩

/-- The descriptor does not survive an `exec`. -/
def CloseOnExec (flags : RawFd → Nat) (fd : RawFd) : Prop := flags fd &&& FD_CLOEXEC = FD_CLOEXEC

instance (flags : RawFd → Nat) (fd : RawFd) : Decidable (CloseOnExec flags fd) :=
  inferInstanceAs (Decidable (_ = _))

theorem CloseOnExec.of_eq {flags flags' : RawFd → Nat} {fd : RawFd} (h : CloseOnExec flags fd)
    (hsame : flags' fd = flags fd) : CloseOnExec flags' fd := by
  rw [CloseOnExec, hsame]
  exact h

theorem closeOnExec_or (n : Nat) : (n ||| FD_CLOEXEC) &&& FD_CLOEXEC = FD_CLOEXEC := by
  simp [FD_CLOEXEC]

/-- Marking a descriptor marks it, and takes no mark away. -/
theorem closeOnExec_update {flags : RawFd → Nat} {fd fd' : RawFd}
    (h : fd' = fd ∨ CloseOnExec flags fd') :
    CloseOnExec (Function.update flags fd (flags fd ||| FD_CLOEXEC)) fd' := by
  by_cases hsame : fd' = fd
  · subst hsame
    rw [CloseOnExec, Function.update_self]
    exact closeOnExec_or _
  · exact (h.resolve_left hsame).of_eq (Function.update_of_ne hsame ..)

/-- `set_cloexec` sets the flag, or fails and changes no flag. -/
theorem setCloexec_cases (fd : RawFd) (w : World) : ∃ fcntls,
    (setCloexec fd).run w = (.ok (), { w with
      fcntls := fcntls
      flags := Function.update w.flags fd (w.flags fd ||| FD_CLOEXEC) }) ∨
    ∃ e, (setCloexec fd).run w = (.err e, { w with fcntls := fcntls }) := by
  have hfcntl : ∀ w : World, ∃ fcntls, fcntl.run w = (.ok (), { w with fcntls := fcntls }) ∨
      ∃ e, fcntl.run w = (.err e, { w with fcntls := fcntls }) := by
    intro w
    simp only [fcntl]
    split
    · exact ⟨w.fcntls, .inl rfl⟩
    · exact ⟨_, .inl rfl⟩
    · exact ⟨_, .inr ⟨_, rfl⟩⟩
  obtain ⟨fcntls, hget | ⟨e, hget⟩⟩ := hfcntl w
  · rw [setCloexec, bind_ok hget, bind_ok (run_read ..)]
    obtain ⟨fcntls', hset | ⟨e, hset⟩⟩ := hfcntl { w with fcntls := fcntls }
    · exact ⟨fcntls', .inl (by rw [bind_ok hset]; rfl)⟩
    · exact ⟨fcntls', .inr ⟨e, bind_err hset⟩⟩
  · exact ⟨fcntls, .inr ⟨e, bind_err hget⟩⟩

/-- A pass touches the flags of its own descriptors alone and takes no mark away, and one
that succeeds has marked them all. -/
theorem setCloexecAll_flags (fds : List RawFd) (w : World) :
    let r := (setCloexecAll fds).run w
    (∀ fd ∉ fds, r.2.flags fd = w.flags fd) ∧
    (∀ fd, CloseOnExec w.flags fd → CloseOnExec r.2.flags fd) ∧
    (r.1 = .ok () → ∀ fd ∈ fds, CloseOnExec r.2.flags fd) := by
  induction fds generalizing w with
  | nil => exact ⟨fun _ _ => rfl, fun _ h => h, fun _ _ h => by cases h⟩
  | cons fd fds ih =>
      intro r
      obtain ⟨fcntls, hok | ⟨e, herr⟩⟩ := setCloexec_cases fd w
      · let marked : World := { w with
          fcntls := fcntls
          flags := Function.update w.flags fd (w.flags fd ||| FD_CLOEXEC) }
        have hr : r = (setCloexecAll fds).run marked := bind_ok hok
        obtain ⟨hothers, hkeep, hall⟩ := ih marked
        rw [hr]
        refine ⟨fun fd' hnot => ?_, fun fd' h => hkeep fd' (closeOnExec_update (.inr h)),
          fun hdone fd' hmem => ?_⟩
        · obtain ⟨hne, hrest⟩ := not_or.mp (mt List.mem_cons.mpr hnot)
          exact (hothers fd' hrest).trans (Function.update_of_ne hne ..)
        · rcases List.mem_cons.mp hmem with rfl | hrest
          · exact hkeep fd' (closeOnExec_update (.inl rfl))
          · exact hall hdone fd' hrest
      · have hr : r = (.err e, { w with fcntls := fcntls }) := bind_err herr
        rw [hr]
        exact ⟨fun _ _ => rfl, fun _ h => h, fun h => by cases h⟩

/-- Every `fcntl` call to come succeeds, on the targets that make any. -/
def World.CloexecSucceeds (w : World) : Prop :=
  t.cloexecFallback = true → ∀ a ∈ w.fcntls, a = none

instance (w : World) : Decidable (w.CloexecSucceeds t) :=
  inferInstanceAs (Decidable (_ → ∀ a ∈ w.fcntls, a = none))

/-- Close-on-exec changes nothing but the flags; it fails only as an `fcntl` call does. -/
theorem cloexecFds_run (fds : List RawFd) (w : World) : ∃ fcntls flags,
    (cloexecFds t fds).run w = (.ok (), { w with fcntls := fcntls, flags := flags }) ∨
    ∃ e, (t.cloexecFallback = true ∧ some e ∈ w.fcntls) ∧
      (cloexecFds t fds).run w = (.err (.os e), { w with fcntls := fcntls, flags := flags }) := by
  rw [cloexecFds]
  split
  case isTrue hfallback =>
      obtain ⟨fcntls, flags, hw⟩ := setCloexecAll_world fds w
      rcases setCloexecAll_outcome fds w with hok | ⟨e, hmem, herr⟩
      · exact ⟨fcntls, flags, .inl (Prod.ext hok hw)⟩
      · exact ⟨fcntls, flags, .inr ⟨e, ⟨hfallback, hmem⟩, Prod.ext herr hw⟩⟩
  case isFalse =>
      exact ⟨w.fcntls, w.flags, .inl rfl⟩

/-- Close-on-exec succeeds when the `fcntl` calls do. -/
theorem cloexecFds_ok (fds : List RawFd) {w : World} (h : w.CloexecSucceeds t) :
    ∃ fcntls flags, (cloexecFds t fds).run w =
      (.ok (), { w with fcntls := fcntls, flags := flags }) := by
  obtain ⟨fcntls, flags, hok | ⟨e, ⟨hfallback, hmem⟩, -⟩⟩ := cloexecFds_run t fds w
  · exact ⟨fcntls, flags, hok⟩
  · cases h hfallback _ hmem

/-! ## Receive budget -/

/-- `1 << 20`. -/
def HARD_CEILING : Nat := 1048576

def HARD_FLOOR : Nat := 253

/-- Clamp a raw `RLIMIT_NOFILE` into `[HARD_FLOOR, HARD_CEILING]`, mapping
`RLIM_INFINITY` and unrepresentable values to the ceiling. -/
def clampNofile (cur : Nat) : Nat :=
  let n := if cur = t.RLIM_INFINITY then HARD_CEILING
    else if cur ≤ t.layout.usizeMax then cur else HARD_CEILING
  min (max n HARD_FLOOR) HARD_CEILING

/-- The descriptor budget of a receive under a soft limit. -/
def maxRecvFdsAt (rlimit : Option Nat) : Nat :=
  if t.cloexecFallback then rlimit.elim HARD_CEILING (clampNofile t) else 253

def maxRecvFds : Sys Nat := read fun w => maxRecvFdsAt t w.rlimit

theorem hardFloor_le_hardCeiling : HARD_FLOOR ≤ HARD_CEILING := by
  simp only [HARD_FLOOR, HARD_CEILING]
  omega

theorem clampNofile_mem (cur : Nat) :
    HARD_FLOOR ≤ clampNofile t cur ∧ clampNofile t cur ≤ HARD_CEILING :=
  ⟨le_min (le_max_right ..) hardFloor_le_hardCeiling, min_le_right ..⟩

/-- Whatever the limit is, the budget lies between the floor and the ceiling. -/
theorem maxRecvFdsAt_mem (rlimit : Option Nat) :
    HARD_FLOOR ≤ maxRecvFdsAt t rlimit ∧ maxRecvFdsAt t rlimit ≤ HARD_CEILING := by
  rw [maxRecvFdsAt]
  split
  · cases rlimit with
    | none => exact ⟨hardFloor_le_hardCeiling, le_rfl⟩
    | some cur => exact clampNofile_mem t cur
  · exact ⟨le_rfl, hardFloor_le_hardCeiling⟩

end UnixAncillary
