import UnixAncillary.PayloadRule
import UnixAncillary.Policy

/-!
# The size of the control storage

Sends and receives reserve the storage that `buffer_size_for_rights` computes, which is
documented to panic where the size is not a `usize` and panics for every payload above
`i32::MAX`. `sizing_rule_iff` gives the counts for which the sizing is what it promises, and
every call that is made has the reserved size.
-/

namespace UnixAncillary

open ByteCodec HandleTable Program Program.Prog

variable (t : Target)

/-- The space of a rights message with `n` descriptors: the header and the aligned payload. -/
def Target.rightsSpace (n : Nat) : Nat := t.layout.headerLen + roundUp t.layout.align (4 * n)

/-- The space of a credentials message, where the target has them. -/
def Target.credentialsSpace : Nat :=
  if t.hasCredentials then t.layout.headerLen + roundUp t.layout.align ScmCredentials.SIZE else 0

/-! ## The helper -/

/-- `buffer_size_for_rights` as documented: the space, and a panic only where the space is not
a `usize`. -/
def HelperRule (n : Nat) : Prop :=
  if t.rightsSpace n ≤ t.layout.usizeMax
  then t.layout.bufferSizeForRights n = .ok (t.rightsSpace n)
  else ∃ p, t.layout.bufferSizeForRights n = .error p

section Helper

variable {t} {n : Nat}

theorem bufferSizeForRights_ok (h : 4 * n ≤ i32Max) :
    t.layout.bufferSizeForRights n = .ok (t.rightsSpace n) := by
  rw [Nat.mul_comm] at h
  rw [t.layout.bufferSizeForRights_eq h, t.layout.space_eq _ h, Target.rightsSpace, Nat.mul_comm]

/-- Beyond `i32::MAX` the helper panics, representable or not. -/
theorem bufferSizeForRights_panic (h : i32Max < 4 * n) : t.layout.bufferSizeForRights n =
    .error (.expectFailed "ancillary buffer size overflow") := by
  rw [Nat.mul_comm] at h
  rw [Layout.bufferSizeForRights, Layout.checkedMul]
  by_cases hmul : n * 4 ≤ t.layout.usizeMax
  · rw [if_pos hmul]
    simp only [Layout.cmsgSpace_eq, Layout.space?, if_neg (Nat.not_le.mpr h)]
    rfl
  · rw [if_neg hmul]

theorem rightsSpace_le (h : 4 * n ≤ i32Max) : t.rightsSpace n ≤ t.layout.usizeMax := by
  rw [Target.rightsSpace, ← t.layout.space_eq _ h]
  exact (t.layout.space_lt _ h).trans t.layout.u32Max_le_usizeMax

/-- The helper departs from its documentation between `i32::MAX` and `usize::MAX`. -/
theorem helper_rule_iff :
    HelperRule t n ↔ 4 * n ≤ i32Max ∨ t.layout.usizeMax < t.rightsSpace n := by
  rw [HelperRule]
  constructor
  · intro h
    rcases Nat.lt_or_ge i32Max (4 * n) with hover | hfits
    · right
      by_contra hrepr
      rw [if_pos (Nat.not_lt.mp hrepr), bufferSizeForRights_panic hover] at h
      cases h
    · exact .inl hfits
  · rintro (hfits | hover)
    · rw [if_pos (rightsSpace_le hfits)]
      exact bufferSizeForRights_ok hfits
    · rw [if_neg (Nat.not_le.mpr hover)]
      have hlarge : i32Max < 4 * n := by
        by_contra hfits
        exact absurd (rightsSpace_le (Nat.not_lt.mp hfits)) (Nat.not_le.mpr hover)
      exact ⟨_, bufferSizeForRights_panic hlarge⟩

end Helper

/-! ## The operations -/

/-- The control storage that an answered call named. -/
def Attempt.reserved : Attempt → Nat
  | .sendmsg call _ => (call.control.getD []).length
  | .recvmsg call _ => call.control

/-- From `w` to `w'` the descriptor limit stays, and every call that was answered named `size`
bytes of control storage. -/
def Reserves (size : Nat) (w w' : World) : Prop :=
  w'.rlimit = w.rlimit ∧ ∃ made, w'.trace = w.trace ++ made ∧ ∀ a ∈ made, a.reserved = size

/-- The sizing step of `m` obtains exactly `size` bytes, and every call of `m` names them, or
`m` is refused; and `m` does not panic. -/
structure Sized {α : Type} (sizing : Sys Nat) (size : World → Nat) (m : Sys α) : Prop where
  sized : ∀ w, (sizing.run w = (.ok (size w), w) ∧ Preserves (Reserves (size w) w) m) ∨
    Refused w (m.run w)
  no_panic : NeverPanics m

/-- The bytes that a receive reserves. -/
def Target.recvSpace (n : Nat) (w : World) : Nat :=
  t.rightsSpace (max n (maxRecvFdsAt t w.rlimit)) + t.credentialsSpace

/-- The sizing for `n` descriptors: that of the helper, of every send of `n` descriptors and
of every receive that asks for `n`. The two receives are the bodies of all receives. -/
structure SizingRule (n : Nat) : Prop where
  helper : HelperRule t n
  send : ∀ (rt : Runtime) (iov : List Bytes) (fds : List RawFd), fds ≠ [] → fds.length = n →
    Sized (ofExcept (t.layout.bufferSizeForRights n)) (fun _ => t.rightsSpace n)
      (rt.io (sendFdsVectoredImpl t iov fds))
  into : ∀ (rt : Runtime) (kind : SocketKind) (mode : CountMode), mode.count = n →
    Sized (recvControlSize t mode) (t.recvSpace n) (rt.io (recvFdsIntoVectoredImpl t kind mode))
  owned : ∀ (rt : Runtime) (kind : SocketKind) (mode : CountMode), mode.count = n →
    Sized (recvControlSize t mode) (t.recvSpace n) (rt.io (recvOwnedImpl t kind mode))

section Retries

variable {α : Type} {m : Sys α} (rt : Runtime)

theorem run_io_settled {w : World} (h : ∀ e, (m.run w).1 = .err e → e.isWouldBlock = false) :
    (rt.io m).run w = m.run w := by
  cases rt with
  | blocking => rfl
  | tokio => exact run_retry_settled h _ _

theorem neverPanics_io (hm : NeverPanics m) : NeverPanics (rt.io m) := by
  cases rt with
  | blocking => exact hm
  | tokio => exact fun w => hm.retry _ _ w

theorem preserves_io {inv : World → Prop} (hm : Preserves inv m) : Preserves inv (rt.io m) := by
  cases rt with
  | blocking => exact hm
  | tokio => exact fun w hw => hm.retry _ _ w hw

/-- A refusal is not retried. -/
theorem refused_io {w : World} (h : Refused w (m.run w)) : Refused w ((rt.io m).run w) := by
  obtain ⟨e, hrun, hkind⟩ := h
  rw [run_io_settled rt]
  · exact ⟨e, hrun, hkind⟩
  · intro e' he
    rw [hrun] at he
    cases he
    simp [IoError.isWouldBlock, hkind]

theorem Sized.io {sizing : Sys Nat} {size : World → Nat} (h : Sized sizing size m) :
    Sized sizing size (rt.io m) where
  sized w := (h.sized w).imp (.imp_right (preserves_io rt)) (refused_io rt)
  no_panic := neverPanics_io rt h.no_panic

end Retries

section Sends

variable {t} {fds : List RawFd} {size : Nat} {w : World}

/-- One more answered call. -/
theorem Reserves.record {w' w'' : World} (h : Reserves size w w') {a : Attempt}
    (hlimit : w''.rlimit = w'.rlimit) (htrace : w''.trace = w'.trace ++ [a])
    (ha : a.reserved = size) : Reserves size w w'' := by
  obtain ⟨hrlimit, made, hmade, hall⟩ := h
  refine ⟨hlimit.trans hrlimit, made ++ [a], ?_, ?_⟩
  · rw [htrace, hmade, List.append_assoc]
  · exact List.forall_mem_append.mpr ⟨hall, List.forall_mem_singleton.mpr ha⟩

/-- Every attempt of a send names the control bytes of its call. -/
theorem preserves_sendWith {call : SendCall} (hcall : (call.control.getD []).length = size) :
    Preserves (Reserves size w) (sendWith t call) := by
  refine .bind (fun w' h => ?_) fun _ w' h => Call.loop_inv (fun w' a rest h => ?_) h
  · cases hrefusal : w'.refusal t with
    | none =>
        rw [prepareSend_ok t hrefusal]
        exact h
    | some e =>
        rw [prepareSend_err t hrefusal]
        exact h
  · exact h.record (a := .sendmsg call a) rfl rfl hcall

/-- The control bytes of a convenience send are as many as the helper says. -/
theorem length_controlFor (hne : fds ≠ []) (hlen : 4 * fds.length ≤ i32Max) :
    ((controlFor t fds).getD []).length = t.rightsSpace fds.length := by
  have hdata : (SocketAncillary.rightsMessage t fds).data.length = 4 * fds.length := by
    rw [SocketAncillary.rightsMessage, SocketAncillary.length_encodeFds, Nat.mul_comm]
  rw [controlFor, if_neg hne, Option.getD_some, length_encodeMessage _ (hdata.trans_le hlen), hdata,
    t.layout.space_eq _ hlen, Target.rightsSpace]

/-- A send of an admissible number of descriptors. -/
theorem sized_send (hne : fds ≠ []) (hlen : 4 * fds.length ≤ i32Max) (rt : Runtime)
    (iov : List Bytes) :
    Sized (ofExcept (t.layout.bufferSizeForRights fds.length)) (fun _ => t.rightsSpace fds.length)
      (rt.io (sendFdsVectoredImpl t iov fds)) where
  sized w := by
    rw [bufferSizeForRights_ok hlen, sendFdsVectoredImpl_eq iov (by omega)]
    exact .inl ⟨rfl, preserves_io rt (preserves_sendWith (length_controlFor hne hlen))⟩
  no_panic := by
    rw [sendFdsVectoredImpl_eq iov (by omega)]
    intro w p
    obtain ⟨answers, h⟩ := turned_io (t := t) rt (sendCallFor t iov fds) w
    exact h.turn.ne_panic p

/-- A send of more descriptors panics. -/
theorem sendFdsVectoredImpl_panic (h : i32Max < 4 * fds.length) (iov : List Bytes) (w : World) :
    (sendFdsVectoredImpl t iov fds).run w =
      (.panic (.expectFailed "ancillary buffer size overflow"), w) := by
  have hne : fds ≠ [] := by
    rintro rfl
    exact absurd h (Nat.not_lt_zero _)
  rw [sendFdsVectoredImpl, if_neg hne, bufferSizeForRights_panic h]
  rfl

end Sends

section Receives

variable {t} {kind : SocketKind} {mode : CountMode} {rlimit : Option Nat}

/-- The sizing of a receive of an admissible number is exact, or its sum overflows. -/
theorem controlSizeAt_cases (h : 4 * max mode.count (maxRecvFdsAt t rlimit) ≤ i32Max) :
    controlSizeAt t mode rlimit =
        .ok (t.rightsSpace (max mode.count (maxRecvFdsAt t rlimit)) + t.credentialsSpace) ∨
      controlSizeAt t mode rlimit = .err controlOverflowError := by
  have hcreds : t.layout.CMSG_SPACE ScmCredentials.SIZE =
      t.layout.headerLen + roundUp t.layout.align ScmCredentials.SIZE :=
    t.layout.space_eq _ (by decide)
  rw [controlSizeAt, bufferSizeForRights_ok h, t.layout.bufferSizeForCredentials_eq, hcreds,
    Target.credentialsSpace]
  cases t.hasCredentials with
  | false => exact .inl rfl
  | true =>
      simp only [if_true, Layout.checkedAdd]
      by_cases hfits : t.rightsSpace (max mode.count (maxRecvFdsAt t rlimit)) +
          (t.layout.headerLen + roundUp t.layout.align ScmCredentials.SIZE) ≤ t.layout.usizeMax
      · rw [if_pos hfits]
        exact .inl rfl
      · rw [if_neg hfits]
        exact .inr rfl

theorem neverPanics_recvFds (buf : Bytes) : NeverPanics (recvFds t buf) := by
  intro w p hp
  cases hr : (awaitRecv t buf.length false).run w with
  | mk o w₁ =>
      cases o with
      | ok d =>
          rw [recvFds_of_delivery hr] at hp
          obtain ⟨fcntls, flags, hok | ⟨e, -, herr⟩⟩ := cloexecFds_run t (d.rights t) (w₁.own t d)
          · simp only [onError, hok, andThen] at hp
            cases hp
          · simp only [onError, herr, andThen] at hp
            cases hp
      | err e =>
          rw [run_recvFds_err hr] at hp
          cases hp
      | panic p' => exact absurd (congrArg Prod.fst hr) (awaitRecv_ne_panic _ _ _ p')
      | pending c =>
          rw [run_recvFds_pending hr] at hp
          cases hp

theorem neverPanics_rejectFds {α : Type} (fds : List RawFd) (error : IoError) :
    NeverPanics (rejectFds fds error : Sys α) :=
  .bind (.of_update _) fun _ => .of_throw _

theorem neverPanics_applyPolicy (result : RecvMsgResult) (fds : List RawFd) :
    NeverPanics (applyPolicy kind mode result fds) := by
  rw [applyPolicy.eq_def]
  split
  · exact neverPanics_rejectFds _ _
  split
  · exact neverPanics_rejectFds _ _
  cases mode with
  | upTo n => exact .bind (.of_update _) fun _ => .of_pure _
  | exact n =>
      simp only
      split
      · exact neverPanics_rejectFds _ _
      · exact .of_pure _

/-- A receive from storage of `size` bytes names them in every call. -/
theorem preserves_recvFds {size : Nat} {w : World} {buf : Bytes}
    (hcall : ∀ w', (recvCall t buf.length false w').control = size) :
    Preserves (Reserves size w) (recvFds t buf) := by
  have hrecv : Preserves (Reserves size w) (awaitRecv t buf.length false) := fun w' h =>
    Call.loop_inv (fun w'' a rest h => h.record (a := .recvmsg _ a) rfl rfl (hcall w')) h
  have hraw : Preserves (Reserves size w) (recvmsgRaw t buf false) :=
    .bind hrecv fun _ => .bind (.of_update fun _ h => h) fun _ => .of_pure _
  have htake : ∀ bytes, Preserves (Reserves size w) (takeFdsFrom t bytes) := by
    intro bytes w' h
    simp only [takeFdsFrom, takeFds_eq]
    exact h
  have hcloexec : ∀ fds, Preserves (Reserves size w) (cloexecFds t fds) := by
    intro fds w' h
    obtain ⟨fcntls, flags, hok | ⟨e, -, herr⟩⟩ := cloexecFds_run t fds w'
    · rw [hok]
      exact h
    · rw [herr]
      exact h
  exact .bind hraw fun _ => .bind (.of_ofExcept _) fun _ => .bind (htake _) fun fds =>
    .bind (.onError (hcloexec fds) fun _ h => h) fun _ => .of_pure _

theorem preserves_rejectFds {α : Type} {size : Nat} {w : World} (fds : List RawFd)
    (error : IoError) : Preserves (Reserves size w) (rejectFds fds error : Sys α) :=
  .bind (.of_update fun _ h => h) fun _ => .of_throw _

theorem preserves_applyPolicy {size : Nat} {w : World} (result : RecvMsgResult)
    (fds : List RawFd) : Preserves (Reserves size w) (applyPolicy kind mode result fds) := by
  rw [applyPolicy.eq_def]
  split
  · exact preserves_rejectFds _ _
  split
  · exact preserves_rejectFds _ _
  cases mode with
  | upTo n => exact .bind (.of_update fun _ h => h) fun _ => .of_pure _
  | exact n =>
      simp only
      split
      · exact preserves_rejectFds _ _
      · exact .of_pure _

/-- Where the sizing is exact, every call of a receive names that size. -/
theorem preserves_recvCore {size : Nat} {w : World}
    (hsize : controlSizeAt t mode w.rlimit = .ok size) :
    Preserves (Reserves size w) (recvCore t kind mode) := by
  intro w' h
  have hsizing : (recvControlSize t mode).run w' = (.ok size, w') := by
    rw [run_recvControlSize, h.1, hsize]
  have hfds : Preserves (Reserves size w) (recvFds t (List.replicate size 0)) := by
    apply preserves_recvFds
    intro w''
    rw [List.length_replicate]
    exact recvCall_control t hsize false w''
  rw [recvCore, bind_ok hsizing]
  exact Preserves.bind hfds (fun _ => preserves_applyPolicy _ _) w' h

/-- A receive that asks for an admissible number. -/
theorem sized_recvCore (hn : 4 * mode.count ≤ i32Max) :
    Sized (recvControlSize t mode) (t.recvSpace mode.count) (recvCore t kind mode) := by
  have hcases : ∀ w : World, (recvControlSize t mode).run w = (.ok (t.recvSpace mode.count w), w) ∨
      (recvControlSize t mode).run w = (.err controlOverflowError, w) := by
    intro w
    rw [run_recvControlSize]
    have hmax := max_budget_le (t := t) hn w.rlimit
    rw [Nat.mul_comm] at hmax
    rcases controlSizeAt_cases hmax with hok | herr
    · exact .inl (Prod.ext hok rfl)
    · exact .inr (Prod.ext herr rfl)
  constructor
  · intro w
    refine (hcases w).imp (fun hok => ⟨hok, ?_⟩) fun herr => ?_
    · rw [run_recvControlSize] at hok
      exact preserves_recvCore (congrArg Prod.fst hok)
    · rw [recvCore, bind_err herr]
      exact ⟨_, rfl, rfl⟩
  · apply NeverPanics.bind
    · intro w p hp
      rcases hcases w with h | h
      · rw [h] at hp
        cases hp
      · rw [h] at hp
        cases hp
    · intro size
      exact .bind (neverPanics_recvFds _) fun received => neverPanics_applyPolicy _ _

/-- What follows the core of a receive changes nothing of its sizing. -/
theorem Sized.bind {α β : Type} {sizing : Sys Nat} {size : World → Nat} {m : Sys α}
    (h : Sized sizing size m) {f : α → Sys β} (hf : ∀ a, NeverPanics (f a))
    (hkeep : ∀ size w a, Preserves (Reserves size w) (f a)) : Sized sizing size (m >>= f) where
  sized w := by
    refine (h.sized w).imp (.imp_right fun hm => .bind hm fun a => hkeep _ w a) ?_
    rintro ⟨e, hrun, hkind⟩
    exact ⟨e, bind_err hrun, hkind⟩
  no_panic := .bind h.no_panic hf

theorem sized_recvFdsIntoVectoredImpl (hn : 4 * mode.count ≤ i32Max) :
    Sized (recvControlSize t mode) (t.recvSpace mode.count)
      (recvFdsIntoVectoredImpl t kind mode) :=
  (sized_recvCore hn).bind (fun _ => .of_pure _) fun _ _ _ => .of_pure _

theorem sized_recvOwnedImpl (hn : 4 * mode.count ≤ i32Max) :
    Sized (recvControlSize t mode) (t.recvSpace mode.count) (recvOwnedImpl t kind mode) :=
  (sized_recvCore hn).bind
    (fun _ => .bind (.bind (.of_read _) fun _ => .bind (.of_update _) fun _ => .of_pure _)
      fun _ => .of_pure _)
    fun _ _ _ => .bind (.bind (.of_read _) fun _ => .bind (.of_update fun _ h => h) fun _ =>
      .of_pure _) fun _ => .of_pure _

/-- A receive that asks for more panics. -/
theorem recvCore_panic (h : i32Max < 4 * mode.count) (w : World) :
    (recvCore t kind mode).run w =
      (.panic (.expectFailed "ancillary buffer size overflow"), w) := by
  have hmax : i32Max < 4 * max mode.count (maxRecvFdsAt t w.rlimit) :=
    h.trans_le (Nat.mul_le_mul_left 4 (le_max_left ..))
  have hsize := run_recvControlSize t mode w
  rw [controlSizeAt, bufferSizeForRights_panic hmax] at hsize
  exact bind_panic hsize

end Receives

/-! ## The rule -/

/-- The sizing is what it promises exactly for the counts whose payload is at most
`i32::MAX`. -/
theorem sizing_rule_iff (n : Nat) : SizingRule t n ↔ 4 * n ≤ i32Max := by
  constructor
  · intro h
    by_contra hover
    have hlarge : i32Max < 4 * n := Nat.not_le.mp hover
    have hcount : (List.replicate n (0 : RawFd)).length = n := List.length_replicate
    have hne : List.replicate n (0 : RawFd) ≠ [] := by
      apply List.ne_nil_of_length_pos
      omega
    have hpanic := sendFdsVectoredImpl_panic (t := t) (hcount.symm ▸ hlarge) [] (.scripted [] [])
    have hrule := (h.send .blocking [] _ hne hcount).no_panic (.scripted [] [])
    exact hrule _ (congrArg Prod.fst hpanic)
  · intro hn
    refine ⟨helper_rule_iff.mpr (.inl hn), ?_, ?_, ?_⟩
    · rintro rt iov fds hne rfl
      exact sized_send hne hn rt iov
    · rintro rt kind mode rfl
      exact (sized_recvFdsIntoVectoredImpl hn).io rt
    · rintro rt kind mode rfl
      exact (sized_recvOwnedImpl hn).io rt

/-- A count of 2²⁹ on a 64-bit target: the size is far from `usize::MAX`, and the helper, the
send and the receive panic. -/
theorem sizing_rule_large :
    let n := 536870912
    let panicked := Panic.expectFailed "ancillary buffer size overflow"
    let w := World.scripted [] []
    Target.linux64.rightsSpace n = 2147483664 ∧ 2147483664 ≤ Target.linux64.layout.usizeMax ∧
      Target.linux64.layout.bufferSizeForRights n = .error panicked ∧
      (sendFdsVectoredImpl .linux64 [[7]] (List.replicate n 5)).run w = (.panic panicked, w) ∧
      (recvCore .linux64 .stream (.upTo n)).run w = (.panic panicked, w) ∧
      ¬ SizingRule .linux64 n := by
  intro n panicked w
  have hlarge : i32Max < 4 * n := by decide
  have hmode : i32Max < 4 * (CountMode.upTo n).count := hlarge
  have hcount : (List.replicate n (5 : RawFd)).length = n := List.length_replicate
  have hspace : Target.linux64.rightsSpace n = 2147483664 := by decide
  have hfits : 2147483664 ≤ Target.linux64.layout.usizeMax := by decide
  have hpanic := bufferSizeForRights_panic (t := .linux64) hlarge
  refine ⟨hspace, hfits, hpanic, sendFdsVectoredImpl_panic (hcount.symm ▸ hlarge) _ w,
    recvCore_panic hmode w, fun hrule => ?_⟩
  have hhelper := hrule.helper
  rw [HelperRule, if_pos (hspace ▸ hfits), hpanic] at hhelper
  cases hhelper

end UnixAncillary
