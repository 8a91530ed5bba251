import UnixAncillary.Ext

/-!
# The receive policy

What a receive returns and what it closes, for every delivery. `applyPolicy_rejected` and
`applyPolicy_keeps` are the policy on a batch that is already owned; `recv_accounting` is the
whole receive, for any control bytes, flags and socket kind, under both count policies.
-/

namespace UnixAncillary

open ByteCodec HandleTable Program Program.Prog

/-- The receive must fail: control data were truncated, a datagram lost payload, or an
exact receive got another number of descriptors. -/
def Rejected (kind : SocketKind) (mode : CountMode) (result : RecvMsgResult) (k : Nat) : Prop :=
  result.ancillaryTruncated = true ∨ (kind = .datagram ∧ result.dataTruncated = true) ∨
    ∃ n, mode = .exact n ∧ k ≠ n

/-- The error of a rejected receive. -/
def rejection (kind : SocketKind) (mode : CountMode) (result : RecvMsgResult) (k : Nat) :
    IoError :=
  if result.ancillaryTruncated then ancillaryTruncatedError
  else if kind = .datagram ∧ result.dataTruncated then payloadTruncatedError
  else countError mode.count k

theorem rejection_kind (kind : SocketKind) (mode : CountMode) (result : RecvMsgResult)
    (k : Nat) : (rejection kind mode result k).kind = .invalidData := by
  rw [rejection]
  split
  · rfl
  split <;> rfl

section Policy

variable {kind : SocketKind} {mode : CountMode} {result : RecvMsgResult} {fds : List RawFd}

/-- A receive that is not rejected lost neither control data nor a datagram's payload. -/
theorem not_truncated {k : Nat} (h : ¬ Rejected kind mode result k) :
    ¬ result.ancillaryTruncated = true ∧
      ¬ (kind = .datagram ∧ result.dataTruncated = true) :=
  ⟨fun hc => h (.inl hc), fun hc => h (.inr (.inl hc))⟩

/-- A rejected batch is closed as a whole. -/
theorem applyPolicy_rejected (w : World) (h : Rejected kind mode result fds.length) :
    (applyPolicy kind mode result fds).run w =
      (.err (rejection kind mode result fds.length), w.close fds) := by
  rw [applyPolicy.eq_def, rejection]
  by_cases hctrunc : result.ancillaryTruncated = true
  · rw [if_pos hctrunc, if_pos hctrunc]
    rfl
  rw [if_neg hctrunc, if_neg hctrunc]
  by_cases htrunc : kind = .datagram ∧ result.dataTruncated = true
  · rw [if_pos htrunc, if_pos htrunc]
    rfl
  rw [if_neg htrunc, if_neg htrunc]
  obtain ⟨n, rfl, hn⟩ := (h.resolve_left hctrunc).resolve_left htrunc
  simp only [if_pos hn]
  rfl

/-- An accepted up-to receive keeps the first `n` descriptors and closes the others. -/
theorem applyPolicy_keeps (w : World) {n : Nat}
    (h : ¬ Rejected kind (.upTo n) result fds.length) :
    (applyPolicy kind (.upTo n) result fds).run w =
      (.ok (result.bytesRead, fds.take n, fds.length - n), w.close (fds.drop n)) := by
  obtain ⟨hctrunc, htrunc⟩ := not_truncated h
  rw [applyPolicy.eq_def, if_neg hctrunc, if_neg htrunc]
  rfl

/-- The same in terms of the number that is kept. -/
theorem applyPolicy_upTo (w : World) {n : Nat}
    (h : ¬ Rejected kind (.upTo n) result fds.length) :
    (applyPolicy kind (.upTo n) result fds).run w =
      (.ok (result.bytesRead, fds.take (min fds.length n), fds.length - min fds.length n),
        w.close (fds.drop (min fds.length n))) := by
  rw [applyPolicy_keeps w h]
  rcases Nat.le_total fds.length n with hle | hle
  · rw [Nat.min_eq_left hle, List.take_of_length_le hle, List.drop_of_length_le hle,
      List.take_length, List.drop_length, Nat.sub_self, Nat.sub_eq_zero_of_le hle]
  · rw [Nat.min_eq_right hle]

/-- An accepted exact receive keeps all descriptors. -/
theorem applyPolicy_exact (w : World) {n : Nat}
    (h : ¬ Rejected kind (.exact n) result fds.length) :
    (applyPolicy kind (.exact n) result fds).run w = (.ok (result.bytesRead, fds, 0), w) := by
  obtain ⟨hctrunc, htrunc⟩ := not_truncated h
  have hn : ¬ fds.length ≠ n := fun hn => h (.inr (.inr ⟨n, rfl, hn⟩))
  rw [applyPolicy.eq_def, if_neg hctrunc, if_neg htrunc]
  simp only [if_neg hn]
  rfl

end Policy

variable {t : Target}

/-- The result that a delivery reports. -/
def Delivery.result (d : Delivery) : RecvMsgResult :=
  ⟨d.data.length, d.control.length, d.ctrunc, d.trunc⟩

/-- After a successful `recvmsg`, a receive sets close-on-exec and applies its policy to
the batch. -/
theorem recvCore_delivery (kind : SocketKind) {mode : CountMode} {w w₁ : World} {d : Delivery}
    {capacity : Nat} (hsize : controlSizeAt t mode w.rlimit = .ok capacity)
    (hrecv : (awaitRecv t capacity false).run w = (.ok d, w₁)) :
    (recvCore t kind mode).run w =
      andThen (fun _ => applyPolicy kind mode d.result (d.rights t))
        (((cloexecFds t (d.rights t)).onError (·.close (d.rights t))).run (w₁.own t d)) := by
  have hbuf : (List.replicate capacity (0 : UInt8)).length = capacity := List.length_replicate
  have hfds : (recvFds t (List.replicate capacity 0)).run w = _ :=
    recvFds_of_delivery (hbuf.symm ▸ hrecv)
  rw [recvCore, bind_ok ((run_recvControlSize t mode w).trans (by rw [hsize])), withControl,
    run_bind, hfds]
  generalize ((cloexecFds t (d.rights t)).onError (·.close (d.rights t))).run (w₁.own t d) = r
  obtain ⟨o, w₂⟩ := r
  cases o <;> rfl

/-- With a successful close-on-exec step, the policy applies in a world that differs from
the owning one in flags alone. -/
theorem recvCore_of_delivery (kind : SocketKind) {mode : CountMode} {w w₁ : World} {d : Delivery}
    {capacity : Nat} (hsize : controlSizeAt t mode w.rlimit = .ok capacity)
    (hrecv : (awaitRecv t capacity false).run w = (.ok d, w₁))
    (hcloexec : w.CloexecSucceeds t) :
    ∃ fcntls flags, (recvCore t kind mode).run w =
      (applyPolicy kind mode d.result (d.rights t)).run
        { w₁.own t d with fcntls := fcntls, flags := flags } := by
  obtain ⟨-, recvs, trace, hw₁⟩ := awaitRecv_ok hrecv
  have hnone : (w₁.own t d).CloexecSucceeds t := by
    rw [hw₁]
    exact hcloexec
  obtain ⟨fcntls, flags, hok⟩ := cloexecFds_ok t (d.rights t) hnone
  have hclose : ((cloexecFds t (d.rights t)).onError (·.close (d.rights t))).run (w₁.own t d) =
      (.ok (), { w₁.own t d with fcntls := fcntls, flags := flags }) := by
    simp only [onError, hok]
  exact ⟨fcntls, flags, by rw [recvCore_delivery kind hsize hrecv, hclose, andThen]⟩

/-- The receive budget keeps every admissible count within one control message. -/
theorem max_budget_le {n : Nat} (hn : 4 * n ≤ i32Max) (rlimit : Option Nat) :
    max n (maxRecvFdsAt t rlimit) * 4 ≤ i32Max := by
  have hbudget := (maxRecvFdsAt_mem t rlimit).2
  have hceiling : HARD_CEILING * 4 ≤ i32Max := by decide
  omega

section Accounting

variable (kind : SocketKind) {n : Nat} {w w₁ : World} {d : Delivery}
  (hfit : t.ControlFits) (hn : 4 * n ≤ i32Max)
  (hrecv : (awaitRecv t (controlCapacity t (.upTo n) w.rlimit) false).run w = (.ok d, w₁))
  (hcloexec : w.CloexecSucceeds t)

include hfit hn hrecv hcloexec

/-- The receive under either policy, from the delivery on. -/
theorem recvCore_accounted (mode : CountMode) (hmode : mode.count = n) :
    ∃ w₂, w₂.fds = (w.fds.openAll d.installed).closeAll (d.pidfds t) ∧
      (recvCore t kind mode).run w =
        (applyPolicy kind mode d.result (d.rights t)).run w₂ := by
  have hbudget : max mode.count (maxRecvFdsAt t w.rlimit) * 4 ≤ i32Max :=
    hmode ▸ max_budget_le hn w.rlimit
  have hcapacity : controlCapacity t mode w.rlimit = controlCapacity t (.upTo n) w.rlimit := by
    rw [controlCapacity, hmode]
    rfl
  have hsize := controlSizeAt_eq t hfit hbudget
  rw [hcapacity] at hsize
  obtain ⟨-, recvs, trace, hw₁⟩ := awaitRecv_ok hrecv
  obtain ⟨fcntls, flags, hrun⟩ := recvCore_of_delivery kind hsize hrecv hcloexec
  exact ⟨_, by rw [hw₁]; rfl, hrun⟩

theorem recvCore_rejected (mode : CountMode) (hmode : mode.count = n)
    (h : Rejected kind mode d.result (d.rights t).length) :
    ((recvCore t kind mode).run w).1 =
        .err (rejection kind mode d.result (d.rights t).length) ∧
      ((recvCore t kind mode).run w).2.fds =
        ((w.fds.openAll d.installed).closeAll (d.pidfds t)).closeAll (d.rights t) := by
  obtain ⟨w₂, hfds, hrun⟩ := recvCore_accounted kind hfit hn hrecv hcloexec mode hmode
  rw [hrun, applyPolicy_rejected w₂ h]
  exact ⟨rfl, by rw [World.close, hfds]⟩

theorem recvCore_upTo (h : ¬ Rejected kind (.upTo n) d.result (d.rights t).length) :
    let kept := min (d.rights t).length n
    ((recvCore t kind (.upTo n)).run w).1 =
        .ok (d.data.length, (d.rights t).take kept, (d.rights t).length - kept) ∧
      ((recvCore t kind (.upTo n)).run w).2.fds =
        ((w.fds.openAll d.installed).closeAll (d.pidfds t)).closeAll
          ((d.rights t).drop kept) := by
  intro kept
  obtain ⟨w₂, hfds, hrun⟩ := recvCore_accounted kind hfit hn hrecv hcloexec (.upTo n) rfl
  rw [hrun, applyPolicy_upTo w₂ h]
  exact ⟨rfl, by rw [World.close, hfds]⟩

theorem recvCore_exact (h : ¬ Rejected kind (.exact n) d.result (d.rights t).length) :
    ((recvCore t kind (.exact n)).run w).1 = .ok (d.data.length, d.rights t, 0) ∧
      ((recvCore t kind (.exact n)).run w).2.fds =
        (w.fds.openAll d.installed).closeAll (d.pidfds t) := by
  obtain ⟨w₂, hfds, hrun⟩ := recvCore_accounted kind hfit hn hrecv hcloexec (.exact n) rfl
  rw [hrun, applyPolicy_exact w₂ h]
  exact ⟨rfl, hfds⟩

theorem recvCore_ok_of_not_rejected (mode : CountMode) (hmode : mode.count = n)
    (h : ¬ Rejected kind mode d.result (d.rights t).length) :
    ∃ result, ((recvCore t kind mode).run w).1 = .ok result := by
  cases mode with
  | upTo m =>
      obtain rfl : m = n := hmode
      exact ⟨_, (recvCore_upTo kind hfit hn hrecv hcloexec h).1⟩
  | exact m =>
      obtain rfl : m = n := hmode
      exact ⟨_, (recvCore_exact kind hfit hn hrecv hcloexec h).1⟩

/-- Exact succeeds exactly when up-to returns `n` descriptors without a surplus. -/
theorem recvCore_exact_iff_upTo (bytes : Nat) (fds : List RawFd) :
    ((recvCore t kind (.exact n)).run w).1 = .ok (bytes, fds, 0) ↔
      ((recvCore t kind (.upTo n)).run w).1 = .ok (bytes, fds, 0) ∧ fds.length = n := by
  by_cases hupTo : Rejected kind (.upTo n) d.result (d.rights t).length
  · have hexact : Rejected kind (.exact n) d.result (d.rights t).length := by
      rcases hupTo with h | h | ⟨m, hm, -⟩
      · exact .inl h
      · exact .inr (.inl h)
      · cases hm
    rw [(recvCore_rejected kind hfit hn hrecv hcloexec (.exact n) rfl hexact).1,
      (recvCore_rejected kind hfit hn hrecv hcloexec (.upTo n) rfl hupTo).1]
    simp
  rw [(recvCore_upTo kind hfit hn hrecv hcloexec hupTo).1]
  by_cases hk : (d.rights t).length = n
  · have hexact : ¬ Rejected kind (.exact n) d.result (d.rights t).length := by
      rintro (h | h | ⟨m, hm, hne⟩)
      · exact hupTo (.inl h)
      · exact hupTo (.inr (.inl h))
      · cases hm
        exact hne hk
    rw [(recvCore_exact kind hfit hn hrecv hcloexec hexact).1, hk, Nat.min_self, ← hk,
      List.take_length, Nat.sub_self]
    constructor
    · intro h
      refine ⟨h, ?_⟩
      simp only [Outcome.ok.injEq, Prod.mk.injEq] at h
      rw [← h.2.1]
    · exact fun h => h.1
  · have hexact : Rejected kind (.exact n) d.result (d.rights t).length :=
      .inr (.inr ⟨n, rfl, hk⟩)
    rw [(recvCore_rejected kind hfit hn hrecv hcloexec (.exact n) rfl hexact).1]
    constructor
    · intro h
      cases h
    · rintro ⟨h, hlen⟩
      simp only [Outcome.ok.injEq, Prod.mk.injEq] at h
      have htake := congrArg List.length h.2.1
      rw [List.length_take] at htake
      omega

/-- Receive-policy accounting: a receive fails exactly when it must, with `InvalidData`
and the whole batch closed; up-to keeps the first `n` descriptors in arrival order and
closes exactly the others; exact succeeds exactly when up-to returns `n` descriptors
without a surplus, and then returns the same. -/
theorem recv_accounting :
    let fds := d.rights t
    let k := fds.length
    let owned := (w.fds.openAll d.installed).closeAll (d.pidfds t)
    let upTo := (recvCore t kind (.upTo n)).run w
    let exact := (recvCore t kind (.exact n)).run w
    (∀ mode, mode.count = n → let r := (recvCore t kind mode).run w
      ((∃ e, r.1 = .err e) ↔ Rejected kind mode d.result k) ∧
      ∀ e, r.1 = .err e → e.kind = .invalidData ∧ r.2.fds = owned.closeAll fds) ∧
    (¬ Rejected kind (.upTo n) d.result k →
      upTo.1 = .ok (d.data.length, fds.take (min k n), k - min k n) ∧
      upTo.2.fds = owned.closeAll (fds.drop (min k n)) ∧
      (fds.take (min k n)).length + (k - min k n) = k) ∧
    (¬ Rejected kind (.exact n) d.result k →
      exact.1 = .ok (d.data.length, fds, 0) ∧ k = n ∧ exact.2.fds = owned) ∧
    ∀ bytes fds', exact.1 = .ok (bytes, fds', 0) ↔
      upTo.1 = .ok (bytes, fds', 0) ∧ fds'.length = n := by
  intro fds k owned upTo exact
  refine ⟨fun mode hmode => ?_, fun h => ?_, fun h => ?_,
    recvCore_exact_iff_upTo kind hfit hn hrecv hcloexec⟩
  · intro r
    by_cases h : Rejected kind mode d.result k
    · obtain ⟨herr, hfds⟩ := recvCore_rejected kind hfit hn hrecv hcloexec mode hmode h
      refine ⟨⟨fun _ => h, fun _ => ⟨_, herr⟩⟩, fun e he => ⟨?_, hfds⟩⟩
      rw [show r.1 = _ from herr] at he
      cases he
      exact rejection_kind ..
    · obtain ⟨result, hok⟩ := recvCore_ok_of_not_rejected kind hfit hn hrecv hcloexec mode hmode h
      have hne : ∀ e, r.1 ≠ .err e := by
        intro e he
        rw [show r.1 = _ from hok] at he
        cases he
      exact ⟨⟨fun ⟨e, he⟩ => absurd he (hne e), fun hrej => absurd hrej h⟩,
        fun e he => absurd he (hne e)⟩
  · obtain ⟨hok, hfds⟩ := recvCore_upTo kind hfit hn hrecv hcloexec h
    refine ⟨hok, hfds, ?_⟩
    rw [List.length_take]
    omega
  · obtain ⟨hok, hfds⟩ := recvCore_exact kind hfit hn hrecv hcloexec h
    refine ⟨hok, ?_, hfds⟩
    by_contra hk
    exact h (.inr (.inr ⟨n, rfl, hk⟩))

end Accounting

/-- Two descriptors in one message, received by a caller that asked for one. -/
theorem recv_accounting_surplus :
    let d : Delivery := ⟨[], Target.linux64.layout.encodeMessage ⟨1, 1, [5, 0, 0, 0, 6, 0, 0, 0]⟩,
      false, false, [5, 6]⟩
    ((recvCore .linux64 .stream (.upTo 1)).run (.scripted [] [.ok d])).1 = .ok (0, [5], 1) := by
  intro d
  have hrecv : (awaitRecv .linux64 (controlCapacity .linux64 (.upTo 1) none) false).run
      (.scripted [] [.ok d]) = (.ok d, _) := rfl
  have hrights : d.rights .linux64 = [5, 6] := by decide +kernel
  have h := (recv_accounting .stream (by decide) (by decide) hrecv (by decide)).2.1
  rw [hrights] at h
  exact (h (by rintro (h | ⟨h, -⟩ | ⟨m, h, -⟩) <;> cases h)).1

end UnixAncillary
