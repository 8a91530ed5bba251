import UnixAncillary.Lowlevel
import UnixAncillary.Policy

/-!
# Close-on-exec by `fcntl`

Where the kernel does not set close-on-exec, both receives set it descriptor by
descriptor, with one `F_GETFD` and one `F_SETFD` call each. The answers of these calls are
a script, so a failure can strike anywhere; `cloexec_all_or_nothing` says that the batch is
then marked as a whole or closed as a whole, on both paths and at the same descriptor.
-/

namespace UnixAncillary

open ByteCodec HandleTable Program Program.Prog

/-! ## One call -/

/-- The `i`-th of the coming `fcntl` calls is the first that fails. -/
def FailsAt (answers : List (Option OsError)) (i : Nat) (e : OsError) : Prop :=
  (∀ a ∈ answers.take i, a = none) ∧ answers[i]? = some (some e)

/-- The flags of all descriptors once those of `fds` are close-on-exec. -/
def markCloexec (fds : List RawFd) (flags : RawFd → Nat) : RawFd → Nat :=
  fun fd => if fd ∈ fds then flags fd ||| FD_CLOEXEC else flags fd

@[simp] theorem markCloexec_nil (flags : RawFd → Nat) : markCloexec [] flags = flags := by
  funext fd
  simp [markCloexec]

/-- Marking descriptors one after the other marks them all, repetitions included. -/
theorem markCloexec_cons (fd : RawFd) (fds : List RawFd) (flags : RawFd → Nat) :
    markCloexec fds (Function.update flags fd (flags fd ||| FD_CLOEXEC)) =
      markCloexec (fd :: fds) flags := by
  funext fd'
  by_cases hsame : fd' = fd
  · subst hsame
    simp only [markCloexec, Function.update_self, Nat.or_assoc, Nat.or_self, ite_self,
      List.mem_cons, true_or, if_true]
  · simp [markCloexec, hsame]

section Calls

variable {w : World} {e : OsError}

theorem run_fcntl_ok (h : ∀ a ∈ w.fcntls.take 1, a = none) :
    fcntl.run w = (.ok (), { w with fcntls := w.fcntls.drop 1 }) := by
  obtain ⟨sends, recvs, fcntls, nosigpipe, refusals, rlimit, iov, trace, fds, flags⟩ := w
  cases fcntls with
  | nil => rfl
  | cons a rest =>
      obtain rfl : a = none := h a List.mem_cons_self
      rfl

theorem run_fcntl_err (h : w.fcntls[0]? = some (some e)) :
    fcntl.run w = (.err (.os e), { w with fcntls := w.fcntls.drop 1 }) := by
  cases hlist : w.fcntls with
  | nil => simp [hlist] at h
  | cons a rest =>
      obtain rfl : a = some e := by simpa [hlist] using h
      simp [fcntl, hlist]

/-- `set_cloexec` takes two answers, or one when the first fails. -/
theorem run_setCloexec_ok (fd : RawFd) (h : ∀ a ∈ w.fcntls.take 2, a = none) :
    (setCloexec fd).run w = (.ok (), { w with
      fcntls := w.fcntls.drop 2
      flags := Function.update w.flags fd (w.flags fd ||| FD_CLOEXEC) }) := by
  have hget : ∀ a ∈ w.fcntls.take 1, a = none := fun a ha =>
    h a (List.take_subset_take_left _ (by omega) ha)
  have hset : ∀ a ∈ ({ w with fcntls := w.fcntls.drop 1 } : World).fcntls.take 1, a = none := by
    intro a ha
    apply h
    rw [show (2 : Nat) = 1 + 1 from rfl, List.take_add]
    exact List.mem_append_right _ ha
  rw [setCloexec, bind_ok (run_fcntl_ok hget), bind_ok (run_read ..), bind_ok (run_fcntl_ok hset),
    run_update]
  simp only [List.drop_drop]

theorem run_setCloexec_err (fd : RawFd) {i : Nat} (hi : i < 2) (h : FailsAt w.fcntls i e) :
    ∃ fcntls, (setCloexec fd).run w = (.err (.os e), { w with fcntls := fcntls }) := by
  obtain ⟨hbefore, hfail⟩ := h
  rcases Nat.lt_or_ge i 1 with hzero | hone
  · obtain rfl : i = 0 := by omega
    exact ⟨_, by rw [setCloexec, bind_err (run_fcntl_err hfail)]⟩
  · obtain rfl : i = 1 := by omega
    have hset : ({ w with fcntls := w.fcntls.drop 1 } : World).fcntls[0]? = some (some e) := by
      rw [← hfail]
      exact List.getElem?_drop ..
    exact ⟨_, by rw [setCloexec, bind_ok (run_fcntl_ok hbefore), bind_ok (run_read ..),
      bind_err (run_fcntl_err hset)]⟩

end Calls

/-! ## A batch -/

section Batch

variable {w : World} {fds : List RawFd}

/-- When every call succeeds, every descriptor is marked. -/
theorem run_setCloexecAll_ok (h : ∀ a ∈ w.fcntls.take (2 * fds.length), a = none) :
    ∃ fcntls, (setCloexecAll fds).run w =
      (.ok (), { w with fcntls := fcntls, flags := markCloexec fds w.flags }) := by
  induction fds generalizing w with
  | nil => exact ⟨w.fcntls, by rw [markCloexec_nil]; rfl⟩
  | cons fd fds ih =>
      have hfirst : ∀ a ∈ w.fcntls.take 2, a = none := fun a ha =>
        h a (List.take_subset_take_left _ (by rw [List.length_cons]; omega) ha)
      have hrest : ∀ a ∈ (w.fcntls.drop 2).take (2 * fds.length), a = none := by
        intro a ha
        apply h
        rw [List.length_cons, Nat.mul_succ, Nat.add_comm, List.take_add]
        exact List.mem_append_right _ ha
      obtain ⟨fcntls, hrun⟩ := ih (w := { w with
        fcntls := w.fcntls.drop 2
        flags := Function.update w.flags fd (w.flags fd ||| FD_CLOEXEC) }) hrest
      refine ⟨fcntls, ?_⟩
      rw [setCloexecAll, bind_ok (run_setCloexec_ok fd hfirst), hrun, markCloexec_cons]

/-- At the first failing call, exactly the descriptors before its own are marked. -/
theorem run_setCloexecAll_err {i : Nat} {e : OsError} (h : FailsAt w.fcntls i e)
    (hi : i < 2 * fds.length) : ∃ fcntls, (setCloexecAll fds).run w = (.err (.os e),
      { w with fcntls := fcntls, flags := markCloexec (fds.take (i / 2)) w.flags }) := by
  induction fds generalizing w i with
  | nil => exact absurd hi (Nat.not_lt_zero _)
  | cons fd fds ih =>
      rw [List.length_cons] at hi
      rcases Nat.lt_or_ge i 2 with hfirst | hlater
      · obtain ⟨fcntls, hrun⟩ := run_setCloexec_err fd hfirst h
        refine ⟨fcntls, ?_⟩
        rw [setCloexecAll, bind_err hrun, Nat.div_eq_of_lt hfirst, List.take_zero, markCloexec_nil]
      · obtain ⟨j, rfl⟩ := Nat.exists_eq_add_of_le hlater
        obtain ⟨hbefore, hfail⟩ := h
        rw [List.take_add] at hbefore
        have hok : ∀ a ∈ w.fcntls.take 2, a = none := fun a ha =>
          hbefore a (List.mem_append_left _ ha)
        have hrest : FailsAt (w.fcntls.drop 2) j e := by
          constructor
          · exact fun a ha => hbefore a (List.mem_append_right _ ha)
          · rw [List.getElem?_drop]
            exact hfail
        obtain ⟨fcntls, hrun⟩ := ih (w := { w with
          fcntls := w.fcntls.drop 2
          flags := Function.update w.flags fd (w.flags fd ||| FD_CLOEXEC) }) hrest (by omega)
        have hdiv : (2 + j) / 2 = j / 2 + 1 := by omega
        refine ⟨fcntls, ?_⟩
        rw [setCloexecAll, bind_ok (run_setCloexec_ok fd hok), hrun, markCloexec_cons, hdiv,
          List.take_succ_cons]

end Batch

/-! ## A receive -/

/-- What close-on-exec makes of the batch of `d`, received in `w`. If no call fails, the
receive has `succeeded` and the batch is open, every descriptor marked. At the first failing
call it has `failed` with the error of that call: the descriptors before its own are marked,
and the whole batch is closed, each descriptor once. -/
structure AllOrNothing (t : Target) (d : Delivery) (w w' : World) (succeeded : Prop)
    (failed : OsError → Prop) : Prop where
  marked : (∀ a ∈ w.fcntls.take (2 * (d.rights t).length), a = none) →
    succeeded ∧ w'.fds = w.fds.openAll d.installed ∧
      w'.flags = markCloexec (d.rights t) w.flags
  closed : ∀ i < 2 * (d.rights t).length, ∀ e, FailsAt w.fcntls i e →
    failed e ∧ w'.fds = (w.fds.openAll d.installed).closeAll (d.rights t) ∧
      w'.fds.closeCalls = w.fds.closeCalls ++ d.rights t ∧
      w'.flags = markCloexec ((d.rights t).take (i / 2)) w.flags

/-- Closing the batch that was opened calls close once for each descriptor. -/
theorem closed_batch {t : Target} {w w₂ : World} {d : Delivery}
    (hfds : w₂.fds = w.fds.openAll d.installed) :
    (w₂.close (d.rights t)).fds = (w.fds.openAll d.installed).closeAll (d.rights t) ∧
      (w₂.close (d.rights t)).fds.closeCalls = w.fds.closeCalls ++ d.rights t := by
  rw [World.close, hfds]
  constructor
  · rfl
  · rw [Table.closeCalls_closeAll, Table.closeCalls_openAll]

section Receive

variable {t : Target} (hfallback : t.cloexecFallback = true)

include hfallback

/-- Where close-on-exec is set by `fcntl`, there are no pidfds to close. -/
theorem Delivery.pidfds_fallback (d : Delivery) : d.pidfds t = [] := by
  have hcreds : t.hasCredentials = false := by
    simp only [Target.cloexecFallback, decide_eq_true_eq] at hfallback
    rcases hfallback with hos | hos <;> simp [Target.hasCredentials, hos]
  simp [Delivery.pidfds, RawMessage.pidfds, RawMessage.isPidfd, hcreds]

/-- There the kernel installs the descriptors without a flag. -/
theorem World.own_fallback (d : Delivery) (w : World) :
    w.own t d = { w with iov := scatter d.data w.iov, fds := w.fds.openAll d.installed } := by
  simp [World.own, World.deliver, recvCmsgCloexec, hfallback, d.pidfds_fallback hfallback]

section Delivered

variable {w w₁ : World} {d : Delivery}

/-- The batch of a delivery when every call succeeds. -/
theorem run_cloexecFds_ok (hw₁ : ∃ recvs trace, w₁ = { w with recvs := recvs, trace := trace })
    (h : ∀ a ∈ w.fcntls.take (2 * (d.rights t).length), a = none) :
    ∃ w₂, (cloexecFds t (d.rights t)).run (w₁.own t d) = (.ok (), w₂) ∧
      w₂.fds = w.fds.openAll d.installed ∧ w₂.flags = markCloexec (d.rights t) w.flags := by
  obtain ⟨recvs, trace, rfl⟩ := hw₁
  rw [World.own_fallback hfallback, cloexecFds, if_pos hfallback]
  obtain ⟨fcntls, hrun⟩ := run_setCloexecAll_ok (w := { w with
    recvs := recvs, trace := trace, iov := scatter d.data w.iov
    fds := w.fds.openAll d.installed }) h
  exact ⟨_, hrun, rfl, rfl⟩

/-- The batch of a delivery at the first failing call. -/
theorem run_cloexecFds_err (hw₁ : ∃ recvs trace, w₁ = { w with recvs := recvs, trace := trace })
    {i : Nat} {e : OsError} (h : FailsAt w.fcntls i e) (hi : i < 2 * (d.rights t).length) :
    ∃ w₂, (cloexecFds t (d.rights t)).run (w₁.own t d) = (.err (.os e), w₂) ∧
      w₂.fds = w.fds.openAll d.installed ∧
      w₂.flags = markCloexec ((d.rights t).take (i / 2)) w.flags := by
  obtain ⟨recvs, trace, rfl⟩ := hw₁
  rw [World.own_fallback hfallback, cloexecFds, if_pos hfallback]
  obtain ⟨fcntls, hrun⟩ := run_setCloexecAll_err (w := { w with
    recvs := recvs, trace := trace, iov := scatter d.data w.iov
    fds := w.fds.openAll d.installed }) h hi
  exact ⟨_, hrun, rfl, rfl⟩

/-- The flat receive of a delivery. -/
theorem recvFds_allOrNothing {buf : Bytes}
    (h : (awaitRecv t buf.length false).run w = (.ok d, w₁)) :
    AllOrNothing t d w ((recvFds t buf).run w).2
      (((recvFds t buf).run w).1 = .ok (d.result, d.rights t))
      (fun e => ((recvFds t buf).run w).1 = .err (.os e)) := by
  rw [recvFds_of_delivery h]
  constructor
  · intro hnone
    obtain ⟨w₂, hrun, hfds, hflags⟩ := run_cloexecFds_ok hfallback (awaitRecv_ok h).2 hnone
    simp only [onError, hrun, andThen]
    exact ⟨rfl, hfds, hflags⟩
  · intro i hi e hfail
    obtain ⟨w₂, hrun, hfds, hflags⟩ := run_cloexecFds_err hfallback (awaitRecv_ok h).2 hfail hi
    obtain ⟨hclosed, hcalls⟩ := closed_batch (t := t) hfds
    simp only [onError, hrun, andThen]
    exact ⟨trivial, hclosed, hcalls, hflags⟩

/-- The low-level receive of a delivery. -/
theorem recvIntoAncillary_allOrNothing {anc : SocketAncillary} {peek : Bool}
    (h : (awaitRecv t anc.buffer.length peek).run (w.close anc.receivedFds) = (.ok d, w₁)) :
    let r := (recvIntoAncillary t peek).run (anc, w)
    AllOrNothing t d (w.close anc.receivedFds) r.2.2
      (r.1 = .ok ⟨d.data.length, d.ctrunc, d.trunc⟩ ∧ r.2.1.received = d.messages t ∧
        r.2.1.receivedFds = d.rights t)
      (fun e => r.1 = .err (.os e) ∧ r.2.1.received = [] ∧ r.2.1.length = 0 ∧
        r.2.1.truncated = false ∧ r.2.1.receiveMode = true) := by
  intro r
  have hr : r = _ := run_recvIntoAncillary_ok h
  rw [hr]
  constructor
  · intro hnone
    obtain ⟨w₂, hrun, hfds, hflags⟩ := run_cloexecFds_ok hfallback (awaitRecv_ok h).2 hnone
    rw [hrun]
    exact ⟨⟨rfl, rfl, d.fds_messages⟩, hfds, hflags⟩
  · intro i hi e hfail
    obtain ⟨w₂, hrun, hfds, hflags⟩ := run_cloexecFds_err hfallback (awaitRecv_ok h).2 hfail hi
    obtain ⟨hclosed, hcalls⟩ := closed_batch (t := t) hfds
    rw [hrun]
    exact ⟨⟨rfl, rfl, rfl, rfl, rfl⟩, hclosed, hcalls, hflags⟩

end Delivered

end Receive

/-- The close-on-exec fallback is all or nothing. The per-message pass makes the calls of the
flat pass, so it marks the same descriptors in the same order and fails at the same one;
and on both paths either all calls succeed, the batch is handed over and every descriptor
of it is marked, or the first error is returned, the whole batch is closed and nothing is
handed over, the buffer being in receive mode and empty. -/
theorem cloexec_all_or_nothing {t : Target} (hfallback : t.cloexecFallback = true)
    (d : Delivery) :
    (∀ w, (cloexecReceived t (d.messages t)).run w = (cloexecFds t (d.rights t)).run w) ∧
    (∀ (buf : Bytes) (w w₁ : World), (awaitRecv t buf.length false).run w = (.ok d, w₁) →
      let r := (recvFds t buf).run w
      AllOrNothing t d w r.2 (r.1 = .ok (d.result, d.rights t))
        (fun e => r.1 = .err (.os e))) ∧
    ∀ (anc : SocketAncillary) (peek : Bool) (w w₁ : World),
      (awaitRecv t anc.buffer.length peek).run (w.close anc.receivedFds) = (.ok d, w₁) →
      let r := (recvIntoAncillary t peek).run (anc, w)
      AllOrNothing t d (w.close anc.receivedFds) r.2.2
        (r.1 = .ok ⟨d.data.length, d.ctrunc, d.trunc⟩ ∧ r.2.1.received = d.messages t ∧
          r.2.1.receivedFds = d.rights t)
        (fun e => r.1 = .err (.os e) ∧ r.2.1.received = [] ∧ r.2.1.length = 0 ∧
          r.2.1.truncated = false ∧ r.2.1.receiveMode = true) := by
  refine ⟨cloexecReceived_messages d, ?_, ?_⟩
  · intro buf w w₁ h
    exact recvFds_allOrNothing hfallback h
  · intro anc peek w w₁ h
    exact recvIntoAncillary_allOrNothing hfallback h

/-- Two descriptors, of which the second cannot be marked: both are closed. -/
theorem cloexec_all_or_nothing_failed :
    let d : Delivery := ⟨[7], Target.macos.layout.encodeMessage
      ⟨Target.macos.SOL_SOCKET, 1, [5, 0, 0, 0, 6, 0, 0, 0]⟩, false, false, [5, 6]⟩
    let w : World := { World.scripted [] [.ok d] with
      fcntls := [none, none, none, some (.other 9)], iov := [[0]] }
    let r := (recvFds .macos (List.replicate 20 0)).run w
    r.1 = .err (.os (.other 9)) ∧ r.2.fds.closeCalls = [5, 6] := by
  intro d w
  have hrecv : (awaitRecv .macos (List.replicate 20 (0 : UInt8)).length false).run w =
      (.ok d, ((awaitRecv .macos (List.replicate 20 (0 : UInt8)).length false).run w).2) :=
    Prod.ext (by decide +kernel) rfl
  have hrights : d.rights .macos = [5, 6] := by decide +kernel
  have hfail : FailsAt w.fcntls 3 (.other 9) := ⟨by decide, rfl⟩
  have hend := ((cloexec_all_or_nothing rfl d).2.1 (List.replicate 20 0) w _ hrecv).closed 3
    (by rw [hrights]; decide) (.other 9) hfail
  rw [hrights] at hend
  obtain ⟨herr, -, hcalls, -⟩ := hend
  have hnone : w.fds.closeCalls = [] := rfl
  rw [hnone, List.nil_append] at hcalls
  exact ⟨herr, hcalls⟩

end UnixAncillary
