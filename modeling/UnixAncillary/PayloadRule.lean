import UnixAncillary.SendAll

/-!
# The payload rule of stream sends

A stream send with descriptors needs a payload byte. The scalar sends test the payload for
emptiness; the vectored send tests a sum of slice lengths for zero. Slices may share memory,
so their total is not bounded by `usize`, and the sum overflows as one addition of the total
does: `foldlM_addUsize`. Their number is not bounded by `msg_iovlen` either, where that is a
C integer. `payload_rule_iff` says exactly when the two tests agree and the payload is sent.
-/

namespace UnixAncillary

open ByteCodec HandleTable Program Program.Prog

/-! ## The sum of the slices -/

section Sum

variable {t : Target}

theorem Layout.usizeMax_lt (ℓ : Layout) : ℓ.usizeMax < 2 ^ ℓ.usizeBits :=
  Nat.sub_lt (Nat.two_pow_pos _) Nat.one_pos

/-- Without overflow checks, an addition is the sum modulo the word size. -/
theorem addUsize_wraps (h : t.overflowChecks = false) (m n : Nat) :
    t.addUsize m n = .ok ((m + n) % 2 ^ t.layout.usizeBits) := by
  rw [Target.addUsize]
  split
  case isTrue hle =>
      have hlt := t.layout.usizeMax_lt
      rw [Nat.mod_eq_of_lt (by omega)]
  case isFalse => rw [if_neg (by simp [h])]

/-- With overflow checks, an addition is exact or panics. -/
theorem addUsize_checks (h : t.overflowChecks = true) (m n : Nat) :
    t.addUsize m n =
      if m + n ≤ t.layout.usizeMax then .ok (m + n) else .error .arithmeticOverflow := by
  rw [Target.addUsize, if_pos h]

/-- Adding one length after the other overflows as adding their sum at once does. -/
theorem foldlM_addUsize (lengths : List Nat) {m : Nat} (hm : m ≤ t.layout.usizeMax) :
    lengths.foldlM t.addUsize m = t.addUsize m lengths.sum := by
  induction lengths generalizing m with
  | nil =>
      rw [List.foldlM_nil, List.sum_nil, Target.addUsize, Nat.add_zero, if_pos hm]
      rfl
  | cons n rest ih =>
      rw [List.foldlM_cons, List.sum_cons]
      cases hchecks : t.overflowChecks with
      | false =>
          have hpos := Nat.two_pow_pos t.layout.usizeBits
          have hmod := Nat.mod_lt (m + n) hpos
          have hle : (m + n) % 2 ^ t.layout.usizeBits ≤ t.layout.usizeMax := by
            rw [Layout.usizeMax]
            omega
          rw [addUsize_wraps hchecks m n]
          calc rest.foldlM t.addUsize ((m + n) % 2 ^ t.layout.usizeBits)
              = t.addUsize ((m + n) % 2 ^ t.layout.usizeBits) rest.sum := ih hle
            _ = .ok ((m + (n + rest.sum)) % 2 ^ t.layout.usizeBits) := by
              rw [addUsize_wraps hchecks, Nat.mod_add_mod, Nat.add_assoc]
            _ = t.addUsize m (n + rest.sum) := (addUsize_wraps hchecks ..).symm
      | true =>
          rw [addUsize_checks hchecks m n, addUsize_checks hchecks m (n + rest.sum)]
          by_cases hle : m + n ≤ t.layout.usizeMax
          · rw [if_pos hle, ← Nat.add_assoc, ← addUsize_checks hchecks]
            exact ih hle
          · rw [if_neg hle, if_neg (by omega)]
            rfl

theorem iovLen_eq (iov : List Bytes) : iovLen t iov = t.addUsize 0 iov.flatten.length := by
  rw [iovLen, foldlM_addUsize _ (Nat.zero_le _), List.length_flatten]

end Sum

/-! ## Refusals and calls -/

section Ends

variable {α : Type}

/-- The run fails with `InvalidInput` and makes no system call. -/
def Refused (w : World) (r : Outcome IoError Panic Syscall α × World) : Prop :=
  ∃ e : IoError, r = (.err e, w) ∧ e.kind = .invalidInput

/-- A `sendmsg` that the run made, or is left waiting for. -/
def Issued (w : World) (r : Outcome IoError Panic Syscall α × World) (call : SendCall) : Prop :=
  (∃ answer, .sendmsg call answer ∈ r.2.trace.drop w.trace.length) ∨
    r.1 = .pending (.sendmsg call)

/-- Control data only go out with a payload. -/
def WithPayload (w : World) (r : Outcome IoError Panic Syscall α × World) : Prop :=
  ∀ call, Issued w r call → call.control ≠ none → call.payload ≠ []

/-- A run that makes no call. -/
theorem not_issued {w : World} {o : Outcome IoError Panic Syscall α}
    (ho : ∀ c, o ≠ .pending c) (call : SendCall) : ¬ Issued w (o, w) call := by
  rintro (⟨answer, hmem⟩ | hpending)
  · rw [List.drop_length] at hmem
    cases hmem
  · exact ho _ hpending

end Ends

section Runs

variable {t : Target} {rt : Runtime} {w : World}

/-- `setsockopt` does not refuse a send with `InvalidInput`. -/
theorem Target.refusal_kind {nosigpipe : Nat → Nat → Option SetsockoptError} {k j : Nat}
    {e : OsError} (h : t.refusal nosigpipe k j = some e) : e.kind ≠ .invalidInput := by
  rw [Target.refusal] at h
  split at h
  case isTrue =>
      obtain ⟨⟨error, hne⟩, -, rfl⟩ := Option.map_eq_some_iff.mp h
      cases error <;> simp [nosigpipeError, OsError.kind]
  case isFalse => cases h

section Turns

variable {call : SendCall} {r : Outcome IoError Panic Syscall Nat × World}
  {answers : List (Except OsError Nat)}

theorem Turn.pending_eq {refuses : Nat → Option OsError} {j : Nat} {c : Syscall}
    (h : Turn rt call refuses j answers (.pending c)) : c = .sendmsg call := by
  rcases h.ends with ⟨n, -, ho⟩ | ⟨e, ho⟩ | ho
  · cases ho
  · cases ho
  · cases ho
    rfl

/-- One send is not refused. -/
theorem Turned.not_refused (h : Turned t rt call w r answers) : ¬ Refused w r := by
  rintro ⟨e, rfl, hkind⟩
  have htrace := h.trace
  have hturn := h.turn
  obtain rfl : answers = [] := by simpa using htrace
  cases hturn with
  | refused e he => exact Target.refusal_kind he hkind

/-- The calls of one send are its call. -/
theorem Turned.issued (h : Turned t rt call w r answers) {call' : SendCall}
    (hissued : Issued w r call') : call' = call := by
  rcases hissued with ⟨answer, hmem⟩ | hpending
  · rw [h.trace, List.drop_left] at hmem
    obtain ⟨x, -, hx⟩ := List.mem_map.mp hmem
    cases hx
    rfl
  · have hturn := h.turn
    rw [hpending] at hturn
    cases hturn.pending_eq
    rfl

end Turns

section Sendings

variable {data : Bytes} {fds : List RawFd} {sent : Nat}
  {r : Outcome IoError Panic Syscall Unit × World} {attempts : List SendAttempt}

/-- Only the call at offset zero carries control data. -/
theorem callAt_control (h : (callAt t data fds sent).control ≠ none) : sent = 0 ∧ fds ≠ [] := by
  by_cases hsent : sent = 0
  · refine ⟨hsent, fun hnil => h ?_⟩
    rw [callAt, hnil, ite_self]
    rfl
  · rw [callAt, if_neg hsent] at h
    exact absurd rfl h

theorem SendingRun.not_refused (h : SendingRun t rt data fds sent w r attempts) :
    ¬ Refused w r := by
  rintro ⟨e, rfl, hkind⟩
  have htrace := h.recorded.trace
  have hsending := h.sending
  obtain rfl : attempts = [] := by simpa using htrace
  cases hsending with
  | refused hlt e he => exact Target.refusal_kind he hkind

/-- The calls of a run are those of the machine. -/
theorem SendingRun.issued (h : SendingRun t rt data fds 0 w r attempts) {call : SendCall}
    (hissued : Issued w r call) : ∃ sent, call = callAt t data fds sent := by
  rcases hissued with ⟨answer, hmem⟩ | hpending
  · rw [h.recorded.trace, List.drop_left] at hmem
    obtain ⟨a, ha, heq⟩ := List.mem_map.mp hmem
    cases heq
    obtain ⟨pre, post, rfl⟩ := List.append_of_mem ha
    exact ⟨_, h.sending.split.1⟩
  · have hsending := h.sending
    rw [hpending] at hsending
    rcases hsending.ends with h | ⟨_, h⟩ | ⟨_, h, -⟩ | h
    · cases h
    · cases h
    · cases h
    · cases h
      exact ⟨_, rfl⟩

end Sendings

end Runs

/-! ## The three sends -/

/-- A send is refused exactly when `refuses` holds; it sends control data only with a
payload, and it does not panic. -/
structure Decides {α : Type} (w : World) (r : Outcome IoError Panic Syscall α × World)
    (refuses : Prop) : Prop where
  refused : Refused w r ↔ refuses
  withPayload : WithPayload w r
  no_panic : ∀ p, r.1 ≠ .panic p

section Decisions

variable {t : Target} {rt : Runtime} {w : World} {fds : List RawFd} {refuses : Prop}

/-- A send that is refused by the payload check. -/
theorem Decides.of_refused {α : Type} (h : refuses) :
    Decides w ((.err streamPayloadError, w) : Outcome IoError Panic Syscall α × World)
      refuses where
  refused := iff_of_true ⟨_, rfl, rfl⟩ h
  withPayload call hissued := absurd hissued (not_issued (fun _ hc => by cases hc) call)
  no_panic _ hp := by cases hp

theorem Turn.ne_panic {call : SendCall} {refuses : Nat → Option OsError} {j : Nat}
    {answers : List (Except OsError Nat)} {o : Outcome IoError Panic Syscall Nat}
    (h : Turn rt call refuses j answers o) (p : Panic) : o ≠ .panic p := by
  rintro rfl
  rcases h.ends with ⟨n, -, ho⟩ | ⟨e, ho⟩ | ho <;> cases ho

/-- A send that passes the payload check, with its one call. -/
theorem Decides.of_turned {iov : List Bytes} {answers : List (Except OsError Nat)}
    {r : Outcome IoError Panic Syscall Nat × World}
    (h : Turned t rt (sendCallFor t iov fds) w r answers) (hnot : ¬ refuses)
    (hpayload : fds ≠ [] → (t.named iov).flatten ≠ []) : Decides w r refuses where
  refused := iff_of_false h.not_refused hnot
  withPayload := by
    intro call hissued hcontrol
    obtain rfl := h.issued hissued
    apply hpayload
    rintro rfl
    exact hcontrol rfl
  no_panic := h.turn.ne_panic

/-- `send_fds` refuses an empty payload with descriptors. -/
theorem sendFds_decides (hlen : fds.length * 4 ≤ i32Max) (data : Bytes) (w : World) :
    Decides w ((UnixStreamExt.sendFds t rt data fds).run w) (fds ≠ [] ∧ data = []) := by
  rw [UnixStreamExt.sendFds, streamSendFds, validateStreamSend_eq]
  split
  case isTrue hrefuse => exact .of_refused hrefuse.symm
  case isFalse hpass =>
      rw [pure_bind_eq, sendFdsImpl, sendFdsVectoredImpl_eq _ hlen]
      obtain ⟨answers, h⟩ := turned_io (t := t) rt (sendCallFor t [data] fds) w
      apply Decides.of_turned h
      · exact fun hrefuse => hpass hrefuse.symm
      · intro hne hdata
        exact hpass ⟨by simpa using hdata, hne⟩

/-- `send_fds_all` refuses an empty payload with descriptors. -/
theorem sendFdsAll_decides (hlen : fds.length * 4 ≤ i32Max) (data : Bytes) (w : World) :
    Decides w ((UnixStreamExt.sendFdsAll t rt data fds).run w) (fds ≠ [] ∧ data = []) := by
  by_cases hrefuse : data = [] ∧ fds ≠ []
  · rw [UnixStreamExt.sendFdsAll, streamSendFdsAll, validateStreamSend_eq, if_pos hrefuse]
    exact .of_refused hrefuse.symm
  · obtain ⟨attempts, h⟩ := sendingRun_all (t := t) rt hlen hrefuse w
    rw [UnixStreamExt.sendFdsAll]
    constructor
    · exact iff_of_false h.not_refused fun hrefuse' => hrefuse hrefuse'.symm
    · intro call hissued hcontrol
      obtain ⟨sent, rfl⟩ := h.issued hissued
      obtain ⟨rfl, hne⟩ := callAt_control hcontrol
      intro hempty
      exact hrefuse ⟨by simpa [callAt, sendCallFor, SendCall.payload] using hempty, hne⟩
    · intro p hp
      have hsending := h.sending
      rw [hp] at hsending
      rcases hsending.ends with h | ⟨_, h⟩ | ⟨_, h, -⟩ | h <;> cases h

/-- `send_fds_vectored` refuses a zero sum with descriptors. -/
theorem sendFdsVectored_decides (rt : Runtime) (hlen : fds.length * 4 ≤ i32Max)
    {iov : List Bytes} {total : Nat} (htotal : iovLen t iov = .ok total)
    (hempty : fds ≠ [] → (t.named iov).flatten = [] → total = 0) (w : World) :
    Decides w ((UnixStreamExt.sendFdsVectored t rt iov fds).run w) (fds ≠ [] ∧ total = 0) := by
  rw [UnixStreamExt.sendFdsVectored, streamSendFdsVectored, htotal, ofExcept_ok_bind,
    sendFdsVectoredImpl_eq _ hlen]
  obtain ⟨answers, h⟩ := turned_io (t := t) rt (sendCallFor t iov fds) w
  by_cases hne : fds ≠ []
  · rw [if_pos hne]
    by_cases hzero : total = 0
    · rw [if_pos hzero]
      exact .of_refused ⟨hne, hzero⟩
    · rw [if_neg hzero]
      apply Decides.of_turned h
      · exact fun hrefuse => hzero hrefuse.2
      · exact fun hne hflat => hzero (hempty hne hflat)
  · rw [if_neg hne]
    apply Decides.of_turned h
    · exact fun hrefuse => hne hrefuse.1
    · exact fun hne' => absurd hne' hne

/-- Without descriptors nothing is summed. -/
theorem sendFdsVectored_nil (rt : Runtime) (iov : List Bytes) (w : World) :
    Decides w ((UnixStreamExt.sendFdsVectored t rt iov []).run w) False := by
  rw [UnixStreamExt.sendFdsVectored, streamSendFdsVectored, if_neg (not_not.mpr rfl),
    sendFdsVectoredImpl_eq _ (Nat.zero_le _)]
  obtain ⟨answers, h⟩ := turned_io (t := t) rt (sendCallFor t iov []) w
  exact .of_turned h not_false fun hne => absurd rfl hne

/-- An overflow of the sum aborts the vectored send. -/
theorem sendFdsVectored_panic (rt : Runtime) {iov : List Bytes} {p : Panic} (hne : fds ≠ [])
    (htotal : iovLen t iov = .error p) (w : World) :
    (UnixStreamExt.sendFdsVectored t rt iov fds).run w = (.panic p, w) := by
  rw [UnixStreamExt.sendFdsVectored, streamSendFdsVectored, if_pos hne, htotal]
  rfl

end Decisions

/-! ## The rule -/

/-- The payload rule for slices `iov` and descriptors `fds`: the vectored send refuses
exactly descriptors without a payload byte, as both scalar sends of the joined payload do; it
does not panic; and no send makes a call with control data and an empty payload. -/
structure PayloadRule (t : Target) (rt : Runtime) (iov : List Bytes) (fds : List RawFd) :
    Prop where
  vectored : ∀ w, Refused w ((UnixStreamExt.sendFdsVectored t rt iov fds).run w) ↔
    fds ≠ [] ∧ ∀ slice ∈ iov, slice = []
  scalar : ∀ w, Refused w ((UnixStreamExt.sendFdsVectored t rt iov fds).run w) ↔
    Refused w ((UnixStreamExt.sendFds t rt iov.flatten fds).run w)
  all : ∀ w, Refused w ((UnixStreamExt.sendFdsVectored t rt iov fds).run w) ↔
    Refused w ((UnixStreamExt.sendFdsAll t rt iov.flatten fds).run w)
  no_panic : ∀ w p, ((UnixStreamExt.sendFdsVectored t rt iov fds).run w).1 ≠ .panic p
  withPayload : ∀ w, WithPayload w ((UnixStreamExt.sendFdsVectored t rt iov fds).run w) ∧
    WithPayload w ((UnixStreamExt.sendFds t rt iov.flatten fds).run w) ∧
    WithPayload w ((UnixStreamExt.sendFdsAll t rt iov.flatten fds).run w)

section Rule

variable {t : Target} {rt : Runtime} {iov : List Bytes} {fds : List RawFd}

/-- The rule holds when the vectored send decides by emptiness. -/
theorem PayloadRule.of_decides (hlen : fds.length * 4 ≤ i32Max)
    (h : ∀ w, Decides w ((UnixStreamExt.sendFdsVectored t rt iov fds).run w)
      (fds ≠ [] ∧ iov.flatten = [])) : PayloadRule t rt iov fds where
  vectored w := by rw [(h w).refused, List.flatten_eq_nil_iff]
  scalar w := (h w).refused.trans (sendFds_decides hlen _ w).refused.symm
  all w := (h w).refused.trans (sendFdsAll_decides hlen _ w).refused.symm
  no_panic w := (h w).no_panic
  withPayload w := ⟨(h w).withPayload, (sendFds_decides hlen _ w).withPayload,
    (sendFdsAll_decides hlen _ w).withPayload⟩

/-- The rule holds when the sum is zero for an empty payload only, and a byte of any other
payload is sent. -/
theorem PayloadRule.of_iovLen (hlen : fds.length * 4 ≤ i32Max) {total : Nat}
    (htotal : iovLen t iov = .ok total) (hzero : total = 0 ↔ iov.flatten = [])
    (hnamed : (t.named iov).flatten = [] → iov.flatten = []) : PayloadRule t rt iov fds := by
  apply PayloadRule.of_decides hlen
  intro w
  have hdecides := sendFdsVectored_decides rt hlen htotal (fun _ h => hzero.mpr (hnamed h)) w
  rw [hzero] at hdecides
  exact hdecides

/-- Where the sum overflows and is not told from zero, the rule is broken. -/
theorem PayloadRule.sum_fits (hlen : fds.length * 4 ≤ i32Max) (h : PayloadRule t rt iov fds)
    (hne : fds ≠ []) (hover : t.layout.usizeMax < iov.flatten.length) :
    t.overflowChecks = false ∧ iov.flatten.length % 2 ^ t.layout.usizeBits ≠ 0 := by
  have hsum : iovLen t iov = t.addUsize 0 iov.flatten.length := iovLen_eq iov
  have hnonempty : iov.flatten ≠ [] := List.ne_nil_of_length_pos (by omega)
  let w := World.scripted [] []
  cases hchecks : t.overflowChecks with
  | true =>
      rw [addUsize_checks hchecks, if_neg (by omega)] at hsum
      have hpanic := sendFdsVectored_panic rt hne hsum w
      exact absurd (congrArg Prod.fst hpanic) (h.no_panic w _)
  | false =>
      refine ⟨rfl, fun hzero => ?_⟩
      rw [addUsize_wraps hchecks, Nat.zero_add, hzero] at hsum
      have hrefused := (sendFdsVectored_decides rt hlen hsum (fun _ _ => rfl) w).refused
      have hempty := (h.vectored w).mp (hrefused.mpr ⟨hne, rfl⟩)
      exact hnonempty (List.flatten_eq_nil_iff.mpr hempty.2)

/-- A send to a kernel that does not answer waits with its call. -/
theorem issued_sendWith (rt : Runtime) (call : SendCall) :
    Issued (.scripted [] []) ((rt.io (sendWith t call)).run (.scripted [] [])) call := by
  have hfree : ∀ k j, t.refusal (World.scripted [] []).nosigpipe k j = none := by
    intro k j
    rw [Target.refusal]
    exact ite_self _
  obtain ⟨answers, h⟩ := turned_io (t := t) rt call (.scripted [] [])
  generalize (rt.io (sendWith t call)).run (.scripted [] []) = r at h ⊢
  obtain ⟨o, w⟩ := r
  obtain ⟨raw, hraw, rfl⟩ := h.script
  obtain ⟨rfl, -⟩ := List.append_eq_nil_iff.mp hraw.symm
  have hturn := h.turn
  rw [List.map_nil] at hturn
  cases hturn with
  | refused e he =>
      rw [hfree] at he
      cases he
  | waiting => exact .inr rfl

/-- Where no slice that the header names has a byte, a payload is not sent with its
descriptors. -/
theorem PayloadRule.named (hlen : fds.length * 4 ≤ i32Max) (h : PayloadRule t rt iov fds)
    (hne : fds ≠ []) (hempty : (t.named iov).flatten = []) : iov.flatten = [] := by
  by_contra hpayload
  obtain ⟨total, htotal, hzero⟩ : ∃ total, iovLen t iov = .ok total ∧ total ≠ 0 := by
    rw [iovLen_eq]
    rcases Nat.lt_or_ge t.layout.usizeMax iov.flatten.length with hover | hfits
    · obtain ⟨hchecks, hwraps⟩ := h.sum_fits hlen hne hover
      rw [addUsize_wraps hchecks, Nat.zero_add]
      exact ⟨_, rfl, hwraps⟩
    · rw [Target.addUsize, Nat.zero_add, if_pos hfits]
      exact ⟨_, rfl, mt List.length_eq_zero_iff.mp hpayload⟩
  have hrun : UnixStreamExt.sendFdsVectored t rt iov fds =
      rt.io (sendWith t (sendCallFor t iov fds)) := by
    rw [UnixStreamExt.sendFdsVectored, streamSendFdsVectored, if_pos hne, htotal,
      ofExcept_ok_bind, if_neg hzero, sendFdsVectoredImpl_eq _ hlen]
  have hissued := issued_sendWith (t := t) rt (sendCallFor t iov fds)
  rw [← hrun] at hissued
  refine (h.withPayload _).1 _ hissued ?_ hempty
  simp [sendCallFor, controlFor, hne]

end Rule

/-- The payload rule holds exactly when there are no descriptors, or when both of the
following are true: the total length of the slices is a `usize`, or the sum of an unchecked
build wraps to something else than zero; and of a payload that is not empty, some slice that
the header names is not empty. -/
theorem payload_rule_iff (t : Target) (rt : Runtime) (iov : List Bytes) {fds : List RawFd}
    (hlen : 4 * fds.length ≤ i32Max) :
    PayloadRule t rt iov fds ↔
      fds = [] ∨
        ((iov.map List.length).sum ≤ t.layout.usizeMax ∨
          (t.overflowChecks = false ∧
            (iov.map List.length).sum % 2 ^ t.layout.usizeBits ≠ 0)) ∧
        ((∀ slice ∈ t.named iov, slice = []) → ∀ slice ∈ iov, slice = []) := by
  rw [Nat.mul_comm] at hlen
  rw [← List.length_flatten, ← List.flatten_eq_nil_iff, ← List.flatten_eq_nil_iff]
  have hsum : iovLen t iov = t.addUsize 0 iov.flatten.length := iovLen_eq iov
  constructor
  · intro h
    by_cases hne : fds = []
    · exact .inl hne
    refine .inr ⟨?_, h.named hlen hne⟩
    rcases Nat.lt_or_ge t.layout.usizeMax iov.flatten.length with hover | hfits
    · exact .inr (h.sum_fits hlen hne hover)
    · exact .inl hfits
  · rintro (rfl | ⟨hfits | ⟨hchecks, hwraps⟩, hnamed⟩)
    · apply PayloadRule.of_decides hlen
      intro w
      have hdecides := sendFdsVectored_nil (t := t) rt iov w
      simpa using hdecides
    · rw [Target.addUsize, Nat.zero_add, if_pos hfits] at hsum
      exact .of_iovLen hlen hsum List.length_eq_zero_iff hnamed
    · rw [addUsize_wraps hchecks, Nat.zero_add] at hsum
      refine .of_iovLen hlen hsum (iff_of_false hwraps fun hempty => ?_) hnamed
      rw [hempty] at hwraps
      exact hwraps (Nat.zero_mod _)

/-- An empty slice before a byte: the rule holds, so the descriptor is not refused. -/
theorem payload_rule_iff_vectored : ¬ Refused (.scripted [.ok 1] [])
    ((UnixStreamExt.sendFdsVectored .linux64 .blocking [[], [7]] [5]).run
      (.scripted [.ok 1] [])) := by
  have hrule : PayloadRule .linux64 .blocking [[], [7]] [5] :=
    (payload_rule_iff .linux64 .blocking [[], [7]] (by decide)).mpr
      (.inr ⟨.inl (by decide), fun h => h⟩)
  rw [hrule.vectored]
  rintro ⟨-, hempty⟩
  exact absurd (hempty [7] (by simp)) (by decide)

/-- Four slices over the same 2³⁰ bytes, on a 32-bit target without overflow checks: their
total wraps to zero, and the descriptor is refused for want of a payload. -/
theorem payload_rule_wraps :
    let slice : Bytes := List.replicate (2 ^ 30) 0
    let iov := List.replicate 4 slice
    let w := World.scripted [.ok 1] []
    slice.length ≤ 2 ^ 31 - 1 ∧ 4 * ([5] : List RawFd).length ≤ i32Max ∧ iov.flatten ≠ [] ∧
      Refused w ((UnixStreamExt.sendFdsVectored .linux32 .blocking iov [5]).run w) ∧
      ¬ PayloadRule .linux32 .blocking iov [5] := by
  intro slice iov w
  have hslice : slice.length = 2 ^ 30 := List.length_replicate
  have hlength : iov.flatten.length = 4 * 2 ^ 30 := by
    rw [List.length_flatten, List.map_replicate, hslice, List.sum_replicate_nat]
  have hsum : iovLen .linux32 iov = .ok 0 := by
    rw [iovLen_eq, hlength, addUsize_wraps rfl]
    rfl
  have hnonempty : iov.flatten ≠ [] := by
    apply List.ne_nil_of_length_pos
    rw [hlength]
    decide
  have hrefused : Refused w
      ((UnixStreamExt.sendFdsVectored .linux32 .blocking iov [5]).run w) := by
    have hlen : ([5] : List RawFd).length * 4 ≤ i32Max := by decide
    have hdecides := sendFdsVectored_decides .blocking hlen hsum (fun _ _ => rfl) w
    exact hdecides.refused.mpr ⟨by decide, rfl⟩
  refine ⟨?_, by decide, hnonempty, hrefused, fun hrule => ?_⟩
  · rw [hslice]
    decide
  · have hempty := ((hrule.vectored w).mp hrefused).2
    exact hnonempty (List.flatten_eq_nil_iff.mpr hempty)

/-- Slices over one byte, 2³² of them, where `msg_iovlen` is a C integer: it narrows to zero,
and the descriptor goes out without a payload. -/
theorem payload_rule_narrows :
    let iov : List Bytes := List.replicate (2 ^ 32) [0]
    let call : SendCall := sendCallFor .macos iov [5]
    call.payload = [] ∧ call.control ≠ none ∧
      Issued (.scripted [] []) ((UnixStreamExt.sendFdsVectored .macos .blocking iov [5]).run
        (.scripted [] [])) call ∧ ¬ PayloadRule .macos .blocking iov [5] := by
  intro iov call
  have hlength : iov.flatten.length = 2 ^ 32 := by
    rw [List.length_flatten, List.map_replicate, List.length_singleton, List.sum_replicate_nat,
      Nat.mul_one]
  have hnamed : Target.macos.named iov = [] := by
    have hcount : Target.macos.msgIovlen.count (2 ^ 32) = 0 := by decide
    rw [Target.named, List.length_replicate, hcount, List.take_zero]
  have hpayload : call.payload = [] := by
    rw [payload_sendCallFor, hnamed, List.flatten_nil]
  have hcontrol : call.control ≠ none := by simp [call, sendCallFor, controlFor]
  have hfits : (0 : Nat) + 2 ^ 32 ≤ Target.macos.layout.usizeMax := by decide
  have hrun : UnixStreamExt.sendFdsVectored .macos .blocking iov [5] =
      Runtime.blocking.io (sendWith .macos call) := by
    rw [UnixStreamExt.sendFdsVectored, streamSendFdsVectored, if_pos (by decide), iovLen_eq,
      hlength, Target.addUsize, if_pos hfits, ofExcept_ok_bind, if_neg (by decide),
      sendFdsVectoredImpl_eq _ (by decide)]
  have hissued := issued_sendWith (t := .macos) .blocking call
  rw [← hrun] at hissued
  exact ⟨hpayload, hcontrol, hissued, fun hrule =>
    (hrule.withPayload _).1 call hissued hcontrol hpayload⟩

end UnixAncillary
