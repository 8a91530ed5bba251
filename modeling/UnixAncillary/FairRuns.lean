import UnixAncillary.Streams

/-!
# Fair runs of a stream

Whether a message arrives is up to the kernel and the receivers: it does when every send is
answered again and again until it is over, and something of what is queued is received sooner
or later. What the crate adds is that nothing else is needed: an answer that does not repeat a
call completes it or brings it closer to its end. `fair_runs_deliver` says so for every fair
run of the parties.
-/

namespace UnixAncillary

open ByteCodec HandleTable Program Program.Prog Fifo Marked Liveness

/-! ## Answers that settle a call -/

section Repeats

variable {β γ : Type} {rt : Runtime}

theorem repeats_error {e : OsError} :
    rt.repeats (.error e : Except OsError β) = true ↔ rt.Retries e := by
  simp [Runtime.repeats, Runtime.Retries]

@[simp] theorem repeats_ok (b : β) : rt.repeats (.ok b : Except OsError β) = false := by
  simp [Runtime.repeats]

@[simp] theorem repeats_map (f : β → γ) (a : Except OsError β) :
    rt.repeats (Except.map f a) = rt.repeats a := by
  cases a with
  | ok b => rw [Except.map, repeats_ok, repeats_ok]
  | error e => rfl

end Repeats

section Calls

variable {t : Target} {rt : Runtime} {data : Bytes} {fds : List RawFd} {k j sent : Nat}
  {refuses : Nat → Nat → Option OsError} {attempts : List SendAttempt}
  {o : Outcome IoError Panic Syscall Unit} {script : List (Except OsError Nat)}

/-- Every call of the machine offers something of the payload. -/
theorem Sending.offers (h : Sending t rt data fds refuses k j sent attempts o) :
    ∀ a ∈ attempts, data ≠ [] ∧ 0 < a.1.payload.length := by
  have hoffer : ∀ sent', sent' < data.length →
      data ≠ [] ∧ 0 < (callAt t data fds sent').payload.length := by
    intro sent' hlt
    rw [length_payload_callAt]
    exact ⟨List.ne_nil_of_length_pos (by omega), by omega⟩
  induction h with
  | done hle => exact List.forall_mem_nil _
  | refused hlt e he => exact List.forall_mem_nil _
  | waiting hlt hfree => exact List.forall_mem_nil _
  | zero hlt hfree => exact List.forall_mem_singleton.mpr (hoffer _ hlt)
  | accepted hfree n hn hle hrest ih =>
      exact List.forall_mem_cons.mpr ⟨hoffer _ (by omega), ih⟩
  | retried hlt hfree e he hrest ih => exact List.forall_mem_cons.mpr ⟨hoffer _ hlt, ih⟩
  | failed hlt hfree e he => exact List.forall_mem_singleton.mpr (hoffer _ hlt)

/-- In a waiting run every answer that did not repeat its call accepted something, and
something is left to send. -/
theorem Sending.paced {s : Syscall} (h : Sending t rt data fds refuses k j sent attempts o)
    (ho : o = .pending s) :
    (attempts.filter fun a => !rt.repeats a.2).length ≤ SendAttempt.total attempts ∧
      sent + SendAttempt.total attempts < data.length := by
  induction h with
  | done hle => cases ho
  | refused hlt e he => cases ho
  | waiting hlt hfree => exact ⟨le_rfl, hlt⟩
  | zero hlt hfree => cases ho
  | accepted hfree n hn hle hrest ih =>
      obtain ⟨hcount, hleft⟩ := ih ho
      rw [List.filter_cons_of_pos (by simp), List.length_cons, total_cons, accepted_ok]
      exact ⟨by omega, by omega⟩
  | retried hlt hfree e he hrest ih =>
      rw [List.filter_cons_of_neg (by simpa using repeats_error.mpr he), total_cons,
        accepted_error, Nat.zero_add]
      exact ih ho
  | failed hlt hfree e he => cases ho

/-- The calls are settled by as many answers as the script has. -/
theorem Answered.settled (h : Answered attempts script) :
    (attempts.filter fun a => !rt.repeats a.2).length =
      (script.filter (!rt.repeats ·)).length := by
  induction h with
  | nil => rfl
  | cons hanswer hrest ih =>
      simp only [List.filter_cons, hanswer, repeats_map]
      split
      · rw [List.length_cons, List.length_cons, ih]
      · exact ih

theorem Answered.mem (h : Answered attempts script) {a : SendAttempt} (ha : a ∈ attempts) :
    ∃ x ∈ script, a.2 = Except.map (min · a.1.payload.length) x := by
  induction h with
  | nil => cases ha
  | cons hanswer hrest ih =>
      rcases List.mem_cons.mp ha with rfl | ha
      · exact ⟨_, List.mem_cons_self, hanswer⟩
      · obtain ⟨x, hx, heq⟩ := ih ha
        exact ⟨x, List.mem_cons_of_mem _ hx, heq⟩

/-- A turn fails when `setsockopt` refuses it, or with an error that is not retried. -/
theorem Turn.err_cases {call : SendCall} {refuses : Nat → Option OsError}
    {answers : List (Except OsError Nat)} {e : IoError}
    (h : Turn rt call refuses j answers (.err e)) :
    (∃ j', refuses j' ≠ none) ∨ ∃ e', .error e' ∈ answers ∧ ¬ rt.Retries e' := by
  generalize ho : (.err e : Outcome IoError Panic Syscall Nat) = o at h
  induction h with
  | refused e' he => exact .inl ⟨_, Option.ne_none_iff_exists'.mpr ⟨e', he⟩⟩
  | waiting hfree => cases ho
  | accepted hfree n hn => cases ho
  | failed hfree e' he => exact .inr ⟨e', List.mem_singleton_self _, he⟩
  | retried hfree e' he rest ih =>
      refine (ih ho).imp_right ?_
      rintro ⟨e'', hmem, hnot⟩
      exact ⟨e'', List.mem_cons_of_mem _ hmem, hnot⟩

end Calls

/-! ## A running send -/

/-- The runtime that makes the calls of a send again. -/
def StreamSend.runtime (rt : Runtime) : StreamSend → Runtime
  | .single op => op.runtime rt
  | .all _ _ => rt

namespace Streaming

/-- The answers so far after which the call was not repeated as it was. -/
def settled (c : Streaming) : List (Except OsError Nat) :=
  c.answers.filter (!(c.op.runtime c.rt).repeats ·)

/-- The kernel interrupts a send or accepts some of it, if there is something, and
`setsockopt` never refuses it. -/
structure Healthy (t : Target) (c : Streaming) : Prop where
  answers : ∀ a ∈ c.settled, ∃ n, (0 < n ∨ c.message.payload = []) ∧ a = .ok n
  unrefused : ∀ k j, t.refusal c.world.nosigpipe k j = none

variable {t : Target} {c : Streaming}

theorem Healthy.accepts (h : c.Healthy t) {n : Nat} (hn : .ok n ∈ c.answers) :
    0 < n ∨ c.message.payload = [] := by
  obtain ⟨n', hpos, heq⟩ := h.answers (.ok n) (List.mem_filter.mpr ⟨hn, by simp⟩)
  cases heq
  exact hpos

theorem Healthy.retries (h : c.Healthy t) {e : OsError} (he : .error e ∈ c.answers) :
    (c.op.runtime c.rt).Retries e := by
  by_contra hnot
  have hmem : .error e ∈ c.settled :=
    List.mem_filter.mpr ⟨he, by simpa using mt repeats_error.mp hnot⟩
  obtain ⟨n, -, heq⟩ := h.answers _ hmem
  cases heq

/-- A waiting send has got at least one byte accepted by every answer that settled a call. -/
theorem Running.waiting (h : c.Running t) {s : Syscall} (hcall : (c.run t).1 = .pending s) :
    c.settled.length ≤ c.message.payload.length := by
  obtain ⟨hcarries, hgot⟩ := h
  obtain ⟨op, rt, m, w, answers, k⟩ := c
  cases op with
  | single op =>
      obtain ⟨-, ⟨hrunning, rfl⟩ | hok⟩ := hgot
      · have hnone : answers.filter (!(op.runtime rt).repeats ·) = [] := by
          refine List.filter_eq_nil_iff.mpr fun a ha => ?_
          obtain ⟨_, -, -, hwaiting, -⟩ := hrunning.waiting hcall
          obtain ⟨e, rfl, he⟩ := hwaiting.waiting_cases.2 a ha
          have hrepeats : (op.runtime rt).repeats (.error e : Except OsError Nat) = true :=
            repeats_error.mpr he
          simp [hrepeats]
        exact (congrArg List.length hnone).trans_le (Nat.zero_le _)
      · cases hcall.symm.trans hok
  | all data fds =>
      obtain ⟨rfl, -⟩ := hcarries
      obtain ⟨attempts, hrun, rfl⟩ := hgot ⟨data, fds⟩ [] rfl
      have hwait := run_all_pending.mp hcall
      obtain ⟨hcount, hleft⟩ := hrun.sending.paced hwait
      obtain ⟨raw, hraw, hanswered⟩ := hrun.recorded.script
      rw [hrun.drained _ hwait, List.append_nil] at hraw
      rw [hanswered.settled, ← hraw] at hcount
      rw [Nat.zero_add] at hleft
      exact hcount.trans hleft.le

/-- A call of one turn that a healthy send does not wait for has returned. -/
theorem Healthy.turned (h : c.Healthy t) {call : SendCall}
    (hpayload : call.payload = c.message.payload)
    {r : Outcome IoError Panic Syscall Nat × World} {answers : List (Except OsError Nat)}
    (hturn : Turned t (c.op.runtime c.rt) call { c.world with sends := c.answers } r answers)
    (hover : ∀ s, r.1 ≠ .pending s) :
    ∃ n, (0 < n ∨ c.message.payload = []) ∧ r.1 = .ok n := by
  obtain ⟨raw, hraw, rfl⟩ := hturn.script
  have hasked : ∀ a ∈ raw.map (Except.map (min · call.payload.length)),
      ∃ x ∈ c.answers, Except.map (min · call.payload.length) x = a := by
    intro a ha
    obtain ⟨x, hx, heq⟩ := List.mem_map.mp ha
    refine ⟨x, ?_, heq⟩
    rw [show c.answers = raw ++ r.2.sends from hraw]
    exact List.mem_append_left _ hx
  rcases hturn.turn.ends with ⟨n, -, hok⟩ | ⟨e, herr⟩ | hwait
  · have hturn' := hturn.turn
    rw [hok] at hturn'
    obtain ⟨x, hx, heq⟩ := hasked _ hturn'.ok_mem
    refine ⟨n, ?_, hok⟩
    cases x with
    | error e => cases heq
    | ok n' =>
        cases heq
        by_cases hnil : c.message.payload = []
        · exact .inr hnil
        · have hpos := List.length_pos_iff.mpr hnil
          rw [hpayload]
          exact .inl (Nat.lt_min.mpr ⟨(h.accepts hx).resolve_right hnil, hpos⟩)
  · have hturn' := hturn.turn
    rw [herr] at hturn'
    rcases hturn'.err_cases with ⟨j, hrefused⟩ | ⟨e', hmem, hnot⟩
    · exact absurd (h.unrefused _ j) hrefused
    · obtain ⟨x, hx, heq⟩ := hasked _ hmem
      cases x with
      | ok n => cases heq
      | error e'' =>
          cases heq
          exact absurd (h.retries hx) hnot
  · exact absurd hwait (hover _)

/-- A healthy run of the machine that does not wait has completed. -/
theorem Healthy.sending (h : c.Healthy t) {fds : List RawFd} {k j : Nat}
    {attempts : List SendAttempt} {o : Outcome IoError Panic Syscall Unit}
    (hsending : Sending t (c.op.runtime c.rt) c.message.payload fds
      (t.refusal c.world.nosigpipe) k j 0 attempts o)
    {raw : List (Except OsError Nat)} (hanswered : Answered attempts raw)
    (hraw : ∀ a ∈ raw, a ∈ c.answers) (hover : ∀ s, o ≠ .pending s) : o = .ok () := by
  rcases hsending.ends with hok | hzero | ⟨e, -, ⟨a, ha, herr, hnot⟩ | hrefused⟩ | hwait
  · exact hok
  · obtain ⟨a, ha, hnone⟩ := hsending.stops.1.mpr hzero
    obtain ⟨hnil, hoffer⟩ := hsending.offers a ha
    obtain ⟨x, hx, heq⟩ := hanswered.mem ha
    rw [hnone] at heq
    cases x with
    | error e => cases heq
    | ok n =>
        have haccepts := (h.accepts (hraw _ hx)).resolve_right hnil
        have hmin : 0 = min n a.1.payload.length := Except.ok.inj heq
        omega
  · obtain ⟨x, hx, heq⟩ := hanswered.mem ha
    rw [herr] at heq
    cases x with
    | ok n => cases heq
    | error e' =>
        cases heq
        exact absurd (h.retries (hraw _ hx)) hnot
  · cases hrefused.symm.trans (h.unrefused _ _)
  · exact absurd hwait (hover _)

theorem run_all_ok {rt : Runtime} {data : Bytes} {fds : List RawFd} {w : World}
    (h : ((UnixStreamExt.sendFdsAll t rt data fds).run w).1 = .ok ()) :
    (((StreamSend.all data fds).run t rt).run w).1 = .ok data.length := by
  rw [StreamSend.run, run_bind]
  generalize (UnixStreamExt.sendFdsAll t rt data fds).run w = r at h
  obtain ⟨o, w'⟩ := r
  cases h
  rfl

/-- A healthy send that does not wait has returned `Ok`, with something accepted if there
was something. -/
theorem Running.returns (h : c.Running t) (hhealthy : c.Healthy t)
    (hover : ∀ s, (c.run t).1 ≠ .pending s) :
    ∃ n, (0 < n ∨ c.message.payload = []) ∧ (c.run t).1 = .ok n := by
  obtain ⟨hcarries, hgot⟩ := h
  obtain ⟨op, rt, m, w, answers, k⟩ := c
  cases op with
  | single op =>
      obtain ⟨call, hdatagram, hrun, -⟩ := SingleSend.Carries.run_eq hcarries
      obtain ⟨turns, hturn⟩ := turned_io (t := t) (op.runtime rt) call { w with sends := answers }
      have hpayload : call.payload = m.payload := congrArg Message.payload hdatagram
      rw [← hrun rt] at hturn
      exact hhealthy.turned hpayload hturn hover
  | all data fds =>
      obtain ⟨rfl, -⟩ := hcarries
      obtain ⟨attempts, hrun, rfl⟩ := hgot ⟨data, fds⟩ [] rfl
      obtain ⟨raw, hraw, hanswered⟩ := hrun.recorded.script
      have hok := hhealthy.sending hrun.sending hanswered
        (fun a ha => (show answers = _ from hraw) ▸ List.mem_append_left _ ha)
        fun s hs => hover s (run_all_pending.mpr hs)
      refine ⟨data.length, ?_, run_all_ok hok⟩
      cases data with
      | nil => exact .inr rfl
      | cons b rest => exact .inl (Nat.succ_pos _)

end Streaming

/-! ## Fair runs -/

namespace Streams

variable {σ ρ : Type} [DecidableEq σ] [DecidableEq ρ]

/-- The send of `i` gets an answer that settles a call, or is over. -/
def Moves (i : σ) (s s' : Streams σ ρ) : Prop :=
  ∀ c c', s.sending i = some c → s'.sending i = some c' → c.settled.length < c'.settled.length

/-- The kernel answers every send of `i` until it is over, and no send of `i` is dropped while
it waits. -/
structure Served (t : Target) (run : Nat → Streams σ ρ) (i : σ) : Prop where
  healthy : ∀ k c, (run k).sending i = some c → c.Healthy t
  kept : ∀ k c call, (run k).sending i = some c → (c.run t).1 = .pending call →
    (run (k + 1)).sending i ≠ none
  moves : ∀ k, ∃ n, k ≤ n ∧ Moves i (run n) (run (n + 1))

/-- The receivers take what is queued. -/
def Draining (run : Nat → Streams σ ρ) : Prop :=
  ∀ k, (run k).channel.queue ≠ [] →
    ∃ n, k ≤ n ∧ (run n).channel.taken ≠ (run (n + 1)).channel.taken

/-- A send that returned, and reported what it got accepted. -/
structure Returned (op : StreamSend) (message : Message) (r : Streamed) : Prop where
  op : r.op = op
  message : r.message = message
  ok : r.result = .ok r.accepted
  some : 0 < r.accepted ∨ r.message.payload = []
  reported : r.Reported

section Runs

variable {t : Target} {s s' : Streams σ ρ} {run : Nat → Streams σ ρ} {i : σ} {c : Streaming}

/-- What a step does to a running send: nothing, an answer, or its end. -/
theorem send_cases (hstep : Step t s s') (hrunning : s.sending i = some c) :
    s'.sending i = some c ∧ s'.sent i = s.sent i ∨
    (∃ c' a, s'.sending i = some c' ∧ s'.sent i = s.sent i ∧ c'.op = c.op ∧ c'.rt = c.rt ∧
      c'.message = c.message ∧ c'.answers = c.answers ++ [a] ∧
      ∃ call, (c.run t).1 = .pending call) ∨
    s'.sending i = none ∧
      s'.sent i = s.sent i ++ [⟨c.op, c.message, c.accepted, (c.run t).1⟩] := by
  cases hstep with
  | send i' c' hidle hcarries hanswers haccepted =>
      have hne : i ≠ i' := by
        rintro rfl
        cases hidle.symm.trans hrunning
      exact .inl ⟨(Function.update_of_ne hne ..).trans hrunning, rfl⟩
  | sendmsg i' c' call n hrunning' hcall hn hfds =>
      by_cases hi : i = i'
      · subst hi
        obtain rfl := Option.some.inj (hrunning'.symm.trans hrunning)
        exact .inr (.inl ⟨c'.accept n, .ok n, Function.update_self .., rfl, rfl, rfl, rfl, rfl,
          _, hcall⟩)
      · exact .inl ⟨(Function.update_of_ne hi ..).trans hrunning, rfl⟩
  | sendFails i' c' call e hrunning' hcall =>
      by_cases hi : i = i'
      · subst hi
        obtain rfl := Option.some.inj (hrunning'.symm.trans hrunning)
        exact .inr (.inl ⟨c'.fail e, .error e, Function.update_self .., rfl, rfl, rfl, rfl, rfl,
          _, hcall⟩)
      · exact .inl ⟨(Function.update_of_ne hi ..).trans hrunning, rfl⟩
  | sendEnds i' c' hrunning' hended =>
      by_cases hi : i = i'
      · subst hi
        obtain rfl := Option.some.inj (hrunning'.symm.trans hrunning)
        exact .inr (.inr ⟨Function.update_self .., Function.update_self ..⟩)
      · exact .inl ⟨(Function.update_of_ne hi ..).trans hrunning, Function.update_of_ne hi ..⟩
  | receive j c' hidle hvalid hanswers => exact .inl ⟨hrunning, rfl⟩
  | recvmsg j c' call front rest d hrunning' hcall hqueue hsingle hkernel =>
      exact .inl ⟨hrunning, rfl⟩
  | recvFails j c' call e hrunning' hcall => exact .inl ⟨hrunning, rfl⟩
  | recvEnds j c' hrunning' hended => exact .inl ⟨hrunning, rfl⟩

/-- The same call of `i` is still running. -/
def Goes (i : σ) (op : StreamSend) (message : Message) (sent : List Streamed)
    (s : Streams σ ρ) : Prop :=
  ∃ c, s.sending i = some c ∧ c.op = op ∧ c.message = message ∧ s.sent i = sent

/-- How many more answers can settle a call of the running send of `i`. -/
def left (i : σ) (s : Streams σ ρ) : Nat :=
  (s.sending i).elim 0 fun c => c.message.payload.length + 1 - c.settled.length

omit [DecidableEq σ] [DecidableEq ρ] in
theorem left_eq (hrunning : s.sending i = some c) :
    left i s = c.message.payload.length + 1 - c.settled.length := by
  rw [left, hrunning, Option.elim_some]

omit [DecidableEq ρ] in
/-- A send that is over has returned. -/
theorem Inv.returned (h : Inv t s) (hrunning : s.sending i = some c) (hhealthy : c.Healthy t)
    (hover : ∀ call, (c.run t).1 ≠ .pending call) :
    Returned c.op c.message ⟨c.op, c.message, c.accepted, (c.run t).1⟩ := by
  have hc := h.sending i c hrunning
  obtain ⟨n, hpos, hok⟩ := hc.returns hhealthy hover
  obtain ⟨rfl, -⟩ := hc.ok hok
  exact ⟨rfl, rfl, hok, hpos, hc.reported⟩

/-- A step takes a running send towards its end. -/
theorem Inv.approaches (h : Inv t s) (hstep : Step t s s') {c' : Streaming}
    (hrunning : s.sending i = some c) (hrunning' : s'.sending i = some c') :
    left i s' ≤ left i s ∧ (c.settled.length < c'.settled.length → left i s' < left i s) := by
  rw [left_eq hrunning, left_eq hrunning']
  rcases send_cases hstep hrunning with ⟨hsame, -⟩ |
    ⟨c'', a, hnext, -, hop, hrt, hmessage, hanswers, call, hcall⟩ | ⟨hnone, -⟩
  · obtain rfl := Option.some.inj (hsame.symm.trans hrunning')
    exact ⟨le_rfl, fun hlt => absurd hlt (lt_irrefl _)⟩
  · obtain rfl := Option.some.inj (hnext.symm.trans hrunning')
    have hcount := (h.sending i c hrunning).waiting hcall
    have hle : c.settled.length ≤ c''.settled.length := by
      simp only [Streaming.settled, hop, hrt, hanswers, List.filter_append, List.length_append]
      exact Nat.le_add_right ..
    rw [hmessage]
    exact ⟨by omega, fun hlt => by omega⟩
  · cases hnone.symm.trans hrunning'

/-- A send that is served returns. -/
theorem Served.returns (hserved : Served t run i) (h : Runs (Step t) start run) {k : Nat}
    (hrunning : (run k).sending i = some c) : ∃ n, k ≤ n ∧
      ∃ r, (run n).sent i = (run k).sent i ++ [r] ∧ Returned c.op c.message r := by
  have hinv : ∀ n, Inv t (run n) := fun n => inv_of_steps (h.reaches n)
  have hnext : ∀ n, run (n + 1) = run n ∨ Step t (run n) (run (n + 1)) := fun n =>
    (Relation.reflGen_iff ..).mp (h.next n)
  let goes : Streams σ ρ → Prop := Goes i c.op c.message ((run k).sent i)
  let ended (s : Streams σ ρ) : Prop :=
    ∃ r, s.sent i = (run k).sent i ++ [r] ∧ Returned c.op c.message r
  refine eventually_of_rank goes ended (left i) ⟨c, hrunning, rfl, rfl, rfl⟩ ?_ ?_ ?_
  · rintro n - ⟨c', hc', hop, hmessage, hsent⟩
    rcases hnext n with hsame | hstep
    · exact .inl ⟨c', hsame ▸ hc', hop, hmessage, hsame ▸ hsent⟩
    · rcases send_cases hstep hc' with ⟨hsame, hkept⟩ |
        ⟨c'', a, hc'', hkept, hop', -, hmessage', -⟩ | ⟨hnone, hover⟩
      · exact .inl ⟨c', hsame, hop, hmessage, hkept.trans hsent⟩
      · exact .inl ⟨c'', hc'', hop'.trans hop, hmessage'.trans hmessage, hkept.trans hsent⟩
      · have hreturned := (hinv n).returned hc' (hserved.healthy n c' hc') fun call hcall =>
          hserved.kept n c' call hc' hcall hnone
        rw [hsent] at hover
        exact .inr ⟨_, hover, { hreturned with op := hop, message := hmessage }⟩
  · rintro n - ⟨c', hc', -⟩ ⟨c'', hc'', -⟩
    rcases hnext n with hsame | hstep
    · rw [hsame]
    · exact ((hinv n).approaches hstep hc' hc'').1
  · rintro n - -
    obtain ⟨m, hm, hmoves⟩ := hserved.moves n
    refine ⟨m, hm, ?_⟩
    rintro ⟨c', hc', -⟩ ⟨c'', hc'', -⟩
    have hlt := hmoves c' c'' hc' hc''
    rcases hnext m with hsame | hstep
    · rw [hsame, hc'] at hc''
      cases hc''
      exact absurd hlt (lt_irrefl _)
    · exact ((hinv m).approaches hstep hc' hc'').2 hlt

/-- What is accepted is received. -/
theorem Draining.drained (hdrains : Draining run) (h : Runs (Step t) start run) (k : Nat) :
    ∃ n, k ≤ n ∧ (run k).channel.accepted <+: (run n).received := by
  have hinv : ∀ n, Inv t (run n) := fun n => inv_of_steps (h.reaches n)
  have hgrows : ∀ n, (run n).channel.accepted <+: (run (n + 1)).channel.accepted ∧
      (run n).channel.taken <+: (run (n + 1)).channel.taken := by
    intro n
    rcases (Relation.reflGen_iff ..).mp (h.next n) with hsame | hstep
    · rw [hsame]
      exact ⟨List.prefix_rfl, List.prefix_rfl⟩
    · exact (step_grows hstep).2
  obtain ⟨n, hn, htaken⟩ := Fifo.drains (fun n => (hinv n).conserves) (fun n => (hgrows n).1)
    (fun n => (hgrows n).2) hdrains k
  exact ⟨n, hn, (hinv n).taken ▸ htaken⟩

end Runs

/-- Fair runs deliver. Every running send that is served returns `Ok` after a while, with
something accepted, and `send_fds_all` with everything. If the receivers take what is queued
then all that it got accepted is received later, the descriptors on the first byte, behind what
the sender had sent before. -/
theorem fair_runs_deliver (t : Target) {run : Nat → Streams σ ρ} (h : Runs (Step t) start run)
    {i : σ} (hserved : Served t run i) {k : Nat} {c : Streaming}
    (hrunning : (run k).sending i = some c) :
    ∃ m r, k ≤ m ∧ (run m).sent i = (run k).sent i ++ [r] ∧ Returned c.op c.message r ∧
      (Draining run → ∃ n, m ≤ n ∧
        ((run k).sent i ++ [r]).flatMap Streamed.stream <+: sentBy i (run n).received) := by
  obtain ⟨m, hm, r, hsent, hreturned⟩ := hserved.returns h hrunning
  refine ⟨m, r, hm, hsent, hreturned, fun hdrains => ?_⟩
  obtain ⟨n, hn, hreceived⟩ := hdrains.drained h m
  refine ⟨n, hn, ?_⟩
  rw [← hsent]
  calc
    ((run m).sent i).flatMap Streamed.stream <+: (run m).contributed i := List.prefix_append ..
    _ = sentBy i (run m).channel.accepted := ((inv_of_steps (h.reaches m)).accepted i).symm
    _ <+: sentBy i (run n).received := (hreceived.filter _).map _

/-- A `send_fds_all` under tokio that is accepted in two parts, with one `WouldBlock` between
them. -/
theorem fair_runs_deliver_blocked :
    let c : Streaming := ⟨.all [1, 2] [5], .tokio, ⟨[1, 2], [5]⟩, .scripted [] [], [], 0⟩
    ∃ run : Nat → Streams Unit Unit, Runs (Step .linux64) start run ∧
      (run 1).sending () = some c ∧ ∃ m r, 1 ≤ m ∧ (run m).sent () = [r] ∧
        Returned c.op c.message r ∧ ∃ n, m ≤ n ∧
          [r].flatMap Streamed.stream <+: sentBy () (run n).received := by
  intro c
  let c' : Streaming := (c.accept 1).fail .EAGAIN
  let f : Fetching := ⟨.streamFdsVectored 1 [[0], [0]], .blocking, .scripted [] [], []⟩
  let front : List (Unit × StreamByte) := [((), 1, [5]), ((), 2, [])]
  let d : Delivery := ⟨[1, 2], AlignedLayout.linux64.encodeMessage
    (SocketAncillary.rightsMessage .linux64 [7]), false, false, [7]⟩
  let first : SendCall := callAt .linux64 [1, 2] [5] 0
  let second : SendCall := callAt .linux64 [1, 2] [5] 1
  let s₀ : Streams Unit Unit := start
  let s₁ := { s₀ with sending := Function.update s₀.sending () (some c) }
  let s₂ := { s₁ with
    channel := s₁.channel.put () (first.segment .linux64 1)
    sending := Function.update s₁.sending () (some (c.accept 1)) }
  let s₃ := { s₂ with sending := Function.update s₂.sending () (some c') }
  let s₄ := { s₃ with
    channel := s₃.channel.put () (second.segment .linux64 1)
    sending := Function.update s₃.sending () (some (c'.accept 1)) }
  let r : Streamed := ⟨c.op, c.message, 2, ((c'.accept 1).run .linux64).1⟩
  let s₅ := { s₄ with
    sending := Function.update s₄.sending () none
    sent := Function.update s₄.sent () (s₄.sent () ++ [r]) }
  let s₆ := { s₅ with receiving := Function.update s₅.receiving () (some f) }
  let s₇ := { s₆ with
    channel := s₆.channel.take front []
    receiving := Function.update s₆.receiving () none
    receipts := [(front, f.finish .linux64 (stretch front) d)] }
  let run (k : Nat) : Streams Unit Unit := [s₀, s₁, s₂, s₃, s₄, s₅, s₆].getD k s₇
  have hok : ((c'.accept 1).run .linux64).1 = .ok 2 := by decide +kernel
  have hkernel : Conveys .linux64 .stream ⟨[1, 1], 1064, true, false⟩ (stretch front) d :=
    ⟨rfl, fun _ => by decide, fun h => (by cases h), rfl, by decide, by simp [d], .absent,
      [.canonical _ (SocketAncillary.rightsMessage .linux64 [7]) (by decide)], by decide, rfl,
      by decide +kernel, fun h => by cases h⟩
  have hruns : Runs (Step .linux64) start run := by
    refine ⟨rfl, fun k => ?_⟩
    rcases k with _ | _ | _ | _ | _ | _ | _ | n
    · exact .single (.send s₀ () c rfl ⟨rfl, by decide, fun h => by cases h⟩ rfl rfl)
    · exact .single (.sendmsg s₁ () c first 1 rfl (by decide +kernel) (by decide)
        (by decide +kernel))
    · exact .single (.sendFails s₂ () (c.accept 1) second .EAGAIN rfl (by decide +kernel))
    · exact .single (.sendmsg s₃ () c' second 1 rfl (by decide +kernel) (by decide)
        (by decide +kernel))
    · exact .single (.sendEnds s₄ () (c'.accept 1) rfl (.inr fun call h => by
        cases hok.symm.trans h))
    · exact .single (.receive s₅ () f rfl ⟨rfl, by decide, by decide, fun h => by cases h⟩ rfl)
    · exact .single (.recvmsg s₆ () f ⟨[1, 1], 1064, true, false⟩ front [] d rfl
        (by decide +kernel) (by decide +kernel) (by decide) hkernel)
    · exact .refl
  have hserved : Served .linux64 run () := by
    refine ⟨fun k c₀ hc => ⟨?_, fun k j => rfl⟩, fun k c₀ call hc hcall => ?_, fun k => ?_⟩
    · have hsettled : c₀.settled <+: [.ok 1, .ok 1] := by
        rcases k with _ | _ | _ | _ | _ | _ | _ | n <;> cases hc <;> decide
      intro a ha
      have hmem := hsettled.subset ha
      simp only [List.mem_cons, List.not_mem_nil, or_false, or_self] at hmem
      exact ⟨1, .inl Nat.one_pos, hmem⟩
    · rcases k with _ | _ | _ | _ | _ | _ | _ | n <;> cases hc
      · exact Option.some_ne_none _
      · exact Option.some_ne_none _
      · exact Option.some_ne_none _
      · cases hok.symm.trans hcall
    · exact ⟨k + 7, by omega, fun c₀ c₁ hc => by cases hc⟩
  have hdrains : Draining run := by
    intro k hqueue
    by_cases hk : k ≤ 6
    · exact ⟨6, hk, by decide⟩
    · have hlast : run k = s₇ := by
        simp only [run, List.getD_eq_getElem?_getD]
        rw [List.getElem?_eq_none (Nat.lt_of_not_le hk), Option.getD_none]
      rw [hlast] at hqueue
      exact absurd rfl hqueue
  have hrunning : (run 1).sending () = some c := rfl
  obtain ⟨m, r, hm, hsent, hreturned, hreceived⟩ :=
    fair_runs_deliver .linux64 hruns hserved hrunning
  exact ⟨run, hruns, hrunning, m, r, hm, hsent, hreturned, hreceived hdrains⟩

end Streams

end UnixAncillary
