import UnixAncillary.Sends

/-!
# Completing a payload

`send_fds_all` makes a first call that carries the descriptors and then completes the
payload with plain calls. `Sending` is the run of both as one machine whose state is the
number of bytes sent: the descriptors ride exactly on the calls at offset zero.
-/

namespace UnixAncillary

open ByteCodec HandleTable Program Program.Prog

/-- A `sendmsg` call with its answer. -/
abbrev SendAttempt : Type := SendCall × Except OsError Nat

namespace SendAttempt

/-- The number of bytes that the call got accepted. -/
def accepted (a : SendAttempt) : Nat :=
  match a.2 with
  | .ok n => n
  | .error _ => 0

/-- The bytes that the call got accepted. -/
def acceptedBytes (a : SendAttempt) : Bytes := a.1.payload.take a.accepted

def succeeded (a : SendAttempt) : Bool := a.2.isOk

def blocked (a : SendAttempt) : Bool := failsWith .EAGAIN a.2

/-- The number of bytes that a list of calls got accepted. -/
def total (attempts : List SendAttempt) : Nat := (attempts.map accepted).sum

end SendAttempt

open SendAttempt

/-- The calls are answered in order, each with what was scripted, clipped to its offer. -/
def Answered (attempts : List SendAttempt) (script : List (Except OsError Nat)) : Prop :=
  List.Forall₂ (fun (a : SendAttempt) x => a.2 = Except.map (min · a.1.payload.length) x)
    attempts script

/-- The calls made between two worlds: all are in the trace, and their answers were taken
from the script. -/
structure Recorded (w w' : World) (attempts : List SendAttempt) : Prop where
  trace : w'.trace = w.trace ++ attempts.map fun a => .sendmsg a.1 a.2
  script : ∃ raw, w.sends = raw ++ w'.sends ∧ Answered attempts raw

theorem Recorded.refl (w : World) : Recorded w w [] := ⟨by simp, [], rfl, .nil⟩

theorem Recorded.append {w w₁ w₂ : World} {first rest : List SendAttempt}
    (hfirst : Recorded w w₁ first) (hrest : Recorded w₁ w₂ rest) :
    Recorded w w₂ (first ++ rest) := by
  obtain ⟨raw, hraw, hclip⟩ := hfirst.script
  obtain ⟨raw', hraw', hclip'⟩ := hrest.script
  refine ⟨?_, raw ++ raw', ?_, List.rel_append hclip hclip'⟩
  · rw [hrest.trace, hfirst.trace, List.map_append, List.append_assoc]
  · rw [hraw, hraw', List.append_assoc]

theorem Turned.recorded {t : Target} {rt : Runtime} {call : SendCall} {w : World}
    {r : Outcome IoError Panic Syscall Nat × World} {answers : List (Except OsError Nat)}
    (h : Turned t rt call w r answers) : Recorded w r.2 (answers.map (Prod.mk call)) := by
  obtain ⟨raw, hraw, rfl⟩ := h.script
  refine ⟨?_, raw, hraw, ?_⟩
  · rw [h.trace]
    simp only [List.map_map, Function.comp_def]
  · rw [List.map_map, Answered, List.forall₂_map_left_iff]
    exact List.forall₂_same.mpr fun x _ => rfl

section Machine

variable (t : Target) (rt : Runtime) (data : Bytes) (fds : List RawFd)

/-- The call of `send_fds_all` after `sent` bytes. -/
def callAt (sent : Nat) : SendCall :=
  sendCallFor t [data.drop sent] (if sent = 0 then fds else [])

/-- The error of a call that accepted nothing: the first send and the loop have their own
messages. -/
def writeZeroError (sent : Nat) : IoError :=
  .custom .writeZero
    (if sent = 0 ∧ fds ≠ [] then "failed to send fd payload byte" else "short write")

variable (refuses : Nat → Nat → Option OsError)

/-- The calls of `send_fds_all` after `k` finished and `j` blocked attempts and `sent` bytes,
with their answers, and its end; `refuses` tells which attempts `setsockopt` refuses. -/
inductive Sending :
    Nat → Nat → Nat → List SendAttempt → Outcome IoError Panic Syscall Unit → Prop
  | done {k j sent : Nat} (h : data.length ≤ sent) : Sending k j sent [] (.ok ())
  | refused {k j sent : Nat} (h : sent < data.length) (e : OsError) (he : refuses k j = some e) :
      Sending k j sent [] (.err (.os e))
  | waiting {k j sent : Nat} (h : sent < data.length) (hfree : refuses k j = none) :
      Sending k j sent [] (.pending (.sendmsg (callAt t data fds sent)))
  | zero {k j sent : Nat} (h : sent < data.length) (hfree : refuses k j = none) :
      Sending k j sent [(callAt t data fds sent, .ok 0)] (.err (writeZeroError fds sent))
  | accepted {k j sent : Nat} (hfree : refuses k j = none) (n : Nat) (hn : 0 < n)
      (h : sent + n ≤ data.length) {rest : List SendAttempt}
      {o : Outcome IoError Panic Syscall Unit} (hrest : Sending (k + 1) j (sent + n) rest o) :
      Sending k j sent ((callAt t data fds sent, .ok n) :: rest) o
  | retried {k j sent : Nat} (h : sent < data.length) (hfree : refuses k j = none) (e : OsError)
      (he : rt.Retries e) {rest : List SendAttempt} {o : Outcome IoError Panic Syscall Unit}
      (hrest : Sending k (j + e.blocks) sent rest o) :
      Sending k j sent ((callAt t data fds sent, .error e) :: rest) o
  | failed {k j sent : Nat} (h : sent < data.length) (hfree : refuses k j = none) (e : OsError)
      (he : ¬ rt.Retries e) :
      Sending k j sent [(callAt t data fds sent, .error e)] (.err (.os e))

/-- The end `r` of a run from `w`, after `sent` bytes, is that of the machine, and its
calls are what the world recorded. -/
structure SendingRun (sent : Nat) (w : World)
    (r : Outcome IoError Panic Syscall Unit × World) (attempts : List SendAttempt) : Prop where
  sending : Sending t rt data fds (t.refusal w.nosigpipe) w.finished w.blocked sent attempts r.1
  recorded : Recorded w r.2 attempts
  drained : ∀ c, r.1 = .pending c → r.2.sends = []

end Machine

section Runs

variable {t : Target} {rt : Runtime} {data : Bytes} {fds : List RawFd}
  {k j sent : Nat} {refuses : Nat → Nat → Option OsError} {w : World}

theorem length_payload_callAt (sent : Nat) :
    (callAt t data fds sent).payload.length = data.length - sent := by
  simp [callAt, sendCallFor, SendCall.payload]

/-- What follows a turn, in the machine. -/
def Follows (t : Target) (rt : Runtime) (data : Bytes) (fds : List RawFd)
    (refuses : Nat → Nat → Option OsError) (k j sent : Nat) (rest : List SendAttempt)
    (o : Outcome IoError Panic Syscall Unit) : Outcome IoError Panic Syscall Nat → Prop
  | .ok n => if n = 0 then rest = [] ∧ o = .err (writeZeroError fds sent)
      else Sending t rt data fds refuses (k + 1) j (sent + n) rest o
  | .err e => rest = [] ∧ o = .err e
  | .panic p => rest = [] ∧ o = .panic p
  | .pending c => rest = [] ∧ o = .pending c

/-- A turn and what follows it are a run of the machine. -/
theorem Turn.sending (hsent : sent < data.length) {answers : List (Except OsError Nat)}
    {o₁ : Outcome IoError Panic Syscall Nat} {rest : List SendAttempt}
    {o : Outcome IoError Panic Syscall Unit}
    (h : Turn rt (callAt t data fds sent) (refuses k) j answers o₁)
    (hrest : Follows t rt data fds refuses k (j + blocks answers) sent rest o o₁) :
    Sending t rt data fds refuses k j sent
      (answers.map (Prod.mk (callAt t data fds sent)) ++ rest) o := by
  induction h with
  | refused e he =>
      obtain ⟨rfl, rfl⟩ := hrest
      exact .refused hsent e he
  | waiting hfree =>
      obtain ⟨rfl, rfl⟩ := hrest
      exact .waiting hsent hfree
  | accepted hfree n hn =>
      rw [length_payload_callAt] at hn
      rw [Follows] at hrest
      by_cases hz : n = 0
      · rw [if_pos hz] at hrest
        obtain ⟨rfl, rfl⟩ := hrest
        subst hz
        exact .zero hsent hfree
      · rw [if_neg hz] at hrest
        exact .accepted hfree n (Nat.pos_of_ne_zero hz) (by omega) hrest
  | failed hfree e he =>
      obtain ⟨rfl, rfl⟩ := hrest
      exact .failed hsent hfree e he
  | retried hfree e he _ ih =>
      rw [blocks_error, ← Nat.add_assoc] at hrest
      exact .retried hsent hfree e he (ih hrest)

theorem Turn.ok_le {call : SendCall} {refuses : Nat → Option OsError}
    {answers : List (Except OsError Nat)} {n : Nat} (h : Turn rt call refuses j answers (.ok n)) :
    n ≤ call.payload.length := by
  rcases h.ends with ⟨m, hm, ho⟩ | ⟨e, ho⟩ | ho
  · cases ho
    exact hm
  · cases ho
  · cases ho

/-- One send, and what the program makes of its result, are a run of the machine. -/
theorem sendingRun_bind (hsent : sent < data.length) {f : Nat → Sys Unit}
    (hzero : f 0 = Prog.throw (writeZeroError fds sent))
    (hnext : ∀ n, 0 < n → sent + n ≤ data.length → ∀ w₁, ∃ attempts,
      SendingRun t rt data fds (sent + n) w₁ ((f n).run w₁) attempts) (w : World) :
    ∃ attempts, SendingRun t rt data fds sent w
      ((rt.io (sendWith t (callAt t data fds sent)) >>= f).run w) attempts := by
  obtain ⟨answers, h⟩ := turned_io (t := t) rt (callAt t data fds sent) w
  rw [run_bind]
  generalize (rt.io (sendWith t (callAt t data fds sent))).run w = r at h
  obtain ⟨o, w₁⟩ := r
  have hturn := h.turn
  have hrec := h.recorded
  cases o with
  | ok n =>
      have hle := hturn.ok_le
      rw [length_payload_callAt] at hle
      rw [andThen]
      by_cases hn : n = 0
      · subst hn
        rw [hzero]
        exact ⟨_, hturn.sending hsent ⟨rfl, rfl⟩, hrec.append (.refl w₁),
          fun _ hp => by cases hp⟩
      · obtain ⟨rest, hrest⟩ := hnext n (Nat.pos_of_ne_zero hn) (by omega) w₁
        have hsending := hrest.sending
        rw [h.nosigpipe, h.next rfl, h.blocked] at hsending
        refine ⟨_, hturn.sending hsent ?_, hrec.append hrest.recorded, hrest.drained⟩
        rw [Follows, if_neg hn]
        exact hsending
  | err e =>
      exact ⟨_, hturn.sending hsent ⟨rfl, rfl⟩, hrec.append (.refl w₁),
        fun _ hp => by cases hp⟩
  | panic p =>
      exact ⟨_, hturn.sending hsent ⟨rfl, rfl⟩, hrec.append (.refl w₁),
        fun _ hp => by cases hp⟩
  | pending c =>
      exact ⟨_, hturn.sending hsent ⟨rfl, rfl⟩, hrec.append (.refl w₁),
        fun _ _ => h.drained c rfl⟩

/-- After the first send, or without descriptors, the loop makes the calls of the machine. -/
theorem sendBytes_eq (h : sent ≠ 0 ∨ fds = []) :
    sendBytes t (data.drop sent) = sendWith t (callAt t data fds sent) := by
  have hfds : (if sent = 0 then fds else []) = [] := by
    rcases h with h | rfl
    · rw [if_neg h]
    · exact ite_self _
  rw [callAt, hfds]
  exact sendmsgVectored_none t _ _

/-- The completion loop is a run of the machine. -/
theorem sendingRun_rest {fuel : Nat} (hfuel : data.length ≤ sent + fuel)
    (h : sent ≠ 0 ∨ fds = []) (hle : sent ≤ data.length) (w : World) :
    ∃ attempts, SendingRun t rt data fds sent w ((sendRest t rt data fuel sent).run w)
      attempts := by
  induction fuel generalizing sent w with
  | zero => exact ⟨[], .done (by omega), .refl w, fun _ hp => by cases hp⟩
  | succ fuel ih =>
      rw [sendRest]
      split
      case isFalse hdone => exact ⟨[], .done (by omega), .refl w, fun _ hp => by cases hp⟩
      case isTrue hsent =>
          rw [sendBytes_eq h]
          refine sendingRun_bind hsent ?_ (fun n hn hn' w₁ => ?_) w
          · rw [if_pos rfl, writeZeroError, if_neg]
            rintro ⟨rfl, hne⟩
            exact h.elim (fun h => h rfl) hne
          · rw [if_neg (by omega)]
            exact ih (by omega) (.inl (by omega)) hn' w₁

variable (rt) in
/-- `send_fds_all` is a run of the machine from offset zero. -/
theorem sendingRun_all (hlen : fds.length * 4 ≤ i32Max) (hvalid : ¬ (data = [] ∧ fds ≠ []))
    (w : World) : ∃ attempts,
      SendingRun t rt data fds 0 w ((streamSendFdsAll t rt data fds).run w) attempts := by
  rw [streamSendFdsAll, validateStreamSend_eq, if_neg hvalid, pure_bind_eq, sendFirst]
  by_cases hnil : fds = []
  · rw [if_pos hnil, pure_bind_eq]
    exact sendingRun_rest (by omega) (.inr hnil) (Nat.zero_le _) w
  · have hdata : 0 < data.length := by
      rw [List.length_pos_iff]
      exact fun h => hvalid ⟨h, hnil⟩
    have hfirst : sendFdsImpl t data fds = sendWith t (callAt t data fds 0) := by
      rw [sendFdsImpl, sendFdsVectoredImpl_eq _ hlen, callAt, if_pos rfl, List.drop_zero]
    rw [if_neg hnil, bind_assoc_eq, hfirst]
    refine sendingRun_bind hdata ?_ (fun n hn hn' w₁ => ?_) w
    · rw [if_pos rfl, throw_bind_eq, writeZeroError, if_pos ⟨rfl, hnil⟩]
    · rw [if_neg (by omega), pure_bind_eq, Nat.zero_add]
      exact sendingRun_rest (by omega) (.inl (by omega)) (by omega) w₁

end Runs

/-! ## What a run of the machine did -/

section Facts

variable {t : Target} {rt : Runtime} {data : Bytes} {fds : List RawFd} {k j sent : Nat}
  {refuses : Nat → Nat → Option OsError} {attempts : List SendAttempt}
  {o : Outcome IoError Panic Syscall Unit}

@[simp] theorem total_nil : total [] = 0 := rfl

@[simp] theorem total_cons (a : SendAttempt) (rest : List SendAttempt) :
    total (a :: rest) = a.accepted + total rest := by
  simp [total]

@[simp] theorem accepted_ok (call : SendCall) (n : Nat) :
    SendAttempt.accepted (call, .ok n) = n := rfl

@[simp] theorem accepted_error (call : SendCall) (e : OsError) :
    SendAttempt.accepted (call, .error e) = 0 := rfl

/-- The first attempt and the run after it. -/
theorem Sending.cons {a : SendAttempt} {rest : List SendAttempt}
    (h : Sending t rt data fds refuses k j sent (a :: rest) o) : a.1 = callAt t data fds sent ∧
      (rest = [] ∨
        (a.succeeded = true ∧ 0 < a.accepted ∨ a.succeeded = false ∧ a.accepted = 0) ∧
          ∃ k' j', Sending t rt data fds refuses k' j' (sent + a.accepted) rest o) := by
  cases h with
  | zero hlt hfree => exact ⟨rfl, .inl rfl⟩
  | accepted hfree n hn hle hrest => exact ⟨rfl, .inr ⟨.inl ⟨rfl, hn⟩, k + 1, j, hrest⟩⟩
  | retried hlt hfree e he hrest => exact ⟨rfl, .inr ⟨.inr ⟨rfl, rfl⟩, k, _, hrest⟩⟩
  | failed hlt hfree e he => exact ⟨rfl, .inl rfl⟩

/-- Every attempt is the call of the machine after what the earlier ones got accepted,
and that is nothing exactly until the first success. -/
theorem Sending.split {pre post : List SendAttempt} {a : SendAttempt}
    (h : Sending t rt data fds refuses k j sent (pre ++ a :: post) o) :
    a.1 = callAt t data fds (sent + total pre) ∧
      (total pre = 0 ↔ pre.any succeeded = false) := by
  induction pre generalizing k j sent with
  | nil => exact ⟨h.cons.1, by simp⟩
  | cons b pre ih =>
      obtain ⟨-, hnil | ⟨hb, k', j', hrest⟩⟩ := h.cons
      · simp at hnil
      · obtain ⟨hcall, htotal⟩ := ih hrest
        rw [total_cons, List.any_cons, ← Nat.add_assoc]
        refine ⟨hcall, ?_⟩
        rcases hb with ⟨hs, hpos⟩ | ⟨hs, hzero⟩
        · rw [hs, Bool.true_or]
          exact ⟨fun h => by omega, fun h => by cases h⟩
        · rw [hs, hzero, Nat.zero_add, Bool.false_or]
          exact htotal

/-- The accepted byte ranges, one behind the other, start the payload. -/
theorem Sending.bytes (h : Sending t rt data fds refuses k j sent attempts o) :
    attempts.flatMap acceptedBytes = (data.drop sent).take (total attempts) := by
  induction h with
  | done hle => simp
  | refused hlt e he => simp
  | waiting hlt hfree => simp
  | zero hlt hfree => simp [acceptedBytes]
  | accepted hfree n hn hle hrest ih =>
      rw [List.flatMap_cons, ih, total_cons, List.take_add, List.drop_drop]
      simp [acceptedBytes, callAt, sendCallFor, SendCall.payload]
  | retried hlt hfree e he hrest ih =>
      rw [List.flatMap_cons, ih, total_cons]
      simp [acceptedBytes]
  | failed hlt hfree e he => simp [acceptedBytes]

/-- The payload is not overrun, and it is complete exactly when the call returns `Ok`. -/
theorem Sending.total_le (h : Sending t rt data fds refuses k j sent attempts o)
    (hle : sent ≤ data.length) :
    sent + total attempts ≤ data.length ∧ (o = .ok () ↔ sent + total attempts = data.length) := by
  induction h with
  | done hge => exact ⟨hle, by simp; omega⟩
  | refused hlt e he => exact ⟨hle, by simp; omega⟩
  | waiting hlt hfree => exact ⟨hle, by simp; omega⟩
  | zero hlt hfree => exact ⟨hle, by simp; omega⟩
  | accepted hfree n hn hle' hrest ih =>
      obtain ⟨hbound, hok⟩ := ih hle'
      rw [total_cons, ← Nat.add_assoc]
      exact ⟨hbound, hok⟩
  | retried hlt hfree e he hrest ih =>
      obtain ⟨hbound, hok⟩ := ih hle
      rw [total_cons, ← Nat.add_assoc]
      exact ⟨hbound, hok⟩
  | failed hlt hfree e he => exact ⟨hle, by simp; omega⟩

/-- After the first accepted byte no call carries a control message. -/
theorem Sending.plain (h : Sending t rt data fds refuses k j sent attempts o) (hsent : sent ≠ 0) :
    ∀ a ∈ attempts, a.1.control = none := by
  intro a ha
  obtain ⟨pre, post, rfl⟩ := List.append_of_mem ha
  rw [h.split.1, callAt, if_neg (by omega)]
  rfl

/-- At most one successful call carries a control message. -/
theorem Sending.once (h : Sending t rt data fds refuses k j sent attempts o) :
    (attempts.filter fun a => a.succeeded && a.1.control.isSome).length ≤ 1 := by
  have hone : ∀ a : SendAttempt,
      ([a].filter fun a => a.succeeded && a.1.control.isSome).length ≤ 1 :=
    fun a => List.length_filter_le _ [a]
  induction h with
  | done hle => exact Nat.zero_le _
  | refused hlt e he => exact Nat.zero_le _
  | waiting hlt hfree => exact Nat.zero_le _
  | zero hlt hfree => exact hone _
  | accepted hfree n hn hle hrest ih =>
      have hplain := hrest.plain (by omega)
      rw [List.filter_cons, List.filter_eq_nil_iff.mpr fun a ha => by simp [hplain a ha]]
      split <;> simp
  | retried hlt hfree e he hrest ih =>
      rw [List.filter_cons_of_neg (by simp [succeeded, Except.isOk, Except.toBool])]
      exact ih
  | failed hlt hfree e he => exact hone _

@[simp] theorem countP_blocked_error (call : SendCall) (e : OsError) (rest : List SendAttempt) :
    ((call, .error e) :: rest).countP blocked = e.blocks + rest.countP blocked := by
  rw [List.countP_cons, OsError.blocks, Nat.add_comm]
  simp [blocked, failsWith]

/-- How a run can end. -/
theorem Sending.ends (h : Sending t rt data fds refuses k j sent attempts o) : o = .ok () ∨
    (∃ sent', o = .err (writeZeroError fds sent')) ∨
    (∃ e, o = .err (.os e) ∧ ((∃ a ∈ attempts, a.2 = .error e ∧ ¬ rt.Retries e) ∨
      refuses (k + attempts.countP succeeded) (j + attempts.countP blocked) = some e)) ∨
    o = .pending (.sendmsg (callAt t data fds (sent + total attempts))) := by
  induction h with
  | done hle => exact .inl rfl
  | refused hlt e he => exact .inr (.inr (.inl ⟨e, rfl, .inr he⟩))
  | waiting hlt hfree => exact .inr (.inr (.inr rfl))
  | zero hlt hfree => exact .inr (.inl ⟨_, rfl⟩)
  | accepted hfree n hn hle hrest ih =>
      rw [total_cons, ← Nat.add_assoc, List.countP_cons_of_pos rfl, List.countP_cons_of_neg
        Bool.false_ne_true, Nat.add_comm _ 1, ← Nat.add_assoc]
      refine ih.imp_right (.imp_right (.imp_left ?_))
      rintro ⟨e, ho, herr⟩
      refine ⟨e, ho, herr.imp_left ?_⟩
      rintro ⟨a, ha, hae⟩
      exact ⟨a, List.mem_cons_of_mem _ ha, hae⟩
  | retried hlt hfree e he hrest ih =>
      rw [total_cons, ← Nat.add_assoc, List.countP_cons_of_neg Bool.false_ne_true,
        countP_blocked_error, ← Nat.add_assoc]
      refine ih.imp_right (.imp_right (.imp_left ?_))
      rintro ⟨e', ho, herr⟩
      refine ⟨e', ho, herr.imp_left ?_⟩
      rintro ⟨a, ha, hae⟩
      exact ⟨a, List.mem_cons_of_mem _ ha, hae⟩
  | failed hlt hfree e he =>
      exact .inr (.inr (.inl ⟨e, rfl, .inl ⟨_, List.mem_singleton_self _, rfl, he⟩⟩))

/-- A call that accepts nothing, or fails with an error that is not retried, ends the run. -/
theorem Sending.stops (h : Sending t rt data fds refuses k j sent attempts o) :
    ((∃ a ∈ attempts, a.2 = .ok 0) ↔ ∃ sent', o = .err (writeZeroError fds sent')) ∧
    ∀ a ∈ attempts, ∀ e, a.2 = .error e → ¬ rt.Retries e → o = .err (.os e) := by
  induction h with
  | done hle => simp
  | refused hlt e he => simp [writeZeroError]
  | waiting hlt hfree => simp
  | zero hlt hfree => simp
  | accepted hfree n hn hle hrest ih =>
      simp only [List.mem_cons, exists_eq_or_imp, forall_eq_or_imp, ih.1]
      refine ⟨?_, fun e he => by simp at he, ih.2⟩
      have hne : (Except.ok n : Except OsError Nat) ≠ .ok 0 := fun h => by cases h; omega
      exact or_iff_right hne
  | retried hlt hfree e he hrest ih =>
      simp only [List.mem_cons, exists_eq_or_imp, forall_eq_or_imp, ih.1]
      refine ⟨or_iff_right (by simp), fun e' he' hretry => ?_, ih.2⟩
      cases he'
      exact absurd he hretry
  | failed hlt hfree e he => simp [writeZeroError]

/-- A run that is neither complete nor refused makes its call when there is an answer. -/
theorem Sending.head (h : Sending t rt data fds refuses k j sent attempts o)
    (hlt : sent < data.length) (hfree : refuses k j = none) {x : Except OsError Nat}
    {raw script rest : List (Except OsError Nat)} (hraw : Answered attempts raw)
    (hscript : x :: script = raw ++ rest) (hdrained : ∀ c, o = .pending c → rest = []) :
    ∃ later raw', attempts = (callAt t data fds sent,
        Except.map (min · (callAt t data fds sent).payload.length) x) :: later ∧
      raw = x :: raw' ∧ Answered later raw' := by
  have hcons : ∀ a later, attempts = a :: later → a.1 = callAt t data fds sent →
      ∃ later raw', attempts = (callAt t data fds sent,
        Except.map (min · (callAt t data fds sent).payload.length) x) :: later ∧
      raw = x :: raw' ∧ Answered later raw' := by
    rintro ⟨call, answer⟩ later rfl rfl
    obtain ⟨y, raw', hy, hrest, rfl⟩ := List.forall₂_cons_left_iff.mp hraw
    rw [List.cons_append, List.cons.injEq] at hscript
    obtain ⟨rfl, -⟩ := hscript
    simp only at hy
    exact ⟨later, raw', by rw [hy], rfl, hrest⟩
  cases h with
  | done hle => omega
  | refused _ e he => simp [hfree] at he
  | waiting _ _ =>
      obtain rfl : raw = [] := List.forall₂_nil_left_iff.mp hraw
      rw [hdrained _ rfl] at hscript
      cases hscript
  | zero _ _ => exact hcons _ _ rfl rfl
  | accepted _ n hn hle hrest => exact hcons _ _ rfl rfl
  | retried _ _ e he hrest => exact hcons _ _ rfl rfl
  | failed _ _ e he => exact hcons _ _ rfl rfl

/-- Answers that come after a run was left waiting carry it on: the longer run makes the
same calls first. -/
theorem Sending.resume {c : Syscall} {raw : List (Except OsError Nat)}
    (h : Sending t rt data fds refuses k j sent attempts (.pending c))
    (hraw : Answered attempts raw)
    {attempts' : List SendAttempt} {raw' rest more : List (Except OsError Nat)}
    (h' : Sending t rt data fds refuses k j sent attempts' o) (hraw' : Answered attempts' raw')
    (hscript : raw ++ more = raw' ++ rest) (hdrained : ∀ c, o = .pending c → rest = []) :
    ∃ k' j' tail rawTail, attempts' = attempts ++ tail ∧ Answered tail rawTail ∧
      more = rawTail ++ rest ∧ refuses k' j' = none ∧ sent + total attempts < data.length ∧
      Sending t rt data fds refuses k' j' (sent + total attempts) tail o := by
  generalize ho : (.pending c : Outcome IoError Panic Syscall Unit) = o₁ at h
  induction h generalizing raw raw' attempts' with
  | done hle => cases ho
  | refused hlt e he => cases ho
  | @waiting k j sent hlt hfree =>
      obtain rfl : raw = [] := List.forall₂_nil_left_iff.mp hraw
      exact ⟨k, j, attempts', raw', rfl, hraw', hscript, hfree, hlt, h'⟩
  | zero hlt hfree => cases ho
  | failed hlt hfree e he => cases ho
  | @accepted k j sent hfree n hn hle rest₁ o₁ hrest ih =>
      obtain ⟨x, raw₁, hx, hraw₁, rfl⟩ := List.forall₂_cons_left_iff.mp hraw
      obtain ⟨later, raw₂, rfl, rfl, hlater⟩ :=
        h'.head (by omega) hfree hraw' hscript hdrained
      rw [List.cons_append, List.cons_append, List.cons.injEq] at hscript
      simp only at hx
      rw [← hx] at h' ⊢
      cases h' with
      | zero _ _ => omega
      | accepted _ _ _ _ hrest' =>
          obtain ⟨k', j', tail, rawTail, rfl, htail, hmore, hfree', hlt, hsending⟩ :=
            ih hraw₁ hrest' hlater hscript.2 ho
          rw [total_cons, ← Nat.add_assoc]
          exact ⟨k', j', tail, rawTail, rfl, htail, hmore, hfree', hlt, hsending⟩
  | @retried k j sent hlt hfree e he rest₁ o₁ hrest ih =>
      obtain ⟨x, raw₁, hx, hraw₁, rfl⟩ := List.forall₂_cons_left_iff.mp hraw
      obtain ⟨later, raw₂, rfl, rfl, hlater⟩ :=
        h'.head hlt hfree hraw' hscript hdrained
      rw [List.cons_append, List.cons_append, List.cons.injEq] at hscript
      simp only at hx
      rw [← hx] at h' ⊢
      cases h' with
      | retried _ _ _ _ hrest' =>
          obtain ⟨k', j', tail, rawTail, rfl, htail, hmore, hfree', hlt, hsending⟩ :=
            ih hraw₁ hrest' hlater hscript.2 ho
          rw [total_cons, ← Nat.add_assoc]
          exact ⟨k', j', tail, rawTail, rfl, htail, hmore, hfree', hlt, hsending⟩
      | failed _ _ _ he' => exact absurd he he'

/-- One more answer is one more attempt. -/
theorem Sending.answer {c : Syscall} {raw : List (Except OsError Nat)}
    (h : Sending t rt data fds refuses k j sent attempts (.pending c))
    (hraw : Answered attempts raw)
    {attempts' : List SendAttempt} {raw' rest : List (Except OsError Nat)} {x : Except OsError Nat}
    (h' : Sending t rt data fds refuses k j sent attempts' o) (hraw' : Answered attempts' raw')
    (hscript : raw ++ [x] = raw' ++ rest) (hdrained : ∀ c, o = .pending c → rest = []) :
    attempts' = attempts ++ [(callAt t data fds (sent + total attempts), Except.map
      (min · (callAt t data fds (sent + total attempts)).payload.length) x)] := by
  obtain ⟨k', j', tail, rawTail, rfl, htail, hmore, hfree, hlt, hsending⟩ :=
    h.resume hraw h' hraw' hscript hdrained
  obtain ⟨later, raw₂, rfl, rfl, hlater⟩ := hsending.head hlt hfree htail hmore hdrained
  rw [List.cons_append, List.cons.injEq] at hmore
  obtain ⟨rfl, -⟩ := List.append_eq_nil_iff.mp hmore.2.symm
  rw [List.forall₂_nil_right_iff.mp hlater]

end Facts

/-! ## The whole operation -/

/-- The control messages that a call carries. -/
def SendCall.messages (t : Target) (call : SendCall) : List RawMessage :=
  call.control.elim [] t.layout.parse

/-- The control bytes of a convenience send hold one rights message. -/
theorem messages_sendCallFor {t : Target} (iov : List Bytes) {fds : List RawFd}
    (hlen : fds.length * 4 ≤ i32Max) : (sendCallFor t iov fds).messages t =
      if fds = [] then [] else [SocketAncillary.rightsMessage t fds] := by
  rw [SendCall.messages, sendCallFor, controlFor]
  split
  case isTrue => rfl
  case isFalse =>
      have hparse := parse_encodeMessages t.layout [SocketAncillary.rightsMessage t fds]
        (by simpa [SocketAncillary.rightsMessage, SocketAncillary.length_encodeFds] using hlen)
      simpa using hparse

/-- They read back as the descriptors. -/
theorem content_sendCallFor {t : Target} (iov : List Bytes) {fds : List RawFd}
    (hlen : fds.length * 4 ≤ i32Max) : ((sendCallFor t iov fds).messages t).map (Add.content t) =
      if fds = [] then [] else [.addFds fds] := by
  rw [messages_sendCallFor iov hlen]
  cases fds with
  | nil => rfl
  | cons fd rest =>
      rw [if_neg (List.cons_ne_nil _ _), if_neg (List.cons_ne_nil _ _), List.map_singleton,
        content_message t (show Add.message t (.addFds (fd :: rest)) = _ from rfl)]

/-- What `send_fds_all` did with its calls, whether it ended as `o` or was left waiting;
`refuses` tells which attempts `setsockopt` refuses, by the finished and the blocked ones
since `send_fds_all` was called. -/
structure SendsAll (t : Target) (rt : Runtime) (data : Bytes) (fds : List RawFd)
    (refuses : Nat → Nat → Option OsError) (attempts : List SendAttempt)
    (o : Outcome IoError Panic Syscall Unit) : Prop where
  /-- A call offers what is left. Until one has succeeded, its control bytes read back as
  the descriptors; after that there are none. -/
  call : ∀ pre a post, attempts = pre ++ a :: post →
    a.1 = sendCallFor t [data.drop (total pre)] (if pre.any succeeded then [] else fds) ∧
    (a.1.messages t).map (Add.content t) =
      if pre.any succeeded ∨ fds = [] then [] else [.addFds fds]
  once : (attempts.filter fun a => a.succeeded && a.1.control.isSome).length ≤ 1
  /-- The accepted ranges, in order, are a prefix of the payload. -/
  bytes : attempts.flatMap acceptedBytes = data.take (total attempts)
  total_le : total attempts ≤ data.length
  ok : o = .ok () ↔ total attempts = data.length
  writeZero : (∃ message, o = .err (.custom .writeZero message)) ↔ ∃ a ∈ attempts, a.2 = .ok 0
  failed : ∀ a ∈ attempts, ∀ e, a.2 = .error e → ¬ rt.Retries e → o = .err (.os e)
  /-- Any other end is an error that is not retried, that of the `setsockopt` call which
  refuses the next attempt, or the wait for an answer to the next call. -/
  ends : o = .ok () ∨ (∃ message, o = .err (.custom .writeZero message)) ∨
    (∃ e, o = .err (.os e) ∧ ((∃ a ∈ attempts, a.2 = .error e ∧ ¬ rt.Retries e) ∨
      refuses (attempts.countP succeeded) (attempts.countP blocked) = some e)) ∨
    ∃ call, o = .pending (.sendmsg call)

theorem Sending.sendsAll {t : Target} {rt : Runtime} {data : Bytes} {fds : List RawFd}
    {refuses : Nat → Nat → Option OsError} {k j : Nat} {attempts : List SendAttempt}
    {o : Outcome IoError Panic Syscall Unit} (hlen : fds.length * 4 ≤ i32Max)
    (h : Sending t rt data fds refuses k j 0 attempts o) :
    SendsAll t rt data fds (fun k' j' => refuses (k + k') (j + j')) attempts o := by
  obtain ⟨hbound, hok⟩ := h.total_le (Nat.zero_le _)
  have hzero : (∃ message, o = .err (.custom .writeZero message)) ↔
      ∃ sent', o = .err (writeZeroError fds sent') := by
    constructor
    · rintro ⟨message, ho⟩
      rcases h.ends with h | h | ⟨e, h, -⟩ | h
      · cases ho.symm.trans h
      · exact h
      · cases ho.symm.trans h
      · cases ho.symm.trans h
    · rintro ⟨sent', ho⟩
      exact ⟨_, ho⟩
  refine ⟨?_, h.once, ?_, ?_, ?_, hzero.trans h.stops.1.symm, h.stops.2, ?_⟩
  · rintro pre a post rfl
    obtain ⟨hcall, htotal⟩ := h.split
    have hfds : (if total pre = 0 then fds else []) = if pre.any succeeded then [] else fds := by
      by_cases hz : total pre = 0
      · rw [if_pos hz, htotal.mp hz]
        rfl
      · rw [if_neg hz, if_pos (by simpa using mt htotal.mpr hz)]
    rw [Nat.zero_add, callAt, hfds] at hcall
    refine ⟨hcall, ?_⟩
    rw [hcall]
    cases hany : pre.any succeeded with
    | true => simp [messages_sendCallFor]
    | false =>
        rw [if_neg Bool.false_ne_true, content_sendCallFor _ hlen]
        simp
  · simpa using h.bytes
  · simpa using hbound
  · simpa using hok
  · rw [hzero]
    exact h.ends.imp_right (.imp_right (.imp_right fun h => ⟨_, h⟩))

/-- `send_fds_all` sends the descriptors at most once and the payload as a prefix. From any
world and under any script of answers, its calls are `attempts`, answered from the script
in order, and it is left waiting only when the script is used up. -/
theorem sendFdsAll_sends (t : Target) (rt : Runtime) (data : Bytes) {fds : List RawFd}
    (hlen : 4 * fds.length ≤ i32Max) (w : World) :
    let r := (UnixStreamExt.sendFdsAll t rt data fds).run w
    let refuses := fun k j => t.refusal w.nosigpipe (w.finished + k) (w.blocked + j)
    if data = [] ∧ fds ≠ [] then r = (.err streamPayloadError, w)
    else ∃ attempts, Recorded w r.2 attempts ∧ SendsAll t rt data fds refuses attempts r.1 ∧
      ∀ c, r.1 = .pending c → r.2.sends = [] := by
  intro r refuses
  rw [Nat.mul_comm] at hlen
  split
  case isTrue hinvalid =>
      simp only [r, UnixStreamExt.sendFdsAll, streamSendFdsAll, validateStreamSend_eq,
        if_pos hinvalid]
      rfl
  case isFalse hvalid =>
      obtain ⟨attempts, hrun⟩ := sendingRun_all (t := t) rt hlen hvalid w
      exact ⟨attempts, hrun.recorded, hrun.sending.sendsAll hlen, hrun.drained⟩

/-- An interrupted first send is accepted in part, and `setsockopt` refuses the next one. -/
theorem sendFdsAll_sends_partial :
    let w : World := { World.scripted [.error .EINTR, .ok 2, .ok 1] [] with
      nosigpipe := fun k _ => if k = 1 then some ⟨.EINVAL, by decide⟩ else none }
    let r := (UnixStreamExt.sendFdsAll .macos .blocking [1, 2, 3] [5]).run w
    r.1 = .err (.os .EPIPE) ∧ ∃ attempts, Recorded w r.2 attempts ∧
      SendsAll .macos .blocking [1, 2, 3] [5]
        (fun k j => Target.macos.refusal w.nosigpipe (w.finished + k) (w.blocked + j))
        attempts r.1 := by
  intro w r
  have h := sendFdsAll_sends .macos .blocking [1, 2, 3]
    (by decide : 4 * ([5] : List RawFd).length ≤ i32Max) w
  rw [if_neg (by decide)] at h
  obtain ⟨attempts, hrec, hsends, -⟩ := h
  exact ⟨by decide +kernel, attempts, hrec, hsends⟩

end UnixAncillary
