import UnixAncillary.Sockets

/-!
# Retries are transparent

`World.without e` removes the answers that fail with `e` from the scripts and the
calls they answered from the trace. Every operation commutes with removing `EINTR`,
and the asynchronous form of an operation refines the blocking one behind the
removal of `WouldBlock`, unless the retry of a blocked send is the first that
`setsockopt` refuses: `retries_transparent_refused`.
-/

namespace UnixAncillary

open ByteCodec HandleTable Program Program.Prog

/-- The call was answered with the error `e`. -/
def Attempt.failed (e : OsError) : Attempt → Bool
  | .sendmsg _ answer => failsWith e answer
  | .recvmsg _ answer => failsWith e answer

/-- The scripts without the answers `e`, and the trace without the calls they answered. -/
def World.without (e : OsError) (w : World) : World :=
  { w with
    sends := w.sends.filter (!failsWith e ·)
    recvs := w.recvs.filter (!failsWith e ·)
    trace := w.trace.filter (!·.failed e) }

/-! ## The loop around a system call -/

/-- A call records its answers in a script `script` and removes `e` from it as
`World.without` does. -/
structure Call.Logs {β : Type} (call : Call β) (script : World → List (Except OsError β)) :
    Prop where
  script_record : ∀ w a rest, script (call.record w a rest) = rest
  script_without : ∀ e w, script (w.without e) = (script w).filter (!failsWith e ·)
  record_skip : ∀ e w a rest, failsWith e a = true → script w = a :: rest →
    (call.record w a rest).without e = w.without e
  record_keep : ∀ e w a rest, failsWith e a = false →
    (call.record w a rest).without e =
      call.record (w.without e) a (rest.filter (!failsWith e ·))

theorem SendCall.logs (call : SendCall) : call.toCall.Logs World.sends where
  script_record _ _ _ := rfl
  script_without _ _ := rfl
  record_skip e w a rest h hs := by
    simp [SendCall.toCall, World.without, List.filter_append, Attempt.failed, h, hs]
  record_keep e w a rest h := by
    simp [SendCall.toCall, World.without, List.filter_append, Attempt.failed, h]

theorem RecvCall.logs (call : RecvCall) : call.toCall.Logs World.recvs where
  script_record _ _ _ := rfl
  script_without _ _ := rfl
  record_skip e w a rest h hs := by
    simp [RecvCall.toCall, World.without, List.filter_append, Attempt.failed, h, hs]
  record_keep e w a rest h := by
    simp [RecvCall.toCall, World.without, List.filter_append, Attempt.failed, h]

section Loop

variable {β : Type} {call : Call β} {script : World → List (Except OsError β)}

@[simp] theorem failsWith_ok (e : OsError) (b : β) :
    failsWith e (.ok b : Except OsError β) = false := rfl

@[simp] theorem failsWith_error (e e' : OsError) :
    failsWith e (.error e' : Except OsError β) = decide (e' = e) := rfl

/-- The loop does not see interrupted calls. -/
theorem Call.Logs.loop_without_interrupts (h : call.Logs script) {answers : List _} {w : World}
    (hw : script w = answers) :
    call.loop (script (w.without .EINTR)) (w.without .EINTR) =
      ((call.loop answers w).1, (call.loop answers w).2.without .EINTR) := by
  rw [h.script_without, hw]
  induction answers generalizing w with
  | nil => rfl
  | cons a rest ih =>
      cases a with
      | ok b =>
          rw [List.filter_cons_of_pos (by simp), Call.loop, Call.loop,
            h.record_keep _ _ _ _ (by simp)]
      | error e =>
          by_cases he : e = .EINTR
          · subst he
            have hrec := h.script_record w (.error .EINTR) rest
            have hskip := h.record_skip .EINTR w (.error .EINTR) rest (by simp) hw
            have hih := ih hrec
            rw [hskip] at hih
            rw [List.filter_cons_of_neg (by simp), hih, Call.loop, if_neg (by decide)]
          · have hkind : e.kind ≠ .interrupted := fun hk =>
              he (OsError.kind_eq_interrupted.mp hk)
            rw [List.filter_cons_of_pos (by simp [he]), Call.loop, Call.loop, if_pos hkind,
              if_pos hkind, h.record_keep _ _ _ _ (by simp [he])]

/-- A loop that fails with `WouldBlock` has used up such an answer, and behind their
removal it can start over. -/
theorem Call.Logs.loop_again (h : call.Logs script) {answers : List _} {w : World}
    (hw : script w = answers) {error : IoError} (herr : (call.loop answers w).1 = .err error)
    (hagain : error.isWouldBlock = true) :
    (script (call.loop answers w).2).countP (failsWith .EAGAIN) <
        answers.countP (failsWith .EAGAIN) ∧
      call.loop (script ((call.loop answers w).2.without .EAGAIN))
          ((call.loop answers w).2.without .EAGAIN) =
        call.loop (script (w.without .EAGAIN)) (w.without .EAGAIN) := by
  induction answers generalizing w with
  | nil => cases herr
  | cons a rest ih =>
      cases a with
      | ok b => cases herr
      | error e =>
          have hrec := h.script_record w (.error e) rest
          rw [Call.loop] at herr ⊢
          by_cases hk : e.kind = .interrupted
          · obtain rfl := OsError.kind_eq_interrupted.mp hk
            have hkeep := h.record_keep .EAGAIN w (.error .EINTR) rest (by simp)
            rw [if_neg (by simp [hk])] at herr ⊢
            obtain ⟨hlt, hloop⟩ := ih hrec herr
            refine ⟨by simpa using hlt, hloop.trans ?_⟩
            rw [h.script_without, h.script_without, hw, hrec,
              List.filter_cons_of_pos (by simp), Call.loop, if_neg (by simp [hk]), hkeep]
          · rw [if_pos hk] at herr ⊢
            cases herr
            obtain rfl : e = .EAGAIN := by
              simpa [IoError.isWouldBlock, IoError.kind, OsError.kind_eq_wouldBlock] using hagain
            refine ⟨by simp [hrec], ?_⟩
            rw [h.record_skip _ _ _ _ (by simp) hw]

/-- Any other end of the loop is the end behind the removal of `WouldBlock`. -/
theorem Call.Logs.loop_settled (h : call.Logs script) {answers : List _} {w : World}
    (hw : script w = answers)
    (hset : ∀ e, (call.loop answers w).1 = .err e → e.isWouldBlock = false) :
    call.loop (script (w.without .EAGAIN)) (w.without .EAGAIN) =
      ((call.loop answers w).1, (call.loop answers w).2.without .EAGAIN) := by
  rw [h.script_without, hw]
  induction answers generalizing w with
  | nil => rfl
  | cons a rest ih =>
      cases a with
      | ok b =>
          rw [List.filter_cons_of_pos (by simp), Call.loop, Call.loop,
            h.record_keep _ _ _ _ (by simp)]
      | error e =>
          have hrec := h.script_record w (.error e) rest
          have hne : e ≠ .EAGAIN := by
            rintro rfl
            have hfalse := hset (.os .EAGAIN) rfl
            simp [IoError.isWouldBlock, IoError.kind, OsError.kind] at hfalse
          have hkeep := h.record_keep .EAGAIN w (.error e) rest (by simp [hne])
          rw [Call.loop] at hset ⊢
          rw [List.filter_cons_of_pos (by simp [hne]), Call.loop]
          by_cases hk : e.kind = .interrupted
          · rw [if_neg (by simp [hk])] at hset ⊢
            rw [if_neg (by simp [hk]), ← hkeep]
            exact ih hrec hset
          · rw [if_pos hk, if_pos hk, hkeep]

end Loop

/-! ## Programs that make no call -/

/-- What is assumed of the worlds of a run survives everything an operation changes. -/
structure Stable (inv : World → Prop) : Prop where
  calls : ∀ w sends recvs trace, inv w →
    inv { w with sends := sends, recvs := recvs, trace := trace }
  memory : ∀ w iov fds flags, inv w → inv { w with iov := iov, fds := fds, flags := flags }
  fcntls : ∀ w a rest, w.fcntls = a :: rest → inv w → inv { w with fcntls := rest }
  refuse : ∀ w, inv w → inv w.refuse

section Steady

variable {inv : World → Prop} (e : OsError) (t : Target)

/-- The removed calls ended no attempt. -/
theorem finished_without (he : e = .EINTR ∨ e = .EAGAIN) (w : World) :
    (w.without e).finished = w.finished := by
  simp only [World.finished, World.without, List.countP_filter]
  congr 1
  apply List.countP_congr
  intro a _
  cases a with
  | sendmsg call answer =>
      cases answer with
      | ok n => simp [Attempt.finishedSend, Attempt.failed]
      | error e' => rcases he with rfl | rfl <;> simp +contextual [Attempt.finishedSend,
          Attempt.failed]
  | recvmsg call answer => simp [Attempt.finishedSend]

/-- `prepare_send` behind the removal of answers that it does not notice. -/
theorem refines_prepareSend (hrefuse : ∀ w, inv w → inv w.refuse)
    (hrefusal : ∀ w, inv w → (w.without e).refusal t = w.refusal t) :
    Refines inv (World.without e) (prepareSend t) (prepareSend t) := by
  constructor
  · intro w hw
    cases h : w.refusal t with
    | none => rwa [prepareSend_ok t h]
    | some error =>
        rw [prepareSend_err t h]
        exact hrefuse w hw
  · intro w hw
    have hsame := hrefusal w hw
    cases h : w.refusal t with
    | none => rw [prepareSend_ok t h, prepareSend_ok t (hsame.trans h)]
    | some error =>
        rw [prepareSend_err t h, prepareSend_err t (hsame.trans h)]
        rfl

theorem refines_recvControlSize (mode : CountMode) :
    Refines inv (World.without e) (recvControlSize t mode) (recvControlSize t mode) := by
  refine .bind (.of_read fun _ => rfl) fun budget => .bind (.of_ofExcept _) fun size => ?_
  split
  · exact .bind (.of_ofExcept _) fun credentials => .of_okOr _ _
  · exact .of_pure _

theorem takeFds_without (bytes : Bytes) (w : World) :
    takeFds t bytes (w.without e) =
      ((takeFds t bytes w).1, (takeFds t bytes w).2.without e) := by
  rw [takeFds_eq, takeFds_eq]
  rfl

variable (hinv : Stable inv)

include hinv

theorem refines_fcntl : Refines inv (World.without e) fcntl fcntl := by
  constructor
  · intro w hw
    simp only [fcntl]
    split
    · exact hw
    · exact hinv.fcntls w _ _ ‹_› hw
    · exact hinv.fcntls w _ _ ‹_› hw
  · intro w _
    simp only [fcntl, World.without]
    split <;> rfl

theorem refines_setCloexecAll (fds : List RawFd) :
    Refines inv (World.without e) (setCloexecAll fds) (setCloexecAll fds) := by
  induction fds with
  | nil => exact .of_pure _
  | cons fd fds ih =>
      have hone : Refines inv (World.without e) (setCloexec fd) (setCloexec fd) := by
        refine .bind (refines_fcntl e hinv) fun _ => .bind (.of_read fun _ => rfl) fun flags =>
          .bind (refines_fcntl e hinv) fun _ => .of_update ?_ fun _ => rfl
        exact fun w hw => hinv.memory w w.iov w.fds _ hw
      exact .bind hone fun _ => ih

theorem refines_cloexecFds (fds : List RawFd) :
    Refines inv (World.without e) (cloexecFds t fds) (cloexecFds t fds) := by
  rw [cloexecFds]
  split
  · exact refines_setCloexecAll e hinv fds
  · exact .of_pure _

theorem inv_close (fds : List RawFd) (w : World) (hw : inv w) : inv (w.close fds) :=
  hinv.memory w w.iov _ w.flags hw

theorem refines_dropFds (fds : List RawFd) :
    Refines inv (World.without e) (dropFds fds) (dropFds fds) :=
  .of_update (inv_close hinv fds) fun _ => rfl

theorem refines_takeFdsFrom (bytes : Bytes) :
    Refines inv (World.without e) (takeFdsFrom t bytes) (takeFdsFrom t bytes) := by
  constructor
  · intro w hw
    simp only [takeFdsFrom, takeFds_eq]
    exact inv_close hinv _ w hw
  · intro w _
    simp only [takeFdsFrom, takeFds_without]

/-- What `recv_fds` does with a completed receive. -/
theorem refines_ownReceived (result : RecvMsgResult) (buffer : Bytes) :
    let own : Sys (RecvMsgResult × List RawFd) := do
      let bytes ← ofExcept (slice buffer 0 result.ancillaryLen)
      let fds ← takeFdsFrom t bytes
      (cloexecFds t fds).onError (·.close fds)
      pure (result, fds)
    Refines inv (World.without e) own own :=
  .bind (.of_ofExcept _) fun bytes => .bind (refines_takeFdsFrom e t hinv bytes) fun fds =>
    .bind (.onError (refines_cloexecFds e t hinv fds) (inv_close hinv fds) fun _ => rfl)
      fun _ => .of_pure _

theorem refines_rejectFds {α : Type} (fds : List RawFd) (error : IoError) :
    Refines inv (World.without e) (rejectFds fds error : Sys α) (rejectFds fds error) :=
  .bind (refines_dropFds e hinv fds) fun _ => .of_throw _

theorem refines_applyPolicy (kind : SocketKind) (mode : CountMode) (result : RecvMsgResult)
    (fds : List RawFd) : Refines inv (World.without e) (applyPolicy kind mode result fds)
      (applyPolicy kind mode result fds) := by
  rw [applyPolicy.eq_def]
  split
  · exact refines_rejectFds e hinv _ _
  split
  · exact refines_rejectFds e hinv _ _
  cases mode with
  | upTo n => exact .bind (refines_dropFds e hinv _) fun _ => .of_pure _
  | exact n =>
      simp only
      split
      · exact refines_rejectFds e hinv _ _
      · exact .of_pure _

theorem refines_takeDataBuf : Refines inv (World.without e) takeDataBuf takeDataBuf :=
  .bind (.of_read fun _ => rfl) fun _ => .bind
    (.of_update (fun w hw => hinv.memory w _ w.fds w.flags hw) fun _ => rfl) fun _ => .of_pure _

theorem refines_setIov (bufs : List Bytes) :
    Refines inv (World.without e) (setIov bufs) (setIov bufs) :=
  .of_update (fun w hw => hinv.memory w _ w.fds w.flags hw) fun _ => rfl

end Steady

/-! ## Interrupts -/

section Interrupts

variable (t : Target) (rt : Runtime)

/-- Nothing is assumed of the worlds. -/
theorem stable_true : Stable fun _ => True :=
  ⟨fun _ _ _ _ _ => trivial, fun _ _ _ _ _ => trivial, fun _ _ _ _ _ => trivial,
    fun _ _ => trivial⟩

/-- The program does not see interrupted calls. -/
def Uninterrupted {α : Type} (m : Sys α) : Prop :=
  Refines (fun _ => True) (World.without .EINTR) m m

theorem uninterrupted_awaitSend (call : SendCall) : Uninterrupted (awaitSend call) :=
  ⟨fun _ _ => trivial, fun _ _ => call.logs.loop_without_interrupts rfl⟩

theorem uninterrupted_awaitRecv (control : Nat) (peek : Bool) :
    Uninterrupted (awaitRecv t control peek) :=
  ⟨fun _ _ => trivial, fun w _ => (recvCall t control peek w).logs.loop_without_interrupts rfl⟩

theorem blocked_without_interrupts (w : World) : (w.without .EINTR).blocked = w.blocked := by
  simp only [World.blocked, World.without, List.countP_filter]
  apply List.countP_congr
  intro a _
  cases a with
  | sendmsg call answer =>
      cases answer with
      | ok n => simp [Attempt.blockedSend]
      | error e' => simp +contextual [Attempt.blockedSend, Attempt.failed]
  | recvmsg call answer => simp [Attempt.blockedSend]

theorem uninterrupted_sendmsgVectored (iov : List Bytes) (buf : Bytes) (len : Nat) :
    Uninterrupted (sendmsgVectored t iov buf len) := by
  refine .bind (refines_prepareSend _ t (fun _ _ => trivial) fun w _ => ?_)
    fun _ => uninterrupted_awaitSend _
  rw [World.refusal, finished_without .EINTR (.inl rfl), blocked_without_interrupts]
  rfl

theorem uninterrupted_sendFdsVectoredImpl (iov : List Bytes) (fds : List RawFd) :
    Uninterrupted (sendFdsVectoredImpl t iov fds) := by
  rw [sendFdsVectoredImpl]
  split
  · exact uninterrupted_sendmsgVectored t iov [] 0
  · exact .bind (.of_ofExcept _) fun size => .bind (.of_withLocal _ _ _) fun built =>
      uninterrupted_sendmsgVectored t iov _ _

theorem uninterrupted_recvFds (buf : Bytes) : Uninterrupted (recvFds t buf) := by
  have hraw : Uninterrupted (recvmsgRaw t buf false) :=
    .bind (uninterrupted_awaitRecv t _ _) fun d =>
      .bind (.of_update (fun _ _ => trivial) fun _ => rfl) fun _ => .of_pure _
  exact .bind hraw fun received => refines_ownReceived _ t stable_true received.1 received.2

theorem uninterrupted_recvCore (kind : SocketKind) (mode : CountMode) :
    Uninterrupted (recvCore t kind mode) :=
  .bind (refines_recvControlSize _ t mode) fun _ => .bind (uninterrupted_recvFds t _)
    fun received => refines_applyPolicy _ stable_true kind mode received.1 received.2

theorem uninterrupted_recvFdsIntoVectoredImpl (kind : SocketKind) (mode : CountMode) :
    Uninterrupted (recvFdsIntoVectoredImpl t kind mode) :=
  .bind (uninterrupted_recvCore t kind mode) fun _ => .of_pure _

theorem uninterrupted_recvOwnedImpl (kind : SocketKind) (mode : CountMode) :
    Uninterrupted (recvOwnedImpl t kind mode) :=
  .bind (uninterrupted_recvCore t kind mode) fun _ =>
    .bind (refines_takeDataBuf _ stable_true) fun _ => .of_pure _

theorem wouldBlocks_without_interrupts (w : World) :
    (w.without .EINTR).wouldBlocks = w.wouldBlocks := by
  have hcount : ∀ {β : Type} (answers : List (Except OsError β)),
      (answers.filter (!failsWith .EINTR ·)).countP (failsWith .EAGAIN) =
        answers.countP (failsWith .EAGAIN) := by
    intro β answers
    rw [List.countP_filter]
    apply List.countP_congr
    intro a _
    cases a with
    | ok b => simp
    | error e =>
        simp only [failsWith_error, Bool.and_eq_true, decide_eq_true_eq, Bool.not_eq_true',
          decide_eq_false_iff_not, and_iff_left_iff_imp]
        rintro rfl
        decide
  rw [World.wouldBlocks, World.wouldBlocks, ← hcount w.sends, ← hcount w.recvs]
  rfl

theorem Uninterrupted.io {α : Type} {m : Sys α} (hm : Uninterrupted m) :
    Uninterrupted (rt.io m) := by
  cases rt with
  | blocking => exact hm
  | tokio =>
      refine ⟨fun _ _ => trivial, fun w _ => ?_⟩
      simp only [Runtime.io, asyncIo, wouldBlocks_without_interrupts]
      exact (Refines.retry hm .readiness w.wouldBlocks).run_map w trivial

end Interrupts

/-! ## WouldBlock -/

section WouldBlock

variable (t : Target) (start : World)

/-- `fcntl` never fails with `WouldBlock`, and the descriptor limit and the answers of
`setsockopt` stay what they were at the start. -/
structure Calm (w : World) : Prop where
  fcntls : some .EAGAIN ∉ w.fcntls
  rlimit_eq : w.rlimit = start.rlimit
  nosigpipe_eq : w.nosigpipe = start.nosigpipe

theorem stable_calm : Stable (Calm start) where
  calls _ _ _ _ h := ⟨h.fcntls, h.rlimit_eq, h.nosigpipe_eq⟩
  memory _ _ _ _ h := ⟨h.fcntls, h.rlimit_eq, h.nosigpipe_eq⟩
  fcntls w a rest hw h := by
    refine ⟨fun hmem => h.fcntls ?_, h.rlimit_eq, h.nosigpipe_eq⟩
    rw [hw]
    exact List.mem_cons_of_mem a hmem
  refuse _ h := ⟨h.fcntls, h.rlimit_eq, h.nosigpipe_eq⟩

/-- The program can be the closure of an `async_io`. -/
def Pollable {α : Type} (m : Sys α) : Prop :=
  Polls (Calm start) (World.without .EAGAIN) IoError.isWouldBlock World.wouldBlocks m

/-- The program never fails with `WouldBlock`. -/
def NeverBlocks {α : Type} (m : Sys α) : Prop :=
  Settles (Calm start) IoError.isWouldBlock m

/-- A program that only loops around one system call. -/
theorem pollable_loop {β : Type} (mk : World → Call β)
    (script : World → List (Except OsError β)) (other : World → Nat)
    (hlogs : ∀ w, (mk w).Logs script)
    (hfuel : ∀ w, w.wouldBlocks = (script w).countP (failsWith .EAGAIN) + other w)
    (hcalm : ∀ w₀ w a rest, Calm start w → Calm start ((mk w₀).record w a rest))
    (hother : ∀ w₀ w e rest, other ((mk w₀).record w (.error e) rest) = other w)
    (hmk : ∀ w₀ w e rest, mk ((mk w₀).record w (.error e) rest) = mk w)
    (hwithout : ∀ w, mk (w.without .EAGAIN) = mk w) :
    Pollable start (⟨fun w => (mk w).loop (script w) w⟩ : Sys β) := by
  constructor
  · exact fun w hw => Call.loop_inv (hcalm w) hw
  · intro w _ e he ha
    obtain ⟨hlt, hloop⟩ := (hlogs w).loop_again rfl he ha
    have hsame : mk ((mk w).loop (script w) w).2 = mk w :=
      Call.loop_err mk (fun w' e rest _ => hmk w w' e rest) he
    refine ⟨?_, ?_⟩
    · have hrest := Call.loop_err other (fun w' e rest _ => hother w w' e rest) he
      rw [hfuel, hfuel, hrest]
      exact Nat.add_lt_add_right hlt _
    · simp only [hwithout, hsame]
      exact hloop
  · intro w _ hset
    simp only [hwithout]
    exact (hlogs w).loop_settled rfl hset

theorem pollable_awaitSend (call : SendCall) : Pollable start (awaitSend call) := by
  refine pollable_loop start (fun _ => call.toCall) World.sends
    (fun w => w.recvs.countP (failsWith .EAGAIN)) (fun _ => call.logs)
    (fun _ => rfl) ?_ (fun _ _ _ _ => rfl) (fun _ _ _ _ => rfl) (fun _ => rfl)
  exact fun _ w a rest hw => (stable_calm start).calls w _ w.recvs _ hw

theorem pollable_awaitRecv (control : Nat) (peek : Bool) :
    Pollable start (awaitRecv t control peek) := by
  refine pollable_loop start (fun w => (recvCall t control peek w).toCall) World.recvs
    (fun w => w.sends.countP (failsWith .EAGAIN))
    (fun w => (recvCall t control peek w).logs) (fun _ => Nat.add_comm _ _) ?_
    (fun _ _ _ _ => rfl) (fun _ _ _ _ => rfl) (fun _ => rfl)
  exact fun _ w a rest hw => (stable_calm start).calls w w.sends _ _ hw

/-- A retry is refused as its first attempt was. -/
theorem refusal_steady (hsteady : t.Steady start.nosigpipe) {w w' : World} (hw : Calm start w)
    (hw' : Calm start w') (h : w'.finished = w.finished) : w'.refusal t = w.refusal t := by
  rw [World.refusal, World.refusal, hw.nosigpipe_eq, hw'.nosigpipe_eq, h, Target.refusal,
    Target.refusal]
  split
  case isTrue happle => rw [hsteady happle _ w'.blocked, hsteady happle _ w.blocked]
  case isFalse => rfl

/-- An attempt that was blocked, and perhaps interrupted before, ended nothing. -/
theorem finished_loop {call : SendCall} {answers : List (Except OsError Nat)} {w : World}
    {e : IoError} (he : (call.toCall.loop answers w).1 = .err e) (ha : e.isWouldBlock = true) :
    (call.toCall.loop answers w).2.finished = w.finished := by
  refine Call.loop_err World.finished (fun w e' rest hcase => ?_) he
  have hends : e' = .EINTR ∨ e' = .EAGAIN := hcase.imp_right fun h => by
    subst h
    exact isWouldBlock_os.mp ha
  rcases hends with rfl | rfl <;>
    simp [World.finished, SendCall.toCall, List.countP_append, Attempt.finishedSend]

theorem pollable_sendmsgVectored (hsteady : t.Steady start.nosigpipe) (iov : List Bytes)
    (buf : Bytes) (len : Nat) : Pollable start (sendmsgVectored t iov buf len) := by
  have hstable := stable_calm start
  refine .guard_bind (refines_prepareSend _ t hstable.refuse fun w hw => ?_) (fun w a h => ?_)
    (fun w hw e h => ?_) (fun _ _ _ _ => pollable_awaitSend start _) fun w _ e hw hok he ha => ?_
  · exact refusal_steady t start hsteady hw ⟨hw.fcntls, hw.rlimit_eq, hw.nosigpipe_eq⟩
      (finished_without .EAGAIN (.inr rfl) w)
  · cases hrefusal : w.refusal t with
    | none => rw [prepareSend_ok t hrefusal]
    | some error =>
        rw [prepareSend_err t hrefusal] at h
        cases h
  · cases hrefusal : w.refusal t with
    | none =>
        rw [prepareSend_ok t hrefusal] at h
        cases h
    | some error =>
        rw [prepareSend_err t hrefusal] at h
        cases h
        rw [← Bool.not_eq_true, isWouldBlock_os]
        exact (t.refusal_some hrefusal).2
  · have hkeep := (pollable_awaitSend start
      ⟨t.named iov, msgControl t buf len, sendNoSignal t⟩).keeps w hw
    have hsame := refusal_steady t start hsteady hw hkeep (finished_loop he ha)
    cases hrefusal : w.refusal t with
    | none => rw [prepareSend_ok t (hsame.trans hrefusal)]
    | some error =>
        rw [prepareSend_err t hrefusal] at hok
        cases hok

/-- A computation that reads nothing of the world, before a pollable program. -/
theorem pollable_const_bind {α β : Type} {m : Sys α} {f : α → Sys β}
    {o : Outcome IoError Panic Syscall α} (hm : ∀ w, m.run w = (o, w))
    (herr : ∀ e, o = .err e → e.isWouldBlock = false)
    (hf : ∀ a, Pollable start (f a)) : Pollable start (m >>= f) := by
  refine .guard_bind ⟨fun w hw => ?_, fun w _ => ?_⟩ (fun w a _ => ?_) (fun w _ e h => herr e ?_)
    (fun _ a _ _ => hf a) fun w a e _ hok _ _ => ?_
  · rwa [hm]
  · rw [hm, hm]
  · rw [hm]
  · rw [← h, hm]
  · rw [← hok, hm, hm]

theorem run_ofExcept {α : Type} (x : Except Panic α) : ∃ o : Outcome IoError Panic Syscall α,
    (∀ w : World, (ofExcept x : Sys α).run w = (o, w)) ∧
      ∀ e, o = .err e → e.isWouldBlock = false := by
  cases x with
  | ok a => exact ⟨.ok a, fun _ => rfl, fun e he => by cases he⟩
  | error p => exact ⟨.panic p, fun _ => rfl, fun e he => by cases he⟩

theorem run_buildControl (buf : Bytes) (m : Building Unit) :
    ∃ o : Outcome IoError Panic Syscall (Unit × SocketAncillary),
      (∀ w : World, (withLocal (.new buf) controlError m).run w = (o, w)) ∧
      ∀ e, o = .err e → e.isWouldBlock = false := by
  simp only [withLocal]
  generalize m.run (.new buf) = r
  obtain ⟨o, anc⟩ := r
  cases o with
  | ok a => exact ⟨.ok (a, anc), fun _ => rfl, fun e he => by cases he⟩
  | err e =>
      refine ⟨.err (controlError e), fun _ => rfl, ?_⟩
      rintro _ ⟨⟩
      rfl
  | panic p => exact ⟨.panic p, fun _ => rfl, fun e he => by cases he⟩
  | pending c => exact ⟨.pending c, fun _ => rfl, fun e he => by cases he⟩

theorem pollable_sendFdsVectoredImpl (hsteady : t.Steady start.nosigpipe) (iov : List Bytes)
    (fds : List RawFd) : Pollable start (sendFdsVectoredImpl t iov fds) := by
  rw [sendFdsVectoredImpl]
  split
  · exact pollable_sendmsgVectored t start hsteady iov [] 0
  · obtain ⟨o, hrun, herr⟩ := run_ofExcept (t.layout.bufferSizeForRights fds.length)
    refine pollable_const_bind start hrun herr fun size => ?_
    obtain ⟨o, hrun, herr⟩ :=
      run_buildControl (List.replicate size 0) (SocketAncillary.addRights t fds)
    exact pollable_const_bind start hrun herr fun _ =>
      pollable_sendmsgVectored t start hsteady _ _ _

theorem neverBlocks_setCloexecAll (fds : List RawFd) :
    NeverBlocks start (setCloexecAll fds) := by
  have hstable := stable_calm start
  have hfcntl : NeverBlocks start fcntl := by
    intro w hw e he
    simp only [fcntl] at he
    split at he
    case h_1 => cases he
    case h_2 => cases he
    case h_3 error rest hlist =>
        cases he
        rw [← Bool.not_eq_true, isWouldBlock_os]
        rintro rfl
        exact hw.fcntls (by rw [hlist]; exact List.mem_cons_self)
  have hkeep := (refines_fcntl .EAGAIN hstable).keeps
  induction fds with
  | nil => exact .of_pure _
  | cons fd fds ih =>
      have hone : NeverBlocks start (setCloexec fd) := by
        refine .bind hkeep hfcntl fun _ => .bind (fun _ hw => hw) (.of_read _) fun flags =>
          .bind hkeep hfcntl fun _ => .of_update _
      have hall := refines_setCloexecAll .EAGAIN hstable [fd]
      refine .bind (fun w hw => ?_) hone fun _ => ih
      have hstep := hall.keeps w hw
      rw [setCloexecAll, run_bind] at hstep
      generalize (setCloexec fd).run w = r at hstep ⊢
      obtain ⟨o, w'⟩ := r
      cases o <;> exact hstep

theorem neverBlocks_cloexecFds (fds : List RawFd) : NeverBlocks start (cloexecFds t fds) := by
  rw [cloexecFds]
  split
  · exact neverBlocks_setCloexecAll start fds
  · exact .of_pure _

theorem neverBlocks_ownReceived (result : RecvMsgResult) (buffer : Bytes) :
    NeverBlocks start (do
      let bytes ← ofExcept (slice buffer 0 result.ancillaryLen)
      let fds ← takeFdsFrom t bytes
      (cloexecFds t fds).onError (·.close fds)
      pure (result, fds)) := by
  have hstable := stable_calm start
  refine .bind (Refines.of_ofExcept (q := World.without .EAGAIN) _).keeps
    (.of_ofExcept _) fun bytes => ?_
  refine .bind (refines_takeFdsFrom .EAGAIN t hstable bytes).keeps (fun _ _ _ he => by cases he)
    fun fds => ?_
  refine .bind (Refines.onError (refines_cloexecFds .EAGAIN t hstable fds)
    (inv_close hstable fds) fun _ => rfl).keeps (.onError (neverBlocks_cloexecFds t start fds))
    fun _ => .of_pure _

theorem neverBlocks_rejectFds {α : Type} (fds : List RawFd) {error : IoError}
    (h : error.isWouldBlock = false) : NeverBlocks start (rejectFds fds error : Sys α) :=
  .bind (refines_dropFds .EAGAIN (stable_calm start) fds).keeps (.of_update _)
    fun _ => .of_throw h

theorem neverBlocks_applyPolicy (kind : SocketKind) (mode : CountMode) (result : RecvMsgResult)
    (fds : List RawFd) : NeverBlocks start (applyPolicy kind mode result fds) := by
  rw [applyPolicy.eq_def]
  split
  · exact neverBlocks_rejectFds start fds rfl
  split
  · exact neverBlocks_rejectFds start fds rfl
  cases mode with
  | upTo n =>
      exact .bind (refines_dropFds .EAGAIN (stable_calm start) _).keeps (.of_update _)
        fun _ => .of_pure _
  | exact n =>
      simp only
      split
      · exact neverBlocks_rejectFds start fds rfl
      · exact .of_pure _

theorem pollable_recvFds (buf : Bytes) : Pollable start (recvFds t buf) := by
  have hstable := stable_calm start
  have hraw : Pollable start (recvmsgRaw t buf false) :=
    .bind (pollable_awaitRecv t start _ _)
      (fun d => .bind (.of_update (fun w hw => hstable.memory w _ _ _ hw) fun _ => rfl)
        fun _ => .of_pure _)
      fun d => .bind (fun w hw => hstable.memory w _ _ _ hw) (.of_update _) fun _ => .of_pure _
  exact .bind hraw (fun received => refines_ownReceived _ t hstable received.1 received.2)
    fun received => neverBlocks_ownReceived t start received.1 received.2

theorem controlSizeAt_err {rlimit : Option Nat} {mode : CountMode} {e : IoError}
    (h : controlSizeAt t mode rlimit = .err e) : e.isWouldBlock = false := by
  rw [controlSizeAt] at h
  split at h
  · cases h
  split at h
  · split at h
    · cases h
    split at h
    · cases h
      rfl
    · cases h
  · cases h

theorem pollable_recvCore (kind : SocketKind) (mode : CountMode) :
    Pollable start (recvCore t kind mode) := by
  have hstable := stable_calm start
  have hbody : ∀ size : Nat, Pollable start (do
      let received ← withControl size fun buf => recvFds t buf
      applyPolicy kind mode received.1 received.2) := fun size =>
    .bind (pollable_recvFds t start _)
      (fun received => refines_applyPolicy _ hstable kind mode received.1 received.2)
      fun received => neverBlocks_applyPolicy start kind mode received.1 received.2
  refine .guard_bind (refines_recvControlSize _ t mode) (fun w _ _ => ?_) (fun w _ e h => ?_)
    (fun _ size _ _ => hbody size) fun w size e hw hok _ _ => ?_
  · rw [run_recvControlSize]
  · rw [run_recvControlSize] at h
    exact controlSizeAt_err t h
  -- A retried receive runs under the descriptor limit of the first attempt.
  · have hkeep := (hbody size).keeps w hw
    rw [run_recvControlSize] at hok ⊢
    rw [← hok]
    exact congrArg (controlSizeAt t mode) (hkeep.rlimit_eq.trans hw.rlimit_eq.symm)

theorem pollable_recvFdsIntoVectoredImpl (kind : SocketKind) (mode : CountMode) :
    Pollable start (recvFdsIntoVectoredImpl t kind mode) :=
  .bind (pollable_recvCore t start kind mode) (fun _ => .of_pure _) fun _ => .of_pure _

theorem pollable_recvOwnedImpl (kind : SocketKind) (mode : CountMode) :
    Pollable start (recvOwnedImpl t kind mode) := by
  have htake := refines_takeDataBuf .EAGAIN (stable_calm start)
  refine .bind (pollable_recvCore t start kind mode) (fun _ => .bind htake fun _ => .of_pure _)
    fun _ => .bind htake.keeps ?_ fun _ => .of_pure _
  intro _ _ _ he
  cases he

/-- Behind the removal of `WouldBlock`, `async_io` is one call of its closure. -/
theorem Pollable.io {α : Type} {m : Sys α} (hm : Pollable start m) :
    Refines (Calm start) (World.without .EAGAIN) (Runtime.tokio.io m)
      (Runtime.blocking.io m) :=
  Polls.refines hm .readiness

end WouldBlock

/-! ## Whole operations -/

/-- The operations that exist in both forms, with their results. -/
inductive Operation : Type → Type where
  | streamSendFds (data : Bytes) (fds : List RawFd) : Operation Nat
  | streamSendFdsVectored (iov : List Bytes) (fds : List RawFd) : Operation Nat
  | streamSendFdsAll (data : Bytes) (fds : List RawFd) : Operation Unit
  | streamRecvFds (n : Nat) : Operation ReceivedFds
  | streamRecvFdsInto (n : Nat) (dataBuf : Bytes) : Operation (Nat × List RawFd)
  | streamRecvFdsExact (n : Nat) : Operation ReceivedFds
  | streamRecvFdsExactInto (n : Nat) (dataBuf : Bytes) : Operation (Nat × List RawFd)
  | streamRecvFdsVectored (n : Nat) (iov : List Bytes) : Operation (Nat × List RawFd)
  | datagramSendFds (data : Bytes) (fds : List RawFd) : Operation Nat
  | datagramRecvFds (n : Nat) : Operation ReceivedFds
  | datagramRecvFdsInto (n : Nat) (dataBuf : Bytes) : Operation (Nat × List RawFd)
  | datagramRecvFdsExact (n : Nat) : Operation ReceivedFds
  | datagramRecvFdsExactInto (n : Nat) (dataBuf : Bytes) : Operation (Nat × List RawFd)
  | seqpacketSendFds (data : Bytes) (fds : List RawFd) : Operation Nat
  | seqpacketRecvFdsInto (n : Nat) (dataBuf : Bytes) : Operation (Nat × List RawFd)
  | seqpacketRecvFdsExactInto (n : Nat) (dataBuf : Bytes) : Operation (Nat × List RawFd)

def Operation.run (t : Target) (rt : Runtime) {α : Type} : Operation α → Sys α
  | streamSendFds data fds => UnixStreamExt.sendFds t rt data fds
  | streamSendFdsVectored iov fds => UnixStreamExt.sendFdsVectored t rt iov fds
  | streamSendFdsAll data fds => UnixStreamExt.sendFdsAll t rt data fds
  | streamRecvFds n => UnixStreamExt.recvFds t rt n
  | streamRecvFdsInto n dataBuf => UnixStreamExt.recvFdsInto t rt n dataBuf
  | streamRecvFdsExact n => UnixStreamExt.recvFdsExact t rt n
  | streamRecvFdsExactInto n dataBuf => UnixStreamExt.recvFdsExactInto t rt n dataBuf
  | streamRecvFdsVectored n iov => UnixStreamExt.recvFdsVectored t rt n iov
  | datagramSendFds data fds => UnixDatagramExt.sendFds t rt data fds
  | datagramRecvFds n => UnixDatagramExt.recvFds t rt n
  | datagramRecvFdsInto n dataBuf => UnixDatagramExt.recvFdsInto t rt n dataBuf
  | datagramRecvFdsExact n => UnixDatagramExt.recvFdsExact t rt n
  | datagramRecvFdsExactInto n dataBuf => UnixDatagramExt.recvFdsExactInto t rt n dataBuf
  | seqpacketSendFds data fds => Seqpacket.sendFds t rt data fds
  | seqpacketRecvFdsInto n dataBuf => Seqpacket.recvFdsInto t rt n dataBuf
  | seqpacketRecvFdsExactInto n dataBuf => Seqpacket.recvFdsExactInto t rt n dataBuf

/-- The operation sends; the others receive. -/
def Operation.sends {α : Type} : Operation α → Bool
  | streamSendFds .. | streamSendFdsVectored .. | streamSendFdsAll .. | datagramSendFds ..
  | seqpacketSendFds .. => true
  | _ => false

/-- The closures of the operations under `rt` behave as under `rt'` behind the removal
of the answers `e`, those of the sends as long as `steady` holds. -/
structure Matched (t : Target) (inv : World → Prop) (e : OsError) (rt rt' : Runtime)
    (steady : Prop) : Prop where
  stable : Stable inv
  send : steady → ∀ iov fds, Refines inv (World.without e)
    (rt.io (sendFdsVectoredImpl t iov fds)) (rt'.io (sendFdsVectoredImpl t iov fds))
  bytes : steady → ∀ data, Refines inv (World.without e) (rt.io (sendBytes t data))
    (rt'.io (sendBytes t data))
  into : ∀ kind mode, Refines inv (World.without e)
    (rt.io (recvFdsIntoVectoredImpl t kind mode)) (rt'.io (recvFdsIntoVectoredImpl t kind mode))
  owned : ∀ kind mode, Refines inv (World.without e) (rt.io (recvOwnedImpl t kind mode))
    (rt'.io (recvOwnedImpl t kind mode))

section Operations

variable {t : Target} {inv : World → Prop} {e : OsError} {rt rt' : Runtime} {steady : Prop}

theorem matched_interrupts (t : Target) (rt : Runtime) :
    Matched t (fun _ => True) .EINTR rt rt True where
  stable := stable_true
  send _ iov fds := (uninterrupted_sendFdsVectoredImpl t iov fds).io rt
  bytes _ data := (uninterrupted_sendmsgVectored t [data] [] 0).io rt
  into kind mode := (uninterrupted_recvFdsIntoVectoredImpl t kind mode).io rt
  owned kind mode := (uninterrupted_recvOwnedImpl t kind mode).io rt

theorem matched_wouldBlock (t : Target) (start : World) :
    Matched t (Calm start) .EAGAIN .tokio .blocking (t.Steady start.nosigpipe) where
  stable := stable_calm start
  send hsteady iov fds := (pollable_sendFdsVectoredImpl t start hsteady iov fds).io
  bytes hsteady data := (pollable_sendmsgVectored t start hsteady [data] [] 0).io
  into kind mode := (pollable_recvFdsIntoVectoredImpl t start kind mode).io
  owned kind mode := (pollable_recvOwnedImpl t start kind mode).io

theorem refines_validateStreamSend {inv : World → Prop} {e : OsError} (data : Bytes)
    (fdCount : Nat) : Refines inv (World.without e) (validateStreamSend data fdCount)
      (validateStreamSend data fdCount) := by
  rw [validateStreamSend]
  split
  · exact .of_throw _
  · exact .of_pure _

variable (h : Matched t inv e rt rt' steady)

include h

section Sends

variable (hsteady : steady)

include hsteady

theorem Matched.streamSendFds (data : Bytes) (fds : List RawFd) :
    Refines inv (World.without e) (UnixAncillary.streamSendFds t rt data fds)
      (UnixAncillary.streamSendFds t rt' data fds) := by
  exact .bind (refines_validateStreamSend data fds.length) fun _ => h.send hsteady [data] fds

theorem Matched.streamSendFdsVectored (iov : List Bytes) (fds : List RawFd) :
    Refines inv (World.without e) (UnixAncillary.streamSendFdsVectored t rt iov fds)
      (UnixAncillary.streamSendFdsVectored t rt' iov fds) := by
  rw [UnixAncillary.streamSendFdsVectored, UnixAncillary.streamSendFdsVectored]
  split
  · refine .bind (.of_ofExcept _) fun total => ?_
    split
    · exact .of_throw _
    · exact h.send hsteady iov fds
  · exact h.send hsteady iov fds

theorem Matched.sendRest (data : Bytes) (fuel sent : Nat) :
    Refines inv (World.without e) (UnixAncillary.sendRest t rt data fuel sent)
      (UnixAncillary.sendRest t rt' data fuel sent) := by
  induction fuel generalizing sent with
  | zero => exact .of_pure _
  | succ fuel ih =>
      rw [UnixAncillary.sendRest, UnixAncillary.sendRest]
      split
      · refine .bind (h.bytes hsteady _) fun n => ?_
        split
        · exact .of_throw _
        · exact ih (sent + n)
      · exact .of_pure _

theorem Matched.streamSendFdsAll (data : Bytes) (fds : List RawFd) :
    Refines inv (World.without e) (UnixAncillary.streamSendFdsAll t rt data fds)
      (UnixAncillary.streamSendFdsAll t rt' data fds) := by
  have hfirst : Refines inv (World.without e) (sendFirst t rt data fds)
      (sendFirst t rt' data fds) := by
    rw [sendFirst, sendFirst]
    split
    · exact .of_pure _
    · refine .bind (h.send hsteady [data] fds) fun first => ?_
      split
      · exact .of_throw _
      · exact .of_pure _
  exact .bind (refines_validateStreamSend data fds.length) fun _ =>
    .bind hfirst fun sent => h.sendRest hsteady data _ sent

end Sends

theorem Matched.recvOwned (kind : SocketKind) (mode : CountMode) (size : Nat) :
    Refines inv (World.without e) (UnixAncillary.recvOwned t rt kind mode size)
      (UnixAncillary.recvOwned t rt' kind mode size) :=
  .bind (refines_setIov e h.stable _) fun _ => h.owned kind mode

theorem Matched.recvVectored (kind : SocketKind) (mode : CountMode) (iov : List Bytes) :
    Refines inv (World.without e) (UnixAncillary.recvVectored t rt kind mode iov)
      (UnixAncillary.recvVectored t rt' kind mode iov) :=
  .bind (refines_setIov e h.stable _) fun _ => h.into kind mode

theorem Matched.operation {α : Type} (op : Operation α) (hsteady : op.sends = true → steady) :
    Refines inv (World.without e) (op.run t rt) (op.run t rt') := by
  cases op with
  | streamSendFds data fds => exact h.streamSendFds (hsteady rfl) data fds
  | streamSendFdsVectored iov fds => exact h.streamSendFdsVectored (hsteady rfl) iov fds
  | streamSendFdsAll data fds => exact h.streamSendFdsAll (hsteady rfl) data fds
  | streamRecvFds n => exact h.recvOwned _ _ _
  | streamRecvFdsInto n dataBuf => exact h.recvVectored _ _ [dataBuf]
  | streamRecvFdsExact n => exact h.recvOwned _ _ _
  | streamRecvFdsExactInto n dataBuf => exact h.recvVectored _ _ [dataBuf]
  | streamRecvFdsVectored n iov => exact h.recvVectored _ _ iov
  | datagramSendFds data fds => exact h.send (hsteady rfl) [data] fds
  | datagramRecvFds n => exact h.recvOwned _ _ _
  | datagramRecvFdsInto n dataBuf => exact h.recvVectored _ _ [dataBuf]
  | datagramRecvFdsExact n => exact h.recvOwned _ _ _
  | datagramRecvFdsExactInto n dataBuf => exact h.recvVectored _ _ [dataBuf]
  | seqpacketSendFds data fds => exact h.send (hsteady rfl) [data] fds
  | seqpacketRecvFdsInto n dataBuf => exact h.recvVectored _ _ [dataBuf]
  | seqpacketRecvFdsExactInto n dataBuf => exact h.recvVectored _ _ [dataBuf]

end Operations

/-- The asynchronous form of every operation ends as the blocking form does on the
script without its `WouldBlock` answers: the same outcome and, apart from the calls that
blocked, the same calls, buffers and descriptor table. For a send this asks that `setsockopt`
answers a retry as it answered the blocked attempt. Both forms are unchanged when the `EINTR`
answers are removed. -/
theorem retries_transparent (t : Target) {α : Type} (op : Operation α) (w : World)
    (hfcntl : some .EAGAIN ∉ w.fcntls) :
    ((op.sends = true → t.Steady w.nosigpipe) →
      (op.run t .blocking).run (w.without .EAGAIN) =
        (((op.run t .tokio).run w).1, ((op.run t .tokio).run w).2.without .EAGAIN)) ∧
      ∀ rt, (op.run t rt).run (w.without .EINTR) =
        (((op.run t rt).run w).1, ((op.run t rt).run w).2.without .EINTR) := by
  constructor
  · intro hsteady
    exact ((matched_wouldBlock t w).operation op hsteady).run_map w ⟨hfcntl, rfl, rfl⟩
  · intro rt
    exact ((matched_interrupts t rt).operation op fun _ => trivial).run_map w trivial

/-- A send that is blocked and interrupted once before the kernel takes it. -/
theorem retries_transparent_send :
    let op : Operation Nat := .streamSendFds [1] []
    ((op.run .macos .blocking).run (.scripted [.error .EINTR, .ok 1] [])).1 =
      ((op.run .macos .tokio).run
        (.scripted [.error .EAGAIN, .error .EINTR, .ok 1] [])).1 := by
  intro op
  have h := (retries_transparent .macos op
    (.scripted [.error .EAGAIN, .error .EINTR, .ok 1] []) (by decide)).1 fun _ _ _ _ => rfl
  have hfst := congrArg Prod.fst h
  exact hfst

/-- A peer that closes while a send is blocked: `setsockopt` refuses the retry, which makes
no call, where the blocking form sends. -/
theorem retries_transparent_refused :
    let w : World := { World.scripted [.error .EAGAIN, .ok 1] [] with
      nosigpipe := fun _ j => if j = 0 then none else some ⟨.EINVAL, by decide⟩ }
    let op : Operation Nat := .streamSendFds [1] []
    some .EAGAIN ∉ w.fcntls ∧
      ((op.run .macos .tokio).run w).1 = .err (.os .EPIPE) ∧
      (((op.run .macos .tokio).run w).2.without .EAGAIN).trace.length = 0 ∧
      ((op.run .macos .blocking).run (w.without .EAGAIN)).1 = .ok 1 ∧
      ((op.run .macos .blocking).run (w.without .EAGAIN)).2.trace.length = 1 := by
  refine ⟨by decide, ?_, ?_, ?_, ?_⟩ <;> decide +kernel

end UnixAncillary
