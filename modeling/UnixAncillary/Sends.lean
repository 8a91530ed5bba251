import UnixAncillary.Building
import UnixAncillary.Sockets

/-!
# One send

A convenience send is one `sendmsg` call, decided before any system call is made:
`sendFdsVectoredImpl_eq`. `Turn` lists what the kernel may answer to that one call until
it is settled, and `turned_io` says that a send is such a turn under either runtime.
-/

namespace UnixAncillary

open ByteCodec HandleTable Program Program.Prog

variable (t : Target)

/-- The control bytes of a convenience send: none without descriptors, else one canonical
rights message. -/
def controlFor (fds : List RawFd) : Option Bytes :=
  if fds = [] then none
  else some (t.layout.encodeMessage (SocketAncillary.rightsMessage t fds))

/-- The call that a convenience send makes. -/
def sendCallFor (iov : List Bytes) (fds : List RawFd) : SendCall :=
  ⟨t.named iov, controlFor t fds, sendNoSignal t⟩

theorem payload_sendCallFor (iov : List Bytes) (fds : List RawFd) :
    (sendCallFor t iov fds).payload = (t.named iov).flatten := rfl

/-- Prepare the socket and make one call. -/
def sendWith (call : SendCall) : Sys Nat := do
  prepareSend t
  awaitSend call

theorem sendmsgVectored_none (iov : List Bytes) (buf : Bytes) :
    sendmsgVectored t iov buf 0 = sendWith t (sendCallFor t iov []) := rfl

variable {t}

/-- `msg_controllen` holds the space of one message. -/
theorem count_space {n : Nat} (h : n ≤ i32Max) :
    t.msgControllen.count (t.layout.CMSG_SPACE n) = t.layout.CMSG_SPACE n :=
  t.controllen_fits _ ((t.layout.space_lt _ h).trans t.layout.u32Max_le_usizeMax)
    ((t.layout.space_mono h le_rfl).trans (Nat.le_add_right ..))

/-- Control bytes that fit `msg_controllen` are passed whole. -/
theorem msgControl_eq {len : Nat} (buf : Bytes) (h : t.msgControllen.count len = len) :
    msgControl t buf len = if 0 < len then some (buf.take len) else none := by
  rw [msgControl, h]

/-- Storage that is long enough takes the descriptors and holds the control bytes of the
convenience send. -/
theorem run_addFds_fits {fds : List RawFd} (storage : Storage t) (hlen : fds.length * 4 ≤ i32Max)
    (hfit : fds ≠ [] → t.layout.CMSG_SPACE (fds.length * 4) ≤ storage.1.length) :
    ∃ anc, (SocketAncillary.addFds t fds).run (.new storage.1) = (.ok (), anc) ∧
      anc.receiveMode = false ∧ anc.received = [] ∧
      msgControl t anc.buffer anc.length = controlFor t fds := by
  have hstart := Built.new storage
  cases fds with
  | nil => exact ⟨.new storage.1, rfl, rfl, rfl, rfl⟩
  | cons fd rest =>
      have hacc : Add.Accepted t (.new storage.1) (.addFds (fd :: rest)) := by
        refine ⟨rfl, hlen, ?_⟩
        rw [SocketAncillary.new, Nat.zero_add]
        exact hfit (List.cons_ne_nil _ _)
      have hrun := Add.run_eq hstart.usize (.addFds (fd :: rest))
      have hbuilt := hstart.add (.addFds (fd :: rest))
      rw [if_pos hacc] at hrun hbuilt
      rw [hrun] at hbuilt
      simp only [Add.message, Option.elim_some] at hrun hbuilt
      have hlength : (SocketAncillary.append t (.new storage.1)
          (SocketAncillary.rightsMessage t (fd :: rest))).length =
          t.layout.CMSG_SPACE ((fd :: rest).length * 4) := by
        simp only [SocketAncillary.append, SocketAncillary.new, SocketAncillary.rightsMessage,
          SocketAncillary.length_encodeFds, Nat.zero_add]
      have hpos : 0 < t.layout.CMSG_SPACE ((fd :: rest).length * 4) := by
        have hspace := t.layout.space_ge _ hlen
        have hheader := t.layout.headerLen_pos
        omega
      have hbytes := hbuilt.bytes
      refine ⟨_, hrun, hbuilt.receiveMode, hbuilt.received, ?_⟩
      rw [hlength] at hbytes ⊢
      rw [msgControl_eq _ (count_space hlen), if_pos hpos, hbytes, controlFor,
        if_neg (List.cons_ne_nil _ _)]
      simp

theorem withLocal_ok {τ ε' α : Type} {init s : τ} {f : ε' → IoError} {m : Prog τ ε' Panic Syscall α}
    {a : α} (h : m.run init = (.ok a, s)) :
    (withLocal init f m : Sys (α × τ)) = pure (a, s) := by
  simp only [withLocal, h]
  rfl

/-- A convenience send decides its one call before any system call. -/
theorem sendFdsVectoredImpl_eq (iov : List Bytes) {fds : List RawFd}
    (hlen : fds.length * 4 ≤ i32Max) :
    sendFdsVectoredImpl t iov fds = sendWith t (sendCallFor t iov fds) := by
  rw [sendFdsVectoredImpl]
  split
  case isTrue hnil =>
      subst hnil
      exact sendmsgVectored_none t iov []
  case isFalse hne =>
      let storage : Storage t := ⟨List.replicate (t.layout.CMSG_SPACE (fds.length * 4)) 0, by
        rw [List.length_replicate]
        exact (t.layout.space_lt _ hlen).trans t.layout.u32Max_le_usizeMax⟩
      obtain ⟨anc, hrun, -, -, hcontrol⟩ := run_addFds_fits (t := t) storage hlen
        fun _ => by rw [List.length_replicate]
      rw [t.layout.bufferSizeForRights_eq hlen]
      have hlocal := withLocal_ok (f := controlError) hrun
      rw [ofExcept_ok_bind]
      simp only [withControl]
      rw [SocketAncillary.addFds] at hlocal
      rw [hlocal, pure_bind_eq]
      simp only [sendmsgVectored, hcontrol]
      rfl

/-- The check of a stream send, in terms of the descriptors themselves. -/
theorem validateStreamSend_eq (data : Bytes) (fds : List RawFd) :
    (validateStreamSend data fds.length : Sys Unit) =
      if data = [] ∧ fds ≠ [] then Prog.throw streamPayloadError else pure () := by
  simp only [validateStreamSend, ne_eq, List.length_eq_zero_iff]

/-! ## Turns -/

/-- The errors after which a send is attempted again. -/
def Runtime.Retries (rt : Runtime) (e : OsError) : Prop :=
  e = .EINTR ∨ (rt = .tokio ∧ e = .EAGAIN)

/-- How many attempts an error ends that the runtime repeats. -/
def OsError.blocks (e : OsError) : Nat := if e = .EAGAIN then 1 else 0

/-- The answers to one call until it is settled, and how it ends. Every attempt asks
`setsockopt` first; `refuses` tells which ones it refuses, by the number of blocked attempts
so far. A refused attempt makes no call, and a send waits when the answers run out. -/
inductive Turn (rt : Runtime) (call : SendCall) (refuses : Nat → Option OsError) :
    Nat → List (Except OsError Nat) → Outcome IoError Panic Syscall Nat → Prop
  | refused {j : Nat} (e : OsError) (h : refuses j = some e) :
      Turn rt call refuses j [] (.err (.os e))
  | waiting {j : Nat} (hfree : refuses j = none) :
      Turn rt call refuses j [] (.pending (.sendmsg call))
  | accepted {j : Nat} (hfree : refuses j = none) (n : Nat) (h : n ≤ call.payload.length) :
      Turn rt call refuses j [.ok n] (.ok n)
  | failed {j : Nat} (hfree : refuses j = none) (e : OsError) (h : ¬ rt.Retries e) :
      Turn rt call refuses j [.error e] (.err (.os e))
  | retried {j : Nat} (hfree : refuses j = none) (e : OsError) (h : rt.Retries e)
      {answers : List (Except OsError Nat)} {o : Outcome IoError Panic Syscall Nat}
      (rest : Turn rt call refuses (j + e.blocks) answers o) :
      Turn rt call refuses j (.error e :: answers) o

/-- The end `r` of a run from `w` is a turn of `call` with these answers, all recorded and
taken from the script. -/
structure Turned (t : Target) (rt : Runtime) (call : SendCall) (w : World)
    (r : Outcome IoError Panic Syscall Nat × World) (answers : List (Except OsError Nat)) :
    Prop where
  turn : Turn rt call (t.refusal w.nosigpipe w.finished) w.blocked answers r.1
  trace : r.2.trace = w.trace ++ answers.map (.sendmsg call)
  script : ∃ raw, w.sends = raw ++ r.2.sends ∧
    answers = raw.map (Except.map (min · call.payload.length))
  recvs : r.2.recvs = w.recvs
  nosigpipe : r.2.nosigpipe = w.nosigpipe
  refusals : r.2.refusals = w.refusals ∨ ∃ e, r.1 = .err (.os e) ∧ e ≠ .EAGAIN
  drained : ∀ c, r.1 = .pending c → r.2.sends = []

section Turns

variable {rt : Runtime} {call : SendCall} {refuses : Nat → Option OsError} {j : Nat}
  {answers more : List (Except OsError Nat)} {o : Outcome IoError Panic Syscall Nat}
  {w : World}

/-- How a turn can end. -/
theorem Turn.ends (h : Turn rt call refuses j answers o) :
    (∃ n ≤ call.payload.length, o = .ok n) ∨ (∃ e, o = .err (.os e)) ∨
      o = .pending (.sendmsg call) := by
  induction h with
  | refused e he => exact .inr (.inl ⟨e, rfl⟩)
  | waiting hfree => exact .inr (.inr rfl)
  | accepted hfree n hn => exact .inl ⟨n, hn, rfl⟩
  | failed hfree e he => exact .inr (.inl ⟨e, rfl⟩)
  | retried hfree e he rest ih => exact ih

/-- The number of answers that are `WouldBlock`. -/
def blocks (answers : List (Except OsError Nat)) : Nat := answers.countP (failsWith .EAGAIN)

@[simp] theorem blocks_error (e : OsError) (answers : List (Except OsError Nat)) :
    blocks (.error e :: answers) = e.blocks + blocks answers := by
  rw [blocks, List.countP_cons, OsError.blocks, blocks, Nat.add_comm]
  simp [failsWith]

/-- Whether an answer ends an attempt, other than by blocking it. -/
def finishes : Except OsError Nat → Bool
  | .ok _ => true
  | .error e => e ≠ .EINTR ∧ e ≠ .EAGAIN

/-- A blocking turn that ends with `WouldBlock` has used up such an answer, and finished no
attempt. -/
theorem Turn.blocked {e : IoError} (h : Turn .blocking call refuses j answers (.err e))
    (hrefuses : ∀ j e, refuses j = some e → e ≠ .EAGAIN) (he : e.isWouldBlock = true) :
    .error .EAGAIN ∈ answers ∧ answers.countP finishes = 0 := by
  generalize ho : (.err e : Outcome IoError Panic Syscall Nat) = o₁ at h
  induction h with
  | refused e' hsome =>
      cases ho
      exact absurd (isWouldBlock_os.mp he) (hrefuses _ _ hsome)
  | waiting hfree => cases ho
  | accepted hfree n hn => cases ho
  | failed hfree e' h =>
      cases ho
      obtain rfl := isWouldBlock_os.mp he
      exact ⟨List.mem_singleton_self _, by decide⟩
  | retried hfree e' h rest ih =>
      obtain ⟨hmem, hnone⟩ := ih ho
      refine ⟨List.mem_cons_of_mem _ hmem, ?_⟩
      rw [List.countP_cons_of_neg, hnone]
      rcases h with rfl | ⟨-, rfl⟩ <;> decide

/-- A blocking turn that ends with `WouldBlock` goes on under tokio with another attempt. -/
theorem Turn.again {e : IoError} (h : Turn .blocking call refuses j answers (.err e))
    (hrefuses : ∀ j e, refuses j = some e → e ≠ .EAGAIN) (he : e.isWouldBlock = true)
    (hmore : Turn .tokio call refuses (j + blocks answers) more o) :
    Turn .tokio call refuses j (answers ++ more) o := by
  generalize ho : (.err e : Outcome IoError Panic Syscall Nat) = o₁ at h
  induction h with
  | refused e' hsome =>
      cases ho
      exact absurd (isWouldBlock_os.mp he) (hrefuses _ _ hsome)
  | waiting hfree => cases ho
  | accepted hfree n hn => cases ho
  | failed hfree e' h =>
      cases ho
      obtain rfl := isWouldBlock_os.mp he
      exact .retried hfree .EAGAIN (.inr ⟨rfl, rfl⟩) hmore
  | retried hfree e' h rest ih =>
      have hintr : e' = .EINTR := h.resolve_right fun h => by cases h.1
      rw [blocks_error, ← Nat.add_assoc] at hmore
      exact .retried hfree e' (.inl hintr) (ih hmore ho)

/-- Any other blocking turn is a turn under tokio. -/
theorem Turn.settled (h : Turn .blocking call refuses j answers o)
    (hset : ∀ e, o = .err e → e.isWouldBlock = false) : Turn .tokio call refuses j answers o := by
  induction h with
  | refused e hsome => exact .refused e hsome
  | waiting hfree => exact .waiting hfree
  | accepted hfree n hn => exact .accepted hfree n hn
  | failed hfree e h =>
      refine .failed hfree e fun hretry => ?_
      rcases hretry with rfl | ⟨-, rfl⟩
      · exact h (.inl rfl)
      · exact absurd (hset _ rfl) (by decide)
  | retried hfree e h rest ih =>
      refine .retried hfree e ?_ (ih hset)
      rcases h with h | ⟨h, -⟩
      · exact .inl h
      · cases h

/-- A turn that is accepted has one answer that is not retried. -/
theorem Turn.finishes_ok {n : Nat} (h : Turn rt call refuses j answers (.ok n)) :
    answers.countP finishes = 1 := by
  generalize ho : (.ok n : Outcome IoError Panic Syscall Nat) = o₁ at h
  induction h with
  | refused e hsome => cases ho
  | waiting hfree => cases ho
  | accepted hfree n hn => rfl
  | failed hfree e h => cases ho
  | retried hfree e h rest ih =>
      rw [List.countP_cons_of_neg, ih ho]
      rcases h with rfl | ⟨-, rfl⟩ <;> decide

theorem countP_sendmsg (p : Attempt → Bool) (q : Except OsError Nat → Bool)
    (h : ∀ a, p (.sendmsg call a) = q a) :
    (answers.map (Attempt.sendmsg call)).countP p = answers.countP q := by
  rw [List.countP_map]
  exact List.countP_congr fun a _ => by rw [Function.comp_apply, h]

section Ends

variable {r : Outcome IoError Panic Syscall Nat × World}

theorem Turned.blocked (h : Turned t rt call w r answers) :
    r.2.blocked = w.blocked + blocks answers := by
  rw [World.blocked, h.trace, List.countP_append, countP_sendmsg _ (failsWith .EAGAIN)]
  · rfl
  · intro a
    cases a <;> rfl

theorem Turned.finished (h : Turned t rt call w r answers)
    (hrefusals : r.2.refusals = w.refusals) :
    r.2.finished = w.finished + answers.countP finishes := by
  rw [World.finished, h.trace, List.countP_append, countP_sendmsg _ finishes, hrefusals,
    World.finished, Nat.add_assoc]
  intro a
  cases a <;> rfl

/-- After an accepted send the next one is another attempt. -/
theorem Turned.next (h : Turned t rt call w r answers) {n : Nat} (hok : r.1 = .ok n) :
    r.2.finished = w.finished + 1 := by
  have hrefusals : r.2.refusals = w.refusals := by
    refine h.refusals.resolve_right ?_
    rintro ⟨e, he, -⟩
    cases hok.symm.trans he
  have hturn := h.turn
  rw [hok] at hturn
  rw [h.finished hrefusals, hturn.finishes_ok]

end Ends

/-- The loop of one call is a blocking turn. -/
theorem turned_loop (call : SendCall) (script : List (Except OsError Nat)) (hw : w.sends = script)
    (hfree : w.refusal t = none) :
    ∃ answers, Turned t .blocking call w (call.toCall.loop script w) answers := by
  induction script generalizing w with
  | nil =>
      refine ⟨[], .waiting hfree, ?_, ⟨[], rfl, rfl⟩, rfl, rfl, .inl rfl, fun _ _ => hw⟩
      simp [Call.loop]
  | cons a rest ih =>
      cases a with
      | ok n =>
          refine ⟨[.ok (min n call.payload.length)], .accepted hfree _ (Nat.min_le_right ..), rfl,
            ⟨[.ok n], hw, rfl⟩, rfl, rfl, .inl rfl, fun _ h => by cases h⟩
      | error e =>
          rw [Call.loop]
          by_cases hk : e.kind = .interrupted
          · obtain rfl := OsError.kind_eq_interrupted.mp hk
            rw [if_neg (by simp [hk])]
            -- An interrupted call is repeated within its attempt.
            have hfinished : (call.toCall.record w (.error .EINTR) rest).finished = w.finished := by
              simp [World.finished, SendCall.toCall, Attempt.finishedSend]
            have hblocked : (call.toCall.record w (.error .EINTR) rest).blocked = w.blocked := by
              simp [World.blocked, SendCall.toCall, Attempt.blockedSend]
            have hfree' := hfree
            rw [World.refusal, ← hfinished, ← hblocked] at hfree'
            obtain ⟨answers, hturn, htrace, ⟨raw, hraw, hanswers⟩, hrecvs, hnosigpipe, hrefusals,
              hdrained⟩ := ih (w := call.toCall.record w (.error .EINTR) rest) rfl hfree'
            rw [hfinished, hblocked] at hturn
            refine ⟨.error .EINTR :: answers, .retried hfree _ (.inl rfl) hturn, ?_,
              ⟨.error .EINTR :: raw, ?_, ?_⟩, hrecvs, hnosigpipe, hrefusals, hdrained⟩
            · rw [htrace]
              simp [SendCall.toCall]
            · rw [hw, List.cons_append, ← hraw]
              rfl
            · rw [hanswers]
              rfl
          · rw [if_pos hk]
            refine ⟨[.error e], .failed hfree e ?_, rfl, ⟨[.error e], hw, rfl⟩, rfl, rfl,
              .inl rfl, fun _ h => by cases h⟩
            rintro (rfl | ⟨h, -⟩)
            · exact hk rfl
            · cases h

theorem turned_sendWith (call : SendCall) (w : World) :
    ∃ answers, Turned t .blocking call w ((sendWith t call).run w) answers := by
  cases hrefusal : w.refusal t with
  | none =>
      rw [sendWith, bind_ok (prepareSend_ok t hrefusal)]
      exact turned_loop call w.sends rfl hrefusal
  | some e =>
      rw [sendWith, bind_err (prepareSend_err t hrefusal)]
      exact ⟨[], .refused e hrefusal, by simp [World.refuse], ⟨[], rfl, rfl⟩, rfl, rfl,
        .inr ⟨e, rfl, (t.refusal_some hrefusal).2⟩, fun _ h => by cases h⟩

/-- A turn that goes on from the world that an earlier part of it reached. -/
theorem Turned.append {r₁ r : Outcome IoError Panic Syscall Nat × World}
    (hfirst : Turned t .blocking call w r₁ answers) (h : Turned t rt call r₁.2 r more)
    (hrefusals : r₁.2.refusals = w.refusals)
    (hturn : Turn rt call (t.refusal w.nosigpipe w.finished) w.blocked (answers ++ more) r.1) :
    Turned t rt call w r (answers ++ more) := by
  obtain ⟨raw, hraw, hfirst'⟩ := hfirst.script
  obtain ⟨raw', hraw', hmore⟩ := h.script
  refine ⟨hturn, ?_, ⟨raw ++ raw', ?_, ?_⟩, h.recvs.trans hfirst.recvs,
    h.nosigpipe.trans hfirst.nosigpipe, h.refusals.imp_left (·.trans hrefusals), h.drained⟩
  · rw [h.trace, hfirst.trace, List.map_append, List.append_assoc]
  · rw [hraw, hraw', List.append_assoc]
  · rw [hfirst', hmore, List.map_append]

/-- A turn that meets `WouldBlock` leaves fewer such answers. -/
theorem Turned.wouldBlocks_lt {r : Outcome IoError Panic Syscall Nat × World}
    (h : Turned t rt call w r answers) (hmem : .error .EAGAIN ∈ answers) :
    r.2.wouldBlocks < w.wouldBlocks := by
  obtain ⟨raw, hraw, rfl⟩ := h.script
  have hraw' : .error .EAGAIN ∈ raw := by
    obtain ⟨x, hx, he⟩ := List.mem_map.mp hmem
    cases x with
    | ok n => cases he
    | error e =>
        cases he
        exact hx
  have hpos : 0 < raw.countP (failsWith .EAGAIN) :=
    List.countP_pos_iff.mpr ⟨_, hraw', by simp [failsWith]⟩
  rw [World.wouldBlocks, World.wouldBlocks, h.recvs, hraw, List.countP_append]
  omega

/-- A blocked turn leaves fewer `WouldBlock` answers, and goes on under tokio. -/
theorem Turned.again {r₁ : Outcome IoError Panic Syscall Nat × World} {e : IoError}
    (h : Turned t .blocking call w r₁ answers) (he : r₁.1 = .err e) (ha : e.isWouldBlock = true) :
    r₁.2.wouldBlocks < w.wouldBlocks ∧ ∀ r more, Turned t .tokio call r₁.2 r more →
      Turned t .tokio call w r (answers ++ more) := by
  have hturn := h.turn
  rw [he] at hturn
  obtain ⟨hmem, hnone⟩ := hturn.blocked (fun _ _ h => (t.refusal_some h).2) ha
  have hrefusals : r₁.2.refusals = w.refusals := by
    refine h.refusals.resolve_right ?_
    rintro ⟨e', he', hne⟩
    cases he.symm.trans he'
    exact hne (isWouldBlock_os.mp ha)
  have hfinished : r₁.2.finished = w.finished := by
    rw [h.finished hrefusals, hnone, Nat.add_zero]
  refine ⟨h.wouldBlocks_lt hmem, fun r more hmore => h.append hmore hrefusals ?_⟩
  refine hturn.again (fun _ _ h => (t.refusal_some h).2) ha ?_
  have hmoreTurn := hmore.turn
  rwa [h.nosigpipe, hfinished, h.blocked] at hmoreTurn

/-- Any other turn is one under tokio. -/
theorem Turned.settled {r : Outcome IoError Panic Syscall Nat × World}
    (h : Turned t .blocking call w r answers) (hset : ∀ e, r.1 = .err e → e.isWouldBlock = false) :
    Turned t .tokio call w r answers :=
  ⟨h.turn.settled hset, h.trace, h.script, h.recvs, h.nosigpipe, h.refusals, h.drained⟩

/-- A send is a turn of its call under either runtime. -/
theorem turned_io (rt : Runtime) (call : SendCall) (w : World) :
    ∃ answers, Turned t rt call w ((rt.io (sendWith t call)).run w) answers := by
  cases rt with
  | blocking => exact turned_sendWith call w
  | tokio =>
      simp only [Runtime.io, asyncIo]
      have hall : ∀ n w, w.wouldBlocks ≤ n → ∃ answers, Turned t .tokio call w
          (((sendWith t call).retry IoError.isWouldBlock .readiness n).run w) answers := by
        intro n w
        refine retry_induction (P := fun n w r => w.wouldBlocks ≤ n →
          ∃ answers, Turned t .tokio call w r answers) ?_ ?_ ?_ n w
        · intro _ w hset _
          obtain ⟨answers, h⟩ := turned_sendWith (t := t) call w
          exact ⟨answers, h.settled hset⟩
        · intro w e he ha hle
          obtain ⟨answers, h⟩ := turned_sendWith (t := t) call w
          have hlt := (h.again he ha).1
          omega
        · intro n w e r he ha hnext hle
          obtain ⟨answers, h⟩ := turned_sendWith (t := t) call w
          obtain ⟨hlt, hgo⟩ := h.again he ha
          obtain ⟨more, hmore⟩ := hnext (by omega)
          exact ⟨answers ++ more, hgo r more hmore⟩
      exact hall _ w le_rfl

end Turns

end UnixAncillary
