import UnixAncillary.Lib.Channel
import UnixAncillary.Readings
import UnixAncillary.SingleSends

/-!
# A socket that several processes write to

Any number of processes send datagrams to a socket, and any number of receivers read it with
`cmsg_recvmsg` and `cmsg_recvmsg_peek`, each through a `SocketAncillary` that it keeps using.
While `SO_PASSCRED` is on, a datagram comes with the credentials of its sender, or with those
that the sender gave to `add_credentials` and the kernel let it claim. `readings_attributed`
says that every receive reports the datagram at the front, with these credentials and all of
its descriptors.
-/

namespace UnixAncillary

open ByteCodec HandleTable Program Program.Prog Fifo

/-! ## Credentials -/

/-- What `getpid`, `getuid` and `getgid` return. -/
structure Identity where
  pid : Int32
  uid : UInt32
  gid : UInt32

/-- The values that a process may always send without privileges. -/
def ScmCredentials.forThisProcess (ids : Identity) : ScmCredentials := ⟨ids.pid, ids.uid, ids.gid⟩

/-- The `SO_PASSCRED` option of a socket, and the errors of the coming calls on it, which
succeed once they are used up. -/
structure Passcred where
  value : Int32
  errors : List (Option OsError)

namespace Passcred

def on (s : Passcred) : Bool := s.value ≠ 0

/-- The result of one `setsockopt` or `getsockopt` call. -/
def sockopt : Prog Passcred IoError Panic Syscall Unit :=
  ⟨fun s => match s.errors with
    | [] => (.ok (), s)
    | none :: rest => (.ok (), { s with errors := rest })
    | some error :: rest => (.err (.os error), { s with errors := rest })⟩

/-- Turn `SO_PASSCRED` on or off. -/
def setPasscred (on : Bool) : Prog Passcred IoError Panic Syscall Unit := do
  sockopt
  update fun s => { s with value := if on then 1 else 0 }

/-- Whether `SO_PASSCRED` is on. -/
def passcred : Prog Passcred IoError Panic Syscall Bool := do
  sockopt
  let value ← read (·.value)
  pure (value ≠ 0)

theorem sockopt_cases (s : Passcred) : ∃ errors,
    sockopt.run s = (.ok (), { s with errors := errors }) ∨
      ∃ e, sockopt.run s = (.err (.os e), { s with errors := errors }) := by
  simp only [sockopt]
  split
  · exact ⟨s.errors, .inl rfl⟩
  · exact ⟨_, .inl rfl⟩
  · exact ⟨_, .inr ⟨_, rfl⟩⟩

/-- `set_passcred` sets the option, or fails and leaves it. -/
theorem setPasscred_run (on : Bool) (s : Passcred) :
    let r := (setPasscred on).run s
    (r.1 = .ok () ∧ r.2.on = on) ∨ (∃ e, r.1 = .err (.os e)) ∧ r.2.on = s.on := by
  intro r
  obtain ⟨errors, hok | ⟨e, herr⟩⟩ := sockopt_cases s
  · have hr : r = (.ok (), ⟨if on then 1 else 0, errors⟩) := bind_ok hok
    rw [hr]
    cases on <;> exact .inl ⟨rfl, rfl⟩
  · have hr : r = (.err (.os e), { s with errors := errors }) := bind_err herr
    rw [hr]
    exact .inr ⟨⟨e, rfl⟩, rfl⟩

/-- `passcred` answers with the option, or fails; it changes nothing. -/
theorem passcred_run (s : Passcred) :
    let r := passcred.run s
    (r.1 = .ok s.on ∨ ∃ e, r.1 = .err (.os e)) ∧ r.2.on = s.on := by
  intro r
  obtain ⟨errors, hok | ⟨e, herr⟩⟩ := sockopt_cases s
  · have hr : r = (.ok s.on, { s with errors := errors }) := bind_ok hok
    rw [hr]
    exact ⟨.inl rfl, rfl⟩
  · have hr : r = (.err (.os e), { s with errors := errors }) := bind_err herr
    rw [hr]
    exact ⟨.inr ⟨e, rfl⟩, rfl⟩

end Passcred

/-! ## Senders -/

/-- The credentials of an add. -/
def Add.creds? : Add → Option ScmCredentials
  | .addFds _ => none
  | .addCredentials creds => some creds

/-- The credentials that a call claims. -/
def SendCall.claims (t : Target) (call : SendCall) : List ScmCredentials :=
  (call.messages t).filterMap (·.credentials t)

namespace SingleSend

/-- What a send is asked to hand over: a message, and the credentials of every
`add_credentials`, on the targets that have them. -/
inductive Posts (t : Target) : SingleSend → Message → List ScmCredentials → Prop
  | convenience (op : SingleSend) (m : Message) (h : op.Carries t m)
      (hop : ∀ iov anc, op ≠ .lowlevel iov anc) : Posts t op m []
  | lowlevel (iov : List Bytes) (storage : Storage t) (adds : List Add)
      (hok : ((addAll t adds).run (.new storage.1)).1 = .ok ()) (hnames : t.Names iov)
      (hfits : let length := ((addAll t adds).run (.new storage.1)).2.length
        t.msgControllen.count length = length)
      (hcreds : adds.filterMap Add.creds? ≠ [] → t.hasCredentials = true) :
      Posts t (lowlevel iov ((addAll t adds).run (.new storage.1)).2)
        ⟨iov.flatten, adds.flatMap Add.fds⟩ (adds.filterMap Add.creds?)

variable {t : Target} {op : SingleSend} {m : Message} {claims : List ScmCredentials}

theorem credentials_message {add : Add} (h : add.creds? ≠ none → t.hasCredentials = true) :
    (add.message t).bind (·.credentials t) = add.creds? := by
  have hne := t.rights_ne_credentials
  match add with
  | .addFds [] => rfl
  | .addFds (fd :: fds) =>
      simp [Add.message, Add.creds?, RawMessage.credentials, SocketAncillary.rightsMessage, hne]
  | .addCredentials creds =>
      simp [Add.message, Add.creds?, RawMessage.credentials, SocketAncillary.credentialsMessage,
        h (Option.some_ne_none creds)]

/-- Every send is one call, with the message and the credentials that it is asked to hand
over. -/
theorem Posts.run_eq (h : op.Posts t m claims) : ∃ call : SendCall, call.datagram t = m ∧
    call.claims t = claims ∧ ∀ rt, op.run t rt = (op.runtime rt).io (sendWith t call) := by
  cases h with
  | convenience _ _ h hop =>
      have hlen : m.fds.length * 4 ≤ i32Max := by
        cases h with
        | lowlevel iov storage adds hok => exact absurd rfl (hop iov _)
        | _ => assumption
      obtain ⟨call, hdatagram, hrun, ⟨iov, anc, hlow⟩ | hcall⟩ := h.run_eq
      · exact absurd hlow (hop iov anc)
      · refine ⟨call, hdatagram, ?_, hrun⟩
        have hne := t.rights_ne_credentials
        rw [SendCall.claims, hcall, messages_sendCallFor _ hlen]
        split
        · rfl
        · simp [RawMessage.credentials, SocketAncillary.rightsMessage, hne]
  | lowlevel iov storage adds hok hnames hfits hcreds =>
      have hbuilt := (Built.new storage).addAll hok
      rw [List.nil_append] at hbuilt
      refine ⟨_, ?_, ?_, fun rt => hbuilt.cmsgSendmsg_eq hfits iov⟩
      · rw [SendCall.datagram, attached_control _ hbuilt, t.named_eq hnames]
        rfl
      · rw [SendCall.claims, messages_control _ hbuilt, List.filterMap_filterMap]
        apply List.filterMap_congr
        intro add hadd
        refine credentials_message fun hsome => hcreds ?_
        obtain ⟨creds, hcreds⟩ := Option.ne_none_iff_exists'.mp hsome
        exact List.ne_nil_of_mem (List.mem_filterMap.mpr ⟨add, hadd, hcreds⟩)

/-- The call that a send waits in. -/
theorem Posts.pending (h : op.Posts t m claims) {rt : Runtime} {w : World} {call : SendCall}
    (hcall : ((op.run t rt).run w).1 = .pending (.sendmsg call)) :
    call.datagram t = m ∧ call.claims t = claims := by
  obtain ⟨call', hdatagram, hclaims, hrun⟩ := h.run_eq
  obtain ⟨answers, hturned⟩ := turned_io (t := t) (op.runtime rt) call' w
  have hturn := hturned.turn
  rw [← hrun rt, hcall] at hturn
  obtain ⟨hsame, -⟩ := hturn.waiting_cases
  cases hsame
  exact ⟨hdatagram, hclaims⟩

end SingleSend

/-! ## The parties -/

/-- A datagram in the queue: the message, the credentials that its sender claimed, and whether
`SO_PASSCRED` was on when it was sent. -/
structure Letter where
  message : Message
  claims : List ScmCredentials
  passcred : Bool

/-- What the kernel knows: who the senders are, what a process may claim, which its own
identity always is, and what it reports of a sender that it noted nothing about. -/
structure Kernel (σ : Type) where
  identity : σ → Identity
  mayClaim : Identity → ScmCredentials → Prop
  own : ∀ ids, mayClaim ids (.forThisProcess ids)
  nobody : ScmCredentials

section Letters

variable {σ : Type} (kernel : Kernel σ)

/-- What the kernel noted about the sender of a letter: the last claim, or who it is where the
option was on. -/
def Letter.creds (i : σ) (l : Letter) : ScmCredentials :=
  l.claims.getLast?.getD
    (if l.passcred then .forThisProcess (kernel.identity i) else kernel.nobody)

/-- The credentials of a letter are some that its sender may claim, unless the kernel noted
nothing. -/
theorem Letter.creds_genuine {i : σ} {l : Letter}
    (h : ∀ creds ∈ l.claims, kernel.mayClaim (kernel.identity i) creds) :
    kernel.mayClaim (kernel.identity i) (l.creds kernel i) ∨
      l.creds kernel i = kernel.nobody ∧ l.passcred = false := by
  rw [Letter.creds]
  cases hlast : l.claims.getLast? with
  | some creds => exact .inl (h creds (List.mem_of_getLast? hlast))
  | none =>
      cases hpass : l.passcred with
      | true => exact .inl (kernel.own _)
      | false => exact .inr ⟨rfl, rfl⟩

end Letters

/-- A completed receive in the record: the sender and the letter that it read, and whether
`SO_PASSCRED` was on. -/
structure Entry (σ : Type) where
  sender : σ
  letter : Letter
  passcred : Bool
  reading : Reading

namespace Entry

variable {σ : Type}

def takes (e : Entry σ) : Bool := !e.reading.peek

def read (e : Entry σ) : List (σ × Letter) := [(e.sender, e.letter)]

/-- A receive read its letter: it reports the message with all that came with it, and its
credentials are some that the sender may claim, unless the kernel noted nothing. -/
structure Attributed (t : Target) (kernel : Kernel σ) (e : Entry σ) : Prop where
  message : e.reading.message = e.letter.message
  creds : e.reading.creds = if e.passcred then some (e.letter.creds kernel e.sender) else none
  genuine : ∀ creds, e.reading.creds = some creds →
    kernel.mayClaim (kernel.identity e.sender) creds ∨
      creds = kernel.nobody ∧ e.letter.passcred = false
  faithful : e.reading.Faithful t

end Entry

/-- What a receive makes of the letter `p` at the front. -/
def Reader.entry {σ : Type} (t : Target) (kernel : Kernel σ) (passcred : Bool) (c : Reader)
    (p : σ × Letter) (d : Delivery) : Entry σ :=
  let creds := if passcred then some (p.2.creds kernel p.1) else none
  ⟨p.1, p.2, passcred, c.finish t p.2.message creds d⟩

/-- The senders' record, the queue, the option of the socket, and the receivers with the
buffers that they keep using. -/
structure Inbox (σ ρ : Type) where
  channel : Channel σ Letter
  posted : σ → List Letter
  option : Passcred
  buffers : ρ → SocketAncillary
  log : List (Entry σ)

namespace Inbox

variable {σ ρ : Type} [DecidableEq σ] [DecidableEq ρ]

/-- Nothing is sent yet, `SO_PASSCRED` is off, and the receivers have any buffers. -/
def start (buffers : ρ → SocketAncillary) : Inbox σ ρ :=
  ⟨.empty, fun _ => [], ⟨0, []⟩, buffers, []⟩

/-- One step of the receiver's owner, a sender, a receiver or the kernel, which rejects a send
with claims that its sender may not make. Only Linux has the option, and peeks. -/
inductive Step (t : Target) (kernel : Kernel σ) : Inbox σ ρ → Inbox σ ρ → Prop
  | setPasscred (s : Inbox σ ρ) (on : Bool) (errors : List (Option OsError))
      (hlinux : t.hasCredentials = true) :
      Step t kernel s { s with
        option := ((Passcred.setPasscred on).run { s.option with errors := errors }).2 }
  | sendmsg (s : Inbox σ ρ) (i : σ) (op : SingleSend) (rt : Runtime) (m : Message)
      (claims : List ScmCredentials) (w : World) (call : SendCall)
      (hposts : op.Posts t m claims)
      (hcall : ((op.run t rt).run w).1 = .pending (.sendmsg call))
      (hallowed : ∀ creds ∈ call.claims t, kernel.mayClaim (kernel.identity i) creds) :
      Step t kernel s { s with
        channel := s.channel.put i [⟨call.datagram t, call.claims t, s.option.on⟩]
        posted := Function.update s.posted i (s.posted i ++ [⟨m, claims, s.option.on⟩]) }
  | call (s : Inbox σ ρ) (j : ρ) (c : BufferCall) (w : World)
      (hc : ∀ peek iov, c ≠ .receive peek iov) :
      Step t kernel s { s with
        buffers := Function.update s.buffers j (c.exec t (s.buffers j, w)).2.1 }
  | recvmsg (s : Inbox σ ρ) (j : ρ) (c : Reader) (p : σ × Letter) (rest : List (σ × Letter))
      (d : Delivery) (hanc : c.anc = s.buffers j)
      (hpeek : c.peek = true → t.hasCredentials = true) (hqueue : s.channel.queue = p :: rest)
      (hkernel : Presents t (c.call t) p.2.message
        (c.entry t kernel s.option.on p d).reading.creds d) :
      Step t kernel s { s with
        channel := if c.peek then s.channel else s.channel.take [p] rest
        buffers := Function.update s.buffers j (c.entry t kernel s.option.on p d).reading.anc
        log := s.log ++ [c.entry t kernel s.option.on p d] }
  | recvFails (s : Inbox σ ρ) (j : ρ) (c : Reader) (e : OsError) (hanc : c.anc = s.buffers j)
      (he : e ≠ .EINTR) :
      Step t kernel s { s with
        buffers := Function.update s.buffers j (c.run t [.error e]).2.1 }

/-- What every step keeps. -/
structure Inv (t : Target) (kernel : Kernel σ) (s : Inbox σ ρ) : Prop where
  conserves : s.channel.Conserves
  taken : s.channel.taken = takenBy Entry.takes Entry.read s.log
  inOrder : InOrder Entry.takes Entry.read s.channel.accepted s.log
  posted : ∀ i, sentBy i s.channel.accepted = s.posted i
  linux : s.option.on = true → t.hasCredentials = true
  claims : ∀ p ∈ s.channel.accepted, ∀ creds ∈ p.2.claims,
    kernel.mayClaim (kernel.identity p.1) creds
  attributed : ∀ e ∈ s.log, e.Attributed t kernel

section Runs

variable {t : Target} {kernel : Kernel σ} {s s' : Inbox σ ρ}

omit [DecidableEq ρ] in
theorem Inv.start (buffers : ρ → SocketAncillary) :
    Inv t kernel (Inbox.start buffers : Inbox σ ρ) := by
  constructor
  · exact Channel.conserves_empty
  · rfl
  · exact inOrder_nil _ _ _
  · exact fun i => rfl
  · exact fun h => by cases h
  · exact fun p hp => by cases hp
  · exact fun e he => by cases he

omit [DecidableEq ρ] in
/-- A receive or peek of the letter at the front is attributed to its sender. -/
theorem Inv.attributes (h : Inv t kernel s) {c : Reader} {p : σ × Letter}
    {rest : List (σ × Letter)} {d : Delivery} (hqueue : s.channel.queue = p :: rest)
    (hkernel : Presents t (c.call t) p.2.message
      (c.entry t kernel s.option.on p d).reading.creds d) :
    (c.entry t kernel s.option.on p d).Attributed t kernel := by
  let e := c.entry t kernel s.option.on p d
  have hcreds : e.reading.creds ≠ none → t.hasCredentials = true := by
    intro hsome
    apply h.linux
    by_contra hoff
    exact hsome (if_neg hoff)
  have hfaithful : e.reading.Faithful t := Reader.finish_faithful hkernel hcreds
  have hgenuine : ∀ creds, e.reading.creds = some creds →
      kernel.mayClaim (kernel.identity p.1) creds ∨
        creds = kernel.nobody ∧ p.2.passcred = false := by
    intro creds hsome
    obtain ⟨-, hcreds⟩ := Option.ite_none_right_eq_some.mp hsome
    cases hcreds
    have hmem : p ∈ s.channel.accepted := h.conserves.mem (by simp [hqueue])
    exact p.2.creds_genuine kernel (h.claims p hmem)
  exact ⟨rfl, rfl, hgenuine, hfaithful⟩

/-- Every step keeps the invariant. -/
theorem Inv.step (h : Inv t kernel s) (hstep : Step t kernel s s') :
    Inv t kernel s' := by
  cases hstep with
  | setPasscred on errors hlinux => exact { h with linux := fun _ => hlinux }
  | sendmsg i op rt m claims w call hposts hcall hallowed =>
      obtain ⟨hdatagram, hclaims⟩ := hposts.pending hcall
      refine { h with
        conserves := h.conserves.put i _
        inOrder := h.inOrder.put _
        posted := fun j => ?_
        claims := List.forall_mem_append.mpr ⟨h.claims, List.forall_mem_singleton.mpr hallowed⟩ }
      simp only [sentBy_put, update_append_eq, h.posted j, hdatagram, hclaims]
  | call j c w hc => exact { h with }
  | recvmsg j c p rest d hanc hpeek hqueue hkernel =>
      let e := c.entry t kernel s.option.on p d
      have hnext : takenBy Entry.takes Entry.read s.log ++ e.read <+: s.channel.accepted := by
        rw [← h.taken, ← h.conserves, hqueue]
        exact (List.prefix_append_right_inj _).mpr (List.prefix_append [p] rest)
      have hattributed : ∀ e' ∈ s.log ++ [e], e'.Attributed t kernel :=
        List.forall_mem_append.mpr
          ⟨h.attributed, List.forall_mem_singleton.mpr (h.attributes hqueue hkernel)⟩
      have htakes : e.takes = !c.peek := rfl
      have haccepted : (if c.peek then s.channel else s.channel.take [p] rest).accepted =
          s.channel.accepted := by
        cases c.peek <;> rfl
      constructor
      · cases c.peek
        · exact h.conserves.take hqueue
        · exact h.conserves
      · rw [takenBy_append, htakes, ← h.taken]
        cases c.peek
        · rfl
        · exact (List.append_nil _).symm
      · rw [haccepted]
        exact h.inOrder.read hnext
      · rw [haccepted]
        exact h.posted
      · exact h.linux
      · rw [haccepted]
        exact h.claims
      · exact hattributed
  | recvFails j c e hanc he => exact { h with }

theorem inv_of_steps {buffers : ρ → SocketAncillary}
    (h : Relation.ReflTransGen (Step t kernel) (start buffers) s) :
    Inv t kernel s := by
  induction h with
  | refl => exact .start buffers
  | tail _ hstep ih => exact ih.step hstep

end Runs

/-- Every receive reads the letter at the front. In every state that the parties reach, what
is queued is what was sent and not taken, sender by sender what the sends were asked to hand
over; a receive or peek read the letter behind those that earlier receives took, reported its
payload, and left exactly its descriptors and credentials that its sender may claim in the
buffer, unless the storage was too small or close-on-exec failed. -/
theorem readings_attributed (t : Target) (kernel : Kernel σ) (buffers : ρ → SocketAncillary)
    {s : Inbox σ ρ}
    (h : Relation.ReflTransGen (Step t kernel) (start buffers) s) :
    InOrder Entry.takes Entry.read s.channel.accepted s.log ∧
    takenBy Entry.takes Entry.read s.log ++ s.channel.queue = s.channel.accepted ∧
    (∀ i, sentBy i s.channel.accepted = s.posted i) ∧
    ∀ e ∈ s.log, e.Attributed t kernel := by
  have hinv := inv_of_steps h
  refine ⟨hinv.inOrder, ?_, hinv.posted, hinv.attributed⟩
  rw [← hinv.taken]
  exact hinv.conserves

/-- A peek and a receive of one datagram, into one buffer. -/
theorem readings_attributed_peek :
    let kernel : Kernel Unit := ⟨fun _ => ⟨10, 1000, 1000⟩,
      fun ids creds => creds = .forThisProcess ids, fun _ => rfl, ⟨0, 65534, 65534⟩⟩
    let creds : ScmCredentials := ⟨10, 1000, 1000⟩
    let p : Unit × Letter := ((), ⟨⟨[104], [5]⟩, [], true⟩)
    let delivery (fd : RawFd) : Delivery := ⟨[104],
      (batchMessages .linux64 [fd] (.before creds)).flatMap Target.linux64.layout.encodeMessage,
      false, false, [fd]⟩
    let reader (peek : Bool) (anc : SocketAncillary) : Reader :=
      ⟨anc, peek, [[0, 0]], .scripted [] [], 1⟩
    let fresh : SocketAncillary := .new (List.replicate 64 0xff)
    let peeked := (reader true fresh).entry .linux64 kernel true p (delivery 7)
    let taken := (reader false peeked.reading.anc).entry .linux64 kernel true p
      (delivery 8)
    peeked.Attributed .linux64 kernel ∧ taken.Attributed .linux64 kernel ∧
      peeked.reading.anc.received = [.credentials creds, .rights [7]] ∧
      taken.reading.anc.received = [.credentials creds, .rights [8]] := by
  intro kernel creds p delivery reader fresh peeked taken
  let call : SendCall := sendCallFor .linux64 [[104]] [5]
  let s₀ : Inbox Unit Unit := start fun _ => fresh
  let s₁ : Inbox Unit Unit := { s₀ with option := ⟨1, []⟩ }
  let s₂ : Inbox Unit Unit := { s₁ with
    channel := s₁.channel.put () [⟨call.datagram .linux64, call.claims .linux64, true⟩]
    posted := Function.update s₁.posted () (s₁.posted () ++ [p.2]) }
  let s₃ : Inbox Unit Unit := { s₂ with
    buffers := Function.update s₂.buffers () peeked.reading.anc
    log := [peeked] }
  have hdatagram : call.datagram .linux64 = p.2.message := datagram_singleton _ (by decide)
  have hclaims : call.claims .linux64 = p.2.claims := by decide +kernel
  have hqueue : s₂.channel.queue = [p] := by
    show [((), (⟨call.datagram .linux64, call.claims .linux64, true⟩ : Letter))] = [p]
    rw [hdatagram, hclaims]
  have hpeek : Presents .linux64 ⟨[2], 64, true, true⟩ p.2.message (some creds) (delivery 7) :=
    ⟨rfl, rfl, by decide +kernel, .before creds, rfl, fun _ => ⟨rfl, by simp [delivery],
      [.canonical _ (SocketAncillary.credentialsMessage .linux64 creds) (by decide),
        .canonical _ (SocketAncillary.rightsMessage .linux64 [7]) (by decide)],
      by decide +kernel, by decide +kernel, fun h => by cases h⟩⟩
  have hrecv : Presents .linux64 ⟨[2], 64, true, false⟩ p.2.message (some creds) (delivery 8) :=
    ⟨rfl, rfl, by decide +kernel, .before creds, rfl, fun _ => ⟨rfl, by simp [delivery],
      [.canonical _ (SocketAncillary.credentialsMessage .linux64 creds) (by decide),
        .canonical _ (SocketAncillary.rightsMessage .linux64 [8]) (by decide)],
      by decide +kernel, by decide +kernel, fun h => by cases h⟩⟩
  have hcall : (reader true fresh).call .linux64 = ⟨[2], 64, true, true⟩ := by decide +kernel
  have hcall' : (reader false peeked.reading.anc).call .linux64 = ⟨[2], 64, true, false⟩ := by
    decide +kernel
  have hoption : Step .linux64 kernel s₀ s₁ := .setPasscred s₀ true [] rfl
  have hsent : Step .linux64 kernel s₁ s₂ :=
    .sendmsg s₁ () (.datagramFds [104] [5]) .blocking p.2.message [] (.scripted [] []) call
      (.convenience _ _ (.datagramFds [104] [5] (by decide)) (fun _ _ h => by cases h))
      (by decide +kernel) (by simp [hclaims, p])
  have hpeeked : Step .linux64 kernel s₂ s₃ :=
    .recvmsg s₂ () (reader true fresh) p [] (delivery 7) rfl (fun _ => rfl) hqueue
      (by rw [hcall]; exact hpeek)
  have htaken : Step .linux64 kernel s₃ { s₃ with
      channel := s₃.channel.take [p] []
      buffers := Function.update s₃.buffers () taken.reading.anc
      log := [peeked, taken] } :=
    .recvmsg s₃ () (reader false peeked.reading.anc) p [] (delivery 8) rfl (fun h => by cases h)
      hqueue (by rw [hcall']; exact hrecv)
  have hsteps := (((Relation.ReflTransGen.single hoption).tail hsent).tail hpeeked).tail htaken
  have hall := (readings_attributed .linux64 kernel (fun _ => fresh) hsteps).2.2.2
  exact ⟨hall peeked (by simp), hall taken (by simp), by decide +kernel,
    by decide +kernel⟩

end Inbox

end UnixAncillary
