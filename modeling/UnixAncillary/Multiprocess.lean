import UnixAncillary.Streams

/-!
# The parent and child example

A parent sends a file that it has opened for reading to a child process, and waits for an
acknowledgment. `handshake_agrees` says what a parent that succeeds knows: the child holds a
descriptor of that file, has read it, and found that writes are denied.
-/

namespace UnixAncillary

open ByteCodec HandleTable Program Program.Prog Fifo Marked

namespace Multiprocess

/-! ## The two programs -/

def CONTENTS : String := "read through a descriptor from the parent\n"

def invalidMarkerError : IoError := .custom .invalidData "invalid file marker"

def invalidCapabilityError : IoError := .custom .invalidData "invalid read-only capability"

def invalidAcknowledgmentError : IoError := .custom .invalidData "invalid acknowledgment"

/-- An open file: what `read_to_string` returns, and whether `write_all` succeeds. -/
structure File where
  readToString : Except IoError String
  writable : Bool

/-- What the child does with what it received, before it acknowledges. -/
def check (files : RawFd → File) (handed : Handed) : Outcome IoError Panic Syscall RawFd :=
  if handed.bytes.length ≠ 1 ∨ overwrite [0] 0 handed.bytes ≠ [70] then .err invalidMarkerError
  else
    match handed.fds.getLast? with
    | none => .panic (.expectFailed "exact receive returned one fd")
    | some fd =>
        match (files fd).readToString with
        | .error e => .err e
        | .ok contents =>
            if contents ≠ CONTENTS ∨ (files fd).writable then .err invalidCapabilityError
            else .ok fd

/-- What the parent makes of the acknowledgment. -/
def checkAck (ack : UInt8) : Except IoError Unit :=
  if ack ≠ 89 then .error invalidAcknowledgmentError else .ok ()

/-- What the parent sends: a marker, and the file. -/
def marker (readOnly : RawFd) : Message := ⟨[70], [readOnly]⟩

/-- What the child asks for: one byte and one descriptor. -/
def request : Reception := .streamFdsExactInto 1 [0]

/-! ## The two processes -/

/-- The parent sends the file, then waits for the acknowledgment. -/
inductive Parent where
  | sending
  | waiting
  | finished (result : Except IoError Unit)

/-- The child receives the file and checks it, then acknowledges. -/
inductive Child where
  | receiving
  | checked (file : RawFd)
  | finished (result : Outcome IoError Panic Syscall RawFd)
  | killed

def Child.after : Outcome IoError Panic Syscall RawFd → Child
  | .ok file => .checked file
  | result => .finished result

/-- Both processes, the stream from the parent to the child, and the acknowledgments that are
queued for the parent. -/
structure Handshake where
  streams : Streams Unit Unit
  acks : Bytes
  parent : Parent
  child : Child

/-- The files of the child after a receive: those of the parent under the installed numbers,
and its own. -/
def fileOf (files own : RawFd → File) (r : Receipt) (fd : RawFd) : File :=
  ((r.installed.zip r.message.fds).lookup fd).elim (own fd) files

namespace Handshake

/-- The first call of the parent, and that of the child. -/
def sendFile (readOnly : RawFd) (w : World) : Streaming :=
  ⟨.all [70] [readOnly], .blocking, marker readOnly, w, [], 0⟩

def receiveFile (w : World) : Fetching := ⟨request, .blocking, w, []⟩

/-- Both processes are in their first call. -/
def start (readOnly : RawFd) (parent child : World) : Handshake :=
  let s : Streams Unit Unit := Streams.start
  ⟨{ s with
      sending := Function.update s.sending () (some (sendFile readOnly parent))
      receiving := Function.update s.receiving () (some (receiveFile child)) },
    [], .sending, .receiving⟩

/-- One step of the kernel, the parent or the child. A receive, a read or a write may fail in
any way, by a timeout among others; a parent that fails kills the child. -/
inductive Step (t : Target) (files own : RawFd → File) : Handshake → Handshake → Prop
  | transport (s : Handshake) (streams : Streams Unit Unit) (h : Streams.Step t s.streams streams)
      (hsend : streams.sending () ≠ none → s.streams.sending () ≠ none)
      (hreceive : streams.receiving () ≠ none → s.streams.receiving () ≠ none) :
      Step t files own s { s with streams := streams }
  | sent (s : Handshake) (r : Streamed) (n : Nat) (hparent : s.parent = .sending)
      (hsent : s.streams.sent () = [r]) (hok : r.result = .ok n) :
      Step t files own s { s with parent := .waiting }
  | sendFailed (s : Handshake) (r : Streamed) (e : IoError) (hparent : s.parent = .sending)
      (hsent : s.streams.sent () = [r]) (herr : r.result = .err e) :
      Step t files own s { s with parent := .finished (.error e) }
  | acknowledged (s : Handshake) (ack : UInt8) (rest : Bytes) (hparent : s.parent = .waiting)
      (hacks : s.acks = ack :: rest) :
      Step t files own s { s with parent := .finished (checkAck ack), acks := rest }
  | readFailed (s : Handshake) (e : IoError) (hparent : s.parent = .waiting) :
      Step t files own s { s with parent := .finished (.error e) }
  | received (s : Handshake) (front : List (Unit × StreamByte)) (r : Receipt) (handed : Handed)
      (hchild : s.child = .receiving) (hreceipts : s.streams.receipts = [(front, r)])
      (hok : r.result = .ok handed) :
      Step t files own s { s with child := .after (check (fileOf files own r) handed) }
  | receiveFailed (s : Handshake) (e : IoError) (hchild : s.child = .receiving)
      (hover : s.streams.receiving () = none) :
      Step t files own s { s with child := .finished (.err e) }
  | acknowledges (s : Handshake) (file : RawFd) (hchild : s.child = .checked file) :
      Step t files own s { s with child := .finished (.ok file), acks := s.acks ++ [89] }
  | writeFailed (s : Handshake) (file : RawFd) (e : IoError) (hchild : s.child = .checked file) :
      Step t files own s { s with child := .finished (.err e) }
  | kill (s : Handshake) (e : IoError) (hparent : s.parent = .finished (.error e))
      (hchild : ∀ result, s.child ≠ .finished result) :
      Step t files own s { s with child := .killed }

/-- The child has got the parent's file as `file`, and its checks have passed. -/
structure Delivered (files : RawFd → File) (readOnly : RawFd) (s : Streams Unit Unit)
    (file : RawFd) : Prop where
  receipt : ∃ front r, s.receipts = [(front, r)] ∧ r.result = .ok ⟨[70], [file]⟩ ∧
    (r.installed.zip r.message.fds).lookup file = some readOnly
  contents : (files readOnly).readToString = .ok CONTENTS
  denied : (files readOnly).writable = false

/-- The only send carries the marker, and the only receive is the child's request. -/
structure Calls (readOnly : RawFd) (s : Streams Unit Unit) : Prop where
  sending : ∀ c, s.sending () = some c → c.message = marker readOnly ∧ s.sent () = []
  sent : s.sent () = [] ∨ ∃ r, s.sent () = [r] ∧ r.message = marker readOnly
  receiving : ∀ c, s.receiving () = some c → c.op = request ∧ s.receipts = []
  receipts : s.receipts = [] ∨ ∃ front r, s.receipts = [(front, r)] ∧ r.op = request

/-- What every step keeps. -/
structure Inv (t : Target) (files : RawFd → File) (readOnly : RawFd) (s : Handshake) : Prop where
  streams : s.streams.Inv t
  calls : Calls readOnly s.streams
  checked : ∀ file, s.child = .checked file → Delivered files readOnly s.streams file
  finished : ∀ file, s.child = .finished (.ok file) → Delivered files readOnly s.streams file
  no_panic : ∀ p, s.child ≠ .finished (.panic p)
  acks : s.acks ≠ [] → ∃ file, s.child = .finished (.ok file)
  parent : s.parent = .finished (.ok ()) → ∃ file, s.child = .finished (.ok file)

section Runs

variable {t : Target} {files own : RawFd → File} {readOnly : RawFd}

/-! ### The transport -/

/-- The transport makes no other calls, and what was received stays. -/
theorem Calls.step {s s' : Streams Unit Unit} (h : Calls readOnly s) (hstep : Streams.Step t s s')
    (hsend : s'.sending () ≠ none → s.sending () ≠ none)
    (hreceive : s'.receiving () ≠ none → s.receiving () ≠ none) :
    Calls readOnly s' ∧ (s.receipts ≠ [] → s'.receipts = s.receipts) := by
  cases hstep with
  | send i c hidle hcarries hanswers haccepted =>
      exact absurd hidle (hsend (by simp))
  | sendmsg i c call n hrunning hcall hn hfds =>
      obtain ⟨hmessage, hsent⟩ := h.sending c hrunning
      refine ⟨{ h with sending := fun c' hc' => ?_ }, fun _ => rfl⟩
      simp only [Function.update_self] at hc'
      cases hc'
      exact ⟨hmessage, hsent⟩
  | sendFails i c call e hrunning hcall =>
      obtain ⟨hmessage, hsent⟩ := h.sending c hrunning
      refine ⟨{ h with sending := fun c' hc' => ?_ }, fun _ => rfl⟩
      simp only [Function.update_self] at hc'
      cases hc'
      exact ⟨hmessage, hsent⟩
  | sendEnds i c hrunning hended =>
      obtain ⟨hmessage, hsent⟩ := h.sending c hrunning
      refine ⟨{ h with sending := fun c' hc' => ?_, sent := .inr ?_ }, fun _ => rfl⟩
      · simp only [Function.update_self] at hc'
        cases hc'
      · refine ⟨⟨c.op, c.message, c.accepted, (c.run t).1⟩, ?_, hmessage⟩
        simp only [Function.update_self, hsent, List.nil_append]
  | receive j c hidle hvalid hanswers =>
      exact absurd hidle (hreceive (by simp))
  | recvmsg j c call front rest d hrunning hcall hqueue hsingle hkernel =>
      obtain ⟨hop, hnone⟩ := h.receiving c hrunning
      refine ⟨{ h with receiving := fun c' hc' => ?_, receipts := .inr ?_ }, fun hsome =>
        absurd hnone hsome⟩
      · simp only [Function.update_self] at hc'
        cases hc'
      · refine ⟨front, c.finish t (Streams.stretch front) d, ?_, hop⟩
        simp only [hnone, List.nil_append]
  | recvFails j c call e hrunning hcall =>
      obtain ⟨hop, hnone⟩ := h.receiving c hrunning
      refine ⟨{ h with receiving := fun c' hc' => ?_ }, fun _ => rfl⟩
      simp only [Function.update_self] at hc'
      cases hc'
      exact ⟨hop, hnone⟩
  | recvEnds j c hrunning hended =>
      refine ⟨{ h with receiving := fun c' hc' => ?_ }, fun _ => rfl⟩
      simp only [Function.update_self] at hc'
      cases hc'

/-- The parent hands over a prefix of its message. -/
theorem contributed_prefix {s : Streams Unit Unit} (h : Calls readOnly s) :
    s.contributed () <+: (marker readOnly).stream := by
  rw [Streams.contributed]
  rcases h.sent with hsent | ⟨r, hsent, hmessage⟩
  · rw [hsent, List.flatMap_nil, List.nil_append]
    cases hsending : s.sending () with
    | none => exact List.nil_prefix
    | some c =>
        rw [Option.elim_some, Streaming.stream, (h.sending c hsending).1]
        exact List.take_prefix ..
  · have hnone : s.sending () = none := by
      cases hsending : s.sending () with
      | none => rfl
      | some c => simp [(h.sending c hsending).2] at hsent
    rw [hsent, hnone, Option.elim_none, List.append_nil, List.flatMap_singleton,
      Streamed.stream, hmessage]
    exact List.take_prefix ..

/-- The child receives nothing, or the whole message. -/
theorem message_received {s : Streams Unit Unit} (hinv : s.Inv t) (h : Calls readOnly s)
    {front : List (Unit × StreamByte)} {r : Receipt} (hreceipts : s.receipts = [(front, r)]) :
    r.message = ⟨[], []⟩ ∨ r.message = marker readOnly := by
  have hsame : sentBy () s.channel.accepted = s.channel.accepted.map Prod.snd := by
    simp [sentBy]
  have htaken : s.channel.taken = front := by
    rw [hinv.taken, Streams.received, hreceipts, List.flatMap_singleton]
  have hprefix : front.map Prod.snd <+: (marker readOnly).stream := by
    calc
      front.map Prod.snd <+: s.channel.accepted.map Prod.snd := by
        apply List.IsPrefix.map
        rw [← hinv.conserves, htaken]
        exact List.prefix_append ..
      _ = s.contributed () := by rw [← hsame, hinv.accepted ()]
      _ <+: (marker readOnly).stream := contributed_prefix h
  have hmessage := (hinv.whole (front, r) (by simp [hreceipts])).1
  rw [hmessage, Streams.stretch]
  rcases List.prefix_cons_iff.mp hprefix with hnil | ⟨rest, hone, hrest⟩
  · rw [hnil]
    exact .inl rfl
  · rw [hone, List.prefix_nil.mp hrest]
    exact .inr rfl

/-- A receive of the child that succeeds handed over the marker with the parent's file. -/
theorem marker_handed {s : Streams Unit Unit} (hinv : s.Inv t) (h : Calls readOnly s)
    {front : List (Unit × StreamByte)} {r : Receipt} {handed : Handed}
    (hreceipts : s.receipts = [(front, r)]) (hok : r.result = .ok handed) :
    ∃ fd, handed = ⟨[70], [fd]⟩ ∧
      (r.installed.zip r.message.fds).lookup fd = some readOnly := by
  have hop : r.op = request := by
    rcases h.receipts with hnone | ⟨front', r', hsome, hop⟩
    · simp [hreceipts] at hnone
    · cases hreceipts.symm.trans hsome
      exact hop
  obtain ⟨hended, -, hfiles⟩ := (hinv.whole (front, r) (by simp [hreceipts])).2
  rw [Receipt.Ended, hok, hop] at hended
  obtain ⟨⟨-, hadmits⟩, hbytes, hfds, -⟩ := hended
  rw [hop] at hadmits
  have hmessage : r.message = marker readOnly := by
    rcases message_received hinv h hreceipts with hempty | hmarker
    · rw [hempty] at hadmits
      cases hadmits
    · exact hmarker
  have hbytes' : handed.bytes = [70] := by rw [hbytes, hmessage]; rfl
  obtain ⟨fd, rest, hinstalled⟩ : ∃ fd rest, r.installed = fd :: rest := by
    apply List.exists_cons_of_ne_nil
    intro hnil
    simp [Receipt.files, hnil, hmessage, marker] at hfiles
  refine ⟨fd, ?_, by simp [hinstalled, hmessage, marker]⟩
  obtain ⟨bytes, fds⟩ := handed
  simp only [hinstalled] at hfds
  cases hbytes'
  cases hfds
  rfl

/-- The marker with one descriptor never makes the child panic, and passes its checks only
with a file that has the expected contents and cannot be written. -/
theorem check_marker (files : RawFd → File) (fd : RawFd) :
    (∀ p, check files ⟨[70], [fd]⟩ ≠ .panic p) ∧
    ∀ file, check files ⟨[70], [fd]⟩ = .ok file →
      file = fd ∧ (files fd).readToString = .ok CONTENTS ∧ (files fd).writable = false := by
  have hcheck : check files ⟨[70], [fd]⟩ = match (files fd).readToString with
      | .error e => .err e
      | .ok contents =>
          if contents ≠ CONTENTS ∨ (files fd).writable then .err invalidCapabilityError
          else .ok fd := rfl
  rw [hcheck]
  cases hread : (files fd).readToString with
  | error e => exact ⟨fun p h => (by cases h), fun file h => (by cases h)⟩
  | ok contents =>
      simp only
      split
      · exact ⟨fun p h => (by cases h), fun file h => (by cases h)⟩
      case isFalse hpass =>
          rw [not_or, not_not] at hpass
          refine ⟨fun p h => (by cases h), fun file h => ?_⟩
          cases h
          exact ⟨rfl, congrArg Except.ok hpass.1, Bool.eq_false_iff.mpr hpass.2⟩

/-- What the child does with a receipt of the message: it never panics, and if its checks pass
then it has got the file. -/
theorem checked_receipt {s : Streams Unit Unit} (hinv : s.Inv t) (h : Calls readOnly s)
    {front : List (Unit × StreamByte)} {r : Receipt} {handed : Handed}
    (hreceipts : s.receipts = [(front, r)]) (hok : r.result = .ok handed) :
    let result := check (fileOf files own r) handed
    (∀ p, result ≠ .panic p) ∧ ∀ file, result = .ok file → Delivered files readOnly s file := by
  obtain ⟨fd, rfl, hlookup⟩ := marker_handed hinv h hreceipts hok
  have hfile : fileOf files own r fd = files readOnly := by
    rw [fileOf, hlookup, Option.elim_some]
  obtain ⟨hpanic, hpass⟩ := check_marker (fileOf files own r) fd
  refine ⟨hpanic, fun file hresult => ?_⟩
  obtain ⟨rfl, hcontents, hdenied⟩ := hpass file hresult
  rw [hfile] at hcontents hdenied
  exact ⟨⟨front, r, hreceipts, hok, hlookup⟩, hcontents, hdenied⟩

/-- What was delivered stays. -/
theorem Delivered.stays {s s' : Streams Unit Unit} {file : RawFd}
    (h : Delivered files readOnly s file) (hsame : s.receipts ≠ [] → s'.receipts = s.receipts) :
    Delivered files readOnly s' file := by
  obtain ⟨⟨front, r, hreceipts, hrest⟩, hcontents, hdenied⟩ := h
  refine ⟨⟨front, r, ?_, hrest⟩, hcontents, hdenied⟩
  rw [hsame (by simp [hreceipts]), hreceipts]

/-! ### The run -/

theorem Inv.start (wp wc : World) : Inv t files readOnly (start readOnly wp wc) := by
  let s₀ : Streams Unit Unit := Streams.start
  let s₁ := { s₀ with sending := Function.update s₀.sending () (some (sendFile readOnly wp)) }
  have hsend : Streams.Step t s₀ s₁ :=
    .send s₀ () (sendFile readOnly wp) rfl
      ⟨rfl, (by decide : 1 * 4 ≤ i32Max), fun h => by cases h⟩ rfl rfl
  have hreceive : Streams.Step t s₁ (Handshake.start readOnly wp wc).streams :=
    .receive s₁ () (receiveFile wc) rfl
      ⟨rfl, (by decide : 4 * 1 ≤ i32Max), t.names_singleton _, fun h => by cases h⟩ rfl
  constructor
  · exact ((Streams.Inv.start t).step hsend).step hreceive
  · constructor
    · intro c hc
      cases hc
      exact ⟨rfl, rfl⟩
    · exact .inl rfl
    · intro c hc
      cases hc
      exact ⟨rfl, rfl⟩
    · exact .inl rfl
  · exact fun file h => by cases h
  · exact fun file h => by cases h
  · exact fun p h => by cases h
  · exact fun h => absurd rfl h
  · exact fun h => by cases h

/-- Before the child has finished there is no acknowledgment. -/
theorem Inv.silent {s : Handshake} (h : Inv t files readOnly s)
    (hchild : ∀ result, s.child ≠ .finished result) :
    s.acks = [] ∧ s.parent ≠ .finished (.ok ()) := by
  constructor
  · by_contra hacks
    obtain ⟨file, hfile⟩ := h.acks hacks
    exact hchild _ hfile
  · intro hparent
    obtain ⟨file, hfile⟩ := h.parent hparent
    exact hchild _ hfile

/-- A child that has not finished may end without the file. -/
theorem Inv.child_ends {s : Handshake} (h : Inv t files readOnly s)
    (hchild : ∀ result, s.child ≠ .finished result) {child : Child}
    (hfile : ∀ file, child ≠ .checked file ∧ child ≠ .finished (.ok file))
    (hpanic : ∀ p, child ≠ .finished (.panic p)) :
    Inv t files readOnly { s with child := child } := by
  obtain ⟨hacks, hparent⟩ := h.silent hchild
  constructor
  · exact h.streams
  · exact h.calls
  · exact fun file hnext => absurd hnext (hfile file).1
  · exact fun file hnext => absurd hnext (hfile file).2
  · exact hpanic
  · exact fun hsome => absurd hacks hsome
  · exact fun hok => absurd hok hparent

/-- Every step keeps the invariant. -/
theorem Inv.step {s s' : Handshake} (h : Inv t files readOnly s)
    (hstep : Step t files own s s') : Inv t files readOnly s' := by
  cases hstep with
  | transport streams hstep hsend hreceive =>
      obtain ⟨hcalls, hsame⟩ := h.calls.step hstep hsend hreceive
      exact { h with
        streams := h.streams.step hstep
        calls := hcalls
        checked := fun file hchild => (h.checked file hchild).stays hsame
        finished := fun file hchild => (h.finished file hchild).stays hsame }
  | sent r n hparent hsent hok => exact { h with parent := fun h => by cases h }
  | sendFailed r e hparent hsent herr => exact { h with parent := fun h => by cases h }
  | acknowledged ack rest hparent hacks =>
      have hfile := h.acks (by simp [hacks])
      exact { h with acks := fun _ => hfile, parent := fun _ => hfile }
  | readFailed e hparent => exact { h with parent := fun h => by cases h }
  | received front r handed hchild hreceipts hok =>
      obtain ⟨hpanic, hdelivered⟩ :=
        checked_receipt (t := t) h.streams h.calls hreceipts hok
      have hunfinished : ∀ result, s.child ≠ .finished result := fun _ => by simp [hchild]
      generalize check (fileOf files own r) handed = result at hpanic hdelivered
      cases result with
      | ok file =>
          obtain ⟨hacks, hparent⟩ := h.silent hunfinished
          refine ⟨h.streams, h.calls, fun file' hnext => ?_, fun file' hnext => (by cases hnext),
            fun p hnext => (by cases hnext), fun hsome => absurd hacks hsome,
            fun hok => absurd hok hparent⟩
          cases hnext
          exact hdelivered file rfl
      | err e => exact h.child_ends hunfinished (by simp [Child.after]) (by simp [Child.after])
      | panic p => exact absurd rfl (hpanic p)
      | pending c => exact h.child_ends hunfinished (by simp [Child.after]) (by simp [Child.after])
  | receiveFailed e hchild hover =>
      exact h.child_ends (fun _ => by simp [hchild]) (by simp) (by simp)
  | acknowledges file hchild =>
      have hdelivered := h.checked file hchild
      refine ⟨h.streams, h.calls, fun file' hnext => (by cases hnext), fun file' hnext => ?_,
        fun p hnext => (by cases hnext), fun _ => ⟨file, rfl⟩, fun _ => ⟨file, rfl⟩⟩
      cases hnext
      exact hdelivered
  | writeFailed file e hchild =>
      exact h.child_ends (fun _ => by simp [hchild]) (by simp) (by simp)
  | kill e hparent hchild => exact h.child_ends hchild (by simp) (by simp)

theorem inv_of_steps {wp wc : World} {s : Handshake}
    (h : Relation.ReflTransGen (Step t files own) (start readOnly wp wc) s) :
    Inv t files readOnly s := by
  induction h with
  | refl => exact .start wp wc
  | tail _ hstep ih => exact ih.step hstep

end Runs

/-- Parent and child agree. The `expect` of the child never fails. A child whose checks have
passed holds the file that the parent sent, which has the expected contents and cannot be
written. A parent that succeeds has a child that did. -/
theorem handshake_agrees (t : Target) (files own : RawFd → File) (readOnly : RawFd)
    (wp wc : World) {s : Handshake}
    (h : Relation.ReflTransGen (Step t files own) (start readOnly wp wc) s) :
    (∀ p, s.child ≠ .finished (.panic p)) ∧
    (∀ file, s.child = .checked file ∨ s.child = .finished (.ok file) →
      Delivered files readOnly s.streams file) ∧
    (s.parent = .finished (.ok ()) → ∃ file, s.child = .finished (.ok file)) := by
  have hinv := inv_of_steps h
  refine ⟨hinv.no_panic, fun file hchild => ?_, hinv.parent⟩
  rcases hchild with hchecked | hfinished
  · exact hinv.checked file hchecked
  · exact hinv.finished file hfinished

/-- A parent that is interrupted once sends descriptor 5, which the child gets as 7. -/
theorem handshake_agrees_acknowledged :
    let files : RawFd → File := fun fd => ⟨.ok CONTENTS, fd ≠ 5⟩
    let own : RawFd → File := fun _ => ⟨.error (.os (.other 9)), false⟩
    let s₀ : Handshake := start 5 (.scripted [] []) (.scripted [] [])
    ∃ s, Relation.ReflTransGen (Step .linux64 files own) s₀ s ∧ s.parent = .finished (.ok ()) ∧
      s.child = .finished (.ok 7) ∧ Delivered files 5 s.streams 7 := by
  intro files own s₀
  let c : Streaming := sendFile 5 (.scripted [] [])
  let call : SendCall := callAt .linux64 [70] [5] 0
  let d : Delivery := ⟨[70], AlignedLayout.linux64.encodeMessage
    (SocketAncillary.rightsMessage .linux64 [7]), false, false, [7]⟩
  let f : Fetching := receiveFile (.scripted [] [])
  let front : List (Unit × StreamByte) := [((), 70, [5])]
  let streams₁ := { s₀.streams with
    sending := Function.update s₀.streams.sending () (some (c.fail .EINTR)) }
  let streams₂ := { streams₁ with
    channel := streams₁.channel.put () (call.segment .linux64 1)
    sending := Function.update streams₁.sending () (some ((c.fail .EINTR).accept 1)) }
  let sent : Streamed := ⟨.all [70] [5], marker 5, 1,
    (((c.fail .EINTR).accept 1).run .linux64).1⟩
  let streams₃ := { streams₂ with
    sending := Function.update streams₂.sending () none
    sent := Function.update streams₂.sent () (streams₂.sent () ++ [sent]) }
  let r : Receipt := f.finish .linux64 (Streams.stretch front) d
  let streams₄ := { streams₃ with
    channel := streams₃.channel.take front []
    receiving := Function.update streams₃.receiving () none
    receipts := streams₃.receipts ++ [(front, r)] }
  have hkernel : Conveys .linux64 .stream ⟨[1], 1064, true, false⟩ (Streams.stretch front) d :=
    ⟨rfl, fun _ => by decide, fun h => (by cases h), rfl, by decide, by simp [d], .absent,
      [.canonical _ (SocketAncillary.rightsMessage .linux64 [7]) (by decide)], by decide, rfl,
      by decide +kernel, fun h => by cases h⟩
  have hinterrupted : Streams.Step .linux64 s₀.streams streams₁ :=
    .sendFails s₀.streams () c call .EINTR rfl (by decide +kernel)
  have haccepted : Streams.Step .linux64 streams₁ streams₂ :=
    .sendmsg streams₁ () (c.fail .EINTR) call 1 rfl (by decide +kernel) (by decide)
      (by decide +kernel)
  have hok : (((c.fail .EINTR).accept 1).run .linux64).1 = .ok 1 := by decide +kernel
  have hsent : Streams.Step .linux64 streams₂ streams₃ :=
    .sendEnds streams₂ () ((c.fail .EINTR).accept 1) rfl (.inr fun call h => by
      cases hok.symm.trans h)
  have hreceived : Streams.Step .linux64 streams₃ streams₄ :=
    .recvmsg streams₃ () f ⟨[1], 1064, true, false⟩ front [] d rfl (by decide +kernel)
      (by decide +kernel) (by decide) hkernel
  have hresult : r.result = .ok ⟨[70], [7]⟩ := by decide +kernel
  have hcheck : check (fileOf files own r) ⟨[70], [7]⟩ = .ok 7 := by decide +kernel
  let at₁ (parent : Parent) (child : Child) : Handshake := ⟨streams₃, [], parent, child⟩
  let at₂ (acks : Bytes) (child : Child) : Handshake := ⟨streams₄, acks, .waiting, child⟩
  have htransport : Relation.ReflTransGen (Step .linux64 files own) s₀
      (at₁ .sending .receiving) :=
    ((Relation.ReflTransGen.single (.transport s₀ streams₁ hinterrupted (fun _ h => by cases h)
      fun _ h => by cases h)).tail (.transport ⟨streams₁, [], .sending, .receiving⟩ streams₂
        haccepted (fun _ h => by cases h) fun _ h => by cases h)).tail
      (.transport ⟨streams₂, [], .sending, .receiving⟩ streams₃ hsent (fun h => absurd rfl h)
        fun _ h => by cases h)
  have hwaits : Step .linux64 files own (at₁ .sending .receiving) (at₁ .waiting .receiving) :=
    .sent _ sent 1 rfl rfl hok
  have hdelivered : Step .linux64 files own (at₁ .waiting .receiving) (at₂ [] .receiving) :=
    .transport _ streams₄ hreceived (fun h => absurd rfl h) fun h => absurd rfl h
  have hchecked : Step .linux64 files own (at₂ [] .receiving) (at₂ [] (.checked 7)) := by
    have hstep : Step .linux64 files own (at₂ [] .receiving)
        (at₂ [] (.after (check (fileOf files own r) ⟨[70], [7]⟩))) :=
      .received _ front r ⟨[70], [7]⟩ rfl rfl hresult
    rw [hcheck] at hstep
    exact hstep
  have hreplied : Step .linux64 files own (at₂ [] (.checked 7)) (at₂ [89] (.finished (.ok 7))) :=
    .acknowledges _ 7 rfl
  have hsteps := ((((htransport.tail hwaits).tail hdelivered).tail hchecked).tail hreplied).tail
    (.acknowledged _ 89 [] rfl rfl)
  exact ⟨_, hsteps, rfl, rfl,
    (handshake_agrees .linux64 files own 5 _ _ hsteps).2.1 7 (.inr rfl)⟩

end Handshake

end Multiprocess

end UnixAncillary
