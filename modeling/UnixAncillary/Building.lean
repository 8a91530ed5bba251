import UnixAncillary.Ancillary

/-!
# Building a send

`Built` is the invariant of a buffer that is being filled: its first `length` bytes
are the canonical layouts of the messages added so far, whatever the storage held
before. Parsing those bytes the way a receive does gives the added messages back.
-/

namespace UnixAncillary

open ByteCodec Program Program.Prog

/-- A byte slice of the target; its length is a `usize`. -/
abbrev Storage (t : Target) : Type := { bytes : Bytes // bytes.length ≤ t.layout.usizeMax }

/-- A call that adds a message. -/
inductive Add where
  | addFds (fds : List RawFd)
  | addCredentials (creds : ScmCredentials)
  deriving DecidableEq

namespace Add

variable (t : Target)

def run : Add → Building Unit
  | .addFds fds => SocketAncillary.addFds t fds
  | .addCredentials creds => SocketAncillary.addCredentials t creds

/-- The control message of an accepted add; an empty list adds none. -/
def message : Add → Option RawMessage
  | .addFds [] => none
  | .addFds (fd :: fds) => some (SocketAncillary.rightsMessage t (fd :: fds))
  | .addCredentials creds => some (SocketAncillary.credentialsMessage t creds)

/-- The add that a control message stands for, read from its bytes. -/
def content (m : RawMessage) : Add :=
  if m.level = t.SOL_SOCKET ∧ m.kind = t.SCM_RIGHTS then
    .addFds ((chunks4 m.data).map (decodeI32 t.layout.bigEndian))
  else .addCredentials (.fromUcred t.layout.bigEndian m.data)

/-- What a receiver should get for an accepted add. -/
def received : Add → Option ReceivedMessage
  | .addFds [] => none
  | .addFds (fd :: fds) => some (.rights (fd :: fds))
  | .addCredentials creds => some (.credentials creds)

/-- Descriptors are valid numbers, and credentials exist only where the target has
them. -/
def Valid : Add → Prop
  | .addFds fds => ∀ fd ∈ fds, 0 ≤ fd
  | .addCredentials _ => t.hasCredentials = true

instance : DecidablePred (Valid t)
  | .addFds fds => List.decidableBAll (0 ≤ ·) fds
  | .addCredentials _ => inferInstanceAs (Decidable (_ = true))

/-- The buffer accepts the add. -/
def Accepted (anc : SocketAncillary) : Add → Prop
  | .addFds [] => anc.receiveMode = false
  | .addFds (fd :: fds) => SocketAncillary.Fits t anc ((fd :: fds).length * 4)
  | .addCredentials _ => SocketAncillary.Fits t anc ScmCredentials.SIZE

instance (anc : SocketAncillary) : DecidablePred (Accepted t anc)
  | .addFds [] => inferInstanceAs (Decidable (_ = false))
  | .addFds (fd :: fds) =>
      inferInstanceAs (Decidable (SocketAncillary.Fits t anc ((fd :: fds).length * 4)))
  | .addCredentials _ =>
      inferInstanceAs (Decidable (SocketAncillary.Fits t anc ScmCredentials.SIZE))

variable {t} {anc : SocketAncillary}

theorem Accepted.receiveMode {add : Add} (h : Accepted t anc add) : anc.receiveMode = false := by
  match add, h with
  | .addFds [], h => exact h
  | .addFds (_ :: _), h => exact h.1
  | .addCredentials _, h => exact h.1

theorem Accepted.fits {add : Add} {m : RawMessage} (h : Accepted t anc add)
    (hm : add.message t = some m) : SocketAncillary.Fits t anc m.data.length := by
  match add, h, hm with
  | .addFds (fd :: fds), h, hm =>
      rw [← Option.some.inj hm, SocketAncillary.rightsMessage,
        SocketAncillary.length_encodeFds]
      exact h
  | .addCredentials creds, h, hm =>
      rw [← Option.some.inj hm, SocketAncillary.credentialsMessage,
        ScmCredentials.length_toUcred]
      exact h

/-- An add appends its message or, when it is rejected, changes nothing. -/
theorem run_eq (hbuf : anc.buffer.length ≤ t.layout.usizeMax) (add : Add) :
    (add.run t).run anc =
      if Accepted t anc add then
        (.ok (), (add.message t).elim anc (SocketAncillary.append t anc))
      else (.err ⟨⟩, anc) := by
  match add with
  | .addFds fds =>
      rw [run, SocketAncillary.addFds_eq hbuf]
      cases hmode : anc.receiveMode with
      | true =>
          rw [if_pos rfl, if_neg]
          exact fun h => by simp [h.receiveMode] at hmode
      | false =>
          rw [if_neg (by simp)]
          cases fds with
          | nil => simp [Accepted, message, hmode]
          | cons fd fds => rw [if_neg (by simp)]; rfl
  | .addCredentials creds =>
      rw [run, SocketAncillary.addCredentials_eq hbuf]
      rfl

/-- No add touches the received messages. -/
theorem received_run (add : Add) (anc : SocketAncillary) :
    ((add.run t).run anc).2.received = anc.received := by
  let inv (anc' : SocketAncillary) : Prop := anc'.received = anc.received
  have hreserve : ∀ level kind n, Preserves inv (SocketAncillary.reserveCmsg t level kind n) := by
    intro level kind n
    rw [SocketAncillary.reserveCmsg]
    refine .bind (.of_read _) fun anc' => ?_
    split
    · exact .of_throw _
    · refine .bind (.of_ofExcept _) fun _ => .bind (.of_okOr _ _) fun _ =>
        .bind (.of_okOr _ _) fun _ => ?_
      split
      · exact .of_throw _
      · exact .bind (.of_okOr _ _) fun _ => .bind (.of_okOr _ _) fun _ =>
          .bind (.of_update fun _ h => h) fun _ => .bind (.of_ofExcept _) fun _ =>
          .bind (.of_update fun _ h => h) fun _ => .bind (.of_ofExcept _) fun _ => .of_pure _
  have hfill : ∀ offset payload, Preserves inv (SocketAncillary.fill offset payload) :=
    fun _ _ => .of_update fun _ h => h
  have hall : Preserves inv (add.run t) := by
    cases add with
    | addFds fds =>
        refine .bind (.of_read _) fun anc' => ?_
        split
        · exact .of_throw _
        split
        · exact .of_pure _
        · exact .bind (.of_okOr _ _) fun _ => .bind (hreserve _ _ _) fun _ => hfill _ _
    | addCredentials creds => exact .bind (hreserve _ _ _) fun _ => hfill _ _
  exact hall anc rfl

end Add

/-! ## The invariant -/

/-- The buffer holds exactly the canonical layouts of `ms`, in order. -/
structure Built (t : Target) (anc : SocketAncillary) (ms : List RawMessage) : Prop where
  receiveMode : anc.receiveMode = false
  truncated : anc.truncated = false
  received : anc.received = []
  usize : anc.buffer.length ≤ t.layout.usizeMax
  length_le : anc.length ≤ anc.buffer.length
  bytes : anc.buffer.take anc.length = ms.flatMap t.layout.encodeMessage
  payload_le : ∀ m ∈ ms, m.data.length ≤ i32Max

namespace Built

variable {t : Target} {anc : SocketAncillary} {ms : List RawMessage}

theorem new (storage : Storage t) : Built t (.new storage.1) [] where
  receiveMode := rfl
  truncated := rfl
  received := rfl
  usize := storage.2
  length_le := Nat.zero_le _
  bytes := rfl
  payload_le := by simp

/-- An accepted message leaves the storage as long as it was. -/
theorem length_append {m : RawMessage} (hfit : SocketAncillary.Fits t anc m.data.length) :
    (SocketAncillary.append t anc m).buffer.length = anc.buffer.length := by
  obtain ⟨-, hm, hend⟩ := hfit
  have hlen := length_encodeMessage t.layout.toLayout hm
  exact length_overwrite (by omega)

/-- One accepted message. -/
theorem append (h : Built t anc ms) {m : RawMessage}
    (hfit : SocketAncillary.Fits t anc m.data.length) :
    Built t (SocketAncillary.append t anc m) (ms ++ [m]) := by
  have hsame := length_append hfit
  obtain ⟨-, hm, hend⟩ := hfit
  have hlen := length_encodeMessage t.layout.toLayout hm
  refine ⟨h.receiveMode, h.truncated, h.received, ?_, ?_, ?_, ?_⟩
  · rw [hsame]
    exact h.usize
  · rw [hsame]
    exact hend
  · simp only [SocketAncillary.append]
    rw [← hlen, take_overwrite h.length_le, h.bytes, List.flatMap_append,
      List.flatMap_singleton]
  · intro m' hm'
    rcases List.mem_append.mp hm' with hm' | hm'
    · exact h.payload_le m' hm'
    · rw [List.mem_singleton.mp hm']
      exact hm

/-- One add, accepted or not. -/
theorem add (h : Built t anc ms) (add : Add) :
    Built t ((add.run t).run anc).2
      (if Add.Accepted t anc add then ms ++ (add.message t).toList else ms) := by
  rw [Add.run_eq h.usize]
  split
  case isFalse => exact h
  case isTrue hacc =>
      cases hm : add.message t with
      | none => simpa using h
      | some m => exact h.append (hacc.fits hm)

end Built

/-- The calls of a list, one after the other, up to the first that fails. -/
def addAll (t : Target) : List Add → Building Unit
  | [] => pure ()
  | add :: adds => do
      add.run t
      addAll t adds

/-- When every add returned `Ok`, the buffer holds their messages. -/
theorem Built.addAll {t : Target} {anc : SocketAncillary} {ms : List RawMessage}
    (h : Built t anc ms) {adds : List Add} (hok : ((addAll t adds).run anc).1 = .ok ()) :
    Built t ((UnixAncillary.addAll t adds).run anc).2 (ms ++ adds.filterMap (·.message t)) := by
  induction adds generalizing anc ms with
  | nil => simpa [UnixAncillary.addAll] using h
  | cons add adds ih =>
      have hstep := h.add add
      rw [UnixAncillary.addAll] at hok ⊢
      by_cases hacc : Add.Accepted t anc add
      · have hrun := Add.run_eq h.usize add
        rw [if_pos hacc] at hrun hstep
        rw [hrun] at hstep
        rw [bind_ok hrun] at hok ⊢
        have htail := ih hstep hok
        rw [List.append_assoc] at htail
        cases hm : add.message t with
        | none => simpa [List.filterMap_cons, hm] using htail
        | some m => simpa [List.filterMap_cons, hm] using htail
      · have hrun := Add.run_eq h.usize add
        rw [if_neg hacc] at hrun
        rw [bind_err hrun] at hok
        cases hok

/-! ## Decoding -/

section Decoding

variable (t : Target)

theorem chunks4_encodeFds (fds : List RawFd) :
    chunks4 (SocketAncillary.encodeFds t fds) = fds.map (encodeI32 t.layout.bigEndian) :=
  chunks4_flatMap _ (fun _ => length_encodeI32 ..) fds

/-- Encoded descriptor numbers are decoded as they were. -/
theorem decode_encodeFds (fds : List RawFd) :
    (chunks4 (SocketAncillary.encodeFds t fds)).map (decodeI32 t.layout.bigEndian) = fds := by
  simp only [chunks4_encodeFds, List.map_map, Function.comp_def, decodeI32_encodeI32,
    List.map_id']

/-- The message of an add says what was added. -/
theorem content_message {add : Add} {m : RawMessage} (h : add.message t = some m) :
    Add.content t m = add := by
  match add, h with
  | .addFds (fd :: fds), h =>
      cases h
      rw [Add.content, if_pos ⟨rfl, rfl⟩]
      exact congrArg Add.addFds (decode_encodeFds t (fd :: fds))
  | .addCredentials creds, h =>
      cases h
      rw [Add.content, if_neg fun h => t.rights_ne_credentials h.2.symm]
      exact congrArg Add.addCredentials (ScmCredentials.fromUcred_toUcred ..)

/-- The messages of a list of adds say what was added, in order. -/
theorem map_content_messages (adds : List Add) :
    (adds.filterMap (·.message t)).map (Add.content t) = adds.filter (· ≠ .addFds []) := by
  induction adds with
  | nil => rfl
  | cons add adds ih =>
      cases hm : add.message t with
      | none =>
          obtain rfl : add = .addFds [] := by
            match add, hm with
            | .addFds [], _ => rfl
          rw [List.filterMap_cons_none hm, ih, List.filter_cons_of_neg (by simp)]
      | some m =>
          have hne : add ≠ .addFds [] := by
            rintro rfl
            cases hm
          rw [List.filterMap_cons_some hm, List.map_cons, content_message t hm, ih,
            List.filter_cons_of_pos (by simpa using hne)]

/-- Valid descriptor numbers are read back. -/
theorem rights_rightsMessage {fds : List RawFd} (h : ∀ fd ∈ fds, 0 ≤ fd) :
    (SocketAncillary.rightsMessage t fds).rights t.layout.toLayout = fds := by
  rw [RawMessage.rights, SocketAncillary.rightsMessage, decode_encodeFds]
  exact List.filter_eq_self.mpr fun fd hfd => decide_eq_true (h fd hfd)

theorem isRights_rightsMessage (fds : List RawFd) :
    (SocketAncillary.rightsMessage t fds).isRights t = true := by
  simp [RawMessage.isRights, SocketAncillary.rightsMessage]

/-- A receiver stores what was added. -/
theorem received_message {add : Add} (h : add.Valid t) :
    (add.message t).toList.flatMap (·.received t) = (add.received).toList := by
  match add, h with
  | .addFds [], _ => rfl
  | .addFds (fd :: fds), h =>
      have hne := t.rights_ne_credentials
      have hcreds : (SocketAncillary.rightsMessage t (fd :: fds)).credentials t = none := by
        simp [RawMessage.credentials, SocketAncillary.rightsMessage, hne]
      simp [Add.message, Add.received, RawMessage.received, hcreds,
        isRights_rightsMessage, rights_rightsMessage t h]
  | .addCredentials creds, h =>
      have hne := t.rights_ne_credentials
      have hrights : (SocketAncillary.credentialsMessage t creds).isRights t = false := by
        simp [RawMessage.isRights, SocketAncillary.credentialsMessage, hne.symm]
      have hcreds : (SocketAncillary.credentialsMessage t creds).credentials t =
          some creds := by
        rw [Add.Valid] at h
        simp [RawMessage.credentials, SocketAncillary.credentialsMessage, h]
      simp [Add.message, Add.received, RawMessage.received, hrights, hcreds]

/-- No added message is taken for a pidfd. -/
theorem pidfds_message (add : Add) : (add.message t).toList.flatMap (·.pidfds t) = [] := by
  have hne := t.rights_ne_pidfd
  have hcred : SCM_CREDENTIALS ≠ SCM_PIDFD := by decide
  match add with
  | .addFds [] => rfl
  | .addFds (fd :: fds) =>
      simp [Add.message, RawMessage.pidfds, RawMessage.isPidfd,
        SocketAncillary.rightsMessage, hne]
  | .addCredentials creds =>
      simp [Add.message, RawMessage.pidfds, RawMessage.isPidfd,
        SocketAncillary.credentialsMessage, hcred]

theorem flatMap_filterMap {α β γ : Type*} (f : α → Option β) (g : β → List γ) (xs : List α) :
    (xs.filterMap f).flatMap g = xs.flatMap fun x => (f x).toList.flatMap g := by
  induction xs with
  | nil => rfl
  | cons x xs ih =>
      rw [List.flatMap_cons, ← ih, List.filterMap_cons]
      cases f x <;> simp

/-- Decode undoes encode: after any adds that all returned `Ok` on a fresh buffer,
over any storage, the parser finds exactly the added messages in call order, and a
receive takes them for what was added. -/
theorem decode_encode_adds (storage : Storage t) {adds : List Add} (w : World)
    (hvalid : ∀ add ∈ adds, add.Valid t)
    (hok : ((addAll t adds).run (.new storage.1)).1 = .ok ()) :
    let anc := ((addAll t adds).run (.new storage.1)).2
    t.layout.parse (anc.buffer.take anc.length) = adds.filterMap (·.message t) ∧
    takeReceivedInto t (anc.buffer.take anc.length) [] w =
      (adds.filterMap (·.received), w) := by
  intro anc
  have hbuilt : Built t anc (adds.filterMap (·.message t)) := (Built.new storage).addAll hok
  have hparse : t.layout.parse (anc.buffer.take anc.length) =
      adds.filterMap (·.message t) := by
    rw [hbuilt.bytes, parse_encodeMessages _ _ hbuilt.payload_le]
  have hreceived : adds.flatMap (fun add => (add.message t).toList.flatMap (·.received t)) =
      adds.filterMap (·.received) := by
    rw [List.filterMap_eq_flatMap_toList]
    exact List.flatMap_congr fun add hadd => received_message t (hvalid add hadd)
  have hpidfds : adds.flatMap (fun add => (add.message t).toList.flatMap (·.pidfds t)) = [] := by
    rw [List.flatMap_eq_nil_iff]
    exact fun add _ => pidfds_message t add
  refine ⟨hparse, ?_⟩
  rw [takeReceivedInto_eq, hparse, flatMap_filterMap, flatMap_filterMap, hreceived, hpidfds,
    List.nil_append, World.close_nil]

end Decoding

/-- Descriptors, credentials and an empty list, over storage that is not zeroed. -/
theorem decode_encode_adds_mixed :
    let adds := [.addFds [3, 4, 5], .addCredentials ⟨7, 1000, 1000⟩, .addFds []]
    let anc := ((addAll .linux64 adds).run (.new (List.replicate 96 255))).2
    (takeReceivedInto .linux64 (anc.buffer.take anc.length) [] (.scripted [] [])).1 =
      [.rights [3, 4, 5], .credentials ⟨7, 1000, 1000⟩] := by
  have hvalid : ∀ add ∈ [Add.addFds [3, 4, 5], .addCredentials ⟨7, 1000, 1000⟩, .addFds []],
      add.Valid .linux64 := by decide
  have h := decode_encode_adds .linux64 ⟨List.replicate 96 255, by decide⟩ (.scripted [] [])
    hvalid (by decide +kernel)
  exact congrArg Prod.fst h.2

end UnixAncillary
