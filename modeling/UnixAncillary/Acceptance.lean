import UnixAncillary.Modes

/-!
# When an add is accepted

In every state that the calls on a `SocketAncillary` reach, an add is accepted exactly
when the buffer is not in receive mode and its message fits behind the previous ones. An
accepted add writes only there, a rejected one writes nothing, and a buffer of the sum of
the published sizes is exactly large enough for a list of adds.
-/

namespace UnixAncillary

open ByteCodec HandleTable Program Program.Prog Machine

/-! ## One add -/

namespace Add

/-- The payload bytes of an add. -/
def payloadLength : Add → Nat
  | .addFds fds => fds.length * 4
  | .addCredentials _ => ScmCredentials.SIZE

/-- The size that the crate publishes for the message of an add. -/
def bufferSize (t : Target) : Add → Except Panic Nat
  | .addFds fds => t.layout.bufferSizeForRights fds.length
  | .addCredentials _ => t.layout.bufferSizeForCredentials

variable {t : Target} {anc : SocketAncillary} {add : Add}

theorem accepted_iff : Accepted t anc add ↔ anc.receiveMode = false ∧ (add = .addFds [] ∨
    add.payloadLength ≤ i32Max ∧
      anc.length + t.layout.CMSG_SPACE add.payloadLength ≤ anc.buffer.length) := by
  match add with
  | .addFds [] => simp [Accepted]
  | .addFds (fd :: fds) => simp [Accepted, SocketAncillary.Fits, payloadLength]
  | .addCredentials creds => simp [Accepted, SocketAncillary.Fits, payloadLength]

theorem message_eq_none : add.message t = none ↔ add = .addFds [] := by
  match add with
  | .addFds [] => simp [message]
  | .addFds (fd :: fds) => simp [message]
  | .addCredentials creds => simp [message]

theorem length_message {m : RawMessage} (h : add.message t = some m) :
    m.data.length = add.payloadLength := by
  match add, h with
  | .addFds (fd :: fds), h =>
      cases h
      exact SocketAncillary.length_encodeFds t (fd :: fds)
  | .addCredentials creds, h =>
      cases h
      exact ScmCredentials.length_toUcred ..

/-- The published size is the space of the message. -/
theorem bufferSize_eq (h : add.payloadLength ≤ i32Max) :
    add.bufferSize t = .ok (t.layout.CMSG_SPACE add.payloadLength) := by
  cases add with
  | addFds fds => exact t.layout.bufferSizeForRights_eq h
  | addCredentials creds => exact t.layout.bufferSizeForCredentials_eq

/-- What an add did to a buffer: it wrote one message behind the previous ones, or
nothing. -/
structure Wrote (t : Target) (anc : SocketAncillary) (add : Add) (anc' : SocketAncillary) :
    Prop where
  length : anc'.length = anc.length + t.layout.CMSG_SPACE add.payloadLength
  size : anc'.buffer.length = anc.buffer.length
  outside : ∀ i, i < anc.length ∨ anc'.length ≤ i → anc'.buffer[i]? = anc.buffer[i]?
  others : anc'.truncated = anc.truncated ∧ anc'.received = anc.received ∧
    anc'.receiveMode = anc.receiveMode

/-- Appending a message that fits writes its space alone. -/
theorem wrote_append {m : RawMessage} (hm : add.message t = some m)
    (hfit : SocketAncillary.Fits t anc m.data.length) :
    Wrote t anc add (SocketAncillary.append t anc m) := by
  have hsize := Built.length_append hfit
  have hspace := length_encodeMessage t.layout.toLayout hfit.2.1
  have hend := hfit.2.2
  have hpayload := length_message hm
  constructor
  · rw [← hpayload]
    rfl
  · exact hsize
  · intro i hi
    have hi' : i < anc.length ∨ anc.length + (t.layout.encodeMessage m).length ≤ i := by
      rw [hspace]
      exact hi
    change (overwrite anc.buffer anc.length (t.layout.encodeMessage m))[i]? = _
    rw [getElem?_overwrite (by omega), if_neg (by omega)]
  · exact ⟨rfl, rfl, rfl⟩

/-- What one add does to a buffer: it is accepted exactly on the stated condition, and
rejected without a trace. -/
structure Exact (t : Target) (capacity : Nat) (anc : SocketAncillary) (add : Add)
    (r : Outcome AncillaryError Panic Syscall Unit × SocketAncillary) : Prop where
  ok_iff : r.1 = .ok () ↔ anc.receiveMode = false ∧ (add = .addFds [] ∨
    add.payloadLength ≤ i32Max ∧
      anc.length + t.layout.CMSG_SPACE add.payloadLength ≤ capacity)
  wrote : r.1 = .ok () → if add = .addFds [] then r.2 = anc else Wrote t anc add r.2
  unchanged : r.1 ≠ .ok () → r = (.err ⟨⟩, anc)

theorem exact_run (hbuf : anc.buffer.length ≤ t.layout.usizeMax) (add : Add) :
    Exact t anc.buffer.length anc add ((add.run t).run anc) := by
  rw [run_eq hbuf]
  by_cases hacc : Accepted t anc add
  · rw [if_pos hacc]
    constructor
    · exact ⟨fun _ => accepted_iff.mp hacc, fun _ => rfl⟩
    · intro _
      split
      case isTrue hnil =>
          rw [message_eq_none.mpr hnil]
          rfl
      case isFalse hne =>
          obtain ⟨m, hm⟩ := Option.ne_none_iff_exists'.mp (mt message_eq_none.mp hne)
          rw [hm]
          exact wrote_append hm (hacc.fits hm)
    · exact fun h => absurd rfl h
  · rw [if_neg hacc]
    constructor
    · exact ⟨fun h => (by cases h), fun h => absurd (accepted_iff.mpr h) hacc⟩
    · exact fun h => by cases h
    · exact fun _ => rfl

end Add

/-! ## Lists of adds -/

/-- The space of one message is a multiple of the alignment. -/
theorem AlignedLayout.align_dvd_space (ℓ : AlignedLayout) {n : Nat} (h : n ≤ i32Max) :
    ℓ.align ∣ ℓ.CMSG_SPACE n := by
  rw [ℓ.space_eq n h]
  exact Nat.dvd_add ℓ.align_dvd_headerLen (dvd_roundUp ..)

theorem Built.align_dvd {t : Target} {anc : SocketAncillary} {ms : List RawMessage}
    (h : Built t anc ms) : t.layout.align ∣ anc.length := by
  have hall : ∀ m ∈ ms, t.layout.align ∣ (t.layout.encodeMessage m).length := by
    intro m hm
    rw [length_encodeMessage t.layout.toLayout (h.payload_le m hm)]
    exact t.layout.align_dvd_space (h.payload_le m hm)
  rw [← h.length_eq]
  clear h
  induction ms with
  | nil => exact Nat.dvd_zero _
  | cons m ms ih =>
      rw [List.flatMap_cons, List.length_append]
      apply Nat.dvd_add
      · exact hall m List.mem_cons_self
      · exact ih fun m' hm' => hall m' (List.mem_cons_of_mem _ hm')

/-- A list of non-empty adds of admissible size succeeds exactly when the space behind
the previous messages is the sum of the published sizes at least. -/
theorem Built.addAll_ok_iff {t : Target} {anc : SocketAncillary} {ms : List RawMessage}
    (h : Built t anc ms) {adds : List Add}
    (hadds : ∀ add ∈ adds, add ≠ .addFds [] ∧ add.payloadLength ≤ i32Max) :
    ((UnixAncillary.addAll t adds).run anc).1 = .ok () ↔
      anc.length + (adds.map fun add => t.layout.CMSG_SPACE add.payloadLength).sum ≤
        anc.buffer.length := by
  induction adds generalizing anc ms with
  | nil => simpa [UnixAncillary.addAll] using h.length_le
  | cons add adds ih =>
      obtain ⟨⟨hne, hmax⟩, hrest⟩ := List.forall_mem_cons.mp hadds
      have hstep := h.add add
      obtain ⟨m, hm⟩ := Option.ne_none_iff_exists'.mp (mt (Add.message_eq_none (t := t)).mp hne)
      rw [UnixAncillary.addAll, List.map_cons, List.sum_cons]
      by_cases hacc : Add.Accepted t anc add
      · have hrun := Add.run_eq h.usize add
        rw [if_pos hacc, hm, Option.elim_some] at hrun
        have hwrote := Add.wrote_append hm (hacc.fits hm)
        rw [hrun] at hstep
        rw [bind_ok hrun, ih hstep hrest, hwrote.length, hwrote.size, Nat.add_assoc]
      · have hrun := Add.run_eq h.usize add
        rw [if_neg hacc] at hrun
        rw [bind_err hrun]
        constructor
        · exact fun h => by cases h
        · intro hfits
          refine absurd (Add.accepted_iff.mpr ⟨h.receiveMode, .inr ⟨hmax, ?_⟩⟩) hacc
          omega

/-! ## Every reachable state -/

/-- Exact acceptance and atomicity of building a send. In every state that a buffer
reaches, `length` stays inside the storage and on the alignment while a send is built, and
an add is accepted exactly when it fits, writes only its own space and otherwise changes
nothing. A fresh buffer takes a list of adds exactly when it holds the sum of their
published sizes. -/
theorem adds_exact (t : Target) (storage : Storage t) (w : World) (calls : List BufferCall) :
    let anc := (runs (BufferCall.exec t) calls (.new storage.1, w)).2.1
    let capacity := storage.1.length
    anc.buffer.length = capacity ∧
    (anc.receiveMode = false → anc.length ≤ capacity ∧ t.layout.align ∣ anc.length) ∧
    (∀ add : Add, add.Exact t capacity anc ((add.run t).run anc)) ∧
    ∀ adds : List Add, (∀ add ∈ adds, add ≠ .addFds [] ∧ add.payloadLength ≤ i32Max) →
      ∃ sizes : List Nat, adds.map (Add.bufferSize t) = sizes.map .ok ∧
        (((addAll t adds).run (.new storage.1)).1 = .ok () ↔ sizes.sum ≤ capacity) := by
  intro anc capacity
  obtain ⟨m, hcoupled⟩ : ∃ m, Coupled t capacity anc m :=
    runs_keep (coupled_exec storage.2) calls ⟨.sending [], Coupled.cleared storage.2 rfl⟩
  have hlength : anc.buffer.length = capacity := hcoupled.length
  refine ⟨hlength, ?_, ?_, ?_⟩
  · intro hmode
    cases m with
    | sending added => exact ⟨hlength ▸ hcoupled.1.length_le, hcoupled.1.align_dvd⟩
    | receiving undrained truncated => exact absurd (hmode.symm.trans hcoupled.1) (by decide)
  · intro add
    rw [← hlength]
    exact Add.exact_run (hlength.trans_le storage.2) add
  · intro adds hadds
    refine ⟨adds.map fun add => t.layout.CMSG_SPACE add.payloadLength, ?_, ?_⟩
    · rw [List.map_map]
      exact List.map_congr_left fun add hadd => Add.bufferSize_eq (hadds add hadd).2
    · have hiff := (Built.new storage).addAll_ok_iff hadds
      rw [show (SocketAncillary.new storage.1).length = 0 from rfl, Nat.zero_add] at hiff
      exact hiff

end UnixAncillary
