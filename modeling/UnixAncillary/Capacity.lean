import UnixAncillary.Building
import UnixAncillary.Policy

/-!
# The reserved control capacity

`recv_core` reserves one rights message at the larger of two budgets and, where the
target has them, one credentials message. Here the batch of any legal convenience send,
with or without credentials on either side, is shown to fit, so nothing is truncated.
-/

namespace UnixAncillary

open ByteCodec HandleTable Program Program.Prog

/-- Where the kernel puts the sender's credentials. -/
inductive CredentialsPlace where
  | absent
  | before (creds : ScmCredentials)
  | behind (creds : ScmCredentials)
  deriving DecidableEq

variable (t : Target)

/-- The control messages of one convenience send as they arrive. -/
def batchMessages (fds : List RawFd) (place : CredentialsPlace) : List RawMessage :=
  let rights := (Add.message t (.addFds fds)).toList
  match place with
  | .absent => rights
  | .before creds => SocketAncillary.credentialsMessage t creds :: rights
  | .behind creds => rights ++ [SocketAncillary.credentialsMessage t creds]

variable {t}

theorem length_rightsData {fds : List RawFd} {m : RawMessage}
    (h : Add.message t (.addFds fds) = some m) : m.data.length = fds.length * 4 := by
  cases fds with
  | nil => cases h
  | cons fd fds =>
      cases h
      exact SocketAncillary.length_encodeFds t (fd :: fds)

/-- The space of a batch, whatever the order of its messages. -/
theorem space_batchMessages_le {fds : List RawFd} {place : CredentialsPlace} {mode : CountMode}
    {rlimit : Option Nat} (hplace : place ≠ .absent → t.hasCredentials = true)
    (hk : fds.length ≤ max mode.count (maxRecvFdsAt t rlimit))
    (hmax : max mode.count (maxRecvFdsAt t rlimit) * 4 ≤ i32Max) :
    ((batchMessages t fds place).map fun m => t.layout.CMSG_SPACE m.data.length).sum ≤
      controlCapacity t mode rlimit := by
  have hrights : (((Add.message t (.addFds fds)).toList).map
      fun m => t.layout.CMSG_SPACE m.data.length).sum ≤
        t.layout.CMSG_SPACE (max mode.count (maxRecvFdsAt t rlimit) * 4) := by
    cases hm : Add.message t (.addFds fds) with
    | none => exact Nat.zero_le _
    | some m =>
        have hlen := length_rightsData hm
        simp only [Option.toList_some, List.map_cons, List.map_nil, List.sum_cons, List.sum_nil,
          Nat.add_zero, hlen]
        exact t.layout.space_mono (Nat.mul_le_mul_right 4 hk) hmax
  have hcreds : ∀ creds : ScmCredentials,
      (SocketAncillary.credentialsMessage t creds).data.length = ScmCredentials.SIZE :=
    fun creds => ScmCredentials.length_toUcred ..
  rw [controlCapacity]
  cases place with
  | absent => exact hrights.trans (Nat.le_add_right ..)
  | before creds =>
      rw [if_pos (hplace (by simp))]
      simp only [batchMessages, List.map_cons, List.sum_cons, hcreds]
      omega
  | behind creds =>
      rw [if_pos (hplace (by simp))]
      simp only [batchMessages, List.map_append, List.sum_append, List.map_cons, List.map_nil,
        List.sum_cons, List.sum_nil, hcreds]
      omega

/-- A receiver finds the sent descriptors in the batch, and no pidfd. -/
theorem rightsFds_batchMessages {fds : List RawFd} (hvalid : ∀ fd ∈ fds, 0 ≤ fd)
    (place : CredentialsPlace) :
    (batchMessages t fds place).flatMap (·.rightsFds t) = fds ∧
      (batchMessages t fds place).flatMap (·.pidfds t) = [] := by
  have hrights : (Add.message t (.addFds fds)).toList.flatMap (·.rightsFds t) = fds := by
    cases fds with
    | nil => rfl
    | cons fd fds =>
        simp only [Add.message, Option.toList_some, List.flatMap_cons, List.flatMap_nil,
          List.append_nil, RawMessage.rightsFds, isRights_rightsMessage, if_true]
        exact rights_rightsMessage t hvalid
  have hpidfds := pidfds_message t (.addFds fds)
  have hcreds : ∀ creds, (SocketAncillary.credentialsMessage t creds).rightsFds t = [] := by
    intro creds
    have hne := t.rights_ne_credentials
    simp [RawMessage.rightsFds, RawMessage.isRights, SocketAncillary.credentialsMessage, hne.symm]
  have hcredsPidfds : ∀ creds, (SocketAncillary.credentialsMessage t creds).pidfds t = [] := by
    intro creds
    simpa [Add.message] using pidfds_message t (.addCredentials creds)
  cases place with
  | absent => exact ⟨hrights, hpidfds⟩
  | before creds =>
      simp only [batchMessages, List.flatMap_cons, hcreds, hcredsPidfds, List.nil_append]
      exact ⟨hrights, hpidfds⟩
  | behind creds =>
      simp only [batchMessages, List.flatMap_append, List.flatMap_cons, List.flatMap_nil, hcreds,
        hcredsPidfds, List.append_nil]
      exact ⟨hrights, hpidfds⟩

theorem length_flatMap_bytes {ℓ : AlignedLayout} (msgs : List (KernelMessage ℓ)) :
    (msgs.flatMap (·.bytes)).length =
      ((msgs.map (·.message)).map fun m => ℓ.CMSG_SPACE m.data.length).sum := by
  induction msgs with
  | nil => rfl
  | cons m rest ih =>
      simp only [List.flatMap_cons, List.length_append, List.map_cons, List.sum_cons, ih,
        m.length_bytes]
      rfl

/-- A kernel that truncates only what does not fit: the delivery holds as much of the
layout as fits `capacity`, and `MSG_CTRUNC` reports that some of it does not. -/
structure HonestDelivery (layout : Bytes) (capacity : Nat) (d : Delivery) : Prop where
  control_eq : d.control = layout.take capacity
  ctrunc : d.ctrunc = true → capacity < layout.length

/-- A batch that fits arrives whole. -/
theorem HonestDelivery.whole {fds : List RawFd} {place : CredentialsPlace}
    {msgs : List (KernelMessage t.layout)} {capacity : Nat} {d : Delivery}
    (hkernel : HonestDelivery (msgs.flatMap (·.bytes)) capacity d)
    (hvalid : ∀ fd ∈ fds, 0 ≤ fd) (hmsgs : msgs.map (·.message) = batchMessages t fds place)
    (hfits : (msgs.flatMap (·.bytes)).length ≤ capacity) :
    d.ctrunc = false ∧ t.layout.parse d.control = batchMessages t fds place ∧
      d.rights t = fds ∧ d.pidfds t = [] := by
  have hctrunc : d.ctrunc = false := by
    rw [Bool.eq_false_iff]
    intro htrunc
    have := hkernel.ctrunc htrunc
    omega
  have hparse : t.layout.parse d.control = batchMessages t fds place := by
    rw [hkernel.control_eq, List.take_of_length_le hfits, KernelMessage.parse_bytes, hmsgs]
  obtain ⟨hrights, hpidfds⟩ := rightsFds_batchMessages hvalid place
  refine ⟨hctrunc, hparse, ?_, ?_⟩
  · rw [Delivery.rights, hparse, hrights]
  · rw [Delivery.pidfds, hparse, hpidfds]

/-- The reserved control capacity suffices for every legal batch: nothing is truncated,
the parser recovers exactly the sent descriptors, up-to returns the first ones and counts
the others, and exact succeeds exactly on the right count. -/
theorem capacity_suffices (t : Target) (kind : SocketKind) {n : Nat} {w w₁ : World}
    (fds : List RawFd) (place : CredentialsPlace) (msgs : List (KernelMessage t.layout))
    {d : Delivery} (hfit : t.ControlFits)
    (hmax : 4 * max n (maxRecvFdsAt t w.rlimit) ≤ i32Max)
    (hvalid : ∀ fd ∈ fds, 0 ≤ fd) (hk : fds.length ≤ max n (maxRecvFdsAt t w.rlimit))
    (hplace : place ≠ .absent → t.hasCredentials = true)
    (hmsgs : msgs.map (·.message) = batchMessages t fds place)
    (hkernel : HonestDelivery (msgs.flatMap (·.bytes)) (controlCapacity t (.upTo n) w.rlimit) d)
    (hdata : kind = .datagram → d.trunc = false)
    (hrecv : (awaitRecv t (controlCapacity t (.upTo n) w.rlimit) false).run w = (.ok d, w₁))
    (hcloexec : w.CloexecSucceeds t) :
    let k := fds.length
    (msgs.flatMap (·.bytes)).length ≤ controlCapacity t (.upTo n) w.rlimit ∧
    d.ctrunc = false ∧ t.layout.parse d.control = batchMessages t fds place ∧
    d.rights t = fds ∧ d.pidfds t = [] ∧
    ((recvCore t kind (.upTo n)).run w).1 =
      .ok (d.data.length, fds.take (min k n), k - min k n) ∧
    ((∃ r, ((recvCore t kind (.exact n)).run w).1 = .ok r) ↔ k = n) := by
  intro k
  have hmax' : max n (maxRecvFdsAt t w.rlimit) * 4 ≤ i32Max := by omega
  have hfits : (msgs.flatMap (·.bytes)).length ≤ controlCapacity t (.upTo n) w.rlimit := by
    rw [length_flatMap_bytes, hmsgs]
    exact space_batchMessages_le hplace hk hmax'
  obtain ⟨hctrunc, hparse, hrights, hpidfds⟩ := hkernel.whole hvalid hmsgs hfits
  have hn : 4 * n ≤ i32Max := by omega
  have hnot : ∀ mode, (∀ m, mode = .exact m → k = m) →
      ¬ Rejected kind mode d.result (d.rights t).length := by
    rintro mode hmode (h | ⟨hkind, h⟩ | ⟨m, hm, hne⟩)
    · rw [show d.result.ancillaryTruncated = d.ctrunc from rfl, hctrunc] at h
      cases h
    · rw [show d.result.dataTruncated = d.trunc from rfl, hdata hkind] at h
      cases h
    · rw [hrights] at hne
      exact hne (hmode m hm)
  have hupTo := (recvCore_upTo kind hfit hn hrecv hcloexec (hnot _ fun _ h => by cases h)).1
  refine ⟨hfits, hctrunc, hparse, hrights, hpidfds, ?_, ?_⟩
  · rw [hupTo, hrights]
  · constructor
    · rintro ⟨r, hr⟩
      by_contra hne
      have hrej : Rejected kind (.exact n) d.result (d.rights t).length :=
        .inr (.inr ⟨n, rfl, by rw [hrights]; exact hne⟩)
      rw [(recvCore_rejected kind hfit hn hrecv hcloexec (.exact n) rfl hrej).1] at hr
      cases hr
    · intro hkn
      have hacc := hnot (.exact n) fun m hm => by cases hm; exact hkn
      exact ⟨_, (recvCore_exact kind hfit hn hrecv hcloexec hacc).1⟩

/-- Two descriptors behind automatic credentials, received by a caller that asked for
one. -/
theorem capacity_suffices_credentials :
    let d : Delivery := ⟨[], (batchMessages .linux64 [5, 6] (.before ⟨7, 0, 0⟩)).flatMap
      Target.linux64.layout.encodeMessage, false, false, [5, 6]⟩
    ((recvCore .linux64 .stream (.upTo 1)).run (.scripted [] [.ok d])).1 = .ok (0, [5], 1) := by
  intro d
  have hrecv : (awaitRecv .linux64 (controlCapacity .linux64 (.upTo 1) none) false).run
      (.scripted [] [.ok d]) = (.ok d, _) := rfl
  have hkernel : HonestDelivery d.control (controlCapacity .linux64 (.upTo 1) none) d :=
    ⟨rfl, fun h => by cases h⟩
  have h := capacity_suffices .linux64 .stream [5, 6] (.before ⟨7, 0, 0⟩)
    [.canonical _ (SocketAncillary.credentialsMessage .linux64 ⟨7, 0, 0⟩) (by decide),
      .canonical _ (SocketAncillary.rightsMessage .linux64 [5, 6]) (by decide)]
    (by decide) (by decide) (by simp) (by decide) (by decide) rfl hkernel (by decide) hrecv
    (by decide)
  exact h.2.2.2.2.2.1

end UnixAncillary
