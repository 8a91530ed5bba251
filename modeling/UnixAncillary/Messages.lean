import UnixAncillary.Lowlevel

/-!
# The iterators over received messages

`messages()` moves the received list into a `Messages` iterator, whose rights messages
become `ScmRights` iterators. An iterator owns what it has not yielded, and its drop
closes that.
-/

namespace UnixAncillary

/-- Draining iterator over received descriptors. -/
structure ScmRights where
  inner : List RawFd

/-- Received ancillary data from a Unix socket. -/
inductive AncillaryData where
  | scmRights (rights : ScmRights)
  | credentials (creds : ScmCredentials)

/-- Drains received control messages. -/
structure Messages where
  inner : List ReceivedMessage

def ScmRights.next : ScmRights → Option RawFd × ScmRights
  | ⟨[]⟩ => (none, ⟨[]⟩)
  | ⟨fd :: rest⟩ => (some fd, ⟨rest⟩)

def Messages.next : Messages → Option AncillaryData × Messages
  | ⟨[]⟩ => (none, ⟨[]⟩)
  | ⟨.rights fds :: rest⟩ => (some (.scmRights ⟨fds⟩), ⟨rest⟩)
  | ⟨.credentials creds :: rest⟩ => (some (.credentials creds), ⟨rest⟩)

/-- The descriptors that the iterator owns. -/
def Messages.fds (m : Messages) : List RawFd := m.inner.flatMap ReceivedMessage.fds

/-- The iterators that a yielded message brings. -/
def AncillaryData.rights : AncillaryData → List ScmRights
  | .scmRights rights => [rights]
  | .credentials _ => []

/-- `next` moves the descriptors of one message into its own iterator. -/
theorem Messages.fds_next (m : Messages) :
    m.fds = (m.next.1.elim [] AncillaryData.rights).flatMap ScmRights.inner ++ m.next.2.fds := by
  match m with
  | ⟨[]⟩ => rfl
  | ⟨.rights fds :: rest⟩ =>
      simp [Messages.next, Messages.fds, AncillaryData.rights, ReceivedMessage.fds]
  | ⟨.credentials creds :: rest⟩ =>
      simp [Messages.next, Messages.fds, AncillaryData.rights, ReceivedMessage.fds]

end UnixAncillary
