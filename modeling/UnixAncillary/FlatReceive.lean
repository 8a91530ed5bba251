import UnixAncillary.Lib.GrowVec
import UnixAncillary.Received

/-!
# The flat receive

`take_fds` walks the control bytes twice: it counts the descriptors and then takes them
into a vector of that size. `takeFds_agrees` compares it with the message list that
`take_received_into` builds from the same bytes, whatever they are.
-/

namespace UnixAncillary

open ByteCodec HandleTable GrowVec

variable (t : Target) (grow : Nat → Nat)

/-- The loop body of `take_fds` on its vector. -/
def takeFdVec (acc : Vec RawFd × World) (message : RawMessage) : Vec RawFd × World :=
  let w := closePidfd t message acc.2
  if message.isRights t then (acc.1.extend grow (message.rights t.layout.toLayout), w)
  else (acc.1, w)

/-- `take_fds` on its vector, which starts with room for what the first pass counted. -/
def takeFdsVec (buffer : Bytes) (w : World) : Vec RawFd × World :=
  (t.layout.parse buffer).foldl (takeFdVec t grow) (.withCapacity (takeFdsCount t buffer), w)

variable {t grow}

/-- One message extends the vector by its descriptors. -/
theorem takeFdVec_eq (acc : Vec RawFd × World) (message : RawMessage) :
    takeFdVec t grow acc message =
      (acc.1.extend grow (message.rightsFds t), acc.2.close (message.pidfds t)) := by
  simp only [takeFdVec, closePidfd_eq, RawMessage.rightsFds]
  split
  · rfl
  · rfl

/-- The counting pass counts what the second pass takes. -/
theorem takeFdsCount_eq (buffer : Bytes) : takeFdsCount t buffer =
    ((t.layout.parse buffer).flatMap (·.rightsFds t)).length := by
  rw [takeFdsCount]
  induction t.layout.parse buffer with
  | nil => rfl
  | cons message rest ih =>
      rw [List.flatMap_cons, List.length_append, RawMessage.rightsFds, ← ih]
      cases hrights : message.isRights t with
      | true =>
          rw [List.filter_cons_of_pos hrights, List.map_cons, List.sum_cons]
          rfl
      | false =>
          rw [List.filter_cons_of_neg (by simp [hrights])]
          simp

/-- A walk over messages whose descriptors all have room. -/
theorem foldl_takeFdVec (raw : List RawMessage) (v : Vec RawFd) (w : World)
    (h : v.items.length + (raw.flatMap (·.rightsFds t)).length ≤ v.capacity) :
    let r := raw.foldl (takeFdVec t grow) (v, w)
    r.1.items = v.items ++ raw.flatMap (·.rightsFds t) ∧
      r.1.capacity = v.capacity ∧ r.1.allocations = v.allocations ∧
      r.2 = w.close (raw.flatMap (·.pidfds t)) := by
  induction raw generalizing v w with
  | nil => simp
  | cons message rest ih =>
      rw [List.flatMap_cons, List.length_append] at h
      have hfits : v.items.length + (message.rightsFds t).length ≤ v.capacity := by omega
      obtain ⟨hcapacity, hallocations⟩ := Vec.extend_of_room hfits
      have hitems : (v.extend grow (message.rightsFds t)).items =
          v.items ++ message.rightsFds t := Vec.items_extend _
      have hroom : (v.extend grow (message.rightsFds t)).items.length +
          (rest.flatMap (·.rightsFds t)).length ≤
            (v.extend grow (message.rightsFds t)).capacity := by
        rw [hitems, List.length_append, hcapacity]
        omega
      obtain ⟨hrest, hkeep, hsame, hclosed⟩ := ih _ (w.close (message.pidfds t)) hroom
      simp only [List.foldl_cons, takeFdVec_eq, List.flatMap_cons]
      refine ⟨?_, hkeep.trans hcapacity, hsame.trans hallocations, ?_⟩
      · rw [hrest, hitems, List.append_assoc]
      · rw [hclosed, World.close_close]

/-- The flat receive agrees with the low-level one on every byte string. It owns the
descriptors of the stored messages, in order, and closes the same pidfds in the same
order; the messages already stored stay in front. Its first pass counts what the second
takes, so its one allocation suffices, and there is none when nothing arrived. -/
theorem takeFds_agrees (t : Target) (grow : Nat → Nat) (buffer : Bytes) (w : World) :
    let flat := takeFdsVec t grow buffer w
    (flat.1.items, flat.2) = takeFds t buffer w ∧
    (∃ added : List ReceivedMessage, flat.1.items = added.flatMap ReceivedMessage.fds ∧
      ∀ messages, takeReceivedInto t buffer messages w = (messages ++ added, flat.2)) ∧
    flat.2 = w.close ((t.layout.parse buffer).flatMap (·.pidfds t)) ∧
    takeFdsCount t buffer = flat.1.items.length ∧ flat.1.capacity = flat.1.items.length ∧
    flat.1.allocations = if flat.1.items = [] then 0 else 1 := by
  intro flat
  have hroom : (Vec.withCapacity (takeFdsCount t buffer) : Vec RawFd).items.length +
      ((t.layout.parse buffer).flatMap (·.rightsFds t)).length ≤
        (Vec.withCapacity (takeFdsCount t buffer) : Vec RawFd).capacity := by
    rw [← takeFdsCount_eq]
    exact (Nat.zero_add _).le
  obtain ⟨hitems, hcapacity, hallocations, hclosed⟩ :=
    foldl_takeFdVec (t.layout.parse buffer) _ w hroom
  have hcount : takeFdsCount t buffer = flat.1.items.length := by
    rw [takeFdsCount_eq]
    exact congrArg List.length hitems.symm
  refine ⟨?_, ?_, hclosed, hcount, hcapacity.trans hcount, ?_⟩
  · rw [takeFds_eq]
    exact Prod.ext hitems hclosed
  · refine ⟨(t.layout.parse buffer).flatMap (·.received t), ?_, ?_⟩
    · rw [List.flatMap_assoc]
      simp only [RawMessage.fds_received]
      exact hitems
    · intro messages
      rw [takeReceivedInto_eq]
      exact Prod.ext rfl hclosed.symm
  · have hzero : takeFdsCount t buffer = 0 ↔ flat.1.items = [] := by
      rw [hcount, List.length_eq_zero_iff]
    calc
      flat.1.allocations = if takeFdsCount t buffer = 0 then 0 else 1 := hallocations
      _ = if flat.1.items = [] then 0 else 1 := if_congr hzero rfl rfl

end UnixAncillary
