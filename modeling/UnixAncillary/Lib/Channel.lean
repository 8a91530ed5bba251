import Mathlib.Data.List.Basic
import Mathlib.Logic.Function.Basic
import UnixAncillary.Lib.Liveness

/-!
# Channels with many senders

A channel holds items, each with the sender that put it, and hands them out in order.
`Conserves` says that nothing is lost, duplicated or reordered, and `sentBy` is the channel
as one sender sees it: the others may put items between its own, but do not reorder them.
A channel from which something is taken again and again `drains`.
-/

namespace Fifo

variable {ι α : Type*}

/-- What was put so far, what was taken of it, and what is still queued. -/
structure Channel (ι α : Type*) where
  accepted : List (ι × α)
  taken : List (ι × α)
  queue : List (ι × α)

/-- The items of one sender. -/
def sentBy [DecidableEq ι] (i : ι) (items : List (ι × α)) : List α :=
  (items.filter (·.1 = i)).map Prod.snd

/-- What an event of sender `i` adds to the record of sender `j`. -/
def ofSender [DecidableEq ι] (i j : ι) (items : List α) : List α := if j = i then items else []

namespace Channel

def empty : Channel ι α := ⟨[], [], []⟩

/-- A sender puts items at the end. -/
def put (c : Channel ι α) (i : ι) (items : List α) : Channel ι α where
  accepted := c.accepted ++ items.map (i, ·)
  taken := c.taken
  queue := c.queue ++ items.map (i, ·)

/-- The receiver takes `front`, and `rest` stays. -/
def take (c : Channel ι α) (front rest : List (ι × α)) : Channel ι α where
  accepted := c.accepted
  taken := c.taken ++ front
  queue := rest

/-- What was taken and what is queued is what was put. -/
def Conserves (c : Channel ι α) : Prop := c.taken ++ c.queue = c.accepted

theorem conserves_empty : (empty : Channel ι α).Conserves := rfl

variable {c : Channel ι α}

theorem Conserves.put (h : c.Conserves) (i : ι) (items : List α) : (c.put i items).Conserves := by
  simp only [Conserves, Channel.put, ← List.append_assoc]
  exact congrArg (· ++ items.map (i, ·)) h

theorem Conserves.take (h : c.Conserves) {front rest : List (ι × α)}
    (hqueue : c.queue = front ++ rest) : (c.take front rest).Conserves := by
  simp only [Conserves, Channel.take, List.append_assoc]
  rw [← hqueue]
  exact h

/-- What is queued was put. -/
theorem Conserves.mem (h : c.Conserves) {p : ι × α} (hp : p ∈ c.queue) : p ∈ c.accepted := by
  rw [← h]
  exact List.mem_append_right _ hp

end Channel

/-! ## Reading a channel -/

section Reading

variable {β : Type*} {takes : β → Bool} {stretch : β → List (ι × α)} {accepted : List (ι × α)}
  {log : List β}

/-- What the entries of a log took of the channel; an entry that only peeks took nothing. -/
def takenBy (takes : β → Bool) (stretch : β → List (ι × α)) (log : List β) : List (ι × α) :=
  (log.filter takes).flatMap stretch

/-- Every entry of a log read the stretch behind what the entries before it took. -/
def InOrder (takes : β → Bool) (stretch : β → List (ι × α)) (accepted : List (ι × α))
    (log : List β) : Prop :=
  ∀ before r after, log = before ++ r :: after →
    takenBy takes stretch before ++ stretch r <+: accepted

theorem takenBy_append (r : β) : takenBy takes stretch (log ++ [r]) =
    takenBy takes stretch log ++ if takes r then stretch r else [] := by
  rw [takenBy, takenBy, List.filter_append, List.flatMap_append]
  cases h : takes r <;> simp [h]

theorem inOrder_nil (takes : β → Bool) (stretch : β → List (ι × α)) (accepted : List (ι × α)) :
    InOrder takes stretch accepted [] :=
  fun before _ _ h => by cases before <;> cases h

theorem InOrder.put (h : InOrder takes stretch accepted log) (items : List (ι × α)) :
    InOrder takes stretch (accepted ++ items) log :=
  fun before r after hlog => (h before r after hlog).trans (List.prefix_append ..)

theorem InOrder.read (h : InOrder takes stretch accepted log) {r : β}
    (hnext : takenBy takes stretch log ++ stretch r <+: accepted) :
    InOrder takes stretch accepted (log ++ [r]) := by
  intro before r' after hlog
  rcases List.eq_nil_or_concat after with rfl | ⟨after', last, rfl⟩
  · obtain ⟨rfl, hlast⟩ := List.append_inj' hlog rfl
    obtain rfl := List.singleton_inj.mp hlast
    exact hnext
  · rw [List.concat_eq_append, ← List.cons_append, ← List.append_assoc] at hlog
    exact h before r' after' (List.append_inj' hlog rfl).1

end Reading

/-! ## Draining a channel -/

/-- A channel from which something is taken again and again hands out all that was put. -/
theorem drains {channel : Nat → Channel ι α} (hconserves : ∀ n, (channel n).Conserves)
    (haccepted : ∀ n, (channel n).accepted <+: (channel (n + 1)).accepted)
    (htaken : ∀ n, (channel n).taken <+: (channel (n + 1)).taken)
    (hfair : ∀ n, (channel n).queue ≠ [] →
      ∃ m, n ≤ m ∧ (channel m).taken ≠ (channel (m + 1)).taken) (k : Nat) :
    ∃ n, k ≤ n ∧ (channel k).accepted <+: (channel n).taken := by
  have hgrows : ∀ n, k ≤ n → (channel k).accepted <+: (channel n).accepted := by
    intro n hn
    induction n, hn using Nat.le_induction with
    | base => exact List.prefix_rfl
    | succ n hn ih => exact ih.trans (haccepted n)
  have hdone : ∀ n, k ≤ n → (channel k).accepted.length ≤ (channel n).taken.length →
      (channel k).accepted <+: (channel n).taken := by
    intro n hn hlen
    have hprefix : (channel n).taken <+: (channel n).accepted := ⟨_, hconserves n⟩
    exact List.prefix_of_prefix_length_le (hgrows n hn) hprefix hlen
  by_cases hk : (channel k).accepted.length ≤ (channel k).taken.length
  · exact ⟨k, le_rfl, hdone k le_rfl hk⟩
  · let short (c : Channel ι α) : Prop := c.taken.length < (channel k).accepted.length
    let rank (c : Channel ι α) : Nat := (channel k).accepted.length - c.taken.length
    let done (c : Channel ι α) : Prop := (channel k).accepted <+: c.taken
    refine Liveness.eventually_of_rank short done rank (Nat.lt_of_not_le hk)
      (fun n hn hshort => ?_) (fun n hn hshort hnext => ?_) (fun n hn hshort => ?_)
    · by_cases hnext : short (channel (n + 1))
      · exact .inl hnext
      · exact .inr (hdone (n + 1) (by omega) (Nat.le_of_not_lt hnext))
    · exact Nat.sub_le_sub_left (htaken n).length_le _
    · have hqueue : (channel n).queue ≠ [] := by
        intro hnil
        have hall := hconserves n
        rw [Channel.Conserves, hnil, List.append_nil] at hall
        exact absurd (hall ▸ (hgrows n hn).length_le) (Nat.not_le_of_lt hshort)
      obtain ⟨m, hm, hne⟩ := hfair n hqueue
      refine ⟨m, hm, fun hlt _ => Nat.sub_lt_sub_left hlt ?_⟩
      exact (htaken m).length_le.lt_of_ne fun hlen => hne ((htaken m).eq_of_length hlen)

section Senders

variable [DecidableEq ι]

@[simp] theorem sentBy_nil (i : ι) : sentBy i ([] : List (ι × α)) = [] := rfl

@[simp] theorem sentBy_append (i : ι) (as bs : List (ι × α)) :
    sentBy i (as ++ bs) = sentBy i as ++ sentBy i bs := by
  simp [sentBy]

/-- The items that a sender puts are its own. -/
theorem sentBy_tagged (i j : ι) (items : List α) :
    sentBy j (items.map (i, ·)) = ofSender i j items := by
  rw [ofSender]
  split
  case isTrue h =>
      rw [sentBy, List.filter_eq_self.mpr (by simp [h])]
      simp [Function.comp_def]
  case isFalse h =>
      rw [sentBy, List.filter_eq_nil_iff.mpr (by simpa using fun a _ => Ne.symm h)]
      rfl

theorem sentBy_put (c : Channel ι α) (i j : ι) (items : List α) :
    sentBy j (c.put i items).accepted = sentBy j c.accepted ++ ofSender i j items := by
  rw [Channel.put, sentBy_append, sentBy_tagged]

/-- A channel conserves what each sender put, in its order. -/
theorem Channel.Conserves.sentBy {c : Channel ι α} (h : c.Conserves) (i : ι) :
    sentBy i c.taken ++ sentBy i c.queue = Fifo.sentBy i c.accepted := by
  rw [← sentBy_append, h]

/-- An event of one sender extends its record alone. -/
theorem update_append_eq {β : Type*} (log : ι → List β) (i j : ι) (entry : β) :
    Function.update log i (log i ++ [entry]) j = log j ++ ofSender i j [entry] := by
  rw [Function.update_apply, ofSender]
  by_cases h : j = i
  · rw [if_pos h, if_pos h, h]
  · rw [if_neg h, if_neg h, List.append_nil]

/-- A property of all entries of the records survives another entry that has it. -/
theorem forall_update_append {β : Type*} {log : ι → List β} {P : β → Prop}
    (h : ∀ i, ∀ r ∈ log i, P r) (k : ι) {entry : β} (hentry : P entry) :
    ∀ i, ∀ r ∈ Function.update log k (log k ++ [entry]) i, P r := by
  intro i
  rw [update_append_eq, ofSender]
  refine List.forall_mem_append.mpr ⟨h i, ?_⟩
  split
  · exact List.forall_mem_singleton.mpr hentry
  · exact List.forall_mem_nil P

/-- A property of all running calls survives a change of one of them. -/
theorem forall_update {β : Type*} {calls : ι → Option β} {P : β → Prop}
    (h : ∀ i c, calls i = some c → P c) (k : ι) {call : Option β}
    (hcall : ∀ c, call = some c → P c) : ∀ i c, Function.update calls k call i = some c → P c := by
  intro i c hc
  rw [Function.update_apply] at hc
  split at hc
  · exact hcall c hc
  · exact h i c hc

end Senders

end Fifo
