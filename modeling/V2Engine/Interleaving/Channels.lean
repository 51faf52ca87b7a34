import Mathlib.Data.List.Basic

/-! Messages on their way between parties. What one party sends to another arrives in the order
in which it was sent, and messages of different senders arrive in any order. -/
namespace Interleaving

/-- What is on its way, by sender and receiver. -/
abbrev Channels (π μ : Type*) := π → π → List μ

namespace Channels

variable {π μ : Type*} [DecidableEq π] {channels : Channels π μ} {sender receiver s r : π}

/-- A party sends messages one after the other. -/
def send (channels : Channels π μ) (sender : π) (messages : List (π × μ)) : Channels π μ := fun s r =>
  if s = sender then channels s r ++ (messages.filter (·.1 = r)).map (·.2) else channels s r

/-- The oldest message of a sender is taken. -/
def receive (channels : Channels π μ) (sender receiver : π) : Channels π μ := fun s r =>
  if s = sender ∧ r = receiver then (channels s r).tail else channels s r

/-- The messages that have arrived at a party are thrown away. -/
def drain (channels : Channels π μ) (receiver : π) (arrived : π → Nat) : Channels π μ := fun s r =>
  if r = receiver then (channels s r).drop (arrived s) else channels s r

theorem mem_send {messages : List (π × μ)} {m : μ} (h : m ∈ channels.send sender messages s r) :
    m ∈ channels s r ∨ (s = sender ∧ (r, m) ∈ messages) := by
  unfold send at h
  split at h
  · rename_i hs
    rcases List.mem_append.mp h with hOld | hNew
    · exact .inl hOld
    · obtain ⟨⟨target, message⟩, hMem, hSame⟩ := List.mem_map.mp hNew
      obtain ⟨hSent, hTarget⟩ := List.mem_filter.mp hMem
      have hr : target = r := of_decide_eq_true hTarget
      subst hr hSame
      exact .inr ⟨hs, hSent⟩
  · exact .inl h

theorem subset_receive : channels.receive sender receiver s r ⊆ channels s r := by
  unfold receive
  split
  · exact fun _ => List.mem_of_mem_tail
  · exact List.Subset.refl _

theorem subset_drain {arrived : π → Nat} : channels.drain receiver arrived s r ⊆ channels s r := by
  unfold drain
  split
  · exact List.drop_subset _ _
  · exact List.Subset.refl _

theorem send_self {messages : List (π × μ)} (sender r : π) :
    channels.send sender messages sender r = channels sender r ++ (messages.filter (·.1 = r)).map (·.2) :=
  if_pos rfl

theorem send_of_ne {messages : List (π × μ)} (h : s ≠ sender) : channels.send sender messages s r = channels s r :=
  if_neg h

theorem receive_self {m : μ} {rest : List μ} (h : channels sender receiver = m :: rest) :
    channels.receive sender receiver sender receiver = rest := by
  unfold receive
  rw [if_pos ⟨rfl, rfl⟩, h, List.tail_cons]

theorem receive_of_ne (h : s ≠ sender ∨ r ≠ receiver) : channels.receive sender receiver s r = channels s r := by
  apply if_neg
  rintro ⟨hs, hr⟩
  exact h.elim (· hs) (· hr)

end Channels

section LastWord

variable {μ β : Type*} {word : μ → Option β} {held : β} {channel : List μ}

/-- What a party will have heard when all that is on its way has arrived. Some messages are no
word on the matter, and before the first word it knows `held`. -/
def lastWord (word : μ → Option β) (held : β) (channel : List μ) : β :=
  channel.foldl (fun held m => (word m).getD held) held

/-- Nothing on its way is a word. -/
def Silent (word : μ → Option β) (channel : List μ) : Prop := ∀ m ∈ channel, word m = none

theorem lastWord_cons (m : μ) : lastWord word held (m :: channel) = lastWord word ((word m).getD held) channel := rfl

theorem lastWord_append (word : μ → Option β) (held : β) (channel later : List μ) :
    lastWord word held (channel ++ later) = lastWord word (lastWord word held channel) later :=
  List.foldl_append

theorem lastWord_of_silent (h : Silent word channel) : lastWord word held channel = held := by
  induction channel generalizing held with
  | nil => rfl
  | cons m rest ih =>
      rw [lastWord_cons, h m (List.mem_cons_self ..)]
      exact ih fun m hm => h m (List.mem_cons_of_mem _ hm)

/-- A word makes the receiver forget what it knew. -/
theorem lastWord_of_not_silent (held held' : β) (h : ¬ Silent word channel) :
    lastWord word held channel = lastWord word held' channel := by
  induction channel generalizing held held' with
  | nil => exact absurd (fun m hm => nomatch hm) h
  | cons m rest ih =>
      simp only [lastWord_cons]
      cases hWord : word m with
      | none =>
          apply ih
          intro hRest
          apply h
          intro m' hm'
          rcases List.mem_cons.mp hm' with rfl | hLater
          · exact hWord
          · exact hRest m' hLater
      | some said => rfl

/-- Whoever hears of a change knows it afterwards. -/
theorem lastWord_of_ne {said : β} (h : lastWord word held channel = said) (hOther : held ≠ said) (held' : β) :
    lastWord word held' channel = said := by
  have hWord : ¬ Silent word channel := fun hSilent => hOther ((lastWord_of_silent hSilent).symm.trans h)
  rw [lastWord_of_not_silent held' held hWord]
  exact h

/-- Older messages do not matter if a word is left. -/
theorem lastWord_drop (held held' : β) (n : Nat) (h : ¬ Silent word (channel.drop n)) :
    lastWord word held (channel.drop n) = lastWord word held' channel := by
  have hSplit := lastWord_append word held' (channel.take n) (channel.drop n)
  rw [List.take_append_drop] at hSplit
  rw [hSplit]
  exact lastWord_of_not_silent _ _ h

end LastWord

end Interleaving
