import V2Engine.Service.Monitoring

/-! Who has asked for what. An actor that wants data tells so once, and once again when it no
longer does, so what counts is the last word that its publisher has heard or will hear. -/
namespace Service

open Interleaving

variable {F : Type} [Zero F]

namespace PipelineMessage

/-- The message subscribes a party, or unsubscribes it. -/
def word (subscriber : Party) : PipelineMessage F → Option Bool
  | .monitorSubscribe x | .sysDataSubscribe x | .pmuDataSubscribe x => if x = subscriber then some true else none
  | .monitorUnsubscribe x | .sysDataUnsubscribe x | .pmuDataUnsubscribe x =>
      if x = subscriber then some false else none
  | _ => none

def isSubscription : PipelineMessage F → Bool
  | .monitorSubscribe _ | .sysDataSubscribe _ | .pmuDataSubscribe _ => true
  | .monitorUnsubscribe _ | .sysDataUnsubscribe _ | .pmuDataUnsubscribe _ => true
  | _ => false

/-- Subscribers speak for themselves, and to the publisher of what they ask for. -/
def Fits (sender receiver : Party) : PipelineMessage F → Prop
  | .monitorSubscribe x | .monitorUnsubscribe x =>
      x = sender ∧ sender = .monitorBridge ∧ receiver = .monitor
  | .sysDataSubscribe x | .sysDataUnsubscribe x => x = sender ∧ receiver = .systemManager
  | .pmuDataSubscribe x | .pmuDataUnsubscribe x => x = sender ∧ receiver = .deviceManager
  | _ => True

omit [Zero F] in
/-- A subscription is a word of its sender and of nobody else. -/
theorem word_of_fits {m : PipelineMessage F} {sender receiver subscriber : Party} (h : m.Fits sender receiver)
    (hOther : sender ≠ subscriber) : m.word subscriber = none := by
  cases m <;> first | rfl | (obtain ⟨rfl, _⟩ := h; exact if_neg hOther)

omit [Zero F] in
theorem word_of_not_isSubscription {m : PipelineMessage F} (h : m.isSubscription = false) (subscriber : Party) :
    m.word subscriber = none := by
  cases m <;> first | rfl | cases h

end PipelineMessage

/-- Of the messages that a handler sends, those to one receiver. -/
def Sent.to (sent : Sent F) (receiver : Party) : List (PipelineMessage F) :=
  (sent.filter (·.1 = receiver)).map (·.2)

omit [Zero F] in
theorem mem_to {sent : Sent F} {receiver : Party} {m : PipelineMessage F} (h : m ∈ Sent.to sent receiver) :
    (receiver, m) ∈ sent := by
  obtain ⟨⟨target, message⟩, hMem, rfl⟩ := List.mem_map.mp h
  obtain ⟨hSent, hTarget⟩ := List.mem_filter.mp hMem
  have hr : target = receiver := of_decide_eq_true hTarget
  exact hr ▸ hSent

omit [Zero F] in
theorem mem_forEach {subscribers : Finset Party} {message m : PipelineMessage F} {receiver : Party}
    (h : (receiver, m) ∈ forEach subscribers message) : m = message := by
  obtain ⟨_, _, hSame⟩ := List.mem_map.mp h
  exact (congrArg Prod.snd hSame).symm

omit [Zero F] in
/-- Data is no word. -/
theorem silent_forEach (subscribers : Finset Party) {message : PipelineMessage F} (receiver : Party)
    {subscriber : Party} (h : message.word subscriber = none) :
    Silent (PipelineMessage.word subscriber) (Sent.to (forEach subscribers message) receiver) := by
  intro m hm
  rw [mem_forEach (mem_to hm)]
  exact h

namespace MonitorBridgeActor

/-- The bridge wants snapshots while it has clients. -/
def demand (actor : MonitorBridgeActor) : Bool := actor.connections ≠ ∅

omit [Zero F] in
/-- The bridge says what it wants whenever that changes. -/
theorem demand_handle (actor : MonitorBridgeActor) (m : PipelineMessage F) :
    lastWord (PipelineMessage.word .monitorBridge) actor.demand (Sent.to (actor.handle m).2 .monitor) =
      (actor.handle m).1.demand := by
  unfold handle
  split
  · split
    · rename_i conn
      have hSome : insert conn actor.connections ≠ ∅ := Finset.insert_ne_empty _ _
      unfold handleNewConnection
      dsimp only
      split
      · exact (decide_eq_true hSome).symm
      · rename_i hMany
        have hBefore : actor.connections ≠ ∅ := by
          intro hNone
          rw [hNone] at hMany
          exact hMany (Finset.card_singleton conn)
        exact (decide_eq_true hBefore).trans (decide_eq_true hSome).symm
    · rename_i conn
      unfold handleClientDisconnected
      split
      · rename_i hMem
        have hBefore : actor.connections ≠ ∅ := Finset.ne_empty_of_mem hMem
        dsimp only
        split
        · rename_i hLast
          exact (decide_eq_false (fun h => h hLast)).symm
        · rename_i hMore
          exact (decide_eq_true hBefore).trans (decide_eq_true hMore).symm
      · rfl
    · rfl
  · rfl

omit [Zero F] in
/-- The bridge speaks to the monitor only, and for itself. -/
theorem fits_handle {actor : MonitorBridgeActor} {m : PipelineMessage F} {r : Party} {out : PipelineMessage F}
    (h : (r, out) ∈ (actor.handle m).2) : out.Fits .monitorBridge r := by
  unfold handle at h
  split at h
  · split at h
    · obtain ⟨_, h⟩ := List.mem_ite_nil_right.mp h
      cases List.mem_singleton.mp h
      exact ⟨rfl, rfl, rfl⟩
    · unfold handleClientDisconnected at h
      split at h
      · obtain ⟨_, h⟩ := List.mem_ite_nil_right.mp h
        cases List.mem_singleton.mp h
        exact ⟨rfl, rfl, rfl⟩
      · cases h
    · cases h
  · cases h

end MonitorBridgeActor

namespace MonitorActor

variable {actor : MonitorActor F} {reading : Reading F} {m : PipelineMessage F}

/-- The monitor says what it wants whenever that changes, and says it to both managers. -/
theorem dataSubscribed_handle (manager : Party) (hManager : manager = .systemManager ∨ manager = .deviceManager) :
    lastWord (PipelineMessage.word .monitor) actor.dataSubscribed (Sent.to (actor.handle reading m).2 manager) =
      (actor.handle reading m).1.dataSubscribed := by
  unfold handle
  split
  · split
    · unfold handleSubscribe
      dsimp only
      split
      · rcases hManager with rfl | rfl <;> rfl
      · rfl
    · unfold handleUnsubscribe
      dsimp only
      split
      · rcases hManager with rfl | rfl <;> rfl
      · rfl
    · exact lastWord_of_silent (silent_forEach _ _ rfl)
    · exact lastWord_of_silent (silent_forEach _ _ rfl)
    · rfl
  · rfl

/-- A subscription does what it says. -/
theorem mem_subscribers_handle {sender : Party} (hOpened : actor.state = .opened) (hFits : m.Fits sender .monitor)
    (x : Party) : decide (x ∈ (actor.handle reading m).1.subscribers) = (m.word x).getD (decide (x ∈ actor.subscribers)) := by
  unfold handle
  rw [if_pos hOpened]
  cases m with
  | monitorSubscribe subscriber =>
      have hSame : (actor.handleSubscribe subscriber).1.subscribers = insert subscriber actor.subscribers := by
        unfold handleSubscribe
        dsimp only
        split <;> rfl
      dsimp only
      rw [hSame]
      by_cases hx : subscriber = x
      · simp [PipelineMessage.word, hx]
      · simp [PipelineMessage.word, hx, Ne.symm hx]
  | monitorUnsubscribe subscriber =>
      have hSame : (actor.handleUnsubscribe subscriber).1.subscribers = actor.subscribers.erase subscriber := by
        unfold handleUnsubscribe
        dsimp only
        split <;> rfl
      dsimp only
      rw [hSame]
      by_cases hx : subscriber = x
      · simp [PipelineMessage.word, hx]
      · simp [PipelineMessage.word, hx, Ne.symm hx]
  | sysDataSubscribe subscriber | sysDataUnsubscribe subscriber | pmuDataSubscribe subscriber
  | pmuDataUnsubscribe subscriber => cases hFits.2
  | _ => rfl

theorem state_handle : (actor.handle reading m).1.state = actor.state := by
  unfold handle
  split
  · split
    · unfold handleSubscribe
      dsimp only
      split <;> rfl
    · unfold handleUnsubscribe
      dsimp only
      split <;> rfl
    · rfl
    · rfl
    · rfl
  · rfl

/-- The monitor has data sent to it while it has subscribers. -/
def Subscribed (actor : MonitorActor F) : Prop := actor.subscribers = ∅ ↔ actor.dataSubscribed = false

theorem subscribed_handle (h : actor.Subscribed) : (actor.handle reading m).1.Subscribed := by
  unfold handle
  split
  · split
    · rename_i subscriber
      have hSome : insert subscriber actor.subscribers ≠ ∅ := Finset.insert_ne_empty _ _
      unfold handleSubscribe
      dsimp only
      split
      · exact ⟨fun hNone => absurd hNone hSome, nofun⟩
      · rename_i hData
        exact ⟨fun hNone => absurd hNone hSome, fun hNot => absurd hNot hData⟩
    · rename_i subscriber
      unfold handleUnsubscribe
      dsimp only
      split
      · rename_i hLast
        exact ⟨fun _ => rfl, fun _ => hLast.1⟩
      · rename_i hNot
        refine ⟨fun hNone => ?_, fun hNone => ?_⟩
        · cases hData : actor.dataSubscribed with
          | false => rfl
          | true => exact absurd ⟨hNone, hData⟩ hNot
        · show actor.subscribers.erase subscriber = ∅
          rw [h.mpr hNone]
          rfl
    · exact h
    · exact h
    · exact h
  · exact h

/-- What the monitor sends to somebody is meant for them. -/
theorem fits_handle {r : Party} {out : PipelineMessage F} (h : (r, out) ∈ (actor.handle reading m).2) :
    out.Fits .monitor r := by
  unfold handle at h
  split at h
  · split at h
    · unfold handleSubscribe at h
      dsimp only at h
      split at h
      · rcases List.mem_pair.mp h with hOut | hOut <;> cases hOut <;> exact ⟨rfl, rfl⟩
      · cases h
    · unfold handleUnsubscribe at h
      dsimp only at h
      split at h
      · rcases List.mem_pair.mp h with hOut | hOut <;> cases hOut <;> exact ⟨rfl, rfl⟩
      · cases h
    · rw [mem_forEach h]
      trivial
    · rw [mem_forEach h]
      trivial
    · cases h
  · cases h

end MonitorActor

namespace ManagerMessage

/-- What a manager is told about a party. -/
def word (subscriber : Party) : ManagerMessage → Option Bool
  | .subscribe x => if x = subscriber then some true else none
  | .unsubscribe x => if x = subscriber then some false else none
  | _ => none

end ManagerMessage

namespace PipelineMessage

omit [Zero F] in
/-- The system manager hears what it is told. -/
theorem word_toSystemManager {m : PipelineMessage F} {sender : Party} (hFits : m.Fits sender .systemManager)
    (x : Party) : m.toSystemManager.word x = m.word x := by
  cases m with
  | monitorSubscribe subscriber | monitorUnsubscribe subscriber => cases hFits.2.2
  | pmuDataSubscribe subscriber | pmuDataUnsubscribe subscriber => cases hFits.2
  | _ => rfl

omit [Zero F] in
theorem word_toDeviceManager {m : PipelineMessage F} {sender : Party} (hFits : m.Fits sender .deviceManager)
    (x : Party) : m.toDeviceManager.word x = m.word x := by
  cases m with
  | monitorSubscribe subscriber | monitorUnsubscribe subscriber => cases hFits.2.2
  | sysDataSubscribe subscriber | sysDataUnsubscribe subscriber => cases hFits.2
  | _ => rfl

end PipelineMessage

namespace ManagerActor

variable {D : Type} {actor : ManagerActor D} {update : D → PipelineMessage F} {collected : Option D} {empty : D}
  {m : ManagerMessage}

omit [Zero F] in
theorem subscribers_pumpIfNeeded : (actor.pumpIfNeeded update collected).1.subscribers = actor.subscribers := by
  unfold pumpIfNeeded
  split <;> rfl

omit [Zero F] in
theorem mem_subscribers_handle (hOpened : actor.state = .opened) (x : Party) :
    decide (x ∈ (actor.handle update collected empty m).1.subscribers) =
      (m.word x).getD (decide (x ∈ actor.subscribers)) := by
  unfold handle
  rw [if_pos hOpened]
  cases m with
  | tick =>
      dsimp only
      split
      · rw [subscribers_pumpIfNeeded]
        rfl
      · rfl
  | subscribe subscriber =>
      dsimp only
      rw [subscribers_pumpIfNeeded]
      by_cases hx : subscriber = x
      · simp [ManagerMessage.word, hx]
      · simp [ManagerMessage.word, hx, Ne.symm hx]
  | unsubscribe subscriber =>
      by_cases hx : subscriber = x
      · simp [ManagerMessage.word, hx]
      · simp [ManagerMessage.word, hx, Ne.symm hx]
  | unknown => rfl

omit [Zero F] in
theorem state_handle : (actor.handle update collected empty m).1.state = actor.state := by
  have hPump : ∀ actor : ManagerActor D, (actor.pumpIfNeeded update collected).1.state = actor.state := by
    intro actor
    unfold pumpIfNeeded
    split <;> rfl
  unfold handle
  split
  · split
    · split
      · exact hPump _
      · rfl
    · exact hPump _
    · rfl
    · rfl
  · rfl

omit [Zero F] in
/-- A manager sends data only. -/
theorem sent_handle {r : Party} {out : PipelineMessage F} (h : (r, out) ∈ (actor.handle update collected empty m).2) :
    ∃ data, out = update data := by
  have hPump : ∀ actor : ManagerActor D, (r, out) ∈ (actor.pumpIfNeeded update collected).2 →
      ∃ data, out = update data := by
    intro actor h
    unfold pumpIfNeeded at h
    split at h
    · cases h
    · exact ⟨_, mem_forEach h⟩
  unfold handle at h
  split at h
  · split at h
    · split at h
      · exact hPump _ h
      · cases h
    · exact hPump _ h
    · cases h
    · cases h
  · cases h

end ManagerActor

namespace Pipeline

/-- Who has subscribed to a publisher. -/
def subscribersOf (p : Pipeline F) : Party → Finset Party
  | .monitor => p.monitor.subscribers
  | .systemManager => p.systemManager.subscribers
  | .deviceManager => p.deviceManager.subscribers
  | _ => ∅

/-- What a publisher knows of a subscriber once it has heard all that is on its way from it. -/
def told (p : Pipeline F) (subscriber publisher : Party) : Bool :=
  lastWord (PipelineMessage.word subscriber) (decide (subscriber ∈ p.subscribersOf publisher))
    (p.channels subscriber publisher)

/-- The actors that others subscribe to are open, and every message is where it belongs. -/
structure Wired (p : Pipeline F) : Prop where
  fits : ∀ s r, ∀ m ∈ p.channels s r, m.Fits s r
  monitor : p.monitor.state = .opened
  systemManager : p.systemManager.state = .opened
  deviceManager : p.deviceManager.state = .opened
  subscribed : p.monitor.Subscribed
  only : ∀ x ∈ p.monitor.subscribers, x = .monitorBridge

section Handling

variable {p : Pipeline F} {receiver : Party} {reading : Reading F} {m : PipelineMessage F}

theorem channels_handle : (p.handle receiver reading m).1.channels = p.channels := by
  cases receiver <;> rfl

theorem failed_handle : (p.handle receiver reading m).1.failed = p.failed := by
  cases receiver <;> rfl

/-- The receiver learns what the message says. -/
theorem mem_subscribersOf_handle {sender : Party} (wired : p.Wired) (hFits : m.Fits sender receiver) (x : Party) :
    decide (x ∈ (p.handle receiver reading m).1.subscribersOf receiver) =
      (m.word x).getD (decide (x ∈ p.subscribersOf receiver)) := by
  cases receiver with
  | monitor => exact MonitorActor.mem_subscribers_handle wired.monitor hFits x
  | systemManager =>
      rw [← PipelineMessage.word_toSystemManager hFits]
      exact ManagerActor.mem_subscribers_handle wired.systemManager x
  | deviceManager =>
      rw [← PipelineMessage.word_toDeviceManager hFits]
      exact ManagerActor.mem_subscribers_handle wired.deviceManager x
  | monitorBridge | cmd | eventLoop | timer =>
      have hSilent : m.word x = none := by
        cases m <;> first | rfl | (obtain ⟨_, hr⟩ := hFits; simp at hr)
      rw [hSilent]
      rfl

theorem subscribersOf_handle_of_ne {publisher : Party} (h : publisher ≠ receiver) :
    (p.handle receiver reading m).1.subscribersOf publisher = p.subscribersOf publisher := by
  cases receiver <;> cases publisher <;> first | rfl | exact absurd rfl h

theorem fits_sent_handle {r : Party} {out : PipelineMessage F} (h : (r, out) ∈ (p.handle receiver reading m).2) :
    out.Fits receiver r := by
  cases receiver with
  | monitorBridge => exact MonitorBridgeActor.fits_handle h
  | monitor => exact MonitorActor.fits_handle h
  | systemManager | deviceManager =>
      obtain ⟨data, rfl⟩ := ManagerActor.sent_handle h
      trivial
  | cmd | eventLoop | timer => cases h

/-- The next message of a sender is handled, and the receiver sends messages. -/
def handled (p : Pipeline F) (sender receiver : Party) (reading : Reading F) (m : PipelineMessage F)
    (out : Sent F) : Pipeline F :=
  ((p.receive sender receiver).handle receiver reading m).1.send receiver out

variable {sender : Party} {rest : List (PipelineMessage F)} {out : Sent F}

theorem channels_handled :
    (p.handled sender receiver reading m out).channels =
      (p.channels.receive sender receiver).send receiver out := by
  show Channels.send ((p.receive sender receiver).handle receiver reading m).1.channels receiver out = _
  rw [channels_handle]
  rfl

theorem subscribersOf_handled (publisher : Party) :
    (p.handled sender receiver reading m out).subscribersOf publisher =
      ((p.receive sender receiver).handle receiver reading m).1.subscribersOf publisher := rfl

/-- A step only changes what others are told by its receiver, and by what that one sends. -/
theorem told_handled (wired : p.Wired) (hNext : p.channels sender receiver = m :: rest) (x y : Party) :
    (p.handled sender receiver reading m out).told x y =
      lastWord (PipelineMessage.word x) (p.told x y) (if x = receiver then Sent.to out y else []) := by
  have hFits : m.Fits sender receiver := wired.fits sender receiver m (hNext ▸ List.mem_cons_self ..)
  have hSame : (p.receive sender receiver).subscribersOf = p.subscribersOf := by
    funext z
    cases z <;> rfl
  have wired' : (p.receive sender receiver).Wired :=
    ⟨fun s r m hm => wired.fits s r m (Channels.subset_receive hm), wired.monitor, wired.systemManager,
      wired.deviceManager, wired.subscribed, wired.only⟩
  have hChannel : (p.handled sender receiver reading m out).channels x y =
      p.channels.receive sender receiver x y ++ (if x = receiver then Sent.to out y else []) := by
    rw [channels_handled]
    by_cases hx : x = receiver
    · subst hx
      rw [Channels.send_self, if_pos rfl]
      rfl
    · rw [Channels.send_of_ne hx, if_neg hx, List.append_nil]
  unfold told
  rw [hChannel, lastWord_append, subscribersOf_handled]
  congr 1
  by_cases hy : y = receiver
  · subst hy
    rw [mem_subscribersOf_handle wired' hFits x, hSame]
    by_cases hx : x = sender
    · subst hx
      rw [Channels.receive_self hNext, hNext]
      rfl
    · rw [Channels.receive_of_ne (.inl hx), PipelineMessage.word_of_fits hFits (Ne.symm hx)]
      rfl
  · rw [subscribersOf_handle_of_ne hy, hSame, Channels.receive_of_ne (.inr hy)]

theorem wired_handled (wired : p.Wired) (hNext : p.channels sender receiver = m :: rest)
    (hOut : out ⊆ ((p.receive sender receiver).handle receiver reading m).2) :
    (p.handled sender receiver reading m out).Wired := by
  have hFits : m.Fits sender receiver := wired.fits sender receiver m (hNext ▸ List.mem_cons_self ..)
  refine ⟨fun s r m' hm' => ?_, ?_, ?_, ?_, ?_, ?_⟩
  · rw [channels_handled] at hm'
    rcases Channels.mem_send hm' with hOld | ⟨rfl, hNew⟩
    · exact wired.fits s r m' (Channels.subset_receive hOld)
    · exact fits_sent_handle (hOut hNew)
  · cases receiver with
    | monitor => exact MonitorActor.state_handle.trans wired.monitor
    | _ => exact wired.monitor
  · cases receiver with
    | systemManager => exact ManagerActor.state_handle.trans wired.systemManager
    | _ => exact wired.systemManager
  · cases receiver with
    | deviceManager => exact ManagerActor.state_handle.trans wired.deviceManager
    | _ => exact wired.deviceManager
  · cases receiver with
    | monitor => exact MonitorActor.subscribed_handle wired.subscribed
    | _ => exact wired.subscribed
  · cases receiver with
    | monitor =>
        intro x hx
        replace hx : x ∈ (p.monitor.handle reading m).1.subscribers := hx
        have hKnown : decide (x ∈ (p.monitor.handle reading m).1.subscribers) = _ :=
          MonitorActor.mem_subscribers_handle wired.monitor hFits x
        rw [decide_eq_true hx] at hKnown
        cases hWord : m.word x with
        | none =>
            rw [hWord] at hKnown
            exact wired.only x (of_decide_eq_true hKnown.symm)
        | some said =>
            have hSender : sender = x := by
              by_contra hOther
              rw [PipelineMessage.word_of_fits hFits hOther] at hWord
              cases hWord
            cases m with
            | monitorSubscribe _ | monitorUnsubscribe _ => exact hSender ▸ hFits.2.1
            | sysDataSubscribe _ | sysDataUnsubscribe _ | pmuDataSubscribe _ | pmuDataUnsubscribe _ =>
                cases hFits.2
            | _ => cases hWord
    | _ => exact wired.only

end Handling

/-- Every actor has been told, or will be, what those that it serves want. -/
structure Agreed (p : Pipeline F) : Prop extends p.Wired where
  clients : p.told .monitorBridge .monitor = p.bridge.demand
  sysData : p.told .monitor .systemManager = p.monitor.dataSubscribed
  pmuData : p.told .monitor .deviceManager = p.monitor.dataSubscribed

section Flow

variable {p p' : Pipeline F} {sender receiver : Party} {reading : Reading F} {m : PipelineMessage F}
  {rest : List (PipelineMessage F)}

omit [Zero F] in
/-- A thread outside the actors sends a message that is no word of an actor. -/
theorem told_send {x : Party} (hx : x ≠ sender) (out : Sent F) (y : Party) : (p.send sender out).told x y = p.told x y := by
  unfold told
  rw [show (p.send sender out).channels x y = p.channels x y from Channels.send_of_ne hx]
  cases y <;> rfl

omit [Zero F] in
theorem wired_send (wired : p.Wired) (hFits : m.Fits sender receiver) : (p.send sender [(receiver, m)]).Wired := by
  refine ⟨fun s r m' hm' => ?_, wired.monitor, wired.systemManager, wired.deviceManager, wired.subscribed, wired.only⟩
  rcases Channels.mem_send hm' with hOld | ⟨rfl, hNew⟩
  · exact wired.fits s r m' hOld
  · cases List.mem_singleton.mp hNew
    exact hFits

omit [Zero F] in
theorem Agreed.send (agreed : p.Agreed) (hFits : m.Fits sender receiver)
    (hOutside : sender ≠ .monitorBridge ∧ sender ≠ .monitor) : (p.send sender [(receiver, m)]).Agreed where
  toWired := wired_send agreed.toWired hFits
  clients := (told_send (Ne.symm hOutside.1) _ _).trans agreed.clients
  sysData := (told_send (Ne.symm hOutside.2) _ _).trans agreed.sysData
  pmuData := (told_send (Ne.symm hOutside.2) _ _).trans agreed.pmuData

/-- Whoever handles a message says what has changed. -/
theorem Agreed.handled (agreed : p.Agreed) (hNext : p.channels sender receiver = m :: rest) :
    (p.handled sender receiver reading m ((p.receive sender receiver).handle receiver reading m).2).Agreed := by
  refine ⟨wired_handled agreed.toWired hNext (List.Subset.refl _), ?_, ?_, ?_⟩
  · rw [told_handled agreed.toWired hNext, agreed.clients]
    cases receiver with
    | monitorBridge => exact p.bridge.demand_handle m
    | _ => rfl
  · rw [told_handled agreed.toWired hNext, agreed.sysData]
    cases receiver with
    | monitor => exact MonitorActor.dataSubscribed_handle .systemManager (.inl rfl)
    | _ => rfl
  · rw [told_handled agreed.toWired hNext, agreed.pmuData]
    cases receiver with
    | monitor => exact MonitorActor.dataSubscribed_handle .deviceManager (.inr rfl)
    | _ => rfl

theorem Agreed.flow (agreed : p.Agreed) {choice : FlowChoice F} (hStep : p.flow choice = some p') : p'.Agreed := by
  cases choice with
  | connect conn | disconnect conn =>
      cases hStep
      exact agreed.send trivial ⟨nofun, nofun⟩
  | sysTick | pmuTick =>
      cases hStep
      exact agreed.send trivial ⟨nofun, nofun⟩
  | pmuStatus =>
      cases hStep
      exact agreed.send ⟨rfl, rfl⟩ ⟨nofun, nofun⟩
  | deliver sender receiver reading =>
      simp only [Pipeline.flow] at hStep
      split at hStep
      · cases hStep
      · split at hStep
        · cases hStep
        · rename_i m rest hNext
          cases hStep
          exact agreed.handled hNext

theorem agreed_opened : (opened : Pipeline F).Agreed where
  fits := fun _ _ _ hm => absurd hm List.not_mem_nil
  monitor := rfl
  systemManager := rfl
  deviceManager := rfl
  subscribed := ⟨fun _ => rfl, fun _ => rfl⟩
  only := fun x hx => absurd hx (Finset.notMem_empty x)
  clients := rfl
  sysData := rfl
  pmuData := rfl

end Flow

omit [Zero F] in
/-- With no subscription on its way, what a publisher knows is what its subscriber has said. -/
theorem told_of_quiet {p : Pipeline F} (hQuiet : ∀ s r, ∀ m ∈ p.channels s r, m.isSubscription = false) (x y : Party) :
    p.told x y = decide (x ∈ p.subscribersOf y) :=
  lastWord_of_silent fun m hm => PipelineMessage.word_of_not_isSubscription (hQuiet x y m hm) x

/-- Whatever the clients do and in whichever order messages are handled, all actors agree on whether
somebody wants data as soon as no subscription is on its way. -/
theorem demand_agrees {p : Pipeline F} (reach : Calls flow (· = opened) anyCall p)
    (hQuiet : ∀ s r, ∀ m ∈ p.channels s r, m.isSubscription = false) :
    (p.bridge.connections ≠ ∅ ↔ .monitorBridge ∈ p.monitor.subscribers) ∧
      (p.monitor.subscribers ≠ ∅ ↔ p.monitor.dataSubscribed = true) ∧
      (p.monitor.dataSubscribed = true ↔
        .monitor ∈ p.systemManager.subscribers ∧ .monitor ∈ p.deviceManager.subscribers) := by
  have agreed : p.Agreed := by
    apply reach.invariant (I := Agreed)
    · rintro p rfl
      exact agreed_opened
    · intro p choice p' _ agreed _ hStep
      exact agreed.flow hStep
  have hClients := agreed.clients
  have hSys := agreed.sysData
  have hPmu := agreed.pmuData
  rw [told_of_quiet hQuiet] at hClients hSys hPmu
  refine ⟨?_, ?_, ?_⟩
  · exact (decide_eq_decide.mp hClients).symm
  · rw [← Bool.not_eq_false]
    exact not_congr agreed.subscribed
  · rw [← hSys, decide_eq_true_eq]
    refine ⟨fun hMember => ⟨hMember, ?_⟩, fun hMembers => hMembers.1⟩
    rw [← hSys, decide_eq_decide] at hPmu
    exact hPmu.mpr hMember

/-- A client has come, and its demand has gone through to both managers. -/
def afterConnect : Pipeline Nat :=
  (Calls.replay flow anyCall opened
    [.connect 7, .deliver .eventLoop .monitorBridge ⟨0, [], none, none⟩,
      .deliver .monitorBridge .monitor ⟨0, [], none, none⟩,
      .deliver .monitor .deviceManager ⟨0, [], none, some .empty⟩,
      .deliver .monitor .systemManager ⟨0, [], some .empty, none⟩]).get (by decide +kernel)

theorem demand_agrees_afterConnect :
    (afterConnect.bridge.connections ≠ ∅ ↔ .monitorBridge ∈ afterConnect.monitor.subscribers) ∧
      (afterConnect.monitor.subscribers ≠ ∅ ↔ afterConnect.monitor.dataSubscribed = true) ∧
      (afterConnect.monitor.dataSubscribed = true ↔
        .monitor ∈ afterConnect.systemManager.subscribers ∧ .monitor ∈ afterConnect.deviceManager.subscribers) :=
  demand_agrees (Calls.of_replay (.start rfl) (Option.some_get _).symm) (by decide +kernel)

end Pipeline

end Service
