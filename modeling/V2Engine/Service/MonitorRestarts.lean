import V2Engine.Service.MonitorDemand

/-! Which restarts of the bridge and of the monitor the demand for data survives. An actor that
is closed forgets what others have told it and what it has told others, and the messages that
had arrived are gone; nobody says anything again before the first or the last client. -/
namespace Service

open Interleaving

variable {F : Type} [Zero F]

namespace Pipeline

/-- Nothing is on its way, and no restart is under way. -/
def Delivered (p : Pipeline F) : Prop := (∀ s r, p.channels s r = []) ∧ p.failed = ∅

/-- Clients are served, and nothing is collected without them. -/
def Served (p : Pipeline F) : Prop :=
  (p.bridge.connections ≠ ∅ → .monitorBridge ∈ p.monitor.subscribers) ∧
    (p.bridge.connections = ∅ → .monitorBridge ∉ p.monitor.subscribers ∧
      .monitor ∉ p.systemManager.subscribers ∧ .monitor ∉ p.deviceManager.subscribers)

/-- What the bridge has said to the monitor last is on its way. -/
def Speaks (p : Pipeline F) : Prop :=
  ¬ Silent (PipelineMessage.word .monitorBridge) (p.channels .monitorBridge .monitor)

/-- The monitor knows the demand of the bridge or will hear of it. While it waits for its restart
only what is on its way counts. -/
def Knows (p : Pipeline F) (demand : Bool) : Prop :=
  (.monitor ∈ p.failed → p.Speaks) → p.told .monitorBridge .monitor = demand

/-- The monitor asks for data, or will be asked for it, or has nothing left to cancel. -/
def Releases (p : Pipeline F) : Prop :=
  p.monitor.dataSubscribed = true ∨ .monitorSubscribe .monitorBridge ∈ p.channels .monitorBridge .monitor ∨
    (p.told .monitor .systemManager = false ∧ p.told .monitor .deviceManager = false)

/-- The monitor may lose the messages that have arrived and, if it `restarts`, its subscribers: what
the bridge wants is still on its way or is what the monitor remembers, and unless the monitor remembers
that it asked for data or is about to be asked, both managers have been told to stop. -/
def Resumes (p : Pipeline F) (arrived : Party → Nat) (restarts : Bool) : Prop :=
  let left := (p.channels .monitorBridge .monitor).drop (arrived .monitorBridge)
  (.monitorBridge ∉ p.failed → Silent (PipelineMessage.word .monitorBridge) left →
    p.bridge.demand = (!restarts && decide (.monitorBridge ∈ p.monitor.subscribers))) ∧
    ((restarts = false ∧ p.monitor.dataSubscribed = true) ∨ .monitorSubscribe .monitorBridge ∈ left ∨
      (p.told .monitor .systemManager = false ∧ p.told .monitor .deviceManager = false))

/-- The monitor is restarted with `Resumes` only, and the bridge when its last word to the monitor
is what holds of it afterwards: that it has no clients. -/
def keepsDemand (p : Pipeline F) : PipelineChoice F → Prop
  | .recover .monitor arrived restarts _ => p.Resumes arrived restarts
  | .restart .monitor _ => p.Resumes (fun _ => 0) true
  | .recover .monitorBridge _ restarts _ => p.Knows (!restarts && p.bridge.demand)
  | .restart .monitorBridge _ => p.Knows false
  | _ => True

section Decide

variable (p : Pipeline F)

instance (word : PipelineMessage F → Option Bool) (channel : List (PipelineMessage F)) :
    Decidable (Silent word channel) := inferInstanceAs (Decidable (∀ m ∈ channel, word m = none))

instance (demand : Bool) : Decidable (p.Knows demand) := inferInstanceAs (Decidable ((_ → ¬ _) → _))

instance [DecidableEq F] (arrived : Party → Nat) (restarts : Bool) : Decidable (p.Resumes arrived restarts) :=
  inferInstanceAs (Decidable (_ ∧ _))

instance [DecidableEq F] (choice : PipelineChoice F) : Decidable (p.keepsDemand choice) := by
  unfold keepsDemand
  split <;> infer_instance

end Decide

/-- What every run keeps in which no restart forgets a demand. -/
structure Remembered (p : Pipeline F) : Prop extends p.Wired where
  idle : p.bridge.state ≠ .opened → p.bridge.connections = ∅
  two : ∀ x ∈ p.failed, x = .monitor ∨ x = .monitorBridge
  knows : .monitorBridge ∉ p.failed → p.Knows p.bridge.demand
  releases : .monitor ∉ p.failed → p.Releases

section Handled

variable {p : Pipeline F} {sender receiver : Party} {reading : Reading F} {m : PipelineMessage F}
  {rest : List (PipelineMessage F)} {out : Sent F}

/-- The bridge does not change its state, and does nothing before it is open. -/
theorem idle_handled (remembered : p.Remembered) :
    (p.handled sender receiver reading m out).bridge.state ≠ .opened →
      (p.handled sender receiver reading m out).bridge.connections = ∅ := by
  cases receiver with
  | monitorBridge =>
      show (p.bridge.handle m).1.state ≠ .opened → (p.bridge.handle m).1.connections = ∅
      intro hState
      unfold MonitorBridgeActor.handle at hState ⊢
      split at hState
      · rename_i hOpened
        exfalso
        apply hState
        split
        · exact hOpened
        · unfold MonitorBridgeActor.handleClientDisconnected
          split <;> exact hOpened
        · exact hOpened
      · rename_i hClosed
        rw [if_neg hClosed]
        exact remembered.idle hClosed
  | _ => exact remembered.idle

/-- What is on its way to the monitor from the bridge, unless one of the two is at work. -/
theorem channel_handled (hReceiver : receiver ≠ .monitorBridge) (hPair : sender ≠ .monitorBridge ∨ receiver ≠ .monitor) :
    (p.handled sender receiver reading m out).channels .monitorBridge .monitor = p.channels .monitorBridge .monitor := by
  rw [channels_handled, Channels.send_of_ne (Ne.symm hReceiver)]
  exact Channels.receive_of_ne (hPair.imp Ne.symm Ne.symm)

theorem failed_handled : (p.handled sender receiver reading m out).failed = p.failed := failed_handle

/-- The bridge says what has changed, and the monitor hears it. -/
theorem knows_handled (remembered : p.Remembered) (hNext : p.channels sender receiver = m :: rest)
    (hReceiver : receiver ∉ p.failed) (hBridge : .monitorBridge ∉ p.failed)
    (hOut : receiver = .monitorBridge → out = (p.bridge.handle m).2) :
    (p.handled sender receiver reading m out).Knows (p.handled sender receiver reading m out).bridge.demand := by
  intro hWaits
  rw [failed_handled] at hWaits
  rw [told_handled remembered.toWired hNext]
  have hKnows := remembered.knows hBridge
  by_cases hr : receiver = .monitorBridge
  · subst hr
    rw [if_pos rfl, hOut rfl]
    have hSaid := p.bridge.demand_handle m
    by_cases hSilent : Silent (PipelineMessage.word .monitorBridge) (Sent.to (p.bridge.handle m).2 .monitor)
    · rw [hKnows]
      · exact hSaid
      · intro hFailed hQuiet
        apply hWaits hFailed
        rw [channels_handled, Channels.send_self, hOut rfl]
        intro m' hm'
        rcases List.mem_append.mp hm' with hOld | hNew
        · exact hQuiet m' (Channels.subset_receive hOld)
        · exact hSilent m' hNew
    · rw [lastWord_of_not_silent _ p.bridge.demand hSilent]
      exact hSaid
  · rw [if_neg (Ne.symm hr)]
    have hSame : (p.handled sender receiver reading m out).bridge = p.bridge := by
      cases receiver <;> first | rfl | exact absurd rfl hr
    rw [hSame]
    apply hKnows
    intro hFailed
    have hOther : receiver ≠ .monitor := fun hSame => hReceiver (hSame ▸ hFailed)
    have hSpeaks := hWaits hFailed
    unfold Speaks at hSpeaks
    rw [channel_handled hr (.inr hOther)] at hSpeaks
    exact hSpeaks

/-- The monitor asks for data when somebody subscribes. -/
theorem dataSubscribed_handle_subscribe {actor : MonitorActor F} (hOpened : actor.state = .opened) (x : Party) :
    (actor.handle reading (.monitorSubscribe x)).1.dataSubscribed = true := by
  unfold MonitorActor.handle
  rw [if_pos hOpened]
  unfold MonitorActor.handleSubscribe
  dsimp only
  split
  · rfl
  · rename_i hData
    exact eq_true_of_ne_false hData

/-- The monitor tells the managers to stop, or they have been told. -/
theorem releases_handled (remembered : p.Remembered) (hNext : p.channels sender receiver = m :: rest)
    (hReceiver : receiver ∉ p.failed) (hMonitor : .monitor ∉ p.failed)
    (hOut : receiver = .monitor → out = (p.monitor.handle reading m).2) :
    (p.handled sender receiver reading m out).Releases := by
  have hReleases := remembered.releases hMonitor
  unfold Releases
  simp only [told_handled remembered.toWired hNext]
  by_cases hr : receiver = .monitor
  · subst hr
    rw [if_pos rfl, hOut rfl]
    show (p.monitor.handle reading m).1.dataSubscribed = true ∨ _
    have hSys : lastWord (PipelineMessage.word .monitor) p.monitor.dataSubscribed
        (Sent.to (p.monitor.handle reading m).2 .systemManager) = (p.monitor.handle reading m).1.dataSubscribed :=
      MonitorActor.dataSubscribed_handle .systemManager (.inl rfl)
    have hPmu : lastWord (PipelineMessage.word .monitor) p.monitor.dataSubscribed
        (Sent.to (p.monitor.handle reading m).2 .deviceManager) = (p.monitor.handle reading m).1.dataSubscribed :=
      MonitorActor.dataSubscribed_handle .deviceManager (.inr rfl)
    cases hAfter : (p.monitor.handle reading m).1.dataSubscribed with
    | true => exact .inl rfl
    | false =>
        apply Or.inr
        rw [hAfter] at hSys hPmu
        cases hBefore : p.monitor.dataSubscribed with
        | true =>
            rw [hBefore] at hSys hPmu
            exact .inr ⟨lastWord_of_ne hSys nofun _, lastWord_of_ne hPmu nofun _⟩
        | false =>
            rcases hReleases with hData | hSubscribe | ⟨hSysTold, hPmuTold⟩
            · rw [hBefore] at hData
              cases hData
            · apply Or.inl
              have hOther : Party.monitorBridge ≠ .monitor := nofun
              rw [channels_handled, Channels.send_of_ne hOther]
              by_cases hs : sender = .monitorBridge
              · subst hs
                rw [Channels.receive_self hNext]
                rw [hNext] at hSubscribe
                rcases List.mem_cons.mp hSubscribe with rfl | hLater
                · rw [dataSubscribed_handle_subscribe remembered.monitor] at hAfter
                  cases hAfter
                · exact hLater
              · rw [Channels.receive_of_ne (.inl (Ne.symm hs))]
                exact hSubscribe
            · apply Or.inr
              rw [hSysTold, hPmuTold]
              rw [hBefore] at hSys hPmu
              exact ⟨hSys, hPmu⟩
  · rw [if_neg (Ne.symm hr), if_neg (Ne.symm hr)]
    have hSame : (p.handled sender receiver reading m out).monitor = p.monitor := by
      cases receiver <;> first | rfl | exact absurd rfl hr
    rw [hSame]
    rcases hReleases with hData | hSubscribe | hTold
    · exact .inl hData
    · apply Or.inr
      apply Or.inl
      rw [channels_handled]
      unfold Channels.send
      rw [Channels.receive_of_ne (.inr (Ne.symm hr))]
      split
      · exact List.mem_append_left _ hSubscribe
      · exact hSubscribe
    · exact .inr (.inr hTold)

theorem Remembered.handled (remembered : p.Remembered) (hNext : p.channels sender receiver = m :: rest)
    (hReceiver : receiver ∉ p.failed) :
    (p.handled sender receiver reading m ((p.receive sender receiver).handle receiver reading m).2).Remembered where
  toWired := wired_handled remembered.toWired hNext (List.Subset.refl _)
  idle := idle_handled remembered
  two := by
    rw [failed_handled]
    exact remembered.two
  knows hBridge := by
    rw [failed_handled] at hBridge
    apply knows_handled remembered hNext hReceiver hBridge
    rintro rfl
    rfl
  releases hMonitor := by
    rw [failed_handled] at hMonitor
    apply releases_handled remembered hNext hReceiver hMonitor
    rintro rfl
    rfl

end Handled

section Steps

variable {p p' : Pipeline F} {sender receiver : Party} {reading : Reading F} {m : PipelineMessage F}
  {rest : List (PipelineMessage F)}

omit [Zero F] in
/-- A thread outside the actors sends a message. -/
theorem Remembered.send (remembered : p.Remembered) (hFits : m.Fits sender receiver)
    (hOutside : sender ≠ .monitorBridge ∧ sender ≠ .monitor) : (p.send sender [(receiver, m)]).Remembered := by
  have hChannel : (p.send sender [(receiver, m)]).channels .monitorBridge .monitor =
      p.channels .monitorBridge .monitor := Channels.send_of_ne (Ne.symm hOutside.1)
  refine ⟨wired_send remembered.toWired hFits, remembered.idle, remembered.two, fun hBridge => ?_,
    fun hMonitor => ?_⟩
  · have hKnows := remembered.knows hBridge
    unfold Knows Speaks at hKnows ⊢
    rw [hChannel, told_send (Ne.symm hOutside.1)]
    exact hKnows
  · have hReleases := remembered.releases hMonitor
    unfold Releases at hReleases ⊢
    rw [hChannel, told_send (Ne.symm hOutside.2), told_send (Ne.symm hOutside.2)]
    exact hReleases

theorem Remembered.flow (remembered : p.Remembered) {choice : FlowChoice F} (hStep : p.flow choice = some p') :
    p'.Remembered := by
  cases choice with
  | connect conn | disconnect conn =>
      cases hStep
      exact remembered.send trivial ⟨nofun, nofun⟩
  | sysTick | pmuTick =>
      cases hStep
      exact remembered.send trivial ⟨nofun, nofun⟩
  | pmuStatus =>
      cases hStep
      exact remembered.send ⟨rfl, rfl⟩ ⟨nofun, nofun⟩
  | deliver sender receiver reading =>
      simp only [Pipeline.flow] at hStep
      split at hStep
      · cases hStep
      · rename_i hReceiver
        split at hStep
        · cases hStep
        · rename_i m rest hNext
          cases hStep
          exact remembered.handled hNext hReceiver

omit [Zero F] in
theorem Stands.two {state : ActorState} (h : p.Stands receiver state) :
    receiver ∉ p.failed ∧ (receiver = .monitor ∨ receiver = .monitorBridge) := by
  obtain ⟨hWorks, hState⟩ := h
  cases receiver with
  | monitorBridge => exact ⟨hWorks, .inr rfl⟩
  | monitor => exact ⟨hWorks, .inl rfl⟩
  | _ => exact hState.elim

omit [Zero F] in
theorem two_insert (remembered : p.Remembered) (h : receiver = .monitor ∨ receiver = .monitorBridge) :
    ∀ x ∈ insert receiver p.failed, x = .monitor ∨ x = .monitorBridge := by
  intro x hx
  rcases Finset.mem_insert.mp hx with rfl | hOld
  · exact h
  · exact remembered.two x hOld

/-- A handler throws after some of its sends. -/
theorem Remembered.throws (remembered : p.Remembered) (hNext : p.channels sender receiver = m :: rest)
    (hStands : p.Stands receiver .opened) {out : Sent F}
    (hOut : out ⊆ ((p.receive sender receiver).handle receiver reading m).2) :
    ({ p.handled sender receiver reading m out with failed := insert receiver p.failed } : Pipeline F).Remembered := by
  obtain ⟨hReceiver, hTwo⟩ := hStands.two
  have wired := wired_handled remembered.toWired hNext hOut
  have hIdle : (p.handled sender receiver reading m out).bridge.state ≠ .opened → _ := idle_handled remembered
  refine ⟨⟨wired.fits, wired.monitor, wired.systemManager, wired.deviceManager, wired.subscribed, wired.only⟩,
    hIdle, two_insert remembered hTwo, fun hBridge => ?_, fun hMonitor => ?_⟩
  · rw [Finset.mem_insert, not_or] at hBridge
    have hMonitor : receiver = .monitor := hTwo.resolve_right (Ne.symm hBridge.1)
    subst hMonitor
    have hKnows : (p.handled sender .monitor reading m out).Knows _ :=
      knows_handled remembered hNext hReceiver hBridge.2 nofun
    intro _
    apply hKnows
    intro hFailed
    rw [failed_handled] at hFailed
    exact absurd hFailed hReceiver
  · rw [Finset.mem_insert, not_or] at hMonitor
    have hBridge : receiver = .monitorBridge := hTwo.resolve_left (Ne.symm hMonitor.1)
    subst hBridge
    have hReleases : (p.handled sender .monitorBridge reading m out).Releases :=
      releases_handled remembered hNext hReceiver hMonitor.2 nofun
    exact hReleases

omit [Zero F] in
/-- A handler throws before it has done anything, and its message is lost. -/
theorem Remembered.loses (remembered : p.Remembered) (hNext : p.channels sender receiver = m :: rest)
    (hStands : p.Stands receiver .opened) :
    ({ p.receive sender receiver with failed := insert receiver p.failed } : Pipeline F).Remembered := by
  obtain ⟨hReceiver, hTwo⟩ := hStands.two
  refine ⟨⟨fun s r m' hm' => remembered.fits s r m' (Channels.subset_receive hm'), remembered.monitor,
    remembered.systemManager, remembered.deviceManager, remembered.subscribed, remembered.only⟩,
    remembered.idle, two_insert remembered hTwo, fun hBridge => ?_, fun hMonitor => ?_⟩
  · rw [Finset.mem_insert, not_or] at hBridge
    have hMonitor : receiver = .monitor := hTwo.resolve_right (Ne.symm hBridge.1)
    subst hMonitor
    intro hSpeaks
    have hWord : ¬ Silent (PipelineMessage.word .monitorBridge)
        (p.channels.receive sender .monitor .monitorBridge .monitor) := hSpeaks (Finset.mem_insert_self ..)
    have hTold : p.told .monitorBridge .monitor = p.bridge.demand :=
      remembered.knows hBridge.2 fun hFailed => absurd hFailed hReceiver
    refine Eq.trans ?_ hTold
    show lastWord _ (decide (.monitorBridge ∈ p.monitor.subscribers))
      (p.channels.receive sender .monitor .monitorBridge .monitor) = _
    by_cases hs : sender = .monitorBridge
    · subst hs
      unfold told
      rw [Channels.receive_self hNext] at hWord ⊢
      rw [hNext, lastWord_cons]
      exact lastWord_of_not_silent _ _ hWord
    · rw [Channels.receive_of_ne (.inl (Ne.symm hs))]
      rfl
  · rw [Finset.mem_insert, not_or] at hMonitor
    have hBridge : receiver = .monitorBridge := hTwo.resolve_left (Ne.symm hMonitor.1)
    subst hBridge
    have hSame : ∀ x y, y ≠ .monitorBridge → p.channels.receive sender .monitorBridge x y = p.channels x y :=
      fun x y hy => Channels.receive_of_ne (.inr hy)
    have hReleases := remembered.releases hMonitor.2
    unfold Releases told at hReleases ⊢
    simp only [Pipeline.receive, hSame _ _ (show Party.monitor ≠ .monitorBridge from nofun),
      hSame _ _ (show Party.systemManager ≠ .monitorBridge from nofun),
      hSame _ _ (show Party.deviceManager ≠ .monitorBridge from nofun)]
    exact hReleases

omit [Zero F] in
theorem channel_drain (p : Pipeline F) {x y : Party} (hy : y ≠ receiver) (arrived : Party → Nat) :
    p.channels.drain receiver arrived x y = p.channels x y := if_neg hy

omit [Zero F] in
/-- The monitor goes on without the messages that had arrived, and without its subscribers if it
was restarted. -/
theorem Remembered.resumes (remembered : p.Remembered) {arrived : Party → Nat} {restarts : Bool}
    (hResumes : p.Resumes arrived restarts) (hChannels : p'.channels = p.channels.drain .monitor arrived)
    (hFailed : p'.failed = p.failed.erase .monitor) (hBridge : p'.bridge = p.bridge)
    (hManagers : p'.systemManager = p.systemManager ∧ p'.deviceManager = p.deviceManager)
    (hState : p'.monitor.state = .opened)
    (hSubscribers : p'.monitor.subscribers = if restarts then ∅ else p.monitor.subscribers)
    (hData : p'.monitor.dataSubscribed = (!restarts && p.monitor.dataSubscribed)) : p'.Remembered := by
  obtain ⟨hDemand, hLeft⟩ := hResumes
  have hArriving : p'.channels .monitorBridge .monitor =
      (p.channels .monitorBridge .monitor).drop (arrived .monitorBridge) := by
    rw [hChannels]
    exact if_pos rfl
  refine ⟨⟨fun s r m hm => ?_, hState, ?_, ?_, ?_, fun x hx => ?_⟩, ?_, fun x hx => ?_, fun hWorks => ?_, fun _ => ?_⟩
  · rw [hChannels] at hm
    exact remembered.fits s r m (Channels.subset_drain hm)
  · rw [hManagers.1]
    exact remembered.systemManager
  · rw [hManagers.2]
    exact remembered.deviceManager
  · unfold MonitorActor.Subscribed
    rw [hSubscribers, hData]
    cases restarts with
    | true => exact ⟨fun _ => rfl, fun _ => rfl⟩
    | false => exact remembered.subscribed
  · rw [hSubscribers] at hx
    cases restarts with
    | true => exact absurd hx (Finset.notMem_empty x)
    | false => exact remembered.only x hx
  · rw [hBridge]
    exact remembered.idle
  · rw [hFailed] at hx
    exact remembered.two x (Finset.mem_of_mem_erase hx)
  · rw [hFailed] at hWorks
    have hBridgeWorks : .monitorBridge ∉ p.failed := fun hIn =>
      hWorks (Finset.mem_erase.mpr ⟨nofun, hIn⟩)
    intro _
    rw [hBridge]
    unfold told
    rw [hArriving]
    by_cases hSilent : Silent (PipelineMessage.word .monitorBridge)
        ((p.channels .monitorBridge .monitor).drop (arrived .monitorBridge))
    · rw [lastWord_of_silent hSilent, hDemand hBridgeWorks hSilent]
      show decide (.monitorBridge ∈ p'.monitor.subscribers) = _
      rw [hSubscribers]
      cases restarts <;> rfl
    · rw [lastWord_drop _ (decide (.monitorBridge ∈ p.subscribersOf .monitor)) _ hSilent]
      apply remembered.knows hBridgeWorks
      intro _ hQuiet
      apply hSilent
      exact fun m hm => hQuiet m (List.mem_of_mem_drop hm)
  · unfold Releases
    rw [hArriving, hData]
    rcases hLeft with ⟨hGoesOn, hAsked⟩ | hSubscribe | ⟨hSys, hPmu⟩
    · apply Or.inl
      rw [hGoesOn, hAsked]
      rfl
    · exact .inr (.inl hSubscribe)
    · refine .inr (.inr ⟨Eq.trans ?_ hSys, Eq.trans ?_ hPmu⟩)
      · unfold told
        rw [hChannels, channel_drain p (show Party.systemManager ≠ .monitor from nofun)]
        show lastWord _ (decide (_ ∈ p'.systemManager.subscribers)) _ = _
        rw [hManagers.1]
        rfl
      · unfold told
        rw [hChannels, channel_drain p (show Party.deviceManager ≠ .monitor from nofun)]
        show lastWord _ (decide (_ ∈ p'.deviceManager.subscribers)) _ = _
        rw [hManagers.2]
        rfl

omit [Zero F] in
/-- The bridge goes on without the messages that had arrived, and without its clients if it was
restarted. -/
theorem Remembered.reconnects (remembered : p.Remembered) {arrived : Party → Nat} {restarts : Bool}
    (hKnows : p.Knows (!restarts && p.bridge.demand)) (hChannels : p'.channels = p.channels.drain .monitorBridge arrived)
    (hFailed : p'.failed = p.failed.erase .monitorBridge) (hMonitor : p'.monitor = p.monitor)
    (hManagers : p'.systemManager = p.systemManager ∧ p'.deviceManager = p.deviceManager)
    (hIdle : p'.bridge.state ≠ .opened → p'.bridge.connections = ∅)
    (hDemand : p'.bridge.demand = (!restarts && p.bridge.demand)) : p'.Remembered := by
  have hOther : Party.monitor ∈ p'.failed ↔ .monitor ∈ p.failed := by
    rw [hFailed]
    exact ⟨Finset.mem_of_mem_erase, fun hIn => Finset.mem_erase.mpr ⟨nofun, hIn⟩⟩
  have hSame : ∀ x y, y ≠ .monitorBridge → p'.channels x y = p.channels x y := fun x y hy => by
    rw [hChannels]
    exact channel_drain p hy arrived
  have hPublishers : ∀ y, p'.subscribersOf y = p.subscribersOf y := by
    intro y
    cases y with
    | monitor => exact congrArg MonitorActor.subscribers hMonitor
    | systemManager => exact congrArg ManagerActor.subscribers hManagers.1
    | deviceManager => exact congrArg ManagerActor.subscribers hManagers.2
    | _ => rfl
  have hTold : ∀ x y, y ≠ .monitorBridge → p'.told x y = p.told x y := fun x y hy => by
    unfold told
    rw [hSame x y hy, hPublishers]
  refine ⟨⟨fun s r m hm => ?_, ?_, ?_, ?_, ?_, ?_⟩, hIdle, fun x hx => ?_, fun _ hWaits => ?_, fun hWorks => ?_⟩
  · rw [hChannels] at hm
    exact remembered.fits s r m (Channels.subset_drain hm)
  · rw [hMonitor]
    exact remembered.monitor
  · rw [hManagers.1]
    exact remembered.systemManager
  · rw [hManagers.2]
    exact remembered.deviceManager
  · rw [hMonitor]
    exact remembered.subscribed
  · rw [hMonitor]
    exact remembered.only
  · rw [hFailed] at hx
    exact remembered.two x (Finset.mem_of_mem_erase hx)
  · rw [hDemand, hTold .monitorBridge .monitor nofun]
    apply hKnows
    intro hIn
    have hSpeaks := hWaits (hOther.mpr hIn)
    unfold Speaks at hSpeaks
    rw [hSame .monitorBridge .monitor nofun] at hSpeaks
    exact hSpeaks
  · have hReleases := remembered.releases fun hIn => hWorks (hOther.mpr hIn)
    unfold Releases at hReleases ⊢
    rw [hMonitor, hSame .monitorBridge .monitor nofun, hTold .monitor .systemManager nofun,
      hTold .monitor .deviceManager nofun]
    exact hReleases

/-- A restart of the monitor, with or without a drain. -/
theorem Remembered.restartsMonitor (remembered : p.Remembered) {arrived : Party → Nat} (started : Bool)
    (hResumes : p.Resumes arrived true) : ((p.drain .monitor arrived).restart .monitor started).Remembered := by
  have hClosed : p.monitor.close = ⟨.closed, ∅, false, .empty, .empty⟩ := by
    apply if_neg
    rw [remembered.monitor]
    exact nofun
  refine remembered.resumes hResumes rfl rfl rfl ⟨rfl, rfl⟩ rfl ?_ ?_
  · exact congrArg MonitorActor.subscribers hClosed
  · exact congrArg MonitorActor.dataSubscribed hClosed

theorem Remembered.restartsBridge (remembered : p.Remembered) {arrived : Party → Nat} (started : Bool)
    (hKnows : p.Knows (!true && p.bridge.demand)) :
    ((p.drain .monitorBridge arrived).restart .monitorBridge started).Remembered := by
  have hClosed : p.bridge.close.connections = ∅ := by
    unfold MonitorBridgeActor.close
    split
    · rename_i hState
      apply remembered.idle
      rw [hState]
      exact nofun
    · rfl
  refine remembered.reconnects hKnows rfl rfl rfl ⟨rfl, rfl⟩ (fun _ => hClosed) ?_
  show p.bridge.close.demand = false
  unfold MonitorBridgeActor.demand
  rw [hClosed]
  rfl

omit [Zero F] in
/-- Nothing is drained when an actor is asked to restart. -/
theorem drain_none (h : receiver ∉ p.failed) : p.drain receiver (fun _ => 0) = p := by
  have hChannels : p.channels.drain receiver (fun _ => 0) = p.channels := by
    funext s r
    exact ite_self _
  unfold Pipeline.drain
  rw [hChannels, Finset.erase_eq_of_notMem h]

theorem Remembered.step (remembered : p.Remembered) {choice : PipelineChoice F} (hKeeps : p.keepsDemand choice)
    (hStep : step choice p = some p') : p'.Remembered := by
  cases choice with
  | flow choice => exact remembered.flow hStep
  | fail sender receiver reading sent =>
      obtain ⟨hStands, hAfter⟩ := Option.ite_none_right_eq_some.mp hStep
      split at hAfter
      · cases hAfter
      · rename_i m rest hNext
        cases hAfter
        exact remembered.loses hNext hStands
      · rename_i m rest n hNext
        cases hAfter
        exact remembered.throws hNext hStands (List.take_subset n _)
  | recover receiver arrived restarts started =>
      obtain ⟨hFailed, hAfter⟩ := Option.ite_none_right_eq_some.mp hStep
      cases hAfter
      rcases remembered.two receiver hFailed with rfl | rfl
      · cases restarts with
        | true => exact remembered.restartsMonitor started hKeeps
        | false => exact remembered.resumes hKeeps rfl rfl rfl ⟨rfl, rfl⟩ remembered.monitor rfl rfl
      · cases restarts with
        | true => exact remembered.restartsBridge started hKeeps
        | false => exact remembered.reconnects hKeeps rfl rfl rfl ⟨rfl, rfl⟩ remembered.idle rfl
  | restart receiver started =>
      obtain ⟨hStands, hAfter⟩ := Option.ite_none_right_eq_some.mp hStep
      cases hAfter
      obtain ⟨hWorks, hTwo⟩ := hStands.two
      rw [← drain_none hWorks]
      rcases hTwo with rfl | rfl
      · exact remembered.restartsMonitor started hKeeps
      · exact remembered.restartsBridge started hKeeps
  | enable receiver started =>
      obtain ⟨⟨hWorks, hState⟩, hAfter⟩ := Option.ite_none_right_eq_some.mp hStep
      cases hAfter
      cases receiver with
      | monitor =>
          rw [remembered.monitor] at hState
          cases hState
      | monitorBridge =>
          have hNone : p.bridge.connections = ∅ := by
            apply remembered.idle
            rw [hState]
            exact nofun
          exact ⟨⟨remembered.fits, remembered.monitor, remembered.systemManager, remembered.deviceManager,
            remembered.subscribed, remembered.only⟩, fun _ => hNone, remembered.two, remembered.knows,
            remembered.releases⟩
      | _ => exact hState.elim

end Steps

theorem remembered_opened : (opened : Pipeline F).Remembered where
  toWired := agreed_opened.toWired
  idle := fun hState => absurd rfl hState
  two := fun x hx => absurd hx (Finset.notMem_empty x)
  knows := fun _ _ => rfl
  releases := fun _ => .inr (.inr ⟨rfl, rfl⟩)

omit [Zero F] in
theorem told_of_delivered {p : Pipeline F} (hDelivered : p.Delivered) (x y : Party) :
    p.told x y = decide (x ∈ p.subscribersOf y) := by
  unfold told
  rw [hDelivered.1 x y]
  rfl

/-- However often the bridge and the monitor are restarted: if no restart forgets a demand, the monitor
serves the bridge while it has clients and nobody collects data when it has none, whenever all messages
have been delivered. -/
theorem demand_survives {p : Pipeline F} (reach : Calls step (· = opened) keepsDemand p) (hDelivered : p.Delivered) :
    p.Served := by
  have remembered : p.Remembered := by
    apply reach.invariant (I := Remembered)
    · rintro p rfl
      exact remembered_opened
    · intro p choice p' _ remembered hKeeps hStep
      exact remembered.step hKeeps hStep
  have hNone : ∀ x, x ∉ p.failed := fun x => hDelivered.2 ▸ Finset.notMem_empty x
  have hKnown : p.told .monitorBridge .monitor = p.bridge.demand :=
    remembered.knows (hNone _) fun hFailed => absurd hFailed (hNone _)
  rw [told_of_delivered hDelivered] at hKnown
  refine ⟨(decide_eq_decide.mp hKnown).mpr, fun hClients => ?_⟩
  have hAlone : .monitorBridge ∉ p.monitor.subscribers := fun hIn => (decide_eq_decide.mp hKnown).mp hIn hClients
  have hNobody : p.monitor.subscribers = ∅ := by
    apply Finset.eq_empty_of_forall_notMem
    intro x hx
    exact hAlone (remembered.only x hx ▸ hx)
  have hNoData := remembered.subscribed.mp hNobody
  refine ⟨hAlone, ?_⟩
  rcases remembered.releases (hNone _) with hData | hSubscribe | ⟨hSys, hPmu⟩
  · rw [hNoData] at hData
    cases hData
  · rw [hDelivered.1] at hSubscribe
    cases hSubscribe
  · rw [told_of_delivered hDelivered] at hSys hPmu
    exact ⟨of_decide_eq_false hSys, of_decide_eq_false hPmu⟩

/-- The monitor is restarted while the subscription of the bridge is on its way, and the bridge when
its client has gone. -/
def afterLastClient : Pipeline Nat :=
  (Calls.replay step keepsDemand opened
    [.flow (.connect 7), .flow (.deliver .eventLoop .monitorBridge ⟨0, [], none, none⟩), .restart .monitor true,
      .flow (.deliver .monitorBridge .monitor ⟨0, [], none, none⟩),
      .flow (.deliver .monitor .deviceManager ⟨0, [], none, none⟩),
      .flow (.deliver .monitor .systemManager ⟨0, [], some .empty, none⟩),
      .flow (.deliver .systemManager .monitor ⟨0, [], none, none⟩),
      .flow (.disconnect 7), .flow (.deliver .eventLoop .monitorBridge ⟨0, [], none, none⟩),
      .flow (.deliver .monitorBridge .monitor ⟨0, [], none, none⟩),
      .flow (.deliver .monitor .deviceManager ⟨0, [], none, none⟩),
      .flow (.deliver .monitor .systemManager ⟨0, [], none, none⟩),
      .fail .monitor .monitorBridge ⟨0, [], none, none⟩ none,
      .recover .monitorBridge (fun _ => 0) true true]).get (by decide +kernel)

theorem demand_survives_afterLastClient : afterLastClient.Served :=
  demand_survives (Calls.of_replay (.start rfl) (Option.some_get _).symm)
    ⟨by decide +kernel, by decide +kernel⟩

/-- A client has come and is served. -/
def firstClient : List (PipelineChoice Nat) :=
  [.flow (.connect 7), .flow (.deliver .eventLoop .monitorBridge ⟨0, [], none, none⟩),
    .flow (.deliver .monitorBridge .monitor ⟨0, [], none, none⟩),
    .flow (.deliver .monitor .deviceManager ⟨0, [], none, none⟩),
    .flow (.deliver .monitor .systemManager ⟨0, [], some .empty, none⟩)]

/-- The monitor throws over an update. -/
def afterMonitor : Pipeline Nat :=
  (Calls.replay step anyCall opened (firstClient ++
    [.fail .systemManager .monitor ⟨0, [], none, none⟩ none, .recover .monitor (fun _ => 0) true true])).get
    (by decide +kernel)

/-- The bridge throws over a snapshot. -/
def afterBridge : Pipeline Nat :=
  (Calls.replay step anyCall opened (firstClient ++
    [.flow (.deliver .systemManager .monitor ⟨0, [], none, none⟩),
      .fail .monitor .monitorBridge ⟨0, [], none, none⟩ none,
      .recover .monitorBridge (fun _ => 0) true true])).get (by decide +kernel)

/-- The restarted monitor does not know the bridge, which has a client, and the restarted bridge, which
has none, is still a subscriber. -/
theorem not_demand_survives :
    (Calls step (· = opened) anyCall afterMonitor ∧ afterMonitor.Delivered ∧ ¬ afterMonitor.Served) ∧
      Calls step (· = opened) anyCall afterBridge ∧ afterBridge.Delivered ∧ ¬ afterBridge.Served := by
  refine ⟨⟨Calls.of_replay (.start rfl) (Option.some_get _).symm, ⟨by decide +kernel, by decide +kernel⟩,
    fun hServed => ?_⟩, Calls.of_replay (.start rfl) (Option.some_get _).symm,
    ⟨by decide +kernel, by decide +kernel⟩, fun hServed => ?_⟩
  · have hForgotten : afterMonitor.bridge.connections ≠ ∅ ∧ .monitorBridge ∉ afterMonitor.monitor.subscribers := by
      decide +kernel
    exact hForgotten.2 (hServed.1 hForgotten.1)
  · have hKept : afterBridge.bridge.connections = ∅ ∧ .monitorBridge ∈ afterBridge.monitor.subscribers := by
      decide +kernel
    exact (hServed.2 hKept.1).1 hKept.2

end Pipeline

end Service
