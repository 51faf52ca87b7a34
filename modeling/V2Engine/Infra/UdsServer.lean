import V2Engine.Lifetime.Registry
import V2Engine.Interleaving.Calls

/-! `UdsServer` (infra/transport/uds/uds_server.cpp): who closes a listening descriptor, in a process
where others open and close descriptors as well. -/
namespace Infra

open Lifetime Interleaving

structure UdsServer where
  path : String
  serverFd : Int
deriving DecidableEq

/-- A new object, and one that was moved from. -/
def UdsServer.initial : UdsServer := ⟨"", -1⟩

/-- What `socket`, `bind` and `listen` come to. -/
structure SystemCalls where
  socket : Option Int
  bind : Bool
  listen : Bool

inductive Return where
  | ok
  | fail
deriving DecidableEq

/-- The objects of a process by address, and its descriptors by number. -/
structure Process where
  objects : Nat → Option UdsServer
  /-- The listening descriptors, each with the object that it belongs to. -/
  sockets : Registry Int Nat
  /-- The numbers of descriptors that belong to others. -/
  elsewhere : Int → Bool
  /-- How often an object closed a number that did not belong to it. -/
  misclosed : Nat
  /-- The paths that have a socket file. -/
  files : String → Bool

namespace Process

def initial : Process := ⟨fun _ => none, .empty, fun _ => false, 0, fun _ => false⟩

/-- A number that the kernel may give out. -/
def Free (p : Process) (fd : Int) : Prop :=
  0 ≤ fd ∧ p.sockets.find fd = none ∧ p.elsewhere fd = false

instance (p : Process) (fd : Int) : Decidable (p.Free fd) := inferInstanceAs (Decidable (_ ∧ _))

def store (p : Process) (o : Nat) (server : UdsServer) : Process :=
  { p with objects := Function.update p.objects o (some server) }

def opens (p : Process) (o : Nat) (fd : Int) : Process := { p with sockets := p.sockets.begins fd o }

/-- `::close` on a number, whoever the descriptor belongs to. -/
def close (p : Process) (o : Nat) (fd : Int) : Process :=
  { p with
    sockets := p.sockets.ends (fun _ => true) fd
    elsewhere := Function.update p.elsewhere fd false
    misclosed := if p.sockets.find fd = some o then p.misclosed else p.misclosed + 1 }

/-- A descriptor that belongs to one object belongs to another one from now on. -/
def hands (p : Process) (other o : Nat) (fd : Int) : Process :=
  { p with sockets := p.sockets.becomes fd fun owner => if owner = other then o else owner }

def bound (p : Process) (path : String) : Process := { p with files := Function.update p.files path true }

def unlink (p : Process) (path : String) : Process := { p with files := Function.update p.files path false }

def start (p : Process) (o : Nat) (server : UdsServer) (path : String) (calls : SystemCalls) : Process × Return :=
  let p := p.unlink path
  match calls.socket with
  | none => (p.store o { server with serverFd := -1 }, .fail)
  | some fd =>
      let p := (p.opens o fd).store o { server with serverFd := fd }
      if calls.bind = false then (p.close o fd, .fail)
      else
        let p := p.bound path
        if calls.listen = false then (p.close o fd, .fail) else (p.store o { path := path, serverFd := fd }, .ok)

def shutdown (p : Process) (o : Nat) (server : UdsServer) : Process :=
  let closed := if 0 ≤ server.serverFd then p.close o server.serverFd else p
  let unlinked := if server.path = "" then closed else closed.unlink server.path
  unlinked.store o { path := "", serverFd := if 0 ≤ server.serverFd then -1 else server.serverFd }

/-- The two assignments of a move, with the descriptor. -/
def move (p : Process) (o other : Nat) (server : UdsServer) : Process :=
  ((p.hands other o server.serverFd).store o server).store other .initial

inductive Event where
  | create (o : Nat)
  | start (o : Nat) (path : String) (calls : SystemCalls)
  | moveConstruct (o other : Nat)
  | moveAssign (o other : Nat)
  | shutdown (o : Nat)
  | destroy (o : Nat)
  | openElsewhere (fd : Int)
  | closeElsewhere (fd : Int)

def step : Event → Process → Option Process
  | .create o, p => if p.objects o = none then some (p.store o .initial) else none
  | .start o path calls, p => match p.objects o with
    | none => none
    | some server => if ∀ fd ∈ calls.socket, p.Free fd then some (p.start o server path calls).1 else none
  | .moveConstruct o other, p => match p.objects o, p.objects other with
    | none, some server => some (p.move o other server)
    | _, _ => none
  | .moveAssign o other, p => match p.objects o, p.objects other with
    | some mine, some server =>
        -- an object that is assigned to itself stays as it is
        if o = other then some p else some ((p.shutdown o mine).move o other server)
    | _, _ => none
  | .shutdown o, p => (p.objects o).map (p.shutdown o)
  | .destroy o, p => match p.objects o with
    | none => none
    | some server =>
        let closed := p.shutdown o server
        some { closed with objects := Function.update closed.objects o none }
  | .openElsewhere fd, p =>
      if p.Free fd then some { p with elsewhere := Function.update p.elsewhere fd true } else none
  | .closeElsewhere fd, p =>
      if p.elsewhere fd then some { p with elsewhere := Function.update p.elsewhere fd false } else none

/-- An object is started when it has no descriptor, and a socket that `start` has got it can bind
and listen on. -/
def Careful (p : Process) : Event → Prop
  | .start o _ calls =>
      (∀ server ∈ p.objects o, server.serverFd < 0) ∧ (calls.socket.isSome → calls.bind = true ∧ calls.listen = true)
  | _ => True

instance (p : Process) (event : Event) : Decidable (Careful p event) := by
  cases event with
  | start o path calls => exact inferInstanceAs (Decidable (_ ∧ _))
  | _ => exact instDecidableTrue

/-- The `n`-th descriptor is open, and its number is the one that the object has. -/
def Holds (p : Process) (o n : Nat) : Prop :=
  ∃ server, p.objects o = some server ∧ 0 ≤ server.serverFd ∧ ∃ owner, p.sockets.living server.serverFd = some (n, owner)

/-- Each descriptor that `socket` gave was closed once, or is open and held by one object; every
number was closed by the object that it belonged to. -/
structure Owned (p : Process) : Prop where
  once : ∀ n < p.sockets.born, (p.sockets.ended.count n = 0 ∧ ∃! o, p.Holds o n) ∨
    (p.sockets.ended.count n = 1 ∧ ∀ o, ¬p.Holds o n)
  misclosed : p.misclosed = 0

/-- A descriptor belongs to the object that has its number. -/
structure Inv (p : Process) : Prop where
  kept : p.sockets.Kept
  misclosed : p.misclosed = 0
  held : ∀ fd o, p.sockets.find fd = some o ↔ 0 ≤ fd ∧ ∃ server, p.objects o = some server ∧ server.serverFd = fd
  idle : ∀ o server, p.objects o = some server → server.serverFd < 0 → server = .initial

variable {p p' : Process} {o other : Nat} {server mine : UdsServer} {path : String} {calls : SystemCalls} {fd : Int}

theorem Inv.initial : Inv initial where
  kept := .empty
  misclosed := rfl
  held fd o := ⟨fun h => (by cases h), fun ⟨_, _, h, _⟩ => by cases h⟩
  idle o server h := by cases h

theorem Inv.owned_fds (inv : p.Inv) : p.Owned := by
  refine ⟨fun n hn => ?_, inv.misclosed⟩
  rcases inv.kept.exactly_once hn with ⟨hNever, k, ⟨owner, hLiving⟩, hAlone⟩ | ⟨hOnce, hNowhere⟩
  · obtain ⟨hPositive, server, hServer, rfl⟩ := (inv.held k owner).mp (Registry.find_eq_some.mpr ⟨n, hLiving⟩)
    refine .inl ⟨hNever, owner, ⟨server, hServer, hPositive, owner, hLiving⟩, ?_⟩
    rintro o ⟨server', hServer', hPositive', owner', hLiving'⟩
    have hNumber := hAlone server'.serverFd ⟨owner', hLiving'⟩
    have hOther := (inv.held _ o).mpr ⟨hPositive', server', hServer', rfl⟩
    have hOwner := (inv.held _ owner).mpr ⟨hPositive, server, hServer, rfl⟩
    rw [hNumber] at hOther
    exact Option.some.inj (hOther.symm.trans hOwner)
  · refine .inr ⟨hOnce, ?_⟩
    rintro o ⟨server, _, _, owner, hLiving⟩
    exact hNowhere _ _ hLiving

/-- Only the objects and the descriptors matter. -/
theorem Inv.congr (inv : p.Inv) (hSockets : p'.sockets = p.sockets) (hObjects : p'.objects = p.objects)
    (hCount : p'.misclosed = p.misclosed) : p'.Inv where
  kept := hSockets ▸ inv.kept
  misclosed := hCount.trans inv.misclosed
  held := by
    rw [hSockets, hObjects]
    exact inv.held
  idle := by
    rw [hObjects]
    exact inv.idle

/-- An object without a descriptor may come or go. -/
theorem Inv.idles {now : Option UdsServer} (inv : p.Inv) (hBefore : ∀ server ∈ p.objects o, server = .initial)
    (hNow : ∀ server ∈ now, server = .initial) :
    ({ p with objects := Function.update p.objects o now } : Process).Inv := by
  have hNothing : ∀ {found : Option UdsServer}, (∀ server ∈ found, server = .initial) → ∀ fd : Int,
      ¬(0 ≤ fd ∧ ∃ server, found = some server ∧ server.serverFd = fd) := by
    rintro found hFound fd ⟨hPositive, server, hServer, hNumber⟩
    rw [hFound server hServer] at hNumber
    exact absurd hPositive (by rw [← hNumber]; decide)
  refine ⟨inv.kept, inv.misclosed, fun fd o' => ?_, fun o' server h hNone => ?_⟩
  · show p.sockets.find fd = some o' ↔ 0 ≤ fd ∧ ∃ server, Function.update p.objects o now o' = some server ∧ _
    by_cases ho : o' = o
    · rw [ho, Function.update_self, inv.held]
      exact iff_of_false (hNothing hBefore fd) (hNothing hNow fd)
    · rw [Function.update_of_ne ho]
      exact inv.held fd o'
  · replace h : Function.update p.objects o now o' = some server := h
    by_cases ho : o' = o
    · rw [ho, Function.update_self] at h
      exact hNow server h
    · rw [Function.update_of_ne ho] at h
      exact inv.idle o' server h hNone

/-- `shutdown` leaves a new object. -/
theorem Inv.objects_shutdown (inv : p.Inv) (hServer : p.objects o = some server) :
    (p.shutdown o server).objects = Function.update p.objects o (some .initial) := by
  have hAfter : (⟨"", if 0 ≤ server.serverFd then -1 else server.serverFd⟩ : UdsServer) = .initial := by
    split
    · rfl
    · rename_i hNone
      rw [inv.idle o server hServer (Int.not_le.mp hNone)]
      rfl
  rw [← hAfter]
  unfold shutdown
  split <;> split <;> rfl

theorem Inv.shutdown (inv : p.Inv) (hServer : p.objects o = some server) : (p.shutdown o server).Inv := by
  have hObjects := inv.objects_shutdown hServer
  have hIdle : ∀ o' server', (p.shutdown o server).objects o' = some server' → server'.serverFd < 0 →
      server' = .initial := by
    intro o' server' h hNone
    rw [hObjects, Function.update_apply] at h
    split at h
    · cases h
      rfl
    · exact inv.idle o' server' h hNone
  by_cases hFd : 0 ≤ server.serverFd
  · have hOwn : p.sockets.find server.serverFd = some o := (inv.held _ o).mpr ⟨hFd, server, hServer, rfl⟩
    have hSockets : (p.shutdown o server).sockets = p.sockets.ends (fun _ => true) server.serverFd := by
      unfold Process.shutdown
      rw [if_pos hFd]
      split <;> rfl
    have hCount : (p.shutdown o server).misclosed = p.misclosed := by
      unfold Process.shutdown
      rw [if_pos hFd]
      split <;> exact if_pos hOwn
    refine ⟨hSockets ▸ inv.kept.ends _ _, hCount.trans inv.misclosed, fun fd o' => ?_, hIdle⟩
    rw [hSockets, Registry.find_ends hOwn rfl, hObjects]
    by_cases hSame : fd = server.serverFd
    · rw [hSame, Function.update_self]
      refine ⟨fun h => (by cases h), fun ⟨_, server', h, hNumber⟩ => ?_⟩
      by_cases ho : o' = o
      · rw [ho, Function.update_self] at h
        cases h
        exact absurd hFd (by rw [← hNumber]; decide)
      · rw [Function.update_of_ne ho] at h
        have hOther := (inv.held _ o').mpr ⟨hFd, server', h, hNumber⟩
        exact absurd (Option.some.inj (hOther.symm.trans hOwn)) ho
    · rw [Function.update_of_ne hSame]
      by_cases ho : o' = o
      · rw [ho, Function.update_self]
        constructor
        · intro h
          obtain ⟨_, server', h', hNumber⟩ := (inv.held _ o).mp h
          rw [hServer] at h'
          cases h'
          exact absurd hNumber.symm hSame
        · rintro ⟨hPositive, server', h, hNumber⟩
          cases h
          exact absurd hPositive (by rw [← hNumber]; decide)
      · rw [Function.update_of_ne ho]
        exact inv.held fd o'
  · have hNew := inv.idle o server hServer (Int.not_le.mp hFd)
    subst hNew
    have hSame : (p.shutdown o .initial).objects = p.objects := by
      rw [hObjects, ← hServer, Function.update_eq_self]
    exact ⟨inv.kept, inv.misclosed, fun fd o' => by rw [hSame]; exact inv.held fd o', hIdle⟩

/-- A new object may take a number that nobody has. -/
theorem Inv.opens (inv : p.Inv) (hObject : p.objects o = some .initial) (hFree : p.Free fd) (path : String) :
    ((p.opens o fd).store o ⟨path, fd⟩).Inv := by
  have hFind : ((p.opens o fd).store o ⟨path, fd⟩).sockets.find = Function.update p.sockets.find fd (some o) :=
    Registry.find_begins _ _ _
  have hObjects : ((p.opens o fd).store o ⟨path, fd⟩).objects = Function.update p.objects o (some ⟨path, fd⟩) := rfl
  refine ⟨inv.kept.begins hFree.2.1 o, inv.misclosed, fun k o' => ?_, fun o' server h hNone => ?_⟩
  · rw [hFind, hObjects]
    by_cases hk : k = fd
    · rw [hk, Function.update_self]
      by_cases ho : o' = o
      · rw [ho, Function.update_self]
        exact ⟨fun _ => ⟨hFree.1, _, rfl, rfl⟩, fun _ => rfl⟩
      · rw [Function.update_of_ne ho]
        refine ⟨fun h => absurd (Option.some.inj h).symm ho, fun h => ?_⟩
        have hTaken := (inv.held fd o').mpr h
        rw [hFree.2.1] at hTaken
        cases hTaken
    · rw [Function.update_of_ne hk]
      by_cases ho : o' = o
      · rw [ho, Function.update_self]
        constructor
        · intro h
          obtain ⟨hPositive, server, hServer, hNumber⟩ := (inv.held k o).mp h
          rw [hObject] at hServer
          cases hServer
          exact absurd hPositive (by rw [← hNumber]; decide)
        · rintro ⟨_, server, h, hNumber⟩
          cases h
          exact absurd hNumber.symm hk
      · rw [Function.update_of_ne ho]
        exact inv.held k o'
  · rw [hObjects, Function.update_apply] at h
    split at h
    · cases h
      exact absurd hFree.1 (Int.not_le.mpr hNone)
    · exact inv.idle o' server h hNone

/-- The number of one object goes over to one that has none. -/
theorem Inv.move (inv : p.Inv) (hServer : p.objects other = some server) (hOther : o ≠ other)
    (hNew : ∀ mine ∈ p.objects o, mine = .initial) : (p.move o other server).Inv := by
  have hObjects : (p.move o other server).objects =
      Function.update (Function.update p.objects o (some server)) other (some .initial) := rfl
  have hFind : (p.move o other server).sockets.find = Function.update p.sockets.find server.serverFd
      ((p.sockets.find server.serverFd).map fun owner => if owner = other then o else owner) :=
    Registry.find_becomes p.sockets server.serverFd fun owner => if owner = other then o else owner
  have hAtOther : (p.move o other server).objects other = some .initial := by rw [hObjects, Function.update_self]
  have hAtO : (p.move o other server).objects o = some server := by
    rw [hObjects, Function.update_of_ne hOther, Function.update_self]
  have hElse : ∀ o', o' ≠ other → o' ≠ o → (p.move o other server).objects o' = p.objects o' := by
    intro o' h h'
    rw [hObjects, Function.update_of_ne h, Function.update_of_ne h']
  have hNothing : ∀ {fd : Int}, ¬(0 ≤ fd ∧ ∃ server', some UdsServer.initial = some server' ∧ server'.serverFd = fd) := by
    rintro fd ⟨hPositive, server', h, hNumber⟩
    cases h
    exact absurd hPositive (by rw [← hNumber]; decide)
  have hNotMine : ∀ fd, p.sockets.find fd ≠ some o := by
    intro fd h
    obtain ⟨hPositive, mine, hMine, hNumber⟩ := (inv.held fd o).mp h
    rw [hNew mine hMine] at hNumber
    exact hNothing ⟨hPositive, _, rfl, hNumber⟩
  have hKept : (p.move o other server).sockets.Kept :=
    inv.kept.becomes server.serverFd fun owner => if owner = other then o else owner
  refine ⟨hKept, inv.misclosed, fun fd o' => ?_, fun o' server' h hNone => ?_⟩
  · rw [hFind]
    by_cases hMoved : fd = server.serverFd
    · rw [hMoved, Function.update_self]
      by_cases hFd : 0 ≤ server.serverFd
      · have hOwner : p.sockets.find server.serverFd = some other := (inv.held _ _).mpr ⟨hFd, server, hServer, rfl⟩
        rw [hOwner, Option.map_some, if_pos rfl]
        by_cases ho : o' = other
        · rw [ho, hAtOther]
          exact iff_of_false (fun h => hOther (Option.some.inj h)) hNothing
        by_cases ho' : o' = o
        · rw [ho', hAtO]
          exact iff_of_true rfl ⟨hFd, server, rfl, rfl⟩
        · rw [hElse o' ho ho', ← inv.held, hOwner]
          exact iff_of_false (fun h => ho' (Option.some.inj h).symm) fun h => ho (Option.some.inj h).symm
      · have hNone : p.sockets.find server.serverFd = none := by
          by_contra hSome
          obtain ⟨owner, hOwner⟩ := Option.ne_none_iff_exists'.mp hSome
          exact hFd ((inv.held _ _).mp hOwner).1
        rw [hNone]
        exact iff_of_false (fun h => by cases h) fun h => hFd h.1
    · rw [Function.update_of_ne hMoved]
      by_cases ho : o' = other
      · rw [ho, hAtOther]
        refine iff_of_false (fun h => ?_) hNothing
        obtain ⟨_, server', h', hNumber⟩ := (inv.held fd other).mp h
        rw [hServer] at h'
        cases h'
        exact hMoved hNumber.symm
      by_cases ho' : o' = o
      · rw [ho', hAtO]
        refine iff_of_false (hNotMine fd) ?_
        rintro ⟨_, server', h, hNumber⟩
        cases h
        exact hMoved hNumber.symm
      · rw [hElse o' ho ho']
        exact inv.held fd o'
  · by_cases ho : o' = other
    · rw [ho, hAtOther] at h
      exact (Option.some.inj h).symm
    by_cases ho' : o' = o
    · rw [ho', hAtO] at h
      cases h
      exact inv.idle other server hServer hNone
    · rw [hElse o' ho ho'] at h
      exact inv.idle o' server' h hNone

/-- A careful start has a socket that listens, or leaves the object as it was. -/
theorem Inv.start (inv : p.Inv) (hServer : p.objects o = some server) (hFree : ∀ fd ∈ calls.socket, p.Free fd)
    (careful : Careful p (.start o path calls)) :
    (p.start o server path calls).1.Inv ∧
      ((p.start o server path calls).2 = .fail → (p.start o server path calls).1.objects o = some .initial) := by
  have hNew := inv.idle o server hServer (careful.1 server hServer)
  subst hNew
  cases hSocket : calls.socket with
  | none =>
      have hStart : p.start o .initial path calls = ((p.unlink path).store o .initial, .fail) := by
        unfold Process.start
        rw [hSocket]
        rfl
      rw [hStart]
      have hObjects : Function.update p.objects o (some .initial) = p.objects := by
        rw [← hServer, Function.update_eq_self]
      exact ⟨inv.congr rfl hObjects rfl, fun _ => Function.update_self ..⟩
  | some fd =>
      obtain ⟨hBind, hListen⟩ := careful.2 (by rw [hSocket]; rfl)
      have hStart : p.start o .initial path calls =
          (((((p.unlink path).opens o fd).store o ⟨"", fd⟩).bound path).store o ⟨path, fd⟩, .ok) := by
        unfold Process.start
        rw [hSocket, hBind, hListen]
        rfl
      rw [hStart]
      refine ⟨(inv.opens hServer (hFree fd hSocket) path).congr rfl ?_ rfl, fun h => by cases h⟩
      exact Function.update_idem ..

/-- Each step of careful callers keeps every descriptor with the object that has its number. -/
theorem Inv.step {event : Event} (inv : p.Inv) (careful : Careful p event) (hStep : step event p = some p') :
    p'.Inv := by
  cases event with
  | create o =>
      obtain ⟨hNone, hAfter⟩ := Option.ite_none_right_eq_some.mp hStep
      cases hAfter
      apply inv.idles
      · intro server hServer
        cases hNone.symm.trans hServer
      · intro server hServer
        exact (Option.some.inj hServer).symm
  | start o path calls =>
      cases hServer : p.objects o with
      | none => simp [Process.step, hServer] at hStep
      | some server =>
          simp only [Process.step, hServer] at hStep
          obtain ⟨hFree, hAfter⟩ := Option.ite_none_right_eq_some.mp hStep
          cases hAfter
          exact (inv.start hServer hFree careful).1
  | moveConstruct o other =>
      cases hMine : p.objects o with
      | some mine => simp [Process.step, hMine] at hStep
      | none =>
          cases hServer : p.objects other with
          | none => simp [Process.step, hMine, hServer] at hStep
          | some server =>
              simp only [Process.step, hMine, hServer, Option.some.injEq] at hStep
              subst hStep
              apply inv.move hServer
              · rintro rfl
                cases hMine.symm.trans hServer
              · intro mine h
                cases hMine.symm.trans h
  | moveAssign o other =>
      cases hMine : p.objects o with
      | none => simp [Process.step, hMine] at hStep
      | some mine =>
          cases hServer : p.objects other with
          | none => simp [Process.step, hMine, hServer] at hStep
          | some server =>
              simp only [Process.step, hMine, hServer] at hStep
              split at hStep
              · cases hStep
                exact inv
              · rename_i hOther
                cases hStep
                have hObjects := inv.objects_shutdown hMine
                apply (inv.shutdown hMine).move
                · rw [hObjects, Function.update_of_ne (Ne.symm hOther)]
                  exact hServer
                · exact hOther
                · intro mine' hMine'
                  rw [hObjects, Function.update_self] at hMine'
                  exact (Option.some.inj hMine').symm
  | shutdown o =>
      obtain ⟨server, hServer, hAfter⟩ := Option.map_eq_some_iff.mp hStep
      rw [← hAfter]
      exact inv.shutdown hServer
  | destroy o =>
      cases hServer : p.objects o with
      | none => simp [Process.step, hServer] at hStep
      | some server =>
          simp only [Process.step, hServer, Option.some.injEq] at hStep
          subst hStep
          apply (inv.shutdown hServer).idles
          · intro mine hMine
            rw [inv.objects_shutdown hServer, Function.update_self] at hMine
            exact (Option.some.inj hMine).symm
          · intro mine hMine
            cases hMine
  | openElsewhere fd =>
      obtain ⟨_, hAfter⟩ := Option.ite_none_right_eq_some.mp hStep
      cases hAfter
      exact inv.congr rfl rfl rfl
  | closeElsewhere fd =>
      obtain ⟨_, hAfter⟩ := Option.ite_none_right_eq_some.mp hStep
      cases hAfter
      exact inv.congr rfl rfl rfl

/-- In a run of careful callers every descriptor is closed once or held by one object, nobody closes
a number that is not its own, and a start that fails leaves a new object. -/
theorem owned_of_careful (reach : Calls step (· = initial) Careful p) :
    p.Owned ∧ ∀ o server path calls, p.objects o = some server → (∀ fd ∈ calls.socket, p.Free fd) →
      Careful p (.start o path calls) → (p.start o server path calls).2 = .fail →
        (p.start o server path calls).1.objects o = some .initial := by
  have inv : p.Inv := by
    apply reach.invariant
    · rintro _ rfl
      exact .initial
    · intro p event p' _ inv careful hStep
      exact inv.step careful hStep
  exact ⟨inv.owned_fds, fun o server path calls hServer hFree careful => (inv.start hServer hFree careful).2⟩

section Runs

/-- A server listens, goes over to another object and is shut down; its number is given to others
before both objects are destroyed. -/
def afterMove : Process :=
  (Calls.replay step Careful initial
    [.create 0, .start 0 "/tmp/v2_ipc.sock" ⟨none, true, true⟩, .start 0 "/tmp/v2_ipc.sock" ⟨some 3, true, true⟩,
      .create 1, .moveAssign 1 0, .moveConstruct 2 1, .shutdown 2, .openElsewhere 3, .destroy 0,
      .destroy 1, .destroy 2]).get (by decide +kernel)

theorem owned_afterMove : afterMove.Owned := (owned_of_careful (.of_replay (.start rfl) (Option.some_get _).symm)).1

/-- The path cannot be bound; others get the number before the object is destroyed. -/
def afterFailedBind : Process :=
  (Calls.replay step anyCall initial
    [.create 0, .start 0 "/tmp/v2_ipc.sock" ⟨some 3, false, true⟩, .openElsewhere 3, .destroy 0]).get
      (by decide +kernel)

/-- An object that listens is started again. -/
def afterSecondStart : Process :=
  (Calls.replay step anyCall initial
    [.create 0, .start 0 "/tmp/v2_ipc.sock" ⟨some 3, true, true⟩, .start 0 "/tmp/v2_ipc.sock" ⟨some 4, true, true⟩,
      .destroy 0]).get (by decide +kernel)

/-- The first socket stays open when its object is gone. -/
theorem not_owned_afterFailedBind :
    (Calls step (· = initial) anyCall afterFailedBind ∧ ¬afterFailedBind.Owned) ∧
      Calls step (· = initial) anyCall afterSecondStart ∧ afterSecondStart.sockets.find 3 = some 0 ∧
        afterSecondStart.objects 0 = none := by
  refine ⟨⟨.of_replay (.start rfl) (Option.some_get _).symm, fun owned => ?_⟩,
    .of_replay (.start rfl) (Option.some_get _).symm, by decide +kernel, by decide +kernel⟩
  exact absurd owned.misclosed (by decide +kernel)

end Runs

end Process

end Infra
