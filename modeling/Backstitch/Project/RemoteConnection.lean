/-
# The connection to the server

`connect` and `disconnect` run one at a time under the start lock.  `connect` takes the
connection lock to store a new token, gives it back and spawns a loop; the loop keeps the
lock until it ends, and dials again and again meanwhile.
-/

import Backstitch.Library.System
import Mathlib.Data.Finset.Basic
import Mathlib.Logic.Function.Basic

namespace Backstitch

/-- Where the call stands that has the start lock. -/
inductive CallPhase
  | connecting
  /-- The old token is cancelled; the connection lock is waited for. -/
  | connectWaits
  | connectLocked
  /-- The info has a new token. -/
  | infoSet (token : ℕ)
  | subscribed (token : ℕ)
  /-- The connection lock is given back, the loop is not spawned yet. -/
  | released (token : ℕ)
  /-- An event is waited for. -/
  | awaiting (token : ℕ)
  | disconnecting
  /-- The info is taken and its token cancelled; the connection lock is waited for. -/
  | disconnectWaits
  | disconnectLocked
  deriving DecidableEq

namespace CallPhase

def HoldsLock : CallPhase → Prop
  | .connectLocked | .infoSet _ | .subscribed _ | .disconnectLocked => True
  | _ => False

/-- All loops have ended. -/
def WithoutLoops : CallPhase → Prop
  | .released _ => True
  | phase => phase.HoldsLock

/-- The token that a call has made and not given to a loop yet. -/
def newToken : CallPhase → Option ℕ
  | .infoSet token | .subscribed token | .released token => some token
  | _ => none

/-- Events are received, and there is no loop yet. -/
def Silent : CallPhase → Prop
  | .subscribed _ | .released _ => True
  | _ => False

/-- Neither the lock nor a new token is there. -/
def Plain : CallPhase → Prop
  | .connecting | .connectWaits | .disconnecting | .disconnectWaits => True
  | _ => False

def Disconnects : CallPhase → Prop
  | .disconnecting | .disconnectWaits | .disconnectLocked => True
  | _ => False

end CallPhase

/-- Where a loop stands. -/
inductive LoopPhase
  | absent
  /-- The connection lock is waited for. -/
  | spawned
  | handshaking
  | authenticating
  | dialing
  /-- The handle is there, and not stored in the info. -/
  | dialed (handle : ℕ)
  | listening (handle : ℕ)
  | reauthenticating (handle : ℕ)
  /-- `handle_connection` has returned. -/
  | returned
  | sleeping
  /-- The loop is left, and the connection lock is given back next. -/
  | ending
  | done
  deriving DecidableEq

namespace LoopPhase

/-- The loop has the connection lock. -/
def Holds : LoopPhase → Prop
  | .absent | .spawned | .done => False
  | _ => True

def Live (phase : LoopPhase) : Prop := phase = .spawned ∨ phase.Holds

/-- The handle that a loop has not closed. -/
def handle : LoopPhase → Option ℕ
  | .dialed handle | .listening handle | .reauthenticating handle => some handle
  | _ => none

theorem holds_of_handle {phase : LoopPhase} {handle : ℕ}
    (hhandle : phase.handle = some handle) : phase.Holds := by
  cases phase with
  | dialed | listening | reauthenticating => trivial
  | _ => nomatch hhandle

end LoopPhase

inductive LockHolder
  | call
  | loop (token : ℕ)
  deriving DecidableEq

/-- What a loop meets. -/
inductive LoopEvent
  | acquire
  | handshake (ok : Bool)
  | authenticate (ok : Bool)
  /-- The url of the server has an invalid scheme. -/
  | panic
  | dial (ok : Bool)
  | store
  | tokenCancelled
  | shutdown
  | authFailed
  | reauthenticate (ok : Bool)
  /-- `DialerEvent::Connected` or `Disconnected`. -/
  | dialerReports
  /-- `DialerEvent::Reconnecting`, or no event. -/
  | dialerContinues
  /-- `DialerEvent::MaxRetriesReached` or `PermanentFailure`. -/
  | dialerFails
  /-- The token and the shutdown are looked at. -/
  | check
  /-- The sleep is over. -/
  | retry
  | finish
  deriving DecidableEq

inductive ConnectionAction
  | connect
  | cancelOld
  | takeLock
  | setInfo
  | subscribe
  | release
  | spawn
  | connectReturns
  | disconnect
  | takeInfo
  | disconnectReturns
  | loop (token : ℕ) (event : LoopEvent)
  | shutdown
  deriving DecidableEq

/-- A `RemoteConnection` with its calls, loops and handles. -/
structure RemoteConnection where
  call : Option CallPhase
  connectionLock : Option LockHolder
  /-- `connection_info`: a token, and a handle if one is stored. -/
  info : Option (ℕ × Option ℕ)
  /-- The loops, each under the token that it was started with. -/
  loops : ℕ → LoopPhase
  cancelled : Finset ℕ
  shutdown : Bool
  /-- The call that is subscribed to the events has received one. -/
  heard : Bool
  opened : Finset ℕ
  /-- The token of the loop that made a handle. -/
  madeBy : ℕ → Option ℕ
  nextToken : ℕ
  nextHandle : ℕ
  /-- A `disconnect` has returned, and no `connect` has started since. -/
  disconnected : Bool

namespace RemoteConnection

variable (state : RemoteConnection)

/-- `new`. -/
def new : RemoteConnection where
  call := none
  connectionLock := none
  info := none
  loops _ := .absent
  cancelled := ∅
  shutdown := false
  heard := false
  opened := ∅
  madeBy _ := none
  nextToken := 0
  nextHandle := 0
  disconnected := false

def setLoop (token : ℕ) (phase : LoopPhase) : RemoteConnection :=
  { state with loops := Function.update state.loops token phase }

/-- An event is sent. -/
def send : RemoteConnection := { state with heard := true }

def cancel (token : ℕ) : RemoteConnection :=
  { state with cancelled := insert token state.cancelled }

/-- The token of the info is cancelled. -/
def cancelInfo : RemoteConnection :=
  match state.info with
  | some (token, _) => state.cancel token
  | none => state

def close (handle : ℕ) : RemoteConnection :=
  { state with opened := state.opened.erase handle }

/-- `handle_connection` closes the handle and returns. -/
def closeAndReturn (token handle : ℕ) : RemoteConnection :=
  (state.close handle).setLoop token .returned

/-- A loop ends, and the connection lock is given back. -/
def endLoop (token : ℕ) : RemoteConnection :=
  { state.setLoop token .done with connectionLock := none }

/-- A loop makes a handle. -/
def dial (token : ℕ) : RemoteConnection :=
  { state.setLoop token (.dialed state.nextHandle) with
    opened := insert state.nextHandle state.opened
    madeBy := Function.update state.madeBy state.nextHandle (some token)
    nextHandle := state.nextHandle + 1 }

/-- The handle is stored in the info that is there. -/
def store (token handle : ℕ) : RemoteConnection :=
  match state.info with
  | some (current, _) =>
      { state.setLoop token (.listening handle) with info := some (current, some handle) }
  | none => state.closeAndReturn token handle

/-- A step of the loop that was started with a token. -/
def stepLoop (token : ℕ) (event : LoopEvent) : Option RemoteConnection :=
  match event, state.loops token with
  | .acquire, .spawned =>
      if state.connectionLock = none then
        some { state.setLoop token .handshaking with connectionLock := some (.loop token) }
      else none
  | .handshake ok, .handshaking =>
      some (state.setLoop token (if ok then .authenticating else .returned))
  | .authenticate ok, .authenticating =>
      some (state.setLoop token (if ok then .dialing else .returned))
  | .panic, .dialing => some (state.endLoop token)
  | .dial ok, .dialing =>
      some (if ok then state.dial token else state.setLoop token .returned)
  | .store, .dialed handle => some (state.store token handle)
  | .tokenCancelled, .listening handle =>
      if token ∈ state.cancelled then some (state.closeAndReturn token handle) else none
  | .shutdown, .listening handle =>
      if state.shutdown then some ((state.cancel token).closeAndReturn token handle) else none
  | .authFailed, .listening handle => some (state.setLoop token (.reauthenticating handle))
  | .reauthenticate ok, .reauthenticating handle =>
      some (if ok then state.setLoop token (.listening handle)
        else state.closeAndReturn token handle)
  | .dialerReports, .listening _ => some state.send
  | .dialerContinues, .listening _ => some state
  | .dialerFails, .listening handle => some (state.closeAndReturn token handle)
  | .check, .returned =>
      if state.shutdown ∨ token ∈ state.cancelled then some (state.send.setLoop token .ending)
      else some (state.send.setLoop token .sleeping)
  | .check, .sleeping =>
      if state.shutdown ∨ token ∈ state.cancelled then some (state.setLoop token .ending)
      else none
  | .retry, .sleeping => some (state.setLoop token .handshaking)
  | .finish, .ending => some (state.endLoop token)
  | _, _ => none

/-- A step of the call that has the start lock; `connect` and `disconnect` take it. -/
def stepCall (action : ConnectionAction) : Option RemoteConnection :=
  match action, state.call with
  | .connect, none => some { state with call := some .connecting, disconnected := false }
  | .cancelOld, some .connecting => some { state.cancelInfo with call := some .connectWaits }
  | .takeLock, some .connectWaits =>
      if state.connectionLock = none then
        some { state with call := some .connectLocked, connectionLock := some .call }
      else none
  | .setInfo, some .connectLocked =>
      some { state with
        call := some (.infoSet state.nextToken)
        info := some (state.nextToken, none)
        nextToken := state.nextToken + 1 }
  | .subscribe, some (.infoSet token) =>
      some { state with call := some (.subscribed token), heard := false }
  | .release, some (.subscribed token) =>
      some { state with call := some (.released token), connectionLock := none }
  | .spawn, some (.released token) =>
      some { state.setLoop token .spawned with call := some (.awaiting token) }
  | .connectReturns, some (.awaiting _) =>
      if state.heard then some { state with call := none } else none
  | .disconnect, none => some { state with call := some .disconnecting }
  | .takeInfo, some .disconnecting =>
      some { state.cancelInfo with call := some .disconnectWaits, info := none }
  | .takeLock, some .disconnectWaits =>
      if state.connectionLock = none then
        some { state with call := some .disconnectLocked, connectionLock := some .call }
      else none
  | .disconnectReturns, some .disconnectLocked =>
      some { state with call := none, connectionLock := none, disconnected := true }
  | _, _ => none

def step : ConnectionAction → Option RemoteConnection
  | .loop token event => state.stepLoop token event
  | .shutdown => some { state with shutdown := true }
  | action => state.stepCall action

end RemoteConnection

/-- A connection, with any calls and with everything that its loops can meet. -/
def connectionSystem : System RemoteConnection ConnectionAction where
  start state := state = .new
  step := RemoteConnection.step

namespace RemoteConnection

/-- What the locks, the info and the handles have to do with the calls and the loops. -/
structure Tidy (state : RemoteConnection) : Prop where
  lock_loop : ∀ token, (state.loops token).Holds → state.connectionLock = some (.loop token)
  lock_call : ∀ call, state.call = some call → call.HoldsLock → state.connectionLock = some .call
  /-- A loop that waits for the lock belongs to a call that waits for an event. -/
  spawned : ∀ token, state.loops token = .spawned →
    state.call = some (.awaiting token) ∧ state.heard = false
  awaiting : ∀ token other, state.call = some (.awaiting token) → (state.loops other).Live →
    other = token
  withoutLoops : ∀ call, state.call = some call → call.WithoutLoops →
    ∀ token, ¬ (state.loops token).Live
  silent : ∀ call, state.call = some call → call.Silent → state.heard = false
  newToken : ∀ call token, state.call = some call → call.newToken = some token →
    ∃ handle, state.info = some (token, handle)
  /-- A loop finds its own token in the info, or its token is cancelled. -/
  current : ∀ token, (state.loops token).Live →
    (∃ handle, state.info = some (token, handle)) ∨
      state.info = none ∧ token ∈ state.cancelled
  opened : ∀ handle ∈ state.opened, ∃ token, (state.loops token).handle = some handle
  handle : ∀ token handle, (state.loops token).handle = some handle →
    state.madeBy handle = some token
  fresh : ∀ handle token, state.madeBy handle = some token → handle < state.nextHandle
  stored : ∀ token handle, state.info = some (token, some handle) →
    state.madeBy handle = some token
  disconnected : state.disconnected = true →
    (∀ call, state.call = some call → call.Disconnects) ∧ ∀ token, ¬ (state.loops token).Live

variable {state : RemoteConnection} {token : ℕ}

/-- There is one loop at most. -/
theorem Tidy.only (htidy : state.Tidy) {first second : ℕ} (hfirst : (state.loops first).Live)
    (hsecond : (state.loops second).Live) : first = second := by
  rcases hfirst with hspawned | hholds
  · exact (htidy.awaiting first second (htidy.spawned first hspawned).1 hsecond).symm
  · rcases hsecond with hspawned | hother
    · exact htidy.awaiting second first (htidy.spawned second hspawned).1 (.inr hholds)
    · have heq := (htidy.lock_loop first hholds).symm.trans (htidy.lock_loop second hother)
      exact LockHolder.loop.inj (Option.some.inj heq)

theorem loops_setLoop_self (phase : LoopPhase) :
    (state.setLoop token phase).loops token = phase :=
  Function.update_self _ _ _

theorem loops_setLoop_of_ne {other : ℕ} (hne : other ≠ token) (phase : LoopPhase) :
    (state.setLoop token phase).loops other = state.loops other :=
  Function.update_of_ne hne _ _

/-- A step of a loop makes no other loop live. -/
theorem live_of_setLoop (hlive : (state.loops token).Live) {phase : LoopPhase} {other : ℕ}
    (hother : ((state.setLoop token phase).loops other).Live) : (state.loops other).Live := by
  by_cases heq : other = token
  · rwa [heq]
  · rwa [loops_setLoop_of_ne heq] at hother

/-- **A loop with the lock goes on with it.**  The handles that it does not show any more
are closed, and those that it shows are its own. -/
theorem Tidy.setLoop (htidy : state.Tidy) {phase : LoopPhase} (hholds : (state.loops token).Holds)
    (hphase : phase.Holds)
    (hclosed : ∀ handle ∈ state.opened, (state.loops token).handle = some handle →
      phase.handle = some handle)
    (hmade : ∀ handle, phase.handle = some handle → state.madeBy handle = some token) :
    (state.setLoop token phase).Tidy where
  lock_loop other hother := by
    by_cases heq : other = token
    · rw [heq]
      exact htidy.lock_loop token hholds
    · rw [loops_setLoop_of_ne heq] at hother
      exact htidy.lock_loop other hother
  lock_call := htidy.lock_call
  spawned other hother := by
    by_cases heq : other = token
    · rw [heq, loops_setLoop_self] at hother
      rw [hother] at hphase
      exact hphase.elim
    · rw [loops_setLoop_of_ne heq] at hother
      exact htidy.spawned other hother
  awaiting other third hcall hthird :=
    htidy.awaiting other third hcall (live_of_setLoop (.inr hholds) hthird)
  withoutLoops call hcall hwithout other hother :=
    htidy.withoutLoops call hcall hwithout other (live_of_setLoop (.inr hholds) hother)
  silent := htidy.silent
  newToken := htidy.newToken
  current other hother := htidy.current other (live_of_setLoop (.inr hholds) hother)
  opened handle hopened := by
    obtain ⟨other, hother⟩ := htidy.opened handle hopened
    by_cases heq : other = token
    · rw [heq] at hother
      exact ⟨token, by rw [loops_setLoop_self, hclosed handle hopened hother]⟩
    · exact ⟨other, by rw [loops_setLoop_of_ne heq, hother]⟩
  handle other handle hother := by
    by_cases heq : other = token
    · rw [heq, loops_setLoop_self] at hother
      rw [heq]
      exact hmade handle hother
    · rw [loops_setLoop_of_ne heq] at hother
      exact htidy.handle other handle hother
  fresh := htidy.fresh
  stored := htidy.stored
  disconnected hdisconnected :=
    ⟨(htidy.disconnected hdisconnected).1, fun other hother =>
      (htidy.disconnected hdisconnected).2 other (live_of_setLoop (.inr hholds) hother)⟩

/-- A loop that keeps its handle. -/
theorem Tidy.keepHandle (htidy : state.Tidy) {phase : LoopPhase}
    (hholds : (state.loops token).Holds) (hphase : phase.Holds)
    (hhandle : phase.handle = (state.loops token).handle) : (state.setLoop token phase).Tidy :=
  htidy.setLoop hholds hphase (fun _ _ hheld => hhandle.trans hheld)
    fun handle hheld => htidy.handle token handle (hhandle.symm.trans hheld)

/-- An event comes from a loop with the lock. -/
theorem Tidy.send (htidy : state.Tidy) (hholds : (state.loops token).Holds) : state.send.Tidy :=
  { htidy with
    spawned := by
      intro other hother
      have heq := htidy.only (.inr hholds) (.inl hother)
      rw [heq, show state.loops other = .spawned from hother] at hholds
      exact hholds.elim
    silent := by
      intro call hcall hsilent
      have hwithout : call.WithoutLoops := by
        cases call <;> trivial
      exact absurd (.inr hholds) (htidy.withoutLoops call hcall hwithout token) }

theorem Tidy.cancel (htidy : state.Tidy) (token : ℕ) : (state.cancel token).Tidy :=
  { htidy with
    current := by
      intro other hother
      rcases htidy.current other hother with hinfo | ⟨hinfo, hcancelled⟩
      · exact .inl hinfo
      · exact .inr ⟨hinfo, Finset.mem_insert_of_mem hcancelled⟩ }

theorem Tidy.cancelInfo (htidy : state.Tidy) : state.cancelInfo.Tidy := by
  rw [RemoteConnection.cancelInfo]
  split
  · exact htidy.cancel _
  · exact htidy

theorem Tidy.close (htidy : state.Tidy) (handle : ℕ) : (state.close handle).Tidy :=
  { htidy with
    opened := fun other hother => htidy.opened other (Finset.mem_of_mem_erase hother) }

/-- A loop that closes its handle shows none. -/
theorem Tidy.closeAndReturn (htidy : state.Tidy) {handle : ℕ}
    (hhandle : (state.loops token).handle = some handle) :
    (state.closeAndReturn token handle).Tidy := by
  have hholds := LoopPhase.holds_of_handle hhandle
  refine (htidy.close handle).setLoop hholds (show LoopPhase.returned.Holds from trivial) ?_ ?_
  · intro other hother hheld
    obtain rfl : handle = other := Option.some.inj (hhandle.symm.trans hheld)
    exact absurd rfl (Finset.ne_of_mem_erase hother)
  · intro other hother
    nomatch hother

/-- A loop that ends has closed its handle. -/
theorem Tidy.endLoop (htidy : state.Tidy) (hholds : (state.loops token).Holds)
    (hhandle : (state.loops token).handle = none) : (state.endLoop token).Tidy := by
  have hnotLive (other : ℕ) : ¬ ((state.endLoop token).loops other).Live := by
    intro hother
    have hlive : (state.loops other).Live := live_of_setLoop (.inr hholds) hother
    have heq : other = token := htidy.only hlive (.inr hholds)
    have hself : (state.endLoop token).loops token = .done := loops_setLoop_self _
    rw [heq, hself] at hother
    rcases hother with hother | hother
    · nomatch hother
    · exact hother
  exact
    { htidy with
      lock_loop := fun other hother => (hnotLive other (.inr hother)).elim
      lock_call := by
        intro call hcall hlock
        have hloop := htidy.lock_loop token hholds
        rw [htidy.lock_call call hcall hlock] at hloop
        nomatch hloop
      spawned := fun other hother => (hnotLive other (.inl hother)).elim
      awaiting := fun _ other _ hother => (hnotLive other hother).elim
      withoutLoops := fun _ _ _ other hother => hnotLive other hother
      current := fun other hother => (hnotLive other hother).elim
      opened := by
        intro handle hopened
        obtain ⟨other, hother⟩ := htidy.opened handle hopened
        have heq : other = token :=
          htidy.only (.inr (LoopPhase.holds_of_handle hother)) (.inr hholds)
        rw [heq, hhandle] at hother
        nomatch hother
      handle := by
        intro other handle hother
        exact (hnotLive other (.inr (LoopPhase.holds_of_handle hother))).elim
      disconnected := fun hdisconnected => ⟨(htidy.disconnected hdisconnected).1, hnotLive⟩ }

/-- A new handle is of the loop that makes it. -/
theorem Tidy.dial (htidy : state.Tidy) (hholds : (state.loops token).Holds)
    (hhandle : (state.loops token).handle = none) : (state.dial token).Tidy := by
  let made : RemoteConnection :=
    { state with
      madeBy := Function.update state.madeBy state.nextHandle (some token)
      nextHandle := state.nextHandle + 1 }
  have hold {handle owner : ℕ} (hmade : state.madeBy handle = some owner) :
      made.madeBy handle = some owner := by
    have hlt := htidy.fresh handle owner hmade
    exact (Function.update_of_ne (by omega) _ _).trans hmade
  have hmadeTidy : made.Tidy :=
    { htidy with
      handle := fun other handle hother => hold (htidy.handle other handle hother)
      fresh := by
        intro handle owner hmade
        by_cases heq : handle = state.nextHandle
        · exact heq ▸ Nat.lt_succ_self _
        · exact Nat.lt_succ_of_lt
            (htidy.fresh handle owner ((Function.update_of_ne heq _ _).symm.trans hmade))
      stored := fun other handle hinfo => hold (htidy.stored other handle hinfo) }
  have hdialed : (made.setLoop token (.dialed state.nextHandle)).Tidy := by
    refine hmadeTidy.setLoop hholds
      (show (LoopPhase.dialed state.nextHandle).Holds from trivial) ?_ ?_
    · intro handle _ hheld
      rw [show (made.loops token).handle = none from hhandle] at hheld
      nomatch hheld
    · intro handle hheld
      cases hheld
      exact Function.update_self _ _ _
  exact
    { hdialed with
      opened := by
        intro handle hopened
        rcases Finset.mem_insert.mp hopened with heq | hopened
        · exact ⟨token, by rw [heq]; exact congrArg LoopPhase.handle (loops_setLoop_self _)⟩
        · exact hdialed.opened handle hopened }

/-- The handle is stored under the token of its loop. -/
theorem Tidy.store (htidy : state.Tidy) {handle : ℕ}
    (hhandle : (state.loops token).handle = some handle) : (state.store token handle).Tidy := by
  have hholds := LoopPhase.holds_of_handle hhandle
  rw [RemoteConnection.store]
  split
  · rename_i current stored hinfo
    have hcurrent : current = token := by
      rcases htidy.current token (.inr hholds) with ⟨other, hother⟩ | ⟨hnone, -⟩
      · rw [hinfo] at hother
        exact congrArg Prod.fst (Option.some.inj hother)
      · rw [hinfo] at hnone
        nomatch hnone
    have hlistening : (state.setLoop token (.listening handle)).Tidy :=
      htidy.keepHandle hholds (show (LoopPhase.listening handle).Holds from trivial) hhandle.symm
    exact
      { hlistening with
        newToken := by
          intro call made hcall hmade
          obtain ⟨other, hother⟩ := htidy.newToken call made hcall hmade
          cases hinfo.symm.trans hother
          exact ⟨some handle, rfl⟩
        current := by
          intro other hother
          rcases hlistening.current other hother with ⟨before, hbefore⟩ | ⟨hnone, -⟩
          · cases hinfo.symm.trans hbefore
            exact .inl ⟨some handle, rfl⟩
          · nomatch hinfo.symm.trans hnone
        stored := by
          intro other made hmade
          cases hmade
          rw [hcurrent]
          exact htidy.handle token handle hhandle }
  · exact htidy.closeAndReturn hhandle

/-- A loop that takes the lock is the only one. -/
theorem Tidy.acquire (htidy : state.Tidy) (hspawned : state.loops token = .spawned) :
    Tidy { state.setLoop token .handshaking with connectionLock := some (.loop token) } := by
  have hlive {other : ℕ} (hother : ((state.setLoop token .handshaking).loops other).Live) :
      (state.loops other).Live := live_of_setLoop (.inl hspawned) hother
  have honly {other : ℕ} (hother : ((state.setLoop token .handshaking).loops other).Live) :
      other = token := htidy.only (hlive hother) (.inl hspawned)
  have hnone : (state.loops token).handle = none := by
    rw [hspawned]
    rfl
  exact
    { htidy with
      lock_loop := fun other hother => by rw [honly (.inr hother)]
      lock_call := by
        intro call hcall hholds
        cases (htidy.spawned token hspawned).1.symm.trans hcall
        exact hholds.elim
      spawned := by
        intro other hother
        have hself : (state.setLoop token .handshaking).loops token = .handshaking :=
          loops_setLoop_self _
        rw [honly (.inl hother)] at hother
        nomatch hself.symm.trans hother
      awaiting := fun first other hcall hother => htidy.awaiting first other hcall (hlive hother)
      withoutLoops := fun call hcall hwithout other hother =>
        htidy.withoutLoops call hcall hwithout other (hlive hother)
      current := fun other hother => htidy.current other (hlive hother)
      opened := by
        intro handle hopened
        obtain ⟨other, hother⟩ := htidy.opened handle hopened
        have hne : other ≠ token := by
          rintro rfl
          nomatch hnone.symm.trans hother
        exact ⟨other, (congrArg LoopPhase.handle (loops_setLoop_of_ne hne _)).trans hother⟩
      handle := by
        intro other handle hother
        have heq := honly (.inr (LoopPhase.holds_of_handle hother))
        rw [heq] at hother
        nomatch (congrArg LoopPhase.handle (loops_setLoop_self _)).symm.trans hother
      disconnected := fun hdisconnected =>
        ⟨(htidy.disconnected hdisconnected).1, fun other hother =>
          (htidy.disconnected hdisconnected).2 other (hlive hother)⟩ }

/-- A loop without a handle goes on without one. -/
theorem Tidy.goOn (htidy : state.Tidy) {before after : LoopPhase}
    (hbefore : state.loops token = before) (hholds : before.Holds) (hnone : before.handle = none)
    (hafter : after.Holds) (hstill : after.handle = none) : (state.setLoop token after).Tidy := by
  apply htidy.keepHandle (hbefore ▸ hholds) hafter
  rw [hbefore, hnone, hstill]

/-- **Every step of a loop keeps the connection tidy.** -/
theorem Tidy.stepLoop (htidy : state.Tidy) {event : LoopEvent} {next : RemoteConnection}
    (hstep : state.stepLoop token event = some next) : next.Tidy := by
  unfold RemoteConnection.stepLoop at hstep
  split at hstep
  · -- the lock is taken
    rename_i hphase
    obtain ⟨-, heq⟩ := Option.ite_none_right_eq_some.mp hstep
    cases heq
    exact htidy.acquire hphase
  · rename_i ok hphase
    cases hstep
    cases ok <;> exact htidy.goOn hphase trivial rfl trivial rfl
  · rename_i ok hphase
    cases hstep
    cases ok <;> exact htidy.goOn hphase trivial rfl trivial rfl
  · rename_i hphase
    cases hstep
    apply htidy.endLoop <;> rw [hphase] <;> trivial
  · rename_i ok hphase
    cases hstep
    cases ok
    · exact htidy.goOn hphase trivial rfl trivial rfl
    · apply htidy.dial <;> rw [hphase] <;> trivial
  · rename_i handle hphase
    cases hstep
    exact htidy.store (by rw [hphase]; rfl)
  · -- the token or the shutdown is noticed
    rename_i handle hphase
    obtain ⟨-, heq⟩ := Option.ite_none_right_eq_some.mp hstep
    cases heq
    exact htidy.closeAndReturn (by rw [hphase]; rfl)
  · rename_i handle hphase
    obtain ⟨-, heq⟩ := Option.ite_none_right_eq_some.mp hstep
    cases heq
    exact (htidy.cancel token).closeAndReturn (congrArg LoopPhase.handle hphase)
  · rename_i handle hphase
    cases hstep
    exact htidy.keepHandle (by rw [hphase]; trivial) trivial (by rw [hphase]; rfl)
  · rename_i ok handle hphase
    cases hstep
    cases ok
    · exact htidy.closeAndReturn (by rw [hphase]; rfl)
    · exact htidy.keepHandle (by rw [hphase]; trivial) trivial (by rw [hphase]; rfl)
  · rename_i handle hphase
    cases hstep
    have hholds : (state.loops token).Holds := by rw [hphase]; trivial
    exact htidy.send hholds
  · cases hstep
    exact htidy
  · rename_i handle hphase
    cases hstep
    exact htidy.closeAndReturn (by rw [hphase]; rfl)
  · -- `handle_connection` has returned, and an event is sent
    rename_i hphase
    have hsent : state.send.Tidy := htidy.send (by rw [hphase]; trivial)
    split_ifs at hstep
    · cases hstep
      exact hsent.goOn hphase trivial rfl trivial rfl
    · cases hstep
      exact hsent.goOn hphase trivial rfl trivial rfl
  · rename_i hphase
    obtain ⟨-, heq⟩ := Option.ite_none_right_eq_some.mp hstep
    cases heq
    exact htidy.goOn hphase trivial rfl trivial rfl
  · rename_i hphase
    cases hstep
    exact htidy.goOn hphase trivial rfl trivial rfl
  · rename_i hphase
    cases hstep
    apply htidy.endLoop <;> rw [hphase] <;> trivial
  · nomatch hstep

/-- A call without the lock and without a new token goes on so, or ends. -/
theorem Tidy.setPlain (htidy : state.Tidy) {call : Option CallPhase} {disconnected : Bool}
    (hplain : ∀ phase, call = some phase → phase.Plain)
    (hspawned : ∀ token, state.loops token ≠ .spawned)
    (hdisconnected : disconnected = true →
      (∀ phase, call = some phase → phase.Disconnects) ∧ ∀ token, ¬ (state.loops token).Live) :
    Tidy { state with call, disconnected } :=
  { htidy with
    lock_call := by
      intro phase hphase hholds
      have := hplain phase hphase
      cases phase <;> first | exact this.elim | exact hholds.elim
    spawned := fun token hphase => absurd hphase (hspawned token)
    awaiting := fun token _ hphase _ => (hplain _ hphase).elim
    withoutLoops := by
      intro phase hphase hwithout
      have := hplain phase hphase
      cases phase <;> first | exact this.elim | exact hwithout.elim
    silent := by
      intro phase hphase hsilent
      have := hplain phase hphase
      cases phase <;> first | exact this.elim | exact hsilent.elim
    newToken := by
      intro phase token hphase hnew
      have := hplain phase hphase
      cases phase <;> first | exact this.elim | nomatch hnew
    disconnected := hdisconnected }

/-- Where no loop is live, a call may do what it likes with the lock and the info. -/
theorem Tidy.of_not_live (htidy : state.Tidy) (hnone : ∀ token, ¬ (state.loops token).Live)
    {call : Option CallPhase} {connectionLock : Option LockHolder} {info : Option (ℕ × Option ℕ)}
    {heard disconnected : Bool} {nextToken : ℕ}
    (hlock : ∀ phase, call = some phase → phase.HoldsLock → connectionLock = some .call)
    (hsilent : ∀ phase, call = some phase → phase.Silent → heard = false)
    (hnewToken : ∀ phase token, call = some phase → phase.newToken = some token →
      ∃ handle, info = some (token, handle))
    (hstored : ∀ token handle, info = some (token, some handle) →
      state.madeBy handle = some token)
    (hdisconnected : disconnected = true → ∀ phase, call = some phase → phase.Disconnects) :
    Tidy { state with call, connectionLock, info, heard, nextToken, disconnected } where
  lock_loop token hholds := (hnone token (.inr hholds)).elim
  lock_call := hlock
  spawned token hspawned := (hnone token (.inl hspawned)).elim
  awaiting _ other _ hother := (hnone other hother).elim
  withoutLoops _ _ _ := hnone
  silent := hsilent
  newToken := hnewToken
  current token hlive := (hnone token hlive).elim
  opened := htidy.opened
  handle := htidy.handle
  fresh := htidy.fresh
  stored := hstored
  disconnected hdone := ⟨hdisconnected hdone, hnone⟩

/-- No loop is live where a call gets the connection lock. -/
theorem Tidy.not_live_of_unlocked (htidy : state.Tidy) (hlock : state.connectionLock = none)
    (hcall : ∀ token, state.call ≠ some (.awaiting token)) (token : ℕ) :
    ¬ (state.loops token).Live := by
  rintro (hspawned | hholds)
  · exact hcall token (htidy.spawned token hspawned).1
  · nomatch hlock.symm.trans (htidy.lock_loop token hholds)

/-- A loop waits for the lock only while its call waits for an event. -/
theorem Tidy.ne_spawned (htidy : state.Tidy)
    (hcall : ∀ token, state.call = some (.awaiting token) → state.heard = true) (token : ℕ) :
    state.loops token ≠ .spawned := by
  intro hspawned
  obtain ⟨hawaiting, hheard⟩ := htidy.spawned token hspawned
  exact absurd (hheard.symm.trans (hcall token hawaiting)) Bool.false_ne_true

/-- After the return of a `disconnect` no `connect` is there. -/
theorem Tidy.not_disconnected (htidy : state.Tidy) {call : CallPhase}
    (hcall : state.call = some call) (hdisconnects : ¬ call.Disconnects) :
    state.disconnected ≠ true :=
  fun hdisconnected => hdisconnects ((htidy.disconnected hdisconnected).1 call hcall)

theorem call_cancelInfo : state.cancelInfo.call = state.call := by
  rw [RemoteConnection.cancelInfo]
  split <;> rfl

theorem mem_cancelInfo {handle : Option ℕ}
    (hinfo : state.cancelInfo.info = some (token, handle)) :
    token ∈ state.cancelInfo.cancelled := by
  rw [RemoteConnection.cancelInfo] at hinfo ⊢
  split at hinfo
  · rename_i current stored hcurrent
    cases hcurrent.symm.trans hinfo
    exact Finset.mem_insert_self _ _
  · rename_i hnone
    nomatch hnone.symm.trans hinfo

/-- The new loop waits for the lock, and its token is in the info. -/
theorem Tidy.spawn (htidy : state.Tidy) (hcall : state.call = some (.released token)) :
    Tidy { state.setLoop token .spawned with call := some (.awaiting token) } := by
  have hnone := htidy.withoutLoops _ hcall trivial
  have honly {other : ℕ} (hother : ((state.setLoop token .spawned).loops other).Live) :
      other = token := by
    by_contra hne
    rw [loops_setLoop_of_ne hne] at hother
    exact hnone other hother
  have hself : (state.setLoop token .spawned).loops token = .spawned := loops_setLoop_self _
  have hno {other handle : ℕ} :
      ((state.setLoop token .spawned).loops other).handle ≠ some handle := by
    intro hhandle
    have heq := honly (.inr (LoopPhase.holds_of_handle hhandle))
    rw [heq, hself] at hhandle
    nomatch hhandle
  exact
    { htidy with
      lock_loop := by
        intro other hother
        have hother' : ((state.setLoop token .spawned).loops other).Holds := hother
        rw [honly (.inr hother'), hself] at hother'
        exact hother'.elim
      lock_call := by
        rintro phase ⟨⟩ hholds
        exact hholds.elim
      spawned := by
        intro other hother
        rw [honly (.inl hother)]
        exact ⟨rfl, htidy.silent _ hcall trivial⟩
      awaiting := by
        rintro first other ⟨⟩ hother
        exact honly hother
      withoutLoops := by
        rintro phase ⟨⟩ hwithout
        exact hwithout.elim
      silent := by
        rintro phase ⟨⟩ hsilent
        exact hsilent.elim
      newToken := by
        rintro phase made ⟨⟩ hmade
        nomatch hmade
      current := by
        intro other hother
        rw [honly hother]
        exact .inl (htidy.newToken _ token hcall rfl)
      opened := by
        intro handle hopened
        obtain ⟨other, hother⟩ := htidy.opened handle hopened
        exact (hnone other (.inr (LoopPhase.holds_of_handle hother))).elim
      handle := fun other handle hhandle => (hno hhandle).elim
      disconnected := fun hdone => absurd hdone (htidy.not_disconnected hcall id) }

/-- Whoever is live after the info was taken has a cancelled token. -/
theorem Tidy.takeInfo (htidy : state.Tidy) (hcall : state.call = some .disconnecting) :
    Tidy { state.cancelInfo with call := some .disconnectWaits, info := none } := by
  have hcancel := htidy.cancelInfo
  have hcall' : state.cancelInfo.call = some .disconnecting := call_cancelInfo.trans hcall
  have hspawned (token : ℕ) : state.cancelInfo.loops token ≠ .spawned :=
    hcancel.ne_spawned (fun token htoken => nomatch hcall'.symm.trans htoken) token
  exact
    { hcancel with
      lock_call := by
        rintro phase ⟨⟩ hholds
        exact hholds.elim
      spawned := fun other hother => absurd hother (hspawned other)
      awaiting := by
        rintro first other ⟨⟩
      withoutLoops := by
        rintro phase ⟨⟩ hwithout
        exact hwithout.elim
      silent := by
        rintro phase ⟨⟩ hsilent
        exact hsilent.elim
      newToken := by
        rintro phase made ⟨⟩ hmade
        nomatch hmade
      current := by
        intro other hother
        refine .inr ⟨rfl, ?_⟩
        rcases hcancel.current other hother with ⟨handle, hinfo⟩ | ⟨-, hcancelled⟩
        · exact mem_cancelInfo hinfo
        · exact hcancelled
      stored := by
        rintro other handle ⟨⟩
      disconnected := by
        intro hdone
        refine ⟨?_, (hcancel.disconnected hdone).2⟩
        rintro phase ⟨⟩
        trivial }

theorem tidy_new : Tidy .new where
  lock_loop _ hholds := hholds.elim
  lock_call := nofun
  spawned := nofun
  awaiting := nofun
  withoutLoops := nofun
  silent := nofun
  newToken := nofun
  current _ hlive := hlive.elim nofun False.elim
  opened := nofun
  handle := nofun
  fresh := nofun
  stored := nofun
  disconnected := nofun

/-- **Every step of a call keeps the connection tidy.** -/
theorem Tidy.stepCall (htidy : state.Tidy) {action : ConnectionAction} {next : RemoteConnection}
    (hstep : state.stepCall action = some next) : next.Tidy := by
  unfold RemoteConnection.stepCall at hstep
  split at hstep
  · -- `connect` starts
    rename_i hcall
    cases hstep
    apply htidy.setPlain
    · rintro phase ⟨⟩
      trivial
    · exact htidy.ne_spawned fun token htoken => nomatch hcall.symm.trans htoken
    · nofun
  · rename_i hcall
    cases hstep
    have hcancel := htidy.cancelInfo
    have hcall' := call_cancelInfo.trans hcall
    apply hcancel.setPlain
    · rintro phase ⟨⟩
      trivial
    · exact hcancel.ne_spawned fun token htoken => nomatch hcall'.symm.trans htoken
    · exact fun hdone => absurd hdone (hcancel.not_disconnected hcall' id)
  · -- the connection lock is taken, and no loop is live from then on
    rename_i hcall
    obtain ⟨hlock, heq⟩ := Option.ite_none_right_eq_some.mp hstep
    cases heq
    have hnone := htidy.not_live_of_unlocked hlock
      fun token htoken => nomatch hcall.symm.trans htoken
    apply htidy.of_not_live hnone
    · exact fun _ _ _ => rfl
    · rintro phase ⟨⟩ hsilent
      exact hsilent.elim
    · rintro phase token ⟨⟩ hnew
      nomatch hnew
    · exact htidy.stored
    · exact fun hdone => absurd hdone (htidy.not_disconnected hcall id)
  · rename_i hcall
    cases hstep
    apply htidy.of_not_live (htidy.withoutLoops _ hcall trivial)
    · exact fun _ _ _ => htidy.lock_call _ hcall trivial
    · rintro phase ⟨⟩ hsilent
      exact hsilent.elim
    · rintro phase token ⟨⟩ ⟨⟩
      exact ⟨none, rfl⟩
    · rintro token handle ⟨⟩
    · exact fun hdone => absurd hdone (htidy.not_disconnected hcall id)
  · rename_i token hcall
    cases hstep
    apply htidy.of_not_live (htidy.withoutLoops _ hcall trivial)
    · exact fun _ _ _ => htidy.lock_call _ hcall trivial
    · exact fun _ _ _ => rfl
    · rintro phase made ⟨⟩ ⟨⟩
      exact htidy.newToken _ token hcall rfl
    · exact htidy.stored
    · exact fun hdone => absurd hdone (htidy.not_disconnected hcall id)
  · rename_i token hcall
    cases hstep
    apply htidy.of_not_live (htidy.withoutLoops _ hcall trivial)
    · rintro phase ⟨⟩ hholds
      exact hholds.elim
    · exact fun _ _ _ => htidy.silent _ hcall trivial
    · rintro phase made ⟨⟩ ⟨⟩
      exact htidy.newToken _ token hcall rfl
    · exact htidy.stored
    · exact fun hdone => absurd hdone (htidy.not_disconnected hcall id)
  · rename_i token hcall
    cases hstep
    exact htidy.spawn hcall
  · -- `connect` returns after an event
    rename_i token hcall
    obtain ⟨hheard, heq⟩ := Option.ite_none_right_eq_some.mp hstep
    cases heq
    apply htidy.setPlain
    · exact fun phase hphase => nomatch hphase
    · exact htidy.ne_spawned fun _ _ => hheard
    · exact fun hdone => absurd hdone (htidy.not_disconnected hcall id)
  · rename_i hcall
    cases hstep
    apply htidy.setPlain
    · rintro phase ⟨⟩
      trivial
    · exact htidy.ne_spawned fun token htoken => nomatch hcall.symm.trans htoken
    · intro hdone
      refine ⟨?_, (htidy.disconnected hdone).2⟩
      rintro phase ⟨⟩
      trivial
  · rename_i hcall
    cases hstep
    exact htidy.takeInfo hcall
  · rename_i hcall
    obtain ⟨hlock, heq⟩ := Option.ite_none_right_eq_some.mp hstep
    cases heq
    have hnone := htidy.not_live_of_unlocked hlock
      fun token htoken => nomatch hcall.symm.trans htoken
    apply htidy.of_not_live hnone
    · exact fun _ _ _ => rfl
    · rintro phase ⟨⟩ hsilent
      exact hsilent.elim
    · rintro phase token ⟨⟩ hnew
      nomatch hnew
    · exact htidy.stored
    · rintro _ phase ⟨⟩
      trivial
  · -- `disconnect` returns
    rename_i hcall
    cases hstep
    apply htidy.of_not_live (htidy.withoutLoops _ hcall trivial)
    · rintro phase ⟨⟩
    · rintro phase ⟨⟩
    · rintro phase token ⟨⟩
    · exact htidy.stored
    · rintro _ phase ⟨⟩
  · nomatch hstep

/-- **Every reachable connection is tidy.** -/
theorem tidy_of_reachable {allowed : RemoteConnection → ConnectionAction → Prop}
    (hreach : connectionSystem.Reachable allowed state) : state.Tidy := by
  apply hreach.invariant
  · rintro state rfl
    exact tidy_new
  · intro state action next htidy _ hstep
    cases action with
    | loop token event => exact htidy.stepLoop hstep
    | shutdown =>
        cases hstep
        exact { htidy with }
    | connect | cancelOld | takeLock | setInfo | subscribe | release | spawn | connectReturns
    | disconnect | takeInfo | disconnectReturns => exact htidy.stepCall hstep

/-- One handle is open at most, none between a `disconnect` and the next `connect`; the
handle in the info is of the loop with its token, and so a `disconnect` cancels the loop of
any open handle. -/
structure Single (state : RemoteConnection) : Prop where
  one : ∀ first ∈ state.opened, ∀ second ∈ state.opened, first = second
  none : state.disconnected = true → state.opened = ∅
  owned : ∀ token handle, state.info = some (token, some handle) → state.madeBy handle = some token
  cancels : ∀ handle ∈ state.opened, ∃ token, state.madeBy handle = some token ∧
    ((∃ stored, state.info = some (token, stored)) ∨ token ∈ state.cancelled)

theorem Tidy.single (htidy : state.Tidy) : state.Single where
  one first hfirst second hsecond := by
    obtain ⟨token, htoken⟩ := htidy.opened first hfirst
    obtain ⟨other, hother⟩ := htidy.opened second hsecond
    have heq : token = other :=
      htidy.only (.inr (LoopPhase.holds_of_handle htoken)) (.inr (LoopPhase.holds_of_handle hother))
    rw [heq] at htoken
    exact Option.some.inj (htoken.symm.trans hother)
  none hdone := by
    apply Finset.eq_empty_of_forall_notMem
    intro handle hopened
    obtain ⟨token, htoken⟩ := htidy.opened handle hopened
    exact (htidy.disconnected hdone).2 token (.inr (LoopPhase.holds_of_handle htoken))
  owned := htidy.stored
  cancels handle hopened := by
    obtain ⟨token, htoken⟩ := htidy.opened handle hopened
    refine ⟨token, htidy.handle token handle htoken, ?_⟩
    exact (htidy.current token (.inr (LoopPhase.holds_of_handle htoken))).imp_right And.right

/-- **There is one connection at most.** -/
theorem single_of_reachable
    (hreach : connectionSystem.Reachable (fun _ _ => True) state) : state.Single :=
  (tidy_of_reachable hreach).single

/-- A connection is made, and a second call of `connect` waits for its end. -/
theorem single_reconnecting :
    (connectionSystem.after .new
      [.connect, .cancelOld, .takeLock, .setInfo, .subscribe, .release, .spawn,
        .loop 0 .acquire, .loop 0 (.handshake true), .loop 0 (.authenticate true),
        .loop 0 (.dial true), .loop 0 .store, .loop 0 .dialerReports, .connectReturns,
        .connect, .cancelOld]).Single := by
  apply single_of_reachable
  exact System.Reachable.after (.start rfl) (System.runsWithin_true _ _)

/-- The handle of the first connection is still open there. -/
example : (connectionSystem.after .new
      [.connect, .cancelOld, .takeLock, .setInfo, .subscribe, .release, .spawn,
        .loop 0 .acquire, .loop 0 (.handshake true), .loop 0 (.authenticate true),
        .loop 0 (.dial true), .loop 0 .store, .loop 0 .dialerReports, .connectReturns,
        .connect, .cancelOld]).opened = {0} := by
  decide

end RemoteConnection

end Backstitch
