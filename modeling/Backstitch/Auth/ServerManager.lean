/-
# The servers and their handshakes

A handshake keeps a lock of its server from the look at the cache to its return, while the
map of the servers is locked only for each access.  Authentications look a server up, wait
for the user, and store what comes of it; whatever order `auth_token` brings them in is
among the runs here.
-/

import Backstitch.Library.System
import Mathlib.Logic.Function.Basic

namespace Backstitch

universe u v

/-- A `ServerInfo`, with the kind of its `AuthConfig`. -/
structure ServerInfo (κ : Type u) where
  url : κ
  oidc : Bool
  deriving DecidableEq

inductive ServerState (κ : Type u)
  | handshaking
  | handshakeFailed
  | authNeeded (serverInfo : ServerInfo κ)
  | ready (serverInfo : ServerInfo κ)
  deriving DecidableEq

/-- The info that a handshake has left. -/
def ServerState.info {κ : Type u} : ServerState κ → Option (ServerInfo κ)
  | .authNeeded serverInfo | .ready serverInfo => some serverInfo
  | _ => none

structure Server (κ : Type u) (ι : Type v) where
  /-- The call that has `handshake_lock`. -/
  handshakeLock : Option ι
  state : ServerState κ

inductive AuthOp
  | authenticate
  | deauthenticate
  deriving DecidableEq

/-- Where a call stands. -/
inductive ManagerCall (κ : Type u)
  | idle
  /-- `handshake` waits for the lock. -/
  | waiting (url : κ)
  /-- The cache is looked at next. -/
  | locked (url : κ)
  | requesting (url : κ)
  /-- The server has answered, and `immediate_authenticate` is under way. -/
  | immediate (serverInfo : ServerInfo κ)
  | returning (url : κ) (result : Option (ServerInfo κ))
  /-- The server is looked up next. -/
  | lookingUp (op : AuthOp) (serverInfo : ServerInfo κ)
  /-- The user is waited for. -/
  | interacting (op : AuthOp) (serverInfo : ServerInfo κ)
  /-- The new state is stored next. -/
  | storing (op : AuthOp) (serverInfo : ServerInfo κ)
  | panicked
  deriving DecidableEq

inductive AuthOutcome
  | cancelled
  | failed
  | ok
  deriving DecidableEq

inductive ManagerAction (κ : Type u) (ι : Type v)
  | handshake (call : ι) (url : κ)
  | takeLock (call : ι)
  | checkCache (call : ι)
  /-- The server answers with a kind of authentication, or the handshake fails. -/
  | respond (call : ι) (oidc : Option Bool)
  | immediateAuthenticate (call : ι) (user : Bool)
  | returns (call : ι)
  /-- A handshake is dropped, or panics in its request. -/
  | abandon (call : ι)
  | start (call : ι) (op : AuthOp) (serverInfo : ServerInfo κ)
  | lookUp (call : ι) (valid : Bool)
  | interact (call : ι) (outcome : AuthOutcome)
  | storeState (call : ι)
  | tryAuthenticate (serverInfo : ServerInfo κ)
  | tryReauthenticate (serverInfo : ServerInfo κ) (valid user : Bool)
  deriving DecidableEq

/-- A `ServerManager` with its calls. -/
structure ServerManager (κ : Type u) (ι : Type v) where
  servers : κ → Option (Server κ ι)
  calls : ι → ManagerCall κ
  /-- The infos that handshakes have returned. -/
  handed : List (ServerInfo κ)

variable {κ : Type u} {ι : Type v} [DecidableEq κ] [DecidableEq ι]

namespace ServerManager

variable (manager : ServerManager κ ι)

/-- `new`. -/
def new : ServerManager κ ι := ⟨fun _ => none, fun _ => .idle, []⟩

def setCall (call : ι) (phase : ManagerCall κ) : ServerManager κ ι :=
  { manager with calls := Function.update manager.calls call phase }

def setServer (url : κ) (server : Server κ ι) : ServerManager κ ι :=
  { manager with servers := Function.update manager.servers url (some server) }

/-- `set_server_state`, for a server that is there. -/
def setServerState (url : κ) (server : Server κ ι) (state : ServerState κ) :
    ServerManager κ ι :=
  manager.setServer url { server with state }

/-- The lock of a server is given back. -/
def unlock (url : κ) : ServerManager κ ι :=
  match manager.servers url with
  | some server => manager.setServer url { server with handshakeLock := none }
  | none => manager

/-- What the look at the cache finds. -/
def checkCache (call : ι) (url : κ) : ServerManager κ ι :=
  match manager.servers url with
  | none => manager.setCall call .panicked
  | some server =>
      match server.state with
      | .handshaking | .handshakeFailed =>
          (manager.setServerState url server .handshaking).setCall call (.requesting url)
      | .authNeeded serverInfo | .ready serverInfo =>
          manager.setCall call (.returning url (some serverInfo))

/-- The state is set at the end of a handshake. -/
def conclude (call : ι) (url : κ) (state : ServerState κ) : ServerManager κ ι :=
  match manager.servers url with
  | none => manager.setCall call .panicked
  | some server =>
      (manager.setServerState url server state).setCall call (.returning url state.info)

/-- The look at the server of an `authenticate` or a `deauthenticate`. -/
def lookUp (call : ι) (op : AuthOp) (serverInfo : ServerInfo κ) (valid : Bool) :
    ServerManager κ ι :=
  match manager.servers serverInfo.url with
  | none => manager.setCall call .panicked
  | some server =>
      match server.state, op with
      | .handshaking, _ | .handshakeFailed, _ => manager.setCall call .panicked
      | .authNeeded _, _ | .ready _, .deauthenticate =>
          manager.setCall call (.interacting op serverInfo)
      | .ready _, .authenticate =>
          if valid then manager.setCall call .idle
          else
            (manager.setServerState serverInfo.url server (.authNeeded serverInfo)).setCall call
              (.interacting op serverInfo)

/-- A new login is ready; a logout leaves the server in need of one, even where it failed. -/
def storeState (call : ι) (op : AuthOp) (serverInfo : ServerInfo κ) : ServerManager κ ι :=
  match manager.servers serverInfo.url with
  | none => manager.setCall call .panicked
  | some server =>
      (manager.setServerState serverInfo.url server
        (match op with
          | .authenticate => .ready serverInfo
          | .deauthenticate => .authNeeded serverInfo)).setCall call .idle

/-- `try_reauthenticate`.  The map of the servers stays locked meanwhile. -/
def tryReauthenticate (serverInfo : ServerInfo κ) (valid user : Bool) : ServerManager κ ι :=
  match manager.servers serverInfo.url with
  | none => manager
  | some server =>
      match server.state with
      | .ready stored =>
          manager.setServerState serverInfo.url server
            (if !valid && user then .ready stored else .authNeeded stored)
      | _ => manager

def step : ManagerAction κ ι → Option (ServerManager κ ι)
  | .handshake call url =>
      if manager.calls call = .idle then
        match manager.servers url with
        | some _ => some (manager.setCall call (.waiting url))
        | none => some ((manager.setServer url ⟨none, .handshaking⟩).setCall call (.waiting url))
      else none
  | .takeLock call =>
      match manager.calls call with
      | .waiting url =>
          match manager.servers url with
          | some server =>
              if server.handshakeLock = none then
                some
                  ((manager.setServer url { server with handshakeLock := some call }).setCall call
                    (.locked url))
              else none
          | none => none
      | _ => none
  | .checkCache call =>
      match manager.calls call with
      | .locked url => some (manager.checkCache call url)
      | _ => none
  | .respond call oidc =>
      match manager.calls call with
      | .requesting url =>
          match oidc with
          | none => some (manager.conclude call url .handshakeFailed)
          | some oidc => some (manager.setCall call (.immediate ⟨url, oidc⟩))
      | _ => none
  | .immediateAuthenticate call user =>
      match manager.calls call with
      | .immediate serverInfo =>
          some (manager.conclude call serverInfo.url
            (if user then .ready serverInfo else .authNeeded serverInfo))
      | _ => none
  | .returns call =>
      match manager.calls call with
      | .returning url result =>
          some { (manager.unlock url).setCall call .idle with
            handed := result.toList ++ manager.handed }
      | _ => none
  | .abandon call =>
      match manager.calls call with
      | .waiting _ => some (manager.setCall call .idle)
      | .locked url | .requesting url | .immediate ⟨url, _⟩ =>
          some ((manager.unlock url).setCall call .idle)
      | _ => none
  | .start call op serverInfo =>
      if manager.calls call = .idle ∧ serverInfo ∈ manager.handed then
        -- nothing is done where a server without authentication is left
        if op = .deauthenticate ∧ !serverInfo.oidc then some manager
        else some (manager.setCall call (.lookingUp op serverInfo))
      else none
  | .lookUp call valid =>
      match manager.calls call with
      | .lookingUp op serverInfo => some (manager.lookUp call op serverInfo valid)
      | _ => none
  | .interact call outcome =>
      match manager.calls call with
      | .interacting op serverInfo =>
          if outcome = .ok ∨ op = .deauthenticate ∧ outcome = .failed then
            some (manager.setCall call (.storing op serverInfo))
          else some (manager.setCall call .idle)
      | _ => none
  | .storeState call =>
      match manager.calls call with
      | .storing op serverInfo => some (manager.storeState call op serverInfo)
      | _ => none
  | .tryAuthenticate serverInfo => if serverInfo ∈ manager.handed then some manager else none
  | .tryReauthenticate serverInfo valid user =>
      if serverInfo ∈ manager.handed then
        some (manager.tryReauthenticate serverInfo valid user)
      else none

end ServerManager

/-- A manager, with any calls for any servers. -/
def managerSystem (κ : Type u) (ι : Type v) [DecidableEq κ] [DecidableEq ι] :
    System (ServerManager κ ι) (ManagerAction κ ι) where
  start manager := manager = .new
  step := ServerManager.step

/-! ## What a step leaves -/

/-- The handshake of a server has succeeded: its state is `AuthNeeded` or `Ready`. -/
def ServerState.Handshaken : ServerState κ → Prop
  | .handshaking | .handshakeFailed => False
  | .authNeeded _ | .ready _ => True

omit [DecidableEq κ] in
theorem ServerState.handshaken_of_info {state : ServerState κ} {serverInfo : ServerInfo κ}
    (hinfo : state.info = some serverInfo) : state.Handshaken := by
  cases state with
  | handshaking => exact absurd hinfo (by simp [info])
  | handshakeFailed => exact absurd hinfo (by simp [info])
  | authNeeded stored => trivial
  | ready stored => trivial

/-- What somebody's step leaves of a server: the lock of everybody else, under which the
state of a handshake stays, and a handshake that has succeeded. -/
structure Server.Leaves (actor : Option ι) (server later : Server κ ι) : Prop where
  lock : ∀ call, some call ≠ actor → server.handshakeLock = some call →
    later.handshakeLock = some call ∧ (server.state = .handshaking → later.state = .handshaking)
  handshaken : server.state.Handshaken → later.state.Handshaken

namespace Server.Leaves

variable {actor : Option ι} {call : ι} {server later : Server κ ι}

omit [DecidableEq κ] [DecidableEq ι]

theorem refl : server.Leaves actor server :=
  ⟨fun _ _ hlock => ⟨hlock, id⟩, id⟩

/-- Who has the lock of a server, leaves nothing of it to others but its success. -/
theorem of_lock (hlock : server.handshakeLock = some call)
    (hshaken : server.state.Handshaken → later.state.Handshaken) :
    server.Leaves (some call) later :=
  ⟨fun _ hne hother => absurd (hother.symm.trans hlock) hne, hshaken⟩

/-- No handshake is under way where one has succeeded. -/
theorem setState {state : ServerState κ} (hshaken : server.state.Handshaken)
    (hstate : state.Handshaken) : server.Leaves actor { server with state } := by
  refine ⟨fun _ _ hlock => ⟨hlock, fun hshaking => ?_⟩, fun _ => hstate⟩
  rw [hshaking] at hshaken
  exact hshaken.elim

end Server.Leaves

namespace ServerManager

variable {manager next : ServerManager κ ι} {actor : Option ι} {call other : ι} {url : κ}
  {phase : ManagerCall κ} {server later : Server κ ι} {serverInfo : ServerInfo κ}

def Handshaken (manager : ServerManager κ ι) (url : κ) : Prop :=
  ∃ server, manager.servers url = some server ∧ server.state.Handshaken

/-- A call has the lock of a server. -/
def Holds (manager : ServerManager κ ι) (call : ι) (url : κ) : Prop :=
  ∃ server, manager.servers url = some server ∧ server.handshakeLock = some call

/-- A call has the lock of a server, and the state is still that of a handshake. -/
def Shakes (manager : ServerManager κ ι) (call : ι) (url : κ) : Prop :=
  ∃ server, manager.servers url = some server ∧ server.handshakeLock = some call ∧
    server.state = .handshaking

omit [DecidableEq κ] [DecidableEq ι] in
theorem Shakes.holds (hshakes : manager.Shakes call url) : manager.Holds call url := by
  obtain ⟨server, hserver, hlock, _⟩ := hshakes
  exact ⟨server, hserver, hlock⟩

/-- What the servers have to be for a call to be where it stands. -/
def Fits (manager : ServerManager κ ι) (call : ι) : ManagerCall κ → Prop
  | .idle | .waiting _ => True
  | .locked url => manager.Holds call url
  | .requesting url => manager.Shakes call url
  | .immediate serverInfo => manager.Shakes call serverInfo.url
  | .returning url result =>
      manager.Holds call url ∧ ∀ serverInfo ∈ result, manager.Handshaken serverInfo.url
  | .lookingUp _ serverInfo | .interacting _ serverInfo | .storing _ serverInfo =>
      manager.Handshaken serverInfo.url
  | .panicked => False

/-- The info of a server is under its own url. -/
def Keyed (manager : ServerManager κ ι) : Prop :=
  ∀ url server serverInfo, manager.servers url = some server →
    server.state.info = some serverInfo → serverInfo.url = url

/-- Every call fits the servers, and a returned info is that of a handshake that has
succeeded. -/
structure Sound (manager : ServerManager κ ι) : Prop where
  calls : ∀ call, manager.Fits call (manager.calls call)
  keyed : manager.Keyed
  handed : ∀ serverInfo ∈ manager.handed, manager.Handshaken serverInfo.url

/-- One sound state comes of another, and no handshake that has succeeded is lost. -/
structure Advances (manager next : ServerManager κ ι) : Prop extends next.Sound where
  handshaken : ∀ url, manager.Handshaken url → next.Handshaken url

omit [DecidableEq κ] [DecidableEq ι] in
theorem Sound.stays (hsound : manager.Sound) : manager.Advances manager :=
  ⟨hsound, fun _ => id⟩

/-- Somebody's step leaves of every server what it has to. -/
def Keeps (actor : Option ι) (manager next : ServerManager κ ι) : Prop :=
  ∀ url server, manager.servers url = some server →
    ∃ later, next.servers url = some later ∧ server.Leaves actor later

/-! ## Calls that somebody else's step leaves alone -/

section Keeps

omit [DecidableEq κ] [DecidableEq ι]

variable (hkeeps : manager.Keeps actor next)

include hkeeps

theorem Keeps.handshaken (hshaken : manager.Handshaken url) : next.Handshaken url := by
  obtain ⟨server, hserver, hstate⟩ := hshaken
  obtain ⟨later, hlater, hleaves⟩ := hkeeps url server hserver
  exact ⟨later, hlater, hleaves.handshaken hstate⟩

theorem Keeps.holds (hne : some call ≠ actor) (hholds : manager.Holds call url) :
    next.Holds call url := by
  obtain ⟨server, hserver, hlock⟩ := hholds
  obtain ⟨later, hlater, hleaves⟩ := hkeeps url server hserver
  exact ⟨later, hlater, (hleaves.lock call hne hlock).1⟩

theorem Keeps.shakes (hne : some call ≠ actor) (hshakes : manager.Shakes call url) :
    next.Shakes call url := by
  obtain ⟨server, hserver, hlock, hstate⟩ := hshakes
  obtain ⟨later, hlater, hleaves⟩ := hkeeps url server hserver
  have hkept := hleaves.lock call hne hlock
  exact ⟨later, hlater, hkept.1, hkept.2 hstate⟩

/-- **A step of one call leaves the others where they fit.** -/
theorem Keeps.fits (hne : some call ≠ actor) (hfits : manager.Fits call phase) :
    next.Fits call phase := by
  cases phase with
  | idle => trivial
  | waiting url => trivial
  | locked url => exact hkeeps.holds hne hfits
  | requesting url => exact hkeeps.shakes hne hfits
  | immediate serverInfo => exact hkeeps.shakes hne hfits
  | returning url result =>
      exact ⟨hkeeps.holds hne hfits.1, fun serverInfo hmem => hkeeps.handshaken (hfits.2 _ hmem)⟩
  | lookingUp op serverInfo => exact hkeeps.handshaken hfits
  | interacting op serverInfo => exact hkeeps.handshaken hfits
  | storing op serverInfo => exact hkeeps.handshaken hfits
  | panicked => exact hfits

end Keeps

omit [DecidableEq κ] [DecidableEq ι] in
theorem Keeps.refl : manager.Keeps actor manager :=
  fun _ server hserver => ⟨server, hserver, .refl⟩

omit [DecidableEq ι] in
@[simp] theorem servers_setServer_self :
    (manager.setServer url later).servers url = some later :=
  Function.update_self _ _ _

omit [DecidableEq ι] in
theorem servers_setServer_of_ne {changed : κ} (hne : changed ≠ url) :
    (manager.setServer url later).servers changed = manager.servers changed :=
  Function.update_of_ne hne _ _

omit [DecidableEq κ] in
@[simp] theorem calls_setCall_self : (manager.setCall call phase).calls call = phase :=
  Function.update_self _ _ _

omit [DecidableEq κ] in
theorem calls_setCall_of_ne (hne : other ≠ call) :
    (manager.setCall call phase).calls other = manager.calls other :=
  Function.update_of_ne hne _ _

omit [DecidableEq ι] in
theorem Keeps.setServer
    (hleaves : ∀ server, manager.servers url = some server → server.Leaves actor later) :
    manager.Keeps actor (manager.setServer url later) := by
  intro changed server hserver
  by_cases heq : changed = url
  · subst heq
    exact ⟨later, servers_setServer_self, hleaves server hserver⟩
  · exact ⟨server, (servers_setServer_of_ne heq).trans hserver, .refl⟩

omit [DecidableEq ι] in
theorem Keyed.setServer (hkeyed : manager.Keyed)
    (hlater : ∀ serverInfo, later.state.info = some serverInfo → serverInfo.url = url) :
    (manager.setServer url later).Keyed := by
  intro changed server serverInfo hserver hinfo
  by_cases heq : changed = url
  · subst heq
    rw [servers_setServer_self] at hserver
    rw [← Option.some.inj hserver] at hinfo
    exact hlater serverInfo hinfo
  · rw [servers_setServer_of_ne heq] at hserver
    exact hkeyed changed server serverInfo hserver hinfo

omit [DecidableEq κ] in
/-- **A call that moves on to where it fits.** -/
theorem Sound.act (hsound : manager.Sound) (hkeeps : manager.Keeps (some call) next)
    (hcalls : next.calls = manager.calls) (hhanded : next.handed = manager.handed)
    (hkeyed : next.Keyed) (hfits : next.Fits call phase) :
    manager.Advances (next.setCall call phase) where
  calls other := by
    by_cases heq : other = call
    · rw [heq, calls_setCall_self]
      exact hfits
    · rw [calls_setCall_of_ne heq, hcalls]
      exact hkeeps.fits (fun hsome => heq (Option.some.inj hsome)) (hsound.calls other)
  keyed := hkeyed
  handed serverInfo hmem := by
    have hold : serverInfo ∈ manager.handed := hhanded ▸ hmem
    exact hkeeps.handshaken (hsound.handed serverInfo hold)
  handshaken _ := hkeeps.handshaken

omit [DecidableEq κ] in
theorem Sound.setCall (hsound : manager.Sound) (hfits : manager.Fits call phase) :
    manager.Advances (manager.setCall call phase) :=
  hsound.act .refl rfl rfl hsound.keyed hfits

/-- What is true of a step that changes one server, and moves one call on. -/
theorem Sound.actOn (hsound : manager.Sound) (hserver : manager.servers url = some server)
    (hleaves : server.Leaves (some call) later)
    (hinfo : ∀ serverInfo, later.state.info = some serverInfo → serverInfo.url = url)
    (hfits : (manager.setServer url later).Fits call phase) :
    manager.Advances ((manager.setServer url later).setCall call phase) := by
  have hkeyed := hsound.keyed.setServer hinfo
  refine hsound.act (.setServer fun stored hstored => ?_) rfl rfl hkeyed hfits
  rwa [Option.some.inj (hstored.symm.trans hserver)]

/-! ## The steps -/

theorem Sound.unlock (hsound : manager.Sound) (hholds : manager.Holds call url) :
    manager.Advances ((manager.unlock url).setCall call .idle) := by
  obtain ⟨server, hserver, hlock⟩ := hholds
  rw [ServerManager.unlock, hserver]
  exact hsound.actOn hserver (.of_lock hlock id)
    (fun serverInfo => hsound.keyed url server serverInfo hserver) trivial

theorem Sound.checkCache (hsound : manager.Sound) (hholds : manager.Holds call url) :
    manager.Advances (manager.checkCache call url) := by
  obtain ⟨server, hserver, hlock⟩ := hholds
  have hrequests (hshaken : ¬ server.state.Handshaken) :
      manager.Advances
        ((manager.setServerState url server .handshaking).setCall call (.requesting url)) :=
    hsound.actOn hserver (.of_lock hlock fun h => absurd h hshaken) (fun _ hinfo => nomatch hinfo)
      ⟨_, servers_setServer_self, hlock, rfl⟩
  have hcached (serverInfo : ServerInfo κ) (hinfo : server.state.info = some serverInfo) :
      manager.Advances (manager.setCall call (.returning url (some serverInfo))) := by
    refine hsound.setCall ⟨⟨server, hserver, hlock⟩, fun returned hreturned => ?_⟩
    rw [← Option.some.inj hreturned, hsound.keyed url server serverInfo hserver hinfo]
    exact ⟨server, hserver, ServerState.handshaken_of_info hinfo⟩
  rw [ServerManager.checkCache, hserver]
  cases hstate : server.state with
  | handshaking => simpa only [hstate] using hrequests (by rw [hstate]; exact id)
  | handshakeFailed => simpa only [hstate] using hrequests (by rw [hstate]; exact id)
  | authNeeded serverInfo => simpa only [hstate] using hcached serverInfo (by rw [hstate]; rfl)
  | ready serverInfo => simpa only [hstate] using hcached serverInfo (by rw [hstate]; rfl)

/-- The end of a handshake.  The state has been `Handshaking` all the time. -/
theorem Sound.conclude (hsound : manager.Sound) (hshakes : manager.Shakes call url)
    {state : ServerState κ}
    (hinfo : ∀ serverInfo, state.info = some serverInfo → serverInfo.url = url) :
    manager.Advances (manager.conclude call url state) := by
  obtain ⟨server, hserver, hlock, hstate⟩ := hshakes
  rw [ServerManager.conclude, hserver]
  refine hsound.actOn hserver (.of_lock hlock fun hshaken => ?_) hinfo
    ⟨⟨_, servers_setServer_self, hlock⟩, fun serverInfo hresult => ?_⟩
  · rw [hstate] at hshaken
    exact hshaken.elim
  · rw [hinfo serverInfo hresult]
    exact ⟨_, servers_setServer_self, ServerState.handshaken_of_info hresult⟩

theorem Sound.lookUp (hsound : manager.Sound) {op : AuthOp}
    (hshaken : manager.Handshaken serverInfo.url) (valid : Bool) :
    manager.Advances (manager.lookUp call op serverInfo valid) := by
  have hinteracts : manager.Advances (manager.setCall call (.interacting op serverInfo)) :=
    hsound.setCall hshaken
  obtain ⟨server, hserver, hstate⟩ := hshaken
  rw [ServerManager.lookUp, hserver]
  cases hsplit : server.state with
  | handshaking => exact absurd hstate (by rw [hsplit]; exact id)
  | handshakeFailed => exact absurd hstate (by rw [hsplit]; exact id)
  | authNeeded stored => simpa only [hsplit] using hinteracts
  | ready stored =>
      cases op with
      | deauthenticate => simpa only [hsplit] using hinteracts
      | authenticate =>
          cases valid with
          | true =>
              have hidle : manager.Advances (manager.setCall call .idle) := hsound.setCall trivial
              simpa [hsplit] using hidle
          | false =>
              simp only [hsplit, Bool.false_eq_true, if_false]
              exact hsound.actOn hserver (.setState hstate trivial)
                (fun info hinfo => by rw [← Option.some.inj hinfo])
                ⟨_, servers_setServer_self, trivial⟩

theorem Sound.storeState (hsound : manager.Sound) (op : AuthOp)
    (hshaken : manager.Handshaken serverInfo.url) :
    manager.Advances (manager.storeState call op serverInfo) := by
  obtain ⟨server, hserver, hstate⟩ := hshaken
  unfold ServerManager.storeState
  rw [hserver]
  refine hsound.actOn hserver (.setState hstate ?_) (fun info hinfo => ?_) trivial
  · cases op with
    | authenticate => trivial
    | deauthenticate => trivial
  · cases op with
    | authenticate => rw [← Option.some.inj hinfo]
    | deauthenticate => rw [← Option.some.inj hinfo]

omit [DecidableEq ι] in
theorem tryReauthenticate_cases (serverInfo : ServerInfo κ) (valid user : Bool) :
    manager.tryReauthenticate serverInfo valid user = manager ∨
      ∃ server stored state, manager.servers serverInfo.url = some server ∧
        server.state = .ready stored ∧ (state = .ready stored ∨ state = .authNeeded stored) ∧
        manager.tryReauthenticate serverInfo valid user =
          manager.setServerState serverInfo.url server state := by
  unfold tryReauthenticate
  split
  case h_1 => exact .inl rfl
  case h_2 server hserver =>
      split
      case h_1 stored hstate =>
          refine .inr ⟨server, stored, _, hserver, hstate, ?_, rfl⟩
          cases !valid && user with
          | true => exact .inl rfl
          | false => exact .inr rfl
      case h_2 => exact .inl rfl

omit [DecidableEq ι] in
theorem Sound.tryReauthenticate (hsound : manager.Sound) (valid user : Bool) :
    manager.Advances (manager.tryReauthenticate serverInfo valid user) := by
  obtain heq | ⟨server, stored, state, hserver, hready, hstate, heq⟩ :=
    manager.tryReauthenticate_cases serverInfo valid user
  · rw [heq]
    exact hsound.stays
  · have hshaken : state.Handshaken := by
      rcases hstate with rfl | rfl
      · trivial
      · trivial
    have hinfo : state.info = some stored := by
      rcases hstate with rfl | rfl
      · rfl
      · rfl
    have hkeeps : manager.Keeps none (manager.setServerState serverInfo.url server state) := by
      refine .setServer fun known hknown => ?_
      rw [← Option.some.inj (hserver.symm.trans hknown)]
      exact .setState (by rw [hready]; trivial) hshaken
    rw [heq]
    refine ⟨⟨fun call => hkeeps.fits nofun (hsound.calls call), hsound.keyed.setServer ?_,
      fun returned hmem => hkeeps.handshaken (hsound.handed returned hmem)⟩,
      fun _ => hkeeps.handshaken⟩
    intro info hsome
    rw [← Option.some.inj (hinfo.symm.trans hsome)]
    exact hsound.keyed _ server stored hserver (by rw [hready]; rfl)

theorem Sound.handshake (hsound : manager.Sound) (call : ι) (url : κ)
    (hstep : manager.step (.handshake call url) = some next) : manager.Advances next := by
  simp only [step] at hstep
  split at hstep
  case isFalse => exact nomatch hstep
  split at hstep
  case h_1 =>
      rw [← Option.some.inj hstep]
      exact hsound.setCall trivial
  case h_2 hnone =>
      rw [← Option.some.inj hstep]
      refine hsound.act (.setServer fun server hserver => ?_) rfl rfl
        (hsound.keyed.setServer fun _ hinfo => nomatch hinfo) trivial
      exact nomatch hnone.symm.trans hserver

theorem Sound.takeLock (hsound : manager.Sound) (call : ι)
    (hstep : manager.step (.takeLock call) = some next) : manager.Advances next := by
  simp only [step] at hstep
  split at hstep
  case h_2 => exact nomatch hstep
  case h_1 url _ =>
      split at hstep
      case h_2 => exact nomatch hstep
      case h_1 server hserver =>
          split at hstep
          case isFalse => exact nomatch hstep
          case isTrue hfree =>
              rw [← Option.some.inj hstep]
              refine hsound.actOn hserver ⟨fun other _ hlock => ?_, id⟩
                (fun serverInfo => hsound.keyed url server serverInfo hserver)
                ⟨_, servers_setServer_self, rfl⟩
              exact nomatch hfree.symm.trans hlock

/-- A handshake that returns hands its info out. -/
theorem Sound.returns (hsound : manager.Sound) (call : ι)
    (hstep : manager.step (.returns call) = some next) : manager.Advances next := by
  simp only [step] at hstep
  split at hstep
  case h_2 => exact nomatch hstep
  case h_1 url result hphase =>
      have hfits := hsound.calls call
      rw [hphase] at hfits
      have hunlocked := hsound.unlock hfits.1
      rw [← Option.some.inj hstep]
      refine ⟨⟨hunlocked.calls, hunlocked.keyed, fun serverInfo hmem => ?_⟩, hunlocked.handshaken⟩
      rcases List.mem_append.mp hmem with hnew | hold
      · exact hunlocked.handshaken _ (hfits.2 serverInfo (Option.mem_toList.mp hnew))
      · exact hunlocked.handshaken _ (hsound.handed serverInfo hold)

theorem Sound.abandon (hsound : manager.Sound) (call : ι)
    (hstep : manager.step (.abandon call) = some next) : manager.Advances next := by
  have hfits := hsound.calls call
  simp only [step] at hstep
  split at hstep
  case h_1 =>
      rw [← Option.some.inj hstep]
      exact hsound.setCall trivial
  case h_2 url hphase =>
      rw [hphase] at hfits
      rw [← Option.some.inj hstep]
      exact hsound.unlock hfits
  case h_3 url hphase =>
      rw [hphase] at hfits
      rw [← Option.some.inj hstep]
      exact hsound.unlock hfits.holds
  case h_4 url oidc hphase =>
      rw [hphase] at hfits
      rw [← Option.some.inj hstep]
      exact hsound.unlock hfits.holds
  case h_5 => exact nomatch hstep

theorem Sound.start (hsound : manager.Sound) (call : ι) (op : AuthOp) (serverInfo : ServerInfo κ)
    (hstep : manager.step (.start call op serverInfo) = some next) : manager.Advances next := by
  simp only [step] at hstep
  split at hstep
  case isFalse => exact nomatch hstep
  case isTrue hstart =>
      split at hstep
      case isTrue =>
          rw [← Option.some.inj hstep]
          exact hsound.stays
      case isFalse =>
          rw [← Option.some.inj hstep]
          exact hsound.setCall (hsound.handed serverInfo hstart.2)

/-- **A step keeps the manager sound, and loses no handshake that has succeeded.** -/
theorem Sound.step (hsound : manager.Sound) {action : ManagerAction κ ι}
    (hstep : manager.step action = some next) : manager.Advances next := by
  cases action with
  | handshake call url => exact hsound.handshake call url hstep
  | takeLock call => exact hsound.takeLock call hstep
  | returns call => exact hsound.returns call hstep
  | abandon call => exact hsound.abandon call hstep
  | start call op serverInfo => exact hsound.start call op serverInfo hstep
  | checkCache call =>
      have hfits := hsound.calls call
      simp only [ServerManager.step] at hstep
      split at hstep
      case h_1 url hphase =>
          rw [hphase] at hfits
          rw [← Option.some.inj hstep]
          exact hsound.checkCache hfits
      case h_2 => exact nomatch hstep
  | respond call oidc =>
      have hfits := hsound.calls call
      simp only [ServerManager.step] at hstep
      split at hstep
      case h_1 url hphase =>
          rw [hphase] at hfits
          cases oidc with
          | none =>
              rw [← Option.some.inj hstep]
              exact hsound.conclude hfits fun _ hinfo => nomatch hinfo
          | some oidc =>
              rw [← Option.some.inj hstep]
              exact hsound.setCall hfits
      case h_2 => exact nomatch hstep
  | immediateAuthenticate call user =>
      have hfits := hsound.calls call
      simp only [ServerManager.step] at hstep
      split at hstep
      case h_1 serverInfo hphase =>
          rw [hphase] at hfits
          rw [← Option.some.inj hstep]
          refine hsound.conclude hfits fun info hinfo => ?_
          cases user with
          | true => rw [← Option.some.inj hinfo]
          | false => rw [← Option.some.inj hinfo]
      case h_2 => exact nomatch hstep
  | lookUp call valid =>
      have hfits := hsound.calls call
      simp only [ServerManager.step] at hstep
      split at hstep
      case h_1 op serverInfo hphase =>
          rw [hphase] at hfits
          rw [← Option.some.inj hstep]
          exact hsound.lookUp hfits valid
      case h_2 => exact nomatch hstep
  | interact call outcome =>
      have hfits := hsound.calls call
      simp only [ServerManager.step] at hstep
      split at hstep
      case h_1 op serverInfo hphase =>
          rw [hphase] at hfits
          split at hstep
          case isTrue =>
              rw [← Option.some.inj hstep]
              exact hsound.setCall hfits
          case isFalse =>
              rw [← Option.some.inj hstep]
              exact hsound.setCall trivial
      case h_2 => exact nomatch hstep
  | storeState call =>
      have hfits := hsound.calls call
      simp only [ServerManager.step] at hstep
      split at hstep
      case h_1 op serverInfo hphase =>
          rw [hphase] at hfits
          rw [← Option.some.inj hstep]
          exact hsound.storeState op hfits
      case h_2 => exact nomatch hstep
  | tryAuthenticate serverInfo =>
      simp only [ServerManager.step] at hstep
      split at hstep
      case isTrue =>
          rw [← Option.some.inj hstep]
          exact hsound.stays
      case isFalse => exact nomatch hstep
  | tryReauthenticate serverInfo valid user =>
      simp only [ServerManager.step] at hstep
      split at hstep
      case isTrue =>
          rw [← Option.some.inj hstep]
          exact hsound.tryReauthenticate valid user
      case isFalse => exact nomatch hstep

omit [DecidableEq κ] [DecidableEq ι] in
theorem sound_new : (new : ServerManager κ ι).Sound :=
  ⟨fun _ => trivial, fun _ _ _ hserver => (nomatch hserver), fun _ hmem => (nomatch hmem)⟩

theorem sound_of_reachable (hreach : (managerSystem κ ι).Reachable (fun _ _ => True) manager) :
    manager.Sound :=
  hreach.invariant (fun _ hstart => hstart ▸ sound_new) fun _ _ _ hsound _ hstep =>
    (hsound.step hstep).toSound

/-- Every step of a run advances. -/
theorem Sound.leads (hsound : manager.Sound)
    (hleads : (managerSystem κ ι).Leads (fun _ _ => True) manager next) :
    manager.Advances next := by
  induction hleads with
  | refl => exact hsound.stays
  | step _ _ hstep ih =>
      have hnext := ih.toSound.step hstep
      exact ⟨hnext.toSound, fun url hshaken => hnext.handshaken url (ih.handshaken url hshaken)⟩

omit [DecidableEq κ] [DecidableEq ι] in
/-- The lock of a server lets one handshake through. -/
theorem Holds.unique {first second : ι} (hfirst : manager.Holds first url)
    (hsecond : manager.Holds second url) : first = second := by
  obtain ⟨server, hserver, hlock⟩ := hfirst
  obtain ⟨same, hsame, hother⟩ := hsecond
  rw [Option.some.inj (hsame.symm.trans hserver)] at hother
  exact Option.some.inj (hlock.symm.trans hother)

/-- **A handshaken server stays handshaken.**  Whatever calls run, and in whatever order: a
server that is `AuthNeeded` or `Ready` is never `Handshaking` or `HandshakeFailed` again, two
calls do not ask one server for a handshake, and no call panics. -/
theorem handshaken_stays (hreach : (managerSystem κ ι).Reachable (fun _ _ => True) manager) :
    (∀ url, manager.Handshaken url →
      ∀ later, (managerSystem κ ι).Leads (fun _ _ => True) manager later → later.Handshaken url) ∧
    (∀ url first second, manager.calls first = .requesting url →
      manager.calls second = .requesting url → first = second) ∧
    ∀ call, manager.calls call ≠ .panicked := by
  have hsound := sound_of_reachable hreach
  refine ⟨fun url hshaken later hleads => (hsound.leads hleads).handshaken url hshaken, ?_, ?_⟩
  · intro url first second hfirst hsecond
    have hone := hsound.calls first
    have htwo := hsound.calls second
    rw [hfirst] at hone
    rw [hsecond] at htwo
    exact hone.holds.unique htwo.holds
  · intro call hpanicked
    have hfits := hsound.calls call
    rwa [hpanicked] at hfits

/-- One call shakes hands while a second one waits for the same server; a third one logs in
before the second has looked at the cache. -/
def logsInBetween : List (ManagerAction ℕ ℕ) :=
  [.handshake 0 7, .handshake 1 7, .takeLock 0, .checkCache 0, .respond 0 (some true),
    .immediateAuthenticate 0 false, .returns 0, .start 2 .authenticate ⟨7, true⟩, .takeLock 1,
    .lookUp 2 false, .interact 2 .ok, .checkCache 1, .storeState 2]

theorem handshaken_logsInBetween :
    ((managerSystem ℕ ℕ).after .new logsInBetween).calls 1 = .returning 7 (some ⟨7, true⟩) ∧
    ((managerSystem ℕ ℕ).after .new logsInBetween).Handshaken 7 ∧
    ∀ later, (managerSystem ℕ ℕ).Leads (fun _ _ => True)
      ((managerSystem ℕ ℕ).after .new logsInBetween) later → later.Handshaken 7 := by
  have hshaken : ((managerSystem ℕ ℕ).after .new logsInBetween).Handshaken 7 :=
    ⟨⟨some 1, .ready ⟨7, true⟩⟩, rfl, trivial⟩
  exact ⟨rfl, hshaken, (handshaken_stays
    (System.Reachable.after (.start rfl) (System.runsWithin_true _ _))).1 7 hshaken⟩

end ServerManager

end Backstitch
