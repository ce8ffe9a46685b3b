/-
# Waiting for a redirect

A call that waits for the user registers the hash of its `state` with the sending half of a
one-shot channel; the request that the browser is redirected to takes the entry out and sends
what its parameters say.  The guard of a call removes the entry of its hash again, whichever way
the call ends.  Calls, requests and cancellations come in any order.
-/

import Backstitch.Library.HashMap
import Backstitch.Library.System

namespace Backstitch

universe u v w

/-- What a call waits for, and what a route is for. -/
inductive AuthTask
  | login
  | logout
  deriving DecidableEq

inductive AuthResult
  | login (code : String)
  | logout
  deriving DecidableEq

inductive RedirectServerError
  /-- The sending half of the channel was dropped. -/
  | recv
  | authFailure (message : String)
  | noAuthorizationCode
  deriving DecidableEq

structure RedirectParams where
  code : Option String
  state : Option String
  error : Option String
  deriving DecidableEq

structure RedirectRequest where
  route : AuthTask
  params : RedirectParams
  deriving DecidableEq

/-! ## One request -/

namespace RedirectRequest

variable (request : RedirectRequest)

/-- What `login` and `logged_out` send. -/
def answer : Except RedirectServerError AuthResult :=
  match request.params.error, request.route, request.params.code with
  | some error, _, _ => .error (.authFailure error)
  | none, .login, none => .error .noAuthorizationCode
  | none, .login, some code => .ok (.login code)
  | none, .logout, _ => .ok .logout

end RedirectRequest

/-- What `wait_for_login` and `wait_for_logout` make of what was sent. -/
def AuthTask.outcome (task : AuthTask) :
    Except RedirectServerError AuthResult → Except RedirectServerError AuthResult
  | .error error => .error error
  | .ok result =>
      match task, result with
      | .login, .login code => .ok (.login code)
      | .logout, .logout => .ok .logout
      | _, _ => .error (.authFailure "wrong type of authorization (logout)")

/-! ## Calls and requests -/

/-- The receiving half of a one-shot channel. -/
inductive Receiver
  | unsent
  | sent (result : Except RedirectServerError AuthResult)
  | closed
  deriving DecidableEq

/-- Where a `wait_for_login` or `wait_for_logout` stands. -/
inductive WaitCall
  | idle
  | waiting (task : AuthTask) (state : String) (rx : Receiver)
  | ended (task : AuthTask) (state : String) (outcome : Except RedirectServerError AuthResult)
  /-- Its future was dropped. -/
  | dropped (state : String)
  deriving DecidableEq

namespace WaitCall

/-- The `state` of a call that was made. -/
def state : WaitCall → Option String
  | .idle => none
  | .waiting _ state _ => some state
  | .ended _ state _ => some state
  | .dropped state => some state

/-- The sending half is dropped. -/
def close : WaitCall → WaitCall
  | .waiting task state .unsent => .waiting task state .closed
  | call => call

/-- Something is sent; nobody minds if the receiving half is gone. -/
def send (result : Except RedirectServerError AuthResult) : WaitCall → WaitCall
  | .waiting task state .unsent => .waiting task state (.sent result)
  | call => call

end WaitCall

/-- Where a request stands. -/
inductive RedirectHandler (ι : Type u)
  | idle
  /-- It has taken the entry of this call. -/
  | sending (request : RedirectRequest) (call : ι)
  | answered (request : RedirectRequest) (call : Option ι)
  deriving DecidableEq

/-- A redirect server with its calls and requests.  A sending half is named by its call. -/
structure RedirectServer (ι : Type u) (κ : Type v) (η : Type w) where
  pendingAuths : HashMap η ι
  calls : ι → WaitCall
  handlers : κ → RedirectHandler ι
  /-- A panic while another one unwinds ends the process. -/
  aborted : Bool

inductive RedirectAction (ι : Type u) (κ : Type v)
  | waitFor (call : ι) (task : AuthTask) (state : String)
  | request (handler : κ) (request : RedirectRequest)
  | send (handler : κ)
  | receive (call : ι)
  /-- The future of a call is dropped. -/
  | cancel (call : ι)
  deriving DecidableEq

namespace RedirectServer

variable {ι : Type u} {κ : Type v} {η : Type w} [DecidableEq ι] [DecidableEq κ] [DecidableEq η]
  (hash : String → η) (server : RedirectServer ι κ η)

def new : RedirectServer ι κ η := ⟨∅, fun _ => .idle, fun _ => .idle, false⟩

def setCall (call : ι) (phase : WaitCall) : RedirectServer ι κ η :=
  { server with calls := Function.update server.calls call phase }

def setHandler (handler : κ) (phase : RedirectHandler ι) : RedirectServer ι κ η :=
  { server with handlers := Function.update server.handlers handler phase }

/-- The guard of a call is dropped, and the sending half that it finds under its hash. -/
def dropGuard (state : String) : RedirectServer ι κ η :=
  match server.pendingAuths.lookup (hash state) with
  | none => server
  | some owner =>
      { server with pendingAuths := server.pendingAuths.erase (hash state) }.setCall owner
        (server.calls owner).close

/-- The entry for the `state` of a request. -/
def found (request : RedirectRequest) : Option ι :=
  request.params.state.bind fun state => server.pendingAuths.lookup (hash state)

/-- A `state` that is registered already is a panic that poisons the table; the guard, which is
dropped next, panics again. -/
def step (action : RedirectAction ι κ) : Option (RedirectServer ι κ η) :=
  if server.aborted then none
  else
    match action with
    | .waitFor call task state =>
        match server.calls call with
        | .idle =>
            if hash state ∈ server.pendingAuths then some { server with aborted := true }
            else some ({ server with
              pendingAuths := server.pendingAuths.insert (hash state) call }.setCall call
                (.waiting task state .unsent))
        | _ => none
    | .request handler request =>
        match server.handlers handler, request.params.state, server.found hash request with
        | .idle, some state, some call =>
            some ({ server with
              pendingAuths := server.pendingAuths.erase (hash state) }.setHandler handler
                (.sending request call))
        | .idle, _, _ => some (server.setHandler handler (.answered request none))
        | _, _, _ => none
    | .send handler =>
        match server.handlers handler with
        | .sending request call =>
            some ((server.setCall call ((server.calls call).send request.answer)).setHandler
              handler (.answered request (some call)))
        | _ => none
    | .receive call =>
        match server.calls call with
        | .waiting task state (.sent result) =>
            some ((server.dropGuard hash state).setCall call
              (.ended task state (task.outcome result)))
        | .waiting task state .closed =>
            some ((server.dropGuard hash state).setCall call (.ended task state (.error .recv)))
        | _ => none
    | .cancel call =>
        match server.calls call with
        | .waiting _ state _ =>
            some ((server.dropGuard hash state).setCall call (.dropped state))
        | _ => none

end RedirectServer

/-- A redirect server, with any calls and any requests. -/
def redirectSystem {ι : Type u} {κ : Type v} {η : Type w} [DecidableEq ι] [DecidableEq κ]
    [DecidableEq η] (hash : String → η) : System (RedirectServer ι κ η) (RedirectAction ι κ) where
  start server := server = .new
  step := RedirectServer.step hash

namespace RedirectServer

variable {ι : Type u} {κ : Type v} {η : Type w} [DecidableEq ι] [DecidableEq κ] [DecidableEq η]
  {hash : String → η} {server next : RedirectServer ι κ η} {call other : ι} {handler : κ}
  {task : AuthTask} {state : String} {request : RedirectRequest} {phase : WaitCall}

/-! ## What a step does -/

/-- Something is sent to a call that waits for it, or nothing happens. -/
theorem send_cases (phase : WaitCall) (result : Except RedirectServerError AuthResult) :
    (∃ task state, phase = .waiting task state .unsent ∧
      phase.send result = .waiting task state (.sent result)) ∨
    (∀ task state, phase ≠ .waiting task state .unsent) ∧ phase.send result = phase := by
  cases phase with
  | idle => simp [WaitCall.send]
  | waiting task state rx => cases rx <;> simp [WaitCall.send]
  | ended task state outcome => simp [WaitCall.send]
  | dropped state => simp [WaitCall.send]

/-- How a call that waits for this ends. -/
inductive Ends (task : AuthTask) (state : String) : Receiver → WaitCall → Prop
  | receives (result : Except RedirectServerError AuthResult) :
      Ends task state (.sent result) (.ended task state (task.outcome result))
  | fails : Ends task state .closed (.ended task state (.error .recv))
  | cancelled (rx : Receiver) : Ends task state rx (.dropped state)

/-- What the steps do. -/
inductive Moves (hash : String → η) (server : RedirectServer ι κ η) :
    RedirectAction ι κ → RedirectServer ι κ η → Prop
  | aborts {call : ι} {task : AuthTask} {state : String} (hkey : hash state ∈ server.pendingAuths) :
      Moves hash server (.waitFor call task state) { server with aborted := true }
  | registers {call : ι} {task : AuthTask} {state : String} (hidle : server.calls call = .idle)
      (hkey : hash state ∉ server.pendingAuths) :
      Moves hash server (.waitFor call task state)
        ({ server with pendingAuths := server.pendingAuths.insert (hash state) call }.setCall call
          (.waiting task state .unsent))
  | takes {handler : κ} {request : RedirectRequest} {state : String} {call : ι}
      (hidle : server.handlers handler = .idle) (hstate : request.params.state = some state)
      (hentry : server.pendingAuths.lookup (hash state) = some call) :
      Moves hash server (.request handler request)
        ({ server with pendingAuths := server.pendingAuths.erase (hash state) }.setHandler handler
          (.sending request call))
  | misses {handler : κ} {request : RedirectRequest} (hidle : server.handlers handler = .idle) :
      Moves hash server (.request handler request)
        (server.setHandler handler (.answered request none))
  | sends {handler : κ} {request : RedirectRequest} {call : ι}
      (hsending : server.handlers handler = .sending request call) :
      Moves hash server (.send handler)
        ((server.setCall call ((server.calls call).send request.answer)).setHandler handler
          (.answered request (some call)))
  | ends {action : RedirectAction ι κ} {call : ι} {task : AuthTask} {state : String} {rx : Receiver}
      {phase : WaitCall} (hwaits : server.calls call = .waiting task state rx)
      (hends : Ends task state rx phase) :
      Moves hash server action ((server.dropGuard hash state).setCall call phase)

/-- **What a step does.** -/
theorem moves_of_step {action : RedirectAction ι κ}
    (hstep : server.step hash action = some next) :
    server.aborted = false ∧ Moves hash server action next := by
  unfold step at hstep
  split at hstep
  · cases hstep
  next haborted =>
  refine ⟨eq_false_of_ne_true haborted, ?_⟩
  cases action with
  | waitFor call task state =>
      dsimp only at hstep
      split at hstep
      · next hidle =>
        split at hstep
        · next hkey =>
          cases hstep
          exact .aborts hkey
        · next hkey =>
          cases hstep
          exact .registers hidle hkey
      · cases hstep
  | request handler request =>
      dsimp only at hstep
      split at hstep
      · next hidle hstate hfound =>
        cases hstep
        rw [found, hstate] at hfound
        exact .takes hidle hstate hfound
      · next hidle _ =>
        cases hstep
        exact .misses hidle
      · cases hstep
  | send handler =>
      dsimp only at hstep
      split at hstep
      · next hsending =>
        cases hstep
        exact .sends hsending
      · cases hstep
  | receive call =>
      dsimp only at hstep
      split at hstep
      · next hwaits =>
        cases hstep
        exact .ends hwaits (.receives _)
      · next hwaits =>
        cases hstep
        exact .ends hwaits .fails
      · cases hstep
  | cancel call =>
      dsimp only at hstep
      split at hstep
      · next hwaits =>
        cases hstep
        exact .ends hwaits (.cancelled _)
      · cases hstep

/-! ## Who answers whom -/

/-- A request has taken the entry of a call. -/
def Serves (server : RedirectServer ι κ η) (handler : κ) (request : RedirectRequest) (call : ι) :
    Prop :=
  server.handlers handler = .sending request call ∨
    server.handlers handler = .answered request (some call)

/-- The table has the calls that wait and that no request has taken; and what a call got is what
the one request that took it sent. -/
structure Matched (hash : String → η) (server : RedirectServer ι κ η) : Prop where
  registered : ∀ key call, server.pendingAuths.lookup key = some call →
    ∃ task state, server.calls call = .waiting task state .unsent ∧ hash state = key
  awaited : ∀ call task state, server.calls call = .waiting task state .unsent →
    server.pendingAuths.lookup (hash state) = some call ∨
      ∃ handler request, server.handlers handler = .sending request call
  taken : ∀ handler request call, server.Serves handler request call →
    (∀ key, server.pendingAuths.lookup key ≠ some call) ∧
      ∃ state, (server.calls call).state = some state ∧
        request.params.state.map hash = some (hash state)
  once : ∀ first second request other call, server.Serves first request call →
    server.Serves second other call → first = second
  sent : ∀ call task state result, server.calls call = .waiting task state (.sent result) →
    ∃ handler request, server.handlers handler = .answered request (some call) ∧
      request.answer = result
  ended : ∀ call task state outcome, server.calls call = .ended task state outcome →
    outcome = .error .recv ∨ ∃ handler request,
      server.handlers handler = .answered request (some call) ∧
        task.outcome request.answer = outcome

omit [DecidableEq ι] [DecidableEq κ] in
theorem matched_new : (new : RedirectServer ι κ η).Matched hash := by
  constructor <;> simp [new, Serves]

omit [DecidableEq ι] [DecidableEq κ] in
/-- A hash is that of one call that the table has. -/
theorem Matched.entry (hmatched : server.Matched hash)
    (hstate : (server.calls call).state = some state) {key : η}
    (hlookup : server.pendingAuths.lookup key = some call) : key = hash state := by
  obtain ⟨task, found, hwaits, rfl⟩ := hmatched.registered key call hlookup
  rw [hwaits] at hstate
  cases hstate
  rfl

/-! ## Every step keeps the match -/

omit [DecidableEq κ] in
/-- A call that is made. -/
theorem Matched.register (hmatched : server.Matched hash) (hidle : server.calls call = .idle)
    (hkey : hash state ∉ server.pendingAuths) :
    ({ server with pendingAuths := server.pendingAuths.insert (hash state) call }.setCall call
      (.waiting task state .unsent)).Matched hash := by
  have hnone : ∀ handler request, ¬ server.Serves handler request call := by
    intro handler request hserves
    obtain ⟨-, found, hfound, -⟩ := hmatched.taken handler request call hserves
    rw [hidle] at hfound
    cases hfound
  have hkept : ∀ other, other ≠ call → ({ server with
      pendingAuths := server.pendingAuths.insert (hash state) call }.setCall call
        (.waiting task state .unsent)).calls other = server.calls other :=
    fun other hne => Function.update_of_ne hne _ _
  have hself : ({ server with
      pendingAuths := server.pendingAuths.insert (hash state) call }.setCall call
        (.waiting task state .unsent)).calls call = .waiting task state .unsent :=
    Function.update_self _ _ _
  constructor
  case registered =>
    intro key found hlookup
    change (server.pendingAuths.insert (hash state) call).lookup key = some found at hlookup
    by_cases heq : key = hash state
    · subst heq
      rw [Finmap.lookup_insert] at hlookup
      cases hlookup
      exact ⟨task, state, hself, rfl⟩
    · rw [Finmap.lookup_insert_of_ne _ heq] at hlookup
      obtain ⟨foundTask, foundState, hwaits, hhash⟩ := hmatched.registered key found hlookup
      have hne : found ≠ call := by
        rintro rfl
        rw [hidle] at hwaits
        cases hwaits
      exact ⟨foundTask, foundState, (hkept found hne).trans hwaits, hhash⟩
  case awaited =>
    intro found foundTask foundState hwaits
    by_cases heq : found = call
    · subst heq
      rw [hself] at hwaits
      cases hwaits
      exact .inl (Finmap.lookup_insert _)
    · rw [hkept found heq] at hwaits
      refine (hmatched.awaited found foundTask foundState hwaits).imp_left fun hlookup => ?_
      have hne : hash foundState ≠ hash state := by
        intro hsame
        exact hkey (hsame ▸ Finmap.mem_of_lookup_eq_some hlookup)
      exact (Finmap.lookup_insert_of_ne _ hne).trans hlookup
  case taken =>
    intro handler request found hserves
    obtain ⟨habsent, foundState, hstate, hparam⟩ := hmatched.taken handler request found hserves
    have hne : found ≠ call := by
      rintro rfl
      exact hnone handler request hserves
    refine ⟨fun key hlookup => ?_, foundState, ?_, hparam⟩
    · change (server.pendingAuths.insert (hash state) call).lookup key = some found at hlookup
      by_cases heq : key = hash state
      · rw [heq, Finmap.lookup_insert] at hlookup
        exact hne (Option.some.inj hlookup).symm
      · rw [Finmap.lookup_insert_of_ne _ heq] at hlookup
        exact habsent key hlookup
    · rw [hkept found hne]
      exact hstate
  case once => exact hmatched.once
  case sent =>
    intro found foundTask foundState result hwaits
    by_cases heq : found = call
    · subst heq
      rw [hself] at hwaits
      cases hwaits
    · exact hmatched.sent found foundTask foundState result ((hkept found heq).symm.trans hwaits)
  case ended =>
    intro found foundTask foundState outcome hended
    by_cases heq : found = call
    · subst heq
      rw [hself] at hended
      cases hended
    · exact hmatched.ended found foundTask foundState outcome
        ((hkept found heq).symm.trans hended)

/-- A request that takes the entry of its `state`. -/
theorem Matched.take (hmatched : server.Matched hash) (hidle : server.handlers handler = .idle)
    (hstate : request.params.state = some state)
    (hentry : server.pendingAuths.lookup (hash state) = some call) :
    ({ server with pendingAuths := server.pendingAuths.erase (hash state) }.setHandler handler
      (.sending request call)).Matched hash := by
  obtain ⟨task, own, hwaits, hhash⟩ := hmatched.registered _ call hentry
  have hfree : ∀ other request, ¬ server.Serves other request call :=
    fun other request hserves => (hmatched.taken other request call hserves).1 _ hentry
  have hhandler : ∀ other, other ≠ handler → ({ server with
      pendingAuths := server.pendingAuths.erase (hash state) }.setHandler handler
        (.sending request call)).handlers other = server.handlers other :=
    fun other hne => Function.update_of_ne hne _ _
  have hself : ({ server with
      pendingAuths := server.pendingAuths.erase (hash state) }.setHandler handler
        (.sending request call)).handlers handler = .sending request call :=
    Function.update_self _ _ _
  have hcases : ∀ other found called, ({ server with
      pendingAuths := server.pendingAuths.erase (hash state) }.setHandler handler
        (.sending request call)).Serves other found called →
      other = handler ∧ found = request ∧ called = call ∨
        other ≠ handler ∧ server.Serves other found called := by
    intro other found called hserves
    by_cases heq : other = handler
    · subst heq
      rw [Serves, hself] at hserves
      rcases hserves with hserves | hserves
      · cases hserves
        exact .inl ⟨rfl, rfl, rfl⟩
      · cases hserves
    · rw [Serves, hhandler other heq] at hserves
      exact .inr ⟨heq, hserves⟩
  have hlookups : ∀ key found, (server.pendingAuths.erase (hash state)).lookup key = some found →
      server.pendingAuths.lookup key = some found ∧ key ≠ hash state := by
    intro key found hlookup
    by_cases heq : key = hash state
    · rw [heq, Finmap.lookup_erase] at hlookup
      cases hlookup
    · rw [Finmap.lookup_erase_ne heq] at hlookup
      exact ⟨hlookup, heq⟩
  constructor
  case registered =>
    exact fun key found hlookup => hmatched.registered key found (hlookups key found hlookup).1
  case awaited =>
    intro found foundTask foundState hfound
    by_cases heq : found = call
    · exact .inr ⟨handler, request, heq ▸ hself⟩
    rcases hmatched.awaited found foundTask foundState hfound with hlookup | ⟨other, asked, hsends⟩
    · left
      have hne : hash foundState ≠ hash state := by
        intro hsame
        rw [hsame, hentry] at hlookup
        exact heq (Option.some.inj hlookup).symm
      exact (Finmap.lookup_erase_ne hne).trans hlookup
    · have hne : other ≠ handler := by
        rintro rfl
        rw [hidle] at hsends
        cases hsends
      exact .inr ⟨other, asked, (hhandler other hne).trans hsends⟩
  case taken =>
    intro other found called hserves
    rcases hcases other found called hserves with ⟨-, rfl, rfl⟩ | ⟨-, hserves⟩
    · refine ⟨fun key hlookup => ?_, own, ?_, ?_⟩
      · obtain ⟨hold, hne⟩ := hlookups key _ hlookup
        obtain ⟨_, _, hagain, hkey⟩ := hmatched.registered key _ hold
        rw [hwaits] at hagain
        cases hagain
        exact hne (hkey.symm.trans hhash)
      · show (server.calls called).state = some own
        rw [hwaits]
        rfl
      · rw [hstate, Option.map_some, hhash]
    · obtain ⟨habsent, hrest⟩ := hmatched.taken other found called hserves
      exact ⟨fun key hlookup => habsent key (hlookups key called hlookup).1, hrest⟩
  case once =>
    intro first second one two called hone htwo
    rcases hcases first one called hone with ⟨rfl, -, rfl⟩ | ⟨-, hold⟩
    · rcases hcases second two _ htwo with ⟨rfl, -, -⟩ | ⟨-, hserves⟩
      · rfl
      · exact absurd hserves (hfree second two)
    · rcases hcases second two called htwo with ⟨-, -, rfl⟩ | ⟨-, hserves⟩
      · exact absurd hold (hfree first one)
      · exact hmatched.once first second one two called hold hserves
  case sent =>
    intro found foundTask foundState result hfound
    obtain ⟨other, asked, hanswered, hresult⟩ :=
      hmatched.sent found foundTask foundState result hfound
    have hne : other ≠ handler := by
      rintro rfl
      rw [hidle] at hanswered
      cases hanswered
    exact ⟨other, asked, (hhandler other hne).trans hanswered, hresult⟩
  case ended =>
    intro found foundTask foundState outcome hended
    refine (hmatched.ended found foundTask foundState outcome hended).imp_right ?_
    rintro ⟨other, asked, hanswered, houtcome⟩
    have hne : other ≠ handler := by
      rintro rfl
      rw [hidle] at hanswered
      cases hanswered
    exact ⟨other, asked, (hhandler other hne).trans hanswered, houtcome⟩

omit [DecidableEq ι] in
/-- A request that finds no call. -/
theorem Matched.miss (hmatched : server.Matched hash) (hidle : server.handlers handler = .idle) :
    (server.setHandler handler (.answered request none)).Matched hash := by
  have hother : ∀ found phase, phase ≠ .idle → server.handlers found = phase →
      (server.setHandler handler (.answered request none)).handlers found = phase := by
    intro found phase hphase hfound
    have hne : found ≠ handler := by
      rintro rfl
      exact hphase (hfound.symm.trans hidle)
    exact (Function.update_of_ne hne _ _).trans hfound
  have hserves : ∀ found asked called,
      (server.setHandler handler (.answered request none)).Serves found asked called →
        server.Serves found asked called := by
    intro found asked called hserves
    by_cases heq : found = handler
    · have hself : (server.setHandler handler (.answered request none)).handlers handler =
          .answered request none := Function.update_self _ _ _
      rw [heq, Serves, hself] at hserves
      rcases hserves with hserves | hserves
      · cases hserves
      · cases hserves
    · have hkept : (server.setHandler handler (.answered request none)).handlers found =
          server.handlers found := Function.update_of_ne heq _ _
      rwa [Serves, hkept] at hserves
  constructor
  case registered => exact hmatched.registered
  case awaited =>
    intro found foundTask foundState hfound
    refine (hmatched.awaited found foundTask foundState hfound).imp_right ?_
    rintro ⟨other, asked, hsends⟩
    exact ⟨other, asked, hother other _ (by simp) hsends⟩
  case taken =>
    exact fun found asked called hnow => hmatched.taken found asked called (hserves _ _ _ hnow)
  case once =>
    exact fun first second one two called hone htwo =>
      hmatched.once first second one two called (hserves _ _ _ hone) (hserves _ _ _ htwo)
  case sent =>
    intro found foundTask foundState result hfound
    obtain ⟨other, asked, hanswered, hresult⟩ :=
      hmatched.sent found foundTask foundState result hfound
    exact ⟨other, asked, hother other _ (by simp) hanswered, hresult⟩
  case ended =>
    intro found foundTask foundState outcome hended
    refine (hmatched.ended found foundTask foundState outcome hended).imp_right ?_
    rintro ⟨other, asked, hanswered, houtcome⟩
    exact ⟨other, asked, hother other _ (by simp) hanswered, houtcome⟩

/-- A request that sends. -/
theorem Matched.send (hmatched : server.Matched hash)
    (hsending : server.handlers handler = .sending request call) :
    ((server.setCall call ((server.calls call).send request.answer)).setHandler handler
      (.answered request (some call))).Matched hash := by
  obtain ⟨habsent, own, hown, hparam⟩ := hmatched.taken handler request call (.inl hsending)
  let after := (server.setCall call ((server.calls call).send request.answer)).setHandler handler
    (.answered request (some call))
  have hself : after.handlers handler = .answered request (some call) := Function.update_self _ _ _
  have hhandler : ∀ other, other ≠ handler → after.handlers other = server.handlers other :=
    fun other hne => Function.update_of_ne hne _ _
  have hcall : ∀ other, other ≠ call → after.calls other = server.calls other :=
    fun other hne => Function.update_of_ne hne _ _
  have hsent : after.calls call = (server.calls call).send request.answer :=
    Function.update_self _ _ _
  have hstate : ∀ other, (after.calls other).state = (server.calls other).state := by
    intro other
    by_cases heq : other = call
    · subst heq
      rw [hsent]
      rcases send_cases (server.calls other) request.answer with
        ⟨task, state, hwaits, hsend⟩ | ⟨-, hsend⟩
      · rw [hsend, hwaits]
        rfl
      · rw [hsend]
    · rw [hcall other heq]
  have hserves : ∀ found asked called, after.Serves found asked called →
      server.Serves found asked called := by
    intro found asked called hserves
    by_cases heq : found = handler
    · subst heq
      rw [Serves, hself] at hserves
      rcases hserves with hserves | hserves
      · cases hserves
      · cases hserves
        exact .inl hsending
    · rwa [Serves, hhandler found heq] at hserves
  have hanswered : ∀ other asked called, server.handlers other = .answered asked (some called) →
      after.handlers other = .answered asked (some called) := by
    intro other asked called hother
    have hne : other ≠ handler := by
      rintro rfl
      rw [hsending] at hother
      cases hother
    exact (hhandler other hne).trans hother
  show after.Matched hash
  constructor
  case registered =>
    intro key found hlookup
    obtain ⟨foundTask, foundState, hwaits, hhash⟩ := hmatched.registered key found hlookup
    have hne : found ≠ call := by
      rintro rfl
      exact habsent key hlookup
    exact ⟨foundTask, foundState, (hcall found hne).trans hwaits, hhash⟩
  case awaited =>
    intro found foundTask foundState hwaits
    have hne : found ≠ call := by
      rintro rfl
      rw [hsent] at hwaits
      rcases send_cases (server.calls found) request.answer with
        ⟨task, state, -, hsend⟩ | ⟨hnot, hsend⟩
      · rw [hsend] at hwaits
        cases hwaits
      · exact hnot _ _ (hsend.symm.trans hwaits)
    rw [hcall found hne] at hwaits
    refine (hmatched.awaited found foundTask foundState hwaits).imp_right ?_
    rintro ⟨other, asked, hsends⟩
    have hother : other ≠ handler := by
      rintro rfl
      rw [hsending] at hsends
      cases hsends
      exact hne rfl
    exact ⟨other, asked, (hhandler other hother).trans hsends⟩
  case taken =>
    intro found asked called hnow
    obtain ⟨hnone, foundState, hfound, hasked⟩ :=
      hmatched.taken found asked called (hserves found asked called hnow)
    exact ⟨hnone, foundState, (hstate called).trans hfound, hasked⟩
  case once =>
    exact fun first second one two called hone htwo =>
      hmatched.once first second one two called (hserves _ _ _ hone) (hserves _ _ _ htwo)
  case sent =>
    intro found foundTask foundState result hfound
    by_cases heq : found = call
    · subst heq
      rw [hsent] at hfound
      rcases send_cases (server.calls found) request.answer with
        ⟨task, state, -, hsend⟩ | ⟨-, hsend⟩
      · rw [hsend] at hfound
        cases hfound
        exact ⟨handler, request, hself, rfl⟩
      · obtain ⟨other, asked, hother, hresult⟩ :=
          hmatched.sent found foundTask foundState result (hsend.symm.trans hfound)
        exact ⟨other, asked, hanswered other asked found hother, hresult⟩
    · rw [hcall found heq] at hfound
      obtain ⟨other, asked, hother, hresult⟩ :=
        hmatched.sent found foundTask foundState result hfound
      exact ⟨other, asked, hanswered other asked found hother, hresult⟩
  case ended =>
    intro found foundTask foundState outcome hended
    have hold : server.calls found = .ended foundTask foundState outcome := by
      by_cases heq : found = call
      · subst heq
        rw [hsent] at hended
        rcases send_cases (server.calls found) request.answer with
          ⟨task, state, -, hsend⟩ | ⟨-, hsend⟩
        · rw [hsend] at hended
          cases hended
        · exact hsend.symm.trans hended
      · rwa [hcall found heq] at hended
    refine (hmatched.ended found foundTask foundState outcome hold).imp_right ?_
    rintro ⟨other, asked, hother, houtcome⟩
    exact ⟨other, asked, hanswered other asked found hother, houtcome⟩

omit [DecidableEq κ] in
/-- A guard closes what it finds under its hash. -/
theorem Matched.dropGuard (hmatched : server.Matched hash) (state : String) :
    (server.dropGuard hash state).Matched hash ∧
      (∀ call, (server.dropGuard hash state).pendingAuths.lookup (hash state) ≠ some call) ∧
      ∀ call, ((server.dropGuard hash state).calls call).state = (server.calls call).state := by
  unfold RedirectServer.dropGuard
  cases hlookup : server.pendingAuths.lookup (hash state) with
  | none => exact ⟨hmatched, by simp [hlookup], fun _ => rfl⟩
  | some owner =>
      dsimp only
      obtain ⟨task, own, hwaits, hhash⟩ := hmatched.registered _ owner hlookup
      have hclose : (server.calls owner).close = .waiting task own .closed := by
        rw [hwaits]
        rfl
      rw [hclose]
      let after := { server with pendingAuths := server.pendingAuths.erase (hash state) }.setCall
        owner (.waiting task own .closed)
      have hself : after.calls owner = .waiting task own .closed := Function.update_self _ _ _
      have hcall : ∀ other, other ≠ owner → after.calls other = server.calls other :=
        fun other hne => Function.update_of_ne hne _ _
      have hstate : ∀ other, (after.calls other).state = (server.calls other).state := by
        intro other
        by_cases heq : other = owner
        · rw [heq, hself, hwaits]
          rfl
        · rw [hcall other heq]
      have hlookups : ∀ key found, after.pendingAuths.lookup key = some found →
          server.pendingAuths.lookup key = some found ∧ key ≠ hash state := by
        intro key found hfound
        change (server.pendingAuths.erase (hash state)).lookup key = some found at hfound
        by_cases heq : key = hash state
        · rw [heq, Finmap.lookup_erase] at hfound
          cases hfound
        · rw [Finmap.lookup_erase_ne heq] at hfound
          exact ⟨hfound, heq⟩
      refine ⟨?_, fun call hfound => (hlookups _ call hfound).2 rfl, hstate⟩
      show after.Matched hash
      constructor
      case registered =>
        intro key found hfound
        obtain ⟨hold, hne⟩ := hlookups key found hfound
        obtain ⟨foundTask, foundState, hfoundWaits, hkey⟩ := hmatched.registered key found hold
        have hother : found ≠ owner := by
          rintro rfl
          rw [hwaits] at hfoundWaits
          cases hfoundWaits
          exact hne (hkey.symm.trans hhash)
        exact ⟨foundTask, foundState, (hcall found hother).trans hfoundWaits, hkey⟩
      case awaited =>
        intro found foundTask foundState hfound
        have hother : found ≠ owner := by
          rintro rfl
          rw [hself] at hfound
          cases hfound
        rw [hcall found hother] at hfound
        refine (hmatched.awaited found foundTask foundState hfound).imp_left fun hold => ?_
        have hne : hash foundState ≠ hash state := by
          intro hsame
          rw [hsame, hlookup] at hold
          exact hother (Option.some.inj hold).symm
        exact (Finmap.lookup_erase_ne hne).trans hold
      case taken =>
        intro handler asked called hserves
        obtain ⟨habsent, foundState, hfound, hparam⟩ := hmatched.taken handler asked called hserves
        exact ⟨fun key hkey => habsent key (hlookups key called hkey).1, foundState,
          (hstate called).trans hfound, hparam⟩
      case once => exact hmatched.once
      case sent =>
        intro found foundTask foundState result hfound
        have hother : found ≠ owner := by
          rintro rfl
          rw [hself] at hfound
          cases hfound
        exact hmatched.sent found foundTask foundState result
          ((hcall found hother).symm.trans hfound)
      case ended =>
        intro found foundTask foundState outcome hended
        have hother : found ≠ owner := by
          rintro rfl
          rw [hself] at hended
          cases hended
        exact hmatched.ended found foundTask foundState outcome
          ((hcall found hother).symm.trans hended)

omit [DecidableEq κ] in
/-- A call that ends after its guard was dropped. -/
theorem Matched.settle (hmatched : server.Matched hash)
    (hown : (server.calls call).state = some state)
    (habsent : server.pendingAuths.lookup (hash state) ≠ some call)
    (hphase : phase.state = some state)
    (hunsent : ∀ task state rx, phase ≠ .waiting task state rx)
    (hended : ∀ task state outcome, phase = .ended task state outcome →
      outcome = .error .recv ∨ ∃ handler request,
        server.handlers handler = .answered request (some call) ∧
          task.outcome request.answer = outcome) :
    (server.setCall call phase).Matched hash := by
  have hself : (server.setCall call phase).calls call = phase := Function.update_self _ _ _
  have hcall : ∀ other, other ≠ call →
      (server.setCall call phase).calls other = server.calls other :=
    fun other hne => Function.update_of_ne hne _ _
  constructor
  case registered =>
    intro key found hlookup
    obtain ⟨foundTask, foundState, hwaits, hhash⟩ := hmatched.registered key found hlookup
    have hne : found ≠ call := by
      rintro rfl
      exact habsent (hmatched.entry hown hlookup ▸ hlookup)
    exact ⟨foundTask, foundState, (hcall found hne).trans hwaits, hhash⟩
  case awaited =>
    intro found foundTask foundState hwaits
    have hne : found ≠ call := by
      rintro rfl
      exact hunsent _ _ _ (hself.symm.trans hwaits)
    exact hmatched.awaited found foundTask foundState ((hcall found hne).symm.trans hwaits)
  case taken =>
    intro handler asked called hserves
    obtain ⟨hnone, foundState, hfound, hparam⟩ := hmatched.taken handler asked called hserves
    refine ⟨hnone, foundState, ?_, hparam⟩
    by_cases heq : called = call
    · rw [heq, hself, hphase, ← hown, ← heq, hfound]
    · rw [hcall called heq, hfound]
  case once => exact hmatched.once
  case sent =>
    intro found foundTask foundState result hfound
    have hne : found ≠ call := by
      rintro rfl
      exact hunsent _ _ _ (hself.symm.trans hfound)
    exact hmatched.sent found foundTask foundState result ((hcall found hne).symm.trans hfound)
  case ended =>
    intro found foundTask foundState outcome hfound
    by_cases heq : found = call
    · subst heq
      exact hended foundTask foundState outcome (hself.symm.trans hfound)
    · exact hmatched.ended found foundTask foundState outcome
        ((hcall found heq).symm.trans hfound)

omit [DecidableEq κ] in
theorem handlers_dropGuard (server : RedirectServer ι κ η) (state : String) :
    (server.dropGuard hash state).handlers = server.handlers := by
  unfold RedirectServer.dropGuard
  split <;> rfl

/-- **Every step keeps the match.** -/
theorem Matched.step (hmatched : server.Matched hash) {action : RedirectAction ι κ}
    (hstep : server.step hash action = some next) : next.Matched hash := by
  cases (moves_of_step hstep).2 with
  | aborts _ =>
      exact ⟨hmatched.registered, hmatched.awaited, hmatched.taken, hmatched.once, hmatched.sent,
        hmatched.ended⟩
  | registers hidle hkey => exact hmatched.register hidle hkey
  | takes hidle hstate hentry => exact hmatched.take hidle hstate hentry
  | misses hidle => exact hmatched.miss hidle
  | sends hsending => exact hmatched.send hsending
  | @ends _ call task state rx phase hwaits hends =>
      obtain ⟨hdropped, habsent, hstates⟩ := hmatched.dropGuard state
      have hown : ((server.dropGuard hash state).calls call).state = some state := by
        rw [hstates, hwaits]
        rfl
      cases hends with
      | receives result =>
          obtain ⟨handler, request, hanswered, hresult⟩ :=
            hmatched.sent call task state result hwaits
          refine hdropped.settle hown (habsent call) rfl (by simp) ?_
          rintro _ _ _ ⟨⟩
          rw [handlers_dropGuard]
          exact .inr ⟨handler, request, hanswered, by rw [hresult]⟩
      | fails =>
          refine hdropped.settle hown (habsent call) rfl (by simp) ?_
          rintro _ _ _ ⟨⟩
          exact .inl rfl
      | cancelled _ =>
          refine hdropped.settle hown (habsent call) rfl (by simp) ?_
          rintro _ _ _ ⟨⟩

theorem matched_of_reachable {allowed : RedirectServer ι κ η → RedirectAction ι κ → Prop}
    (hreach : (redirectSystem hash).Reachable allowed server) : server.Matched hash :=
  hreach.invariant (fun _ hstart => hstart ▸ matched_new)
    fun _ _ _ hmatched _ hstep => hmatched.step hstep

end RedirectServer

end Backstitch
