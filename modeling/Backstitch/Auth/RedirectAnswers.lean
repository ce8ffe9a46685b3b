/-
# Answers to waiting calls

A call that waits for a redirect ends with what one request sent to it.  The server tells the
`state` of one call from that of another by its hash alone.  While every call draws a `state` whose
hash is its own, the table has just the calls that wait, no call loses its channel to another one,
and the first request whose `state` has the hash of a call answers it.
-/

import Backstitch.Auth.RedirectServer

namespace Backstitch

universe u v w

/-! ## One answer for each call -/

/-- A request that lets a call for this task go on with this result. -/
inductive RedirectRequest.Grants (request : RedirectRequest) : AuthTask → AuthResult → Prop
  | login {code : String} (hroute : request.route = .login) (herror : request.params.error = none)
      (hcode : request.params.code = some code) : request.Grants .login (.login code)
  | logout (hroute : request.route = .logout) (herror : request.params.error = none) :
      request.Grants .logout .logout

theorem RedirectRequest.grants_of_outcome {request : RedirectRequest} {task : AuthTask}
    {result : AuthResult} (houtcome : task.outcome request.answer = .ok result) :
    request.Grants task result := by
  unfold RedirectRequest.answer at houtcome
  split at houtcome
  · cases houtcome
  · cases houtcome
  · next code herror hroute hcode =>
    cases task with
    | login =>
        cases houtcome
        exact .login hroute herror hcode
    | logout => cases houtcome
  · next herror hroute =>
    cases task with
    | login => cases houtcome
    | logout =>
        cases houtcome
        exact .logout hroute herror

namespace RedirectServer

variable {ι : Type u} {κ : Type v} {η : Type w} [DecidableEq ι] [DecidableEq κ] [DecidableEq η]
  {hash : String → η} {server next : RedirectServer ι κ η} {call : ι} {task : AuthTask}
  {state : String}

/-- **A call ends with what one request sent**: with a `state` of its hash, and through the right
route if the call goes on. -/
theorem answeredByOne_of_reachable {outcome : Except RedirectServerError AuthResult}
    (hreach : (redirectSystem hash).Reachable (fun _ _ => True) server)
    (hended : server.calls call = .ended task state outcome) (houtcome : outcome ≠ .error .recv) :
    ∃! handler, ∃ request, server.handlers handler = .answered request (some call) ∧
      request.params.state.map hash = some (hash state) ∧
      task.outcome request.answer = outcome ∧
      ∀ result, outcome = .ok result → request.Grants task result := by
  have hmatched := matched_of_reachable hreach
  obtain ⟨handler, request, hanswered, hresult⟩ :=
    (hmatched.ended call task state outcome hended).resolve_left houtcome
  obtain ⟨-, own, hown, hparam⟩ := hmatched.taken handler request call (.inr hanswered)
  obtain rfl : state = own := by
    rw [hended] at hown
    exact Option.some.inj hown
  refine ⟨handler, ⟨request, hanswered, hparam, hresult, fun result hok => ?_⟩, ?_⟩
  · exact RedirectRequest.grants_of_outcome (hresult.trans hok)
  · rintro other ⟨asked, hother, -⟩
    exact hmatched.once other handler asked request call (.inr hother) (.inr hanswered)

/-- A call that waits, and the request that answers it. -/
def loginRun : List (RedirectAction ℕ ℕ) :=
  [.waitFor 0 .login "state", .request 0 ⟨.login, ⟨some "code", some "state", none⟩⟩, .send 0,
    .receive 0]

theorem answeredByOne_loginRun :
    let server := (redirectSystem (id : String → String)).after
      (new : RedirectServer ℕ ℕ String) loginRun
    ∃! handler, ∃ request, server.handlers handler = .answered request (some 0) ∧
      request.params.state.map id = some (id "state") ∧
      AuthTask.login.outcome request.answer = .ok (.login "code") ∧
      ∀ result, (.ok (.login "code") : Except RedirectServerError AuthResult) = .ok result →
        request.Grants .login result :=
  answeredByOne_of_reachable
    (System.Reachable.after (.start rfl) (System.runsWithin_true _ loginRun)) (by rfl)
    (by decide)

/-! ## Fresh states -/

/-- A call draws a `state` whose hash no call had before. -/
def FreshStates (hash : String → η) (server : RedirectServer ι κ η) : RedirectAction ι κ → Prop
  | .waitFor _ _ state => ∀ other, (server.calls other).state.map hash ≠ some (hash state)
  | _ => True

/-- No two calls have one hash, and no call lost its channel. -/
structure Unmixed (hash : String → η) (server : RedirectServer ι κ η) : Prop where
  matched : server.Matched hash
  running : server.aborted = false
  distinct : ∀ first second key, (server.calls first).state.map hash = some key →
    (server.calls second).state.map hash = some key → first = second
  unclosed : ∀ call task state, server.calls call ≠ .waiting task state .closed
  received : ∀ call task state, server.calls call ≠ .ended task state (.error .recv)

omit [DecidableEq ι] [DecidableEq κ] in
theorem unmixed_new : (new : RedirectServer ι κ η).Unmixed hash where
  matched := matched_new
  running := rfl
  distinct := by simp [new, WaitCall.state]
  unclosed := by simp [new]
  received := by simp [new]

omit [DecidableEq κ] in
/-- With distinct hashes, a guard finds the entry of its own call, or none. -/
theorem Unmixed.calls_dropGuard (hunmixed : server.Unmixed hash) {rx : Receiver}
    (hwaits : server.calls call = .waiting task state rx) {other : ι} (hne : other ≠ call) :
    (server.dropGuard hash state).calls other = server.calls other := by
  unfold RedirectServer.dropGuard
  cases hlookup : server.pendingAuths.lookup (hash state) with
  | none => rfl
  | some owner =>
      obtain ⟨foundTask, own, howner, hhash⟩ := hunmixed.matched.registered _ owner hlookup
      have hself : owner = call := by
        apply hunmixed.distinct owner call (hash state)
        · rw [howner]
          exact congrArg some hhash
        · rw [hwaits]
          rfl
      exact Function.update_of_ne (hself ▸ hne) _ _

omit [DecidableEq κ] in
/-- A call that has its channel, or has ended without losing it, moves on. -/
theorem Unmixed.move (hunmixed : server.Unmixed hash) (hmatched : next.Matched hash)
    (hrunning : next.aborted = false) {phase : WaitCall}
    (hothers : ∀ other, other ≠ call → next.calls other = server.calls other)
    (hself : next.calls call = phase)
    (hunclosed : ∀ task state, phase ≠ .waiting task state .closed)
    (hreceived : ∀ task state, phase ≠ .ended task state (.error .recv))
    (hdistinct : ∀ other key, other ≠ call → phase.state.map hash = some key →
      (server.calls other).state.map hash ≠ some key) : next.Unmixed hash where
  matched := hmatched
  running := hrunning
  distinct first second key hfirst hsecond := by
    by_cases hone : first = call
    · by_cases htwo : second = call
      · rw [hone, htwo]
      · rw [hone, hself] at hfirst
        rw [hothers second htwo] at hsecond
        exact absurd hsecond (hdistinct second key htwo hfirst)
    · by_cases htwo : second = call
      · rw [htwo, hself] at hsecond
        rw [hothers first hone] at hfirst
        exact absurd hfirst (hdistinct first key hone hsecond)
      · rw [hothers first hone] at hfirst
        rw [hothers second htwo] at hsecond
        exact hunmixed.distinct first second key hfirst hsecond
  unclosed other task state hclosed := by
    by_cases heq : other = call
    · rw [heq, hself] at hclosed
      exact hunclosed task state hclosed
    · rw [hothers other heq] at hclosed
      exact hunmixed.unclosed other task state hclosed
  received other task state hended := by
    by_cases heq : other = call
    · rw [heq, hself] at hended
      exact hreceived task state hended
    · rw [hothers other heq] at hended
      exact hunmixed.received other task state hended

/-- A request sends no `RecvError`. -/
theorem outcome_answer_ne_recv (task : AuthTask) (request : RedirectRequest) :
    task.outcome request.answer ≠ .error .recv := by
  cases hanswer : request.answer with
  | error error =>
      rintro ⟨⟩
      unfold RedirectRequest.answer at hanswer
      split at hanswer
      all_goals cases hanswer
  | ok result => cases task <;> cases result <;> simp [AuthTask.outcome]

omit [DecidableEq κ] in
theorem aborted_dropGuard (server : RedirectServer ι κ η) (state : String) :
    (server.dropGuard hash state).aborted = server.aborted := by
  unfold RedirectServer.dropGuard
  split <;> rfl

/-- **Step lemma.** -/
theorem Unmixed.step (hunmixed : server.Unmixed hash) {action : RedirectAction ι κ}
    (hfresh : FreshStates hash server action) (hstep : server.step hash action = some next) :
    next.Unmixed hash := by
  have hmatched := hunmixed.matched.step hstep
  have hown : ∀ call key, (server.calls call).state.map hash = some key → ∀ other, other ≠ call →
      (server.calls other).state.map hash ≠ some key :=
    fun call key hcall other hne hother => hne (hunmixed.distinct other call key hother hcall)
  cases (moves_of_step hstep).2 with
  | @aborts call task state hkey =>
      obtain ⟨owner, howner⟩ := Finmap.mem_iff.mp hkey
      obtain ⟨_, own, hwaits, hhash⟩ := hunmixed.matched.registered _ owner howner
      refine absurd ?_ (hfresh owner)
      rw [hwaits]
      exact congrArg some hhash
  | @registers call task state hidle hkey =>
      refine hunmixed.move hmatched hunmixed.running
        (fun other hne => Function.update_of_ne hne _ _) (Function.update_self _ _ _) (by simp) (by simp) ?_
      intro other key hne hsome hother
      exact hfresh other (hother.trans hsome.symm)
  | takes _ _ _ => exact ⟨hmatched, hunmixed.running, hunmixed.distinct, hunmixed.unclosed,
      hunmixed.received⟩
  | misses _ => exact ⟨hmatched, hunmixed.running, hunmixed.distinct, hunmixed.unclosed,
      hunmixed.received⟩
  | @sends handler request call hsending =>
      refine hunmixed.move hmatched hunmixed.running
        (fun other hne => Function.update_of_ne hne _ _) (Function.update_self _ _ _) ?_ ?_ ?_
      · intro task state hclosed
        rcases send_cases (server.calls call) request.answer with
          ⟨_, _, -, hsend⟩ | ⟨-, hsend⟩
        · rw [hsend] at hclosed
          cases hclosed
        · exact hunmixed.unclosed call task state (hsend.symm.trans hclosed)
      · intro task state hended
        rcases send_cases (server.calls call) request.answer with
          ⟨_, _, -, hsend⟩ | ⟨-, hsend⟩
        · rw [hsend] at hended
          cases hended
        · exact hunmixed.received call task state (hsend.symm.trans hended)
      · intro other key hne hsome
        refine hown call key ?_ other hne
        rcases send_cases (server.calls call) request.answer with
          ⟨task, state, hwaits, hsend⟩ | ⟨-, hsend⟩
        · rw [hsend] at hsome
          rw [hwaits]
          exact hsome
        · rwa [hsend] at hsome
  | @ends _ call task state rx phase hwaits hends =>
      refine hunmixed.move hmatched ?_ (fun other hne => ?_) (Function.update_self _ _ _) ?_ ?_ ?_
      · exact (aborted_dropGuard server state).trans hunmixed.running
      · exact (Function.update_of_ne hne _ _).trans (hunmixed.calls_dropGuard hwaits hne)
      · cases hends <;> simp
      · cases hends with
        | receives result =>
            obtain ⟨_, request, -, rfl⟩ := hunmixed.matched.sent call task state result hwaits
            intro _ _ hended
            cases hrecv : task.outcome request.answer with
            | ok result =>
                rw [hrecv] at hended
                cases hended
            | error error =>
                rw [hrecv] at hended
                cases hended
                exact outcome_answer_ne_recv task request hrecv
        | fails => exact absurd hwaits (hunmixed.unclosed call task state)
        | cancelled _ => simp
      · intro other key hne hsome
        refine hown call key ?_ other hne
        rw [hwaits]
        cases hends <;> exact hsome

/-- No call is lost: the table has just those that wait and that no request has taken, and the
first request whose `state` has the hash of one of them takes it. -/
structure LosesNoCall (hash : String → η) (server : RedirectServer ι κ η) : Prop where
  running : server.aborted = false
  pending : ∀ key call, server.pendingAuths.lookup key = some call ↔
    ∃ task state, server.calls call = .waiting task state .unsent ∧ hash state = key ∧
      ∀ handler request, server.handlers handler ≠ .sending request call
  unclosed : ∀ call task state, server.calls call ≠ .waiting task state .closed
  received : ∀ call task state, server.calls call ≠ .ended task state (.error .recv)
  answered : ∀ call task state, server.calls call = .waiting task state .unsent →
    (∀ handler request, server.handlers handler ≠ .sending request call) →
    ∀ handler request, server.handlers handler = .idle →
      request.params.state.map hash = some (hash state) →
      ∃ next, server.step hash (.request handler request) = some next ∧
        next.handlers handler = .sending request call

/-- **While hashes are fresh, no call is lost.** -/
theorem losesNoCall_of_reachable
    (hreach : (redirectSystem hash).Reachable (FreshStates hash) server) :
    server.LosesNoCall hash := by
  have hunmixed : server.Unmixed hash :=
    hreach.invariant (fun _ hstart => hstart ▸ unmixed_new)
      fun _ _ _ hunmixed hfresh hstep => hunmixed.step hfresh hstep
  have hmatched := hunmixed.matched
  constructor
  case running => exact hunmixed.running
  case pending =>
    intro key call
    constructor
    · intro hlookup
      obtain ⟨task, state, hwaits, hhash⟩ := hmatched.registered key call hlookup
      exact ⟨task, state, hwaits, hhash, fun handler request hsends =>
        (hmatched.taken handler request call (.inl hsends)).1 key hlookup⟩
    · rintro ⟨task, state, hwaits, rfl, hfree⟩
      refine (hmatched.awaited call task state hwaits).resolve_right ?_
      rintro ⟨handler, request, hsends⟩
      exact hfree handler request hsends
  case unclosed => exact hunmixed.unclosed
  case received => exact hunmixed.received
  case answered =>
    intro call task state hwaits hfree handler request hidle hstate
    have hentry : server.pendingAuths.lookup (hash state) = some call := by
      refine (hmatched.awaited call task state hwaits).resolve_right ?_
      rintro ⟨other, asked, hsends⟩
      exact hfree other asked hsends
    obtain ⟨asked, hasked, hhash⟩ := Option.map_eq_some_iff.mp hstate
    have hfound : server.found hash request = some call := by
      rw [found, hasked, Option.bind_some, hhash]
      exact hentry
    refine ⟨{ server with
        pendingAuths := server.pendingAuths.erase (hash asked) }.setHandler handler
      (.sending request call), ?_, Function.update_self _ _ _⟩
    simp only [RedirectServer.step, hunmixed.running, hidle, hasked, hfound]
    rfl

/-- Two calls wait; the one that came second is answered first, and the other is dropped. -/
def twoCallsRun : List (RedirectAction ℕ ℕ) :=
  [.waitFor 0 .login "first", .waitFor 1 .logout "second",
    .request 0 ⟨.logout, ⟨none, some "second", none⟩⟩,
    .request 1 ⟨.login, ⟨some "code", some "first", none⟩⟩, .send 1, .send 0, .receive 1,
    .cancel 0]

theorem losesNoCall_twoCallsRun :
    ((redirectSystem (id : String → String)).after (new : RedirectServer ℕ ℕ String)
      twoCallsRun).LosesNoCall id := by
  refine losesNoCall_of_reachable (System.Reachable.after (.start rfl) ?_)
  refine ⟨fun other => by simp [new, WaitCall.state], fun first hfirst => ?_⟩
  cases hfirst
  refine ⟨fun other => ?_, fun _ _ => System.runsWithin_of_forall (by simp [FreshStates]) _⟩
  by_cases hother : other = 0
  · subst hother
    decide
  · have hidle : ((new : RedirectServer ℕ ℕ String).setCall 0
        (.waiting .login "first" .unsent)).calls other = .idle := Function.update_of_ne hother _ _
    intro hstate
    exact Option.some_ne_none _ ((congrArg (fun phase => phase.state.map id) hidle).symm.trans
      hstate).symm

end RedirectServer

end Backstitch
