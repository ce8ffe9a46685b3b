/-
# From a change to the history that is shown

Whoever changes what `get_changes` reads notifies the change ingester, which keeps at most one
request to ingest.  It reads the parts of the history one after the other, and what was changed
meanwhile is read again.  The channel passes on what differs from the last history, and `process`
takes it from there once a frame.
-/

import Backstitch.Library.System
import Backstitch.Library.Watch
import Backstitch.Project.ChangeIngester

namespace Backstitch

universe u v

/-- What `get_changes` reads after the ref, one after the other. -/
inductive IngestRead
  | acked
  | shadow
  | canonical
  | names
  deriving DecidableEq

/-- What others change meanwhile. -/
inductive IngestChange (κ : Type u) (χ : Type v)
  | checkOut (branch : Option κ)
  | acknowledge (heads : κ → Option (List χ))
  | shadow (changes : κ → Option (List (ChangeMetadata χ)))
  | canonical (changes : κ → Option (List (ChangeMetadata χ)))
  | names (names : κ → Option String)

variable {κ : Type u} {χ : Type v}

namespace IngesterEnv

/-- What was read, with one more part as it is now. -/
def take (env : IngesterEnv κ χ) (read : IngesterEnv κ χ) : IngestRead → IngesterEnv κ χ
  | .acked => { read with lastAckedHeads := env.lastAckedHeads }
  | .shadow => { read with getShadowChanges := env.getShadowChanges }
  | .canonical => { read with getCanonicalChanges := env.getCanonicalChanges }
  | .names => { read with getBranchName := env.getBranchName }

def change (env : IngesterEnv κ χ) : IngestChange κ χ → IngesterEnv κ χ
  | .checkOut branch => { env with checkedOut := branch }
  | .acknowledge heads => { env with lastAckedHeads := heads }
  | .shadow changes => { env with getShadowChanges := changes }
  | .canonical changes => { env with getCanonicalChanges := changes }
  | .names names => { env with getBranchName := names }

/-- What is read when the rest is read now. -/
def finish (env : IngesterEnv κ χ) (read : IngesterEnv κ χ) (left : List IngestRead) :
    IngesterEnv κ χ :=
  left.foldl env.take read

theorem finish_self (env : IngesterEnv κ χ) (left : List IngestRead) :
    env.finish env left = env := by
  induction left with
  | nil => rfl
  | cons part left ih =>
      show env.finish (env.take env part) left = env
      cases part <;> exact ih

end IngesterEnv

/-- Where the task of the change ingester stands. -/
inductive IngesterPhase (κ : Type u) (χ : Type v)
  /-- It has not subscribed to the streams yet. -/
  | starting
  | selecting
  /-- `get_changes` holds the checked out ref for reading. -/
  | reading (read : IngesterEnv κ χ) (left : List IngestRead)

/-- The change ingester and the receiver of the frontend. -/
structure HistoryPipeline (κ : Type u) (χ : Type v) where
  /-- What is there to read. -/
  env : IngesterEnv κ χ
  /-- Changes whose notification has not been sent yet. -/
  unannounced : ℕ
  /-- Notifications in the streams that the task has subscribed to. -/
  events : ℕ
  /-- The permit of `ingestion_request`. -/
  permit : Bool
  phase : IngesterPhase κ χ
  changes : Watch (List (CommitInfo κ χ))
  /-- The version that `changes_rx` has seen. -/
  changesRx : Option ℕ
  /-- `process` has marked the version as seen, and is about to read the value. -/
  marked : Bool
  history : Option (List (CommitInfo κ χ))

inductive PipelineAction (κ : Type u) (χ : Type v)
  | change (what : IngestChange κ χ) (announced : Bool)
  /-- A notification is sent, or ingestion requested. -/
  | announce (requested : Bool)
  | start
  | receive
  /-- The broadcast channel drops all but these notifications. -/
  | lag (left : ℕ)
  | notified
  | read
  | publish
  | subscribe
  | mark
  | borrow

/-- Anything but a change. -/
def PipelineAction.Internal : PipelineAction κ χ → Prop
  | .change _ _ => False
  | _ => True

namespace HistoryPipeline

variable [DecidableEq κ] [DecidableEq χ] (pipeline : HistoryPipeline κ χ)

/-- `ChangeIngester::new` and `Driver::new`, with a first request. -/
def new (env : IngesterEnv κ χ) : HistoryPipeline κ χ :=
  ⟨env, 0, 0, true, .starting, ⟨[], 0⟩, none, false, none⟩

def step : PipelineAction κ χ → Option (HistoryPipeline κ χ)
  | .change what announced =>
      match pipeline.phase, what with
      | .reading _ _, .checkOut _ => none
      | _, _ =>
          some { pipeline with
            env := pipeline.env.change what
            unannounced := if announced then pipeline.unannounced + 1 else pipeline.unannounced }
  | .announce requested =>
      if 0 < pipeline.unannounced then
        let sent := { pipeline with unannounced := pipeline.unannounced - 1 }
        if requested then some { sent with permit := true }
        else
          match pipeline.phase with
          | .starting => some sent
          | _ => some { sent with events := pipeline.events + 1 }
      else none
  | .start =>
      match pipeline.phase with
      | .starting => some { pipeline with phase := .selecting, events := pipeline.events + 1 }
      | _ => none
  | .receive =>
      match pipeline.phase with
      | .selecting =>
          if 0 < pipeline.events then
            some { pipeline with events := pipeline.events - 1, permit := true }
          else none
      | _ => none
  | .lag left =>
      if 0 < left ∧ left < pipeline.events then some { pipeline with events := left } else none
  | .notified =>
      match pipeline.phase with
      | .selecting =>
          if pipeline.permit then
            some { pipeline with
              permit := false
              phase := .reading pipeline.env [.acked, .shadow, .canonical, .names] }
          else none
      | _ => none
  | .read =>
      match pipeline.phase with
      | .reading read (part :: left) =>
          some { pipeline with phase := .reading (pipeline.env.take read part) left }
      | _ => none
  | .publish =>
      match pipeline.phase with
      | .reading read [] =>
          some { pipeline with
            phase := .selecting
            changes := pipeline.changes.sendIfModified read.getChanges }
      | _ => none
  | .subscribe =>
      match pipeline.changesRx with
      | none => some { pipeline with changesRx := some pipeline.changes.version }
      | some _ => none
  | .mark =>
      match pipeline.changesRx with
      | some seen =>
          if pipeline.marked = false ∧
              (pipeline.history = none ∨ seen ≠ pipeline.changes.version) then
            some { pipeline with changesRx := some pipeline.changes.version, marked := true }
          else none
      | none => none
  | .borrow =>
      if pipeline.marked then
        some { pipeline with history := some pipeline.changes.value, marked := false }
      else none

/-- Nothing is left to do. -/
def Quiet : Prop := ∀ action : PipelineAction κ χ, action.Internal → pipeline.step action = none

end HistoryPipeline

/-- The change ingester and the frontend, with anything else that changes the history. -/
def pipelineSystem (κ : Type u) (χ : Type v) [DecidableEq κ] [DecidableEq χ] :
    System (HistoryPipeline κ χ) (PipelineAction κ χ) where
  start pipeline := ∃ env, pipeline = .new env
  step := HistoryPipeline.step

/-- A change is followed by a notification. -/
def Announced (_ : HistoryPipeline κ χ) : PipelineAction κ χ → Prop
  | .change _ announced => announced = true
  | _ => True

namespace HistoryPipeline

variable [DecidableEq κ] [DecidableEq χ] {pipeline next : HistoryPipeline κ χ}
  {action : PipelineAction κ χ}

/-! ## What is read again -/

/-- There will be one more ingestion. -/
def Flagged (pipeline : HistoryPipeline κ χ) : Prop :=
  0 < pipeline.unannounced ∨ 0 < pipeline.events ∨ pipeline.permit = true

/-- What is published, being read or kept by the frontend is current, or something is on the way
that replaces it. -/
structure Tracks (pipeline : HistoryPipeline κ χ) : Prop where
  starting : pipeline.phase = .starting → pipeline.permit = true
  selecting : pipeline.phase = .selecting →
    pipeline.Flagged ∨ pipeline.changes.value = pipeline.env.getChanges
  reading : ∀ read left, pipeline.phase = .reading read left →
    pipeline.Flagged ∨ pipeline.env.finish read left = pipeline.env
  unsubscribed : pipeline.changesRx = none → pipeline.marked = false ∧ pipeline.history = none
  seen : ∀ seen, pipeline.changesRx = some seen → seen ≤ pipeline.changes.version
  follows : ∀ seen shown, pipeline.changesRx = some seen → pipeline.marked = false →
    pipeline.history = some shown → pipeline.changes.Follows seen shown

theorem tracks_new (env : IngesterEnv κ χ) : (new env).Tracks := by
  constructor <;> simp [new]

/-- A step of the frontend's receiver, or none of it. -/
theorem Tracks.of_ingester (htracks : pipeline.Tracks) (hrx : next.changesRx = pipeline.changesRx)
    (hmarked : next.marked = pipeline.marked) (hhistory : next.history = pipeline.history)
    (hchanges : next.changes = pipeline.changes)
    (hstarting : next.phase = .starting → next.permit = true)
    (hselecting : next.phase = .selecting →
      next.Flagged ∨ next.changes.value = next.env.getChanges)
    (hreading : ∀ read left, next.phase = .reading read left →
      next.Flagged ∨ next.env.finish read left = next.env) : next.Tracks where
  starting := hstarting
  selecting := hselecting
  reading := hreading
  unsubscribed := by
    rw [hrx, hmarked, hhistory]
    exact htracks.unsubscribed
  seen := by
    rw [hrx, hchanges]
    exact htracks.seen
  follows := by
    rw [hrx, hmarked, hhistory, hchanges]
    exact htracks.follows

/-- A step after which one more ingestion is to come. -/
theorem Tracks.flag (htracks : pipeline.Tracks) (hrx : next.changesRx = pipeline.changesRx)
    (hmarked : next.marked = pipeline.marked) (hhistory : next.history = pipeline.history)
    (hchanges : next.changes = pipeline.changes) (hphase : next.phase = pipeline.phase)
    (hpermit : pipeline.permit = true → next.permit = true) (hflagged : next.Flagged) :
    next.Tracks :=
  htracks.of_ingester hrx hmarked hhistory hchanges
    (fun hstarting => hpermit (htracks.starting (hphase ▸ hstarting))) (fun _ => .inl hflagged)
    fun _ _ _ => .inl hflagged

/-- A step of the receiver alone. -/
theorem Tracks.of_frontend (htracks : pipeline.Tracks) (hphase : next.phase = pipeline.phase)
    (hpermit : next.permit = pipeline.permit) (hevents : next.events = pipeline.events)
    (hunannounced : next.unannounced = pipeline.unannounced) (henv : next.env = pipeline.env)
    (hchanges : next.changes = pipeline.changes)
    (hunsubscribed : next.changesRx = none → next.marked = false ∧ next.history = none)
    (hseen : ∀ seen, next.changesRx = some seen → seen ≤ next.changes.version)
    (hfollows : ∀ seen shown, next.changesRx = some seen → next.marked = false →
      next.history = some shown → next.changes.Follows seen shown) : next.Tracks where
  starting := by
    rw [hphase, hpermit]
    exact htracks.starting
  selecting := by
    rw [Flagged, hphase, hpermit, hevents, hunannounced, henv, hchanges]
    exact htracks.selecting
  reading := by
    rw [Flagged, hphase, hpermit, hevents, hunannounced, henv]
    exact htracks.reading
  unsubscribed := hunsubscribed
  seen := hseen
  follows := hfollows

/-- **Step lemma.** -/
theorem Tracks.step (htracks : pipeline.Tracks) (hannounced : Announced pipeline action)
    (hstep : pipeline.step action = some next) : next.Tracks := by
  cases action with
  | change what announced =>
      obtain rfl : announced = true := hannounced
      have hnext : next = { pipeline with
          env := pipeline.env.change what, unannounced := pipeline.unannounced + 1 } := by
        unfold HistoryPipeline.step at hstep
        dsimp only at hstep
        split at hstep
        · cases hstep
        · exact (Option.some.inj hstep).symm
      subst hnext
      exact htracks.flag rfl rfl rfl rfl rfl id (.inl (Nat.succ_pos _))
  | announce requested =>
      unfold HistoryPipeline.step at hstep
      dsimp only at hstep
      split at hstep
      · split at hstep
        · cases hstep
          exact htracks.flag rfl rfl rfl rfl rfl (fun _ => rfl) (.inr (.inr rfl))
        · split at hstep
          · next hphase =>
            cases hstep
            exact htracks.flag rfl rfl rfl rfl rfl id (.inr (.inr (htracks.starting hphase)))
          · cases hstep
            exact htracks.flag rfl rfl rfl rfl rfl id (.inr (.inl (Nat.succ_pos _)))
      · cases hstep
  | start =>
      unfold HistoryPipeline.step at hstep
      dsimp only at hstep
      split at hstep
      · cases hstep
        refine htracks.of_ingester rfl rfl rfl rfl (by simp) (fun _ => .inl ?_) (by simp)
        exact .inr (.inl (Nat.succ_pos _))
      · cases hstep
  | receive =>
      unfold HistoryPipeline.step at hstep
      dsimp only at hstep
      split at hstep
      · split at hstep
        · cases hstep
          exact htracks.flag rfl rfl rfl rfl rfl (fun _ => rfl) (.inr (.inr rfl))
        · cases hstep
      · cases hstep
  | lag left =>
      unfold HistoryPipeline.step at hstep
      dsimp only at hstep
      split at hstep
      · next hleft =>
        cases hstep
        exact htracks.flag rfl rfl rfl rfl rfl id (.inr (.inl hleft.1))
      · cases hstep
  | notified =>
      unfold HistoryPipeline.step at hstep
      dsimp only at hstep
      split at hstep
      · split at hstep
        · cases hstep
          refine htracks.of_ingester rfl rfl rfl rfl (by simp) (by simp) ?_
          rintro read left ⟨⟩
          exact .inr (IngesterEnv.finish_self _ _)
        · cases hstep
      · cases hstep
  | read =>
      unfold HistoryPipeline.step at hstep
      dsimp only at hstep
      split at hstep
      · next read part left hphase =>
        cases hstep
        refine htracks.of_ingester rfl rfl rfl rfl (by simp) (by simp) ?_
        rintro _ _ ⟨⟩
        exact htracks.reading read (part :: left) hphase
      · cases hstep
  | publish =>
      unfold HistoryPipeline.step at hstep
      dsimp only at hstep
      split at hstep
      · next read hphase =>
        cases hstep
        have hread := htracks.reading read [] hphase
        constructor
        case starting => simp
        case selecting =>
          intro _
          refine hread.imp_right fun hsame => ?_
          rw [Watch.value_sendIfModified]
          exact congrArg IngesterEnv.getChanges hsame
        case reading => simp
        case unsubscribed => exact htracks.unsubscribed
        case seen =>
          intro seen hseen
          exact (htracks.seen seen hseen).trans (Watch.le_version_sendIfModified _ _)
        case follows =>
          intro seen shown hseen hmarked hshown
          exact (htracks.follows seen shown hseen hmarked hshown).sendIfModified _
      · cases hstep
  | subscribe =>
      unfold HistoryPipeline.step at hstep
      dsimp only at hstep
      split at hstep
      · next hnone =>
        cases hstep
        obtain ⟨-, hhistory⟩ := htracks.unsubscribed hnone
        refine htracks.of_frontend rfl rfl rfl rfl rfl rfl (by simp) ?_ ?_
        · rintro _ ⟨⟩
          exact Nat.le_refl _
        · intro seen shown _ _ hshown
          rw [show pipeline.history = some shown from hshown] at hhistory
          cases hhistory
      · cases hstep
  | mark =>
      unfold HistoryPipeline.step at hstep
      dsimp only at hstep
      split at hstep
      · split at hstep
        · cases hstep
          refine htracks.of_frontend rfl rfl rfl rfl rfl rfl (by simp) ?_ (by simp)
          rintro _ ⟨⟩
          exact Nat.le_refl _
        · cases hstep
      · cases hstep
  | borrow =>
      unfold HistoryPipeline.step at hstep
      dsimp only at hstep
      split at hstep
      · next hmarked =>
        cases hstep
        refine htracks.of_frontend rfl rfl rfl rfl rfl rfl ?_ htracks.seen ?_
        · intro hnone
          exact absurd hmarked (by simp [(htracks.unsubscribed hnone).1])
        · rintro seen _ hseen - ⟨⟩
          exact Watch.follows_read (htracks.seen seen hseen)
      · cases hstep

theorem tracks_of_reachable (hreach : (pipelineSystem κ χ).Reachable Announced pipeline) :
    pipeline.Tracks := by
  apply hreach.invariant
  · rintro _ ⟨env, rfl⟩
    exact tracks_new env
  · exact fun _ _ _ htracks hannounced hstep => htracks.step hannounced hstep

/-! ## Nothing goes on forever -/

/-- How much the task of the change ingester has to do at most. -/
def ingesterWork (pipeline : HistoryPipeline κ χ) : ℕ :=
  match pipeline.phase with
  | .starting => 25
  | .selecting => 0
  | .reading _ left => left.length + 4

/-- How much `process` has to do at most. -/
def frontendWork (pipeline : HistoryPipeline κ χ) : ℕ :=
  match pipeline.changesRx with
  | none => 5 + if pipeline.marked then 1 else 0
  | some seen =>
      if pipeline.marked then 1 + if seen ≠ pipeline.changes.version then 2 else 0
      else if pipeline.history = none ∨ seen ≠ pipeline.changes.version then 2 else 0

/-- How many steps are left at most while nothing changes. -/
def work (pipeline : HistoryPipeline κ χ) : ℕ :=
  30 * pipeline.unannounced + 20 * pipeline.events + (if pipeline.permit then 10 else 0) +
    pipeline.ingesterWork + pipeline.frontendWork

omit [DecidableEq κ] [DecidableEq χ] in
theorem frontendWork_le_of_publish (changes : Watch (List (CommitInfo κ χ)))
    (phase : IngesterPhase κ χ) : { pipeline with
      phase := phase, changes := changes }.frontendWork ≤ pipeline.frontendWork + 2 := by
  unfold frontendWork
  dsimp only
  split
  · omega
  · split
    · split <;> omega
    · split <;> omega

/-- **Every step but a change leaves less to do.** -/
theorem work_lt (hinternal : action.Internal) (hstep : pipeline.step action = some next) :
    next.work < pipeline.work := by
  cases action with
  | change what announced => exact hinternal.elim
  | announce requested =>
      unfold HistoryPipeline.step at hstep
      dsimp only at hstep
      split at hstep
      · split at hstep
        · cases hstep
          simp only [work, ingesterWork, frontendWork]
          split_ifs <;> omega
        · split at hstep
          · cases hstep
            simp only [work, ingesterWork, frontendWork]
            omega
          · cases hstep
            simp only [work, ingesterWork, frontendWork]
            omega
      · cases hstep
  | start =>
      unfold HistoryPipeline.step at hstep
      dsimp only at hstep
      split at hstep
      · next hphase =>
        cases hstep
        simp only [work, ingesterWork, frontendWork, hphase]
        omega
      · cases hstep
  | receive =>
      unfold HistoryPipeline.step at hstep
      dsimp only at hstep
      split at hstep
      · next hphase =>
        split at hstep
        · cases hstep
          simp only [work, ingesterWork, frontendWork, hphase]
          split_ifs <;> omega
        · cases hstep
      · cases hstep
  | lag left =>
      unfold HistoryPipeline.step at hstep
      dsimp only at hstep
      split at hstep
      · next hleft =>
        cases hstep
        simp only [work, ingesterWork, frontendWork]
        omega
      · cases hstep
  | notified =>
      unfold HistoryPipeline.step at hstep
      dsimp only at hstep
      split at hstep
      · next hphase =>
        split at hstep
        · next hpermit =>
          cases hstep
          simp only [work, ingesterWork, frontendWork, hphase, hpermit, List.length_cons,
            List.length_nil, if_true, Bool.false_eq_true, if_false]
          omega
        · cases hstep
      · cases hstep
  | read =>
      unfold HistoryPipeline.step at hstep
      dsimp only at hstep
      split at hstep
      · next read part left hphase =>
        cases hstep
        simp only [work, ingesterWork, frontendWork, hphase, List.length_cons]
        omega
      · cases hstep
  | publish =>
      unfold HistoryPipeline.step at hstep
      dsimp only at hstep
      split at hstep
      · next read hphase =>
        cases hstep
        have hfrontend := @frontendWork_le_of_publish _ _ pipeline
          (pipeline.changes.sendIfModified read.getChanges) .selecting
        have hingester : pipeline.ingesterWork = 4 := by simp [ingesterWork, hphase]
        simp only [work, hingester]
        rw [show ({ pipeline with
            phase := .selecting
            changes := pipeline.changes.sendIfModified read.getChanges } :
          HistoryPipeline κ χ).ingesterWork = 0 from rfl]
        omega
      · cases hstep
  | subscribe =>
      unfold HistoryPipeline.step at hstep
      dsimp only at hstep
      split at hstep
      · next hnone =>
        cases hstep
        simp only [work, ingesterWork, frontendWork, hnone]
        split_ifs <;> omega
      · cases hstep
  | mark =>
      unfold HistoryPipeline.step at hstep
      dsimp only at hstep
      split at hstep
      · next seen hseen =>
        split at hstep
        · next hmark =>
          cases hstep
          simp only [work, ingesterWork, frontendWork, hseen, hmark.1, if_pos hmark.2]
          simp
        · cases hstep
      · cases hstep
  | borrow =>
      unfold HistoryPipeline.step at hstep
      dsimp only at hstep
      split at hstep
      · next hmarked =>
        cases hstep
        cases hseen : pipeline.changesRx with
        | none =>
            simp only [work, ingesterWork, frontendWork, hseen, hmarked]
            simp
        | some seen =>
            simp only [work, ingesterWork, frontendWork, hseen, hmarked]
            simp
      · cases hstep

theorem env_eq (hinternal : action.Internal) (hstep : pipeline.step action = some next) :
    next.env = pipeline.env := by
  unfold HistoryPipeline.step at hstep
  cases action with
  | change what announced => exact hinternal.elim
  | _ =>
      dsimp only at hstep
      repeat' split at hstep
      all_goals cases hstep
      all_goals rfl

/-- Where nothing is left to do, the frontend has read what was published last, and nothing has
changed since it was read. -/
theorem Tracks.history_eq (htracks : pipeline.Tracks) (hquiet : pipeline.Quiet) :
    pipeline.history = some pipeline.env.getChanges := by
  have hselecting : pipeline.phase = .selecting := by
    cases hphase : pipeline.phase with
    | starting =>
        have hstart := hquiet .start trivial
        simp only [HistoryPipeline.step, hphase] at hstart
        cases hstart
    | selecting => rfl
    | reading read left =>
        cases left with
        | nil =>
            have hpublish := hquiet .publish trivial
            simp only [HistoryPipeline.step, hphase] at hpublish
            cases hpublish
        | cons part left =>
            have hread := hquiet .read trivial
            simp only [HistoryPipeline.step, hphase] at hread
            cases hread
  have hpermit : pipeline.permit = false := by
    have hnotified := hquiet .notified trivial
    simp only [HistoryPipeline.step, hselecting] at hnotified
    split at hnotified
    · cases hnotified
    · next hpermit => exact eq_false_of_ne_true hpermit
  have hevents : pipeline.events = 0 := by
    have hreceive := hquiet .receive trivial
    simp only [HistoryPipeline.step, hselecting] at hreceive
    split at hreceive
    · cases hreceive
    · omega
  have hunannounced : pipeline.unannounced = 0 := by
    have hannounce := hquiet (.announce true) trivial
    simp only [HistoryPipeline.step] at hannounce
    split at hannounce
    · cases hannounce
    · omega
  have hmarked : pipeline.marked = false := by
    have hborrow := hquiet .borrow trivial
    simp only [HistoryPipeline.step] at hborrow
    split at hborrow
    · cases hborrow
    · next hmarked => exact eq_false_of_ne_true hmarked
  have hcurrent : pipeline.changes.value = pipeline.env.getChanges := by
    refine (htracks.selecting hselecting).resolve_left ?_
    rintro (hless | hless | hsome)
    · omega
    · omega
    · rw [hpermit] at hsome
      cases hsome
  cases hseen : pipeline.changesRx with
  | none =>
      have hsubscribe := hquiet .subscribe trivial
      simp only [HistoryPipeline.step, hseen] at hsubscribe
      cases hsubscribe
  | some seen =>
      have hmark := hquiet .mark trivial
      simp only [HistoryPipeline.step, hseen, hmarked, true_and] at hmark
      split at hmark
      · cases hmark
      · next hnothing =>
        rw [not_or, not_not] at hnothing
        obtain ⟨shown, hshown⟩ := Option.ne_none_iff_exists'.mp hnothing.1
        have hfollows := htracks.follows seen shown hseen hmarked hshown
        rw [hshown, hfollows.eq hnothing.2, hcurrent]

/-- **Where every change is announced, the frontend comes to show the history as it is**: after
the last change there are only so many steps, and when none is left it shows what `get_changes`
makes of the documents. -/
theorem catchesUp_of_reachable (hreach : (pipelineSystem κ χ).Reachable Announced pipeline)
    {actions : List (PipelineAction κ χ)} (hinternal : ∀ action ∈ actions, action.Internal)
    {final : HistoryPipeline κ χ}
    (hrun : actions.foldlM (pipelineSystem κ χ).step pipeline = some final) :
    actions.length ≤ pipeline.work ∧
      (final.Quiet → final.history = some pipeline.env.getChanges) := by
  induction actions generalizing pipeline with
  | nil =>
      cases hrun
      exact ⟨Nat.zero_le _, fun hquiet => (tracks_of_reachable hreach).history_eq hquiet⟩
  | cons action actions ih =>
      rw [List.foldlM_cons] at hrun
      obtain ⟨next, hstep, hrest⟩ := Option.bind_eq_some_iff.mp hrun
      have hfirst := hinternal action List.mem_cons_self
      have hannounced : Announced pipeline action := by
        cases action with
        | change what announced => exact hfirst.elim
        | _ => trivial
      obtain ⟨hlength, hshown⟩ := ih (hreach.step hannounced hstep)
        (fun later hlater => hinternal later (List.mem_cons_of_mem _ hlater)) hrest
      have hless := work_lt hfirst hstep
      rw [env_eq hfirst hstep] at hshown
      refine ⟨?_, hshown⟩
      rw [List.length_cons]
      omega

end HistoryPipeline

/-! ## One change -/

/-- A document with one change, whose message is not read. -/
def oneChangeEnv : IngesterEnv ℕ ℕ where
  fromStr _ := some ⟨none, some 0, none, none, none, some true⟩
  getBranchName _ := none
  showId _ := ""
  showHash _ := ""
  checkedOut := some 0
  lastAckedHeads _ := none
  getShadowChanges _ := some [⟨1, 0, some "message"⟩]
  getCanonicalChanges _ := none

/-- From the first request to the frontend. -/
def firstFrames : List (PipelineAction ℕ ℕ) :=
  [.start, .receive, .notified, .read, .read, .read, .read, .publish, .subscribe, .mark, .borrow]

theorem catchesUp_firstFrames : ∃ final, firstFrames.foldlM (pipelineSystem ℕ ℕ).step
      (.new oneChangeEnv) = some final ∧ final.Quiet ∧
    firstFrames.length ≤ (HistoryPipeline.new oneChangeEnv).work ∧
      (final.Quiet → final.history = some oneChangeEnv.getChanges) := by
  refine ⟨_, rfl, ?_, HistoryPipeline.catchesUp_of_reachable (.start ⟨_, rfl⟩) ?_ rfl⟩
  · intro action hinternal
    cases action with
    | change what announced => exact hinternal.elim
    | announce requested => rfl
    | start => rfl
    | receive => rfl
    | lag left => simp [HistoryPipeline.step, HistoryPipeline.new]
    | notified => rfl
    | read => rfl
    | publish => rfl
    | subscribe => rfl
    | mark => rfl
    | borrow => rfl
  · simp [firstFrames, PipelineAction.Internal]

end Backstitch
