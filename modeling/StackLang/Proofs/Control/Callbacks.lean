import StackLang.Proofs.Control.Unaware

/-!
# Callbacks

A pending callback waits until a statement has drained, and then it is run in place of what
would come next.  The statement does not notice it, and it does not notice the statement: to
execute a statement while a callback is pending is to execute the statement alone and then,
if it has succeeded, the token of the callback as a statement of its own.

The callback is gone before its token is run.  So it is run once, behind the first statement
that succeeds, whether it succeeds itself or not.
-/

namespace StackLang

open Relation (ReflTransGen)

variable {leeway : Leeway} {host : HostOperators} {base depth : Nat} {machine next : Machine}
  {token action other : Token}

theorem Token.plain_callback : (Token.callback action).Plain ↔ action.Plain :=
  Token.plain_ofValue.trans Value.plain_callback

theorem Paired.drains_endAlike {left right : Machine}
    (hpaired : Paired leeway (.idle depth) (.idle depth) left right) (htoken : token.Plain)
    (host : HostOperators) :
    EndAlike leeway (Failing leeway) (Paired leeway (.idle depth) (.idle depth))
      (Machine.Drains host 0 (left.schedule token))
      (Machine.Drains host 0 (right.schedule token)) :=
  ((Matched.of_schedule hpaired htoken).drains_endAlike rfl host).imp
    (fun _ _ => Matched.failing) fun _ _ => Landed.idle

theorem Failing.trans {left mid right : Machine} (hfirst : Failing leeway.onlyLeft left mid)
    (hsecond : Failing leeway.onlyRight mid right) : Failing leeway left right where
  alike := hfirst.alike.trans hsecond.alike
  toldRight := fun hgait error => hfirst.toldRight hgait error ∘ hsecond.toldRight hgait error
  toldLeft := fun hlevel error => hsecond.toldLeft hlevel error ∘ hfirst.toldLeft hlevel error

/-- A machine whose storage never runs out fails like itself. -/
theorem Machine.Plain.failing_self (hplain : machine.Plain) (hroom : machine.room = none)
    (hgait : leeway.gait ≠ .apart) : Failing leeway machine machine where
  alike :=
    { operands := rfl
      store := rfl
      scopes := rfl
      callback := rfl
      plain := hplain
      roomLeft := fun hlimited => absurd hroom hlimited
      roomRight := fun hlimited => absurd hroom hlimited
      stepLeft := fun _ => .inr hgait
      stepRight := fun _ => .inr hgait
      voice := fun _ => ⟨rfl, rfl⟩
      elimination := id
      level := fun _ => id }
  toldRight := fun _ _ => id
  toldLeft := fun _ _ => id

/-! ## Draining while something is pending -/

namespace Machine

/-- A machine of the language whose storage never runs out. -/
structure Ample (machine : Machine) : Prop where
  language : machine.InLanguage
  room : machine.room = none

theorem Ample.step (hample : machine.Ample) {outcome : Outcome}
    (hstep : Machine.step host machine = .finished outcome) (other : Token) :
    Machine.step host (machine.withCallback other) =
        .finished (mapOutcome (withCallback other) outcome) ∧ (ended outcome).Ample := by
  have hlanguage := (hample.language.of_step hstep).1
  obtain ⟨own, result, hown, hresult, hboth⟩ := hample.language.sameStep host other hample.room
  obtain rfl := Effect.finished.inj (hown.symm.trans hstep)
  rw [hresult]
  cases hboth with
  | ok hroom | error hroom => exact ⟨rfl, hlanguage, hroom⟩

theorem InLanguage.callback_of_drains (hlanguage : machine.InLanguage) {outcome : Outcome}
    (hdrains : Drains host base machine outcome) :
    (ended outcome).callback = machine.callback := by
  obtain ⟨last, hturns, hstops⟩ := hdrains
  induction hturns using ReflTransGen.head_induction_on with
  | refl =>
    cases hstops with
    | drained => rfl
    | failed _ hstep => exact (hlanguage.of_step hstep).2
  | head hturn _ ih =>
    obtain ⟨hnext, hcallback⟩ := hlanguage.of_step hturn.2
    exact (ih hnext).trans hcallback

/-- Whatever is pending, a part of a run drains in the same way. -/
theorem Ample.drains_withCallback (hample : machine.Ample) {outcome : Outcome}
    (hdrains : Drains host base machine outcome) (other : Token) :
    Drains host base (machine.withCallback other) (mapOutcome (withCallback other) outcome) ∧
      (ended outcome).Ample := by
  obtain ⟨last, hturns, hstops⟩ := hdrains
  induction hturns using ReflTransGen.head_induction_on with
  | refl =>
    cases hstops with
    | drained hload => exact ⟨⟨last.withCallback other, .refl, .drained hload⟩, hample⟩
    | failed hload hstep =>
      obtain ⟨hagain, hnext⟩ := hample.step hstep other
      exact ⟨⟨last.withCallback other, .refl, .failed hload hagain⟩, hnext⟩
  | head hturn _ ih =>
    obtain ⟨hagain, hnext⟩ := hample.step hturn.2 other
    obtain ⟨⟨final, hrest, hends⟩, hended⟩ := ih hnext
    exact ⟨⟨final, .head ⟨hturn.1, hagain⟩ hrest, hends⟩, hended⟩

/-- So what comes of it is what comes of it without, with the callback still pending. -/
theorem Ample.drains_pending (hample : machine.Ample) (hother : other.CallsOnly .language) :
    Drains host base (machine.withCallback other) = fun outcome =>
      ∃ own, Drains host base machine own ∧ outcome = mapOutcome (withCallback other) own := by
  funext outcome
  refine propext ⟨fun hdrains => ?_, ?_⟩
  · have hpending : (machine.withCallback other).Ample :=
      ⟨⟨{ hample.language.calls with callback := hother }, hample.language.tables⟩, hample.room⟩
    have hkept := hpending.language.callback_of_drains hdrains
    refine ⟨_, (hpending.drains_withCallback hdrains machine.callback).1, ?_⟩
    cases outcome with
    | ok value next | error failure next =>
      obtain rfl : next.callback = other := hkept
      rfl
  · rintro ⟨own, hown, rfl⟩
    exact (hample.drains_withCallback hown other).1

/-! ## What comes when a statement has drained -/

/-- A run ends, if it may take enough steps. -/
def Runs (host : HostOperators) (base : Nat) (machine : Machine) (outcome : Outcome) : Prop :=
  ∃ fuel, run host fuel base machine = some outcome

/-- A run drains first, and goes on from there. -/
theorem InLanguage.runs_eq_then (hlanguage : machine.InLanguage) :
    Runs host base machine = Then (Drains host base machine) (Runs host base) := by
  funext outcome
  refine propext ⟨?_, ?_⟩
  · intro hruns
    obtain ⟨last, hturns, hends⟩ := exists_run_iff.1 hruns
    -- As long as something stands above the base, the first turn is a step of the draining;
    -- once nothing does, all that is left comes after it.
    induction hturns using ReflTransGen.head_induction_on with
    | refl =>
      by_cases hload : base < last.execution.load
      · obtain ⟨own, hfinished, -⟩ := hlanguage.step host
        cases hends with
        | done hdrained => exact absurd hload hdrained
        | failed _ hstep => exact ⟨_, ⟨last, .refl, .failed hload hstep⟩, rfl⟩
        | nested _ hstep => cases hfinished.symm.trans hstep
      · exact ⟨_, ⟨last, .refl, .drained hload⟩, hruns⟩
    | @head first second hturn hrest ih =>
      by_cases hload : base < first.execution.load
      · obtain ⟨hstep, hnext⟩ := hlanguage.step_of_turn hload hturn
        obtain ⟨own, ⟨final, hsteps, hstops⟩, hafter⟩ :=
          ih hnext (exists_run_iff.2 ⟨last, hrest, hends⟩)
        exact ⟨own, ⟨final, .head ⟨hload, hstep⟩ hsteps, hstops⟩, hafter⟩
      · exact ⟨_, ⟨first, .refl, .drained hload⟩, hruns⟩
  · rintro ⟨own, ⟨last, hsteps, hstops⟩, hafter⟩
    induction hsteps using ReflTransGen.head_induction_on with
    | refl =>
      cases hstops with
      | drained => exact hafter
      | failed hload hstep =>
        obtain rfl := hafter
        exact run_of_ends (.failed hload hstep)
    | head hstep _ ih =>
      obtain ⟨fuel, hrun⟩ := ih (hlanguage.of_step hstep.2).1
      exact run_of_turn (.step hstep.1 hstep.2) hrun

/-- Once a statement has drained, the callback comes next. -/
theorem runs_callback (hload : ¬ base < machine.execution.load)
    (hcallback : machine.callback.isVoid = false) :
    Runs host base machine =
      Runs host base { machine.schedule machine.callback with callback := .void } := by
  have hturn : Turn host base machine _ := .callback hload hcallback
  funext outcome
  refine propext ⟨?_, fun ⟨fuel, hrun⟩ => run_of_turn hturn hrun⟩
  intro hruns
  obtain ⟨last, hturns, hends⟩ := exists_run_iff.1 hruns
  obtain rfl | ⟨next, hnext, hrest⟩ := hturns.cases_head
  · exact absurd hends (deterministic_running.parted hturn)
  · obtain rfl := deterministic_running.turn hturn hnext
    exact exists_run_iff.2 ⟨last, hrest, hends⟩

/-- Where storage never runs out, a callback is replaced by its token. -/
theorem step_callback (hroom : machine.room = none) :
    step host (machine.schedule (.callback action)) =
      .finished (.ok () ((machine.schedule (.callback action)).unscheduled.schedule action)) := by
  have hunscheduled : (machine.schedule (.callback action)).unscheduled.room = none := hroom
  have hscheduled : scheduleNew action [.token (.callback action)]
      (machine.schedule (.callback action)).unscheduled =
        .ok () ((machine.schedule (.callback action)).unscheduled.schedule action) := by
    simp only [scheduleNew, Bind.bind, EStateM.bind, claim_eq, hunscheduled]
    rfl
  exact congrArg Effect.finished hscheduled

/-- Behind a statement that has drained, the token of the callback takes its place. -/
theorem Blank.runs_withCallback (hblank : machine.Blank) (hroom : machine.room = none)
    (hcallback : machine.callback = .void) (haction : action.Plain) :
    Runs host 0 (machine.withCallback (.callback action)) =
      Drains host 0 ((machine.schedule (.callback action)).unscheduled.schedule action) := by
  have hload : ∀ other, ¬ 0 < (machine.withCallback other).execution.load := by
    intro other
    have hitems : (machine.withCallback other).execution.items = [] := hblank.execution
    simp [(machine.withCallback other).execution.load_eq, hitems]
  have hpending : { (machine.withCallback (.callback action)).schedule (.callback action) with
      callback := .void } = machine.schedule (.callback action) := by
    rw [← hcallback]
    rfl
  have hscheduled : (machine.schedule (.callback action)).Undisturbed :=
    (hblank.undisturbed hcallback).schedule (Token.plain_callback.2 haction)
  rw [runs_callback (hload _) rfl]
  change Runs host 0 { (machine.withCallback (.callback action)).schedule (.callback action) with
    callback := .void } = _
  rw [hpending]
  funext outcome
  rw [Runs, hscheduled.run_iff, drains_of_step (Nat.succ_pos _) (step_callback hroom), then_ok]

/-- It is run like a statement. -/
theorem Blank.runs_action (hblank : machine.Blank) (hroom : machine.room = none)
    (hcallback : machine.callback = .void) (haction : action.Plain)
    (hgait : leeway.gait ≠ .apart) :
    EndAlike leeway (Failing leeway) (Paired leeway (.idle machine.depth) (.idle machine.depth))
      (Runs host 0 (machine.withCallback (.callback action)))
      (Drains host 0 (machine.schedule action)) := by
  have hpaired : Paired leeway (.idle machine.depth) (.idle machine.depth)
      (machine.schedule (.callback action)).unscheduled machine := by
    have hself := hblank.plain.failing_self hroom hgait
    exact ⟨hself.alike.withControl _ _ _ _, hblank.paired.left, hblank.paired.right⟩
  rw [hblank.runs_withCallback hroom hcallback haction]
  exact hpaired.drains_endAlike haction host

/-- However it ends, nothing is pending any more. -/
theorem Blank.callback_of_runs (hblank : machine.Blank) (hroom : machine.room = none)
    (hcallback : machine.callback = .void) (haction : action.Plain) {outcome : Outcome}
    (hruns : Runs host 0 (machine.withCallback (.callback action)) outcome) :
    (ended outcome).callback = .void := by
  rw [hblank.runs_withCallback hroom hcallback haction] at hruns
  have hscheduled : (machine.schedule (.callback action)).Undisturbed :=
    (hblank.undisturbed hcallback).schedule (Token.plain_callback.2 haction)
  have hturn : step host (machine.schedule (.callback action)) = _ := step_callback hroom
  have hnext : InLanguage ((machine.schedule (.callback action)).unscheduled.schedule action) :=
    (hscheduled.language.of_step hturn).1
  rw [hnext.callback_of_drains hruns]
  exact hcallback

/-! ## The statement and then the action -/

/-- The callback is still pending where something has failed. -/
def stillPending (callback : Token) : Outcome → Outcome
  | .ok value next => .ok value next
  | .error failure next => .error failure (next.withCallback callback)

/-- What was run, with a callback still pending if it has failed. -/
def Keeping (callback : Token) (first : Outcome → Prop) (outcome : Outcome) : Prop :=
  ∃ own, first own ∧ outcome = stillPending callback own

/-- A statement drains, and if it has succeeded, an action drains as well. -/
def DrainsBoth (host : HostOperators) (token action : Token) (machine : Machine) :
    Outcome → Prop :=
  Then (Keeping (.callback action) (Drains host 0 (machine.schedule token))) fun next =>
    Drains host 0 (next.schedule action)

end Machine

open Machine (DrainsBoth Keeping Runs stillPending)

theorem Failing.withCallback {left right : Machine} (hfailing : Failing leeway left right)
    (hother : other.Plain) :
    Failing leeway (left.withCallback other) (right.withCallback other) where
  alike :=
    { hfailing.alike with
      callback := rfl
      plain := { hfailing.alike.plain with callback := hother }
      voice := fun hgait => { hfailing.alike.voice hgait with } }
  toldRight := hfailing.toldRight
  toldLeft := hfailing.toldLeft

theorem EndAlike.keeping {post : Machine → Machine → Prop} {first second : Outcome → Prop}
    (halike : EndAlike leeway (Failing leeway) post first second) (hother : other.Plain) :
    EndAlike leeway (Failing leeway) post (Keeping other first) (Keeping other second) := by
  have hkept : ∀ {ended result : Outcome},
      Agree leeway (Failing leeway) (fun _ => post) ended result →
      Agree leeway (Failing leeway) (fun _ => post) (stillPending other ended)
        (stillPending other result) := by
    intro ended result hagree
    cases hagree with
    | ok hpost => exact .ok hpost
    | error hfailing => exact .error (hfailing.withCallback hother)
    | fault => exact .fault
    | faultLeft hleeway => exact .faultLeft hleeway
    | faultRight hleeway => exact .faultRight hleeway
  have hdies : ∀ {faults : Fault → Prop} {ended : Outcome}, DiesOf faults ended →
      DiesOf faults (stillPending other ended) := by
    intro faults ended hdies
    obtain ⟨fault, machine, hfault, rfl⟩ := hdies.exists_fault
    exact hfault
  constructor
  · rintro _ ⟨own, hown, rfl⟩
    obtain hdead | ⟨result, hresult, hagree⟩ := halike.right own hown
    · exact .inl (hdies hdead)
    · exact .inr ⟨_, ⟨result, hresult, rfl⟩, hkept hagree⟩
  · rintro _ ⟨own, hown, rfl⟩
    obtain hdead | ⟨result, hresult, hagree⟩ := halike.left own hown
    · exact .inl (hdies hdead)
    · exact .inr ⟨_, ⟨result, hresult, rfl⟩, hkept hagree⟩

namespace Paired

variable {left right : Machine}

theorem drainsBoth_endAlike (hpaired : Paired leeway (.idle depth) (.idle depth) left right)
    (htoken : token.Plain) (haction : action.Plain) (host : HostOperators) :
    EndAlike leeway (Failing leeway) (Paired leeway (.idle depth) (.idle depth))
      (DrainsBoth host token action left) (DrainsBoth host token action right) :=
  EndAlike.then ((hpaired.drains_endAlike htoken host).keeping (Token.plain_callback.2 haction))
    fun _ _ hnext => hnext.drains_endAlike haction host

end Paired

namespace Machine

/-- What a failing statement leaves is plain. -/
theorem Blank.plain_of_drains (hblank : machine.Blank) (htoken : token.Plain) {error : Error}
    (hdrains : Drains host 0 (machine.schedule token) (.error (.error error) next)) :
    next.Plain := by
  obtain hdies | ⟨other, hother, hagree⟩ :=
    (hblank.paired.drains_endAlike htoken host).right _ hdrains
  · cases hdies
  · obtain rfl := deterministic_draining.unique hdrains hother
    cases hagree with
    | error hfailing => exact hfailing.alike.plain

/-- What a statement leaves that drained while a callback was pending, and what the statement
alone leaves. -/
structure Awaiting (callback : Token) (depth : Nat) (left right : Machine) : Prop where
  pending : left = right.withCallback callback
  blank : right.Blank
  room : right.room = none
  callback : right.callback = .void
  depth : right.depth = depth

theorem Blank.agree_pending (hblank : machine.Blank) (hroom : machine.room = none)
    (hcallback : machine.callback = .void) (htoken : token.Plain) (hother : other.Plain)
    (hgait : leeway.gait ≠ .apart) {own : Outcome}
    (hown : Drains host 0 (machine.schedule token) own) :
    Agree leeway (Failing leeway) (fun _ => Awaiting other machine.depth)
      (mapOutcome (withCallback other) own) (stillPending other own) := by
  have hscheduled := (hblank.undisturbed hcallback).schedule htoken
  have hample : (machine.schedule token).Ample := ⟨hscheduled.language, hroom⟩
  have hkept := hample.language.callback_of_drains hown
  have hlast := (hample.drains_withCallback hown .void).2
  cases own with
  | ok value next =>
    obtain ⟨hnext, hdepth⟩ := hblank.of_drains htoken hown
    exact .ok ⟨rfl, hnext, hlast.room, hkept.trans hcallback, hdepth⟩
  | error failure next =>
    cases failure with
    | fault => exact .fault
    | error error =>
      have hfailing := (hblank.plain_of_drains htoken hown).failing_self hlast.room hgait
      exact .error (hfailing.withCallback hother)

/-- While a callback is pending, a run drains the statement as it drains without, and goes on
from there. -/
theorem Blank.runs_pending_eq (hblank : machine.Blank) (hroom : machine.room = none)
    (hcallback : machine.callback = .void) (htoken : token.Plain) (hother : other.Plain) :
    Runs host 0 ((machine.withCallback other).schedule token) =
      Then (fun outcome => ∃ own, Drains host 0 (machine.schedule token) own ∧
        outcome = mapOutcome (withCallback other) own) (Runs host 0) := by
  have hscheduled := (hblank.undisturbed hcallback).schedule htoken
  have hample : (machine.schedule token).Ample := ⟨hscheduled.language, hroom⟩
  have hpending : ((machine.withCallback other).schedule token).InLanguage :=
    ⟨{ hscheduled.language.calls with callback := hother.callsOnly }, hscheduled.language.tables⟩
  have hdrains : Drains host 0 ((machine.withCallback other).schedule token) =
      fun outcome => ∃ own, Drains host 0 (machine.schedule token) own ∧
        outcome = mapOutcome (withCallback other) own :=
    hample.drains_pending hother.callsOnly
  rw [hpending.runs_eq_then, hdrains]

/-- So it drains the statement and then the action. -/
theorem Blank.runs_pending (hblank : machine.Blank) (hroom : machine.room = none)
    (hcallback : machine.callback = .void) (htoken : token.Plain) (haction : action.Plain)
    (hgait : leeway.gait ≠ .apart) :
    EndAlike leeway (Failing leeway) (Paired leeway (.idle machine.depth) (.idle machine.depth))
      (Runs host 0 ((machine.withCallback (.callback action)).schedule token))
      (DrainsBoth host token action machine) := by
  have hplain : (Token.callback action).Plain := Token.plain_callback.2 haction
  have hfirst : EndAlike leeway (Failing leeway) (Awaiting (.callback action) machine.depth)
      (fun outcome => ∃ own, Drains host 0 (machine.schedule token) own ∧
        outcome = mapOutcome (withCallback (.callback action)) own)
      (Keeping (.callback action) (Drains host 0 (machine.schedule token))) := by
    constructor
    · rintro _ ⟨own, hown, rfl⟩
      exact .inr
        ⟨_, ⟨own, hown, rfl⟩, hblank.agree_pending hroom hcallback htoken hplain hgait hown⟩
    · rintro _ ⟨own, hown, rfl⟩
      exact .inr
        ⟨_, ⟨own, hown, rfl⟩, hblank.agree_pending hroom hcallback htoken hplain hgait hown⟩
  rw [hblank.runs_pending_eq hroom hcallback htoken hplain]
  refine hfirst.then fun left right hawaiting => ?_
  rw [hawaiting.pending, ← hawaiting.depth]
  exact hawaiting.blank.runs_action hawaiting.room hawaiting.callback haction hgait

end Machine

namespace Paired

variable {left right : Machine}

theorem blank_right (hpaired : Paired leeway (.idle depth) (.idle depth) left
      (right.withCallback other)) (hcallback : right.callback = .void) : right.Blank where
  execution := congrArg Control.items hpaired.right
  plain := { hpaired.alike.right.plain with callback := hcallback ▸ Token.plain_void }

/-- A machine with a callback pending ends like one that runs the action as well.  The
comparison goes by a machine with unlimited storage, since the callback takes up room that
the other machine has. -/
theorem runs_pending (hpaired : Paired leeway (.idle depth) (.idle depth) left
      (right.withCallback (.callback action)))
    (hgait : leeway.gait ≠ .apart) (hcallback : right.callback = .void) (htoken : token.Plain)
    (haction : action.Plain) (host : HostOperators) :
    EndAlike leeway (Failing leeway) (Paired leeway (.idle depth) (.idle depth))
      (Runs host 0 (left.schedule token)) (DrainsBoth host token action right) := by
  have hdepth : right.depth = depth := congrArg Control.depth hpaired.right
  have hright := hpaired.blank_right hcallback
  let unlimited := { right with room := none }
  have hunlimited : unlimited.Blank := ⟨hright.execution, { hright.plain with }⟩
  have hbefore : Paired leeway.onlyLeft (.idle depth) (.idle depth) left
      (unlimited.withCallback (.callback action)) :=
    { hpaired with
      alike :=
        { hpaired.alike with
          roomRight := fun hlimited => absurd rfl hlimited
          stepRight := fun _ => .inr hgait
          voice := fun hgait => { hpaired.alike.voice hgait with } } }
  have honly : leeway.onlyRight.gait ≠ .apart := hgait
  have hbehind : Paired leeway.onlyRight (.idle right.depth) (.idle right.depth) unlimited right :=
    hright.paired_room honly (fun hlimited => absurd rfl hlimited) hpaired.alike.roomRight
  rw [hdepth] at hbehind
  have hmid : EndAlike leeway.onlyLeft.onlyRight (Failing leeway.onlyLeft.onlyRight)
      (Paired leeway.onlyLeft.onlyRight (.idle depth) (.idle depth))
      (Runs host 0 ((unlimited.withCallback (.callback action)).schedule token))
      (DrainsBoth host token action unlimited) :=
    hdepth ▸ hunlimited.runs_pending rfl hcallback htoken haction hgait
  have hown : EndAlike leeway.onlyLeft.onlyLeft (Failing leeway.onlyLeft.onlyLeft)
      (Paired leeway.onlyLeft.onlyLeft (.idle depth) (.idle depth))
      (Runs host 0 (left.schedule token))
      (Runs host 0 ((unlimited.withCallback (.callback action)).schedule token)) :=
    hbefore.run_schedule_endAlike htoken host
  have hfirst : EndAlike leeway.onlyLeft (Failing leeway.onlyLeft)
      (Paired leeway.onlyLeft (.idle depth) (.idle depth))
      (Runs host 0 (left.schedule token)) (DrainsBoth host token action unlimited) :=
    hown.trans hmid Failing.trans Paired.trans
  exact hfirst.trans (hbehind.drainsBoth_endAlike htoken haction host) Failing.trans Paired.trans

end Paired

namespace Machine

/-! ## Statements while a callback is pending -/

/-- A statement is executed alone, and then an action, if the statement has succeeded.  If it
has failed, the callback of the action is still pending. -/
inductive Followed (host : HostOperators) (token action : Token) (machine : Machine) :
    Outcome → Prop where
  | failed {failure : Failure} {next : Machine}
    (hfirst : Executes host token machine (.error failure next)) :
    Followed host token action machine (.error failure (next.withCallback (.callback action)))
  | succeeded {next : Machine} {outcome : Outcome}
    (hfirst : Executes host token machine (.ok () next))
    (hthen : Executes host action next outcome) : Followed host token action machine outcome

theorem Followed.unique {own result : Outcome} (hown : Followed host token action machine own)
    (hresult : Followed host token action machine result) : own = result := by
  cases hown with
  | failed hfirst =>
    cases hresult with
    | failed hagain =>
      cases hfirst.unique hagain
      rfl
    | succeeded hagain => cases hfirst.unique hagain
  | succeeded hfirst hthen =>
    cases hresult with
    | failed hagain => cases hfirst.unique hagain
    | succeeded hagain hother =>
      cases hfirst.unique hagain
      exact hthen.unique hother

/-- Giving up a statement leaves the callback alone. -/
theorem callback_conclude (own : Outcome) :
    (ended (conclude base depth own)).callback = (ended own).callback := by
  cases own with
  | ok => rfl
  | error failure next =>
    cases failure with
    | fault => rfl
    | error error =>
      simp only [conclude, EStateM.run, abandon_eq]
      cases next.backtrace? base error <;> rfl

theorem conclude_eq_ok {own : Outcome} (hconcluded : conclude base depth own = .ok () next) :
    own = .ok () next := by
  cases own with
  | ok => exact hconcluded
  | error failure last =>
    obtain ⟨fate, final, hfate⟩ := exists_conclude_error base depth failure last
    cases hfate.symm.trans hconcluded

theorem conclude_withCallback (callback : Token) (own : Outcome) :
    conclude base depth (mapOutcome (withCallback callback) own) =
      mapOutcome (withCallback callback) (conclude base depth own) := by
  have hchanged : ∀ own, conclude base depth (mapOutcome (withCallback callback) own) =
      mapOutcome (withCallback callback) (conclude base depth own) :=
    conclude_mapOutcome (fun _ _ => rfl) (fun _ _ => rfl) fun _ _ => rfl
  exact hchanged own

/-- Giving up a statement does not depend on what is pending. -/
theorem conclude_stillPending (own : Outcome) :
    conclude base depth (stillPending other own) =
      stillPending other (conclude base depth own) := by
  cases own with
  | ok => rfl
  | error failure next =>
    have hconcluded : conclude base depth (.error failure (next.withCallback other)) =
        mapOutcome (withCallback other) (conclude base depth (.error failure next)) :=
      conclude_withCallback other (.error failure next)
    obtain ⟨fate, last, hfate⟩ := exists_conclude_error base depth failure next
    rw [hfate] at hconcluded ⊢
    exact hconcluded

theorem Blank.followed_eq_concludes (hblank : machine.Blank) (hcallback : machine.callback = .void)
    (htoken : token.Plain) (haction : action.Plain) :
    Followed host token action machine =
      Concludes machine.depth (DrainsBoth host token action machine) := by
  -- What is executed second starts where the first has drained: on a blank machine, at the
  -- same depth.
  have hbehind : ∀ {next : Machine}, Drains host 0 (machine.schedule token) (.ok () next) →
      Executes host action next =
        Concludes machine.depth (Drains host 0 (next.schedule action)) := by
    intro next hdrains
    obtain ⟨hnext, hdepth⟩ := hblank.of_drains htoken hdrains
    have hundisturbed := ((hblank.undisturbed hcallback).schedule htoken).of_drains hdrains
    rw [hnext.executes_eq_concludes hundisturbed.callback haction, hdepth]
  funext outcome
  refine propext ⟨?_, ?_⟩
  · intro hfollowed
    cases hfollowed with
    | @failed failure next hfirst =>
      rw [hblank.executes_eq_concludes hcallback htoken] at hfirst
      obtain ⟨own, hown, hconcluded⟩ := hfirst
      refine ⟨stillPending (.callback action) own, ⟨_, ⟨own, hown, rfl⟩, ?_⟩, ?_⟩
      · cases own with
        | ok => cases hconcluded
        | error => rfl
      · rw [conclude_stillPending, ← hconcluded]
        rfl
    | @succeeded next _ hfirst hthen =>
      rw [hblank.executes_eq_concludes hcallback htoken] at hfirst
      obtain ⟨own, hown, hconcluded⟩ := hfirst
      obtain rfl := conclude_eq_ok hconcluded.symm
      rw [hbehind hown] at hthen
      obtain ⟨last, hlast, rfl⟩ := hthen
      exact ⟨last, ⟨_, ⟨_, hown, rfl⟩, hlast⟩, rfl⟩
  · rintro ⟨last, ⟨_, ⟨own, hown, rfl⟩, hafter⟩, rfl⟩
    have hexecutes : Executes host token machine (conclude 0 machine.depth own) := by
      rw [hblank.executes_eq_concludes hcallback htoken]
      exact ⟨own, hown, rfl⟩
    cases own with
    | ok value next =>
      apply Followed.succeeded hexecutes
      rw [hbehind hown]
      exact ⟨last, hafter, rfl⟩
    | error failure next =>
      obtain rfl := hafter
      obtain ⟨fate, final, hfate⟩ := exists_conclude_error 0 machine.depth failure next
      have hboth : conclude 0 machine.depth
            (stillPending (.callback action) (.error failure next)) =
          stillPending (.callback action) (conclude 0 machine.depth (.error failure next)) :=
        conclude_stillPending (.error failure next)
      rw [hfate] at hexecutes hboth
      exact hboth ▸ .failed hexecutes

/-- A statement does not set a callback. -/
theorem Blank.callback_of_executes (hblank : machine.Blank) (hcallback : machine.callback = .void)
    (htoken : token.Plain) {outcome : Outcome} (hexecutes : Executes host token machine outcome) :
    (ended outcome).callback = .void := by
  rw [hblank.executes_eq_concludes hcallback htoken] at hexecutes
  obtain ⟨own, hown, rfl⟩ := hexecutes
  have hscheduled := (hblank.undisturbed hcallback).schedule htoken
  rw [callback_conclude, hscheduled.language.callback_of_drains hown]
  exact hscheduled.callback

end Machine

open Machine (Executes Followed)

theorem Paired.followed_concludeAlike {left right : Machine}
    (hpaired : Paired leeway (.idle depth) (.idle depth) left
      (right.withCallback (.callback action)))
    (hgait : leeway.gait ≠ .apart) (hcallback : right.callback = .void) (htoken : token.Plain)
    (haction : action.Plain) (host : HostOperators) :
    ConcludeAlike leeway depth (Executes host token left) (Followed host token action right) := by
  have hdepth : right.depth = depth := congrArg Control.depth hpaired.right
  rw [Machine.executes_eq hpaired.left,
    (hpaired.blank_right hcallback).followed_eq_concludes hcallback htoken haction, hdepth]
  exact .of_endAlike (hpaired.runs_pending hgait hcallback htoken haction host)

end StackLang
