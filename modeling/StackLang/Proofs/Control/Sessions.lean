import StackLang.Proofs.Control.Callbacks

/-!
# Statements one by one

A host executes statements one by one, and it goes on behind one that fails.  A callback
that is pending meanwhile comes behind the first statement that succeeds: the statements
before it fail as they would have failed without it, and those behind it do what they would
have done if its token had been a statement there.

The comparison is between machines that agree and not only between equal ones, since the
statements behind the first one start from what that one has left.  A fault is the end of a
session.  Both sides have the same frames open and die together of what they cannot say, but
where storage is limited, either one may die alone.
-/

namespace StackLang

variable {faults : Fault → Prop} {host : HostOperators} {depth : Nat} {machine next : Machine}
  {token action : Token} {tokens : List Token}

namespace Machine

/-- Outcomes that begin with a given one.  Unless that is a fault, others come behind it. -/
def Beginning (own : Outcome) (later : Machine → List Outcome → Prop)
    (outcomes : List Outcome) : Prop :=
  ∃ rest, outcomes = own :: rest ∧
    (Faulted own ∧ rest = [] ∨ ¬ Faulted own ∧ later (ended own) rest)

/-- How statements end that are executed one by one. -/
def Each (host : HostOperators) : List Token → Machine → List Outcome → Prop
  | [], _, outcomes => outcomes = []
  | token :: rest, machine, outcomes => ∃ own, Executes host token machine own ∧
      Beginning own (Each host rest) outcomes

/-- How they end if an action is executed behind the first one that succeeds.  Until then, the
callback of the action is still pending behind every statement. -/
def Once (host : HostOperators) (action : Token) : List Token → Machine → List Outcome → Prop
  | [], _, outcomes => outcomes = []
  | token :: rest, machine, outcomes =>
    (∃ failure next, Executes host token machine (.error failure next) ∧
        Beginning (.error failure (next.withCallback (.callback action)))
          (fun _ => Once host action rest next) outcomes) ∨
      ∃ next own, Executes host token machine (.ok () next) ∧ Executes host action next own ∧
        Beginning own (Each host rest) outcomes

variable {own other : Outcome} {later : Machine → List Outcome → Prop} {outcomes : List Outcome}

theorem Beginning.mem (hbeginning : Beginning own later outcomes) : own ∈ outcomes := by
  obtain ⟨rest, rfl, -⟩ := hbeginning
  exact List.mem_cons_self

/-- Behind a fault nothing comes. -/
theorem beginning_of_faulted (hfaulted : Faulted own) : Beginning own later [own] :=
  ⟨[], rfl, .inl ⟨hfaulted, rfl⟩⟩

/-- A fault in the first statement or in the action behind it is the end. -/
theorem Followed.once_of_faulted {rest : List Token}
    (hfollowed : Followed host token action machine own) (hfaulted : Faulted own) :
    Once host action (token :: rest) machine [own] := by
  cases hfollowed with
  | failed hfirst => exact .inl ⟨_, _, hfirst, beginning_of_faulted hfaulted⟩
  | succeeded hfirst hthen => exact .inr ⟨_, _, hfirst, hthen, beginning_of_faulted hfaulted⟩

end Machine

open Machine (Beginning Each Executes Followed Once SameEnd)

/-! ## Sessions that go alike -/

/-- For all outcomes of one session there are the same ones of another, unless either dies of
certain faults. -/
def Covers (faults : Fault → Prop) (same : Outcome → Outcome → Prop)
    (first second : List Outcome → Prop) : Prop :=
  ∀ outcomes, first outcomes → (∃ own ∈ outcomes, DiesOf faults own) ∨
    ∃ others, second others ∧
      (List.Forall₂ same outcomes others ∨ ∃ other ∈ others, DiesOf faults other)

/-- The outcomes are the same, and unless they are faults, they leave machines in a relation. -/
structure Meets (same : Outcome → Outcome → Prop) (related : Machine → Machine → Prop)
    (own other : Outcome) : Prop where
  same : same own other
  faulted : Faulted own ↔ Faulted other
  related : ¬ Faulted own → related (Machine.ended own) (Machine.ended other)

/-- Two machines that keep level, unless either dies of certain faults. -/
def Leeway.except (faults : Fault → Prop) : Leeway :=
  ⟨faults, faults, .level⟩

section Covers

variable {same : Outcome → Outcome → Prop} {related : Machine → Machine → Prop}
  {own other : Outcome} {later further : Machine → List Outcome → Prop}

theorem Meets.flip (hmeets : Meets same related own other) :
    Meets (fun right left => same left right) (fun right left => related left right) other own :=
  ⟨hmeets.same, hmeets.faulted.symm, fun hunfaulted =>
    hmeets.related (mt hmeets.faulted.1 hunfaulted)⟩

theorem Concluded.cases_meets (hconcluded : Concluded (.except faults) depth own other) :
    DiesOf faults own ∨ DiesOf faults other ∨
      Meets SameEnd (Paired (.except faults) (.idle depth) (.idle depth)) own other := by
  obtain hdies | hdies | hsame := hconcluded.ends
  · exact .inl hdies
  · exact .inr (.inl hdies)
  · refine .inr (.inr ⟨hsame, SameEnd.faulted_iff hsame, fun hunfaulted => ?_⟩)
    cases hconcluded with
    | ok hpaired | error hpaired => exact hpaired
    | fault | faultLeft => exact absurd trivial hunfaulted
    | faultRight => exact absurd ((SameEnd.faulted_iff hsame).2 trivial) hunfaulted
    | untoldLeft => exact absurd trivial hunfaulted
    | untoldRight hgait => exact absurd rfl hgait

theorem Meets.covers_beginning (hmeets : Meets same related own other)
    (hlater : ¬ Faulted own →
      Covers faults same (later (Machine.ended own)) (further (Machine.ended other))) :
    Covers faults same (Beginning own later) (Beginning other further) := by
  rintro _ ⟨rest, rfl, hrest⟩
  obtain ⟨hfaulted, rfl⟩ | ⟨hunfaulted, hrest⟩ := hrest
  · exact .inr ⟨[other], Machine.beginning_of_faulted (hmeets.faulted.1 hfaulted),
      .inl (.cons hmeets.same .nil)⟩
  obtain ⟨lost, hlost, hdies⟩ | ⟨others, hothers, hsame⟩ := hlater hunfaulted rest hrest
  · exact .inl ⟨lost, List.mem_cons_of_mem _ hlost, hdies⟩
  · have hgoes : ¬ Faulted other := mt hmeets.faulted.2 hunfaulted
    refine .inr ⟨other :: others, ⟨others, rfl, .inr ⟨hgoes, hothers⟩⟩, ?_⟩
    obtain hsame | ⟨lost, hlost, hdies⟩ := hsame
    · exact .inl (.cons hmeets.same hsame)
    · exact .inr ⟨lost, List.mem_cons_of_mem _ hlost, hdies⟩

theorem Covers.mono_right {first second third : List Outcome → Prop}
    (hcovers : Covers faults same first second)
    (himp : ∀ outcomes, second outcomes → third outcomes) : Covers faults same first third :=
  fun outcomes hfirst => (hcovers outcomes hfirst).imp_right fun ⟨others, hothers, hsame⟩ =>
    ⟨others, himp others hothers, hsame⟩

/-- Where nothing dies alone, there is no exception. -/
theorem Covers.unlimited {first second : List Outcome → Prop}
    (hcovers : Covers faults same first second) (hnever : ∀ fault, ¬ faults fault)
    {outcomes : List Outcome} (hfirst : first outcomes) :
    ∃ others, second others ∧ List.Forall₂ same outcomes others := by
  have hnone : ∀ outcomes : List Outcome, ¬ ∃ own ∈ outcomes, DiesOf faults own :=
    fun _ ⟨own, _, hdies⟩ => not_diesOf hnever hdies
  obtain ⟨others, hothers, hsame⟩ := (hcovers outcomes hfirst).resolve_left (hnone outcomes)
  exact ⟨others, hothers, hsame.resolve_right (hnone others)⟩

theorem Covers.unless_faulted {first second : List Outcome → Prop}
    (hcovers : Covers faults same first second) {outcomes : List Outcome}
    (hfirst : first outcomes) :
    (∃ own ∈ outcomes, Faulted own) ∨ ∃ others, second others ∧
      (List.Forall₂ same outcomes others ∨ ∃ other ∈ others, Faulted other) := by
  have hfaulted : ∀ outcomes : List Outcome, (∃ own ∈ outcomes, DiesOf faults own) →
      ∃ own ∈ outcomes, Faulted own :=
    fun _ ⟨own, hmem, hdies⟩ => ⟨own, hmem, hdies.faulted⟩
  obtain hdies | ⟨others, hothers, hsame⟩ := hcovers outcomes hfirst
  · exact .inl (hfaulted outcomes hdies)
  · exact .inr ⟨others, hothers, hsame.imp_right (hfaulted others)⟩

/-- If each statement goes alike from related machines, so do all of them. -/
theorem covers_each
    (hstep : ∀ {token left right own}, token.Plain → related left right →
      Executes host token left own → DiesOf faults own ∨
        ∃ other, Executes host token right other ∧
          (DiesOf faults other ∨ Meets same related own other))
    (htokens : ∀ token ∈ tokens, token.Plain) {left right : Machine}
    (hrelated : related left right) :
    Covers faults same (Each host tokens left) (Each host tokens right) := by
  induction tokens generalizing left right with
  | nil =>
    rintro _ rfl
    exact .inr ⟨[], rfl, .inl .nil⟩
  | cons token rest ih =>
    rintro outcomes ⟨own, hown, hbeginning⟩
    obtain ⟨htoken, hrest⟩ := List.forall_mem_cons.1 htokens
    obtain hdies | ⟨other, hother, hdies | hmeets⟩ := hstep htoken hrelated hown
    · exact .inl ⟨own, hbeginning.mem, hdies⟩
    · exact .inr ⟨[other], ⟨other, hother, Machine.beginning_of_faulted hdies.faulted⟩,
        .inr ⟨other, List.mem_cons_self, hdies⟩⟩
    · have hcovers := hmeets.covers_beginning fun hunfaulted =>
        ih hrest (hmeets.related hunfaulted)
      exact (hcovers.mono_right fun others hothers => ⟨other, hother, hothers⟩) _ hbeginning

end Covers

namespace Paired

variable {left right : Machine}

theorem each_covers (hpaired : Paired (.except faults) (.idle depth) (.idle depth) left right)
    (htokens : ∀ token ∈ tokens, token.Plain) :
    Covers faults SameEnd (Each host tokens left) (Each host tokens right) := by
  refine covers_each (fun {token left right own} htoken hpaired hown => ?_) htokens hpaired
  obtain hdies | ⟨other, hother, hconcluded⟩ :=
    (hpaired.executes_concludeAlike htoken host).right own hown
  · exact .inl hdies
  · exact hconcluded.cases_meets.imp_right fun hright => ⟨other, hother, hright⟩

theorem each_covered (hpaired : Paired (.except faults) (.idle depth) (.idle depth) left right)
    (htokens : ∀ token ∈ tokens, token.Plain) :
    Covers faults (fun own other => SameEnd other own) (Each host tokens right)
      (Each host tokens left) := by
  have hstep : ∀ {token right left own}, token.Plain →
      Paired (.except faults) (.idle depth) (.idle depth) left right →
      Executes host token right own →
      DiesOf faults own ∨ ∃ other, Executes host token left other ∧
        (DiesOf faults other ∨ Meets (fun own other => SameEnd other own)
          (fun right left => Paired (.except faults) (.idle depth) (.idle depth) left right)
          own other) := by
    intro token right left own htoken hpaired hown
    obtain hdies | ⟨other, hother, hconcluded⟩ :=
      (hpaired.executes_concludeAlike htoken host).left own hown
    · exact .inl hdies
    · obtain hdies | hdies | hmeets := hconcluded.cases_meets
      · exact .inr ⟨other, hother, .inl hdies⟩
      · exact .inl hdies
      · exact .inr ⟨other, hother, .inr hmeets.flip⟩
  exact covers_each hstep htokens hpaired

/-- While a callback is pending, statements go like those among which its action is one. -/
theorem once_covers (hpaired : Paired (.except faults) (.idle depth) (.idle depth) left
      (right.withCallback (.callback action)))
    (hcallback : right.callback = .void) (htokens : ∀ token ∈ tokens, token.Plain)
    (haction : action.Plain) :
    Covers faults SameEnd (Each host tokens left) (Once host action tokens right) := by
  induction tokens generalizing left right with
  | nil =>
    rintro _ rfl
    exact .inr ⟨[], rfl, .inl .nil⟩
  | cons token rest ih =>
    rintro outcomes ⟨own, hown, hbeginning⟩
    obtain ⟨htoken, hrest⟩ := List.forall_mem_cons.1 htokens
    obtain hdies | ⟨part, hpart, hconcluded⟩ := (hpaired.followed_concludeAlike
      Gait.noConfusion hcallback htoken haction host).right own hown
    · exact .inl ⟨own, hbeginning.mem, hdies⟩
    obtain hdies | hdies | hmeets := hconcluded.cases_meets
    · exact .inl ⟨own, hbeginning.mem, hdies⟩
    · exact .inr ⟨[part], hpart.once_of_faulted hdies.faulted,
        .inr ⟨part, List.mem_cons_self, hdies⟩⟩
    · cases hpart with
      | @failed failure next hfirst =>
        have hvoid := (hpaired.blank_right hcallback).callback_of_executes hcallback htoken hfirst
        have hcovers : Covers faults SameEnd (Beginning own (Each host rest))
            (Beginning (.error failure (next.withCallback (.callback action)))
              fun _ => Once host action rest next) :=
          hmeets.covers_beginning fun hunfaulted => ih (hmeets.related hunfaulted) hvoid hrest
        exact hcovers.mono_right (fun _ hothers => .inl ⟨_, _, hfirst, hothers⟩) _ hbeginning
      | succeeded hfirst hthen =>
        have hcovers : Covers faults SameEnd (Beginning own (Each host rest))
            (Beginning part (Each host rest)) :=
          hmeets.covers_beginning fun hunfaulted =>
            (hmeets.related hunfaulted).each_covers hrest
        exact hcovers.mono_right (fun _ hothers => .inr ⟨_, _, hfirst, hthen, hothers⟩) _
          hbeginning

theorem once_covered (hpaired : Paired (.except faults) (.idle depth) (.idle depth) left
      (right.withCallback (.callback action)))
    (hcallback : right.callback = .void) (htokens : ∀ token ∈ tokens, token.Plain)
    (haction : action.Plain) :
    Covers faults (fun own other => SameEnd other own) (Once host action tokens right)
      (Each host tokens left) := by
  induction tokens generalizing left right with
  | nil =>
    rintro _ rfl
    exact .inr ⟨[], rfl, .inl .nil⟩
  | cons token rest ih =>
    obtain ⟨htoken, hrest⟩ := List.forall_mem_cons.1 htokens
    -- Whether the callback ran with the first statement or still waits, it is enough that what
    -- comes later is covered.
    have hfirst : ∀ {part later}, Followed host token action right part →
        (∀ own, Paired (.except faults) (.idle depth) (.idle depth) (Machine.ended own)
            (Machine.ended part) →
          Covers faults (fun own other => SameEnd other own) (later (Machine.ended part))
            (Each host rest (Machine.ended own))) →
        Covers faults (fun own other => SameEnd other own) (Beginning part later)
          (Each host (token :: rest) left) := by
      intro part later hpart hlater outcomes hbeginning
      obtain hdies | ⟨own, hown, hconcluded⟩ := (hpaired.followed_concludeAlike
        Gait.noConfusion hcallback htoken haction host).left part hpart
      · exact .inl ⟨part, hbeginning.mem, hdies⟩
      obtain hdies | hdies | hmeets := hconcluded.cases_meets
      · exact .inr ⟨[own], ⟨own, hown, Machine.beginning_of_faulted hdies.faulted⟩,
          .inr ⟨own, List.mem_cons_self, hdies⟩⟩
      · exact .inl ⟨part, hbeginning.mem, hdies⟩
      · have hcovers := hmeets.flip.covers_beginning fun hunfaulted =>
          hlater own (hmeets.flip.related hunfaulted)
        exact hcovers.mono_right (fun _ hothers => ⟨own, hown, hothers⟩) _ hbeginning
    rintro outcomes
      (⟨failure, next, hfails, hbeginning⟩ | ⟨next, own, hsucceeds, hthen, hbeginning⟩)
    · have hvoid : next.callback = .void :=
        (hpaired.blank_right hcallback).callback_of_executes hcallback htoken hfails
      refine hfirst (.failed hfails) (fun own hmeets => ?_) _ hbeginning
      have hagain : Paired (.except faults) (.idle depth) (.idle depth) (Machine.ended own)
          (next.withCallback (.callback action)) := hmeets
      exact ih hagain hvoid hrest
    · exact hfirst (.succeeded hsucceeds hthen)
        (fun own hagain => hagain.each_covered hrest) _ hbeginning

end Paired

namespace Machine

/-- What is pending behind a statement: nothing if it has succeeded. -/
def leftPending (callback : Token) : Outcome → Token
  | .ok _ _ => .void
  | .error _ _ => callback

/-- While a callback is pending, a statement ends exactly if the statement alone does and the
action behind it, with the same result and the same data.  The callback is gone if the
statement alone succeeds, and still pending if it fails. -/
def DefersTo (host : HostOperators) (token action : Token) (machine : Machine) : Prop :=
  ((∃ whole, Executes host token machine whole) ↔
      ∃ parts, Followed host token action machine.clearCallback parts) ∧
    (∀ whole parts, Executes host token machine whole →
      Followed host token action machine.clearCallback parts → SameEnd whole parts) ∧
    ∀ whole own, Executes host token machine whole →
      Executes host token machine.clearCallback own →
        (ended whole).callback = leftPending machine.callback own

/-- Statements end exactly if they do with the action as one of them, behind the first one
that succeeds, and each of them with the same result and the same data. -/
def RunsOnce (host : HostOperators) (tokens : List Token) (action : Token)
    (machine : Machine) : Prop :=
  (∀ wholes, Each host tokens machine wholes →
      ∃ parts, Once host action tokens machine.clearCallback parts ∧
        List.Forall₂ SameEnd wholes parts) ∧
    ∀ parts, Once host action tokens machine.clearCallback parts →
      ∃ wholes, Each host tokens machine wholes ∧ List.Forall₂ SameEnd wholes parts

theorem Blank.plain_action (hblank : machine.Blank)
    (hcallback : machine.callback = .callback action) : action.Plain :=
  Token.plain_callback.1 (hcallback ▸ hblank.plain.callback)

theorem withCallback_clearCallback (hcallback : machine.callback = .callback action) :
    machine.clearCallback.withCallback (.callback action) = machine := by
  rw [← hcallback]
  rfl

/-- A machine with a callback pending is what it would be without it, but for the callback. -/
theorem Blank.paired_pending (hblank : machine.Blank)
    (hcallback : machine.callback = .callback action)
    (hroom : machine.room ≠ none → ∀ fault, faults fault) :
    Paired (.except faults) (.idle machine.depth) (.idle machine.depth) machine
      (machine.clearCallback.withCallback (.callback action)) := by
  rw [withCallback_clearCallback hcallback]
  have hgait : (Leeway.except faults).gait ≠ .apart := Gait.noConfusion
  exact hblank.paired_room hgait hroom hroom

theorem Blank.endTogether_followed (hblank : machine.Blank)
    (hcallback : machine.callback = .callback action)
    (hroom : machine.room ≠ none → ∀ fault, faults fault) (htoken : token.Plain) :
    EndTogetherUnless faults SameEnd (Executes host token machine)
      (Followed host token action machine.clearCallback) :=
  ((hblank.paired_pending hcallback hroom).followed_concludeAlike Gait.noConfusion rfl htoken
    (hblank.plain_action hcallback) host).endTogetherUnless

theorem EndTogetherUnless.unless_faulted {related : Outcome → Outcome → Prop}
    {first second : Outcome → Prop} (hunless : EndTogetherUnless faults related first second) :
    (∀ ended, first ended → Faulted ended ∨
        ∃ other, second other ∧ (Faulted other ∨ related ended other)) ∧
      ∀ other, second other → Faulted other ∨
        ∃ ended, first ended ∧ (Faulted ended ∨ related ended other) := by
  constructor
  · intro ended hended
    obtain hdies | ⟨other, hother, hrelated⟩ := hunless.right ended hended
    · exact .inl hdies.faulted
    · exact .inr ⟨other, hother, hrelated.imp_left DiesOf.faulted⟩
  · intro other hother
    obtain hdies | ⟨ended, hended, hrelated⟩ := hunless.left other hother
    · exact .inl hdies.faulted
    · exact .inr ⟨ended, hended, hrelated.imp_left DiesOf.faulted⟩

/-- Behind a statement the callback is gone, unless the statement alone has failed. -/
theorem Blank.callback_of_executes_pending (hblank : machine.Blank) (hroom : machine.room = none)
    (hcallback : machine.callback = .void) (htoken : token.Plain) (haction : action.Plain)
    (hwhole : Executes host token (machine.withCallback (.callback action)) other)
    (hown : Executes host token machine own) :
    (ended other).callback = leftPending (.callback action) own := by
  have hidle : (machine.withCallback (.callback action)).control = .idle machine.depth :=
    hblank.paired.left
  rw [executes_eq hidle] at hwhole
  rw [hblank.executes_eq_concludes hcallback htoken] at hown
  obtain ⟨outcome, hruns, rfl⟩ := hwhole
  obtain ⟨drained, hdrained, rfl⟩ := hown
  change Runs host 0 ((machine.withCallback (.callback action)).schedule token) outcome at hruns
  rw [hblank.runs_pending_eq hroom hcallback htoken (Token.plain_callback.2 haction)] at hruns
  obtain ⟨_, ⟨first, hfirst, rfl⟩, hafter⟩ := hruns
  obtain rfl := deterministic_draining.unique hdrained hfirst
  rw [callback_conclude]
  cases drained with
  | ok value next =>
    have hnext := (hblank.of_drains htoken hdrained).1
    have hscheduled := (hblank.undisturbed hcallback).schedule htoken
    have hvoid := hscheduled.language.callback_of_drains hdrained
    have hample : (machine.schedule token).Ample := ⟨hscheduled.language, hroom⟩
    have hlast := (hample.drains_withCallback hdrained .void).2
    exact hnext.callback_of_runs hlast.room (hvoid.trans hcallback) haction hafter
  | error failure next =>
    obtain rfl := hafter
    obtain ⟨fate, last, hfate⟩ := exists_conclude_error 0 machine.depth failure next
    rw [hfate]
    rfl

theorem Blank.defersTo (hblank : machine.Blank) (hcallback : machine.callback = .callback action)
    (hroom : machine.room = none) (htoken : token.Plain) :
    DefersTo host token action machine := by
  have hnever : machine.room ≠ none → ∀ _ : Fault, False := fun hne => absurd hroom hne
  obtain ⟨hends, hsame⟩ := (hblank.endTogether_followed hcallback hnever htoken).endTogether
    (fun _ => id) Followed.unique
  refine ⟨hends, hsame, fun whole own hwhole hown => ?_⟩
  have hcalm : machine.clearCallback.Blank :=
    ⟨hblank.execution, { hblank.plain with callback := Token.plain_void }⟩
  rw [← withCallback_clearCallback hcallback] at hwhole
  rw [hcallback]
  exact hcalm.callback_of_executes_pending hroom rfl htoken (hblank.plain_action hcallback)
    hwhole hown

theorem Blank.runsOnce (hblank : machine.Blank) (hcallback : machine.callback = .callback action)
    (hroom : machine.room = none) (htokens : ∀ token ∈ tokens, token.Plain) :
    RunsOnce host tokens action machine := by
  have hnever : machine.room ≠ none → ∀ _ : Fault, False := fun hne => absurd hroom hne
  have hpaired := hblank.paired_pending hcallback hnever
  have haction := hblank.plain_action hcallback
  constructor
  · intro wholes hwholes
    exact (hpaired.once_covers rfl htokens haction).unlimited (fun _ => id) hwholes
  · intro parts hparts
    obtain ⟨wholes, hwholes, hsame⟩ :=
      (hpaired.once_covered rfl htokens haction).unlimited (fun _ => id) hparts
    exact ⟨wholes, hwholes, hsame.flip⟩

/-- A statement ends while a callback is pending as it ends alone, with the action behind it if
it succeeds, and among any statements the action comes once, behind the first one that
succeeds.  This is so where storage never runs out; elsewhere, if one side ends without a
fault, the other one ends alike or with a fault. -/
theorem execute_runs_callback_once (hblank : machine.Blank)
    (hcallback : machine.callback = .callback action) (htoken : token.Plain)
    (htokens : ∀ token ∈ tokens, token.Plain) (host : HostOperators) :
    (machine.room = none →
        DefersTo host token action machine ∧ RunsOnce host tokens action machine) ∧
      ((∀ whole, Executes host token machine whole → Faulted whole ∨
          ∃ parts, Followed host token action machine.clearCallback parts ∧
            (Faulted parts ∨ SameEnd whole parts)) ∧
        ∀ parts, Followed host token action machine.clearCallback parts → Faulted parts ∨
          ∃ whole, Executes host token machine whole ∧ (Faulted whole ∨ SameEnd whole parts)) ∧
      (∀ wholes, Each host tokens machine wholes → (∃ whole ∈ wholes, Faulted whole) ∨
          ∃ parts, Once host action tokens machine.clearCallback parts ∧
            (List.Forall₂ SameEnd wholes parts ∨ ∃ part ∈ parts, Faulted part)) ∧
      ∀ parts, Once host action tokens machine.clearCallback parts →
        (∃ part ∈ parts, Faulted part) ∨
          ∃ wholes, Each host tokens machine wholes ∧
            (List.Forall₂ SameEnd wholes parts ∨ ∃ whole ∈ wholes, Faulted whole) := by
  have hany : machine.room ≠ none → ∀ _ : Fault, True := fun _ _ => trivial
  have hpaired := hblank.paired_pending hcallback hany
  have haction := hblank.plain_action hcallback
  refine ⟨fun hroom => ⟨hblank.defersTo hcallback hroom htoken,
      hblank.runsOnce hcallback hroom htokens⟩,
    (hblank.endTogether_followed hcallback hany htoken).unless_faulted, fun wholes hwholes => ?_,
    fun parts hparts => ?_⟩
  · exact (hpaired.once_covers rfl htokens haction).unless_faulted hwholes
  · obtain hfaulted | ⟨wholes, hwholes, hsame⟩ :=
      (hpaired.once_covered rfl htokens haction).unless_faulted hparts
    · exact .inl hfaulted
    · exact .inr ⟨wholes, hwholes, hsame.imp_left fun hsame => hsame.flip⟩

/-- A new machine with a callback, and statements of which the first one fails. -/
theorem execute_runs_callback_once_new_machine :
    ∃ machine, create {} Registration.standard = .ok machine ∧
      DefersTo .inert (.integer 1) (.integer 42)
        (machine.withCallback (.callback (.integer 42))) ∧
      RunsOnce .inert [.name "unknown", .integer 1, .integer 2] (.integer 42)
        (machine.withCallback (.callback (.integer 42))) := by
  obtain ⟨machine, hnew⟩ := exists_new
  have hpending : (machine.withCallback (.callback (.integer 42))).Blank :=
    ⟨hnew.blank.execution, { hnew.blank.plain with callback := rfl }⟩
  exact ⟨machine, hnew.created, (execute_runs_callback_once hpending rfl (by decide) (by decide)
    .inert).1 hnew.room⟩

theorem callback_of_setCallback (hset : setCallback action machine = .ok () next) :
    next.callback = .callback action := by
  simp only [setCallback, Bind.bind, EStateM.bind] at hset
  split at hset
  · cases hset
    rfl
  · cases hset

/-- Where the pools cannot grow, there is room for a callback with some data, but not for them
and for the copies of them that are made when its token comes in its place. -/
theorem callback_unlike_statement :
    ∃ machine next, create { pools := ⟨32, 2 ^ 60⟩ } Registration.standard = .ok machine ∧
      setCallback (.array ((List.range 20).map .count)) machine = .ok () next ∧ next.Blank ∧
      next.callback = .callback (.array ((List.range 20).map .count)) ∧
      (∃ parts, Followed .inert (.integer 1) (.array ((List.range 20).map .count))
        next.clearCallback parts ∧ ¬ Faulted parts) ∧
      ¬ DefersTo .inert (.integer 1) (.array ((List.range 20).map .count)) next := by
  have hchecked : (create { pools := ⟨32, 2 ^ 60⟩ } Registration.standard).toOption.any
      (fun machine => (succeeded? (setCallback (.array ((List.range 20).map .count)) machine)).any
        fun made => decide made.2.Blank &&
          (execute .inert 10 (.integer 1) made.2).any (fun whole => decide (Faulted whole)) &&
          (execute .inert 10 (.integer 1) made.2.clearCallback).any fun own =>
            (succeeded? own).any fun first =>
              (execute .inert 10 (.array ((List.range 20).map .count)) first.2).any
                fun parts => !decide (Faulted parts)) = true := by
    decide +kernel
  obtain ⟨machine, hmachine, hset⟩ := (Option.any_eq_true _ _).1 hchecked
  obtain ⟨⟨⟨⟩, next⟩, hset, hruns⟩ := (Option.any_eq_true _ _).1 hset
  simp only [Bool.and_eq_true, decide_eq_true_eq, and_assoc] at hruns
  obtain ⟨hblank, hwhole, hown⟩ := hruns
  obtain ⟨whole, hwhole, hlost⟩ := exists_faulted hwhole
  obtain ⟨own, hown, hthen⟩ := (Option.any_eq_true _ _).1 hown
  obtain ⟨⟨⟨⟩, first⟩, hfirst, hthen⟩ := (Option.any_eq_true _ _).1 hthen
  obtain ⟨parts, hparts, hspared⟩ := exists_unfaulted hthen
  obtain rfl := eq_ok_of_succeeded? hfirst
  have hfollowed : Followed .inert (.integer 1) (.array ((List.range 20).map .count))
      next.clearCallback parts := .succeeded ⟨10, hown⟩ ⟨10, hparts⟩
  have hcallback := callback_of_setCallback (eq_ok_of_succeeded? hset)
  refine ⟨machine, next, eq_ok_of_toOption hmachine, eq_ok_of_succeeded? hset, hblank, hcallback,
    ⟨parts, hfollowed, hspared⟩, ?_⟩
  intro hdefers
  exact hspared ((hdefers.2.1 whole parts ⟨10, hwhole⟩ hfollowed).faulted_iff.1 hlost)

end Machine

end StackLang
