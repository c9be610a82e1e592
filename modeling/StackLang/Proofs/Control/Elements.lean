import StackLang.Machine.Host
import StackLang.Proofs.Control.Procedures
import StackLang.Proofs.Control.ReadOnly
import StackLang.Proofs.Control.TailFrames

/-!
# Procedures and sequences of statements

To execute a procedure is to execute its elements as statements, one after the other.  The
procedure keeps a frame below them, and the host keeps the statements that are still to
come; neither shows in what the elements do.  Only a callback could tell: it waits for the
end of a statement, and that is the end of the procedure or that of an element.  No operator
of the language sets one.
-/

namespace StackLang

open Relation (ReflTransGen)

variable {leeway : Leeway} {host : HostOperators} {base depth : Nat} {machine next : Machine}
  {ended : Outcome} {token : Token}

/-- Where nothing is below, no loop can be left. -/
theorem Landed.idle {left right : Machine}
    (hlanded : Landed leeway (.idle depth) (.idle depth) left right) :
    Paired leeway (.idle depth) (.idle depth) left right := by
  cases hlanded with
  | back hpaired => exact hpaired
  | left hleft => cases hleft

/-! ## Statements without callbacks -/

namespace Machine

/-- A sequence of statements ends, if each of them may take enough steps. -/
def ExecutesAll (host : HostOperators) (tokens : List Token) (machine : Machine)
    (ended : Outcome) : Prop :=
  ∃ fuel, executeAll host fuel tokens machine = some ended

/-- All operators are those of the language, and no callback is pending. -/
structure Undisturbed (machine : Machine) : Prop where
  language : machine.InLanguage
  callback : machine.callback = .void

theorem Undisturbed.step (hmachine : machine.Undisturbed) (host : HostOperators) :
    ∃ outcome, Machine.step host machine = .finished outcome ∧
      ∀ next, outcome = .ok () next → next.Undisturbed := by
  obtain ⟨outcome, hstep, hleads⟩ := hmachine.language.step host
  refine ⟨outcome, hstep, ?_⟩
  rintro next rfl
  cases hleads with
  | ok _ hevolves =>
    exact ⟨hmachine.language.of_persists hevolves.toPersists,
      hevolves.callback.trans hmachine.callback⟩

theorem Undisturbed.turn_iff (hmachine : machine.Undisturbed) :
    Turn host base machine next ↔
      base < machine.execution.load ∧ Machine.step host machine = .finished (.ok () next) := by
  obtain ⟨outcome, hfinished, -⟩ := hmachine.step host
  constructor
  · intro hturn
    cases hturn with
    | step hload hstep => exact ⟨hload, hstep⟩
    | nested _ hexecuting => cases hfinished.symm.trans hexecuting
    | callback _ hpending =>
      rw [hmachine.callback] at hpending
      cases hpending
  · rintro ⟨hload, hstep⟩
    exact .step hload hstep

theorem Undisturbed.ends_iff (hmachine : machine.Undisturbed) :
    Ends host base machine ended ↔ Stops host base machine ended := by
  obtain ⟨outcome, hfinished, -⟩ := hmachine.step host
  constructor
  · intro hends
    cases hends with
    | done hload => exact .drained hload
    | failed hload hstep => exact .failed hload hstep
    | nested _ hexecuting => cases hfinished.symm.trans hexecuting
  · intro hstops
    cases hstops with
    | drained hload => exact .done hload (by rw [hmachine.callback]; rfl)
    | failed hload hstep => exact .failed hload hstep

theorem Undisturbed.of_turn (hmachine : machine.Undisturbed)
    (hturn : Turn host base machine next) : next.Undisturbed := by
  obtain ⟨-, hstep⟩ := hmachine.turn_iff.1 hturn
  obtain ⟨outcome, hfinished, hnext⟩ := hmachine.step host
  obtain rfl := Effect.finished.inj (hfinished.symm.trans hstep)
  exact hnext next rfl

/-- Where no callback can come, a run is over once it has drained. -/
theorem Undisturbed.run_iff (hmachine : machine.Undisturbed) :
    (∃ fuel, run host fuel base machine = some ended) ↔ Drains host base machine ended := by
  rw [exists_run_iff]
  constructor
  · rintro ⟨last, hturns, hends⟩
    induction hturns using ReflTransGen.head_induction_on with
    | refl => exact ⟨last, .refl, hmachine.ends_iff.1 hends⟩
    | head hturn _ ih =>
      obtain ⟨final, hsteps, hstops⟩ := ih (hmachine.of_turn hturn)
      exact ⟨final, .head (hmachine.turn_iff.1 hturn) hsteps, hstops⟩
  · rintro ⟨last, hsteps, hstops⟩
    induction hsteps using ReflTransGen.head_induction_on with
    | refl => exact ⟨last, .refl, hmachine.ends_iff.2 hstops⟩
    | head hstep _ ih =>
      have hturn := hmachine.turn_iff.2 hstep
      obtain ⟨final, hturns, hends⟩ := ih (hmachine.of_turn hturn)
      exact ⟨final, .head hturn hturns, hends⟩

theorem Undisturbed.of_drains (hmachine : machine.Undisturbed)
    (hdrains : Drains host base machine (.ok () next)) : next.Undisturbed := by
  obtain ⟨last, hsteps, hstops⟩ := hdrains
  cases hstops with
  | drained hload =>
    induction hsteps using ReflTransGen.head_induction_on with
    | refl => exact hmachine
    | head hstep _ ih => exact ih (hmachine.of_turn (hmachine.turn_iff.2 hstep))

theorem Undisturbed.schedule (hmachine : machine.Undisturbed) (htoken : token.Plain) :
    (machine.schedule token).Undisturbed where
  language := hmachine.language.of_persists
    ((Evolves.refl hmachine.language.calls).schedule htoken.callsOnly).toPersists
  callback := hmachine.callback

theorem Blank.undisturbed (hblank : machine.Blank) (hcallback : machine.callback = .void) :
    machine.Undisturbed :=
  ⟨hblank.inLanguage, hcallback⟩

/-- A statement drains, and then it is concluded. -/
theorem Blank.executes_eq_concludes (hblank : machine.Blank) (hcallback : machine.callback = .void)
    (htoken : token.Plain) :
    Executes host token machine =
      Concludes machine.depth (Drains host 0 (machine.schedule token)) := by
  have hscheduled := (hblank.undisturbed hcallback).schedule htoken
  rw [executes_eq hblank.paired.left]
  simp only [hscheduled.run_iff]

/-- What a statement leaves is as blank as before, with as many frames open. -/
theorem Blank.of_drains (hblank : machine.Blank) (htoken : token.Plain)
    (hdrains : Drains host 0 (machine.schedule token) (.ok () next)) :
    next.Blank ∧ next.depth = machine.depth := by
  have halike := (Matched.of_schedule hblank.paired htoken).drains_endAlike rfl host
  obtain hdies | ⟨other, hother, hagree⟩ := halike.right _ hdrains
  · cases hdies
  · obtain rfl := deterministic_draining.unique hdrains hother
    cases hagree with
    | ok hlanded => exact ⟨.of_paired hlanded.idle, congrArg Control.depth hlanded.idle.left⟩

/-! ## Sequences of statements -/

/-- With another account of what the host holds on to. -/
def withHeld (held : List Holding) (machine : Machine) : Machine :=
  { machine with held }

/-- What was run, with the host holding again what it held before. -/
def Restores (held : List Holding) (ends : Outcome → Prop) (ended : Outcome) : Prop :=
  ∃ own, ends own ∧ ended = mapOutcome (withHeld held) own

/-- Executes statements in turn.  The host holds those that are still to come, and lets go
of them whether a statement succeeds or fails. -/
def InTurn (host : HostOperators) : List Token → Machine → Outcome → Prop
  | [], machine => (· = .ok () machine)
  | token :: rest, machine =>
    Then
      (Restores machine.held
        (Drains host 0 ((machine.withHeld (rest.map .token ++ machine.held)).schedule token)))
      (InTurn host rest)

theorem execute_mono {fuel more : Nat} (hle : fuel ≤ more)
    (hexecute : execute host fuel token machine = some ended) :
    execute host more token machine = some ended := by
  obtain ⟨own, hrun, rfl⟩ := Option.map_eq_some_iff.1 hexecute
  exact Option.map_eq_some_iff.2 ⟨own, run_mono hle hrun, rfl⟩

theorem executeAll_mono {fuel more : Nat} (hle : fuel ≤ more) {tokens : List Token}
    (hexecute : executeAll host fuel tokens machine = some ended) :
    executeAll host more tokens machine = some ended := by
  induction tokens generalizing machine with
  | nil => exact hexecute
  | cons token rest ih =>
    rw [executeAll] at hexecute ⊢
    split at hexecute
    · cases hexecute
    · rename_i next hone
      rw [execute_mono hle hone]
      exact ih hexecute
    · rename_i failure next hone
      rw [execute_mono hle hone]
      exact hexecute

theorem ExecutesAll.unique {tokens : List Token} {other : Outcome}
    (hended : ExecutesAll host tokens machine ended)
    (hother : ExecutesAll host tokens machine other) : ended = other := by
  obtain ⟨fuel, hended⟩ := hended
  obtain ⟨more, hother⟩ := hother
  have hmost := executeAll_mono (Nat.le_max_left fuel more) hended
  have hagain := executeAll_mono (Nat.le_max_right fuel more) hother
  exact Option.some.inj (hmost.symm.trans hagain)

end Machine

/-! ## Elements of a procedure -/

open Machine (Concludes Drains Executes ExecutesAll InOrder InTurn Restores SameEnd Then)

variable {control : Control} {left right : Machine}

/-- Outcomes still agree after a change of the machine on the right that makes no difference. -/
theorem Agree.mapOutcome {failed post : Machine → Machine → Prop} {ended other : Outcome}
    (hagree : Agree leeway failed (fun _ => post) ended other) {change : Machine → Machine}
    (hfailed : ∀ left right, failed left right → failed left (change right))
    (hpost : ∀ left right, post left right → post left (change right)) :
    Agree leeway failed (fun _ => post) ended (Machine.mapOutcome change other) := by
  cases hagree with
  | ok hpaired => exact .ok (hpost _ _ hpaired)
  | error herror => exact .error (hfailed _ _ herror)
  | fault => exact .fault
  | faultLeft hleeway => exact .faultLeft hleeway
  | faultRight hleeway => exact .faultRight hleeway

theorem EndAlike.restores {first second : Outcome → Prop} (held : List Holding)
    (halike : EndAlike leeway (Alike leeway) (Paired leeway control control) first second) :
    EndAlike leeway (Alike leeway) (Paired leeway control control) first
      (Restores held second) := by
  have hagree : ∀ {ended other : Outcome},
      Agree leeway (Alike leeway) (fun _ => Paired leeway control control) ended other →
      Agree leeway (Alike leeway) (fun _ => Paired leeway control control) ended
        (Machine.mapOutcome (Machine.withHeld held) other) :=
    fun hagree => hagree.mapOutcome (fun left _ halike => halike.withHeld left.held held)
      fun left _ hpaired => hpaired.withHeld left.held held
  constructor
  · intro ended hended
    obtain hdies | ⟨other, hother, hsame⟩ := halike.right ended hended
    · exact .inl hdies
    · exact .inr ⟨_, ⟨other, hother, rfl⟩, hagree hsame⟩
  · rintro _ ⟨other, hother, rfl⟩
    obtain hdies | ⟨ended, hended, hsame⟩ := halike.left other hother
    · obtain ⟨fault, machine, hleeway, rfl⟩ := hdies.exists_fault
      exact .inl hleeway
    · exact .inr ⟨ended, hended, hagree hsame⟩

/-- Elements that are run in order end like statements that are executed in turn. -/
theorem Paired.inTurn_endAlike {tokens : List Token} (host : HostOperators)
    (hpaired : Paired leeway (.idle depth) (.idle depth) left right)
    (htokens : ∀ token ∈ tokens, token.Plain) :
    EndAlike leeway (Alike leeway) (Paired leeway (.idle depth) (.idle depth))
      (InOrder host 0 tokens left) (InTurn host tokens right) := by
  induction tokens generalizing left right with
  | nil => exact .of_agree (.ok hpaired)
  | cons token rest ih =>
    -- Below the elements there is no loop that one of them could leave, so all of them run.
    have hmatched : Matched leeway (.idle depth) (.idle depth) (left.schedule token)
        ((right.withHeld (rest.map .token ++ right.held)).schedule token) :=
      .of_schedule (hpaired.withHeld left.held _) (htokens token (by simp))
    have hdrains : EndAlike leeway (Alike leeway) (Paired leeway (.idle depth) (.idle depth)) _ _ :=
      (hmatched.drains_endAlike rfl host).imp (fun _ _ => Matched.alike) fun _ _ => Landed.idle
    rw [InOrder, InTurn]
    refine EndAlike.then (hdrains.restores right.held) fun next other hnext => ?_
    rw [Machine.standing_of_le (Nat.zero_le _)]
    exact ih hnext fun later hmem => htokens later (by simp [hmem])

namespace Machine

/-- The machine with unlimited storage and without step mode, where nothing but the statement
itself can go wrong. -/
def calmed (machine : Machine) : Machine :=
  { machine with room := none, config := { machine.config with stepMode := false } }

theorem Blank.paired_calmed (hblank : machine.Blank) :
    Paired machine.perilous.onlyLeft (.idle machine.depth) (.idle machine.depth) machine
      machine.calmed where
  alike :=
    { operands := rfl
      store := rfl
      scopes := rfl
      callback := rfl
      plain := hblank.plain
      roomLeft := fun hroom _ => .inl hroom
      roomRight := fun hroom => absurd rfl hroom
      stepLeft := fun hstep => .inl (.inr ⟨hstep, rfl⟩)
      stepRight := fun hstep => by cases hstep
      voice := fun hne => absurd rfl hne
      elimination := id
      level := fun hlevel => by cases hlevel }
  left := hblank.paired.left
  right := hblank.paired.left

theorem Blank.calmed_paired (hblank : machine.Blank) :
    Paired machine.perilous.onlyRight (.idle machine.depth) (.idle machine.depth) machine.calmed
      machine where
  alike :=
    { operands := rfl
      store := rfl
      scopes := rfl
      callback := rfl
      plain := { hblank.plain with }
      roomLeft := fun hroom => absurd rfl hroom
      roomRight := fun hroom _ => .inl hroom
      stepLeft := fun hstep => by cases hstep
      stepRight := fun hstep => .inl (.inr ⟨hstep, rfl⟩)
      voice := fun hne => absurd rfl hne
      elimination := id
      level := fun hlevel => by cases hlevel }
  left := hblank.paired.left
  right := hblank.paired.left

/-- A procedure drains like its elements in turn.  The comparison goes by the calmed machine,
since a fault of one side says nothing about the other one. -/
theorem Blank.procedure_endAlike {body : Procedure} (hblank : machine.Blank) (hbody : body.Plain)
    (hlength : body.body.length < 2 ^ 63) (attributes : Attributes) (host : HostOperators) :
    EndAlike machine.perilous (Failing machine.perilous)
      (Paired machine.perilous (.idle machine.depth) (.idle machine.depth))
      (Drains host 0 (machine.schedule (.datum (.procedure body.id body.body) attributes)))
      (InTurn host body.body machine) := by
  have hwhole : EndAlike machine.perilous.onlyLeft (Alike machine.perilous.onlyLeft)
      (Landed machine.perilous.onlyLeft (.idle machine.depth) (.idle machine.depth))
      (Drains host 0 (machine.schedule (.datum (.procedure body.id body.body) attributes)))
      (InOrder host 0 body.body machine.calmed) :=
    (hblank.paired_calmed.schedule_alone _).procedure_endAlike rfl rfl hbody hlength
  have hparts : EndAlike machine.perilous.onlyRight (Alike machine.perilous.onlyRight)
      (Paired machine.perilous.onlyRight (.idle machine.depth) (.idle machine.depth))
      (InOrder host 0 body.body machine.calmed) (InTurn host body.body machine) :=
    hblank.calmed_paired.inTurn_endAlike host hbody
  exact (hwhole.mono fun _ _ => Landed.idle).trans hparts
    (fun hbefore hbehind => (hbefore.trans hbehind).failing rfl) Paired.trans

end Machine

end StackLang
