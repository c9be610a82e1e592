import StackLang.Proofs.Control.Waiting

/-!
# Rounds

A loop runs the tokens of its body in order, and that again and again.  Without a frame
this is done above a bare mark: token by token, each of them until it has drained, and
round by round, each of them with operands of its own.  Where `exit` has left the loop,
the mark is gone and nothing more of it is run.

A frame does the same in cycles.  In a cycle it takes one step, and what this hands out
is run until the frame is on top again.
-/

namespace StackLang

open Relation (ReflTransGen)

namespace Machine

/-- Goes on as long as something is left at `level`. -/
def Standing (level : Nat) (next : Machine → Outcome → Prop) (machine : Machine) :
    Outcome → Prop :=
  if level ≤ machine.execution.load then next machine else (· = .ok () machine)

/-- Runs tokens in order.  Each of them drains to `level`; if less than that is left, a loop
below has been left, and no more of the tokens run. -/
def InOrder (host : HostOperators) (level : Nat) : List Token → Machine → Outcome → Prop
  | [], machine => (· = .ok () machine)
  | token :: rest, machine =>
    Then (Drains host level (machine.schedule token))
      (Standing level fun next => InOrder host level rest next)

/-- The machine with operands put on top, the last one uppermost. -/
def withOperands (operands : List Token) (machine : Machine) : Machine :=
  { machine with operands := machine.operands.pushAll operands }

/-- Runs a body once for each list of operands, which are put on the operand stack first. -/
def Rounds (host : HostOperators) (level : Nat) (body : List Token) :
    List (List Token) → Machine → Outcome → Prop
  | [], machine => (· = .ok () machine)
  | operands :: rest, machine =>
    Then (InOrder host level body (machine.withOperands operands))
      (Standing level fun next => Rounds host level body rest next)

/-- Makes rounds above a mark that reaches up to `level`.  The mark goes when they are through,
unless the loop has been left before. -/
def Loops (host : HostOperators) (level : Nat) (body : List Token) (rounds : List (List Token))
    (machine : Machine) : Outcome → Prop :=
  Then (Rounds host level body rounds machine)
    (Standing level fun next => (· = .ok () next.unscheduled))

/-- The outcome is final for what stands at `level`: a failure, or that it has been left. -/
inductive Over (level : Nat) : Outcome → Prop where
  | left {value : Unit} {machine : Machine} (hlt : machine.execution.load < level) :
    Over level (.ok value machine)
  | failed {failure : Failure} {machine : Machine} : Over level (.error failure machine)

/-- Makes rounds without operands and without end.  Only a round that leaves the loop or
fails is the last one. -/
def Endless (host : HostOperators) (level : Nat) (body : List Token) (machine : Machine)
    (ended : Outcome) : Prop :=
  Over level ended ∧ ∃ n, Rounds host level body (List.replicate n []) machine ended

/-- The frame on top takes a step, and what it hands out is run down to `level`. -/
def Cycle (host : HostOperators) (level : Nat) (machine : Machine) : Outcome → Prop :=
  Then (fun ended => step host machine = .finished ended) (Drains host level)

/-- Makes a number of cycles, unless the frame goes before. -/
def Cycles (host : HostOperators) (level : Nat) : Nat → Machine → Outcome → Prop
  | 0, machine => (· = .ok () machine)
  | count + 1, machine =>
    Then (Cycle host level machine) (Standing level fun next => Cycles host level count next)

variable {host : HostOperators} {base level : Nat} {machine : Machine} {outcome : Outcome}
  {body : List Token}

/-! ## The algebra of parts -/

theorem then_assoc (first : Outcome → Prop) (next last : Machine → Outcome → Prop) :
    Then (Then first next) last = Then first fun machine => Then (next machine) last := by
  funext ended
  refine propext ⟨?_, ?_⟩
  · rintro ⟨mid, ⟨own, hown, hmid⟩, hended⟩
    cases own with
    | ok value machine => exact ⟨_, hown, mid, hmid, hended⟩
    | error failure machine =>
      obtain rfl := hmid
      exact ⟨_, hown, hended⟩
  · rintro ⟨own, hown, hafter⟩
    cases own with
    | ok value machine =>
      obtain ⟨mid, hmid, hended⟩ := hafter
      exact ⟨mid, ⟨_, hown, hmid⟩, hended⟩
    | error failure machine => exact ⟨_, ⟨_, hown, rfl⟩, hafter⟩

@[simp]
theorem then_eq_ok (first : Outcome → Prop) :
    Then first (fun machine => (· = .ok () machine)) = first := by
  funext ended
  refine propext ⟨?_, ?_⟩
  · rintro ⟨own, hown, hafter⟩
    cases own with
    | ok | error => exact hafter ▸ hown
  · intro hended
    refine ⟨ended, hended, ?_⟩
    cases ended with
    | ok | error => rfl

theorem standing_of_le {next : Machine → Outcome → Prop} (hle : level ≤ machine.execution.load) :
    Standing level next machine = next machine :=
  if_pos hle

theorem standing_of_lt {next : Machine → Outcome → Prop} (hlt : machine.execution.load < level) :
    Standing level next machine = (· = .ok () machine) :=
  if_neg (Nat.not_le.2 hlt)

/-- What has been left stays so. -/
theorem then_standing (next last : Machine → Outcome → Prop) :
    (fun machine => Then (Standing level next machine) (Standing level last)) =
      Standing level fun machine => Then (next machine) (Standing level last) := by
  funext machine
  by_cases hle : level ≤ machine.execution.load
  · rw [standing_of_le hle, standing_of_le hle]
  · have hlt := Nat.not_le.1 hle
    rw [standing_of_lt hlt, then_ok, standing_of_lt hlt, standing_of_lt hlt]

@[simp]
theorem standing_eq_ok : Standing level (fun machine => (· = .ok () machine)) =
    fun machine => (· = .ok () machine) := by
  funext machine
  exact ite_self _

theorem loops_nil (hle : level ≤ machine.execution.load) :
    Loops host level body [] machine = (· = .ok () machine.unscheduled) := by
  rw [Loops, Rounds, then_ok, standing_of_le hle]

theorem loops_cons (operands : List Token) (rounds : List (List Token)) :
    Loops host level body (operands :: rounds) machine =
      Then (InOrder host level body (machine.withOperands operands))
        (Standing level fun next => Loops host level body rounds next) := by
  rw [Loops, Rounds, then_assoc, then_standing]
  rfl

/-- Rounds without a body only put their operands on the operand stack. -/
theorem loops_without_body (hle : level ≤ machine.execution.load) (rounds : List (List Token)) :
    Loops host level [] rounds machine
      (.ok () (machine.withOperands rounds.flatten).unscheduled) := by
  induction rounds generalizing machine with
  | nil =>
    rw [loops_nil hle]
    rfl
  | cons operands rest ih =>
    have hround : InOrder host level [] (machine.withOperands operands) =
        (· = .ok () (machine.withOperands operands)) := rfl
    have hnext : (machine.withOperands operands).withOperands rest.flatten =
        machine.withOperands (operands :: rest).flatten := by
      simp [withOperands, TokenStack.pushAll]
    have hstill : level ≤ (machine.withOperands operands).execution.load := hle
    rw [loops_cons, hround, then_ok, standing_of_le hstill, ← hnext]
    exact ih hstill

theorem finished_of_step (hstep : step host machine = .finished outcome) :
    (fun ended => step host machine = .finished ended) = (· = outcome) := by
  funext ended
  rw [hstep]
  exact propext ⟨fun hsame => (Effect.finished.inj hsame).symm, fun hsame => hsame ▸ rfl⟩

theorem cycle_of_step (hstep : step host machine = .finished outcome) :
    Cycle host level machine = Then (· = outcome) (Drains host level) := by
  rw [Cycle, finished_of_step hstep]

/-- To drain to `base` is to make a cycle first. -/
theorem drains_cycle (hbase : base < level) (hload : base < machine.execution.load) :
    Drains host base machine = Then (Cycle host level machine) (Drains host base) := by
  cases hstep : step host machine with
  | finished outcome =>
    have habove : (fun next => Then (Drains host level next) (Drains host base)) =
        Drains host base :=
      funext fun next => (drains_above (Nat.le_of_lt hbase)).symm
    rw [drains_of_step hload hstep, cycle_of_step hstep, then_assoc, habove]
  | executing token inner resume =>
    -- A statement of the host is no part of a statement of the program.
    funext ended
    refine propext ⟨?_, ?_⟩
    · rintro ⟨last, hturns, hends⟩
      obtain rfl | ⟨next, hturn, -⟩ := hturns.cases_head
      · cases hends with
        | drained hdrained => exact absurd hload hdrained
        | failed _ hfailed => cases hstep.symm.trans hfailed
      · cases hstep.symm.trans hturn.2
    · rintro ⟨_, ⟨_, hfinished, _⟩, _⟩
      cases hstep.symm.trans hfinished

/-- To drain to `base` is to make some cycles first. -/
theorem drains_cycles (hbase : base < level) (hload : level ≤ machine.execution.load)
    (count : Nat) :
    Drains host base machine = Then (Cycles host level count machine) (Drains host base) := by
  induction count generalizing machine with
  | zero => rw [Cycles, then_ok]
  | succ count ih =>
    have hgoes : (fun next => Then (Standing level (fun next => Cycles host level count next) next)
        (Drains host base)) = Drains host base := by
      funext next
      by_cases hle : level ≤ next.execution.load
      · rw [standing_of_le hle, ← ih hle]
      · rw [standing_of_lt (Nat.not_le.1 hle), then_ok]
    rw [drains_cycle hbase (Nat.lt_of_lt_of_le hbase hload), Cycles, then_assoc, hgoes]

/-- Cycles are made one part after the other. -/
theorem cycles_add (hload : level ≤ machine.execution.load) (count more : Nat) :
    Cycles host level (count + more) machine =
      Then (Cycles host level count machine)
        (Standing level fun next => Cycles host level more next) := by
  induction count generalizing machine with
  | zero => rw [Nat.zero_add, Cycles, then_ok, standing_of_le hload]
  | succ count ih =>
    have hlater : (Standing level fun next => Cycles host level (count + more) next) =
        Standing level fun next => Then (Cycles host level count next)
          (Standing level fun next => Cycles host level more next) := by
      funext next
      by_cases hle : level ≤ next.execution.load
      · rw [standing_of_le hle, standing_of_le hle, ih hle]
      · rw [standing_of_lt (Nat.not_le.1 hle), standing_of_lt (Nat.not_le.1 hle)]
    rw [Nat.succ_add, Cycles, Cycles, then_assoc, then_standing, hlater]

/-- A run down to `base` makes cycles until the frame is gone, or until one of them fails. -/
def Cycled (host : HostOperators) (base level : Nat) (machine : Machine) (outcome : Outcome) :
    Prop :=
  ∃ count ended, Cycles host level count machine ended ∧ Over level ended ∧
    Then (· = ended) (Drains host base) outcome

/-- From `level` on a run makes cycles; below it there is no frame any more. -/
def Leaves (host : HostOperators) (base level : Nat) (machine : Machine) : Outcome → Prop :=
  if level ≤ machine.execution.load then Cycled host base level machine
  else Drains host base machine

theorem Cycled.of_cycle
    (hcycle : Then (Cycle host level machine) (Leaves host base level) outcome) :
    Cycled host base level machine outcome := by
  obtain ⟨own, hown, hafter⟩ := hcycle
  cases own with
  | error failure next => exact ⟨1, _, ⟨_, hown, rfl⟩, .failed, _, rfl, hafter⟩
  | ok value next =>
    simp only [Leaves] at hafter
    split at hafter
    · rename_i hle
      obtain ⟨count, ended, hcycles, hover, hended⟩ := hafter
      refine ⟨count + 1, ended, ⟨_, hown, ?_⟩, hover, hended⟩
      simp only [standing_of_le hle]
      exact hcycles
    · rename_i hgone
      have hlt := Nat.not_le.1 hgone
      refine ⟨1, .ok value next, ⟨_, hown, ?_⟩, .left hlt, _, rfl, hafter⟩
      simp only [standing_of_lt hlt]

/-- A run that ends drains to the frame first and leaves it then. -/
theorem leaves_of_drains (hbase : base < level) (hdrains : Drains host base machine outcome) :
    Then (Drains host level machine) (Leaves host base level) outcome := by
  obtain ⟨last, hturns, hends⟩ := hdrains
  induction hturns using ReflTransGen.head_induction_on with
  | refl =>
    cases hends with
    | drained hload =>
      have hlt : last.execution.load < level := by omega
      rw [drains_of_not_lt (by omega), then_ok, Leaves, if_neg (by omega),
        drains_of_not_lt hload]
    | failed hload hstep =>
      by_cases habove : level < last.execution.load
      · exact ⟨_, ⟨last, .refl, .failed habove hstep⟩, rfl⟩
      · rw [drains_of_not_lt habove, then_ok, Leaves]
        split
        · exact .of_cycle ⟨_, ⟨_, hstep, rfl⟩, rfl⟩
        · exact ⟨last, .refl, .failed hload hstep⟩
  | @head machine next hturn hrest ih =>
    by_cases habove : level < machine.execution.load
    · rw [drains_of_step habove hturn.2, then_ok]
      exact ih
    · rw [drains_of_not_lt habove, then_ok, Leaves]
      split
      · refine .of_cycle ?_
        rw [cycle_of_step hturn.2, then_ok]
        exact ih
      · exact ⟨last, .head hturn hrest, hends⟩

/-- A run with the frame on top that ends has made cycles until the frame was gone, or until
one of them failed. -/
theorem cycled_of_drains (hbase : base < level) (hload : machine.execution.load = level)
    (hdrains : Drains host base machine outcome) :
    Cycled host base level machine outcome := by
  have hleaves := leaves_of_drains hbase hdrains
  rwa [drains_of_not_lt (by omega), then_ok, Leaves, if_pos (by omega)] at hleaves

end Machine

variable {leeway : Leeway} {host : HostOperators} {base level : Nat}
  {first second control : Control} {left right : Machine} {body : Procedure}

/-! ## A round along a frame -/

/-- A token that one machine is about to run and the other one is given drains alike. -/
theorem Paired.token_endAlike {token : Token} (host : HostOperators)
    (hexit : first.left? = second.left?) (htoken : token.Plain)
    (hpaired : Paired leeway (first.push token) second left right) :
    EndAlike leeway (Alike leeway) (Landed leeway first second)
      (Machine.Drains host first.items.length left)
      (Machine.Drains host second.items.length (right.schedule token)) := by
  have hmatched : Matched leeway first second left (right.schedule token) :=
    ⟨some token, [], [], .nil, by simp, by simpa using htoken, hpaired.schedule_right⟩
  exact (hmatched.drains_endAlike hexit host).imp (fun _ _ => Matched.alike) fun _ _ => id

/-- Where the tokens of a round lead: the frame is on top again, and so is the mark, or both
are gone. -/
inductive Rested (leeway : Leeway) (control : Control) (frame : Frame) (left right : Machine) :
    Prop where
  | standing (hpaired : Paired leeway (control.enter frame) (control.push .mark) left right)
  | left (hpaired : Paired leeway control control left right)

/-- Leaving a loop goes below its frame as it goes below a bare mark. -/
theorem Frame.left?_enter_loop {frame : Frame} (hloop : frame.isLoop = true)
    (hshaped : frame.Shaped) (control : Control) :
    (control.enter frame).left? = (control.push .mark).left? := by
  rw [Control.left?_push_mark, Control.left?_enter hshaped, hloop, if_pos rfl]

/-- A part of a round that has drained to the frame of its loop leads there. -/
theorem Landed.rested {frame : Frame} (hloop : frame.isLoop = true) (hshaped : frame.Shaped)
    (hlanded : Landed leeway (control.enter frame) (control.push .mark) left right) :
    Rested leeway control frame left right := by
  cases hlanded with
  | back hpaired => exact .standing hpaired
  | left hout hpaired =>
    rw [Control.left?_enter hshaped, hloop, if_pos rfl] at hout
    obtain rfl := Option.some.inj hout
    exact .left hpaired

/-- Where a part of a round leads, the round goes on if the frame is still there. -/
theorem Rested.standing_endAlike {frame moved : Frame}
    {later further : Machine → Outcome → Prop}
    (hrested : Rested leeway control frame left right)
    (hlevel : (control.enter frame).items.length = level) (habove : control.items.length < level)
    (hgoes : Paired leeway (control.enter frame) (control.push .mark) left right →
      EndAlike leeway (Alike leeway) (Rested leeway control moved) (later left) (further right)) :
    EndAlike leeway (Alike leeway) (Rested leeway control moved)
      (Machine.Standing level later left)
      (Machine.Standing (control.items.length + 1) further right) := by
  cases hrested with
  | standing hstanding =>
    have hload := Machine.load_of_control hstanding.left
    have hother : right.execution.load = control.items.length + 1 :=
      Machine.load_of_control hstanding.right
    rw [Machine.standing_of_le (by omega), Machine.standing_of_le (by omega)]
    exact hgoes hstanding
  | left hleft =>
    have hload := Machine.load_of_control hleft.left
    have hother := Machine.load_of_control hleft.right
    rw [Machine.standing_of_lt (by omega), Machine.standing_of_lt (by omega)]
    exact .of_agree (.ok (.left hleft))

/-- A loop without rounds left closes its frame, and the mark goes. -/
theorem Paired.closed_endAlike {frame : Frame} {tokens : List Token}
    (hpaired : Paired leeway (control.enter frame) (control.push .mark) left right)
    (hdone : Agree leeway (Alike leeway) (fun _ => Paired leeway control (control.push .mark))
      (Machine.advance frame.primitive left) (.ok () right)) :
    EndAlike leeway (Alike leeway) (Paired leeway control control)
      (Machine.Drains host control.items.length left)
      (Machine.Loops host (control.items.length + 1) tokens [] right) := by
  have hright : right.execution.load = control.items.length + 1 :=
    Machine.load_of_control hpaired.right
  rw [Machine.loops_nil (by omega)]
  refine .of_step (Machine.lt_load_of_enter hpaired.left) (Machine.step_of_enter hpaired.left)
    hdone fun next hnext => ?_
  have hload := Machine.load_of_control hnext.left
  exact .of_drained (by omega) hnext.unschedule_right

/-- Behind a round along a frame, a loop ends like what follows the round above the mark. -/
theorem EndAlike.of_round {frame : Frame} {ends other : Outcome → Prop}
    {later : Machine → Outcome → Prop}
    (hround : EndAlike leeway (Alike leeway) (Rested leeway control frame) ends other)
    (hlater : ∀ left right,
      Paired leeway (control.enter frame) (control.push .mark) left right →
      EndAlike leeway (Alike leeway) (Paired leeway control control)
        (Machine.Drains host control.items.length left) (later right)) :
    EndAlike leeway (Alike leeway) (Paired leeway control control)
      (Machine.Then ends (Machine.Drains host control.items.length))
      (Machine.Then other (Machine.Standing (control.items.length + 1) later)) := by
  refine hround.then fun next further hrested => ?_
  cases hrested with
  | standing hpaired =>
    have hload : further.execution.load = control.items.length + 1 :=
      Machine.load_of_control hpaired.right
    rw [Machine.standing_of_le (by omega)]
    exact hlater next further hpaired
  | left hpaired =>
    have hload := Machine.load_of_control hpaired.left
    have hother := Machine.load_of_control hpaired.right
    rw [Machine.standing_of_lt (by omega)]
    exact .of_drained (by omega) hpaired

/-- A step of the frame on top hands out an element of its body and moves the frame on, while
the right machine waits. -/
theorem Paired.handOut_alone {frame : Frame} (moved : Frame) {position : Int64} {element : Token}
    (hpaired : Paired leeway (first.enter frame) second left right)
    (hgait : leeway.gait = .apart)
    (hitem : ∀ below, (frame.tokens ++ below)[1]? = some (.integer position))
    (hwrite : ∀ below, (frame.tokens ++ below).set 1 (.integer (position + 1)) =
      moved.tokens ++ below) :
    Agree leeway (Alike leeway) (fun _ => Paired leeway ((first.enter moved).push element) second)
      (Machine.handOut body.body position element left) (.ok () right) := by
  refine (hpaired.claim_alone _).alone fun claimed hclaimed => ?_
  refine (hclaimed.speak_alone hgait (Machine.speaks_pause body.body position)).alone
    fun paused hpaused => ?_
  exact (hpaused.writeFrame_alone moved hitem hwrite).alone fun _ hwritten =>
    .ok (hwritten.schedule_alone element)

/-- The frames of a loop in the course of a round, by their positions: each step hands out
the token at the position and moves on. -/
structure Handing (leeway : Leeway) (control : Control) (level : Nat) (body : Procedure)
    (frameAt : Int64 → Frame) : Prop where
  isLoop : ∀ position, (frameAt position).isLoop = true
  shaped : ∀ position, (frameAt position).Shaped
  level_eq : ∀ position, (control.enter (frameAt position)).items.length = level
  step : ∀ {position : Int64} {element : Token} {second : Control} {left right : Machine},
    Paired leeway (control.enter (frameAt position)) second left right →
    Machine.elementAt body.body position = some element →
    Agree leeway (Alike leeway)
      (fun _ => Paired leeway ((control.enter (frameAt (position + 1))).push element) second)
      (Machine.advance (frameAt position).primitive left) (.ok () right)

/-- The tokens of the body that are left in a round run in order. -/
theorem Handing.endAlike {frameAt : Int64 → Frame}
    (hhanding : Handing leeway control level body frameAt) (host : HostOperators)
    (hbody : body.Plain) (hlength : body.body.length < 2 ^ 63) {k : Nat} (hk : k ≤ body.body.length)
    (hpaired : Paired leeway (control.enter (frameAt (.ofNat k))) (control.push .mark)
      left right) :
    EndAlike leeway (Alike leeway) (Rested leeway control (frameAt (.ofNat body.body.length)))
      (Machine.Cycles host level (body.body.length - k) left)
      (Machine.InOrder host (control.items.length + 1) (body.body.drop k) right) := by
  induction hleft : body.body.length - k generalizing k left right with
  | zero =>
    obtain rfl : k = body.body.length := by omega
    rw [List.drop_length]
    exact .of_agree (.ok (.standing hpaired))
  | succ n ih =>
    have hlt : k < body.body.length := by omega
    have hlevel := hhanding.level_eq (.ofNat (k + 1))
    have habove : control.items.length < level := hlevel ▸ Control.length_lt_enter (Nat.le_refl _)
    have hexit := Frame.left?_enter_loop (hhanding.isLoop (.ofNat (k + 1))) (hhanding.shaped _)
      control
    -- The token is a part of both runs: it drains down to the frame, or down to the mark.
    have hcycle : EndAlike leeway (Alike leeway)
        (Landed leeway (control.enter (frameAt (.ofNat (k + 1)))) (control.push .mark))
        (Machine.Cycle host level left)
        (Machine.Drains host (control.items.length + 1) (right.schedule body.body[k])) := by
      rw [Machine.cycle_of_step (Machine.step_of_enter hpaired.left)]
      refine .then_alone (hhanding.step hpaired (Machine.elementAt_of_lt hlength hlt))
        fun next hnext => ?_
      rw [Machine.ofNat_succ] at hnext
      have hdrains := hnext.token_endAlike host hexit (hbody _ (List.getElem_mem hlt))
      rwa [hlevel] at hdrains
    rw [List.drop_eq_getElem_cons hlt, Machine.Cycles, Machine.InOrder]
    refine hcycle.then fun next other hlanded => ?_
    refine (hlanded.rested (hhanding.isLoop _) (hhanding.shaped _)).standing_endAlike hlevel habove
      fun hstanding => ?_
    exact ih hlt hstanding (by omega)

/-- A whole round of such a loop, and what comes behind it. -/
theorem Handing.drains_round {frameAt : Int64 → Frame}
    (hhanding : Handing leeway control level body frameAt) (hbody : body.Plain)
    (hlength : body.body.length < 2 ^ 63) {later : Machine → Outcome → Prop}
    (hpaired : Paired leeway (control.enter (frameAt 0)) (control.push .mark) left right)
    (hlater : ∀ left right,
      Paired leeway (control.enter (frameAt (.ofNat body.body.length))) (control.push .mark)
        left right →
      EndAlike leeway (Alike leeway) (Paired leeway control control)
        (Machine.Drains host control.items.length left) (later right)) :
    EndAlike leeway (Alike leeway) (Paired leeway control control)
      (Machine.Drains host control.items.length left)
      (Machine.Then (Machine.InOrder host (control.items.length + 1) body.body right)
        (Machine.Standing (control.items.length + 1) later)) := by
  have hlevel := hhanding.level_eq 0
  have habove : control.items.length < level := hlevel ▸ Control.length_lt_enter (Nat.le_refl _)
  have hload := Machine.load_of_control hpaired.left
  have hround := hhanding.endAlike host hbody hlength (Nat.zero_le _) hpaired
  rw [Machine.drains_cycles habove (by omega) (body.body.length - 0)]
  exact .of_round hround hlater

/-! ## Calls -/

namespace Machine

theorem lt_load_schedule (token : Token) (machine : Machine) :
    machine.execution.load < (machine.schedule token).execution.load :=
  Nat.lt_succ_self _

end Machine

end StackLang
