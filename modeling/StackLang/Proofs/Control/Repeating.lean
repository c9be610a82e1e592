import StackLang.Proofs.Control.Rounds
import StackLang.Proofs.Control.TailFrames

/-!
# Loops without operands of their own

`repeat` makes as many rounds as its operand says, and `loop` makes rounds without end.  A
round is over when the position of the frame has run past the body: `repeat` starts there,
`loop` starts at the first token and comes back to it after every round.
-/

namespace StackLang

variable {leeway : Leeway} {host : HostOperators} {first second control : Control}
  {left right : Machine} {rounds position : Int64} {body : Procedure}

theorem Machine.withOperands_nil (machine : Machine) : machine.withOperands [] = machine := rfl

/-! ## A number of rounds -/

/-- The operator takes its two operands and opens a frame that is between two rounds. -/
theorem Paired.runRepetition_alone (hpaired : Paired leeway first second left right)
    {upper lower : Token} {below : List Token}
    (hoperands : left.operands.items = upper :: lower :: below)
    (hupper : Kind.procedure.ofToken (fun _ => false) upper = .ok body)
    (hlower : Kind.integer.ofToken (fun _ => false) lower = .ok rounds) :
    Agree leeway (Alike leeway) (fun _ => Paired leeway
        (first.enter (.repetition rounds body (.ofNat body.body.length))) second)
      (Machine.runRepetition left) (.ok () (right.withoutOperands 2)) := by
  refine hpaired.popAs_alone (by decide) hoperands body hupper fun _ hoperands hpaired => ?_
  refine hpaired.popAs_alone (by decide) hoperands rounds hlower fun _ hoperands hpaired => ?_
  rw [Machine.withoutOperands_withoutOperands] at hpaired
  exact (hpaired.openFrame_alone _ _).mono fun _ _ _ hopened => hopened

theorem Machine.readFrame_repetition {machine : Machine}
    (hcontrol : machine.control = control.enter (.repetition rounds body position)) :
    readFrame .procedure 2 machine = .ok body machine ∧
      readFrame .integer 1 machine = .ok position machine ∧
      readFrame .integer 3 machine = .ok rounds machine :=
  ⟨readFrame_eq (by decide) (by rw [hcontrol]; rfl) rfl,
    readFrame_eq (by decide) (by rw [hcontrol]; rfl) rfl,
    readFrame_eq (by decide) (by rw [hcontrol]; rfl) rfl⟩

theorem handing_repetition (hgait : leeway.gait = .apart) (control : Control) (rounds : Int64)
    (body : Procedure) :
    Handing leeway control (control.items.length + 5) body (.repetition rounds body) where
  isLoop := fun _ => rfl
  shaped := fun position =>
    { complete := rfl
      parts_tag := by
        intro token hmem
        simp only [Frame.parts, List.mem_cons, List.not_mem_nil, or_false] at hmem
        rcases hmem with rfl | rfl | rfl <;> exact ⟨rfl, rfl⟩ }
  level_eq := fun _ => rfl
  step := fun {position element _ _ _} hpaired helement => by
    obtain ⟨hbody, hposition, -⟩ := Machine.readFrame_repetition hpaired.left
    simp only [Frame.primitive, Machine.advance, Machine.advanceRepetition, bind, EStateM.bind,
      hbody, hposition, helement]
    exact hpaired.handOut_alone (.repetition rounds body (position + 1)) hgait (fun _ => rfl)
      fun _ => rfl

/-- A step between two rounds begins the next one. -/
theorem Paired.advanceRepetition_round (hgait : leeway.gait = .apart)
    (hpaired : Paired leeway (control.enter (.repetition rounds body position)) second left right)
    (helement : Machine.elementAt body.body position = none) (hrounds : 0 < rounds) :
    Agree leeway (Alike leeway)
      (fun _ => Paired leeway (control.enter (.repetition (rounds - 1) body 0)) second)
      (Machine.advanceRepetition left) (.ok () right) := by
  obtain ⟨hbody, hposition, hleft⟩ := Machine.readFrame_repetition hpaired.left
  simp only [Machine.advanceRepetition, bind, EStateM.bind, hbody, hposition, helement, hleft,
    if_pos hrounds]
  refine (hpaired.writeFrame_alone (.repetition rounds body 0) (fun _ => rfl)
    fun _ => rfl).alone fun _ hwritten => ?_
  exact (hwritten.writeFrame_alone (.repetition (rounds - 1) body 0) (fun _ => rfl)
    fun _ => rfl).alone fun _ hwritten => hwritten.speak_alone hgait (Machine.speaks_note _)

/-- A loop without rounds left is closed. -/
theorem Paired.advanceRepetition_done
    (hpaired : Paired leeway (control.enter (.repetition rounds body position)) second left right)
    (helement : Machine.elementAt body.body position = none) (hdone : ¬ 0 < rounds) :
    Agree leeway (Alike leeway) (fun _ => Paired leeway control second)
      (Machine.advanceRepetition left) (.ok () right) := by
  obtain ⟨hbody, hposition, hleft⟩ := Machine.readFrame_repetition hpaired.left
  simp only [Machine.advanceRepetition, bind, EStateM.bind, hbody, hposition, helement, hleft,
    if_neg hdone]
  exact hpaired.closeFrame_alone rfl

/-- A loop between two rounds makes the rounds that are left. -/
theorem Paired.repetition_rounds (hgait : leeway.gait = .apart) (hbody : body.Plain)
    (hlength : body.body.length < 2 ^ 63)
    (hpaired : Paired leeway (control.enter (.repetition rounds body
      (.ofNat body.body.length))) (control.push .mark) left right) :
    EndAlike leeway (Alike leeway) (Paired leeway control control)
      (Machine.Drains host control.items.length left)
      (Machine.Loops host (control.items.length + 1) body.body
        (List.replicate rounds.toInt.toNat []) right) := by
  have helement := Machine.elementAt_length hlength
  induction hcount : rounds.toInt.toNat generalizing rounds left right with
  | zero =>
    have hdone : ¬ 0 < rounds := by
      have hzero : (0 : Int64).toInt = 0 := rfl
      rw [Int64.lt_iff_toInt_lt, hzero]
      omega
    exact hpaired.closed_endAlike (hpaired.advanceRepetition_done helement hdone)
  | succ n ih =>
    have hpositive : 0 < rounds := by
      have hzero : (0 : Int64).toInt = 0 := rfl
      rw [Int64.lt_iff_toInt_lt, hzero]
      omega
    have hfewer : (rounds - 1).toInt.toNat = n := by
      have hone : (1 : Int64).toInt = 1 := rfl
      have hupper := rounds.toInt_lt
      rw [Machine.toInt_sub_of_range] <;> omega
    rw [List.replicate_succ, Machine.loops_cons, Machine.withOperands_nil]
    refine .of_step (Machine.lt_load_of_enter hpaired.left) (Machine.step_of_enter hpaired.left)
      (hpaired.advanceRepetition_round hgait helement hpositive) fun next hnext => ?_
    exact (handing_repetition hgait control (rounds - 1) body).drains_round hbody hlength hnext
      fun left right hpaired => ih hpaired hfewer

/-! ## Rounds without end -/

/-- The operator takes its operand and opens a frame at the first token of the body. -/
theorem Paired.runLoop_alone (hpaired : Paired leeway first second left right)
    {upper : Token} {below : List Token} (hoperands : left.operands.items = upper :: below)
    (hupper : Kind.procedure.ofToken (fun _ => false) upper = .ok body)
    (hsome : body.body ≠ []) :
    Agree leeway (Alike leeway) (fun _ => Paired leeway (first.enter (.loop body 0)) second)
      (Machine.runLoop left) (.ok () (right.withoutOperands 1)) := by
  refine hpaired.popAs_alone (by decide) hoperands body hupper fun _ _ hpaired => ?_
  rw [Machine.openLoop, if_neg (by simpa using hsome)]
  exact (hpaired.openFrame_alone _ _).mono fun _ _ _ hopened => hopened

/-- A loop over nothing is not opened. -/
theorem Paired.runLoop_empty (hpaired : Paired leeway first second left right)
    {upper : Token} {below : List Token} (hoperands : left.operands.items = upper :: below)
    (hupper : Kind.procedure.ofToken (fun _ => false) upper = .ok body)
    (hnone : body.body = []) :
    Agree leeway (Alike leeway) (fun _ => Paired leeway first second)
      (Machine.runLoop left) (.ok () (right.withoutOperands 1)) := by
  refine hpaired.popAs_alone (by decide) hoperands body hupper fun _ _ hpaired => ?_
  rw [Machine.openLoop, if_pos (by simpa using hnone)]
  exact .ok hpaired

theorem Machine.readFrame_loop {machine : Machine}
    (hcontrol : machine.control = control.enter (.loop body position)) :
    readFrame .procedure 2 machine = .ok body machine ∧
      readFrame .integer 1 machine = .ok position machine :=
  ⟨readFrame_eq (by decide) (by rw [hcontrol]; rfl) rfl,
    readFrame_eq (by decide) (by rw [hcontrol]; rfl) rfl⟩

theorem handing_loop (hgait : leeway.gait = .apart) (control : Control) (body : Procedure) :
    Handing leeway control (control.items.length + 4) body (.loop body) where
  isLoop := fun _ => rfl
  shaped := fun position =>
    { complete := rfl
      parts_tag := by
        intro token hmem
        simp only [Frame.parts, List.mem_cons, List.not_mem_nil, or_false] at hmem
        rcases hmem with rfl | rfl <;> exact ⟨rfl, rfl⟩ }
  level_eq := fun _ => rfl
  step := fun {position element _ _ _} hpaired helement => by
    obtain ⟨hbody, hposition⟩ := Machine.readFrame_loop hpaired.left
    simp only [Frame.primitive, Machine.advance, Machine.advanceLoop, bind, EStateM.bind, hbody,
      hposition, helement]
    exact hpaired.handOut_alone (.loop body (position + 1)) hgait (fun _ => rfl) fun _ => rfl

/-- A step behind a round goes back to the first token. -/
theorem Paired.advanceLoop_round (hgait : leeway.gait = .apart)
    (hpaired : Paired leeway (control.enter (.loop body position)) second left right)
    (helement : Machine.elementAt body.body position = none) :
    Agree leeway (Alike leeway) (fun _ => Paired leeway (control.enter (.loop body 0)) second)
      (Machine.advanceLoop left) (.ok () right) := by
  obtain ⟨hbody, hposition⟩ := Machine.readFrame_loop hpaired.left
  simp only [Machine.advanceLoop, bind, EStateM.bind, hbody, hposition, helement]
  exact (hpaired.writeFrame_alone (.loop body 0) (fun _ => rfl) fun _ => rfl).alone
    fun _ hwritten => hwritten.speak_alone hgait (Machine.speaks_note _)

/-- A round of the loop takes a cycle for each token of the body, and one to go back. -/
theorem Paired.loop_rounds (hgait : leeway.gait = .apart) (hbody : body.Plain)
    (hlength : body.body.length < 2 ^ 63) (n : Nat)
    (hpaired : Paired leeway (control.enter (.loop body 0)) (control.push .mark) left right) :
    EndAlike leeway (Alike leeway) (Rested leeway control (.loop body 0))
      (Machine.Cycles host (control.items.length + 4) (n * (body.body.length + 1)) left)
      (Machine.Rounds host (control.items.length + 1) body.body (List.replicate n []) right) := by
  have helement := Machine.elementAt_length hlength
  induction n generalizing left right with
  | zero =>
    rw [Nat.zero_mul]
    exact .of_agree (.ok (.standing hpaired))
  | succ n ih =>
    have hcount : (n + 1) * (body.body.length + 1) =
        (body.body.length - 0) + (n * (body.body.length + 1) + 1) := by
      rw [Nat.add_mul]
      omega
    have hload : left.execution.load = control.items.length + 4 :=
      Machine.load_of_control hpaired.left
    have hround := (handing_loop hgait control body).endAlike host hbody hlength (Nat.zero_le _)
      hpaired
    rw [hcount, Machine.cycles_add (by omega), List.replicate_succ, Machine.Rounds,
      Machine.withOperands_nil]
    refine hround.then fun next other hrested => ?_
    refine hrested.standing_endAlike rfl (by omega) fun hstanding => ?_
    rw [Machine.Cycles, Machine.cycle_of_step (Machine.step_of_enter hstanding.left),
      Machine.then_assoc]
    refine .then_alone (hstanding.advanceLoop_round hgait helement) fun again hagain => ?_
    have hback : again.execution.load = control.items.length + 4 :=
      Machine.load_of_control hagain.left
    rw [Machine.drains_of_not_lt (by omega), Machine.then_ok, Machine.standing_of_le (by omega)]
    exact ih hagain

/-- Cycles that are over stay so. -/
theorem Machine.cycles_of_over {level count more : Nat} {machine : Machine} {ended : Outcome}
    (hload : level ≤ machine.execution.load) (hcycles : Cycles host level count machine ended)
    (hover : Over level ended) (hle : count ≤ more) :
    Cycles host level more machine ended := by
  obtain ⟨k, rfl⟩ := Nat.exists_eq_add_of_le hle
  rw [cycles_add hload]
  refine ⟨ended, hcycles, ?_⟩
  cases hover with
  | left hlt => simp only [standing_of_lt hlt]
  | failed => rfl

/-- Where the rounds rest and one side is over, the loop has been left on both sides. -/
theorem Agree.of_rested {own other : Outcome}
    (hagree : Agree leeway (Alike leeway) (fun _ => Rested leeway control (.loop body 0)) own other)
    (hover : Machine.Over (control.items.length + 4) own ∨
      Machine.Over (control.items.length + 1) other) :
    Agree leeway (Alike leeway) (fun _ => Paired leeway control control) own other := by
  cases hagree with
  | @ok _ next further hrested =>
    cases hrested with
    | left hleft => exact .ok hleft
    | standing hstanding =>
      have hnext : next.execution.load = control.items.length + 4 :=
        Machine.load_of_control hstanding.left
      have hfurther : further.execution.load = control.items.length + 1 :=
        Machine.load_of_control hstanding.right
      obtain hover | hover := hover
      all_goals
        obtain ⟨hlt⟩ := hover
        omega
  | error halike => exact .error halike
  | fault => exact .fault
  | faultLeft hleeway => exact .faultLeft hleeway
  | faultRight hleeway => exact .faultRight hleeway

/-- A loop that has drained made rounds, of which the last one left it or failed. -/
theorem Paired.endless_of_drains (hgait : leeway.gait = .apart) (hbody : body.Plain)
    (hlength : body.body.length < 2 ^ 63)
    (hpaired : Paired leeway (control.enter (.loop body 0)) (control.push .mark) left right)
    {outcome : Outcome} (hdrains : Machine.Drains host control.items.length left outcome) :
    DiesOf leeway.left outcome ∨ ∃ other,
      Machine.Endless host (control.items.length + 1) body.body right other ∧
        Agree leeway (Alike leeway) (fun _ => Paired leeway control control) outcome other := by
  have hload : left.execution.load = control.items.length + 4 :=
    Machine.load_of_control hpaired.left
  obtain ⟨count, ended, hcycles, hover, hafter⟩ :=
    Machine.cycled_of_drains (by omega) hload hdrains
  -- A round takes more than one cycle, so as many rounds are certainly enough.
  have hmore : count ≤ count * (body.body.length + 1) := Nat.le_mul_of_pos_right _ (by omega)
  have hrounds := Machine.cycles_of_over (by omega) hcycles hover hmore
  obtain ⟨own, rfl, hafter⟩ := hafter
  obtain hdies | ⟨other, hother, hagree⟩ :=
    (hpaired.loop_rounds hgait hbody hlength count).right own hrounds
  · cases hover with
    | left => cases hdies
    | failed =>
      obtain rfl := hafter
      exact .inl hdies
  · cases hagree.of_rested (.inl hover) with
    | ok hleft =>
      have hnext := Machine.load_of_control hleft.left
      have hfurther := Machine.load_of_control hleft.right
      simp only [Machine.drains_of_not_lt (Nat.not_lt.2 (Nat.le_of_eq hnext))] at hafter
      obtain rfl := hafter
      exact .inr ⟨_, ⟨.left (by omega), count, hother⟩, .ok hleft⟩
    | error halike =>
      obtain rfl := hafter
      exact .inr ⟨_, ⟨.failed, count, hother⟩, .error halike⟩
    | fault =>
      obtain rfl := hafter
      exact .inr ⟨_, ⟨.failed, count, hother⟩, .fault⟩
    | faultLeft hleeway =>
      obtain rfl := hafter
      exact .inl hleeway
    | faultRight hleeway =>
      exact .inr ⟨_, ⟨.failed, count, hother⟩, .faultRight hleeway⟩

/-- A loop of which some round is the last one drains. -/
theorem Paired.drains_of_endless (hgait : leeway.gait = .apart) (hbody : body.Plain)
    (hlength : body.body.length < 2 ^ 63)
    (hpaired : Paired leeway (control.enter (.loop body 0)) (control.push .mark) left right)
    {other : Outcome}
    (hendless : Machine.Endless host (control.items.length + 1) body.body right other) :
    DiesOf leeway.right other ∨ ∃ outcome,
      Machine.Drains host control.items.length left outcome ∧
        Agree leeway (Alike leeway) (fun _ => Paired leeway control control) outcome other := by
  have hload : left.execution.load = control.items.length + 4 :=
    Machine.load_of_control hpaired.left
  obtain ⟨hover, n, hrounds⟩ := hendless
  obtain hdies | ⟨own, hcycles, hagree⟩ :=
    (hpaired.loop_rounds hgait hbody hlength n).left other hrounds
  · exact .inl hdies
  · rw [Machine.drains_cycles (by omega) (Nat.le_of_eq hload.symm) (n * (body.body.length + 1))]
    cases hagree.of_rested (.inr hover) with
    | ok hleft =>
      have hnext := Machine.load_of_control hleft.left
      refine .inr ⟨_, ⟨_, hcycles, ?_⟩, .ok hleft⟩
      simp only [Machine.drains_of_not_lt (Nat.not_lt.2 (Nat.le_of_eq hnext))]
    | error halike => exact .inr ⟨_, ⟨_, hcycles, rfl⟩, .error halike⟩
    | fault => exact .inr ⟨_, ⟨_, hcycles, rfl⟩, .fault⟩
    | faultLeft hleeway => exact .inr ⟨_, ⟨_, hcycles, rfl⟩, .faultLeft hleeway⟩
    | faultRight hleeway => exact .inl hleeway

/-- The loop ends exactly if one of its rounds leaves it or fails. -/
theorem Paired.loop_endless (hgait : leeway.gait = .apart) (hbody : body.Plain)
    (hlength : body.body.length < 2 ^ 63)
    (hpaired : Paired leeway (control.enter (.loop body 0)) (control.push .mark) left right) :
    EndAlike leeway (Alike leeway) (Paired leeway control control)
      (Machine.Drains host control.items.length left)
      (Machine.Endless host (control.items.length + 1) body.body right) where
  right := fun _ hdrains => hpaired.endless_of_drains hgait hbody hlength hdrains
  left := fun _ hendless => hpaired.drains_of_endless hgait hbody hlength hendless

namespace Machine

/-- Loops make their rounds.  Whatever the machine was about to do, running `repeat` until it
has drained is like running the body as many times as its number says, and not at all if that
is negative; running `loop` over nothing does nothing; and running `loop` over a body is like
running the body again and again: it ends exactly if some round leaves the loop by `exit` or
fails, and then in the same way, and for every number of rounds it agrees with so many runs of
the body.  Both sides have the same operands, dictionaries and scopes then, and where the loop
is over, the execution stack and the open frames are as they were before.  Only a machine
whose pools cannot grow for ever, or one in step mode, may die on one side alone. -/
theorem loops_rounds {machine : Machine} (hplain : machine.Plain) (host : HostOperators)
    (name : Name) {body : Procedure} {upper : Token} {below : List Token}
    (hoperands : machine.operands.items = upper :: below)
    (hupper : Kind.procedure.ofToken (fun _ => false) upper = .ok body)
    (hlength : body.body.length < 2 ^ 63) :
    (∀ (count : Int64) (lower : Token) (rest : List Token), below = lower :: rest →
        Kind.integer.ofToken (fun _ => false) lower = .ok count →
      machine.SameCourse
        (Drains host machine.execution.load (machine.schedule (.function name .repetition)))
        (Loops host (machine.execution.load + 1) body.body
          (List.replicate count.toInt.toNat []) ((machine.withoutOperands 2).schedule .mark))) ∧
    (body.body = [] →
      machine.SameCourse
        (Drains host machine.execution.load (machine.schedule (.function name .loop)))
        (· = .ok () (machine.withoutOperands 1))) ∧
    (body.body ≠ [] →
      machine.SameCourse
        (Drains host machine.execution.load (machine.schedule (.function name .loop)))
        (Endless host (machine.execution.load + 1) body.body
          ((machine.withoutOperands 1).schedule .mark)) ∧
      ∀ n, EndAlike machine.perilous (Alike machine.perilous)
        (Rested machine.perilous machine.control (.loop body 0))
        (Then (fun ended => step host (machine.schedule (.function name .loop)) = .finished ended)
          (Cycles host (machine.execution.load + 4) (n * (body.body.length + 1))))
        (Rounds host (machine.execution.load + 1) body.body (List.replicate n [])
          ((machine.withoutOperands 1).schedule .mark))) := by
  have hbody : body.Plain :=
    Procedure.every_of_ofToken hupper (hplain.operands upper (by simp [hoperands]))
  have hload : machine.execution.load = machine.control.items.length := machine.execution.load_eq
  have hpaired := fun token => hplain.paired_call token
  refine ⟨fun count lower rest hbelow hlower => ?_, fun hnone => ?_, fun hsome => ⟨?_, fun n => ?_⟩⟩
  · subst hbelow
    refine .of_step (lt_load_schedule _ _) rfl
      ((hpaired _).runRepetition_alone hoperands hupper hlower) fun next hopened => ?_
    rw [hload]
    exact Paired.repetition_rounds rfl hbody hlength hopened.schedule_right
  · refine .of_step (lt_load_schedule _ _) rfl ((hpaired _).runLoop_empty hoperands hupper hnone)
      fun next hnext => ?_
    have hdrained := load_of_control hnext.left
    exact .of_drained (by omega) hnext
  · refine .of_step (lt_load_schedule _ _) rfl ((hpaired _).runLoop_alone hoperands hupper hsome)
      fun next hopened => ?_
    rw [hload]
    exact Paired.loop_endless rfl hbody hlength hopened.schedule_right
  · have hstep : step host (machine.schedule (.function name .loop)) =
        .finished (runLoop (machine.schedule (.function name .loop)).unscheduled) := rfl
    rw [finished_of_step hstep, hload]
    refine .then_alone ((hpaired _).runLoop_alone hoperands hupper hsome) fun next hopened => ?_
    exact Paired.loop_rounds rfl hbody hlength n hopened.schedule_right

/-- In a new machine a body that counts up an operand is repeated three times by `repeat` and
for ever by `loop`; over nothing `loop` does nothing. -/
theorem loops_rounds_successor :
    ∃ fresh, create {} Registration.standard = .ok fresh ∧
      let body : Procedure := ⟨⟨0⟩, [.integer 1, .name "add"]⟩
      let machine : Machine := { fresh with
        operands := fresh.operands.pushAll [.integer 0, .integer 3, .procedure body] }
      let bare : Machine := { fresh with
        operands := fresh.operands.pushAll [.procedure ⟨⟨0⟩, []⟩] }
      machine.SameCourse
        (Drains .inert machine.execution.load (machine.schedule (.function "repeat" .repetition)))
        (Loops .inert (machine.execution.load + 1) body.body [[], [], []]
          ((machine.withoutOperands 2).schedule .mark)) ∧
      bare.SameCourse
        (Drains .inert bare.execution.load (bare.schedule (.function "loop" .loop)))
        (· = .ok () (bare.withoutOperands 1)) ∧
      machine.SameCourse
        (Drains .inert machine.execution.load (machine.schedule (.function "loop" .loop)))
        (Endless .inert (machine.execution.load + 1) body.body
          ((machine.withoutOperands 1).schedule .mark)) ∧
      EndAlike machine.perilous (Alike machine.perilous)
        (Rested machine.perilous machine.control (.loop body 0))
        (Then (fun ended =>
            step .inert (machine.schedule (.function "loop" .loop)) = .finished ended)
          (Cycles .inert (machine.execution.load + 4) (5 * (body.body.length + 1))))
        (Rounds .inert (machine.execution.load + 1) body.body (List.replicate 5 [])
          ((machine.withoutOperands 1).schedule .mark)) := by
  obtain ⟨fresh, hnew⟩ := exists_new
  refine ⟨fresh, hnew.created, ?_⟩
  intro body machine bare
  have hoperands : machine.operands.items = [.procedure body, .integer 3, .integer 0] := by
    simp [machine, TokenStack.pushAll, hnew.operands]
  have hplain : machine.Plain :=
    { hnew.blank.plain with operands := by rw [hoperands]; decide }
  have hsingle : bare.operands.items = [.procedure ⟨⟨0⟩, []⟩] := by
    simp [bare, TokenStack.pushAll, hnew.operands]
  have hbare : bare.Plain := { hnew.blank.plain with operands := by rw [hsingle]; decide }
  obtain ⟨hrepeats, -, -⟩ := loops_rounds hplain .inert "repeat" hoperands rfl (by decide)
  obtain ⟨-, hnothing, -⟩ := loops_rounds hbare .inert "loop" hsingle rfl (by decide)
  obtain ⟨-, -, hloops⟩ := loops_rounds hplain .inert "loop" hoperands rfl (by decide)
  obtain ⟨hendless, hrounds⟩ := hloops (by decide)
  exact ⟨hrepeats 3 (.integer 3) [.integer 0] rfl rfl, hnothing rfl, hendless, hrounds 5⟩

/-- Where the pools cannot grow, there may be no room for the frame of a loop, even if the body
needs none. -/
theorem repetition_unlike_rounds :
    ∃ machine, Crowded ((List.range 31).map (fun n => .integer (.ofNat n)) ++
        [.integer 1, .procedure []]) machine ∧ machine.Blank ∧
      ¬ EndTogether SameEnd (Drains .inert 0 (machine.schedule (.function "repeat" .repetition)))
        (Loops .inert 1 [] (List.replicate 1 []) ((machine.withoutOperands 2).schedule .mark)) := by
  obtain ⟨machine, hcrowded, hblank, hfaults⟩ := exists_crowded
    ((List.range 31).map (fun n => .integer (.ofNat n)) ++ [.integer 1, .procedure []])
    (fun machine => (step .inert (machine.schedule (.function "repeat" .repetition))).finished?.any
      fun ended => decide (Faulted ended))
    (by decide +kernel)
  refine ⟨machine, hcrowded, hblank, DiesAlone.not_endTogether ⟨?_, ?_⟩⟩
  · exact exists_drains_faulted (Nat.succ_pos _) hfaults
  · exact ⟨_, loops_without_body (Nat.succ_pos _) (List.replicate 1 []), id⟩

end Machine

end StackLang
