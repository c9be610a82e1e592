import StackLang.Proofs.Control.Rounds
import StackLang.Proofs.Control.TailFrames

/-!
# Counting loops

A counting loop is its unrolling: for each number that it counts, the number is put on
the operand stack and the tokens of the body run in order.  The numbers are those of an
arithmetic progression up to the limit, whatever the limits of a machine word are: the
counter is moved before the body runs, and where it cannot move, the increment becomes
zero, which counts nothing.

A run of the loop is followed along its frame.  Each token that the frame hands out is a
part of the run that drains down to the frame again, and the same token drains alike
above a bare mark.
-/

namespace StackLang

/-! ## The numbers that are counted -/

/-- Whether a loop that has counted as far as a number counts that number. -/
def Counting (increment limit value : Int) : Prop :=
  (0 < increment ∧ value ≤ limit) ∨ (increment < 0 ∧ limit ≤ value)

/-- How many numbers are counted. -/
def roundCount (start increment limit : Int) : Nat :=
  if 0 < increment then ((limit - start) / increment + 1).toNat
  else if increment < 0 then ((start - limit) / -increment + 1).toNat
  else 0

/-- The numbers from `start` in steps of `increment` that do not pass `limit`. -/
def counted (start increment limit : Int) : List Int :=
  (List.range (roundCount start increment limit)).map fun k : Nat => start + k * increment

section Counted

variable {start increment limit : Int}

theorem lt_roundCount_iff {k : Nat} :
    k < roundCount start increment limit ↔ Counting increment limit (start + k * increment) := by
  unfold roundCount Counting
  rcases lt_trichotomy increment 0 with hneg | rfl | hpos
  · have hdiv := Int.le_ediv_iff_mul_le (a := k) (b := start - limit) (Int.neg_pos_of_neg hneg)
    rw [if_neg (not_lt_of_gt hneg), if_pos hneg]
    simp only [hneg, not_lt_of_gt hneg, false_and, true_and, false_or]
    rw [mul_neg] at hdiv
    omega
  · simp
  · have hdiv := Int.le_ediv_iff_mul_le (a := k) (b := limit - start) hpos
    rw [if_pos hpos]
    simp only [hpos, not_lt_of_gt hpos, false_and, true_and, or_false]
    omega

/-- What is counted is what the progression reaches without passing the limit. -/
theorem mem_counted {value : Int} : value ∈ counted start increment limit ↔
    ∃ k : Nat, value = start + k * increment ∧ Counting increment limit value := by
  simp only [counted, List.mem_map, List.mem_range, lt_roundCount_iff]
  constructor
  · rintro ⟨k, hcounting, rfl⟩
    exact ⟨k, rfl, hcounting⟩
  · rintro ⟨k, rfl, hcounting⟩
    exact ⟨k, hcounting, rfl⟩

example : counted 3 (-2) (-2) = [3, 1, -1] := by decide

theorem counted_eq_nil (hstops : ¬ Counting increment limit start) :
    counted start increment limit = [] := by
  have hnone : roundCount start increment limit = 0 := by
    refine Nat.eq_zero_of_not_pos fun hpos => hstops ?_
    simpa using lt_roundCount_iff.1 hpos
  rw [counted, hnone]
  rfl

theorem counted_eq_cons (hgoes : Counting increment limit start) :
    counted start increment limit =
      start :: counted (start + increment) increment limit := by
  have hone : roundCount start increment limit =
      roundCount (start + increment) increment limit + 1 := by
    refine eq_of_forall_lt_iff fun k => ?_
    cases k with
    | zero => simpa using lt_roundCount_iff.2 (by simpa using hgoes)
    | succ k =>
      have hsame : start + (k + 1 : Nat) * increment = start + increment + k * increment := by
        push_cast
        ring
      rw [Nat.add_lt_add_iff_right, lt_roundCount_iff, lt_roundCount_iff, hsame]
  rw [counted, hone, List.range_succ_eq_map, List.map_cons, List.map_map, counted]
  congr 1
  · simp
  · refine List.map_congr_left fun k _ => ?_
    simp only [Function.comp]
    push_cast
    ring

/-- From one number of the machine to another only numbers of the machine are counted. -/
theorem exists_counted (start increment limit : Int64) :
    ∃ values : List Int64,
      values.map Int64.toInt = counted start.toInt increment.toInt limit.toInt := by
  refine ⟨(counted start.toInt increment.toInt limit.toInt).map Int64.ofInt, ?_⟩
  rw [List.map_map]
  refine (List.map_congr_left fun value hmem => ?_).trans (List.map_id _)
  obtain ⟨k, hvalue, hcounting⟩ := mem_counted.1 hmem
  have hsteps : 0 ≤ (k : Int) := Int.natCast_nonneg k
  have hstart := start.le_toInt
  have hstart' := start.toInt_lt
  have hlimit := limit.le_toInt
  have hlimit' := limit.toInt_lt
  refine Int64.toInt_ofInt_of_le ?_ ?_
  · obtain ⟨hpos, -⟩ | ⟨-, hle⟩ := hcounting
    · have := Int.mul_nonneg hsteps (Int.le_of_lt hpos)
      omega
    · omega
  · obtain ⟨-, hle⟩ | ⟨hneg, -⟩ := hcounting
    · omega
    · have := Int.mul_nonpos_of_nonneg_of_nonpos hsteps (Int.le_of_lt hneg)
      omega

end Counted

/-! ## Unrolled loops -/

namespace Machine

/-- Runs tokens in order above a mark that stands on `base`.  The mark goes when they are
through; once it is gone, the loop has been left, and no more of them run. -/
def Unrolls (host : HostOperators) (base : Nat) : List Token → Machine → Outcome → Prop
  | [], machine => fun ended => ended = .ok () machine.unscheduled
  | token :: rest, machine =>
    Then (Drains host (base + 1) (machine.schedule token)) fun next =>
      if base < next.execution.load then Unrolls host base rest next
      else fun ended => ended = .ok () next

end Machine

/-- The tokens of an unrolled loop: each of the values, and behind it the body. -/
def unrolled (values : List Int64) (body : Procedure) : List Token :=
  values.flatMap fun value => .integer value :: body.body

variable {leeway : Leeway} {host : HostOperators} {first second control : Control}
  {left right : Machine} {increment limit counter position : Int64} {body : Procedure}

/-! ## The steps of a counting loop -/

/-- The operator takes its four operands and opens a frame that is between two rounds. -/
theorem Paired.runCounting_alone (hpaired : Paired leeway first second left right)
    {start : Int64} {upper own other last : Token} {below : List Token}
    (hoperands : left.operands.items = upper :: own :: other :: last :: below)
    (hupper : Kind.procedure.ofToken (fun _ => false) upper = .ok body)
    (hown : Kind.integer.ofToken (fun _ => false) own = .ok limit)
    (hother : Kind.integer.ofToken (fun _ => false) other = .ok increment)
    (hlast : Kind.integer.ofToken (fun _ => false) last = .ok start) :
    Agree leeway (Alike leeway)
      (fun _ => Paired leeway (first.enter (.counting increment limit start body
        (.ofNat body.body.length))) second)
      (Machine.runCounting left) (.ok () (right.withoutOperands 4)) := by
  have hload : ¬ left.operands.load < 4 := by
    rw [left.operands.load_eq, hoperands]
    simp
  have hrequire : left.operands.require 4 = .ok () := by rw [TokenStack.require, if_neg hload]
  unfold Machine.runCounting
  simp only [bind, EStateM.bind, get, getThe, MonadStateOf.get, EStateM.get, hrequire,
    Machine.orFail, pure, EStateM.pure]
  refine hpaired.popAs_alone (by decide) hoperands body hupper fun _ hoperands hpaired => ?_
  refine hpaired.popAs_alone (by decide) hoperands limit hown fun _ hoperands hpaired => ?_
  refine hpaired.popAs_alone (by decide) hoperands increment hother fun _ hoperands hpaired => ?_
  refine hpaired.popAs_alone (by decide) hoperands start hlast fun _ hoperands hpaired => ?_
  simp only [Machine.withoutOperands_withoutOperands] at hpaired
  exact (hpaired.openFrame_alone _ _).mono fun _ _ _ hopened => hopened

theorem counting_iff :
    (0 < increment ∧ counter ≤ limit) ∨ (increment < 0 ∧ limit ≤ counter) ↔
      Counting increment.toInt limit.toInt counter.toInt := by
  simp only [Counting, Int64.lt_iff_toInt_lt, Int64.le_iff_toInt_le]
  rfl

/-- The counter of the next round counts what is left, also where it cannot move on. -/
theorem counted_of_addExactly (increment limit counter : Int64) :
    match Machine.addExactly counter increment with
    | some next => counted next.toInt increment.toInt limit.toInt =
        counted (counter.toInt + increment.toInt) increment.toInt limit.toInt
    | none => counted (counter.toInt + increment.toInt) increment.toInt limit.toInt = [] := by
  split
  · rename_i next hnext
    rw [Machine.toInt_of_addExactly hnext]
  · rename_i hnone
    unfold Machine.addExactly at hnone
    split at hnone
    · cases hnone
    · rename_i hwraps
      refine counted_eq_nil fun hcounting => hwraps ?_
      have hcounter := counter.le_toInt
      have hcounter' := counter.toInt_lt
      have hlimit := limit.le_toInt
      have hlimit' := limit.toInt_lt
      obtain ⟨hpos, hle⟩ | ⟨hneg, hle⟩ := hcounting <;>
        exact Machine.toInt_add_of_range (by omega) (by omega)

theorem Machine.readFrame_counting {machine : Machine}
    (hcontrol : machine.control =
      control.enter (.counting increment limit counter body position)) :
    readFrame .procedure 2 machine = .ok body machine ∧
      readFrame .integer 1 machine = .ok position machine ∧
      readFrame .integer 3 machine = .ok counter machine ∧
      readFrame .integer 4 machine = .ok limit machine ∧
      readFrame .integer 5 machine = .ok increment machine := by
  have hinteger : ∀ {place : Nat} {n : Int64},
      (control.enter (.counting increment limit counter body position)).items[place]? =
        some (.integer n) → readFrame .integer place machine = .ok n machine :=
    fun hitem => readFrame_eq (by decide) (hcontrol ▸ hitem) rfl
  exact ⟨readFrame_eq (by decide) (by rw [hcontrol]; rfl) rfl, hinteger rfl, hinteger rfl,
    hinteger rfl, hinteger rfl⟩

/-- A step in the middle of a round hands out the next token of the body. -/
theorem Paired.advanceCounting_element {element : Token} (hgait : leeway.gait = .apart)
    (hpaired : Paired leeway (control.enter (.counting increment limit counter body position))
      second left right)
    (helement : Machine.elementAt body.body position = some element) :
    Agree leeway (Alike leeway) (fun _ => Paired leeway
        ((control.enter (.counting increment limit counter body (position + 1))).push element)
        second)
      (Machine.advanceCounting left) (.ok () right) := by
  obtain ⟨hbody, hposition, -⟩ := Machine.readFrame_counting hpaired.left
  simp only [Machine.advanceCounting, bind, EStateM.bind, hbody, hposition, helement]
  refine (hpaired.claim_alone _).alone fun claimed hclaimed => ?_
  refine (hclaimed.speak_alone hgait (Machine.speaks_pause body.body position)).alone
    fun paused hpaused => ?_
  exact (hpaused.writeFrame_alone (.counting increment limit counter body (position + 1))
    (fun _ => rfl) fun _ => rfl).alone fun _ hwritten => .ok (hwritten.schedule_alone element)

/-- A step between two rounds puts the counter on the operand stack and moves it. -/
theorem Paired.advanceCounting_round (hgait : leeway.gait = .apart)
    (hpaired : Paired leeway (control.enter (.counting increment limit counter body position))
      second left right)
    (helement : Machine.elementAt body.body position = none)
    (hcounting : Counting increment.toInt limit.toInt counter.toInt) :
    Agree leeway (Alike leeway) (fun _ left right => ∃ moved next : Int64,
        counted next.toInt moved.toInt limit.toInt =
          counted (counter.toInt + increment.toInt) increment.toInt limit.toInt ∧
        Paired leeway (control.enter (.counting moved limit next body 0)) second left right)
      (Machine.advanceCounting left) (.ok () (right.push (.integer counter))) := by
  obtain ⟨hbody, hposition, hcounter, hlimit, hincrement⟩ :=
    Machine.readFrame_counting hpaired.left
  have hleft := counted_of_addExactly increment limit counter
  simp only [Machine.advanceCounting, bind, EStateM.bind, hbody, hposition, helement, hcounter,
    hlimit, hincrement, if_pos (counting_iff.2 hcounting)]
  refine (hpaired.writeFrame_alone (.counting increment limit counter body 0)
    (fun _ => rfl) fun _ => rfl).alone fun _ hwritten => ?_
  refine (hwritten.pushNew_alone (Token.plain_integer counter) _).alone fun _ hpushed => ?_
  cases hnext : Machine.addExactly counter increment with
  | some next =>
    rw [hnext] at hleft
    refine (hpushed.writeFrame_alone (.counting increment limit next body 0) (fun _ => rfl)
      fun _ => rfl).alone fun _ hmoved => ?_
    exact (hmoved.speak_alone hgait (Machine.speaks_note _)).mono fun _ _ _ hnoted =>
      ⟨increment, next, hleft, hnoted⟩
  | none =>
    rw [hnext] at hleft
    refine (hpushed.writeFrame_alone (.counting 0 limit counter body 0) (fun _ => rfl)
      fun _ => rfl).alone fun _ hmoved => ?_
    refine (hmoved.speak_alone hgait (Machine.speaks_note _)).mono fun _ _ _ hnoted =>
      ⟨0, counter, ?_, hnoted⟩
    rw [hleft]
    exact counted_eq_nil (by simp [Counting])

/-- A loop that does not count any more is closed. -/
theorem Paired.advanceCounting_done
    (hpaired : Paired leeway (control.enter (.counting increment limit counter body position))
      second left right)
    (helement : Machine.elementAt body.body position = none)
    (hdone : ¬ Counting increment.toInt limit.toInt counter.toInt) :
    Agree leeway (Alike leeway) (fun _ => Paired leeway control second)
      (Machine.advanceCounting left) (.ok () right) := by
  obtain ⟨hbody, hposition, hcounter, hlimit, hincrement⟩ :=
    Machine.readFrame_counting hpaired.left
  simp only [Machine.advanceCounting, bind, EStateM.bind, hbody, hposition, helement, hcounter,
    hlimit, hincrement, if_neg fun hgoes => hdone (counting_iff.1 hgoes)]
  exact hpaired.closeFrame_alone rfl

/-! ## Runs of a counting loop -/

/-- A number in an unrolled loop is put on the operand stack at once. -/
theorem Machine.unrolls_integer {base : Nat} {machine : Machine}
    (hload : machine.execution.load = base + 1) (n : Int64) (rest : List Token) :
    Unrolls host base (.integer n :: rest) machine =
      Unrolls host base rest ((machine.schedule (.integer n)).unscheduled.push (.integer n)) := by
  have hscheduled : base + 1 < (machine.schedule (.integer n)).execution.load := by
    simp [schedule, hload]
  have hpushed :
      ((machine.schedule (.integer n)).unscheduled.push (.integer n)).execution.load =
        base + 1 := by
    simp [schedule, unscheduled, push, hload]
  have hstep : step host (machine.schedule (.integer n)) =
      .finished (.ok () ((machine.schedule (.integer n)).unscheduled.push (.integer n))) := rfl
  rw [Unrolls, drains_of_step hscheduled hstep, then_ok, drains_of_not_lt (by omega), then_ok,
    if_pos (by omega)]

/-- The tokens of the body that are left in a round drain alike, and then comes what is
behind the round. -/
theorem Paired.counting_body (hgait : leeway.gait = .apart) (hbody : body.Plain)
    (hlength : body.body.length < 2 ^ 63)
    {later : List Token} {k : Nat} (hk : k ≤ body.body.length)
    (hpaired : Paired leeway (control.enter (.counting increment limit counter body (.ofNat k)))
      (control.push .mark) left right)
    (hlater : ∀ left right,
      Paired leeway (control.enter (.counting increment limit counter body
        (.ofNat body.body.length))) (control.push .mark) left right →
      EndAlike leeway (Alike leeway) (Paired leeway control control)
        (Machine.Drains host control.items.length left)
        (Machine.Unrolls host control.items.length later right)) :
    EndAlike leeway (Alike leeway) (Paired leeway control control)
      (Machine.Drains host control.items.length left)
      (Machine.Unrolls host control.items.length (body.body.drop k ++ later) right) := by
  induction hleft : body.body.length - k generalizing k left right with
  | zero =>
    obtain rfl : k = body.body.length := by omega
    rw [List.drop_length, List.nil_append]
    exact hlater left right hpaired
  | succ n ih =>
    have hlt : k < body.body.length := by omega
    have helement := Machine.elementAt_of_lt hlength hlt
    rw [List.drop_eq_getElem_cons hlt, List.cons_append]
    refine .of_step (Machine.lt_load_of_enter hpaired.left) (Machine.step_of_enter hpaired.left)
      (hpaired.advanceCounting_element hgait helement) fun next hnext => ?_
    have hsound : (Frame.counting increment limit counter body (.ofNat k + 1)).Sound :=
      ⟨hbody, (Machine.elementAt_eq_some helement).2⟩
    rw [Machine.ofNat_succ] at hnext hsound
    have hexit := Frame.left?_enter_loop rfl hsound.shaped control
    -- The token is a part of both runs: it drains down to the frame, or down to the mark.
    have hbelow : control.items.length ≤ (control.enter (.counting increment limit counter body
        (.ofNat (k + 1)))).items.length :=
      Nat.le_of_lt (Control.length_lt_enter (Nat.le_refl _))
    rw [Machine.drains_above hbelow]
    have hdrains := Paired.token_endAlike host hexit (hbody _ (List.getElem_mem hlt)) hnext
    refine hdrains.then fun next other hlanded => ?_
    cases hlanded.rested rfl hsound.shaped with
    | standing hback =>
      have hload : other.execution.load = control.items.length + 1 :=
        Machine.load_of_control hback.right
      rw [if_pos (by omega)]
      exact ih hlt hback (by omega)
    | left hleft =>
      have hload := Machine.load_of_control hleft.left
      have hother := Machine.load_of_control hleft.right
      rw [if_neg (by omega)]
      exact .of_drained (by omega) hleft

/-- A loop between two rounds ends like the rest of its unrolling. -/
theorem Paired.counting_rounds (hgait : leeway.gait = .apart) (hbody : body.Plain)
    (hlength : body.body.length < 2 ^ 63)
    {values : List Int64}
    (hvalues : values.map Int64.toInt = counted counter.toInt increment.toInt limit.toInt)
    (hpaired : Paired leeway (control.enter (.counting increment limit counter body
      (.ofNat body.body.length))) (control.push .mark) left right) :
    EndAlike leeway (Alike leeway) (Paired leeway control control)
      (Machine.Drains host control.items.length left)
      (Machine.Unrolls host control.items.length (unrolled values body) right) := by
  have helement : Machine.elementAt body.body (.ofNat body.body.length) = none := by
    rw [Machine.elementAt_ofNat _ hlength, List.getElem?_eq_none (Nat.le_refl _)]
  induction values generalizing increment counter left right with
  | nil =>
    have hdone : ¬ Counting increment.toInt limit.toInt counter.toInt := by
      intro hcounting
      rw [counted_eq_cons hcounting] at hvalues
      cases hvalues
    refine .of_step (Machine.lt_load_of_enter hpaired.left) (Machine.step_of_enter hpaired.left)
      (hpaired.advanceCounting_done helement hdone) fun next hnext => ?_
    have hload := Machine.load_of_control hnext.left
    exact .of_drained (by omega) hnext.unschedule_right
  | cons value rest ih =>
    have hcounting : Counting increment.toInt limit.toInt counter.toInt := by
      by_contra hdone
      rw [counted_eq_nil hdone] at hvalues
      cases hvalues
    rw [counted_eq_cons hcounting, List.map_cons] at hvalues
    obtain ⟨hvalue, hrest⟩ := List.cons.inj hvalues
    obtain rfl := Int64.toInt_inj.1 hvalue
    have hload : right.execution.load = control.items.length + 1 :=
      Machine.load_of_control hpaired.right
    have hunrolled : unrolled (value :: rest) body =
        .integer value :: (body.body ++ unrolled rest body) :=
      List.flatMap_cons
    have hwaiting : Paired leeway (control.enter (.counting increment limit value body
        (.ofNat body.body.length))) (control.push .mark) left
        (right.schedule (.integer value)).unscheduled :=
      hpaired.schedule_right.unschedule_right
    -- The number that is a token of the unrolling is pushed by the round itself.
    rw [hunrolled, Machine.unrolls_integer hload]
    refine .of_step (Machine.lt_load_of_enter hpaired.left) (Machine.step_of_enter hpaired.left)
      (hwaiting.advanceCounting_round hgait helement hcounting)
      fun next ⟨moved, further, hcounted, hnext⟩ => ?_
    exact Paired.counting_body hgait hbody hlength (Nat.zero_le _) hnext fun left right hpaired =>
      ih (hrest.trans hcounted.symm) hpaired

namespace Machine

/-- A counting loop is its unrolling.  Whatever the machine was about to do, running the
operator until it has drained is like putting each of the counted numbers on the operand
stack and running the body behind it: one ends exactly if the other one does, and then
with the same result, the same operands, dictionaries and scopes, and with the execution
stack and the open frames as they were before, also if `exit` in the body has ended the
loop.  Only a machine whose pools cannot grow for ever, or one in step mode, may die in one
of them alone. -/
theorem runCounting_unrolled {machine : Machine} (hplain : machine.Plain) (host : HostOperators)
    (name : Name) {start increment limit : Int64} {body : Procedure}
    {upper second third fourth : Token} {below : List Token}
    (hoperands : machine.operands.items = upper :: second :: third :: fourth :: below)
    (hupper : Kind.procedure.ofToken (fun _ => false) upper = .ok body)
    (hsecond : Kind.integer.ofToken (fun _ => false) second = .ok limit)
    (hthird : Kind.integer.ofToken (fun _ => false) third = .ok increment)
    (hfourth : Kind.integer.ofToken (fun _ => false) fourth = .ok start)
    (hlength : body.body.length < 2 ^ 63) :
    ∃ values : List Int64,
      values.map Int64.toInt = counted start.toInt increment.toInt limit.toInt ∧
      machine.SameCourse
        (Drains host machine.execution.load (machine.schedule (.function name .counting)))
        (Unrolls host machine.execution.load (unrolled values body)
          ((machine.withoutOperands 4).schedule .mark)) := by
  obtain ⟨values, hvalues⟩ := exists_counted start increment limit
  refine ⟨values, hvalues, ?_⟩
  have hprocedure : upper.Plain := hplain.operands upper (by simp [hoperands])
  have hbody : body.Plain := Procedure.every_of_ofToken hupper hprocedure
  have hload : machine.execution.load = machine.control.items.length := machine.execution.load_eq
  have hpaired := hplain.paired_call (.function name .counting)
  have hstanding : machine.execution.load <
      (machine.schedule (.function name .counting)).execution.load := by
    simp [schedule]
  refine .of_step hstanding rfl
    (hpaired.runCounting_alone hoperands hupper hsecond hthird hfourth) fun next hopened => ?_
  rw [hload]
  exact Paired.counting_rounds rfl hbody hlength hvalues hopened.schedule_right

/-- In a new machine two numbers are counted up to the largest one of the machine, behind
which the counter cannot move on. -/
theorem runCounting_unrolled_last_number :
    ∃ fresh, create {} Registration.standard = .ok fresh ∧
      let body : Procedure := ⟨⟨0⟩, [.name "dup", .name "pop"]⟩
      let machine : Machine := { fresh with
        operands := fresh.operands.pushAll [.integer 9223372036854775806, .integer 1,
          .integer 9223372036854775807, .procedure body] }
      ∃ values : List Int64,
        values.map Int64.toInt = [9223372036854775806, 9223372036854775807] ∧
        machine.SameCourse
          (Drains .inert machine.execution.load (machine.schedule (.function "for" .counting)))
          (Unrolls .inert machine.execution.load (unrolled values body)
            ((machine.withoutOperands 4).schedule .mark)) := by
  obtain ⟨fresh, hnew⟩ := exists_new
  refine ⟨fresh, hnew.created, ?_⟩
  intro body machine
  have hoperands : machine.operands.items = [.procedure body, .integer 9223372036854775807,
      .integer 1, .integer 9223372036854775806] := by
    simp [machine, TokenStack.pushAll, hnew.operands]
  have hplain : machine.Plain :=
    { hnew.blank.plain with operands := by rw [hoperands]; decide }
  exact runCounting_unrolled hplain .inert "for" hoperands rfl rfl rfl rfl (by decide)

/-- Where the pools cannot grow, there is room for the number that a loop counts, but not for
the frame of the loop. -/
theorem counting_unlike_unrolling :
    ∃ machine, Crowded ((List.range 29).map (fun n => .integer (.ofNat n)) ++
        [.integer 1, .integer 1, .integer 1, .procedure []]) machine ∧ machine.Blank ∧
      counted 1 1 1 = [1] ∧
      ¬ EndTogether SameEnd (Drains .inert 0 (machine.schedule (.function "for" .counting)))
        (Unrolls .inert 0 (unrolled [1] ⟨⟨0⟩, []⟩)
          ((machine.withoutOperands 4).schedule .mark)) := by
  obtain ⟨machine, hcrowded, hblank, hfaults⟩ := exists_crowded
    ((List.range 29).map (fun n => .integer (.ofNat n)) ++
      [.integer 1, .integer 1, .integer 1, .procedure []])
    (fun machine => (step .inert (machine.schedule (.function "for" .counting))).finished?.any
      fun ended => decide (Faulted ended))
    (by decide +kernel)
  refine ⟨machine, hcrowded, hblank, by decide +kernel, DiesAlone.not_endTogether ⟨?_, ?_⟩⟩
  · exact exists_drains_faulted (Nat.succ_pos _) hfaults
  · have hitems : (machine.withoutOperands 4).execution.items = [] := hblank.execution
    have hload : ((machine.withoutOperands 4).schedule .mark).execution.load = 0 + 1 := by
      simp [schedule, (machine.withoutOperands 4).execution.load_eq, hitems]
    let counted := (((machine.withoutOperands 4).schedule .mark).schedule (.integer 1)).unscheduled
    have hends : Unrolls .inert 0 (unrolled [1] ⟨⟨0⟩, []⟩)
        ((machine.withoutOperands 4).schedule .mark)
        (.ok () (counted.push (.integer 1)).unscheduled) := by
      rw [unrolled, List.flatMap_singleton, unrolls_integer hload]
      rfl
    exact ⟨_, hends, id⟩

end Machine

end StackLang
