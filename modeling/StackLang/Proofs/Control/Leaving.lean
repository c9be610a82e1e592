import StackLang.Proofs.Control.Isolation
import StackLang.Proofs.Control.Runs

/-!
# Leaving a loop

`exit` knows no frames: it looks for the topmost mark and counts the primitives above it.
In every state that a statement comes to, the execution stack holds complete frames, so
what `exit` removes is the innermost open loop with all frames inside it, and what it
leaves are the frames outside that loop as they were.

A statement may be executed by an operator of the host in the course of another one.  Then
the frames of both lie on one stack, and the innermost loop may belong to either.
-/

namespace StackLang

/-! ## The innermost loop among frames -/

namespace Frame

variable {frames outer : List Frame}

theorem outside_eq_none_iff :
    outside frames = none ↔ ∀ frame ∈ frames, frame.isLoop = false := by
  induction frames with
  | nil => simp [outside]
  | cons frame rest ih =>
    rw [outside, List.forall_mem_cons, ← ih]
    cases frame.isLoop <;> simp

theorem outside_eq_some_iff :
    outside frames = some outer ↔ ∃ inner loop, frames = inner ++ loop :: outer ∧
      (∀ frame ∈ inner, frame.isLoop = false) ∧ loop.isLoop = true := by
  induction frames with
  | nil => simp [outside]
  | cons frame rest ih =>
    rw [outside]
    split
    case isTrue hloop =>
      constructor
      · intro hrest
        exact ⟨[], frame, by rw [Option.some.inj hrest]; rfl, by simp, hloop⟩
      · rintro ⟨inner, loop, hframes, hinner, -⟩
        cases inner with
        | nil => rw [(List.cons.inj hframes).2]
        | cons first inner =>
          obtain ⟨rfl, -⟩ := List.cons.inj hframes
          exact absurd hloop (by simp [hinner frame (by simp)])
    case isFalse hprocedure =>
      rw [ih]
      constructor
      · rintro ⟨inner, loop, rfl, hinner, hloop⟩
        exact ⟨frame :: inner, loop, rfl, by simpa [hprocedure] using hinner, hloop⟩
      · rintro ⟨inner, loop, hframes, hinner, hloop⟩
        cases inner with
        | nil =>
          obtain ⟨rfl, -⟩ := List.cons.inj hframes
          exact absurd hloop hprocedure
        | cons first inner =>
          obtain ⟨rfl, hrest⟩ := List.cons.inj hframes
          exact ⟨inner, loop, hrest, fun frame hmem => hinner frame (by simp [hmem]), hloop⟩

end Frame

/-! ## The states that a statement comes to -/

namespace Machine

/-- The states that a statement comes to when it is executed, with the load above which
the run goes on.  The states of a statement that the host executes on the way are among
them. -/
inductive InCourse (host : HostOperators) (token : Token) (start : Machine) :
    Nat → Machine → Prop where
  | begun : InCourse host token start start.execution.load (start.schedule token)
  | turn {base : Nat} {state next : Machine} (hstate : InCourse host token start base state)
    (hturn : Turn host base state next) : InCourse host token start base next
  | nested {base : Nat} {state inner : Machine} {own : Token} {resume : Outcome → Outcome}
    (hstate : InCourse host token start base state) (hload : base < state.execution.load)
    (hstep : step host state = .executing own inner resume) :
    InCourse host token start inner.execution.load (inner.schedule own)

end Machine

variable {host : HostOperators} {base : Control} {token : Token}
  {start machine state next : Machine}

/-- The machine stands on frames of the statement, or has left a loop among them or below
them. -/
def OnCourse (start : Control) (load : Nat) (machine : Machine) : Prop :=
  ∃ frames, (∀ frame ∈ frames, frame.Ordinary) ∧ load = (start.within frames).items.length ∧
    (Standing (start.within frames) machine ∨ Departed (start.within frames) machine)

theorem Leaves.of_ok (hleaves : Leaves base (.ok () machine)) :
    Standing base machine ∨ Departed base machine := by
  cases hleaves with
  | standing hstanding => exact .inl hstanding
  | departed hdeparted => exact .inr hdeparted

/-- The load of a machine is what it is about to do. -/
theorem Poised.load (hpoised : Poised base machine) :
    machine.execution.load = base.items.length :=
  Machine.load_of_control hpoised.ahead

/-- What a turn comes to: the frame on top advances, the token on top of the frames is
executed, or with nothing left the callback is scheduled. -/
inductive Goes (base : Control) (machine : Machine) :
    Option Token → List Frame → Machine → Prop where
  | advanced {frame : Frame} {rest : List Frame} {next : Machine}
    (hadvances : Advances (base.within rest) frame machine.operands.items next) :
    Goes base machine none (frame :: rest) next
  | yielded {token : Token} {frames : List Frame} {next : Machine}
    (hyields : Yields base frames machine.operands.items (.ok () next)) :
    Goes base machine (some token) frames next
  | called {next : Machine} (hpoised : Poised (base.push machine.callback) next)
    (hcallback : machine.callback.Ordinary) : Goes base machine none [] next

/-- What a token comes to that has had another one executed first. -/
theorem Effect.Yields.resumed {frames : List Frame} {operands : List Token} {own : Token}
    {inner : Machine} {resume : Outcome → Outcome} {fuel : Nat} {outcome : Outcome}
    (hyields : (Effect.executing own inner resume).Yields base frames operands)
    (hhost : host.Tame) (hframes : ∀ frame ∈ frames, frame.Ordinary)
    (hrun : Machine.run host fuel inner.execution.load (inner.schedule own) = some outcome) :
    StackLang.Yields base frames operands
      (resume (Machine.conclude inner.execution.load inner.depth outcome)) := by
  obtain ⟨htoken, hresume, hinner⟩ := hyields
  have hdepth : inner.depth = (base.within frames).depth := congrArg Control.depth hinner.ahead
  have hinside := (hinner.schedule own).standing_pending htoken
  rw [hinner.load] at hrun ⊢
  rw [hdepth]
  exact (Ended.of_run hhost (.inl hinside) hrun).conclude.resume hframes hresume _

/-- A turn that starts above frames does what is on top of them. -/
theorem Poised.goes {frames : List Frame} {pending : Option Token} (hhost : host.Tame)
    (hpoised : Poised ((base.within frames).awaiting pending) machine)
    (hpending : ∀ token ∈ pending, token.Ordinary) (hframes : ∀ frame ∈ frames, frame.Ordinary)
    (hturn : Machine.Turn host base.items.length machine next) :
    Goes base machine pending frames next := by
  cases pending with
  | some token =>
    have hyields := hpoised.step_pending hhost (hpending token rfl) hframes
    refine .yielded ?_
    cases hturn with
    | step hload hfinished =>
      rw [hfinished] at hyields
      exact hyields
    | nested hload hexecuting hrun hresumed =>
      rw [hexecuting] at hyields
      rw [← hresumed]
      exact hyields.resumed hhost hframes hrun
    -- Callbacks wait until the stack is drained, and here a token is pending.
    | callback hload =>
      have hlong := base.length_le_within frames
      have hmore : machine.execution.load = (base.within frames).items.length + 1 := hpoised.load
      omega
  | none =>
    cases frames with
    | nil =>
      have hload : machine.execution.load = base.items.length := hpoised.load
      cases hturn with
      | step hmore | nested hmore => omega
      | callback => exact .called hpoised.scheduleCallback hpoised.ordinary.callback
    | cons frame rest =>
      have hadvance : Settles base
          (fun _ => Advances (base.within rest) frame machine.operands.items)
          (Machine.advance frame.primitive machine) :=
        hpoised.laden.advance (hframes frame (by simp))
      have hstep : Machine.step host machine = _ := Machine.step_of_enter hpoised.ahead
      have hload : machine.execution.load = ((base.within rest).enter frame).items.length :=
        hpoised.load
      have hmore : base.items.length < ((base.within rest).enter frame).items.length :=
        Control.length_lt_enter (base.length_le_within rest)
      refine .advanced ?_
      cases hturn with
      | step _ hfinished =>
        rw [hstep] at hfinished
        rw [Effect.finished.inj hfinished] at hadvance
        cases hadvance with
        | ok hadvances => exact hadvances
      | nested _ hexecuting => cases hstep.symm.trans hexecuting
      | callback hdrained => omega

/-- Below its base a run comes no more above it. -/
theorem Departed.turn (hdeparted : Departed base machine)
    (hturn : Machine.Turn host base.items.length machine next) : Departed base next := by
  cases hturn with
  | step hload | nested hload => exact absurd hload hdeparted.drained
  | callback hload hcallback => exact hdeparted.scheduleCallback hcallback

/-- After a turn the run is still above its base, or below it. -/
theorem standing_or_departed_of_turn (hhost : host.Tame)
    (hmachine : Standing base machine ∨ Departed base machine)
    (hturn : Machine.Turn host base.items.length machine next) :
    Standing base next ∨ Departed base next := by
  obtain ⟨pending, frames, hpending, hframes, hpoised⟩ | hdeparted := hmachine
  · cases hpoised.goes hhost hpending hframes hturn with
    | advanced hadvances =>
      exact .inl ((hadvances.standing (hframes _ (.head _))).within fun own hmem =>
        hframes own (.tail _ hmem))
    | yielded hyields => exact (hyields.leaves hframes).of_ok
    | called hpoised hcallback => exact .inl (hpoised.standing_pending hcallback)
  · exact .inr (hdeparted.turn hturn)

theorem Machine.InCourse.onCourse {load : Nat} (hcourse : InCourse host token start load state)
    (hhost : host.Tame) (hstart : start.Ordinary) (htoken : token.Ordinary) :
    OnCourse start.control load state := by
  induction hcourse with
  | begun =>
    have hpoised : Poised start.control start := ⟨rfl, hstart⟩
    exact ⟨[], by simp, hpoised.load, .inl ((hpoised.schedule token).standing_pending htoken)⟩
  | turn hstate hturn ih =>
    obtain ⟨frames, hframes, rfl, hmachine⟩ := ih
    exact ⟨frames, hframes, rfl, standing_or_departed_of_turn hhost hmachine hturn⟩
  | nested hstate hload hstep ih =>
    obtain ⟨frames, hframes, rfl, hmachine⟩ := ih
    have hleaves := (hmachine.resolve_right fun hdeparted => hdeparted.drained hload).step hhost
      hload
    rw [hstep] at hleaves
    obtain ⟨hown, hresume, inner, hinner, hpoised⟩ := hleaves
    rw [← Control.within_append] at hpoised
    refine ⟨inner ++ frames, fun frame hmem => ?_, hpoised.load,
      .inl ((hpoised.schedule _).standing_pending hown)⟩
    exact (List.mem_append.1 hmem).elim (hinner frame) (hframes frame)

namespace Machine

theorem step_exit_eq_ok {outer : Control} (hcalls : state.Calls .exit) (host : HostOperators)
    (hleft : state.unscheduled.control.left? = some outer) :
    ∃ execution, execution.items = outer.items ∧
      step host state = .finished (.ok () { state with execution, depth := outer.depth }) := by
  obtain hstep | ⟨name, id, hstep⟩ := hcalls.step_eq host
  · obtain ⟨execution, hitems, hexit⟩ := exitLoop_eq_ok hleft
    exact ⟨execution, hitems, hstep.trans (congrArg Effect.finished hexit)⟩
  · have hheld : (state.unscheduled.holding (.table name id)).control.left? = some outer := hleft
    obtain ⟨execution, hitems, hexit⟩ := exitLoop_eq_ok hheld
    exact ⟨execution, hitems, hstep.trans
      (congrArg (fun outcome => Effect.finished (mapOutcome releasing outcome)) hexit)⟩

theorem step_exit_eq_error (hcalls : state.Calls .exit) (host : HostOperators)
    (hnone : state.unscheduled.control.left? = none) :
    step host state = .finished (.error (.error .invalidExit) state.unscheduled) := by
  obtain hstep | ⟨name, id, hstep⟩ := hcalls.step_eq host
  · exact hstep.trans (congrArg Effect.finished (exitLoop_eq_error hnone))
  · have hheld : (state.unscheduled.holding (.table name id)).control.left? = none := hnone
    exact hstep.trans (congrArg (fun outcome => Effect.finished (mapOutcome releasing outcome))
      (exitLoop_eq_error hheld))

end Machine

/-- What calls an operator is pending above the frames that are open. -/
theorem Standing.unscheduled_of_calls {operator : Operator} (hstanding : Standing base state)
    (hload : base.items.length < state.execution.load)
    (hcalls : state.Calls operator) :
    ∃ frames, (∀ frame ∈ frames, frame.Ordinary) ∧
      state.unscheduled.control = base.within frames := by
  obtain ⟨pending, frames, -, hframes, hpoised⟩ := hstanding
  refine ⟨frames, hframes, ?_⟩
  cases pending with
  | some token => exact hpoised.unscheduled.ahead
  | none =>
    cases frames with
    | nil => exact absurd hload (by rw [hpoised.load]; exact Nat.lt_irrefl _)
    | cons frame rest =>
      have hitems : state.execution.items = frame.tokens ++ (base.within rest).items :=
        congrArg Control.items hpoised.ahead
      rw [frame.tokens_eq] at hitems
      cases hcalls with
      | function hcalling | table hcalling => cases hitems.symm.trans hcalling

namespace Machine

/-- When `exit` is called in the course of a statement, the execution stack holds the
frames that the statement has open and what was there before.  The innermost loop is left
with all frames inside it; those outside it stay as they are, and so does everything else.
If no frame is that of a loop, `exit` fails and changes nothing. -/
theorem exit_leaves_innermost_loop (hhost : host.Tame) (hstart : start.Ordinary)
    (hunmarked : start.control.Unmarked) (htoken : token.Ordinary) {load : Nat}
    (hcourse : InCourse host token start load state) (hload : load < state.execution.load)
    (hcalls : state.Calls .exit) :
    ∃ frames, (∀ frame ∈ frames, frame.Shaped) ∧
      state.execution.items.tail = frames.flatMap Frame.tokens ++ start.execution.items ∧
      state.depth = start.depth + frames.length ∧
      ((∃ inner loop outer execution, frames = inner ++ loop :: outer ∧
          (∀ frame ∈ inner, frame.isLoop = false) ∧ loop.isLoop = true ∧
          execution.items = outer.flatMap Frame.tokens ++ start.execution.items ∧
          step host state = .finished (.ok ()
            { state with execution, depth := state.depth - (inner.length + 1) })) ∨
        (∀ frame ∈ frames, frame.isLoop = false) ∧
          step host state = .finished (.error (.error .invalidExit) state.unscheduled)) := by
  obtain ⟨outside, houtside, rfl, hmachine⟩ := hcourse.onCourse hhost hstart htoken
  have hstanding := hmachine.resolve_right fun hdeparted => hdeparted.drained hload
  obtain ⟨inside, hinside, hcontrol⟩ := hstanding.unscheduled_of_calls hload hcalls
  -- The statement in whose course this is may have been executed by an operator above frames
  -- of its own: all of them together are one stack of frames.
  rw [← Control.within_append] at hcontrol
  have hshaped : ∀ frame ∈ inside ++ outside, frame.Shaped := fun frame hmem =>
    ((List.mem_append.1 hmem).elim (hinside frame) (houtside frame)).shaped
  generalize inside ++ outside = frames at hcontrol hshaped
  have hitems : state.unscheduled.execution.items = (start.control.within frames).items :=
    congrArg Control.items hcontrol
  have hdepth : state.depth = (start.control.within frames).depth :=
    congrArg Control.depth hcontrol
  rw [Control.items_within] at hitems
  rw [Control.depth_within] at hdepth
  refine ⟨frames, hshaped, List.drop_one.symm.trans hitems, hdepth, ?_⟩
  have hleft : state.unscheduled.control.left? =
      (Frame.outside frames).map fun outer => start.control.within outer := by
    rw [hcontrol, Control.left?_within hshaped, Control.left?_eq_none_iff.2 hunmarked,
      Option.or_none]
  cases hinnermost : Frame.outside frames with
  | none =>
    rw [hinnermost] at hleft
    exact .inr ⟨Frame.outside_eq_none_iff.1 hinnermost, step_exit_eq_error hcalls host hleft⟩
  | some outer =>
    rw [hinnermost] at hleft
    obtain ⟨inner, loop, rfl, hinner, hloop⟩ := Frame.outside_eq_some_iff.1 hinnermost
    obtain ⟨execution, hbelow, hstep⟩ := step_exit_eq_ok hcalls host hleft
    have hclosed : (start.control.within outer).depth = state.depth - (inner.length + 1) := by
      rw [Control.depth_within, hdepth, List.length_append, List.length_cons]
      omega
    rw [Control.items_within] at hbelow
    rw [hclosed] at hstep
    exact .inl ⟨inner, loop, outer, execution, rfl, hinner, hloop, hbelow, hstep⟩

/-- A machine with an endless loop on its operand stack, the body of which is left at once
from within a procedure. -/
def leavingLoop : Machine where
  operands := TokenStack.empty.push
    (.procedure ⟨⟨0⟩, [.procedure ⟨⟨1⟩, [.function "exit" .exit, .integer 1]⟩]⟩)
  store := { dictionaries := #[.empty, .empty] }
  scopes := ⟨⟨0⟩, ⟨1⟩, []⟩

/-- Leaving a loop from a procedure in it closes both frames. -/
theorem exit_leaves_innermost_loop_procedure :
    ∃ state frames, InCourse HostOperator.operators (.function "loop" .loop) leavingLoop 0 state ∧
      state.execution.items.tail = frames.flatMap Frame.tokens ∧ frames.length = 2 ∧
      ∃ inner loop outer execution, frames = inner ++ loop :: outer ∧ loop.isLoop = true ∧
        execution.items = outer.flatMap Frame.tokens ∧
        step HostOperator.operators state = .finished (.ok ()
          { state with execution, depth := state.depth - (inner.length + 1) }) := by
  have hbegun : InCourse HostOperator.operators (.function "loop" .loop) leavingLoop 0
      (leavingLoop.schedule (.function "loop" .loop)) := .begun
  have hopened := hbegun.turn (.step (by decide) rfl)
  have hhanded := hopened.turn (.step (by decide) rfl)
  have hentered := hhanded.turn (.step (by decide) rfl)
  have hcalling := hentered.turn (.step (by decide) rfl)
  have hunmarked : leavingLoop.control.Unmarked := by rintro token ⟨⟩
  obtain ⟨frames, -, hitems, hdepth, hleft⟩ := exit_leaves_innermost_loop
    HostOperator.operators_tame (by decide) hunmarked (by decide) hcalling (by decide)
    (.function rfl)
  obtain ⟨inner, loop, outer, execution, hframes, -, hloop, hbelow, hstep⟩ | ⟨-, hfails⟩ := hleft
  · have hempty : leavingLoop.execution.items = [] := rfl
    have htwo : 2 = 0 + frames.length := hdepth
    rw [hempty, List.append_nil] at hitems hbelow
    exact ⟨_, frames, hcalling, hitems, by omega, inner, loop, outer, execution,
      hframes, hloop, hbelow, hstep⟩
  · cases hfails

end Machine

end StackLang
