import StackLang.Proofs.Control.Frames

/-!
# Steps of machines that agree

Two machines that run the same statement over different execution stacks have the
same frames open, except that one of them may still hold spent procedure frames
that the other has dropped.  A step keeps them so: either both do the same, or the
machine with a spent frame on top drops it while the other one waits.
-/

namespace StackLang

variable {leeway : Leeway} {failed : Machine → Machine → Prop}

/-- The right frames are the left ones with spent frames in between, unless the machines
are level. -/
inductive Thinned (leeway : Leeway) : List Frame → List Frame → Prop where
  | nil : Thinned leeway [] []
  | keep (frame : Frame) {inner outer : List Frame} (hrest : Thinned leeway inner outer) :
    Thinned leeway (frame :: inner) (frame :: outer)
  | drop {frame : Frame} {inner outer : List Frame} (hgait : leeway.gait ≠ .level)
    (hspent : frame.Spent) (hrest : Thinned leeway inner outer) :
    Thinned leeway inner (frame :: outer)

/-- A list of frames is itself, thinned by nothing. -/
theorem Thinned.refl (frames : List Frame) : Thinned leeway frames frames := by
  induction frames with
  | nil => exact .nil
  | cons frame rest ih => exact .keep frame ih

theorem Thinned.eq_of_level {inner outer : List Frame} (hthinned : Thinned leeway inner outer)
    (hlevel : leeway.gait = .level) : inner = outer := by
  induction hthinned with
  | nil => rfl
  | keep frame hrest ih => rw [ih]
  | drop hgait => exact absurd hlevel hgait

/-- Leaving a loop leaves the same loop on both sides. -/
theorem Thinned.outside {inner outer : List Frame} (hthinned : Thinned leeway inner outer) :
    Frame.outside inner = none ∧ Frame.outside outer = none ∨
      ∃ left right, Frame.outside inner = some left ∧ Frame.outside outer = some right ∧
        Thinned leeway left right ∧ right ⊆ outer := by
  induction hthinned with
  | nil => exact .inl ⟨rfl, rfl⟩
  | keep frame hrest ih =>
    rename_i inner outer
    by_cases hloop : frame.isLoop = true
    · exact .inr ⟨inner, outer, by simp [Frame.outside, hloop], by simp [Frame.outside, hloop],
        hrest, by simp⟩
    · obtain ⟨hinner, houter⟩ | ⟨left, right, hinner, houter, hleft, hsubset⟩ := ih
      · exact .inl ⟨by simp [Frame.outside, hloop, hinner], by simp [Frame.outside, hloop, houter]⟩
      · exact .inr ⟨left, right, by simp [Frame.outside, hloop, hinner],
          by simp [Frame.outside, hloop, houter], hleft, List.subset_cons_of_subset _ hsubset⟩
  | drop _ hspent hrest ih =>
    obtain ⟨attributes, body, position, rfl, -⟩ := hspent
    obtain ⟨hinner, houter⟩ | ⟨left, right, hinner, houter, hleft, hsubset⟩ := ih
    · exact .inl ⟨hinner, houter⟩
    · exact .inr ⟨left, right, hinner, houter, hleft, List.subset_cons_of_subset _ hsubset⟩

/-- Two steps are finished at once and end alike. -/
inductive StepAgree (leeway : Leeway) (failed post : Machine → Machine → Prop) :
    Effect → Effect → Prop where
  | finished {ended other : Outcome}
    (hagree : Agree leeway failed (fun _ => post) ended other) :
    StepAgree leeway failed post (.finished ended) (.finished other)

/-- Steps still agree after a change of what they come to that keeps machines related. -/
theorem StepAgree.mapOutcome {failed post : Machine → Machine → Prop} {effect other : Effect}
    (hagree : StepAgree leeway failed post effect other) {change : Machine → Machine}
    (hpost : ∀ left right, post left right → post (change left) (change right))
    (hfailed : ∀ left right, failed left right → failed (change left) (change right)) :
    StepAgree leeway failed post (effect.mapOutcome (Machine.mapOutcome change))
      (other.mapOutcome (Machine.mapOutcome change)) := by
  cases hagree with
  | @finished ended further hagree =>
    refine .finished ?_
    cases hagree with
    | ok hpaired => exact .ok (hpost _ _ hpaired)
    | error herror => exact .error (hfailed _ _ herror)
    | fault => exact .fault
    | faultLeft hleeway => exact .faultLeft hleeway
    | faultRight hleeway =>
      cases ended with
      | ok value machine => exact .faultRight hleeway
      | error failure machine => exact .faultRight hleeway

/-- With a token to be executed next, if there is one. -/
def Control.awaiting : Option Token → Control → Control
  | none, control => control
  | some token, control => control.push token

namespace Control

theorem items_awaiting (pending : Option Token) (control : Control) :
    (control.awaiting pending).items = pending.toList ++ control.items := by
  cases pending <;> rfl

theorem depth_awaiting (pending : Option Token) (control : Control) :
    (control.awaiting pending).depth = control.depth := by
  cases pending <;> rfl

end Control

/-- Alike machines with a token pending and the same frames open above their
bases, except for spent ones that only the right machine still has. -/
structure Aligned (leeway : Leeway) (first second : Control) (pending : Option Token)
    (inner outer : List Frame) (left right : Machine) : Prop where
  thinned : Thinned leeway inner outer
  sound : ∀ frame ∈ outer, frame.Sound
  plain : ∀ token ∈ pending, token.Plain
  paired : Paired leeway ((first.within inner).awaiting pending)
    ((second.within outer).awaiting pending) left right

/-- The machines are aligned in some way. -/
def Matched (leeway : Leeway) (first second : Control) (left right : Machine) : Prop :=
  ∃ pending inner outer, Aligned leeway first second pending inner outer left right

/-- What a step of matched machines comes to: they are still matched, or both have left
the same loop, which was open below. -/
inductive Reached (leeway : Leeway) (first second : Control) (left right : Machine) : Prop where
  | matched (hmatched : Matched leeway first second left right)
  | left {outer : Control} (hleft : first.left? = some outer)
    (hpaired : Paired leeway outer outer left right)

theorem Thinned.subset {inner outer : List Frame} (hthinned : Thinned leeway inner outer) :
    inner ⊆ outer := by
  induction hthinned with
  | nil => exact List.Subset.refl _
  | keep frame hrest ih => exact List.cons_subset_cons frame ih
  | drop _ _ _ ih => exact List.subset_cons_of_subset _ ih

theorem Machine.selectOverload_eq (name : Name) (id : TableId) (machine : Machine) :
    selectOverload name id machine =
      match (machine.store.table id).select machine.operands.operandTypes with
      | .error error => .error (.error error) (machine.report (.noOverload name error))
      | .ok (.datum (.function _ operator) _) => .ok operator machine
      | .ok other =>
        .error (.error (.typeMismatch TypeTag.function.typeName other.typeName)) machine := by
  simp only [selectOverload, bind, EStateM.bind, get, getThe, MonadStateOf.get, EStateM.get]
  generalize (machine.store.table id).select machine.operands.operandTypes = selected
  cases selected with
  | error error => rfl
  | ok function =>
    cases function with
    | void => rfl
    | datum value attributes => cases value <;> rfl

namespace Machine

/-- What is to be done next is to call an operator: it is on top of the execution stack,
or a table is that selects it for the operands. -/
inductive Calls (operator : Operator) (machine : Machine) : Prop where
  | function {name : Name} {attributes : Attributes} {below : List Token}
    (hitems : machine.execution.items = .datum (.function name operator) attributes :: below)
  | table {name known : Name} {id : TableId} {attributes flags : Attributes}
    {below : List Token}
    (hitems : machine.execution.items = .datum (.table name id) attributes :: below)
    (hselect : (machine.store.table id).select machine.operands.operandTypes =
      .ok (.datum (.function known operator) flags))

/-- A step that calls an operator holds the table that selected it meanwhile, if one did. -/
theorem Calls.step_eq {operator : Operator} {machine : Machine} (hcalls : machine.Calls operator)
    (host : HostOperators) :
    step host machine = call host operator machine.unscheduled ∨ ∃ name id,
      step host machine = (call host operator
        (machine.unscheduled.holding (.table name id))).mapOutcome (mapOutcome releasing) := by
  cases hcalls with
  | function hitems => exact .inl (by rw [step, hitems])
  | @table name known id _ _ _ hitems hselect =>
    have hselected : selectOverload name id machine.unscheduled =
        .ok operator machine.unscheduled := by
      rw [selectOverload_eq]
      simp only [unscheduled, hselect]
    exact .inr ⟨name, id, by simp only [step, hitems, dispatch, EStateM.run, hselected]⟩

/-- What is done next with a frame on top is its step. -/
theorem step_of_enter {host : HostOperators} {control : Control} {frame : Frame}
    {machine : Machine} (hcontrol : machine.control = control.enter frame) :
    step host machine = .finished (advance frame.primitive machine) := by
  have hitems : machine.execution.items = frame.tokens ++ control.items :=
    congrArg Control.items hcontrol
  rw [frame.tokens_eq] at hitems
  unfold step
  rw [hitems]
  rfl

/-- The token on top of the execution stack makes way for another one. -/
theorem replace_top {control : Control} {machine : Machine} {token : Token}
    (hcontrol : machine.control = control.push token) (bound : Token) :
    ∃ execution, machine.execution.replace 0 bound = .ok execution ∧
      Control.mk execution.items machine.depth = control.push bound := by
  obtain ⟨hitems, hdepth⟩ : machine.execution.items = token :: control.items ∧
      machine.depth = control.depth :=
    Control.mk.inj hcontrol
  have hload : 0 < machine.execution.load := by simp [machine.execution.load_eq, hitems]
  refine ⟨_, by rw [TokenStack.replace, if_pos hload], ?_⟩
  simp [hitems, hdepth, Control.push]

/-- A procedure without elements left is closed. -/
theorem advanceProcedure_spent {control : Control} {attributes : Attributes} {body : Procedure}
    {position : Int64} {machine : Machine}
    (hcontrol : machine.control = control.enter (.procedure attributes body position))
    (hspent : elementAt body.body position = none) :
    ∃ execution depth, advanceProcedure machine = .ok () { machine with execution, depth } ∧
      Control.mk execution.items depth = control := by
  have hbody : readFrame .procedure 2 machine = .ok body machine :=
    readFrame_eq (by decide) (by rw [hcontrol]; rfl) rfl
  have hposition : readFrame .integer 1 machine = .ok position machine :=
    readFrame_eq (by decide) (by rw [hcontrol]; rfl) rfl
  simp only [advanceProcedure, bind, EStateM.bind, hbody, hposition, hspent]
  exact closeFrame_enter hcontrol rfl

end Machine

namespace Paired

variable {first second : Control} {left right : Machine}

theorem unscheduled {token : Token}
    (hpaired : Paired leeway (first.push token) (second.push token) left right) :
    Paired leeway first second left.unscheduled right.unscheduled where
  alike := hpaired.alike.withControl _ _ _ _
  left := by
    have hcontrol : left.execution.items = token :: first.items ∧ left.depth = first.depth :=
      Control.mk.inj hpaired.left
    simp [Machine.control, Machine.unscheduled, hcontrol]
  right := by
    have hcontrol : right.execution.items = token :: second.items ∧ right.depth = second.depth :=
      Control.mk.inj hpaired.right
    simp [Machine.control, Machine.unscheduled, hcontrol]

theorem replaceTop {token : Token}
    (hpaired : Paired leeway (first.push token) (second.push token) left right)
    (bound : Token) :
    Agree leeway failed (fun _ => Paired leeway (first.push bound) (second.push bound))
      ((do
        let machine ← get
        let execution ← Machine.orFail (machine.execution.replace 0 bound)
        set { machine with execution } : Operation Unit) left)
      ((do
        let machine ← get
        let execution ← Machine.orFail (machine.execution.replace 0 bound)
        set { machine with execution } : Operation Unit) right) := by
  obtain ⟨execution, hleft, hfirst⟩ := Machine.replace_top hpaired.left bound
  obtain ⟨further, hright, hsecond⟩ := Machine.replace_top hpaired.right bound
  apply Agree.get
  rw [hleft, hright]
  exact .ok ⟨hpaired.alike.withControl _ _ _ _, hfirst, hsecond⟩

end Paired

/-- What the host holds does not matter. -/
theorem Alike.withHeld {left right : Machine} (halike : Alike leeway left right)
    (own other : List Holding) :
    Alike leeway { left with held := own } { right with held := other } :=
  { halike with
    plain := { halike.plain with }
    voice := fun hgait => { halike.voice hgait with } }

theorem Paired.withHeld {first second : Control} {left right : Machine}
    (hpaired : Paired leeway first second left right) (own other : List Holding) :
    Paired leeway first second { left with held := own } { right with held := other } :=
  ⟨hpaired.alike.withHeld own other, hpaired.left, hpaired.right⟩

theorem Matched.alike {first second : Control} {left right : Machine}
    (hmatched : Matched leeway first second left right) : Alike leeway left right := by
  obtain ⟨_, _, _, haligned⟩ := hmatched
  exact haligned.paired.alike

theorem Matched.withHeld {first second : Control} {left right : Machine}
    (hmatched : Matched leeway first second left right) (own other : List Holding) :
    Matched leeway first second { left with held := own } { right with held := other } := by
  obtain ⟨pending, inner, outer, haligned⟩ := hmatched
  exact ⟨pending, inner, outer, { haligned with paired := haligned.paired.withHeld own other }⟩

theorem Reached.withHeld {first second : Control} {left right : Machine}
    (hreached : Reached leeway first second left right) (own other : List Holding) :
    Reached leeway first second { left with held := own } { right with held := other } := by
  cases hreached with
  | matched hmatched => exact .matched (hmatched.withHeld own other)
  | left hleft hpaired => exact .left hleft (hpaired.withHeld own other)

namespace Aligned

variable {first second : Control} {pending : Option Token} {inner outer : List Frame}
  {left right : Machine}

/-- What an operator starts is pending or open on both sides. -/
theorem matched_of_started (haligned : Aligned leeway first second pending inner outer left right)
    {next other : Machine}
    (hstarted : Started leeway (first.within inner) (second.within outer) next other) :
    Matched leeway first second next other := by
  cases hstarted with
  | nothing hpaired =>
    exact ⟨none, inner, outer, haligned.thinned, haligned.sound, by simp, hpaired⟩
  | @token token htoken hpaired =>
    exact ⟨some token, inner, outer, haligned.thinned, haligned.sound, by simpa using htoken,
      hpaired⟩
  | frame frame hframe hpaired =>
    refine ⟨none, frame :: inner, frame :: outer, .keep frame haligned.thinned, ?_, by simp,
      hpaired⟩
    simpa [hframe] using haligned.sound

/-- A frame that both machines have on top is advanced alike. -/
theorem advance {frame : Frame}
    (hpaired : Paired leeway ((first.within inner).enter frame)
      ((second.within outer).enter frame) left right)
    (hthinned : Thinned leeway inner outer) (hsound : ∀ own ∈ frame :: outer, own.Sound) :
    Agree leeway (Matched leeway first second) (fun _ => Matched leeway first second)
      (Machine.advance frame.primitive left) (Machine.advance frame.primitive right) := by
  have hbelow : ∀ own ∈ outer, own.Sound := fun own hmem => hsound own (by simp [hmem])
  have habove : ∀ moved : Frame, moved.Sound → ∀ own ∈ moved :: outer, own.Sound := by
    intro moved hmoved own hmem
    obtain rfl | hown := List.mem_cons.1 hmem
    · exact hmoved
    · exact hbelow own hown
  refine (hpaired.advance (hsound frame (by simp))).imp
    (fun next other hstill => ⟨none, frame :: inner, frame :: outer, .keep frame hthinned, hsound,
      by simp, hstill⟩) fun _ next other hadvanced => ?_
  cases hadvanced with
  | closed hclosed => exact ⟨none, inner, outer, hthinned, hbelow, by simp, hclosed⟩
  | restarted moved hmoved hrestarted =>
    exact ⟨none, moved :: inner, moved :: outer, .keep moved hthinned, habove moved hmoved,
      by simp, hrestarted⟩
  | @handed moved token hmoved htoken hhanded =>
    exact ⟨some token, moved :: inner, moved :: outer, .keep moved hthinned,
      habove moved hmoved, by simpa using htoken, hhanded⟩
  | @passed token htoken hpassed =>
    exact ⟨some token, inner, outer, hthinned, hbelow, by simpa using htoken, hpassed⟩
  | @eliminated spent token hspent hframe htoken heliminated hgait =>
    exact ⟨some token, inner, spent :: outer, .drop hgait hspent hthinned, habove spent hframe,
      by simpa using htoken, heliminated⟩

/-- Leaving a loop leaves the same one, however many spent frames are inside it. -/
theorem exitLoop (haligned : Aligned leeway first second none inner outer left right)
    (hexit : first.left? = second.left?) :
    Agree leeway (Matched leeway first second) (fun _ => Reached leeway first second)
      (Machine.exitLoop left) (Machine.exitLoop right) := by
  have hleft : left.control.left? =
      ((Frame.outside inner).map fun frames => first.within frames).or first.left? := by
    have hwithin : left.control = first.within inner := haligned.paired.left
    rw [hwithin, Control.left?_within fun frame hmem =>
      (haligned.sound frame (haligned.thinned.subset hmem)).shaped]
  have hright : right.control.left? =
      ((Frame.outside outer).map fun frames => second.within frames).or first.left? := by
    have hwithin : right.control = second.within outer := haligned.paired.right
    rw [hwithin, Control.left?_within fun frame hmem => (haligned.sound frame hmem).shaped, hexit]
  obtain ⟨hinner, houter⟩ | ⟨kept, others, hinner, houter, hthinned, hsubset⟩ :=
    haligned.thinned.outside
  · rw [hinner, Option.map_none, Option.none_or] at hleft
    rw [houter, Option.map_none, Option.none_or] at hright
    cases hbelow : first.left? with
    | none =>
      rw [Machine.exitLoop_eq_error (hleft.trans hbelow),
        Machine.exitLoop_eq_error (hright.trans hbelow)]
      exact .error ⟨none, inner, outer, haligned⟩
    | some base =>
      obtain ⟨execution, hitems, hrun⟩ := Machine.exitLoop_eq_ok (hleft.trans hbelow)
      obtain ⟨further, hothers, hother⟩ := Machine.exitLoop_eq_ok (hright.trans hbelow)
      rw [hrun, hother]
      exact .ok (.left hbelow ⟨haligned.paired.alike.withControl _ _ _ _,
        congrArg (Control.mk · _) hitems, congrArg (Control.mk · _) hothers⟩)
  · rw [hinner, Option.map_some, Option.some_or] at hleft
    rw [houter, Option.map_some, Option.some_or] at hright
    obtain ⟨execution, hitems, hrun⟩ := Machine.exitLoop_eq_ok hleft
    obtain ⟨further, hothers, hother⟩ := Machine.exitLoop_eq_ok hright
    rw [hrun, hother]
    refine .ok (.matched ⟨none, kept, others, hthinned, fun frame hmem =>
      haligned.sound frame (hsubset hmem), by simp, ?_, ?_, ?_⟩)
    · exact haligned.paired.alike.withControl _ _ _ _
    · exact congrArg (Control.mk · _) hitems
    · exact congrArg (Control.mk · _) hothers

/-- A call of an operator of the language ends alike. -/
theorem call (haligned : Aligned leeway first second none inner outer left right)
    (hexit : first.left? = second.left?) (host : HostOperators)
    {operator : Operator} (hlanguage : ∀ name, operator ≠ .host name) :
    StepAgree leeway (Matched leeway first second) (Reached leeway first second)
      (Machine.call host operator left) (Machine.call host operator right) := by
  have hcall : ∀ machine, Machine.call host operator machine =
      .finished (Machine.runOperator operator machine) := by
    intro machine
    cases operator with
    | host name => exact absurd rfl (hlanguage name)
    | _ => rfl
  rw [hcall, hcall]
  refine .finished ?_
  by_cases hleaves : operator = .exit
  · subst hleaves
    exact haligned.exitLoop hexit
  · exact (haligned.paired.runOperator hlanguage hleaves).imp
      (fun _ _ hstill => haligned.matched_of_started (.nothing hstill))
      fun _ _ _ hstarted => .matched (haligned.matched_of_started hstarted)

/-- The overload that fits the operands is the same on both sides, and it is an
operator of the language. -/
theorem selectOverload (haligned : Aligned leeway first second none inner outer left right)
    (name : Name) (id : TableId) :
    (∃ operator, (∀ own, operator ≠ .host own) ∧
        Machine.selectOverload name id left = .ok operator left ∧
        Machine.selectOverload name id right = .ok operator right) ∨
      ∃ error next other, Matched leeway first second next other ∧
        Machine.selectOverload name id left = .error (.error error) next ∧
        Machine.selectOverload name id right = .error (.error error) other := by
  have halike := haligned.paired.alike
  have hmatched : Matched leeway first second left right := ⟨none, inner, outer, haligned⟩
  rw [Machine.selectOverload_eq, Machine.selectOverload_eq, halike.table, ← halike.operands]
  cases hselect : (left.store.table id).select left.operands.operandTypes with
  | error error =>
    have hreported := haligned.paired.report (.noOverload name error) (.noOverload name error)
    exact .inr ⟨error, _, _, haligned.matched_of_started (.nothing hreported), rfl, rfl⟩
  | ok function =>
    have hplain := halike.plain.store.select hselect
    cases function with
    | void => exact .inr ⟨_, left, right, hmatched, rfl, rfl⟩
    | datum value attributes =>
      cases value with
      | function name operator =>
        have hvalue : (Value.function name operator).Plain := hplain
        exact .inl ⟨operator, hvalue.not_host, rfl, rfl⟩
      | _ => exact .inr ⟨_, left, right, hmatched, rfl, rfl⟩

theorem dispatch (haligned : Aligned leeway first second none inner outer left right)
    (hexit : first.left? = second.left?) (host : HostOperators)
    (name : Name) (id : TableId) :
    StepAgree leeway (Matched leeway first second) (Reached leeway first second)
      (Machine.dispatch host name id left) (Machine.dispatch host name id right) := by
  unfold Machine.dispatch
  simp only [EStateM.run]
  obtain ⟨operator, hlanguage, hleft, hright⟩ | ⟨error, next, other, hmatched, hleft, hright⟩ :=
    haligned.selectOverload name id
  · rw [hleft, hright]
    have hheld : Aligned leeway first second none inner outer
        (left.holding (.table name id)) (right.holding (.table name id)) :=
      { haligned with
        paired := haligned.paired.withHeld _ _ }
    exact (hheld.call hexit host hlanguage).mapOutcome
      (fun next other hreached => hreached.withHeld next.held.tail other.held.tail)
      fun next other hmatched => hmatched.withHeld next.held.tail other.held.tail
  · rw [hleft, hright]
    exact .finished (.error hmatched)

/-- Without the pending token, what is below it comes next. -/
theorem unscheduled {token : Token}
    (haligned : Aligned leeway first second (some token) inner outer left right) :
    Aligned leeway first second none inner outer left.unscheduled right.unscheduled where
  thinned := haligned.thinned
  sound := haligned.sound
  plain := by simp
  paired := haligned.paired.unscheduled

/-- A name on top makes way for what it is bound to. -/
theorem resolveTop {token : Token}
    (haligned : Aligned leeway first second (some token) inner outer left right) (name : Name) :
    Agree leeway (Matched leeway first second) (fun _ => Matched leeway first second)
      (Machine.resolveTop name left) (Machine.resolveTop name right) := by
  unfold Machine.resolveTop
  refine (haligned.paired.lookup name).bind fun found next other ⟨hplain, hnext⟩ => ?_
  cases found with
  | none => exact .error ⟨some token, inner, outer, { haligned with paired := hnext }⟩
  | some bound =>
    refine (hnext.replaceTop bound).mono fun _ next other hreplaced => ?_
    exact ⟨some bound, inner, outer, haligned.thinned, haligned.sound, hplain, hreplaced⟩

/-- A pending token is executed alike. -/
theorem step_pending {token : Token}
    (haligned : Aligned leeway first second (some token) inner outer left right)
    (hexit : first.left? = second.left?) (host : HostOperators) :
    StepAgree leeway (Matched leeway first second) (Reached leeway first second)
      (Machine.step host left) (Machine.step host right) := by
  have hleft : left.execution.items = token :: (first.within inner).items :=
    congrArg Control.items haligned.paired.left
  have hright : right.execution.items = token :: (second.within outer).items :=
    congrArg Control.items haligned.paired.right
  have hbelow := haligned.unscheduled
  have hplain : token.Plain := haligned.plain token rfl
  unfold Machine.step
  rw [hleft, hright]
  cases token with
  | void => exact .finished (.ok (.matched ⟨none, inner, outer, hbelow⟩))
  | datum value attributes =>
    -- Most values are operands.
    have hpush : Matched leeway first second (left.unscheduled.push (.datum value attributes))
        (right.unscheduled.push (.datum value attributes)) :=
      hbelow.matched_of_started (.nothing (hbelow.paired.push hplain))
    cases value with
    | name name => exact .finished ((haligned.resolveTop name).mono fun _ _ _ => .matched)
    | procedure id body =>
      have hbody : (Value.procedure id body).Plain := hplain
      refine .finished ((haligned.paired.openFrame _ _).mono fun _ _ _ hopened => ?_)
      exact .matched (haligned.matched_of_started (.frame (.procedure attributes ⟨id, body⟩ 0)
        ⟨Value.plain_procedure.1 hbody, counts_zero _⟩ hopened))
    | litProcedure id body =>
      have hbody : (Value.litProcedure id body).Plain := hplain
      have htoken : (Token.procedure ⟨id, body⟩).Plain :=
        Token.plain_procedureToken.2 (Value.plain_litProcedure.1 hbody)
      exact .finished ((hbelow.paired.pushNew htoken _ _).mono fun _ _ _ hpushed =>
        .matched (hbelow.matched_of_started (.nothing hpushed)))
    | function name operator =>
      have hvalue : (Value.function name operator).Plain := hplain
      exact hbelow.call hexit host hvalue.not_host
    | table name id => exact hbelow.dispatch hexit host name id
    | primitive primitive => exact absurd hplain (Value.not_plain_primitive primitive)
    | callback action =>
      have hvalue : (Value.callback action).Plain := hplain
      exact .finished ((hbelow.paired.scheduleNew action _ _).mono fun _ _ _ hscheduled =>
        .matched (hbelow.matched_of_started (.token (Value.plain_callback.1 hvalue) hscheduled)))
    | integer | double | boolean | string | literal | array | dictionary | mark =>
      exact .finished (.ok (.matched hpush))

/-- The frame that both machines have on top takes its step alike. -/
theorem step_frame {frame : Frame}
    (haligned : Aligned leeway first second none (frame :: inner) (frame :: outer) left right)
    (hthinned : Thinned leeway inner outer) (host : HostOperators) :
    StepAgree leeway (Matched leeway first second) (Reached leeway first second)
      (Machine.step host left) (Machine.step host right) := by
  have hleft : left.control = (first.within inner).enter frame := haligned.paired.left
  have hright : right.control = (second.within outer).enter frame := haligned.paired.right
  rw [Machine.step_of_enter hleft, Machine.step_of_enter hright]
  exact .finished ((advance haligned.paired hthinned haligned.sound).mono fun _ _ _ => .matched)

/-- A spent frame on top of the right machine goes, while the left one waits. -/
theorem step_spent {frame : Frame}
    (haligned : Aligned leeway first second none inner (frame :: outer) left right)
    (hspent : frame.Spent) (hthinned : Thinned leeway inner outer) (host : HostOperators) :
    ∃ next, Machine.step host right = .finished (.ok () next) ∧
      Aligned leeway first second none inner outer left next := by
  obtain ⟨attributes, body, position, rfl, hnone⟩ := hspent
  have hright : right.control =
      (second.within outer).enter (.procedure attributes body position) :=
    haligned.paired.right
  obtain ⟨execution, depth, hrun, hcontrol⟩ := Machine.advanceProcedure_spent hright hnone
  refine ⟨_, (Machine.step_of_enter hright).trans (congrArg Effect.finished hrun), hthinned, ?_,
    by simp, haligned.paired.alike.withControl _ _ _ _, haligned.paired.left, hcontrol⟩
  exact fun frame hmem => haligned.sound frame (by simp [hmem])

end Aligned

end StackLang
