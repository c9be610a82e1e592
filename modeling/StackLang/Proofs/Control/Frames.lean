import StackLang.Proofs.Control.Operators

/-!
# The steps of a frame on machines that agree

When the same frame is on top of both execution stacks, its step does the same on
both.  The one exception is the last element of a procedure: a machine that drops
frames early closes the frame there, and the other one keeps it, spent.
-/

namespace StackLang

variable {leeway : Leeway} {failed : Machine → Machine → Prop} {α : Type}

/-- A procedure frame that has no element left. -/
def Frame.Spent (frame : Frame) : Prop :=
  ∃ attributes body position, frame = .procedure attributes body position ∧
    Machine.elementAt body.body position = none

/-- What the step of a frame comes to, where `first` and `second` are below it. -/
inductive Advanced (leeway : Leeway) (first second : Control) (left right : Machine) : Prop where
  | closed (hpaired : Paired leeway first second left right)
  | restarted (frame : Frame) (hframe : frame.Sound)
    (hpaired : Paired leeway (first.enter frame) (second.enter frame) left right)
  | handed (frame : Frame) {token : Token} (hframe : frame.Sound) (htoken : token.Plain)
    (hpaired : Paired leeway ((first.enter frame).push token)
      ((second.enter frame).push token) left right)
  | passed {token : Token} (htoken : token.Plain)
    (hpaired : Paired leeway (first.push token) (second.push token) left right)
  | eliminated (frame : Frame) {token : Token} (hspent : frame.Spent) (hframe : frame.Sound)
    (htoken : token.Plain)
    (hpaired : Paired leeway (first.push token) ((second.enter frame).push token) left right)
    (hgait : leeway.gait ≠ .level)

namespace Machine

theorem pick_eq {machine : Machine} {position : Nat} {token : Token}
    (hitem : machine.control.items[position]? = some token) :
    machine.execution.pick position = .ok token := by
  rw [TokenStack.pick, show machine.execution.items[position]? = some token from hitem]

theorem readFrame_eq {machine : Machine} {kind : Kind} (hkind : kind ≠ .dictionary)
    {position : Nat} {token : Token} {value : kind.Carrier}
    (hitem : machine.control.items[position]? = some token)
    (hread : kind.ofToken (fun _ => false) token = .ok value) :
    readFrame kind position machine = .ok value machine := by
  have hown : kind.ofToken machine.isAlive token = .ok value := by
    rw [Kind.ofToken_congr hkind, hread]
  simp only [readFrame, bind, EStateM.bind, get, getThe, MonadStateOf.get, EStateM.get,
    pick_eq hitem, orFail, pure, EStateM.pure, hown]

theorem writeFrame_eq {machine : Machine} {position : Nat} {old : Int64}
    (hitem : machine.control.items[position]? = some (.integer old)) (n : Int64) :
    ∃ execution, writeFrame position n machine = .ok () { machine with execution } ∧
      execution.items = machine.control.items.set position (.integer n) := by
  have hpick : machine.execution.pick position = .ok (.datum (.integer old) {}) := pick_eq hitem
  have hlt : position < machine.execution.load := by
    rw [machine.execution.load_eq]
    exact (List.getElem?_eq_some_iff.1 hitem).1
  simp only [writeFrame, bind, EStateM.bind, get, getThe, MonadStateOf.get, EStateM.get, hpick,
    orFail, pure, EStateM.pure, TokenStack.replace, hlt, if_true]
  exact ⟨_, rfl, rfl⟩

theorem closeFrame_eq {machine : Machine} {primitive : Primitive}
    (hsize : primitive.frameSize ≤ machine.control.items.length) :
    closeFrame primitive machine = .ok () { machine with
      execution := machine.execution.dropTop primitive.frameSize
      depth := machine.depth - 1 } := by
  have hload : ¬ machine.execution.load < primitive.frameSize := by
    rw [machine.execution.load_eq]
    exact Nat.not_lt.2 hsize
  simp only [closeFrame, bind, EStateM.bind, get, getThe, MonadStateOf.get, EStateM.get, orFail,
    pure, EStateM.pure, TokenStack.popMany, Except.bind, Except.pure, TokenStack.require, hload,
    if_false]
  rfl

/-- Writing a number of the frame on top makes `moved` of it. -/
theorem writeFrame_enter {frame : Frame} (moved : Frame) {control : Control} {machine : Machine}
    (hcontrol : machine.control = control.enter frame) {position : Nat} {old n : Int64}
    (hitem : ∀ below, (frame.tokens ++ below)[position]? = some (.integer old))
    (hwrite : ∀ below, (frame.tokens ++ below).set position (.integer n) =
      moved.tokens ++ below) :
    ∃ execution, writeFrame position n machine = .ok () { machine with execution } ∧
      Control.mk execution.items machine.depth = control.enter moved := by
  have hown : machine.control.items[position]? = some (.integer old) :=
    hcontrol ▸ hitem control.items
  obtain ⟨execution, hrun, hitems⟩ := writeFrame_eq hown n
  have hdepth : machine.depth = control.depth + 1 := congrArg Control.depth hcontrol
  rw [hcontrol] at hitems
  refine ⟨execution, hrun, ?_⟩
  rw [hitems, hdepth]
  exact congrArg (Control.mk · _) (hwrite control.items)

/-- Closing the frame on top leaves what is below it. -/
theorem closeFrame_enter {frame : Frame} {control : Control} {machine : Machine}
    (hcontrol : machine.control = control.enter frame)
    (hcomplete : frame.tokens.length = frame.primitive.frameSize) :
    ∃ execution depth, closeFrame frame.primitive machine =
        .ok () { machine with execution, depth } ∧
      Control.mk execution.items depth = control := by
  obtain ⟨hitems, hdepth⟩ : machine.execution.items = frame.tokens ++ control.items ∧
      machine.depth = control.depth + 1 :=
    Control.mk.inj hcontrol
  refine ⟨_, _, closeFrame_eq ?_, ?_⟩
  · simp [Machine.control, hitems, ← hcomplete]
  · simp [hitems, hdepth, ← hcomplete]

end Machine

namespace Paired

variable {first second : Control} {left right : Machine}

/-- Both machines read the same value from the same place of their stacks. -/
theorem readFrame (hpaired : Paired leeway first second left right) {kind : Kind}
    {position : Nat} {token : Token} (value : kind.Carrier)
    {next further : kind.Carrier → Operation α} {post : α → Machine → Machine → Prop}
    (hkind : kind ≠ .dictionary) (hfirst : first.items[position]? = some token)
    (hsecond : second.items[position]? = some token)
    (hread : kind.ofToken (fun _ => false) token = .ok value)
    (hagree : Agree leeway failed post (next value left) (further value right)) :
    Agree leeway failed post ((Machine.readFrame kind position >>= next) left)
      ((Machine.readFrame kind position >>= further) right) := by
  simp only [bind, EStateM.bind, Machine.readFrame_eq hkind (hpaired.left ▸ hfirst) hread,
    Machine.readFrame_eq hkind (hpaired.right ▸ hsecond) hread]
  exact hagree

theorem pickFrame (hpaired : Paired leeway first second left right) {position : Nat}
    (token : Token) {next further : Token → Operation α} {post : α → Machine → Machine → Prop}
    (hfirst : first.items[position]? = some token)
    (hsecond : second.items[position]? = some token)
    (hagree : Agree leeway failed post (next token left) (further token right)) :
    Agree leeway failed post
      ((get >>= fun machine => Machine.orFail (machine.execution.pick position) >>= next) left)
      ((get >>= fun machine => Machine.orFail (machine.execution.pick position) >>= further)
        right) := by
  apply Agree.get
  rw [Machine.pick_eq (hpaired.left ▸ hfirst), Machine.pick_eq (hpaired.right ▸ hsecond)]
  exact hagree

/-- Writing a number of the frame on top makes `moved` of it. -/
theorem writeFrame {frame : Frame} (moved : Frame)
    (hpaired : Paired leeway (first.enter frame) (second.enter frame) left right)
    {position : Nat} {old n : Int64}
    (hitem : ∀ below, (frame.tokens ++ below)[position]? = some (.integer old))
    (hwrite : ∀ below, (frame.tokens ++ below).set position (.integer n) =
      moved.tokens ++ below) :
    Agree leeway failed (fun _ => Paired leeway (first.enter moved) (second.enter moved))
      (Machine.writeFrame position n left) (Machine.writeFrame position n right) := by
  obtain ⟨execution, hleft, hfirst⟩ := Machine.writeFrame_enter moved hpaired.left hitem hwrite
  obtain ⟨other, hright, hsecond⟩ := Machine.writeFrame_enter moved hpaired.right hitem hwrite
  rw [hleft, hright]
  exact .ok ⟨hpaired.alike.withControl _ _ _ _, hfirst, hsecond⟩

/-- Closing the frame on top leaves what is below it. -/
theorem closeFrame {frame : Frame}
    (hpaired : Paired leeway (first.enter frame) (second.enter frame) left right)
    (hframe : frame.Sound) :
    Agree leeway failed (fun _ => Paired leeway first second)
      (Machine.closeFrame frame.primitive left) (Machine.closeFrame frame.primitive right) := by
  obtain ⟨execution, depth, hleft, hfirst⟩ :=
    Machine.closeFrame_enter hpaired.left hframe.length_tokens
  obtain ⟨other, count, hright, hsecond⟩ :=
    Machine.closeFrame_enter hpaired.right hframe.length_tokens
  rw [hleft, hright]
  exact .ok ⟨hpaired.alike.withControl _ _ _ _, hfirst, hsecond⟩

/-- The left machine closes the frame of a procedure where the right one moves it on. -/
theorem eliminate {attributes : Attributes} {body : Procedure} {position : Int64}
    (hpaired : Paired leeway (first.enter (.procedure attributes body position))
      (second.enter (.procedure attributes body position)) left right) :
    Agree leeway failed (fun _ => Paired leeway first
        (second.enter (.procedure attributes body (position + 1))))
      (Machine.closeFrame .iterate left) (Machine.writeFrame 1 (position + 1) right) := by
  obtain ⟨execution, depth, hclose, hfirst⟩ := Machine.closeFrame_enter hpaired.left rfl
  obtain ⟨other, hwrite, hsecond⟩ :
      ∃ other, Machine.writeFrame 1 (position + 1) right =
          .ok () { right with execution := other } ∧
        Control.mk other.items right.depth =
          second.enter (.procedure attributes body (position + 1)) :=
    Machine.writeFrame_enter _ hpaired.right (fun _ => rfl) fun _ => rfl
  rw [hwrite, show Machine.closeFrame .iterate left = _ from hclose]
  exact .ok ⟨hpaired.alike.withControl _ _ _ _, hfirst, hsecond⟩

theorem advanceProcedure {attributes : Attributes} {body : Procedure} {position : Int64}
    (hpaired : Paired leeway (first.enter (.procedure attributes body position))
      (second.enter (.procedure attributes body position)) left right)
    (hframe : (Frame.procedure attributes body position).Sound) :
    Agree leeway failed (fun _ => Advanced leeway first second) (Machine.advanceProcedure left)
      (Machine.advanceProcedure right) := by
  unfold Machine.advanceProcedure
  apply hpaired.readFrame body (by decide) rfl rfl rfl
  apply hpaired.readFrame position (by decide) rfl rfl rfl
  cases helement : Machine.elementAt body.body position with
  | none => exact (hpaired.closeFrame hframe).mono fun _ _ _ hclosed => .closed hclosed
  | some element =>
    refine (hpaired.claim _ _).bind fun _ _ _ hnext => ?_
    refine (hnext.pause body.body position).bind fun _ next other hpaused => ?_
    obtain ⟨hmem, hcounts⟩ := Machine.elementAt_eq_some helement
    have hplain : element.Plain := hframe.1 element hmem
    have hmoved : (Frame.procedure attributes body (position + 1)).Sound := ⟨hframe.1, hcounts⟩
    apply Agree.get
    have helimination := hpaused.alike.elimination
    by_cases hlast : position.toInt.toNat + 1 = body.body.length
    · have hspent : (Frame.procedure attributes body (position + 1)).Spent :=
        ⟨attributes, body, position + 1, rfl, Machine.elementAt_behind_last helement hlast⟩
      simp only [beq_iff_eq.2 hlast, Bool.true_and]
      cases hright : other.config.tailElimination with
      | true =>
        simp only [helimination hright, if_true]
        refine (hpaused.closeFrame hframe).bind fun _ _ _ hclosed => .ok ?_
        exact .passed hplain (hclosed.schedule element)
      | false =>
        simp only [Bool.false_eq_true, if_false]
        split
        · rename_i hleft
          have hgait : leeway.gait ≠ .level := fun hlevel => by
            cases hright.symm.trans (hpaused.alike.level hlevel hleft)
          refine hpaused.eliminate.bind fun _ _ _ hparted => .ok ?_
          exact .eliminated _ hspent hmoved hplain (hparted.schedule element) hgait
        · refine (hpaused.writeFrame (.procedure attributes body (position + 1)) (fun _ => rfl)
            fun _ => rfl).bind fun _ _ _ hwritten => .ok ?_
          exact .handed _ hmoved hplain (hwritten.schedule element)
    · simp only [beq_eq_false_iff_ne.2 hlast, Bool.false_and, Bool.false_eq_true, if_false]
      refine (hpaused.writeFrame (.procedure attributes body (position + 1)) (fun _ => rfl)
        fun _ => rfl).bind fun _ _ _ hwritten => .ok ?_
      exact .handed _ hmoved hplain (hwritten.schedule element)

/-- The next element of a loop body is handed out, and `moved` is what the frame
becomes. -/
theorem handOut {frame : Frame} (moved : Frame) {body : Procedure} {position : Int64}
    {element : Token}
    (hpaired : Paired leeway (first.enter frame) (second.enter frame) left right)
    (hbody : body.Plain) (helement : Machine.elementAt body.body position = some element)
    (hmoved : moved.Sound)
    (hitem : ∀ below, (frame.tokens ++ below)[1]? = some (.integer position))
    (hwrite : ∀ below, (frame.tokens ++ below).set 1 (.integer (position + 1)) =
      moved.tokens ++ below) :
    Agree leeway failed (fun _ => Advanced leeway first second)
      (Machine.handOut body.body position element left)
      (Machine.handOut body.body position element right) := by
  unfold Machine.handOut
  refine (hpaired.claim _ _).bind fun _ _ _ hnext => ?_
  refine (hnext.pause body.body position).bind fun _ _ _ hpaused => ?_
  have hplain : element.Plain := hbody element (Machine.elementAt_eq_some helement).1
  refine (hpaused.writeFrame moved hitem hwrite).bind fun _ _ _ hwritten => .ok ?_
  exact .handed moved hmoved hplain (hwritten.schedule element)

theorem advanceLoop {body : Procedure} {position : Int64}
    (hpaired : Paired leeway (first.enter (.loop body position))
      (second.enter (.loop body position)) left right)
    (hframe : (Frame.loop body position).Sound) :
    Agree leeway failed (fun _ => Advanced leeway first second) (Machine.advanceLoop left)
      (Machine.advanceLoop right) := by
  unfold Machine.advanceLoop
  apply hpaired.readFrame body (by decide) rfl rfl rfl
  apply hpaired.readFrame position (by decide) rfl rfl rfl
  cases helement : Machine.elementAt body.body position with
  | some element =>
    have hcounts := (Machine.elementAt_eq_some helement).2
    exact hpaired.handOut (.loop body (position + 1)) hframe.1 helement ⟨hframe.1, hcounts⟩
      (fun _ => rfl) fun _ => rfl
  | none =>
    refine (hpaired.writeFrame (.loop body 0) (fun _ => rfl) fun _ => rfl).bind
      fun _ _ _ hwritten => (hwritten.note rfl).mono fun _ _ _ hnoted => ?_
    exact .restarted (.loop body 0) ⟨hframe.1, counts_zero _⟩ hnoted

theorem advanceRepetition {rounds : Int64} {body : Procedure} {position : Int64}
    (hpaired : Paired leeway (first.enter (.repetition rounds body position))
      (second.enter (.repetition rounds body position)) left right)
    (hframe : (Frame.repetition rounds body position).Sound) :
    Agree leeway failed (fun _ => Advanced leeway first second) (Machine.advanceRepetition left)
      (Machine.advanceRepetition right) := by
  unfold Machine.advanceRepetition
  apply hpaired.readFrame body (by decide) rfl rfl rfl
  apply hpaired.readFrame position (by decide) rfl rfl rfl
  cases helement : Machine.elementAt body.body position with
  | some element =>
    have hcounts := (Machine.elementAt_eq_some helement).2
    exact hpaired.handOut (.repetition rounds body (position + 1)) hframe.1 helement
      ⟨hframe.1, hcounts⟩ (fun _ => rfl) fun _ => rfl
  | none =>
    apply hpaired.readFrame rounds (by decide) rfl rfl rfl
    split
    · refine (hpaired.writeFrame (.repetition rounds body 0) (fun _ => rfl) fun _ => rfl).bind
        fun _ next other hwritten => ?_
      refine (hwritten.writeFrame (.repetition (rounds - 1) body 0) (fun _ => rfl)
        fun _ => rfl).bind fun _ _ _ hwritten => (hwritten.note rfl).mono fun _ _ _ hnoted => ?_
      exact .restarted (.repetition (rounds - 1) body 0) ⟨hframe.1, counts_zero _⟩ hnoted
    · exact (hpaired.closeFrame hframe).mono fun _ _ _ hclosed => .closed hclosed

theorem advanceCounting {increment limit counter : Int64} {body : Procedure} {position : Int64}
    (hpaired : Paired leeway (first.enter (.counting increment limit counter body position))
      (second.enter (.counting increment limit counter body position)) left right)
    (hframe : (Frame.counting increment limit counter body position).Sound) :
    Agree leeway failed (fun _ => Advanced leeway first second) (Machine.advanceCounting left)
      (Machine.advanceCounting right) := by
  unfold Machine.advanceCounting
  apply hpaired.readFrame body (by decide) rfl rfl rfl
  apply hpaired.readFrame position (by decide) rfl rfl rfl
  cases helement : Machine.elementAt body.body position with
  | some element =>
    have hcounts := (Machine.elementAt_eq_some helement).2
    exact hpaired.handOut (.counting increment limit counter body (position + 1)) hframe.1
      helement ⟨hframe.1, hcounts⟩ (fun _ => rfl) fun _ => rfl
  | none =>
    apply hpaired.readFrame counter (by decide) rfl rfl rfl
    apply hpaired.readFrame limit (by decide) rfl rfl rfl
    apply hpaired.readFrame increment (by decide) rfl rfl rfl
    split
    · refine (hpaired.writeFrame (.counting increment limit counter body 0) (fun _ => rfl)
        fun _ => rfl).bind fun _ next other hwritten => ?_
      refine (hwritten.pushNew (Token.plain_integer counter) _ _).bind
        fun _ next other hpushed => ?_
      cases Machine.addExactly counter increment with
      | some sum =>
        refine (hpushed.writeFrame (.counting increment limit sum body 0) (fun _ => rfl)
          fun _ => rfl).bind fun _ _ _ hwritten => (hwritten.note rfl).mono fun _ _ _ hnoted => ?_
        exact .restarted (.counting increment limit sum body 0) ⟨hframe.1, counts_zero _⟩ hnoted
      | none =>
        refine (hpushed.writeFrame (.counting 0 limit counter body 0) (fun _ => rfl)
          fun _ => rfl).bind fun _ _ _ hwritten => (hwritten.note rfl).mono fun _ _ _ hnoted => ?_
        exact .restarted (.counting 0 limit counter body 0) ⟨hframe.1, counts_zero _⟩ hnoted
    · exact (hpaired.closeFrame hframe).mono fun _ _ _ hclosed => .closed hclosed

theorem advanceForAll {primitive : Primitive} {object : Token} {limit position : Int64}
    {body : Procedure}
    (hpaired : Paired leeway (first.enter (.forAll primitive object limit position body))
      (second.enter (.forAll primitive object limit position body)) left right)
    (hframe : (Frame.forAll primitive object limit position body).Sound) :
    Agree leeway (Paired leeway (first.enter (.forAll primitive object limit position body))
        (second.enter (.forAll primitive object limit position body)))
      (fun _ => Advanced leeway first second) (Machine.advanceForAll primitive left)
      (Machine.advanceForAll primitive right) := by
  unfold Machine.advanceForAll
  apply hpaired.readFrame position (by decide) rfl rfl rfl
  apply hpaired.readFrame limit (by decide) rfl rfl rfl
  split
  · exact (hpaired.closeFrame hframe).mono fun _ _ _ hclosed => .closed hclosed
  · obtain ⟨hbody, hobject, n, helements, hlimit, -⟩ := hframe
    apply hpaired.pickFrame object rfl rfl
    cases helement : Machine.objectElement? object position with
    | none => exact .error hpaired
    | some element =>
      obtain ⟨hplain, hcounts⟩ := Machine.objectElement?_eq_some helements hobject helement
      have hmoved : (Frame.forAll primitive object limit (position + 1) body).Sound :=
        ⟨hbody, hobject, n, helements, hlimit, hcounts⟩
      -- With its operands in place, the body is scheduled.
      have hrest : ∀ {next other : Machine},
          Paired leeway (first.enter (.forAll primitive object limit position body))
            (second.enter (.forAll primitive object limit position body)) next other →
          Agree leeway (Paired leeway
              (first.enter (.forAll primitive object limit position body))
              (second.enter (.forAll primitive object limit position body)))
            (fun _ => Advanced leeway first second)
            ((do
              Machine.writeFrame 2 (position + 1)
              Machine.scheduleNew (← Machine.orFail ((← get).execution.pick 1)) [] :
                Operation Unit) next)
            ((do
              Machine.writeFrame 2 (position + 1)
              Machine.scheduleNew (← Machine.orFail ((← get).execution.pick 1)) [] :
                Operation Unit) other) := by
        intro next other hnext
        refine (hnext.writeFrame (.forAll primitive object limit (position + 1) body)
          (fun _ => rfl) fun _ => rfl).bind fun _ next other hwritten => ?_
        apply hwritten.pickFrame (.procedure body) rfl rfl
        refine (hwritten.scheduleNew _ _ _).mono fun _ next other hscheduled => ?_
        exact .handed _ hmoved (Token.plain_procedureToken.2 hbody) hscheduled
      refine (hpaired.claim _ _).bind fun _ next other hnext => ?_
      refine (hnext.note ?_).bind fun _ _ _ hnoted => Agree.modify ?_
      · rw [hnext.alike.display?]
      by_cases hindexed : primitive.isIndexed = true
      · simp only [hindexed, if_true]
        refine Agree.bind ?_ fun _ _ _ hpushed => hrest hpushed
        refine Paired.pushNew ?_ (Token.plain_integer position) _ _
        exact hnoted.push hplain
      · simp only [hindexed]
        exact hrest (hnoted.push hplain)

/-- The step of the frame on top does the same on both machines, except for a
procedure that one of them leaves early. -/
theorem advance {frame : Frame}
    (hpaired : Paired leeway (first.enter frame) (second.enter frame) left right)
    (hframe : frame.Sound) :
    Agree leeway (Paired leeway (first.enter frame) (second.enter frame))
      (fun _ => Advanced leeway first second) (Machine.advance frame.primitive left)
      (Machine.advance frame.primitive right) := by
  cases frame with
  | procedure attributes body position => exact hpaired.advanceProcedure hframe
  | loop body position => exact hpaired.advanceLoop hframe
  | repetition rounds body position => exact hpaired.advanceRepetition hframe
  | counting increment limit counter body position => exact hpaired.advanceCounting hframe
  | forAll primitive object limit position body =>
    have hagree := hpaired.advanceForAll hframe
    have hprimitive := hframe.forAll_primitive
    simp only [List.mem_cons, List.not_mem_nil, or_false] at hprimitive
    rcases hprimitive with rfl | rfl | rfl | rfl <;> exact hagree

end Paired

end StackLang
