import StackLang.Proofs.Control.Settling

/-!
# What the step of a frame does

The step of a frame closes it, begins its next round or hands out the next element of its
body.  What becomes of the frame and which operands it shows to the program depends on the
frame alone.  A procedure may also be closed before its last element is executed.
-/

namespace StackLang

namespace Frame

/-- A round begins: what the frame becomes, and the operands that it shows, the topmost
first. -/
inductive Begins : Frame → Frame → List Token → Prop where
  | loop {body : Procedure} {position : Int64}
    (hover : Machine.elementAt body.body position = none) :
    Begins (.loop body position) (.loop body 0) []
  | repetition {rounds : Int64} {body : Procedure} {position : Int64}
    (hover : Machine.elementAt body.body position = none) (hleft : 0 < rounds) :
    Begins (.repetition rounds body position) (.repetition (rounds - 1) body 0) []
  | counting {increment limit counter sum : Int64} {body : Procedure} {position : Int64}
    (hover : Machine.elementAt body.body position = none)
    (hleft : (0 < increment ∧ counter ≤ limit) ∨ (increment < 0 ∧ limit ≤ counter))
    (hsum : Machine.addExactly counter increment = some sum) :
    Begins (.counting increment limit counter body position)
      (.counting increment limit sum body 0) [.integer counter]
  | lastCounting {increment limit counter : Int64} {body : Procedure} {position : Int64}
    (hover : Machine.elementAt body.body position = none)
    (hleft : (0 < increment ∧ counter ≤ limit) ∨ (increment < 0 ∧ limit ≤ counter))
    (hstuck : Machine.addExactly counter increment = none) :
    Begins (.counting increment limit counter body position)
      (.counting 0 limit counter body 0) [.integer counter]

/-- The operands of a visit, the topmost first. -/
def visited (primitive : Primitive) (position : Int64) (element : Token) : List Token :=
  if primitive.isIndexed then [.integer position, element] else [element]

/-- A token is handed out: what the frame becomes, the token, and the operands that the
frame shows, the topmost first.  What a loop over an object hands out is its body. -/
inductive Hands : Frame → Frame → Token → List Token → Prop where
  | procedure {attributes : Attributes} {body : Procedure} {position : Int64} {element : Token}
    (helement : Machine.elementAt body.body position = some element) :
    Hands (.procedure attributes body position) (.procedure attributes body (position + 1))
      element []
  | loop {body : Procedure} {position : Int64} {element : Token}
    (helement : Machine.elementAt body.body position = some element) :
    Hands (.loop body position) (.loop body (position + 1)) element []
  | repetition {rounds : Int64} {body : Procedure} {position : Int64} {element : Token}
    (helement : Machine.elementAt body.body position = some element) :
    Hands (.repetition rounds body position) (.repetition rounds body (position + 1)) element []
  | counting {increment limit counter : Int64} {body : Procedure} {position : Int64}
    {element : Token} (helement : Machine.elementAt body.body position = some element) :
    Hands (.counting increment limit counter body position)
      (.counting increment limit counter body (position + 1)) element []
  | forAll {primitive : Primitive} {object : Token} {limit position : Int64} {body : Procedure}
    {element : Token} (hleft : position < limit)
    (helement : Machine.objectElement? object position = some element) :
    Hands (.forAll primitive object limit position body)
      (.forAll primitive object limit (position + 1) body) (.procedure body)
      (visited primitive position element)

variable {frame moved : Frame} {token : Token} {shown : List Token}

theorem Begins.ordinary (hbegins : frame.Begins moved shown) (hframe : frame.Ordinary) :
    moved.Ordinary := by
  cases hbegins <;> exact hframe

theorem Hands.ordinary (hhands : frame.Hands moved token shown) (hframe : frame.Ordinary) :
    moved.Ordinary ∧ token.Ordinary := by
  cases hhands with
  | procedure helement | loop helement | repetition helement | counting helement =>
    exact ⟨hframe, hframe _ (Machine.elementAt_eq_some helement).1⟩
  | forAll hleft helement =>
    obtain ⟨hbody, hobject, indexed, n, helements, rfl, hfirst⟩ := hframe
    obtain ⟨-, hnext⟩ :=
      Machine.exists_objectElement? helements hfirst (Int64.not_le.2 hleft)
    exact ⟨⟨hbody, hobject, indexed, n, helements, rfl, hnext⟩,
      Token.ordinary_procedureToken.2 hbody⟩

end Frame

/-- What the step of a frame above `control` comes to, where `operands` were the operands
before. -/
inductive Advances (control : Control) (frame : Frame) (operands : List Token)
    (machine : Machine) : Prop where
  | closed (hladen : Laden control operands machine)
  | passed {token : Token} (htoken : token.Ordinary)
    (hladen : Laden (control.push token) operands machine)
  | begun {moved : Frame} {shown : List Token} (hbegins : frame.Begins moved shown)
    (hladen : Laden (control.enter moved) (shown ++ operands) machine)
  | handed {moved : Frame} {token : Token} {shown : List Token}
    (hhands : frame.Hands moved token shown)
    (hladen : Laden ((control.enter moved).push token) (shown ++ operands) machine)

/-- What the step of a procedure above `control` comes to, where `early` says whether its
frame is closed before the last element is executed. -/
inductive Proceeds (control : Control) (attributes : Attributes) (body : Procedure)
    (position : Int64) (early : Bool) (operands : List Token) (machine : Machine) : Prop where
  | closed (hover : Machine.elementAt body.body position = none)
    (hladen : Laden control operands machine)
  | passed {element : Token} (helement : Machine.elementAt body.body position = some element)
    (hearly : early = true) (hlast : position.toInt.toNat + 1 = body.body.length)
    (hladen : Laden (control.push element) operands machine)
  | handed {element : Token} (helement : Machine.elementAt body.body position = some element)
    (hmore : early = true → position.toInt.toNat + 1 ≠ body.body.length)
    (hladen : Laden ((control.enter (.procedure attributes body (position + 1))).push element)
      operands machine)

variable {α : Type} {start control : Control} {operands : List Token} {machine : Machine}

namespace Laden

theorem readFrame {kind : Kind} {position : Nat} {token : Token} (value : kind.Carrier)
    {next : kind.Carrier → Operation α} {post : α → Machine → Prop}
    (hladen : Laden control operands machine) (hkind : kind ≠ .dictionary)
    (hitem : control.items[position]? = some token)
    (hread : kind.ofToken (fun _ => false) token = .ok value)
    (hsettles : Settles start post (next value machine)) :
    Settles start post ((Machine.readFrame kind position >>= next) machine) := by
  simp only [bind, EStateM.bind, Machine.readFrame_eq hkind (hladen.ahead ▸ hitem) hread]
  exact hsettles

theorem pickFrame {position : Nat} (token : Token) {next : Token → Operation α}
    {post : α → Machine → Prop} (hladen : Laden control operands machine)
    (hitem : control.items[position]? = some token)
    (hsettles : Settles start post (next token machine)) :
    Settles start post
      ((get >>= fun machine => Machine.orFail (machine.execution.pick position) >>= next)
        machine) := by
  apply Settles.get
  rw [Machine.pick_eq (hladen.ahead ▸ hitem)]
  exact hsettles

/-- Writing a number of the frame on top makes `moved` of it. -/
theorem writeFrame {frame : Frame} (moved : Frame)
    (hladen : Laden (control.enter frame) operands machine) {position : Nat} {old n : Int64}
    (hitem : ∀ below, (frame.tokens ++ below)[position]? = some (.integer old))
    (hwrite : ∀ below, (frame.tokens ++ below).set position (.integer n) =
      moved.tokens ++ below) :
    Settles start (fun _ => Laden (control.enter moved) operands)
      (Machine.writeFrame position n machine) := by
  obtain ⟨execution, hrun, hcontrol⟩ := Machine.writeFrame_enter moved hladen.ahead hitem hwrite
  rw [hrun]
  exact .ok
    { ahead := hcontrol
      ordinary := { hladen.ordinary with }
      operands_eq := hladen.operands_eq }

/-- Closing the frame on top leaves what is below it. -/
theorem closeFrame {frame : Frame} (hladen : Laden (control.enter frame) operands machine)
    (hframe : frame.Shaped) :
    Settles start (fun _ => Laden control operands)
      (Machine.closeFrame frame.primitive machine) := by
  obtain ⟨execution, depth, hrun, hcontrol⟩ :=
    Machine.closeFrame_enter hladen.ahead hframe.complete
  rw [hrun]
  exact .ok
    { ahead := hcontrol
      ordinary := { hladen.ordinary with }
      operands_eq := hladen.operands_eq }

theorem handOut {frame : Frame} (moved : Frame) {body : Procedure} {position : Int64}
    {element : Token} (hladen : Laden (control.enter frame) operands machine)
    (hhands : frame.Hands moved element [])
    (hitem : ∀ below, (frame.tokens ++ below)[1]? = some (.integer position))
    (hwrite : ∀ below, (frame.tokens ++ below).set 1 (.integer (position + 1)) =
      moved.tokens ++ below) :
    Settles start (fun _ => Advances control frame operands)
      (Machine.handOut body.body position element machine) := by
  unfold Machine.handOut
  refine (hladen.claim _).bind fun _ next hnext => ?_
  refine (hnext.speak (Machine.speaks_pause body.body position)).bind fun _ _ hpaused => ?_
  refine (hpaused.writeFrame moved hitem hwrite).bind fun _ _ hwritten => .ok ?_
  exact .handed hhands (hwritten.schedule element)

theorem proceedProcedure {attributes : Attributes} {body : Procedure} {position : Int64}
    (hladen : Laden (control.enter (.procedure attributes body position)) operands machine)
    (hframe : (Frame.procedure attributes body position).Ordinary) :
    Settles start (fun _ => Proceeds control attributes body position
        machine.config.tailElimination operands)
      (Machine.advanceProcedure machine) := by
  unfold Machine.advanceProcedure
  apply hladen.readFrame body (by decide) rfl rfl
  apply hladen.readFrame position (by decide) rfl rfl
  cases helement : Machine.elementAt body.body position with
  | none => exact (hladen.closeFrame hframe.shaped).mono fun _ _ => .closed helement
  | some element =>
    refine (hladen.claim_restated _).bind fun _ next ⟨hnext, hclaimed⟩ => ?_
    refine (hnext.speak_restated (Machine.speaks_pause body.body position)).bind
      fun _ next ⟨hpaused, hpause⟩ => Settles.get ?_
    rw [hpause.config, hclaimed.config]
    split
    case isTrue hlast =>
      obtain ⟨hlast, hearly⟩ := Bool.and_eq_true_iff.1 hlast
      refine (hpaused.closeFrame hframe.shaped).bind fun _ _ hclosed => .ok ?_
      exact .passed helement hearly (beq_iff_eq.1 hlast) (hclosed.schedule element)
    case isFalse hmore =>
      refine (hpaused.writeFrame (.procedure attributes body (position + 1)) (fun _ => rfl)
        fun _ => rfl).bind fun _ _ hwritten => .ok ?_
      refine .handed helement (fun hearly hlast => hmore ?_) (hwritten.schedule element)
      rw [hearly, beq_iff_eq.2 hlast]
      rfl

theorem advanceProcedure {attributes : Attributes} {body : Procedure} {position : Int64}
    (hladen : Laden (control.enter (.procedure attributes body position)) operands machine)
    (hframe : (Frame.procedure attributes body position).Ordinary) :
    Settles start (fun _ => Advances control (.procedure attributes body position) operands)
      (Machine.advanceProcedure machine) := by
  refine (hladen.proceedProcedure hframe).mono fun _ _ hproceeds => ?_
  cases hproceeds with
  | closed _ hnext => exact .closed hnext
  | passed helement _ _ hnext =>
    exact .passed (hframe _ (Machine.elementAt_eq_some helement).1) hnext
  | handed helement _ hnext => exact .handed (.procedure helement) hnext

theorem advanceLoop {body : Procedure} {position : Int64}
    (hladen : Laden (control.enter (.loop body position)) operands machine) :
    Settles start (fun _ => Advances control (.loop body position) operands)
      (Machine.advanceLoop machine) := by
  unfold Machine.advanceLoop
  apply hladen.readFrame body (by decide) rfl rfl
  apply hladen.readFrame position (by decide) rfl rfl
  cases helement : Machine.elementAt body.body position with
  | some element =>
    exact hladen.handOut (.loop body (position + 1)) (.loop helement) (fun _ => rfl)
      fun _ => rfl
  | none =>
    refine (hladen.writeFrame (.loop body 0) (fun _ => rfl) fun _ => rfl).bind
      fun _ _ hwritten => ?_
    exact (hwritten.speak (Machine.speaks_note _)).mono fun _ _ => .begun (.loop helement)

theorem advanceRepetition {rounds : Int64} {body : Procedure} {position : Int64}
    (hladen : Laden (control.enter (.repetition rounds body position)) operands machine)
    (hframe : (Frame.repetition rounds body position).Ordinary) :
    Settles start (fun _ => Advances control (.repetition rounds body position) operands)
      (Machine.advanceRepetition machine) := by
  unfold Machine.advanceRepetition
  apply hladen.readFrame body (by decide) rfl rfl
  apply hladen.readFrame position (by decide) rfl rfl
  cases helement : Machine.elementAt body.body position with
  | some element =>
    exact hladen.handOut (.repetition rounds body (position + 1)) (.repetition helement)
      (fun _ => rfl) fun _ => rfl
  | none =>
    apply hladen.readFrame rounds (by decide) rfl rfl
    split
    case isTrue hleft =>
      refine (hladen.writeFrame (.repetition rounds body 0) (fun _ => rfl) fun _ => rfl).bind
        fun _ _ hwritten => ?_
      refine (hwritten.writeFrame (.repetition (rounds - 1) body 0) (fun _ => rfl)
        fun _ => rfl).bind fun _ _ hwritten => ?_
      exact (hwritten.speak (Machine.speaks_note _)).mono fun _ _ =>
        .begun (.repetition helement hleft)
    case isFalse => exact (hladen.closeFrame hframe.shaped).mono fun _ _ => .closed

theorem advanceCounting {increment limit counter : Int64} {body : Procedure} {position : Int64}
    (hladen : Laden (control.enter (.counting increment limit counter body position)) operands
      machine)
    (hframe : (Frame.counting increment limit counter body position).Ordinary) :
    Settles start
      (fun _ => Advances control (.counting increment limit counter body position) operands)
      (Machine.advanceCounting machine) := by
  unfold Machine.advanceCounting
  apply hladen.readFrame body (by decide) rfl rfl
  apply hladen.readFrame position (by decide) rfl rfl
  cases helement : Machine.elementAt body.body position with
  | some element =>
    exact hladen.handOut (.counting increment limit counter body (position + 1))
      (.counting helement) (fun _ => rfl) fun _ => rfl
  | none =>
    apply hladen.readFrame counter (by decide) rfl rfl
    apply hladen.readFrame limit (by decide) rfl rfl
    apply hladen.readFrame increment (by decide) rfl rfl
    split
    case isTrue hleft =>
      refine (hladen.writeFrame (.counting increment limit counter body 0) (fun _ => rfl)
        fun _ => rfl).bind fun _ _ hwritten => ?_
      refine (hwritten.pushNew (Token.ordinary_integer counter) _).bind fun _ _ hpushed => ?_
      cases hsum : Machine.addExactly counter increment with
      | some sum =>
        refine (hpushed.writeFrame (.counting increment limit sum body 0) (fun _ => rfl)
          fun _ => rfl).bind fun _ _ hwritten => ?_
        exact (hwritten.speak (Machine.speaks_note _)).mono fun _ _ =>
          .begun (.counting helement hleft hsum)
      | none =>
        refine (hpushed.writeFrame (.counting 0 limit counter body 0) (fun _ => rfl)
          fun _ => rfl).bind fun _ _ hwritten => ?_
        exact (hwritten.speak (Machine.speaks_note _)).mono fun _ _ =>
          .begun (.lastCounting helement hleft hsum)
    case isFalse => exact (hladen.closeFrame hframe.shaped).mono fun _ _ => .closed

theorem advanceForAll {primitive : Primitive} {object : Token} {limit position : Int64}
    {body : Procedure}
    (hladen : Laden (control.enter (.forAll primitive object limit position body)) operands
      machine)
    (hframe : (Frame.forAll primitive object limit position body).Ordinary) :
    Settles start
      (fun _ => Advances control (.forAll primitive object limit position body) operands)
      (Machine.advanceForAll primitive machine) := by
  unfold Machine.advanceForAll
  apply hladen.readFrame position (by decide) rfl rfl
  apply hladen.readFrame limit (by decide) rfl rfl
  split
  case isTrue => exact (hladen.closeFrame hframe.shaped).mono fun _ _ => .closed
  case isFalse hbefore =>
    obtain ⟨-, hobject, indexed, n, helements, rfl, hfirst⟩ := hframe
    obtain ⟨⟨element, helement⟩, -⟩ :=
      Machine.exists_objectElement? helements hfirst hbefore
    have htoken := Machine.ordinary_of_objectElement? hobject helement
    apply hladen.pickFrame object rfl
    simp only [helement]
    -- With its operands in place, the body is scheduled.
    have hrest : ∀ {next : Machine},
        Laden (control.enter (.forAll primitive object (.ofNat n) position body))
          (Frame.visited primitive position element ++ operands) next →
        Settles start
          (fun _ => Advances control (.forAll primitive object (.ofNat n) position body) operands)
          ((do
            Machine.writeFrame 2 (position + 1)
            Machine.scheduleNew (← Machine.orFail ((← get).execution.pick 1)) [] :
              Operation Unit) next) := by
      intro next hnext
      refine (hnext.writeFrame (.forAll primitive object (.ofNat n) (position + 1) body)
        (fun _ => rfl) fun _ => rfl).bind fun _ next hwritten => ?_
      apply hwritten.pickFrame (.procedure body) rfl
      exact (hwritten.scheduleNew _ _).mono fun _ _ =>
        .handed (.forAll (Int64.not_le.1 hbefore) helement)
    refine (hladen.claim _).bind fun _ next hnext => ?_
    refine (hnext.speak (Machine.speaks_note _)).bind fun _ next hspoken => Settles.modify ?_
    have hpushed := hspoken.push htoken
    by_cases hindexed : primitive.isIndexed = true
    · simp only [Frame.visited, hindexed, if_true] at hrest ⊢
      exact (hpushed.pushNew (Token.ordinary_integer position) _).bind fun _ _ hnumbered =>
        hrest hnumbered
    · simp only [Frame.visited, hindexed] at hrest ⊢
      exact hrest hpushed

/-- The step of the frame on top leaves what is below it, and it never fails, as it
settles wherever it is said to have started. -/
theorem advance {frame : Frame} (hladen : Laden (control.enter frame) operands machine)
    (hframe : frame.Ordinary) :
    Settles start (fun _ => Advances control frame operands)
      (Machine.advance frame.primitive machine) := by
  cases frame with
  | procedure attributes body position => exact hladen.advanceProcedure hframe
  | loop body position => exact hladen.advanceLoop
  | repetition rounds body position => exact hladen.advanceRepetition hframe
  | counting increment limit counter body position => exact hladen.advanceCounting hframe
  | forAll primitive object limit position body =>
    have hsettles : Settles start
        (fun _ => Advances control (.forAll primitive object limit position body) operands)
        (Machine.advanceForAll primitive machine) := hladen.advanceForAll hframe
    obtain ⟨-, -, indexed, n, helements, -⟩ := hframe
    have hprimitive := (Machine.primitive_of_elementsOf helements).2
    simp only [List.mem_cons, List.not_mem_nil, or_false] at hprimitive
    rcases hprimitive with rfl | rfl | rfl | rfl <;> exact hsettles

end Laden

/-- A token that is handed out is scheduled above the frame that has moved on. -/
theorem Poised.standing_handed {frame : Frame} {token : Token}
    (hpoised : Poised ((control.enter frame).push token) machine) (hframe : frame.Ordinary)
    (htoken : token.Ordinary) : Standing control machine :=
  ⟨some token, [frame], by simpa using htoken, by simpa using hframe, hpoised⟩

theorem Advances.standing {frame : Frame} (hadvances : Advances control frame operands machine)
    (hframe : frame.Ordinary) : Standing control machine := by
  cases hadvances with
  | closed hladen => exact hladen.toPoised.standing
  | passed htoken hladen => exact hladen.toPoised.standing_pending htoken
  | begun hbegins hladen => exact hladen.toPoised.standing_frame _ (hbegins.ordinary hframe)
  | handed hhands hladen =>
    obtain ⟨hmoved, htoken⟩ := hhands.ordinary hframe
    exact hladen.toPoised.standing_handed hmoved htoken

theorem Poised.advance {frame : Frame} (hpoised : Poised (control.enter frame) machine)
    (hframe : frame.Ordinary) :
    Settles start (fun _ => Standing control) (Machine.advance frame.primitive machine) :=
  (hpoised.laden.advance hframe).mono fun _ _ hadvances => hadvances.standing hframe

end StackLang
