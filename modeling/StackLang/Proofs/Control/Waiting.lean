import StackLang.Proofs.Control.Draining

/-!
# One machine works while the other one waits

Two machines agree on their data although only one of them does administrative work: it
opens a frame, moves it on or closes it, or takes operands that the other one simply
drops.  None of this shows in the data, so the machines still agree afterwards.
-/

namespace StackLang

namespace Machine

/-- The machine without its topmost operands. -/
def withoutOperands (count : Nat) (machine : Machine) : Machine :=
  { machine with operands := machine.operands.dropTop count }

theorem withoutOperands_withoutOperands (n k : Nat) (machine : Machine) :
    (machine.withoutOperands n).withoutOperands k = machine.withoutOperands (n + k) := by
  simp [withoutOperands, TokenStack.dropTop, Nat.sub_sub]

end Machine

variable {leeway : Leeway} {failed : Machine → Machine → Prop} {host : HostOperators}
  {base : Nat} {first second : Control} {left right : Machine}

/-- The right machine does nothing while the left one does one thing after the other. -/
theorem Agree.alone {α : Type} {action : Operation Unit} {next : Unit → Operation α}
    {waiting : EStateM.Result Failure Machine α} {mid : Machine → Machine → Prop}
    {post : α → Machine → Machine → Prop}
    (haction : Agree leeway failed (fun _ => mid) (action left) (.ok () right))
    (hnext : ∀ left, mid left right → Agree leeway failed post (next () left) waiting) :
    Agree leeway failed post ((action >>= next) left) waiting := by
  simp only [Bind.bind, EStateM.bind]
  generalize hended : action left = ended at haction
  generalize hright : (EStateM.Result.ok () right : EStateM.Result Failure Machine Unit) = other
    at haction
  cases haction with
  | ok hmid =>
    cases hright
    exact hnext _ hmid
  | error | fault | faultRight => cases hright
  | faultLeft hleeway => exact .faultLeft hleeway

/-- An operand that can be read is taken, unless the tokens that this copies exceed the
room that there is. -/
theorem Machine.popAs_cases {machine : Machine} {kind : Kind} (hkind : kind ≠ .dictionary)
    {token : Token} {below : List Token} (hitems : machine.operands.items = token :: below)
    {value : kind.Carrier} (hread : kind.ofToken (fun _ => false) token = .ok value) :
    (∃ claimed, popAs kind machine = .ok value (claimed.withoutOperands 1) ∧
        Restated machine claimed ∧ claimed.prompt = machine.prompt) ∨
      ∃ fault, popAs kind machine = .error (.fault fault) machine ∧ machine.room ≠ none := by
  have hown : kind.ofToken machine.isAlive token = .ok value := by
    rw [Kind.ofToken_congr hkind, hread]
  have htop : machine.operands.top = .ok token := by
    simp [TokenStack.top, TokenStack.pick, hitems]
  simp only [popAs, bind, EStateM.bind, get, getThe, MonadStateOf.get, EStateM.get, htop, orFail,
    pure, EStateM.pure, hown]
  obtain ⟨claimed, hclaim, hclaimed⟩ | ⟨fault, hclaim, hroom⟩ :=
    Restated.claim ((kind.copiedTokens value).map .token) machine
  · refine .inl ⟨claimed, ?_, hclaimed, prompt_of_claim hclaim⟩
    simp only [hclaim, Functor.discard, Functor.mapConst, Function.comp, Function.const,
      EStateM.map, pop_eq, hclaimed.operands, hitems, withoutOperands]
  · exact .inr ⟨fault, by rw [hclaim], hroom⟩

namespace Paired

theorem claim_alone (hpaired : Paired leeway first second left right) (inHand : List Holding) :
    Agree leeway failed (fun _ => Paired leeway first second) (Machine.claim inHand left)
      (.ok () right) := by
  obtain ⟨next, hclaim, hnext⟩ | ⟨fault, hclaim, hroom⟩ := Restated.claim inHand left
  · rw [hclaim]
    refine .ok (hpaired.restated hnext (.refl right) fun hgait => ?_)
    rw [Machine.prompt_of_claim hclaim, (hpaired.alike.voice hgait).prompt]
  · rw [hclaim]
    exact .faultLeft (hpaired.alike.roomLeft hroom fault)

/-- A machine that is apart from the other one says something. -/
theorem speak_alone (hpaired : Paired leeway first second left right)
    (hgait : leeway.gait = .apart) {operation : Operation Unit}
    (hspeaks : Machine.Speaks operation) :
    Agree leeway failed (fun _ => Paired leeway first second) (operation left)
      (.ok () right) := by
  obtain ⟨next, hnext, hsaid | ⟨hsilent, hstep⟩⟩ := hspeaks left
  · rw [hsaid]
    exact .ok (hpaired.restated hnext (.refl right) fun hne => absurd hgait hne)
  · rw [hsilent]
    exact .faultLeft ((hpaired.alike.stepLeft hstep).resolve_right fun hne => hne hgait)

theorem writeFrame_alone {frame : Frame} (moved : Frame)
    (hpaired : Paired leeway (first.enter frame) second left right) {position : Nat}
    {old n : Int64} (hitem : ∀ below, (frame.tokens ++ below)[position]? = some (.integer old))
    (hwrite : ∀ below, (frame.tokens ++ below).set position (.integer n) =
      moved.tokens ++ below) :
    Agree leeway failed (fun _ => Paired leeway (first.enter moved) second)
      (Machine.writeFrame position n left) (.ok () right) := by
  obtain ⟨execution, hrun, hcontrol⟩ := Machine.writeFrame_enter moved hpaired.left hitem hwrite
  rw [hrun]
  exact .ok ⟨hpaired.alike.withControl _ _ _ _, hcontrol, hpaired.right⟩

theorem closeFrame_alone {frame : Frame}
    (hpaired : Paired leeway (first.enter frame) second left right)
    (hcomplete : frame.tokens.length = frame.primitive.frameSize) :
    Agree leeway failed (fun _ => Paired leeway first second)
      (Machine.closeFrame frame.primitive left) (.ok () right) := by
  obtain ⟨execution, depth, hrun, hcontrol⟩ := Machine.closeFrame_enter hpaired.left hcomplete
  rw [hrun]
  exact .ok ⟨hpaired.alike.withControl _ _ _ _, hcontrol, hpaired.right⟩

theorem schedule_alone (hpaired : Paired leeway first second left right) (token : Token) :
    Paired leeway (first.push token) second (left.schedule token) right where
  alike := hpaired.alike.withControl _ _ _ _
  left := congrArg (Control.push token) hpaired.left
  right := hpaired.right

theorem schedule_right {token : Token} (hpaired : Paired leeway first second left right) :
    Paired leeway first (second.push token) left (right.schedule token) where
  alike := hpaired.alike.withControl _ _ _ _
  left := hpaired.left
  right := congrArg (Control.push token) hpaired.right

theorem unschedule_right {token : Token}
    (hpaired : Paired leeway first (second.push token) left right) :
    Paired leeway first second left right.unscheduled where
  alike := hpaired.alike.withControl _ _ _ _
  left := hpaired.left
  right := by
    obtain ⟨hitems, hdepth⟩ : right.execution.items = token :: second.items ∧
        right.depth = second.depth :=
      Control.mk.inj hpaired.right
    simp [Machine.control, Machine.unscheduled, hitems, hdepth]

theorem scheduleNew_alone (hpaired : Paired leeway first second left right) (token : Token)
    (inHand : List Holding) :
    Agree leeway failed (fun _ => Paired leeway (first.push token) second)
      (Machine.scheduleNew token inHand left) (.ok () right) :=
  (hpaired.claim_alone _).alone fun _ hclaimed => .ok (hclaimed.schedule_alone token)

theorem enterFrame_alone (hpaired : Paired leeway first second left right) :
    Paired leeway ⟨first.items, first.depth + 1⟩ second left.enterFrame right where
  alike := hpaired.alike.withControl _ _ _ _
  left := by rw [← hpaired.left]; rfl
  right := hpaired.right

theorem openFrame_alone (hpaired : Paired leeway first second left right) (primitive : Primitive)
    (parts : List Holding) :
    Agree leeway failed (fun _ => Paired leeway (first.opened primitive parts) second)
      (Machine.openFrame primitive parts left) (.ok () right) := by
  induction parts generalizing first left with
  | nil =>
    exact (hpaired.scheduleNew_alone _ _).alone fun _ hscheduled => .ok hscheduled.enterFrame_alone
  | cons part rest ih =>
    cases part with
    | token token => exact ih (hpaired.schedule_alone token)
    | value value =>
      exact (hpaired.scheduleNew_alone (.ofValue value) rest).alone fun _ hnext => ih hnext

/-- The right machine puts a token on its operand stack at once. -/
theorem pushNew_alone (hpaired : Paired leeway first second left right) {token : Token}
    (htoken : token.Plain) (inHand : List Holding) :
    Agree leeway failed (fun _ => Paired leeway first second) (Machine.pushNew token inHand left)
      (.ok () (right.push token)) :=
  (hpaired.claim_alone _).alone fun _ hclaimed => .ok (hclaimed.push htoken)

/-- The right machine drops the operand that the left one takes. -/
theorem popAs_alone {α : Type} (hpaired : Paired leeway first second left right) {kind : Kind}
    (hkind : kind ≠ .dictionary) {token : Token} {below : List Token}
    (hitems : left.operands.items = token :: below) (value : kind.Carrier)
    (hread : kind.ofToken (fun _ => false) token = .ok value)
    {next : kind.Carrier → Operation α} {waiting : EStateM.Result Failure Machine α}
    {post : α → Machine → Machine → Prop}
    (hnext : ∀ left, left.operands.items = below →
      Paired leeway first second left (right.withoutOperands 1) →
        Agree leeway failed post (next value left) waiting) :
    Agree leeway failed post ((Machine.popAs kind >>= next) left) waiting := by
  simp only [bind, EStateM.bind]
  obtain ⟨claimed, hpop, hclaimed, hprompt⟩ | ⟨fault, hpop, hroom⟩ :=
    Machine.popAs_cases hkind hitems hread
  · rw [hpop]
    refine hnext _ ?_ (hpaired.restated hclaimed (.refl right) fun hgait => ?_).dropOperand
    · simp [Machine.withoutOperands, hclaimed.operands, hitems]
    · rw [hprompt, (hpaired.alike.voice hgait).prompt]
  · rw [hpop]
    exact .faultLeft (hpaired.alike.roomLeft hroom fault)

end Paired

/-! ## Runs -/

/-- What comes after an outcome ends like the right machine, which waits meanwhile. -/
theorem EndAlike.then_alone {outcome : Outcome} {mid post : Machine → Machine → Prop}
    {next : Machine → Outcome → Prop} {ends : Outcome → Prop}
    (hagree : Agree leeway failed (fun _ => mid) outcome (.ok () right))
    (hnext : ∀ left, mid left right → EndAlike leeway failed post (next left) ends) :
    EndAlike leeway failed post (Machine.Then (· = outcome) next) ends := by
  generalize hwaiting : (EStateM.Result.ok () right : Outcome) = waiting at hagree
  cases hagree with
  | @ok _ left _ hmid =>
    cases hwaiting
    rw [Machine.then_ok]
    exact hnext left hmid
  | error | fault | faultRight => cases hwaiting
  | faultLeft hleeway =>
    exact ⟨fun _ ⟨_, hown, hafter⟩ => .inl (by subst hown; exact hafter ▸ hleeway),
      fun _ _ => .inr ⟨_, ⟨_, rfl, rfl⟩, .faultLeft hleeway⟩⟩

/-- Draining goes on behind a step while the right machine waits. -/
theorem EndAlike.of_step {outcome : Outcome}
    {mid post : Machine → Machine → Prop} {ends : Outcome → Prop}
    (hload : base < left.execution.load)
    (hstep : Machine.step host left = .finished outcome)
    (hagree : Agree leeway failed (fun _ => mid) outcome (.ok () right))
    (hnext : ∀ next, mid next right →
      EndAlike leeway failed post (Machine.Drains host base next) ends) :
    EndAlike leeway failed post (Machine.Drains host base left) ends := by
  rw [Machine.drains_of_step hload hstep]
  exact .then_alone hagree hnext

/-- Behind a base that both machines have come to, nothing more is run. -/
theorem EndAlike.of_drained {post : Machine → Machine → Prop} (hload : ¬ base < left.execution.load)
    (hpost : post left right) :
    EndAlike leeway failed post (Machine.Drains host base left) (· = .ok () right) := by
  rw [Machine.drains_of_not_lt hload]
  exact .of_agree (.ok hpost)

/-! ## Parts of the same run -/

namespace Machine

/-- What a machine may die of whatever its program is: of a want of storage, and in step mode
of having to show what has no text. -/
def Perils (machine : Machine) (fault : Fault) : Prop :=
  machine.room ≠ none ∨ machine.config.stepMode = true ∧ fault = .endlessText

/-- Two machines like this one go apart, and either of them may die. -/
def perilous (machine : Machine) : Leeway :=
  ⟨machine.Perils, machine.Perils, .apart⟩

/-- Two parts of a run of the machine come to the same: one ends exactly if the other one
does, with the same result, the same operands, dictionaries, scopes and callback, and if it
succeeds, with the execution stack and the open frames that the machine has.  Only a machine
whose storage is limited, or one in step mode, may die in one of them alone. -/
def SameCourse (machine : Machine) : (first second : Outcome → Prop) → Prop :=
  EndAlike machine.perilous (Alike machine.perilous)
    (Paired machine.perilous machine.control machine.control)

/-- A machine that has been given an operator to run differs from itself in nothing that
matters. -/
theorem Plain.paired_call {machine : Machine} (hplain : machine.Plain) (token : Token) :
    Paired machine.perilous machine.control machine.control
      (machine.schedule token).unscheduled machine where
  alike :=
    { operands := rfl
      store := rfl
      scopes := rfl
      callback := rfl
      plain := { hplain with }
      roomLeft := fun hroom _ => .inl hroom
      roomRight := fun hroom _ => .inl hroom
      stepLeft := fun hstep => .inl (.inr ⟨hstep, rfl⟩)
      stepRight := fun hstep => .inl (.inr ⟨hstep, rfl⟩)
      voice := fun _ => ⟨rfl, rfl⟩
      elimination := id
      level := fun _ => id }
  left := rfl
  right := rfl

end Machine

end StackLang
