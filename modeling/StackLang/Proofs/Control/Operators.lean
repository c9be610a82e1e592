import StackLang.Proofs.Control.Agreement

/-!
# The operators on machines that agree

The operators of the language work on the operands and on the dictionaries, which
alike machines share.  All that they do to the execution stack is to put a token
on it or to open a frame; only `exit` looks at what is there.
-/

namespace StackLang

variable {leeway : Leeway} {failed : Machine → Machine → Prop}

/-- With a frame opened from its parts. -/
def Control.opened (primitive : Primitive) : List Holding → Control → Control
  | [], control => ⟨.primitive primitive :: control.items, control.depth + 1⟩
  | part :: rest, control => opened primitive rest (control.push part.asToken)

/-- What an operator has done to what alike machines are about to do. -/
inductive Started (leeway : Leeway) (first second : Control) (left right : Machine) : Prop where
  | nothing (hpaired : Paired leeway first second left right)
  | token {token : Token} (htoken : token.Plain)
    (hpaired : Paired leeway (first.push token) (second.push token) left right)
  | frame (frame : Frame) (hframe : frame.Sound)
    (hpaired : Paired leeway (first.enter frame) (second.enter frame) left right)

namespace Paired

variable {first second : Control} {left right : Machine}

theorem enterFrame (hpaired : Paired leeway first second left right) :
    Paired leeway ⟨first.items, first.depth + 1⟩ ⟨second.items, second.depth + 1⟩
      left.enterFrame right.enterFrame where
  alike := hpaired.alike.withControl _ _ _ _
  left := by rw [← hpaired.left]; rfl
  right := by rw [← hpaired.right]; rfl

theorem openFrame (hpaired : Paired leeway first second left right) (primitive : Primitive)
    (parts : List Holding) :
    Agree leeway failed (fun _ => Paired leeway (first.opened primitive parts)
        (second.opened primitive parts))
      (Machine.openFrame primitive parts left) (Machine.openFrame primitive parts right) := by
  induction parts generalizing first second left right with
  | nil =>
    exact (hpaired.scheduleNew _ _ _).bind fun _ _ _ hscheduled => .ok hscheduled.enterFrame
  | cons part rest ih =>
    cases part with
    | token token => exact ih (hpaired.schedule token)
    | value value =>
      exact (hpaired.scheduleNew (.ofValue value) rest rest).bind
        fun _ _ _ hscheduled => ih hscheduled

theorem runPop (hpaired : Paired leeway first second left right) :
    Agree leeway (Paired leeway first second) (fun _ => Started leeway first second)
      (Machine.runPop left) (Machine.runPop right) :=
  hpaired.pop.discard fun _ _ _ hpopped => .nothing hpopped.2

theorem runDup (hpaired : Paired leeway first second left right) :
    Agree leeway (Paired leeway first second) (fun _ => Started leeway first second)
      (Machine.runDup left) (Machine.runDup right) := by
  apply Agree.get
  rw [← hpaired.alike.operands]
  refine (hpaired.orFail _).bind fun token next other ⟨htop, hnext⟩ => ?_
  have htoken := hpaired.alike.plain.operands token (TokenStack.mem_of_top htop)
  exact (hnext.pushNew htoken _ _).mono fun _ _ _ => .nothing

theorem runExch (hpaired : Paired leeway first second left right) :
    Agree leeway (Paired leeway first second) (fun _ => Started leeway first second)
      (Machine.runExch left) (Machine.runExch right) := by
  refine hpaired.pop.bind fun upper next other ⟨hupper, hnext⟩ => ?_
  refine hnext.pop.bind fun lower next other ⟨hlower, hnext⟩ => ?_
  exact .ok (.nothing ((hnext.push hupper).push hlower))

theorem runExec (hpaired : Paired leeway first second left right) :
    Agree leeway (Paired leeway first second) (fun _ => Started leeway first second)
      (Machine.runExec left) (Machine.runExec right) := by
  refine hpaired.pop.bind fun token next other ⟨htoken, hnext⟩ => ?_
  exact .ok (.token htoken (hnext.schedule token))

theorem runDefine (hpaired : Paired leeway first second left right) :
    Agree leeway (Paired leeway first second) (fun _ => Started leeway first second)
      (Machine.runDefine left) (Machine.runDefine right) := by
  apply Agree.get
  rw [← hpaired.alike.operands]
  refine (hpaired.orFail _).bind fun _ next other ⟨_, hnext⟩ => ?_
  apply Agree.get
  refine (hnext.orFail _).bind fun named next' other' ⟨_, hnext'⟩ => ?_
  rw [Kind.ofToken_congr (by decide) other.isAlive next.isAlive]
  refine (hnext'.orFail _).bind fun name next other ⟨_, hnext⟩ => ?_
  refine hnext.pop.bind fun token next other ⟨htoken, hnext⟩ => ?_
  refine (hnext.pop.discard fun _ _ _ hpopped => hpopped.2).bind fun _ next other hnext => ?_
  exact (hnext.define name htoken).mono fun _ _ _ => .nothing

theorem binary (hpaired : Paired leeway first second left right) {kind : Kind}
    (hkind : kind ≠ .dictionary) {f : kind.Carrier → kind.Carrier → Token}
    (hf : ∀ a b, (f a b).Plain) :
    Agree leeway (Paired leeway first second) (fun _ => Started leeway first second)
      (Machine.binary kind f left) (Machine.binary kind f right) := by
  refine (hpaired.popAs hkind).bind fun upper next other ⟨_, hnext⟩ => ?_
  refine (hnext.popAs hkind).bind fun lower next other ⟨_, hnext⟩ => ?_
  exact (hnext.pushNew (hf _ _) _ _).mono fun _ _ _ => .nothing

theorem popBody (hpaired : Paired leeway first second left right) :
    Agree leeway (Paired leeway first second) (fun body left right => body.Plain ∧
        Paired leeway first second left right)
      (Machine.popAs .procedure left) (Machine.popAs .procedure right) := by
  refine (hpaired.popAs (by decide)).mono fun body next other hpopped => ?_
  obtain ⟨⟨token, alive, htoken, hread⟩, hnext⟩ := hpopped
  exact ⟨Procedure.every_of_ofToken hread htoken, hnext⟩

theorem runIf (hpaired : Paired leeway first second left right) :
    Agree leeway (Paired leeway first second) (fun _ => Started leeway first second)
      (Machine.runIf left) (Machine.runIf right) := by
  refine hpaired.popBody.bind fun body next other ⟨hbody, hnext⟩ => ?_
  refine (hnext.popAs (by decide)).bind fun condition next other ⟨_, hnext⟩ => ?_
  have hplain : (Token.procedure body).Plain := Token.plain_procedureToken.2 hbody
  cases condition with
  | false => exact .ok (.nothing hnext)
  | true => exact (hnext.scheduleNew _ _ _).mono fun _ _ _ => .token hplain

theorem openLoop (hpaired : Paired leeway first second left right) {body : Procedure}
    (hbody : body.Plain) :
    Agree leeway (Paired leeway first second) (fun _ => Started leeway first second)
      (Machine.openLoop body left) (Machine.openLoop body right) := by
  unfold Machine.openLoop
  split
  · exact .ok (.nothing hpaired)
  · refine (hpaired.openFrame _ _).mono fun _ _ _ hopened => ?_
    exact .frame (.loop body 0) ⟨hbody, counts_zero _⟩ hopened

theorem openRepetition (hpaired : Paired leeway first second left right) (rounds : Int64)
    {body : Procedure} (hbody : body.Plain) :
    Agree leeway (Paired leeway first second) (fun _ => Started leeway first second)
      (Machine.openRepetition rounds body left) (Machine.openRepetition rounds body right) := by
  refine (hpaired.openFrame _ _).mono fun _ _ _ hopened => ?_
  exact .frame (.repetition rounds body (.ofNat body.body.length))
    ⟨hbody, counts_self _⟩ hopened

theorem openCounting (hpaired : Paired leeway first second left right)
    (start increment limit : Int64) {body : Procedure} (hbody : body.Plain) :
    Agree leeway (Paired leeway first second) (fun _ => Started leeway first second)
      (Machine.openCounting start increment limit body left)
      (Machine.openCounting start increment limit body right) := by
  refine (hpaired.openFrame _ _).mono fun _ _ _ hopened => ?_
  exact .frame (.counting increment limit start body (.ofNat body.body.length))
    ⟨hbody, counts_self _⟩ hopened

theorem openForAll (hpaired : Paired leeway first second left right) (indexed : Bool)
    {object : Token} (hobject : object.Plain) {body : Procedure} (hbody : body.Plain) :
    Agree leeway (Paired leeway first second) (fun _ => Started leeway first second)
      (Machine.openForAll indexed object body left)
      (Machine.openForAll indexed object body right) := by
  unfold Machine.openForAll
  cases helements : Machine.elementsOf indexed object with
  | none => exact .error hpaired
  | some found =>
    obtain ⟨count, primitive⟩ := found
    refine (hpaired.openFrame _ _).mono fun _ _ _ hopened => ?_
    have hindexed := (Machine.primitive_of_elementsOf helements).1
    exact .frame (.forAll primitive object (.ofNat count) 0 body)
      ⟨hbody, hobject, count, by rw [hindexed]; exact helements, rfl, counts_zero _⟩ hopened

theorem runLoop (hpaired : Paired leeway first second left right) :
    Agree leeway (Paired leeway first second) (fun _ => Started leeway first second)
      (Machine.runLoop left) (Machine.runLoop right) := by
  refine hpaired.popBody.bind fun body next other ⟨hbody, hnext⟩ => ?_
  exact hnext.openLoop hbody

theorem runRepetition (hpaired : Paired leeway first second left right) :
    Agree leeway (Paired leeway first second) (fun _ => Started leeway first second)
      (Machine.runRepetition left) (Machine.runRepetition right) := by
  refine hpaired.popBody.bind fun body next other ⟨hbody, hnext⟩ => ?_
  refine (hnext.popAs (by decide)).bind fun rounds next other ⟨_, hnext⟩ => ?_
  exact hnext.openRepetition rounds hbody

theorem runCounting (hpaired : Paired leeway first second left right) :
    Agree leeway (Paired leeway first second) (fun _ => Started leeway first second)
      (Machine.runCounting left) (Machine.runCounting right) := by
  apply Agree.get
  rw [← hpaired.alike.operands]
  refine (hpaired.orFail _).bind fun _ next other ⟨_, hnext⟩ => ?_
  refine hnext.popBody.bind fun body next other ⟨hbody, hnext⟩ => ?_
  refine (hnext.popAs (by decide)).bind fun limit next other ⟨_, hnext⟩ => ?_
  refine (hnext.popAs (by decide)).bind fun increment next other ⟨_, hnext⟩ => ?_
  refine (hnext.popAs (by decide)).bind fun start next other ⟨_, hnext⟩ => ?_
  exact hnext.openCounting start increment limit hbody

theorem runForAll (hpaired : Paired leeway first second left right) (indexed : Bool) :
    Agree leeway (Paired leeway first second) (fun _ => Started leeway first second)
      (Machine.runForAll indexed left) (Machine.runForAll indexed right) := by
  refine hpaired.popBody.bind fun body next other ⟨hbody, hnext⟩ => ?_
  refine hnext.pop.bind fun object next other ⟨hobject, hnext⟩ => ?_
  exact hnext.openForAll indexed hobject hbody

/-- Every operator of the language but `exit` does the same on both machines. -/
theorem runOperator (hpaired : Paired leeway first second left right) {operator : Operator}
    (hhost : ∀ name, operator ≠ .host name) (hexit : operator ≠ .exit) :
    Agree leeway (Paired leeway first second) (fun _ => Started leeway first second)
      (Machine.runOperator operator left) (Machine.runOperator operator right) := by
  cases operator with
  | pop => exact hpaired.runPop
  | dup => exact hpaired.runDup
  | exch => exact hpaired.runExch
  | exec => exact hpaired.runExec
  | define => exact hpaired.runDefine
  | addIntegers | subIntegers | mulIntegers | gtIntegers =>
    exact hpaired.binary (by decide) fun _ _ => rfl
  | addDoubles | subDoubles | mulDoubles | gtDoubles =>
    exact hpaired.binary (by decide) fun _ _ => rfl
  | ifTrue => exact hpaired.runIf
  | loop => exact hpaired.runLoop
  | exit => exact absurd rfl hexit
  | repetition => exact hpaired.runRepetition
  | counting => exact hpaired.runCounting
  | forAll => exact hpaired.runForAll false
  | forAllIndexed => exact hpaired.runForAll true
  | host name => exact absurd rfl (hhost name)

end Paired

end StackLang
