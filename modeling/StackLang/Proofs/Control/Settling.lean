import StackLang.Proofs.Control.Ordinary
import StackLang.Proofs.Control.Steps

/-!
# What operations leave to be done

On a machine with ordinary data an operation touches the execution stack in few ways.
Above what it found it leaves complete frames and at most one token to be executed next,
and where it fails it leaves what it found.  This holds whatever is below, be it the
frames of a statement that is still running.
-/

namespace StackLang

/-- A machine with ordinary data that is about to do `control`. -/
structure Poised (control : Control) (machine : Machine) : Prop where
  ahead : machine.control = control
  ordinary : machine.Ordinary

/-- A poised machine with these operands. -/
structure Laden (control : Control) (operands : List Token) (machine : Machine) : Prop
    extends Poised control machine where
  operands_eq : machine.operands.items = operands

/-- An operation succeeds with a value and a machine in a relation, or fails where it
started, or faults. -/
inductive Settles {α : Type} (start : Control) (post : α → Machine → Prop) :
    EStateM.Result Failure Machine α → Prop where
  | ok {value : α} {machine : Machine} (hpost : post value machine) :
    Settles start post (.ok value machine)
  | error {error : Error} {machine : Machine} (hstart : Poised start machine) :
    Settles start post (.error (.error error) machine)
  | fault {fault : Fault} {machine : Machine} : Settles start post (.error (.fault fault) machine)

variable {α β : Type} {start control : Control} {operands : List Token} {machine : Machine}

namespace Settles

theorem mono {mid post : α → Machine → Prop} {result : EStateM.Result Failure Machine α}
    (hsettles : Settles start mid result) (himp : ∀ value machine, mid value machine →
      post value machine) : Settles start post result := by
  cases hsettles with
  | ok hmid => exact .ok (himp _ _ hmid)
  | error hstart => exact .error hstart
  | fault => exact .fault

theorem bind {first : Operation α} {next : α → Operation β} {mid : α → Machine → Prop}
    {post : β → Machine → Prop} (hfirst : Settles start mid (first machine))
    (hnext : ∀ value machine, mid value machine → Settles start post (next value machine)) :
    Settles start post ((first >>= next) machine) := by
  simp only [Bind.bind, EStateM.bind]
  generalize first machine = ended at hfirst
  cases hfirst with
  | ok hmid => exact hnext _ _ hmid
  | error hstart => exact .error hstart
  | fault => exact .fault

/-- What an operation does with the machine that it reads. -/
theorem get {next : Machine → Operation β} {post : β → Machine → Prop}
    (hsettles : Settles start post (next machine machine)) :
    Settles start post ((MonadState.get >>= next) machine) :=
  hsettles

/-- What an operation does after it has changed the machine. -/
theorem modify {change : Machine → Machine} {next : Unit → Operation β}
    {post : β → Machine → Prop} (hsettles : Settles start post (next () (change machine))) :
    Settles start post
      (((fun machine => .ok () (change machine) : Operation Unit) >>= next) machine) :=
  hsettles

theorem discard {first : Operation α} {mid : α → Machine → Prop} {post : Machine → Prop}
    (hsettles : Settles start mid (first machine))
    (hpost : ∀ value machine, mid value machine → post machine) :
    Settles start (fun _ => post) ((Functor.discard first) machine) := by
  rw [Operation.discard_eq_bind]
  exact hsettles.bind fun value machine hmid => .ok (hpost value machine hmid)

end Settles

namespace Poised

theorem laden (hpoised : Poised control machine) :
    Laden control machine.operands.items machine :=
  ⟨hpoised, rfl⟩

theorem restated (hpoised : Poised control machine) {next : Machine}
    (hnext : Restated machine next) : Poised control next :=
  ⟨hnext.control.trans hpoised.ahead, hnext.ordinary hpoised.ordinary⟩

theorem orFail (hpoised : Poised control machine) (result : Except Error α) :
    Settles control (fun value next => result = .ok value ∧ Poised control next)
      (Machine.orFail result machine) := by
  cases result with
  | ok value => exact .ok ⟨rfl, hpoised⟩
  | error error => exact .error hpoised

end Poised

/-! ## Operands -/

namespace Laden

theorem orFail (hladen : Laden control operands machine) (result : Except Error α) :
    Settles control (fun value next => result = .ok value ∧ Laden control operands next)
      (Machine.orFail result machine) := by
  cases result with
  | ok value => exact .ok ⟨rfl, hladen⟩
  | error error => exact .error hladen.toPoised

theorem restated (hladen : Laden control operands machine) {next : Machine}
    (hnext : Restated machine next) : Laden control operands next :=
  ⟨hladen.toPoised.restated hnext, hnext.operands ▸ hladen.operands_eq⟩

theorem claim_restated (hladen : Laden control operands machine) (inHand : List Holding) :
    Settles start (fun _ next => Laden control operands next ∧ Restated machine next)
      (Machine.claim inHand machine) := by
  obtain ⟨next, hclaim, hnext⟩ | ⟨fault, hclaim, -⟩ := Restated.claim inHand machine
  · rw [hclaim]
    exact .ok ⟨hladen.restated hnext, hnext⟩
  · rw [hclaim]
    exact .fault

theorem claim (hladen : Laden control operands machine) (inHand : List Holding) :
    Settles start (fun _ => Laden control operands) (Machine.claim inHand machine) :=
  (hladen.claim_restated inHand).mono fun _ _ hclaimed => hclaimed.1

/-- What is said, or cannot be said, leaves everything in place. -/
theorem speak_restated {operation : Operation Unit} (hladen : Laden control operands machine)
    (hspeaks : Machine.Speaks operation) :
    Settles start (fun _ next => Laden control operands next ∧ Restated machine next)
      (operation machine) := by
  obtain ⟨next, hnext, hsaid | ⟨hsilent, -⟩⟩ := hspeaks machine
  · rw [hsaid]
    exact .ok ⟨hladen.restated hnext, hnext⟩
  · rw [hsilent]
    exact .fault

theorem speak {operation : Operation Unit} (hladen : Laden control operands machine)
    (hspeaks : Machine.Speaks operation) :
    Settles start (fun _ => Laden control operands) (operation machine) :=
  (hladen.speak_restated hspeaks).mono fun _ _ hspoken => hspoken.1

theorem push (hladen : Laden control operands machine) {token : Token} (htoken : token.Ordinary) :
    Laden control (token :: operands) (machine.push token) where
  ahead := hladen.ahead
  ordinary :=
    { hladen.ordinary with
      operands := by
        intro other hmem
        obtain rfl | hbelow := List.mem_cons.1 hmem
        · exact htoken
        · exact hladen.ordinary.operands other hbelow }
  operands_eq := congrArg (token :: ·) hladen.operands_eq

theorem pushNew (hladen : Laden control operands machine) {token : Token}
    (htoken : token.Ordinary) (inHand : List Holding) :
    Settles start (fun _ => Laden control (token :: operands))
      (Machine.pushNew token inHand machine) :=
  (hladen.claim _).bind fun _ _ hclaimed => .ok (hclaimed.push htoken)

theorem schedule (hladen : Laden control operands machine) (token : Token) :
    Laden (control.push token) operands (machine.schedule token) where
  ahead := congrArg (Control.push token) hladen.ahead
  ordinary := { hladen.ordinary with }
  operands_eq := hladen.operands_eq

theorem scheduleNew (hladen : Laden control operands machine) (token : Token)
    (inHand : List Holding) :
    Settles start (fun _ => Laden (control.push token) operands)
      (Machine.scheduleNew token inHand machine) :=
  (hladen.claim _).bind fun _ _ hclaimed => .ok (hclaimed.schedule token)

/-- A token that was popped was the topmost operand. -/
theorem pop (hladen : Laden control operands machine) :
    Settles control (fun token next => ∃ below, operands = token :: below ∧ token.Ordinary ∧
        Laden control below next)
      (Machine.pop machine) := by
  rw [Machine.pop_eq]
  cases hitems : machine.operands.items with
  | nil => exact .error hladen.toPoised
  | cons token below =>
    have hordinary : ∀ own ∈ token :: below, own.Ordinary := hitems ▸ hladen.ordinary.operands
    refine .ok ⟨below, hladen.operands_eq.symm.trans hitems, hordinary token (by simp), ?_⟩
    have hbelow : (machine.operands.dropTop 1).items = below := by simp [hitems]
    exact
      { ahead := hladen.ahead
        ordinary :=
          { hladen.ordinary with
            operands := fun own hmem => hordinary own (.tail _ (hbelow ▸ hmem)) }
        operands_eq := hbelow }

/-- A popped value was that of the topmost operand. -/
theorem popAs (hladen : Laden control operands machine) (kind : Kind) :
    Settles control (fun value next => ∃ token below alive, operands = token :: below ∧
        token.Ordinary ∧ kind.ofToken alive token = .ok value ∧ Laden control below next)
      (Machine.popAs kind machine) := by
  apply Settles.get
  refine (hladen.orFail _).bind fun token next ⟨htop, hnext⟩ => ?_
  refine (hnext.orFail _).bind fun value next ⟨hread, hnext⟩ => ?_
  refine (hnext.claim _).bind fun _ next hnext => ?_
  have hhead : operands.head? = some token := hladen.operands_eq ▸ TokenStack.head?_of_top htop
  have hpop : Settles control (fun _ next => ∃ below, operands = token :: below ∧
      token.Ordinary ∧ Laden control below next) (Machine.pop next) := by
    refine hnext.pop.mono fun popped next ⟨below, hoperands, htoken, hnext⟩ => ?_
    obtain rfl : popped = token := by simpa [hoperands] using hhead
    exact ⟨below, hoperands, htoken, hnext⟩
  refine (hpop.discard fun _ _ hpopped => hpopped).bind
    fun _ next ⟨below, hoperands, htoken, hnext⟩ => .ok ?_
  exact ⟨token, below, _, hoperands, htoken, hread, hnext⟩

end Laden

namespace Poised

theorem claim (hpoised : Poised control machine) (inHand : List Holding) :
    Settles start (fun _ => Poised control) (Machine.claim inHand machine) :=
  (hpoised.laden.claim inHand).mono fun _ _ hclaimed => hclaimed.toPoised

theorem push (hpoised : Poised control machine) {token : Token} (htoken : token.Ordinary) :
    Poised control (machine.push token) :=
  (hpoised.laden.push htoken).toPoised

theorem pushNew (hpoised : Poised control machine) {token : Token} (htoken : token.Ordinary)
    (inHand : List Holding) :
    Settles start (fun _ => Poised control) (Machine.pushNew token inHand machine) :=
  (hpoised.laden.pushNew htoken inHand).mono fun _ _ hpushed => hpushed.toPoised

theorem schedule (hpoised : Poised control machine) (token : Token) :
    Poised (control.push token) (machine.schedule token) :=
  (hpoised.laden.schedule token).toPoised

theorem scheduleNew (hpoised : Poised control machine) (token : Token) (inHand : List Holding) :
    Settles start (fun _ => Poised (control.push token))
      (Machine.scheduleNew token inHand machine) :=
  (hpoised.laden.scheduleNew token inHand).mono fun _ _ hscheduled => hscheduled.toPoised

theorem pop (hpoised : Poised control machine) :
    Settles control (fun token next => token.Ordinary ∧ Poised control next)
      (Machine.pop machine) :=
  hpoised.laden.pop.mono fun _ _ ⟨_, _, htoken, hpopped⟩ => ⟨htoken, hpopped.toPoised⟩

/-- A popped value was that of an ordinary token. -/
theorem popAs (hpoised : Poised control machine) (kind : Kind) :
    Settles control (fun value next =>
        (∃ token alive, token.Ordinary ∧ kind.ofToken alive token = .ok value) ∧
          Poised control next)
      (Machine.popAs kind machine) :=
  (hpoised.laden.popAs kind).mono fun _ _ ⟨token, _, alive, _, htoken, hread, hpopped⟩ =>
    ⟨⟨token, alive, htoken, hread⟩, hpopped.toPoised⟩

theorem popBody (hpoised : Poised control machine) :
    Settles control (fun body next => body.Ordinary ∧ Poised control next)
      (Machine.popAs .procedure machine) := by
  refine (hpoised.popAs .procedure).mono fun body next ⟨⟨token, alive, htoken, hread⟩, hnext⟩ => ?_
  exact ⟨Procedure.every_of_ofToken hread htoken, hnext⟩

theorem withStore (hpoised : Poised control machine) {store : Store} (hstore : store.Ordinary) :
    Poised control { machine with store } :=
  ⟨hpoised.ahead, { hpoised.ordinary with store := hstore }⟩

theorem define (hpoised : Poised control machine) (name : Name) {token : Token}
    (htoken : token.Ordinary) :
    Settles control (fun _ => Poised control) (Machine.define name token machine) := by
  have hwritten : Poised control
      { machine with store := machine.store.insert machine.scopes.top name token } :=
    hpoised.withStore (Store.stable_ordinary.insert hpoised.ordinary.store htoken _ _)
  apply Settles.get
  simp only
  cases (machine.store.dictionary machine.scopes.top).peek? name with
  | none => exact .ok hwritten
  | some bound =>
    simp only
    split
    · exact .error hpoised
    · exact .ok hwritten

theorem lookup (hpoised : Poised control machine) (name : Name) :
    Settles control (fun found next => (∀ token ∈ found, token.Ordinary) ∧ Poised control next)
      (Machine.lookup name machine) := by
  apply Settles.get
  simp only [Scopes.lookup_eq]
  cases machine.scopes.whereDefined? machine.store name with
  | none => exact .ok ⟨by simp, hpoised⟩
  | some id =>
    simp only [Option.bind_some]
    cases hfound : machine.store.slot? id name with
    | none => exact .ok ⟨by simp, hpoised⟩
    | some slot =>
      have hstore := hpoised.ordinary.store
      have htoken := hstore id _ (Dictionary.mem_tokens_of_get? hfound)
      have htouched : Poised control
          { machine with store := machine.store.touch id name } :=
        hpoised.withStore (Store.stable_ordinary.within hstore Store.within_touch)
      refine (htouched.claim [.token slot.token]).bind fun _ next hnext => .ok ⟨?_, hnext⟩
      simpa using htoken

end Poised

/-! ## Operators -/

/-- Above `base` there are frames with ordinary data and at most one ordinary token to be
executed next. -/
def Standing (base : Control) (machine : Machine) : Prop :=
  ∃ (pending : Option Token) (frames : List Frame),
    (∀ token ∈ pending, token.Ordinary) ∧ (∀ frame ∈ frames, frame.Ordinary) ∧
      Poised ((base.within frames).awaiting pending) machine

namespace Poised

theorem standing (hpoised : Poised control machine) : Standing control machine :=
  ⟨none, [], by simp, by simp, hpoised⟩

theorem standing_pending {token : Token} (hpoised : Poised (control.push token) machine)
    (htoken : token.Ordinary) : Standing control machine :=
  ⟨some token, [], by simpa using htoken, by simp, hpoised⟩

theorem standing_frame (frame : Frame) (hpoised : Poised (control.enter frame) machine)
    (hframe : frame.Ordinary) : Standing control machine :=
  ⟨none, [frame], by simp, by simpa using hframe, hpoised⟩

theorem enterFrame (hpoised : Poised control machine) :
    Poised ⟨control.items, control.depth + 1⟩ machine.enterFrame :=
  ⟨by rw [← hpoised.ahead]; rfl, { hpoised.ordinary with }⟩

theorem openFrame (hpoised : Poised control machine) (primitive : Primitive)
    (parts : List Holding) :
    Settles start (fun _ => Poised (control.opened primitive parts))
      (Machine.openFrame primitive parts machine) := by
  induction parts generalizing control machine with
  | nil => exact (hpoised.scheduleNew _ _).bind fun _ _ hscheduled => .ok hscheduled.enterFrame
  | cons part rest ih =>
    cases part with
    | token token => exact ih (hpoised.schedule token)
    | value value =>
      exact (hpoised.scheduleNew (.ofValue value) rest).bind fun _ _ hscheduled => ih hscheduled

end Poised

theorem Kind.integer?_of_ofToken {alive : DictId → Bool} {token : Token} {n : Int64}
    (hread : Kind.integer.ofToken alive token = .ok n) : integer? token = some n := by
  cases token with
  | void => cases hread
  | datum value attributes =>
    cases value with
    | integer own => exact congrArg some (Except.ok.inj hread)
    | _ => cases hread

/-- A token is to be executed next above `control`. -/
def Due (control : Control) (machine : Machine) : Prop :=
  ∃ token : Token, token.Ordinary ∧ Poised (control.push token) machine

/-- A frame as it is opened, where `operands` were the operands before. -/
def Frame.Fresh (operands : List Token) : Frame → Prop
  | procedure _ _ position | loop _ position | forAll _ _ _ position _ => position = 0
  | repetition rounds body position =>
    operands[1]?.bind Kind.integer? = some rounds ∧ position = .ofNat body.body.length
  | counting _ _ _ body position => position = .ofNat body.body.length

/-- What a token leaves where it is executed with these operands: nothing, a token to be
executed next, or a frame that it has opened. -/
inductive Issues (control : Control) (operands : List Token) (machine : Machine) : Prop where
  | rested (hpoised : Poised control machine)
  | pending {token : Token} (htoken : token.Ordinary)
    (hpoised : Poised (control.push token) machine)
  | opened (frame : Frame) (hframe : frame.Ordinary) (hfresh : frame.Fresh operands)
    (hpoised : Poised (control.enter frame) machine)

theorem Issues.standing (hissues : Issues control operands machine) :
    Standing control machine := by
  cases hissues with
  | rested hpoised => exact hpoised.standing
  | pending htoken hpoised => exact hpoised.standing_pending htoken
  | opened frame hframe _ hpoised => exact hpoised.standing_frame frame hframe

/-- What an operator leaves where it is called with these operands: nothing, a token to be
executed next, or a loop that it has opened. -/
inductive Offers (control : Control) (operands : List Token) (machine : Machine) : Prop where
  | rested (hpoised : Poised control machine)
  | pending {token : Token} (htoken : token.Ordinary)
    (hpoised : Poised (control.push token) machine)
  | opened (frame : Frame) (hloop : frame.isLoop = true) (hframe : frame.Ordinary)
    (hfresh : frame.Fresh operands) (hpoised : Poised (control.enter frame) machine)

theorem Offers.issues (hoffers : Offers control operands machine) :
    Issues control operands machine := by
  cases hoffers with
  | rested hpoised => exact .rested hpoised
  | pending htoken hpoised => exact .pending htoken hpoised
  | opened frame _ hframe hfresh hpoised => exact .opened frame hframe hfresh hpoised

namespace Poised

theorem runPop (hpoised : Poised control machine) :
    Settles control (fun _ => Offers control operands) (Machine.runPop machine) :=
  hpoised.pop.discard fun _ _ hpopped => .rested hpopped.2

theorem runDup (hpoised : Poised control machine) :
    Settles control (fun _ => Offers control operands) (Machine.runDup machine) := by
  apply Settles.get
  refine (hpoised.orFail _).bind fun token next ⟨htop, hnext⟩ => ?_
  have htoken := hpoised.ordinary.operands token (TokenStack.mem_of_top htop)
  exact (hnext.pushNew htoken _).mono fun _ _ => .rested

theorem runExch (hpoised : Poised control machine) :
    Settles control (fun _ => Offers control operands) (Machine.runExch machine) := by
  refine hpoised.pop.bind fun upper next ⟨hupper, hnext⟩ => ?_
  refine hnext.pop.bind fun lower next ⟨hlower, hnext⟩ => ?_
  exact .ok (.rested ((hnext.push hupper).push hlower))

theorem runExec (hpoised : Poised control machine) :
    Settles control (fun _ => Due control) (Machine.runExec machine) := by
  refine hpoised.pop.bind fun token next ⟨htoken, hnext⟩ => ?_
  exact .ok ⟨token, htoken, hnext.schedule token⟩

theorem runDefine (hpoised : Poised control machine) :
    Settles control (fun _ => Offers control operands) (Machine.runDefine machine) := by
  apply Settles.get
  refine (hpoised.orFail _).bind fun _ next ⟨_, hnext⟩ => ?_
  apply Settles.get
  refine (hnext.orFail _).bind fun named next ⟨_, hnext⟩ => ?_
  refine (hnext.orFail _).bind fun name next ⟨_, hnext⟩ => ?_
  refine hnext.pop.bind fun token next ⟨htoken, hnext⟩ => ?_
  refine (hnext.pop.discard fun _ _ hpopped => hpopped.2).bind fun _ next hnext => ?_
  exact (hnext.define name htoken).mono fun _ _ => .rested

theorem binary (hpoised : Poised control machine) {kind : Kind}
    {f : kind.Carrier → kind.Carrier → Token} (hf : ∀ a b, (f a b).Ordinary) :
    Settles control (fun _ => Offers control operands) (Machine.binary kind f machine) := by
  refine (hpoised.popAs kind).bind fun upper next ⟨_, hnext⟩ => ?_
  refine (hnext.popAs kind).bind fun lower next ⟨_, hnext⟩ => ?_
  exact (hnext.pushNew (hf _ _) _).mono fun _ _ => .rested

/-- The condition is the operand below the body. -/
theorem runIf (hladen : Laden control operands machine) :
    Settles control (fun _ next => ∃ lower alive condition, operands[1]? = some lower ∧
        Kind.boolean.ofToken alive lower = .ok condition ∧
        (condition = true → Due control next) ∧ (condition = false → Poised control next))
      (Machine.runIf machine) := by
  refine (hladen.popAs .procedure).bind
    fun body next ⟨upper, below, _, hupper, hordinary, hread, hnext⟩ => ?_
  have hbody : body.Ordinary := Procedure.every_of_ofToken hread hordinary
  refine (hnext.popAs .boolean).bind
    fun condition next ⟨lower, rest, alive, hlower, _, hread, hnext⟩ => ?_
  have hbelow : operands[1]? = some lower := by rw [hupper, hlower]; rfl
  have htoken : (Token.procedure body).Ordinary := Token.ordinary_procedureToken.2 hbody
  cases condition with
  | false => exact .ok ⟨lower, alive, false, hbelow, hread, by simp, fun _ => hnext.toPoised⟩
  | true =>
    refine (hnext.scheduleNew _ _).mono fun _ _ hscheduled => ?_
    exact ⟨lower, alive, true, hbelow, hread, fun _ => ⟨_, htoken, hscheduled.toPoised⟩, by simp⟩

theorem openLoop (hpoised : Poised control machine) {body : Procedure}
    (hbody : body.Ordinary) :
    Settles start (fun _ => Offers control operands) (Machine.openLoop body machine) := by
  unfold Machine.openLoop
  split
  · exact .ok (.rested hpoised)
  · exact (hpoised.openFrame _ _).mono fun _ _ => .opened (.loop body 0) rfl hbody rfl

theorem openRepetition (hpoised : Poised control machine) {rounds : Int64} {body : Procedure}
    (hbody : body.Ordinary) (hasked : operands[1]?.bind Kind.integer? = some rounds) :
    Settles start (fun _ => Offers control operands)
      (Machine.openRepetition rounds body machine) :=
  (hpoised.openFrame _ _).mono fun _ _ =>
    .opened (.repetition rounds body (.ofNat body.body.length)) rfl hbody ⟨hasked, rfl⟩

theorem openCounting (hpoised : Poised control machine) (first increment limit : Int64)
    {body : Procedure} (hbody : body.Ordinary) :
    Settles start (fun _ => Offers control operands)
      (Machine.openCounting first increment limit body machine) :=
  (hpoised.openFrame _ _).mono fun _ _ =>
    .opened (.counting increment limit first body (.ofNat body.body.length)) rfl hbody rfl

theorem openForAll (hpoised : Poised control machine) (indexed : Bool) {object : Token}
    (hobject : object.Ordinary) {body : Procedure} (hbody : body.Ordinary) :
    Settles control (fun _ => Offers control operands)
      (Machine.openForAll indexed object body machine) := by
  unfold Machine.openForAll
  cases helements : Machine.elementsOf indexed object with
  | none => exact .error hpoised
  | some found =>
    obtain ⟨count, primitive⟩ := found
    refine (hpoised.openFrame _ _).mono fun _ _ =>
      .opened (.forAll primitive object (.ofNat count) 0 body) rfl ?_ rfl
    exact ⟨hbody, hobject, indexed, count, helements, rfl, Int64.le_refl 0⟩

theorem runLoop (hpoised : Poised control machine) :
    Settles control (fun _ => Offers control operands) (Machine.runLoop machine) :=
  hpoised.popBody.bind fun _ _ ⟨hbody, hnext⟩ => hnext.openLoop hbody

/-- The number of rounds is the operand below the body. -/
theorem runRepetition (hladen : Laden control operands machine) :
    Settles control (fun _ => Offers control operands) (Machine.runRepetition machine) := by
  refine (hladen.popAs .procedure).bind
    fun body next ⟨upper, below, _, hupper, hordinary, hread, hnext⟩ => ?_
  have hbody : body.Ordinary := Procedure.every_of_ofToken hread hordinary
  refine (hnext.popAs .integer).bind
    fun rounds next ⟨lower, rest, _, hlower, _, hread, hnext⟩ => ?_
  refine hnext.toPoised.openRepetition hbody ?_
  subst hupper hlower
  exact Kind.integer?_of_ofToken hread

theorem runCounting (hpoised : Poised control machine) :
    Settles control (fun _ => Offers control operands) (Machine.runCounting machine) := by
  apply Settles.get
  refine (hpoised.orFail _).bind fun _ next ⟨_, hnext⟩ => ?_
  refine hnext.popBody.bind fun body next ⟨hbody, hnext⟩ => ?_
  refine (hnext.popAs .integer).bind fun limit next ⟨_, hnext⟩ => ?_
  refine (hnext.popAs .integer).bind fun increment next ⟨_, hnext⟩ => ?_
  refine (hnext.popAs .integer).bind fun first next ⟨_, hnext⟩ => ?_
  exact hnext.openCounting first increment limit hbody

theorem runForAll (hpoised : Poised control machine) (indexed : Bool) :
    Settles control (fun _ => Offers control operands) (Machine.runForAll indexed machine) := by
  refine hpoised.popBody.bind fun body next ⟨hbody, hnext⟩ => ?_
  refine hnext.pop.bind fun object next ⟨hobject, hnext⟩ => ?_
  exact hnext.openForAll indexed hobject hbody

/-- Every operator of the language but `exit` leaves what it found below a frame or a
token at most. -/
theorem runOperator (hpoised : Poised control machine) {operator : Operator}
    (hexit : operator ≠ .exit) :
    Settles control (fun _ => Offers control machine.operands.items)
      (Machine.runOperator operator machine) := by
  cases operator with
  | pop => exact hpoised.runPop
  | dup => exact hpoised.runDup
  | exch => exact hpoised.runExch
  | exec => exact hpoised.runExec.mono fun _ _ ⟨_, htoken, hnext⟩ => .pending htoken hnext
  | define => exact hpoised.runDefine
  | addIntegers | subIntegers | mulIntegers | gtIntegers => exact hpoised.binary fun _ _ => rfl
  | addDoubles | subDoubles | mulDoubles | gtDoubles => exact hpoised.binary fun _ _ => rfl
  | ifTrue =>
    refine (runIf hpoised.laden).mono fun _ _ ⟨_, _, condition, _, _, hdue, hrests⟩ => ?_
    cases condition with
    | false => exact .rested (hrests rfl)
    | true =>
      obtain ⟨_, htoken, hnext⟩ := hdue rfl
      exact .pending htoken hnext
  | loop => exact hpoised.runLoop
  | exit => exact absurd rfl hexit
  | repetition => exact runRepetition hpoised.laden
  | counting => exact hpoised.runCounting
  | forAll => exact hpoised.runForAll false
  | forAllIndexed => exact hpoised.runForAll true
  | host name => exact .ok (.rested hpoised)

end Poised

end StackLang
