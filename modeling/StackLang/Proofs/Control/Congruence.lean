import StackLang.Proofs.Control.Agreement
import StackLang.Proofs.Store.Rendering

/-!
# Relations that the language respects

Some differences between two machines make none to the language: its operators and the steps
of its frames do the same to both and leave them as different as they were.  Such a relation
has to survive the few operations and changes that all others are made of.  What is made of
them respects it then, and this is settled here once for every such relation.
-/

namespace StackLang

/-- When two results of an operation count as the same. -/
abbrev Sameness :=
  ∀ ⦃α : Type⦄, EStateM.Result Failure Machine α → EStateM.Result Failure Machine α → Prop

/-- The operation does the same to machines in the relation. -/
def Respects (related : Machine → Machine → Prop) (same : Sameness) {α : Type}
    (operation : Operation α) : Prop :=
  ∀ ⦃machine twin⦄, related machine twin → same (operation machine) (operation twin)

/-- Machines in the relation are about to do the same with the same operands.  They stay in it
when both are changed alike, and when both do what depends on the rest of them: claim storage,
write a binding or read one. -/
structure Congruence (related : Machine → Machine → Prop) (same : Sameness) : Prop where
  ok {α : Type} {machine twin : Machine} (value : α) (hrelated : related machine twin) :
    same (.ok value machine) (.ok value twin)
  error {α : Type} {machine twin : Machine} (failure : Failure)
    (hrelated : related machine twin) :
    same (.error failure machine : EStateM.Result Failure Machine α) (.error failure twin)
  followed {α β : Type} {first : Operation α} {next : α → Operation β} {machine twin : Machine}
    (hfirst : same (first machine) (first twin))
    (hnext : ∀ value, Respects related same (next value)) :
    same ((first >>= next) machine) ((first >>= next) twin)
  operands {machine twin : Machine} (hrelated : related machine twin) :
    twin.operands = machine.operands
  execution {machine twin : Machine} (hrelated : related machine twin) :
    twin.execution = machine.execution
  table {machine twin : Machine} (hrelated : related machine twin) (id : TableId) :
    twin.store.table id = machine.store.table id
  elimination {machine twin : Machine} (hrelated : related machine twin) :
    twin.config.tailElimination = machine.config.tailElimination
  withOperands {machine twin : Machine} (hrelated : related machine twin)
    (operands : TokenStack) : related { machine with operands } { twin with operands }
  withControl {machine twin : Machine} (hrelated : related machine twin)
    (execution : TokenStack) (count : Nat → Nat) :
    related { machine with execution, depth := count machine.depth }
      { twin with execution, depth := count twin.depth }
  report {machine twin : Machine} (hrelated : related machine twin) (event : Event) :
    related (machine.report event) (twin.report event)
  note {text : Store → Option String}
    (hends : ∀ store, text store = none → ∃ id, store.Endless id) :
    Respects related same (Machine.note text)
  pause (body : List Token) (position : Int64) : Respects related same (Machine.pause body position)
  claim (inHand : List Holding) : Respects related same (Machine.claim inHand)
  define (name : Name) (token : Token) : Respects related same (Machine.define name token)
  lookup (name : Name) : Respects related same (Machine.lookup name)

variable {α β : Type} {related : Machine → Machine → Prop} {same : Sameness}

/-- An operation may look at the machine, as long as it does the same with both. -/
theorem Respects.get {next : Machine → Operation α}
    (hnext : ∀ ⦃machine twin⦄, related machine twin →
      same (next machine machine) (next twin twin)) :
    Respects related same (MonadState.get >>= next) :=
  fun _ _ hrelated => hnext hrelated

namespace Congruence

theorem pure (hcongruence : Congruence related same) (value : α) :
    Respects related same (Pure.pure value) :=
  fun _ _ hrelated => hcongruence.ok value hrelated

theorem throw (hcongruence : Congruence related same) (failure : Failure) :
    Respects related same (MonadExcept.throw failure : Operation α) :=
  fun _ _ hrelated => hcongruence.error failure hrelated

theorem bind (hcongruence : Congruence related same) {first : Operation α}
    {next : α → Operation β} (hfirst : Respects related same first)
    (hnext : ∀ value, Respects related same (next value)) :
    Respects related same (first >>= next) :=
  fun _ _ hrelated => hcongruence.followed (hfirst hrelated) hnext

theorem modify (hcongruence : Congruence related same) {change : Machine → Machine}
    (hchange : ∀ ⦃machine twin⦄, related machine twin → related (change machine) (change twin)) :
    Respects related same (fun machine => .ok () (change machine) : Operation Unit) :=
  fun _ _ hrelated => hcongruence.ok () (hchange hrelated)

theorem discard (hcongruence : Congruence related same) {operation : Operation α}
    (hrespects : Respects related same operation) :
    Respects related same (Functor.discard operation) := by
  rw [Operation.discard_eq_bind]
  exact hcongruence.bind hrespects fun _ => hcongruence.pure ()

theorem orFail (hcongruence : Congruence related same) (result : Except Error α) :
    Respects related same (Machine.orFail result) := by
  cases result with
  | ok value => exact hcongruence.pure value
  | error error => exact hcongruence.throw _

/-- What follows a result may depend on the machine that was read before. -/
theorem orFail_bind (hcongruence : Congruence related same) {machine twin : Machine}
    (hrelated : related machine twin) (result : Except Error α) {next further : α → Operation β}
    (hnext : ∀ value, same (next value machine) (further value twin)) :
    same ((Machine.orFail result >>= next) machine)
      ((Machine.orFail result >>= further) twin) := by
  cases result with
  | ok value => exact hnext value
  | error error => exact hcongruence.error _ hrelated

/-! ## Operands -/

theorem push (hcongruence : Congruence related same) (token : Token) :
    Respects related same (fun machine => .ok () (machine.push token) : Operation Unit) := by
  refine hcongruence.modify fun machine twin hrelated => ?_
  rw [Machine.push, Machine.push, hcongruence.operands hrelated]
  exact hcongruence.withOperands hrelated _

theorem schedule (hcongruence : Congruence related same) (token : Token) :
    Respects related same (fun machine => .ok () (machine.schedule token) : Operation Unit) := by
  refine hcongruence.modify fun machine twin hrelated => ?_
  rw [Machine.schedule, Machine.schedule, hcongruence.execution hrelated]
  exact hcongruence.withControl hrelated _ id

theorem enterFrame (hcongruence : Congruence related same) :
    Respects related same (fun machine => .ok () machine.enterFrame : Operation Unit) := by
  refine hcongruence.modify fun machine twin hrelated => ?_
  change related { machine with execution := machine.execution, depth := machine.depth + 1 }
    { twin with execution := twin.execution, depth := twin.depth + 1 }
  rw [hcongruence.execution hrelated]
  exact hcongruence.withControl hrelated _ (· + 1)

theorem pushNew (hcongruence : Congruence related same) (token : Token) (inHand : List Holding) :
    Respects related same (Machine.pushNew token inHand) :=
  hcongruence.bind (hcongruence.claim _) fun _ => hcongruence.push token

theorem scheduleNew (hcongruence : Congruence related same) (token : Token)
    (inHand : List Holding) : Respects related same (Machine.scheduleNew token inHand) :=
  hcongruence.bind (hcongruence.claim _) fun _ => hcongruence.schedule token

theorem pop (hcongruence : Congruence related same) : Respects related same Machine.pop := by
  refine Respects.get fun machine twin hrelated => ?_
  rw [hcongruence.operands hrelated]
  have hrest : Respects related same (do
      let popped ← Machine.orFail machine.operands.pop
      MonadState.modifyGet fun machine => ((), { machine with operands := popped.2 })
      return popped.1 : Operation Token) :=
    hcongruence.bind (hcongruence.orFail _) fun popped =>
      hcongruence.bind
        (hcongruence.modify fun _ _ hrelated => hcongruence.withOperands hrelated popped.2)
        fun _ => hcongruence.pure _
  exact hrest hrelated

/-- A kind can be popped if it is read in the same way on both machines. -/
theorem popAs_of_reads (hcongruence : Congruence related same) {kind : Kind}
    (hreads : ∀ ⦃machine twin⦄, related machine twin →
      kind.ofToken twin.isAlive = kind.ofToken machine.isAlive) :
    Respects related same (Machine.popAs kind) := by
  refine Respects.get fun machine twin hrelated => ?_
  rw [hcongruence.operands hrelated, hreads hrelated]
  have hrest : Respects related same (do
      let token ← Machine.orFail machine.operands.top
      let value ← Machine.orFail (kind.ofToken machine.isAlive token)
      Machine.claim ((kind.copiedTokens value).map .token)
      Functor.discard Machine.pop
      return value : Operation kind.Carrier) :=
    hcongruence.bind (hcongruence.orFail _) fun token =>
      hcongruence.bind (hcongruence.orFail _) fun value =>
        hcongruence.bind (hcongruence.claim _) fun _ =>
          hcongruence.bind (hcongruence.discard hcongruence.pop) fun _ => hcongruence.pure _
  exact hrest hrelated

theorem popAs (hcongruence : Congruence related same) {kind : Kind}
    (hkind : kind ≠ .dictionary) : Respects related same (Machine.popAs kind) :=
  hcongruence.popAs_of_reads fun _ _ _ => funext fun token => Kind.ofToken_congr hkind _ _ token

/-! ## Operators -/

theorem openFrame (hcongruence : Congruence related same) (primitive : Primitive)
    (parts : List Holding) : Respects related same (Machine.openFrame primitive parts) := by
  induction parts with
  | nil => exact hcongruence.bind (hcongruence.scheduleNew _ _) fun _ => hcongruence.enterFrame
  | cons part rest ih =>
    cases part with
    | token token => exact hcongruence.bind (hcongruence.schedule token) fun _ => ih
    | value value => exact hcongruence.bind (hcongruence.scheduleNew _ _) fun _ => ih

theorem openLoop (hcongruence : Congruence related same) (body : Procedure) :
    Respects related same (Machine.openLoop body) := by
  unfold Machine.openLoop
  split
  · exact hcongruence.pure _
  · exact hcongruence.openFrame _ _

theorem openForAll (hcongruence : Congruence related same) (indexed : Bool) (object : Token)
    (body : Procedure) : Respects related same (Machine.openForAll indexed object body) := by
  unfold Machine.openForAll
  cases Machine.elementsOf indexed object with
  | none => exact hcongruence.throw _
  | some found => exact hcongruence.openFrame _ _

theorem binary (hcongruence : Congruence related same) {kind : Kind}
    (hkind : kind ≠ .dictionary) (f : kind.Carrier → kind.Carrier → Token) :
    Respects related same (Machine.binary kind f) :=
  hcongruence.bind (hcongruence.popAs hkind) fun _ =>
    hcongruence.bind (hcongruence.popAs hkind) fun _ => hcongruence.pushNew _ _

theorem runDup (hcongruence : Congruence related same) :
    Respects related same Machine.runDup := by
  refine Respects.get fun machine twin hrelated => ?_
  rw [hcongruence.operands hrelated]
  exact hcongruence.bind (hcongruence.orFail _) (fun token => hcongruence.pushNew token [])
    hrelated

theorem runExch (hcongruence : Congruence related same) :
    Respects related same Machine.runExch :=
  hcongruence.bind hcongruence.pop fun upper => hcongruence.bind hcongruence.pop fun lower =>
    hcongruence.bind (hcongruence.push upper) fun _ => hcongruence.push lower

theorem runDefine (hcongruence : Congruence related same) :
    Respects related same Machine.runDefine := by
  refine Respects.get fun machine twin hrelated => ?_
  rw [hcongruence.operands hrelated]
  refine hcongruence.orFail_bind hrelated _ fun _ => ?_
  refine hcongruence.orFail_bind hrelated _ fun token => ?_
  rw [Kind.ofToken_congr (by decide) twin.isAlive machine.isAlive]
  exact hcongruence.bind (hcongruence.orFail _) (fun name =>
    hcongruence.bind hcongruence.pop fun token =>
      hcongruence.bind (hcongruence.discard hcongruence.pop) fun _ =>
        hcongruence.define name token) hrelated

theorem runIf (hcongruence : Congruence related same) : Respects related same Machine.runIf := by
  refine hcongruence.bind (hcongruence.popAs (by decide)) fun body =>
    hcongruence.bind (hcongruence.popAs (by decide)) fun condition => ?_
  cases condition with
  | false => exact hcongruence.pure _
  | true => exact hcongruence.scheduleNew _ _

theorem runCounting (hcongruence : Congruence related same) :
    Respects related same Machine.runCounting := by
  refine Respects.get fun machine twin hrelated => ?_
  rw [hcongruence.operands hrelated]
  exact hcongruence.bind (hcongruence.orFail _) (fun _ =>
    hcongruence.bind (hcongruence.popAs (by decide)) fun _ =>
      hcongruence.bind (hcongruence.popAs (by decide)) fun _ =>
        hcongruence.bind (hcongruence.popAs (by decide)) fun _ =>
          hcongruence.bind (hcongruence.popAs (by decide)) fun _ =>
            hcongruence.openFrame _ _) hrelated

theorem runForAll (hcongruence : Congruence related same) (indexed : Bool) :
    Respects related same (Machine.runForAll indexed) :=
  hcongruence.bind (hcongruence.popAs (by decide)) fun _ =>
    hcongruence.bind hcongruence.pop fun _ => hcongruence.openForAll _ _ _

theorem exitLoop (hcongruence : Congruence related same) :
    Respects related same Machine.exitLoop := by
  refine Respects.get fun machine twin hrelated => ?_
  rw [hcongruence.execution hrelated]
  generalize machine.execution.items.span (fun token => !token.isA .mark) = split
  obtain ⟨above, rest⟩ := split
  simp only
  split
  · exact hcongruence.error _ hrelated
  · exact hcongruence.ok () (hcongruence.withControl hrelated _ (· - _))

/-- Every operator of the language respects the relation. -/
theorem runOperator (hcongruence : Congruence related same) (operator : Operator) :
    Respects related same (Machine.runOperator operator) := by
  cases operator with
  | pop => exact hcongruence.discard hcongruence.pop
  | dup => exact hcongruence.runDup
  | exch => exact hcongruence.runExch
  | exec => exact hcongruence.bind hcongruence.pop fun token => hcongruence.schedule token
  | define => exact hcongruence.runDefine
  | addIntegers | subIntegers | mulIntegers | gtIntegers
  | addDoubles | subDoubles | mulDoubles | gtDoubles => exact hcongruence.binary (by decide) _
  | ifTrue => exact hcongruence.runIf
  | loop =>
    exact hcongruence.bind (hcongruence.popAs (by decide)) fun body => hcongruence.openLoop body
  | exit => exact hcongruence.exitLoop
  | repetition =>
    exact hcongruence.bind (hcongruence.popAs (by decide)) fun _ =>
      hcongruence.bind (hcongruence.popAs (by decide)) fun _ => hcongruence.openFrame _ _
  | counting => exact hcongruence.runCounting
  | forAll => exact hcongruence.runForAll false
  | forAllIndexed => exact hcongruence.runForAll true
  | host name => exact hcongruence.pure _

/-! ## The steps of a frame -/

theorem readFrame (hcongruence : Congruence related same) {kind : Kind}
    (hkind : kind ≠ .dictionary) (position : Nat) :
    Respects related same (Machine.readFrame kind position) := by
  refine Respects.get fun machine twin hrelated => ?_
  rw [hcongruence.execution hrelated]
  refine hcongruence.orFail_bind hrelated _ fun token => ?_
  rw [Kind.ofToken_congr hkind twin.isAlive machine.isAlive]
  exact hcongruence.orFail _ hrelated

theorem writeFrame (hcongruence : Congruence related same) (position : Nat) (n : Int64) :
    Respects related same (Machine.writeFrame position n) := by
  refine Respects.get fun machine twin hrelated => ?_
  rw [hcongruence.execution hrelated]
  refine hcongruence.orFail_bind hrelated _ fun token => ?_
  split
  · exact hcongruence.orFail_bind hrelated _ fun execution =>
      hcongruence.ok () (hcongruence.withControl hrelated execution id)
  · exact hcongruence.error _ hrelated

theorem closeFrame (hcongruence : Congruence related same) (primitive : Primitive) :
    Respects related same (Machine.closeFrame primitive) := by
  refine Respects.get fun machine twin hrelated => ?_
  rw [hcongruence.execution hrelated]
  exact hcongruence.orFail_bind hrelated _ fun execution =>
    hcongruence.ok () (hcongruence.withControl hrelated execution (· - 1))

/-- An operation may go on with a token of the execution stack. -/
theorem picked (hcongruence : Congruence related same) (position : Nat)
    {next : Token → Operation α} (hnext : ∀ token, Respects related same (next token)) :
    Respects related same (do
      next (← Machine.orFail ((← MonadState.get).execution.pick position))) := by
  refine Respects.get fun machine twin hrelated => ?_
  rw [hcongruence.execution hrelated]
  exact hcongruence.bind (hcongruence.orFail _) hnext hrelated

/-- A remark that needs no dictionary has a text. -/
theorem remark (hcongruence : Congruence related same) (text : String) :
    Respects related same (Machine.note fun _ => some text) :=
  hcongruence.note fun _ hnone => by cases hnone

theorem handOut (hcongruence : Congruence related same) (body : List Token) (position : Int64)
    (element : Token) : Respects related same (Machine.handOut body position element) :=
  hcongruence.bind (hcongruence.claim _) fun _ =>
    hcongruence.bind (hcongruence.pause body position) fun _ =>
      hcongruence.bind (hcongruence.writeFrame _ _) fun _ => hcongruence.schedule element

theorem advanceProcedure (hcongruence : Congruence related same) :
    Respects related same Machine.advanceProcedure := by
  refine hcongruence.bind (hcongruence.readFrame (by decide) _) fun procedure =>
    hcongruence.bind (hcongruence.readFrame (by decide) _) fun position => ?_
  split
  · exact hcongruence.closeFrame _
  · rename_i element helement
    refine hcongruence.bind (hcongruence.claim _) fun _ =>
      hcongruence.bind (hcongruence.pause procedure.body position) fun _ => ?_
    refine Respects.get fun machine twin hrelated => ?_
    rw [hcongruence.elimination hrelated]
    split
    · exact hcongruence.bind (hcongruence.closeFrame _)
        (fun _ => hcongruence.schedule element) hrelated
    · exact hcongruence.bind (hcongruence.writeFrame _ _)
        (fun _ => hcongruence.schedule element) hrelated

theorem advanceLoop (hcongruence : Congruence related same) :
    Respects related same Machine.advanceLoop := by
  refine hcongruence.bind (hcongruence.readFrame (by decide) _) fun procedure =>
    hcongruence.bind (hcongruence.readFrame (by decide) _) fun position => ?_
  split
  · exact hcongruence.handOut _ _ _
  · exact hcongruence.bind (hcongruence.writeFrame _ _) fun _ => hcongruence.remark _

theorem advanceRepetition (hcongruence : Congruence related same) :
    Respects related same Machine.advanceRepetition := by
  refine hcongruence.bind (hcongruence.readFrame (by decide) _) fun procedure =>
    hcongruence.bind (hcongruence.readFrame (by decide) _) fun position => ?_
  split
  · exact hcongruence.handOut _ _ _
  · refine hcongruence.bind (hcongruence.readFrame (by decide) _) fun rounds => ?_
    split
    · exact hcongruence.bind (hcongruence.writeFrame _ _) fun _ =>
        hcongruence.bind (hcongruence.writeFrame _ _) fun _ => hcongruence.remark _
    · exact hcongruence.closeFrame _

theorem advanceCounting (hcongruence : Congruence related same) :
    Respects related same Machine.advanceCounting := by
  refine hcongruence.bind (hcongruence.readFrame (by decide) _) fun procedure =>
    hcongruence.bind (hcongruence.readFrame (by decide) _) fun position => ?_
  split
  · exact hcongruence.handOut _ _ _
  · refine hcongruence.bind (hcongruence.readFrame (by decide) _) fun counter =>
      hcongruence.bind (hcongruence.readFrame (by decide) _) fun limit =>
        hcongruence.bind (hcongruence.readFrame (by decide) _) fun increment => ?_
    split
    · refine hcongruence.bind (hcongruence.writeFrame _ _) fun _ =>
        hcongruence.bind (hcongruence.pushNew _ _) fun _ => ?_
      split
      · exact hcongruence.bind (hcongruence.writeFrame _ _) fun _ => hcongruence.remark _
      · exact hcongruence.bind (hcongruence.writeFrame _ _) fun _ => hcongruence.remark _
    · exact hcongruence.closeFrame _

theorem advanceForAll (hcongruence : Congruence related same) (primitive : Primitive) :
    Respects related same (Machine.advanceForAll primitive) := by
  refine hcongruence.bind (hcongruence.readFrame (by decide) _) fun position =>
    hcongruence.bind (hcongruence.readFrame (by decide) _) fun limit => ?_
  have hrest : Respects related same (do
      Machine.writeFrame 2 (position + 1)
      Machine.scheduleNew (← Machine.orFail ((← MonadState.get).execution.pick 1)) []) :=
    hcongruence.bind (hcongruence.writeFrame _ _) fun _ =>
      hcongruence.picked 1 fun body => hcongruence.scheduleNew _ _
  split
  · exact hcongruence.closeFrame _
  · refine hcongruence.picked 4 fun object => ?_
    split
    · exact hcongruence.throw _
    · rename_i element helement
      refine hcongruence.bind (hcongruence.claim _) fun _ =>
        hcongruence.bind (hcongruence.note fun store hnone => ?_) fun _ =>
          hcongruence.bind (hcongruence.push element) fun _ => ?_
      · have hasks := (element.asks_renderOr false voidText).map fun text =>
          primitive.primitiveName ++ ": Limit: " ++ Decimal.ofInt64 limit ++ " Pos: " ++
            Decimal.ofInt64 position ++ " Iterator: " ++ text
        obtain ⟨id, -, hendless⟩ := Store.exists_endless hasks hnone
        exact ⟨id, hendless⟩
      split
      · exact hcongruence.bind (hcongruence.pushNew _ _) fun _ => hrest
      · exact hrest

/-- Every step of a frame respects the relation. -/
theorem advance (hcongruence : Congruence related same) (primitive : Primitive) :
    Respects related same (Machine.advance primitive) := by
  cases primitive with
  | iterate => exact hcongruence.advanceProcedure
  | loop => exact hcongruence.advanceLoop
  | repetition => exact hcongruence.advanceRepetition
  | counting => exact hcongruence.advanceCounting
  | _ => exact hcongruence.advanceForAll _

/-! ## Names -/

theorem selectOverload (hcongruence : Congruence related same) (name : Name) (id : TableId) :
    Respects related same (Machine.selectOverload name id) := by
  refine Respects.get fun machine twin hrelated => ?_
  rw [hcongruence.table hrelated, hcongruence.operands hrelated]
  cases (machine.store.table id).select machine.operands.operandTypes with
  | error error => exact hcongruence.error _ (hcongruence.report hrelated _)
  | ok function =>
    cases function with
    | void => exact hcongruence.error _ hrelated
    | datum value attributes =>
      cases value with
      | function name operator => exact hcongruence.ok _ hrelated
      | _ => exact hcongruence.error _ hrelated

theorem resolveTop (hcongruence : Congruence related same) (name : Name) :
    Respects related same (Machine.resolveTop name) := by
  refine hcongruence.bind (hcongruence.lookup name) fun found => ?_
  cases found with
  | none => exact hcongruence.throw _
  | some token =>
    refine Respects.get fun machine twin hrelated => ?_
    rw [hcongruence.execution hrelated]
    exact hcongruence.orFail_bind hrelated _ fun execution =>
      hcongruence.ok () (hcongruence.withControl hrelated execution id)

end Congruence

end StackLang
