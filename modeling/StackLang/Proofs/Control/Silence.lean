import StackLang.Proofs.Control.Congruence

/-!
# Machines of which one says less

A machine in step mode shows listings and makes remarks, and it uses up the commands that
answer its pauses.  Out of step mode it does neither.  Nothing else about a machine depends
on what it has said: an operation that is discreet in this sense does the same on both
machines, and afterwards they still differ only in what they have said.

What a machine in step mode has to say need not have a text.  Then it dies of it, and the
other one goes on.
-/

namespace StackLang

/-! ## What does not depend on the journal -/

namespace Store

variable {store other : Store}

theorem prune_quiet (store : Store) (roots : List Token) (rounds : Nat)
    (objects : List SharedObject) :
    store.quiet.prune roots rounds objects = store.prune roots rounds objects := by
  induction rounds generalizing objects with
  | zero => rfl
  | succ rounds ih =>
    have hsupported : store.quiet.supported roots objects = store.supported roots objects := rfl
    simp only [prune, hsupported, ih]

theorem alive_congr (hquiet : other.quiet = store.quiet) (roots : List Token) :
    other.alive roots = store.alive roots := by
  have hquieted : ∀ own : Store, own.alive roots = own.quiet.alive roots :=
    fun own => (own.prune_quiet roots _ _).symm
  rw [hquieted other, hquieted store, hquiet]

theorem census_congr (hquiet : other.quiet = store.quiet) (holdings : List Holding) :
    other.census holdings = store.census holdings := by
  have hcontents : other.contents = store.contents := by
    have hsame : other.quiet.contents = store.quiet.contents := by rw [hquiet]
    exact hsame
  have hbodies : other.bodies = store.bodies := by
    have hsame : other.quiet.bodies = store.quiet.bodies := by rw [hquiet]
    exact hsame
  simp only [census, alive_congr hquiet, hcontents, distinctBodies, hbodies]

end Store

/-- The text is about a failure, which is reported in step mode and out of it. -/
def Diagnostic.isBacktrace (diagnostic : Diagnostic) : Bool :=
  diagnostic.kind == .backtrace

/-- The machines differ only in what they have said and in the commands that are left for
pauses, and `still` is not in step mode.  Both have said `before`, and since then `still` has
said what `loud` has, except for whole listings and notes. -/
structure Silenced (before : List Diagnostic) (loud still : Machine) : Prop where
  operands : still.operands = loud.operands
  execution : still.execution = loud.execution
  store : still.store.quiet = loud.store.quiet
  scopes : still.scopes = loud.scopes
  config : still.config = { loud.config with stepMode := false }
  depth : still.depth = loud.depth
  callback : still.callback = loud.callback
  held : still.held = loud.held
  room : still.room = loud.room
  slack : still.slack = loud.slack
  said : ∃ since, loud.diagnostics = since ++ before ∧
    still.diagnostics = since.filter Diagnostic.isBacktrace ++ before

variable {α β : Type} {before : List Diagnostic} {loud still : Machine}

namespace Silenced

theorem roots (hsilenced : Silenced before loud still) : still.roots = loud.roots := by
  simp only [Machine.roots, Machine.holdings, hsilenced.operands, hsilenced.execution,
    hsilenced.callback, hsilenced.scopes, hsilenced.held]

theorem isAlive (hsilenced : Silenced before loud still) : still.isAlive = loud.isAlive := by
  funext id
  rw [Machine.isAlive, Machine.isAlive, Store.isAlive, Store.isAlive, hsilenced.roots,
    Store.alive_congr hsilenced.store]

theorem load (hsilenced : Silenced before loud still) (inHand : List Holding) :
    still.load inHand = loud.load inHand := by
  have hholdings : still.holdings = loud.holdings := by
    simp only [Machine.holdings, hsilenced.operands, hsilenced.execution, hsilenced.callback,
      hsilenced.scopes, hsilenced.held]
  rw [Machine.load, Machine.load, Machine.census, Machine.census, hholdings,
    Store.census_congr hsilenced.store]

theorem dictionary (hsilenced : Silenced before loud still) (id : DictId) :
    still.store.dictionary id = loud.store.dictionary id := by
  have hsame : still.store.quiet.dictionary id = loud.store.quiet.dictionary id := by
    rw [hsilenced.store]
  exact hsame

theorem table (hsilenced : Silenced before loud still) (id : TableId) :
    still.store.table id = loud.store.table id := by
  have hsame : still.store.quiet.table id = loud.store.quiet.table id := by
    rw [hsilenced.store]
  exact hsame

/-! ## Changes that both machines make -/

theorem push (hsilenced : Silenced before loud still) (token : Token) :
    Silenced before (loud.push token) (still.push token) :=
  { hsilenced with operands := congrArg (TokenStack.push token) hsilenced.operands }

theorem schedule (hsilenced : Silenced before loud still) (token : Token) :
    Silenced before (loud.schedule token) (still.schedule token) :=
  { hsilenced with execution := congrArg (TokenStack.push token) hsilenced.execution }

theorem unscheduled (hsilenced : Silenced before loud still) :
    Silenced before loud.unscheduled still.unscheduled :=
  { hsilenced with execution := congrArg (TokenStack.dropTop 1) hsilenced.execution }

theorem withStore (hsilenced : Silenced before loud still) {own other : Store}
    (hquiet : other.quiet = own.quiet) :
    Silenced before { loud with store := own } { still with store := other } :=
  { hsilenced with store := hquiet }

theorem report (hsilenced : Silenced before loud still) (event : Event) :
    Silenced before (loud.report event) (still.report event) :=
  { hsilenced with }

/-- A backtrace is said by both. -/
theorem backtrace (hsilenced : Silenced before loud still) (text : String) :
    Silenced before (loud.emit .backtrace text) (still.emit .backtrace text) := by
  obtain ⟨since, hloud, hstill⟩ := hsilenced.said
  refine { hsilenced with said := ⟨⟨.backtrace, text⟩ :: since, ?_, ?_⟩ }
  · exact congrArg _ hloud
  · exact congrArg _ hstill

/-! ## What only one of them says -/

/-- What is said in step mode is said by `loud` alone. -/
theorem emit_alone (hsilenced : Silenced before loud still) {kind : DiagnosticKind}
    (hkind : kind ≠ .backtrace) (text : String) :
    Silenced before (loud.emit kind text) still := by
  obtain ⟨since, hloud, hstill⟩ := hsilenced.said
  have hdropped : Diagnostic.isBacktrace ⟨kind, text⟩ = false := beq_eq_false_iff_ne.2 hkind
  refine { hsilenced with said := ⟨⟨kind, text⟩ :: since, congrArg _ hloud, ?_⟩ }
  rw [List.filter_cons_of_neg (by simp [hdropped]), hstill]

theorem report_alone (hsilenced : Silenced before loud still) (event : Event) :
    Silenced before (loud.report event) still :=
  { hsilenced with }

theorem not_stepMode (hsilenced : Silenced before loud still) :
    ¬ still.config.stepMode = true := by
  rw [hsilenced.config]
  exact Bool.false_ne_true

end Silenced

/-! ## Discreet operations -/

/-- Two results are the same, except that the machine in the second one has said less. -/
inductive SameResult (before : List Diagnostic) :
    EStateM.Result Failure Machine α → EStateM.Result Failure Machine α → Prop where
  | ok {value : α} {loud still : Machine} (hsilenced : Silenced before loud still) :
    SameResult before (.ok value loud) (.ok value still)
  | error {failure : Failure} {loud still : Machine} (hsilenced : Silenced before loud still) :
    SameResult before (.error failure loud) (.error failure still)

/-- In step mode a machine has died of what it had to say about a dictionary without end. -/
def Died (ended : EStateM.Result Failure Machine α) : Prop :=
  ∃ machine, ended = .error (.fault .endlessText) machine ∧ machine.config.stepMode = true ∧
    ∃ id, machine.store.Endless id

theorem Died.intro {machine : Machine} (hstep : machine.config.stepMode = true)
    (hendless : ∃ id, machine.store.Endless id) :
    Died (.error (.fault .endlessText) machine : EStateM.Result Failure Machine α) :=
  ⟨machine, rfl, hstep, hendless⟩

theorem Died.bind {first : Operation α} (hdied : Died (first loud)) (next : α → Operation β) :
    Died ((first >>= next) loud) := by
  obtain ⟨machine, hfirst, hstep, hendless⟩ := hdied
  simp only [Bind.bind, EStateM.bind, hfirst]
  exact .intro hstep hendless

/-- Two results are the same, unless the first machine has died in step mode. -/
def SameUnlessDied (before : List Diagnostic)
    (ended other : EStateM.Result Failure Machine α) : Prop :=
  Died ended ∨ SameResult before ended other

/-- What the operation does depends on nothing that was said, and what it says outside of
step mode it says in step mode as well. -/
def Discreet (operation : Operation α) : Prop :=
  ∀ ⦃before loud still⦄, Silenced before loud still →
    SameUnlessDied before (operation loud) (operation still)

namespace SameUnlessDied

theorem ok (value : α) (hsilenced : Silenced before loud still) :
    SameUnlessDied before (.ok value loud) (.ok value still) :=
  .inr (.ok hsilenced)

theorem error (failure : Failure) (hsilenced : Silenced before loud still) :
    SameUnlessDied before (.error failure loud : EStateM.Result Failure Machine α)
      (.error failure still) :=
  .inr (.error hsilenced)

/-- What follows the same results is the same. -/
theorem bind {first : Operation α} {next : α → Operation β}
    (hfirst : SameUnlessDied before (first loud) (first still))
    (hnext : ∀ value, Respects (Silenced before) (fun _ => SameUnlessDied before) (next value)) :
    SameUnlessDied before ((first >>= next) loud) ((first >>= next) still) := by
  obtain hdied | hsame := hfirst
  · exact .inl (hdied.bind next)
  · simp only [Bind.bind, EStateM.bind]
    generalize first loud = ended at hsame
    generalize first still = other at hsame
    cases hsame with
    | ok hsilenced => exact hnext _ hsilenced
    | error hsilenced => exact .error _ hsilenced

end SameUnlessDied

namespace Silenced

/-- A machine out of step mode makes no remark. -/
theorem note (before : List Diagnostic) {text : Store → Option String}
    (hends : ∀ store, text store = none → ∃ id, store.Endless id) :
    Respects (Silenced before) (fun _ => SameUnlessDied before) (Machine.note text) := by
  intro loud still hsilenced
  have hquiet : Machine.note text still = .ok () still := by
    simp only [Machine.note, bind, EStateM.bind, get, getThe, MonadStateOf.get, EStateM.get,
      if_neg hsilenced.not_stepMode]
    rfl
  rw [hquiet]
  simp only [Machine.note, bind, EStateM.bind, get, getThe, MonadStateOf.get, EStateM.get]
  split
  · rename_i hstep
    cases htext : text loud.store with
    | none => exact .inl (.intro hstep (hends loud.store htext))
    | some text => exact .ok () (hsilenced.emit_alone (by decide) _)
  · exact .ok () hsilenced

theorem showListings_alone (hsilenced : Silenced before loud still)
    (hstep : loud.config.stepMode = true) (body : List Token) (position : Int64) (count : Nat) :
    Died (Machine.showListings body position count loud) ∨
      ∃ next, Machine.showListings body position count loud = .ok () next ∧
        Silenced before next still := by
  induction count generalizing loud with
  | zero => exact .inr ⟨loud, rfl, hsilenced⟩
  | succ count ih =>
    have hreported := hsilenced.report_alone (.paused position.toInt.toNat body.length .list)
    simp only [Machine.showListings, Machine.showListing, bind, EStateM.bind, modify, modifyGet,
      MonadStateOf.modifyGet, EStateM.modifyGet, get, getThe, MonadStateOf.get, EStateM.get]
    cases htext : Token.listing?
      (loud.report (.paused position.toInt.toNat body.length .list)).store.display? ""
      position.toInt body with
    | none =>
      obtain ⟨id, -, hendless⟩ := Store.exists_endless (Token.asks_listing "" _ body) htext
      exact .inl (.intro hstep ⟨id, hendless⟩)
    | some text => exact ih (hreported.emit_alone (by decide) _) hstep

/-- Only a machine in step mode pauses. -/
theorem pause (before : List Diagnostic) (body : List Token) (position : Int64) :
    Respects (Silenced before) (fun _ => SameUnlessDied before)
      (Machine.pause body position) := by
  intro loud still hsilenced
  have hquiet : Machine.pause body position still = .ok () still := by
    simp only [Machine.pause, bind, EStateM.bind, get, getThe, MonadStateOf.get, EStateM.get,
      if_neg hsilenced.not_stepMode]
    rfl
  rw [hquiet]
  simp only [Machine.pause, bind, EStateM.bind, get, getThe, MonadStateOf.get, EStateM.get]
  split
  · rename_i hstep
    obtain hdied | ⟨next, hshown, hnext⟩ := hsilenced.showListings_alone hstep body position
      (Machine.splitCommands (loud.prompt.getD [])).1
    · exact .inl (hdied.bind _)
    · simp only [EStateM.bind, hshown]
      exact .ok () { hnext with }
  · exact .ok () hsilenced

theorem claim (before : List Diagnostic) (inHand : List Holding) :
    Respects (Silenced before) (fun _ => SameUnlessDied before) (Machine.claim inHand) := by
  intro loud still hsilenced
  rw [Machine.claim_eq, Machine.claim_eq, hsilenced.room, hsilenced.slack, hsilenced.load]
  cases loud.room with
  | none => exact .ok () hsilenced
  | some room =>
    simp only
    split
    · exact .ok () { hsilenced with room := rfl, slack := rfl }
    · split
      · exact .ok () { hsilenced with room := rfl, slack := rfl }
      · exact .error _ hsilenced

theorem define (before : List Diagnostic) (name : Name) (token : Token) :
    Respects (Silenced before) (fun _ => SameUnlessDied before) (Machine.define name token) := by
  refine Respects.get fun loud still hsilenced => ?_
  have htop : still.scopes.top = loud.scopes.top := by rw [hsilenced.scopes]
  have hwritten : Silenced before
      { loud with store := loud.store.insert loud.scopes.top name token }
      { still with store := still.store.insert still.scopes.top name token } := by
    refine hsilenced.withStore ?_
    rw [htop, Store.quiet_insert, Store.quiet_insert loud.store, hsilenced.store]
  simp only [htop, hsilenced.dictionary] at hwritten ⊢
  cases (loud.store.dictionary loud.scopes.top).peek? name with
  | none => exact .ok () hwritten
  | some bound =>
    simp only
    split
    · exact .error _ hsilenced
    · exact .ok () hwritten

theorem lookup (before : List Diagnostic) (name : Name) :
    Respects (Silenced before) (fun _ => SameUnlessDied before) (Machine.lookup name) := by
  refine Respects.get fun loud still hsilenced => ?_
  have hwhere : still.scopes.whereDefined? still.store name =
      loud.scopes.whereDefined? loud.store name := by
    rw [hsilenced.scopes]
    simp only [Scopes.whereDefined?, hsilenced.dictionary]
  have hslot : ∀ id, still.store.slot? id name = loud.store.slot? id name := by
    intro id
    rw [Store.slot?, hsilenced.dictionary, Store.slot?]
  simp only [Scopes.lookup_eq, hwhere]
  cases loud.scopes.whereDefined? loud.store name with
  | none => exact .ok none hsilenced
  | some id =>
    simp only [Option.bind_some, hslot]
    cases loud.store.slot? id name with
    | none => exact .ok none hsilenced
    | some slot =>
      have htouched : Silenced before { loud with store := loud.store.touch id name }
          { still with store := still.store.touch id name } := by
        refine hsilenced.withStore ?_
        rw [Store.quiet_touch, Store.quiet_touch, hsilenced.store]
      exact (claim before [.token slot.token] htouched).bind fun _ _ _ hnext => .ok _ hnext

/-- No operator of the language and no step of a frame depends on what was said. -/
theorem congruence (before : List Diagnostic) :
    Congruence (Silenced before) (fun _ => SameUnlessDied before) where
  ok := SameUnlessDied.ok
  error := SameUnlessDied.error
  followed := SameUnlessDied.bind
  operands := Silenced.operands
  execution := Silenced.execution
  table := Silenced.table
  elimination hsilenced := by rw [hsilenced.config]
  withOperands hsilenced _ := { hsilenced with operands := rfl }
  withControl hsilenced _ count :=
    { hsilenced with execution := rfl, depth := congrArg count hsilenced.depth }
  report := Silenced.report
  note := Silenced.note before
  pause := Silenced.pause before
  claim := Silenced.claim before
  define := Silenced.define before
  lookup := Silenced.lookup before

end Silenced

end StackLang
