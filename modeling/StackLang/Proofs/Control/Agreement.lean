import StackLang.Proofs.Control.Layout

/-!
# Machines that agree on their data

Two machines may differ in their settings and in what is on their execution
stacks and still agree on the data of the program: on the operands, on the
dictionaries, on the scopes.  An operation that only works on the data does the
same on both and leaves them in agreement.

A fault is the one thing in which they may part.  A machine whose pools have run out
dies, or one that has to say something without a text, while the other one goes on.  The
leeway tells which faults may happen to one of them alone.
-/

namespace StackLang

/-- The store without its journal. -/
def Store.quiet (store : Store) : Store :=
  { store with journal := [] }

namespace Store

@[simp]
theorem quiet_report (event : Event) (store : Store) : (store.report event).quiet = store.quiet :=
  rfl

@[simp]
theorem quiet_touch (id : DictId) (name : Name) (store : Store) :
    (store.touch id name).quiet = store.quiet.touch id name := rfl

theorem closeUnder_quiet (store : Store) (rounds : Nat) (found : List DictId) :
    store.quiet.closeUnder rounds found = store.closeUnder rounds found := by
  induction rounds generalizing found with
  | zero => rfl
  | succ rounds ih =>
    have hfrontier : store.quiet.frontier found = store.frontier found := rfl
    simp only [closeUnder, hfrontier, ih]

theorem reaches_quiet (store : Store) (source target : DictId) :
    store.quiet.reaches source target = store.reaches source target := by
  have hsize : store.quiet.dictionaries.size = store.dictionaries.size := rfl
  rw [reaches, reaches, reachable, reachable, closeUnder_quiet, hsize]

theorem quiet_insert (store : Store) (target : DictId) (name : Name) (token : Token) :
    (store.insert target name token).quiet = (store.quiet.insert target name token).quiet := by
  have hcycle : store.quiet.cycleThrough? target token = store.cycleThrough? target token := by
    simp only [cycleThrough?, reaches_quiet]
  unfold insert
  rw [hcycle]
  cases store.cycleThrough? target token <;> rfl

theorem displayWithin?_quiet (store : Store) (calls : Nat) :
    store.quiet.displayWithin? calls = store.displayWithin? calls := by
  induction calls with
  | zero => rfl
  | succ calls ih =>
    funext id
    have hdictionary : store.quiet.dictionary id = store.dictionary id := rfl
    rw [displayWithin?, displayWithin?, ih, hdictionary]

theorem display?_congr {store other : Store} (hquiet : other.quiet = store.quiet) :
    other.display? = store.display? := by
  have hquieted : ∀ own : Store, own.display? = own.quiet.display? :=
    fun own => (displayWithin?_quiet own _).symm
  rw [hquieted other, hquieted store, hquiet]

theorem Plain.of_quiet_eq {store other : Store} (hplain : store.Plain)
    (hquiet : other.quiet = store.quiet) : other.Plain := by
  have hquietPlain : other.quiet.Plain := hquiet ▸ ⟨hplain.dictionaries, hplain.tables⟩
  exact ⟨hquietPlain.dictionaries, hquietPlain.tables⟩

end Store

/-- How close two machines keep to each other. -/
inductive Gait where
  /-- They pause at different places, if they do. -/
  | apart
  /-- They pause at the same places and say the same there. -/
  | abreast
  /-- Besides, they have the same frames open. -/
  | level
  deriving DecidableEq

/-- In what two machines may part: the faults by which one of them may die while the other
one goes on, and how close they keep otherwise. -/
structure Leeway where
  left : Fault → Prop
  right : Fault → Prop
  gait : Gait

namespace Leeway

/-- Either machine may die of anything, but otherwise they keep together. -/
def free : Leeway :=
  ⟨fun _ => True, fun _ => True, .level⟩

end Leeway

/-- Two machines pause alike: both or neither are in step mode, and the same commands
answer. -/
structure SameVoice (left right : Machine) : Prop where
  stepMode : left.config.stepMode = right.config.stepMode
  prompt : left.prompt = right.prompt

/-- Two machines with the same plain data.  The left one may drop frames of
procedures earlier. -/
structure Alike (leeway : Leeway) (left right : Machine) : Prop where
  operands : left.operands = right.operands
  store : left.store.quiet = right.store.quiet
  scopes : left.scopes = right.scopes
  callback : left.callback = right.callback
  plain : left.Plain
  roomLeft : left.room ≠ none → ∀ fault, leeway.left fault
  roomRight : right.room ≠ none → ∀ fault, leeway.right fault
  stepLeft : left.config.stepMode = true → leeway.left .endlessText ∨ leeway.gait ≠ .apart
  stepRight : right.config.stepMode = true → leeway.right .endlessText ∨ leeway.gait ≠ .apart
  voice : leeway.gait ≠ .apart → SameVoice left right
  elimination : right.config.tailElimination → left.config.tailElimination
  level : leeway.gait = .level → left.config.tailElimination → right.config.tailElimination

theorem Alike.dictionary {leeway : Leeway} {left right : Machine} (halike : Alike leeway left right)
    (id : DictId) : right.store.dictionary id = left.store.dictionary id := by
  have hquiet : right.store.quiet.dictionary id = left.store.quiet.dictionary id := by
    rw [halike.store]
  exact hquiet

theorem Alike.table {leeway : Leeway} {left right : Machine} (halike : Alike leeway left right)
    (id : TableId) : right.store.table id = left.store.table id := by
  have hquiet : right.store.quiet.table id = left.store.quiet.table id := by
    rw [halike.store]
  exact hquiet

theorem Alike.display? {leeway : Leeway} {left right : Machine} (halike : Alike leeway left right) :
    right.store.display? = left.store.display? :=
  Store.display?_congr halike.store.symm

/-- What machines are about to do makes no difference between their data. -/
theorem Alike.withControl {leeway : Leeway} {left right : Machine}
    (halike : Alike leeway left right) (execution other : TokenStack) (depth count : Nat) :
    Alike leeway { left with execution, depth }
      { right with execution := other, depth := count } :=
  { halike with
    plain := { halike.plain with }
    voice := fun hgait => { halike.voice hgait with } }

/-- Two operations end alike: with the same value and machines in a relation, with the same
error and machines in another one, or with the same fault.  As far as the leeway allows it,
either one may fault alone. -/
inductive Agree (leeway : Leeway) (failed : Machine → Machine → Prop) {α : Type}
    (post : α → Machine → Machine → Prop) :
    EStateM.Result Failure Machine α → EStateM.Result Failure Machine α → Prop where
  | ok {value : α} {left right : Machine} (hpost : post value left right) :
    Agree leeway failed post (.ok value left) (.ok value right)
  | error {error : Error} {left right : Machine} (hfailed : failed left right) :
    Agree leeway failed post (.error (.error error) left) (.error (.error error) right)
  | fault {fault : Fault} {left right : Machine} :
    Agree leeway failed post (.error (.fault fault) left) (.error (.fault fault) right)
  | faultLeft {fault : Fault} {left : Machine} {other : EStateM.Result Failure Machine α}
    (hleeway : leeway.left fault) : Agree leeway failed post (.error (.fault fault) left) other
  | faultRight {fault : Fault} {right : Machine} {other : EStateM.Result Failure Machine α}
    (hleeway : leeway.right fault) : Agree leeway failed post other (.error (.fault fault) right)

variable {leeway : Leeway} {failed : Machine → Machine → Prop} {α β : Type}

namespace Agree

theorem imp {further : Machine → Machine → Prop} {mid post : α → Machine → Machine → Prop}
    {first second : EStateM.Result Failure Machine α}
    (hagree : Agree leeway failed mid first second)
    (hfailed : ∀ left right, failed left right → further left right)
    (hpost : ∀ value left right, mid value left right → post value left right) :
    Agree leeway further post first second := by
  cases hagree with
  | ok hmid => exact .ok (hpost _ _ _ hmid)
  | error herror => exact .error (hfailed _ _ herror)
  | fault => exact .fault
  | faultLeft hleeway => exact .faultLeft hleeway
  | faultRight hleeway => exact .faultRight hleeway

theorem mono {mid post : α → Machine → Machine → Prop}
    {first second : EStateM.Result Failure Machine α}
    (hagree : Agree leeway failed mid first second)
    (himp : ∀ value left right, mid value left right → post value left right) :
    Agree leeway failed post first second :=
  hagree.imp (fun _ _ => id) himp

/-- Operations agree if their first parts do and what follows agrees from there on. -/
theorem bind {first second : Operation α} {next further : α → Operation β}
    {left right : Machine} {mid : α → Machine → Machine → Prop}
    {post : β → Machine → Machine → Prop}
    (hfirst : Agree leeway failed mid (first left) (second right))
    (hnext : ∀ value left right, mid value left right →
      Agree leeway failed post (next value left) (further value right)) :
    Agree leeway failed post ((first >>= next) left) ((second >>= further) right) := by
  simp only [Bind.bind, EStateM.bind]
  generalize first left = ended at hfirst
  generalize second right = finished at hfirst
  cases hfirst with
  | ok hmid => exact hnext _ _ _ hmid
  | error herror => exact .error herror
  | fault => exact .fault
  | faultLeft hleeway => exact .faultLeft hleeway
  | faultRight hleeway =>
    cases ended with
    | ok value machine => exact .faultRight hleeway
    | error failure machine => exact .faultRight hleeway

/-- What an operation does with the machine it reads. -/
theorem get {next further : Machine → Operation β} {left right : Machine}
    {post : β → Machine → Machine → Prop}
    (hagree : Agree leeway failed post (next left left) (further right right)) :
    Agree leeway failed post ((MonadState.get >>= next) left)
      ((MonadState.get >>= further) right) :=
  hagree

/-- What an operation does after it has changed the machine. -/
theorem modify {change other : Machine → Machine} {next further : Unit → Operation β}
    {left right : Machine} {post : β → Machine → Machine → Prop}
    (hagree : Agree leeway failed post (next () (change left)) (further () (other right))) :
    Agree leeway failed post
      (((fun machine => .ok () (change machine) : Operation Unit) >>= next) left)
      (((fun machine => .ok () (other machine) : Operation Unit) >>= further) right) :=
  hagree

theorem discard {first second : Operation α} {left right : Machine}
    {mid : α → Machine → Machine → Prop} {post : Machine → Machine → Prop}
    (hagree : Agree leeway failed mid (first left) (second right))
    (hpost : ∀ value left right, mid value left right → post left right) :
    Agree leeway failed (fun _ => post) ((Functor.discard first) left)
      ((Functor.discard second) right) := by
  rw [Operation.discard_eq_bind, Operation.discard_eq_bind]
  exact hagree.bind fun value left right hmid => .ok (hpost value left right hmid)

end Agree

/-! ## Reading operands -/

theorem Machine.pop_eq (machine : Machine) :
    pop machine = match machine.operands.items with
      | [] => .error (.error (.stackUnderflow 1 0)) machine
      | token :: _ => .ok token { machine with operands := machine.operands.dropTop 1 } := by
  simp only [pop, Bind.bind, EStateM.bind, get, getThe, MonadStateOf.get, EStateM.get,
    TokenStack.pop]
  cases machine.operands.items <;> rfl

/-- A look-up that finds a token copies it. -/
theorem Machine.lookup_eq_claim {machine : Machine} {name : Name} {token : Token} {store : Store}
    (hfound : machine.scopes.lookup machine.store name = some (token, store)) :
    Machine.lookup name machine =
      (claim [.token token] >>= fun _ => Pure.pure (some token)) { machine with store } := by
  simp only [Machine.lookup, Bind.bind, EStateM.bind, MonadState.get, getThe, MonadStateOf.get,
    EStateM.get, hfound]
  rfl

/-- A claim looks at the data that are live only if it may exceed the room that is left. -/
theorem Machine.claim_eq (inHand : List Holding) (machine : Machine) :
    claim inHand machine = match machine.room with
      | none => .ok () machine
      | some room =>
        let wanted := (inHand.flatMap Holding.blocks).length
        if wanted ≤ machine.slack then .ok () { machine with slack := machine.slack - wanted }
        else if machine.load inHand ≤ room.perType then
          .ok () { machine with slack := room.perType - machine.load inHand }
        else .error (.fault room.fault) machine := by
  simp only [claim, EStateM.run, reserve, Bind.bind, EStateM.bind, MonadState.get, getThe,
    MonadStateOf.get, EStateM.get]
  cases machine.room with
  | none => rfl
  | some room =>
    simp only
    by_cases hslack : (inHand.flatMap Holding.blocks).length ≤ machine.slack
    · simp only [if_pos hslack]
      rfl
    · by_cases hload : machine.load inHand ≤ room.perType
      · simp only [if_neg hslack, if_pos hload]
        rfl
      · simp only [if_neg hslack, if_neg hload]
        rfl

theorem TokenStack.head?_of_top {stack : TokenStack} {token : Token}
    (htop : stack.top = .ok token) : stack.items.head? = some token := by
  unfold top pick at htop
  split at htop
  · rename_i found hfound
    obtain rfl : found = token := by simpa using htop
    rw [List.head?_eq_getElem?, hfound]
  · cases htop

theorem TokenStack.mem_of_top {stack : TokenStack} {token : Token}
    (htop : stack.top = .ok token) : token ∈ stack.items :=
  List.mem_of_mem_head? (head?_of_top htop)

/-- Except for dictionaries it does not matter what is alive. -/
theorem Kind.ofToken_congr {kind : Kind} (hkind : kind ≠ .dictionary)
    (alive other : DictId → Bool) (token : Token) :
    kind.ofToken alive token = kind.ofToken other token := by
  have hvalue : kind.ofValue alive = kind.ofValue other := by
    funext value
    cases kind with
    | dictionary => exact absurd rfl hkind
    | _ => cases value <;> rfl
  rw [Kind.ofToken, Kind.ofToken, hvalue]

/-- Alike machines that are about to do `first` and `second`. -/
structure Paired (leeway : Leeway) (first second : Control) (left right : Machine) : Prop where
  alike : Alike leeway left right
  left : left.control = first
  right : right.control = second

/-- The machine differs from another one at most in what it has said, in the
commands that are left and in the storage that it has set aside. -/
structure Restated (machine next : Machine) : Prop where
  operands : next.operands = machine.operands
  store : next.store.quiet = machine.store.quiet
  scopes : next.scopes = machine.scopes
  callback : next.callback = machine.callback
  room : next.room = machine.room
  config : next.config = machine.config
  execution : next.execution = machine.execution
  depth : next.depth = machine.depth

namespace Restated

theorem refl (machine : Machine) : Restated machine machine :=
  ⟨rfl, rfl, rfl, rfl, rfl, rfl, rfl, rfl⟩

theorem trans {machine next last : Machine} (hfirst : Restated machine next)
    (hsecond : Restated next last) : Restated machine last where
  operands := hsecond.operands.trans hfirst.operands
  store := hsecond.store.trans hfirst.store
  scopes := hsecond.scopes.trans hfirst.scopes
  callback := hsecond.callback.trans hfirst.callback
  room := hsecond.room.trans hfirst.room
  config := hsecond.config.trans hfirst.config
  execution := hsecond.execution.trans hfirst.execution
  depth := hsecond.depth.trans hfirst.depth

theorem control {machine next : Machine} (hrestated : Restated machine next) :
    next.control = machine.control := by
  rw [Machine.control, hrestated.execution, hrestated.depth, Machine.control]

theorem report (event : Event) (machine : Machine) : Restated machine (machine.report event) :=
  ⟨rfl, rfl, rfl, rfl, rfl, rfl, rfl, rfl⟩

theorem emit (kind : DiagnosticKind) (text : String) (machine : Machine) :
    Restated machine (machine.emit kind text) :=
  ⟨rfl, rfl, rfl, rfl, rfl, rfl, rfl, rfl⟩

theorem proceed (body : List Token) (position : Int64) (rest : List DebugCommand)
    (machine : Machine) : Restated machine (Machine.proceed body position rest machine) :=
  ⟨rfl, rfl, rfl, rfl, rfl, rfl, rfl, rfl⟩

/-- What has a text is said. -/
theorem say (kind : DiagnosticKind) (text : Option String) (machine : Machine) :
    ∃ next, Restated machine next ∧ (Machine.say kind text machine = .ok () next ∨
      Machine.say kind text machine = .error (.fault .endlessText) next) := by
  cases text with
  | none => exact ⟨machine, refl machine, .inr rfl⟩
  | some text => exact ⟨_, emit kind text machine, .inl rfl⟩

theorem showListings (body : List Token) (position : Int64) (count : Nat) (machine : Machine) :
    ∃ next, Restated machine next ∧
      (Machine.showListings body position count machine = .ok () next ∨
        Machine.showListings body position count machine = .error (.fault .endlessText) next) := by
  induction count generalizing machine with
  | zero => exact ⟨machine, refl machine, .inl rfl⟩
  | succ count ih =>
    simp only [Machine.showListings, Machine.showListing, bind, EStateM.bind, modify, modifyGet,
      MonadStateOf.modifyGet, EStateM.modifyGet, get, getThe, MonadStateOf.get, EStateM.get]
    generalize Option.map _ _ = text
    obtain ⟨next, hnext, hsaid | hsilent⟩ := say .listing text (machine.report _)
    · rw [hsaid]
      obtain ⟨last, hlast, hrest⟩ := ih next
      exact ⟨last, (report _ machine).trans (hnext.trans hlast), hrest⟩
    · rw [hsilent]
      exact ⟨next, (report _ machine).trans hnext, .inr rfl⟩

theorem reserve (inHand : List Holding) (machine : Machine) :
    (∃ next, Machine.reserve inHand machine = .ok () next ∧ Restated machine next) ∨
      ∃ fault, Machine.reserve inHand machine = .error fault machine ∧ machine.room ≠ none := by
  cases hroom : machine.room with
  | none =>
    refine .inl ⟨machine, ?_, refl machine⟩
    simp only [Machine.reserve, Bind.bind, EStateM.bind, get, getThe, MonadStateOf.get,
      EStateM.get, hroom]
    rfl
  | some room =>
    simp only [Machine.reserve, Bind.bind, EStateM.bind, get, getThe, MonadStateOf.get,
      EStateM.get, hroom]
    split
    · exact .inl ⟨_, rfl, rfl, rfl, rfl, rfl, hroom.symm, rfl, rfl, rfl⟩
    · split
      · exact .inl ⟨_, rfl, rfl, rfl, rfl, rfl, hroom.symm, rfl, rfl, rfl⟩
      · exact .inr ⟨room.fault, rfl, by simp⟩

/-- A claim is granted, or it exceeds the room that there is. -/
theorem claim (inHand : List Holding) (machine : Machine) :
    (∃ next, Machine.claim inHand machine = .ok () next ∧ Restated machine next) ∨
      ∃ fault, Machine.claim inHand machine = .error (.fault fault) machine ∧
        machine.room ≠ none := by
  simp only [Machine.claim, EStateM.run]
  obtain ⟨next, hreserve, hnext⟩ | ⟨fault, hreserve, hroom⟩ := reserve inHand machine
  · exact .inl ⟨next, by rw [hreserve], hnext⟩
  · exact .inr ⟨fault, by rw [hreserve], hroom⟩

end Restated

namespace Machine

/-- The operation only says something.  In step mode the machine may die of it, if there is
no text for it. -/
def Speaks (operation : Operation Unit) : Prop :=
  ∀ machine, ∃ next, Restated machine next ∧ (operation machine = .ok () next ∨
    operation machine = .error (.fault .endlessText) next ∧ machine.config.stepMode = true)

theorem speaks_note (text : Store → Option String) : Speaks (note text) := by
  intro machine
  simp only [note, bind, EStateM.bind, get, getThe, MonadStateOf.get, EStateM.get]
  split
  · rename_i hstep
    obtain ⟨next, hnext, hsaid | hsilent⟩ :=
      Restated.say .note ((text machine.store).map (· ++ "\n")) machine
    · exact ⟨next, hnext, .inl hsaid⟩
    · exact ⟨next, hnext, .inr ⟨hsilent, hstep⟩⟩
  · exact ⟨machine, .refl machine, .inl rfl⟩

theorem speaks_pause (body : List Token) (position : Int64) : Speaks (pause body position) := by
  intro machine
  simp only [pause, bind, EStateM.bind, get, getThe, MonadStateOf.get, EStateM.get]
  split
  · rename_i hstep
    obtain ⟨listings, rest⟩ := splitCommands (machine.prompt.getD [])
    simp only [EStateM.bind]
    obtain ⟨next, hnext, hshown | hsilent⟩ :=
      Restated.showListings body position listings machine
    · exact ⟨_, hnext.trans (.proceed body position rest next), .inl (by rw [hshown]; rfl)⟩
    · exact ⟨next, hnext, .inr ⟨by rw [hsilent], hstep⟩⟩
  · exact ⟨machine, .refl machine, .inl rfl⟩

end Machine

theorem Machine.prompt_of_claim {inHand : List Holding} {machine next : Machine}
    (hclaim : claim inHand machine = .ok () next) : next.prompt = machine.prompt := by
  rw [claim_eq] at hclaim
  split at hclaim
  · cases hclaim
    rfl
  · simp only at hclaim
    split at hclaim
    · cases hclaim
      rfl
    · split at hclaim <;> cases hclaim
      rfl

namespace Paired

variable {first second : Control} {left right : Machine}

/-- Machines that keep to each other need the same commands left. -/
theorem restated (hpaired : Paired leeway first second left right) {next other : Machine}
    (hnext : Restated left next) (hother : Restated right other)
    (hprompt : leeway.gait ≠ .apart → next.prompt = other.prompt) :
    Paired leeway first second next other where
  alike :=
    { operands := by rw [hnext.operands, hother.operands, hpaired.alike.operands]
      store := by rw [hnext.store, hother.store, hpaired.alike.store]
      scopes := by rw [hnext.scopes, hother.scopes, hpaired.alike.scopes]
      callback := by rw [hnext.callback, hother.callback, hpaired.alike.callback]
      plain :=
        { operands := by rw [hnext.operands]; exact hpaired.alike.plain.operands
          callback := by rw [hnext.callback]; exact hpaired.alike.plain.callback
          store := hpaired.alike.plain.store.of_quiet_eq hnext.store }
      roomLeft := by rw [hnext.room]; exact hpaired.alike.roomLeft
      roomRight := by rw [hother.room]; exact hpaired.alike.roomRight
      stepLeft := by rw [hnext.config]; exact hpaired.alike.stepLeft
      stepRight := by rw [hother.config]; exact hpaired.alike.stepRight
      voice := fun hgait =>
        ⟨by rw [hnext.config, hother.config, (hpaired.alike.voice hgait).stepMode],
          hprompt hgait⟩
      elimination := by
        rw [hnext.config, hother.config]
        exact hpaired.alike.elimination
      level := by
        rw [hnext.config, hother.config]
        exact hpaired.alike.level }
  left := hnext.control.trans hpaired.left
  right := hother.control.trans hpaired.right

theorem orFail (hpaired : Paired leeway first second left right) (result : Except Error α) :
    Agree leeway (Paired leeway first second) (fun value left right => result = .ok value ∧
        Paired leeway first second left right)
      (Machine.orFail result left) (Machine.orFail result right) := by
  cases result with
  | ok value => exact .ok ⟨rfl, hpaired⟩
  | error error => exact .error hpaired

theorem claim (hpaired : Paired leeway first second left right) (inHand other : List Holding) :
    Agree leeway failed (fun _ => Paired leeway first second)
      (Machine.claim inHand left) (Machine.claim other right) := by
  obtain ⟨next, hleft, hnext⟩ | ⟨fault, hleft, hroom⟩ := Restated.claim inHand left
  · obtain ⟨last, hright, hlast⟩ | ⟨fault, hright, hroom⟩ := Restated.claim other right
    · rw [hleft, hright]
      refine .ok (hpaired.restated hnext hlast fun hgait => ?_)
      rw [Machine.prompt_of_claim hleft, Machine.prompt_of_claim hright,
        (hpaired.alike.voice hgait).prompt]
    · rw [hright]
      exact .faultRight (hpaired.alike.roomRight hroom fault)
  · rw [hleft]
    exact .faultLeft (hpaired.alike.roomLeft hroom fault)

/-! ### What is said on both machines -/

theorem report (hpaired : Paired leeway first second left right) (event other : Event) :
    Paired leeway first second (left.report event) (right.report other) :=
  hpaired.restated (.report event left) (.report other right) fun hgait =>
    (hpaired.alike.voice hgait).prompt

/-- The same text is said by both machines, or by neither. -/
theorem say (hpaired : Paired leeway first second left right) (kind : DiagnosticKind)
    (text : Option String) :
    Agree leeway failed (fun _ => Paired leeway first second) (Machine.say kind text left)
      (Machine.say kind text right) := by
  cases text with
  | none => exact .fault
  | some text =>
    exact .ok (hpaired.restated (.emit kind text left) (.emit kind text right) fun hgait =>
      (hpaired.alike.voice hgait).prompt)

/-- Machines that are apart speak for themselves, and as long as either finds words, both
go on. -/
theorem speak_apart (hpaired : Paired leeway first second left right)
    (hgait : leeway.gait = .apart) {operation other : Operation Unit}
    (hspeaks : Machine.Speaks operation) (hother : Machine.Speaks other) :
    Agree leeway failed (fun _ => Paired leeway first second) (operation left)
      (other right) := by
  obtain ⟨next, hnext, hleft | ⟨hleft, hstep⟩⟩ := hspeaks left
  · obtain ⟨last, hlast, hright | ⟨hright, hstep⟩⟩ := hother right
    · rw [hleft, hright]
      exact .ok (hpaired.restated hnext hlast fun hne => absurd hgait hne)
    · rw [hright]
      exact .faultRight ((hpaired.alike.stepRight hstep).resolve_right fun hne => hne hgait)
  · rw [hleft]
    exact .faultLeft ((hpaired.alike.stepLeft hstep).resolve_right fun hne => hne hgait)

/-- Where the stores make the same of it, the same remark is made. -/
theorem note (hpaired : Paired leeway first second left right) {text : Store → Option String}
    (htext : text right.store = text left.store) :
    Agree leeway failed (fun _ => Paired leeway first second) (Machine.note text left)
      (Machine.note text right) := by
  by_cases hgait : leeway.gait = .apart
  · exact hpaired.speak_apart hgait (Machine.speaks_note text) (Machine.speaks_note text)
  · apply Agree.get
    rw [(hpaired.alike.voice hgait).stepMode, htext]
    split
    · exact hpaired.say _ _
    · exact .ok hpaired

theorem showListings (hpaired : Paired leeway first second left right) (body : List Token)
    (position : Int64) (count : Nat) :
    Agree leeway failed (fun _ => Paired leeway first second)
      (Machine.showListings body position count left)
      (Machine.showListings body position count right) := by
  induction count generalizing left right with
  | zero => exact .ok hpaired
  | succ count ih =>
    refine Agree.bind ?_ fun _ _ _ hshown => ih hshown
    have hreported := hpaired.report (.paused position.toInt.toNat body.length .list)
      (.paused position.toInt.toNat body.length .list)
    refine Agree.modify (Agree.get ?_)
    rw [hreported.alike.display?]
    exact hreported.say _ _

theorem pause (hpaired : Paired leeway first second left right) (body : List Token)
    (position : Int64) :
    Agree leeway failed (fun _ => Paired leeway first second)
      (Machine.pause body position left) (Machine.pause body position right) := by
  by_cases hgait : leeway.gait = .apart
  · exact hpaired.speak_apart hgait (Machine.speaks_pause body position)
      (Machine.speaks_pause body position)
  · apply Agree.get
    obtain ⟨hstep, hprompt⟩ := hpaired.alike.voice hgait
    rw [hstep, hprompt]
    split
    · obtain ⟨listings, rest⟩ := Machine.splitCommands (right.prompt.getD [])
      refine (hpaired.showListings body position listings).bind fun _ next other hshown => .ok ?_
      refine hshown.restated (.proceed body position rest next)
        (.proceed body position rest other) fun _ => ?_
      simp only [Machine.proceed, Machine.report, (hshown.alike.voice hgait).prompt]
    · exact .ok hpaired

theorem push (hpaired : Paired leeway first second left right) {token : Token}
    (htoken : token.Plain) :
    Paired leeway first second (left.push token) (right.push token) where
  alike :=
    { hpaired.alike with
      operands := congrArg (TokenStack.push token) hpaired.alike.operands
      plain :=
        { hpaired.alike.plain with
          operands := by
            intro other hmem
            obtain rfl | hbelow := List.mem_cons.1 hmem
            · exact htoken
            · exact hpaired.alike.plain.operands other hbelow }
      voice := fun hgait => { hpaired.alike.voice hgait with } }
  left := hpaired.left
  right := hpaired.right

/-- Putting a token on the execution stacks changes nothing else. -/
theorem schedule (hpaired : Paired leeway first second left right) (token : Token) :
    Paired leeway (first.push token) (second.push token) (left.schedule token)
      (right.schedule token) where
  alike := hpaired.alike.withControl _ _ _ _
  left := by rw [← hpaired.left]; rfl
  right := by rw [← hpaired.right]; rfl

theorem pushNew (hpaired : Paired leeway first second left right) {token : Token}
    (htoken : token.Plain) (inHand other : List Holding) :
    Agree leeway failed (fun _ => Paired leeway first second)
      (Machine.pushNew token inHand left) (Machine.pushNew token other right) :=
  (hpaired.claim _ _).bind fun _ _ _ hclaimed => .ok (hclaimed.push htoken)

theorem scheduleNew (hpaired : Paired leeway first second left right) (token : Token)
    (inHand other : List Holding) :
    Agree leeway failed (fun _ => Paired leeway (first.push token) (second.push token))
      (Machine.scheduleNew token inHand left) (Machine.scheduleNew token other right) :=
  (hpaired.claim _ _).bind fun _ _ _ hclaimed => .ok (hclaimed.schedule token)

/-- Machines without their topmost operand. -/
theorem dropOperand (hpaired : Paired leeway first second left right) :
    Paired leeway first second { left with operands := left.operands.dropTop 1 }
      { right with operands := right.operands.dropTop 1 } where
  alike :=
    { hpaired.alike with
      operands := congrArg (TokenStack.dropTop 1) hpaired.alike.operands
      plain :=
        { hpaired.alike.plain with
          operands := fun token hmem =>
            hpaired.alike.plain.operands token (List.mem_of_mem_drop hmem) }
      voice := fun hgait => { hpaired.alike.voice hgait with } }
  left := hpaired.left
  right := hpaired.right

theorem pop (hpaired : Paired leeway first second left right) :
    Agree leeway (Paired leeway first second) (fun token left right => token.Plain ∧
        Paired leeway first second left right)
      (Machine.pop left) (Machine.pop right) := by
  rw [Machine.pop_eq, Machine.pop_eq, ← hpaired.alike.operands]
  cases hitems : left.operands.items with
  | nil => exact .error hpaired
  | cons token below =>
    refine .ok ⟨hpaired.alike.plain.operands token (by simp [hitems]), ?_⟩
    have hdropped := hpaired.dropOperand
    rwa [← hpaired.alike.operands] at hdropped

/-- A popped value was that of a plain token. -/
theorem popAs (hpaired : Paired leeway first second left right) {kind : Kind}
    (hkind : kind ≠ .dictionary) :
    Agree leeway (Paired leeway first second) (fun value left right =>
        (∃ token alive, token.Plain ∧ kind.ofToken alive token = .ok value) ∧
          Paired leeway first second left right)
      (Machine.popAs kind left) (Machine.popAs kind right) := by
  apply Agree.get
  rw [← hpaired.alike.operands]
  refine (hpaired.orFail _).bind fun token next other ⟨htop, hnext⟩ => ?_
  rw [Kind.ofToken_congr hkind right.isAlive left.isAlive]
  refine (hnext.orFail _).bind fun value next other ⟨hread, hnext⟩ => ?_
  refine (hnext.claim _ _).bind fun _ next other hnext => ?_
  refine (hnext.pop.discard fun _ _ _ hpopped => hpopped.2).bind fun _ next other hnext => ?_
  have htoken := hpaired.alike.plain.operands token (TokenStack.mem_of_top htop)
  exact .ok ⟨⟨token, _, htoken, hread⟩, hnext⟩

theorem withStore (hpaired : Paired leeway first second left right) {own other : Store}
    (hquiet : own.quiet = other.quiet) (hplain : own.Plain) :
    Paired leeway first second { left with store := own } { right with store := other } where
  alike :=
    { hpaired.alike with
      store := hquiet
      plain := { hpaired.alike.plain with store := hplain }
      voice := fun hgait => { hpaired.alike.voice hgait with } }
  left := hpaired.left
  right := hpaired.right

theorem insert_quiet (hpaired : Paired leeway first second left right) (id : DictId)
    (name : Name) (token : Token) :
    (left.store.insert id name token).quiet = (right.store.insert id name token).quiet := by
  rw [Store.quiet_insert, Store.quiet_insert right.store, hpaired.alike.store]

theorem define (hpaired : Paired leeway first second left right) (name : Name) {token : Token}
    (htoken : token.Plain) :
    Agree leeway (Paired leeway first second) (fun _ => Paired leeway first second)
      (Machine.define name token left) (Machine.define name token right) := by
  have htop : right.scopes.top = left.scopes.top := by rw [hpaired.alike.scopes]
  have hwritten : Paired leeway first second
      { left with store := left.store.insert left.scopes.top name token }
      { right with store := right.store.insert right.scopes.top name token } := by
    rw [htop]
    exact hpaired.withStore (hpaired.insert_quiet _ _ _)
      (hpaired.alike.plain.store.insert _ _ htoken)
  apply Agree.get
  simp only [htop, hpaired.alike.dictionary] at hwritten ⊢
  cases (left.store.dictionary left.scopes.top).peek? name with
  | none => exact .ok hwritten
  | some bound =>
    simp only
    split
    · exact .error hpaired
    · exact .ok hwritten

theorem lookup (hpaired : Paired leeway first second left right) (name : Name) :
    Agree leeway failed (fun found left right => (∀ token ∈ found, token.Plain) ∧
        Paired leeway first second left right)
      (Machine.lookup name left) (Machine.lookup name right) := by
  have hwhere : right.scopes.whereDefined? right.store name =
      left.scopes.whereDefined? left.store name := by
    rw [hpaired.alike.scopes]
    simp only [Scopes.whereDefined?, hpaired.alike.dictionary]
  have hslot : ∀ id, right.store.slot? id name = left.store.slot? id name := by
    intro id
    rw [Store.slot?, hpaired.alike.dictionary, Store.slot?]
  apply Agree.get
  simp only [Scopes.lookup_eq, hwhere]
  cases left.scopes.whereDefined? left.store name with
  | none => exact .ok ⟨by simp, hpaired⟩
  | some id =>
    simp only [Option.bind_some, hslot]
    cases hfound : left.store.slot? id name with
    | none => exact .ok ⟨by simp, hpaired⟩
    | some slot =>
      have htoken := hpaired.alike.plain.store.slot hfound
      have htouched : Paired leeway first second
          { left with store := left.store.touch id name }
          { right with store := right.store.touch id name } := by
        refine hpaired.withStore ?_ (hpaired.alike.plain.store.touch id name)
        rw [Store.quiet_touch, Store.quiet_touch, hpaired.alike.store]
      refine (htouched.claim [.token slot.token] [.token slot.token]).bind
        fun _ next other hnext => .ok ⟨?_, hnext⟩
      simpa using htoken

end Paired

end StackLang
