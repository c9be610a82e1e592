import StackLang.Proofs.Control.Statements
import StackLang.Proofs.Control.Watching
import StackLang.Proofs.Store.Rendering

/-!
# What a backtrace tells

The numbers in a frame say what comes next, and a backtrace reckons back from them to what
is going on.  That is sound only where an error can come up: while a token is executed that
each open frame has handed out in its round, or that something executed there has.  The
steps of the frames themselves never fail.

So a backtrace has one report for each open frame, the innermost first, and what the
reports say is what was seen of the frames when the run was watched from outside.
-/

namespace StackLang

open Relation (ReflTransGen)

/-! ## What is written about a frame -/

namespace Token

variable {expand : DictId → Option String} {indent : String} {cursor : Int}

/-- The lines of a token are the same behind every margin. -/
theorem lines?_eq_map (margin : String) (token : Token) :
    token.lines? expand indent margin =
      (token.lines? expand indent "").map fun lines => margin ++ lines := by
  cases token with
  | void => simp [lines?, String.append_assoc]
  | datum value attributes =>
    simp only [lines?]
    cases value with
    | procedure id body | litProcedure id body =>
      simp only [Value.lines?]
      cases listElements? expand (indent ++ blank) (-1) 0 body <;> simp [String.append_assoc]
    | _ =>
      simp only [Value.lines?]
      generalize Value.render? expand true _ = shown
      cases shown <;> simp [String.append_assoc]

/-- The elements of a listing differ from those of an unmarked one by their margins. -/
theorem exists_listElements? {items : List Token} {position : Nat} {text : String}
    (hlisted : listElements? expand indent cursor position items = some text) :
    ∃ blocks, items.mapM (lines? expand indent "") = some blocks ∧
      text = String.join (blocks.mapIdx fun index block =>
        margin cursor (position + index) ++ block) := by
  induction items generalizing position text with
  | nil =>
    obtain rfl := Option.some.inj hlisted
    exact ⟨[], rfl, rfl⟩
  | cons token rest ih =>
    obtain ⟨lines, hlines, hmore⟩ := Option.bind_eq_some_iff.1 hlisted
    obtain ⟨others, hothers, hjoined⟩ := Option.bind_eq_some_iff.1 hmore
    obtain rfl := Option.some.inj hjoined
    rw [lines?_eq_map] at hlines
    obtain ⟨block, hblock, rfl⟩ := Option.map_eq_some_iff.1 hlines
    obtain ⟨blocks, hblocks, rfl⟩ := ih hothers
    have hshift (index : Nat) : position + 1 + index = position + (index + 1) := by omega
    refine ⟨block :: blocks, ?_, ?_⟩
    · rw [List.mapM_cons, hblock, hblocks]
      rfl
    · simp only [List.mapIdx_cons, String.join_cons, hshift, Nat.add_zero]

end Token

/-- What is written about a frame: its header, and below it the elements of its body as a
block, if it has one.  The element at the cursor is marked, and no other. -/
inductive FrameReport.Reads (expand : DictId → Option String) : FrameReport → String → Prop where
  | header {header : String} {cursor : Int} :
    Reads expand ⟨header, none, cursor⟩ (header ++ "\n")
  | block {header : String} {body : List Token} {cursor : Int} {blocks : List String}
    (hblocks : body.mapM (Token.lines? expand Token.blank "") = some blocks) :
    Reads expand ⟨header, some body, cursor⟩
      (header ++ "\n" ++ Token.blank ++ "\x7b\n" ++
        String.join (blocks.mapIdx fun index block =>
          (if cursor = index then Token.marker else Token.blank) ++ block) ++
        Token.blank ++ "\x7d\n")

theorem FrameReport.reads_of_render? {expand : DictId → Option String} {report : FrameReport}
    {text : String} (htext : report.render? expand = some text) : Reads expand report text := by
  obtain ⟨header, body, cursor⟩ := report
  cases body with
  | none =>
    obtain rfl := Option.some.inj htext
    exact .header
  | some body =>
    obtain ⟨shown, hshown, htext⟩ := Option.bind_eq_some_iff.1 htext
    obtain ⟨block, hblock, hshown⟩ := Option.bind_eq_some_iff.1 hshown
    obtain rfl := Option.some.inj hshown
    obtain rfl := Option.some.inj htext
    obtain ⟨blocks, hblocks, rfl⟩ := Token.exists_listElements? hblock
    have hreads : Reads expand ⟨header, some body, cursor⟩ _ := .block hblocks
    simpa [Token.margin, String.append_assoc] using hreads

theorem FrameReport.forall₂_reads {expand : DictId → Option String} {reports : List FrameReport}
    {texts : List String} (htexts : reports.mapM (render? expand) = some texts) :
    List.Forall₂ (Reads expand) reports texts := by
  induction reports generalizing texts with
  | nil =>
    obtain rfl := Option.some.inj htexts
    exact .nil
  | cons report rest ih =>
    rw [List.mapM_cons] at htexts
    obtain ⟨text, htext, hmore⟩ := Option.bind_eq_some_iff.1 htexts
    obtain ⟨others, hothers, hcons⟩ := Option.bind_eq_some_iff.1 hmore
    obtain rfl := Option.some.inj hcons
    exact .cons (reads_of_render? htext) (ih hothers)

/-- The body of a frame shows a dictionary whose text does not end. -/
def FrameReport.Untellable (store : Store) (report : FrameReport) : Prop :=
  ∃ body, report.body = some body ∧ ∃ id ∈ Token.expandedAll body, store.Endless id

theorem FrameReport.render?_eq_none_iff {store : Store} {report : FrameReport} :
    report.render? store.display? = none ↔ report.Untellable store := by
  obtain ⟨header, body, cursor⟩ := report
  cases body with
  | none => simp [render?, Untellable]
  | some body =>
    have hasks := (Token.asks_listing "" cursor body).map fun text => header ++ "\n" ++ text ++ "\n"
    constructor
    · intro hnone
      exact ⟨body, rfl, Store.exists_endless hasks hnone⟩
    · rintro ⟨_, ⟨⟩, id, hmem, hendless⟩
      cases htext : render? store.display? ⟨header, some body, cursor⟩ with
      | none => rfl
      | some text =>
        exact absurd hendless (Store.exists_display?_iff.1 (hasks.needs htext id hmem))

/-! ## What was seen of a frame -/

/-- A number as a report gives it. -/
def FrameReport.number (n : Int) : String :=
  String.ofList (Decimal.ofInt n)

namespace Account

/-- What was handed out last is the element at `index`, after all those before it in the same
round. -/
structure Reaches (account : Account) (body : List Token) (index : Nat) : Prop where
  handed : account.handed = index + 1
  last : ∃ element, account.last = some element ∧ body[index]? = some element

/-- The element at `index` of the object is the one that is visited, after all those before
it. -/
structure Visits (account : Account) (primitive : Primitive) (object : Token) (index : Nat) :
    Prop where
  handed : account.handed = index + 1
  shown : ∃ element, Machine.objectElement? object (.ofNat index) = some element ∧
    account.shown = Frame.visited primitive (.ofNat index) element

end Account

/-- A report that tells what was seen of an open frame: which element is being executed,
and of the round that is going on

* for `repeat`, how many of the rounds that were asked for are yet to begin,
* for `for`, the number that it has shown to the program,
* for `forall` over an array, the index of the element that it visits, counted from one,
* for the other forms of `forall`, that index counted from zero.
-/
inductive Described (account : Account) : Frame → FrameReport → Prop where
  | procedure {attributes : Attributes} {body : Procedure} {position : Int64} {index : Nat}
    (hreaches : account.Reaches body.body index) :
    Described account (.procedure attributes body position)
      ⟨"In procedure:", some body.body, index⟩
  | loop {body : Procedure} {position : Int64} {index : Nat}
    (hreaches : account.Reaches body.body index) :
    Described account (.loop body position) ⟨"During loop:", some body.body, index⟩
  | repetition {asked rounds : Int64} {body : Procedure} {position : Int64} {index : Nat}
    (hasked : account.asked = some asked) (hreaches : account.Reaches body.body index) :
    Described account (.repetition rounds body position)
      ⟨"During repeat with " ++ FrameReport.number (asked.toInt - account.begun) ++
        " iterations remaining.", some body.body, index⟩
  | counting {increment limit counter value : Int64} {body : Procedure} {position : Int64}
    {index : Nat} (hshown : account.shown = [.integer value])
    (hexact : (counter - increment).toInt = counter.toInt - increment.toInt)
    (hreaches : account.Reaches body.body index) :
    Described account (.counting increment limit counter body position)
      ⟨"During for at iterator value " ++ FrameReport.number value.toInt ++ ".",
        some body.body, index⟩
  | forAllArray {object : Token} {limit position : Int64} {body : Procedure} {index : Nat}
    (hvisits : account.Visits .forAllArray object index) :
    Described account (.forAll .forAllArray object limit position body)
      ⟨"During forall (array) at iteration " ++ FrameReport.number (index + 1) ++ ".",
        some body.body, -1⟩
  | forAllIndexedArray {object : Token} {limit position : Int64} {body : Procedure} {index : Nat}
    (hvisits : account.Visits .forAllIndexedArray object index) :
    Described account (.forAll .forAllIndexedArray object limit position body)
      ⟨"During forallindexed (array) at iteration " ++ FrameReport.number index ++ ".",
        some body.body, -1⟩
  | forAllString {object : Token} {limit position : Int64} {body : Procedure} {index : Nat}
    (hvisits : account.Visits .forAllString object index) :
    Described account (.forAll .forAllString object limit position body)
      ⟨"During forall (string) at iteration " ++ FrameReport.number index ++ ".",
        some body.body, -1⟩
  | forAllIndexedString {object : Token} {limit position : Int64} {body : Procedure}
    {index : Nat} (hvisits : account.Visits .forAllIndexedString object index) :
    Described account (.forAll .forAllIndexedString object limit position body)
      ⟨"During forallindexed (string) at iteration " ++ FrameReport.number index ++ ".",
        some body.body, -1⟩

/-- The position before the one that comes next. -/
theorem Machine.ofNat_succ_sub_one (k : Nat) : Int64.ofNat (k + 1) - 1 = .ofNat k := by
  rw [← ofNat_succ, Int64.add_sub_cancel]

namespace Account

variable {account : Account} {frame : Frame} {body : List Token} {position : Int64}

theorem Marks.reaches (hmarks : account.Marks body position) (hlength : body.length < 2 ^ 63)
    (hhanded : account.handed ≠ 0) :
    ∃ index, account.Reaches body index ∧ (position - 1).toInt = index := by
  cases hmarks with
  | first hzero => exact absurd hzero hhanded
  | @behind k element hcount hlast helement =>
    have hlt := (List.getElem?_eq_some_iff.1 helement).1
    refine ⟨k, ⟨hcount, element, hlast, helement⟩, ?_⟩
    rw [Machine.ofNat_succ_sub_one, Int64.toInt_ofNat_of_lt (by omega)]

/-- The position of a loop over an object is behind the element that is visited. -/
theorem Visits.described {primitive : Primitive} {object : Token} {limit : Int64}
    {body : Procedure} {k : Nat} (hvisits : account.Visits primitive object k)
    (hk : k + 1 < 2 ^ 63)
    (hframe : (Frame.forAll primitive object limit (.ofNat (k + 1)) body).Ordinary) :
    Described account (.forAll primitive object limit (.ofNat (k + 1)) body)
      (Frame.forAll primitive object limit (.ofNat (k + 1)) body).report := by
  have hnext : (Int64.ofNat (k + 1)).toInt = k + 1 := Int64.toInt_ofNat_of_lt hk
  have hcurrent : (Int64.ofNat (k + 1) - 1).toInt = k := by
    rw [Machine.ofNat_succ_sub_one, Int64.toInt_ofNat_of_lt (by omega)]
  obtain ⟨-, -, indexed, n, helements, -⟩ := hframe
  have hprimitive := (Machine.primitive_of_elementsOf helements).2
  simp only [List.mem_cons, List.not_mem_nil, or_false] at hprimitive
  rcases hprimitive with rfl | rfl | rfl | rfl
  · have htold : Described account (.forAll .forAllArray object limit (.ofNat (k + 1)) body) _ :=
      .forAllArray hvisits
    rwa [← hnext] at htold
  · have htold : Described account
        (.forAll .forAllIndexedArray object limit (.ofNat (k + 1)) body) _ :=
      .forAllIndexedArray hvisits
    rwa [← hcurrent] at htold
  · have htold : Described account (.forAll .forAllString object limit (.ofNat (k + 1)) body) _ :=
      .forAllString hvisits
    rwa [← hcurrent] at htold
  · have htold : Described account
        (.forAll .forAllIndexedString object limit (.ofNat (k + 1)) body) _ :=
      .forAllIndexedString hvisits
    rwa [← hcurrent] at htold

/-- While a frame waits for the token that it has handed out, its report tells what was seen
of it. -/
theorem Tallies.described (htallies : account.Tallies frame) (hframe : frame.Ordinary)
    (hshort : frame.Short) (hhanded : account.handed ≠ 0) :
    Described account frame frame.report := by
  cases htallies with
  | @procedure attributes body position hmarks =>
    obtain ⟨index, hreaches, hcursor⟩ := hmarks.reaches hshort hhanded
    have htold : Described account (.procedure attributes body position) _ := .procedure hreaches
    rwa [← hcursor] at htold
  | @loop body position hmarks =>
    obtain ⟨index, hreaches, hcursor⟩ := hmarks.reaches hshort hhanded
    have htold : Described account (.loop body position) _ := .loop hreaches
    rwa [← hcursor] at htold
  | @repetition asked rounds body position hasked hrounds hmarks =>
    obtain ⟨index, hreaches, hcursor⟩ := hmarks.reaches hshort hhanded
    have htold : Described account (.repetition rounds body position) _ :=
      .repetition hasked hreaches
    rwa [← hrounds, ← hcursor] at htold
  | @counting increment limit counter value body position hshown hvalue hmarks =>
    obtain ⟨index, hreaches, hcursor⟩ := hmarks.reaches hshort hhanded
    -- The counter is one increment ahead of the value that was shown, without wrapping around.
    have hexact : (counter - increment).toInt = counter.toInt - increment.toInt := by
      have hlow := value.le_toInt
      have hhigh := value.toInt_lt
      exact Machine.toInt_sub_of_range (by omega) (by omega)
    have htold : Described account (.counting increment limit counter body position) _ :=
      .counting hshown hexact hreaches
    rwa [← hvalue, ← hexact, ← hcursor] at htold
  | forAll hcount hk helement hshown =>
    exact Visits.described ⟨hcount, _, helement, hshown⟩ hk hframe
  | freshRepetition hasked hbegun hzero => exact absurd hzero hhanded
  | freshCounting hzero | freshForAll hzero => exact absurd hzero hhanded

end Account

/-! ## Where an error comes up -/

namespace Machine

variable {host : HostOperators} {base higher : Nat} {state failed : Machine} {failure : Failure}

theorem Ends.lt_load (hends : Ends host base state (.error failure failed)) :
    base < state.execution.load := by
  cases hends with
  | failed hload | nested hload => exact hload

theorem Ends.above (hends : Ends host base state (.error failure failed))
    (hload : higher < state.execution.load) : Ends host higher state (.error failure failed) := by
  cases hends with
  | failed _ hstep => exact .failed hload hstep
  | nested _ hstep hrun hresume => exact .nested hload hstep hrun hresume

end Machine

variable {host : HostOperators} {base : Control} {start state failed : Machine}
  {frames : List Frame} {accounts : List Account} {error : Error}

/-- A token that fails leaves the frames below it as they are. -/
theorem Poised.control_of_error {token : Token} (hhost : host.Tame)
    (hpoised : Poised ((base.within frames).push token) state) (htoken : token.Ordinary)
    (hframes : ∀ frame ∈ frames, frame.Ordinary)
    (hends : Machine.Ends host base.items.length state (.error (.error error) failed)) :
    ∃ pending : Option Token, (∀ own ∈ pending, own.Ordinary) ∧
      failed.control = (base.within frames).awaiting pending := by
  have hyields := hpoised.step_pending hhost htoken hframes
  have hfailed : Yields base frames state.operands.items (.error (.error error) failed) := by
    cases hends with
    | failed hload hstep =>
      rw [hstep] at hyields
      exact hyields
    | nested hload hstep hrun hresume =>
      rw [hstep] at hyields
      rw [← hresume]
      exact hyields.resumed hhost hframes hrun
  cases hfailed with
  | error pending hpending hleft => exact ⟨pending, hpending, hleft.ahead⟩

/-- An operation that would fail wherever it is said to have started does not fail. -/
theorem Settles.not_error {α : Type} {post : α → Machine → Prop}
    (hsettles : ∀ start, Settles start post (.error (.error error) failed)) : False := by
  cases hsettles (failed.control.push .void) with
  | error hstart =>
    have hlonger := congrArg (fun control => control.items.length) hstart.ahead
    simp [Control.push] at hlonger

/-- An error comes up at a token above frames that wait for it. -/
theorem Booked.busy_of_error (hhost : host.Tame) (hbooked : Booked host base start state accounts)
    (hends : Machine.Ends host base.items.length state (.error (.error error) failed)) :
    ∃ frames pending, (∀ frame ∈ frames, frame.Ordinary) ∧
      (∀ token ∈ pending, Token.Ordinary token) ∧
      failed.control = (base.within frames).awaiting pending ∧
      (base.within frames).items.length < state.execution.load ∧
      Busy host base start state frames accounts := by
  cases hbooked with
  | @pending token frames _ htoken hframes hpoised hbusy =>
    obtain ⟨pending, hpending, hcontrol⟩ := hpoised.control_of_error hhost htoken hframes hends
    exact ⟨frames, pending, hframes, hpending, hcontrol, hpoised.lt_load, hbusy⟩
  | @resting frame rest account _ hframes hpoised =>
    have hstep : Machine.step host state = _ := Machine.step_of_enter hpoised.ahead
    have hadvance (elsewhere : Control) : Settles elsewhere
        (fun _ => Advances (base.within rest) frame state.operands.items)
        (Machine.advance frame.primitive state) :=
      hpoised.laden.advance (hframes frame (.head _))
    cases hends with
    | failed _ hfails =>
      rw [hstep] at hfails
      rw [Effect.finished.inj hfails] at hadvance
      exact (Settles.not_error hadvance).elim
    | nested _ hexecuting => cases hstep.symm.trans hexecuting
  | drained hpoised => exact absurd hends.lt_load (by rw [hpoised.load]; exact Nat.lt_irrefl _)

/-- The reports of a backtrace, the innermost frame first.  There is one for each open frame
and it describes that frame, and the token that the frame has handed out last, run on top of
it, ends with the error that the backtrace is about. -/
inductive Traced (host : HostOperators) (base : Control) (start : Machine) (error : Error)
    (failed : Machine) : List Account → List Frame → List FrameReport → Prop where
  | nil : Traced host base start error failed [] [] []
  | cons {account : Account} {accounts : List Account} {frame : Frame} {frames : List Frame}
    {report : FrameReport} {reports : List FrameReport} {token : Token} {first : Machine}
    {fuel : Nat} (hdescribed : frame.Short → Described account frame report)
    (hlast : account.last = some token)
    (hreached : ReflTransGen (Machine.Turn host base.items.length) start first)
    (hfirst : first.control = (base.within (frame :: frames)).push token)
    (hrun : Machine.run host fuel (base.within (frame :: frames)).items.length first =
      some (.error (.error error) failed))
    (hrest : Traced host base start error failed accounts frames reports) :
    Traced host base start error failed (account :: accounts) (frame :: frames)
      (report :: reports)

theorem Busy.traced (hbusy : Busy host base start state frames accounts)
    (hframes : ∀ frame ∈ frames, frame.Ordinary)
    (hends : Machine.Ends host base.items.length state (.error (.error error) failed))
    (hload : (base.within frames).items.length < state.execution.load) :
    Traced host base start error failed accounts frames (frames.map Frame.report) := by
  induction hbusy with
  | nil => exact .nil
  | @cons frame rest account accounts hled htallies hhanded hrest ih =>
    obtain ⟨token, first, hlast, hreached, hfirst, hsince⟩ := hled
    obtain ⟨fuel, hrun⟩ := Machine.exists_run_iff.2 ⟨state, hsince, hends.above hload⟩
    have hbelow := base.length_within_lt frame rest
    have htraced := ih (fun own hmem => hframes own (.tail _ hmem)) (hbelow.trans hload)
    refine .cons (fun hshort => ?_) hlast hreached hfirst hrun htraced
    exact (htallies hshort).described (hframes frame (.head _)) hshort hhanded

namespace Machine

/-- What a statement comes to whose run has failed: it dies if it cannot tell about some frame,
and otherwise it writes the error and what is to be told about each frame, and returns the
error. -/
structure Tells (error : Error) (failed : Machine) (reports : List FrameReport)
    (outcome : Outcome) : Prop where
  dies : (∃ report ∈ reports, report.Untellable failed.store) →
    ∃ next, outcome = .error (.fault .endlessText) next
  writes : (∀ report ∈ reports, ¬ report.Untellable failed.store) → ∃ texts next,
    List.Forall₂ (FrameReport.Reads failed.store.display?) reports texts ∧
      outcome = .error (.error error) next ∧
      next.diagnostics = ⟨.backtrace, error.message ++ "\n" ++ String.join texts⟩ ::
        failed.diagnostics

theorem tells {pending : Option Token} (hpending : ∀ token ∈ pending, token.Ordinary)
    (hframes : ∀ frame ∈ frames, frame.Ordinary)
    (hcontrol : failed.control = (base.within frames).awaiting pending) (depth : Nat) :
    Tells error failed (frames.map Frame.report)
      (conclude base.items.length depth (.error (.error error) failed)) := by
  have hbacktrace := backtrace?_eq (fun token hmem => (hpending token hmem).not_primitive)
    (fun frame hmem => (hframes frame hmem).shaped) hcontrol error
  constructor
  · rintro ⟨report, hmem, huntellable⟩
    have hnone : (frames.map Frame.report).mapM (FrameReport.render? failed.store.display?) =
        none := by
      rw [← Option.not_isSome_iff_eq_none, isSome_mapM]
      intro hall
      have htold := hall report hmem
      rw [FrameReport.render?_eq_none_iff.2 huntellable] at htold
      cases htold
    rw [hnone] at hbacktrace
    refine ⟨failed.report (.statementFailed error), ?_⟩
    simp only [conclude, EStateM.run, abandon_eq, hbacktrace]
    rfl
  · intro htellable
    have hsome : ((frames.map Frame.report).mapM
        (FrameReport.render? failed.store.display?)).isSome := by
      rw [isSome_mapM]
      intro report hmem
      rw [Option.isSome_iff_ne_none]
      exact fun hnone => htellable report hmem (FrameReport.render?_eq_none_iff.1 hnone)
    obtain ⟨texts, htexts⟩ := Option.isSome_iff_exists.1 hsome
    rw [htexts] at hbacktrace
    let text := error.message ++ "\n" ++ String.join texts
    let told := (failed.report (.statementFailed error)).emit .backtrace text
    refine ⟨texts, told.discarded base.items.length depth, FrameReport.forall₂_reads htexts, ?_,
      rfl⟩
    simp only [conclude, EStateM.run, abandon_eq, hbacktrace]
    rfl

/-- A statement whose run fails is executed to an end, and tells about each frame that it has
open, the innermost first, if it can.  Each report describes its frame as it was seen from
outside while the statement was executed. -/
theorem execute_error_backtrace (hhost : host.Tame) {machine : Machine}
    (hmachine : machine.Ordinary) {token : Token} (htoken : token.Ordinary) {fuel : Nat}
    (hrun : run host fuel machine.execution.load (machine.schedule token) =
      some (.error (.error error) failed)) :
    ∃ outcome last accounts frames reports,
      execute host fuel token machine = some outcome ∧
      Watched host machine.execution.load (machine.schedule token) last accounts ∧
      Ends host machine.execution.load last (.error (.error error) failed) ∧
      (∃ pending, failed.control = (machine.control.within frames).awaiting pending) ∧
      Traced host machine.control (machine.schedule token) error failed accounts frames
        reports ∧
      Tells error failed reports outcome := by
  have hexecute : execute host fuel token machine =
      some (conclude machine.execution.load machine.depth (.error (.error error) failed)) :=
    congrArg (Option.map (conclude machine.execution.load machine.depth)) hrun
  have hpoised : Poised machine.control machine := ⟨rfl, hmachine⟩
  have hload : machine.execution.load = machine.control.items.length :=
    machine.execution.load_eq
  rw [hload] at hrun hexecute ⊢
  obtain ⟨last, hturns, hends⟩ := exists_run_iff.1 ⟨fuel, hrun⟩
  obtain ⟨accounts, hwatched⟩ := exists_watched hturns
  have hbooked := (hwatched.booked hhost hpoised htoken).resolve_right fun hdeparted =>
    hdeparted.drained hends.lt_load
  obtain ⟨frames, pending, hframes, hpending, hcontrol, hmore, hbusy⟩ :=
    hbooked.busy_of_error hhost hends
  exact ⟨_, last, accounts, frames, frames.map Frame.report, hexecute, hwatched, hends,
    ⟨pending, hcontrol⟩, hbusy.traced hframes hends hmore,
    tells hpending hframes hcontrol machine.depth⟩

/-- A machine that is about to count from the last number to itself. -/
def countingLast : Machine where
  operands := TokenStack.empty.pushAll
    [.integer Int64.maxValue, .integer 1, .integer Int64.maxValue,
      .procedure ⟨⟨0⟩, [.boolean true, .name "nowhere"]⟩]
  store := { dictionaries := #[.empty, .empty] }
  scopes := ⟨⟨0⟩, ⟨1⟩, []⟩

/-- The round after which the counter cannot move on is described as well. -/
theorem execute_error_backtrace_last :
    ∃ failed next last accounts frames reports texts,
      execute HostOperator.operators 6 (.function "for" .counting) countingLast =
        some (.error (.error (.undefinedName "nowhere")) next) ∧
      Watched HostOperator.operators 0 (countingLast.schedule (.function "for" .counting)) last
        accounts ∧
      Traced HostOperator.operators countingLast.control
        (countingLast.schedule (.function "for" .counting)) (.undefinedName "nowhere") failed
        accounts frames reports ∧
      List.Forall₂ (FrameReport.Reads failed.store.display?) reports texts ∧
      next.diagnostics = ⟨.backtrace, (Error.undefinedName "nowhere").message ++ "\n" ++
        String.join texts⟩ :: failed.diagnostics := by
  obtain ⟨failed, hrun⟩ : ∃ failed, run HostOperator.operators 6 0
      (countingLast.schedule (.function "for" .counting)) =
        some (.error (.error (.undefinedName "nowhere")) failed) :=
    ⟨_, rfl⟩
  have hordinary : countingLast.Ordinary := by decide
  have htoken : (Token.function "for" .counting).Ordinary := by decide
  obtain ⟨outcome, last, accounts, frames, reports, hexecute, hwatched, -, -, htraced, htells⟩ :=
    execute_error_backtrace HostOperator.operators_tame hordinary htoken hrun
  have hchecked : (execute HostOperator.operators 6 (.function "for" .counting) countingLast).any
      (fun ended => !decide (Faulted ended)) = true := by
    decide +kernel
  obtain ⟨ended, hended, hspared⟩ := exists_unfaulted hchecked
  obtain rfl : outcome = ended := Option.some.inj (hexecute.symm.trans hended)
  have htellable : ∀ report ∈ reports, ¬ report.Untellable failed.store := by
    intro report hmem huntellable
    obtain ⟨dead, rfl⟩ := htells.dies ⟨report, hmem, huntellable⟩
    exact hspared trivial
  obtain ⟨texts, next, hreads, rfl, hwritten⟩ := htells.writes htellable
  exact ⟨failed, next, last, accounts, frames, reports, texts, hexecute, hwatched, htraced,
    hreads, hwritten⟩

/-- A statement that fails and dies of telling about it. -/
def untoldCall : Token :=
  .procedure ⟨⟨0⟩, [knot, .name "nowhere", .integer 1]⟩

/-- A backtrace is not always written: a statement dies of it if the body of an open frame
shows a dictionary that is stored in itself. -/
theorem execute_error_untold :
    entangled.Ordinary ∧ untoldCall.Ordinary ∧
      (∃ failed, run HostOperator.operators 10 0 (entangled.schedule untoldCall) =
        some (.error (.error (.undefinedName "nowhere")) failed)) ∧
      ∀ fuel error next,
        execute HostOperator.operators fuel untoldCall entangled ≠
          some (.error (.error error) next) := by
  refine ⟨by decide +kernel, by decide, ⟨_, rfl⟩, fun fuel error next hexecute => ?_⟩
  have hchecked : ((execute HostOperator.operators 10 untoldCall entangled).any
      fun ended => decide (Faulted ended)) = true := by
    decide +kernel
  obtain ⟨ended, hended, hfaulted⟩ := exists_faulted hchecked
  obtain rfl := execute_unique hexecute hended
  exact hfaulted

end Machine

end StackLang
