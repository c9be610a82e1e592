import StackLang.Proofs.Control.Leaving

/-!
# Watching a run

What a frame has done can be seen without knowing what it keeps: from one turn to the next
the number of open frames, the operands and the execution stack tell when a frame is opened
or closed, when it begins a round, what it hands out and what it shows to the program.

An account of each open frame is kept beside the run.  It tallies with the numbers in the
frame, although these say what comes next and not what is going on.  While a token is
executed above them, each open frame has handed out a token in the round that is going on,
and the run since then is the run of that token.
-/

namespace StackLang

open Relation (ReflTransGen)

/-- What was seen of an open frame. -/
structure Account where
  /-- The number below the topmost operand when the frame was opened. -/
  asked : Option Int64
  /-- How many rounds it has begun. -/
  begun : Nat := 0
  /-- How many tokens it has handed out since then. -/
  handed : Nat := 0
  /-- The token that it has handed out last. -/
  last : Option Token := none
  /-- The operands that it has shown last, the topmost first. -/
  shown : List Token := []

namespace Account

/-- The account of a frame that is opened on a machine with these operands. -/
def opening (operands : List Token) : Account :=
  { asked := operands[1]?.bind Kind.integer? }

/-- The frame shows operands, if any. -/
def shows (shown : List Token) (account : Account) : Account :=
  if shown.isEmpty then account else { account with shown }

/-- The frame begins a round. -/
def begins (shown : List Token) (account : Account) : Account :=
  { account.shows shown with begun := account.begun + 1, handed := 0 }

/-- The frame hands out a token. -/
def hands (token : Option Token) (shown : List Token) (account : Account) : Account :=
  { account.shows shown with handed := account.handed + 1, last := token }

/-- The frame has made a step and is still open.  If there is more to be executed than
before, it has handed out what is on top. -/
def advance (before after : Machine) (account : Account) : Account :=
  let count := after.operands.items.length - before.operands.items.length
  let shown := after.operands.items.take count
  if before.execution.load < after.execution.load then
    account.hands after.execution.items.head? shown
  else account.begins shown

end Account

namespace Machine

/-- The accounts of the open frames after a turn, the innermost first. -/
def watch (before after : Machine) (accounts : List Account) : List Account :=
  if after.depth < before.depth then accounts.drop (before.depth - after.depth)
  else if before.depth < after.depth then .opening before.operands.items :: accounts
  else
    match before.execution.items with
    | .datum (.primitive _) _ :: _ => accounts.modifyHead (Account.advance before after)
    | _ => accounts

/-- The machines that a run comes to from its start, each with the accounts of the frames
that the run has opened and not closed. -/
inductive Watched (host : HostOperators) (base : Nat) (start : Machine) :
    Machine → List Account → Prop where
  | begun : Watched host base start start []
  | turn {state next : Machine} {accounts : List Account}
    (hstate : Watched host base start state accounts) (hturn : Turn host base state next) :
    Watched host base start next (watch state next accounts)

variable {host : HostOperators} {base : Nat} {start state : Machine} {accounts : List Account}

theorem Watched.turns (hwatched : Watched host base start state accounts) :
    ReflTransGen (Turn host base) start state := by
  induction hwatched with
  | begun => exact .refl
  | turn hstate hturn ih => exact ih.tail hturn

theorem exists_watched (hturns : ReflTransGen (Turn host base) start state) :
    ∃ accounts, Watched host base start state accounts := by
  induction hturns with
  | refl => exact ⟨[], .begun⟩
  | tail hturns hturn ih =>
    obtain ⟨accounts, hstate⟩ := ih
    exact ⟨_, hstate.turn hturn⟩

end Machine

/-! ## What is seen in a turn -/

section Seen

variable {before after : Machine} {accounts : List Account}

theorem Machine.watch_nil (hdepth : after.depth ≤ before.depth) : watch before after [] = [] := by
  rw [watch, List.drop_nil, if_neg (Nat.not_lt.2 hdepth)]
  split
  · rfl
  · split <;> rfl

theorem Machine.watch_closed {count : Nat} (hdepth : after.depth + (count + 1) = before.depth) :
    watch before after accounts = accounts.drop (count + 1) := by
  rw [watch, if_pos (by omega), show before.depth - after.depth = count + 1 by omega]

theorem Machine.watch_opened (hdepth : after.depth = before.depth + 1) :
    watch before after accounts = .opening before.operands.items :: accounts := by
  rw [watch, if_neg (by omega), if_pos (by omega)]

theorem Machine.watch_kept {token : Token} {below : List Token} (htoken : token.Ordinary)
    (hitems : before.execution.items = token :: below) (hdepth : after.depth = before.depth) :
    watch before after accounts = accounts := by
  rw [watch, if_neg (by omega), if_neg (by omega), hitems]
  cases token with
  | void => rfl
  | datum value attributes =>
    cases value with
    | primitive own => exact absurd htoken (Value.not_ordinary_primitive own)
    | _ => rfl

theorem Machine.watch_advanced {frame : Frame} {control : Control}
    (hbefore : before.control = control.enter frame) (hdepth : after.depth = before.depth) :
    watch before after accounts = accounts.modifyHead (Account.advance before after) := by
  have hitems : before.execution.items = frame.tokens ++ control.items :=
    congrArg Control.items hbefore
  rw [frame.tokens_eq] at hitems
  rw [watch, if_neg (by omega), if_neg (by omega), hitems]
  rfl

theorem Account.advance_begins {frame moved : Frame} {control : Control} {shown : List Token}
    (hbegins : frame.Begins moved shown) (hbefore : before.control = control.enter frame)
    (hafter : Laden (control.enter moved) (shown ++ before.operands.items) after)
    (account : Account) : account.advance before after = account.begins shown := by
  have hsame : moved.tokens.length = frame.tokens.length := by cases hbegins <;> rfl
  have hload : after.execution.load = before.execution.load := by
    rw [Machine.load_of_control hafter.ahead, Machine.load_of_control hbefore, Control.enter,
      Control.enter, List.length_append, List.length_append, hsame]
  simp only [advance, hload, Nat.lt_irrefl, if_false, hafter.operands_eq, List.length_append,
    Nat.add_sub_cancel, List.take_left']

theorem Account.advance_hands {frame moved : Frame} {control : Control} {token : Token}
    {shown : List Token} (hhands : frame.Hands moved token shown)
    (hbefore : before.control = control.enter frame)
    (hafter : Laden ((control.enter moved).push token) (shown ++ before.operands.items) after)
    (account : Account) : account.advance before after = account.hands (some token) shown := by
  have hsame : moved.tokens.length = frame.tokens.length := by cases hhands <;> rfl
  have hmore : before.execution.load < after.execution.load := by
    rw [Machine.load_of_control hafter.ahead, Machine.load_of_control hbefore]
    simp only [Control.push, Control.enter, List.length_cons, List.length_append, hsame]
    omega
  have hitems : after.execution.items = token :: (control.enter moved).items :=
    congrArg Control.items hafter.ahead
  simp only [advance, hmore, if_true, hafter.operands_eq, List.length_append,
    Nat.add_sub_cancel, List.take_left', hitems, List.head?_cons]

end Seen

/-! ## Accounts and frames -/

/-- The body that the frame hands out or runs. -/
def Frame.body : Frame → Procedure
  | procedure _ body _ | loop body _ | repetition _ body _ | counting _ _ _ body _
  | forAll _ _ _ _ body => body

/-- All positions in the body are numbers of the machine, as in every body that fits into
memory. -/
def Frame.Short (frame : Frame) : Prop :=
  frame.body.body.length < 2 ^ 63

namespace Account

/-- The position is behind the element that was handed out last in this round, if there
was one. -/
inductive Marks (account : Account) (body : List Token) : Int64 → Prop where
  | first (hhanded : account.handed = 0) : Marks account body 0
  | behind {k : Nat} {element : Token} (hhanded : account.handed = k + 1)
    (hlast : account.last = some element) (helement : body[k]? = some element) :
    Marks account body (.ofNat (k + 1))

/-- What was seen of a frame and what it keeps agree. -/
inductive Tallies (account : Account) : Frame → Prop where
  | procedure {attributes : Attributes} {body : Procedure} {position : Int64}
    (hmarks : account.Marks body.body position) :
    Tallies account (.procedure attributes body position)
  | loop {body : Procedure} {position : Int64} (hmarks : account.Marks body.body position) :
    Tallies account (.loop body position)
  | freshRepetition {rounds : Int64} {body : Procedure} (hasked : account.asked = some rounds)
    (hbegun : account.begun = 0) (hhanded : account.handed = 0) :
    Tallies account (.repetition rounds body (.ofNat body.body.length))
  | repetition {asked rounds : Int64} {body : Procedure} {position : Int64}
    (hasked : account.asked = some asked) (hrounds : rounds.toInt = asked.toInt - account.begun)
    (hmarks : account.Marks body.body position) :
    Tallies account (.repetition rounds body position)
  | freshCounting {increment limit counter : Int64} {body : Procedure}
    (hhanded : account.handed = 0) :
    Tallies account (.counting increment limit counter body (.ofNat body.body.length))
  | counting {increment limit counter value : Int64} {body : Procedure} {position : Int64}
    (hshown : account.shown = [.integer value])
    (hvalue : counter.toInt - increment.toInt = value.toInt)
    (hmarks : account.Marks body.body position) :
    Tallies account (.counting increment limit counter body position)
  | freshForAll {primitive : Primitive} {object : Token} {limit : Int64} {body : Procedure}
    (hhanded : account.handed = 0) : Tallies account (.forAll primitive object limit 0 body)
  | forAll {primitive : Primitive} {object element : Token} {limit : Int64} {body : Procedure}
    {k : Nat} (hhanded : account.handed = k + 1) (hk : k + 1 < 2 ^ 63)
    (helement : Machine.objectElement? object (.ofNat k) = some element)
    (hshown : account.shown = Frame.visited primitive (.ofNat k) element) :
    Tallies account (.forAll primitive object limit (.ofNat (k + 1)) body)

variable {account : Account} {body : List Token} {position : Int64} {element token : Token}
  {shown operands : List Token} {frame moved : Frame}

theorem Marks.position_eq (hmarks : account.Marks body position) :
    position = .ofNat account.handed := by
  cases hmarks with
  | first hhanded => rw [hhanded]; rfl
  | behind hhanded => rw [hhanded]

theorem Marks.handed_le (hmarks : account.Marks body position) :
    account.handed ≤ body.length := by
  cases hmarks with
  | first hhanded => omega
  | behind hhanded _ helement =>
    have hlt := (List.getElem?_eq_some_iff.1 helement).1
    omega

theorem Marks.hands (hmarks : account.Marks body position) (hlength : body.length < 2 ^ 63)
    (helement : Machine.elementAt body position = some element) :
    (account.hands (some element) shown).Marks body (position + 1) := by
  have hle := hmarks.handed_le
  rw [hmarks.position_eq, Machine.elementAt_ofNat _ (by omega)] at helement
  rw [hmarks.position_eq, Machine.ofNat_succ]
  exact .behind rfl rfl helement

theorem tallies_opening (hfresh : frame.Fresh operands) : (opening operands).Tallies frame := by
  cases frame with
  | procedure attributes body position =>
    obtain rfl : position = 0 := hfresh
    exact .procedure (.first rfl)
  | loop body position =>
    obtain rfl : position = 0 := hfresh
    exact .loop (.first rfl)
  | repetition rounds body position =>
    obtain ⟨hasked, rfl⟩ := hfresh
    exact .freshRepetition hasked rfl rfl
  | counting increment limit counter body position =>
    obtain rfl : position = .ofNat body.body.length := hfresh
    exact .freshCounting rfl
  | forAll primitive object limit position body =>
    obtain rfl : position = 0 := hfresh
    exact .freshForAll rfl

theorem Tallies.begins (htallies : account.Tallies frame) (hbegins : frame.Begins moved shown) :
    (account.begins shown).Tallies moved := by
  have hfirst (body : List Token) : (account.begins shown).Marks body 0 := .first rfl
  cases hbegins with
  | loop hover => exact .loop (hfirst _)
  | @repetition rounds body position hover hleft =>
    obtain ⟨asked, hasked, hrounds⟩ : ∃ asked, account.asked = some asked ∧
        rounds.toInt = asked.toInt - account.begun := by
      cases htallies with
      | freshRepetition hasked hbegun => exact ⟨rounds, hasked, by simp [hbegun]⟩
      | repetition hasked hrounds => exact ⟨_, hasked, hrounds⟩
    have hfewer : (rounds - 1).toInt = rounds.toInt - 1 := by
      have hone : (1 : Int64).toInt = 1 := rfl
      have hpositive : 0 < rounds.toInt := Int64.lt_iff_toInt_lt.1 hleft
      have hupper := rounds.toInt_lt
      rw [Machine.toInt_sub_of_range] <;> omega
    refine .repetition hasked ?_ (hfirst _)
    rw [hfewer, hrounds]
    simp only [Account.begins, Nat.cast_add, Nat.cast_one]
    omega
  | counting hover hleft hsum =>
    refine .counting rfl ?_ (hfirst _)
    rw [Machine.toInt_of_addExactly hsum]
    omega
  | lastCounting hover hleft hstuck =>
    -- The increment is gone and the counter stays.
    exact .counting rfl (Int.sub_zero _) (hfirst _)

theorem Tallies.hands (htallies : account.Tallies frame) (hshort : frame.Short)
    (hhands : frame.Hands moved token shown) :
    (account.hands (some token) shown).Tallies moved := by
  cases hhands with
  | procedure helement =>
    cases htallies with
    | procedure hmarks => exact .procedure (hmarks.hands hshort helement)
  | loop helement =>
    cases htallies with
    | loop hmarks => exact .loop (hmarks.hands hshort helement)
  | repetition helement =>
    cases htallies with
    -- Before its first round the frame stands behind the last element and hands out none.
    | freshRepetition =>
      cases (Machine.elementAt_length hshort).symm.trans helement
    | repetition hasked hrounds hmarks =>
      exact .repetition hasked hrounds (hmarks.hands hshort helement)
  | counting helement =>
    cases htallies with
    | freshCounting =>
      cases (Machine.elementAt_length hshort).symm.trans helement
    | counting hshown hvalue hmarks =>
      exact .counting hshown hvalue (hmarks.hands hshort helement)
  | @forAll primitive object limit position body element hleft helement =>
    obtain ⟨hposition, hhanded⟩ : position = .ofNat account.handed ∧ account.handed < 2 ^ 63 := by
      cases htallies with
      | freshForAll hhanded => exact ⟨by rw [hhanded]; rfl, by omega⟩
      | forAll hhanded hk => exact ⟨by rw [hhanded], by omega⟩
    -- The limit is a word itself, so counting up to it does not wrap around.
    have hmore : account.handed + 1 < 2 ^ 63 := by
      have hbefore := Int64.lt_iff_toInt_lt.1 hleft
      have hupper := limit.toInt_lt
      rw [hposition, Int64.toInt_ofNat_of_lt hhanded] at hbefore
      omega
    have hshown : (account.hands (some (.procedure body))
        (Frame.visited primitive position element)).shown =
          Frame.visited primitive position element := by
      simp only [Account.hands, Account.shows, Frame.visited]
      split <;> rfl
    rw [hposition] at helement hshown
    rw [hposition, Machine.ofNat_succ]
    exact .forAll rfl hmore helement hshown

end Account

theorem Frame.Begins.body_eq {frame moved : Frame} {shown : List Token}
    (hbegins : frame.Begins moved shown) : moved.body = frame.body := by
  cases hbegins <;> rfl

theorem Frame.Hands.body_eq {frame moved : Frame} {token : Token} {shown : List Token}
    (hhands : frame.Hands moved token shown) : moved.body = frame.body := by
  cases hhands <;> rfl

/-! ## Frames that wait for a token -/

theorem Control.length_within_lt (base : Control) (frame : Frame) (rest : List Frame) :
    (base.within rest).items.length < (base.within (frame :: rest)).items.length :=
  length_lt_enter (Nat.le_refl _)

theorem Poised.lt_load {control : Control} {token : Token} {machine : Machine}
    (hpoised : Poised (control.push token) machine) :
    control.items.length < machine.execution.load := by
  rw [hpoised.load]
  exact Nat.lt_succ_self _

theorem Machine.Turn.above {host : HostOperators} {base higher : Nat} {state next : Machine}
    (hturn : Turn host base state next) (hle : base ≤ higher)
    (hload : higher < state.execution.load) : Turn host higher state next := by
  cases hturn with
  | step _ hstep => exact .step hload hstep
  | nested _ hstep hrun hresume => exact .nested hload hstep hrun hresume
  | callback hdrained => exact absurd hload (by omega)

section Waiting

variable {host : HostOperators} {base : Control} {start state next : Machine}
  {frame : Frame} {frames rest : List Frame} {account : Account} {accounts : List Account}

/-- The token that the innermost of `frames` has handed out last was scheduled on top of
them, and all that the run has done since then is to run it there. -/
def Led (host : HostOperators) (base : Control) (start : Machine) (frames : List Frame)
    (account : Account) (state : Machine) : Prop :=
  ∃ token first, account.last = some token ∧
    ReflTransGen (Machine.Turn host base.items.length) start first ∧
    first.control = (base.within frames).push token ∧
    ReflTransGen (Machine.Turn host (base.within frames).items.length) first state

/-- Each of the open frames has handed out a token in its round and waits for it, the
innermost first. -/
inductive Busy (host : HostOperators) (base : Control) (start state : Machine) :
    List Frame → List Account → Prop where
  | nil : Busy host base start state [] []
  | cons {frame : Frame} {rest : List Frame} {account : Account} {accounts : List Account}
    (hled : Led host base start (frame :: rest) account state)
    (htallies : frame.Short → account.Tallies frame) (hhanded : account.handed ≠ 0)
    (hrest : Busy host base start state rest accounts) :
    Busy host base start state (frame :: rest) (account :: accounts)

theorem Led.turn (hled : Led host base start frames account state)
    (hturn : Machine.Turn host base.items.length state next)
    (hload : (base.within frames).items.length < state.execution.load) :
    Led host base start frames account next := by
  obtain ⟨token, first, hlast, hreached, hcontrol, hsince⟩ := hled
  exact ⟨token, first, hlast, hreached, hcontrol,
    hsince.tail (hturn.above (base.length_le_within frames) hload)⟩

theorem Busy.turn (hbusy : Busy host base start state frames accounts)
    (hturn : Machine.Turn host base.items.length state next)
    (hload : (base.within frames).items.length < state.execution.load) :
    Busy host base start next frames accounts := by
  induction hbusy with
  | nil => exact .nil
  | @cons frame rest account accounts hled htallies hhanded hrest ih =>
    have hbelow := base.length_within_lt frame rest
    exact .cons (hled.turn hturn hload) htallies hhanded (ih (hbelow.trans hload))

theorem Busy.drop {inner : List Frame}
    (hbusy : Busy host base start state (inner ++ frames) accounts) :
    Busy host base start state frames (accounts.drop inner.length) := by
  induction inner generalizing accounts with
  | nil => exact hbusy
  | cons frame inner ih =>
    cases hbusy with
    | cons hled htallies hhanded hrest => exact ih hrest

/-- The accounts tally with the frames that are open: with the innermost, which makes the
next step, or with all of them, when a token is to be executed above them. -/
inductive Booked (host : HostOperators) (base : Control) (start state : Machine) :
    List Account → Prop where
  | pending {token : Token} {frames : List Frame} {accounts : List Account}
    (htoken : token.Ordinary) (hframes : ∀ frame ∈ frames, frame.Ordinary)
    (hpoised : Poised ((base.within frames).push token) state)
    (hbusy : Busy host base start state frames accounts) :
    Booked host base start state accounts
  | resting {frame : Frame} {rest : List Frame} {account : Account} {accounts : List Account}
    (hframes : ∀ own ∈ frame :: rest, own.Ordinary)
    (hpoised : Poised (base.within (frame :: rest)) state)
    (htallies : frame.Short → account.Tallies frame)
    (hbusy : Busy host base start state rest accounts) :
    Booked host base start state (account :: accounts)
  | drained (hpoised : Poised base state) : Booked host base start state []

/-- Where the frames are on top again, the innermost no longer waits. -/
theorem Busy.booked (hbusy : Busy host base start state frames accounts)
    (pending : Option Token) (hpending : ∀ token ∈ pending, token.Ordinary)
    (hframes : ∀ frame ∈ frames, frame.Ordinary)
    (hpoised : Poised ((base.within frames).awaiting pending) state) :
    Booked host base start state accounts := by
  cases pending with
  | some token => exact .pending (hpending token rfl) hframes hpoised hbusy
  | none =>
    cases hbusy with
    | nil => exact .drained hpoised
    | cons hled htallies hhanded hrest => exact .resting hframes hpoised htallies hrest

/-- The step of a token above frames that wait. -/
theorem Busy.yielded {token : Token} (hbusy : Busy host base start state frames accounts)
    (htoken : token.Ordinary) (hframes : ∀ frame ∈ frames, frame.Ordinary)
    (hpoised : Poised ((base.within frames).push token) state)
    (hturn : Machine.Turn host base.items.length state next)
    (hyields : Yields base frames state.operands.items (.ok () next)) :
    Booked host base start next (Machine.watch state next accounts) ∨ Departed base next := by
  have hitems : state.execution.items = token :: (base.within frames).items :=
    congrArg Control.items hpoised.ahead
  have hdepth : state.depth = (base.within frames).depth := congrArg Control.depth hpoised.ahead
  have hgone := hbusy.turn hturn hpoised.lt_load
  cases hyields with
  | issued hissues =>
    refine .inl ?_
    cases hissues with
    | rested hnext =>
      have hsame : next.depth = state.depth :=
        (congrArg Control.depth hnext.ahead).trans hdepth.symm
      rw [Machine.watch_kept htoken hitems hsame]
      exact hgone.booked none (by simp) hframes hnext
    | @pending own hown hnext =>
      have hsame : next.depth = state.depth :=
        (congrArg Control.depth hnext.ahead).trans hdepth.symm
      rw [Machine.watch_kept htoken hitems hsame]
      exact .pending hown hframes hnext hgone
    | opened frame hframe hfresh hnext =>
      have hmore : next.depth = state.depth + 1 := by
        rw [hdepth]
        exact congrArg Control.depth hnext.ahead
      rw [Machine.watch_opened hmore]
      refine .resting ?_ hnext (fun _ => Account.tallies_opening hfresh) hgone
      simpa using ⟨hframe, hframes⟩
  | @left kept pending _ hkept hpending hnext =>
    -- The loop goes with the frames inside it, and their accounts go with them.
    obtain ⟨inner, loop, rfl, -, -⟩ := Frame.outside_eq_some_iff.1 hkept
    have hfewer : next.depth + (inner.length + 1) = state.depth := by
      have hdepth' : next.depth = ((base.within kept).awaiting pending).depth :=
        congrArg Control.depth hnext.ahead
      rw [hdepth, hdepth', Control.depth_awaiting, Control.depth_within, Control.depth_within,
        List.length_append, List.length_cons]
      omega
    rw [Machine.watch_closed hfewer]
    have hstill : Busy host base start next ((inner ++ [loop]) ++ kept) accounts := by
      simpa using hgone
    have hdropped := hstill.drop
    rw [List.length_append, List.length_singleton] at hdropped
    refine .inl (hdropped.booked pending hpending (fun frame hmem => hframes frame ?_) hnext)
    exact Control.subset_of_outside hkept hmem
  | departed hdeparted => exact .inr hdeparted

/-- The step of the frame on top. -/
theorem Booked.advanced (hreached : ReflTransGen (Machine.Turn host base.items.length) start next)
    (hframes : ∀ own ∈ frame :: rest, own.Ordinary)
    (hpoised : Poised (base.within (frame :: rest)) state)
    (htallies : frame.Short → account.Tallies frame)
    (hbusy : Busy host base start state rest accounts)
    (hturn : Machine.Turn host base.items.length state next)
    (hadvances : Advances (base.within rest) frame state.operands.items next) :
    Booked host base start next (Machine.watch state next (account :: accounts)) := by
  have hrest : ∀ own ∈ rest, own.Ordinary := fun own hmem => hframes own (.tail _ hmem)
  have hdepth : state.depth = (base.within rest).depth + 1 := congrArg Control.depth hpoised.ahead
  have hgone := hbusy.turn hturn (Machine.lt_load_of_enter hpoised.ahead)
  cases hadvances with
  | closed hladen =>
    have hfewer : next.depth + (0 + 1) = state.depth :=
      (congrArg (·.depth + 1) hladen.ahead).trans hdepth.symm
    rw [Machine.watch_closed hfewer]
    exact hgone.booked none (by simp) hrest hladen.toPoised
  | @passed token htoken hladen =>
    have hfewer : next.depth + (0 + 1) = state.depth :=
      (congrArg (·.depth + 1) hladen.ahead).trans hdepth.symm
    rw [Machine.watch_closed hfewer]
    exact .pending htoken hrest hladen.toPoised hgone
  | @begun moved shown hbegins hladen =>
    have hsame : next.depth = state.depth := (congrArg Control.depth hladen.ahead).trans hdepth.symm
    rw [Machine.watch_advanced hpoised.ahead hsame, List.modifyHead_cons,
      Account.advance_begins hbegins hpoised.ahead hladen]
    refine .resting ?_ hladen.toPoised (fun hshort => (htallies ?_).begins hbegins) hgone
    · simpa using ⟨hbegins.ordinary (hframes frame (.head _)), hrest⟩
    · rwa [Frame.Short, ← hbegins.body_eq]
  | @handed moved token shown hhands hladen =>
    have hsame : next.depth = state.depth := (congrArg Control.depth hladen.ahead).trans hdepth.symm
    obtain ⟨hmoved, htoken⟩ := hhands.ordinary (hframes frame (.head _))
    rw [Machine.watch_advanced hpoised.ahead hsame, List.modifyHead_cons,
      Account.advance_hands hhands hpoised.ahead hladen]
    have hnext : Poised ((base.within (moved :: rest)).push token) next := hladen.toPoised
    refine .pending htoken (by simpa using ⟨hmoved, hrest⟩) hnext
      (.cons ?_ (fun hshort => ?_) (Nat.succ_ne_zero _) hgone)
    · exact ⟨token, next, rfl, hreached, hladen.ahead, .refl⟩
    · have hsmall : frame.Short := by rwa [Frame.Short, ← hhands.body_eq]
      exact (htallies hsmall).hands hsmall hhands

/-- A turn keeps the accounts in tally with the frames. -/
theorem Booked.turn (hhost : host.Tame) (hbooked : Booked host base start state accounts)
    (hreached : ReflTransGen (Machine.Turn host base.items.length) start state)
    (hturn : Machine.Turn host base.items.length state next) :
    Booked host base start next (Machine.watch state next accounts) ∨ Departed base next := by
  cases hbooked with
  | @pending token frames _ htoken hframes hpoised hbusy =>
    have hgoes : Goes base state (some token) frames next :=
      hpoised.goes hhost (by simpa using htoken) hframes hturn
    cases hgoes with
    | yielded hyields => exact hbusy.yielded htoken hframes hpoised hturn hyields
  | @resting frame rest _ _ hframes hpoised htallies hbusy =>
    have hgoes : Goes base state none (frame :: rest) next :=
      hpoised.goes hhost (by simp) hframes hturn
    cases hgoes with
    | advanced hadvances =>
      exact .inl (.advanced (hreached.tail hturn) hframes hpoised htallies hbusy hturn hadvances)
  | drained hpoised =>
    have hbare : Poised ((base.within []).awaiting none) state := hpoised
    have hgoes : Goes base state none [] next := hbare.goes hhost (by simp) (by simp) hturn
    cases hgoes with
    | called hnext hcallback =>
      have hsame : next.depth = state.depth :=
        (congrArg Control.depth hnext.ahead).trans (congrArg Control.depth hpoised.ahead).symm
      have hnone : Poised ((base.within []).push state.callback) next := hnext
      rw [Machine.watch_nil (Nat.le_of_eq hsame)]
      exact .inl (.pending hcallback (by simp) hnone .nil)

/-- The accounts that are kept beside a run tally with the frames that it has open, unless
it has left a loop below its base. -/
theorem Machine.Watched.booked (hhost : host.Tame) {token : Token} (hmachine : Poised base start)
    (htoken : token.Ordinary)
    (hwatched : Watched host base.items.length (start.schedule token) state accounts) :
    Booked host base (start.schedule token) state accounts ∨ Departed base state := by
  induction hwatched with
  | begun =>
    have hscheduled : Poised ((base.within []).push token) (start.schedule token) :=
      hmachine.schedule token
    exact .inl (.pending htoken (by simp) hscheduled .nil)
  | turn hstate hturn ih =>
    obtain hbooked | hdeparted := ih
    · exact hbooked.turn hhost hstate.turns hturn
    · exact .inr (hdeparted.turn hturn)

end Waiting

end StackLang
