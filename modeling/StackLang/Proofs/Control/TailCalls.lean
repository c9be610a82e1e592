import StackLang.Proofs.Control.Integrity
import StackLang.Proofs.Control.Moving

/-!
# Proper tail calls

With tail elimination the frame of a procedure is closed before its last element is
executed.  So, however frames are opened, moved on, closed and left, no procedure without an
element to run stays open, and the last element is executed where the procedure itself was
to be executed.  What it calls there, be it by name, through `exec` or through `if`, starts
at the same height, and so does every call in a chain of such calls.

The proof keeps for each open procedure the state in which it was to be executed.  Since
then it has stayed on the execution stack, at the bottom of its frame.
-/

namespace StackLang

open Relation (ReflTransGen)

/-! ## Procedures that have an element to run -/

theorem Machine.range_of_elementAt {body : List Token} {position : Int64} {element : Token}
    (helement : elementAt body position = some element) :
    0 ≤ position.toInt ∧ position.toInt.toNat < body.length := by
  unfold elementAt at helement
  split at helement
  · cases helement
  · rename_i hnegative
    refine ⟨?_, (List.getElem?_eq_some_iff.1 helement).1⟩
    simpa using Int64.le_iff_toInt_le.1 (Int64.not_lt.1 hnegative)

theorem Machine.elementAt_last {front : List Token} {position : Int64} {element : Token}
    (hposition : position.toInt = front.length) :
    elementAt (front ++ [element]) position = some element := by
  have hnonneg : ¬ position < 0 := by
    rw [Int64.lt_iff_toInt_lt, hposition]
    exact Int.not_lt.2 (Int.natCast_nonneg _)
  rw [elementAt, if_neg hnonneg, hposition]
  simp

namespace Frame

/-- If the frame is that of a procedure, there is an element left to run.  Positions are
machine integers, so nothing is said of `2 ^ 63` elements or more, which no memory holds. -/
def Unspent (frame : Frame) : Prop :=
  frame.isLoop = false → frame.extent < 2 ^ 63 →
    0 ≤ frame.position.toInt ∧ frame.position.toInt < frame.extent

variable {frame : Frame} {attributes : Attributes} {body : Procedure} {position : Int64}
  {element : Token}

theorem unspent_of_isLoop (hloop : frame.isLoop = true) : frame.Unspent := by
  intro hprocedure
  rw [hloop] at hprocedure
  cases hprocedure

/-- A procedure that has been opened has an element to run, if it has elements. -/
theorem unspent_zero (hbody : body.body ≠ []) : (procedure attributes body 0).Unspent := by
  intro _ _
  have hpositive : 0 < body.body.length := List.length_pos_iff.2 hbody
  exact ⟨Int.le_refl 0, Int.natCast_pos.2 hpositive⟩

/-- Behind an element that is not the last one there is another one. -/
theorem unspent_next (helement : Machine.elementAt body.body position = some element)
    (hmore : position.toInt.toNat + 1 ≠ body.body.length) :
    (procedure attributes body (position + 1)).Unspent := by
  intro _ hshort
  obtain ⟨hpositive, hlt⟩ := Machine.range_of_elementAt helement
  have hlength : body.body.length < 2 ^ 63 := hshort
  have hone : (1 : Int64).toInt = 1 := rfl
  have hnext : (position + 1).toInt = position.toInt + 1 := by
    rw [Machine.toInt_add_of_range] <;> omega
  have hbehind : (position + 1).toInt < body.body.length := by omega
  exact ⟨show 0 ≤ (position + 1).toInt by omega, hbehind⟩

theorem Ordinary.eq_procedure (hframe : frame.Ordinary) (hprimitive : frame.primitive = .iterate) :
    ∃ attributes body position, frame = procedure attributes body position := by
  cases frame with
  | procedure attributes body position => exact ⟨attributes, body, position, rfl⟩
  | forAll primitive object limit position body =>
    obtain ⟨-, -, indexed, n, helements, -⟩ := hframe
    have hmem := (Machine.primitive_of_elementsOf helements).2
    obtain rfl : primitive = .iterate := hprimitive
    simp at hmem
  | loop | repetition | counting => cases hprimitive

end Frame

/-! ## Calls in last position -/

namespace Machine

/-- A run goes on, and all that its first machine is about to do stays on the execution
stack. -/
def RunsAbove (host : HostOperators) (load : Nat) (first : Machine) : Machine → Prop :=
  ReflTransGen (fun state next =>
    Turn host load state next ∧ first.execution.items <:+ next.execution.items) first

theorem RunsAbove.turns {host : HostOperators} {load : Nat} {first state : Machine}
    (habove : RunsAbove host load first state) : ReflTransGen (Turn host load) first state :=
  ReflTransGen.mono (fun _ _ hturn => hturn.1) _ _ habove

/-- What is to be executed calls, in last position, what is to be executed next: a procedure
calls its last element, a name what it is bound to, `exec` its operand, and `if` its body. -/
inductive CallsLast (host : HostOperators) (load : Nat) : Machine → Machine → Prop where
  | procedure {called state next : Machine} {body : Procedure} {front : List Token}
    {element : Token} {attributes : Attributes} {below : List Token} {position : Int64}
    (hcalled : called.execution.items =
      .datum (.procedure body.id body.body) attributes :: below)
    (hbody : body.body = front ++ [element]) (habove : RunsAbove host load called state)
    (hstate : state.execution.items = (Frame.procedure attributes body position).tokens ++ below)
    (hposition : position.toInt = front.length) (hturn : Turn host load state next) :
    CallsLast host load called next
  | name {called next : Machine} {name : Name} {attributes : Attributes} {below : List Token}
    (hcalled : called.execution.items = .datum (.name name) attributes :: below)
    (hturn : Turn host load called next) : CallsLast host load called next
  | exec {called next : Machine} (hcalls : called.Calls .exec)
    (hturn : Turn host load called next) : CallsLast host load called next
  | ifTrue {called next : Machine} {flags : Attributes} (hcalls : called.Calls .ifTrue)
    (hcondition : called.operands.items[1]? = some (.datum (.boolean true) flags))
    (hturn : Turn host load called next) : CallsLast host load called next

/-- What two machines are about to execute starts at the same height: they have the same
below it, and as many frames open. -/
structure SameHeight (machine next : Machine) : Prop where
  load : next.execution.load = machine.execution.load
  below : next.execution.items.tail = machine.execution.items.tail
  depth : next.depth = machine.depth

theorem SameHeight.trans {machine next last : Machine} (hfirst : SameHeight machine next)
    (hsecond : SameHeight next last) : SameHeight machine last :=
  ⟨hsecond.load.trans hfirst.load, hsecond.below.trans hfirst.below,
    hsecond.depth.trans hfirst.depth⟩

theorem SameHeight.of_push {machine next : Machine} {control : Control} {token element : Token}
    (hmachine : machine.control = control.push token)
    (hnext : next.control = control.push element) : SameHeight machine next where
  load := by rw [load_of_control hmachine, load_of_control hnext]; rfl
  below := by rw [items_of_control hnext, items_of_control hmachine]; rfl
  depth := (depth_of_control hnext).trans (depth_of_control hmachine).symm

end Machine

/-! ## Procedures that are open -/

section Trimmed

variable {host : HostOperators} {base : Control} {start state next : Machine}
  {pending : Option Token} {frames : List Frame} {attributes : Attributes} {body : Procedure}
  {outer : List Frame}

/-- The procedure was to be executed above `outer`, and it has stayed there since then. -/
def Entered (host : HostOperators) (base : Control) (start state : Machine)
    (attributes : Attributes) (body : Procedure) (outer : List Frame) : Prop :=
  ∃ called, ReflTransGen (Machine.Turn host base.items.length) start called ∧
    called.control =
      (base.within outer).push (.datum (.procedure body.id body.body) attributes) ∧
    Machine.RunsAbove host base.items.length called state

/-- Each procedure that is open has an element to run, but for one on top that has no
elements and that the last turn has opened. -/
inductive Pruned (host : HostOperators) (load : Nat) (state : Machine) :
    Option Token → List Frame → Prop where
  | unspent {pending : Option Token} {frames : List Frame}
    (hframes : ∀ frame ∈ frames, frame.Unspent) : Pruned host load state pending frames
  | empty {called : Machine} {attributes : Attributes} {id : BodyId} {rest : List Frame}
    (hrest : ∀ frame ∈ rest, frame.Unspent) (hturn : Machine.Turn host load called state)
    (hopened : state.execution.items =
      .primitive .iterate :: .integer 0 :: called.execution.items) :
    Pruned host load state none (.procedure attributes ⟨id, []⟩ 0 :: rest)

/-- Above `base` there are frames and at most one token to be executed next.  The procedures
among the frames have elements to run, and each is where it was to be executed. -/
structure Trimmed (host : HostOperators) (base : Control) (start state : Machine)
    (pending : Option Token) (frames : List Frame) : Prop where
  poised : Poised ((base.within frames).awaiting pending) state
  pending_ordinary : ∀ token ∈ pending, token.Ordinary
  frames_ordinary : ∀ frame ∈ frames, frame.Ordinary
  pruned : Pruned host base.items.length state pending frames
  entered : ∀ attributes body position outer,
    .procedure attributes body position :: outer <:+ frames →
      Entered host base start state attributes body outer

/-- The bottom of the frame of a procedure is the procedure itself. -/
theorem Control.suffix_of_procedure {position : Int64}
    (hsuffix : .procedure attributes body position :: outer <:+ frames)
    (pending : Option Token) :
    .datum (.procedure body.id body.body) attributes :: (base.within outer).items <:+
      ((base.within frames).awaiting pending).items := by
  obtain ⟨inner, rfl⟩ := hsuffix
  refine ⟨pending.toList ++ inner.flatMap Frame.tokens ++
    [.primitive .iterate, .integer position], ?_⟩
  simp [items_awaiting, items_within, Frame.tokens]

theorem Entered.turn (hentered : Entered host base start state attributes body outer)
    (hturn : Machine.Turn host base.items.length state next)
    (hstays : .datum (.procedure body.id body.body) attributes :: (base.within outer).items <:+
      next.execution.items) : Entered host base start next attributes body outer := by
  obtain ⟨called, hreached, hcalled, habove⟩ := hentered
  have hitems : called.execution.items = .datum (.procedure body.id body.body) attributes ::
      (base.within outer).items := Machine.items_of_control hcalled
  exact ⟨called, hreached, hcalled, habove.tail ⟨hturn, hitems ▸ hstays⟩⟩

namespace Trimmed

variable {after : Option Token} {kept : List Frame} {frame : Frame} {token : Token}

theorem onward (htrimmed : Trimmed host base start state pending frames)
    (hturn : Machine.Turn host base.items.length state next)
    (hpoised : Poised ((base.within kept).awaiting after) next)
    (hafter : ∀ token ∈ after, token.Ordinary) (hordinary : ∀ frame ∈ kept, frame.Ordinary)
    (hpruned : Pruned host base.items.length next after kept)
    (hentered : ∀ attributes body position outer,
      .procedure attributes body position :: outer <:+ kept →
        (∃ earlier, .procedure attributes body earlier :: outer <:+ frames) ∨
          Entered host base start next attributes body outer) :
    Trimmed host base start next after kept where
  poised := hpoised
  pending_ordinary := hafter
  frames_ordinary := hordinary
  pruned := hpruned
  entered := fun attributes body position outer hsuffix => by
    obtain ⟨earlier, hbefore⟩ | hnow := hentered _ _ _ _ hsuffix
    · refine (htrimmed.entered _ _ _ _ hbefore).turn hturn ?_
      rw [Machine.items_of_control hpoised.ahead]
      exact Control.suffix_of_procedure hsuffix after
    · exact hnow

/-- Frames that stay as they are have elements to run as before. -/
theorem keep (htrimmed : Trimmed host base start state pending frames)
    (hturn : Machine.Turn host base.items.length state next) (hkept : kept <:+ frames)
    (hunspent : ∀ frame ∈ kept, frame.Unspent)
    (hafter : ∀ token ∈ after, token.Ordinary)
    (hpoised : Poised ((base.within kept).awaiting after) next) :
    Trimmed host base start next after kept :=
  htrimmed.onward hturn hpoised hafter
    (fun frame hmem => htrimmed.frames_ordinary frame (hkept.subset hmem)) (.unspent hunspent)
    fun _ _ position _ hsuffix => .inl ⟨position, hsuffix.trans hkept⟩

/-- A loop on top of them makes no difference. -/
theorem cover (htrimmed : Trimmed host base start state pending frames)
    (hturn : Machine.Turn host base.items.length state next) (hkept : kept <:+ frames)
    (hunspent : ∀ frame ∈ kept, frame.Unspent) (hloop : frame.isLoop = true)
    (hframe : frame.Ordinary) (hafter : ∀ token ∈ after, token.Ordinary)
    (hpoised : Poised ((base.within (frame :: kept)).awaiting after) next) :
    Trimmed host base start next after (frame :: kept) := by
  refine htrimmed.onward hturn hpoised hafter ?_ (.unspent ?_) ?_
  · exact List.forall_mem_cons.2
      ⟨hframe, fun own hmem => htrimmed.frames_ordinary own (hkept.subset hmem)⟩
  · exact List.forall_mem_cons.2 ⟨Frame.unspent_of_isLoop hloop, hunspent⟩
  · intro attributes body position outer hsuffix
    obtain hsame | hbelow := List.suffix_cons_iff.1 hsuffix
    · obtain ⟨rfl, -⟩ := List.cons.inj hsame
      cases hloop
    · exact .inl ⟨position, hbelow.trans hkept⟩

/-- A procedure on top of them is open as before, or it has just been entered. -/
theorem coverProcedure (htrimmed : Trimmed host base start state pending frames)
    (hturn : Machine.Turn host base.items.length state next) (hkept : kept <:+ frames)
    (hbody : body.Ordinary) (hafter : ∀ token ∈ after, token.Ordinary) {position : Int64}
    (hpruned : Pruned host base.items.length next after
      (.procedure attributes body position :: kept))
    (hentered : (∃ earlier, .procedure attributes body earlier :: kept <:+ frames) ∨
      Entered host base start next attributes body kept)
    (hpoised : Poised
      ((base.within (.procedure attributes body position :: kept)).awaiting after) next) :
    Trimmed host base start next after (.procedure attributes body position :: kept) := by
  refine htrimmed.onward hturn hpoised hafter ?_ hpruned ?_
  · exact List.forall_mem_cons.2
      ⟨hbody, fun own hmem => htrimmed.frames_ordinary own (hkept.subset hmem)⟩
  · intro own held later outer hsuffix
    obtain hsame | hbelow := List.suffix_cons_iff.1 hsuffix
    · obtain ⟨hframe, rfl⟩ := List.cons.inj hsame
      obtain ⟨rfl, rfl, -⟩ := Frame.procedure.inj hframe
      exact hentered
    · exact .inl ⟨later, hbelow.trans hkept⟩

theorem unspent_of_pending (htrimmed : Trimmed host base start state (some token) frames) :
    ∀ frame ∈ frames, frame.Unspent := by
  cases htrimmed.pruned with
  | unspent hframes => exact hframes

theorem unspent_rest {rest : List Frame}
    (htrimmed : Trimmed host base start state pending (frame :: rest)) :
    ∀ own ∈ rest, own.Unspent := by
  cases htrimmed.pruned with
  | unspent hframes => exact fun own hmem => hframes own (.tail _ hmem)
  | empty hrest => exact hrest

/-- The step of a token above frames. -/
theorem performed (htrimmed : Trimmed host base start state (some token) frames)
    (hbase : base.left? = none)
    (hreached : ReflTransGen (Machine.Turn host base.items.length) start state)
    (hturn : Machine.Turn host base.items.length state next)
    (hperforms : Performs (base.within frames) state.operands.items token next) :
    ∃ after kept, Trimmed host base start next after kept := by
  have hunspent := htrimmed.unspent_of_pending
  have hself := List.suffix_refl frames
  cases hperforms with
  | offered hoffers =>
    cases hoffers with
    | rested hnext => exact ⟨none, frames, htrimmed.keep hturn hself hunspent (by simp) hnext⟩
    | @pending own hown hnext =>
      exact ⟨some own, frames, htrimmed.keep hturn hself hunspent (by simpa using hown) hnext⟩
    | opened frame hloop hframe _ hnext =>
      exact ⟨none, frame :: frames,
        htrimmed.cover hturn hself hunspent hloop hframe (by simp) hnext⟩
  | @entered attributes body _ hbody hnext =>
    have hcalled : state.control =
        (base.within frames).push (.datum (.procedure body.id body.body) attributes) :=
      htrimmed.poised.ahead
    have hopened : next.execution.items =
        .primitive .iterate :: .integer 0 :: state.execution.items := by
      rw [Machine.items_of_control hcalled]
      exact Machine.items_of_control hnext.ahead
    have hstays : state.execution.items <:+ next.execution.items := by
      rw [hopened]
      exact List.suffix_append [_, _] _
    -- The frame is built on top of the token that it stands for, so the turn stays above it.
    have hnow : Entered host base start next attributes body frames :=
      ⟨state, hreached, hcalled, .single ⟨hturn, hstays⟩⟩
    have hpruned : Pruned host base.items.length next none
        (.procedure attributes body 0 :: frames) := by
      obtain ⟨id, elements⟩ := body
      -- A procedure without elements has nothing to run, but its frame has only just come.
      by_cases hempty : elements = []
      · subst hempty
        exact .empty hunspent hturn hopened
      · exact .unspent (List.forall_mem_cons.2 ⟨Frame.unspent_zero hempty, hunspent⟩)
    exact ⟨none, .procedure attributes body 0 :: frames,
      htrimmed.coverProcedure hturn hself hbody (by simp) hpruned (.inr hnow) hnext⟩
  | left hleft hnext =>
    obtain ⟨kept, houtside, rfl⟩ | hbelow :=
      Control.left?_within_cases htrimmed.frames_ordinary hleft
    · obtain ⟨inner, loop, rfl, -, -⟩ := Frame.outside_eq_some_iff.1 houtside
      have hkept : kept <:+ inner ++ loop :: kept := ⟨inner ++ [loop], by simp⟩
      exact ⟨none, kept, htrimmed.keep hturn hkept
        (fun frame hmem => hunspent frame (hkept.subset hmem)) (by simp) hnext⟩
    · cases hbase.symm.trans hbelow

/-- The step of a procedure closes its frame before the last element. -/
theorem proceeded {position : Int64} {rest : List Frame} {operands : List Token}
    (htrimmed : Trimmed host base start state none (.procedure attributes body position :: rest))
    (hturn : Machine.Turn host base.items.length state next)
    (hproceeds : Proceeds (base.within rest) attributes body position true operands next) :
    ∃ after kept, Trimmed host base start next after kept := by
  have hunspent := htrimmed.unspent_rest
  have hrest : rest <:+ .procedure attributes body position :: rest := List.suffix_cons _ _
  have hbody : body.Ordinary := htrimmed.frames_ordinary _ (.head _)
  cases hproceeds with
  | closed _ hladen =>
    exact ⟨none, rest, htrimmed.keep hturn hrest hunspent (by simp) hladen.toPoised⟩
  | @passed element helement _ _ hladen =>
    have htoken : element.Ordinary := hbody element (Machine.elementAt_eq_some helement).1
    exact ⟨some element, rest, htrimmed.keep hturn hrest hunspent (by simpa using htoken)
      hladen.toPoised⟩
  | @handed element helement hmore hladen =>
    have htoken : element.Ordinary := hbody element (Machine.elementAt_eq_some helement).1
    have hahead : ∀ frame ∈ Frame.procedure attributes body (position + 1) :: rest,
        frame.Unspent :=
      List.forall_mem_cons.2 ⟨Frame.unspent_next helement (hmore rfl), hunspent⟩
    have hbefore := List.suffix_refl (Frame.procedure attributes body position :: rest)
    exact ⟨some element, .procedure attributes body (position + 1) :: rest,
      htrimmed.coverProcedure hturn hrest hbody (by simpa using htoken) (.unspent hahead)
        (.inl ⟨position, hbefore⟩) hladen.toPoised⟩

/-- The step of a loop. -/
theorem advanced {rest : List Frame} {operands : List Token}
    (htrimmed : Trimmed host base start state none (frame :: rest))
    (hturn : Machine.Turn host base.items.length state next) (hloop : frame.isLoop = true)
    (hadvances : Advances (base.within rest) frame operands next) :
    ∃ after kept, Trimmed host base start next after kept := by
  have hunspent := htrimmed.unspent_rest
  have hrest : rest <:+ frame :: rest := List.suffix_cons _ _
  have hframe := htrimmed.frames_ordinary frame (.head _)
  cases hadvances with
  | closed hladen =>
    exact ⟨none, rest, htrimmed.keep hturn hrest hunspent (by simp) hladen.toPoised⟩
  | @passed element htoken hladen =>
    exact ⟨some element, rest, htrimmed.keep hturn hrest hunspent (by simpa using htoken)
      hladen.toPoised⟩
  | @begun moved shown hbegins hladen =>
    have hstill : moved.isLoop = true := by cases hbegins <;> rfl
    exact ⟨none, moved :: rest, htrimmed.cover hturn hrest hunspent hstill
      (hbegins.ordinary hframe) (by simp) hladen.toPoised⟩
  | @handed moved element shown hhands hladen =>
    obtain ⟨hmoved, htoken⟩ := hhands.ordinary hframe
    have hstill : moved.isLoop = true := by
      cases hhands with
      | procedure => cases hloop
      | loop | repetition | counting | forAll => rfl
    exact ⟨some element, moved :: rest, htrimmed.cover hturn hrest hunspent hstill hmoved
      (by simpa using htoken) hladen.toPoised⟩

end Trimmed

/-! ## Runs with tail elimination -/

/-- A state that a run comes to with the operators of the language and with tail
elimination. -/
structure Tracked (host : HostOperators) (base : Control) (start state : Machine) : Prop where
  reached : ReflTransGen (Machine.Turn host base.items.length) start state
  language : state.InLanguage
  elimination : state.config.tailElimination = true
  trimmed : ∃ pending frames, Trimmed host base start state pending frames

namespace Tracked

variable {position : Int64} {front below : List Token} {element token : Token}

theorem turn (htracked : Tracked host base start state) (hbase : base.left? = none)
    (hturn : Machine.Turn host base.items.length state next) : Tracked host base start next where
  reached := htracked.reached.tail hturn
  language := htracked.language.of_persists (hturn.persists htracked.language)
  elimination := (htracked.language.elimination_of_turn hturn).trans htracked.elimination
  trimmed := by
    obtain ⟨hreached, hlanguage, helimination, pending, frames, htrimmed⟩ := htracked
    have hmoves := htrimmed.poised.moves htrimmed.pending_ordinary htrimmed.frames_ordinary
      hlanguage hturn
    cases hmoves with
    | performed hperforms => exact htrimmed.performed hbase hreached hturn hperforms
    | proceeded hproceeds =>
      rw [helimination] at hproceeds
      exact htrimmed.proceeded hturn hproceeds
    | advanced hloop hadvances => exact htrimmed.advanced hturn hloop hadvances
    | called hcallback hnext =>
      exact ⟨some state.callback, [], htrimmed.keep hturn List.nil_suffix (by simp)
        (by simpa using hcallback) hnext⟩

theorem turns (htracked : Tracked host base start state) (hbase : base.left? = none)
    (hturns : ReflTransGen (Machine.Turn host base.items.length) state next) :
    Tracked host base start next := by
  induction hturns with
  | refl => exact htracked
  | tail _ hturn ih => exact ih.turn hbase hturn

end Tracked

/-! ## What is on top -/

namespace Trimmed

variable {position : Int64} {below : List Token} {token : Token}

/-- With nothing below the frames, a procedure frame on top is the innermost of them. -/
theorem top_procedure (htrimmed : Trimmed host base start state pending frames)
    (hbase : base.items = [])
    (hitems : state.execution.items =
      (Frame.procedure attributes body position).tokens ++ below) :
    pending = none ∧ ∃ outer, frames = .procedure attributes body position :: outer ∧
      (base.within outer).items = below := by
  have hown : ((base.within frames).awaiting pending).items =
      (Frame.procedure attributes body position).tokens ++ below :=
    (Machine.items_of_control htrimmed.poised.ahead).symm.trans hitems
  cases pending with
  | some token =>
    obtain ⟨rfl, -⟩ := List.cons.inj hown
    exact absurd (htrimmed.pending_ordinary _ rfl) (Value.not_ordinary_primitive .iterate)
  | none =>
    refine ⟨rfl, ?_⟩
    cases frames with
    | nil => cases hbase.symm.trans hown
    | cons frame outer =>
      have htokens : frame.tokens ++ (base.within outer).items =
          (Frame.procedure attributes body position).tokens ++ below := hown
      -- A frame can be read off its tokens.
      have hprimitive : frame.primitive = .iterate := by
        rw [frame.tokens_eq] at htokens
        exact Value.primitive.inj (Token.datum.inj (List.cons.inj htokens).1).1
      obtain ⟨own, held, earlier, rfl⟩ :=
        (htrimmed.frames_ordinary frame (.head _)).eq_procedure hprimitive
      obtain ⟨hposition, hprocedure⟩ := List.cons.inj (List.cons.inj htokens).2
      obtain ⟨hdatum, hbelow⟩ := List.cons.inj hprocedure
      obtain rfl : earlier = position := Value.integer.inj (Token.datum.inj hposition).1
      obtain ⟨hvalue, rfl⟩ := Token.datum.inj hdatum
      obtain ⟨id, elements⟩ := held
      obtain ⟨rfl, rfl⟩ := Value.procedure.inj hvalue
      exact ⟨outer, rfl, hbelow⟩

/-- With nothing below the frames, a token on top that is no primitive is to be executed
above them. -/
theorem top_token (htrimmed : Trimmed host base start state pending frames)
    (hbase : base.items = []) (hitems : state.execution.items = token :: below)
    (htoken : token.isA .primitive = false) :
    pending = some token ∧ (base.within frames).items = below := by
  have hown : ((base.within frames).awaiting pending).items = token :: below :=
    (Machine.items_of_control htrimmed.poised.ahead).symm.trans hitems
  cases pending with
  | some own =>
    obtain ⟨rfl, hbelow⟩ := List.cons.inj hown
    exact ⟨rfl, hbelow⟩
  | none =>
    cases frames with
    | nil => cases hbase.symm.trans hown
    | cons frame outer =>
      have htokens : frame.tokens ++ (base.within outer).items = token :: below := hown
      rw [frame.tokens_eq] at htokens
      obtain ⟨rfl, -⟩ := List.cons.inj htokens
      cases htoken

theorem exists_pending {operator : Operator}
    (htrimmed : Trimmed host base start state pending frames) (hbase : base.items = [])
    (hcalls : state.Calls operator) : ∃ token, pending = some token := by
  cases hcalls with
  | function hitems | table hitems => exact ⟨_, (htrimmed.top_token hbase hitems rfl).1⟩

end Trimmed

/-! ## The height of what is executed -/

/-- There is a primitive for each frame. -/
theorem Control.countP_within (base : Control) (hframes : ∀ frame ∈ frames, frame.Shaped) :
    (base.within frames).items.countP (fun token => token.isA .primitive) =
      frames.length + base.items.countP fun token => token.isA .primitive := by
  induction frames with
  | nil => simp
  | cons frame rest ih =>
    obtain ⟨hframe, hrest⟩ := List.forall_mem_cons.1 hframes
    simp only [within_cons, enter, List.countP_append, hframe.countP_tokens, ih hrest,
      List.length_cons]
    omega

/-- Frames that take up the same are as many. -/
theorem Control.within_eq_of_items {others : List Frame}
    (hframes : ∀ frame ∈ frames, frame.Ordinary) (hothers : ∀ frame ∈ others, frame.Ordinary)
    (hitems : (base.within frames).items = (base.within others).items) :
    base.within frames = base.within others := by
  have hcount := base.countP_within fun frame hmem => (hframes frame hmem).shaped
  have hother := base.countP_within fun frame hmem => (hothers frame hmem).shaped
  have hdepth : (base.within frames).depth = (base.within others).depth := by
    rw [hitems] at hcount
    rw [depth_within, depth_within]
    omega
  exact congrArg₂ Control.mk hitems hdepth

namespace Tracked

variable {position : Int64} {front below : List Token} {element : Token}

/-- The last element is to be executed where the procedure was to be executed. -/
theorem lastElement (htracked : Tracked host base start state) (hbase : base.items = [])
    (hitems : state.execution.items =
      (Frame.procedure attributes body position).tokens ++ below)
    (hbody : body.body = front ++ [element]) (hposition : position.toInt = front.length)
    (hturn : Machine.Turn host base.items.length state next) :
    ∃ outer, (∀ frame ∈ outer, frame.Ordinary) ∧ (base.within outer).items = below ∧
      next.control = (base.within outer).push element ∧
      Entered host base start state attributes body outer := by
  obtain ⟨-, hlanguage, helimination, pending, frames, htrimmed⟩ := htracked
  obtain ⟨rfl, outer, rfl, hbelow⟩ := htrimmed.top_procedure hbase hitems
  have hmoves := htrimmed.poised.moves htrimmed.pending_ordinary htrimmed.frames_ordinary
    hlanguage hturn
  have hlast : Machine.elementAt body.body position = some element := by
    rw [hbody]
    exact Machine.elementAt_last hposition
  refine ⟨outer, (List.forall_mem_cons.1 htrimmed.frames_ordinary).2, hbelow, ?_,
    htrimmed.entered _ _ position _ (List.suffix_refl _)⟩
  cases hmoves with
  | advanced hloop => cases hloop
  | proceeded hproceeds =>
    rw [helimination] at hproceeds
    cases hproceeds with
    | closed hover => cases hover.symm.trans hlast
    | passed helement _ _ hladen =>
      obtain rfl := Option.some.inj (helement.symm.trans hlast)
      exact hladen.ahead
    | handed _ hmore =>
      refine absurd ?_ (hmore rfl)
      rw [hbody, hposition, List.length_append]
      rfl

/-- What is called in last position starts at the height of what calls it. -/
theorem callsLast (htracked : Tracked host base start state) (hbase : base.items = [])
    (hcalls : Machine.CallsLast host base.items.length state next) :
    Tracked host base start next ∧ Machine.SameHeight state next := by
  have hleft : base.left? = none := Control.left?_eq_none_iff.2 (by simp [Control.Unmarked, hbase])
  obtain ⟨pending, frames, htrimmed⟩ := htracked.trimmed
  have hsame {token : Token} (hpoised : Poised ((base.within frames).push token) state)
      (hdue : Due (base.within frames) next) : Machine.SameHeight state next := by
    obtain ⟨element, -, hnext⟩ := hdue
    exact .of_push hpoised.ahead hnext.ahead
  cases hcalls with
  | procedure hcalled hbody habove hlast hposition hturn =>
    obtain ⟨rfl, hbelow⟩ := htrimmed.top_token hbase hcalled rfl
    have hthere := htracked.turns hleft habove.turns
    obtain ⟨outer, houter, hitems, hnext, -⟩ :=
      hthere.lastElement hbase hlast hbody hposition hturn
    have hwithin : base.within outer = base.within frames :=
      Control.within_eq_of_items houter htrimmed.frames_ordinary (hitems.trans hbelow.symm)
    exact ⟨hthere.turn hleft hturn, .of_push htrimmed.poised.ahead (hwithin ▸ hnext)⟩
  | name hcalled hturn =>
    obtain ⟨rfl, -⟩ := htrimmed.top_token hbase hcalled rfl
    have hstep := htrimmed.poised.step_of_turn htracked.language hturn
    exact ⟨htracked.turn hleft hturn,
      hsame htrimmed.poised (htrimmed.poised.due_of_name hcalled hstep)⟩
  | exec hcalls hturn =>
    obtain ⟨token, rfl⟩ := htrimmed.exists_pending hbase hcalls
    have hstep := htrimmed.poised.step_of_turn htracked.language hturn
    exact ⟨htracked.turn hleft hturn,
      hsame htrimmed.poised (htrimmed.poised.due_of_exec hcalls hstep)⟩
  | ifTrue hcalls hcondition hturn =>
    obtain ⟨token, rfl⟩ := htrimmed.exists_pending hbase hcalls
    have hstep := htrimmed.poised.step_of_turn htracked.language hturn
    exact ⟨htracked.turn hleft hturn,
      hsame htrimmed.poised (htrimmed.poised.due_of_ifTrue hcalls hcondition hstep)⟩

/-- A chain of calls in last position stays at the height at which it begins. -/
theorem callsLast_chain (htracked : Tracked host base start state) (hbase : base.items = [])
    (hchain : ReflTransGen (Machine.CallsLast host base.items.length) state next) :
    Tracked host base start next ∧ Machine.SameHeight state next := by
  induction hchain with
  | refl => exact ⟨htracked, rfl, rfl, rfl⟩
  | tail _ hcalls ih =>
    obtain ⟨hthere, hsame⟩ := ih
    obtain ⟨hnext, hagain⟩ := hthere.callsLast hbase hcalls
    exact ⟨hnext, hsame.trans hagain⟩

end Tracked

end Trimmed

namespace Machine

variable {host : HostOperators} {machine state : Machine} {token : Token}

/-- With tail elimination, whatever a statement comes to, each procedure that is open has an
element to run, but for one without elements on top that was opened just now.  So the last
element of a procedure is to be executed at the height at which the procedure was to be
executed, which has stayed on the stack meanwhile, and calls in last position, however many
there are, by name, through `exec` or through `if`, never leave this height. -/
theorem procedures_end_in_place (hblank : machine.Blank)
    (helimination : machine.config.tailElimination = true) (htoken : token.Plain)
    (hturns : ReflTransGen (Turn host machine.execution.load) (machine.schedule token) state) :
    (∃ pending frames, state.execution.items = pending.toList ++ frames.flatMap Frame.tokens ∧
        state.depth = machine.depth + frames.length ∧
        (∀ token ∈ pending, token.isA .primitive = false) ∧
        (∀ frame ∈ frames, frame.Shaped) ∧
        Pruned host machine.execution.load state pending frames) ∧
      (∀ attributes body position below front element next,
        state.execution.items = (Frame.procedure attributes body position).tokens ++ below →
        body.body = front ++ [element] → position.toInt = front.length →
        Turn host machine.execution.load state next →
          next.execution.items = element :: below ∧
          ∃ called, ReflTransGen (Turn host machine.execution.load) (machine.schedule token)
              called ∧
            called.execution.items =
              .datum (.procedure body.id body.body) attributes :: below ∧
            RunsAbove host machine.execution.load called state ∧ SameHeight called next) ∧
      ∀ next, ReflTransGen (CallsLast host machine.execution.load) state next →
        SameHeight state next := by
  have hbase : machine.control.items = [] := hblank.execution
  have hleft : machine.control.left? = none :=
    Control.left?_eq_none_iff.2 (by simp [Control.Unmarked, hbase])
  have hload : machine.execution.load = machine.control.items.length :=
    machine.execution.load_eq
  have hscheduled : Poised ((machine.control.within []).push token) (machine.schedule token) :=
    Poised.schedule ⟨rfl, hblank.plain.ordinary⟩ token
  have hbegun : Tracked host machine.control (machine.schedule token) (machine.schedule token) :=
    { reached := .refl
      language := hblank.inLanguage.schedule htoken.callsOnly
      elimination := helimination
      trimmed := ⟨some token, [], hscheduled, by simpa using htoken.ordinary, by simp,
        .unspent (by simp), by simp⟩ }
  rw [hload] at hturns ⊢
  have htracked := hbegun.turns hleft hturns
  refine ⟨?_, ?_, fun next hchain => (htracked.callsLast_chain hbase hchain).2⟩
  · obtain ⟨pending, frames, htrimmed⟩ := htracked.trimmed
    refine ⟨pending, frames, ?_, ?_, fun token hmem =>
      (htrimmed.pending_ordinary token hmem).not_primitive,
      fun frame hmem => (htrimmed.frames_ordinary frame hmem).shaped, htrimmed.pruned⟩
    · rw [items_of_control htrimmed.poised.ahead, Control.items_awaiting, Control.items_within,
        hbase, List.append_nil]
    · rw [depth_of_control htrimmed.poised.ahead, Control.depth_awaiting, Control.depth_within]
      rfl
  · intro attributes body position below front element next hitems hbody hposition hturn
    obtain ⟨outer, -, rfl, hnext, called, hreached, hcalled, habove⟩ :=
      htracked.lastElement hbase hitems hbody hposition hturn
    exact ⟨items_of_control hnext, called, hreached, items_of_control hcalled, habove,
      .of_push hcalled hnext⟩

/-- A procedure whose last element is an `if` with a procedure as its body. -/
def endingInIf : Procedure :=
  ⟨⟨0⟩, [.boolean true, .datum (.litProcedure ⟨1⟩ [.integer 1]) {}, .function "if" .ifTrue]⟩

/-- The frame is closed before `if` is executed, and the last element of the body of `if` is
to be executed where the procedure was to be executed. -/
theorem procedures_end_in_place_if :
    ∃ state next last,
      ReflTransGen (Turn .inert 0) (schedule (.procedure endingInIf) (bare {})) state ∧
      state.execution.items = (Frame.procedure {} endingInIf 2).tokens ∧
      Turn .inert 0 state next ∧ next.execution.items = [.function "if" .ifTrue] ∧
      ReflTransGen (CallsLast .inert 0) (schedule (.procedure endingInIf) (bare {})) last ∧
      last.execution.items = [.integer 1] ∧
      SameHeight (schedule (.procedure endingInIf) (bare {})) last := by
  have hbegun : RunsAbove .inert 0 (schedule (.procedure endingInIf) (bare {})) _ := .refl
  have hopened := hbegun.tail ⟨.step (by decide) rfl, [_, _], rfl⟩
  have htrue := hopened.tail ⟨.step (by decide) rfl, [_, _, _], rfl⟩
  have hcondition := htrue.tail ⟨.step (by decide) rfl, [_, _], rfl⟩
  have hliteral := hcondition.tail ⟨.step (by decide) rfl, [_, _, _], rfl⟩
  have hlast := hliteral.tail ⟨.step (by decide) rfl, [_, _], rfl⟩
  have hturns := RunsAbove.turns hlast
  have hif : ReflTransGen (CallsLast .inert 0) (schedule (.procedure endingInIf) (bare {})) _ :=
    .single (.procedure rfl (show _ = [_, _] ++ [_] from rfl) hlast rfl rfl
      (.step (by decide) rfl))
  have hbody := hif.tail (.ifTrue (.function rfl) rfl (.step (by decide) rfl))
  have hone := hbody.tail (.procedure rfl (show _ = [] ++ [_] from rfl)
    (.single ⟨.step (by decide) rfl, [_, _], rfl⟩) rfl rfl (.step (by decide) rfl))
  obtain ⟨-, hends, -⟩ := procedures_end_in_place (blank_bare {}) rfl (by decide) hturns
  obtain ⟨-, -, hstays⟩ := procedures_end_in_place (blank_bare {}) rfl (by decide) hbegun.turns
  obtain ⟨hitems, -⟩ := hends {} endingInIf 2 [] _ _ _ rfl (show _ = [_, _] ++ [_] from rfl) rfl
    (.step (by decide) rfl)
  exact ⟨_, _, _, hturns, rfl, .step (by decide) rfl, hitems, hone, rfl, hstays _ hone⟩

end Machine

end StackLang
