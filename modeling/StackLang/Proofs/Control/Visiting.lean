import StackLang.Proofs.Control.Procedures
import StackLang.Proofs.Control.TailFrames

/-!
# Loops over an object

A loop over an array or a string visits the elements in order.  The object stays in the frame
of the loop, so nothing that the body does to operands or dictionaries changes what is
visited.  The body runs as a procedure of its own above that frame.
-/

namespace StackLang

/-- What is visited in an object: the elements of an array, the bytes of a string in its
encoding as numbers. -/
def Token.elements? : Token → Option (List Token)
  | .datum (.array items) _ => some items
  | .datum (.string text) _ => some (text.toUTF8.data.toList.map fun byte => .count byte.toNat)
  | _ => none

/-- The operands of one visit. -/
def visit (indexed : Bool) (element : Token) (index : Nat) : List Token :=
  element :: if indexed then [.count index] else []

/-- The operands of all visits, in order. -/
def visits (indexed : Bool) (elements : List Token) : List (List Token) :=
  elements.zipIdx.map fun (element, index) => visit indexed element index

example : visits true [.mark, .void] = [[.mark, .count 0], [.void, .count 1]] := rfl

theorem byteArray_getElem? (bytes : ByteArray) (i : Nat) : bytes[i]? = bytes.data.toList[i]? := by
  by_cases hi : i < bytes.size
  · rw [getElem?_pos bytes i hi, Array.getElem?_toList, getElem?_pos bytes.data i hi]
    rfl
  · rw [getElem?_neg bytes i hi, Array.getElem?_toList, getElem?_neg bytes.data i hi]

namespace Token

variable {object : Token} {elements : List Token}

/-- The machine counts as many elements as there are. -/
theorem exists_elementsOf (helements : object.elements? = some elements) (indexed : Bool) :
    ∃ primitive, Machine.elementsOf indexed object = some (elements.length, primitive) := by
  unfold elements? at helements
  split at helements
  · obtain rfl := Option.some.inj helements
    exact ⟨_, rfl⟩
  · obtain rfl := Option.some.inj helements
    rw [List.length_map, Array.length_toList]
    exact ⟨_, rfl⟩
  · cases helements

/-- The machine finds each element at its place. -/
theorem objectElement?_ofNat (helements : object.elements? = some elements) {i : Nat}
    (hi : i < 2 ^ 63) : Machine.objectElement? object (.ofNat i) = elements[i]? := by
  unfold elements? at helements
  split at helements
  · obtain rfl := Option.some.inj helements
    exact Machine.elementAt_ofNat _ hi
  · obtain rfl := Option.some.inj helements
    rw [Machine.objectElement?, if_neg (Machine.not_ofNat_neg hi), Int64.toInt_ofNat_of_lt hi,
      Int.toNat_natCast, List.getElem?_map, byteArray_getElem?]
  · cases helements

end Token

variable {leeway : Leeway} {failed : Machine → Machine → Prop} {host : HostOperators}
  {first second control : Control} {left right : Machine} {object element : Token}
  {elements : List Token} {body : Procedure}
  {primitive : Primitive} {limit position : Int64}

/-! ## The steps of a visit -/

/-- What the left machine only reads, it goes on with. -/
theorem Agree.of_read {α β : Type} {action : Operation α} {next : α → Operation β} {value : α}
    {waiting : EStateM.Result Failure Machine β} {post : β → Machine → Machine → Prop}
    (hread : action left = .ok value left)
    (hnext : Agree leeway failed post (next value left) waiting) :
    Agree leeway failed post ((action >>= next) left) waiting := by
  simp only [Bind.bind, EStateM.bind, hread]
  exact hnext

theorem Agree.of_get {β : Type} {next : Machine → Operation β}
    {waiting : EStateM.Result Failure Machine β} {post : β → Machine → Machine → Prop}
    (hnext : Agree leeway failed post (next left left) waiting) :
    Agree leeway failed post ((MonadState.get >>= next) left) waiting :=
  .of_read rfl hnext

/-- The right machine drops the operand that the left one takes. -/
theorem Paired.pop_alone {α : Type} (hpaired : Paired leeway first second left right)
    {token : Token} {below : List Token} (hitems : left.operands.items = token :: below)
    {next : Token → Operation α} {waiting : EStateM.Result Failure Machine α}
    {post : α → Machine → Machine → Prop}
    (hnext : ∀ left, Paired leeway first second left (right.withoutOperands 1) →
      Agree leeway failed post (next token left) waiting) :
    Agree leeway failed post ((Machine.pop >>= next) left) waiting := by
  simp only [bind, EStateM.bind, Machine.pop_eq, hitems]
  exact hnext _ hpaired.dropOperand

/-- The operator takes its two operands and opens a frame before the first element. -/
theorem Paired.runForAll_alone (hpaired : Paired leeway first second left right)
    {indexed : Bool} {upper : Token} {below : List Token}
    (hoperands : left.operands.items = upper :: object :: below)
    (hupper : Kind.procedure.ofToken (fun _ => false) upper = .ok body)
    (helements : Machine.elementsOf indexed object = some (elements.length, primitive)) :
    Agree leeway (Alike leeway) (fun _ => Paired leeway
        (first.enter (.forAll primitive object (.ofNat elements.length) 0 body)) second)
      (Machine.runForAll indexed left) (.ok () (right.withoutOperands 2)) := by
  refine hpaired.popAs_alone (by decide) hoperands body hupper fun _ hoperands hpaired => ?_
  refine hpaired.pop_alone hoperands fun _ hpaired => ?_
  rw [Machine.withoutOperands_withoutOperands] at hpaired
  rw [Machine.openForAll, helements]
  exact (hpaired.openFrame_alone _ _).mono fun _ _ _ hopened => hopened

theorem Machine.readFrame_forAll {machine : Machine}
    (hcontrol : machine.control =
      control.enter (.forAll primitive object limit position body)) :
    readFrame .integer 2 machine = .ok position machine ∧
      readFrame .integer 3 machine = .ok limit machine ∧
      machine.execution.pick 4 = .ok object ∧ machine.execution.pick 1 = .ok (.procedure body) :=
  ⟨readFrame_eq (by decide) (by rw [hcontrol]; rfl) rfl,
    readFrame_eq (by decide) (by rw [hcontrol]; rfl) rfl,
    pick_eq (by rw [hcontrol]; rfl), pick_eq (by rw [hcontrol]; rfl)⟩

/-- With the operands of a visit in place, the frame moves on and the body is scheduled. -/
theorem Paired.visitBody_alone {i : Nat}
    (hpaired : Paired leeway (control.enter (.forAll primitive object limit (.ofNat i) body))
      second left right) :
    Agree leeway (Alike leeway)
      (fun _ => Paired leeway ((control.enter (.forAll primitive object limit
        (.ofNat (i + 1)) body)).push (.procedure body)) second)
      ((do
        Machine.writeFrame 2 (Int64.ofNat i + 1)
        Machine.scheduleNew (← Machine.orFail ((← get).execution.pick 1)) [] :
          Operation Unit) left)
      (.ok () right) := by
  rw [Machine.ofNat_succ]
  refine (hpaired.writeFrame_alone (.forAll primitive object limit (.ofNat (i + 1)) body)
    (fun _ => rfl) fun _ => rfl).alone fun moved hwritten => ?_
  obtain ⟨-, -, -, hbody⟩ := Machine.readFrame_forAll hwritten.left
  have hread : Machine.orFail (moved.execution.pick 1) moved = .ok (.procedure body) moved := by
    rw [hbody]
    rfl
  exact .of_get (.of_read hread (hwritten.scheduleNew_alone _ _))

/-- A step with elements left puts the operands of the next visit in place and runs the
body. -/
theorem Paired.advanceForAll_visit (hgait : leeway.gait = .apart) {i : Nat}
    (hpaired : Paired leeway (control.enter (.forAll primitive object limit (.ofNat i) body))
      second left right)
    (hgoes : ¬ limit ≤ Int64.ofNat i)
    (helement : Machine.objectElement? object (.ofNat i) = some element)
    (hplain : element.Plain) :
    Agree leeway (Alike leeway)
      (fun _ => Paired leeway ((control.enter (.forAll primitive object limit
        (.ofNat (i + 1)) body)).push (.procedure body)) second)
      (Machine.advanceForAll primitive left)
      (.ok () (right.withOperands (visit primitive.isIndexed element i))) := by
  obtain ⟨hposition, hlimit, hobject, -⟩ := Machine.readFrame_forAll hpaired.left
  unfold Machine.advanceForAll
  refine .of_read hposition (.of_read hlimit ?_)
  rw [if_neg hgoes]
  have hread : Machine.orFail (left.execution.pick 4) left = .ok object left := by
    rw [hobject]
    rfl
  refine .of_get (.of_read hread ?_)
  rw [helement]
  refine (hpaired.claim_alone _).alone fun claimed hclaimed => ?_
  refine (hclaimed.speak_alone hgait (Machine.speaks_note _)).alone fun noted hnoted => ?_
  have hpushed := hnoted.push hplain
  cases hindexed : primitive.isIndexed with
  | false => exact hpushed.visitBody_alone
  | true =>
    exact (hpushed.pushNew_alone (Token.plain_integer (.ofNat i)) _).alone fun _ hnext =>
      hnext.visitBody_alone

/-- A loop behind its last element is closed. -/
theorem Paired.advanceForAll_done
    (hpaired : Paired leeway (control.enter (.forAll primitive object limit position body))
      second left right)
    (hsize : primitive.frameSize = 6) (hdone : limit ≤ position) :
    Agree leeway (Alike leeway) (fun _ => Paired leeway control second)
      (Machine.advanceForAll primitive left) (.ok () right) := by
  obtain ⟨hposition, hlimit, -, -⟩ := Machine.readFrame_forAll hpaired.left
  unfold Machine.advanceForAll
  refine .of_read hposition (.of_read hlimit ?_)
  rw [if_pos hdone]
  exact hpaired.closeFrame_alone hsize.symm

/-! ## Runs over an object -/

/-- The frame of such a loop is complete, and its step is the one for objects. -/
theorem Machine.advance_of_elementsOf {indexed : Bool} {n : Nat}
    (helements : elementsOf indexed object = some (n, primitive)) :
    advance primitive = advanceForAll primitive ∧ primitive.frameSize = 6 := by
  have hprimitive := (primitive_of_elementsOf helements).2
  simp only [List.mem_cons, List.not_mem_nil, or_false] at hprimitive
  rcases hprimitive with rfl | rfl | rfl | rfl <;> exact ⟨rfl, rfl⟩

theorem visits_drop {indexed : Bool} {i : Nat} (hi : i < elements.length) :
    (visits indexed elements).drop i =
      visit indexed elements[i] i :: (visits indexed elements).drop (i + 1) := by
  have hlt : i < (visits indexed elements).length := by simpa [visits] using hi
  rw [List.drop_eq_getElem_cons hlt]
  simp [visits]

theorem Token.elements_plain (helements : object.elements? = some elements)
    (hobject : object.Plain) : ∀ element ∈ elements, element.Plain := by
  unfold elements? at helements
  split at helements
  · rename_i items attributes
    obtain rfl := Option.some.inj helements
    have hitems : (Value.array items).Plain := hobject
    exact Value.plain_array.1 hitems
  · obtain rfl := Option.some.inj helements
    intro element hmem
    obtain ⟨byte, -, rfl⟩ := List.mem_map.1 hmem
    rfl
  · cases helements

/-- One visit, and what comes behind it. -/
theorem Paired.forAll_round (hgait : leeway.gait = .apart) (hbody : body.Plain)
    (hlength : body.body.length < 2 ^ 63) (hobject : object.Plain)
    (helements : object.elements? = some elements)
    (hcount : elements.length < 2 ^ 63) {indexed : Bool}
    (hprimitive : Machine.elementsOf indexed object = some (elements.length, primitive))
    {i : Nat} (hlt : i < elements.length) {later : Machine → Outcome → Prop}
    (hpaired : Paired leeway (control.enter (.forAll primitive object (.ofNat elements.length)
      (.ofNat i) body)) (control.push .mark) left right)
    (hlater : ∀ left right,
      Paired leeway (control.enter (.forAll primitive object (.ofNat elements.length)
        (.ofNat (i + 1)) body)) (control.push .mark) left right →
      EndAlike leeway (Alike leeway) (Paired leeway control control)
        (Machine.Drains host control.items.length left) (later right)) :
    EndAlike leeway (Alike leeway) (Paired leeway control control)
      (Machine.Drains host control.items.length left)
      (Machine.Then
        (Machine.InOrder host (control.items.length + 1) body.body
          (right.withOperands (visit indexed elements[i] i)))
        (Machine.Standing (control.items.length + 1) later)) := by
  have hgoes : ¬ Int64.ofNat elements.length ≤ Int64.ofNat i := by
    rw [Int64.le_iff_toInt_le, Int64.toInt_ofNat_of_lt hcount,
      Int64.toInt_ofNat_of_lt (by omega)]
    omega
  have helement : Machine.objectElement? object (.ofNat i) = some elements[i] := by
    rw [Token.objectElement?_ofNat helements (by omega), List.getElem?_eq_getElem hlt]
  have hvisit := hpaired.advanceForAll_visit hgait hgoes helement
    (Token.elements_plain helements hobject _ (List.getElem_mem hlt))
  rw [← (Machine.advance_of_elementsOf hprimitive).1,
    (Machine.primitive_of_elementsOf hprimitive).1] at hvisit
  have hsound : (Frame.forAll primitive object (.ofNat elements.length) (.ofNat (i + 1))
      body).Sound :=
    ⟨hbody, hobject, elements.length, (Machine.primitive_of_elementsOf hprimitive).1 ▸ hprimitive,
      rfl, i + 1, hlt, rfl⟩
  have hexit := Frame.left?_enter_loop rfl hsound.shaped control
  have hbelow : control.items.length < (control.enter (.forAll primitive object
      (.ofNat elements.length) (.ofNat (i + 1)) body)).items.length :=
    Control.length_lt_enter (Nat.le_refl _)
  refine .of_step (Machine.lt_load_of_enter hpaired.left) (Machine.step_of_enter hpaired.left)
    hvisit fun next hnext => ?_
  rw [Machine.drains_above (Nat.le_of_lt hbelow)]
  exact .of_round ((Paired.procedure_endAlike hgait hexit hbody hlength hnext).mono
    fun _ _ hlanded => hlanded.rested rfl hsound.shaped) hlater

/-- A loop before an element makes the visits that are left. -/
theorem Paired.forAll_rounds (hgait : leeway.gait = .apart) (hbody : body.Plain)
    (hlength : body.body.length < 2 ^ 63) (hobject : object.Plain)
    (helements : object.elements? = some elements)
    (hcount : elements.length < 2 ^ 63) {indexed : Bool}
    (hprimitive : Machine.elementsOf indexed object = some (elements.length, primitive))
    {i : Nat} (hi : i ≤ elements.length)
    (hpaired : Paired leeway (control.enter (.forAll primitive object (.ofNat elements.length)
      (.ofNat i) body)) (control.push .mark) left right) :
    EndAlike leeway (Alike leeway) (Paired leeway control control)
      (Machine.Drains host control.items.length left)
      (Machine.Loops host (control.items.length + 1) body.body ((visits indexed elements).drop i)
        right) := by
  induction hleft : elements.length - i generalizing i left right with
  | zero =>
    obtain rfl : i = elements.length := by omega
    have hdrop : (visits indexed elements).drop elements.length = [] :=
      List.drop_eq_nil_of_le (by simp [visits])
    obtain ⟨hadvance, hsize⟩ := Machine.advance_of_elementsOf hprimitive
    have hdone := hpaired.advanceForAll_done hsize (Int64.le_refl _)
    rw [← hadvance] at hdone
    rw [hdrop]
    exact hpaired.closed_endAlike hdone
  | succ n ih =>
    have hlt : i < elements.length := by omega
    rw [visits_drop hlt, Machine.loops_cons]
    exact Paired.forAll_round hgait hbody hlength hobject helements hcount hprimitive hlt hpaired
      fun left right hpaired => ih hlt hpaired (by omega)

namespace Machine

/-- A loop over an object visits its elements.  Whatever the machine was about to do, running
`forall` or `forallindexed` until it has drained is like putting each element on the operand
stack in order, and its index on top of it in the indexed form, and running the tokens of the
body behind it: one ends exactly if the other one does, and then with the same result, the
same operands, dictionaries and scopes, and with the execution stack and the open frames as
they were before, also if `exit` in the body has ended the loop.  Only a machine whose pools
cannot grow for ever, or one in step mode, may die in one of them alone. -/
theorem runForAll_visits {machine : Machine} (hplain : machine.Plain) (host : HostOperators)
    (name : Name) (indexed : Bool) {body : Procedure} {upper object : Token}
    {below elements : List Token}
    (hoperands : machine.operands.items = upper :: object :: below)
    (hupper : Kind.procedure.ofToken (fun _ => false) upper = .ok body)
    (helements : object.elements? = some elements)
    (hlength : body.body.length < 2 ^ 63) (hcount : elements.length < 2 ^ 63) :
    machine.SameCourse
      (Drains host machine.execution.load (machine.schedule
        (.function name (if indexed then .forAllIndexed else .forAll))))
      (Loops host (machine.execution.load + 1) body.body (visits indexed elements)
        ((machine.withoutOperands 2).schedule .mark)) := by
  have hbody : body.Plain :=
    Procedure.every_of_ofToken hupper (hplain.operands upper (by simp [hoperands]))
  have hobject : object.Plain := hplain.operands object (by simp [hoperands])
  have hload : machine.execution.load = machine.control.items.length := machine.execution.load_eq
  obtain ⟨primitive, hprimitive⟩ := Token.exists_elementsOf helements indexed
  have hstep : step host (machine.schedule
        (.function name (if indexed then .forAllIndexed else .forAll))) =
      .finished (runForAll indexed (machine.schedule
        (.function name (if indexed then .forAllIndexed else .forAll))).unscheduled) := by
    cases indexed <;> rfl
  refine .of_step (lt_load_schedule _ _) hstep
    ((hplain.paired_call _).runForAll_alone hoperands hupper hprimitive) fun next hopened => ?_
  rw [hload]
  exact Paired.forAll_rounds rfl hbody hlength hobject helements hcount hprimitive (Nat.zero_le _)
    hopened.schedule_right

/-- In a new machine the three bytes of a text of two characters are visited with their
indices. -/
theorem runForAll_visits_bytes :
    ∃ fresh, create {} Registration.standard = .ok fresh ∧
      let body : Procedure := ⟨⟨0⟩, [.name "add", .name "pop"]⟩
      let machine : Machine := { fresh with
        operands := fresh.operands.pushAll [.string "né", .procedure body] }
      machine.SameCourse
        (Drains .inert machine.execution.load
          (machine.schedule (.function "forallindexed" .forAllIndexed)))
        (Loops .inert (machine.execution.load + 1) body.body
          [[.integer 110, .integer 0], [.integer 195, .integer 1], [.integer 169, .integer 2]]
          ((machine.withoutOperands 2).schedule .mark)) := by
  obtain ⟨fresh, hnew⟩ := exists_new
  refine ⟨fresh, hnew.created, ?_⟩
  intro body machine
  have hoperands : machine.operands.items = [.procedure body, .string "né"] := by
    simp [machine, TokenStack.pushAll, hnew.operands]
  have hplain : machine.Plain :=
    { hnew.blank.plain with operands := by rw [hoperands]; decide }
  have helements : (Token.string "né").elements? =
      some [.integer 110, .integer 195, .integer 169] := rfl
  exact runForAll_visits hplain .inert "forallindexed" true hoperands rfl helements (by decide)
    (by decide)

/-- Where the pools cannot grow, there is room for the element that is visited, but not for the
frame of the loop. -/
theorem forAll_unlike_visits :
    ∃ machine, Crowded ((List.range 30).map (fun n => .integer (.ofNat n)) ++
        [.array [.integer 5], .procedure []]) machine ∧ machine.Blank ∧
      ¬ EndTogether SameEnd (Drains .inert 0 (machine.schedule (.function "forall" .forAll)))
        (Loops .inert 1 [] [[.integer 5]] ((machine.withoutOperands 2).schedule .mark)) := by
  obtain ⟨machine, hcrowded, hblank, hfaults⟩ := exists_crowded
    ((List.range 30).map (fun n => .integer (.ofNat n)) ++ [.array [.integer 5], .procedure []])
    (fun machine => (step .inert (machine.schedule (.function "forall" .forAll))).finished?.any
      fun ended => decide (Faulted ended))
    (by decide +kernel)
  refine ⟨machine, hcrowded, hblank, DiesAlone.not_endTogether ⟨?_, ?_⟩⟩
  · exact exists_drains_faulted (Nat.succ_pos _) hfaults
  · exact ⟨_, loops_without_body (Nat.succ_pos _) [[.integer 5]], id⟩

end Machine

end StackLang
