import Mathlib
import StackLang.Proofs.Plain

/-!
# The layout of the execution stack

While a statement runs, the execution stack holds complete frames and at most one
token that is to be executed next on top of them.  This module names the frames
by what they keep, gives their tokens, and says what is sound about a frame.
-/

namespace StackLang

/-- What is inside the procedure is plain. -/
def Procedure.Plain (procedure : Procedure) : Prop :=
  ∀ token ∈ procedure.body, token.Plain

instance (procedure : Procedure) : Decidable procedure.Plain :=
  inferInstanceAs (Decidable (∀ token ∈ procedure.body, token.Plain))

/-- An open frame. -/
inductive Frame where
  | procedure (attributes : Attributes) (body : Procedure) (position : Int64)
  | loop (body : Procedure) (position : Int64)
  | repetition (rounds : Int64) (body : Procedure) (position : Int64)
  | counting (increment limit counter : Int64) (body : Procedure) (position : Int64)
  | forAll (primitive : Primitive) (object : Token) (limit position : Int64) (body : Procedure)

/-- The number counts some of `n` elements, from none to all of them. -/
def Counts (n : Nat) (position : Int64) : Prop :=
  ∃ k ≤ n, position = Int64.ofNat k

theorem counts_zero (n : Nat) : Counts n 0 :=
  ⟨0, Nat.zero_le n, rfl⟩

theorem counts_self (n : Nat) : Counts n (Int64.ofNat n) :=
  ⟨n, Nat.le_refl n, rfl⟩

/-- As long as all counts are numbers of the machine, a count lies in its range. -/
theorem Counts.range {n : Nat} {position : Int64} (hcounts : Counts n position)
    (hn : n < 2 ^ 63) : 0 ≤ position.toInt ∧ position.toInt ≤ n := by
  obtain ⟨k, hk, rfl⟩ := hcounts
  rw [Int64.toInt_ofNat_of_lt (by omega)]
  omega

/-- Behind a position where there is an element, one more element is counted. -/
theorem Counts.next {n : Nat} {position : Int64} (hpositive : 0 ≤ position)
    (hlt : position.toInt.toNat < n) : Counts n (position + 1) := by
  refine ⟨position.toInt.toNat + 1, hlt, ?_⟩
  have hsame : Int64.ofNat position.toInt.toNat = position :=
    Int64.ofNat_toNatClampNeg position hpositive
  rw [Int64.ofNat_add, hsame]
  rfl

namespace Machine

/-- A sum of two numbers of the machine that is one again. -/
theorem toInt_add_of_range {a b : Int64} (hlow : -2 ^ 63 ≤ a.toInt + b.toInt)
    (hhigh : a.toInt + b.toInt < 2 ^ 63) : (a + b).toInt = a.toInt + b.toInt := by
  rw [Int64.toInt_add, Int.bmod_eq_of_le] <;> omega

/-- A difference of two numbers of the machine that is one again. -/
theorem toInt_sub_of_range {a b : Int64} (hlow : -2 ^ 63 ≤ a.toInt - b.toInt)
    (hhigh : a.toInt - b.toInt < 2 ^ 63) : (a - b).toInt = a.toInt - b.toInt := by
  rw [Int64.toInt_sub, Int.bmod_eq_of_le] <;> omega

theorem toInt_of_addExactly {a b sum : Int64} (hsum : addExactly a b = some sum) :
    sum.toInt = a.toInt + b.toInt := by
  unfold addExactly at hsum
  split at hsum
  · rename_i hexact
    obtain rfl := Option.some.inj hsum
    exact hexact
  · cases hsum

theorem elementAt_eq_some {body : List Token} {position : Int64} {element : Token}
    (helement : elementAt body position = some element) :
    element ∈ body ∧ Counts body.length (position + 1) := by
  unfold elementAt at helement
  split at helement
  · cases helement
  · rename_i hnegative
    have hlt := (List.getElem?_eq_some_iff.1 helement).1
    exact ⟨List.mem_of_getElem? helement, .next (Int64.not_lt.1 hnegative) hlt⟩

theorem not_ofNat_neg {k : Nat} (hk : k < 2 ^ 63) : ¬ Int64.ofNat k < 0 := by
  rw [Int64.lt_iff_toInt_lt, Int64.toInt_ofNat_of_lt hk]
  exact Int.not_lt.2 (Int.natCast_nonneg k)

theorem elementAt_ofNat (items : List Token) {k : Nat} (hk : k < 2 ^ 63) :
    elementAt items (.ofNat k) = items[k]? := by
  rw [elementAt, if_neg (not_ofNat_neg hk), Int64.toInt_ofNat_of_lt hk, Int.toNat_natCast]

theorem ofNat_succ (k : Nat) : Int64.ofNat k + 1 = .ofNat (k + 1) := by
  rw [Int64.ofNat_add]
  rfl

theorem elementAt_of_lt {items : List Token} (hlength : items.length < 2 ^ 63) {k : Nat}
    (hk : k < items.length) : elementAt items (.ofNat k) = some items[k] := by
  rw [elementAt_ofNat _ (by omega), List.getElem?_eq_getElem hk]

theorem elementAt_length {items : List Token} (hlength : items.length < 2 ^ 63) :
    elementAt items (.ofNat items.length) = none := by
  rw [elementAt_ofNat _ hlength, List.getElem?_eq_none (Nat.le_refl _)]

/-- Behind the last element there is none, also where the position wraps around. -/
theorem elementAt_behind_last {body : List Token} {position : Int64} {element : Token}
    (helement : elementAt body position = some element)
    (hlast : position.toInt.toNat + 1 = body.length) :
    elementAt body (position + 1) = none := by
  unfold elementAt at helement ⊢
  split at helement
  · cases helement
  · rename_i hnegative
    have hpositive : 0 ≤ position.toInt := by
      simpa using Int64.le_iff_toInt_le.1 (Int64.not_lt.1 hnegative)
    have hbound := position.toInt_lt
    split
    · rfl
    · rename_i hbehind
      have hnext : (position + 1).toInt = position.toInt + 1 := by
        have hsum := Int64.toInt_add position 1
        have hone : (1 : Int64).toInt = 1 := rfl
        have hnonneg : 0 ≤ (position + 1).toInt := by
          simpa using Int64.le_iff_toInt_le.1 (Int64.not_lt.1 hbehind)
        rw [hone, Int.bmod_def] at hsum
        split at hsum <;> omega
      rw [hnext, List.getElem?_eq_none]
      omega

end Machine

/-- An element that is handed out is plain, and one more is counted behind it. -/
theorem Machine.objectElement?_eq_some {indexed : Bool} {object element : Token} {n : Nat}
    {primitive : Primitive} {position : Int64}
    (helements : elementsOf indexed object = some (n, primitive)) (hobject : object.Plain)
    (helement : objectElement? object position = some element) :
    element.Plain ∧ Counts n (position + 1) := by
  unfold objectElement? at helement
  split at helement
  · rename_i items attributes
    obtain ⟨rfl, -⟩ := Prod.mk.inj (Option.some.inj helements)
    obtain ⟨hmem, hcounts⟩ := elementAt_eq_some helement
    have hitems : (Value.array items).Plain := hobject
    exact ⟨Value.plain_array.1 hitems element hmem, hcounts⟩
  · rename_i text attributes
    obtain ⟨rfl, -⟩ := Prod.mk.inj (Option.some.inj helements)
    split at helement
    · cases helement
    · rename_i hnegative
      obtain ⟨byte, hbyte, rfl⟩ := Option.map_eq_some_iff.1 helement
      have hlt : position.toInt.toNat < text.utf8ByteSize := (getElem?_eq_some_iff.1 hbyte).1
      exact ⟨rfl, .next (Int64.not_lt.1 hnegative) hlt⟩
  · cases helement

/-- The primitive for an object is one of four and tells how elements are handed
out. -/
theorem Machine.primitive_of_elementsOf {indexed : Bool} {object : Token} {n : Nat}
    {primitive : Primitive} (helements : elementsOf indexed object = some (n, primitive)) :
    primitive.isIndexed = indexed ∧
      primitive ∈ [.forAllArray, .forAllIndexedArray, .forAllString, .forAllIndexedString] := by
  unfold elementsOf at helements
  split at helements
  · obtain ⟨-, rfl⟩ := Prod.mk.inj (Option.some.inj helements)
    cases indexed <;> simp [Primitive.isIndexed]
  · obtain ⟨-, rfl⟩ := Prod.mk.inj (Option.some.inj helements)
    cases indexed <;> simp [Primitive.isIndexed]
  · cases helements

namespace Frame

/-- The primitive that drives the frame. -/
def primitive : Frame → Primitive
  | procedure .. => .iterate
  | loop .. => .loop
  | repetition .. => .repetition
  | counting .. => .counting
  | forAll primitive .. => primitive

/-- The tokens of the frame, the top first. -/
def tokens : Frame → List Token
  | procedure attributes body position =>
    [.primitive .iterate, .integer position, .datum (.procedure body.id body.body) attributes]
  | loop body position =>
    [.primitive .loop, .integer position, .procedure body, .mark]
  | repetition rounds body position =>
    [.primitive .repetition, .integer position, .procedure body, .integer rounds, .mark]
  | counting increment limit counter body position =>
    [.primitive .counting, .integer position, .procedure body, .integer counter,
      .integer limit, .integer increment, .mark]
  | forAll primitive object limit position body =>
    [.primitive primitive, .procedure body, .integer position, .integer limit, object, .mark]

/-- The frames that `exit` can leave. -/
def isLoop : Frame → Bool
  | procedure .. => false
  | _ => true

/-- What is kept in a frame is plain, its position counts its elements, and a
visited object is one that its primitive is made for. -/
def Sound : Frame → Prop
  | procedure _ body position | loop body position | repetition _ body position
  | counting _ _ _ body position => body.Plain ∧ Counts body.body.length position
  | forAll primitive object limit position body =>
    body.Plain ∧ object.Plain ∧ ∃ n, Machine.elementsOf primitive.isIndexed object =
      some (n, primitive) ∧ limit = Int64.ofNat n ∧ Counts n position

/-- What the frame holds between its primitive and its mark, the top first. -/
def parts : Frame → List Token
  | procedure attributes body position =>
    [.integer position, .datum (.procedure body.id body.body) attributes]
  | loop body position => [.integer position, .procedure body]
  | repetition rounds body position => [.integer position, .procedure body, .integer rounds]
  | counting increment limit counter body position =>
    [.integer position, .procedure body, .integer counter, .integer limit, .integer increment]
  | forAll _ object limit position body =>
    [.procedure body, .integer position, .integer limit, object]

theorem tokens_eq (frame : Frame) :
    frame.tokens = .primitive frame.primitive ::
      (frame.parts ++ if frame.isLoop then [.mark] else []) := by
  cases frame <;> rfl

/-- The primitive of a loop over an object is none of the others. -/
theorem Sound.forAll_primitive {primitive : Primitive} {object : Token}
    {limit position : Int64} {body : Procedure}
    (hsound : (forAll primitive object limit position body).Sound) :
    primitive ∈ [.forAllArray, .forAllIndexedArray, .forAllString, .forAllIndexedString] := by
  obtain ⟨-, -, n, helements, -, -⟩ := hsound
  exact (Machine.primitive_of_elementsOf helements).2

/-- A frame has as many tokens as its primitive says. -/
theorem Sound.length_tokens {frame : Frame} (hsound : frame.Sound) :
    frame.tokens.length = frame.primitive.frameSize := by
  cases frame with
  | procedure | loop | repetition | counting => rfl
  | forAll primitive object limit position body =>
    have hprimitive := hsound.forAll_primitive
    simp only [List.mem_cons, List.not_mem_nil, or_false] at hprimitive
    rcases hprimitive with rfl | rfl | rfl | rfl <;> rfl

/-- Between its primitive and its mark a frame holds neither. -/
theorem Sound.parts_tag {frame : Frame} (hsound : frame.Sound) {token : Token}
    (hmem : token ∈ frame.parts) :
    token.isA .mark = false ∧ token.isA .primitive = false := by
  cases frame with
  | procedure | loop | repetition | counting =>
    simp only [parts, List.mem_cons, List.not_mem_nil, or_false] at hmem
    rcases hmem with rfl | rfl | rfl | rfl | rfl <;> exact ⟨rfl, rfl⟩
  | forAll primitive object limit position body =>
    obtain ⟨-, -, n, hobject, -, -⟩ := hsound
    simp only [parts, List.mem_cons, List.not_mem_nil, or_false] at hmem
    rcases hmem with rfl | rfl | rfl | rfl
    · exact ⟨rfl, rfl⟩
    · exact ⟨rfl, rfl⟩
    · exact ⟨rfl, rfl⟩
    · unfold Machine.elementsOf at hobject
      split at hobject
      · exact ⟨rfl, rfl⟩
      · exact ⟨rfl, rfl⟩
      · cases hobject

end Frame

/-- What a machine is about to do: its execution stack and its open frames. -/
structure Control where
  items : List Token
  depth : Nat

namespace Control

/-- With a token to be executed next. -/
def push (token : Token) (control : Control) : Control :=
  { control with items := token :: control.items }

/-- With one more frame open. -/
def enter (frame : Frame) (control : Control) : Control :=
  ⟨frame.tokens ++ control.items, control.depth + 1⟩

/-- With frames open, the innermost first. -/
def within (frames : List Frame) (control : Control) : Control :=
  frames.foldr enter control

@[simp]
theorem within_nil (control : Control) : control.within [] = control := rfl

@[simp]
theorem within_cons (frame : Frame) (frames : List Frame) (control : Control) :
    control.within (frame :: frames) = (control.within frames).enter frame := rfl

theorem depth_within (frames : List Frame) (control : Control) :
    (control.within frames).depth = control.depth + frames.length := by
  induction frames with
  | nil => rfl
  | cons frame rest ih => simp [enter, ih]; omega

theorem items_within (frames : List Frame) (control : Control) :
    (control.within frames).items = frames.flatMap Frame.tokens ++ control.items := by
  induction frames with
  | nil => rfl
  | cons frame rest ih => simp [enter, ih]

theorem length_le_within (frames : List Frame) (control : Control) :
    control.items.length ≤ (control.within frames).items.length := by
  rw [items_within, List.length_append]
  omega

theorem length_lt_enter {n : Nat} {frame : Frame} {control : Control}
    (hle : n ≤ control.items.length) : n < (control.enter frame).items.length := by
  simp [enter, frame.tokens_eq]
  omega

end Control

/-- What the machine is about to do. -/
def Machine.control (machine : Machine) : Control :=
  ⟨machine.execution.items, machine.depth⟩

theorem Machine.items_of_control {machine : Machine} {control : Control}
    (hcontrol : machine.control = control) : machine.execution.items = control.items :=
  congrArg Control.items hcontrol

theorem Machine.depth_of_control {machine : Machine} {control : Control}
    (hcontrol : machine.control = control) : machine.depth = control.depth :=
  congrArg Control.depth hcontrol

theorem Machine.load_of_control {machine : Machine} {control : Control}
    (hcontrol : machine.control = control) :
    machine.execution.load = control.items.length := by
  rw [machine.execution.load_eq, ← hcontrol]
  rfl

theorem Machine.lt_load_of_enter {machine : Machine} {frame : Frame} {control : Control}
    (hcontrol : machine.control = control.enter frame) :
    control.items.length < machine.execution.load := by
  rw [Machine.load_of_control hcontrol]
  exact Control.length_lt_enter (Nat.le_refl _)

/-! ## Leaving a loop -/

/-- No token of the stack is a mark. -/
def Control.Unmarked (control : Control) : Prop :=
  ∀ token ∈ control.items, token.isA .mark = false

/-- The frames outside the innermost loop, if there is a loop. -/
def Frame.outside : List Frame → Option (List Frame)
  | [] => none
  | frame :: rest => if frame.isLoop then some rest else outside rest

namespace Frame

/-- A frame that the code can take apart: it has as many tokens as its primitive says,
and between its primitive and its mark it holds neither. -/
structure Shaped (frame : Frame) : Prop where
  complete : frame.tokens.length = frame.primitive.frameSize
  parts_tag : ∀ token ∈ frame.parts, token.isA .mark = false ∧ token.isA .primitive = false

theorem Sound.shaped {frame : Frame} (hsound : frame.Sound) : frame.Shaped :=
  ⟨hsound.length_tokens, fun _ hmem => hsound.parts_tag hmem⟩

/-- The only primitive of a frame is the one on top. -/
theorem Shaped.countP_parts {frame : Frame} (hshaped : frame.Shaped) :
    (Token.primitive frame.primitive :: frame.parts).countP
      (fun token => token.isA .primitive) = 1 := by
  rw [List.countP_cons_of_pos rfl, List.countP_eq_zero.2]
  intro token hmem
  simp [(hshaped.parts_tag token hmem).2]

theorem Shaped.countP_tokens {frame : Frame} (hshaped : frame.Shaped) :
    frame.tokens.countP (fun token => token.isA .primitive) = 1 := by
  rw [frame.tokens_eq, ← List.cons_append, List.countP_append, hshaped.countP_parts]
  cases frame.isLoop <;> rfl

end Frame

namespace Control

/-- What is left to do when the innermost loop is left: what is below the topmost mark,
without the frames whose primitives are above it. -/
def left? (control : Control) : Option Control :=
  match control.items.span fun token => !token.isA .mark with
  | (_, []) => none
  | (above, _ :: rest) =>
    some ⟨rest, control.depth - above.countP fun token => token.isA .primitive⟩

theorem left?_eq_none_iff {control : Control} : control.left? = none ↔ control.Unmarked := by
  have hdropped : (control.items.span fun token => !token.isA .mark).2 = [] ↔
      control.Unmarked := by
    simp [List.span_eq_takeWhile_dropWhile, List.dropWhile_eq_nil_iff, Unmarked]
  rw [left?, ← hdropped]
  split <;> simp_all

theorem left?_of_items {control : Control} {above rest : List Token} {mark : Token}
    (hitems : control.items = above ++ mark :: rest) (hmark : mark.isA .mark = true)
    (habove : ∀ token ∈ above, token.isA .mark = false) :
    control.left? =
      some ⟨rest, control.depth - above.countP fun token => token.isA .primitive⟩ := by
  have hpass : ∀ token ∈ above, !token.isA .mark := by
    intro token hmem
    simp [habove token hmem]
  have hspan : control.items.span (fun token => !token.isA .mark) = (above, mark :: rest) := by
    rw [hitems, List.span_eq_takeWhile_dropWhile, List.takeWhile_append_of_pos hpass,
      List.dropWhile_append_of_pos hpass]
    simp [hmark]
  rw [left?, hspan]

theorem append_of_span {test : Token → Bool} {items above rest : List Token}
    (hspan : items.span test = (above, rest)) : items = above ++ rest := by
  rw [List.span_eq_takeWhile_dropWhile] at hspan
  rw [← (Prod.mk.inj hspan).1, ← (Prod.mk.inj hspan).2, List.takeWhile_append_dropWhile]

/-- A loop that can be left is the one with the topmost mark. -/
theorem items_of_left? {control outer : Control} (hleft : control.left? = some outer) :
    ∃ above mark, control.items = above ++ mark :: outer.items ∧ mark.isA .mark = true ∧
      (∀ token ∈ above, token.isA .mark = false) ∧
      outer.depth = control.depth - above.countP fun token => token.isA .primitive := by
  rw [left?] at hleft
  split at hleft
  · cases hleft
  · rename_i above mark rest hspan
    obtain rfl := Option.some.inj hleft
    have hitems := append_of_span hspan
    rw [List.span_eq_takeWhile_dropWhile] at hspan
    obtain ⟨rfl, hrest⟩ := Prod.mk.inj hspan
    refine ⟨_, mark, hitems, ?_, ?_, rfl⟩
    · have hhead := List.head?_dropWhile_not (fun token => !token.isA .mark) control.items
      simpa [hrest] using hhead
    · intro token hmem
      simpa using List.mem_takeWhile_imp hmem

theorem left?_push_mark (control : Control) : (control.push .mark).left? = some control := by
  rw [left?_of_items (show (control.push .mark).items = [] ++ Token.mark :: control.items from rfl)
    rfl (by simp)]
  rfl

/-- Leaving a loop removes at least its mark. -/
theorem length_lt_of_left? {control outer : Control} (hleft : control.left? = some outer) :
    outer.items.length < control.items.length := by
  obtain ⟨above, mark, hitems, -⟩ := items_of_left? hleft
  rw [hitems, List.length_append, List.length_cons]
  omega

/-- Leaving the innermost loop with one more frame open leaves that frame if it is a
loop, and closes it on the way if it is not. -/
theorem left?_enter {frame : Frame} (hshaped : frame.Shaped) (control : Control) :
    (control.enter frame).left? = if frame.isLoop then some control else control.left? := by
  have hmark : ∀ token ∈ Token.primitive frame.primitive :: frame.parts,
      token.isA .mark = false := by
    intro token hmem
    obtain rfl | hpart := List.mem_cons.1 hmem
    · rfl
    · exact (hshaped.parts_tag token hpart).1
  have hcount := hshaped.countP_parts
  have hitems : (control.enter frame).items = (.primitive frame.primitive :: frame.parts) ++
      ((if frame.isLoop then [.mark] else []) ++ control.items) := by
    simp [enter, frame.tokens_eq]
  cases hloop : frame.isLoop with
  | true =>
    rw [left?_of_items (by rw [hitems, hloop]; rfl) rfl hmark, hcount]
    rfl
  | false =>
    -- Without a mark of its own the frame is only passed on the way to the mark below it.
    simp only [hloop, Bool.false_eq_true, if_false, List.nil_append] at hitems ⊢
    cases hleft : control.left? with
    | none =>
      have hbelow := left?_eq_none_iff.1 hleft
      refine left?_eq_none_iff.2 fun token hmem => ?_
      rw [hitems] at hmem
      exact (List.mem_append.1 hmem).elim (hmark token) (hbelow token)
    | some outer =>
      obtain ⟨above, mark, hown, hmarked, habove, hdepth⟩ := items_of_left? hleft
      have hall : ∀ token ∈ (Token.primitive frame.primitive :: frame.parts) ++ above,
          token.isA .mark = false :=
        fun token hmem => (List.mem_append.1 hmem).elim (hmark token) (habove token)
      rw [left?_of_items (by rw [hitems, hown, ← List.append_assoc]) hmarked hall,
        List.countP_append, hcount]
      congr 1
      cases outer
      simp only [enter] at hdepth ⊢
      congr 1
      omega

/-- Leaving the innermost loop leaves the innermost of the open frames that is one, or
else a loop below them. -/
theorem left?_within {base : Control} {frames : List Frame}
    (hshaped : ∀ frame ∈ frames, frame.Shaped) :
    (base.within frames).left? =
      ((Frame.outside frames).map fun outer => base.within outer).or base.left? := by
  induction frames with
  | nil => rfl
  | cons frame rest ih =>
    rw [within_cons, left?_enter (hshaped frame (by simp)), Frame.outside]
    split
    · rfl
    · exact ih fun frame hframe => hshaped frame (by simp [hframe])

end Control

namespace Machine

variable {machine : Machine} {above rest : List Token}

theorem exitLoop_of_span
    (hspan : machine.execution.items.span (fun token => !token.isA .mark) = (above, rest)) :
    exitLoop machine = if rest.isEmpty then .error (.error .invalidExit) machine
      else .ok () { machine with
        execution := machine.execution.dropTop (above.length + 1)
        depth := machine.depth - above.countP fun token => token.isA .primitive } := by
  simp only [exitLoop, bind, EStateM.bind, get, getThe, MonadStateOf.get, EStateM.get, hspan]
  split <;> rfl

/-- Where no loop is open, none can be left. -/
theorem exitLoop_eq_error (hnone : machine.control.left? = none) :
    exitLoop machine = .error (.error .invalidExit) machine := by
  rw [Control.left?] at hnone
  split at hnone
  · rename_i above hspan
    exact exitLoop_of_span hspan
  · cases hnone

/-- Leaving a loop leaves what is outside it. -/
theorem exitLoop_eq_ok {outer : Control} (hleft : machine.control.left? = some outer) :
    ∃ execution, execution.items = outer.items ∧
      exitLoop machine = .ok () { machine with execution, depth := outer.depth } := by
  rw [Control.left?] at hleft
  split at hleft
  · cases hleft
  · rename_i above mark rest hspan
    obtain rfl := Option.some.inj hleft
    refine ⟨machine.execution.dropTop (above.length + 1), ?_, exitLoop_of_span hspan⟩
    have hitems : machine.execution.items = above ++ mark :: rest :=
      Control.append_of_span hspan
    simp [hitems]

end Machine

end StackLang
