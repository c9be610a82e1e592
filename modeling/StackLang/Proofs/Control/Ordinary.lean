import StackLang.Proofs.Control.Agreement
import StackLang.Proofs.Ownership.Writes

/-!
# Ordinary data

Primitives belong to the machine: they stand on the execution stack on top of the frames
that they drive, and a program that had one among its data could advance a frame that is
not its own.  Ordinary data contain no primitive at any depth.  Operators of the host may
be among them.
-/

namespace StackLang

/-- Whether a value is no primitive; what is inside it does not matter. -/
def Value.isOrdinary : Value → Bool
  | .primitive _ => false
  | _ => true

/-- Neither the value nor a value inside it is a primitive. -/
def Value.Ordinary (value : Value) : Prop :=
  value.every Value.isOrdinary

/-- No value inside the token is a primitive. -/
def Token.Ordinary (token : Token) : Prop :=
  token.every Value.isOrdinary

instance (token : Token) : Decidable token.Ordinary :=
  inferInstanceAs (Decidable (_ = true))

/-- No value inside the procedure is a primitive. -/
def Procedure.Ordinary (procedure : Procedure) : Prop :=
  ∀ token ∈ procedure.body, token.Ordinary

namespace Value

@[simp]
theorem ordinary_procedure {id : BodyId} {body : List Token} :
    (procedure id body).Ordinary ↔ ∀ token ∈ body, token.Ordinary := by
  simp [Ordinary, every, isOrdinary, Token.everyOf_iff, Token.Ordinary]

@[simp]
theorem ordinary_litProcedure {id : BodyId} {body : List Token} :
    (litProcedure id body).Ordinary ↔ ∀ token ∈ body, token.Ordinary := by
  simp [Ordinary, every, isOrdinary, Token.everyOf_iff, Token.Ordinary]

@[simp]
theorem ordinary_array {items : List Token} :
    (array items).Ordinary ↔ ∀ token ∈ items, token.Ordinary := by
  simp [Ordinary, every, isOrdinary, Token.everyOf_iff, Token.Ordinary]

@[simp]
theorem ordinary_callback {action : Token} : (callback action).Ordinary ↔ action.Ordinary := by
  simp [Ordinary, every, isOrdinary, Token.Ordinary]

@[simp]
theorem not_ordinary_primitive (own : Primitive) : ¬ (primitive own).Ordinary := by
  simp [Ordinary, every, isOrdinary]

end Value

namespace Token

@[simp]
theorem ordinary_datum {value : Value} {attributes : Attributes} :
    (datum value attributes).Ordinary ↔ value.Ordinary := Iff.rfl

@[simp]
theorem ordinary_integer (n : Int64) : (integer n).Ordinary := rfl

@[simp]
theorem ordinary_boolean (b : Bool) : (boolean b).Ordinary := rfl

@[simp]
theorem ordinary_string (text : String) : (string text).Ordinary := rfl

@[simp]
theorem ordinary_procedureToken {procedure : Procedure} :
    (Token.procedure procedure).Ordinary ↔ procedure.Ordinary := by
  simp [Token.procedure, Token.ofValue, Procedure.Ordinary]

theorem Ordinary.not_primitive {token : Token} (htoken : token.Ordinary) :
    token.isA .primitive = false := by
  cases token with
  | void => rfl
  | datum value attributes =>
    cases value with
    | primitive own => exact absurd htoken (Value.not_ordinary_primitive own)
    | _ => rfl

/-- Plain data are ordinary. -/
theorem Plain.ordinary {token : Token} (hplain : token.Plain) : token.Ordinary := by
  refine every_mono (fun value hvalue => ?_) token hplain
  cases value with
  | primitive own => cases hvalue
  | _ => rfl

end Token

/-! ## Frames -/

/-- What a frame keeps is ordinary, and a visited object is one that its primitive is
made for, with as many elements as the frame says and none before the first. -/
def Frame.Ordinary : Frame → Prop
  | procedure _ body _ | loop body _ | repetition _ body _ | counting _ _ _ body _ =>
    body.Ordinary
  | forAll primitive object limit position body =>
    body.Ordinary ∧ object.Ordinary ∧
      ∃ indexed n, Machine.elementsOf indexed object = some (n, primitive) ∧
        limit = Int64.ofNat n ∧ 0 ≤ position

/-- The object of a loop is an array or a text. -/
theorem Machine.tag_of_elementsOf {indexed : Bool} {object : Token} {n : Nat}
    {primitive : Primitive} (helements : elementsOf indexed object = some (n, primitive)) :
    object.isA .mark = false ∧ object.isA .primitive = false := by
  unfold elementsOf at helements
  split at helements
  · exact ⟨rfl, rfl⟩
  · exact ⟨rfl, rfl⟩
  · cases helements

theorem Frame.Ordinary.shaped {frame : Frame} (hframe : frame.Ordinary) : frame.Shaped := by
  cases frame with
  | procedure | loop | repetition | counting =>
    refine ⟨rfl, fun token hmem => ?_⟩
    simp only [parts, List.mem_cons, List.not_mem_nil, or_false] at hmem
    rcases hmem with rfl | rfl | rfl | rfl | rfl <;> exact ⟨rfl, rfl⟩
  | forAll primitive object limit position body =>
    obtain ⟨-, -, indexed, n, helements, -⟩ := hframe
    have hprimitive := (Machine.primitive_of_elementsOf helements).2
    simp only [List.mem_cons, List.not_mem_nil, or_false] at hprimitive
    refine ⟨by rcases hprimitive with rfl | rfl | rfl | rfl <;> rfl, fun token hmem => ?_⟩
    simp only [parts, List.mem_cons, List.not_mem_nil, or_false] at hmem
    rcases hmem with rfl | rfl | rfl | rfl
    · exact ⟨rfl, rfl⟩
    · exact ⟨rfl, rfl⟩
    · exact ⟨rfl, rfl⟩
    · exact Machine.tag_of_elementsOf helements

theorem Machine.ordinary_of_objectElement? {object element : Token} {position : Int64}
    (hobject : object.Ordinary) (helement : objectElement? object position = some element) :
    element.Ordinary := by
  unfold objectElement? at helement
  split at helement
  · have hitems := Value.ordinary_array.1 (Token.ordinary_datum.1 hobject)
    exact hitems element (elementAt_eq_some helement).1
  · split at helement
    · cases helement
    · obtain ⟨byte, -, rfl⟩ := Option.map_eq_some_iff.1 helement
      rfl
  · cases helement

/-- Before the end of an object there is an element, and the next position is none before
the first. -/
theorem Machine.exists_objectElement? {indexed : Bool} {object : Token} {n : Nat}
    {primitive : Primitive} {position : Int64}
    (helements : elementsOf indexed object = some (n, primitive)) (hfirst : 0 ≤ position)
    (hbefore : ¬ Int64.ofNat n ≤ position) :
    (∃ element, objectElement? object position = some element) ∧ 0 ≤ position + 1 := by
  have hpositive : 0 ≤ position.toInt := by simpa using Int64.le_iff_toInt_le.1 hfirst
  have hlimit : position.toInt < (Int64.ofNat n).toInt :=
    Int64.lt_iff_toInt_lt.1 (Int64.not_le.1 hbefore)
  have hbound : (Int64.ofNat n).toInt ≤ n := by
    rw [Int64.toInt_ofNat', Int.bmod_def, Int64.size]
    split <;> omega
  have hlt : position.toInt.toNat < n := by omega
  have hnonneg : ¬ position < 0 := Int64.not_lt.2 hfirst
  refine ⟨?_, ?_⟩
  · unfold elementsOf at helements
    split at helements
    · obtain ⟨rfl, -⟩ := Prod.mk.inj (Option.some.inj helements)
      exact ⟨_, by rw [objectElement?, elementAt, if_neg hnonneg, List.getElem?_eq_getElem hlt]⟩
    · obtain ⟨rfl, -⟩ := Prod.mk.inj (Option.some.inj helements)
      rename_i text attributes
      have hbyte : position.toInt.toNat < text.toUTF8.size := hlt
      rw [objectElement?, if_neg hnonneg, getElem?_pos text.toUTF8 _ hbyte]
      exact ⟨_, rfl⟩
    · cases helements
  · have hmax := (Int64.ofNat n).toInt_lt
    have hnext : (position + 1).toInt = position.toInt + 1 := by
      have hone : (1 : Int64).toInt = 1 := rfl
      rw [toInt_add_of_range] <;> omega
    rw [Int64.le_iff_toInt_le, hnext]
    simp only [Int64.toInt_zero]
    omega

/-! ## Machines -/

/-- No dictionary holds a primitive. -/
def Store.Ordinary (store : Store) : Prop :=
  ∀ id, ∀ token ∈ (store.dictionary id).tokens, token.Ordinary

namespace Store

theorem ordinary_accepted {store : Store} {target : DictId} {token : Token}
    (htoken : token.Ordinary) : (store.accepted target token).Ordinary := by
  unfold accepted
  split
  · exact htoken
  · cases token <;> rfl

theorem stable_ordinary : Stable Token.Ordinary Store.Ordinary where
  tokens := fun hstore hmem => hstore _ _ hmem
  insert := fun hstore htoken target name id bound hmem => by
    obtain hold | ⟨-, rfl⟩ := mem_tokens_of_insert hmem
    · exact hstore id bound hold
    · exact ordinary_accepted htoken
  within := fun hstore hwithin id token hmem => hstore id token (hwithin.tokens id hmem)

theorem within_touch {store : Store} {id : DictId} {name : Name} :
    (store.touch id name).Within store :=
  .modifyDictionary (by rw [Dictionary.tokens_touch]; exact List.Subset.refl _)

theorem Ordinary.of_quiet_eq {store other : Store} (hstore : store.Ordinary)
    (hquiet : other.quiet = store.quiet) : other.Ordinary := by
  have hother : other.quiet.Ordinary := hquiet ▸ hstore
  exact hother

instance (store : Store) : Decidable store.Ordinary :=
  decidable_of_iff' _ forall_tokens_iff

end Store

/-- The operands, the callback and the dictionaries of a machine hold no primitive. -/
structure Machine.Ordinary (machine : Machine) : Prop where
  operands : ∀ token ∈ machine.operands.items, token.Ordinary
  callback : machine.callback.Ordinary
  store : machine.store.Ordinary

instance (machine : Machine) : Decidable machine.Ordinary :=
  decidable_of_iff
    ((∀ token ∈ machine.operands.items, token.Ordinary) ∧ machine.callback.Ordinary ∧
      machine.store.Ordinary)
    ⟨fun ⟨hoperands, hcallback, hstore⟩ => ⟨hoperands, hcallback, hstore⟩,
      fun hordinary => ⟨hordinary.operands, hordinary.callback, hordinary.store⟩⟩

theorem Machine.Plain.ordinary {machine : Machine} (hplain : machine.Plain) :
    machine.Ordinary where
  operands := fun token hmem => (hplain.operands token hmem).ordinary
  callback := hplain.callback.ordinary
  store := fun id token hmem => (hplain.store.dictionaries id token hmem).ordinary

theorem Restated.ordinary {machine next : Machine} (hrestated : Restated machine next)
    (hmachine : machine.Ordinary) : next.Ordinary where
  operands := by rw [hrestated.operands]; exact hmachine.operands
  callback := by rw [hrestated.callback]; exact hmachine.callback
  store := hmachine.store.of_quiet_eq hrestated.store

end StackLang
