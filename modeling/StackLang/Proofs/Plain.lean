import StackLang.Machine.Creation
import StackLang.Machine.Execution

/-!
# Plain data

Only the machine itself makes primitives, and only an embedding program brings
operators of its own.  A plain token contains neither, at any depth.  A machine
is plain if all tokens are that its operands, its callback and its store hold;
the operators of the language keep it so.
-/

namespace StackLang

/-- Whether a value is neither a primitive nor an operator of the host; what is
inside it does not matter. -/
def Value.isPlain : Value → Bool
  | .primitive _ => false
  | .function _ (.host _) => false
  | _ => true

mutual

/-- Whether a value and all values inside it pass a test. -/
def Value.every (test : Value → Bool) : Value → Bool
  | .procedure id body => test (.procedure id body) && Token.everyOf test body
  | .litProcedure id body => test (.litProcedure id body) && Token.everyOf test body
  | .array items => test (.array items) && Token.everyOf test items
  | .callback action => test (.callback action) && Token.every test action
  | value => test value

/-- Whether all values inside a token pass a test. -/
def Token.every (test : Value → Bool) : Token → Bool
  | .void => true
  | .datum value _ => Value.every test value

/-- Whether all values inside some tokens pass a test. -/
def Token.everyOf (test : Value → Bool) : List Token → Bool
  | [] => true
  | token :: rest => Token.every test token && Token.everyOf test rest

end

/-- The value and all values inside it are such as a program may have. -/
def Value.Plain (value : Value) : Prop :=
  value.every Value.isPlain

/-- All values inside the token are such as a program may have. -/
def Token.Plain (token : Token) : Prop :=
  token.every Value.isPlain

instance (value : Value) : Decidable value.Plain :=
  inferInstanceAs (Decidable (_ = true))

instance (token : Token) : Decidable token.Plain :=
  inferInstanceAs (Decidable (_ = true))

theorem Token.everyOf_iff {test : Value → Bool} {tokens : List Token} :
    Token.everyOf test tokens ↔ ∀ token ∈ tokens, token.every test := by
  induction tokens with
  | nil => simp [Token.everyOf]
  | cons token rest ih => simp [Token.everyOf, ih]

mutual

theorem Value.every_mono {test other : Value → Bool}
    (himp : ∀ value, test value → other value) (value : Value) (hevery : value.every test) :
    value.every other := by
  cases value with
  | procedure id body | litProcedure id body =>
    simp only [Value.every, Bool.and_eq_true] at hevery ⊢
    exact ⟨himp _ hevery.1, Token.everyOf_mono himp body hevery.2⟩
  | array items =>
    simp only [Value.every, Bool.and_eq_true] at hevery ⊢
    exact ⟨himp _ hevery.1, Token.everyOf_mono himp items hevery.2⟩
  | callback action =>
    simp only [Value.every, Bool.and_eq_true] at hevery ⊢
    exact ⟨himp _ hevery.1, Token.every_mono himp action hevery.2⟩
  | _ => exact himp _ hevery

/-- A weaker test passes where a stronger one does. -/
theorem Token.every_mono {test other : Value → Bool}
    (himp : ∀ value, test value → other value) (token : Token) (hevery : token.every test) :
    token.every other := by
  cases token with
  | void => rfl
  | datum value attributes => exact Value.every_mono himp value hevery

theorem Token.everyOf_mono {test other : Value → Bool}
    (himp : ∀ value, test value → other value) (tokens : List Token)
    (hevery : Token.everyOf test tokens) : Token.everyOf other tokens := by
  cases tokens with
  | nil => rfl
  | cons token rest =>
    simp only [Token.everyOf, Bool.and_eq_true] at hevery ⊢
    exact ⟨Token.every_mono himp token hevery.1, Token.everyOf_mono himp rest hevery.2⟩

end

/-- All values inside a procedure pass a test that those inside its token pass. -/
theorem Procedure.every_of_ofToken {test : Value → Bool} {alive : DictId → Bool} {token : Token}
    {procedure : Procedure} (hread : Kind.procedure.ofToken alive token = .ok procedure)
    (htoken : token.every test) : ∀ inner ∈ procedure.body, inner.every test := by
  cases token with
  | void => cases hread
  | datum value attributes =>
    cases value with
    | procedure id body | litProcedure id body =>
      obtain rfl : ⟨id, body⟩ = procedure := Except.ok.inj hread
      exact Token.everyOf_iff.1 (Bool.and_eq_true_iff.1 htoken).2
    | _ => cases hread

namespace Value

@[simp]
theorem plain_procedure {id : BodyId} {body : List Token} :
    (procedure id body).Plain ↔ ∀ token ∈ body, token.Plain := by
  simp [Plain, every, isPlain, Token.everyOf_iff, Token.Plain]

@[simp]
theorem plain_litProcedure {id : BodyId} {body : List Token} :
    (litProcedure id body).Plain ↔ ∀ token ∈ body, token.Plain := by
  simp [Plain, every, isPlain, Token.everyOf_iff, Token.Plain]

@[simp]
theorem plain_array {items : List Token} :
    (array items).Plain ↔ ∀ token ∈ items, token.Plain := by
  simp [Plain, every, isPlain, Token.everyOf_iff, Token.Plain]

@[simp]
theorem plain_callback {action : Token} : (callback action).Plain ↔ action.Plain := by
  simp [Plain, every, isPlain, Token.Plain]

@[simp]
theorem not_plain_primitive (own : Primitive) : ¬ (primitive own).Plain := by
  simp [Plain, every, isPlain]

/-- A plain operator is one of the language. -/
theorem Plain.not_host {name : Name} {operator : Operator}
    (hplain : (function name operator).Plain) (own : Name) : operator ≠ .host own := by
  rintro rfl
  simp [Plain, every, isPlain] at hplain

end Value

namespace Token

@[simp]
theorem plain_void : void.Plain := rfl

@[simp]
theorem plain_ofValue {value : Value} : (ofValue value).Plain ↔ value.Plain := Iff.rfl

@[simp]
theorem plain_integer (n : Int64) : (integer n).Plain := rfl

@[simp]
theorem plain_procedureToken {procedure : Procedure} :
    (Token.procedure procedure).Plain ↔ ∀ token ∈ procedure.body, token.Plain := by
  simp [Token.procedure]

theorem Plain.not_primitive {token : Token} (hplain : token.Plain) :
    token.isA .primitive = false := by
  cases token with
  | void => rfl
  | datum value attributes =>
    cases value with
    | primitive own => exact absurd hplain (Value.not_plain_primitive own)
    | _ => rfl

@[simp]
theorem plain_setWriteable {writeable : Bool} {token : Token} :
    (token.setWriteable writeable).Plain ↔ token.Plain := by
  cases token <;> rfl

end Token

/-! ## Overload trees -/

namespace OverloadTree

theorem mem_functions_of_head? {tree : OverloadTree} {function : Token}
    (hhead : tree.head? = some function) : function ∈ tree.functions := by
  cases tree with
  | leaf bound alternatives =>
    obtain rfl : bound = function := by simpa [head?] using hhead
    simp [functions]
  | empty => simp [head?] at hhead
  | branch slot next alternatives => simp [head?] at hhead

theorem mem_functions_or_eq_of_known {tree : OverloadTree} {fallback : Option Token}
    {function : Token} (hknown : tree.head?.or fallback = some function) :
    function ∈ tree.functions ∨ fallback = some function := by
  obtain hhead | ⟨-, hfallback⟩ := Option.or_eq_some_iff.1 hknown
  · exact .inl (mem_functions_of_head? hhead)
  · exact .inr hfallback

theorem functions_subset_of_follow? {tree next : OverloadTree} {tag : TypeTag}
    (hfollow : tree.follow? tag = some next) : next.functions ⊆ tree.functions := by
  induction tree with
  | empty => simp [follow?] at hfollow
  | leaf bound alternatives ih =>
    exact List.subset_cons_of_subset _ (ih hfollow)
  | branch slot below alternatives _ ih =>
    rw [follow?] at hfollow
    split at hfollow
    · obtain rfl : below = next := by simpa using hfollow
      exact List.subset_append_left _ _
    · exact List.subset_append_of_subset_right _ (ih hfollow)

theorem mem_functions_of_selectFrom {tree : OverloadTree} {level : Nat}
    {fallback : Option Token} {operands : List (Option TypeTag)} {function : Token}
    (hselect : tree.selectFrom level fallback operands = .ok function) :
    function ∈ tree.functions ∨ fallback = some function := by
  induction operands generalizing tree level fallback with
  | nil =>
    rw [selectFrom] at hselect
    cases hknown : tree.head?.or fallback with
    | none => simp [hknown] at hselect
    | some known =>
      obtain rfl : known = function := by simpa [hknown] using hselect
      exact mem_functions_or_eq_of_known hknown
  | cons operand below ih =>
    rw [selectFrom] at hselect
    cases hfollow : operand.bind fun tag => tree.follow? tag with
    | none =>
      rw [hfollow] at hselect
      cases hknown : tree.head?.or fallback with
      | none => simp [hknown] at hselect
      | some known =>
        obtain rfl : known = function := by simpa [hknown] using hselect
        exact mem_functions_or_eq_of_known hknown
    | some next =>
      rw [hfollow] at hselect
      obtain ⟨tag, -, hnext⟩ := Option.bind_eq_some_iff.1 hfollow
      obtain hmem | hknown := ih hselect
      · exact .inl (functions_subset_of_follow? hnext hmem)
      · exact mem_functions_or_eq_of_known hknown

theorem mem_functions_of_select {tree : OverloadTree} {operands : List (Option TypeTag)}
    {function : Token} (hselect : tree.select operands = .ok function) :
    function ∈ tree.functions := by
  simpa using mem_functions_of_selectFrom hselect

theorem functions_single (function : Token) (signature : Signature) :
    (single function signature).functions = [function] := by
  induction signature with
  | nil => rfl
  | cons slot rest ih => simp [single, functions, ih]

/-- An addition adds the function and keeps the others. -/
theorem Adds.functions_perm {function : Token} {signature : Signature}
    {tree added : OverloadTree} (hadds : Adds function tree signature added) :
    added.functions.Perm (function :: tree.functions) := by
  induction hadds with
  | alone => rw [functions_single, functions]
  | @behindLeaf bound _ _ _ _ _ ih => exact (ih.cons bound).trans (List.Perm.swap function bound _)
  | behindSlot _ ih => exact ih.append_right _
  | beforeWildcard _ =>
    rw [functions, functions_single]
    rfl
  | behindBranch _ _ _ ih => exact (ih.append_left _).trans List.perm_middle

end OverloadTree

/-! ## Dictionaries and the store -/

namespace Dictionary

theorem mem_entries_of_get? {dictionary : Dictionary} {name : Name} {slot : Slot}
    (hget : dictionary.get? name = some slot) : (name, slot) ∈ dictionary.entries := by
  obtain ⟨before, behind, hentries, -⟩ := List.lookup_eq_some_iff.1 hget
  simp [hentries]

theorem mem_tokens_of_get? {dictionary : Dictionary} {name : Name} {slot : Slot}
    (hget : dictionary.get? name = some slot) : slot.token ∈ dictionary.tokens :=
  List.mem_map_of_mem (mem_entries_of_get? hget)

@[simp]
theorem tokens_touch (name : Name) (dictionary : Dictionary) :
    (dictionary.touch name).tokens = dictionary.tokens := by
  simp only [touch, modify, mapSlots, tokens, List.map_map]
  refine List.map_congr_left fun entry _ => ?_
  by_cases h : entry.1 = name <;> simp [h, Slot.markRead]

theorem mem_tokens_of_insert {dictionary : Dictionary} {name : Name} {token bound : Token}
    (hmem : bound ∈ (dictionary.insert name token).tokens) :
    bound = token ∨ bound ∈ dictionary.tokens := by
  unfold insert at hmem
  split at hmem
  · simpa [tokens, or_comm] using hmem
  · simp only [modify, mapSlots, tokens, List.map_map, List.mem_map, Function.comp] at hmem
    obtain ⟨entry, hentry, rfl⟩ := hmem
    split
    · exact .inl rfl
    · exact .inr (List.mem_map_of_mem hentry)

end Dictionary

namespace Store

/-- What a changed dictionary holds was there before or comes from the change. -/
theorem mem_tokens_of_modifyDictionary {store : Store} {id other : DictId}
    {f : Dictionary → Dictionary} {token : Token}
    (hmem : token ∈ ((store.modifyDictionary id f).dictionary other).tokens) :
    token ∈ (store.dictionary other).tokens ∨ token ∈ (f (store.dictionary id)).tokens := by
  by_cases hother : other = id
  · subst hother
    by_cases hknown : other.index < store.dictionaries.size
    · exact .inr (by rwa [dictionary_modifyDictionary_self f hknown] at hmem)
    · have hsame : (store.modifyDictionary other f).dictionary other =
          store.dictionary other := by
        simp [dictionary, modifyDictionary, Nat.le_of_not_lt hknown]
      exact .inl (hsame ▸ hmem)
  · exact .inl (by rwa [dictionary_modifyDictionary_ne f hother] at hmem)

/-- All tokens in the dictionaries and tables are plain. -/
structure Plain (store : Store) : Prop where
  dictionaries : ∀ id, ∀ token ∈ (store.dictionary id).tokens, token.Plain
  tables : ∀ id, ∀ token ∈ (store.table id).functions, token.Plain

/-- What holds of the tokens of all dictionaries can be checked one by one. -/
theorem forall_tokens_iff {store : Store} {good : Token → Prop} :
    (∀ id, ∀ token ∈ (store.dictionary id).tokens, good token) ↔
      ∀ dictionary ∈ store.dictionaries.toList, ∀ token ∈ dictionary.tokens, good token := by
  constructor
  · intro hgood dictionary hmem token htoken
    obtain ⟨index, hindex⟩ := List.getElem?_of_mem hmem
    refine hgood ⟨index⟩ token ?_
    simpa [Store.dictionary, ← Array.getElem?_toList, hindex] using htoken
  · intro hgood id token htoken
    rw [Store.dictionary, ← Array.getElem?_toList] at htoken
    cases hfound : store.dictionaries.toList[id.index]? with
    | none => simp [hfound, Dictionary.empty, Dictionary.tokens] at htoken
    | some dictionary =>
      refine hgood dictionary (List.mem_of_getElem? hfound) token ?_
      simpa [hfound] using htoken

/-- What holds of the functions of all tables can be checked one by one. -/
theorem forall_functions_iff {store : Store} {good : Token → Prop} :
    (∀ id, ∀ token ∈ (store.table id).functions, good token) ↔
      ∀ tree ∈ store.tables.toList, ∀ token ∈ tree.functions, good token := by
  constructor
  · intro hgood tree hmem token htoken
    obtain ⟨index, hindex⟩ := List.getElem?_of_mem hmem
    refine hgood ⟨index⟩ token ?_
    simpa [Store.table, ← Array.getElem?_toList, hindex] using htoken
  · intro hgood id token htoken
    rw [Store.table, ← Array.getElem?_toList] at htoken
    cases hfound : store.tables.toList[id.index]? with
    | none => simp [hfound, OverloadTree.functions] at htoken
    | some tree =>
      refine hgood tree (List.mem_of_getElem? hfound) token ?_
      simpa [hfound] using htoken

theorem plain_iff {store : Store} :
    store.Plain ↔
      (∀ dictionary ∈ store.dictionaries.toList, ∀ token ∈ dictionary.tokens, token.Plain) ∧
        ∀ tree ∈ store.tables.toList, ∀ token ∈ tree.functions, token.Plain := by
  rw [← forall_tokens_iff, ← forall_functions_iff]
  exact ⟨fun hplain => ⟨hplain.dictionaries, hplain.tables⟩, fun ⟨hdictionaries, htables⟩ =>
    ⟨hdictionaries, htables⟩⟩

instance (store : Store) : Decidable store.Plain :=
  decidable_of_iff' _ plain_iff

theorem Plain.slot {store : Store} (hplain : store.Plain) {id : DictId} {name : Name}
    {slot : Slot} (hslot : store.slot? id name = some slot) : slot.token.Plain :=
  hplain.dictionaries id _ (Dictionary.mem_tokens_of_get? hslot)

theorem Plain.select {store : Store} (hplain : store.Plain) {id : TableId}
    {operands : List (Option TypeTag)} {function : Token}
    (hselect : (store.table id).select operands = .ok function) : function.Plain :=
  hplain.tables id _ (OverloadTree.mem_functions_of_select hselect)

theorem Plain.report {store : Store} (hplain : store.Plain) (event : Event) :
    (store.report event).Plain :=
  ⟨hplain.dictionaries, hplain.tables⟩

theorem Plain.modifyDictionary {store : Store} (hplain : store.Plain) (id : DictId)
    {f : Dictionary → Dictionary}
    (hf : ∀ token ∈ (f (store.dictionary id)).tokens, token.Plain) :
    (store.modifyDictionary id f).Plain := by
  refine ⟨fun other token hmem => ?_, hplain.tables⟩
  obtain hold | hnew := mem_tokens_of_modifyDictionary hmem
  · exact hplain.dictionaries other token hold
  · exact hf token hnew

theorem Plain.touch {store : Store} (hplain : store.Plain) (id : DictId) (name : Name) :
    (store.touch id name).Plain := by
  refine hplain.modifyDictionary id fun token hmem => ?_
  rw [Dictionary.tokens_touch] at hmem
  exact hplain.dictionaries id token hmem

theorem Plain.insert {store : Store} (hplain : store.Plain) (target : DictId) (name : Name)
    {token : Token} (htoken : token.Plain) : (store.insert target name token).Plain := by
  have hwrite : ∀ (other : Store) (written : Token), other.Plain → written.Plain →
      (other.modifyDictionary target (Dictionary.insert name written)).Plain := by
    intro other written hother hwritten
    refine hother.modifyDictionary target fun bound hmem => ?_
    obtain rfl | hold := Dictionary.mem_tokens_of_insert hmem
    · exact hwritten
    · exact hother.dictionaries target bound hold
  unfold Store.insert
  split
  · exact hwrite store token hplain htoken
  · refine hwrite _ _ (hplain.report _) ?_
    cases token <;> rfl

end Store

/-- All tokens that the operands, the callback and the store of a machine hold are
plain. -/
structure Machine.Plain (machine : Machine) : Prop where
  operands : ∀ token ∈ machine.operands.items, token.Plain
  callback : machine.callback.Plain
  store : machine.store.Plain

instance (machine : Machine) : Decidable machine.Plain :=
  decidable_of_iff
    ((∀ token ∈ machine.operands.items, token.Plain) ∧ machine.callback.Plain ∧
      machine.store.Plain)
    ⟨fun ⟨hoperands, hcallback, hstore⟩ => ⟨hoperands, hcallback, hstore⟩,
      fun hplain => ⟨hplain.operands, hplain.callback, hplain.store⟩⟩

end StackLang
