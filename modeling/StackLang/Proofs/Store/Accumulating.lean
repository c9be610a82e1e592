import StackLang.Proofs.Store.Following

/-!
# Adding to an array of doubles

Values are added to the elements of an array one by one, and whether an element is a double
is only seen when its turn comes.  So an array that has something else behind its doubles
is left with the sums of those doubles when the addition fails.  Every other failure leaves
all entries as they were, and a success adds every value.
-/

namespace StackLang

open Kind (double?)

namespace Store

variable {store next : Store} {id : DictId} {name : Name} {token : Token}
  {items sums : List Token} {values : List Float} {attributes : Attributes} {error : Error}

/-! ## Sums of elements -/

/-- Each element is a double, to which the value at its place was added. -/
structure Summed (items : List Token) (values : List Float) (sums : List Token) : Prop where
  length_items : items.length = values.length
  length_sums : sums.length = values.length
  sum : ∀ (i : Nat) (hi : i < values.length), ∃ x attributes,
    items[i]? = some (.datum (.double x) attributes) ∧
      sums[i]? = some (.datum (.double (x + values[i])) attributes)

/-- Values were added to one double or more, and then came an element of another type.
That element and all behind it are as they were. -/
inductive CutShort (items : List Token) (values : List Float) (sums : List Token)
    (error : Error) : Prop where
  | intro (front : List Token) (other : Token) (rest : List Token) (added unused : List Float)
      (reached : List Token) (begun : front ≠ []) (summed : Summed front added reached)
      (strange : double? other = none) (items_eq : items = front ++ other :: rest)
      (values_eq : values = added ++ unused) (sums_eq : sums = reached ++ other :: rest)
      (error_eq : error = .typeMismatch "doubletype" other.typeName)

theorem summed_nil : Summed [] [] [] where
  length_items := rfl
  length_sums := rfl
  sum := by simp

theorem Summed.cons (hsummed : Summed items values sums) (x value : Float) :
    Summed (.datum (.double x) attributes :: items) (value :: values)
      (.datum (.double (x + value)) attributes :: sums) where
  length_items := by simp [hsummed.length_items]
  length_sums := by simp [hsummed.length_sums]
  sum := fun i hi => by
    cases i with
    | zero => exact ⟨x, attributes, rfl, rfl⟩
    | succ i => exact hsummed.sum i (Nat.lt_of_succ_lt_succ hi)

theorem Summed.doubles (hsummed : Summed items values sums) :
    ∀ item ∈ items, (double? item).isSome := by
  intro item hitem
  obtain ⟨i, hi, rfl⟩ := List.getElem_of_mem hitem
  obtain ⟨x, attributes, hold, -⟩ := hsummed.sum i (hsummed.length_items ▸ hi)
  rw [List.getElem?_eq_getElem hi, Option.some.injEq] at hold
  rw [hold]
  rfl

theorem CutShort.cons (hcut : CutShort items values sums error) (x value : Float) :
    CutShort (.datum (.double x) attributes :: items) (value :: values)
      (.datum (.double (x + value)) attributes :: sums) error := by
  obtain ⟨front, other, rest, added, unused, reached, -, hsummed, hstrange, rfl, rfl, rfl, rfl⟩ :=
    hcut
  exact ⟨_, other, rest, _, unused, _, List.cons_ne_nil _ _, hsummed.cons x value, hstrange, rfl,
    rfl, rfl, rfl⟩

theorem CutShort.strange (hcut : CutShort items values sums error) :
    ∃ other ∈ items, double? other = none := by
  obtain ⟨front, other, rest, added, unused, reached, -, -, hstrange, rfl, -⟩ := hcut
  exact ⟨other, by simp, hstrange⟩

theorem double?_eq_some {x : Float} (hdouble : double? token = some x) :
    ∃ attributes, token = .datum (.double x) attributes := by
  unfold double? at hdouble
  split at hdouble
  case h_1 attributes => exact ⟨attributes, by rw [Option.some.inj hdouble]⟩
  case h_2 => cases hdouble

theorem addUpTo_strange (value : Float) (hstrange : double? token = none) :
    addUpTo (token :: items) (value :: values) =
      (token :: items, some (.typeMismatch "doubletype" token.typeName)) := by
  unfold addUpTo
  split
  case h_1 heq hvalues =>
    obtain ⟨rfl, rfl⟩ := List.cons.inj heq
    cases hstrange
  case h_2 heq hvalues =>
    obtain ⟨rfl, rfl⟩ := List.cons.inj heq
    rfl
  case h_3 hmore => exact absurd rfl (hmore token items value values rfl)

/-- With a value for every element, all of them are added, or the first element is refused,
or a later one is. -/
theorem addUpTo_cases (hlength : items.length = values.length) :
    (∃ sums, addUpTo items values = (sums, none) ∧ Summed items values sums) ∨
      (∃ first rest, items = first :: rest ∧ double? first = none ∧ addUpTo items values =
        (items, some (.typeMismatch "doubletype" first.typeName))) ∨
      ∃ sums error, addUpTo items values = (sums, some error) ∧
        CutShort items values sums error := by
  induction items generalizing values with
  | nil =>
    obtain rfl := List.length_eq_zero_iff.1 hlength.symm
    exact .inl ⟨[], rfl, summed_nil⟩
  | cons item items ih =>
    obtain ⟨value, values, rfl⟩ := List.exists_cons_of_length_eq_add_one hlength.symm
    cases hdouble : double? item with
    | none => exact .inr (.inl ⟨item, items, rfl, hdouble, addUpTo_strange value hdouble⟩)
    | some x =>
      obtain ⟨attributes, rfl⟩ := double?_eq_some hdouble
      obtain ⟨sums, hsums, hsummed⟩ | ⟨first, rest, rfl, hstrange, hsums⟩ |
        ⟨sums, error, hsums, hcut⟩ := ih (Nat.succ.inj hlength)
      · exact .inl ⟨_, by rw [addUpTo, hsums], hsummed.cons x value⟩
      · refine .inr (.inr ⟨_, _, by rw [addUpTo, hsums], ?_⟩)
        exact ⟨[_], first, rest, [value], values, _, List.cons_ne_nil _ _, summed_nil.cons x value,
          hstrange, rfl, rfl, rfl, rfl⟩
      · exact .inr (.inr ⟨_, error, by rw [addUpTo, hsums], hcut.cons x value⟩)

end Store

/-! ## Writing back what is in a slot -/

namespace Dictionary

theorem modify_eq_self {dictionary : Dictionary} {name : Name} {slot : Slot} {f : Slot → Slot}
    (hslot : dictionary.get? name = some slot) (hf : f slot = slot) :
    dictionary.modify name f = dictionary := by
  have hmem := mem_entries_of_get? hslot
  refine ext ((List.map_congr_left fun entry hentry => ?_).trans (List.map_id _))
  by_cases hname : entry.1 = name
  · obtain rfl := List.inj_on_of_nodup_map dictionary.names_nodup hentry hmem hname
    simp [hf]
  · simp [hname]

end Dictionary

namespace Store

variable {store next : Store} {id : DictId} {name : Name} {slot : Slot} {items sums : List Token}
  {values : List Float} {error : Error}

theorem modifyDictionary_eq_self {f : Dictionary → Dictionary}
    (hf : f (store.dictionary id) = store.dictionary id) :
    store.modifyDictionary id f = store := by
  have harray : store.dictionaries.modify id.index f = store.dictionaries := by
    refine Array.ext (Array.size_modify ..) fun i hmodified hi => ?_
    rw [Array.getElem_modify]
    split
    case isFalse => rfl
    case isTrue hindex =>
      subst hindex
      simpa [dictionary, hi] using hf
  rw [modifyDictionary, harray]

theorem slot?_touch (hslot : store.slot? id name = some slot) :
    (store.touch id name).slot? id name = some slot.markRead := by
  have hlt : id.index < store.dictionaries.size := by
    by_contra hlarge
    rw [slot?, dictionary_eq_empty (Nat.le_of_not_lt hlarge)] at hslot
    cases hslot
  rw [slot?, touch, dictionary_modifyDictionary_self _ hlt, Dictionary.touch,
    Dictionary.get?_modify_self, ← slot?, hslot, Option.map_some]

theorem setToken_touch (hslot : store.slot? id name = some slot) :
    (store.touch id name).setToken id name slot.token = store.touch id name :=
  modifyDictionary_eq_self (Dictionary.modify_eq_self (slot?_touch hslot) rfl)

/-! ## The addition -/

theorem run_then_read {rest : Token → StoreAction Unit} :
    (read id name >>= rest).run store = match store.slot? id name with
      | none => .error (.undefinedName name.text) store
      | some slot => (rest slot.token).run (store.touch id name) := by
  have hread : (read id name).run store = _ := run_read
  rw [EStateM.run] at hread
  simp only [EStateM.run, bind, EStateM.bind, hread]
  cases store.slot? id name <;> rfl

/-- Values can be added to an empty array and to one that has a double for each of them. -/
def Addable (values : List Float) (entry : Option Token) : Prop :=
  ∃ items attributes, entry = some (.datum (.array items) attributes) ∧
    (items = [] ∨ items.length = values.length ∧ ∀ item ∈ items, (double? item).isSome)

/-- How the addition of values to the array that a name is bound to ends. -/
inductive Accumulation (store : Store) (id : DictId) (name : Name) (values : List Float) :
    EStateM.Result Error Store Unit → Prop where
  | added (items : List Token) (attributes : Attributes) (sums : List Token)
      (entry : (store.dictionary id).peek? name = some (.datum (.array items) attributes))
      (sum : items = [] ∧ sums = values.map Token.double ∨ Summed items values sums) :
      Accumulation store id name values (.ok ()
        ((store.touch id name).setToken id name (.datum (.array sums) attributes)))
  | refused (error : Error) (next : Store)
      (refusal : ¬ Addable values ((store.dictionary id).peek? name))
      (unchanged : next = store ∨ next = store.touch id name) :
      Accumulation store id name values (.error error next)
  | cutShort (items : List Token) (attributes : Attributes) (sums : List Token) (error : Error)
      (entry : (store.dictionary id).peek? name = some (.datum (.array items) attributes))
      (cut : CutShort items values sums error) :
      Accumulation store id name values (.error error
        ((store.touch id name).setToken id name (.datum (.array sums) attributes)))

theorem not_addable_of_strange {attributes : Attributes} {other : Token} (hother : other ∈ items)
    (hstrange : double? other = none) :
    ¬ Addable values (some (.datum (.array items) attributes)) := by
  rintro ⟨_, _, ⟨⟩, rfl | ⟨-, hdoubles⟩⟩
  · cases hother
  · have hdouble := hdoubles other hother
    rw [hstrange] at hdouble
    cases hdouble

theorem accumulation_run (store : Store) (id : DictId) (name : Name) (values : List Float) :
    Accumulation store id name values ((accumulate id name values).run store) := by
  rw [accumulate, run_then_read]
  cases hslot : store.slot? id name with
  | none =>
    refine .refused _ _ ?_ (.inl rfl)
    rw [Dictionary.peek?, ← slot?, hslot]
    rintro ⟨_, _, ⟨⟩, -⟩
  | some slot =>
    have hentry : (store.dictionary id).peek? name = some slot.token := by
      rw [Dictionary.peek?, ← slot?, hslot, Option.map_some]
    have hsame := setToken_touch hslot
    obtain ⟨token, accessed⟩ := slot
    dsimp only at hentry hsame ⊢
    split
    case h_1 attributes => exact .added [] attributes _ hentry (.inl ⟨rfl, rfl⟩)
    case h_2 items attributes hfilled =>
      split
      case isTrue hlength =>
        refine .refused _ _ ?_ (.inr rfl)
        rw [hentry]
        rintro ⟨_, _, ⟨⟩, rfl | ⟨hequal, -⟩⟩
        · exact hfilled rfl
        · exact hlength hequal
      case isFalse hlength =>
        obtain ⟨sums, hsums, hsummed⟩ | ⟨first, rest, rfl, hstrange, hsums⟩ |
          ⟨sums, error, hsums, hcut⟩ := addUpTo_cases (not_not.1 hlength)
        · rw [hsums]
          exact .added items attributes sums hentry (.inr hsummed)
        · rw [hsums]
          refine .refused _ _ ?_ (.inr hsame)
          rw [hentry]
          exact not_addable_of_strange (List.mem_cons_self ..) hstrange
        · rw [hsums]
          exact .cutShort items attributes sums error hentry hcut
    case h_3 harray hother =>
      refine .refused _ _ ?_ (.inr rfl)
      rw [hentry]
      rintro ⟨items, attributes, ⟨⟩, -⟩
      exact hother _ _ rfl

/-- The addition succeeds exactly on an empty array and on one that has a double for every
value.  Then the value at each place was added to the double there, and nothing else has
changed.  A failure changes nothing but the flag of the entry, unless it comes behind
doubles of an array that is as long as the values: then these were added to. -/
theorem accumulate_outcome (store : Store) (id : DictId) (name : Name) (values : List Float) :
    let entry := (store.dictionary id).peek? name
    let outcome := (accumulate id name values).run store
    ((∃ next, outcome = .ok () next) ↔ Addable values entry) ∧
      (∀ next, outcome = .ok () next → ∃ items attributes sums,
        entry = some (.datum (.array items) attributes) ∧
          (items = [] ∧ sums = values.map Token.double ∨ Summed items values sums) ∧
          next = (store.touch id name).setToken id name (.datum (.array sums) attributes)) ∧
      ∀ error next, outcome = .error error next →
        (next = store ∨ next = store.touch id name) ∨ ∃ items attributes sums,
          entry = some (.datum (.array items) attributes) ∧ CutShort items values sums error ∧
            next = (store.touch id name).setToken id name (.datum (.array sums) attributes) := by
  intro entry outcome
  have houtcome : Accumulation store id name values outcome :=
    accumulation_run store id name values
  clear_value outcome
  refine ⟨⟨?_, ?_⟩, ?_, ?_⟩
  · rintro ⟨next, hok⟩
    rw [hok] at houtcome
    obtain ⟨items, attributes, sums, hentry, ⟨hempty, -⟩ | hsummed⟩ := houtcome
    · exact ⟨items, attributes, hentry, .inl hempty⟩
    · exact ⟨items, attributes, hentry, .inr ⟨hsummed.length_items, hsummed.doubles⟩⟩
  · intro haddable
    cases houtcome with
    | added items attributes sums hentry hsum => exact ⟨_, rfl⟩
    | refused error next hrefusal hunchanged => exact absurd haddable hrefusal
    | cutShort items attributes sums error hentry hcut =>
      obtain ⟨other, hother, hstrange⟩ := hcut.strange
      have hlisted : Addable values (some (.datum (.array items) attributes)) := hentry ▸ haddable
      exact absurd hlisted (not_addable_of_strange hother hstrange)
  · intro next hok
    rw [hok] at houtcome
    obtain ⟨items, attributes, sums, hentry, hsum⟩ := houtcome
    exact ⟨items, attributes, sums, hentry, hsum, rfl⟩
  · intro error next herror
    rw [herror] at houtcome
    cases houtcome with
    | refused _ _ hrefusal hunchanged => exact .inl hunchanged
    | cutShort items attributes sums _ hentry hcut =>
      exact .inr ⟨items, attributes, sums, hentry, hcut, rfl⟩

/-- A dictionary whose only entry is an array. -/
def withArray (items : List Token) : Store where
  dictionaries := #[Dictionary.empty.insert "k" (.array items)]

/-- All elements of an array of doubles are added to.  Where something else stands behind two
doubles, these two have been added to when the addition fails. -/
theorem accumulate_outcome_mixed :
    let doubles : List Token := [.double 1.0, .double 2.0, .double 3.0]
    let mixed : List Token := [.double 1.0, .double 2.0, .boolean true, .double 3.0]
    (∃ next sums, (accumulate ⟨0⟩ "k" [0.5, 0.25, 1.0]).run (withArray doubles) = .ok () next ∧
      Summed doubles [0.5, 0.25, 1.0] sums ∧
      next = ((withArray doubles).touch ⟨0⟩ "k").setToken ⟨0⟩ "k" (.array sums)) ∧
    ∃ error next sums, (accumulate ⟨0⟩ "k" [0.5, 0.25, 1.0, 1.0]).run (withArray mixed) =
        .error error next ∧
      CutShort mixed [0.5, 0.25, 1.0, 1.0] sums error ∧
      next = ((withArray mixed).touch ⟨0⟩ "k").setToken ⟨0⟩ "k" (.array sums) := by
  intro doubles mixed
  constructor
  · obtain ⟨hiff, hadded, -⟩ :=
      accumulate_outcome (withArray doubles) ⟨0⟩ "k" [0.5, 0.25, 1.0]
    have hdoubles : ∀ item ∈ doubles, (double? item).isSome := List.all_eq_true.1 rfl
    obtain ⟨next, hok⟩ := hiff.2 ⟨doubles, {}, rfl, .inr ⟨rfl, hdoubles⟩⟩
    obtain ⟨items, attributes, sums, hentry, hsum, rfl⟩ := hadded next hok
    cases hentry
    obtain ⟨hempty, -⟩ | hsummed := hsum
    · exact absurd hempty (List.cons_ne_nil _ _)
    · exact ⟨_, sums, hok, hsummed, rfl⟩
  · obtain ⟨-, -, hfailed⟩ :=
      accumulate_outcome (withArray mixed) ⟨0⟩ "k" [0.5, 0.25, 1.0, 1.0]
    obtain hunchanged | ⟨items, attributes, sums, hentry, hcut, hnext⟩ := hfailed _ _ rfl
    · -- The first element is no longer what it was.
      have hkept : some (Token.array
          [.double (1.0 + 0.5), .double (2.0 + 0.25), .boolean true, .double 3.0]) =
          some (.array mixed) := by
        obtain hsame | hsame := hunchanged <;>
          exact congrArg (fun store : Store => (store.dictionary ⟨0⟩).peek? "k") hsame
      have hsum : (1.0 : Float) + 0.5 ≠ 1.0 := by decide
      injection hkept with harray
      injection harray with hvalue
      injection hvalue with hitems
      injection hitems with hfirst
      injection hfirst with hdouble
      injection hdouble with hequal
      exact absurd hequal hsum
    · cases hentry
      exact ⟨_, _, sums, rfl, hcut, hnext⟩

/-- An addition that fails at the second element has changed the first one. -/
theorem accumulate_error_changes :
    ¬ ∀ (store : Store) (id : DictId) (name : Name) (values : List Float) (error : Error)
      (next : Store), (accumulate id name values).run store = .error error next →
        ∀ other, (next.dictionary id).peek? other = (store.dictionary id).peek? other := by
  intro hunchanged
  have hsums : some (Token.array [.double (1.0 + 1.0), .boolean true]) =
      some (.array [.double 1.0, .boolean true]) :=
    hunchanged (withArray [.double 1.0, .boolean true]) ⟨0⟩ "k" [1.0, 1.0] _ _ rfl "k"
  have hsum : (1.0 : Float) + 1.0 ≠ 1.0 := by decide
  injection hsums with harray
  injection harray with hvalue
  injection hvalue with hitems
  injection hitems with hfirst
  injection hfirst with hdouble
  injection hdouble with hequal
  exact hsum hequal

end Store

end StackLang
