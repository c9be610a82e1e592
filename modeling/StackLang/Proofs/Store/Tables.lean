import StackLang.Proofs.Store.Bindings
import StackLang.Proofs.Store.Rendering

/-!
# Tables of dictionaries

A table lists the entries of a dictionary by name.  The order of names is total and ties no
two of them, so there is one order only in which the entries can stand.  Hence a table shows
what the names are bound to, and nothing of how that came about: neither the order in which
names came and went, nor whether an entry was read.
-/

namespace StackLang

/-! ## The order of names -/

namespace Name

variable {left middle right : Name}

theorem cmp_eq_compareLex :
    cmp = compareLex (compareOn folded) (compareOn fun name => name.text.toList) := rfl

instance : Std.TransCmp cmp := by
  rw [cmp_eq_compareLex]
  infer_instance

theorem eq_of_toList_eq (heq : left.text.toList = right.text.toList) : left = right := by
  obtain ⟨left⟩ := left
  obtain ⟨right⟩ := right
  exact congrArg Name.mk (String.toList_injective heq)

/-- Names that are ordered alike without regard to case are told apart by their texts. -/
instance : Std.LawfulEqCmp cmp where
  eq_of_compare heq := eq_of_toList_eq (Std.LawfulEqOrd.eq_of_compare (Ordering.then_eq_eq.1 heq).2)

theorem cmp_eq_iff_text_eq : cmp left right = .eq ↔ left.text = right.text := by
  rw [Std.LawfulEqCmp.compare_eq_iff_eq]
  exact ⟨congrArg text, fun htext => eq_of_toList_eq (congrArg String.toList htext)⟩

theorem precedes_trans (hleft : left.precedes middle) (hright : middle.precedes right) :
    left.precedes right :=
  Std.TransCmp.isLE_trans hleft hright

theorem precedes_total (left right : Name) : left.precedes right ∨ right.precedes left := by
  have hswap : cmp right left = (cmp left right).swap := Std.OrientedCmp.eq_swap
  rw [precedes, precedes, hswap]
  cases cmp left right <;> simp

theorem cmp_eq_lt_of_precedes (hle : left.precedes right) (hne : left ≠ right) :
    cmp left right = .lt := by
  have hcases := Ordering.isLE_iff_eq_lt_or_eq_eq.1 hle
  exact hcases.resolve_right fun heq => hne (Std.LawfulEqCmp.eq_of_compare heq)

end Name

/-! ## Values, and what they are stored with -/

mutual

/-- A value without the attributes and the numbers of procedure bodies inside it. -/
def Value.stripped : Value → Value
  | .procedure _ body => .procedure ⟨0⟩ (Token.allStripped body)
  | .litProcedure _ body => .litProcedure ⟨0⟩ (Token.allStripped body)
  | .array items => .array (Token.allStripped items)
  | .callback action => .callback (Token.stripped action)
  | value => value

/-- A token without attributes, at any depth. -/
def Token.stripped : Token → Token
  | .void => .void
  | .datum value _ => .datum (Value.stripped value) {}

/-- Tokens without attributes, at any depth. -/
def Token.allStripped : List Token → List Token
  | [] => []
  | token :: rest => Token.stripped token :: Token.allStripped rest

end

@[simp]
theorem Value.tag_stripped (value : Value) : value.stripped.tag = value.tag := by
  cases value <;> rfl

@[simp]
theorem Token.typeName_stripped (token : Token) : token.stripped.typeName = token.typeName := by
  cases token with
  | void => rfl
  | datum value attributes => exact congrArg TypeTag.typeName value.tag_stripped

section Rendering

variable (expand : DictId → Option String)

mutual

theorem Value.render?_stripped (pretty : Bool) (value : Value) :
    value.stripped.render? expand pretty = value.render? expand pretty := by
  cases value with
  | procedure id body | litProcedure id body =>
    simp only [Value.stripped, Value.render?, Token.renderAll?_allStripped body]
  | array items => simp only [Value.stripped, Value.render?, Token.renderAll?_allStripped items]
  | callback action =>
    simp only [Value.stripped, Value.render?, Token.renderOr?_stripped pretty "void" action]
  | _ => rfl

theorem Token.renderOr?_stripped (pretty : Bool) (void : String) (token : Token) :
    token.stripped.renderOr? expand pretty void = token.renderOr? expand pretty void := by
  cases token with
  | void => rfl
  | datum value attributes => exact value.render?_stripped pretty

theorem Token.renderAll?_allStripped (tokens : List Token) :
    Token.renderAll? expand (Token.allStripped tokens) = Token.renderAll? expand tokens := by
  match tokens with
  | [] => rfl
  | [token] => exact token.renderOr?_stripped true voidText
  | token :: next :: rest =>
    have hrest := Token.renderAll?_allStripped (next :: rest)
    simp only [Token.allStripped] at hrest ⊢
    simp only [Token.renderAll?, Token.renderOr?_stripped true voidText token, hrest]

end

theorem Token.display?_stripped (token : Token) :
    token.stripped.display? expand = token.display? expand :=
  token.renderOr?_stripped expand false voidText

end Rendering

/-! ## The rows of a table -/

namespace Dictionary

variable {dictionary first second : Dictionary} {name : Name} {token : Token}

theorem get?_of_mem_entries {slot : Slot} (hmem : (name, slot) ∈ dictionary.entries) :
    dictionary.get? name = some slot := by
  cases hget : dictionary.get? name with
  | none => exact absurd (List.mem_map_of_mem hmem) (get?_eq_none_iff.1 hget)
  | some other =>
    have hsame := List.inj_on_of_nodup_map dictionary.names_nodup hmem
      (mem_entries_of_get? hget) rfl
    rw [(Prod.mk.inj hsame).2]

/-- The names with their values in the order of a table. -/
def tabled (dictionary : Dictionary) : List (Name × Token) :=
  dictionary.sortedEntries.map fun entry => (entry.1, entry.2.token.stripped)

theorem sortedEntries_perm : dictionary.sortedEntries.Perm dictionary.entries :=
  List.mergeSort_perm ..

/-- No name stands in two rows, so of two rows one comes strictly first. -/
theorem sortedEntries_increasing :
    dictionary.sortedEntries.Pairwise fun above below => Name.cmp above.1 below.1 = .lt := by
  have hsorted : dictionary.sortedEntries.Pairwise fun above below => above.1.precedes below.1 := by
    refine List.pairwise_mergeSort (fun above between below => ?_) (fun above below => ?_) _
    · exact Name.precedes_trans
    · exact Bool.or_eq_true_iff.2 (Name.precedes_total above.1 below.1)
  have hnodup : dictionary.sortedEntries.Pairwise fun above below => above.1 ≠ below.1 :=
    List.pairwise_map.1 ((sortedEntries_perm.map Prod.fst).nodup_iff.2 dictionary.names_nodup)
  exact (hsorted.and hnodup).imp fun ⟨hle, hne⟩ => Name.cmp_eq_lt_of_precedes hle hne

theorem tabled_increasing :
    dictionary.tabled.Pairwise fun above below => Name.cmp above.1 below.1 = .lt :=
  List.pairwise_map.2 sortedEntries_increasing

theorem mem_tabled_iff :
    (name, token) ∈ dictionary.tabled ↔
      (dictionary.peek? name).map Token.stripped = some token := by
  rw [tabled, (sortedEntries_perm.map _).mem_iff, List.mem_map, peek?, Option.map_map,
    Option.map_eq_some_iff]
  constructor
  · rintro ⟨⟨name, slot⟩, hmem, heq⟩
    cases heq
    exact ⟨slot, get?_of_mem_entries hmem, rfl⟩
  · rintro ⟨slot, hget, rfl⟩
    exact ⟨(name, slot), mem_entries_of_get? hget, rfl⟩

/-- The same names are bound, and to the same values.  Whether an entry was read or may be
redefined, and which place it has, does not count. -/
def SameBindings (first second : Dictionary) : Prop :=
  ∀ name, (first.peek? name).map Token.stripped = (second.peek? name).map Token.stripped

theorem tabled_nodup : dictionary.tabled.Nodup :=
  tabled_increasing.imp fun {above below} hlt heq => by
    obtain rfl := heq
    exact Std.OrientedCmp.not_lt_of_lt hlt hlt

/-- Two sorted lists of the same bindings are one list. -/
theorem SameBindings.tabled_eq (hsame : first.SameBindings second) :
    first.tabled = second.tabled := by
  have hperm : first.tabled.Perm second.tabled := by
    refine (List.perm_ext_iff_of_nodup tabled_nodup tabled_nodup).2 fun ⟨name, token⟩ => ?_
    rw [mem_tabled_iff, mem_tabled_iff, hsame]
  refine List.Perm.eq_of_pairwise (fun above below _ _ hlt hgt => ?_) tabled_increasing
    tabled_increasing hperm
  exact absurd hgt (Std.OrientedCmp.not_lt_of_lt hlt)

/-- A table with the given rows. -/
def tabulated (rows : List String) : String :=
  (if rows.isEmpty then ""
    else
      Store.rule ++ Text.padRight "Name" Store.nameWidth ++
        Text.padRight "Type" Store.typeWidth ++ "Value\n" ++
        Store.rule ++ String.join rows ++ Store.rule) ++
    s!"Total number of entries: {rows.length}\n"

theorem length_of_mapM_eq_some {α β : Type} {f : α → Option β} {items : List α}
    {results : List β} (hresults : items.mapM f = some results) :
    results.length = items.length := by
  induction items generalizing results with
  | nil =>
    obtain rfl := Option.some.inj hresults
    rfl
  | cons item rest ih =>
    rw [List.mapM_cons] at hresults
    obtain ⟨result, -, hresults⟩ := Option.bind_eq_some_iff.1 hresults
    obtain ⟨others, hothers, hresults⟩ := Option.bind_eq_some_iff.1 hresults
    obtain rfl := Option.some.inj hresults
    rw [List.length_cons, List.length_cons, ih hothers]

/-- The rows of a table show the bindings and nothing else of the entries. -/
theorem info?_eq (expand : DictId → Option String) :
    dictionary.info? expand = (dictionary.tabled.mapM (row? expand)).map tabulated := by
  have hrows : dictionary.tabled.mapM (row? expand) = dictionary.sortedEntries.mapM fun entry => do
      return Text.padRight entry.1.text Store.nameWidth ++
        Text.padRight entry.2.token.typeName Store.typeWidth ++
        (← entry.2.token.display? expand) ++ "\n" := by
    rw [tabled, List.mapM_map]
    congr 1
    funext entry
    simp only [Function.comp_apply, row?, Token.typeName_stripped, Token.display?_stripped]
  rw [info?, ← hrows]
  cases htexts : dictionary.tabled.mapM (row? expand) with
  | none => rfl
  | some rows =>
    -- There are as many rows as entries, so both agree on which tables are empty.
    have hlength : rows.length = dictionary.entries.length := by
      rw [length_of_mapM_eq_some htexts, tabled, List.length_map, sortedEntries_perm.length_eq]
    have hempty : rows.isEmpty = dictionary.entries.isEmpty := by
      rw [Bool.eq_iff_iff, List.isEmpty_iff_length_eq_zero, List.isEmpty_iff_length_eq_zero,
        hlength]
    simp only [Option.map_some, tabulated, hlength, hempty]
    rfl

end Dictionary

/-- The order of names is total and ties no two of them.  So dictionaries with the same
bindings have the same table, whatever was written, overwritten, removed and read on the
way there: both list the bindings with the names strictly ascending. -/
theorem Dictionary.info_of_sameBindings :
    (∀ left right : Name, (Name.cmp left right = .eq ↔ left.text = right.text) ∧
        Name.cmp right left = (Name.cmp left right).swap ∧
        (left.precedes right ∨ right.precedes left)) ∧
      (∀ left middle right : Name,
        left.precedes middle → middle.precedes right → left.precedes right) ∧
      ∀ first second : Dictionary, first.SameBindings second →
        ∃ bindings : List (Name × Token),
          (bindings.Pairwise fun above below => Name.cmp above.1 below.1 = .lt) ∧
          (∀ name value, (name, value) ∈ bindings ↔
            (first.peek? name).map Token.stripped = some value) ∧
          ∀ dictionary, dictionary = first ∨ dictionary = second →
            (∀ expand, dictionary.info? expand =
              (bindings.mapM (Dictionary.row? expand)).map Dictionary.tabulated) ∧
            ∀ (store : Store) (id : DictId), store.dictionary id = dictionary →
              ∀ calls, (Rendering.info id).text? store calls =
                (bindings.mapM (Dictionary.row? (store.displayWithin? calls))).map
                  Dictionary.tabulated := by
  refine ⟨fun left right => ⟨Name.cmp_eq_iff_text_eq, Std.OrientedCmp.eq_swap,
    Name.precedes_total left right⟩, fun _ _ _ => Name.precedes_trans,
    fun first second hsame => ⟨first.tabled, tabled_increasing, fun _ _ => mem_tabled_iff, ?_⟩⟩
  intro dictionary hdictionary
  have htabled : dictionary.tabled = first.tabled := by
    obtain rfl | rfl := hdictionary
    · rfl
    · exact hsame.tabled_eq.symm
  refine ⟨fun expand => by rw [info?_eq, htabled], ?_⟩
  rintro store id rfl calls
  rw [Rendering.text?, Rendering.textWith?, info?_eq, htabled]

/-- Two dictionaries with the same three bindings.  In the second one the names came in
another order, one was overwritten and one removed, one was read and one is read-only. -/
theorem Dictionary.info_of_sameBindings_reordered :
    ∃ first second : Dictionary, first.names = ["beta", "Alpha", "alpha"] ∧
      second.names = ["alpha", "Alpha", "beta"] ∧ first.SameBindings second ∧
      ∀ expand, first.info? expand = second.info? expand := by
  let first := ((empty.insert "beta" (.integer 1)).insert "Alpha" (.integer 2)).insert "alpha"
    (.integer 3)
  let second := (((((empty.insert "alpha" .mark).insert "Gamma" .mark).insert "Alpha"
    (.integer 2)).insert "alpha" (.integer 3)).erase "Gamma" |>.insert "beta"
    ((Token.integer 1).setWriteable false)).touch "beta"
  have hfirst : first.bindings = [⟨"beta", .integer 1⟩, ⟨"Alpha", .integer 2⟩,
      ⟨"alpha", .integer 3⟩] := rfl
  have hsecond : second.bindings = [⟨"alpha", .integer 3⟩, ⟨"Alpha", .integer 2⟩,
      ⟨"beta", (Token.integer 1).setWriteable false⟩] := rfl
  have hsame : first.SameBindings second := by
    intro name
    rw [peek?_eq_lookup, peek?_eq_lookup, hfirst, hsecond]
    by_cases hbeta : name = "beta"
    · subst hbeta
      rfl
    by_cases hupper : name = "Alpha"
    · subst hupper
      rfl
    by_cases hlower : name = "alpha"
    · subst hlower
      rfl
    simp only [List.lookup_cons, beq_false_of_ne hbeta, beq_false_of_ne hupper,
      beq_false_of_ne hlower, List.lookup_nil]
  obtain ⟨bindings, -, -, htable⟩ := info_of_sameBindings.2.2 first second hsame
  exact ⟨first, second, rfl, rfl, hsame, fun expand =>
    ((htable first (.inl rfl)).1 expand).trans ((htable second (.inr rfl)).1 expand).symm⟩

end StackLang
