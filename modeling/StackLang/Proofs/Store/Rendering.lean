import StackLang.Proofs.Ownership.Circles
import StackLang.Proofs.Ownership.Clearing
import StackLang.Store.Render

/-!
# Which renderings come to an end

A rendering has a text as soon as the dictionaries that it expands have one.  So it
comes to an end exactly if none of these expands, over any number of dictionaries, to
one that expands to itself; then the calls that `Store.display?` allows suffice.

A dictionary that is an entry is not expanded where its owner is.  Hence the writes that
can close a circle of expansions are those that store a handle inside an array, a
procedure or a callback, and these are the writes that the search for circles ignores.
-/

namespace StackLang

open Relation

mutual

/-- The dictionaries that are expanded in a value. -/
def Value.expanded (pretty : Bool) : Value → List DictId
  | .procedure _ body => Token.expandedAll body
  | .litProcedure _ body => Token.expandedAll body
  | .array items => Token.expandedAll items
  | .dictionary (.owned id) => if pretty then [id] else []
  | .callback action => Token.expanded pretty action
  | _ => []

/-- The dictionaries that are expanded in a token. -/
def Token.expanded (pretty : Bool) : Token → List DictId
  | .void => []
  | .datum value _ => Value.expanded pretty value

/-- The dictionaries that are expanded in the elements of an array or a procedure. -/
def Token.expandedAll : List Token → List DictId
  | [] => []
  | token :: rest => Token.expanded true token ++ Token.expandedAll rest

end

/-! ## What a rendering asks for -/

/-- What can fail does so exactly if one of the dictionaries it asks for has no text;
otherwise it is what comes of their texts. -/
structure Asks {α : Type} (ids : List DictId) (attempt : (DictId → Option String) → Option α)
    (whole : (DictId → String) → α) : Prop where
  succeeds : ∀ {expand : DictId → Option String} {text : DictId → String},
    (∀ id ∈ ids, expand id = some (text id)) → attempt expand = some (whole text)
  needs : ∀ {expand : DictId → Option String} {result : α}, attempt expand = some result →
    ∀ id ∈ ids, ∃ text, expand id = some text

namespace Asks

variable {α β γ : Type} {ids more : List DictId}
  {attempt : (DictId → Option String) → Option α} {whole : (DictId → String) → α}
  {second : (DictId → Option String) → Option β} {other : (DictId → String) → β}

theorem nothing (result : α) : Asks [] (fun _ => some result) (fun _ => result) where
  succeeds := fun _ => rfl
  needs := fun _ _ hmem => by cases hmem

theorem one (id : DictId) : Asks [id] (fun expand => expand id) (fun text => text id) where
  succeeds := fun hall => hall id (List.mem_singleton_self id)
  needs := fun {_ result} hresult inner hmem => by
    obtain rfl := List.mem_singleton.1 hmem
    exact ⟨result, hresult⟩

theorem both (hfirst : Asks ids attempt whole) (hsecond : Asks more second other)
    (f : α → β → γ) :
    Asks (ids ++ more) (fun expand => do return f (← attempt expand) (← second expand))
      (fun text => f (whole text) (other text)) where
  succeeds := fun hall => by
    simp only [List.mem_append] at hall
    rw [hfirst.succeeds fun id hmem => hall id (.inl hmem),
      hsecond.succeeds fun id hmem => hall id (.inr hmem)]
    rfl
  needs := fun {expand _} hresult id hmem => by
    obtain ⟨left, hleft, hrest⟩ := Option.bind_eq_some_iff.1 hresult
    obtain ⟨right, hright, -⟩ := Option.bind_eq_some_iff.1 hrest
    exact (List.mem_append.1 hmem).elim (hfirst.needs hleft id) (hsecond.needs hright id)

theorem map (hfirst : Asks ids attempt whole) (f : α → β) :
    Asks ids (fun expand => do return f (← attempt expand)) (fun text => f (whole text)) where
  succeeds := fun hall => by rw [hfirst.succeeds hall]; rfl
  needs := fun hresult => by
    obtain ⟨result, hattempt, -⟩ := Option.bind_eq_some_iff.1 hresult
    exact hfirst.needs hattempt

theorem congr (hasks : Asks ids attempt whole) (hsame : ∀ id, id ∈ more ↔ id ∈ ids) :
    Asks more attempt whole where
  succeeds := fun hall => hasks.succeeds fun id hmem => hall id ((hsame id).2 hmem)
  needs := fun hresult id hmem => hasks.needs hresult id ((hsame id).1 hmem)

/-- What came out is what comes of the texts that were found. -/
theorem eq_whole (hasks : Asks ids attempt whole) (text : DictId → String)
    {expand : DictId → Option String} {result : α} (hresult : attempt expand = some result)
    (htext : ∀ id ∈ ids, ∀ found, expand id = some found → found = text id) :
    result = whole text := by
  have hall : ∀ id ∈ ids, expand id = some (text id) := by
    intro id hmem
    obtain ⟨found, hfound⟩ := hasks.needs hresult id hmem
    rw [hfound, htext id hmem found hfound]
  exact Option.some.inj (hresult.symm.trans (hasks.succeeds hall))

/-- If every dictionary that is asked for has a text, something comes out. -/
theorem exists_result (hasks : Asks ids attempt whole) {expand : DictId → Option String}
    (hall : ∀ id ∈ ids, ∃ text, expand id = some text) :
    ∃ result, attempt expand = some result := by
  have hshown : ∀ id ∈ ids, expand id = some ((expand id).getD "") := by
    intro id hmem
    obtain ⟨text, htext⟩ := hall id hmem
    rw [htext, Option.getD_some]
  exact ⟨_, hasks.succeeds hshown⟩

theorem each {items : List γ} {ids : γ → List DictId}
    {attempt : (DictId → Option String) → γ → Option α} {whole : (DictId → String) → γ → α}
    (hitem : ∀ item, Asks (ids item) (attempt · item) (whole · item)) :
    Asks (items.flatMap ids) (fun expand => items.mapM (attempt expand))
      (fun text => items.map (whole text)) := by
  induction items with
  | nil => exact .nothing []
  | cons item rest ih => simpa using (hitem item).both ih List.cons

end Asks

mutual

theorem Value.asks_render (pretty : Bool) (value : Value) :
    Asks (value.expanded pretty) (value.render? · pretty) (value.render · pretty) := by
  cases value with
  | procedure id body => exact (Token.asks_renderAll body).map fun text => "\x7b" ++ text ++ "\x7d"
  | litProcedure id body =>
    exact (Token.asks_renderAll body).map fun text => "\x7b" ++ text ++ "\x7d"
  | array items => exact (Token.asks_renderAll items).map fun text => "[" ++ text ++ "]"
  | dictionary handle =>
    cases handle with
    | owned id =>
      cases pretty with
      | true => exact .one id
      | false => exact .nothing opaqueDictionary
    | aliased id => exact .nothing opaqueDictionary
  | callback action =>
    exact (Token.asks_renderOr pretty "void" action).map fun text => "<callback " ++ text ++ ">"
  | _ => exact .nothing _

theorem Token.asks_renderOr (pretty : Bool) (void : String) (token : Token) :
    Asks (token.expanded pretty) (token.renderOr? · pretty void)
      (token.renderOr · pretty void) := by
  cases token with
  | void => exact .nothing void
  | datum value attributes => exact value.asks_render pretty

theorem Token.asks_renderAll (tokens : List Token) :
    Asks (Token.expandedAll tokens) (Token.renderAll? · tokens) (Token.renderAll · tokens) := by
  match tokens with
  | [] => exact .nothing ""
  | [token] =>
    simpa only [Token.expandedAll, List.append_nil, Token.renderAll?, Token.renderAll]
      using token.asks_renderOr true voidText
  | token :: next :: rest =>
    exact (token.asks_renderOr true voidText).both (Token.asks_renderAll (next :: rest))
      fun first others => first ++ " " ++ others

end

namespace Token

theorem asks_inspect (token : Token) :
    Asks (token.expanded true) (token.inspect? ·) (token.inspect ·) := by
  cases token with
  | void => exact .nothing "Token<void>"
  | datum value attributes =>
    exact (value.asks_render true).map fun text =>
      "Token<" ++ value.tag.typeName ++ ">(" ++ text ++ ")"

end Token

mutual

theorem Value.asks_lines (indent margin : String) (value : Value) :
    Asks (value.expanded true) (value.lines? · indent margin) (value.lines · indent margin) := by
  have hline := (value.asks_render true).map fun text => margin ++ indent ++ text ++ "\n"
  cases value with
  | procedure id body | litProcedure id body =>
    exact (Token.asks_listElements (indent ++ Token.blank) (-1) 0 body).map fun block =>
      margin ++ indent ++ "\x7b\n" ++ block ++ Token.blank ++ indent ++ "\x7d\n"
  | _ => exact hline

theorem Token.asks_lines (indent margin : String) (token : Token) :
    Asks (token.expanded true) (token.lines? · indent margin) (token.lines · indent margin) := by
  cases token with
  | void => exact .nothing _
  | datum value attributes => exact value.asks_lines indent margin

theorem Token.asks_listElements (indent : String) (cursor : Int) (position : Nat)
    (tokens : List Token) :
    Asks (Token.expandedAll tokens) (Token.listElements? · indent cursor position tokens)
      (Token.listElements · indent cursor position tokens) := by
  match tokens with
  | [] => exact .nothing ""
  | token :: rest =>
    exact (token.asks_lines indent (Token.margin cursor position)).both
      (Token.asks_listElements indent cursor (position + 1) rest) fun lines others =>
        lines ++ others

end

namespace Token

theorem asks_listing (indent : String) (cursor : Int) (body : List Token) :
    Asks (expandedAll body) (listing? · indent cursor body) (listing · indent cursor body) :=
  (asks_listElements (indent ++ blank) cursor 0 body).map fun block =>
    blank ++ indent ++ "\x7b\n" ++ block ++ blank ++ indent ++ "\x7d"

theorem asks_list (indent : String) (cursor : Int) (token : Token) :
    Asks (token.expanded false) (token.list? · indent cursor) (token.list · indent cursor) := by
  cases token with
  | void => exact .nothing ""
  | datum value attributes =>
    have hline := (value.asks_render false).map fun text =>
      (if cursor = 0 then marker else blank) ++ indent ++ text
    cases value with
    | procedure id body => exact asks_listing indent cursor body
    | litProcedure id body => exact asks_listing indent cursor body
    | _ => exact hline

end Token

/-- The dictionaries that are expanded in the entries of a dictionary. -/
def Dictionary.expanded (pretty : Bool) (dictionary : Dictionary) : List DictId :=
  dictionary.entries.flatMap fun entry => entry.2.token.expanded pretty

namespace Dictionary

theorem mem_expanded {pretty : Bool} {dictionary : Dictionary} {id : DictId} :
    id ∈ dictionary.expanded pretty ↔ ∃ token ∈ dictionary.tokens, id ∈ token.expanded pretty := by
  simp [expanded, tokens]

theorem asks_display (dictionary : Dictionary) :
    Asks (dictionary.expanded false) (dictionary.display? ·) fun expand =>
      "<<" ++ String.join (dictionary.entries.map fun entry =>
        entry.1.text ++ " " ++ entry.2.token.display expand ++ ",") ++ ">>" := by
  have hentry : ∀ entry : Name × Slot, Asks (entry.2.token.expanded false)
      (fun expand => do
        return entry.1.text ++ " " ++ (← entry.2.token.display? expand) ++ ",")
      fun expand => entry.1.text ++ " " ++ entry.2.token.display expand ++ "," :=
    fun entry => (entry.2.token.asks_renderOr false voidText).map fun text =>
      entry.1.text ++ " " ++ text ++ ","
  exact (Asks.each hentry).map fun entries => "<<" ++ String.join entries ++ ">>"

theorem asks_inspect (dictionary : Dictionary) :
    Asks (dictionary.expanded true) (dictionary.inspect? ·) fun expand =>
      "\x7b" ++ ", ".intercalate (dictionary.entries.map fun entry =>
        Text.quoted entry.1.text ++ ": " ++ entry.2.token.inspect expand) ++ "\x7d" := by
  have hentry : ∀ entry : Name × Slot, Asks (entry.2.token.expanded true)
      (fun expand => do
        return Text.quoted entry.1.text ++ ": " ++ (← entry.2.token.inspect? expand))
      fun expand => Text.quoted entry.1.text ++ ": " ++ entry.2.token.inspect expand :=
    fun entry => entry.2.token.asks_inspect.map fun text =>
      Text.quoted entry.1.text ++ ": " ++ text
  exact (Asks.each hentry).map fun entries => "\x7b" ++ ", ".intercalate entries ++ "\x7d"

/-- One row of a table, if every dictionary that is expanded in it has a text. -/
def row? (expand : DictId → Option String) (binding : Name × Token) : Option String := do
  return Text.padRight binding.1.text Store.nameWidth ++
    Text.padRight binding.2.typeName Store.typeWidth ++ (← binding.2.display? expand) ++ "\n"

theorem asks_row (binding : Name × Token) :
    Asks (binding.2.expanded false) (row? · binding) fun text =>
      Text.padRight binding.1.text Store.nameWidth ++
        Text.padRight binding.2.typeName Store.typeWidth ++ binding.2.display text ++ "\n" :=
  (binding.2.asks_renderOr false voidText).map fun text =>
    Text.padRight binding.1.text Store.nameWidth ++
      Text.padRight binding.2.typeName Store.typeWidth ++ text ++ "\n"

theorem asks_info (dictionary : Dictionary) :
    Asks (dictionary.expanded false) (dictionary.info? ·) fun expand =>
      (if dictionary.isEmpty then ""
        else
          Store.rule ++ Text.padRight "Name" Store.nameWidth ++
            Text.padRight "Type" Store.typeWidth ++ "Value\n" ++ Store.rule ++
            String.join (dictionary.sortedEntries.map fun entry =>
              Text.padRight entry.1.text Store.nameWidth ++
                Text.padRight entry.2.token.typeName Store.typeWidth ++
                entry.2.token.display expand ++ "\n") ++
            Store.rule) ++
        s!"Total number of entries: {dictionary.size}\n" := by
  have hsorted : ∀ id, id ∈ dictionary.expanded false ↔
      id ∈ dictionary.sortedEntries.flatMap fun entry => entry.2.token.expanded false := by
    simp [expanded, sortedEntries]
  exact ((Asks.each fun entry : Name × Slot => asks_row (entry.1, entry.2.token)).map fun rows =>
    (if dictionary.isEmpty then ""
      else
        Store.rule ++ Text.padRight "Name" Store.nameWidth ++
          Text.padRight "Type" Store.typeWidth ++ "Value\n" ++ Store.rule ++
          String.join rows ++ Store.rule) ++
      s!"Total number of entries: {dictionary.size}\n").congr hsorted

end Dictionary

/-- The dictionaries that a rendering expands. -/
def Rendering.expanded (store : Store) : Rendering → List DictId
  | print pretty value => value.expanded pretty
  | display token => token.expanded false
  | inspect token => token.expanded true
  | list _ _ token => token.expanded false
  | displayDictionary id => [id]
  | inspectDictionary id => (store.dictionary id).expanded true
  | info id => (store.dictionary id).expanded false

theorem Rendering.exists_asks (store : Store) (rendering : Rendering) :
    ∃ whole, Asks (rendering.expanded store) (rendering.textWith? store ·) whole := by
  cases rendering with
  | print pretty value => exact ⟨_, value.asks_render pretty⟩
  | display token => exact ⟨_, token.asks_renderOr false voidText⟩
  | inspect token => exact ⟨_, token.asks_inspect⟩
  | list indent cursor token => exact ⟨_, token.asks_list indent cursor⟩
  | displayDictionary id => exact ⟨_, .one id⟩
  | inspectDictionary id => exact ⟨_, (store.dictionary id).asks_inspect⟩
  | info id => exact ⟨_, (store.dictionary id).asks_info⟩

/-! ## Circles of expansions -/

namespace Store

variable {store next : Store} {id outer inner target source : DictId} {name : Name}
  {token : Token}

/-- Rendering the first dictionary calls for a rendering of the second. -/
def Expands (store : Store) (outer inner : DictId) : Prop :=
  inner ∈ (store.dictionary outer).expanded false

/-- Rendering a dictionary leads to one whose rendering calls for itself. -/
def Endless (store : Store) (id : DictId) : Prop :=
  ∃ inner, ReflTransGen store.Expands id inner ∧ TransGen store.Expands inner inner

theorem Expands.outer_lt (hexpands : store.Expands outer inner) :
    outer.index < store.dictionaries.size := by
  obtain ⟨entry, hentry, -⟩ := List.mem_flatMap.1 hexpands
  exact lt_of_entry_mem hentry

theorem Endless.of_expands (hexpands : store.Expands outer inner) (hinner : store.Endless inner) :
    store.Endless outer := by
  obtain ⟨last, hpath, hcircle⟩ := hinner
  exact ⟨last, hpath.head hexpands, hcircle⟩

/-- A rendering that does not end has a call that does not end. -/
theorem Endless.exists_expands (hendless : store.Endless id) :
    ∃ inner, store.Expands id inner ∧ store.Endless inner := by
  obtain ⟨last, hpath, hcircle⟩ := hendless
  obtain rfl | ⟨inner, hexpands, hrest⟩ := hpath.cases_head
  · obtain ⟨inner, hexpands, hback⟩ := TransGen.head'_iff.1 hcircle
    exact ⟨inner, hexpands, id, hback, hcircle⟩
  · exact ⟨inner, hexpands, last, hrest, hcircle⟩

/-- On a way that never comes back, the calls inside each other are no more than there
are dictionaries. -/
theorem exists_displayWithin?_of_path {calls : Nat} (path : List DictId)
    (hends : ¬ store.Endless id)
    (hnodup : path.Nodup)
    (hpath : ∀ outer ∈ path,
      outer.index < store.dictionaries.size ∧ TransGen store.Expands outer id)
    (hcalls : store.dictionaries.size < path.length + calls) :
    ∃ text, store.displayWithin? calls id = some text := by
  induction calls generalizing id path with
  | zero =>
    have hlength := length_le_of_nodup hnodup fun outer hmem => (hpath outer hmem).1
    omega
  | succ calls ih =>
    have hnew : id ∉ path := fun hmem => hends ⟨id, .refl, (hpath id hmem).2⟩
    refine (store.dictionary id).asks_display.exists_result fun inner hinner => ?_
    have hexpands : store.Expands id inner := hinner
    refine ih (id :: path) (fun hendless => hends (hendless.of_expands hexpands))
      (List.nodup_cons.2 ⟨hnew, hnodup⟩) (fun outer hmem => ?_)
      (by simp only [List.length_cons]; omega)
    obtain rfl | hmem := List.mem_cons.1 hmem
    · exact ⟨hexpands.outer_lt, .single hexpands⟩
    · exact ⟨(hpath outer hmem).1, (hpath outer hmem).2.tail hexpands⟩

/-- No number of calls suffices for a rendering that calls for itself. -/
theorem not_endless_of_displayWithin? {calls : Nat} {text : String}
    (htext : store.displayWithin? calls id = some text) : ¬ store.Endless id := by
  induction calls generalizing id text with
  | zero => cases htext
  | succ calls ih =>
    intro hendless
    obtain ⟨inner, hexpands, hinner⟩ := hendless.exists_expands
    obtain ⟨text, hcall⟩ := (store.dictionary id).asks_display.needs htext inner hexpands
    exact ih hcall hinner

/-- However many calls are allowed, the text is the same if there is one. -/
theorem displayWithin?_unique {calls more : Nat} {text other : String}
    (htext : store.displayWithin? calls id = some text)
    (hother : store.displayWithin? more id = some other) : text = other := by
  induction calls generalizing id more text other with
  | zero => cases htext
  | succ calls ih =>
    cases more with
    | zero => cases hother
    | succ more =>
      have hasks := (store.dictionary id).asks_display
      let found (inner : DictId) : String := (store.displayWithin? more inner).getD ""
      have hfirst := hasks.eq_whole found htext fun inner hinner shown hshown => by
        obtain ⟨again, hagain⟩ := hasks.needs hother inner hinner
        rw [ih hshown hagain, show found inner = again by simp [found, hagain]]
      have hsecond := hasks.eq_whole found hother fun inner _ shown hshown => by
        simp [found, hshown]
      exact hfirst.trans hsecond.symm

/-- A dictionary has a text exactly if its rendering comes to an end. -/
theorem exists_display?_iff : (∃ text, store.display? id = some text) ↔ ¬ store.Endless id :=
  ⟨fun ⟨_, htext⟩ => not_endless_of_displayWithin? htext, fun hends =>
    exists_displayWithin?_of_path [] hends List.nodup_nil (fun _ hmem => by cases hmem) (by simp)⟩

/-- Where nothing comes out, a dictionary was asked for whose rendering does not end. -/
theorem exists_endless {α : Type} {ids : List DictId}
    {attempt : (DictId → Option String) → Option α} {whole : (DictId → String) → α}
    (hasks : Asks ids attempt whole) (hnone : attempt store.display? = none) :
    ∃ id ∈ ids, store.Endless id := by
  by_contra hends
  obtain ⟨result, hresult⟩ := hasks.exists_result fun id hmem =>
    exists_display?_iff.2 fun hendless => hends ⟨id, hmem, hendless⟩
  cases hnone.symm.trans hresult

/-- More calls than `display?` allows make no other text. -/
theorem display?_of_displayWithin? {calls : Nat} {text : String}
    (htext : store.displayWithin? calls id = some text) : store.display? id = some text := by
  obtain ⟨other, hother⟩ := exists_display?_iff.2 (not_endless_of_displayWithin? htext)
  rw [displayWithin?_unique htext hother, hother]

/-! ## Writes that close no circle -/

/-- No rendering calls for itself. -/
def Straight (store : Store) : Prop :=
  ∀ id, ¬ TransGen store.Expands id id

theorem Straight.not_endless (hstraight : store.Straight) : ¬ store.Endless id :=
  fun ⟨inner, _, hcircle⟩ => hstraight inner hcircle

theorem straight_of_empty (hempty : ∀ id, store.dictionary id = .empty) : store.Straight := by
  intro id hcircle
  obtain ⟨inner, hexpands, -⟩ := TransGen.head'_iff.1 hcircle
  rw [Expands, hempty] at hexpands
  cases hexpands

theorem Within.expands (hwithin : next.Within store) (hexpands : next.Expands outer inner) :
    store.Expands outer inner := by
  obtain ⟨token, hmem, hinner⟩ := Dictionary.mem_expanded.1 hexpands
  exact Dictionary.mem_expanded.2 ⟨token, hwithin.tokens outer hmem, hinner⟩

theorem Straight.within (hstraight : store.Straight) (hwithin : next.Within store) :
    next.Straight :=
  fun id hcircle => hstraight id (TransGen.mono (fun _ _ => hwithin.expands) id id hcircle)

/-- What is stored for a token expands no more than the token: a handle that is an entry
is not expanded, whether it was made an alias or not. -/
theorem expanded_accepted :
    (store.accepted target token).expanded false ⊆ token.expanded false := by
  unfold accepted
  split
  · exact List.Subset.refl _
  · cases token <;> exact List.nil_subset _

theorem expands_of_insert (outer inner : DictId)
    (hexpands : (store.insert target name token).Expands outer inner) :
    store.Expands outer inner ∨ outer = target ∧ inner ∈ token.expanded false := by
  obtain ⟨bound, hmem, hinner⟩ := Dictionary.mem_expanded.1 hexpands
  obtain hold | ⟨rfl, rfl⟩ := mem_tokens_of_insert hmem
  · exact .inl (Dictionary.mem_expanded.2 ⟨bound, hold, hinner⟩)
  · exact .inr ⟨rfl, expanded_accepted hinner⟩

/-- The ways to a dictionary do not depend on what is written to it. -/
theorem reaches_of_insert
    (hpath : ReflTransGen (store.insert target name token).Expands id target) :
    ReflTransGen store.Expands id target :=
  (reflTransGen_of_extra expands_of_insert hpath).elim (fun hold => hold) And.left

theorem Straight.insert (hstraight : store.Straight)
    (htoken : ∀ id ∈ token.expanded false, ¬ ReflTransGen store.Expands id target) :
    (store.insert target name token).Straight := by
  intro id hcircle
  obtain hold | ⟨inner, hinner, hback⟩ := transGen_of_extra expands_of_insert hcircle
  · exact hstraight id hold
  · exact htoken inner hinner hback

theorem Straight.copyEntries (hstraight : store.Straight)
    (hentries : ∀ id, store.Expands source id → ¬ ReflTransGen store.Expands id target) :
    (store.copyEntries source target).Straight := by
  have hsource : ∀ entry ∈ (store.dictionary source).entries,
      ∀ id ∈ entry.2.token.expanded false, ¬ ReflTransGen store.Expands id target :=
    fun entry hentry id hid => hentries id (List.mem_flatMap.2 ⟨entry, hentry, hid⟩)
  clear hentries
  rw [Store.copyEntries]
  generalize (store.dictionary source).entries = entries at hsource
  induction entries generalizing store with
  | nil => exact hstraight
  | cons entry rest ih =>
    have hlater : ∀ later ∈ rest, ∀ id ∈ later.2.token.expanded false,
        ¬ ReflTransGen (store.insert target entry.1 entry.2.token).Expands id target :=
      fun later hlater id hid hpath =>
        hsource later (List.mem_cons_of_mem _ hlater) id hid (reaches_of_insert hpath)
    exact ih (hstraight.insert (hsource entry (List.mem_cons_self ..))) hlater

end Store

namespace DictionaryWrite

/-- No dictionary that is expanded in what is written leads back to the one that is
written. -/
def ClosesNothing (store : Store) : DictionaryWrite → Prop
  | insert target _ token => ∀ id ∈ token.expanded false, ¬ ReflTransGen store.Expands id target
  | merge source target => ∀ id, store.Expands source id → ¬ ReflTransGen store.Expands id target
  | remove .. | unmerge .. | clear _ => True

/-- None of the writes closes a circle when its turn comes. -/
def CloseNothing : List DictionaryWrite → Store → Prop
  | [], _ => True
  | write :: rest, store => write.ClosesNothing store ∧ CloseNothing rest (write.apply store)

variable {store : Store} {write : DictionaryWrite} {writes : List DictionaryWrite}

theorem ClosesNothing.straight (hwrite : write.ClosesNothing store) (hstore : store.Straight) :
    (write.apply store).Straight := by
  cases write with
  | insert target name token => exact hstore.insert hwrite
  | remove target name => exact hstore.within Store.within_remove
  | unmerge source target => exact hstore.within Store.within_unmerge
  | clear target => exact hstore.within Store.within_clearWithin
  | merge source target =>
    rw [apply, Store.merge]
    split
    · exact hstore
    · exact hstore.copyEntries hwrite

theorem CloseNothing.straight (hwrites : CloseNothing writes store) (hstore : store.Straight) :
    (applyAll writes store).Straight := by
  induction writes generalizing store with
  | nil => exact hstore
  | cons write rest ih => exact ih hwrites.2 (hwrites.1.straight hstore)

end DictionaryWrite

namespace Rendering

variable {store : Store}

theorem exists_text?_of_ends {rendering : Rendering}
    (hends : ∀ id ∈ rendering.expanded store, ¬ store.Endless id) :
    ∃ text, rendering.text? store (store.dictionaries.size + 1) = some text := by
  obtain ⟨whole, hasks⟩ := rendering.exists_asks store
  exact hasks.exists_result fun id hmem => Store.exists_display?_iff.2 (hends id hmem)

theorem ends_of_text? {rendering : Rendering} {calls : Nat} {text : String}
    (htext : rendering.text? store calls = some text) :
    ∀ id ∈ rendering.expanded store, ¬ store.Endless id := by
  intro id hmem
  obtain ⟨whole, hasks⟩ := rendering.exists_asks store
  obtain ⟨shown, hshown⟩ := hasks.needs htext id hmem
  exact Store.not_endless_of_displayWithin? hshown

/-- However many calls are allowed, the text is the one that `Store.display?` leads to. -/
theorem text?_of_text? {rendering : Rendering} {calls : Nat} {text : String}
    (htext : rendering.text? store calls = some text) :
    rendering.text? store (store.dictionaries.size + 1) = some text := by
  obtain ⟨whole, hasks⟩ := rendering.exists_asks store
  have hshown : ∀ id ∈ rendering.expanded store,
      store.displayWithin? calls id = some ((store.displayWithin? calls id).getD "") := by
    intro id hmem
    obtain ⟨shown, hshown⟩ := hasks.needs htext id hmem
    rw [hshown, Option.getD_some]
  have hwhole : text = whole fun id => (store.displayWithin? calls id).getD "" :=
    Option.some.inj (htext.symm.trans (hasks.succeeds hshown))
  rw [hwhole]
  exact hasks.succeeds fun id hmem => Store.display?_of_displayWithin? (hshown id hmem)

end Rendering

namespace DictionaryWrite

/-- However empty dictionaries are written, a rendering comes to an end exactly if no
dictionary that it expands leads to one that is expanded inside itself.  Then no more
calls are inside each other than there are dictionaries, and one, and with any number of
calls that suffices the text is the same.  All renderings come to an end if no write stores
a token that expands a dictionary which leads back to the one that is written. -/
theorem rendering_applyAll (writes : List DictionaryWrite) (store : Store)
    (hempty : ∀ id, store.dictionary id = .empty) (rendering : Rendering) :
    ((∃ text, rendering.text? (applyAll writes store) (store.dictionaries.size + 1) = some text) ↔
        ∀ id ∈ rendering.expanded (applyAll writes store),
          ¬ (applyAll writes store).Endless id) ∧
      (∀ calls text, rendering.text? (applyAll writes store) calls = some text →
        rendering.text? (applyAll writes store) (store.dictionaries.size + 1) = some text) ∧
      (CloseNothing writes store →
        ∃ text, rendering.text? (applyAll writes store) (store.dictionaries.size + 1) =
          some text) := by
  obtain ⟨hsize, -⟩ : (applyAll writes store).dictionaries.size = store.dictionaries.size ∧
      (applyAll writes store).tables = store.tables :=
    (Store.stable_shape _ _).applyAll (fun _ _ _ _ => trivial) ⟨rfl, rfl⟩
  rw [← hsize]
  refine ⟨⟨fun ⟨text, htext⟩ => ?_, Rendering.exists_text?_of_ends⟩, fun calls text => ?_,
    fun hwrites => ?_⟩
  · exact Rendering.ends_of_text? htext
  · exact Rendering.text?_of_text?
  · have hstraight := hwrites.straight (Store.straight_of_empty hempty)
    exact Rendering.exists_text?_of_ends fun _ _ => hstraight.not_endless

/-- Two dictionaries that own each other, one of them through an array, can be rendered:
the handle that is an entry is not expanded. -/
theorem rendering_applyAll_mutual :
    CloseNothing [.insert ⟨0⟩ "k" (.array [.dictionary ⟨1⟩]), .insert ⟨1⟩ "x" (.dictionary ⟨0⟩)]
        { dictionaries := #[.empty, .empty] } ∧
      ∀ rendering : Rendering, ∃ text,
        rendering.text? (applyAll
            [.insert ⟨0⟩ "k" (.array [.dictionary ⟨1⟩]), .insert ⟨1⟩ "x" (.dictionary ⟨0⟩)]
            { dictionaries := #[.empty, .empty] }) 3 = some text := by
  have hempty : ∀ id, ({ dictionaries := #[.empty, .empty] } : Store).dictionary id = .empty := by
    rintro ⟨_ | _ | index⟩ <;> rfl
  have hstart := Store.straight_of_empty hempty
  have hwrites : CloseNothing
      [.insert ⟨0⟩ "k" (.array [.dictionary ⟨1⟩]), .insert ⟨1⟩ "x" (.dictionary ⟨0⟩)]
      { dictionaries := #[.empty, .empty] } := by
    refine ⟨fun id hid hpath => ?_, ⟨fun id hid => (List.not_mem_nil hid).elim, trivial⟩⟩
    obtain rfl : id = ⟨1⟩ := List.mem_singleton.1 hid
    obtain heq | ⟨inner, hexpands, -⟩ := hpath.cases_head
    · cases heq
    · rw [Store.Expands, hempty] at hexpands
      cases hexpands
  exact ⟨hwrites, fun rendering =>
    (rendering_applyAll _ { dictionaries := #[.empty, .empty] } hempty rendering).2.2 hwrites⟩

/-- Not every dictionary can be rendered: one with an array that holds its own handle
has no text. -/
theorem not_rendering_wrapped_handle :
    ¬ ∀ (writes : List DictionaryWrite) (store : Store), (∀ id, store.dictionary id = .empty) →
      ∀ rendering : Rendering, ∃ calls text,
        rendering.text? (applyAll writes store) calls = some text := by
  intro hall
  have hempty : ∀ id, ({ dictionaries := #[.empty] } : Store).dictionary id = .empty := by
    rintro ⟨_ | index⟩ <;> rfl
  have hself : (applyAll [.insert ⟨0⟩ "k" (.array [.dictionary ⟨0⟩])]
      { dictionaries := #[.empty] }).Expands ⟨0⟩ ⟨0⟩ := by
    change (⟨0⟩ : DictId) ∈ _
    decide
  obtain ⟨calls, text, htext⟩ := hall _ _ hempty (.displayDictionary ⟨0⟩)
  exact Rendering.ends_of_text? htext ⟨0⟩ (List.mem_singleton_self _)
    ⟨⟨0⟩, .refl, .single hself⟩

end DictionaryWrite

end StackLang
