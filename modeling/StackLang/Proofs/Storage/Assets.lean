import Mathlib.Data.Multiset.Bind
import StackLang.Storage.Workspace
import StackLang.Token.Holding

/-!
# What a token has to give back

A token that goes gives back the blocks of its data, also of those inside its arrays and
callbacks, and its handles of dictionaries, overload tables and procedure bodies.  These
are its assets.  What is inside a shared object or a procedure body is not among them: it
goes when the last handle does.
-/

namespace StackLang

/-- Something that is given back when a token goes. -/
inductive Asset where
  /-- A datum of a type, with the place of its block. -/
  | datum (tag : TypeTag) (home : Home)
  /-- A handle of a dictionary or of an overload table. -/
  | object (object : SharedObject)
  /-- A handle of a procedure body. -/
  | body (body : NumberedBody)

namespace Asset

/-- What the handle is a handle of. -/
def shared? : Asset → Option Shared
  | .datum .. => none
  | .object owned => some (.object owned)
  | .body held => some (.body held.1)

/-- The block of a datum of a type that was placed in the pools of an installation. -/
def block? (installation : Nat) (tag : TypeTag) : Asset → Option Address
  | .datum other home =>
    if other = tag ∧ home.installation = installation then some home.block else none
  | _ => none

@[simp]
theorem shared?_datum (tag : TypeTag) (home : Home) : (datum tag home).shared? = none := rfl

@[simp]
theorem shared?_object (owned : SharedObject) :
    (object owned).shared? = some (.object owned) := rfl

@[simp]
theorem shared?_body (held : NumberedBody) : (body held).shared? = some (.body held.1) := rfl

@[simp]
theorem block?_object (installation : Nat) (tag : TypeTag) (owned : SharedObject) :
    (object owned).block? installation tag = none := rfl

@[simp]
theorem block?_body (installation : Nat) (tag : TypeTag) (held : NumberedBody) :
    (body held).block? installation tag = none := rfl

theorem block?_datum_self (installation : Nat) (tag : TypeTag) (block : Address) :
    (datum tag { installation, block }).block? installation tag = some block := by
  simp [block?]

theorem block?_datum_ne {tag other : TypeTag} (hne : other ≠ tag) (installation : Nat)
    (home : Home) : (datum other home).block? installation tag = none := by
  simp [block?, hne]

theorem block?_datum_elsewhere {installation : Nat} {home : Home}
    (helsewhere : home.installation ≠ installation) (tag other : TypeTag) :
    (datum other home).block? installation tag = none := by
  simp [block?, helsewhere]

end Asset

mutual

/-- What a value has to give back, apart from the block that it is in. -/
def Value.assets : Value → Multiset Asset
  | .procedure id body => {.body (id, body)}
  | .litProcedure id body => {.body (id, body)}
  | .array items => Token.assetsOfAll items
  | .callback action => Token.assets action
  | .dictionary (.owned id) => {.object (.dictionary id)}
  | .table _ id => {.object (.table id)}
  | _ => 0

/-- What a token has to give back. -/
def Token.assets : Token → Multiset Asset
  | .void => 0
  | .datum value attributes => .datum value.tag attributes.home ::ₘ Value.assets value

/-- What a sequence of tokens has to give back. -/
def Token.assetsOfAll : List Token → Multiset Asset
  | [] => 0
  | token :: rest => Token.assets token + Token.assetsOfAll rest

end

variable {asset : Asset} {body : NumberedBody} {object : SharedObject} {tokens : List Token}

namespace Token

@[simp]
theorem assets_void : void.assets = 0 := by
  rw [assets]

theorem assets_datum (value : Value) (attributes : Attributes) :
    (datum value attributes).assets = .datum value.tag attributes.home ::ₘ value.assets := by
  rw [assets]

@[simp]
theorem assets_setWriteable (writeable : Bool) (token : Token) :
    (token.setWriteable writeable).assets = token.assets := by
  cases token with
  | void => rfl
  | datum value attributes => simp [setWriteable, assets_datum]

@[simp]
theorem assetsOfAll_nil : assetsOfAll [] = 0 := by
  rw [assetsOfAll]

@[simp]
theorem assetsOfAll_cons (token : Token) (rest : List Token) :
    assetsOfAll (token :: rest) = token.assets + assetsOfAll rest := by
  rw [assetsOfAll]

theorem assetsOfAll_eq_sum (tokens : List Token) :
    assetsOfAll tokens = (tokens.map assets).sum := by
  induction tokens with
  | nil => simp
  | cons token rest ih => simp [ih]

@[simp]
theorem assetsOfAll_append (left right : List Token) :
    assetsOfAll (left ++ right) = assetsOfAll left + assetsOfAll right := by
  simp [assetsOfAll_eq_sum]

theorem assetsOfAll_perm {others : List Token} (hperm : tokens.Perm others) :
    assetsOfAll tokens = assetsOfAll others := by
  rw [assetsOfAll_eq_sum, assetsOfAll_eq_sum]
  exact (hperm.map assets).sum_eq

theorem assetsOfAll_flatMap {α : Type} (items : List α) (inside : α → List Token) :
    assetsOfAll (items.flatMap inside) =
      (items.map fun item => assetsOfAll (inside item)).sum := by
  induction items with
  | nil => simp
  | cons item rest ih => simp [ih]

theorem mem_assetsOfAll : asset ∈ assetsOfAll tokens ↔ ∃ token ∈ tokens, asset ∈ token.assets := by
  induction tokens with
  | nil => simp
  | cons token rest ih => simp [ih]

theorem mem_bodiesOfAll :
    body ∈ bodiesOfAll tokens ↔ ∃ token ∈ tokens, body ∈ token.bodies := by
  induction tokens with
  | nil => simp [bodiesOfAll]
  | cons token rest ih => simp [bodiesOfAll, ih]

end Token

/-! ## Bodies and objects behind the assets -/

mutual

theorem Value.mem_bodies_of_asset (value : Value) (hmem : .body body ∈ value.assets) :
    body ∈ value.bodies := by
  cases value with
  | procedure id inner | litProcedure id inner =>
    simp only [Value.assets, Multiset.mem_singleton, Asset.body.injEq] at hmem
    simp [Value.bodies, hmem]
  | array items =>
    rw [Value.assets] at hmem
    exact Token.mem_bodiesOfAll_of_asset items hmem
  | callback action =>
    rw [Value.assets] at hmem
    exact Token.mem_bodies_of_asset action hmem
  | dictionary handle => cases handle <;> simp [Value.assets] at hmem
  | _ => simp [Value.assets] at hmem

theorem Token.mem_bodies_of_asset (token : Token) (hmem : .body body ∈ token.assets) :
    body ∈ token.bodies := by
  cases token with
  | void => simp at hmem
  | datum value attributes =>
    simp only [Token.assets_datum, Multiset.mem_cons, reduceCtorEq, false_or] at hmem
    exact Value.mem_bodies_of_asset value hmem

/-- A body that a token has a handle of is among those it refers to. -/
theorem Token.mem_bodiesOfAll_of_asset (tokens : List Token)
    (hmem : .body body ∈ Token.assetsOfAll tokens) : body ∈ Token.bodiesOfAll tokens := by
  cases tokens with
  | nil => simp at hmem
  | cons token rest =>
    rw [Token.assetsOfAll_cons, Multiset.mem_add] at hmem
    rw [Token.bodiesOfAll, List.mem_append]
    exact hmem.imp (Token.mem_bodies_of_asset token) (Token.mem_bodiesOfAll_of_asset rest)

end

mutual

theorem Value.bodies_sublist (value : Value) (hmem : body ∈ value.bodies) :
    (body :: Token.bodiesOfAll body.2).Sublist value.bodies := by
  cases value with
  | procedure id inner | litProcedure id inner =>
    rw [Value.bodies] at hmem ⊢
    obtain rfl | hinner := List.mem_cons.1 hmem
    · exact List.Sublist.refl _
    · exact (Token.bodiesOfAll_sublist inner hinner).cons _
  | array items => exact Token.bodiesOfAll_sublist items hmem
  | callback action => exact Token.bodies_sublist action hmem
  | _ => simp [Value.bodies] at hmem

theorem Token.bodies_sublist (token : Token) (hmem : body ∈ token.bodies) :
    (body :: Token.bodiesOfAll body.2).Sublist token.bodies := by
  cases token with
  | void => simp [Token.bodies] at hmem
  | datum value attributes => exact Value.bodies_sublist value hmem

/-- With a body a token refers to those inside it. -/
theorem Token.bodiesOfAll_sublist (tokens : List Token) (hmem : body ∈ Token.bodiesOfAll tokens) :
    (body :: Token.bodiesOfAll body.2).Sublist (Token.bodiesOfAll tokens) := by
  cases tokens with
  | nil => simp [Token.bodiesOfAll] at hmem
  | cons token rest =>
    rw [Token.bodiesOfAll] at hmem ⊢
    obtain htoken | hrest := List.mem_append.1 hmem
    · exact (Token.bodies_sublist token htoken).trans (List.sublist_append_left _ _)
    · exact (Token.bodiesOfAll_sublist rest hrest).trans (List.sublist_append_right _ _)

end

mutual

theorem Value.exists_body_asset (value : Value) (hmem : body ∈ value.bodies) :
    ∃ outer, .body outer ∈ value.assets ∧ (body = outer ∨ body ∈ Token.bodiesOfAll outer.2) := by
  cases value with
  | procedure id inner | litProcedure id inner =>
    exact ⟨(id, inner), by simp [Value.assets], by simpa [Value.bodies] using hmem⟩
  | array items =>
    simp only [Value.assets]
    exact Token.exists_body_asset_of_all items hmem
  | callback action =>
    simp only [Value.assets]
    exact Token.exists_body_asset action hmem
  | _ => simp [Value.bodies] at hmem

theorem Token.exists_body_asset (token : Token) (hmem : body ∈ token.bodies) :
    ∃ outer, .body outer ∈ token.assets ∧ (body = outer ∨ body ∈ Token.bodiesOfAll outer.2) := by
  cases token with
  | void => simp [Token.bodies] at hmem
  | datum value attributes =>
    obtain ⟨outer, houter, hinside⟩ := Value.exists_body_asset value hmem
    exact ⟨outer, by simp [Token.assets_datum, houter], hinside⟩

/-- A body that a token refers to is one that it has a handle of, or is inside such a
one. -/
theorem Token.exists_body_asset_of_all (tokens : List Token)
    (hmem : body ∈ Token.bodiesOfAll tokens) :
    ∃ outer, .body outer ∈ Token.assetsOfAll tokens ∧
      (body = outer ∨ body ∈ Token.bodiesOfAll outer.2) := by
  cases tokens with
  | nil => simp [Token.bodiesOfAll] at hmem
  | cons token rest =>
    rw [Token.bodiesOfAll, List.mem_append] at hmem
    simp only [Token.assetsOfAll_cons, Multiset.mem_add]
    cases hmem with
    | inl htoken =>
      obtain ⟨outer, houter, hinside⟩ := Token.exists_body_asset token htoken
      exact ⟨outer, .inl houter, hinside⟩
    | inr hrest =>
      obtain ⟨outer, houter, hinside⟩ := Token.exists_body_asset_of_all rest hrest
      exact ⟨outer, .inr houter, hinside⟩

end

mutual

theorem Value.mem_owned_iff (value : Value) :
    object ∈ value.owned ↔ .object object ∈ value.assets ∨
      ∃ body ∈ value.bodies, .object object ∈ Token.assetsOfAll body.2 := by
  cases value with
  | procedure id inner | litProcedure id inner =>
    simp [Value.owned, Value.assets, Value.bodies, Token.mem_ownedByAll_iff inner]
  | array items =>
    simp only [Value.owned, Value.assets, Value.bodies]
    exact Token.mem_ownedByAll_iff items
  | callback action =>
    simp only [Value.owned, Value.assets, Value.bodies]
    exact Token.mem_owned_iff action
  | dictionary handle => cases handle <;> simp [Value.owned, Value.assets, Value.bodies]
  | _ => simp [Value.owned, Value.assets, Value.bodies]

theorem Token.mem_owned_iff (token : Token) :
    object ∈ token.owned ↔ .object object ∈ token.assets ∨
      ∃ body ∈ token.bodies, .object object ∈ Token.assetsOfAll body.2 := by
  cases token with
  | void => simp [Token.owned, Token.bodies]
  | datum value attributes =>
    simp only [Token.owned, Token.bodies, Token.assets_datum, Multiset.mem_cons, reduceCtorEq,
      false_or]
    exact Value.mem_owned_iff value

/-- What a token keeps alive it has a handle of, or a body that it refers to has one. -/
theorem Token.mem_ownedByAll_iff (tokens : List Token) :
    object ∈ Token.ownedByAll tokens ↔ .object object ∈ Token.assetsOfAll tokens ∨
      ∃ body ∈ Token.bodiesOfAll tokens, .object object ∈ Token.assetsOfAll body.2 := by
  cases tokens with
  | nil => simp [Token.ownedByAll, Token.bodiesOfAll]
  | cons token rest =>
    simp only [Token.ownedByAll, Token.bodiesOfAll, List.mem_append, Token.mem_owned_iff token,
      Token.mem_ownedByAll_iff rest, Token.assetsOfAll_cons, Multiset.mem_add, or_and_right,
      exists_or]
    exact or_or_or_comm

end

/-! ## Tokens inside a token -/

mutual

/-- The tokens inside a value, at any depth. -/
def Value.parts : Value → List Token
  | .procedure _ body => Token.partsOfAll body
  | .litProcedure _ body => Token.partsOfAll body
  | .array items => Token.partsOfAll items
  | .callback action => Token.parts action
  | _ => []

/-- A token and the tokens inside it, at any depth. -/
def Token.parts : Token → List Token
  | .void => [.void]
  | .datum value attributes => .datum value attributes :: Value.parts value

/-- Some tokens and the tokens inside them, at any depth. -/
def Token.partsOfAll : List Token → List Token
  | [] => []
  | token :: rest => Token.parts token ++ Token.partsOfAll rest

end

theorem Token.mem_parts_self (token : Token) : token ∈ token.parts := by
  cases token <;> simp [Token.parts]

theorem Token.mem_partsOfAll {part : Token} :
    part ∈ Token.partsOfAll tokens ↔ ∃ token ∈ tokens, part ∈ token.parts := by
  induction tokens with
  | nil => simp [Token.partsOfAll]
  | cons token rest ih => simp [Token.partsOfAll, ih]

mutual

theorem Value.asset_of_part (value : Value) {part : Token} (hpart : part ∈ value.parts)
    (hasset : asset ∈ part.assets) :
    asset ∈ value.assets ∨ ∃ body ∈ value.bodies, asset ∈ Token.assetsOfAll body.2 := by
  cases value with
  | procedure id inner | litProcedure id inner =>
    rw [Value.parts] at hpart
    obtain hhere | ⟨body, hbody, hinside⟩ := Token.asset_of_partOfAll inner hpart hasset
    · exact .inr ⟨(id, inner), by simp [Value.bodies], hhere⟩
    · exact .inr ⟨body, by simp [Value.bodies, hbody], hinside⟩
  | array items =>
    simp only [Value.assets, Value.bodies]
    exact Token.asset_of_partOfAll items hpart hasset
  | callback action =>
    simp only [Value.assets, Value.bodies]
    exact Token.asset_of_part action hpart hasset
  | _ => simp [Value.parts] at hpart

theorem Token.asset_of_part (token : Token) {part : Token} (hpart : part ∈ token.parts)
    (hasset : asset ∈ part.assets) :
    asset ∈ token.assets ∨ ∃ body ∈ token.bodies, asset ∈ Token.assetsOfAll body.2 := by
  cases token with
  | void =>
    rw [Token.parts, List.mem_singleton] at hpart
    exact .inl (hpart ▸ hasset)
  | datum value attributes =>
    rw [Token.parts] at hpart
    obtain rfl | hinner := List.mem_cons.1 hpart
    · exact .inl hasset
    · rw [Token.assets_datum, Token.bodies]
      exact (Value.asset_of_part value hinner hasset).imp_left Multiset.mem_cons_of_mem

/-- The assets of a token inside others are among theirs, or inside a body that they refer
to. -/
theorem Token.asset_of_partOfAll (tokens : List Token) {part : Token}
    (hpart : part ∈ Token.partsOfAll tokens) (hasset : asset ∈ part.assets) :
    asset ∈ Token.assetsOfAll tokens ∨
      ∃ body ∈ Token.bodiesOfAll tokens, asset ∈ Token.assetsOfAll body.2 := by
  cases tokens with
  | nil => simp [Token.partsOfAll] at hpart
  | cons token rest =>
    rw [Token.partsOfAll] at hpart
    simp only [Token.assetsOfAll_cons, Token.bodiesOfAll, Multiset.mem_add, List.mem_append]
    obtain htoken | hrest := List.mem_append.1 hpart
    · obtain hhere | ⟨body, hbody, hinside⟩ := Token.asset_of_part token htoken hasset
      · exact .inl (.inl hhere)
      · exact .inr ⟨body, .inl hbody, hinside⟩
    · obtain hhere | ⟨body, hbody, hinside⟩ := Token.asset_of_partOfAll rest hrest hasset
      · exact .inl (.inr hhere)
      · exact .inr ⟨body, .inr hbody, hinside⟩

end

end StackLang
