import Mathlib.Data.Multiset.Filter
import StackLang.Proofs.Pool.Accounting
import StackLang.Proofs.Storage.Assets
import StackLang.Storage.Slots

/-!
# The pools in place and the data in them

The pools in place hand out exactly the blocks of the data that were placed since they
were installed.  Data of an earlier installation are none of their business: such data
come and go without a trace in the present pools.

The rules for how an action ends stand at the beginning; the later modules use them for
everything that a workspace does.
-/

namespace StackLang

namespace Workspace

/-- An action ends with a value and in a state as told, or faults in a state as told. -/
inductive Ends {α : Type} (good : α → Workspace → Prop) (spoiled : Workspace → Prop) :
    EStateM.Result Fault Workspace α → Prop where
  | ok {value : α} {next : Workspace} (hgood : good value next) : Ends good spoiled (.ok value next)
  | fault {fault : Fault} {next : Workspace} (hspoiled : spoiled next) :
    Ends good spoiled (.error fault next)

namespace Ends

variable {α β : Type} {work : Workspace} {spoiled : Workspace → Prop}

theorem mono {mid good : α → Workspace → Prop} {worse : Workspace → Prop}
    {result : EStateM.Result Fault Workspace α} (hends : Ends mid worse result)
    (hgood : ∀ value next, mid value next → good value next)
    (hspoiled : ∀ next, worse next → spoiled next) : Ends good spoiled result := by
  cases hends with
  | ok hmid => exact .ok (hgood _ _ hmid)
  | fault hworse => exact .fault (hspoiled _ hworse)

theorem bind {first : Work α} {next : α → Work β} {mid : α → Workspace → Prop}
    {good : β → Workspace → Prop} (hfirst : Ends mid spoiled (first work))
    (hnext : ∀ value later, mid value later → Ends good spoiled (next value later)) :
    Ends good spoiled ((first >>= next) work) := by
  simp only [Bind.bind, EStateM.bind]
  generalize first work = ended at hfirst
  cases hfirst with
  | ok hmid => exact hnext _ _ hmid
  | fault hspoiled => exact .fault hspoiled

/-- What an action does after one that cannot fault. -/
theorem after {first : Work α} {next : α → Work β} {value : α} {later : Workspace}
    {good : β → Workspace → Prop} (hfirst : first work = .ok value later)
    (hnext : Ends good spoiled (next value later)) :
    Ends good spoiled ((first >>= next) work) := by
  simp only [Bind.bind, EStateM.bind, hfirst]
  exact hnext

/-- What an action does with the state that it reads. -/
theorem get {next : Workspace → Work β} {good : β → Workspace → Prop}
    (hnext : Ends good spoiled (next work work)) :
    Ends good spoiled ((MonadState.get >>= next) work) :=
  hnext

/-- An action with a clean-up: it ends well, or the clean-up sees to the rest. -/
theorem onFault {action : Work α} {cleanUp : Work Unit} {good : α → Workspace → Prop}
    {mid : Workspace → Prop} (haction : Ends good mid (action work))
    (hcleanUp : ∀ later, mid later → Ends (fun _ => spoiled) spoiled (cleanUp later)) :
    Ends good spoiled (onFault action cleanUp work) := by
  simp only [Workspace.onFault, tryCatch, tryCatchThe, MonadExceptOf.tryCatch, EStateM.tryCatch]
  generalize action work = ended at haction
  cases haction with
  | ok hgood => exact .ok hgood
  | fault hmid =>
    exact (hcleanUp _ hmid).bind fun _ _ hspoiled => .fault hspoiled

end Ends

end Workspace

theorem TypeTag.index_injective : Function.Injective TypeTag.index := by
  intro first second heq
  cases first <;> cases second <;> first | rfl | exact absurd heq (by decide)

namespace ValuePools

theorem pool_setPool_self (valuePools : ValuePools) (tag : TypeTag) (pool : Pool) :
    (valuePools.setPool tag pool).pool tag = pool := by
  simp [ValuePools.pool, setPool]

theorem pool_setPool_ne (valuePools : ValuePools) {tag other : TypeTag} (hne : other ≠ tag)
    (pool : Pool) : (valuePools.setPool tag pool).pool other = valuePools.pool other := by
  have hindex : (tag.index : Nat) ≠ other.index := fun heq =>
    hne (TypeTag.index_injective (Fin.ext heq.symm))
  simp [ValuePools.pool, setPool, Vector.getElem_set_ne _ _ hindex]

/-- The pools of a new installation are those for one layout, without blocks. -/
theorem sound_of_install {installation : Nat} {config : PoolConfig} {valuePools : ValuePools}
    (hinstall : install installation config = .ok valuePools) :
    valuePools.installation = installation ∧
      ∀ tag, Pool.Sound (valuePools.pool tag) .empty [] := by
  simp only [install, bind, Except.bind] at hinstall
  cases hmake : Pool.forLayout datumSize datumAlignment config with
  | error fault =>
    rw [hmake] at hinstall
    cases hinstall
  | ok pool =>
    rw [hmake] at hinstall
    obtain rfl := Except.ok.inj hinstall
    refine ⟨rfl, fun tag => ?_⟩
    simpa [ValuePools.pool] using (Pool.InUse.of_forLayout hmake).sound

end ValuePools

namespace Workspace

variable {work next : Workspace} {assets : Multiset Asset} {tag : TypeTag}

/-- The pools in place hand out exactly the blocks of the data placed in them, and no
datum is of an installation that is still to come. -/
structure Stocked (work : Workspace) (assets : Multiset Asset) : Prop where
  homes : ∀ tag home, .datum tag home ∈ assets → home.installation ≤ work.installations
  current : ∀ valuePools, work.valuePools = some valuePools →
    valuePools.installation = work.installations
  served : ∀ valuePools, work.valuePools = some valuePools → ∀ tag, ∃ chain live,
    Pool.Sound (valuePools.pool tag) chain live ∧
      (↑live : Multiset Address) = assets.filterMap (Asset.block? work.installations tag)

/-- Two states with the same tokens and handles, whatever their pools are. -/
structure SameTokens (work next : Workspace) : Prop where
  store : next.store = work.store
  slots : next.slots = work.slots
  handles : next.handles = work.handles

theorem SameTokens.refl (work : Workspace) : SameTokens work work :=
  ⟨rfl, rfl, rfl⟩

theorem SameTokens.trans {mid : Workspace} (hfirst : SameTokens work mid)
    (hsecond : SameTokens mid next) : SameTokens work next :=
  ⟨hsecond.store.trans hfirst.store, hsecond.slots.trans hfirst.slots,
    hsecond.handles.trans hfirst.handles⟩

/-- The workspace with another pool for a type. -/
def withPool (valuePools : ValuePools) (tag : TypeTag) (pool : Pool) (work : Workspace) :
    Workspace :=
  { work with valuePools := some (valuePools.setPool tag pool) }

theorem onPool_eq {α : Type} {valuePools : ValuePools} (hpools : work.valuePools = some valuePools)
    (tag : TypeTag) (action : PoolAction α) :
    onPool tag action work = match action.run (valuePools.pool tag) with
      | .ok value pool => .ok value (work.withPool valuePools tag pool)
      | .error fault pool => .error fault (work.withPool valuePools tag pool) := by
  have hrequire : requirePools work = .ok valuePools work := by
    simp only [requirePools, bind, EStateM.bind, get, getThe, MonadStateOf.get, EStateM.get, hpools]
    rfl
  simp only [onPool, bind, EStateM.bind, hrequire]
  cases action.run (valuePools.pool tag) <;> rfl

/-- The workspace with the pools that are needed: those in place, or else new ones. -/
theorem requirePools_eq (work : Workspace) :
    ∃ valuePools next, requirePools work = .ok valuePools next ∧ SameTokens work next ∧
      next.valuePools = some valuePools ∧
      (next = work ∨ work.valuePools = none ∧ next.installations = work.installations + 1 ∧
        ValuePools.install next.installations {} = .ok valuePools) := by
  cases hpools : work.valuePools with
  | some valuePools =>
    refine ⟨valuePools, work, ?_, .refl work, hpools, .inl rfl⟩
    simp only [requirePools, bind, EStateM.bind, get, getThe, MonadStateOf.get, EStateM.get, hpools]
    rfl
  | none =>
    obtain ⟨valuePools, hinstall⟩ : ∃ valuePools,
        ValuePools.install (work.installations + 1) {} = .ok valuePools := ⟨_, rfl⟩
    refine ⟨valuePools,
      { work with valuePools := some valuePools, installations := work.installations + 1 }, ?_,
      ⟨rfl, rfl, rfl⟩, rfl, .inr ⟨rfl, rfl, hinstall⟩⟩
    simp only [requirePools, bind, EStateM.bind, get, getThe, MonadStateOf.get, EStateM.get, hpools,
      hinstall]
    rfl

/-- An action on a pool is one on the pools that are needed. -/
theorem onPool_require {α : Type} {valuePools : ValuePools} (tag : TypeTag)
    (action : PoolAction α) (hrequire : requirePools work = .ok valuePools next)
    (hpools : next.valuePools = some valuePools) :
    onPool tag action work = onPool tag action next := by
  have hagain : requirePools next = .ok valuePools next := by
    simp only [requirePools, bind, EStateM.bind, get, getThe, MonadStateOf.get, EStateM.get, hpools]
    rfl
  simp only [onPool, bind, EStateM.bind, hrequire, hagain]

theorem SameTokens.withPool (work : Workspace) (valuePools : ValuePools) (tag : TypeTag)
    (pool : Pool) : SameTokens work (work.withPool valuePools tag pool) :=
  ⟨rfl, rfl, rfl⟩

namespace Stocked

/-- New pools have handed out nothing, and no datum is placed in them yet. -/
theorem installed (hstocked : Stocked work assets) {config : PoolConfig}
    {valuePools : ValuePools} (hlater : next.installations = work.installations + 1)
    (hpools : next.valuePools = some valuePools)
    (hinstall : ValuePools.install next.installations config = .ok valuePools) :
    Stocked next assets where
  homes := by
    intro tag home hmem
    have hhome := hstocked.homes tag home hmem
    omega
  current := by
    intro other hother
    obtain rfl := Option.some.inj (hother.symm.trans hpools)
    exact (ValuePools.sound_of_install hinstall).1
  served := by
    intro other hother tag
    obtain rfl := Option.some.inj (hother.symm.trans hpools)
    refine ⟨_, [], (ValuePools.sound_of_install hinstall).2 tag, ?_⟩
    refine (Multiset.eq_zero_of_forall_notMem fun block hmem => ?_).symm
    obtain ⟨asset, hasset, hblock⟩ := (Multiset.mem_filterMap _ _).1 hmem
    cases asset with
    | datum type home =>
      have hhome := hstocked.homes type home hasset
      have helsewhere : home.installation ≠ next.installations := by omega
      have hnone := Asset.block?_datum_elsewhere helsewhere tag type
      rw [hnone] at hblock
      cases hblock
    | object owned => cases hblock
    | body held => cases hblock

theorem require (hstocked : Stocked work assets) :
    ∃ valuePools next, requirePools work = .ok valuePools next ∧ SameTokens work next ∧
      next.valuePools = some valuePools ∧ Stocked next assets := by
  obtain ⟨valuePools, next, hrequire, hsame, hpools, rfl | ⟨-, hlater, hinstall⟩⟩ :=
    requirePools_eq work
  · exact ⟨valuePools, next, hrequire, hsame, hpools, hstocked⟩
  · exact ⟨valuePools, next, hrequire, hsame, hpools, hstocked.installed hlater hpools hinstall⟩

/-- One pool changes, and with it the data of its type. -/
theorem withPool (hstocked : Stocked work assets) {valuePools : ValuePools}
    (hpools : work.valuePools = some valuePools) {others : Multiset Asset} {pool : Pool}
    {chain : FreeChain} {live : List Address} (hsound : Pool.Sound pool chain live)
    (hlive : (↑live : Multiset Address) =
      others.filterMap (Asset.block? work.installations tag))
    (hhomes : ∀ tag home, .datum tag home ∈ others → home.installation ≤ work.installations)
    (hothers : ∀ other, other ≠ tag →
      others.filterMap (Asset.block? work.installations other) =
        assets.filterMap (Asset.block? work.installations other)) :
    Stocked (work.withPool valuePools tag pool) others where
  homes := hhomes
  current := by
    intro changed hchanged
    obtain rfl := Option.some.inj hchanged
    exact hstocked.current valuePools hpools
  served := by
    intro changed hchanged other
    obtain rfl := Option.some.inj hchanged
    by_cases heq : other = tag
    · subst heq
      rw [ValuePools.pool_setPool_self]
      exact ⟨chain, live, hsound, hlive⟩
    · rw [ValuePools.pool_setPool_ne _ heq]
      obtain ⟨chain, live, hsound, hlive⟩ := hstocked.served valuePools hpools other
      exact ⟨chain, live, hsound, hlive.trans (hothers other heq).symm⟩

theorem cons_datum_ne {other : TypeTag} (hne : other ≠ tag) (installation : Nat) (home : Home)
    (assets : Multiset Asset) :
    (Asset.datum tag home ::ₘ assets).filterMap (Asset.block? installation other) =
      assets.filterMap (Asset.block? installation other) :=
  Multiset.filterMap_cons_none _ _ (Asset.block?_datum_ne hne.symm installation home)

/-- A new datum takes a block of the pool for its type; if there is none to be had,
nothing changes. -/
theorem alloc (hstocked : Stocked work assets) (tag : TypeTag) :
    Ends
      (fun block next => SameTokens work next ∧
        Stocked next (.datum tag { installation := next.installations, block } ::ₘ assets))
      (fun next => SameTokens work next ∧ Stocked next assets)
      (onPool tag Pool.alloc work) := by
  obtain ⟨valuePools, ready, hrequire, hsame, hpools, hready⟩ := hstocked.require
  obtain ⟨chain, live, hsound, hlive⟩ := hready.served valuePools hpools tag
  rw [onPool_require tag Pool.alloc hrequire hpools, onPool_eq hpools]
  cases hrun : Pool.alloc.run (valuePools.pool tag) with
  | ok block pool =>
    refine .ok ⟨hsame.trans (.withPool ready valuePools tag pool), ?_⟩
    refine hready.withPool hpools (hsound.alloc hrun) ?_ ?_ fun other hne =>
      cons_datum_ne hne _ _ assets
    · exact (congrArg (block ::ₘ ·) hlive).trans
        (Multiset.filterMap_cons_some _ _ _ (Asset.block?_datum_self _ tag block)).symm
    · intro type home hmem
      obtain hnew | hold := Multiset.mem_cons.1 hmem
      · cases hnew
        exact Nat.le_refl ready.installations
      · exact hready.homes type home hold
  | error fault pool =>
    obtain ⟨rfl, -⟩ := Pool.alloc_eq_error_iff.1 hrun
    exact .fault ⟨hsame.trans (.withPool ready valuePools tag _),
      hready.withPool hpools hsound hlive hready.homes fun _ _ => rfl⟩

theorem reserve (hstocked : Stocked work assets) (tag : TypeTag) (n : Nat) :
    Ends (fun _ next => SameTokens work next ∧ Stocked next assets)
      (fun next => SameTokens work next ∧ Stocked next assets)
      (Workspace.reserve tag n work) := by
  obtain ⟨valuePools, ready, hrequire, hsame, hpools, hready⟩ := hstocked.require
  obtain ⟨chain, live, hsound, hlive⟩ := hready.served valuePools hpools tag
  rw [Workspace.reserve, onPool_require tag _ hrequire hpools, onPool_eq hpools]
  cases hrun : (Pool.reserve n).run (valuePools.pool tag) with
  | ok value pool =>
    exact .ok ⟨hsame.trans (.withPool ready valuePools tag pool),
      hready.withPool hpools (hsound.reserve hrun) hlive hready.homes fun _ _ => rfl⟩
  | error fault pool =>
    obtain ⟨rfl, -⟩ := Pool.reserve_eq_error_iff.1 hrun
    exact .fault ⟨hsame.trans (.withPool ready valuePools tag _),
      hready.withPool hpools hsound hlive hready.homes fun _ _ => rfl⟩

/-- The counter of handed-out blocks is the number of data placed in the pool. -/
theorem stats (hstocked : Stocked work assets) (tag : TypeTag) :
    ∃ stats next, Workspace.stats tag work = .ok stats next ∧ SameTokens work next ∧
      Stocked next assets ∧
      stats.instantiations =
        Multiset.card (assets.filterMap (Asset.block? next.installations tag)) := by
  obtain ⟨valuePools, ready, hrequire, hsame, hpools, hready⟩ := hstocked.require
  obtain ⟨chain, live, hsound, hlive⟩ := hready.served valuePools hpools tag
  refine ⟨(valuePools.pool tag).stats,
    ready.withPool valuePools tag (valuePools.pool tag), ?_,
    hsame.trans (.withPool ready valuePools tag _),
    hready.withPool hpools hsound hlive hready.homes fun _ _ => rfl, ?_⟩
  · rw [Workspace.stats, onPool_require tag _ hrequire hpools, onPool_eq hpools]
    rfl
  · rw [hsound.instantiations]
    exact congrArg Multiset.card hlive

/-- Old pools go together with their counters. -/
theorem teardown (hstocked : Stocked work assets) :
    Stocked { work with valuePools := none } assets where
  homes := hstocked.homes
  current := by
    intro valuePools hpools
    cases hpools
  served := by
    intro valuePools hpools
    cases hpools

end Stocked

/-! ## Blocks that go back -/

/-- Two states with the same installation in place. -/
structure SameInstallation (work next : Workspace) : Prop where
  installations : next.installations = work.installations
  inPlace : next.valuePools.map ValuePools.installation =
    work.valuePools.map ValuePools.installation

theorem SameInstallation.refl (work : Workspace) : SameInstallation work work :=
  ⟨rfl, rfl⟩

theorem SameInstallation.trans {mid : Workspace} (hfirst : SameInstallation work mid)
    (hsecond : SameInstallation mid next) : SameInstallation work next :=
  ⟨hsecond.installations.trans hfirst.installations, hsecond.inPlace.trans hfirst.inPlace⟩

/-- Whether a datum was placed in pools that are no longer in place. -/
def IsBygone (work : Workspace) (home : Home) : Prop :=
  work.valuePools.map ValuePools.installation ≠ some home.installation

instance (work : Workspace) (home : Home) : Decidable (work.IsBygone home) :=
  inferInstanceAs (Decidable (_ ≠ _))

theorem freeBlock_eq {valuePools : ValuePools} (hpools : work.valuePools = some valuePools)
    (tag : TypeTag) (home : Home) :
    freeBlock tag home work =
      if valuePools.installation = home.installation then
        onPool tag (Pool.release home.block) work
      else .ok () work := by
  simp only [freeBlock, bind, EStateM.bind, get, getThe, MonadStateOf.get, EStateM.get, hpools]
  split <;> rfl

/-- A datum of pools that are gone leaves no trace in the present ones. -/
theorem freeBlock_of_isBygone {home : Home} (hbygone : work.IsBygone home) (tag : TypeTag) :
    freeBlock tag home work = .ok () work := by
  cases hpools : work.valuePools with
  | none =>
    simp only [freeBlock, bind, EStateM.bind, get, getThe, MonadStateOf.get, EStateM.get, hpools]
    rfl
  | some valuePools =>
    rw [freeBlock_eq hpools, if_neg]
    intro heq
    exact hbygone (by rw [hpools, Option.map_some, heq])

/-- The block of a datum always goes back. -/
theorem Stocked.freeBlock {home : Home} (hstocked : Stocked work (.datum tag home ::ₘ assets)) :
    ∃ next, Workspace.freeBlock tag home work = .ok () next ∧ SameTokens work next ∧
      SameInstallation work next ∧ Stocked next assets := by
  -- A block of an installation that is gone went with its pools; nothing is left to do.
  by_cases hbygone : work.IsBygone home
  · refine ⟨work, freeBlock_of_isBygone hbygone tag, .refl work, .refl work, ?_⟩
    refine ⟨fun type other hmem => hstocked.homes type other (Multiset.mem_cons_of_mem hmem),
      hstocked.current, fun valuePools hpools type => ?_⟩
    obtain ⟨chain, live, hsound, hlive⟩ := hstocked.served valuePools hpools type
    refine ⟨chain, live, hsound, hlive.trans (Multiset.filterMap_cons_none _ _ ?_)⟩
    refine Asset.block?_datum_elsewhere (fun heq => hbygone ?_) type tag
    rw [hpools, Option.map_some, hstocked.current valuePools hpools, heq]
  · obtain ⟨valuePools, hpools, hcurrent⟩ := Option.map_eq_some_iff.1 (not_not.1 hbygone)
    have hhome : home.installation = work.installations :=
      hcurrent.symm.trans (hstocked.current valuePools hpools)
    obtain ⟨chain, live, hsound, hlive⟩ := hstocked.served valuePools hpools tag
    have hblock : Asset.block? work.installations tag (.datum tag home) = some home.block := by
      rw [← hhome]
      exact Asset.block?_datum_self home.installation tag home.block
    rw [Multiset.filterMap_cons_some _ _ _ hblock] at hlive
    have hmem : home.block ∈ live := by
      rw [← Multiset.mem_coe, hlive]
      exact Multiset.mem_cons_self _ _
    refine ⟨work.withPool valuePools tag ((valuePools.pool tag).takenBack home.block), ?_,
      .withPool work valuePools tag _, ⟨rfl, by rw [hpools]; rfl⟩, ?_⟩
    · rw [freeBlock_eq hpools, if_pos hcurrent, onPool_eq hpools, hsound.release_run hmem]
    · refine hstocked.withPool hpools (hsound.takenBack hmem) ?_
        (fun type other hrest => hstocked.homes type other (Multiset.mem_cons_of_mem hrest))
        fun other hne => (cons_datum_ne hne _ _ assets).symm
      rw [← Multiset.coe_erase, hlive, Multiset.erase_cons_head]

end Workspace

end StackLang
