import StackLang.Proofs.Storage.Making

/-!
# What slot operations have in hand

Each operation on slots begins and ends with the same things in hand, whether there is room
for all data or not: what it makes goes into a slot, and what it takes out of a slot goes.
Installing pools and making room in them leaves everything where it is.
-/

namespace StackLang

theorem Token.assetsOfAll_modify {slots : List Slot} {i : Nat} (hlt : i < slots.length)
    (f : Slot → Slot) :
    assetsOfAll ((slots.modify i f).map Slot.token) + slots[i].token.assets =
      assetsOfAll (slots.map Slot.token) + (f slots[i]).token.assets := by
  induction slots generalizing i with
  | nil => exact absurd hlt (Nat.not_lt_zero i)
  | cons slot rest ih =>
    cases i with
    | zero =>
      simp only [List.modify_zero_cons, List.map_cons, assetsOfAll_cons, List.getElem_cons_zero]
      ac_rfl
    | succ i =>
      have hrest := ih (Nat.lt_of_succ_lt_succ hlt)
      simp only [List.modify_succ_cons, List.map_cons, assetsOfAll_cons, List.getElem_cons_succ,
        add_assoc, hrest]

namespace Workspace

variable {work next : Workspace} {hand given taken : Multiset Asset} {i : Nat}

/-! ## Slots -/

/-- The workspace with one slot changed. -/
def withSlot (i : Nat) (f : Slot → Slot) (work : Workspace) : Workspace :=
  { work with slots := work.slots.modify i f }

theorem modifySlot_eq (i : Nat) (f : Slot → Slot) (work : Workspace) :
    modifySlot i f work = .ok () (work.withSlot i f) := rfl

@[simp]
theorem size_withSlot (i : Nat) (f : Slot → Slot) (work : Workspace) :
    (work.withSlot i f).slots.size = work.slots.size := by
  simp [withSlot]

theorem slot_withSlot_self {f : Slot → Slot} (hlt : i < work.slots.size) :
    (work.withSlot i f).slot i = f (work.slot i) := by
  simp [slot, withSlot, hlt, Array.getElem_modify_self]

theorem slot_withSlot_ne {f : Slot → Slot} {j : Nat} (hne : j ≠ i) :
    (work.withSlot i f).slot j = work.slot j := by
  simp [slot, withSlot, Array.getElem?_modify, Ne.symm hne]

theorem withSlot_of_le (f : Slot → Slot) (hle : work.slots.size ≤ i) :
    work.withSlot i f = work := by
  have hsame : work.slots.modify i f = work.slots := by
    apply Array.toList_inj.1
    rw [Array.toList_modify, List.modify_eq_self (by simpa using hle)]
  rw [withSlot, hsame]

theorem token_of_le (hle : work.slots.size ≤ i) : work.token i = .void := by
  simp [token, slot, Array.getElem?_eq_none hle]

theorem slotAssets_withSlot (hlt : i < work.slots.size) (f : Slot → Slot) :
    (work.withSlot i f).slotAssets + (work.token i).assets =
      work.slotAssets + (f (work.slot i)).token.assets := by
  have hmodify := Token.assetsOfAll_modify (Array.length_toList.symm ▸ hlt) f
  have hslot : work.slot i = work.slots[i] := by simp [slot, hlt]
  simpa [slotAssets, withSlot, token, hslot, Array.toList_modify] using hmodify

/-- What a slot takes in goes out of hand, and what it gives up comes into it. -/
theorem Holds.writeSlot {f : Slot → Slot} (hholds : Holds work (taken + hand))
    (hlt : i < work.slots.size)
    (hslot : (f (work.slot i)).token.assets + given = (work.token i).assets + taken) :
    Holds (work.withSlot i f) (given + hand) := by
  refine hholds.exchange rfl rfl rfl (List.Subset.refl _) (Nat.le_refl _) ?_ hholds.emptied
  rw [assets_eq, assets_eq]
  refine add_right_cancel (b := (work.token i).assets) ?_
  calc given + hand + ((work.withSlot i f).slotAssets + work.store.assets) + (work.token i).assets
    _ = given + hand + work.store.assets +
        ((work.withSlot i f).slotAssets + (work.token i).assets) := by ac_rfl
    _ = hand + work.store.assets + work.slotAssets + ((f (work.slot i)).token.assets + given) := by
      rw [slotAssets_withSlot hlt]
      ac_rfl
    _ = taken + hand + (work.slotAssets + work.store.assets) + (work.token i).assets := by
      rw [hslot]
      ac_rfl

/-- A slot is made void, and its token is in hand. -/
theorem Holds.voidSlot (hholds : Holds work hand) {f : Slot → Slot}
    (hvoid : (f (work.slot i)).token = .void) :
    Holds (work.withSlot i f) ((work.token i).assets + hand) := by
  by_cases hlt : i < work.slots.size
  · rw [← zero_add hand] at hholds
    exact hholds.writeSlot hlt (by simp [hvoid])
  · rw [withSlot_of_le f (Nat.le_of_not_lt hlt), token_of_le (Nat.le_of_not_lt hlt)]
    simpa using hholds

/-- An action ends with nothing in hand but `hand`, whether it faults or not. -/
def Concludes {α : Type} (action : Work α) (work : Workspace) (hand : Multiset Asset) : Prop :=
  Ends (fun _ next => Holds next hand) (fun next => Holds next hand) (action work)

variable {α β : Type}

theorem Concludes.pure {value : α} (hholds : Holds work hand) :
    Concludes (Pure.pure value) work hand :=
  .ok hholds

theorem Concludes.of_run {action : Work α} {value : α} (hrun : action work = .ok value next)
    (hnext : Holds next hand) : Concludes action work hand := by
  rw [Concludes, hrun]
  exact .ok hnext

theorem Concludes.bind {action : Work α} {next : α → Work β} (hfirst : Concludes action work hand)
    (hnext : ∀ result later, Holds later hand → Concludes (next result) later hand) :
    Concludes (action >>= next) work hand :=
  Ends.bind hfirst hnext

theorem Brings.concludes {worth : α → Multiset Asset} {action : Work α}
    {next : α → Work β} (hfirst : Brings worth action work hand)
    (hnext : ∀ result later, Extends work later → Holds later (worth result + hand) →
      Concludes (next result) later hand) : Concludes (action >>= next) work hand := by
  refine Ends.bind hfirst ?_
  rintro result later ⟨hextends, hlater⟩
  exact hnext result later hextends hlater

theorem GivesBack.concludes {action : Work Unit} (hgives : GivesBack action work hand) :
    Concludes action work hand :=
  hgives.cleansUp

/-- A token in hand goes into a slot, and the token that was there goes. -/
theorem Holds.assign {contents : Slot} (hholds : Holds work (contents.token.assets + hand))
    (hlt : i < work.slots.size) : Concludes (Workspace.assign i contents) work hand := by
  have hnext : Holds (work.withSlot i fun _ => contents) ((work.token i).assets + hand) :=
    hholds.writeSlot hlt (add_comm _ _)
  exact .get (.after (modifySlot_eq i _ work) hnext.release.concludes)

/-- A token is made, and put into a slot. -/
theorem Brings.assign {action : Work Token} (hfirst : Brings Token.assets action work hand)
    (hlt : i < work.slots.size) :
    Concludes (action >>= fun token => Workspace.assign i { token }) work hand :=
  hfirst.concludes fun token later hextends hlater =>
    Holds.assign hlater (by rwa [hextends.slots])

theorem Holds.addSlot (hholds : Holds work hand) {draft : Draft}
    (hmade : Made work draft.dictionaries) : Concludes (Workspace.addSlot draft) work hand := by
  refine (draft.placeNew_brings hmade hholds).concludes fun token later _ hlater => .ok ?_
  refine hlater.exchange rfl rfl rfl (List.Subset.refl _) (Nat.le_refl _) ?_ hlater.emptied
  simp only [assets_eq, slotAssets, Array.toList_push, List.map_append, List.map_cons, List.map_nil,
    Token.assetsOfAll_append, Token.assetsOfAll_cons, Token.assetsOfAll_nil, add_zero]
  ac_rfl

theorem Holds.put (hholds : Holds work hand) {draft : Draft}
    (hmade : Made work draft.dictionaries) (hlt : i < work.slots.size) :
    Concludes (Workspace.put i draft) work hand :=
  (draft.placeNew_brings hmade hholds).assign hlt

/-- A slot is cleared, whatever it holds, and nothing else changes but what goes with its
token. -/
theorem Holds.clearSlot (hholds : Holds work hand) (i : Nat) :
    ∃ next, Workspace.clearSlot i work = .ok () next ∧ Holds next hand ∧
      Shrinks (work.withSlot i Slot.clear) next :=
  (hholds.voidSlot (f := Slot.clear) rfl).release

theorem Holds.moveSlot (hholds : Holds work hand) (source : Nat) {target : Nat}
    (hlt : target < work.slots.size) : Concludes (Workspace.moveSlot source target) work hand := by
  have hvoid := hholds.voidSlot (i := source) (f := fun _ => {}) rfl
  exact .get (.after (modifySlot_eq source _ work) (hvoid.assign (by simpa using hlt)))

/-- Two slots are exchanged; a slot that is exchanged with itself loses its token. -/
theorem Holds.swapSlots (hholds : Holds work hand) {j : Nat} (hfirst : i < work.slots.size)
    (hsecond : j < work.slots.size) : Concludes (Workspace.swapSlots i j) work hand := by
  have hvoid := hholds.voidSlot (i := i) (f := fun _ => {}) rfl
  have hfilled : Holds ((work.withSlot i fun _ => {}).withSlot j fun _ => work.slot i)
      (((work.withSlot i fun _ => {}).token j).assets + hand) :=
    hvoid.writeSlot (by simpa using hsecond) (add_comm _ _)
  refine .get (.after (modifySlot_eq i _ work) (.get (.after (modifySlot_eq j _ _) ?_)))
  exact hfilled.assign (by simpa using hfirst)

theorem token_mem_tokens (hlt : i < work.slots.size) : work.token i ∈ work.tokens := by
  refine List.mem_append_left _ (List.mem_map.2 ⟨work.slots[i], by simp, ?_⟩)
  simp [token, slot, hlt]

theorem Holds.copyOf (hholds : Holds work hand) {part : Token}
    (hpart : part ∈ Token.partsOfAll work.tokens) : Brings Token.assets part.copy work hand :=
  (part.copy_ends (hholds.knows hpart) hholds).mono
    (fun _ _ hend => ⟨hend.1.extends, hend.2⟩) fun _ hend => hend

theorem Holds.copySlot (hholds : Holds work hand) (source : Nat) {target : Nat}
    (hlt : target < work.slots.size) : Concludes (Workspace.copySlot source target) work hand := by
  have hcopy : Brings Token.assets (work.token source).copy work hand := by
    by_cases hsource : source < work.slots.size
    · exact hholds.copyOf (Token.mem_partsOfAll.2 ⟨_, token_mem_tokens hsource,
        Token.mem_parts_self _⟩)
    · rw [token_of_le (Nat.le_of_not_lt hsource), Token.copy]
      exact .pure (by simpa using hholds)
  exact .get (hcopy.assign hlt)

theorem lt_of_isA {tag : TypeTag} (hisA : (work.token i).isA tag = true) :
    i < work.slots.size := by
  by_contra hle
  rw [token_of_le (Nat.le_of_not_lt hle)] at hisA
  cases hisA

/-- A token in hand is appended to the array in a slot. -/
theorem Holds.pushItem {item : Token} (hholds : Holds work (item.assets + hand))
    (harray : (work.token i).isA .array = true) :
    Concludes (Workspace.pushItem i item) work hand := by
  have hlt := lt_of_isA harray
  rw [← zero_add hand]
  refine .ok (hholds.writeSlot hlt ?_)
  change (Token.mapValue _ (work.token i)).assets + 0 = _
  generalize work.token i = token at harray
  cases token with
  | void => cases harray
  | datum value attributes =>
    cases value with
    | array items =>
      simp [Token.mapValue, Token.assets_datum, Value.assets, Value.tag]
    | _ => cases harray

theorem Holds.append (hholds : Holds work hand) {draft : Draft}
    (hmade : Made work draft.dictionaries) (i : Nat) :
    Concludes (Workspace.append i draft) work hand := by
  rw [Workspace.append]
  refine .after rfl ?_
  split
  case isTrue harray =>
    refine (draft.placeNew_brings hmade hholds).concludes fun item later hextends hlater => ?_
    have hsame : later.token i = work.token i := by rw [token, token, slot, slot, hextends.slots]
    exact (hlater.pushItem (hsame ▸ harray)).bind fun _ last hlast => .pure hlast
  case isFalse => exact .ok hholds

/-! ## Pools -/

theorem Holds.reserve (hholds : Holds work hand) (tag : TypeTag) (n : Nat) :
    Concludes (Workspace.reserve tag n) work hand := by
  obtain ⟨bodies, hbooks⟩ := hholds.books
  exact (hbooks.stocked.reserve tag n).mono
    (fun _ _ hend => hholds.restocked hbooks hend.1 hend.2)
    fun _ hend => hholds.restocked hbooks hend.1 hend.2

theorem Holds.stats (hholds : Holds work hand) (tag : TypeTag) :
    Concludes (Workspace.stats tag) work hand := by
  obtain ⟨bodies, hbooks⟩ := hholds.books
  obtain ⟨stats, next, hrun, hsame, hstocked, -⟩ := hbooks.stocked.stats tag
  exact .of_run hrun (hholds.restocked hbooks hsame hstocked)

theorem Holds.teardown (hholds : Holds work hand) : Concludes Workspace.teardown work hand := by
  obtain ⟨bodies, hbooks⟩ := hholds.books
  exact .ok (hholds.restocked hbooks ⟨rfl, rfl, rfl⟩ hbooks.stocked.teardown)

theorem install_eq (config : PoolConfig) (work : Workspace) :
    Workspace.install config work =
      let told := work.withStore (work.store.report
        (.installingPools config.initialBlockSize config.growthFactor))
      match ValuePools.install (work.installations + 1) config with
      | .error fault => .error fault told
      | .ok valuePools => .ok ()
          { told with valuePools := some valuePools, installations := work.installations + 1 } := by
  simp only [Workspace.install, bind, EStateM.bind, modify, modifyGet, MonadStateOf.modifyGet,
    EStateM.modifyGet, get, getThe, MonadStateOf.get, EStateM.get]
  cases ValuePools.install (work.installations + 1) config <;> rfl

theorem Holds.install (hholds : Holds work hand) (config : PoolConfig) :
    Concludes (Workspace.install config) work hand := by
  let told := work.withStore (work.store.report
    (.installingPools config.initialBlockSize config.growthFactor))
  have htold : Holds told hand :=
    hholds.exchange rfl rfl rfl (List.Subset.refl _) (Nat.le_refl _) rfl hholds.emptied
  obtain ⟨bodies, hbooks⟩ := htold.books
  rw [Concludes, install_eq]
  cases hinstall : ValuePools.install (work.installations + 1) config with
  | error fault => exact .fault htold
  | ok valuePools =>
    exact .ok (htold.restocked hbooks ⟨rfl, rfl, rfl⟩ (hbooks.stocked.installed rfl rfl hinstall))

end Workspace

end StackLang
