import StackLang.Proofs.Pool.Custody

/-!
# What a reservation is good for

A reservation of `n` blocks makes one chunk at most, whose elements are a multiple of the
block size and fill up what is missing.  From then on clients may allocate and give back in
any order: as long as they never take more than `n` blocks beyond those that came back, the
pool serves them without growing.

What carries this is the length of the free list, which one exchange changes by one, up or
down, while the number of blocks that may still be taken changes along with it.
-/

namespace StackLang.Pool

variable {pool next : Pool} {custody : Custody} {call : Call} {later calls : List Call}
  {chain : FreeChain} {live : List Address} {block : Address} {n : Nat}

/-! ## The block size stays positive -/

/-- A pool grows by some elements, now and whenever its block size has been scaled. -/
structure Growable (pool : Pool) : Prop where
  initial : 0 < pool.config.initialBlockSize
  factor : 0 < pool.config.growthFactor
  blockSize : 0 < pool.stats.blockSize

theorem growable_fresh {elementSize alignment : Nat} {config : PoolConfig} {initialized : Bool}
    (hcheck : config.check = .ok ()) :
    (fresh elementSize alignment config initialized).Growable := by
  unfold PoolConfig.check at hcheck
  split at hcheck
  · cases hcheck
  · split at hcheck
    · cases hcheck
    · exact ⟨Nat.pos_of_ne_zero ‹_›, Nat.pos_of_ne_zero ‹_›, Nat.pos_of_ne_zero ‹_›⟩

theorem Growable.scaled (hgrowable : pool.Growable) : 0 < pool.scaledBlockSize := by
  have hword : 0 < wordLimit - 1 := by decide
  exact Nat.lt_min.2 ⟨Nat.mul_pos hgrowable.blockSize hgrowable.factor, hword⟩

theorem Growable.of_grow (hgrowable : pool.Growable) (hrun : grow.run pool = .ok () next) :
    next.Growable := by
  obtain rfl := grow_ok hrun
  exact ⟨hgrowable.initial, hgrowable.factor, hgrowable.scaled⟩

theorem Growable.of_alloc (hgrowable : pool.Growable) (hrun : alloc.run pool = .ok block next) :
    next.Growable := by
  obtain ⟨supply, rest, hsupply, -, rfl⟩ := alloc_ok hrun
  have hgrown : supply.Growable := by
    obtain rfl | hgrow := hsupply
    · exact hgrowable
    · exact hgrowable.of_grow hgrow
  exact ⟨hgrown.initial, hgrown.factor, hgrown.blockSize⟩

theorem Growable.of_action {answer : Option Address} (hgrowable : pool.Growable)
    (hrun : call.action.run pool = .ok answer next) : next.Growable := by
  cases call with
  | alloc =>
    obtain ⟨block, hblock, -⟩ := run_map_eq_ok_iff.1 hrun
    exact hgrowable.of_alloc hblock
  | release block =>
    obtain ⟨_, hback, -⟩ := run_map_eq_ok_iff.1 hrun
    obtain rfl := release_ok hback
    exact ⟨hgrowable.initial, hgrowable.factor, hgrowable.blockSize⟩
  | grow =>
    obtain ⟨_, hgrow, -⟩ := run_map_eq_ok_iff.1 hrun
    exact hgrowable.of_grow hgrow
  | growBy n =>
    obtain ⟨_, hgrow, -⟩ := run_map_eq_ok_iff.1 hrun
    obtain rfl := growBy_ok hgrow
    exact ⟨hgrowable.initial, hgrowable.factor, hgrowable.blockSize⟩
  | reserve n =>
    obtain ⟨_, hreserve, -⟩ := run_map_eq_ok_iff.1 hrun
    obtain ⟨-, rfl⟩ | ⟨-, rfl⟩ := reserve_ok hreserve
    · exact hgrowable
    · exact ⟨hgrowable.initial, hgrowable.factor, hgrowable.blockSize⟩
  | init elementSize config =>
    obtain ⟨_, hinit, -⟩ := run_map_eq_ok_iff.1 hrun
    obtain ⟨-, hcheck, rfl⟩ := init_ok hinit
    have hfresh : (fresh (max elementSize linkSize) linkAlignment config true).Growable :=
      growable_fresh hcheck
    exact ⟨hfresh.initial, hfresh.factor, hfresh.blockSize⟩

theorem Custody.Reached.growable (hreached : custody.Reached) : custody.pool.Growable := by
  induction hreached with
  | new => exact growable_fresh rfl
  | @made size alignment config pool hmake =>
    cases hcheck : config.check with
    | error fault =>
      rw [forLayout, hcheck] at hmake
      cases hmake
    | ok value =>
      rw [forLayout, hcheck] at hmake
      obtain rfl := Except.ok.inj hmake
      exact growable_fresh hcheck
  | copied _ ih => exact ⟨ih.initial, ih.factor, ih.initial⟩
  | @called custody _ call hallowed ih =>
    cases hrun : call.action.run custody.pool with
    | error fault pool =>
      rw [Custody.make_of_fault hrun]
      exact ih
    | ok answer pool =>
      simp only [Custody.make, hrun]
      exact ih.of_action hrun

/-! ## What a reservation adds -/

/-- What a reservation of `n` blocks makes of a pool. -/
structure Reserved (n : Nat) (pool next : Pool) : Prop where
  capacity : n ≤ next.stats.capacity
  blockSize : next.stats.blockSize = pool.stats.blockSize
  instantiations : next.stats.instantiations = pool.stats.instantiations
  /-- If there is enough already, nothing happens. -/
  enough : n ≤ pool.stats.capacity → next = pool
  /-- Otherwise one chunk is added, which is not larger than it must be. -/
  chunk : pool.stats.capacity < n → ∃ chunk count, next.chunks = chunk :: pool.chunks ∧
    next.stats.grows = pool.stats.grows + 1 ∧ 0 < count ∧
    chunk.elements = count * pool.stats.blockSize ∧
    n - pool.stats.capacity ≤ chunk.elements ∧
    chunk.elements ≤ n - pool.stats.capacity + pool.stats.blockSize

/-- The elements that are added are more than those that are missing, by one block size at
most. -/
theorem reservation_bounds (hblock : 0 < pool.stats.blockSize) :
    n - pool.stats.capacity < pool.reservation n ∧
      pool.reservation n ≤ n - pool.stats.capacity + pool.stats.blockSize := by
  have hdiv := Nat.div_add_mod (n - pool.stats.capacity) pool.stats.blockSize
  have hmod := Nat.mod_lt (n - pool.stats.capacity) hblock
  rw [reservation, Nat.succ_mul, Nat.mul_comm]
  omega

theorem Growable.reserved (hgrowable : pool.Growable) (hrun : (reserve n).run pool = .ok () next) :
    Reserved n pool next := by
  obtain ⟨henough, rfl⟩ | ⟨hmissing, rfl⟩ := reserve_ok hrun
  · exact ⟨henough, rfl, rfl, fun _ => rfl, fun hmissing => absurd henough (Nat.not_le.2 hmissing)⟩
  · obtain ⟨hlower, hupper⟩ := reservation_bounds (n := n) hgrowable.blockSize
    refine ⟨?_, rfl, rfl, fun henough => absurd hmissing (Nat.not_lt.2 henough), fun _ => ?_⟩
    · simp only [grown]
      omega
    · exact ⟨pool.nextChunkOf (pool.reservation n), _, rfl, rfl, Nat.succ_pos _, rfl,
        Nat.le_of_lt hlower, hupper⟩

/-! ## Exchanges -/

/-- Clients allocate, and give back what they hold; at no point have they taken more than
`n` blocks beyond those that came back. -/
structure Exchange (n : Nat) (custody : Custody) (calls : List Call) : Prop where
  kinds : ∀ call ∈ calls, call = .alloc ∨ call.isRelease = true
  held : ∀ i block, calls[i]? = some (.release block) →
    block ∈ (custody.session (calls.take i)).2.live
  bounded : ∀ i, (calls.take i).count .alloc ≤ (calls.take i).countP Call.isRelease + n

namespace Exchange

theorem nil : Exchange n custody [] :=
  ⟨by simp, by simp, by simp⟩

/-- Before an exchange one more call can be made if it changes the balance by as much as it
changes the bound. -/
theorem cons_iff {more : Nat} (hkind : call = .alloc ∨ call.isRelease = true)
    (hheld : ∀ block, call = .release block → block ∈ custody.live)
    (hbalance : ∀ calls : List Call,
      (call :: calls).count .alloc ≤ (call :: calls).countP Call.isRelease + n ↔
        calls.count .alloc ≤ calls.countP Call.isRelease + more) :
    Exchange n custody (call :: later) ↔ Exchange more (custody.make call).2 later := by
  constructor
  · intro hexchange
    exact ⟨fun other hmem => hexchange.kinds other (List.mem_cons_of_mem _ hmem),
      fun i block hget => hexchange.held (i + 1) block hget,
      fun i => (hbalance _).1 (hexchange.bounded (i + 1))⟩
  · intro hlater
    refine ⟨List.forall_mem_cons.2 ⟨hkind, hlater.kinds⟩, fun i block hget => ?_, fun i => ?_⟩
    · cases i with
      | zero => exact hheld block (Option.some.inj hget)
      | succ i => exact hlater.held i block hget
    · cases i with
      | zero => exact Nat.zero_le _
      | succ i => exact (hbalance _).2 (hlater.bounded i)

theorem alloc_iff :
    Exchange n custody (.alloc :: later) ↔
      ∃ fewer, n = fewer + 1 ∧ Exchange fewer (custody.make .alloc).2 later := by
  have hlater (fewer : Nat) : Exchange (fewer + 1) custody (.alloc :: later) ↔
      Exchange fewer (custody.make .alloc).2 later := by
    refine cons_iff (.inl rfl) (fun block heq => by cases heq) fun calls => ?_
    rw [List.count_cons_self, List.countP_cons_of_neg Bool.false_ne_true]
    omega
  constructor
  · intro hexchange
    have hfirst : 1 ≤ n := by simpa [Call.isRelease] using hexchange.bounded 1
    obtain ⟨fewer, rfl⟩ := Nat.exists_eq_add_of_le' hfirst
    exact ⟨fewer, rfl, (hlater fewer).1 hexchange⟩
  · rintro ⟨fewer, rfl, hexchange⟩
    exact (hlater fewer).2 hexchange

theorem release_iff :
    Exchange n custody (.release block :: later) ↔
      block ∈ custody.live ∧ Exchange (n + 1) (custody.make (.release block)).2 later := by
  have hlater (hlive : block ∈ custody.live) : Exchange n custody (.release block :: later) ↔
      Exchange (n + 1) (custody.make (.release block)).2 later := by
    refine cons_iff (.inr rfl) (fun other heq => Call.release.inj heq ▸ hlive) fun calls => ?_
    rw [List.count_cons_of_ne (by simp), List.countP_cons_of_pos rfl]
    omega
  constructor
  · intro hexchange
    have hlive := hexchange.held 0 block rfl
    exact ⟨hlive, (hlater hlive).1 hexchange⟩
  · rintro ⟨hlive, hexchange⟩
    exact (hlater hlive).2 hexchange

/-- Every exchange is served from the free list. -/
theorem served (hexchange : Exchange n custody calls)
    (hsound : Sound custody.pool chain custody.live) (hroom : n ≤ custody.pool.freeList.length) :
    (∀ made ∈ (custody.session calls).1, made.2.isOk = true) ∧
      (custody.session calls).2.pool.stats.grows = custody.pool.stats.grows ∧
      (custody.session calls).2.pool.stats.total = custody.pool.stats.total := by
  induction calls generalizing n custody chain with
  | nil => exact ⟨by simp [Custody.session], rfl, rfl⟩
  | cons call later ih =>
    rw [Custody.session_cons]
    obtain rfl | hrelease := hexchange.kinds call (by simp)
    · obtain ⟨fewer, rfl, hlater⟩ := alloc_iff.1 hexchange
      -- As there is room for one more allocation, there is a free block for this one.
      obtain ⟨block, rest, hfree⟩ := List.exists_cons_of_length_pos (Nat.lt_of_succ_le
        (Nat.le_trans (Nat.succ_le_succ (Nat.zero_le fewer)) hroom))
      have hmake : custody.make .alloc =
          (.ok (some block), ⟨custody.pool.handedOut rest, block :: custody.live⟩) := by
        simp [Custody.make, Call.action, alloc_of_free hfree, Call.heldAfter]
      rw [hmake] at hlater ⊢
      have hrest : fewer ≤ rest.length := by
        rw [hfree] at hroom
        simpa using hroom
      obtain ⟨hok, hgrows, htotal⟩ := ih hlater (hsound.handedOut hfree) hrest
      exact ⟨by simpa [Except.isOk, Except.toBool] using hok, hgrows, htotal⟩
    · cases call with
      | release block =>
        obtain ⟨hlive, hlater⟩ := release_iff.1 hexchange
        have hmake : custody.make (.release block) =
            (.ok none, ⟨custody.pool.takenBack block, custody.live.erase block⟩) := by
          simp [Custody.make, Call.action, hsound.release_run hlive, Call.heldAfter]
        rw [hmake] at hlater ⊢
        have hrest : n + 1 ≤ (custody.pool.takenBack block).freeList.length :=
          Nat.succ_le_succ hroom
        obtain ⟨hok, hgrows, htotal⟩ := ih hlater (hsound.takenBack hlive) hrest
        exact ⟨by simpa [Except.isOk, Except.toBool] using hok, hgrows, htotal⟩
      | _ => cases hrelease

end Exchange

/-- A reservation either faults, for one of its reasons and without a trace, or makes sure that
`n` blocks are free: it adds nothing if there are enough, and otherwise one chunk, whose
elements are a multiple of the block size and exceed what is missing by one block size at
most.  After that every exchange in which at no point more than `n` blocks have been taken
beyond those that came back is served without a fault and without growing. -/
theorem Custody.Reached.reserve_serves (hreached : custody.Reached) (n : Nat) :
    (∃ fault, custody.pool.Obstacle (.reserve n) fault ∧
      (reserve n).run custody.pool = .error fault custody.pool) ∨
    ∃ next, (reserve n).run custody.pool = .ok () next ∧ Reserved n custody.pool next ∧
      ∀ calls, Exchange n ⟨next, custody.live⟩ calls →
        let after := Custody.session calls ⟨next, custody.live⟩
        (∀ made ∈ after.1, made.2.isOk = true) ∧
          after.2.pool.stats.grows = next.stats.grows ∧
          after.2.pool.stats.total = next.stats.total := by
  obtain ⟨chain, huse⟩ := hreached.inUse
  cases hrun : (reserve n).run custody.pool with
  | error fault next =>
    obtain ⟨rfl, hobstacle⟩ := reserve_eq_error_iff.1 hrun
    exact .inl ⟨fault, hobstacle, rfl⟩
  | ok value next =>
    have hsound := huse.sound.reserve hrun
    have hreserved := hreached.growable.reserved hrun
    refine .inr ⟨next, rfl, hreserved, fun calls hexchange => hexchange.served hsound ?_⟩
    rw [← hsound.capacity]
    exact hreserved.capacity

/-- Three blocks of six are handed out when five more are reserved.  Then a client gives back
one of them and takes six. -/
theorem reserve_serves_exchange :
    ∃ (custody : Custody) (next : Pool), custody.Reached ∧
      (reserve 5).run custody.pool = .ok () next ∧
      next.chunks = [⟨2, 8⟩, ⟨1, 4⟩, ⟨0, 2⟩] ∧ Reserved 5 custody.pool next ∧
      let calls := [.release ⟨0, 24⟩, .alloc, .alloc, .alloc, .alloc, .alloc, .alloc]
      let after := Custody.session calls ⟨next, custody.live⟩
      Exchange 5 ⟨next, custody.live⟩ calls ∧ (∀ made ∈ after.1, made.2.isOk = true) ∧
        after.2.pool.stats.grows = 3 ∧ after.2.pool.stats.total = 14 := by
  have hmake : forLayout 24 8 ⟨2, 2⟩ = .ok (fresh 24 8 ⟨2, 2⟩ true) := rfl
  have hallowed (custody : Custody) : custody.Allowed .alloc := trivial
  have hfirst := (Custody.Reached.made hmake).called (hallowed _)
  have hheld := (hfirst.called (hallowed _)).called (hallowed _)
  obtain ⟨fault, -, hfault⟩ | ⟨next, hrun, hreserved, hserves⟩ := hheld.reserve_serves 5
  · cases hfault
  · have hexchange (custody : Custody) (hlive : ⟨0, 24⟩ ∈ custody.live) : Exchange 5 custody
        [.release ⟨0, 24⟩, .alloc, .alloc, .alloc, .alloc, .alloc, .alloc] := by
      rw [Exchange.release_iff]
      refine ⟨hlive, ?_⟩
      iterate 6 refine Exchange.alloc_iff.2 ⟨_, rfl, ?_⟩
      exact .nil
    have htrade := hexchange ⟨next, [⟨1, 0⟩, ⟨0, 24⟩, ⟨0, 0⟩]⟩ (by simp)
    obtain ⟨hok, hgrows, htotal⟩ := hserves _ htrade
    refine ⟨_, next, hheld, hrun, ?_, hreserved, htrade, hok, hgrows.trans ?_, htotal.trans ?_⟩ <;>
      (cases hrun; rfl)

end StackLang.Pool
