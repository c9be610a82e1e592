import StackLang.Proofs.Pool.Accounting

/-!
# Pools in the hands of clients

A client asks a pool for one thing after the other and is told each time what came of it.
It may ask for anything; only what it gives back must be a block that it holds, or, if
nobody holds any, one of the free blocks, which the pool notices.  A fault is an answer
like any other, and the client may go on.

A call faults exactly if there is an obstacle, and then it leaves no trace: all that comes
later is as if the call had not been made.
-/

namespace StackLang.Pool

/-- What a client may ask of a pool. -/
inductive Call where
  | alloc
  | release (block : Address)
  | grow
  | growBy (n : Nat)
  | reserve (n : Nat)
  | init (elementSize : Nat) (config : PoolConfig)
  deriving DecidableEq, Repr

namespace Call

/-- What a call does; only an allocation is answered with a block. -/
def action : Call → PoolAction (Option Address)
  | alloc => some <$> Pool.alloc
  | release block => (fun _ => none) <$> Pool.release block
  | grow => (fun _ => none) <$> Pool.grow
  | growBy n => (fun _ => none) <$> Pool.growBy n
  | reserve n => (fun _ => none) <$> Pool.reserve n
  | init elementSize config => (fun _ => none) <$> Pool.init elementSize config

/-- The blocks that are held after a call that was answered. -/
def heldAfter : Call → Option Address → List Address → List Address
  | release block, _, live => live.erase block
  | _, some block, live => block :: live
  | _, none, live => live

/-- Whether a call gives back a block. -/
def isRelease : Call → Bool
  | release _ => true
  | _ => false

end Call

/-- What makes a call fault. -/
def Obstacle (pool : Pool) : Call → Fault → Prop
  | .alloc, fault => pool.freeList = [] ∧ pool.Unobtainable pool.stats.blockSize fault
  | .release _, fault => pool.stats.instantiations = 0 ∧ fault = .freeWithoutOutstanding
  | .grow, fault => pool.Unobtainable pool.stats.blockSize fault
  | .growBy n, fault => pool.Unobtainable n fault
  | .reserve n, fault =>
    pool.stats.capacity < n ∧
      if wordLimit ≤ pool.reservation n then fault = .arithmeticOverflow
      else pool.Unobtainable (pool.reservation n) fault
  | .init _ config, fault =>
    if pool.stats.instantiations ≠ 0 then fault = .initWhileOutstanding
    else if config.initialBlockSize = 0 then fault = .zeroBlockSize
    else config.growthFactor = 0 ∧ fault = .zeroGrowthFactor

/-- A pool and the blocks that its clients hold. -/
structure Custody where
  pool : Pool
  live : List Address

/-- What a client is told: a block if it asked for one, or why the call faulted. -/
abbrev Answer := Except Fault (Option Address)

namespace Custody

/-- A client gives back what it holds, or, when nobody holds anything, what is free. -/
def Allowed (custody : Custody) : Call → Prop
  | .release block =>
    block ∈ custody.live ∨ (custody.live = [] ∧ block ∈ custody.pool.freeList)
  | _ => True

/-- One call, its answer and what it leaves behind. -/
def make (call : Call) (custody : Custody) : Answer × Custody :=
  match call.action.run custody.pool with
  | .ok answer pool => (.ok answer, ⟨pool, call.heldAfter answer custody.live⟩)
  | .error fault pool => (.error fault, ⟨pool, custody.live⟩)

/-- Calls one after the other with their answers; a fault does not end the session. -/
def session : List Call → Custody → List (Call × Answer) × Custody
  | [], custody => ([], custody)
  | call :: later, custody =>
    let (answer, next) := custody.make call
    let (record, last) := session later next
    ((call, answer) :: record, last)

/-- What becomes of new pools and of copies when clients ask for what they may. -/
inductive Reached : Custody → Prop where
  | new : Reached ⟨Pool.new, []⟩
  | made {size alignment : Nat} {config : PoolConfig} {pool : Pool}
    (hmake : forLayout size alignment config = .ok pool) : Reached ⟨pool, []⟩
  | copied {custody : Custody} (hreached : Reached custody) :
    Reached ⟨custody.pool.emptyCopy, []⟩
  | called {custody : Custody} (hreached : Reached custody) {call : Call}
    (hallowed : custody.Allowed call) : Reached (custody.make call).2

end Custody

variable {pool next : Pool} {custody : Custody} {call : Call} {fault : Fault}

/-! ## A call that faults -/

theorem run_map_eq_error_iff {α β : Type} {f : α → β} {action : PoolAction α} :
    (f <$> action).run pool = .error fault next ↔ action.run pool = .error fault next := by
  simp only [Functor.map, EStateM.map, EStateM.run]
  cases action pool <;> simp

theorem run_map_eq_ok_iff {α β : Type} {f : α → β} {action : PoolAction α} {answer : β} :
    (f <$> action).run pool = .ok answer next ↔
      ∃ value, action.run pool = .ok value next ∧ f value = answer := by
  simp only [Functor.map, EStateM.map, EStateM.run]
  cases action pool <;> simp [and_comm]

/-- The checks come first: a call that faults has not changed anything. -/
theorem Call.eq_of_action_fault (hrun : call.action.run pool = .error fault next) :
    next = pool := by
  cases call with
  | alloc => exact (alloc_eq_error_iff.1 (run_map_eq_error_iff.1 hrun)).1
  | release block => exact (release_eq_error_iff.1 (run_map_eq_error_iff.1 hrun)).1
  | grow => exact (grow_eq_error_iff.1 (run_map_eq_error_iff.1 hrun)).1
  | growBy n => exact (growBy_eq_error_iff.1 (run_map_eq_error_iff.1 hrun)).1
  | reserve n => exact (reserve_eq_error_iff.1 (run_map_eq_error_iff.1 hrun)).1
  | init elementSize config => exact (init_eq_error_iff.1 (run_map_eq_error_iff.1 hrun)).1

/-- A call of a pool that owns what is given back faults exactly if there is an obstacle. -/
theorem Call.fault_iff_obstacle (howns : ∀ block, call = .release block → pool.owns block = true) :
    (∃ next, call.action.run pool = .error fault next) ↔ pool.Obstacle call fault := by
  cases call with
  | alloc => simp [Call.action, alloc_eq_error_iff, Obstacle]
  | release block =>
    simp [Call.action, release_eq_error_iff, Obstacle, howns block rfl]
  | grow => simp [Call.action, grow_eq_error_iff, Obstacle]
  | growBy n => simp [Call.action, growBy_eq_error_iff, Obstacle]
  | reserve n => simp [Call.action, reserve_eq_error_iff, Obstacle]
  | init elementSize config =>
    simp [Call.action, init_eq_error_iff, check_eq_error_iff, Obstacle]

namespace Custody

theorem make_of_fault (hrun : call.action.run custody.pool = .error fault next) :
    custody.make call = (.error fault, custody) := by
  simp only [make, hrun, Call.eq_of_action_fault hrun]

/-! ## Sessions -/

theorem session_cons (call : Call) (later : List Call) (custody : Custody) :
    custody.session (call :: later) =
      ((call, (custody.make call).1) :: ((custody.make call).2.session later).1,
        ((custody.make call).2.session later).2) := rfl

/-- Without the calls that faulted a session goes as with them. -/
theorem session_of_answered (calls : List Call) (custody : Custody) :
    let record := custody.session calls
    let answered := record.1.filter fun made => made.2.isOk
    custody.session (answered.map Prod.fst) = (answered, record.2) := by
  induction calls generalizing custody with
  | nil => rfl
  | cons call later ih =>
    cases hrun : call.action.run custody.pool with
    | ok answer pool =>
      have hmake : custody.make call =
          (.ok answer, ⟨pool, call.heldAfter answer custody.live⟩) := by
        simp only [make, hrun]
      simp only [session_cons, hmake]
      rw [List.filter_cons_of_pos rfl, List.map_cons, session_cons, hmake, ih]
    | error fault pool =>
      simp only [session_cons, make_of_fault hrun]
      rw [List.filter_cons_of_neg Bool.false_ne_true]
      exact ih custody

/-! ## Pools that were reached -/

theorem Reached.inUse (hreached : custody.Reached) :
    ∃ chain, InUse custody.pool chain custody.live := by
  induction hreached with
  | new => exact ⟨_, inUse_new⟩
  | made hmake => exact ⟨_, .of_forLayout hmake⟩
  | copied _ ih =>
    obtain ⟨chain, huse⟩ := ih
    exact ⟨_, huse.emptyCopy⟩
  | @called custody _ call hallowed ih =>
    obtain ⟨chain, huse⟩ := ih
    cases hrun : call.action.run custody.pool with
    | error fault pool =>
      rw [make_of_fault hrun]
      exact ⟨chain, huse⟩
    | ok answer pool =>
      simp only [make, hrun]
      cases call with
      | alloc =>
        obtain ⟨block, hblock, rfl⟩ := run_map_eq_ok_iff.1 hrun
        exact ⟨_, huse.alloc hblock⟩
      | release block =>
        obtain ⟨_, hback, rfl⟩ := run_map_eq_ok_iff.1 hrun
        obtain hlive | ⟨hnone, -⟩ := hallowed
        · exact ⟨_, huse.release hlive hback⟩
        · -- Nobody holds a block, so nothing can have been taken back.
          have hzero : custody.pool.stats.instantiations = 0 := by
            rw [huse.sound.instantiations, hnone, List.length_nil]
          rw [release_eq] at hback
          simp [hzero] at hback
          split at hback <;> cases hback
      | grow =>
        obtain ⟨_, hgrow, rfl⟩ := run_map_eq_ok_iff.1 hrun
        exact ⟨_, huse.grow hgrow⟩
      | growBy n =>
        obtain ⟨_, hgrow, rfl⟩ := run_map_eq_ok_iff.1 hrun
        exact ⟨_, huse.growBy hgrow⟩
      | reserve n =>
        obtain ⟨_, hreserve, rfl⟩ := run_map_eq_ok_iff.1 hrun
        exact ⟨_, huse.reserve hreserve⟩
      | init elementSize config =>
        obtain ⟨_, hinit, rfl⟩ := run_map_eq_ok_iff.1 hrun
        exact ⟨_, huse.init hinit⟩

theorem Reached.owns (hreached : custody.Reached) (hallowed : custody.Allowed call) :
    ∀ block, call = .release block → custody.pool.owns block = true := by
  rintro block rfl
  obtain ⟨chain, huse⟩ := hreached.inUse
  refine (huse.sound.toAccounted.owns block).2 ?_
  obtain hlive | ⟨-, hfree⟩ := hallowed
  · exact .inr hlive
  · exact .inl hfree

/-- Whatever clients did with a pool, a call faults exactly if there is an obstacle, and then
the pool is as it was before.  So any session, in which some calls may fault, goes as if
those calls had not been made: all others get the same answers, and the pool and the blocks
held are the same in the end. -/
theorem Reached.faults_leave_no_trace (hreached : custody.Reached) :
    (∀ call, custody.Allowed call → ∀ fault,
      ((∃ next, call.action.run custody.pool = .error fault next) ↔
        custody.pool.Obstacle call fault) ∧
      ∀ next, call.action.run custody.pool = .error fault next → next = custody.pool) ∧
    ∀ calls,
      let record := custody.session calls
      let answered := record.1.filter fun made => made.2.isOk
      custody.session (answered.map Prod.fst) = (answered, record.2) :=
  ⟨fun _ hallowed _ => ⟨Call.fault_iff_obstacle (hreached.owns hallowed),
    fun _ hrun => Call.eq_of_action_fault hrun⟩, fun calls => session_of_answered calls custody⟩

/-- Four blocks are handed out, and the block size has grown to the largest machine word, so
that no further chunk can be had.  A client who tries to go on all the same and gives back a
block at last gets this one again, as if it had not tried. -/
theorem faults_leave_no_trace_saturated :
    ∃ custody : Custody, custody.Reached ∧ custody.Allowed .alloc ∧
      custody.pool.stats.blockSize = wordLimit - 1 ∧
      Call.alloc.action.run custody.pool = .error .chunkSizeOverflow custody.pool ∧
      let calls := [.alloc, .reserve 1, .init 8 ⟨1, 1⟩, .growBy 0, .release ⟨0, 24⟩, .alloc]
      (custody.session calls).1.map Prod.snd =
        [.error .chunkSizeOverflow, .error .chunkSizeOverflow, .error .initWhileOutstanding,
          .error .growByZero, .ok none, .ok (some ⟨0, 24⟩)] ∧
      (custody.session [.release ⟨0, 24⟩, .alloc]).2 = (custody.session calls).2 := by
  have hmake : forLayout 24 8 ⟨4, Nat.pow 2 62⟩ = .ok (fresh 24 8 ⟨4, Nat.pow 2 62⟩ true) := rfl
  have hallowed (custody : Custody) : custody.Allowed .alloc := trivial
  have hfirst := ((Reached.made hmake).called (hallowed _)).called (hallowed _)
  have hheld := (hfirst.called (hallowed _)).called (hallowed _)
  obtain ⟨hfaults, hsession⟩ := hheld.faults_leave_no_trace
  obtain ⟨hobstacle, hkeeps⟩ := hfaults .alloc (hallowed _) .chunkSizeOverflow
  obtain ⟨next, hrun⟩ := hobstacle.2 ⟨rfl, .tooManyBytes (by decide)⟩
  have hlater : session [.release ⟨0, 24⟩, .alloc] _ = (_, _) := hsession
    [.alloc, .reserve 1, .init 8 ⟨1, 1⟩, .growBy 0, .release ⟨0, 24⟩, .alloc]
  refine ⟨_, hheld, hallowed _, rfl, ?_, rfl, ?_⟩
  · rw [hrun, hkeeps next hrun]
  · rw [hlater]

end Custody

end StackLang.Pool
