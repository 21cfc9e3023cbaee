import Wruntime.Migration.Books

/-!
Every event keeps the books sound: what the server does on its own, what the runner does next, and
the approvals of the operator. Two are excluded, a deadline that fires once the `COMMIT` has taken
effect and an approved failed attempt of a file that has committed before.
-/

namespace Wruntime.Migration

open Session Runs

variable {world : World} {process : Process} {id : Key × Nat} {row : Attempt} {after : Ledger}
  {approval : RetryApproval}

theorem World.Sound.onExecutor (hsound : world.Sound) {f : Executor → Executor}
    (hid : ∀ executor, (f executor).id = executor.id)
    (htransactions : ∀ executor, (f executor).session.transactions = executor.session.transactions)
    (hcommitting : ∀ executor, executor.committing = false → (f executor).committing = false)
    (hdead : ∀ executor, executor.Dead → (f executor).Dead) : (world.onExecutor f).Sound := by
  have hsome : ∀ after, (world.onExecutor f).executor = some after →
      ∃ executor, world.executor = some executor ∧ f executor = after := by
    intro after h
    exact Option.map_eq_some_iff.mp h
  have hnone : world.executor = none → (world.onExecutor f).executor = none := by
    intro h
    simp [World.onExecutor, h]
  have hmap : ∀ executor, world.executor = some executor →
      (world.onExecutor f).executor = some (f executor) := by
    intro executor h
    simp [World.onExecutor, h]
  refine ⟨?_, hsound.behind, ?_⟩
  · refine hsound.books.congr rfl rfl rfl ?_
    intro after hafter
    obtain ⟨executor, hexecutor, rfl⟩ := hsome after hafter
    rw [hid]
    exact hsound.books.executor executor hexecutor
  · intro process hprocess
    have hholds := hsound.point process hprocess
    unfold World.PointHolds at hholds ⊢
    split at hholds
    · trivial
    · exact hnone hholds
    next file attempt stage _ =>
      obtain ⟨hfile, hopen, hstage⟩ := hholds
      refine ⟨hfile, hopen, ?_⟩
      cases stage with
      | creating | connecting | recording outcome => exact ⟨hnone hstage.1, hstage.2⟩
      | cancelling => exact hstage
      | running remaining | rollingBack code =>
        obtain ⟨executor, hexecutor, hown, hidle, hempty, hfresh⟩ := hstage
        exact ⟨f executor, hmap executor hexecutor, (hid executor).trans hown,
          hcommitting executor hidle, (htransactions executor).trans hempty, hfresh⟩
      | committing =>
        obtain ⟨executor, hexecutor, hown, hiff⟩ := hstage
        refine ⟨f executor, hmap executor hexecutor, (hid executor).trans hown, ?_⟩
        rw [htransactions]
        exact hiff
      | cleaning outcome =>
        refine ⟨hstage.1, ?_⟩
        intro after code hafter houtcome
        obtain ⟨executor, hexecutor, rfl⟩ := hsome after hafter
        exact hdead executor (hstage.2 executor code hexecutor houtcome)

theorem World.Sound.serverEnd (hsound : world.Sound) : (world.onExecutor Executor.close).Sound :=
  hsound.onExecutor (fun _ => rfl) (fun _ => rfl) (fun _ h => h)
    (fun _ _ work h => by simp [Executor.close] at h)

theorem World.Sound.serverReject (hsound : world.Sound) :
    (world.onExecutor Executor.reject).Sound := by
  have hcommit : ∀ backend : Backend Command,
      (backend.commit (.error "rejected")).1.transactions = backend.transactions ∧
        ∀ work, (backend.commit (.error "rejected")).1.status ≠ .active work := by
    intro backend
    unfold Backend.commit
    cases hstatus : backend.status <;> simp [hstatus]
  apply hsound.onExecutor
  · intro executor
    unfold Executor.reject
    split <;> rfl
  · intro executor
    unfold Executor.reject
    split
    · exact (hcommit executor.session).1
    · rfl
  · intro executor hidle
    simp [Executor.reject, hidle]
  · intro executor hdead
    unfold Executor.reject
    split
    · exact (hcommit executor.session).2
    · exact hdead

/-- Whether the run is about to give up on a file whose deadline has fired. -/
def World.cancelling (world : World) : Bool :=
  match world.process with
  | some ⟨_, _, _, .attempting _ _ .cancelling⟩ => true
  | _ => false

theorem World.Sound.serverCommit (hsound : world.Sound) (htimely : world.cancelling = false) :
    world.serverCommit.Sound := by
  unfold World.serverCommit
  split
  · exact hsound
  next executor hexecutor =>
  split
  next work hcommitting hactive =>
    have hopen := hsound.books.executor executor hexecutor
    have hstarted : ∀ row ∈ world.ledger.attempts, row.id = executor.id →
        row.state = .started :=
      fun row hrow hid => (hopen.eq hsound.books.keyed hrow hid).2
    have hmem : ∀ id, id ∈ world.committed ++ [executor.id] ↔
        id ∈ world.committed ∨ id = executor.id := by simp
    have hbooks : World.Books
        { world with
          executor := some
            { executor with
              session := (executor.session.commit (.ok ())).1
              committing := false }
          committed := world.committed ++ [executor.id] } := by
      refine ⟨hsound.books.keyed, ?_, ?_, ?_, ?_, hsound.books.approved, hsound.books.checked,
        ?_, hsound.books.approvalIds, hsound.books.nextApprovalId⟩
      · intro after hafter
        obtain rfl := Option.some.inj hafter
        exact hopen
      · intro row hrow hstate
        exact (hmem _).mpr (.inl (hsound.books.succeeded row hrow hstate))
      · intro row hrow hstate hcommitted
        rcases (hmem _).mp hcommitted with hold | hid
        · exact hsound.books.failed row hrow hstate hold
        · have hboth := hstarted row hrow hid
          cases hstate.symm.trans hboth
      · intro id hid
        rcases (hmem id).mp hid with hold | rfl
        · exact hsound.books.recorded id hold
        · obtain ⟨row, hlatest, hrow, -⟩ := hopen
          exact ⟨row, hlatest.mem, hrow⟩
      · intro approval happroval hstate row hlatest hid other hother hkey
        rcases (hmem other).mp hother with hold | rfl
        · exact hsound.books.untouched approval happroval hstate row hlatest hid other hold hkey
        · -- the latest attempt of this file is the one that commits, and it is started
          obtain ⟨current, hcurrent, hcurrentId, hcurrentState⟩ := hopen
          have hrowKey : row.key = approval.key := congrArg Prod.fst hid
          have hcurrentKey : current.key = executor.key := congrArg Prod.fst hcurrentId
          have hsame : executor.key = approval.key := hkey
          obtain rfl := hcurrent.unique hsound.books.keyed hlatest
            (hcurrentKey.trans (hsame.trans hrowKey.symm))
          obtain ⟨failed, hfailed, hfailedId, hfailedState⟩ :=
            hsound.books.approved approval happroval hstate
          obtain rfl := hsound.books.keyed.eq hfailed hlatest.mem (hfailedId.trans hid.symm)
          cases hcurrentState.symm.trans hfailedState
    refine ⟨hbooks, hsound.behind, ?_⟩
    intro process hprocess
    have hholds := hsound.point process hprocess
    unfold World.PointHolds at hholds ⊢
    split at hholds
    · trivial
    · cases hexecutor.symm.trans hholds
    next file attempt stage hpoint =>
      obtain ⟨hfile, hfileOpen, hstage⟩ := hholds
      refine ⟨hfile, hfileOpen, ?_⟩
      cases stage with
      | creating | connecting | recording outcome => simp [hstage.1] at hexecutor
      | running remaining | rollingBack code =>
        obtain ⟨current, hcurrent, -, hidle, -⟩ := hstage
        obtain rfl := Option.mem_unique hcurrent hexecutor
        cases hcommitting.symm.trans hidle
      | cancelling =>
        have hcurrent : world.process = some process := hprocess
        rcases process with ⟨bundle, files, position, point⟩
        obtain rfl : point = _ := hpoint
        rw [World.cancelling, hcurrent] at htimely
        cases htimely
      | committing =>
        obtain ⟨current, hcurrent, hid, -⟩ := hstage
        obtain rfl := Option.mem_unique hcurrent hexecutor
        refine ⟨_, rfl, hid, ?_⟩
        have hkept : (current.session.commit (.ok ())).1.transactions ≠ [] := by
          simp [Backend.commit, hactive]
        simp [hkept, hid]
      | cleaning outcome =>
        refine ⟨?_, ?_⟩
        · cases outcome with
          | succeeded => exact (hmem _).mpr (.inl hstage.1)
          | ambiguous => trivial
          | failed code =>
            exact absurd hactive (hstage.2 executor code hexecutor rfl work)
        · intro after code _ houtcome
          exact absurd hactive (hstage.2 executor code hexecutor houtcome work)
  · exact hsound

section Run

variable (hsound : world.Sound) (hprocess : world.process = some process)
include hsound hprocess

theorem World.Sound.succeed : (world.succeed process).Sound := by
  unfold World.succeed
  split
  · exact hsound.goTo hprocess (by simp) rfl
  next hpoint => exact hsound.admitProcess hprocess hpoint
  next file attempt stage hpoint =>
    have hstage := hsound.stage hprocess hpoint
    dsimp only
    split
    · exact hsound.atStage hprocess hpoint hstage
    · exact hsound.withExecutor hprocess hpoint rfl ⟨_, rfl, rfl, rfl, rfl, hstage.2⟩
    next hexecutor => exact hsound.command hprocess hpoint hexecutor (.ok ())
    next executor hexecutor =>
      obtain ⟨current, hcurrent, hid, -, hempty, hfresh⟩ := hstage
      obtain rfl := Option.mem_unique hcurrent hexecutor
      exact hsound.withExecutor hprocess hpoint hid ⟨_, rfl, hid, by simp [hempty, hfresh]⟩
    next code executor hexecutor =>
      obtain ⟨current, hcurrent, hid, -, -, hfresh⟩ := hstage
      obtain rfl := Option.mem_unique hcurrent hexecutor
      refine hsound.withExecutor hprocess hpoint hid ?_
      unfold Backend.rollback
      cases hstatus : current.session.status with
      | closed => exact ⟨trivial, by simp⟩
      | _ =>
        refine ⟨hfresh, ?_⟩
        intro after failure hafter _ work
        obtain rfl := Option.some.inj hafter
        simp
    next executor hexecutor =>
      obtain ⟨current, hcurrent, -, hiff⟩ := hstage
      obtain rfl := Option.mem_unique hcurrent hexecutor
      split
      · exact hsound
      next hkept =>
        refine hsound.atStage hprocess hpoint ⟨?_, by simp⟩
        by_contra hfresh
        exact hkept (hiff.mpr hfresh)
    · exact hsound.toStage hprocess hpoint (by simp) ⟨rfl, hstage.1⟩
    · exact hsound.recordSucceeded hprocess hpoint
    · exact hsound.recordFailed hprocess hpoint
    · exact hsound.stop
    · exact hsound

theorem World.Sound.fail (sqlstate : Option String) (lost : Bool) :
    (world.fail process sqlstate lost).Sound := by
  unfold World.fail
  split
  next file attempt stage hpoint =>
    have hstage := hsound.stage hprocess hpoint
    have hambiguous : (world.goTo process
        (.attempting file attempt (.cleaning .ambiguous))).Sound :=
      hsound.atStage hprocess hpoint ⟨trivial, by simp⟩
    dsimp only
    split
    · exact hambiguous
    · exact hambiguous
    · exact hambiguous
    · exact hambiguous
    · exact hambiguous
    next hexecutor =>
      split
      · exact hsound.atStage hprocess hpoint hstage
      · exact hsound.command hprocess hpoint hexecutor _
    · exact hsound
    · exact hsound.stop
  · exact hsound.stop

/-- A deadline that fires before the `COMMIT` takes effect leaves the attempt uncommitted. -/
theorem World.Sound.deadline
    (htimely : ∀ executor, world.executor = some executor → executor.session.transactions = []) :
    (world.deadline process).Sound := by
  unfold World.deadline
  split
  next hpoint =>
    obtain ⟨-, -, -, -, -, hfresh⟩ := hsound.stage hprocess hpoint
    exact hsound.atStage hprocess hpoint hfresh
  next hpoint =>
    obtain ⟨-, -, -, -, -, hfresh⟩ := hsound.stage hprocess hpoint
    exact hsound.atStage hprocess hpoint hfresh
  next hpoint =>
    obtain ⟨executor, hexecutor, -, hiff⟩ := hsound.stage hprocess hpoint
    exact hsound.atStage hprocess hpoint (hiff.mp (htimely executor hexecutor))
  · exact hsound

theorem World.Sound.absent (terminated : Bool) : (world.absent process terminated).Sound := by
  unfold World.absent
  split
  next file attempt hpoint =>
    have hfresh := hsound.stage hprocess hpoint
    refine hsound.serverEnd.atStage hprocess hpoint ⟨hfresh, ?_⟩
    intro after code hafter _ work hwork
    obtain ⟨executor, hexecutor, rfl⟩ := Option.map_eq_some_iff.mp hafter
    simp [Executor.close] at hwork
  · exact hsound

end Run

theorem World.Sound.checkRetry (hsound : world.Sound)
    (hcheck : Migration.checkRetry world.ledger approval = .ok ()) :
    World.Sound { world with checked := world.checked ++ [approval] } := by
  have hbooks := hsound.books
  refine ⟨?_, hsound.behind, hsound.point⟩
  refine ⟨hbooks.keyed, hbooks.executor, hbooks.succeeded, hbooks.failed, hbooks.recorded,
    hbooks.approved, ?_, hbooks.untouched, hbooks.approvalIds, hbooks.nextApprovalId⟩
  intro other hother hstate
  rcases Table.mem_snoc.mp hother with hold | rfl
  · exact hbooks.checked other hold hstate
  · obtain ⟨row, hlatest, hkey, hattempt, hsame⟩ := checkRetry_eq_ok hcheck
    exact ⟨row, hlatest.mem, Prod.ext hkey hattempt, hsame.trans hstate⟩

theorem World.Sound.recordRetry (hsound : world.Sound) (hchecked : approval ∈ world.checked)
    (huncommitted : approval.state = .failed → ∀ id ∈ world.committed, id.1 ≠ approval.key) :
    World.Sound { world with ledger := Migration.recordRetry world.ledger approval } := by
  have hbooks := hsound.books
  have hmem : ∀ other : Approval,
      other ∈ (Migration.recordRetry world.ledger approval).approvals →
        other ∈ world.ledger.approvals ∨
          other.key = approval.key ∧ other.attempt = approval.attempt ∧
            other.state = approval.state ∧ other.approvalId = world.ledger.nextApprovalId := by
    intro other hother
    rcases Table.mem_snoc.mp hother with hold | rfl
    · exact .inl hold
    · exact .inr ⟨rfl, rfl, rfl, rfl⟩
  have hlatest : ∀ row, (Migration.recordRetry world.ledger approval).Latest row ↔
      world.ledger.Latest row := fun row => latest_congr rfl
  have hopen : ∀ id, world.ledger.Open id →
      (Migration.recordRetry world.ledger approval).Open id := by
    rintro id ⟨row, hrow, hid, hstate⟩
    exact ⟨row, (hlatest row).mpr hrow, hid, hstate⟩
  refine ⟨?_, ?_, ?_⟩
  rotate_left
  · intro process hprocess file hfile
    obtain ⟨row, hrow, hkey, hstate⟩ := hsound.behind process hprocess file hfile
    exact ⟨row, (hlatest row).mpr hrow, hkey, hstate⟩
  · intro process hprocess
    have hholds := hsound.point process hprocess
    unfold World.PointHolds at hholds ⊢
    split at hholds
    · trivial
    · exact hholds
    next stage _ =>
      refine ⟨hholds.1, hopen _ hholds.2.1, ?_⟩
      have hstage := hholds.2.2
      cases stage <;> exact hstage
  refine ⟨hbooks.keyed, fun e he => hopen _ (hbooks.executor e he), hbooks.succeeded,
    hbooks.failed, hbooks.recorded, ?_, hbooks.checked, ?_, ?_, ?_⟩
  · intro other hother hstate
    rcases hmem other hother with hold | ⟨hkey, hattempt, hsame, -⟩
    · exact hbooks.approved other hold hstate
    · rw [hkey, hattempt]
      exact hbooks.checked approval hchecked (hsame.symm.trans hstate)
  · intro other hother hstate row hrow hid
    rcases hmem other hother with hold | ⟨hkey, -, hsame, -⟩
    · exact hbooks.untouched other hold hstate row ((hlatest row).mp hrow) hid
    · rw [hkey]
      exact huncommitted (hsame.symm.trans hstate)
  · refine Table.nodup_snoc hbooks.approvalIds fun other hother => ?_
    exact Nat.ne_of_lt (hbooks.nextApprovalId other hother)
  · intro other hother
    show other.approvalId < world.ledger.nextApprovalId + 1
    rcases hmem other hother with hold | ⟨-, -, -, hnew⟩
    · have hlt := hbooks.nextApprovalId other hold
      omega
    · omega

/-- No deadline fires on an attempt whose `COMMIT` has or later takes effect, and no failed attempt
of a committed file is approved. -/
def Orderly (world : World) : Event → Prop
  | .deadline => ∀ executor ∈ world.executor, executor.session.transactions = []
  | .serverCommit => world.cancelling = false
  | .recordRetry approval =>
    approval.state = .failed → ∀ id ∈ world.committed, id.1 ≠ approval.key
  | _ => True

theorem World.Sound.next (hsound : world.Sound) {event : Event} (horderly : Orderly world event) :
    (world.next event).Sound := by
  cases event with
  | start bundle files =>
    simp only [World.next]
    split
    · exact hsound
    · refine ⟨hsound.books.congr rfl rfl rfl hsound.books.executor, ?_, ?_⟩
      · rintro p hp file hfile
        cases hp
        simp at hfile
      · rintro p hp
        cases hp
        trivial
  | crash => exact hsound.stop
  | serverCommit => exact hsound.serverCommit horderly
  | serverReject => exact hsound.serverReject
  | serverEnd => exact hsound.serverEnd
  | checkRetry approval =>
    simp only [World.next]
    split
    next hcheck => exact hsound.checkRetry hcheck
    · exact hsound
  | recordRetry approval =>
    simp only [World.next]
    split
    next hchecked => exact hsound.recordRetry hchecked horderly
    · exact hsound
  | succeed =>
    simp only [World.next]
    split
    · exact hsound
    next hprocess => exact hsound.succeed hprocess
  | reject sqlstate =>
    simp only [World.next]
    split
    · exact hsound
    next hprocess => exact hsound.fail hprocess sqlstate false
  | lose =>
    simp only [World.next]
    split
    · exact hsound
    next hprocess => exact hsound.fail hprocess none true
  | refuse =>
    simp only [World.next]
    split
    · exact hsound
    next hprocess =>
      split
      next hpoint =>
        have hstage := hsound.stage hprocess hpoint
        exact hsound.atStage hprocess hpoint hstage
      · exact hsound
  | deadline =>
    simp only [World.next]
    split
    · exact hsound
    next hprocess => exact hsound.deadline hprocess horderly
  | absent terminated =>
    simp only [World.next]
    split
    · exact hsound
    next hprocess => exact hsound.absent hprocess terminated
  | present =>
    simp only [World.next]
    split
    · exact hsound
    next hprocess =>
      split
      next hpoint => exact hsound.atStage hprocess hpoint ⟨trivial, by simp⟩
      · exact hsound

theorem sound_empty : World.empty.Sound := by
  refine ⟨⟨List.nodup_nil, ?_, ?_, ?_, ?_, ?_, ?_, ?_, List.nodup_nil, ?_⟩, ?_, ?_⟩
  all_goals simp [World.empty, Ledger.empty]

theorem reachable_sound (hrun : Reach World.next Orderly .empty world) : world.Sound := by
  refine hrun.invariant (P := World.Sound) sound_empty ?_
  intro before event _ horderly hbefore
  exact hbefore.next horderly

end Wruntime.Migration
