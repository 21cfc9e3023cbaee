import Wruntime.Manager.State

/-!
The forward path of an engine target. A slot's steps follow from how its source and target snapshots
differ; `firstForwardStep` and `nextForwardStep` are the step table, and a stored operation is only
loaded when its transitions still agree with its snapshots.
-/

namespace Wruntime.Manager

open Fallible

/-- A release as a slot's source or target: revision, bundle and resolved release digest. Revision
zero is no release. -/
structure ReleaseIdentity where
  revision : Revision
  digest : String
  resolvedDigest : String
  deriving DecidableEq

def deriveTransition (source target : ReleaseIdentity) : DerivedTransition :=
  if source.revision = 0 then
    if target.revision = 0 then .unchanged else .addition
  else if target.revision = 0 then .removal
  else if source = target then .unchanged
  else .replacement

def firstForwardStep : DerivedTransition → Option NodeOperationStepKind
  | .addition | .replacement => some .verifyReleaseMetadata
  -- A read-only source proof pins the identities before any stop.
  | .removal | .restart => some .verifyTarget
  | .unchanged => none

/-- `next_forward_step`. Where verify-target leads depends on whether it proves the source or the
target. -/
def nextForwardStep (transition : DerivedTransition) (step : NodeOperationStepKind) :
    Option NodeOperationStepKind :=
  match transition, step with
  | .addition, .verifyReleaseMetadata => some .selectRelease
  | .replacement, .verifyReleaseMetadata => some .verifyTarget
  | .removal, .stopBackend => some .switchAuthority
  | .restart, .stopBackend => some .startBackend
  | .replacement, .stopBackend => some .selectRelease
  | .addition, .selectRelease | .replacement, .selectRelease => some .startBackend
  | .addition, .startBackend | .replacement, .startBackend
  | .restart, .startBackend => some .verifyTarget
  | .addition, .switchAuthority | .replacement, .switchAuthority => some .verifyServing
  | _, _ => none

def storedStep (step : Option NodeOperationStepKind) : NodeOperationStepKind :=
  step.getD .unspecified

def TargetProgress.source (progress : TargetProgress) : ReleaseIdentity :=
  ⟨progress.sourceRevision, progress.sourceDigest, progress.sourceResolvedDigest⟩

def TargetProgress.target (progress : TargetProgress) : ReleaseIdentity :=
  ⟨progress.targetRevision, progress.targetDigest, progress.targetResolvedDigest⟩

def validateStoredTransition (action : NodeOperationAction) (target : EngineTarget) :
    Except Status PUnit := do
  let expected ← match action with
    | .restart => do
        ensure (target.progress.sourceRevision ≠ 0 ∧
            target.progress.source = target.progress.target)
          (.internal "stored restart transition changes immutable desired identity")
        pure DerivedTransition.restart
    | .deployment | .rollback =>
      pure (deriveTransition target.progress.source target.progress.target)
    | .unspecified => .error (.internal "stored operation has an invalid action")
  ensure (target.transition = expected)
    (.internal "stored operation transition conflicts with immutable target snapshots")

/-- `operation_from_row`: a stored operation whose transitions all validate. -/
def operationFromRow (op : Operation) : Except Status Operation := do
  op.engines.forM (validateStoredTransition op.action)
  return op

def loadOperation (db : Db) (id : String) : Except Status Operation := do
  let op ← required (db.operation? id) (.notFound "operation not found")
  operationFromRow op

/-- The active operation `reconcile` picks out of its snapshot of the node's active operations. -/
def loadActiveOperation (db : Db) (id : String) : Except Status Operation := do
  let active ← (db.operations.filter (·.isActive)).mapM operationFromRow
  required (active.find? fun op => op.operationId = id)
    (.failedPrecondition "operation is not active")

theorem operationFromRow_eq_ok {op op' : Operation}
    (h : operationFromRow op = .ok op') : op' = op := by
  simp only [operationFromRow, bind_eq_ok, pure_eq_ok] at h
  obtain ⟨_, _, rfl⟩ := h
  rfl

theorem loadOperation_eq_ok {db : Db} {id : String} {op : Operation}
    (h : loadOperation db id = .ok op) : db.operation? id = some op := by
  simp only [loadOperation, bind_eq_ok, required_eq_ok] at h
  obtain ⟨row, hrow, hload⟩ := h
  rw [hrow, operationFromRow_eq_ok hload]

theorem mapM_operationFromRow_eq_ok {ops ops' : List Operation}
    (h : ops.mapM operationFromRow = .ok ops') : ops' = ops := by
  induction ops generalizing ops' with
  | nil =>
    simp only [List.mapM_nil, pure_eq_ok] at h
    exact h.symm
  | cons op ops ih =>
    simp only [List.mapM_cons, bind_eq_ok, pure_eq_ok] at h
    obtain ⟨head, hhead, tail, htail, rfl⟩ := h
    rw [operationFromRow_eq_ok hhead, ih htail]

theorem loadActiveOperation_eq_ok {db : Db} {id : String} {op : Operation}
    (h : loadActiveOperation db id = .ok op) :
    op ∈ db.operations ∧ op.operationId = id ∧ op.isActive = true := by
  simp only [loadActiveOperation, bind_eq_ok, required_eq_ok] at h
  obtain ⟨active, hactive, hfind⟩ := h
  rw [mapM_operationFromRow_eq_ok hactive] at hfind
  have hmem := List.mem_of_find?_eq_some hfind
  rw [List.mem_filter] at hmem
  have hid : op.operationId = id := by simpa using List.find?_some hfind
  exact ⟨hmem.1, hid, hmem.2⟩

end Wruntime.Manager
