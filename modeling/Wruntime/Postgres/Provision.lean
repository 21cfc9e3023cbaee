import Wruntime.Migration.Ledger
import Wruntime.Postgres.Manifest
import Mathlib.Data.List.DropRight

/-!
Provisioning runs of a cluster. A run checks the generation in each namespace database, merges its
mappings into the managed `pg_ident` file, converges the databases, replaces the file, has
PostgreSQL load it, and publishes its generation database by database. It may fail at any point.
-/

namespace Wruntime.Postgres

open Fallible
open Utf8 (isWhitespace)

def identHeader : List Char := "# wruntime postgres tenant mappings v1".toList

structure IdentMapping where
  map : String
  systemUser : String
  databaseUser : String
  deriving DecidableEq

def IdentMapping.le (a b : IdentMapping) : Bool :=
  a.map < b.map || a.map = b.map && (a.systemUser < b.systemUser ||
    a.systemUser = b.systemUser && a.databaseUser ≤ b.databaseUser)

def collect (mappings : List IdentMapping) : List IdentMapping :=
  mappings.dedup.insertionSort fun a b => a.le b

def trim (line : List Char) : List Char := (line.dropWhile isWhitespace).rdropWhile isWhitespace

def isComment (line : List Char) : Bool := trim line = [] || (trim line).head? = some '#'

def isAsciiWhitespace (c : Char) : Bool :=
  c = ' ' || c = '\t' || c = '\n' || c = '\r' || c.toNat = 12

def splitAsciiWhitespace (line : List Char) : List String :=
  ((line.splitOnP isAsciiWhitespace).filter (· ≠ [])).map String.ofList

/-- The mappings read so far, and the subject of each role. -/
structure Reading where
  mappings : List IdentMapping
  roleSubjects : List (String × String)

def readMapping (mapName : String) (reading : Reading) (fields : List String) :
    Except String Reading :=
  match fields with
  | [map, subject, role] => do
    ensure (map = mapName) "conflicting retained pg_ident mapping"
    validateCommonName subject
    ensure ("wr_runtime_".toList <+: role.toList ∨ "wr_ready_".toList <+: role.toList)
      "managed pg_ident entry targets a privileged or unknown role"
    ensure ((reading.roleSubjects.lookup role).all (· = subject))
      "conflicting retained pg_ident subjects for one role"
    .ok ⟨⟨map, subject, role⟩ :: reading.mappings, (role, subject) :: reading.roleSubjects⟩
  | _ => .error "conflicting retained pg_ident mapping"

def readLine (mapName : String) (reading : Reading) (line : List Char) : Except String Reading :=
  if isComment line then .ok reading
  else readMapping mapName reading (splitAsciiWhitespace (trim line))

def readManagedMappings (file : List (List Char)) (mapName : String) :
    Except String (List IdentMapping) :=
  if file.all isComment then .ok []
  else do
    ensure (file.head? = some identHeader) "active pg_ident file is not wruntime-managed"
    let reading ← file.tail.foldlM (readLine mapName) ⟨[], []⟩
    .ok (collect reading.mappings)

def renderMapping (mapping : IdentMapping) : List Char :=
  mapping.map.toList ++ ' ' :: (mapping.systemUser.toList ++ ' ' :: mapping.databaseUser.toList)

def renderMappings (mappings : List IdentMapping) : List (List Char) :=
  identHeader :: mappings.map renderMapping

/-- What a namespace database says of the manifest it was provisioned from. -/
structure NamespaceState where
  generation : Nat
  manifestDigest : String

/-- The databases a run converged, whether its mappings were loaded, and where it published its
generation. -/
structure Record where
  manifest : PostgresProvisioningManifest
  converged : List String
  activated : Bool
  published : List String

structure World where
  file : List (List Char)
  states : String → Option NamespaceState
  records : List Record

/-- A run with its answers. `queried`: whose published state could be read; `reload`: what comes of
loading the file and looking at the active mappings and rules. -/
structure Run where
  manifest : PostgresProvisioningManifest
  dryRun : Bool
  preflight : Except String Unit
  queried : String → Bool
  convergeCluster : Except String Unit
  convergeNamespace : String → Except String Unit
  reload : Except String Unit
  removeBackup : Except String Unit
  commit : String → Except String Unit

section Provision

variable (codec : Codec)

def PostgresProvisioningManifest.databases (manifest : PostgresProvisioningManifest) :
    List String :=
  (manifest.deriveNamespaces codec).map (·.database)

def sameGenerationError : String :=
  "same provisioning generation has a different manifest digest"

def checkGeneration (manifest : PostgresProvisioningManifest) (previous : NamespaceState) :
    Except String Unit := do
  ensure (previous.generation ≤ manifest.generation) "provisioning generation regression"
  ensure (manifest.generation ≠ previous.generation ∨
    manifest.normalizedDigest codec = previous.manifestDigest) sameGenerationError

/-- A database that cannot be reached or queried is passed over. -/
def checkGenerationReplay (w : World) (run : Run) : Except String Unit :=
  (run.manifest.databases codec).forM fun database =>
    match if run.queried database then w.states database else none with
    | some previous => checkGeneration codec run.manifest previous
    | none => .ok ()

def commonName (manifest : PostgresProvisioningManifest) (nodeId : String) : String :=
  ((manifest.nodes.reverse.find? (·.nodeId = nodeId)).map (·.certificateCommonName)).getD ""

def desiredMappings (manifest : PostgresProvisioningManifest) : List IdentMapping :=
  (manifest.deriveNamespaces codec).flatMap fun ns => ns.nodeLogins.flatMap fun login =>
    [login.runtime, login.readiness].map fun databaseUser =>
      ⟨manifest.identMapName, commonName manifest login.nodeId, databaseUser⟩

/-- What a run does before it changes anything: the mappings it will install. -/
def plan (w : World) (run : Run) : Except String (List IdentMapping) := do
  run.manifest.validate codec
  run.preflight
  checkGenerationReplay codec w run
  let retained ← readManagedMappings w.file run.manifest.identMapName
  .ok (collect (retained ++ desiredMappings codec run.manifest))

/-- The databases up to the first one at which a step fails. -/
def upTo (step : String → Except String Unit) (databases : List String) : List String :=
  databases.takeWhile fun database => (step database).isOk

/-- The lines of the file once they are installed, loaded and found active. -/
def installAndReload (run : Run) (mappings : List IdentMapping) :
    Except String (List (List Char)) := do
  run.reload
  let _ ← readManagedMappings (renderMappings mappings) run.manifest.identMapName
  .ok (renderMappings mappings)

def World.record (w : World) (record : Record) : World :=
  { w with records := w.records ++ [record] }

def commitGeneration (w : World) (run : Run) (published : List String) : World :=
  { w with
    states := fun database =>
      if database ∈ published then
        some ⟨run.manifest.generation, run.manifest.normalizedDigest codec⟩
      else w.states database }

/-- A failed activation puts the previous lines back. -/
def provision (w : World) (run : Run) : World × Except String Unit :=
  match plan codec w run with
  | .error error => (w, .error error)
  | .ok mappings =>
    if run.dryRun then (w, .ok ())
    else
      let databases := run.manifest.databases codec
      let converged := upTo run.convergeNamespace databases
      match run.convergeCluster with
      | .error error => (w.record ⟨run.manifest, [], false, []⟩, .error error)
      | .ok () =>
        match databases.forM run.convergeNamespace with
        | .error error => (w.record ⟨run.manifest, converged, false, []⟩, .error error)
        | .ok () =>
          match installAndReload run mappings with
          | .error error =>
            (w.record ⟨run.manifest, converged, false, []⟩,
              .error ("pg_ident activation failed; prior mapping restored: " ++ error))
          | .ok file =>
            match run.removeBackup with
            | .error error =>
              ({ w with file }.record ⟨run.manifest, converged, true, []⟩, .error error)
            | .ok () =>
              let published := upTo run.commit databases
              ((commitGeneration codec { w with file } run published).record
                ⟨run.manifest, converged, true, published⟩, databases.forM run.commit)

def next (w : World) (run : Run) : World := (provision codec w run).1

structure Activated (w : World) (run : Run) (w' : World) (mappings : List IdentMapping)
    (published : List String) : Prop where
  plan : plan codec w run = .ok mappings
  file : w'.file = renderMappings mappings
  accepted : ∃ active, readManagedMappings w'.file run.manifest.identMapName = .ok active
  states : w'.states = (commitGeneration codec w run published).states
  records : w'.records =
    w.records ++ [⟨run.manifest, run.manifest.databases codec, true, published⟩]
  subset : published ⊆ run.manifest.databases codec

/-- A run that leaves the file and what is published as they are. -/
structure Unchanged (w w' : World) : Prop where
  file : w'.file = w.file
  states : w'.states = w.states
  records : ∃ failed, w'.records = w.records ++ failed ∧
    ∀ r ∈ failed, r.activated = false ∧ r.published = []

variable {codec} {w : World} {run : Run}

theorem upTo_of_forM {step : String → Except String Unit} {databases : List String}
    (h : databases.forM step = .ok ()) : upTo step databases = databases := by
  rw [upTo, List.takeWhile_eq_self_iff]
  intro database hmem
  rw [forM_eq_ok.1 h database hmem]
  rfl

theorem Unchanged.record (w : World) (manifest : PostgresProvisioningManifest)
    (converged : List String) : Unchanged w (w.record ⟨manifest, converged, false, []⟩) :=
  ⟨rfl, rfl, _, rfl, by simp⟩

theorem next_cases (codec : Codec) (w : World) (run : Run) : Unchanged w (next codec w run) ∨
      ∃ mappings published, Activated codec w run (next codec w run) mappings published := by
  have hsame : Unchanged w w := ⟨rfl, rfl, [], (List.append_nil _).symm, by simp⟩
  unfold next provision
  split
  · exact .inl hsame
  next mappings hplan =>
  split
  · exact .inl hsame
  dsimp only
  split
  · exact .inl (.record w _ _)
  split
  · exact .inl (.record w _ _)
  next hconverged =>
  split
  · exact .inl (.record w _ _)
  next file hfile =>
  obtain ⟨_, _, active, hactive, hlines⟩ : ∃ u, run.reload = .ok u ∧ ∃ active,
      readManagedMappings (renderMappings mappings) run.manifest.identMapName = .ok active ∧
        renderMappings mappings = file := by
    simpa [installAndReload, bind_eq_ok] using hfile
  subst hlines
  rw [upTo_of_forM hconverged]
  split
  · refine .inr ⟨mappings, [], hplan, rfl, ⟨active, hactive⟩, ?_, rfl, List.nil_subset _⟩
    simp [World.record, commitGeneration]
  · exact .inr ⟨mappings, _, hplan, rfl, ⟨active, hactive⟩, rfl, rfl,
      (List.takeWhile_sublist _).subset⟩

/-- Only a run that gets past its checks leaves a record, of its own manifest. -/
theorem records_next {r : Record} (h : r ∈ (next codec w run).records) :
    r ∈ w.records ∨ r.manifest = run.manifest ∧ ∃ mappings, plan codec w run = .ok mappings := by
  unfold next provision at h
  split at h
  · exact .inl h
  next mappings hplan =>
  split at h
  · exact .inl h
  have hadded {file : List (List Char)} {states : String → Option NamespaceState} {record : Record}
      (h : r ∈ (World.record ⟨file, states, w.records⟩ record).records)
      (hrecord : record.manifest = run.manifest) :
      r ∈ w.records ∨ r.manifest = run.manifest ∧ ∃ mappings, plan codec w run = .ok mappings := by
    rcases List.mem_append.1 h with hold | hnew
    · exact .inl hold
    · rw [List.mem_singleton.1 hnew]
      exact .inr ⟨hrecord, mappings, hplan⟩
  dsimp only at h
  split at h
  · exact hadded h rfl
  split at h
  · exact hadded h rfl
  split at h
  · exact hadded h rfl
  split at h
  · exact hadded h rfl
  · exact hadded h rfl

/-- Every run that gets past its checks leaves a record, however far it gets. -/
theorem exists_record {mappings : List IdentMapping} (hplan : plan codec w run = .ok mappings)
    (hrun : run.dryRun = false) :
    ∃ r ∈ (next codec w run).records, r.manifest = run.manifest := by
  have hadded (w : World) (record : Record) (hrecord : record.manifest = run.manifest) :
      ∃ r ∈ (w.record record).records, r.manifest = run.manifest :=
    ⟨record, List.mem_append_right _ (List.mem_singleton_self record), hrecord⟩
  unfold next provision
  rw [hplan, hrun]
  dsimp only
  rw [if_neg (by decide)]
  split
  · exact hadded _ _ rfl
  split
  · exact hadded _ _ rfl
  split
  · exact hadded _ _ rfl
  split
  · exact hadded _ _ rfl
  · exact hadded _ _ rfl

theorem plan_eq_ok {mappings : List IdentMapping} (h : plan codec w run = .ok mappings) :
    run.manifest.validate codec = .ok () ∧ checkGenerationReplay codec w run = .ok () ∧
      ∃ retained, readManagedMappings w.file run.manifest.identMapName = .ok retained ∧
        mappings = collect (retained ++ desiredMappings codec run.manifest) := by
  simp only [plan, bind_eq_ok] at h
  obtain ⟨_, hvalid, _, _, _, hcheck, retained, hretained, hmappings⟩ := h
  exact ⟨hvalid, hcheck, retained, hretained, (Except.ok.inj hmappings).symm⟩

end Provision

namespace Sample

def run (manifest : PostgresProvisioningManifest) : Run :=
  ⟨manifest, false, .ok (), fun _ => true, .ok (), fun _ => .ok (), .ok (), .ok (), fun _ => .ok ()⟩

def world : World := ⟨[], fun _ => none, []⟩

end Sample

end Wruntime.Postgres
