import Mathlib.Data.Finmap
import Mathlib.Data.Finset.Sort
import Mathlib.Data.Prod.Lex
import Mathlib.Data.String.Basic
import Wruntime.Lib.LastWrite
import Wruntime.Lib.PathText

/-!
A bundle archive as tar entries, and the two passes over it: the checksum pass with the manifest's
identity (`read_payload_checksums`, `verify_bundle_archive`) and the unpacking
(`materialize_resolved_release`). Hash, pre-image text and path resolution through links are the
host's.
-/

namespace Wruntime.Bundle

open Wruntime.Fallible Wruntime.LastWrite Wruntime.PathText

abbrev Bytes := List UInt8

inductive EntryKind where
  | regular
  | directory
  | symlink (target : String)
  | link (source : String)
  /-- Any other flag: continuous and sparse files, devices, extension headers, unknown letters. -/
  | other (flag : UInt8)
deriving DecidableEq

/-- An entry; `ustar` says whether its header is of that format, and not an older or GNU one. -/
structure Entry where
  path : String
  kind : EntryKind
  data : Bytes
  ustar : Bool
deriving DecidableEq

structure ManifestModule where
  name : String
  namespace_ : String
  version : String
  hasSchema : Bool
deriving DecidableEq

structure ManifestEngine where
  engineSlot : String
  modules : List ManifestModule
  secrets : List (String × String)
  dbNamespaces : List String
  jobQueueId : String
  jobAdminAddress : String
deriving DecidableEq

/-- Archive path to checksum, as the ordered maps of the source. -/
abbrev Checksums := Finmap fun _ : String => String

structure Manifest where
  target : String
  bundleDigest : String
  engines : List ManifestEngine
  workdir : String
  modules : List ManifestModule
  configs : List String
  templateVars : List String
  checksums : Checksums
  precompileHash : Option String

/-- The members of the JSON text that the bundle digest is taken of. -/
structure Identity where
  target : String
  workdir : String
  engines : List ManifestEngine
  checksums : Checksums
  precompileHash : Option String

/-- SHA-256 in hexadecimal and the JSON text of an identity, both injective. -/
structure Contract where
  sha256 : Bytes → String
  canonical : Identity → Bytes
  sha256_injective : Function.Injective sha256
  canonical_injective : Function.Injective canonical

def Entry.counted (entry : Entry) : Bool :=
  entry.kind = .regular && !(endsWith entry.path "/manifest.json" || entry.path = "manifest.json")

def countEntry (contract : Contract) (checksums : Checksums) (entry : Entry) : Checksums :=
  if entry.counted then checksums.insert entry.path (contract.sha256 entry.data) else checksums

def readPayloadChecksums (contract : Contract) (archive : List Entry) : Checksums :=
  archive.foldl (countEntry contract) ∅

def comparePayloads (expected actual : Checksums) : Except String PUnit :=
  if actual = expected then pure ⟨⟩
  else
    let missing := (expected.keys.filter fun path => path ∉ actual).sort (· ≤ ·)
    let changed :=
      (expected.keys.filter fun path => actual.lookup path ≠ expected.lookup path).sort (· ≤ ·)
    let unexpected := (actual.keys.filter fun path => path ∉ expected).sort (· ≤ ·)
    .error ("bundle payload checksums do not match manifest (missing: " ++
      ", ".intercalate missing ++ "; changed: " ++ ", ".intercalate changed ++
      "; unexpected: " ++ ", ".intercalate unexpected ++ ")")

def ManifestModule.before (left right : ManifestModule) : Prop :=
  toLex (left.namespace_, toLex (left.name, left.version)) ≤
    toLex (right.namespace_, toLex (right.name, right.version))

instance (left right : ManifestModule) : Decidable (left.before right) :=
  inferInstanceAs (Decidable (_ ≤ _))

def deterministicBundleDigest (contract : Contract) (target workdir : String)
    (engines : List ManifestEngine) (checksums : Checksums) (precompileHash : Option String) :
    String :=
  let engines := engines.insertionSort fun left right => left.engineSlot ≤ right.engineSlot
  let engines := engines.map fun engine =>
    { engine with modules := engine.modules.insertionSort ManifestModule.before }
  "sha256:" ++
    contract.sha256 (contract.canonical ⟨target, workdir, engines, checksums, precompileHash⟩)

def verifyManifestIdentity (contract : Contract) (manifest : Manifest) : Except String PUnit :=
  let digest := deterministicBundleDigest contract manifest.target manifest.workdir
    manifest.engines manifest.checksums manifest.precompileHash
  ensure (digest = manifest.bundleDigest)
    ("bundle digest mismatch: manifest declares " ++ manifest.bundleDigest ++ ", computed " ++
      digest)

def verifyBundleArchive (contract : Contract) (archive : List Entry) (manifest : Manifest) :
    Except String PUnit := do
  let actual := readPayloadChecksums contract archive
  comparePayloads manifest.checksums actual
  verifyManifestIdentity contract manifest

/-- A place below the unpacking root, by its components. -/
abbrev Place := List String

inductive Node where
  | file (data : Bytes)
  | link (target : String)
deriving DecidableEq

structure Tree where
  nodes : List (Place × Node)
  directories : List Place
deriving DecidableEq

def Tree.empty : Tree := ⟨[], []⟩

def Tree.node? (tree : Tree) (place : Place) : Option Node := tree.nodes.lookup place

def Tree.file? (tree : Tree) (place : Place) : Option Bytes :=
  match tree.node? place with
  | some (.file data) => some data
  | _ => none

def Tree.Linkless (tree : Tree) : Prop := ∀ item ∈ tree.nodes, ∀ target, item.2 ≠ .link target

def below (above place : Place) : Bool := above.isPrefixOf place && above ≠ place

def Tree.isDirectory (tree : Tree) (place : Place) : Bool :=
  tree.directories.any (fun directory => place.isPrefixOf directory) ||
    tree.nodes.any fun item => below place item.1

/-- Put a file or link in the stead of what is there. A directory is not replaced, and nothing is
put below a file. -/
def Tree.put (tree : Tree) (place : Place) (node : Node) : Option Tree :=
  if tree.isDirectory place || tree.nodes.any (fun item => below item.1 place) then none
  else some { tree with nodes := (place, node) :: tree.nodes.filter (·.1 ≠ place) }

/-- Where an entry is unpacked. A path that steps to a parent, or names nothing, is passed over. -/
def destination (path : String) : Option Place :=
  if components path = [] ∨ ".." ∈ components path then none else some (components path)

/-- The place reached below the root when the links on the way are followed, unless that leaves the
root. -/
structure Host where
  resolve : Tree → Place → Option Place

def Host.Direct (host : Host) : Prop :=
  ∀ tree place, tree.Linkless → host.resolve tree place = some place

def Tree.makeDirectory (tree : Tree) (place : Place) : Option Tree :=
  if (tree.node? place).isSome then none
  else some { tree with directories := place :: tree.directories }

/-- The headers `g`, `x`, `L` and `K`, which describe other entries and are not unpacked. -/
def isExtension (flag : UInt8) : Bool := flag ∈ [0x67, 0x78, 0x4C, 0x4B]

/-- Old archives mark a directory by the slash at the end of its path alone. -/
def Entry.oldDirectory (entry : Entry) : Bool := !entry.ustar && endsWith entry.path "/"

def Entry.unpackFile (entry : Entry) (tree : Tree) (place : Place) : Option Tree :=
  if entry.oldDirectory then tree.makeDirectory place else tree.put place (.file entry.data)

/-- One entry is unpacked. A file or symbolic link replaces the file that is there; a hard link is
refused where something is. -/
def Host.unpackEntry (host : Host) (tree : Tree) (entry : Entry) : Option Tree :=
  match destination entry.path with
  | none => some tree
  | some place => do
    let place ← host.resolve tree place
    match entry.kind with
    | .directory => tree.makeDirectory place
    | .symlink target => tree.put place (.link target)
    | .link source =>
      let node ← (destination source).bind tree.node?
      if (tree.node? place).isSome then none else tree.put place node
    | .regular => entry.unpackFile tree place
    | .other flag => if isExtension flag then some tree else entry.unpackFile tree place

def Host.unpack (host : Host) (archive : List Entry) : Option Tree :=
  archive.foldlM host.unpackEntry .empty

def releaseRoot : Place := ["wr-node"]

/-- The unpacked release as `materialize_resolved_release` accepts it: a directory without symbolic
links. -/
def unpackRelease (host : Host) (archive : List Entry) : Except String Tree := do
  let tree ← required (host.unpack archive) "failed to extract verified source bundle"
  ensure (tree.isDirectory releaseRoot) "bundle omitted wr-node release root"
  tree.nodes.forM fun item =>
    match item.2 with
    | .link _ => ensure (below releaseRoot item.1 = false)
        ("resolved release payload " ++ "/".intercalate item.1 ++ " is a symlink")
    | .file _ => pure ⟨⟩
  pure tree

end Wruntime.Bundle
