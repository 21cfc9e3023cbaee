import Mathlib.Logic.Equiv.Multiset
import Wruntime.Bundle.Archive
import Wruntime.Lib.Naming

/-!
What the bundle digest says about the release tree. The checksum pass counts an entry by its path
text and only if it is a regular file outside every `manifest.json`; unpacking goes by components
and writes entries of other kinds too. The digest determines the release where what is unpacked last
at a place is what every path text of the place was counted with.
-/

namespace Wruntime.Bundle

open Wruntime.Fallible Wruntime.LastWrite Wruntime.PathText

def Entry.byPath (entry : Entry) : Option (String × Bytes) :=
  if entry.counted then some (entry.path, entry.data) else none

/-- The file that unpacking writes for an entry. -/
def Entry.written (entry : Entry) : Option (Place × Bytes) :=
  match entry.kind with
  | .regular => (destination entry.path).map (·, entry.data)
  | .other flag => if isExtension flag then none else (destination entry.path).map (·, entry.data)
  | .directory | .symlink _ | .link _ => none

/-- An entry that is no link, nor a directory by its slash alone, unless it is passed over. -/
def Entry.ordinary (entry : Entry) : Bool :=
  destination entry.path = none || match entry.kind with
    | .symlink _ | .link _ => false
    | .directory => true
    | .regular | .other _ => !entry.oldDirectory

variable {contract : Contract} {host : Host} {archive other : List Entry} {entry : Entry}
  {manifest manifest' : Manifest} {tree next tree' : Tree} {place : Place} {path : String}
  {data : Bytes}

theorem Entry.byPath_eq_some : entry.byPath = some (path, data) ↔
      entry.counted = true ∧ entry.path = path ∧ entry.data = data := by
  unfold Entry.byPath
  split <;> simp_all

theorem Entry.written_destination (h : entry.written = some (place, data)) :
    destination entry.path = some place := by
  unfold Entry.written at h
  split at h
  · simp_all
  · split at h <;> simp_all
  all_goals cases h

/-- A counted entry that names a place writes it. -/
theorem Entry.written_of_counted (hcounted : entry.counted = true)
    (hdest : destination entry.path = some place) : entry.written = some (place, entry.data) := by
  simp only [Entry.counted, Bool.and_eq_true, decide_eq_true_eq] at hcounted
  simp [Entry.written, hcounted.1, hdest]

def Entry.sumByPath (contract : Contract) (entry : Entry) : Option (String × String) :=
  entry.byPath.map fun (path, data) => (path, contract.sha256 data)

theorem countEntry_lookup (checksums : Checksums) (entry : Entry) :
    (countEntry contract checksums entry).lookup path =
      (writeAt (Entry.sumByPath contract) path entry).or (checksums.lookup path) := by
  unfold countEntry
  by_cases hcounted : entry.counted = true
  · by_cases hpath : entry.path = path
    · simp [writeAt, Entry.sumByPath, Entry.byPath, hcounted, hpath]
    · simp [writeAt, Entry.sumByPath, Entry.byPath, hcounted, hpath,
        Finmap.lookup_insert_of_ne _ (Ne.symm hpath)]
  · simp [writeAt, Entry.sumByPath, Entry.byPath, hcounted]

theorem readPayloadChecksums_lookup (contract : Contract) (archive : List Entry) (path : String) :
    (readPayloadChecksums contract archive).lookup path =
      (lastAt Entry.byPath path archive).map contract.sha256 := by
  have hrun := foldl_get (Entry.sumByPath contract) path
    (fun checksums : Checksums => checksums.lookup path) archive ∅
    fun checksums entry _ => countEntry_lookup checksums entry
  rw [Finmap.lookup_empty, Option.or_none] at hrun
  exact hrun.trans (lastAt_map contract.sha256 archive)

/-- The places of the release that the checksums answer for: all but its manifest. -/
def payload (place : Place) : Bool :=
  releaseRoot.isPrefixOf place && place ≠ ["wr-node", "manifest.json"]

theorem Tree.put_file {node : Node} {place' : Place} (hput : tree.put place node = some next) :
    next.file? place' =
      if place' = place then (match node with | .file data => some data | .link _ => none)
      else tree.file? place' := by
  unfold Tree.put at hput
  split at hput
  · cases hput
  · obtain rfl := Option.some.inj hput
    simp only [Tree.file?, Tree.node?, List.lookup_cons]
    by_cases hplace : place' = place
    · simp only [hplace, beq_self_eq_true, if_true]
      cases node <;> rfl
    · have hlookup : (tree.nodes.filter (·.1 ≠ place)).lookup place' = tree.nodes.lookup place' := by
        induction tree.nodes with
        | nil => rfl
        | cons item rest ih =>
          obtain ⟨at_, node⟩ := item
          by_cases hitem : at_ = place
          · rw [List.filter_cons_of_neg (by simp [hitem]), ih, List.lookup_cons,
              beq_eq_false_iff_ne.mpr (hitem ▸ hplace)]
          · rw [List.filter_cons_of_pos (by simp [hitem]), List.lookup_cons, List.lookup_cons, ih]
      rw [beq_eq_false_iff_ne.mpr hplace, if_neg hplace]
      simp only [hlookup]

theorem Tree.Linkless.put (htree : tree.Linkless) (hput : tree.put place (.file data) = some next) :
    next.Linkless := by
  unfold Tree.put at hput
  split at hput
  · cases hput
  · obtain rfl := Option.some.inj hput
    intro item hitem target
    rcases List.mem_cons.mp hitem with rfl | hitem
    · nofun
    · exact htree item (List.mem_of_mem_filter hitem) target

theorem Tree.makeDirectory_eq_some (h : tree.makeDirectory place = some next) :
    next.nodes = tree.nodes := by
  unfold Tree.makeDirectory at h
  split at h
  · cases h
  · rw [← Option.some.inj h]

/-- An ordinary entry writes its file and no link, and nothing else. -/
theorem Host.Direct.unpackEntry_eq_some (hdirect : host.Direct) (htree : tree.Linkless)
    (hentry : entry.ordinary = true) (hnext : host.unpackEntry tree entry = some next) :
    next.Linkless ∧
      next.file? place = (writeAt Entry.written place entry).or (tree.file? place) := by
  unfold Host.unpackEntry at hnext
  -- Where nothing is written the nodes stay as they are.
  have hsame (hnodes : next.nodes = tree.nodes) (hnone : entry.written = none) : next.Linkless ∧
      next.file? place = (writeAt Entry.written place entry).or (tree.file? place) := by
    unfold Tree.Linkless Tree.file? Tree.node?
    rw [hnodes]
    exact ⟨htree, by simp [writeAt, hnone]⟩
  cases hdest : destination entry.path with
  | none =>
    have hnone : entry.written = none := by
      unfold Entry.written
      split <;> simp [hdest]
    rw [hdest] at hnext
    exact hsame (by rw [← Option.some.inj hnext]) hnone
  | some dest =>
    simp only [hdest, hdirect tree dest htree, Option.bind_eq_bind, Option.bind_some] at hnext
    have hfile (hold : entry.oldDirectory = false) (hput : entry.unpackFile tree dest = some next)
        (hwritten : entry.written = some (dest, entry.data)) : next.Linkless ∧
        next.file? place = (writeAt Entry.written place entry).or (tree.file? place) := by
      rw [Entry.unpackFile, hold, if_neg (by simp)] at hput
      refine ⟨htree.put hput, ?_⟩
      rw [Tree.put_file hput]
      by_cases hplace : place = dest
      · simp [writeAt, hwritten, hplace]
      · simp [writeAt, hwritten, hplace, Ne.symm hplace]
    cases hkind : entry.kind with
    | directory =>
      rw [hkind] at hnext
      exact hsame (Tree.makeDirectory_eq_some hnext) (by simp [Entry.written, hkind])
    | symlink target | link source => simp [Entry.ordinary, hdest, hkind] at hentry
    | regular =>
      rw [hkind] at hnext
      exact hfile (by simpa [Entry.ordinary, hdest, hkind] using hentry) hnext
        (by simp [Entry.written, hkind, hdest])
    | other flag =>
      rw [hkind] at hnext
      dsimp only at hnext
      split at hnext
      next hextension =>
        exact hsame (by rw [← Option.some.inj hnext]) (by simp [Entry.written, hkind, hextension])
      next hextension =>
        exact hfile (by simpa [Entry.ordinary, hdest, hkind] using hentry) hnext
          (by simp [Entry.written, hkind, hdest, hextension])

/-- No entry of the archive is a link, or a directory by its slash alone. -/
def Ordinary (archive : List Entry) : Prop := ∀ entry ∈ archive, entry.ordinary = true

theorem Host.Direct.unpack_file (hdirect : host.Direct) (harchive : Ordinary archive)
    (hunpack : host.unpack archive = some tree) (place : Place) :
    tree.file? place = lastAt Entry.written place archive := by
  have hempty : Tree.empty.Linkless := by nofun
  have hrun := foldlM_get (fun tree => tree.file? place) hempty hunpack
    fun store next entry hentry hstore hnext =>
      hdirect.unpackEntry_eq_some hstore (harchive entry hentry) hnext
  simpa [Tree.file?, Tree.node?, Tree.empty] using hrun.2

/-- The releases have the same files, the manifest apart. -/
def Agree (left right : Tree) : Prop :=
  ∀ place, payload place = true → left.file? place = right.file? place

/-- Every file of the release is named by a checksum, and each such checksum is that of its
content. -/
def Covered (contract : Contract) (checksums : Checksums) (tree : Tree) : Prop :=
  ∀ place data, payload place = true → tree.file? place = some data →
    (∃ path sum, checksums.lookup path = some sum ∧ destination path = some place) ∧
      ∀ path sum, checksums.lookup path = some sum → destination path = some place →
        sum = contract.sha256 data

/-- The entries that the checksum pass ignores leave the release as it is: without them the same
files are unpacked. -/
def Undisturbed (host : Host) (archive : List Entry) (tree : Tree) : Prop :=
  ∀ tree', host.unpack (archive.filter Entry.counted) = some tree' → Agree tree tree'

/-- Whatever is written in the release is told by the checksums: some counted entry names the place,
and each path text that names it was counted, last, with the bytes that are written last. -/
def Told (archive : List Entry) : Prop :=
  ∀ entry ∈ archive, ∀ file ∈ entry.written, payload file.1 = true →
    (∃ named ∈ archive, named.counted = true ∧ destination named.path = some file.1) ∧
      ∀ named ∈ archive, named.counted = true → destination named.path = some file.1 →
        lastAt Entry.byPath named.path archive = lastAt Entry.written file.1 archive

theorem Told.of_lastAt (h : Told archive) (hpayload : payload place = true)
    (hlast : lastAt Entry.written place archive = some data) :
    (∃ named ∈ archive, named.counted = true ∧ destination named.path = some place) ∧
      ∀ named ∈ archive, named.counted = true → destination named.path = some place →
        lastAt Entry.byPath named.path archive = some data := by
  rw [← hlast]
  obtain ⟨before, entry, after, rfl, hentry, -⟩ := lastAt_eq_some.mp hlast
  exact h entry (by simp) (place, data) hentry hpayload

theorem lastAt_byPath_filter (archive : List Entry) (path : String) :
    lastAt Entry.byPath path (archive.filter Entry.counted) = lastAt Entry.byPath path archive := by
  induction archive with
  | nil => rfl
  | cons entry rest ih =>
    by_cases hcounted : entry.counted = true
    · rw [List.filter_cons_of_pos hcounted, lastAt, lastAt, ih]
    · rw [List.filter_cons_of_neg hcounted, lastAt, ih]
      simp [writeAt, Entry.byPath, hcounted]

/-- Among counted entries, what is written last at a place is what a path text was counted with. -/
theorem lastAt_byPath_of_written (hcounted : ∀ entry ∈ archive, entry.counted = true)
    (hlast : lastAt Entry.written place archive = some data) :
    ∃ entry ∈ archive, destination entry.path = some place ∧
      lastAt Entry.byPath entry.path archive = some data := by
  obtain ⟨before, entry, after, rfl, hentry, hafter⟩ := lastAt_eq_some.mp hlast
  have hdest := Entry.written_destination hentry
  have hmem : entry ∈ before ++ entry :: after := by simp
  have hdata := (Entry.written_of_counted (hcounted entry hmem) hdest).symm.trans hentry
  refine ⟨entry, hmem, hdest, lastAt_eq_some.mpr ⟨before, entry, after, rfl,
    Entry.byPath_eq_some.mpr ⟨hcounted entry hmem, rfl, (Prod.mk.inj (Option.some.inj hdata)).2⟩,
    ?_⟩⟩
  -- A later entry of the same path would be unpacked to the same place.
  rw [lastAt_eq_none] at hafter ⊢
  intro later hlater value hvalue
  obtain ⟨hcounted', hpath, -⟩ := Entry.byPath_eq_some.mp hvalue
  exact hafter later hlater later.data
    (Entry.written_of_counted hcounted' (by rw [hpath, hdest]))

theorem entry_of_lookup {sum : String}
    (hsum : (readPayloadChecksums contract archive).lookup path = some sum) :
    ∃ entry ∈ archive, entry.counted = true ∧ entry.path = path ∧
      ∃ data, lastAt Entry.byPath path archive = some data ∧ contract.sha256 data = sum := by
  rw [readPayloadChecksums_lookup, Option.map_eq_some_iff] at hsum
  obtain ⟨data, hlast, hsum⟩ := hsum
  obtain ⟨before, entry, after, rfl, hentry, -⟩ := lastAt_eq_some.mp hlast
  obtain ⟨hcounted, hpath, -⟩ := Entry.byPath_eq_some.mp hentry
  exact ⟨entry, by simp, hcounted, hpath, data, hlast, hsum⟩

section Passes

variable (hdirect : host.Direct) (hordinary : Ordinary archive)
  (hunpack : host.unpack archive = some tree)

include hdirect hordinary hunpack

/-- The files of a release are covered just when what is written is told. -/
theorem covered_iff (contract : Contract) :
    Covered contract (readPayloadChecksums contract archive) tree ↔ Told archive := by
  constructor
  · rintro hcovered entry hentry ⟨place, written⟩ hwritten hpayload
    obtain ⟨data, hdata⟩ := lastAt_isSome_of_mem hentry hwritten
    have hfile := (hdirect.unpack_file hordinary hunpack place).trans hdata
    obtain ⟨⟨path, sum, hsum, hpath⟩, hall⟩ := hcovered place data hpayload hfile
    constructor
    · obtain ⟨named, hnamed, hcounted, rfl, -⟩ := entry_of_lookup hsum
      exact ⟨named, hnamed, hcounted, hpath⟩
    · intro named hnamed hcounted hplace
      obtain ⟨value, hvalue⟩ := lastAt_isSome_of_mem hnamed
        (Entry.byPath_eq_some.mpr ⟨hcounted, rfl, rfl⟩)
      have hsame := hall named.path (contract.sha256 value)
        (by rw [readPayloadChecksums_lookup, hvalue, Option.map_some]) hplace
      rw [hvalue, hdata, contract.sha256_injective hsame]
  · intro htold place data hpayload hfile
    rw [hdirect.unpack_file hordinary hunpack] at hfile
    obtain ⟨⟨named, hnamed, hcounted, hplace⟩, hall⟩ := htold.of_lastAt hpayload hfile
    constructor
    · refine ⟨named.path, contract.sha256 data, ?_, hplace⟩
      rw [readPayloadChecksums_lookup, hall named hnamed hcounted hplace, Option.map_some]
    · intro path sum hsum hpath
      obtain ⟨other, hother, hcounted', rfl, value, hvalue, rfl⟩ := entry_of_lookup hsum
      rw [hall other hother hcounted' hpath] at hvalue
      rw [Option.some.inj hvalue]

theorem undisturbed_of_told (htold : Told archive) : Undisturbed host archive tree := by
  intro tree' hunpack' place hpayload
  have hcounted : ∀ entry ∈ archive.filter Entry.counted, entry.counted = true :=
    fun entry hentry => (List.mem_filter.mp hentry).2
  have hordinary' : Ordinary (archive.filter Entry.counted) :=
    fun entry hentry => hordinary entry (List.mem_of_mem_filter hentry)
  rw [hdirect.unpack_file hordinary hunpack, hdirect.unpack_file hordinary' hunpack']
  cases hlast : lastAt Entry.written place archive with
  | none =>
    symm
    rw [lastAt_eq_none] at hlast ⊢
    exact fun entry hentry => hlast entry (List.mem_of_mem_filter hentry)
  | some data =>
    obtain ⟨⟨named, hnamed, hcount, hplace⟩, hall⟩ := htold.of_lastAt hpayload hlast
    obtain ⟨left, hleft⟩ := lastAt_isSome_of_mem (List.mem_filter.mpr ⟨hnamed, hcount⟩)
      (Entry.written_of_counted hcount hplace)
    obtain ⟨last, hmem, hdest, hpath⟩ := lastAt_byPath_of_written hcounted hleft
    obtain ⟨hmem, hcount⟩ := List.mem_filter.mp hmem
    rw [lastAt_byPath_filter, hall last hmem hcount hdest] at hpath
    rw [hleft, hpath]

theorem file_of_lookup {sum : String}
    (hsum : (readPayloadChecksums contract archive).lookup path = some sum)
    (hpath : destination path = some place) : ∃ data, tree.file? place = some data := by
  obtain ⟨entry, hentry, hcounted, rfl, -⟩ := entry_of_lookup hsum
  rw [hdirect.unpack_file hordinary hunpack]
  exact lastAt_isSome_of_mem hentry (Entry.written_of_counted hcounted hpath)

end Passes

theorem agree_of_covered {checksums : Checksums}
    (hleft : Covered contract checksums tree) (hright : Covered contract checksums tree')
    (hthere : ∀ place path sum, payload place = true → checksums.lookup path = some sum →
      destination path = some place → (∃ data, tree.file? place = some data) ∧
        ∃ data, tree'.file? place = some data) : Agree tree tree' := by
  intro place hpayload
  -- A file on either side is named by a checksum, which is that of both contents.
  have hnamed (h : (∃ data, tree.file? place = some data) ∨ ∃ data, tree'.file? place = some data) :
      ∃ path sum, checksums.lookup path = some sum ∧ destination path = some place := by
    rcases h with ⟨data, hdata⟩ | ⟨data, hdata⟩
    · exact (hleft place data hpayload hdata).1
    · exact (hright place data hpayload hdata).1
  by_cases hnone : (∃ data, tree.file? place = some data) ∨ ∃ data, tree'.file? place = some data
  · obtain ⟨path, sum, hsum, hpath⟩ := hnamed hnone
    obtain ⟨⟨data, hdata⟩, data', hdata'⟩ := hthere place path sum hpayload hsum hpath
    have hsame := ((hleft place data hpayload hdata).2 path sum hsum hpath).symm.trans
      ((hright place data' hpayload hdata').2 path sum hsum hpath)
    rw [hdata, hdata', contract.sha256_injective hsame]
  · simp only [not_or, not_exists, ← Option.eq_none_iff_forall_ne_some] at hnone
    rw [hnone.1, hnone.2]

theorem verifyBundleArchive_eq_ok : verifyBundleArchive contract archive manifest = .ok ⟨⟩ ↔
      manifest.checksums = readPayloadChecksums contract archive ∧
        deterministicBundleDigest contract manifest.target manifest.workdir manifest.engines
          manifest.checksums manifest.precompileHash = manifest.bundleDigest := by
  simp only [verifyBundleArchive, verifyManifestIdentity, bind_eq_ok, ensure_eq_ok]
  constructor
  · rintro ⟨⟨⟩, hcompare, hdigest⟩
    unfold comparePayloads at hcompare
    split at hcompare
    next hsums => exact ⟨hsums.symm, hdigest⟩
    next => cases hcompare
  · rintro ⟨hsums, hdigest⟩
    exact ⟨⟨⟩, by simp [comparePayloads, hsums, pure, Except.pure], hdigest⟩

theorem checksums_eq_of_digest (hdigest : manifest.bundleDigest = manifest'.bundleDigest)
    (hleft : verifyBundleArchive contract archive manifest = .ok ⟨⟩)
    (hright : verifyBundleArchive contract other manifest' = .ok ⟨⟩) :
    manifest.checksums = manifest'.checksums := by
  obtain ⟨-, hleft⟩ := verifyBundleArchive_eq_ok.mp hleft
  obtain ⟨-, hright⟩ := verifyBundleArchive_eq_ok.mp hright
  have htexts := hleft.trans (hdigest.trans hright.symm)
  simp only [deterministicBundleDigest, String.append_right_inj] at htexts
  exact congrArg Identity.checksums
    (contract.canonical_injective (contract.sha256_injective htexts))

theorem unpackRelease_eq_ok (h : unpackRelease host archive = .ok tree) :
    host.unpack archive = some tree := by
  simp only [unpackRelease, bind_eq_ok, required_eq_ok, pure_eq_ok] at h
  obtain ⟨_, hunpack, -, -, -, -, rfl⟩ := h
  exact hunpack

deriving instance Countable for ManifestModule, ManifestEngine

instance : Countable Checksums :=
  Function.Injective.countable (f := Finmap.entries) fun _ _ h => Finmap.ext h

deriving instance Countable for Identity

instance : Nonempty Contract := by
  obtain ⟨sha256, hsha256⟩ := Naming.exists_injective_text (α := Bytes)
  obtain ⟨canonical, hcanonical⟩ := Naming.exists_injective_bytes (α := Identity)
  exact ⟨⟨sha256, canonical, hsha256, hcanonical⟩⟩

def directHost : Host := ⟨fun _ place => some place⟩

theorem directHost_direct : directHost.Direct := fun _ _ _ => rfl

def manifestOf (contract : Contract) (archive : List Entry) : Manifest :=
  let checksums := readPayloadChecksums contract archive
  { target := "x86_64-unknown-linux-gnu"
    bundleDigest := deterministicBundleDigest contract "x86_64-unknown-linux-gnu" "/opt/wruntime"
      [] checksums none
    engines := []
    workdir := "/opt/wruntime"
    modules := []
    configs := []
    templateVars := []
    checksums := checksums
    precompileHash := none }

theorem verify_manifestOf
    (hsums : readPayloadChecksums contract other = readPayloadChecksums contract archive) :
    verifyBundleArchive contract other (manifestOf contract archive) = .ok ⟨⟩ :=
  verifyBundleArchive_eq_ok.mpr ⟨hsums.symm, rfl⟩

theorem readPayloadChecksums_filter (contract : Contract) (archive : List Entry) :
    readPayloadChecksums contract (archive.filter Entry.counted) =
      readPayloadChecksums contract archive := by
  have hround : (fun checksums entry =>
      if entry.counted = true then countEntry contract checksums entry else checksums) =
      countEntry contract := by
    funext checksums entry
    unfold countEntry
    split <;> rfl
  rw [readPayloadChecksums, List.foldl_filter, hround]
  rfl

theorem readPayloadChecksums_congr
    (hsame : archive.filter Entry.counted = other.filter Entry.counted) :
    readPayloadChecksums contract archive = readPayloadChecksums contract other := by
  rw [← readPayloadChecksums_filter, hsame, readPayloadChecksums_filter]

theorem readPayloadChecksums_append_singleton (hpath : ∀ entry' ∈ archive, entry'.path ≠ entry.path) :
    readPayloadChecksums contract (archive ++ [entry]) =
      readPayloadChecksums contract (entry :: archive) := by
  refine Finmap.ext_lookup fun path => ?_
  rw [readPayloadChecksums_lookup, readPayloadChecksums_lookup, lastAt_append, lastAt, lastAt,
    lastAt, Option.none_or]
  cases hwrite : writeAt Entry.byPath path entry with
  | none => simp
  | some data =>
    obtain ⟨-, rfl, -⟩ := Entry.byPath_eq_some.mp (writeAt_eq_some.mp hwrite)
    have hnone : lastAt Entry.byPath entry.path archive = none := by
      rw [lastAt_eq_none]
      intro entry' hentry' value hvalue
      exact hpath entry' hentry' (Entry.byPath_eq_some.mp hvalue).2.1
    simp [hnone]

namespace Sample

def file (path : String) (data : Bytes) : Entry := ⟨path, .regular, data, true⟩

def shipped : List Entry :=
  [file "wr-node/bin/wr-engine" [1], file "wr-node/bin/wr-cli" [2], file "wr-node/manifest.json" []]

def secondText : Entry := file "wr-node/./bin/wr-engine" [3]

/-- A continuous file in the engine's place, a nested manifest, a path with a slash at its end under
a new and an old header, and two counted texts for the engine in either order. -/
def smuggled : List (List Entry × List Entry) :=
  [(shipped, shipped ++ [⟨"wr-node/bin/wr-engine", .other 0x37, [3], true⟩]),
    (shipped, shipped ++ [file "wr-node/config/manifest.json" [3]]),
    (shipped ++ [file "wr-node/config/" [3]],
      shipped ++ [{ file "wr-node/config/" [3] with ustar := false }]),
    (secondText :: shipped, shipped ++ [secondText])]

/-- The same payload with a global header, a directory entry and another manifest. -/
def repacked : List Entry :=
  [⟨"pax_global_header", .other 0x67, [7], true⟩, ⟨"wr-node/", .directory, [], true⟩,
    file "wr-node/bin/wr-engine" [1], file "wr-node/bin/wr-cli" [2],
    file "wr-node/manifest.json" [9]]

theorem smuggled_checksums (contract : Contract) : ∀ pair ∈ smuggled,
      readPayloadChecksums contract pair.2 = readPayloadChecksums contract pair.1 := by
  simp only [smuggled, List.forall_mem_cons, List.not_mem_nil, false_imp_iff, implies_true,
    and_true]
  refine ⟨readPayloadChecksums_congr (by decide +kernel),
    readPayloadChecksums_congr (by decide +kernel), rfl,
    readPayloadChecksums_append_singleton (by decide +kernel)⟩

end Sample

open Sample

end Wruntime.Bundle
