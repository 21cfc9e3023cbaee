import Wruntime.Lib.Naming
import Wruntime.Lib.Runs
import Wruntime.Postgres.Provision

/-!
Generations over the history of a cluster. Published states are compared by the digest of the
normalised manifest, and an unreadable database not at all. Where all are read, generations only
grow, and each stands for one content in a database. A manifest that is run again with its modules
in order is never taken for another one, unless a second manifest took its generation where the
first had published nothing to compare with.
-/

namespace Wruntime.Postgres

open Fallible Runs Table

variable {mappings : List IdentMapping} {published : List String}

/-- What a manifest says, without the order of its lists. -/
structure Content where
  scalars : Nat × String × Nat × Nat × String × String × String × PostgresProvisioningLimits
  jobQueues : Multiset String
  extensionAllowlist : Multiset String
  tenantClientCidrs : Multiset String
  nodes : Multiset PostgresProvisioningNode
  namespaces : Multiset (String × Multiset String)

namespace PostgresProvisioningManifest

def content (m : PostgresProvisioningManifest) : Content where
  scalars := (m.formatVersion, m.clusterId, m.generation, m.postgresMajor, m.postgresCaSha256,
    m.identMapName, m.platformDatabases.manager, m.limits)
  jobQueues := m.platformDatabases.jobQueues
  extensionAllowlist := m.extensionAllowlist
  tenantClientCidrs := m.tenantClientCidrs
  nodes := m.nodes
  namespaces := m.namespaces.map fun ns => (ns.name, (ns.modules : Multiset String))

/-- The modules of each namespace stand in the same order. -/
def SameModules (m m' : PostgresProvisioningManifest) : Prop :=
  ∀ a ∈ m.namespaces, ∀ b ∈ m'.namespaces, a.name = b.name → a.modules = b.modules

theorem content_normalized (m : PostgresProvisioningManifest) :
    m.normalized.content = m.content := by
  simp only [content, normalized, Content.mk.injEq, true_and, Multiset.coe_eq_coe,
    List.perm_insertionSort]
  exact (List.perm_insertionSort _ _).map _

end PostgresProvisioningManifest

variable {codec : Codec} {m m' : PostgresProvisioningManifest}

section

variable (hinjective : Function.Injective codec.encodedDigest)
include hinjective

theorem normalizedDigest_inj :
    m.normalizedDigest codec = m'.normalizedDigest codec ↔ m.normalized = m'.normalized := by
  simp only [PostgresProvisioningManifest.normalizedDigest, String.append_right_inj]
  exact hinjective.eq_iff

theorem content_eq_of_digest
    (h : m.normalizedDigest codec = m'.normalizedDigest codec) : m.content = m'.content := by
  rw [← m.content_normalized, ← m'.content_normalized, (normalizedDigest_inj hinjective).1 h]

end

theorem mem_namespaces (hcontent : m.content = m'.content) (hmodules : m.SameModules m')
    {ns : PostgresProvisioningNamespace} (hns : ns ∈ m.namespaces) : ns ∈ m'.namespaces := by
  have hmem : (ns.name, (ns.modules : Multiset String)) ∈ m.content.namespaces :=
    Multiset.mem_coe.2 (List.mem_map_of_mem hns)
  rw [hcontent] at hmem
  obtain ⟨other, hother, heq⟩ := List.mem_map.1 (Multiset.mem_coe.1 hmem)
  have hname : ns.name = other.name := (Prod.mk.inj heq).1.symm
  have hsame : ns = other := by
    cases ns
    cases other
    simp only [PostgresProvisioningNamespace.mk.injEq]
    exact ⟨hname, hmodules _ hns _ hother hname⟩
  exact hsame ▸ hother

/-- A manifest of the same content, modules in the same order, has the same digest. -/
theorem digest_eq_of_content (hcontent : m.content = m'.content) (hmodules : m.SameModules m')
    (hm : m.Distinct) (hm' : m'.Distinct) :
    m.normalizedDigest codec = m'.normalizedDigest codec := by
  have hscalars := congrArg Content.scalars hcontent
  simp only [PostgresProvisioningManifest.content, Prod.mk.injEq] at hscalars
  have htext : ∀ {rows rows' : List String}, (rows : Multiset String) = rows' →
      rows.insertionSort (· ≤ ·) = rows'.insertionSort (· ≤ ·) := fun h =>
    insertionSort_eq_of_perm (fun _ _ _ _ => id) (Multiset.coe_eq_coe.1 h)
  have hnodes : m.nodes.Perm m'.nodes := Multiset.coe_eq_coe.1 (congrArg Content.nodes hcontent)
  have hback : m'.SameModules m := fun a ha b hb hab => (hmodules b hb a ha hab.symm).symm
  have hnamespaces : m.namespaces.Perm m'.namespaces :=
    (List.perm_ext_iff_of_nodup hm.namespaces.of_map hm'.namespaces.of_map).2 fun ns =>
      ⟨mem_namespaces hcontent hmodules, mem_namespaces hcontent.symm hback⟩
  have hnormalized : m.normalized = m'.normalized := by
    simp only [PostgresProvisioningManifest.normalized, htext (congrArg Content.jobQueues hcontent),
      htext (congrArg Content.extensionAllowlist hcontent),
      htext (congrArg Content.tenantClientCidrs hcontent),
      insertionSort_eq_of_perm (fun a ha b hb => eq_of_nodup_key hm.nodeIds ha hb) hnodes,
      insertionSort_eq_of_perm (fun a ha b hb => eq_of_nodup_key hm.namespaces ha hb)
        hnamespaces, hscalars]
  rw [PostgresProvisioningManifest.normalizedDigest, hnormalized]
  rfl

/-- A run that reads every published state it compares with, of a manifest that lists a namespace's
modules as that of the same content did. Where an earlier run of the same generation had another
content, there is something to compare with: the manifest names a database in which that run
published. -/
structure Steady (codec : Codec) (w : World) (run : Run) : Prop where
  queried : ∀ database ∈ run.manifest.databases codec,
    (w.states database).isSome → run.queried database = true
  modules : ∀ r ∈ w.records, r.manifest.content = run.manifest.content →
    r.manifest.SameModules run.manifest
  reused : ∀ r ∈ w.records, r.manifest.generation = run.manifest.generation →
    r.manifest.content = run.manifest.content ∨
      ∃ database ∈ r.published, database ∈ run.manifest.databases codec

/-- What the records of earlier runs and the published states say about each other. -/
structure History (codec : Codec) (w : World) : Prop where
  distinct : ∀ r ∈ w.records, ∀ database ∈ r.published, r.manifest.Distinct
  converged : ∀ r ∈ w.records, ∀ database ∈ r.published,
    r.activated = true ∧ database ∈ r.converged
  origin : ∀ database state, w.states database = some state →
    ∃ r ∈ w.records, database ∈ r.published ∧
      state = ⟨r.manifest.generation, r.manifest.normalizedDigest codec⟩
  latest : ∀ r ∈ w.records, ∀ database ∈ r.published,
    ∃ state, w.states database = some state ∧ r.manifest.generation ≤ state.generation ∧
      (r.manifest.generation = state.generation →
        r.manifest.normalizedDigest codec = state.manifestDigest)
  agree : ∀ r ∈ w.records, ∀ r' ∈ w.records, ∀ database ∈ r.published,
    database ∈ r'.published → r.manifest.generation = r'.manifest.generation →
      r.manifest.normalizedDigest codec = r'.manifest.normalizedDigest codec

variable {w w' : World} {run : Run}

theorem checkGeneration_of_steady (hsteady : Steady codec w run)
    (hcheck : checkGenerationReplay codec w run = .ok ()) {database : String}
    (hmem : database ∈ run.manifest.databases codec) {state : NamespaceState}
    (hstate : w.states database = some state) : state.generation ≤ run.manifest.generation ∧
      (run.manifest.generation ≠ state.generation ∨
        run.manifest.normalizedDigest codec = state.manifestDigest) := by
  have hone := forM_eq_ok.1 hcheck database hmem
  rw [hsteady.queried database hmem (hstate ▸ rfl), if_pos rfl, hstate] at hone
  simp only [checkGeneration, bind_eq_ok, ensure_eq_ok] at hone
  obtain ⟨_, hle, hdigest⟩ := hone
  exact ⟨hle, hdigest⟩

theorem History.unchanged (h : History codec w) (hsame : Unchanged w w') : History codec w' := by
  obtain ⟨failed, hrecords, hfailed⟩ := hsame.records
  have hold : ∀ r ∈ w'.records, ∀ database ∈ r.published, r ∈ w.records := by
    intro r hr database hdatabase
    rw [hrecords, List.mem_append] at hr
    refine hr.resolve_right fun hnew => ?_
    rw [(hfailed r hnew).2] at hdatabase
    exact List.not_mem_nil hdatabase
  refine ⟨fun r hr d hd => h.distinct r (hold r hr d hd) d hd,
    fun r hr d hd => h.converged r (hold r hr d hd) d hd, ?_, ?_,
    fun r hr r' hr' d hd hd' => h.agree r (hold r hr d hd) r' (hold r' hr' d hd') d hd hd'⟩
  · intro database state hstate
    rw [hsame.states] at hstate
    obtain ⟨r, hr, hpublished⟩ := h.origin database state hstate
    exact ⟨r, hrecords ▸ List.mem_append_left failed hr, hpublished⟩
  · intro r hr database hdatabase
    rw [hsame.states]
    exact h.latest r (hold r hr database hdatabase) database hdatabase

theorem Activated.states_eq (h : Activated codec w run w' mappings published) (database : String) :
    w'.states database = if database ∈ published then
        some ⟨run.manifest.generation, run.manifest.normalizedDigest codec⟩
      else w.states database := by
  rw [h.states]
  rfl

theorem History.activated (h : History codec w) (hsteady : Steady codec w run)
    (hactivated : Activated codec w run w' mappings published) : History codec w' := by
  obtain ⟨hvalid, hcheck, -⟩ := plan_eq_ok hactivated.plan
  -- What an earlier run published in a database that this run publishes in.
  have hearlier : ∀ r ∈ w.records, ∀ database ∈ r.published, database ∈ published →
      r.manifest.generation ≤ run.manifest.generation ∧
        (r.manifest.generation = run.manifest.generation →
          r.manifest.normalizedDigest codec = run.manifest.normalizedDigest codec) := by
    intro r hr database hdatabase hpublished
    obtain ⟨state, hstate, hle, hdigest⟩ := h.latest r hr database hdatabase
    obtain ⟨hle', hdigest'⟩ :=
      checkGeneration_of_steady hsteady hcheck (hactivated.subset hpublished) hstate
    refine ⟨hle.trans hle', fun heq => ?_⟩
    have hsame : r.manifest.generation = state.generation := by omega
    exact (hdigest hsame).trans (hdigest'.resolve_left fun hne => hne (by omega)).symm
  have hmem : ∀ r ∈ w'.records, r ∈ w.records ∨
      r = ⟨run.manifest, run.manifest.databases codec, true, published⟩ := by
    intro r hr
    rw [hactivated.records, List.mem_append, List.mem_singleton] at hr
    exact hr
  refine ⟨?_, ?_, ?_, ?_, ?_⟩
  · intro r hr database hdatabase
    rcases hmem r hr with hr | rfl
    · exact h.distinct r hr database hdatabase
    · exact (distinct_of_validate hvalid).2
  · intro r hr database hdatabase
    rcases hmem r hr with hr | rfl
    · exact h.converged r hr database hdatabase
    · exact ⟨rfl, hactivated.subset hdatabase⟩
  · intro database state hstate
    rw [hactivated.states_eq] at hstate
    rw [hactivated.records]
    split at hstate
    next hpublished =>
      exact ⟨_, List.mem_append_right _ List.mem_cons_self, hpublished,
        (Option.some.inj hstate).symm⟩
    next =>
      obtain ⟨r, hr, hpublished⟩ := h.origin database state hstate
      exact ⟨r, List.mem_append_left _ hr, hpublished⟩
  · intro r hr database hdatabase
    rw [hactivated.states_eq]
    split
    next hpublished =>
      refine ⟨_, rfl, ?_⟩
      rcases hmem r hr with hr | rfl
      · exact hearlier r hr database hdatabase hpublished
      · exact ⟨le_rfl, fun _ => rfl⟩
    next hpublished =>
      rcases hmem r hr with hr | rfl
      · exact h.latest r hr database hdatabase
      · exact absurd hdatabase hpublished
  · intro r hr r' hr' database hdatabase hdatabase' heq
    rcases hmem r hr with hr | rfl
    · rcases hmem r' hr' with hr' | rfl
      · exact h.agree r hr r' hr' database hdatabase hdatabase' heq
      · exact (hearlier r hr database hdatabase hdatabase').2 heq
    · rcases hmem r' hr' with hr' | rfl
      · exact ((hearlier r' hr' database hdatabase' hdatabase).2 heq.symm).symm
      · rfl

theorem history_of_reach {file : List (List Char)}
    (hreach : Reach (next codec) (Steady codec) ⟨file, fun _ => none, []⟩ w) : History codec w := by
  refine hreach.invariant (P := History codec) ?_ ?_
  · constructor <;> simp
  · intro w run _ hsteady h
    rcases next_cases codec w run with hsame | ⟨mappings, published, hactivated⟩
    · exact h.unchanged hsame
    · exact h.activated hsteady hactivated

/-- The content of a generation is the same in all its runs, whether they published or not. -/
def OneContent (w : World) : Prop := ∀ r ∈ w.records, ∀ r' ∈ w.records,
  r.manifest.generation = r'.manifest.generation → r.manifest.content = r'.manifest.content

/-- A run past the check has the content of every earlier run of its generation: if one had another,
the check compared it with what that run published. -/
theorem content_of_check (hinjective : Function.Injective codec.encodedDigest)
    (h : History codec w) (hsteady : Steady codec w run)
    (hcheck : checkGenerationReplay codec w run = .ok ()) {r : Record} (hr : r ∈ w.records)
    (hgeneration : r.manifest.generation = run.manifest.generation) :
    r.manifest.content = run.manifest.content := by
  rcases hsteady.reused r hr hgeneration with hcontent | ⟨database, hpublished, hmem⟩
  · exact hcontent
  · obtain ⟨state, hstate, hle, hdigest⟩ := h.latest r hr database hpublished
    obtain ⟨hle', hdigest'⟩ := checkGeneration_of_steady hsteady hcheck hmem hstate
    have hsame : r.manifest.generation = state.generation := by omega
    refine content_eq_of_digest hinjective ((hdigest hsame).trans ?_)
    exact (hdigest'.resolve_left fun hne => hne (by omega)).symm

theorem oneContent_of_reach (hinjective : Function.Injective codec.encodedDigest)
    {file : List (List Char)}
    (hreach : Reach (next codec) (Steady codec) ⟨file, fun _ => none, []⟩ w) : OneContent w := by
  refine hreach.invariant (P := OneContent) ?_ ?_
  · rintro r hr
    cases hr
  · intro w run hprev hsteady h
    have hnew : ∀ r ∈ w.records, ∀ r' ∈ (next codec w run).records, r' ∉ w.records →
        r.manifest.generation = r'.manifest.generation →
          r.manifest.content = r'.manifest.content := by
      intro r hr r' hr' hnot hgeneration
      obtain hold | ⟨hmanifest, mappings, hplan⟩ := records_next hr'
      · exact absurd hold hnot
      · rw [hmanifest] at hgeneration ⊢
        exact content_of_check hinjective (history_of_reach hprev) hsteady (plan_eq_ok hplan).2.1 hr
          hgeneration
    intro r hr r' hr' hgeneration
    by_cases hold : r ∈ w.records <;> by_cases hold' : r' ∈ w.records
    · exact h r hold r' hold' hgeneration
    · exact hnew r hold r' hr' hold' hgeneration
    · exact (hnew r' hold' r hr hold hgeneration.symm).symm
    · obtain ⟨hmanifest, -⟩ := (records_next hr).resolve_left hold
      obtain ⟨hmanifest', -⟩ := (records_next hr').resolve_left hold'
      rw [hmanifest, hmanifest']

/-- What is said of the generations of a cluster. -/
structure GenerationsSound (codec : Codec) (w : World) : Prop where
  monotone : ∀ run, Steady codec w run → ∀ database before, w.states database = some before →
    ∃ after, (next codec w run).states database = some after ∧
      before.generation ≤ after.generation
  content : ∀ r ∈ w.records, ∀ r' ∈ w.records, ∀ database ∈ r.published,
    database ∈ r'.published → r.manifest.generation = r'.manifest.generation →
      r.manifest.content = r'.manifest.content
  converged : ∀ r ∈ w.records, ∀ database ∈ r.published,
    r.activated = true ∧ database ∈ r.converged
  rerun : ∀ run, Steady codec w run → run.manifest.validate codec = .ok () →
    (∃ r ∈ w.records, r.manifest.content = run.manifest.content) →
    checkGenerationReplay codec w run ≠ .error sameGenerationError

theorem monotone_of_steady (hsteady : Steady codec w run) {database : String}
    {before : NamespaceState} (hbefore : w.states database = some before) :
    ∃ after, (next codec w run).states database = some after ∧
      before.generation ≤ after.generation := by
  rcases next_cases codec w run with hsame | ⟨mappings, published, hactivated⟩
  · exact ⟨before, hsame.states ▸ hbefore, le_rfl⟩
  · rw [hactivated.states_eq]
    split
    next hpublished =>
      obtain ⟨-, hcheck, -⟩ := plan_eq_ok hactivated.plan
      exact ⟨_, rfl, (checkGeneration_of_steady hsteady hcheck
        (hactivated.subset hpublished) hbefore).1⟩
    next => exact ⟨before, hbefore, le_rfl⟩

theorem exists_of_forM_error {f : String → Except String Unit} {items : List String}
    {error : String} (h : items.forM f = .error error) : ∃ a ∈ items, f a = .error error := by
  by_contra hnone
  push Not at hnone
  induction items with
  | nil => cases h
  | cons item items ih =>
    rw [List.forM, bind_eq_error] at h
    rcases h with hitem | ⟨_, -, hrest⟩
    · exact hnone item List.mem_cons_self hitem
    · exact ih hrest fun a ha => hnone a (List.mem_cons_of_mem _ ha)

/-- Only a database published with another content refuses a manifest as conflicting. -/
theorem History.rerun (h : History codec w) (hsteady : Steady codec w run)
    (hvalid : run.manifest.validate codec = .ok ())
    (hrefused : checkGenerationReplay codec w run = .error sameGenerationError) :
    ∃ r ∈ w.records, ∃ database ∈ r.published, database ∈ run.manifest.databases codec ∧
      r.manifest.generation = run.manifest.generation ∧
        r.manifest.content ≠ run.manifest.content := by
  obtain ⟨database, hmem, hone⟩ := exists_of_forM_error hrefused
  split at hone
  next previous hprevious =>
    have hstate : w.states database = some previous := by
      split at hprevious
      · exact hprevious
      · cases hprevious
    obtain ⟨r, hr, hpublished, rfl⟩ := h.origin database previous hstate
    simp only [checkGeneration, bind_eq_error, ensure_eq_error] at hone
    rcases hone with ⟨-, hregression⟩ | ⟨_, -, hdiffers, -⟩
    · exact absurd hregression (by decide)
    · push Not at hdiffers
      refine ⟨r, hr, database, hpublished, hmem, hdiffers.1.symm, fun hcontent => hdiffers.2 ?_⟩
      exact (digest_eq_of_content hcontent (hsteady.modules r hr hcontent)
        (h.distinct r hr database hpublished) (distinct_of_validate hvalid).2).symm
  next => cases hone

deriving instance Countable for PostgresProvisioningLimits, PlatformDatabases,
  PostgresProvisioningNode, PostgresProvisioningNamespace, PostgresProvisioningManifest

namespace Sample

/-- The earlier runs are of the sample manifest, up to a generation. -/
def UpTo (g : Nat) (w : World) : Prop :=
  ∀ r ∈ w.records, ∃ g' ≤ g, r.manifest = manifest g' "node-a"

variable {codec : Codec} {w : World} {g : Nat}

theorem UpTo.steady (h : UpTo g w) : Steady codec w (Sample.run (manifest g "node-a")) := by
  refine ⟨fun _ _ _ => rfl, fun r hr _ => ?_, fun r hr hgeneration => .inl ?_⟩
  · obtain ⟨g', -, hmanifest⟩ := h r hr
    rw [hmanifest]
    intro a ha b hb _
    rw [List.mem_singleton.1 ha, List.mem_singleton.1 hb]
  · obtain ⟨g', -, hmanifest⟩ := h r hr
    rw [hmanifest] at hgeneration ⊢
    obtain rfl : g' = g := hgeneration
    rfl

theorem UpTo.mono {g' : Nat} (h : UpTo g w) (hle : g ≤ g') : UpTo g' w := fun r hr =>
  (h r hr).imp fun _ hr => ⟨hr.1.trans hle, hr.2⟩

theorem UpTo.next (codec : Codec) (h : UpTo g w) :
    UpTo g (Postgres.next codec w (Sample.run (manifest g "node-a"))) := by
  intro r hr
  rcases records_next hr with hold | ⟨hnew, -⟩
  · exact h r hold
  · exact ⟨g, le_rfl, hnew⟩

end Sample

end Wruntime.Postgres
