import Wruntime.Postgres.Networks

/-!
What an accepted file leaves open. The check looks only at rules of the types `local`, `host` and
`hostssl` before the rule it looks for, whose user list mentions `all` or a marker role and, on a
network, whose network contains all of the tenants'. It reads lists as text, so a name that contains
another passes for it. `Tight` says that a file has nothing of what is passed over so, and then an
accepted file leaves certificates as the only way in.
-/

namespace Wruntime.Postgres

open Fallible FirstMatch

/-- An element of an array stands in the text of the array. -/
theorem arrayElement_occurs {value : String} {values : List String} (h : value ∈ values) :
    arrayElement value <:+: arrayText values := by
  have hjoined : arrayElement value <:+: [','].intercalate (values.map arrayElement) := by
    induction values with
    | nil => cases h
    | cons first rest ih =>
      cases rest with
      | nil =>
        rw [List.mem_singleton.1 h]
        simp [List.intercalate]
      | cons second rest =>
        rw [List.map_cons, List.map_cons, List.intercalate_cons_cons]
        rcases List.mem_cons.1 h with rfl | hrest
        · exact ((List.prefix_append _ _).isInfix).trans (List.prefix_append _ _).isInfix
        · exact (ih hrest).trans (List.suffix_append _ _).isInfix
  exact hjoined.trans ⟨['\x7b'], ['\x7d'], rfl⟩

theorem textContains_of_mem {values : List String} {value part : String} (h : value ∈ values)
    (hpart : part.toList <:+: arrayElement value) : textContains (arrayText values) part = true :=
  decide_eq_true (hpart.trans (arrayElement_occurs h))

theorem mem_mapM {items : List Rule} {rules : List HbaRule} (h : items.mapM parseRule = .ok rules) :
    (∀ r ∈ rules, ∃ rule ∈ items, parseRule rule = .ok r) ∧
      ∀ rule ∈ items, ∃ r ∈ rules, parseRule rule = .ok r := by
  induction items generalizing rules with
  | nil => simp [← pure_eq_ok.1 h]
  | cons item items ih =>
    simp only [List.mapM_cons, bind_eq_ok, pure_eq_ok] at h
    obtain ⟨r, hr, rest, hrest, rfl⟩ := h
    obtain ⟨hback, hforth⟩ := ih hrest
    constructor
    · rintro other (_ | ⟨_, hother⟩)
      · exact ⟨item, .head _, hr⟩
      · obtain ⟨rule, hrule, hparse⟩ := hback other hother
        exact ⟨rule, .tail _ hrule, hparse⟩
    · rintro rule (_ | ⟨_, hrule⟩)
      · exact ⟨r, .head _, hr⟩
      · obtain ⟨other, hother, hparse⟩ := hforth rule hrule
        exact ⟨other, .tail _ hother, hparse⟩

theorem parseRule_eq_ok {rule : Rule} {r : HbaRule} : parseRule rule = .ok r ↔
    ∃ address, HbaAddress.parse rule.address = .ok address ∧ r = ⟨rule, address⟩ := by
  simp only [parseRule, bind_eq_ok, Except.ok.injEq, eq_comm (a := r)]

theorem mem_rulesOf_listed {file : List Row} {rule : Rule} :
    rule ∈ rulesOf (listed file) ↔ rule ∈ rulesOf file :=
  ((List.perm_insertionSort _ file).filterMap Row.rule?).mem_iff

section Security

variable (around : Surroundings) (codec : Codec) (file : List Row)
  (manifest : PostgresProvisioningManifest)

def ToNamespace (c : Connection) : Prop :=
  c.database ∈ manifest.namespaces.map fun ns => namespaceDatabase codec ns.name

/-- A connection of a tenant from the network of the CIDR. -/
structure TenantConnection (cidr : String) (target : NetworkIdentity) (c : Connection) :
    Prop where
  listed : cidr ∈ manifest.tenantClientCidrs
  parsed : NetworkIdentity.parseCidr codec cidr = .ok target
  network : c.transport ≠ .socket
  address : target.Has c.address
  member : around.memberOf c.user tenantAuthMarkerRole = true
  database : ToNamespace codec manifest c

/-- A connection of a migration executor on the machine itself. -/
structure ExecutorConnection (c : Connection) : Prop where
  socket : c.transport = .socket
  member : around.memberOf c.user migrationExecutorAuthMarkerRole = true
  database : ToNamespace codec manifest c

/-- The rule refuses, or asks for a certificate that the map of the manifest admits. -/
def CertificateOnly (rule : Rule) : Prop :=
  rule.method = .reject ∨ rule.method = .cert ∧ rule.map = some manifest.identMapName

/-- Certificates are the only way in for tenants, and SCRAM for executors. -/
structure Secure : Prop where
  tenants : ∀ cidr target c, TenantConnection around codec manifest cidr target c →
    ∀ rule, decisiveRule around (rulesOf file) c = some rule → CertificateOnly manifest rule
  executors : ∀ c, ExecutorConnection around codec manifest c →
    ∃ rule, decisiveRule around (rulesOf file) c = some rule ∧ rule.method = .scramSha256

/-- The rule is for everyone or for the members of the role, by its own words. -/
def Names (role : String) (rule : Rule) : Prop := .all ∈ rule.users ∨ .group role ∈ rule.users

/-- A file with nothing that the check passes over. -/
structure Tight : Prop where
  /-- The line numbers follow the order of the file, as they do where no file is included. -/
  ordered : (rulesOf file).Pairwise (·.line < ·.line)
  /-- Rules of types that are not read refuse. -/
  types : ∀ rule ∈ rulesOf file, rule.connType = .ctLocal ∨ rule.connType = .ctHost ∨
    rule.connType = .ctHostSSL ∨ rule.method = .reject
  /-- Tenants and executors are meant by `all` and by their marker role, by no other name. -/
  users : ∀ role ∈ [tenantAuthMarkerRole, migrationExecutorAuthMarkerRole],
    ∀ rule ∈ rulesOf file, ∀ token ∈ rule.users, ∀ c : Connection,
      around.memberOf c.user role = true → token.hits around c = true →
        token = .all ∨ token = .group role
  /-- No network meets a tenants' network in a part of it. -/
  networks : ∀ cidr ∈ manifest.tenantClientCidrs, ∀ target,
    NetworkIdentity.parseCidr codec cidr = .ok target → ∀ rule ∈ rulesOf file,
      ∀ base netmask own, rule.address = .network base netmask →
        NetworkIdentity.fromPostgres base netmask = .ok own →
          own.contains target = true ∨ ∀ x, target.Has x → ¬own.Has x
  /-- Local rules mean a namespace's database by `all` alone. -/
  databases : ∀ rule ∈ rulesOf file, rule.connType = .ctLocal → ∀ token ∈ rule.databases,
    ∀ c, ToNamespace codec manifest c → token.hits around c = true → token = .all
  /-- A certificate rule whose options contain the text of the map has this map. -/
  maps : ∀ rule ∈ rulesOf file, rule.method = .cert → namesMap manifest.identMapName rule = true →
    rule.map = some manifest.identMapName
  /-- A certificate rule whose users contain the text of the marker is for it and all databases. -/
  certificates : ∀ rule ∈ rulesOf file, rule.connType = .ctHostSSL → rule.method = .cert →
    textContains rule.usersText tenantAuthMarkerRole = true →
      .all ∈ rule.databases ∧ .group tenantAuthMarkerRole ∈ rule.users
  /-- So is the rule that the check takes for that of the executors. -/
  executors : ∀ rule ∈ rulesOf file, isExecutorRule rule = true →
    .all ∈ rule.databases ∧ .group migrationExecutorAuthMarkerRole ∈ rule.users
  /-- A rule for tenants without TLS is before every certificate rule, where it is checked, or it
  refuses. -/
  plain : ∀ rule ∈ rulesOf file, rule.connType = .ctHost → Names tenantAuthMarkerRole rule →
    rule.method = .reject ∨ ∀ other ∈ rulesOf file, other.connType = .ctHostSSL →
      other.method = .cert → rule.line < other.line

theorem usersText_of_names {role : String} {rule : Rule} (h : Names role rule)
    (hrole : role.toList <:+: arrayElement ("+" ++ role)) :
    (textContains rule.usersText "all" || textContains rule.usersText role) = true := by
  rcases h with hall | hgroup
  · exact Bool.or_inl (textContains_of_mem (List.mem_map_of_mem hall) (by decide))
  · exact Bool.or_inr (textContains_of_mem (List.mem_map_of_mem hgroup) hrole)

theorem databasesText_of_all {rule : Rule} (h : .all ∈ rule.databases) :
    textContains rule.databasesText "all" = true :=
  textContains_of_mem (List.mem_map_of_mem h) (by decide)

variable {codec file manifest}

section

variable (h : validateHba codec file manifest = .ok ())
include h

theorem validateHba_eq_ok : validateMigrationExecutorHbaRules (localRules (listed file)) = .ok () ∧
      ∃ rules, (networkRules (listed file)).mapM parseRule = .ok rules ∧
        validateHbaRules codec rules manifest.tenantClientCidrs manifest.identMapName = .ok () := by
  simp only [validateHba, bind_eq_ok, ensure_eq_ok] at h
  obtain ⟨_, _, _, hlocal, rules, hrules, hnetwork⟩ := h
  exact ⟨hlocal, rules, hrules, hnetwork⟩

/-- What the check says of a tenants' network: it has a certificate rule, and no rule before that
is a bypass. -/
theorem certificateRule_of_accepted {cidr : String} {target : NetworkIdentity}
    (hcidr : cidr ∈ manifest.tenantClientCidrs)
    (hparsed : NetworkIdentity.parseCidr codec cidr = .ok target) :
    ∃ certificate ∈ rulesOf file, HbaAddress.parse certificate.address = .ok (.network target) ∧
      isCertificateRule manifest.identMapName target ⟨certificate, .network target⟩ = true ∧
      ∀ rule ∈ rulesOf file, (rule.connType = .ctHost ∨ rule.connType = .ctHostSSL) →
        ∃ address, HbaAddress.parse rule.address = .ok address ∧ (rule.line < certificate.line →
          isBypass manifest.identMapName target ⟨rule, address⟩ = false) := by
  obtain ⟨_, rules, hrules, hcheck⟩ := validateHba_eq_ok h
  have hchecked := forM_eq_ok.1 hcheck cidr hcidr
  simp only [validateCidrRules, bind_eq_ok, required_eq_ok, ensure_eq_ok] at hchecked
  obtain ⟨checked, hchecked, line, hline, hnone⟩ := hchecked
  obtain rfl : checked = target := Except.ok.inj (hchecked.symm.trans hparsed)
  obtain ⟨found, hfound, rfl⟩ := Option.map_eq_some_iff.1 hline
  have hmem := List.mem_of_find?_eq_some hfound
  have hcertificate := List.find?_some hfound
  obtain ⟨certificate, hlisted, hparse⟩ := (mem_mapM hrules).1 found hmem
  obtain ⟨address, haddress, rfl⟩ := parseRule_eq_ok.1 hparse
  have hexact : address = .network checked := by
    simp only [isCertificateRule, Bool.and_eq_true, decide_eq_true_eq] at hcertificate
    exact hcertificate.1.1.2
  subst hexact
  have hsame {rule : Rule} : rule ∈ networkRules (listed file) ↔ rule ∈ rulesOf file ∧
      (rule.connType = .ctHost ∨ rule.connType = .ctHostSSL) := by
    rw [networkRules, List.mem_filter, mem_rulesOf_listed]
    simp
  refine ⟨certificate, (hsame.1 hlisted).1, haddress, hcertificate, fun rule hrule htype => ?_⟩
  obtain ⟨r, hr, hparse⟩ := (mem_mapM hrules).2 rule (hsame.2 ⟨hrule, htype⟩)
  obtain ⟨address, haddress, rfl⟩ := parseRule_eq_ok.1 hparse
  refine ⟨address, haddress, fun hearlier => ?_⟩
  by_contra hbypass
  refine hnone (List.any_eq_true.2 ⟨_, hr, ?_⟩)
  simpa [hearlier] using hbypass

/-- What the check says of the executors: there is a rule for them, and no local rule before it
concerns them. -/
theorem executorRule_of_accepted : ∃ executor ∈ rulesOf file, executor.connType = .ctLocal ∧
    isExecutorRule executor = true ∧ ∀ rule ∈ rulesOf file, rule.connType = .ctLocal →
      rule.line < executor.line → concernsExecutors rule = false := by
  have hcheck := (validateHba_eq_ok h).1
  simp only [validateMigrationExecutorHbaRules, bind_eq_ok, required_eq_ok, ensure_eq_ok]
    at hcheck
  obtain ⟨line, hline, hnone⟩ := hcheck
  obtain ⟨executor, hfound, rfl⟩ := Option.map_eq_some_iff.1 hline
  have hsame {rule : Rule} : rule ∈ localRules (listed file) ↔
      rule ∈ rulesOf file ∧ rule.connType = .ctLocal := by
    rw [localRules, List.mem_filter, mem_rulesOf_listed, decide_eq_true_eq]
  obtain ⟨hmem, htype⟩ := hsame.1 (List.mem_of_find?_eq_some hfound)
  refine ⟨executor, hmem, htype, List.find?_some hfound, fun rule hrule hlocal hearlier => ?_⟩
  by_contra hconcerns
  refine hnone (List.any_eq_true.2 ⟨rule, hsame.2 ⟨hrule, hlocal⟩, ?_⟩)
  simpa [hearlier] using hconcerns

end

variable {around}

theorem Rule.hits_eq_true {rule : Rule} {c : Connection} : rule.hits around c = true ↔
    rule.connType.hits c.transport = true ∧
      (c.transport = .socket ∨ rule.address.hits around c.address = true) ∧
      (∃ token ∈ rule.databases, token.hits around c = true) ∧
      ∃ token ∈ rule.users, token.hits around c = true := by
  simp [Rule.hits, and_assoc]

/-- A rule on a network of the tenants' whose users are of the marker's names is for them. -/
theorem Tight.names {role : String} (htight : Tight around codec file manifest)
    (hrole : role ∈ [tenantAuthMarkerRole, migrationExecutorAuthMarkerRole]) {rule : Rule}
    (hrule : rule ∈ rulesOf file) {c : Connection} (hmember : around.memberOf c.user role = true)
    (hhits : rule.hits around c = true) : Names role rule := by
  obtain ⟨-, -, -, token, htoken, hhit⟩ := Rule.hits_eq_true.1 hhits
  rcases htight.users role hrole rule hrule token htoken c hmember hhit with rfl | rfl
  · exact .inl htoken
  · exact .inr htoken

theorem hits_network {base netmask x : Ip} {own : NetworkIdentity}
    (hown : NetworkIdentity.fromPostgres base netmask = .ok own) :
    (AddressSpec.network base netmask).hits around x = true ↔ own.Has x := by
  rw [NetworkIdentity.has_fromPostgres hown]
  have hfamily := (NetworkIdentity.fromPostgres_eq_ok.1 hown).1
  simp only [AddressSpec.hits, ipBits_eq, Bool.and_eq_true, decide_eq_true_eq, hfamily, and_true,
    eq_comm (b := netmask.width)]

/-- An address that lets in a part of a tenants' network covers all of it. -/
theorem Tight.covers (htight : Tight around codec file manifest) {cidr : String}
    {target : NetworkIdentity} (hcidr : cidr ∈ manifest.tenantClientCidrs)
    (hparsed : NetworkIdentity.parseCidr codec cidr = .ok target) {rule : Rule}
    (hrule : rule ∈ rulesOf file) {address : HbaAddress}
    (haddress : HbaAddress.parse rule.address = .ok address) {x : Ip} (hx : target.Has x)
    (hhits : rule.address.hits around x = true) : address.covers target = true := by
  cases hspec : rule.address with
  | all | samehost | samenet =>
    rw [hspec] at haddress
    rw [← Except.ok.inj haddress]
    rfl
  | host name =>
    rw [hspec, HbaAddress.parse] at haddress
    split at haddress
    · rw [← Except.ok.inj haddress]
      rfl
    · cases haddress
  | network base netmask =>
    rw [hspec] at haddress hhits
    obtain ⟨own, hown, rfl⟩ := map_eq_ok.1 haddress
    rcases htight.networks cidr hcidr target hparsed rule hrule base netmask own hspec hown with
      hcontains | hdisjoint
    · exact hcontains
    · exact absurd ((hits_network hown).1 hhits) (hdisjoint x hx)

/-- The certificate rule of a tenants' network catches the tenants that come over TLS. -/
theorem Tight.certificate_hits (htight : Tight around codec file manifest) {cidr : String}
    {target : NetworkIdentity} {c : Connection}
    (hc : TenantConnection around codec manifest cidr target c) {certificate : Rule}
    (hcertificate : certificate ∈ rulesOf file)
    (hexact : HbaAddress.parse certificate.address = .ok (.network target))
    (hssl : certificate.connType = .ctHostSSL) (hcert : certificate.method = .cert)
    (hmarker : textContains certificate.usersText tenantAuthMarkerRole = true)
    (htls : ConnType.ctHostSSL.hits c.transport = true) : certificate.hits around c = true := by
  obtain ⟨hall, hgroup⟩ := htight.certificates certificate hcertificate hssl hcert hmarker
  refine Rule.hits_eq_true.2 ⟨hssl ▸ htls, .inr ?_, ⟨_, hall, rfl⟩, ⟨_, hgroup, hc.member⟩⟩
  cases hspec : certificate.address with
  | network base netmask =>
    rw [hspec] at hexact
    obtain ⟨own, hown, heq⟩ := map_eq_ok.1 hexact
    rw [hits_network hown, HbaAddress.network.inj heq]
    exact hc.address
  | host name =>
    rw [hspec, HbaAddress.parse] at hexact
    split at hexact <;> cases hexact
  | all | samehost | samenet =>
    rw [hspec] at hexact
    cases hexact

/-- A rule for tenants that is no bypass asks for their certificates. -/
theorem Tight.certificateOnly (htight : Tight around codec file manifest) {cidr : String}
    {target : NetworkIdentity} {c : Connection}
    (hc : TenantConnection around codec manifest cidr target c) {rule : Rule}
    (hrule : rule ∈ rulesOf file) (hnames : Names tenantAuthMarkerRole rule)
    (hmeets : rule.address.hits around c.address = true) {address : HbaAddress}
    (hparse : HbaAddress.parse rule.address = .ok address)
    (hsafe : isBypass manifest.identMapName target ⟨rule, address⟩ = false) :
    CertificateOnly manifest rule := by
  have hcovers := htight.covers hc.listed hc.parsed hrule hparse hc.address hmeets
  have htext := usersText_of_names hnames (by decide)
  simp only [isBypass, hcovers, htext, Bool.and_true, Bool.true_and, Bool.or_eq_false_iff,
    decide_eq_false_iff_not, not_not, Bool.not_eq_false'] at hsafe
  exact .inr ⟨hsafe.1, htight.maps rule hrule hsafe.1 hsafe.2⟩

section Accepted

variable (h : validateHba codec file manifest = .ok ()) (htight : Tight around codec file manifest)
include h htight

/-- A rule that lets tenants in by something else than their certificates is behind the certificate
rule, which catches them over TLS, and is not read without TLS. -/
theorem tenants_certificateOnly {cidr : String} {target : NetworkIdentity} {c : Connection}
    (hc : TenantConnection around codec manifest cidr target c) {rule : Rule}
    (hdecides : decisiveRule around (rulesOf file) c = some rule) :
    CertificateOnly manifest rule := by
  obtain ⟨certificate, hcertificate, hexact, hfound, hchecked⟩ :=
    certificateRule_of_accepted h hc.listed hc.parsed
  simp only [isCertificateRule, Bool.and_eq_true, decide_eq_true_eq] at hfound
  obtain ⟨⟨⟨⟨hssl, hmarker⟩, -⟩, hcert⟩, hmap⟩ := hfound
  obtain ⟨hrule, hhits⟩ := decisive_mem hdecides
  have hnames := htight.names (.head _) hrule hc.member hhits
  obtain ⟨htransport, haddress, -, -⟩ := Rule.hits_eq_true.1 hhits
  -- Before the certificate rule the check has seen to it.
  have hbefore (htype : rule.connType = .ctHost ∨ rule.connType = .ctHostSSL)
      (hline : rule.line < certificate.line) : CertificateOnly manifest rule := by
    obtain ⟨address, hparse, hsafe⟩ := hchecked rule hrule htype
    exact htight.certificateOnly hc hrule hnames (haddress.resolve_left hc.network) hparse
      (hsafe hline)
  rcases htight.types rule hrule with hlocal | hhost | hhostssl | hreject
  · rw [hlocal] at htransport
    exact absurd (of_decide_eq_true htransport) hc.network
  · rcases htight.plain rule hrule hhost hnames with hreject | hline
    · exact .inl hreject
    · exact hbefore (.inl hhost) (hline certificate hcertificate hssl hcert)
  · have hcatches := htight.certificate_hits hc hcertificate hexact hssl hcert hmarker
      (hhostssl ▸ htransport)
    rcases decisive_eq_or_before htight.ordered hcertificate hcatches hdecides with rfl | hline
    · exact .inr ⟨hcert, htight.maps rule hrule hcert hmap⟩
    · exact hbefore (.inr hhostssl) hline
  · exact .inl hreject

/-- The executors' own rule catches them, and no rule before it is for them. -/
theorem executors_scram {c : Connection} (hc : ExecutorConnection around codec manifest c) :
    ∃ rule, decisiveRule around (rulesOf file) c = some rule ∧ rule.method = .scramSha256 := by
  obtain ⟨executor, hexecutor, hlocal, hfound, hchecked⟩ := executorRule_of_accepted h
  obtain ⟨hall, hgroup⟩ := htight.executors executor hexecutor hfound
  have hcatches : executor.hits around c = true := by
    refine Rule.hits_eq_true.2 ⟨?_, .inl hc.socket, ⟨_, hall, rfl⟩, ⟨_, hgroup, hc.member⟩⟩
    rw [hlocal, hc.socket]
    rfl
  obtain ⟨rule, hdecides⟩ := Option.isSome_iff_exists.1
    (decisive_isSome.2 ⟨executor, hexecutor, hcatches⟩)
  refine ⟨rule, hdecides, ?_⟩
  rcases decisive_eq_or_before htight.ordered hexecutor hcatches hdecides with rfl | hline
  · simp only [isExecutorRule, Bool.and_eq_true, decide_eq_true_eq] at hfound
    exact hfound.2
  · obtain ⟨hrule, hhits⟩ := decisive_mem hdecides
    obtain ⟨htransport, -, ⟨token, htoken, hhit⟩, -⟩ := Rule.hits_eq_true.1 hhits
    have hsocket : rule.connType = .ctLocal := by
      rw [hc.socket] at htransport
      cases htype : rule.connType <;> rw [htype] at htransport <;> first | rfl | cases htransport
    obtain rfl := htight.databases rule hrule hsocket token htoken c hc.database hhit
    have htext := usersText_of_names (htight.names (.tail _ (.head _)) hrule hc.member hhits)
      (by decide)
    have hconcerns : concernsExecutors rule = true := by
      rw [concernsExecutors, databasesText_of_all htoken, htext]
      rfl
    cases hconcerns.symm.trans (hchecked rule hrule hsocket hline)

end Accepted

end Security

namespace Sample

def cluster : PostgresProvisioningManifest := manifest 1 "node-a"

/-- One tenant, one executor, and no networks of the server's own. -/
def around : Surroundings :=
  ⟨fun user role => user == "tenant-1" && role == tenantAuthMarkerRole ||
      user == "executor-1" && role == migrationExecutorAuthMarkerRole,
    fun _ _ => false, fun _ => false, fun _ => false, fun _ _ => false⟩

def adminRule : Rule := ⟨1, .ctLocal, [.all], [.name "postgres"], .all, .peer, []⟩

def executorRule : Rule := ⟨2, .ctLocal, [.all], [.group migrationExecutorAuthMarkerRole],
  .all, .scramSha256, []⟩

def officeRule : Rule :=
  ⟨3, .ctHost, [.all], [.all], .network (.v4 0xc0a80000) (.v4 0xffff0000), .scramSha256, []⟩

def narrowRule : Rule :=
  ⟨3, .ctHost, [.all], [.all], .network (.v4 0xac100000) (.v4 0xffff0000), .trust, []⟩

def certificateRule : Rule := ⟨4, .ctHostSSL, [.all], [.group tenantAuthMarkerRole],
  .network (.v4 0xac100000) (.v4 0xfff00000), .cert, [("map", "wruntime_nodes")]⟩

/-- Local rules for the administrator and the executors, a network of its own for everyone, and the
tenants' certificates. -/
def tightFile : List Row :=
  [.rule adminRule, .rule executorRule, .rule officeRule, .rule certificateRule]

theorem office_disjoint {own : NetworkIdentity} {x : Ip}
    (hx : NetworkIdentity.Has ⟨.v4 0xac100000, 12⟩ x)
    (hown : NetworkIdentity.fromPostgres (.v4 0xc0a80000) (.v4 0xffff0000) = .ok own) :
    ¬own.Has x := by
  rw [NetworkIdentity.has_fromPostgres hown]
  rintro ⟨-, hoffice⟩
  have hmask : (Ip.v4 0xffff0000).word &&& prefixMask 12 32 = prefixMask 12 32 := by decide +kernel
  have hshared := congrArg (· &&& prefixMask 12 32) hoffice
  simp only [BitVec.and_assoc, hmask] at hshared
  exact absurd (hx.2.symm.trans hshared) (by decide +kernel)

theorem tight_tightFile : Tight around Sample.codec tightFile cluster where
  ordered := by decide +kernel
  types := by decide +kernel
  users := by
    intro role hrole rule hrule token htoken c hmember hhit
    simp only [rulesOf, tightFile, List.filterMap, Row.rule?, List.mem_cons, List.not_mem_nil,
      or_false] at hrule hrole
    rcases hrole with rfl | rfl <;> rcases hrule with rfl | rfl | rfl | rfl <;>
      simp_all [adminRule, executorRule, officeRule, certificateRule, UserToken.hits, around,
        tenantAuthMarkerRole, migrationExecutorAuthMarkerRole]
  networks := by
    intro cidr hcidr target hparsed rule hrule base netmask own hspec hown
    obtain rfl := List.mem_singleton.1 hcidr
    obtain rfl : ⟨.v4 0xac100000, 12⟩ = target := by
      have hvalue : NetworkIdentity.parseCidr Sample.codec "172.16.0.0/12" =
          .ok ⟨.v4 0xac100000, 12⟩ := by decide +kernel
      exact Except.ok.inj (hvalue.symm.trans hparsed)
    simp only [rulesOf, tightFile, List.filterMap, Row.rule?, List.mem_cons, List.not_mem_nil,
      or_false] at hrule
    rcases hrule with rfl | rfl | rfl | rfl
    · cases hspec
    · cases hspec
    · cases hspec
      exact .inr fun x hx => office_disjoint hx hown
    · cases hspec
      left
      have hvalue : NetworkIdentity.fromPostgres (.v4 0xac100000) (.v4 0xfff00000) =
          .ok ⟨.v4 0xac100000, 12⟩ := by decide +kernel
      rw [← Except.ok.inj (hvalue.symm.trans hown)]
      decide +kernel
  databases := by
    intro rule hrule hlocal token htoken c _ _
    have hall : ∀ rule ∈ rulesOf tightFile, ∀ token ∈ rule.databases, token = .all := by
      decide +kernel
    exact hall rule hrule token htoken
  maps := by decide +kernel
  certificates := by decide +kernel
  executors := by decide +kernel
  plain := by
    unfold Names
    decide +kernel

end Sample

open Sample

end Wruntime.Postgres
