import Wruntime.Lib.FirstMatch
import Wruntime.Postgres.Manifest

/-!
The host-based authentication file of a cluster. To PostgreSQL the first rule that matches a
connection by type, database, user and address decides, and no match is a refusal. The check of
provisioning sees the rules through the view `pg_hba_file_rules`, with every list as the text of an
array.
-/

namespace Wruntime.Postgres

open Fallible

def ipBits : Ip → BitVec 128 × Nat
  | .v4 bits => (bits.setWidth 128, 32)
  | .v6 bits => (bits, 128)

def bitsIp (bits : BitVec 128) (width : Nat) : Ip :=
  if width = 32 then .v4 (bits.setWidth 32) else .v6 bits

def prefixMask (length width : Nat) : BitVec 128 :=
  if length = 0 then 0
  else if width = 128 then BitVec.allOnes 128 <<< (128 - length)
  else (BitVec.allOnes 32 <<< (32 - length)).setWidth 128

def countOnes (bits : BitVec 128) : Nat :=
  ((List.range 128).filter fun i => bits.getLsbD i).length

def contiguousPrefix (mask : BitVec 128) (width : Nat) : Option Nat :=
  let relevant := if width = 32 then mask &&& (BitVec.allOnes 32).setWidth 128 else mask
  let inverted := relevant ^^^ prefixMask width width
  if inverted &&& (inverted + 1) ≠ 0 then none else some (width - countOnes inverted)

structure NetworkIdentity where
  address : Ip
  length : Nat
  deriving DecidableEq

namespace NetworkIdentity

def fromAddressAndPrefix (address : Ip) (length : Nat) : Except String NetworkIdentity := do
  let bits := ipBits address
  ensure (length ≤ bits.2) "network prefix exceeds address width"
  .ok { address := bitsIp (bits.1 &&& prefixMask length bits.2) bits.2, length }

def parseIntError (value : String) : String :=
  if value = "" then "cannot parse integer from empty string"
  else if value.toList.all Char.isDigit then "number too large to fit in target type"
  else "invalid digit found in string"

def parseCidr (codec : Codec) (value : String) : Except String NetworkIdentity := do
  let parts ← required (splitSlash value) ("CIDR lacks prefix: " ++ value)
  let address ← required (codec.parseIp parts.1) "invalid IP address syntax"
  let length ← required (parseU8 parts.2) (parseIntError parts.2)
  fromAddressAndPrefix address length

def fromPostgres (address netmask : Ip) : Except String NetworkIdentity := do
  let bits := ipBits address
  let mask := ipBits netmask
  ensure (bits.2 = mask.2) "HBA address/netmask family mismatch"
  let length ← required (contiguousPrefix mask.1 bits.2)
    "PostgreSQL HBA netmask is non-contiguous"
  .ok { address := bitsIp (bits.1 &&& mask.1) bits.2, length }

def contains (network other : NetworkIdentity) : Bool :=
  let own := ipBits network.address
  let bits := ipBits other.address
  own.2 = bits.2 && network.length ≤ other.length &&
    (bits.1 &&& prefixMask network.length own.2) = own.1

def Has (network : NetworkIdentity) (address : Ip) : Prop :=
  let own := ipBits network.address
  let bits := ipBits address
  own.2 = bits.2 ∧ bits.1 &&& prefixMask network.length own.2 = own.1

end NetworkIdentity

/-- A connection over a socket of the machine, or a network with no encryption, TLS or GSSAPI. -/
inductive Transport
  | socket
  | plain
  | tls
  | gss
  deriving DecidableEq

structure Connection where
  transport : Transport
  address : Ip
  database : String
  user : String

inductive ConnType
  | ctLocal | ctHost | ctHostSSL | ctHostNoSSL | ctHostGSS | ctHostNoGSS
  deriving DecidableEq

def ConnType.hits : ConnType → Transport → Bool
  | .ctLocal, transport => transport = .socket
  | .ctHost, transport => transport ≠ .socket
  | .ctHostSSL, transport => transport = .tls
  | .ctHostNoSSL, transport => transport = .plain || transport = .gss
  | .ctHostGSS, transport => transport = .gss
  | .ctHostNoGSS, transport => transport = .plain || transport = .tls

inductive DatabaseToken
  | all
  | sameuser
  | samerole
  | replication
  | name (s : String)
  | regex (s : String)
  deriving DecidableEq

inductive UserToken
  | all
  | group (s : String)
  | name (s : String)
  | regex (s : String)
  deriving DecidableEq

inductive AddressSpec
  | all
  | samehost
  | samenet
  | host (name : String)
  | network (address netmask : Ip)
  deriving DecidableEq

inductive AuthMethod
  | trust | reject | md5 | password | scramSha256 | gss | sspi | ident | peer | pam | bsd | ldap
  | radius | cert | oauth
  deriving DecidableEq

/-- A rule with its line number. An included file has line numbers of its own. -/
structure Rule where
  line : Int
  connType : ConnType
  databases : List DatabaseToken
  users : List UserToken
  address : AddressSpec
  method : AuthMethod
  options : List (String × String)
  deriving DecidableEq

/-- What matching depends on: role membership, name resolution, the server's own addresses and
networks, and regular expressions. -/
structure Surroundings where
  memberOf : String → String → Bool
  resolves : String → Ip → Bool
  ownHost : Ip → Bool
  ownNetwork : Ip → Bool
  regexMatches : String → String → Bool

section Matching

variable (around : Surroundings)

def DatabaseToken.hits (c : Connection) : DatabaseToken → Bool
  | .all => true
  | .sameuser => c.user = c.database
  | .samerole => around.memberOf c.user c.database
  | .replication => false
  | .name s => s = c.database
  | .regex s => around.regexMatches s c.database

def UserToken.hits (c : Connection) : UserToken → Bool
  | .all => true
  | .group s => around.memberOf c.user s
  | .name s => s = c.user
  | .regex s => around.regexMatches s c.user

def AddressSpec.hits (address : Ip) : AddressSpec → Bool
  | .all => true
  | .samehost => around.ownHost address
  | .samenet => around.ownNetwork address
  | .host name => around.resolves name address
  | .network base netmask =>
    (ipBits address).2 = (ipBits base).2 && (ipBits base).2 = (ipBits netmask).2 &&
      (ipBits address).1 &&& (ipBits netmask).1 = (ipBits base).1 &&& (ipBits netmask).1

def Rule.hits (rule : Rule) (c : Connection) : Bool :=
  rule.connType.hits c.transport &&
    (c.transport = .socket || rule.address.hits around c.address) &&
    rule.databases.any (DatabaseToken.hits around c) && rule.users.any (UserToken.hits around c)

def Rule.map (rule : Rule) : Option String := rule.options.lookup "map"

/-- The rule of the file that decides the connection; none refuses it. -/
def decisiveRule (rules : List Rule) (c : Connection) : Option Rule :=
  FirstMatch.decisive (Rule.hits around) rules c

end Matching

def quotationMark : Char := Char.ofNat 34

def backslash : Char := Char.ofNat 92

/-- Characters that make PostgreSQL quote an element of an array. -/
def isArraySyntax (c : Char) : Bool :=
  c = quotationMark || c = backslash || c = '\x7b' || c = '\x7d' || c = ',' || c.isWhitespace

def arrayElement (value : String) : List Char :=
  let chars := value.toList
  if chars = [] || chars.any isArraySyntax || chars.map Char.toUpper = "NULL".toList then
    quotationMark ::
      (chars.flatMap fun c => if c = quotationMark || c = backslash then [backslash, c] else [c]) ++
        [quotationMark]
  else chars

def arrayText (values : List String) : List Char :=
  '\x7b' :: [','].intercalate (values.map arrayElement) ++ ['\x7d']

def textContains (text : List Char) (part : String) : Bool := decide (part.toList <:+: text)

def DatabaseToken.text : DatabaseToken → String
  | .all => "all"
  | .sameuser => "sameuser"
  | .samerole => "samerole"
  | .replication => "replication"
  | .name s => s
  | .regex s => "/" ++ s

def UserToken.text : UserToken → String
  | .all => "all"
  | .group s => "+" ++ s
  | .name s => s
  | .regex s => "/" ++ s

def Rule.databasesText (rule : Rule) : List Char := arrayText (rule.databases.map (·.text))

def Rule.usersText (rule : Rule) : List Char := arrayText (rule.users.map (·.text))

def Rule.optionsText (rule : Rule) : List Char :=
  if rule.options = [] then [] else arrayText (rule.options.map fun o => o.1 ++ "=" ++ o.2)

/-- A row of the view: a rule or a line that does not parse. -/
inductive Row
  | rule (r : Rule)
  | error (line : Int) (message : String)

def Row.line : Row → Int
  | .rule r => r.line
  | .error line _ => line

def Row.rule? : Row → Option Rule
  | .rule r => some r
  | .error _ _ => none

def migrationExecutorAuthMarkerRole : String := "wr__migration_executor_auth"

def tenantAuthMarkerRole : String := "wr__tenant_client_auth"

inductive HbaAddress
  | network (n : NetworkIdentity)
  | dynamic
  deriving DecidableEq

def HbaAddress.parse : AddressSpec → Except String HbaAddress
  | .all | .samehost | .samenet => .ok .dynamic
  | .host name =>
    if name = "all" ∨ name = "samehost" ∨ name = "samenet" then .ok .dynamic
    else .error ("invalid PostgreSQL HBA address " ++ name)
  | .network address netmask => .network <$> NetworkIdentity.fromPostgres address netmask

def HbaAddress.covers (address : HbaAddress) (target : NetworkIdentity) : Bool :=
  match address with
  | .network own => own.contains target
  | .dynamic => true

/-- A local rule that names all databases and the executors' marker and asks for SCRAM. -/
def isExecutorRule (rule : Rule) : Bool :=
  textContains rule.databasesText "all" &&
    textContains rule.usersText migrationExecutorAuthMarkerRole && rule.method = .scramSha256

/-- A local rule that the check takes for one that concerns the executors. -/
def concernsExecutors (rule : Rule) : Bool :=
  textContains rule.databasesText "all" &&
    (textContains rule.usersText "all" ||
      textContains rule.usersText migrationExecutorAuthMarkerRole)

def executorLine (rules : List Rule) : Option Int := (rules.find? isExecutorRule).map (·.line)

def validateMigrationExecutorHbaRules (rules : List Rule) : Except String Unit := do
  let matchingLine ← required (executorLine rules)
    "missing local SCRAM rule for disposable migration executors"
  ensure (¬rules.any fun rule => rule.line < matchingLine && concernsExecutors rule)
    "an earlier local pg_hba rule bypasses disposable migration executor authentication"

/-- The options name the map, as far as the check can see. -/
def namesMap (identMapName : String) (rule : Rule) : Bool :=
  textContains rule.optionsText ("map=" ++ identMapName)

structure HbaRule where
  rule : Rule
  address : HbaAddress

def isCertificateRule (identMapName : String) (target : NetworkIdentity) (r : HbaRule) : Bool :=
  r.rule.connType = .ctHostSSL && textContains r.rule.usersText tenantAuthMarkerRole &&
    r.address = .network target && r.rule.method = .cert && namesMap identMapName r.rule

/-- A rule that the check takes for a bypass of the certificates of the target network. -/
def isBypass (identMapName : String) (target : NetworkIdentity) (r : HbaRule) : Bool :=
  (textContains r.rule.usersText "all" || textContains r.rule.usersText tenantAuthMarkerRole) &&
    r.address.covers target && (r.rule.method ≠ .cert || !namesMap identMapName r.rule)

def certificateLine (identMapName : String) (target : NetworkIdentity) (rules : List HbaRule) :
    Option Int :=
  (rules.find? (isCertificateRule identMapName target)).map (·.rule.line)

def validateCidrRules (codec : Codec) (identMapName : String) (rules : List HbaRule)
    (cidr : String) : Except String Unit := do
  let target ← NetworkIdentity.parseCidr codec cidr
  let matchingLine ← required (certificateLine identMapName target rules)
    ("missing exact cert/map HBA rule for tenant CIDR " ++ cidr)
  ensure (¬rules.any fun r => r.rule.line < matchingLine && isBypass identMapName target r)
    ("an earlier pg_hba rule bypasses tenant certificate authentication for " ++ cidr)

def validateHbaRules (codec : Codec) (rules : List HbaRule) (tenantCidrs : List String)
    (identMapName : String) : Except String Unit :=
  tenantCidrs.forM (validateCidrRules codec identMapName rules)

def listed (file : List Row) : List Row := file.insertionSort fun a b => a.line ≤ b.line

def rulesOf (rows : List Row) : List Rule := rows.filterMap Row.rule?

def localRules (rows : List Row) : List Rule :=
  (rulesOf rows).filter fun rule => rule.connType = .ctLocal

def networkRules (rows : List Row) : List Rule :=
  (rulesOf rows).filter fun rule => rule.connType = .ctHost || rule.connType = .ctHostSSL

def parseRule (rule : Rule) : Except String HbaRule := do
  let address ← HbaAddress.parse rule.address
  .ok { rule, address }

def validateHba (codec : Codec) (file : List Row) (manifest : PostgresProvisioningManifest) :
    Except String Unit := do
  let rows := listed file
  ensure (rows.all fun row => row.rule?.isSome) "pg_hba.conf contains parse errors"
  validateMigrationExecutorHbaRules (localRules rows)
  let rules ← (networkRules rows).mapM parseRule
  validateHbaRules codec rules manifest.tenantClientCidrs manifest.identMapName

end Wruntime.Postgres
