import Cerid.Lib.Text
import Cerid.Retrieval.Scope

/-!
# The arms of a query

Rows of the knowledge base come from the vector search of a domain, from its keyword indexes,
from the artifacts that the graph relates to them and from the questions that were written for
them.  Each arm has its own way to hold a row to the scope of the query.
-/

namespace Cerid

namespace MetaValue

/-- `bool(v)`. -/
def truthy : MetaValue → Bool
  | str s => decide (s ≠ "")
  | num q => decide (q ≠ 0)
  | bool b => b

/-- `str(v)`. -/
def text : MetaValue → String
  | str s => s
  | num q => toString q
  | bool true => "True"
  | bool false => "False"

/-- `a == b`: a truth value equals the number that it counts as. -/
def same : MetaValue → MetaValue → Bool
  | bool b, num q => decide (q = if b then 1 else 0)
  | num q, bool b => decide (q = if b then 1 else 0)
  | a, b => decide (a = b)

end MetaValue

namespace Retrieval

open Where

/-- A chunk of a domain's collection.  Its metadata are not empty. -/
structure KbRow where
  chunkId : String
  domain : String
  metadata : Dict String MetaValue
  carries : metadata.items ≠ []

def KbRow.field (r : KbRow) : Metadata := r.metadata.get?

/-! ## The version rule -/

/-- `str(m.get(key) or "")`. -/
def fieldText (m : Metadata) (key : String) : String :=
  ((m key).filter MetaValue.truthy).elim "" MetaValue.text

def microsecondsOfDay : Int := 86400000000

/-- A date covers its whole day. -/
def normalizeAsOf (parseTime : String → Option Int) (asOf : Option String) : Option Int :=
  (asOf.filter fun s => decide (s ≠ "")).bind fun s =>
    let t := String.ofList (Text.strip s.toList)
    if t.length = 10 then (parseTime t).map fun day => day + microsecondsOfDay - 1
    else parseTime t

def validAt (parseTime : String → Option Int) (m : Metadata) : Option Int → Bool
  | none => fieldText m "valid_to" = "" && fieldText m "superseded_by" = ""
  | some asOf =>
    if (parseTime (fieldText m "valid_from")).any (fun start => decide (asOf < start)) then false
    else if fieldText m "valid_to" = "" then true
    else (parseTime (fieldText m "valid_to")).any fun till => decide (asOf < till)

/-! ## The query -/

/-- A query of the knowledge base: what it is under, the domains that it searches and those that
its caller may read, the artifacts that the graph relates to its results, each with its domain,
and the chunks and artifacts that are forgotten. -/
structure KbQuery where
  metadataFilter : Option Where
  domainRecordTypes : String → List String
  excludeVerifiedMemories : Bool
  multiUser : Bool
  tenantId : String
  defaultTenantId : String
  filterPending : Bool
  foldersOff : List String
  pcEnabled : Bool
  asOf : Option String
  parseTime : String → Option Int
  domains : List String
  readable : List String
  related : List (String × String)
  neighbours : List (String × String)
  forgottenChunks : List String
  forgottenArtifacts : List String

namespace KbQuery

variable (q : KbQuery)

/-- The tenant that the clauses ask for. -/
def tenant : Option String := if q.multiUser then some q.tenantId else none

/-- What the search of a domain is under. -/
def scoping (domain : String) : Scoping where
  recordTypes := q.domainRecordTypes domain
  verified := q.excludeVerifiedMemories && decide (domain = "conversations")
  tenant := q.tenant
  filterPending := q.filterPending
  foldersOff := q.foldersOff
  pcEnabled := q.pcEnabled
  asOf := q.asOf

end KbQuery

/-- What a store answers with is refused, or met by the row. -/
def accepts (w : Except ScopeError (Option Where)) (m : Metadata) : Bool :=
  match w with
  | .ok w => optTaken w && optHolds m w
  | .error _ => false

/-! ## Keyword hits -/

/-- What `_metadata_matches` reads of a condition. -/
def Condition.matched (actual : Option MetaValue) : Condition → Bool
  | .value v => actual.any (MetaValue.same v)
  | .ne v => !actual.any (MetaValue.same v)
  | .isIn vs => actual.any fun a => vs.any (MetaValue.same a)
  | .notIn vs => !actual.any fun a => vs.any (MetaValue.same a)
  | _ => true

mutual

/-- `_metadata_matches`: what stands beside a list is not read. -/
def metadataMatches (m : Metadata) : Where → Bool
  | .mk fields none => fields.items.all fun p => Condition.matched (m p.1) p.2
  | .mk _ (some clauses) => allMatch m clauses

def allMatch (m : Metadata) : List Where → Bool
  | [] => true
  | w :: rest => metadataMatches m w && allMatch m rest

end

namespace KbQuery

variable (q : KbQuery) (r : KbRow)

def chunkMatchesTenant : Bool :=
  !r.metadata.items.isEmpty &&
    decide ((r.field "tenant_id").getD (.str q.defaultTenantId) = .str q.tenantId)

/-- `meta.get("version_closed")`. -/
def versionClosed : Bool := (r.field "version_closed").any MetaValue.truthy

def chunkExcluded : Bool :=
  decide (q.foldersOff ≠ []) &&
    (r.field "watched_folder_id").any fun v => v ∈ q.foldersOff.map MetaValue.str

/-- The search of the domain goes through, so that its keyword hits are looked at. -/
def runs (domain : String) : Bool :=
  match queryWhere (q.scoping domain) q.metadataFilter with
  | .ok w => optTaken w
  | .error _ => false

/-- The row is accepted as a keyword-only hit. -/
def keywordAccepts : Bool :=
  q.runs r.domain && q.chunkMatchesTenant r &&
    !(q.asOf.isNone && versionClosed r) &&
    !(q.filterPending && decide (r.field "cerid_state" = some (.str "pending"))) &&
    !q.chunkExcluded r &&
    (domainFilter (q.scoping r.domain) q.metadataFilter).all fun w =>
      w.isEmpty || metadataMatches r.field w

/-- The row meets the clause of the vector search. -/
def vectorAccepts : Bool := accepts (queryWhere (q.scoping r.domain) q.metadataFilter) r.field

/-! ## Related artifacts and questions -/

/-- The clause for the chunks of an artifact. -/
def artifactWhere (artifactId : String) : Except ScopeError (Option Where) :=
  (withTenantScope q.tenant
    (excludePending q.filterPending (some (single "artifact_id" (.value (.str artifactId)))))).map
      fun w => excludeFolders w q.foldersOff

/-- The row is a chunk of one of the artifacts. -/
def expansionAccepts (artifacts : List (String × String)) : Bool :=
  artifacts.any fun a => decide (a.2 = r.domain) && accepts (q.artifactWhere a.1) r.field

/-- The clause for the chunks that the questions were written for. -/
def hypeWhere (domain : String) : Except ScopeError (Option Where) :=
  (withTenantScope q.tenant
    (withRecordTypes q.metadataFilter (q.domainRecordTypes domain))).map
      fun w => excludeFolders (excludePending q.filterPending w) q.foldersOff

def hypeAccepts : Bool := accepts (q.hypeWhere r.domain) r.field

end KbQuery

inductive Arm
  | vector
  | keyword
  | related
  | neighbours
  | hype
deriving DecidableEq

namespace Arm

/-- The rows of the graph do not name their parent chunk. -/
def namesParent : Arm → Bool
  | related | neighbours => false
  | _ => true

end Arm

namespace KbQuery

variable (q : KbQuery)

/-- `visible`: what is not forgotten, of the version that is in force. -/
def visible (arm : Arm) (r : KbRow) : Bool :=
  decide (r.chunkId ∉ q.forgottenChunks) &&
    (!arm.namesParent || decide (fieldText r.field "parent_chunk_id" = "" ∨
      fieldText r.field "parent_chunk_id" ∉ q.forgottenChunks)) &&
    decide (fieldText r.field "artifact_id" ∉ q.forgottenArtifacts) &&
    validAt q.parseTime r.field (normalizeAsOf q.parseTime q.asOf)

/-- The check that the arm makes of a row. -/
def admitted (r : KbRow) : Arm → Bool
  | .vector => decide (r.domain ∈ q.domains) && q.vectorAccepts r
  | .keyword => decide (r.domain ∈ q.domains) && q.keywordAccepts r
  | .related => q.expansionAccepts r q.related
  | .neighbours => q.expansionAccepts r q.neighbours
  | .hype => decide (r.domain ∈ q.domains) && q.hypeAccepts r

/-- The arm can put the row into the results. -/
def returns (arm : Arm) (r : KbRow) : Bool :=
  q.admitted r arm && decide (r.domain ∈ q.readable) && q.visible arm r

/-! ## What is wanted -/

/-- The scope of the query. -/
structure InScope (r : KbRow) : Prop where
  filter : optHolds r.field q.metadataFilter = true
  recordType : q.domainRecordTypes r.domain ≠ [] →
    ∃ t ∈ q.domainRecordTypes r.domain, r.field "record_type" = some (.str t)
  tenant : q.multiUser = true → r.field "tenant_id" = some (.str q.tenantId)
  pending : q.filterPending = true → r.field "cerid_state" ≠ some (.str "pending")
  folder : ∀ id ∈ q.foldersOff, r.field "watched_folder_id" ≠ some (.str id)
  parent : q.pcEnabled = true → r.field "chunk_level" ≠ some (.str "parent")
  verified : q.excludeVerifiedMemories = true → r.domain = "conversations" →
    r.field "memory_source_type" ≠ some (.str "verification")
  version : validAt q.parseTime r.field (normalizeAsOf q.parseTime q.asOf) = true

/-- Every row that an arm can return is in the scope of the query, and a keyword hit is accepted
exactly if the clause of the vector search accepts it. -/
def Right (library : List KbRow) : Prop :=
  ∀ r ∈ library, (∀ arm, q.returns arm r = true → q.InScope r) ∧
    (r.domain ∈ q.domains → (q.keywordAccepts r = true ↔ q.vectorAccepts r = true))

end KbQuery

end Retrieval

end Cerid
