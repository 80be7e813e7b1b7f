import Cerid.Lib.Where

/-!
# The clause of a domain query

The caller's metadata filter is fused with the conditions that every read of a domain is under:
the record types of the consumer, the tenant, the pending state, the folders that are not
searchable, the parent chunks and the closed versions.
-/

namespace Cerid.Retrieval

/-- What a query of a domain is under.  `tenant` is the active one in multi-user mode; `verified`
says that verified memories are left out. -/
structure Scoping where
  recordTypes : List String
  verified : Bool
  tenant : Option String
  filterPending : Bool
  foldersOff : List String
  pcEnabled : Bool
  asOf : Option String

inductive ScopeError
  | tenantScopeViolation
deriving DecidableEq

section Clauses

open Where

/-- One type is an equality. -/
def recordTypesCondition : List String → Condition
  | [recordType] => .value (.str recordType)
  | recordTypes => .isIn (recordTypes.map .str)

def recordTypesClause (recordTypes : List String) : Where :=
  single "record_type" (recordTypesCondition recordTypes)

def notVerifiedMemoryWhere : Where := single "memory_source_type" (.ne (.str "verification"))

def tenantClause (active : String) : Where := single "tenant_id" (.value (.str active))

def excludePendingClause : Where := single "cerid_state" (.ne (.str "pending"))

def foldersClause (folderIds : List String) : Where :=
  single "watched_folder_id" (.notIn (folderIds.map .str))

def childClause : Where := single "chunk_level" (.ne (.str "parent"))

def currentOnlyWhere : Where := single "version_closed" (.ne (.num 1))

/-! ## The steps -/

def withRecordTypes (w : Option Where) (recordTypes : List String) : Option Where :=
  if recordTypes = [] then w
  else some (fuse isEmpty (fun _ => false) w (recordTypesClause recordTypes))

def fuseWhere (w : Option Where) (clause : Where) : Where := fuse isEmpty (fun _ => false) w clause

/-- A mapping of several fields becomes a list, unless it speaks of operators. -/
def asChromaClause (w : Option Where) : Option Where :=
  w.map fun w =>
    if w.fields.items.length + (if w.all.isSome then 1 else 0) ≤ 1 then w
    else if w.all.isSome then w
    else conj (singles w.fields)

def withTenantScope (tenant : Option String) (w : Option Where) : Except ScopeError (Option Where) :=
  match tenant with
  | none => .ok (asChromaClause w)
  | some active =>
    match w with
    | none => .ok (some (tenantClause active))
    | some w =>
      if w.isEmpty then .ok (some (tenantClause active))
      else
        match w.fields.get? "tenant_id" with
        | some condition =>
          if condition ≠ .value (.str active) then .error .tenantScopeViolation
          else .ok (asChromaClause (some w))
        | none =>
          match (asChromaClause (some w)).bind Where.all with
          | some clauses => .ok (some (conj (tenantClause active :: clauses)))
          | none => .ok (some (conj [tenantClause active, w]))

/-- Skipped where the caller names the field. -/
def excludePending (on : Bool) (w : Option Where) : Option Where :=
  if on then some (fuse (fun _ => false) (named "cerid_state") w excludePendingClause) else w

def excludeFolders (w : Option Where) (folderIds : List String) : Option Where :=
  if folderIds = [] then w
  else some (fuse (fun _ => false) (fun _ => false) w (foldersClause folderIds))

/-- Skipped where the caller names the field. -/
def pcFuseChildFilter (w : Option Where) : Option Where :=
  some (fuse (fun _ => false) (named "chunk_level") w childClause)

variable (c : Scoping)

/-- The caller's filter with the record types, and without verified memories. -/
def domainFilter (metadataFilter : Option Where) : Option Where :=
  let w := withRecordTypes metadataFilter c.recordTypes
  if c.verified then some (fuseWhere w notVerifiedMemoryWhere) else w

/-- What is fused in after the tenant. -/
def finish (w : Option Where) : Option Where :=
  let w := excludeFolders (excludePending c.filterPending w) c.foldersOff
  let w := if c.pcEnabled then pcFuseChildFilter w else w
  if c.asOf = none then some (fuseWhere w currentOnlyWhere) else w

/-- The clause that `query_domain` hands to the store. -/
def queryWhere (metadataFilter : Option Where) : Except ScopeError (Option Where) :=
  (withTenantScope c.tenant (domainFilter c metadataFilter)).map (finish c)

/-! ## What is wanted -/

/-- The conditions of the query, without the caller's filter. -/
structure Scoping.Admits (m : Metadata) : Prop where
  recordTypes : c.recordTypes ≠ [] → ∃ t ∈ c.recordTypes, m "record_type" = some (.str t)
  verified : c.verified = true → m "memory_source_type" ≠ some (.str "verification")
  tenant : ∀ active, c.tenant = some active → m "tenant_id" = some (.str active)
  pending : c.filterPending = true → m "cerid_state" ≠ some (.str "pending")
  folders : ∀ id ∈ c.foldersOff, m "watched_folder_id" ≠ some (.str id)
  parent : c.pcEnabled = true → m "chunk_level" ≠ some (.str "parent")
  closed : c.asOf = none → m "version_closed" ≠ some (.num 1)

/-- The store takes the clause, and a row meets it exactly if it meets the caller's filter and
every condition. -/
def Right (metadataFilter : Option Where) : Prop :=
  ∀ w, queryWhere c metadataFilter = .ok w → optTaken w = true ∧
    ∀ m, optHolds m w = true ↔ optHolds m metadataFilter = true ∧ c.Admits m

end Clauses

end Cerid.Retrieval
