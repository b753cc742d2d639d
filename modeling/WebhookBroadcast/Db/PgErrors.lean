import WebhookBroadcast.Db.Channels

/-!
# Errors of the database driver

`packages/db/src/pgErrors.ts`, which looks for the code and the constraint of an
error along its causes, and what the `catch` clauses of the Channels repository
make of it.
-/

namespace WebhookBroadcast

def UNIQUE_VIOLATION : String := "23505"

def CHECK_VIOLATION : String := "23514"

/-- A JavaScript value as `pgErrors.ts` looks at it: an object with the texts of
its `code` and `constraint`, if they are texts, and its `cause`, or anything
else.  An absent `cause` is as good as an undefined one. -/
inductive ThrownValue where
  | other
  | object (code constraint : Option String) (cause : ThrownValue)

def pgErrorCode : ThrownValue → Option String
  | .other => none
  | .object (some code) _ _ => some code
  | .object none _ cause => pgErrorCode cause

def pgConstraintName : ThrownValue → Option String
  | .other => none
  | .object _ (some constraint) _ => some constraint
  | .object _ none cause => pgConstraintName cause

def isUniqueViolation (error : ThrownValue) : Bool :=
  pgErrorCode error = some UNIQUE_VIOLATION

def isCheckViolation (error : ThrownValue) (constraintName : String) : Bool :=
  pgErrorCode error = some CHECK_VIOLATION &&
    pgConstraintName error = some constraintName

/-- What the driver rejects with. -/
def DbError.driverError : DbError → ThrownValue
  | .uniqueViolation constraint =>
      .object (some UNIQUE_VIOLATION) (some constraint) .other
  | .foreignKeyViolation constraint =>
      .object (some "23503") (some constraint) .other
  | .checkViolation constraint =>
      .object (some CHECK_VIOLATION) (some constraint) .other
  | .unavailable _ => .object none none .other

/-- What the query builder throws: the error of the driver as a cause. -/
def DbError.queryError (error : DbError) : ThrownValue :=
  .object none none error.driverError

theorem isUniqueViolation_queryError (error : DbError) :
    isUniqueViolation error.queryError = true ↔
      ∃ constraint, error = .uniqueViolation constraint := by
  cases error <;>
    simp [isUniqueViolation, DbError.queryError, DbError.driverError,
      pgErrorCode, UNIQUE_VIOLATION, CHECK_VIOLATION]

theorem isCheckViolation_queryError (error : DbError) (name : String) :
    isCheckViolation error.queryError name = true ↔
      error = .checkViolation name := by
  cases error <;>
    simp [isCheckViolation, DbError.queryError, DbError.driverError,
      pgErrorCode, pgConstraintName, UNIQUE_VIOLATION, CHECK_VIOLATION]

/-! ## The Channels repository -/

def isOpenIngestSlugCheckViolation (error : ThrownValue) : Bool :=
  isCheckViolation error OPEN_INGEST_SLUG_LENGTH_CHECK

/-- The `catch` of `updateChannel` whose patch has this slug. -/
def ChannelError.ofUpdate (slug : Option String) (error : DbError) :
    ChannelError :=
  match isUniqueViolation error.queryError, slug with
  | true, some slug => .slugConflict slug
  | _, _ =>
      if isOpenIngestSlugCheckViolation error.queryError then
        .openIngestSlugTooShort slug
      else .database error

/-- The `catch` of `insertChannel`: there is always a slug. -/
def ChannelError.ofInsert (slug : String) (error : DbError) : ChannelError :=
  if isUniqueViolation error.queryError then .slugConflict slug
  else if isOpenIngestSlugCheckViolation error.queryError then
    .openIngestSlugTooShort (some slug)
  else .database error

/-- The rejection of a row: by the first check that fails, or else by the index
of live slugs. -/
def ChannelRow.rejection (row : ChannelRow) : DbError :=
  match row.failedCheck? with
  | some constraint => .checkViolation constraint
  | none => .uniqueViolation "channel_slug_active_key"

/-- Along the causes of the error the repository finds what was refused. -/
theorem ofUpdate_rejection (row : ChannelRow) (slug : Option String) :
    ChannelError.ofUpdate slug row.rejection = .ofRefused row slug := by
  unfold ChannelError.ofUpdate ChannelError.ofRefused ChannelRow.rejection
  cases row.failedCheck? with
  | some constraint =>
      have hunique : isUniqueViolation
          (DbError.checkViolation constraint).queryError = false := by
        rw [Bool.eq_false_iff, Ne, isUniqueViolation_queryError]
        rintro ⟨_, ⟨⟩⟩
      simp only [hunique, isOpenIngestSlugCheckViolation,
        isCheckViolation_queryError, DbError.checkViolation.injEq]
  | none =>
      have hunique : isUniqueViolation
          (DbError.uniqueViolation "channel_slug_active_key").queryError =
            true := (isUniqueViolation_queryError _).mpr ⟨_, rfl⟩
      cases slug with
      | some slug => simp only [hunique]
      | none =>
          simp [hunique, isOpenIngestSlugCheckViolation,
            isCheckViolation_queryError]

/-- An insert is an update that names its slug. -/
theorem ofInsert_eq_ofUpdate (slug : String) (error : DbError) :
    ChannelError.ofInsert slug error = .ofUpdate (some slug) error := by
  unfold ChannelError.ofInsert ChannelError.ofUpdate
  cases isUniqueViolation error.queryError <;> rfl

end WebhookBroadcast
