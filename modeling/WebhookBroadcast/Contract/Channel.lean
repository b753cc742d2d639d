import WebhookBroadcast.Db.Channels
import WebhookBroadcast.Js.Number

/-!
# The contract of a Channel

`channelCreateSchema` and `channelUpdateSchema` of
`packages/contract/src/channel.ts` on bodies whose fields have the right types:
the issues that they raise, in order, as the API reports them.  The slug rule is
the last refinement of both and sees only the fields of the body.
-/

namespace WebhookBroadcast

open Js

/-- An issue as `toDetails` reports it. -/
structure Detail where
  path : String
  message : String
deriving DecidableEq

/-- The messages of Zod itself for a text that is too short or too long. -/
structure ZodMessages where
  tooSmall : ℕ → String
  tooBig : ℕ → String

/-- No issue if the check passes, else one. -/
def issueUnless (passes : Bool) (path message : String) : List Detail :=
  if passes then [] else [⟨path, message⟩]

theorem issueUnless_eq_nil {passes : Bool} {path message : String} :
    issueUnless passes path message = [] ↔ passes = true := by
  cases passes <;> simp [issueUnless]

/-! ## Fields -/

/-- `[a-z0-9]`. -/
def isSlugChar (c : Char) : Bool :=
  ('a' ≤ c && c ≤ 'z') || ('0' ≤ c && c ≤ '9')

/-- What may follow a character of a word: nothing, the rest of the word, or a
hyphen and another word. -/
def matchesSlugTail : List Char → Bool
  | [] => true
  | '-' :: c :: rest => isSlugChar c && matchesSlugTail rest
  | c :: rest => isSlugChar c && matchesSlugTail rest

/-- `/^[a-z0-9]+(?:-[a-z0-9]+)*$/`. -/
def matchesSlugPattern (text : String) : Bool :=
  match text.toList with
  | [] => false
  | c :: rest => isSlugChar c && matchesSlugTail rest

section Fields

variable (zod : ZodMessages)

def channelSlugSchema (slug : String) : List Detail :=
  issueUnless (1 ≤ length slug) "slug" (zod.tooSmall 1) ++
    issueUnless (length slug ≤ 200) "slug" (zod.tooBig 200) ++
    issueUnless (matchesSlugPattern slug) "slug"
      "slug must be lowercase kebab-case (a-z, 0-9, -)"

def forwardHeaderNameSchema (path name : String) : List Detail :=
  issueUnless (1 ≤ length name) path (zod.tooSmall 1) ++
    issueUnless (toLowerCase (trim name) ≠ "authorization") path
      ("authorization cannot be forwarded (it carries the Channel's ingest " ++
        "token, not a sender credential)")

def forwardHeadersSchema (names : List String) : List Detail :=
  (names.mapIdx fun i name =>
    forwardHeaderNameSchema zod s!"forwardHeaders.{i}" name).flatten

def ingestSuccessStatusSchema (status : ℕ) : List Detail :=
  issueUnless (200 ≤ status) "ingestSuccessStatus"
      "ingest success status must be a 2xx code" ++
    issueUnless (status ≤ 299) "ingestSuccessStatus"
      "ingest success status must be a 2xx code"

/-- `schema.nullable()` or `schema.optional()`. -/
def orAbsent {α : Type} (schema : α → List Detail) : Option α → List Detail
  | none => []
  | some value => schema value

end Fields

/-! ## Bodies -/

def refineOpenIngestSlugLength (slug : Option String)
    (allowUnauthenticatedIngest : Option Bool) : List Detail :=
  match allowUnauthenticatedIngest, slug with
  | some true, some slug =>
      issueUnless (MIN_OPEN_INGEST_SLUG_LENGTH ≤ length slug) "slug"
        (s!"slug must be at least {MIN_OPEN_INGEST_SLUG_LENGTH} characters " ++
          "when allowUnauthenticatedIngest is true")
  | _, _ => []

namespace ChannelCreate

/-- The issues of the fields. -/
def fieldIssues (zod : ZodMessages) (body : ChannelCreate) : List Detail :=
  channelSlugSchema zod body.slug ++
    forwardHeadersSchema zod body.forwardHeaders ++
    orAbsent ingestSuccessStatusSchema body.ingestSuccessStatus

/-- `channelCreateSchema`. -/
def issues (zod : ZodMessages) (body : ChannelCreate) : List Detail :=
  body.fieldIssues zod ++
    refineOpenIngestSlugLength (some body.slug)
      (some body.allowUnauthenticatedIngest)

/-- Valid apart from the slug rule. -/
def OtherwiseValid (zod : ZodMessages) (body : ChannelCreate) : Prop :=
  body.fieldIssues zod = []

instance (zod : ZodMessages) (body : ChannelCreate) :
    Decidable (body.OtherwiseValid zod) := inferInstanceAs (Decidable (_ = _))

end ChannelCreate

namespace ChannelUpdate

/-- The issues of the fields, and that of a body without any. -/
def fieldIssues (zod : ZodMessages) (body : ChannelUpdate) : List Detail :=
  orAbsent (channelSlugSchema zod) body.slug ++
    orAbsent (forwardHeadersSchema zod) body.forwardHeaders ++
    orAbsent (orAbsent ingestSuccessStatusSchema) body.ingestSuccessStatus ++
    issueUnless (body ≠ {}) "" "at least one field must be provided"

/-- `channelUpdateSchema`. -/
def issues (zod : ZodMessages) (body : ChannelUpdate) : List Detail :=
  body.fieldIssues zod ++
    refineOpenIngestSlugLength body.slug body.allowUnauthenticatedIngest

/-- Valid apart from the slug rule. -/
def OtherwiseValid (zod : ZodMessages) (body : ChannelUpdate) : Prop :=
  body.fieldIssues zod = []

instance (zod : ZodMessages) (body : ChannelUpdate) :
    Decidable (body.OtherwiseValid zod) := inferInstanceAs (Decidable (_ = _))

end ChannelUpdate

/-! ## What valid fields are -/

theorem toNat_le_of_isSlugChar {c : Char} (h : isSlugChar c = true) :
    c.toNat ≤ 0xFFFF := by
  have hle : c.toNat ≤ 'z'.toNat := by
    rw [isSlugChar, Bool.or_eq_true, Bool.and_eq_true, Bool.and_eq_true,
      decide_eq_true_iff, decide_eq_true_iff, decide_eq_true_iff,
      decide_eq_true_iff] at h
    rcases h with ⟨-, h⟩ | ⟨-, h⟩
    · exact h
    · exact (show c.toNat ≤ '9'.toNat from h).trans (by decide)
  exact hle.trans (by decide)

theorem toNat_le_of_matchesSlugTail {chars : List Char} :
    matchesSlugTail chars = true → ∀ c ∈ chars, c.toNat ≤ 0xFFFF := by
  fun_induction matchesSlugTail chars with
  | case1 => simp
  | case2 c rest ih =>
      intro h d hd
      rw [Bool.and_eq_true] at h
      rcases List.mem_cons.mp hd with rfl | hd
      · decide
      · rcases List.mem_cons.mp hd with rfl | hd
        · exact toNat_le_of_isSlugChar h.1
        · exact ih h.2 d hd
  | case3 c rest _ ih =>
      intro h d hd
      rw [Bool.and_eq_true] at h
      rcases List.mem_cons.mp hd with rfl | hd
      · exact toNat_le_of_isSlugChar h.1
      · exact ih h.2 d hd

theorem length_of_toNat_le {text : String}
    (h : ∀ c ∈ text.toList, c.toNat ≤ 0xFFFF) : length text = text.length := by
  rw [length, List.map_congr_left (g := fun _ => 1) fun c hc => if_pos (h c hc)]
  simp [String.length_toList]

/-- Every character of a slug counts once. -/
theorem length_of_matchesSlugPattern {slug : String}
    (h : matchesSlugPattern slug = true) : length slug = slug.length := by
  refine length_of_toNat_le fun d hd => ?_
  unfold matchesSlugPattern at h
  split at h
  · cases h
  next c rest hslug =>
    rw [hslug] at hd
    rw [Bool.and_eq_true] at h
    rcases List.mem_cons.mp hd with rfl | hd
    · exact toNat_le_of_isSlugChar h.1
    · exact toNat_le_of_matchesSlugTail h.2 d hd

theorem slug_of_channelSlugSchema {zod : ZodMessages} {slug : String}
    (h : channelSlugSchema zod slug = []) : length slug = slug.length := by
  simp only [channelSlugSchema, List.append_eq_nil_iff,
    issueUnless_eq_nil] at h
  exact length_of_matchesSlugPattern h.2

theorem status_of_ingestSuccessStatusSchema {status : ℕ}
    (h : ingestSuccessStatusSchema status = []) :
    200 ≤ status ∧ status ≤ 299 := by
  simpa [ingestSuccessStatusSchema, issueUnless_eq_nil] using h

theorem refineOpenIngestSlugLength_eq_nil {slug : Option String}
    {allow : Option Bool} : refineOpenIngestSlugLength slug allow = [] ↔
      (allow = some true → ∀ text ∈ slug,
        MIN_OPEN_INGEST_SLUG_LENGTH ≤ length text) := by
  unfold refineOpenIngestSlugLength
  split
  · simp [issueUnless_eq_nil]
  next hother =>
    refine iff_of_true rfl fun hallow text hslug => ?_
    exact absurd hslug (hother text hallow)

end WebhookBroadcast
