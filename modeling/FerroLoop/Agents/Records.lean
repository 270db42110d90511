import FerroLoop.Lib.Checked
import FerroLoop.Lib.Text

/-!
Agents, the areas they cover and the events of their registry (`crates/core/src/agent.rs`), over the spelling of
an id and of an instant, and the checks of a slug and a summary (`state.rs`).
-/

namespace FerroLoop.Agents

open Text Checked

inductive AgentRole where
  | lead
  | assistant
  | labManager
  | uiDeveloper
  | webDeveloper
  | mobileDeveloper
  | systemDeveloper
  | dataEngineer
  | tester
  | strategist
  | journalist
  | custom (slug : String)
  deriving DecidableEq

def AgentRole.asWire : AgentRole → String
  | .lead => "lead"
  | .assistant => "assistant"
  | .labManager => "lab_manager"
  | .uiDeveloper => "ui-developer"
  | .webDeveloper => "web-developer"
  | .mobileDeveloper => "mobile-developer"
  | .systemDeveloper => "system-developer"
  | .dataEngineer => "data-engineer"
  | .tester => "tester"
  | .strategist => "strategist"
  | .journalist => "journalist"
  | .custom slug => "custom:" ++ slug

theorem AgentRole.asWire_inj {a b : AgentRole} (same : a.asWire = b.asWire) : a = b := by
  have custom : ∀ name text : String, text.toList.head? ≠ some 'c' → "custom:" ++ name ≠ text := by
    intro name text other equal
    rw [← equal, String.toList_append] at other
    exact other rfl
  cases a <;> cases b <;> first
    | rfl
    | exact absurd same (by decide)
    | exact absurd same (custom _ _ (by decide))
    | exact absurd same.symm (custom _ _ (by decide))
    | exact congrArg _ (String.append_right_inj _ |>.mp same)

inductive AgentStatus where
  | active
  | retired
  deriving DecidableEq

/-- An area without a path is a virtual scope: it names a group of agents. -/
structure AreaRecord (At : Type) where
  areaKey : String
  name : String
  path : Option String
  purpose : String
  updatedAt : At
  by_ : String
  deriving DecidableEq

structure AgentRecord (Id At : Type) where
  id : Id
  nameKey : String
  displayName : String
  email : String
  project : String
  role : AgentRole
  extraAreas : List String
  status : AgentStatus
  updatedAt : At
  by_ : String
  deriving DecidableEq

inductive RegistryEventKind (Id At : Type) where
  | areaUpsert (area : AreaRecord At)
  | agentUpsert (record : AgentRecord Id At)
  | agentRetire (id : Id)
  | areaDelete (areaKey : String)
  deriving DecidableEq

structure RegistryEvent (Iri Id At : Type) where
  eventId : Iri
  at_ : At
  by_ : String
  kind : RegistryEventKind Id At
  deriving DecidableEq

structure RegisterAgentArgs (At : Type) where
  displayName : String
  email : Option String
  project : String
  role : AgentRole
  extraAreas : List String
  createArea : Bool
  replace : Bool
  at_ : At
  by_ : String

/-- The ids a registration mints: an event for each area it creates, one for a lead it retires, the agent and
its own event. -/
structure Minted (Iri : Type) where
  areaEvent : String → Iri
  retireEvent : Iri
  agent : Iri
  agentEvent : Iri

variable {Id At : Type}

def AreaRecord.isVirtual (area : AreaRecord At) : Bool := area.path.isNone

namespace AgentRecord

def coversArea (agent : AgentRecord Id At) (slug : String) : Bool :=
  agent.project == slug || agent.extraAreas.any (· == slug)

def isActiveLead (agent : AgentRecord Id At) (project : String) : Bool :=
  agent.status = .active ∧ agent.project = project ∧ agent.role = .lead

def retired (agent : AgentRecord Id At) (at_ : At) (by_ : String) : AgentRecord Id At :=
  { agent with status := .retired, updatedAt := at_, by_ }

end AgentRecord

def registeredArea (areaKey : String) (args : RegisterAgentArgs At) : AreaRecord At :=
  ⟨areaKey, areaKey, none, "Registered area " ++ areaKey, args.at_, args.by_⟩

inductive StateError where
  | invalidSlug (raw : String)
  | invalidSummary
  | bodyTooLarge (bytes : Nat)
  | notesTooLarge (bytes : Nat)
  | runtimeValueTooLarge (bytes : Nat)
  | appendRequiresArray
  | supersededRequiresTarget
  | unexpectedSupersededBy (lifecycle : String)
  | selfSupersede (id : String)
  | invalidMessageSubject
  | invalidMessageBody (len : Nat)
  | replyRequiresParent
  deriving DecidableEq

def StateError.display : StateError → String
  | .invalidSlug raw =>
    "invalid slug `" ++ raw ++ "`: must be 1..=64 bytes of ASCII lowercase letters, digits, `-`, or `_`, starting with " ++
      "an ASCII letter (`^[a-z][a-z0-9_-]\x7b0,63\x7d$`)"
  | .invalidSummary => "summary must be a single non-empty line of at most 240 characters"
  | .bodyTooLarge bytes => "memory body exceeds maximum size of 262144 bytes (got " ++ toString bytes ++ " bytes)"
  | .notesTooLarge bytes => "handoff notes exceed maximum size of 65536 bytes (got " ++ toString bytes ++ " bytes)"
  | .runtimeValueTooLarge bytes =>
    "runtime value exceeds maximum serialized size of 262144 bytes (got " ++ toString bytes ++ " bytes)"
  | .appendRequiresArray => "runtime entry with `merge_mode = \"append\"` requires a JSON array value"
  | .supersededRequiresTarget => "memory with `lifecycle = \"superseded\"` requires `superseded_by`"
  | .unexpectedSupersededBy lifecycle => "memory with `lifecycle = \"" ++ lifecycle ++ "\"` cannot set `superseded_by`"
  | .selfSupersede id => "memory `" ++ id ++ "` cannot supersede itself"
  | .invalidMessageSubject => "message subject must be a single non-empty line of at most 512 bytes"
  | .invalidMessageBody len =>
    "message body must be non-empty and at most 262144 bytes (got " ++ toString len ++ " bytes)"
  | .replyRequiresParent => "reply message requires both `reply_to` and `correlation_id`"

def maxSummaryChars : Nat := 240

def validateSummary (s : String) : Except StateError String :=
  if s.toList.any fun c => c == '\n' || c == '\r' then .error .invalidSummary
  else
    let trimmed := trim s
    if trimmed.toList = [] ∨ maxSummaryChars < trimmed.toList.length then .error .invalidSummary else .ok trimmed

def isSlugChar (c : Char) : Bool :=
  c.isLower || c.isDigit || c == '-' || c == '_'

/-- ASCII lower case of a text that matches `^[a-z][a-z0-9_-]{0,63}$` then. -/
def validateSlug (raw : String) : Except StateError String :=
  let lower := toAsciiLowercase raw
  match lower.toList with
  | [] => .error (.invalidSlug raw)
  | first :: rest =>
    if 64 < lower.utf8ByteSize then .error (.invalidSlug raw)
    else if !first.isLower then .error (.invalidSlug raw)
    else if !(first :: rest).all isSlugChar then .error (.invalidSlug raw)
    else .ok lower

def AreaRecord.normalized (area : AreaRecord At) : Except StateError (AreaRecord At) := do
  let rawKey := if trim area.areaKey = "" then trim area.name else trim area.areaKey
  let areaKey ← validateSlug rawKey
  let name := if trim area.name = "" then areaKey else trim area.name
  let purpose ← validateSummary area.purpose
  return { area with areaKey, name, purpose, by_ := trim area.by_ }

/-- `validate_agent_identity`: the name key, the display name and the email. -/
def validateAgentIdentity (displayName : String) (email : Option String) : Except String (String × String × String) := do
  let display := trim displayName
  let nameKey ← (validateSlug display).mapError StateError.display
  refuseIf (toAsciiLowercase display ≠ nameKey)
    ("display_name `" ++ display ++ "` must equal `" ++ nameKey ++ "` when lowercased")
  match email with
  | none => return (nameKey, display, nameKey ++ "@artificialhumanity.io")
  | some raw =>
    let trimmed := trim raw
    match splitOnce "@" trimmed with
    | none => throw ("invalid email `" ++ trimmed ++ "`: missing `@`")
    | some (mailbox, domain) =>
      refuseIf (mailbox = "" ∨ domain = "" ∨ mailbox.toList.any Char.isUpper)
        ("email `" ++ trimmed ++ "` must have a non-empty lowercase local-part before `@`")
      return (nameKey, display, mailbox ++ "@" ++ toAsciiLowercase domain)

/-! ### Slugs -/

variable {c : Char} {raw slug : String}

theorem isWhitespace_toNat (blank : isWhitespace c) : c.toNat ≤ 0x20 ∨ 0x85 ≤ c.toNat := by
  simp only [isWhitespace, Bool.or_eq_true, Bool.and_eq_true, decide_eq_true_eq, beq_iff_eq] at blank
  omega

theorem isSlugChar_toNat (slug : isSlugChar c) : 0x20 < c.toNat ∧ c.toNat < 0x85 := by
  unfold isSlugChar Char.isLower Char.isDigit at slug
  simp only [Bool.or_eq_true, beq_iff_eq, Bool.and_eq_true, decide_eq_true_eq, ge_iff_le, UInt32.le_iff_toNat_le] at slug
  have value : c.toNat = c.val.toNat := rfl
  rcases slug with ((⟨low, high⟩ | ⟨low, high⟩) | same) | same
  · have bounds : (97 : Nat) ≤ c.val.toNat ∧ c.val.toNat ≤ 122 := ⟨low, high⟩
    omega
  · have bounds : (48 : Nat) ≤ c.val.toNat ∧ c.val.toNat ≤ 57 := ⟨low, high⟩
    omega
  · subst same
    decide
  · subst same
    decide

theorem validateSlug_ok (valid : validateSlug raw = .ok slug) :
    toAsciiLowercase raw = slug ∧ slug ≠ "" ∧ ∀ c ∈ slug.toList, isSlugChar c := by
  unfold validateSlug at valid
  dsimp only at valid
  split at valid
  · cases valid
  rename_i first rest chars
  split at valid
  · cases valid
  split at valid
  · cases valid
  split at valid
  · cases valid
  rename_i all
  cases valid
  refine ⟨rfl, ?_, ?_⟩
  · intro empty
    rw [empty, String.toList_empty] at chars
    cases chars
  · rw [chars]
    simpa using all

theorem validateSlug_normal (valid : validateSlug raw = .ok slug) :
    toAsciiLowercase slug = slug ∧ trim slug = slug ∧ slug ≠ "" := by
  obtain ⟨lower, filled, chars⟩ := validateSlug_ok valid
  refine ⟨?_, trim_eq_self ?_, filled⟩
  · rw [← lower, toAsciiLowercase_idem]
  intro c member
  rcases blank : isWhitespace c with _ | _
  · rfl
  have far := isWhitespace_toNat blank
  have near := isSlugChar_toNat (chars c member)
  omega

def AreaRecord.Keyed (area : AreaRecord At) : Prop := ∃ raw, validateSlug raw = .ok area.areaKey

variable {area norm : AreaRecord At}

theorem AreaRecord.normalized_keyed (done : area.normalized = .ok norm) : norm.Keyed := by
  obtain ⟨key, valid, done⟩ := bind_ok done
  obtain ⟨_, _, done⟩ := bind_ok done
  cases done
  exact ⟨_, valid⟩

theorem AreaRecord.Keyed.normalized (keyed : area.Keyed) (done : area.normalized = .ok norm) :
    norm.areaKey = area.areaKey := by
  obtain ⟨raw, slug⟩ := keyed
  obtain ⟨lower, solid, filled⟩ := validateSlug_normal slug
  obtain ⟨key, valid, done⟩ := bind_ok done
  obtain ⟨_, _, done⟩ := bind_ok done
  cases done
  rw [solid, if_neg filled] at valid
  exact (validateSlug_ok valid).1.symm.trans lower

end FerroLoop.Agents
