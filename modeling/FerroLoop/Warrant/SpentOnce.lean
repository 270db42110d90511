import FerroLoop.Warrant.Processes

namespace FerroLoop.Warrant

open Std Text Checked Map Option Except

structure StoredOwnerGrant.Extends (old new : StoredOwnerGrant) : Prop where
  grant : new.grant = old.grant
  revoked : old.revokedAt.isSome = true → new.revokedAt = old.revokedAt
  consumed : old.consumedAt.isSome = true → new.consumedAt.isSome = true
  spent : old.consumedAt.isSome = true → old.grant.singleUse = true →
    new.consumedAt = old.consumedAt ∧ new.consumedBy = old.consumedBy

def FileExtends (old new : Option OwnerWarrantLedger) : Prop :=
  ∀ ledger, old = some ledger → ∃ ledger', new = some ledger' ∧ ledger'.publicKeyB64 = ledger.publicKeyB64 ∧
    ∀ (id : String) stored, ledger.grants[id]? = some stored → ∃ stored', ledger'.grants[id]? = some stored' ∧ stored.Extends stored'

def Keyed (ledger : OwnerWarrantLedger) : Prop :=
  ∀ (id : String) stored, ledger.grants[id]? = some stored → stored.grant.grantId = id

theorem StoredOwnerGrant.Extends.refl (stored : StoredOwnerGrant) : stored.Extends stored :=
  ⟨rfl, fun _ => rfl, id, fun _ _ => ⟨rfl, rfl⟩⟩

theorem StoredOwnerGrant.Extends.trans {a b c : StoredOwnerGrant} (first : a.Extends b) (second : b.Extends c) : a.Extends c := by
  refine ⟨second.grant.trans first.grant, ?_, fun spent => second.consumed (first.consumed spent), ?_⟩
  · intro revoked
    have kept := first.revoked revoked
    exact (second.revoked (kept ▸ revoked)).trans kept
  · intro spent single
    obtain ⟨time, who⟩ := first.spent spent single
    obtain ⟨time', who'⟩ := second.spent (first.consumed spent) (first.grant ▸ single)
    exact ⟨time'.trans time, who'.trans who⟩

theorem FileExtends.refl (file : Option OwnerWarrantLedger) : FileExtends file file :=
  fun ledger held => ⟨ledger, held, rfl, fun _ stored there => ⟨stored, there, .refl stored⟩⟩

theorem FileExtends.trans {a b c : Option OwnerWarrantLedger} (first : FileExtends a b) (second : FileExtends b c) :
    FileExtends a c := by
  intro ledger held
  obtain ⟨middle, there, pinned, entries⟩ := first ledger held
  obtain ⟨last, here, pinned', entries'⟩ := second middle there
  refine ⟨last, here, pinned'.trans pinned, ?_⟩
  intro id stored found
  obtain ⟨stored', found', extends'⟩ := entries id stored found
  obtain ⟨stored'', found'', extends''⟩ := entries' id stored' found'
  exact ⟨stored'', found'', extends'.trans extends''⟩

variable {stored : StoredOwnerGrant} {id idOrToken : String} {targetAgent : Option String} {nowMs : UInt64}
  {request : String → GrantPayload} {next : OwnerWarrantLedger}

variable {ledger : OwnerWarrantLedger}

theorem FileExtends.insert
    (entry : ∀ old, ledger.grants[id]? = some old → old.Extends stored) :
    FileExtends (some ledger) (some { ledger with grants := ledger.grants.insert id stored }) := by
  intro same held
  cases held
  refine ⟨_, rfl, rfl, ?_⟩
  intro other old there
  by_cases equal : id = other
  · subst equal
    exact ⟨stored, by rw [getElem?_insert, if_pos rfl], entry old there⟩
  · refine ⟨old, ?_, .refl old⟩
    rw [getElem?_insert, if_neg equal]
    exact there

theorem Keyed.insert (keyed : Keyed ledger)
    (named : stored.grant.grantId = id) : Keyed { ledger with grants := ledger.grants.insert id stored } := by
  intro other found there
  rw [getElem?_insert] at there
  split at there
  · cases there
    exact named.trans ‹_›
  · exact keyed other found there

def Marked (file : Option OwnerWarrantLedger) : Outcome → Prop
  | .issued stored => ∃ ledger now, file = some ledger ∧ ledger.grants[stored.grant.grantId]? = some now ∧ now.grant = stored.grant
  | .verified v => v.consumed = true → ∃ ledger now, file = some ledger ∧ ledger.grants[v.grant.grantId]? = some now ∧
      now.grant = v.grant ∧ now.consumedAt.isSome = true
  | .revoked stored => ∃ ledger now, file = some ledger ∧ ledger.grants[stored.grant.grantId]? = some now ∧
      now.grant = stored.grant ∧ now.revokedAt = stored.revokedAt ∧ stored.revokedAt.isSome = true

variable {outcome : Outcome}

theorem FileExtends.marked {old new : Option OwnerWarrantLedger} (extends' : FileExtends old new)
    (marked : Marked old outcome) : Marked new outcome := by
  cases outcome with
  | issued stored =>
    obtain ⟨ledger, now, held, there, same⟩ := marked
    obtain ⟨ledger', held', -, entries⟩ := extends' ledger held
    obtain ⟨now', there', kept⟩ := entries _ now there
    exact ⟨ledger', now', held', there', kept.grant.trans same⟩
  | verified v =>
    intro consumed
    obtain ⟨ledger, now, held, there, same, spent⟩ := marked consumed
    obtain ⟨ledger', held', -, entries⟩ := extends' ledger held
    obtain ⟨now', there', kept⟩ := entries _ now there
    exact ⟨ledger', now', held', there', kept.grant.trans same, kept.consumed spent⟩
  | revoked stored =>
    obtain ⟨ledger, now, held, there, same, time, some'⟩ := marked
    obtain ⟨ledger', held', -, entries⟩ := extends' ledger held
    obtain ⟨now', there', kept⟩ := entries _ now there
    exact ⟨ledger', now', held', there', kept.grant.trans same, (kept.revoked (time ▸ some')).trans time, some'⟩

def Outcome.Spends (id : String) : Outcome → Prop
  | .verified v => v.consumed = true ∧ v.grant.singleUse = true ∧ v.grant.grantId = id
  | .issued _ => False
  | .revoked _ => False

structure Writes (file : Option OwnerWarrantLedger) (next : OwnerWarrantLedger) (outcome : Outcome) : Prop where
  keeps : FileExtends file (some next)
  keyed : Keyed next
  current : next.schemaVersion = warrantSchemaVersion
  marked : Marked (some next) outcome
  unspent : ∀ id, outcome.Spends id → ∀ ledger stored, file = some ledger → ledger.grants[id]? = some stored → stored.consumedAt = none

variable {outside : Outside} {file : Option OwnerWarrantLedger}

theorem readLedger_ok {found : Option OwnerWarrantLedger} (read : readLedger file = .ok found) : found = file := by
  rcases file with _ | ledger
  · exact (ok.inj read).symm
  unfold readLedger at read
  dsimp only at read
  split at read
  · exact (ok.inj read).symm
  · cases read

theorem requireLedger_ok (read : requireLedger file = .ok ledger) : file = some ledger := by
  unfold requireLedger at read
  split at read
  · cases read
  · cases read
  · rename_i held found
    rw [← readLedger_ok found, ok.inj read]

variable {ledger : OwnerWarrantLedger} {grant : OwnerGrant} {inLedger : Bool}

/-- A token that verifies: its exact payload bears a signature of the pinned key, and is the ledger's entry where the
ledger holds one. -/
structure TokenSound (outside : Outside) (ledger : OwnerWarrantLedger) (token : String) (grant : OwnerGrant) (parsed : ParsedToken) :
    Prop where
  parses : parseToken outside token = .ok parsed
  canonical : canonicalBytes outside parsed.payload = .ok parsed.payloadBytes
  signed : verifySignature outside ledger.publicKeyB64 parsed.payloadBytes parsed.signatureB64 = .ok ()
  exact : grant.payload = parsed.payload
  recorded : ∀ stored, ledger.grants[parsed.payload.grantId]? = some stored →
    stored.grant.payload = parsed.payload ∧ stored.grant.signatureB64 = parsed.signatureB64 ∧ stored.grant = grant

variable {token : String}

theorem parseToken_canonical {parsed : ParsedToken} (parses : parseToken outside token = .ok parsed) :
    canonicalBytes outside parsed.payload = .ok parsed.payloadBytes := by
  unfold parseToken at parses
  split at parses
  · cases parses
  split at parses
  · cases parses
  split at parses
  · cases parses
  split at parses
  · cases parses
  obtain ⟨bytes, encoded, parses⟩ := bind_ok parses
  obtain ⟨_, same, parses⟩ := bind_ok parses
  cases parses
  rw [Classical.not_not.mp (refuseIf_ok same)] at encoded
  exact encoded

theorem tokenGrant_ok (named : tokenGrant outside ledger token = .ok (grant, inLedger)) :
    ∃ parsed, TokenSound outside ledger token grant parsed ∧ grant.grantId = parsed.payload.grantId ∧
      (inLedger = true → ∃ stored, ledger.grants[parsed.payload.grantId]? = some stored ∧ stored.grant = grant) ∧
      (inLedger = false → ledger.grants[parsed.payload.grantId]? = none ∧ grant.singleUse = false) := by
  obtain ⟨parsed, parses, named⟩ := bind_ok named
  obtain ⟨_, signed, named⟩ := bind_ok named
  have canonical := parseToken_canonical parses
  unfold matchEntry at named
  split at named
  · rename_i stored found
    split at named
    · cases named
    rename_i same
    obtain ⟨rfl, rfl⟩ := Prod.mk.inj (ok.inj named)
    have payload : stored.grant.payload = parsed.payload := Classical.not_not.mp fun other => same (.inl other)
    have signature : stored.grant.signatureB64 = parsed.signatureB64 := Classical.not_not.mp fun other => same (.inr other)
    refine ⟨parsed, ⟨parses, canonical, signed, payload, ?_⟩, congrArg GrantPayload.grantId payload,
      fun _ => ⟨stored, found, rfl⟩, nofun⟩
    intro other there
    cases found.symm.trans there
    exact ⟨payload, signature, rfl⟩
  · rename_i absent
    split at named
    · cases named
    rename_i reusable
    obtain ⟨rfl, rfl⟩ := Prod.mk.inj (ok.inj named)
    refine ⟨parsed, ⟨parses, canonical, signed, rfl, ?_⟩, rfl, nofun, fun _ => ⟨absent, Bool.eq_false_iff.mpr reusable⟩⟩
    intro other there
    cases absent.symm.trans there

theorem heldGrant_ok (named : heldGrant outside ledger id = .ok (grant, inLedger)) :
    inLedger = true ∧ ∃ stored, ledger.grants[id]? = some stored ∧ stored.grant = grant := by
  unfold heldGrant at named
  split at named
  · cases named
  rename_i stored found
  obtain ⟨_, -, named⟩ := bind_ok named
  obtain ⟨_, -, named⟩ := bind_ok named
  obtain ⟨_, -, named⟩ := bind_ok named
  obtain ⟨rfl, rfl⟩ := Prod.mk.inj (ok.inj named)
  exact ⟨rfl, stored, found, rfl⟩

theorem namedGrant_ok (keyed : Keyed ledger) (named : namedGrant outside ledger idOrToken = .ok (grant, inLedger)) :
    (inLedger = true → ∃ stored, ledger.grants[grant.grantId]? = some stored ∧ stored.grant = grant) ∧
      (inLedger = false → ledger.grants[grant.grantId]? = none ∧ grant.singleUse = false) := by
  unfold namedGrant at named
  split at named
  · obtain ⟨parsed, -, same, held, absent⟩ := tokenGrant_ok named
    rw [same]
    exact ⟨held, absent⟩
  · obtain ⟨rfl, stored, found, rfl⟩ := heldGrant_ok named
    rw [keyed _ stored found]
    exact ⟨fun _ => ⟨stored, found, rfl⟩, nofun⟩

theorem checkState_ok (checked : checkState ledger grant true = .ok ()) :
    ∃ stored, ledger.grants[grant.grantId]? = some stored ∧ stored.revokedAt = none ∧
      (grant.singleUse = true → stored.consumedAt = none) := by
  unfold checkState at checked
  rw [if_neg (by decide)] at checked
  split at checked
  · cases checked
  rename_i stored found
  obtain ⟨_, unrevoked, checked⟩ := bind_ok checked
  have standing := refuseIf_ok unrevoked
  have unspent := refuseIf_ok checked
  refine ⟨stored, found, by simpa using standing, ?_⟩
  intro single
  simpa [single] using unspent

structure Passed (outside : Outside) (ledger : OwnerWarrantLedger) (idOrToken : String) (grant : OwnerGrant) (inLedger : Bool) : Prop where
  named : namedGrant outside ledger idOrToken = .ok (grant, inLedger)
  held : inLedger = true → ∃ stored, ledger.grants[grant.grantId]? = some stored ∧ stored.grant = grant ∧ stored.revokedAt = none ∧
    (grant.singleUse = true → stored.consumedAt = none)
  absent : inLedger = false → ledger.grants[grant.grantId]? = none ∧ grant.singleUse = false

theorem checkGrant_ok (keyed : Keyed ledger)
    (checked : checkGrant outside idOrToken targetAgent nowMs ledger = .ok (grant, inLedger)) :
    Passed outside ledger idOrToken grant inLedger := by
  obtain ⟨⟨found, flag⟩, named, checked⟩ := bind_ok checked
  obtain ⟨_, state, checked⟩ := bind_ok checked
  obtain ⟨late, -, checked⟩ := bind_ok checked
  obtain ⟨_, -, checked⟩ := bind_ok checked
  obtain ⟨_, -, checked⟩ := bind_ok checked
  obtain ⟨rfl, rfl⟩ := Prod.mk.inj (ok.inj checked)
  obtain ⟨held, absent⟩ := namedGrant_ok keyed named
  refine ⟨named, ?_, absent⟩
  intro flagged
  obtain ⟨stored, there, same⟩ := held flagged
  rw [flagged] at state
  obtain ⟨stored', there', standing, unspent⟩ := checkState_ok state
  cases there.symm.trans there'
  exact ⟨stored, there, same, standing, unspent⟩

theorem Passed.unrevoked (checked : Passed outside ledger idOrToken grant inLedger)
    (there : ledger.grants[id]? = some stored) (revoked : stored.revokedAt.isSome = true) :
    grant.grantId ≠ id := by
  rintro rfl
  cases inLedger with
  | true =>
    obtain ⟨stored', there', -, standing, -⟩ := checked.held rfl
    cases there.symm.trans there'
    rw [standing] at revoked
    cases revoked
  | false => cases (checked.absent rfl).1.symm.trans there

theorem checkIn_ok (keyed : ∀ ledger, file = some ledger → Keyed ledger)
    (checked : checkIn outside idOrToken targetAgent nowMs file = .ok (ledger, grant, inLedger)) :
    file = some ledger ∧ Passed outside ledger (trim idOrToken) grant inLedger := by
  obtain ⟨held, read, checked⟩ := bind_ok checked
  obtain ⟨named, found, checked⟩ := bind_ok checked
  obtain ⟨rfl, rfl⟩ := Prod.mk.inj (ok.inj checked)
  have there := requireLedger_ok read
  exact ⟨there, checkGrant_ok (keyed _ there) found⟩

def Sound (file : Option OwnerWarrantLedger) : Prop :=
  ∀ ledger, file = some ledger → Keyed ledger ∧ ledger.schemaVersion = warrantSchemaVersion

variable {key : SigningKey}

theorem issueUnder_writes (keyed : Keyed ledger)
    (current : ledger.schemaVersion = warrantSchemaVersion) (free : ledger.grants[id]? = none) (named : (request id).grantId = id)
    (issued : issueUnder outside key request id ledger = .ok (stored, next)) :
    FileExtends (some ledger) (some next) ∧ Keyed next ∧ next.schemaVersion = warrantSchemaVersion ∧
      Marked (some next) (.issued stored) := by
  obtain ⟨bytes, -, issued⟩ := bind_ok issued
  have same := Prod.mk.inj (ok.inj issued)
  obtain ⟨rfl, rfl⟩ := same
  refine ⟨FileExtends.insert fun old there => ?_, keyed.insert named, current, _, _, rfl, ?_, rfl⟩
  · cases free.symm.trans there
  · show (ledger.grants.insert id _)[(request id).grantId]? = _
    rw [named, getElem?_insert, if_pos rfl]

variable {draws : List String}

theorem issueIn_writes (sound : Sound file)
    (named : ∀ id, (request id).grantId = id)
    (issued : issueIn outside key request draws file = some (.ok (stored, next))) : Writes file next (.issued stored) := by
  unfold issueIn at issued
  split at issued
  · cases issued
  rename_i found read
  rw [readLedger_ok read] at issued
  dsimp only at issued
  split at issued
  · cases issued
  obtain ⟨id, drawn, issued⟩ := map_eq_some_iff.mp issued
  have fresh := List.find?_some drawn
  cases file with
  | none =>
    have keyed : Keyed ⟨warrantSchemaVersion, outside.b64urlEncode key.publicKey, ∅⟩ := by
      intro other entry there
      cases ExtTreeMap.getElem?_empty.symm.trans there
    obtain ⟨-, keyed', current', marked⟩ := issueUnder_writes keyed rfl ExtTreeMap.getElem?_empty (named id) issued
    exact ⟨nofun, keyed', current', marked, nofun⟩
  | some ledger =>
    obtain ⟨keyed, current⟩ := sound ledger rfl
    have free : ledger.grants[id]? = none := by
      rw [getD_some, ExtTreeMap.contains_eq_isSome_getElem?, Bool.not_eq_true'] at fresh
      exact isSome_eq_false_iff.mp fresh |> isNone_iff_eq_none.mp
    obtain ⟨keeps, keyed', current', marked⟩ := issueUnder_writes keyed current free (named id) issued
    exact ⟨keeps, keyed', current', marked, nofun⟩

theorem requestOf_named {args : IssueGrantArgs}
    (requested : requestOf outside args nowMs = .ok request) (id : String) : (request id).grantId = id := by
  obtain ⟨target, -, requested⟩ := bind_ok requested
  obtain ⟨scope, -, requested⟩ := bind_ok requested
  obtain ⟨statement, -, requested⟩ := bind_ok requested
  obtain ⟨issuer, -, requested⟩ := bind_ok requested
  obtain ⟨expiry, -, requested⟩ := bind_ok requested
  rw [← ok.inj requested]

theorem consumedIn_writes (keyed : Keyed ledger)
    (current : ledger.schemaVersion = warrantSchemaVersion) (passed : Passed outside ledger idOrToken grant true) :
    Writes (some ledger) (consumedIn outside ledger grant.grantId targetAgent nowMs) (.verified ⟨grant, true, true⟩) := by
  obtain ⟨stored, there, same, -, unspent⟩ := passed.held rfl
  unfold consumedIn
  rw [there]
  refine ⟨FileExtends.insert ?_, keyed.insert (keyed _ stored there), current, ?_, ?_⟩
  · intro old held
    cases there.symm.trans held
    refine ⟨rfl, fun _ => rfl, fun _ => rfl, ?_⟩
    intro spent single
    rw [unspent (same ▸ single)] at spent
    cases spent
  · intro _
    exact ⟨_, _, rfl, (getElem?_insert _ _ _ _).trans (if_pos rfl), same, rfl⟩
  · rintro id ⟨-, single, rfl⟩ ledger' stored' held there'
    cases held
    cases there.symm.trans there'
    exact unspent single

theorem revokeIn_writes (keyed : Keyed ledger) (current : ledger.schemaVersion = warrantSchemaVersion)
    (revoked : revokeIn outside id nowMs ledger = .ok (stored, next)) :
    Writes (some ledger) next (.revoked stored) := by
  unfold revokeIn at revoked
  split at revoked
  · cases revoked
  rename_i old there
  obtain ⟨rfl, rfl⟩ := Prod.mk.inj (ok.inj revoked)
  have named : old.grant.grantId = id := keyed _ old there
  refine ⟨FileExtends.insert ?_, keyed.insert named, current, ?_, nofun⟩
  · intro other held
    cases there.symm.trans held
    refine ⟨rfl, ?_, fun spent => spent, fun _ _ => ⟨rfl, rfl⟩⟩
    intro marked
    obtain ⟨time, first⟩ := isSome_iff_exists.mp marked
    simp only [first, getD_some]
  · refine ⟨_, _, rfl, ?_, rfl, rfl, rfl⟩
    show (ledger.grants.insert id _)[old.grant.grantId]? = _
    rw [named, getElem?_insert, if_pos rfl]

theorem change_writes (sound : Sound file) {call : Call}
    (changed : change outside draws file call = .writing next outcome) : Writes file next outcome := by
  cases call with
  | issue args key nowMs =>
    simp only [change] at changed
    split at changed
    · cases changed
    rename_i request requested
    split at changed
    · cases changed
    · cases changed
    · rename_i stored after issued
      cases changed
      exact issueIn_writes sound (requestOf_named requested) issued
  | verify idOrToken targetAgent consume nowMs =>
    simp only [change] at changed
    split at changed
    · cases changed
    rename_i ledger grant inLedger checked
    split at changed
    · rename_i held
      cases changed
      obtain ⟨there, passed⟩ := checkIn_ok (fun ledger held => (sound ledger held).1) checked
      subst there
      rw [held] at passed
      exact consumedIn_writes (sound _ rfl).1 (sound _ rfl).2 passed
    · cases changed
  | revoke grantId nowMs =>
    simp only [change] at changed
    split at changed
    · cases changed
    rename_i stored after revoked
    cases changed
    obtain ⟨ledger, read, marked⟩ := bind_ok revoked
    have there := requireLedger_ok read
    subst there
    exact revokeIn_writes (sound _ rfl).1 (sound _ rfl).2 marked

end FerroLoop.Warrant
