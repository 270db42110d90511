import FerroLoop.Vault.Origins

namespace FerroLoop.Vault

open Std Text Checked Word Governor List

variable {raw name : String} {c sep : Char} {items others : List String} {metadata a b : VaultSecretMetadata}

theorem normalizeSecretName_ok (normal : normalizeSecretName raw = .ok name) :
    name = toAsciiUppercase (trim raw) ∧ name ≠ "" ∧ name.utf8ByteSize ≤ 64 ∧ ∀ c ∈ name.toList, nameChar c = true := by
  unfold normalizeSecretName at normal
  dsimp only at normal
  split at normal
  · cases normal
  rename_i sized
  split at normal
  · cases normal
  rename_i chars
  have same := Except.ok.inj normal
  rw [same] at sized chars
  rw [Bool.not_eq_true, Bool.not_eq_false'] at chars
  rw [not_or] at sized
  exact ⟨same.symm, sized.1, Nat.le_of_not_lt sized.2, fun c member => all_eq_true.mp chars c member⟩

theorem nameChar_visible (char : nameChar c = true) : visible c = true ∧ c ≠ '|' ∧ c.toUpper = c := by
  unfold nameChar at char
  simp only [Bool.or_eq_true, beq_iff_eq] at char
  have kept : ¬(97 ≤ c.toNat ∧ c.toNat ≤ 122) → c.toUpper = c := by
    intro outside
    unfold Char.toUpper
    rw [dif_neg]
    rintro ⟨low, high⟩
    exact outside ⟨UInt32.le_iff_toNat_le.mp low, UInt32.le_iff_toNat_le.mp high⟩
  rcases char with (upper | digit) | rfl
  · have bounds := toNat_isUpper upper
    refine ⟨isAlphanum_visible (by unfold Char.isAlphanum Char.isAlpha; simp [upper]), ?_, kept (by omega)⟩
    rintro rfl
    exact absurd bounds (by decide)
  · have bounds := toNat_isDigit digit
    refine ⟨isDigit_visible digit, ?_, kept (by omega)⟩
    rintro rfl
    exact absurd bounds (by decide)
  · exact ⟨by decide, by decide, kept (by decide)⟩

theorem normalizeSecretName_idem (normal : normalizeSecretName raw = .ok name) :
    normalizeSecretName name = .ok name := by
  obtain ⟨-, filled, sized, chars⟩ := normalizeSecretName_ok normal
  have trimmed : trim name = name := trim_eq_self fun c member => (visible_solid (nameChar_visible (chars c member)).1).1
  have upper : toAsciiUppercase name = name := by
    apply String.toList_inj.mp
    unfold toAsciiUppercase
    rw [String.toList_ofList]
    conv => rhs; rw [← map_id name.toList]
    exact map_congr_left fun c member => (nameChar_visible (chars c member)).2.2
  unfold normalizeSecretName
  rw [trimmed, upper, if_neg (not_or.mpr ⟨filled, Nat.not_lt_of_le sized⟩), if_neg]
  rw [all_eq_true.mpr chars]
  decide

theorem trim_head {s : String} (filled : trim s ≠ "") : ∃ c ∈ (trim s).toList, isWhitespace c = false := by
  apply Classical.byContradiction
  intro none
  apply filled
  have blank : ∀ c ∈ (trim s).toList, isWhitespace c = true := by
    intro c member
    cases space : isWhitespace c with
    | true => rfl
    | false => exact absurd ⟨c, member, space⟩ none
  -- The last character that is left was not whitespace.
  have chars : (trim s).toList = ((s.toList.dropWhile isWhitespace).reverse.dropWhile isWhitespace).reverse :=
    String.toList_ofList
  apply String.toList_inj.mp
  rw [String.toList_empty, chars, reverse_eq_nil_iff]
  rcases whole : (s.toList.dropWhile isWhitespace).reverse.dropWhile isWhitespace with _ | ⟨c, rest⟩
  · rfl
  have kept := head?_dropWhile_not isWhitespace (s.toList.dropWhile isWhitespace).reverse
  rw [whole, head?_cons] at kept
  dsimp only at kept
  have first : c ∈ (trim s).toList := by
    rw [chars, whole, mem_reverse]
    exact mem_cons_self
  rw [blank c first] at kept
  cases kept

theorem toLower_solid (c : Char) (solid : isWhitespace c = false) : isWhitespace c.toLower = false := by
  by_cases kept : c.toLower = c
  · rw [kept]
    exact solid
  have lower := toNat_isLower (isLower_toLower kept)
  apply (visible_solid _).1
  unfold visible
  simp only [Bool.and_eq_true, decide_eq_true_eq]
  omega

theorem toUpper_solid (c : Char) (solid : isWhitespace c = false) : isWhitespace c.toUpper = false := by
  unfold Char.toUpper
  split
  · rename_i lower
    have low : 97 ≤ c.val.toNat := UInt32.le_iff_toNat_le.mp lower.1
    have high : c.val.toNat ≤ 122 := UInt32.le_iff_toNat_le.mp lower.2
    have moved : (c.val + ('A'.val - 'a'.val)).toNat = c.val.toNat - 32 := by
      rw [UInt32.toNat_add]
      have shift : ('A'.val - 'a'.val).toNat = 2 ^ 32 - 32 := rfl
      omega
    apply (visible_solid _).1
    unfold visible
    have number : ∀ (v : UInt32) (valid : v.isValidChar), Char.toNat ⟨v, valid⟩ = v.toNat := fun _ _ => rfl
    simp only [Bool.and_eq_true, decide_eq_true_eq, number, moved]
    omega
  · exact solid

variable {lowercase : Bool} {item : String}

theorem mem_normalizeStringList
    (member : item ∈ normalizeStringList items lowercase) :
    ∃ s, trim s ≠ "" ∧ item = if lowercase then toAsciiLowercase (trim s) else trim s := by
  unfold normalizeStringList at member
  have sorted := (destutter_sublist _ _).subset member
  rw [mem_mergeSort, mem_filter, mem_map] at sorted
  obtain ⟨⟨s, -, same⟩, filled⟩ := sorted
  refine ⟨s, ?_, same.symm⟩
  intro blank
  rw [blank] at same
  have lower : toAsciiLowercase "" = "" := by decide
  rw [lower, ite_self] at same
  rw [← same] at filled
  exact absurd filled (by decide)

theorem bar_toList : "|".toList = ['|'] := by decide

theorem comma_toList : ",".toList = [','] := by decide

variable {texts : List String}

theorem splitOn_joined (filled : texts ≠ []) (free : ∀ text ∈ texts, sep ∉ text.toList) :
    ([sep].intercalate (texts.map String.toList)).splitOn sep = texts.map String.toList := by
  refine splitOn_intercalate sep ?_ (by simpa using filled)
  intro l member
  obtain ⟨text, here, rfl⟩ := mem_map.mp member
  exact free text here

theorem joined_inj (filled : texts ≠ []) (filled' : others ≠ [])
    (free : ∀ text ∈ texts, sep ∉ text.toList) (free' : ∀ text ∈ others, sep ∉ text.toList)
    (same : [sep].intercalate (texts.map String.toList) = [sep].intercalate (others.map String.toList)) : texts = others := by
  have pieces := congrArg (List.splitOn sep) same
  rw [splitOn_joined filled free, splitOn_joined filled' free'] at pieces
  exact map_injective_iff.mpr (fun _ _ => String.toList_inj.mp) pieces

theorem barred_inj {fields : List String} (filled : fields ≠ []) (filled' : others ≠ [])
    (free : ∀ field ∈ fields, '|' ∉ field.toList) (free' : ∀ field ∈ others, '|' ∉ field.toList)
    (same : barred fields = barred others) : fields = others := by
  have chars := congrArg String.toList same
  unfold barred at chars
  rw [String.toList_intercalate, String.toList_intercalate, bar_toList] at chars
  exact joined_inj filled filled' free free' chars

theorem joined_empty (free : ∀ item ∈ items, item ≠ "" ∧ ',' ∉ item.toList)
    (none : [','].intercalate (items.map String.toList) = []) : items = [] := by
  apply Classical.byContradiction
  intro filled
  have pieces := splitOn_joined filled fun item member => (free item member).2
  rw [none] at pieces
  have single : items.map String.toList = [[]] := pieces.symm.trans (by decide)
  obtain ⟨item, rest, rfl⟩ := exists_cons_of_ne_nil filled
  have first : item.toList = [] := (List.cons.inj single).1
  exact (free item mem_cons_self).1 (String.toList_inj.mp (first.trans String.toList_empty.symm))

theorem commas_inj (free : ∀ item ∈ items, item ≠ "" ∧ ',' ∉ item.toList)
    (free' : ∀ item ∈ others, item ≠ "" ∧ ',' ∉ item.toList)
    (same : String.intercalate "," items = String.intercalate "," others) : items = others := by
  have chars := congrArg String.toList same
  rw [String.toList_intercalate, String.toList_intercalate, comma_toList] at chars
  by_cases none : items = []
  · subst none
    exact (joined_empty free' chars.symm).symm
  by_cases none' : others = []
  · subst none'
    exact absurd (joined_empty free chars) none
  · exact joined_inj none none' (fun item member => (free item member).2) (fun item member => (free' item member).2) chars

theorem mem_intercalate {texts : List (List Char)} (member : c ∈ [sep].intercalate texts) :
    c = sep ∨ ∃ text ∈ texts, c ∈ text := by
  induction texts with
  | nil => cases member
  | cons text rest ih =>
    rcases rest with _ | ⟨next, rest⟩
    · rw [intercalate_singleton] at member
      exact .inr ⟨text, mem_cons_self, member⟩
    rw [intercalate_cons_cons, mem_append, mem_append] at member
    rcases member with (here | between) | later
    · exact .inr ⟨text, mem_cons_self, here⟩
    · exact .inl (mem_singleton.mp between)
    · rcases ih later with same | ⟨other, further, inside⟩
      · exact .inl same
      · exact .inr ⟨other, mem_cons_of_mem _ further, inside⟩

theorem commas_bar (free : ∀ item ∈ items, '|' ∉ item.toList) :
    '|' ∉ (String.intercalate "," items).toList := by
  intro bar
  rw [String.toList_intercalate, comma_toList] at bar
  rcases mem_intercalate bar with comma | ⟨text, member, inside⟩
  · exact absurd comma (by decide)
  · obtain ⟨item, here, rfl⟩ := mem_map.mp member
    exact free item here inside

theorem boolText_inj {a b : Bool} (same : boolText a = boolText b) : a = b := by
  revert same
  cases a <;> cases b <;> decide

theorem usageText_inj {a b : SecretUsage} (same : usageText a = usageText b) : a = b := by
  revert same
  cases a <;> cases b <;> decide

/-- Two records have one policy: everything the associated data is to bind. -/
structure SamePolicy (a b : VaultSecretMetadata) : Prop where
  name : a.name = b.name
  allowedHosts : a.allowedHosts = b.allowedHosts
  allowedMethods : a.allowedMethods = b.allowedMethods
  allowedAgents : a.allowedAgents = b.allowedAgents
  allowPrivateNetwork : a.allowPrivateNetwork = b.allowPrivateNetwork
  expiresAt : a.expiresAt = b.expiresAt
  usage : a.usage = b.usage
  bundleRequired : a.bundleRequired = b.bundleRequired
  appBinding : a.appBinding = b.appBinding

/-- What a reader checks before it trusts a policy. -/
structure Genuine (metadata : VaultSecretMetadata) : Prop where
  named : normalizeSecretName metadata.name = .ok metadata.name
  valid : validAuthenticatedMetadata metadata = true

theorem genuine_items (genuine : Genuine metadata) :
    ∀ item ∈ metadata.policyItems, item ≠ "" ∧ '|' ∉ item.toList ∧ ',' ∉ item.toList := by
  intro item member
  have valid := genuine.valid
  unfold validAuthenticatedMetadata at valid
  simp only [Bool.and_eq_true, Bool.not_eq_true', any_eq_false] at valid
  have checked := valid.1.1 item member
  simp only [Bool.or_eq_true, not_or, beq_iff_eq, delimited, any_eq_true, not_exists, not_and] at checked
  refine ⟨?_, ?_, ?_⟩
  · rintro rfl
    exact checked.1 (by decide)
  · intro bar
    exact (checked.2 '|' bar).1 rfl
  · intro comma
    exact (checked.2 ',' comma).2 rfl

theorem genuine_expiry (genuine : Genuine metadata) {exp : String}
    (expires : metadata.expiresAt = some exp) : exp.toList.length = 24 ∧ '|' ∉ exp.toList := by
  have valid := genuine.valid
  unfold validAuthenticatedMetadata at valid
  simp only [Bool.and_eq_true, Bool.not_eq_true'] at valid
  have checked := valid.1.2
  rw [expires, Option.any_some, Option.isNone_eq_false_iff, Option.isSome_iff_exists] at checked
  obtain ⟨time, read⟩ := checked
  exact (parse_some read).2

theorem genuine_binding (genuine : Genuine metadata) {binding : AppBinding}
    (bound : metadata.appBinding = some binding) :
    '|' ∉ binding.issuer.toList ∧ '|' ∉ binding.origin.toList ∧ binding.origin ≠ "none" := by
  have valid := genuine.valid
  unfold validAuthenticatedMetadata at valid
  simp only [Bool.and_eq_true] at valid
  have checked := valid.2
  rw [bound] at checked
  unfold validBinding validIssuer at checked
  simp only [Bool.and_eq_true, beq_iff_eq, all_eq_true] at checked
  obtain ⟨host, port, normal, -, written⟩ := normalizeSigningOrigin_ok (ok_of_toOption checked.2)
  refine ⟨?_, ?_, ?_⟩
  · intro bar
    exact absurd (checked.1.2.2 '|' bar) (by decide)
  · intro bar
    rw [written] at bar
    exact (writtenOrigin_visible normal bar).2 rfl
  · rw [written, writtenOrigin_eq]
    exact @append_ne "https://" "none" (writtenAuthority host port) "" (by decide)

section

variable (metadata : VaultSecretMetadata)

def sharedFields : List String :=
  [metadata.name, String.intercalate "," metadata.allowedHosts, String.intercalate "," metadata.allowedMethods,
    String.intercalate "," metadata.allowedAgents, boolText metadata.allowPrivateNetwork, metadata.expiresAt.getD "none"]

def ownIssuer : String := (metadata.appBinding.map AppBinding.issuer).getD "none"

def ownOrigin : String := (metadata.appBinding.map AppBinding.origin).getD "none"

def extraFields : List String :=
  [usageText metadata.usage, boolText metadata.bundleRequired, ownIssuer metadata, ownOrigin metadata]

/-- A record of the first format. -/
def Plain : Prop :=
  metadata.usage = .proxy ∧ metadata.bundleRequired = false ∧ metadata.appBinding = none

end

theorem canonicalAad_plain (plain : Plain metadata) :
    canonicalAad metadata = barred ("ferrogate:v1" :: sharedFields metadata) := by
  unfold canonicalAad
  unfold Plain at plain
  rw [if_pos plain]
  rfl

theorem canonicalAad_extended (extended : ¬Plain metadata) :
    canonicalAad metadata = barred ("ferrogate:v2" :: (sharedFields metadata ++ extraFields metadata)) := by
  unfold canonicalAad
  unfold Plain at extended
  rw [if_neg extended]
  rfl

theorem sharedFields_free (genuine : Genuine metadata) :
    ∀ field ∈ sharedFields metadata, '|' ∉ field.toList := by
  have items := genuine_items genuine
  unfold VaultSecretMetadata.policyItems at items
  simp only [mem_append] at items
  intro field member
  unfold sharedFields at member
  simp only [mem_cons, not_mem_nil, or_false] at member
  rcases member with rfl | rfl | rfl | rfl | rfl | rfl
  · intro bar
    exact (nameChar_visible ((normalizeSecretName_ok genuine.named).2.2.2 '|' bar)).2.1 rfl
  · exact commas_bar fun item here => (items item (.inl (.inl here))).2.1
  · exact commas_bar fun item here => (items item (.inl (.inr here))).2.1
  · exact commas_bar fun item here => (items item (.inr here)).2.1
  · cases metadata.allowPrivateNetwork <;> decide
  · cases expires : metadata.expiresAt with
    | none => decide
    | some exp => exact (genuine_expiry genuine expires).2

theorem extraFields_free (genuine : Genuine metadata) :
    ∀ field ∈ extraFields metadata, '|' ∉ field.toList := by
  intro field member
  unfold extraFields at member
  simp only [mem_cons, not_mem_nil, or_false] at member
  rcases member with rfl | rfl | rfl | rfl
  · cases metadata.usage <;> decide
  · cases metadata.bundleRequired <;> decide
  · unfold ownIssuer
    cases bound : metadata.appBinding with
    | none => decide
    | some binding => exact (genuine_binding genuine bound).1
  · unfold ownOrigin
    cases bound : metadata.appBinding with
    | none => decide
    | some binding => exact (genuine_binding genuine bound).2.1

theorem version_free : '|' ∉ "ferrogate:v1".toList ∧ '|' ∉ "ferrogate:v2".toList := by decide

theorem plain_free (genuine : Genuine metadata) :
    ∀ field ∈ "ferrogate:v1" :: sharedFields metadata, '|' ∉ field.toList := by
  intro field member
  rcases mem_cons.mp member with rfl | shared
  · exact version_free.1
  · exact sharedFields_free genuine field shared

theorem extended_free (genuine : Genuine metadata) :
    ∀ field ∈ "ferrogate:v2" :: (sharedFields metadata ++ extraFields metadata), '|' ∉ field.toList := by
  intro field member
  rcases mem_cons.mp member with rfl | others
  · exact version_free.2
  · rcases mem_append.mp others with shared | extra
    · exact sharedFields_free genuine field shared
    · exact extraFields_free genuine field extra

theorem sharedFields_inj (genuine : Genuine a) (genuine' : Genuine b)
    (same : sharedFields a = sharedFields b) :
    a.name = b.name ∧ a.allowedHosts = b.allowedHosts ∧ a.allowedMethods = b.allowedMethods ∧
      a.allowedAgents = b.allowedAgents ∧ a.allowPrivateNetwork = b.allowPrivateNetwork ∧ a.expiresAt = b.expiresAt := by
  unfold sharedFields at same
  simp only [List.cons.injEq, and_true] at same
  obtain ⟨name, hosts, methods, agents, network, expiry⟩ := same
  have items := genuine_items genuine
  have items' := genuine_items genuine'
  unfold VaultSecretMetadata.policyItems at items items'
  simp only [mem_append] at items items'
  refine ⟨name, ?_, ?_, ?_, boolText_inj network, ?_⟩
  · exact commas_inj (fun item here => ⟨(items item (.inl (.inl here))).1, (items item (.inl (.inl here))).2.2⟩)
      (fun item here => ⟨(items' item (.inl (.inl here))).1, (items' item (.inl (.inl here))).2.2⟩) hosts
  · exact commas_inj (fun item here => ⟨(items item (.inl (.inr here))).1, (items item (.inl (.inr here))).2.2⟩)
      (fun item here => ⟨(items' item (.inl (.inr here))).1, (items' item (.inl (.inr here))).2.2⟩) methods
  · exact commas_inj (fun item here => ⟨(items item (.inr here)).1, (items item (.inr here)).2.2⟩)
      (fun item here => ⟨(items' item (.inr here)).1, (items' item (.inr here)).2.2⟩) agents
  have short : "none".toList.length ≠ 24 := by decide
  cases expires : a.expiresAt with
  | none =>
    rcases expires' : b.expiresAt with _ | exp
    · rfl
    rw [expires, expires'] at expiry
    have length := (genuine_expiry genuine' expires').1
    exact absurd ((congrArg (fun s : String => s.toList.length) expiry).trans length) short
  | some exp =>
    cases expires' : b.expiresAt with
    | none =>
      rw [expires, expires'] at expiry
      have length := (genuine_expiry genuine expires).1
      exact absurd ((congrArg (fun s : String => s.toList.length) expiry).symm.trans length) short
    | some exp' =>
      rw [expires, expires'] at expiry
      exact congrArg some expiry

theorem extraFields_inj (genuine : Genuine a) (genuine' : Genuine b)
    (same : extraFields a = extraFields b) :
    a.usage = b.usage ∧ a.bundleRequired = b.bundleRequired ∧ a.appBinding = b.appBinding := by
  unfold extraFields at same
  simp only [List.cons.injEq, and_true] at same
  obtain ⟨usage, bundle, issuer, origin⟩ := same
  refine ⟨usageText_inj usage, boolText_inj bundle, ?_⟩
  unfold ownIssuer at issuer
  unfold ownOrigin at origin
  cases bound : a.appBinding with
  | none =>
    cases bound' : b.appBinding with
    | none => rfl
    | some binding =>
      rw [bound, bound'] at origin
      exact absurd origin.symm (genuine_binding genuine' bound').2.2
  | some binding =>
    rcases bound' : b.appBinding with _ | binding'
    · rw [bound, bound'] at origin
      exact absurd origin (genuine_binding genuine bound).2.2
    rw [bound, bound'] at issuer origin
    obtain ⟨ownIssuer, ownOrigin⟩ := binding
    obtain ⟨ownIssuer', ownOrigin'⟩ := binding'
    have issuers : ownIssuer = ownIssuer' := issuer
    have origins : ownOrigin = ownOrigin' := origin
    rw [issuers, origins]

theorem canonicalAad_inj (genuine : Genuine a) (genuine' : Genuine b)
    (same : canonicalAad a = canonicalAad b) : SamePolicy a b := by
  have versions : "ferrogate:v1" ≠ "ferrogate:v2" := by decide
  by_cases plain : Plain a
  · by_cases plain' : Plain b
    · rw [canonicalAad_plain plain, canonicalAad_plain plain'] at same
      have fields := barred_inj (cons_ne_nil _ _) (cons_ne_nil _ _) (plain_free genuine) (plain_free genuine') same
      obtain ⟨name, hosts, methods, agents, network, expiry⟩ := sharedFields_inj genuine genuine' (List.cons.inj fields).2
      obtain ⟨usage, bundle, binding⟩ := plain
      obtain ⟨usage', bundle', binding'⟩ := plain'
      exact ⟨name, hosts, methods, agents, network, expiry, usage.trans usage'.symm, bundle.trans bundle'.symm,
        binding.trans binding'.symm⟩
    · rw [canonicalAad_plain plain, canonicalAad_extended plain'] at same
      have fields := barred_inj (cons_ne_nil _ _) (cons_ne_nil _ _) (plain_free genuine) (extended_free genuine') same
      exact absurd (List.cons.inj fields).1 versions
  · by_cases plain' : Plain b
    · rw [canonicalAad_extended plain, canonicalAad_plain plain'] at same
      have fields := barred_inj (cons_ne_nil _ _) (cons_ne_nil _ _) (extended_free genuine) (plain_free genuine') same
      exact absurd (List.cons.inj fields).1.symm versions
    rw [canonicalAad_extended plain, canonicalAad_extended plain'] at same
    have fields := barred_inj (cons_ne_nil _ _) (cons_ne_nil _ _) (extended_free genuine) (extended_free genuine')
      same
    obtain ⟨shared, extra⟩ := append_inj (List.cons.inj fields).2 rfl
    obtain ⟨name, hosts, methods, agents, network, expiry⟩ := sharedFields_inj genuine genuine' shared
    obtain ⟨usage, bundle, binding⟩ := extraFields_inj genuine genuine' extra
    exact ⟨name, hosts, methods, agents, network, expiry, usage, bundle, binding⟩

theorem acceptBinding_ok {usage : SecretUsage} {given accepted : Option AppBinding}
    (done : acceptBinding name usage given = .ok accepted) : validBinding usage accepted = true := by
  cases given with
  | none =>
    have same := Except.ok.inj done
    subst same
    rfl
  | some binding =>
    rw [acceptBinding] at done
    split at done
    · cases done
    rename_i signing
    split at done
    · cases done
    rename_i issuer
    obtain ⟨origin, normal, done⟩ := bind_ok done
    have same := Except.ok.inj done
    subst same
    obtain ⟨host, port, normalHost, nonzero, written⟩ := normalizeSigningOrigin_ok normal
    have again := normalizeSigningOrigin_written normalHost nonzero
    rw [← written] at again
    have signs : usage = .signJwtRs256 := by
      cases usage with
      | proxy => exact absurd rfl signing
      | signJwtRs256 => rfl
    unfold validBinding
    simp only [again, signs, Except.toOption, Bool.and_eq_true]
    simpa using issuer

theorem normalizeStringList_solid
    (member : item ∈ normalizeStringList items lowercase) :
    ∃ c ∈ item.toList, isWhitespace c = false := by
  obtain ⟨s, filled, same⟩ := mem_normalizeStringList member
  obtain ⟨c, inside, solid⟩ := trim_head filled
  rcases lowercase with _ | _
  · rw [if_neg Bool.false_ne_true] at same
    exact ⟨c, same ▸ inside, solid⟩
  rw [if_pos rfl] at same
  refine ⟨c.toLower, ?_, toLower_solid c solid⟩
  rw [same, toAsciiLowercase_toList]
  exact mem_map_of_mem inside

theorem trim_solid {s : String} (member : c ∈ s.toList) (solid : isWhitespace c = false) : trim s ≠ "" := by
  intro blank
  rw [isWhitespace_of_trim blank member] at solid
  cases solid

variable {args : SetSecretArgs} {policy : Policy}

theorem policyOf_ok (done : policyOf args name = .ok policy) :
    validBinding args.usage policy.appBinding = true ∧
      ∀ item ∈ policy.allowedHosts ++ policy.allowedMethods ++ policy.allowedAgents, trim item ≠ "" ∧ delimited item = false := by
  obtain ⟨_, -, done⟩ := bind_ok done
  obtain ⟨binding, accepted, done⟩ := bind_ok done
  dsimp only at done
  split at done
  · cases done
  rename_i none
  have same := Except.ok.inj done
  subst same
  refine ⟨acceptBinding_ok accepted, ?_⟩
  intro item member
  refine ⟨?_, ?_⟩
  · rcases mem_append.mp member with front | agent
    · rcases mem_append.mp front with host | method
      · obtain ⟨c, inside, solid⟩ := normalizeStringList_solid host
        exact trim_solid inside solid
      obtain ⟨plain, listed, rfl⟩ := mem_map.mp method
      obtain ⟨c, inside, solid⟩ := normalizeStringList_solid listed
      have raised : c.toUpper ∈ (toAsciiUppercase plain).toList := by
        unfold toAsciiUppercase
        rw [String.toList_ofList]
        exact mem_map_of_mem inside
      exact trim_solid raised (toUpper_solid c solid)
    · obtain ⟨c, inside, solid⟩ := normalizeStringList_solid agent
      exact trim_solid inside solid
  · have checked := find?_eq_none.mp none item member
    simpa using checked

theorem metadataOf_genuine
    (named : normalizeSecretName raw = .ok name) (done : policyOf args name = .ok policy)
    (existing : Option EncryptedSecretRecord) (nowMs : UInt64) : Genuine (metadataOf args name policy existing nowMs) := by
  obtain ⟨binding, items⟩ := policyOf_ok done
  refine ⟨normalizeSecretName_idem named, ?_⟩
  unfold validAuthenticatedMetadata
  simp only [Bool.and_eq_true, Bool.not_eq_true', any_eq_false]
  refine ⟨⟨?_, ?_⟩, binding⟩
  · intro item member
    obtain ⟨solid, free⟩ := items item member
    rw [free, beq_eq_false_iff_ne.mpr solid]
    decide
  · unfold metadataOf
    rcases args.leaseTtlSecs with _ | ttl
    · rfl
    dsimp only [Option.map_some]
    rw [Option.any_some, parse_fromUnixMillis]
    rfl

end FerroLoop.Vault
