import FerroLoop.Proxy.Admitted
import FerroLoop.Proxy.Redacted

namespace FerroLoop.Proxy

open List hiding getElem?_eq_some_iff getElem?_insert
open Std Text Checked Vault Utf8

def Expired (nowMs : Nat) (metadata : VaultSecretMetadata) : Prop :=
  ∃ exp, metadata.expiresAt = some exp ∧ exp < fromUnixMillis nowMs

def OpenVault.Keeps (vault : OpenVault) (metadata : VaultSecretMetadata) (value : String) : Prop :=
  ∃ name, vault.reads vault.file name = .ok (metadata, textBytes value)

def Guarded (vault : OpenVault) (external : List (String × String)) (value : String) : Prop :=
  (∃ name, (name, value) ∈ external ∧ value ≠ "") ∨ ∃ metadata, vault.Keeps metadata value ∧ 4 ≤ (textBytes value).length

def ShowsGuarded (vault : OpenVault) (external : List (String × String)) (text : String) (ci : Bool) (x : Nat) : Prop :=
  ∃ value, Guarded vault external value ∧ Shows (textBytes text) ci (textBytes value) x

/-- What a redacted text is made of: no byte of a secret is left, nothing but secrets and tokens is gone, and names stand in
their places. -/
structure Hidden (vault : OpenVault) (external : List (String × String)) (text : String) (ci : Bool) (cells : List Cell) : Prop where
  original : original cells = textBytes text
  shown : shown cells = (redactWithVault vault text external ci).1
  hides : ∀ x, ShowsGuarded vault external text ci x → ¬(mask cells)[x]? = some true
  spares : ∀ x, (mask cells)[x]? = some false → ShowsGuarded vault external text ci x ∨ InToken (textBytes text) x
  marks : ∀ s o, Cell.removed s o ∈ cells → ∃ name, s = searched knownPrefixes (marker name)

structure NeverBack (vault : OpenVault) (external : List (String × String)) (text : String) (ci : Bool) : Prop where
  limited : Exceeds (textBytes text) ci (soughtSecrets vault external) →
    (redactWithVault vault text external ci).1 = textBytes "[REDACTED:FERROGATE]"
  hidden : ¬Exceeds (textBytes text) ci (soughtSecrets vault external) → ∃ cells, Hidden vault external text ci cells

def NoneExpired (vault : OpenVault) (text : String) (ci : Bool) : Prop :=
  ∀ metadata value, vault.Keeps metadata value → 4 ≤ (textBytes value).length → Expired vault.nowMs metadata →
    ∀ x, ¬Shows (textBytes text) ci (textBytes value) x

theorem textBytes_valid (s : String) : Valid (textBytes s) := valid_string s

theorem textBytes_eq_nil {s : String} : textBytes s = [] ↔ s = "" := by
  constructor
  · intro empty
    exact textBytes_inj (empty.trans (show [] = textBytes "" from rfl))
  · rintro rfl
    rfl

variable {file : VaultFile} {crypto : Crypto} {name value text : String} {key : MasterKey} {nowMs : Nat}
  {metadata : VaultSecretMetadata} {vault : OpenVault} {external : List (String × String)} {ci : Bool}

theorem decryptRaw_ok
    {opened : VaultSecretMetadata × String} (done : decryptRaw crypto key nowMs file name = .ok opened) :
    decryptAuthenticatedBytes crypto key file name = .ok (opened.1, textBytes opened.2) ∧ ¬Expired nowMs opened.1 := by
  obtain ⟨⟨metadata, bytes⟩, read, done⟩ := bind_ok done
  obtain ⟨authentic, found, read⟩ := bind_ok read
  obtain ⟨_, leased, read⟩ := bind_ok read
  have same := Except.ok.inj read
  subst same
  split at done
  · cases done
  rename_i value text
  have same := Except.ok.inj done
  subst same
  refine ⟨by rw [found, ofUtf8_eq_some text], ?_⟩
  rintro ⟨exp, ends, past⟩
  exact checkLease_ok leased ends past

theorem checkLease_of_not_expired (running : ¬Expired nowMs metadata) :
    checkLease nowMs metadata = .ok () := by
  unfold checkLease
  split
  · rfl
  · rename_i exp ends
    rw [if_neg fun past => running ⟨exp, ends, past⟩]

theorem decryptRaw_of_reads
    (read : decryptAuthenticatedBytes crypto key file name = .ok (metadata, textBytes value))
    (running : ¬Expired nowMs metadata) : decryptRaw crypto key nowMs file name = .ok (metadata, value) := by
  unfold decryptRaw decryptBytes
  rw [read, ok_bind, checkLease_of_not_expired running, ok_bind]
  simp only [pure_bind, ofUtf8_textBytes]
  rfl

theorem reads_key {opened : VaultSecretMetadata × List UInt8}
    (read : decryptAuthenticatedBytes crypto key file name = .ok opened) :
    ∃ keyName record, file.secrets[keyName]? = some record ∧ decryptAuthenticatedBytes crypto key file keyName = .ok opened := by
  obtain ⟨keyName, named, read⟩ := bind_ok read
  have whole := read
  obtain ⟨record, held, -⟩ := bind_ok read
  refine ⟨keyName, record, ?_, ?_⟩
  · unfold genuineRecord at held
    split at held
    · cases held
    rename_i found here
    split at held
    · cases held
    · rw [here, Except.ok.inj held]
  · unfold decryptAuthenticatedBytes
    rw [normalizeSecretName_idem named, ok_bind]
    exact whole

variable {entry : Named}

theorem mem_allDecrypted (member : entry ∈ allDecryptedForScrubbing vault) :
    ∃ metadata value, entry.2 = textBytes value ∧ value ≠ "" ∧ vault.Keeps metadata value := by
  obtain ⟨held, -, found⟩ := List.mem_filterMap.mp member
  split at found
  · cases found
  rename_i metadata value opened
  split at found
  · cases found
  · rename_i nonempty
    rw [← Option.some.inj found]
    exact ⟨metadata, value, rfl, nonempty, held.1, (decryptRaw_ok opened).1⟩

theorem allDecrypted_of_keeps (kept : vault.Keeps metadata value)
    (nonempty : value ≠ "") (running : ¬Expired vault.nowMs metadata) : ∃ name, (name, textBytes value) ∈ allDecryptedForScrubbing vault := by
  obtain ⟨name, read⟩ := kept
  obtain ⟨keyName, record, held, opened⟩ := reads_key read
  refine ⟨keyName, List.mem_filterMap.mpr ⟨(keyName, record), ExtTreeMap.mem_toList_iff_getElem?_eq_some.mpr held, ?_⟩⟩
  rw [decryptRaw_of_reads opened running]
  exact if_neg nonempty

theorem soughtSecrets_valid : ∀ entry ∈ soughtSecrets vault external, Valid entry.2 := by
  intro entry member
  rcases mem_append.mp member with injected | ofVault
  · obtain ⟨pair, -, rfl⟩ := mem_map.mp injected
    exact textBytes_valid pair.2
  · obtain ⟨-, value, same, -⟩ := mem_allDecrypted (mem_of_mem_filter ofVault)
    rw [same]
    exact textBytes_valid value

theorem guarded_of_sought
    (member : entry ∈ soughtSecrets vault external) (nonempty : entry.2 ≠ []) :
    ∃ value, entry.2 = textBytes value ∧ Guarded vault external value := by
  rcases mem_append.mp member with injected | ofVault
  · obtain ⟨pair, listed, rfl⟩ := mem_map.mp injected
    exact ⟨pair.2, rfl, .inl ⟨pair.1, listed, fun empty => nonempty (textBytes_eq_nil.mpr empty)⟩⟩
  obtain ⟨listed, long⟩ := mem_filter.mp ofVault
  obtain ⟨metadata, value, same, -, kept⟩ := mem_allDecrypted listed
  rw [same] at long
  exact ⟨value, same, .inr ⟨metadata, kept, of_decide_eq_true long⟩⟩

theorem sought_of_guarded {x : Nat}
    (none : NoneExpired vault text ci) (guarded : Guarded vault external value) (shows_ : Shows (textBytes text) ci (textBytes value) x) :
    ∃ entry ∈ soughtSecrets vault external, entry.2 ≠ [] ∧ Shows (textBytes text) ci entry.2 x := by
  rcases guarded with ⟨name, listed, nonempty⟩ | ⟨metadata, kept, long⟩
  · exact ⟨(name, textBytes value), mem_append_left _ (mem_map.mpr ⟨(name, value), listed, rfl⟩),
      fun empty => nonempty (textBytes_eq_nil.mp empty), shows_⟩
  have nonempty : textBytes value ≠ [] := by
    intro empty
    rw [empty, length_nil] at long
    omega
  by_cases past : Expired vault.nowMs metadata
  · exact absurd shows_ (none metadata value kept long past x)
  · obtain ⟨name, listed⟩ := allDecrypted_of_keeps kept (fun empty => nonempty (textBytes_eq_nil.mpr empty)) past
    exact ⟨(name, textBytes value), mem_append_right _ (mem_filter.mpr ⟨listed, decide_eq_true long⟩), nonempty, shows_⟩

theorem redactWithVault_fst (vault : OpenVault) (text : String) (external : List (String × String)) (ci : Bool) :
    (redactWithVault vault text external ci).1 =
      searched knownPrefixes (redactPairs (textBytes text) (soughtSecrets vault external) ci).1 := by
  unfold redactWithVault scrubKnownPrefixes
  rw [scrub_fst knownPrefixes fun known member => member]

theorem searched_failClosed : searched knownPrefixes (textBytes "[REDACTED:FERROGATE]") = textBytes "[REDACTED:FERROGATE]" := by
  decide +kernel

theorem cellsFrom_marks {text : List UInt8} {external : List Named} {spans : List Span} {cursor : Nat} {s o : List UInt8}
    (member : Cell.removed s o ∈ cellsFrom text external cursor spans) : ∃ name, s = marker name := by
  have keptOnly : ∀ bytes : List UInt8, Cell.removed s o ∉ bytes.map Cell.kept := by
    intro bytes inside
    obtain ⟨b, -, absurdly⟩ := mem_map.mp inside
    cases absurdly
  induction spans generalizing cursor with
  | nil => exact absurd member (keptOnly _)
  | cons span rest ih =>
    rcases mem_append.mp member with kept | later
    · exact absurd kept (keptOnly _)
    · rcases mem_cons.mp later with here | further
      · exact ⟨_, (Cell.removed.inj here).1⟩
      · exact ih further

theorem redactPairs_cut {text : List UInt8} {external : List Named} (valid : Valid text)
    (validSecrets : ∀ entry ∈ external, Valid entry.2) (within : ¬Exceeds text ci external) :
    ∃ cells, Cut text (fun x => ∃ entry ∈ external, entry.2 ≠ [] ∧ Shows text ci entry.2 x) knownPrefixes cells ∧
      shown cells = (redactPairs text external ci).1 := by
  have proper : ∀ span ∈ allSpans text ci external, span.start < span.stop ∧ span.stop ≤ text.length := by
    intro span member
    obtain ⟨entry, indexed, found⟩ := mem_flatMap.mp member
    unfold secretSpans at found
    split at found
    · cases found
    rename_i nonempty
    obtain ⟨pattern, listed, found⟩ := mem_flatMap.mp found
    obtain ⟨some_, -⟩ := (patterns_spelling listed).spec nonempty (validSecrets _ (fst_mem_of_mem_zipIdx indexed))
    exact ((mem_spans some_).mp found).2.bounds
  obtain ⟨ordered, covers⟩ := merged_spec fun span member => (proper span member).1
  have bounded : ∀ x, Covered (allSpans text ci external) x → x < text.length := by
    rintro x ⟨span, member, -, high⟩
    exact Nat.lt_of_lt_of_le high (proper span member).2
  have inside : ∀ span ∈ merged (allSpans text ci external), span.stop ≤ text.length := by
    intro span member
    have wide := ordered.proper member
    have last := bounded (span.stop - 1) ((covers _).mp ⟨span, member, by omega, by omega⟩)
    omega
  have size : ∀ {x b}, (mask (cellsFrom text external 0 (merged (allSpans text ci external))))[x]? = some b → x < text.length := by
    intro x b found
    have bound := (List.getElem?_eq_some_iff.mp found).1
    rw [mask_length, original_cellsFrom ordered, drop_zero] at bound
    exact bound
  refine ⟨cellsFrom text external 0 (merged (allSpans text ci external)), ⟨?_, ?_, ?_, ?_, ?_⟩, ?_⟩
  · rw [original_cellsFrom ordered, drop_zero]
  · intro x isSecret kept
    have covered := (covers x).mpr ((covered_allSpans validSecrets x).mpr isSecret)
    exact (mask_cellsFrom ordered inside (Nat.zero_le x) (size kept)).2.mp kept covered
  · intro x gone
    have covered := (mask_cellsFrom ordered inside (Nat.zero_le x) (size gone)).1.mp gone
    exact .inl ((covered_allSpans validSecrets x).mp ((covers x).mp covered))
  · intro s o member
    obtain ⟨name, rfl⟩ := cellsFrom_marks member
    exact marker_bracketed name
  · intro s o member
    obtain ⟨name, rfl⟩ := cellsFrom_marks member
    exact ⟨name, rfl⟩
  · rw [shown_cellsFrom, (redactPairs_within valid validSecrets within).1]

theorem neverBack_of_noneExpired
    (none : NoneExpired vault text ci) : NeverBack vault external text ci := by
  refine ⟨fun exceeds => ?_, fun within => ?_⟩
  · rw [redactWithVault_fst, redactPairs_exceeds (textBytes_valid text) soughtSecrets_valid exceeds]
    exact searched_failClosed
  obtain ⟨first, cutFirst, same⟩ := redactPairs_cut (textBytes_valid text) soughtSecrets_valid within
  obtain ⟨cells, cut, ends⟩ := cutFirst.searches fun _ => id
  refine ⟨cells, cut.original, by rw [ends, same, redactWithVault_fst], ?_, ?_, ?_⟩
  · rintro x ⟨value, guarded, shows_⟩
    exact cut.hides x (sought_of_guarded none guarded shows_)
  · intro x gone
    refine (cut.spares x gone).imp_left ?_
    rintro ⟨entry, member, nonempty, shows_⟩
    obtain ⟨value, same, guarded⟩ := guarded_of_sought member nonempty
    exact ⟨value, guarded, same ▸ shows_⟩
  · intro s o member
    exact cut.marks s o member

structure Untouched (vault : OpenVault) (external : List (String × String)) (text : String) (ci : Bool) : Prop where
  within : ¬Exceeds (textBytes text) ci (soughtSecrets vault external)
  unsought : ∀ entry ∈ soughtSecrets vault external, entry.2 ≠ [] → ∀ x, ¬Shows (textBytes text) ci entry.2 x
  tokenless : ∀ known ∈ knownPrefixes, ¬textBytes known.1 <:+: textBytes text
  unbracketed : (0x5B : UInt8) ∉ textBytes text

theorem tokens_absent {start replacement text : List UInt8} (absent : ¬start <:+: text) : (tokens start replacement text).1 = text := by
  induction text with
  | nil => rfl
  | cons b rest ih =>
    rw [infix_cons_iff] at absent
    obtain ⟨elsewhere, later⟩ := not_or.mp absent
    rw [tokens_miss elsewhere, ih later]

theorem searched_absent {kinds : List (String × String)} {text : List UInt8} (absent : ∀ known ∈ kinds, ¬textBytes known.1 <:+: text) :
    searched kinds text = text := by
  induction kinds with
  | nil => rfl
  | cons known kinds ih =>
    show searched kinds (tokens (textBytes known.1) (marker known.2) text).1 = text
    rw [tokens_absent (absent known mem_cons_self)]
    exact ih fun other member => absent other (mem_cons_of_mem _ member)

theorem Untouched.returned
    (untouched : Untouched vault external text ci) : (redactWithVault vault text external ci).1 = textBytes text := by
  have uncovered : ∀ x, ¬Covered (allSpans (textBytes text) ci (soughtSecrets vault external)) x := by
    intro x covered
    obtain ⟨entry, member, nonempty, shows_⟩ := (covered_allSpans soughtSecrets_valid x).mp covered
    exact untouched.unsought entry member nonempty x shows_
  have none : allSpans (textBytes text) ci (soughtSecrets vault external) = [] := by
    refine eq_nil_iff_forall_not_mem.mpr fun span member => ?_
    obtain ⟨entry, indexed, found⟩ := mem_flatMap.mp member
    unfold secretSpans at found
    split at found
    · cases found
    rename_i nonempty
    obtain ⟨pattern, listed, found⟩ := mem_flatMap.mp found
    obtain ⟨some_, -⟩ := (patterns_spelling listed).spec nonempty (soughtSecrets_valid _ (fst_mem_of_mem_zipIdx indexed))
    have bounds := ((mem_spans some_).mp found).2.bounds
    exact uncovered span.start ⟨span, member, Nat.le_refl _, bounds.1⟩
  have nothing : merged [] = [] := by
    unfold merged
    rw [mergeSort_nil]
  rw [redactWithVault_fst, (redactPairs_within (textBytes_valid text) soughtSecrets_valid untouched.within).1, none, nothing]
  exact searched_absent untouched.tokenless

theorem searched_marker_bracketed (name : String) : Bracketed (searched knownPrefixes (marker name)) := by
  have each : ∀ {kinds : List (String × String)} {bytes : List UInt8}, (∀ known ∈ kinds, known ∈ knownPrefixes) → Bracketed bytes →
      Bracketed (searched kinds bytes) := by
    intro kinds
    induction kinds with
    | nil => exact fun _ bracketed => bracketed
    | cons known kinds ih =>
      intro bytes listed bracketed
      obtain ⟨nonempty, opens, closes⟩ := knownPrefixes_plain known (listed known mem_cons_self)
      exact ih (fun other member => listed other (mem_cons_of_mem _ member)) (bracketed.tokens nonempty opens closes []).1
  exact each (fun known member => member) (marker_bracketed name)

theorem noneExpired_of_neverBack
    (untouched : Untouched vault external text ci) (never : NeverBack vault external text ci) : NoneExpired vault text ci := by
  intro metadata value kept long past x shows_
  obtain ⟨cells, hidden⟩ := never.hidden untouched.within
  have whole := hidden.shown.trans untouched.returned
  have keptOnly : ∀ s o, Cell.removed s o ∉ cells := by
    intro s o member
    obtain ⟨name, same⟩ := hidden.marks s o member
    obtain ⟨inner, bracketed⟩ := searched_marker_bracketed name
    refine untouched.unbracketed ?_
    rw [← whole]
    refine mem_flatMap.mpr ⟨.removed s o, member, ?_⟩
    rw [same, bracketed]
    exact mem_cons_self
  have unmasked : ∀ {cells : List Cell}, (∀ s o, Cell.removed s o ∉ cells) → ∀ x < (original cells).length, (mask cells)[x]? = some true := by
    intro cells
    induction cells with
    | nil => exact fun _ x bound => absurd bound (Nat.not_lt_zero x)
    | cons cell cells ih =>
      intro free x bound
      cases cell with
      | removed s o => exact absurd mem_cons_self (free s o)
      | kept b =>
        cases x with
        | zero => rfl
        | succ x => exact ih (fun s o member => free s o (mem_cons_of_mem _ member)) x (by simpa using bound)
  obtain ⟨pattern, decode, start, stop, spelled, occurs, low, high⟩ := shows_
  have bounds := occurs.bounds
  refine hidden.hides x ⟨value, .inr ⟨metadata, kept, long⟩, pattern, decode, start, stop, spelled, occurs, low, high⟩
    (unmasked keptOnly x ?_)
  rw [hidden.original]
  omega

theorem failClosed_names {external : List Named} (silent : (failClosed external).2 = []) : ∀ entry ∈ external, entry.2 = [] := by
  intro entry member
  by_contra nonempty
  have inserts : ∀ {entries : List Named} {names : ExtTreeSet String compare}, entry ∈ entries →
      entry.1 ∈ entries.foldl (fun names entry => names.insert entry.1) names := by
    intro entries names listed
    rw [show entries.foldl (fun names entry => names.insert entry.1) names =
      (entries.map (·.1)).foldl (fun names name => names.insert name) names by rw [foldl_map]]
    exact mem_collected.mpr (.inr (mem_map.mpr ⟨entry, listed, rfl⟩))
  have told : entry.1 ∈ (failClosed external).2 :=
    ExtTreeSet.mem_toList.mpr (inserts (mem_filter.mpr ⟨member, by simpa using nonempty⟩))
  rw [silent] at told
  cases told

theorem header_name_clean (none : NoneExpired vault name true)
    (silent : (redactWithVault vault name external true).2 = []) (x : Nat) : ¬ShowsGuarded vault external name true x := by
  rintro ⟨value, guarded, shows_⟩
  obtain ⟨entry, member, nonempty, shows_⟩ := sought_of_guarded none guarded shows_
  have quiet := scrub_names silent
  by_cases exceeds : Exceeds (textBytes name) true (soughtSecrets vault external)
  · rw [redactPairs_exceeds (textBytes_valid name) soughtSecrets_valid exceeds] at quiet
    exact nonempty (failClosed_names quiet entry member)
  have nothing := (redactPairs_within (textBytes_valid name) soughtSecrets_valid exceeds).2 quiet
  obtain ⟨span, found, -⟩ := (covered_allSpans soughtSecrets_valid x).mpr ⟨entry, member, nonempty, shows_⟩
  rw [nothing] at found
  cases found

def FromUpstream (vault : OpenVault) (external : List (String × String)) (headers : List (String × Option String)) (name : String)
    (value : List UInt8) : Prop :=
  ∃ header text, (header, some text) ∈ headers ∧ name = toAsciiLowercase header ∧
    value = (redactWithVault vault text external false).1 ∧ (redactWithVault vault header external true).2 = []

theorem scrubHeaders_from {all headers : List (String × Option String)}
    {clean : CleanHeaders} (listed : ∀ header ∈ headers, header ∈ all)
    (known : ∀ (name : String) value, clean.headers[name]? = some value → FromUpstream vault external all name value) :
    ∀ (name : String) value, (headers.foldl (scrubHeader vault external) clean).headers[name]? = some value →
      FromUpstream vault external all name value := by
  induction headers generalizing clean with
  | nil => exact known
  | cons header headers ih =>
    rw [foldl_cons]
    refine ih (fun other member => listed other (mem_cons_of_mem _ member)) ?_
    intro name value found
    unfold scrubHeader at found
    dsimp only at found
    split at found
    · exact known name value found
    rename_i quiet
    split at found
    · exact known name value found
    rename_i text given
    rw [ExtTreeMap.getElem?_insert] at found
    split at found
    · rename_i same
      refine ⟨header.1, text, listed _ ?_, (Std.compare_eq_iff_eq.mp same).symm, (Option.some.inj found).symm, not_not.mp quiet⟩
      rw [← given]
      exact mem_cons_self
    · exact known name value found

/-- What comes back of a response and of an error is redacted. The redaction hides every injected secret and every secret of
the vault of four bytes or more in a text where no secret with an ended lease stands; where it finds nothing else to remove,
that is also needed. -/
theorem secrets_hidden_unless_expired (vault : OpenVault) (external : List (String × String)) :
    (∀ text ci, NoneExpired vault text ci → NeverBack vault external text ci) ∧
    (∀ text ci, Untouched vault external text ci → (NeverBack vault external text ci ↔ NoneExpired vault text ci)) ∧
    (∀ response : UpstreamResponse, (scrubResponse vault external response).body = (redactWithVault vault response.body external false).1 ∧
      ∀ (name : String) value, (scrubResponse vault external response).headers[name]? = some value →
        ∃ header text, (header, some text) ∈ response.headers ∧ name = toAsciiLowercase header ∧
          value = (redactWithVault vault text external false).1 ∧
          (NoneExpired vault header true → ∀ x, ¬ShowsGuarded vault external header true x)) ∧
    ∀ cause, upstreamCause vault external cause = (redactWithVault vault cause external false).1 := by
  refine ⟨fun text ci => neverBack_of_noneExpired, fun text ci untouched => ⟨noneExpired_of_neverBack untouched, neverBack_of_noneExpired⟩,
    fun response => ⟨by rw [scrubResponse, scrubWithExternal], ?_⟩, fun cause => by rw [upstreamCause, scrubWithExternal]⟩
  intro name value found
  have start : ∀ (name : String) value, (∅ : ExtTreeMap String (List UInt8) compare)[name]? = some value →
      FromUpstream vault external response.headers name value := by
    intro name value absurdly
    rw [ExtTreeMap.getElem?_empty] at absurdly
    cases absurdly
  obtain ⟨header, text, member, lowered, redacted, quiet⟩ :=
    @scrubHeaders_from vault external response.headers response.headers ⟨∅, ∅⟩ (fun header member => member) start name value
      (by rw [scrubResponse] at found; exact found)
  exact ⟨header, text, member, lowered, redacted, fun none x => header_name_clean none quiet x⟩

def leasedPolicy : VaultSecretMetadata := { samplePolicy "OLD_KEY" [] with leaseTtlSecs := some 1, expiresAt := some (fromUnixMillis 1000) }

def leasedAcceptance : Acceptance where
  key := Vector.replicate 32 0
  metadata := leasedPolicy
  value := "pa55"
  ends := some 1000
  nonce := Vector.replicate 12 0
  ciphertext := sealedUnder (Vector.replicate 32 0) (Vector.replicate 12 (0 : UInt8)).toList (textBytes (canonicalAad leasedPolicy)) ++
    packed (textBytes "pa55")

def leasedVault : OpenVault :=
  .onDisk plainCrypto leasedAcceptance.key (VaultFile.storing plainCrypto VaultFile.default leasedAcceptance) 2000

theorem leasedVault_keeps : leasedVault.Keeps leasedPolicy "pa55" := by
  have sealed_ : Sealed plainCrypto leasedAcceptance :=
    ⟨⟨ok_of_toOption (by decide +kernel), by decide +kernel⟩, ⟨by decide +kernel, by decide +kernel⟩, rfl, rfl⟩
  exact ⟨leasedAcceptance.metadata.name, decrypt_stored plainCrypto_ideal sealed_ sealed_.genuine.named rfl storing_self⟩

theorem leasedVault_sought : soughtSecrets leasedVault [] = [] := by decide +kernel

theorem leasedVault_untouched : Untouched leasedVault [] "pa55" false := by
  refine ⟨?_, ?_, by decide +kernel, by decide +kernel⟩
  · rw [leasedVault_sought]
    rintro (work | ⟨entry, member, -⟩ | many)
    · exact absurd work (by decide)
    · cases member
    · exact absurd many (by decide)
  · rw [leasedVault_sought]
    intro entry member
    cases member

theorem pa55_shows : Shows (textBytes "pa55") false (textBytes "pa55") 0 :=
  ⟨textBytes "pa55", false, 0, 4, mem_cons_self,
    ⟨[], symbols false (textBytes "pa55"), [], by decide +kernel, by decide +kernel, by decide +kernel, by decide +kernel⟩, by decide, by decide⟩

/-- A response that shows a secret of the vault a second after its lease has ended is returned as it came. -/
theorem expired_secret_comes_back : (redactWithVault leasedVault "pa55" [] false).1 = textBytes "pa55" ∧
    ¬NeverBack leasedVault [] "pa55" false := by
  refine ⟨leasedVault_untouched.returned, fun never => ?_⟩
  have expired : Expired leasedVault.nowMs leasedPolicy := ⟨fromUnixMillis 1000, rfl, by decide +kernel⟩
  exact noneExpired_of_neverBack leasedVault_untouched never leasedPolicy "pa55" leasedVault_keeps (by decide +kernel) expired 0 pa55_shows

def emptyVault : OpenVault := .onDisk plainCrypto (Vector.replicate 32 0) VaultFile.default 2000

theorem emptyVault_noneExpired (text : String) (ci : Bool) : NoneExpired emptyVault text ci := by
  rintro metadata value ⟨name, read⟩
  obtain ⟨keyName, record, held, -⟩ := reads_key read
  have held' : VaultFile.default.secrets[keyName]? = some record := held
  cases held'

/-- An injected secret that an upstream echoes is hidden, and a text without a secret is returned. -/
theorem echoed_secret_is_hidden : NeverBack emptyVault [("API_KEY", "k-1")] "key=k-1" false ∧
    (NeverBack leasedVault [] "pa55" false ↔ NoneExpired leasedVault "pa55" false) :=
  ⟨(secrets_hidden_unless_expired emptyVault [("API_KEY", "k-1")]).1 "key=k-1" false (emptyVault_noneExpired "key=k-1" false),
    (secrets_hidden_unless_expired leasedVault []).2.1 "pa55" false leasedVault_untouched⟩

end FerroLoop.Proxy
