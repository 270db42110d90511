import FerroLoop.Proxy.Cells
import FerroLoop.Proxy.Spans

namespace FerroLoop.Proxy

open Std Text Checked Vault Utf8 List Base64

def Spelling (secret pattern : List UInt8) : Prop := pattern ∈ secret :: base64Spellings secret

/-- The byte at `x` stands inside an occurrence of the secret in one of its spellings. -/
def Shows (text : List UInt8) (ci : Bool) (secret : List UInt8) (x : Nat) : Prop :=
  ∃ pattern decode start stop, Spelling secret pattern ∧ Occurs text decode ci pattern start stop ∧ start ≤ x ∧ x < stop

theorem standard_low : ∀ n < 64, (standard n).toNat < 128 := by decide +kernel

theorem urlSafe_low : ∀ n < 64, (urlSafe n).toNat < 128 := by decide +kernel

theorem mem_unpadded {cs : List Char} {c : Char} (member : c ∈ unpadded cs) : c ∈ cs := by
  exact mem_reverse.mp (mem_of_mem_dropWhile (mem_reverse.mp member))

theorem asciiBytes_valid {digit : Nat → Char} (low : ∀ n < 64, (digit n).toNat < 128) {cs : List Char} {bytes : List UInt8}
    (from_ : ∀ c ∈ cs, c ∈ encode digit bytes) : Valid (asciiBytes cs) := by
  refine .ascii fun b member => ?_
  obtain ⟨c, inText, rfl⟩ := mem_map.mp member
  have small : c.toNat < 128 := by
    rcases mem_encode (from_ c inText) with rfl | ⟨n, bound, rfl⟩
    · decide
    · exact low n bound
  rw [UInt8.lt_iff_toNat_lt, UInt8.toNat_ofNat_of_lt' (by show c.toNat < 256; omega)]
  exact small

variable {pattern secret text start : List UInt8} {ci : Bool} {external : List Named} {cells cells' : List Cell}
  {known : String × String} {kinds : List (String × String)}

theorem base64Spellings_spec (spelled : pattern ∈ base64Spellings secret) :
    Valid pattern ∧ (secret.length * 4 + 2) / 3 ≤ pattern.length := by
  have whole : ∀ {digit : Nat → Char}, Alphabet digit → (∀ n < 64, (digit n).toNat < 128) →
      (Valid (asciiBytes (encode digit secret)) ∧
        (secret.length * 4 + 2) / 3 ≤ (asciiBytes (encode digit secret)).length) ∧
      Valid (asciiBytes (unpadded (encode digit secret))) ∧
        (secret.length * 4 + 2) / 3 ≤ (asciiBytes (unpadded (encode digit secret))).length := by
    intro digit alphabet low
    obtain ⟨digits, padding, same, size, clear, pads⟩ := encode_padded alphabet secret
    have bare : unpadded (encode digit secret) = digits := by
      unfold unpadded
      rw [same, reverse_append, dropWhile_append_of_pos]
      · rw [dropWhile_none, reverse_reverse]
        intro c member
        rw [beq_eq_false_iff_ne]
        intro equal
        exact clear (equal ▸ mem_reverse.mp member)
      · intro c member
        rw [pads c (mem_reverse.mp member)]
        rfl
    refine ⟨⟨asciiBytes_valid low fun c member => member, ?_⟩, asciiBytes_valid low fun c member => mem_unpadded member, ?_⟩
    · unfold asciiBytes
      rw [length_map, same, length_append, size]
      omega
    · unfold asciiBytes
      rw [length_map, bare, size]
  have standard := whole standard_alphabet standard_low
  have urlSafe := whole urlSafe_alphabet urlSafe_low
  unfold base64Spellings at spelled
  simp only [mem_cons, not_mem_nil, or_false] at spelled
  rcases spelled with rfl | rfl | rfl | rfl
  · exact standard.1
  · exact standard.2
  · exact urlSafe.1
  · exact urlSafe.2

theorem Spelling.spec (spelled : Spelling secret pattern) (nonempty : secret ≠ []) (valid : Valid secret) :
    pattern ≠ [] ∧ Valid pattern := by
  rcases mem_cons.mp spelled with rfl | encoded
  · exact ⟨nonempty, valid⟩
  obtain ⟨isValid, long⟩ := base64Spellings_spec encoded
  refine ⟨fun empty => ?_, isValid⟩
  rw [empty, length_nil] at long
  have := length_pos_iff.mpr nonempty
  omega

theorem mem_patterns {textLen : Nat} {decode : Bool} :
    (pattern, decode) ∈ patterns textLen secret ↔
      pattern = secret ∨ ((secret.length * 4 + 2) / 3 ≤ textLen ∧ pattern ∈ base64Spellings secret) := by
  unfold patterns
  simp only [mem_flatMap, mem_cons, not_mem_nil, or_false, Prod.mk.injEq]
  constructor
  · rintro ⟨spelling, member, (⟨rfl, -⟩ | ⟨rfl, -⟩)⟩
    all_goals
      split at member
      · exact member.imp_right fun inside => ⟨‹_›, inside⟩
      · exact .inl (member.resolve_right not_mem_nil)
  · intro spelled
    refine ⟨pattern, ?_, by cases decode <;> simp⟩
    rcases spelled with rfl | ⟨room, inside⟩
    · exact .inl rfl
    · rw [if_pos room]
      exact .inr inside

theorem patterns_spelling {textLen : Nat} {entry : List UInt8 × Bool} (member : entry ∈ patterns textLen secret) :
    Spelling secret entry.1 := by
  rcases mem_patterns.mp member with rfl | ⟨-, inside⟩
  · exact mem_cons_self
  · exact mem_cons_of_mem _ inside

theorem Occurs.length_le {decode : Bool} {start stop : Nat}
    (occurs : Occurs text decode ci pattern start stop) : pattern.length ≤ text.length := by
  obtain ⟨mid, keys, -, path, inside⟩ := occurs.path
  have steps := path.length_le
  have lengths := congrArg List.length keys
  rw [length_map, length_map] at lengths
  omega

theorem mem_spans {decode : Bool} {owner : Nat} {span : Span} (nonempty : pattern ≠ []) :
    span ∈ endings pattern ci owner [] (symbols decode text) ↔ span.owner = owner ∧ Occurs text decode ci pattern span.start span.stop := by
  rw [mem_endings nonempty]
  refine and_congr_right fun _ => ?_
  constructor
  · rintro ⟨front, mid, back, whole, -, found⟩
    exact ⟨front, mid, back, whole, found⟩
  rintro ⟨front, mid, back, whole, keys, first, last⟩
  refine ⟨front, mid, back, whole, ?_, keys, first, last⟩
  have size : mid.length = pattern.length := by
    have lengths := congrArg List.length keys
    rw [length_map, length_map] at lengths
    exact lengths
  have := length_pos_iff.mpr nonempty
  rw [whole, length_append, length_append]
  omega

theorem findSecretSpans_spec {text pattern : List UInt8} {decode ci : Bool} {owner : Nat} {spans : List Span} (valid : Valid text)
    (nonempty : pattern ≠ []) (validPattern : Valid pattern) (room : spans.length ≤ maxSecretMatches) :
    (spans.length + (endings pattern ci owner [] (symbols decode text)).length ≤ maxSecretMatches →
      findSecretSpans text pattern decode ci owner spans =
        .ok (!(endings pattern ci owner [] (symbols decode text)).isEmpty, spans ++ endings pattern ci owner [] (symbols decode text))) ∧
    (maxSecretMatches < spans.length + (endings pattern ci owner [] (symbols decode text)).length →
      findSecretSpans text pattern decode ci owner spans = .error ()) := by
  unfold findSecretSpans
  by_cases long : text.length < pattern.length
  · have none : endings pattern ci owner [] (symbols decode text) = [] := by
      refine eq_nil_iff_forall_not_mem.mpr fun span member => ?_
      have := ((mem_spans nonempty).mp member).2.length_le
      omega
    rw [if_pos (.inr long), none, length_nil, append_nil]
    exact ⟨fun _ => rfl, fun full => by omega⟩
  · rw [if_neg (not_or.mpr ⟨nonempty, long⟩)]
    have folded : pattern.map (fold ci) ≠ [] := fun empty => nonempty (map_eq_nil_iff.mp empty)
    have steady : Steady pattern ci [] ⟨0, List.replicate pattern.length 0, 0, false, spans⟩ :=
      ⟨Kmp.best_nil folded, rfl, length_replicate, nofun⟩
    obtain ⟨ends, fails⟩ := @scan_run text pattern ci owner [] _ (symbols decode text) steady nonempty
      (fun span member => ((mem_spans nonempty).mp member).2.boundaries valid validPattern) room
    refine ⟨fun enough => ?_, fun full => ?_⟩
    · obtain ⟨after, done, all, hit⟩ := ends enough
      rw [done, ok_bind, all, hit]
      rfl
    · rw [fails full]
      rfl

/-- Spans are found only under a name that is reported. -/
def Told (hits : Hits) : Prop := hits.names.toList = [] → hits.spans = []

/-- The step appends exactly these spans, and fails when there would be more than the scan allows. -/
def Adds (step : Hits → Except Unit Hits) (gives : List Span) : Prop :=
  ∀ hits, hits.spans.length ≤ maxSecretMatches →
    (hits.spans.length + gives.length ≤ maxSecretMatches →
      ∃ after, step hits = .ok after ∧ after.spans = hits.spans ++ gives ∧ (Told hits → Told after)) ∧
    (maxSecretMatches < hits.spans.length + gives.length → step hits = .error ())

theorem Adds.loop {α : Type} {step : Hits → α → Except Unit Hits} {gives : α → List Span} {xs : List α}
    (each : ∀ x ∈ xs, Adds (fun hits => step hits x) (gives x)) : Adds (fun hits => xs.foldlM step hits) (xs.flatMap gives) := by
  induction xs with
  | nil =>
    intro hits room
    refine ⟨fun _ => ⟨hits, rfl, (append_nil _).symm, id⟩, fun full => ?_⟩
    rw [flatMap_nil, length_nil] at full
    omega
  | cons x xs ih =>
    intro hits room
    obtain ⟨fits, fails⟩ := each x mem_cons_self hits room
    rw [flatMap_cons, length_append]
    dsimp only at fits fails ⊢
    rw [foldlM_cons]
    by_cases space : hits.spans.length + (gives x).length ≤ maxSecretMatches
    · obtain ⟨mid, stepped, spans, told⟩ := fits space
      have count : mid.spans.length = hits.spans.length + (gives x).length := by
        rw [spans, length_append]
      obtain ⟨laterFits, laterFails⟩ := ih (fun y member => each y (mem_cons_of_mem _ member)) mid (by omega)
      rw [stepped, ok_bind]
      refine ⟨fun enough => ?_, fun full => laterFails (by omega)⟩
      obtain ⟨after, done, all, toldAfter⟩ := laterFits (by omega)
      refine ⟨after, done, ?_, fun known => toldAfter (told known)⟩
      rw [all, spans, append_assoc]
    · rw [fails (by omega)]
      exact ⟨fun enough => by omega, fun _ => rfl⟩

theorem scanPattern_adds {owner : Nat} {name : String} {pattern : List UInt8 × Bool} (valid : Valid text)
    (nonempty : pattern.1 ≠ []) (validPattern : Valid pattern.1) :
    Adds (fun hits => scanPattern text ci owner name hits pattern) (endings pattern.1 ci owner [] (symbols pattern.2 text)) := by
  intro hits room
  obtain ⟨fits, fails⟩ := @findSecretSpans_spec text pattern.1 pattern.2 ci owner hits.spans valid nonempty validPattern room
  unfold scanPattern
  dsimp only
  refine ⟨fun enough => ?_, fun full => ?_⟩
  · rw [fits enough, ok_bind]
    refine ⟨_, rfl, rfl, fun told silent => ?_⟩
    cases found : endings pattern.1 ci owner [] (symbols pattern.2 text) with
    | nil =>
      rw [found] at silent
      rw [append_nil]
      exact told silent
    | cons span more =>
      rw [found] at silent
      have member : name ∈ (hits.names.insert name).toList := ExtTreeSet.mem_toList.mpr ExtTreeSet.mem_insert_self
      have none : (hits.names.insert name).toList = [] := silent
      rw [none] at member
      cases member
  · rw [fails full]
    rfl

def secretSpans (text : List UInt8) (ci : Bool) (entry : Named × Nat) : List Span :=
  if entry.1.2 = [] then []
  else (patterns text.length entry.1.2).flatMap fun pattern => endings pattern.1 ci entry.2 [] (symbols pattern.2 text)

def allSpans (text : List UInt8) (ci : Bool) (external : List Named) : List Span := external.zipIdx.flatMap (secretSpans text ci)

theorem scanSecret_adds {entry : Named × Nat} (valid : Valid text) (validSecret : Valid entry.1.2)
    (small : entry.1.2.length ≤ maxSecretPatternBytes) : Adds (fun hits => scanSecret text ci hits entry) (secretSpans text ci entry) := by
  unfold secretSpans
  by_cases empty : entry.1.2 = []
  · intro hits room
    unfold scanSecret
    dsimp only
    rw [if_pos empty, if_pos empty]
    refine ⟨fun _ => ⟨hits, rfl, (append_nil _).symm, id⟩, fun full => ?_⟩
    rw [length_nil] at full
    omega
  · have unfolded : (fun hits => scanSecret text ci hits entry) =
        fun hits => (patterns text.length entry.1.2).foldlM (scanPattern text ci entry.2 entry.1.1) hits := by
      funext hits
      unfold scanSecret
      rw [if_neg empty, if_neg (by omega)]
    rw [if_neg empty, unfolded]
    refine Adds.loop fun pattern member => ?_
    obtain ⟨nonempty, validPattern⟩ := (patterns_spelling member).spec empty validSecret
    exact scanPattern_adds valid nonempty validPattern

/-- The scan is refused: too many bytes to search, a secret too long, or too many matches. -/
def Exceeds (text : List UInt8) (ci : Bool) (external : List Named) : Prop :=
  maxSecretScanBytes < text.length * external.length * 10 ∨ (∃ entry ∈ external, maxSecretPatternBytes < entry.2.length) ∨
    maxSecretMatches < (allSpans text ci external).length

theorem scanSecrets_add (valid : Valid text) (validSecrets : ∀ entry ∈ external, Valid entry.2)
    (large : ¬ ∃ entry ∈ external, maxSecretPatternBytes < entry.2.length) :
    Adds (fun hits => external.zipIdx.foldlM (scanSecret text ci) hits) (allSpans text ci external) := by
  refine Adds.loop fun entry member => ?_
  have listed := fst_mem_of_mem_zipIdx member
  exact scanSecret_adds valid (validSecrets _ listed) (Nat.le_of_not_lt fun size => large ⟨_, listed, size⟩)

theorem foldlM_fails {α : Type} {step : Hits → α → Except Unit Hits} {xs : List α} {x : α} (member : x ∈ xs)
    (fails : ∀ hits, step hits x = .error ()) (hits : Hits) : xs.foldlM step hits = .error () := by
  induction xs generalizing hits with
  | nil => cases member
  | cons y ys ih =>
    rw [foldlM_cons]
    rcases stepped : step hits y with e | mid
    · rfl
    rcases mem_cons.mp member with rfl | later
    · rw [fails hits] at stepped
      cases stepped
    · exact ih later mid

theorem redactPairs_exceeds (valid : Valid text)
    (validSecrets : ∀ entry ∈ external, Valid entry.2) (exceeds : Exceeds text ci external) :
    redactPairs text external ci = failClosed external := by
  unfold redactPairs
  split
  · rfl
  rename_i work
  have failed : external.zipIdx.foldlM (scanSecret text ci) ⟨[], ∅⟩ = .error () := by
    by_cases large : ∃ entry ∈ external, maxSecretPatternBytes < entry.2.length
    · obtain ⟨entry, member, size⟩ := large
      obtain ⟨i, bound, same⟩ := mem_iff_getElem.mp member
      have indexed : (entry, i) ∈ external.zipIdx := mem_zipIdx_iff_getElem?.mpr (by rw [getElem?_eq_getElem bound, same])
      refine foldlM_fails indexed (fun hits => ?_) _
      unfold scanSecret
      have nonempty : (entry, i).1.2 ≠ [] := by
        intro empty
        have none : entry.2 = [] := empty
        rw [none, length_nil] at size
        omega
      rw [if_neg nonempty, if_pos size]
    · have many : maxSecretMatches < (allSpans text ci external).length :=
        (exceeds.resolve_left work).resolve_left large
      exact (scanSecrets_add valid validSecrets large ⟨[], ∅⟩ (Nat.zero_le _)).2 (by simpa using many)
  rw [failed]

theorem redactPairs_within (valid : Valid text)
    (validSecrets : ∀ entry ∈ external, Valid entry.2) (within : ¬Exceeds text ci external) :
    (redactPairs text external ci).1 = renderFrom text external 0 (merged (allSpans text ci external)) ∧
      ((redactPairs text external ci).2 = [] → allSpans text ci external = []) := by
  obtain ⟨work, rest⟩ := not_or.mp within
  obtain ⟨large, many⟩ := not_or.mp rest
  obtain ⟨after, done, all, told⟩ := (scanSecrets_add valid validSecrets large ⟨[], ∅⟩ (Nat.zero_le _)).1 (by simpa using many)
  dsimp only at done all
  unfold redactPairs
  rw [if_neg work, done]
  dsimp only
  rw [all]
  refine ⟨rfl, fun silent => ?_⟩
  have nothing := told (fun _ => rfl) silent
  rw [all] at nothing
  exact nothing

theorem covered_allSpans (validSecrets : ∀ entry ∈ external, Valid entry.2) (x : Nat) :
    Covered (allSpans text ci external) x ↔ ∃ entry ∈ external, entry.2 ≠ [] ∧ Shows text ci entry.2 x := by
  unfold Covered allSpans
  simp only [mem_flatMap]
  constructor
  · rintro ⟨span, ⟨entry, indexed, found⟩, inside⟩
    have listed := fst_mem_of_mem_zipIdx indexed
    unfold secretSpans at found
    split at found
    · cases found
    rename_i nonempty
    obtain ⟨pattern, member, found⟩ := mem_flatMap.mp found
    have spelled := patterns_spelling member
    obtain ⟨some_, -⟩ := spelled.spec nonempty (validSecrets _ listed)
    exact ⟨entry.1, listed, nonempty, pattern.1, pattern.2, span.start, span.stop, spelled, ((mem_spans some_).mp found).2, inside⟩
  · rintro ⟨entry, listed, nonempty, pattern, decode, start, stop, spelled, occurs, inside⟩
    obtain ⟨i, bound, same⟩ := mem_iff_getElem.mp listed
    have indexed : (entry, i) ∈ external.zipIdx := mem_zipIdx_iff_getElem?.mpr (by rw [getElem?_eq_getElem bound, same])
    obtain ⟨some_, -⟩ := spelled.spec nonempty (validSecrets _ listed)
    refine ⟨⟨start, stop, i⟩, ⟨(entry, i), indexed, ?_⟩, inside⟩
    unfold secretSpans
    rw [if_neg nonempty]
    refine mem_flatMap.mpr ⟨(pattern, decode), mem_patterns.mpr ?_, (mem_spans some_).mpr ⟨rfl, occurs⟩⟩
    rcases mem_cons.mp spelled with rfl | encoded
    · exact .inl rfl
    · exact .inr ⟨Nat.le_trans (base64Spellings_spec encoded).2 occurs.length_le, encoded⟩

/-- The byte at `x` stands inside a token with a known prefix. -/
def InToken (text : List UInt8) (x : Nat) : Prop :=
  ∃ known ∈ knownPrefixes, ∃ front tail back, text = front ++ (textBytes known.1 ++ tail) ++ back ∧ 6 ≤ tail.length ∧
    (∀ b ∈ tail, tokenByte b = true) ∧ front.length ≤ x ∧ x < front.length + (textBytes known.1 ++ tail).length

section

variable {replacement : List UInt8} (refined : Refined start replacement cells cells')

include refined

theorem Refined.original : original cells' = original cells := by
  induction refined with
  | nil => rfl
  | keep later ih => rw [original_cons_kept, original_cons_kept, ih]
  | mark later ih => rw [original_cons_removed, original_cons_removed, ih]
  | token long all later ih => rw [original_cons_removed, original_kept, ih]

theorem Refined.mask (x : Nat) : ((Proxy.mask cells')[x]? = some true → (Proxy.mask cells)[x]? = some true) ∧
      ((Proxy.mask cells')[x]? = some false → (Proxy.mask cells)[x]? = some false ∨
        ∃ front tail back, Proxy.original cells = front ++ (start ++ tail) ++ back ∧ 6 ≤ tail.length ∧ (∀ b ∈ tail, tokenByte b = true) ∧
          front.length ≤ x ∧ x < front.length + (start ++ tail).length) := by
  induction refined generalizing x with
  | nil => exact ⟨id, .inl⟩
  | @keep b cells cells' later ih =>
    cases x with
    | zero => exact ⟨id, .inl⟩
    | succ x =>
      refine ⟨(ih x).1, fun gone => ((ih x).2 gone).imp_right ?_⟩
      rintro ⟨front, tail, back, whole, long, all, low, high⟩
      refine ⟨b :: front, tail, back, ?_, long, all, ?_, ?_⟩
      · rw [original_cons_kept, whole]
        rfl
      · rw [length_cons]
        omega
      · rw [length_cons]
        omega
  | @mark s o cells cells' later ih =>
    rw [mask_cons_removed, mask_cons_removed]
    by_cases inside : x < o.length
    · rw [getElem?_append_left (by simpa using inside), getElem?_append_left (by simpa using inside)]
      exact ⟨id, .inl⟩
    rw [getElem?_append_right (by simpa using inside), getElem?_append_right (by simpa using inside), length_replicate]
    refine ⟨(ih _).1, fun gone => ((ih _).2 gone).imp_right ?_⟩
    rintro ⟨front, tail, back, whole, long, all, low, high⟩
    refine ⟨o ++ front, tail, back, ?_, long, all, ?_, ?_⟩
    · rw [original_cons_removed, whole]
      simp
    · rw [length_append]
      omega
    · rw [length_append]
      omega
  | @token tail cells cells' long all later ih =>
    rw [mask_cons_removed, mask_kept]
    by_cases inside : x < (start ++ tail).length
    · refine ⟨fun kept => ?_, fun gone => .inr ⟨[], tail, Proxy.original cells, ?_, long, all, Nat.zero_le x, by simpa using inside⟩⟩
      · rw [getElem?_append_left (by simpa using inside), getElem?_replicate, if_pos inside] at kept
        cases kept
      · rw [original_kept, nil_append]
    rw [getElem?_append_right (by simpa using inside), getElem?_append_right (by simpa using inside), length_replicate,
      length_replicate]
    refine ⟨(ih _).1, fun gone => ((ih _).2 gone).imp_right ?_⟩
    rintro ⟨front, tail', back, whole, long', all', low, high⟩
    refine ⟨(start ++ tail) ++ front, tail', back, ?_, long', all', ?_, ?_⟩
    · rw [original_kept, whole]
      simp
    · rw [length_append]
      omega
    · have sizes : ((start ++ tail) ++ front).length = (start ++ tail).length + front.length := length_append
      omega

theorem Refined.marks {s o : List UInt8} (member : Cell.removed s o ∈ cells') :
    s = replacement ∨ ∃ before, s = (tokens start replacement before).1 ∧ Cell.removed before o ∈ cells := by
  induction refined with
  | nil => cases member
  | keep later ih =>
    rcases mem_cons.mp member with here | later
    · cases here
    · exact (ih later).imp_right fun ⟨before, same, found⟩ => ⟨before, same, mem_cons_of_mem _ found⟩
  | @mark before other cells cells' later ih =>
    rcases mem_cons.mp member with here | later
    · obtain ⟨rfl, rfl⟩ := Cell.removed.inj here
      exact .inr ⟨before, rfl, mem_cons_self⟩
    · exact (ih later).imp_right fun ⟨before, same, found⟩ => ⟨before, same, mem_cons_of_mem _ found⟩
  | token long all later ih =>
    rcases mem_cons.mp member with here | later
    · exact .inl (Cell.removed.inj here).1
    · exact (ih later).imp_right fun ⟨before, same, found⟩ => ⟨before, same, mem_append_right _ found⟩

end

def searched (kinds : List (String × String)) (text : List UInt8) : List UInt8 :=
  kinds.foldl (fun text known => (tokens (textBytes known.1) (marker known.2) text).1) text

theorem knownPrefixes_plain : ∀ known ∈ knownPrefixes,
    textBytes known.1 ≠ [] ∧ (0x5B : UInt8) ∉ textBytes known.1 ∧ (0x5D : UInt8) ∉ textBytes known.1 := by decide +kernel

theorem labels_inert : ∀ known ∈ knownPrefixes, ∀ other ∈ knownPrefixes,
    (tokens (textBytes other.1) (marker other.2) (marker known.2)).1 = marker known.2 := by decide +kernel

theorem searched_label (listed : ∀ other ∈ kinds, other ∈ knownPrefixes)
    (member : known ∈ knownPrefixes) : searched kinds (marker known.2) = marker known.2 := by
  induction kinds with
  | nil => rfl
  | cons other kinds ih =>
    show searched kinds (tokens (textBytes other.1) (marker other.2) (marker known.2)).1 = _
    rw [labels_inert known member other (listed other mem_cons_self)]
    exact ih fun next memberNext => listed next (mem_cons_of_mem _ memberNext)

theorem scrubPrefix_fst (scrubbed : List UInt8 × List String) (member : known ∈ knownPrefixes) :
    (scrubPrefix scrubbed known).1 = (tokens (textBytes known.1) (marker known.2) scrubbed.1).1 := by
  unfold scrubPrefix
  dsimp only
  split
  · rfl
  · rename_i none
    exact (tokens_none (knownPrefixes_plain known member).1 (Bool.eq_false_iff.mpr none)).symm

theorem scrub_fst (kinds : List (String × String)) (listed : ∀ known ∈ kinds, known ∈ knownPrefixes) (scrubbed : List UInt8 × List String) :
    (kinds.foldl scrubPrefix scrubbed).1 = searched kinds scrubbed.1 := by
  induction kinds generalizing scrubbed with
  | nil => rfl
  | cons known kinds ih =>
    rw [foldl_cons, ih (fun next member => listed next (mem_cons_of_mem _ member)),
      scrubPrefix_fst scrubbed (listed known mem_cons_self)]
    rfl

theorem scrub_names {scrubbed : List UInt8 × List String} (silent : (kinds.foldl scrubPrefix scrubbed).2 = []) :
    scrubbed.2 = [] := by
  induction kinds generalizing scrubbed with
  | nil => exact silent
  | cons known kinds ih =>
    have next := ih silent
    unfold scrubPrefix at next
    dsimp only at next
    split at next
    · split at next
      · exact next
      · exact (append_eq_nil_iff.mp next).1
    · exact next

/-- What the masked cells keep of the text while the known prefixes in `kinds` are still to be searched. -/
structure Cut (text : List UInt8) (secret : Nat → Prop) (kinds : List (String × String)) (cells : List Cell) : Prop where
  original : original cells = text
  hides : ∀ x, secret x → ¬(mask cells)[x]? = some true
  spares : ∀ x, (mask cells)[x]? = some false → secret x ∨ InToken text x
  brackets : ∀ s o, Cell.removed s o ∈ cells → Bracketed s
  marks : ∀ s o, Cell.removed s o ∈ cells → ∃ name, searched kinds s = searched knownPrefixes (marker name)

theorem marker_bracketed (name : String) : Bracketed (marker name) := by
  refine ⟨textBytes "REDACTED:FERROGATE:" ++ textBytes name, ?_⟩
  unfold marker
  rw [textBytes_append, textBytes_append, show textBytes "[REDACTED:FERROGATE:" = 0x5B :: textBytes "REDACTED:FERROGATE:" by decide +kernel,
    show textBytes "]" = [0x5D] by decide +kernel]
  simp

theorem Cut.search {secret : Nat → Prop}
    (cut : Cut text secret (known :: kinds) cells) (listed : ∀ other ∈ known :: kinds, other ∈ knownPrefixes) :
    ∃ cells', Cut text secret kinds cells' ∧ shown cells' = (tokens (textBytes known.1) (marker known.2) (shown cells)).1 := by
  have member := listed known mem_cons_self
  obtain ⟨nonempty, opens, closes⟩ := knownPrefixes_plain known member
  obtain ⟨cells', refined, same⟩ := @tokens_refined _ (marker known.2) _ nonempty opens closes cut.brackets
  refine ⟨cells', ⟨refined.original.trans cut.original, ?_, ?_, ?_, ?_⟩, same⟩
  · intro x isSecret kept
    exact cut.hides x isSecret ((refined.mask x).1 kept)
  · intro x gone
    rcases (refined.mask x).2 gone with before | ⟨front, tail, back, whole, long, all, low, high⟩
    · exact cut.spares x before
    · exact .inr ⟨known, member, front, tail, back, by rw [← whole, cut.original], long, all, low, high⟩
  · intro s o inCells
    rcases refined.marks inCells with rfl | ⟨before, rfl, found⟩
    · exact marker_bracketed known.2
    · exact ((cut.brackets before o found).tokens nonempty opens closes []).1
  · intro s o inCells
    rcases refined.marks inCells with rfl | ⟨before, rfl, found⟩
    · refine ⟨known.2, ?_⟩
      rw [searched_label (fun other later => listed other (mem_cons_of_mem _ later)) member, searched_label (fun _ => id) member]
    · exact cut.marks before o found

theorem Cut.searches {secret : Nat → Prop}
    (cut : Cut text secret kinds cells) (listed : ∀ known ∈ kinds, known ∈ knownPrefixes) :
    ∃ cells', Cut text secret [] cells' ∧ shown cells' = searched kinds (shown cells) := by
  induction kinds generalizing cells with
  | nil => exact ⟨cells, cut, rfl⟩
  | cons known kinds ih =>
    obtain ⟨mid, cutMid, same⟩ := cut.search listed
    obtain ⟨cells', cutEnd, sameEnd⟩ := ih cutMid fun other member => listed other (mem_cons_of_mem _ member)
    refine ⟨cells', cutEnd, ?_⟩
    rw [sameEnd, same]
    rfl

end FerroLoop.Proxy
