import FerroLoop.Vault.Records

namespace FerroLoop.Vault

open Std Text Checked Word Governor List Bool Ipv6

def visible (c : Char) : Bool := 0x21 ≤ c.toNat && c.toNat ≤ 0x7E

variable {c : Char} {host : String} {port : UInt16}

theorem visible_solid (shows : visible c = true) : isWhitespace c = false ∧ isControl c = false := by
  unfold visible at shows
  unfold isWhitespace isControl
  simp only [and_eq_true, decide_eq_true_eq] at shows
  simp only [or_eq_false_iff, and_eq_false_iff, decide_eq_false_iff_not, beq_eq_false_iff_ne]
  omega

theorem toNat_isDigit (digit : c.isDigit = true) : 48 ≤ c.toNat ∧ c.toNat ≤ 57 := by
  unfold Char.isDigit at digit
  simp only [and_eq_true, decide_eq_true_eq, ge_iff_le, UInt32.le_iff_toNat_le] at digit
  exact digit

theorem toNat_isUpper (upper : c.isUpper = true) : 65 ≤ c.toNat ∧ c.toNat ≤ 90 := by
  unfold Char.isUpper at upper
  simp only [decide_eq_true_eq, ge_iff_le, UInt32.le_iff_toNat_le] at upper
  exact upper

theorem toNat_isLower (lower : c.isLower = true) : 97 ≤ c.toNat ∧ c.toNat ≤ 122 := by
  unfold Char.isLower at lower
  simp only [and_eq_true, decide_eq_true_eq, ge_iff_le, UInt32.le_iff_toNat_le] at lower
  exact lower

theorem isDigit_visible (digit : c.isDigit = true) : visible c = true := by
  have bounds := toNat_isDigit digit
  unfold visible
  simp only [and_eq_true, decide_eq_true_eq]
  omega

theorem isAlphanum_visible (alphanum : c.isAlphanum = true) : visible c = true := by
  unfold Char.isAlphanum Char.isAlpha at alphanum
  unfold visible
  simp only [or_eq_true] at alphanum
  simp only [and_eq_true, decide_eq_true_eq]
  rcases alphanum with (upper | lower) | digit
  · have := toNat_isUpper upper
    omega
  · have := toNat_isLower lower
    omega
  · have := toNat_isDigit digit
    omega

theorem hostByte_visible (byte : hostByte c = true) : visible c = true := by
  unfold hostByte at byte
  simp only [or_eq_true, beq_iff_eq] at byte
  rcases byte with ((alphanum | rfl) | rfl) | rfl
  · exact isAlphanum_visible alphanum
  all_goals decide

theorem literalChar_visible (literal : literalChar c = true) : visible c = true := by
  unfold literalChar isHexDigit at literal
  simp only [or_eq_true, beq_iff_eq, and_eq_true, decide_eq_true_eq] at literal
  rcases literal with (((digit | ⟨low, high⟩) | ⟨low, high⟩) | rfl) | rfl
  · exact isDigit_visible digit
  · have least : 97 ≤ c.toNat := UInt32.le_iff_toNat_le.mp low
    have most : c.toNat ≤ 102 := UInt32.le_iff_toNat_le.mp high
    unfold visible
    simp only [and_eq_true, decide_eq_true_eq]
    omega
  · have least : 65 ≤ c.toNat := UInt32.le_iff_toNat_le.mp low
    have most : c.toNat ≤ 70 := UInt32.le_iff_toNat_le.mp high
    unfold visible
    simp only [and_eq_true, decide_eq_true_eq]
    omega
  all_goals decide

/-- A host as `normalizeSigningOrigin` leaves it. -/
structure NormalHost (host : String) : Prop where
  lower : toAsciiLowercase host = host
  filled : host ≠ ""
  shape : isIpv6 host = true ∨ ∀ c ∈ host.toList, hostByte c = true

variable {default : UInt16}

theorem parseBracketed_ipv6 {authority : List Char}
    (parsed : parseBracketed isIpv6 authority default = .ok (host, port)) : isIpv6 host = true := by
  have whole := parseBracketed_host parsed
  unfold parseBracketed at parsed
  rw [← whole] at parsed
  split at parsed
  · cases parsed
  dsimp only at parsed
  split at parsed
  · cases parsed
  · rename_i literal
    simpa using literal

variable {raw : String}

theorem parse_normal {scheme : String}
    (parsed : parseUrlSchemeHostPort isIpv6 raw = .ok (scheme, host, port)) : NormalHost host := by
  unfold parseUrlSchemeHostPort at parsed
  split at parsed
  · cases parsed
  rename_i scheme' afterScheme split'
  dsimp only at parsed
  split at parsed
  · cases parsed
  split at parsed
  · cases parsed
  split at parsed
  · cases parsed
  rename_i host' port' answered
  split at parsed
  · cases parsed
  rename_i checked
  split at parsed
  · cases parsed
  rename_i filled
  have hosts : host' = host := congrArg (fun found => found.2.1) (Except.ok.inj parsed)
  subst hosts
  unfold parseAuthority at answered
  split at answered
  · refine ⟨?_, filled, .inl (parseBracketed_ipv6 answered)⟩
    rw [parseBracketed_host answered, toAsciiLowercase_idem]
  rename_i plain
  rw [not_eq_true] at plain
  rw [plain] at checked
  simp only [Bool.not_false, Bool.true_and, Bool.not_eq_true', Bool.not_eq_false] at checked
  refine ⟨?_, filled, .inr fun c member => all_eq_true.mp checked c member⟩
  unfold parsePlain at answered
  split at answered
  · split at answered
    · rw [← (Prod.mk.inj (Except.ok.inj answered)).1]
      exact toAsciiLowercase_idem _
    · cases answered
  · rw [← (Prod.mk.inj (Except.ok.inj answered)).1]
    exact toAsciiLowercase_idem _

/-- An accepted origin is the written form of a normal host and a port. -/
theorem normalizeSigningOrigin_ok {origin : String} (normal : normalizeSigningOrigin raw = .ok origin) :
    ∃ host port, NormalHost host ∧ port ≠ 0 ∧ origin = writtenOrigin host port := by
  unfold normalizeSigningOrigin at normal
  split at normal
  · cases normal
  split at normal
  · cases normal
  split at normal
  · cases normal
  split at normal
  · cases normal
  rename_i scheme host port parsed
  split at normal
  · cases normal
  · rename_i https
    have same := Except.ok.inj normal
    exact ⟨host, port, parse_normal parsed, fun zero => https (.inr zero), same.symm⟩

theorem parsePort_toString (port : UInt16) : parsePort (toString port.toNat) = some port := by
  have chars : (toString port.toNat).toList = Nat.toDigits 10 port.toNat := Nat.toList_repr
  have digits : (Nat.toDigits 10 port.toNat).all Char.isDigit = true :=
    all_eq_true.mpr fun c member => Nat.isDigit_of_mem_toDigits (by decide) (by decide) member
  have filled : (Nat.toDigits 10 port.toNat).isEmpty = false := by
    rw [isEmpty_eq_false_iff]
    exact Nat.toDigits_ne_nil
  have number : (Nat.toDigits 10 port.toNat).foldl (fun n c => 10 * n + (c.toNat - '0'.toNat)) 0 = port.toNat :=
    Nat.ofDigitChars_ten_toDigits
  unfold parsePort
  rw [chars, if_neg (by simp [digits, filled])]
  rw [number, if_pos port.toNat_lt, UInt16.ofNat_toNat]

theorem mem_port (member : c ∈ (toString port.toNat).toList) : c.isDigit = true := by
  rw [show (toString port.toNat).toList = Nat.toDigits 10 port.toNat from Nat.toList_repr] at member
  exact Nat.isDigit_of_mem_toDigits (by decide) (by decide) member

def writtenAuthority (host : String) (port : UInt16) : String :=
  (if ':' ∈ host.toList then "[" ++ host ++ "]" else host) ++ (":" ++ toString port.toNat)

theorem writtenOrigin_eq (host : String) (port : UInt16) : writtenOrigin host port = "https://" ++ writtenAuthority host port := rfl

/-- The characters of an authority that was written: none of them ends the authority or splits the associated data. -/
def authorityChar (c : Char) : Bool := visible c && !beyondOrigin c && c != '|'

theorem isDigit_authority (digit : c.isDigit = true) : authorityChar c = true := by
  have bounds := toNat_isDigit digit
  have apart : ∀ d : Char, ¬(48 ≤ d.toNat ∧ d.toNat ≤ 57) → c ≠ d := by
    rintro d outside rfl
    exact outside bounds
  simp [authorityChar, isDigit_visible digit, beyondOrigin, apart '/' (by decide), apart '?' (by decide), apart '#' (by decide),
    apart '@' (by decide), apart '|' (by decide)]

theorem normalHost_authority (normal : NormalHost host) : ∀ c ∈ host.toList, authorityChar c = true := by
  intro c member
  have apart : ∀ d : Char, hostByte d = false → literalChar d = false → c ≠ d := by
    rintro d name literal rfl
    rcases normal.shape with ipv6 | bytes
    · have here := (isIpv6_chars ipv6).2 c member
      rw [literal] at here
      cases here
    · have here := bytes c member
      rw [name] at here
      cases here
  have shows : visible c = true := by
    rcases normal.shape with ipv6 | bytes
    · exact literalChar_visible ((isIpv6_chars ipv6).2 c member)
    · exact hostByte_visible (bytes c member)
  simp [authorityChar, shows, beyondOrigin, apart '/' (by decide) (by decide), apart '?' (by decide) (by decide),
    apart '#' (by decide) (by decide), apart '@' (by decide) (by decide), apart '|' (by decide) (by decide)]

variable {host : String} {port : UInt16}

theorem bracketed_toList (literal : ':' ∈ host.toList) :
    (writtenAuthority host port).toList = '[' :: (host.toList ++ (']' :: ':' :: (toString port.toNat).toList)) := by
  unfold writtenAuthority
  rw [if_pos literal]
  simp only [String.toList_append, append_assoc]
  rfl

theorem bracketed_starts (literal : ':' ∈ host.toList) :
    startsWith (writtenAuthority host port) "[" = true := by
  unfold startsWith
  rw [bracketed_toList literal]
  rfl

theorem normalHost_name (normal : NormalHost host) (name : ':' ∉ host.toList) :
    ∀ c ∈ host.toList, hostByte c = true := by
  rcases normal.shape with ipv6 | bytes
  · exact absurd (isIpv6_chars ipv6).1 name
  · exact bytes

theorem plain_toList (name : ':' ∉ host.toList) :
    (writtenAuthority host port).toList = host.toList ++ (':' :: (toString port.toNat).toList) := by
  unfold writtenAuthority
  rw [if_neg name]
  simp only [String.toList_append]
  rfl

theorem writtenAuthority_chars (normal : NormalHost host) :
    ∀ c ∈ (writtenAuthority host port).toList, authorityChar c = true := by
  intro c member
  by_cases literal : ':' ∈ host.toList
  · rw [bracketed_toList literal] at member
    simp only [mem_cons, mem_append] at member
    rcases member with rfl | inside | rfl | rfl | digit
    · decide
    · exact normalHost_authority normal c inside
    · decide
    · decide
    · exact isDigit_authority (mem_port digit)
  · rw [plain_toList literal] at member
    simp only [mem_cons, mem_append] at member
    rcases member with inside | rfl | digit
    · exact normalHost_authority normal c inside
    · decide
    · exact isDigit_authority (mem_port digit)

theorem takeWhile_all {p : Char → Bool} {front rest : List Char} {stop : Char} (all : ∀ c ∈ front, p c = true)
    (ends : p stop = false) : (front ++ stop :: rest).takeWhile p = front ∧ (front ++ stop :: rest).dropWhile p = stop :: rest := by
  rw [takeWhile_append_of_pos all, dropWhile_append_of_pos all, takeWhile_cons_of_neg (by simp [ends]),
    dropWhile_cons_of_neg (by simp [ends]), append_nil]
  exact ⟨rfl, rfl⟩

theorem parseAuthority_written (normal : NormalHost host) :
    parseAuthority isIpv6 (writtenAuthority host port) default = .ok (host, port) := by
  have parsedPort := parsePort_toString port
  by_cases literal : ':' ∈ host.toList
  · have ipv6 : isIpv6 host = true := by
      rcases normal.shape with ipv6 | bytes
      · exact ipv6
      · have colon := bytes ':' literal
        exact absurd colon (by decide)
    have chars := @bracketed_toList host port literal
    have open_ := @bracketed_starts host port literal
    have apart : ∀ c ∈ host.toList, (c != ']') = true := by
      intro c member
      rw [bne_iff_ne]
      rintro rfl
      have here := (isIpv6_chars ipv6).2 ']' member
      exact absurd here (by decide)
    obtain ⟨before, after⟩ :=
      @takeWhile_all (· != ']') host.toList (':' :: (toString port.toNat).toList) ']' apart (by decide)
    unfold parseAuthority
    rw [if_pos open_, chars]
    unfold parseBracketed
    rw [drop_one, tail_cons, after, before, String.ofList_toList, normal.lower]
    dsimp only
    rw [if_neg (by rw [ipv6]; decide)]
    split
    · rename_i none
      exact absurd none (cons_ne_nil _ _)
    · rename_i digits same
      rw [← (List.cons.inj same).2, String.ofList_toList, parsedPort]
    · rename_i other
      exact (other _ rfl).elim
  · have chars := @plain_toList host port literal
    have bytes := normalHost_name normal literal
    have closed : startsWith (writtenAuthority host port) "[" = false := by
      unfold startsWith
      rw [chars]
      have filled : host.toList ≠ [] := by
        intro none
        exact normal.filled (String.toList_inj.mp (none.trans String.toList_empty.symm))
      obtain ⟨c, rest, whole⟩ := exists_cons_of_ne_nil filled
      have byte := bytes c (by rw [whole]; exact mem_cons_self)
      have apart : c ≠ '[' := by
        rintro rfl
        exact absurd byte (by decide)
      rw [whole, cons_append, show "[".toList = ['['] by decide, isPrefixOf_cons_cons,
        beq_eq_false_iff_ne.mpr (Ne.symm apart), Bool.false_and]
    have apart : ∀ c ∈ (toString port.toNat).toList.reverse, (c != ':') = true := by
      intro c member
      rw [bne_iff_ne]
      rintro rfl
      have digit := mem_port (mem_reverse.mp member)
      exact absurd digit (by decide)
    obtain ⟨after, before⟩ := @takeWhile_all (· != ':') (toString port.toNat).toList.reverse host.toList.reverse ':' apart
      (by decide)
    have backwards : (writtenAuthority host port).toList.reverse =
        (toString port.toNat).toList.reverse ++ ':' :: host.toList.reverse := by
      rw [chars, reverse_append, reverse_cons, append_assoc]
      rfl
    unfold parseAuthority
    rw [if_neg (by rw [closed]; decide)]
    unfold parsePlain rsplitOnce
    rw [backwards, before, after]
    dsimp only
    rw [reverse_reverse, reverse_reverse, String.ofList_toList, String.ofList_toList, parsedPort, normal.lower]

theorem authorityChar_plain (plain : authorityChar c = true) :
    visible c = true ∧ beyondOrigin c = false ∧ c ≠ '|' := by
  unfold authorityChar at plain
  simp only [and_eq_true, not_eq_true', bne_iff_ne] at plain
  exact ⟨plain.1.1, plain.1.2, plain.2⟩

theorem writtenOrigin_visible (normal : NormalHost host)
    (member : c ∈ (writtenOrigin host port).toList) : visible c = true ∧ c ≠ '|' := by
  rw [writtenOrigin_eq, String.toList_append, mem_append] at member
  rcases member with scheme | authority
  · have all : ['h', 't', 't', 'p', 's', ':', '/', '/'].all (fun c => decide (visible c = true ∧ c ≠ '|')) = true := by decide
    exact of_decide_eq_true (all_eq_true.mp all c scheme)
  · have plain := authorityChar_plain (writtenAuthority_chars normal c authority)
    exact ⟨plain.1, plain.2.2⟩

theorem splitOnce_https (rest : String) : splitOnce "://" ("https://" ++ rest) = some ("https", rest) := by
  unfold splitOnce
  simp [splitAtFirst]

section Written

variable {host : String} {port : UInt16} (normal : NormalHost host)

include normal

theorem writtenOrigin_trimmed : trim (writtenOrigin host port) = writtenOrigin host port :=
  trim_eq_self fun _ member => (visible_solid (writtenOrigin_visible normal member).1).1

theorem writtenAuthority_origin : (writtenAuthority host port).toList.any beyondOrigin = false := by
  rw [any_eq_false]
  intro c member
  rw [(authorityChar_plain (writtenAuthority_chars normal c member)).2.1]
  decide

theorem writtenAuthority_whole :
    String.ofList ((writtenAuthority host port).toList.takeWhile fun c => !endsAuthority c) = writtenAuthority host port := by
  have all : ∀ c ∈ (writtenAuthority host port).toList, (!endsAuthority c) = true := by
    intro c member
    have plain := (authorityChar_plain (writtenAuthority_chars normal c member)).2.1
    unfold beyondOrigin at plain
    unfold endsAuthority
    simp only [or_eq_false_iff] at plain
    simp [plain]
  rw [takeWhile_eq_self_iff.mpr all, String.ofList_toList]

theorem writtenAuthority_filled : ¬(writtenAuthority host port = "" ∨ '@' ∈ (writtenAuthority host port).toList) := by
  rintro (empty | credentials)
  · have colon : ':' ∈ (writtenAuthority host port).toList := by
      unfold writtenAuthority
      simp only [String.toList_append, mem_append]
      exact .inr (.inl (by decide))
    rw [empty] at colon
    exact absurd colon (by decide)
  · exact absurd (authorityChar_plain (writtenAuthority_chars normal '@' credentials)).2.1 (by decide)

theorem parse_written : parseUrlSchemeHostPort isIpv6 (writtenOrigin host port) = .ok ("https", host, port) := by
  have lower : toAsciiLowercase "https" = "https" := by decide
  have checked : ¬(!startsWith (writtenAuthority host port) "[" && !host.toList.all hostByte) = true := by
    by_cases literal : ':' ∈ host.toList
    · rw [bracketed_starts literal]
      simp
    · rw [all_eq_true.mpr (normalHost_name normal literal)]
      simp
  unfold parseUrlSchemeHostPort
  rw [writtenOrigin_trimmed normal, writtenOrigin_eq, splitOnce_https]
  dsimp only
  rw [lower, if_neg (by simp), writtenAuthority_whole normal, if_neg (writtenAuthority_filled normal),
    parseAuthority_written normal]
  dsimp only
  rw [if_neg checked, if_neg normal.filled]

/-- A written origin is normal already. -/
theorem normalizeSigningOrigin_written (nonzero : port ≠ 0) :
    normalizeSigningOrigin (writtenOrigin host port) = .ok (writtenOrigin host port) := by
  have uncontrolled : (writtenOrigin host port).toList.any isControl = false := by
    rw [any_eq_false]
    intro c member
    rw [(visible_solid (writtenOrigin_visible normal member).1).2]
    decide
  unfold normalizeSigningOrigin
  rw [if_neg (by rw [writtenOrigin_trimmed normal, uncontrolled]; simp), writtenOrigin_eq, splitOnce_https]
  dsimp only
  rw [writtenAuthority_origin normal, if_neg Bool.false_ne_true, ← writtenOrigin_eq, parse_written normal]
  dsimp only
  rw [if_neg (by simp [nonzero])]

end Written

end FerroLoop.Vault
