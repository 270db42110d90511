import FerroLoop.Proxy.Requests

namespace FerroLoop.Proxy

open Std Text Checked Vault List Governor

structure Placeholder (text before rawKey rest : List Char) : Prop where
  opens : First placeholderOpen text before (rawKey ++ (placeholderClose ++ rest))
  closes : First placeholderClose (rawKey ++ (placeholderClose ++ rest)) rawKey rest

variable {text : List Char} {name raw : String} {keys out : List String} {isIpv6 : String → Bool}
  {parsed : String × String × UInt16}

variable {before rawKey rest : List Char}

theorem Placeholder.unique {before' rawKey' rest' : List Char} (one : Placeholder text before rawKey rest)
    (other : Placeholder text before' rawKey' rest') : before = before' ∧ rawKey = rawKey' ∧ rest = rest' := by
  obtain ⟨same, tails⟩ := one.opens.unique other.opens
  have closes := other.closes
  rw [← tails] at closes
  exact ⟨same, one.closes.unique closes⟩

theorem findPlaceholder_placeholder {next : Next} (found : findPlaceholder text = .next next) :
    Placeholder text next.before next.rawKey next.rest :=
  ⟨(findPlaceholder_next found).1, (findPlaceholder_next found).2⟩

inductive Mentions (name : String) : List Char → Prop
  | here {text before rawKey rest : List Char} (next : Placeholder text before rawKey rest)
      (bears : normalizeSecretName (String.ofList rawKey) = .ok name) : Mentions name text
  | later {text before rawKey rest : List Char} (next : Placeholder text before rawKey rest) (behind : Mentions name rest) :
      Mentions name text

theorem Mentions.cases_next (mentions : Mentions name text)
    (next : Placeholder text before rawKey rest) :
    normalizeSecretName (String.ofList rawKey) = .ok name ∨ Mentions name rest := by
  cases mentions with
  | here other bears =>
    obtain ⟨-, rfl, -⟩ := other.unique next
    exact .inl bears
  | later other behind =>
    obtain ⟨-, -, rfl⟩ := other.unique next
    exact .inr behind

theorem Mentions.opens (mentions : Mentions name text) : placeholderOpen <:+: text := by
  have opened : ∀ {before rawKey rest : List Char}, Placeholder text before rawKey rest → placeholderOpen <:+: text := by
    intro before rawKey rest next
    refine ⟨before, rawKey ++ (placeholderClose ++ rest), ?_⟩
    rw [next.opens.whole, append_assoc]
  cases mentions with
  | here next bears | later next behind => exact opened next

theorem mem_addKey {key : String} : name ∈ addKey keys key ↔ name ∈ keys ∨ name = key := by
  unfold addKey
  split
  · rename_i known
    constructor
    · exact .inl
    · rintro (member | rfl)
      · exact member
      · exact contains_iff_mem.mp known
  · simp

theorem extractFrom_mem (done : extractFrom text keys = .ok out) (name : String) :
    name ∈ out ↔ name ∈ keys ∨ Mentions name text := by
  induction size : text.length using Nat.strongRecOn generalizing text keys with
  | ind n ih =>
    rw [extractFrom] at done
    split at done
    · rename_i none
      have same := Except.ok.inj done
      subst same
      constructor
      · exact .inl
      · rintro (member | mentions)
        · exact member
        · exact absurd mentions.opens (findPlaceholder_none none)
    · cases done
    · rename_i next found
      obtain ⟨key, bears, done⟩ := bind_ok done
      have placed := findPlaceholder_placeholder found
      rw [ih next.rest.length (size ▸ next_shorter found) done rfl, mem_addKey]
      constructor
      · rintro ((member | rfl) | behind)
        · exact .inl member
        · exact .inr (.here placed bears)
        · exact .inr (.later placed behind)
      · rintro (member | mentions)
        · exact .inl (.inl member)
        · rcases mentions.cases_next placed with here | behind
          · exact .inl (.inr (Except.ok.inj (here.symm.trans bears)))
          · exact .inr behind

inductive Filled (holds : String → String → Prop) : List Char → List Char → Prop
  | plain {text : List Char} (free : ¬placeholderOpen <:+: text) : Filled holds text text
  | placed {text before rawKey rest out : List Char} {name value : String} (next : Placeholder text before rawKey rest)
      (bears : normalizeSecretName (String.ofList rawKey) = .ok name) (held : holds name value) (behind : Filled holds rest out) :
      Filled holds text (before ++ value.toList ++ out)

theorem extractFrom_keeps (done : extractFrom text keys = .ok out) : keys ⊆ out :=
  fun name member => (extractFrom_mem done name).mpr (.inl member)

variable {holds : String → String → Prop}

theorem substituteFrom_filled {values : Values}
    (done : extractFrom text keys = .ok out) (known : ∀ name ∈ out, ∃ value, values[name]? = some value ∧ holds name value) :
    Filled holds text (substituteFrom values text) := by
  induction size : text.length using Nat.strongRecOn generalizing text keys with
  | ind n ih =>
    rw [extractFrom] at done
    rw [substituteFrom]
    split at done
    · rename_i none
      exact .plain (findPlaceholder_none none)
    · cases done
    rename_i next found
    obtain ⟨key, bears, done⟩ := bind_ok done
    have collected : key ∈ out := extractFrom_keeps done (mem_addKey.mpr (.inr rfl))
    obtain ⟨value, held, holding⟩ := known key collected
    have replaced : replacement values next.rawKey = value.toList := by
      unfold replacement
      rw [bears]
      simp only [Except.toOption, Option.bind_some, held]
    rw [replaced]
    exact .placed (findPlaceholder_placeholder found) bears holding (ih _ (size ▸ next_shorter found) done rfl)

theorem append_reaches {α : Type} {start more front back : List α} {c : α} (lacks : c ∉ start)
    (same : start ++ more = front ++ c :: back) : ∃ rest, front = start ++ rest ∧ more = rest ++ c :: back := by
  rcases append_eq_append_iff.mp same with ⟨rest, longer, tail⟩ | ⟨rest, shorter, tail⟩
  · exact ⟨rest, longer, tail⟩
  rcases rest with _ | ⟨d, rest⟩
  · exact ⟨[], by simpa using shorter.symm, by simpa using tail.symm⟩
  obtain ⟨rfl, -⟩ := List.cons.inj tail
  rw [shorter] at lacks
  exact absurd (by simp) lacks

/-- Two texts that agree up to a question mark and on it. -/
structure SameBeforeQuery (one other : List Char) (head query query' : List Char) : Prop where
  one : one = head ++ '?' :: query
  other : other = head ++ '?' :: query'

theorem Filled.beforeQuery {url : String} {out : List Char} (filled : Filled holds url.toList out)
    (free : ¬placeholderOpen <:+: beforeQuery url) :
    out = url.toList ∨ ∃ head query query', SameBeforeQuery url.toList out head query query' := by
  generalize texts : url.toList = text at filled
  cases filled with
  | plain free => exact .inl rfl
  | @placed text before rawKey rest out name value next bears held behind =>
    have asks : '?' ∈ before := by
      by_contra lacks
      refine free ⟨before, (rawKey ++ (placeholderClose ++ rest)).takeWhile (· != '?'), ?_⟩
      have none : ∀ c ∈ before ++ placeholderOpen, (c != '?') = true := by
        intro c member
        rcases mem_append.mp member with early | opening
        · exact bne_iff_ne.mpr fun same => lacks (same ▸ early)
        · have all : placeholderOpen.all (· != '?') = true := by decide
          exact all_eq_true.mp all c opening
      unfold Proxy.beforeQuery
      rw [texts, next.opens.whole, ← append_assoc before, takeWhile_append_of_pos none]
    obtain ⟨head, more, rfl⟩ := append_of_mem asks
    refine .inr ⟨head, more ++ (placeholderOpen ++ (rawKey ++ (placeholderClose ++ rest))), more ++ (value.toList ++ out), ?_, ?_⟩
    · rw [next.opens.whole, append_assoc, cons_append]
    · rw [append_assoc, append_assoc, cons_append]

variable {raw' scheme : String}

theorem parseUrl_authority {after after' : String}
    (split : splitOnce "://" (trim raw) = some (scheme, after)) (split' : splitOnce "://" (trim raw') = some (scheme, after'))
    (same : after.toList.takeWhile (fun c => !Governor.endsAuthority c) = after'.toList.takeWhile (fun c => !Governor.endsAuthority c))
    (done : parseUrlSchemeHostPort isIpv6 raw = .ok parsed) :
    parseUrlSchemeHostPort isIpv6 raw' = .ok parsed := by
  unfold parseUrlSchemeHostPort at done ⊢
  rw [split] at done
  rw [split']
  dsimp only at done ⊢
  rw [← same]
  split at done
  · cases done
  rename_i supported
  rw [if_neg supported]
  split at done
  · cases done
  rename_i given
  rw [if_neg given]
  split at done
  · cases done
  rename_i host port read
  split at done
  · cases done
  rename_i plain
  rw [if_neg plain]
  split at done
  · cases done
  · rename_i nonempty
    rw [if_neg nonempty]
    exact done

theorem parseUrl_scheme
    (done : parseUrlSchemeHostPort isIpv6 raw = .ok parsed) :
    ∃ scheme after, splitOnce "://" (trim raw) = some (scheme, after) ∧
      (toAsciiLowercase scheme = "https" ∨ toAsciiLowercase scheme = "http") := by
  unfold parseUrlSchemeHostPort at done
  split at done
  · cases done
  rename_i scheme after found
  dsimp only at done
  split at done
  · cases done
  rename_i supported
  refine ⟨scheme, after, found, ?_⟩
  by_contra other
  exact supported (not_or.mp other)

variable {head query : List Char}

theorem trim_query {s : String} (whole : s.toList = head ++ '?' :: query) :
    ∃ query', (trim s).toList = head.dropWhile isWhitespace ++ '?' :: query' := by
  refine ⟨(query.reverse.dropWhile isWhitespace).reverse, ?_⟩
  unfold trim
  have solid : isWhitespace '?' = false := by decide
  rw [String.toList_ofList, whole, dropWhile_stop solid, reverse_append, reverse_cons, append_assoc,
    singleton_append, dropWhile_stop solid]
  simp

theorem scheme_lacks (known : toAsciiLowercase scheme = "https" ∨ toAsciiLowercase scheme = "http") :
    '?' ∉ scheme.toList := by
  intro member
  have lowered : '?' ∈ (toAsciiLowercase scheme).toList := by
    rw [toAsciiLowercase_toList]
    exact mem_map.mpr ⟨'?', member, rfl⟩
  rcases known with same | same
  · rw [same] at lowered
    exact absurd lowered (by decide)
  · rw [same] at lowered
    exact absurd lowered (by decide)

theorem parseUrl_query {query' : List Char}
    (agree : SameBeforeQuery raw.toList raw'.toList head query query')
    (done : parseUrlSchemeHostPort isIpv6 raw = .ok parsed) :
    parseUrlSchemeHostPort isIpv6 raw' = .ok parsed := by
  obtain ⟨scheme, after, found, known⟩ := parseUrl_scheme done
  obtain ⟨rest, trimmed⟩ := trim_query agree.one
  obtain ⟨rest', trimmed'⟩ := trim_query agree.other
  obtain ⟨⟨front, back⟩, first, parts⟩ := Option.map_eq_some_iff.mp found
  obtain ⟨rfl, rfl⟩ := Prod.mk.inj parts
  have stands := splitAtFirst_eq_some.mp first
  have lacks : '?' ∉ front ++ "://".toList := by
    intro member
    rcases mem_append.mp member with early | separator
    · exact scheme_lacks known (by rw [String.toList_ofList]; exact early)
    · exact absurd separator (by decide)
  have reach : (front ++ "://".toList) ++ back = head.dropWhile isWhitespace ++ '?' :: rest := by
    rw [← trimmed, stands.whole, append_assoc]
  obtain ⟨path, headed, tail⟩ := append_reaches lacks reach
  have found' : splitOnce "://" (trim raw') = some (String.ofList front, String.ofList (path ++ '?' :: rest')) := by
    have swapped := splitAtFirst_eq_some.mpr (stands.swap (path ++ '?' :: rest'))
    unfold splitOnce
    rw [trimmed', headed, append_assoc, append_assoc, swapped]
    rfl
  refine parseUrl_authority found found' ?_ done
  have stops : (fun c => !Governor.endsAuthority c) '?' = false := by decide
  have cuts := fun query => @takeWhile_stop Char (fun c => !Governor.endsAuthority c) '?' stops path query
  rw [String.toList_ofList, String.toList_ofList, tail, cuts rest, cuts rest']

end FerroLoop.Proxy
