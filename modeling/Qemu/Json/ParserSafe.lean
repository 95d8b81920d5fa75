import Qemu.Json.Parser
import Mathlib.Data.List.Basic

namespace Qemu.Json

open Lib

/-!
# The parser on any tokens that the streamer emits

The streamer emits tokens as soon as the braces and the brackets are balanced, however they are
nested.  The parser does not get behind the last token: it has opened what it waits for.

* `parseValueWith` — the parser, with the alternatives for a single token as a parameter;
* `leafVa`, `jsonParserParseVa` — these alternatives with a `va_list`, and without one;
* `Closes` — tokens that close what is open in front of them;
* `SafeAt` — what the functions of the parser do with such tokens;
* `parse_emitted` — whatever is fed, what is emitted is parsed, or refused;
* `run_divides` — however the bytes arrive, the messages divide their tokens in the same way.
-/

/-! ### Brackets -/

/-- What a token adds to a count: these characters open and close. -/
def counted (opening closing : Byte) (t : JSONToken) : Int :=
  if t.type = .operator then
    if t.token.headD 0 = opening then 1 else if t.token.headD 0 = closing then -1 else 0
  else 0

/-- `1` for an opening brace, `-1` for a closing one. -/
def braces (t : JSONToken) : Int := counted (ascii '{') (ascii '}') t

/-- `1` for an opening bracket, `-1` for a closing one. -/
def brackets (t : JSONToken) : Int := counted (ascii '[') (ascii ']') t

/-- How many more braces open than close. -/
def braceSum (ts : List JSONToken) : Int := (ts.map braces).sum

/-- How many more brackets open than close. -/
def bracketSum (ts : List JSONToken) : Int := (ts.map brackets).sum

theorem braceSum_append (ts ts' : List JSONToken) :
    braceSum (ts ++ ts') = braceSum ts + braceSum ts' := by
  unfold braceSum
  rw [List.map_append, List.sum_append]

theorem bracketSum_append (ts ts' : List JSONToken) :
    bracketSum (ts ++ ts') = bracketSum ts + bracketSum ts' := by
  unfold bracketSum
  rw [List.map_append, List.sum_append]

theorem braceSum_cons (t : JSONToken) (ts : List JSONToken) :
    braceSum (t :: ts) = braces t + braceSum ts := List.sum_cons

theorem bracketSum_cons (t : JSONToken) (ts : List JSONToken) :
    bracketSum (t :: ts) = brackets t + bracketSum ts := List.sum_cons

/-- `json_message_process_token` counts what the token opens or closes. -/
theorem countToken_eq (p : JSONMessageParser) (t : JSONToken) : p.countToken t =
    ⟨p.braceCount + braces t, p.bracketCount + brackets t, p.tokens, p.result⟩ := by
  have hne : ascii '{' ≠ ascii '[' ∧ ascii '{' ≠ ascii ']' ∧ ascii '}' ≠ ascii '[' ∧
      ascii '}' ≠ ascii ']' := by decide
  obtain ⟨h₁, h₂, h₃, h₄⟩ := hne
  unfold JSONMessageParser.countToken braces brackets counted
  dsimp only
  generalize t.token.headD 0 = ch
  by_cases ht : t.type = .operator
  · rw [if_pos ht, if_pos ht, if_pos ht]
    by_cases hbrace : ch = ascii '{'
    · rw [hbrace, if_pos rfl, if_pos rfl, if_neg h₁, if_neg h₂, Int.add_zero]
    rw [if_neg hbrace, if_neg hbrace]
    by_cases hbrace' : ch = ascii '}'
    · rw [hbrace', if_pos rfl, if_pos rfl, if_neg h₃, if_neg h₄, Int.add_zero]
      rfl
    rw [if_neg hbrace', if_neg hbrace', Int.add_zero]
    split_ifs
    · rfl
    · rfl
    · rw [Int.add_zero]
  · rw [if_neg ht, if_neg ht, if_neg ht, Int.add_zero, Int.add_zero]

/-- The token of an operator. -/
def operatorToken (c : Byte) : JSONToken := ⟨.operator, [c]⟩

/-! ### The parser -/

section

variable (leaf : List JSONToken → Parsed QObject)

mutual

/-- `parse_value` -/
def parseValueWith : Nat → List JSONToken → Parsed QObject
  | 0, _ => .error .fuel
  | fuel + 1, tokens =>
    orElse (parseObjectWith fuel tokens) (orElse (parseArrayWith fuel tokens) (leaf tokens))

/-- `parse_pair` -/
def parsePairWith : Nat → List (List Byte × QObject) → List JSONToken →
    Parsed (List (List Byte × QObject))
  | 0, _, _ => .error .fuel
  | fuel + 1, dict, tokens =>
    andThen (parseValueWith fuel tokens) fun key tokens =>
      match key with
      | .qstring key =>
        ifOperator (ascii ':') tokens
          (fun tokens => andThen (parseValueWith fuel tokens) fun value tokens =>
            .ok (some (qdictPutObj dict key value, tokens)))
          (.ok none)
      | _ => .ok none

/-- The loop of `parse_object`. -/
def parsePairsWith : Nat → List (List Byte × QObject) → List JSONToken → Parsed QObject
  | 0, _, _ => .error .fuel
  | fuel + 1, dict, tokens =>
    ifOperator (ascii '}') tokens (fun tokens => .ok (some (.qdict dict, tokens)))
      (ifOperator (ascii ',') tokens
        (fun tokens => andThen (parsePairWith fuel dict tokens) fun dict tokens =>
          parsePairsWith fuel dict tokens)
        (.ok none))

/-- `parse_object` -/
def parseObjectWith : Nat → List JSONToken → Parsed QObject
  | 0, _ => .error .fuel
  | fuel + 1, tokens =>
    ifOperator (ascii '{') tokens
      (fun tokens => ifOperator (ascii '}') tokens (fun tokens => .ok (some (.qdict [], tokens)))
        (andThen (parsePairWith fuel [] tokens) fun dict tokens => parsePairsWith fuel dict tokens))
      (.ok none)

/-- The loop of `parse_array`. -/
def parseElementsWith : Nat → List QObject → List JSONToken → Parsed QObject
  | 0, _, _ => .error .fuel
  | fuel + 1, list, tokens =>
    ifOperator (ascii ']') tokens (fun tokens => .ok (some (.qlist list, tokens)))
      (ifOperator (ascii ',') tokens
        (fun tokens => andThen (parseValueWith fuel tokens) fun obj tokens =>
          parseElementsWith fuel (list ++ [obj]) tokens)
        (.ok none))

/-- `parse_array` -/
def parseArrayWith : Nat → List JSONToken → Parsed QObject
  | 0, _ => .error .fuel
  | fuel + 1, tokens =>
    ifOperator (ascii '[') tokens
      (fun tokens => ifOperator (ascii ']') tokens (fun tokens => .ok (some (.qlist [], tokens)))
        (andThen (parseValueWith fuel tokens) fun obj tokens =>
          parseElementsWith fuel [obj] tokens))
      (.ok none)

end

end

/-- A `va_list`, by the object that is taken off it at the escape in front of these tokens. -/
abbrev VaList := List JSONToken → QObject

/-- The escapes that `parse_escape` knows. -/
def escapeTexts : List (List Byte) :=
  ["%p", "%i", "%d", "%ld", "%lld", "%I64d", "%s", "%f"].map fun s => s.toList.map ascii

/-- `parse_escape` -/
def parseEscapeVa (ap : Option VaList) (tokens : List JSONToken) : Parsed QObject :=
  match ap with
  | none => .ok none
  | some arg =>
    match tokens with
    | [] => .error .segfault
    | t :: rest =>
      if t.type = .escape ∧ t.token ∈ escapeTexts then .ok (some (arg tokens, rest)) else .ok none

/-- The alternatives of `parse_value` behind the first two. -/
def leafVa (libc : Libc) (ap : Option VaList) (tokens : List JSONToken) : Parsed QObject :=
  orElse (parseEscapeVa ap tokens) (orElse (parseKeyword tokens) (parseLiteral libc tokens))

/-- `json_parser_parse` -/
def jsonParserParseVa (libc : Libc) (ap : Option VaList) (tokens : List JSONToken) :
    Except Stop (Option QObject) :=
  (parseValueWith (leafVa libc ap) (3 * tokens.length + 3) tokens).map (·.map Prod.fst)

/-! ### What is emitted -/

/-- The streamer, and what its callback was given. -/
structure TokenStream where
  parser : JSONMessageParser
  emitted : List (List JSONToken)

/-- `json_message_process_token` -/
def streamToken (s : TokenStream) (type : JSONTokenType) (token : List Byte) : TokenStream :=
  let p := s.parser.countToken ⟨type, token⟩
  let tokens := p.tokens ++ [⟨type, token⟩]
  if p.braceCount = 0 ∧ p.bracketCount = 0 then
    ⟨{ p with tokens := [] }, s.emitted ++ [tokens]⟩
  else ⟨{ p with tokens := tokens }, s.emitted⟩

/-- `json_message_parser_feed`, `json_message_parser_flush` -/
inductive FeedAction
  | feed (buffer : List Byte)
  | flush

/-- One call, on the lexer and the streamer. -/
def FeedAction.exec (s : JSONLexer × TokenStream) : FeedAction → JSONLexer × TokenStream
  | .feed buffer =>
    let r := jsonLexerFeed streamToken s.1 s.2 buffer
    (r.lexer, r.state)
  | .flush =>
    let r := jsonLexerFlush streamToken s.1 s.2
    (r.lexer, r.state)

/-- What is emitted when a parser is made and fed. -/
def emittedBy (as : List FeedAction) : List (List JSONToken) :=
  (as.foldl FeedAction.exec (jsonLexerInit, ⟨jsonMessageParserInit, []⟩)).2.emitted

/-! ### What is open -/

/-- So many braces and brackets are open in front of these tokens and closed in them. -/
structure Closes (a b : Nat) (ts : List JSONToken) : Prop where
  brace : braceSum ts = -a
  bracket : bracketSum ts = -b

section

variable {a b : Nat} {ts : List JSONToken}

theorem Closes.ne_nil_brace (h : Closes (a + 1) b ts) : ts ≠ [] := by
  rintro rfl
  have hsum := h.brace
  simp only [braceSum, List.map_nil, List.sum_nil] at hsum
  omega

theorem Closes.ne_nil_bracket (h : Closes a (b + 1) ts) : ts ≠ [] := by
  rintro rfl
  have hsum := h.bracket
  simp only [bracketSum, List.map_nil, List.sum_nil] at hsum
  omega

theorem Closes.tail {t : JSONToken} {a' b' : Nat} (h : Closes a b (t :: ts))
    (ha : (a' : Int) = a + braces t) (hb : (b' : Int) = b + brackets t) : Closes a' b' ts := by
  have hbraces := h.brace
  have hbrackets := h.bracket
  rw [braceSum_cons] at hbraces
  rw [bracketSum_cons] at hbrackets
  exact ⟨by omega, by omega⟩

theorem Closes.word {t : JSONToken} (h : Closes a b (t :: ts)) (ht : t.type ≠ .operator) :
    Closes a b ts := by
  have hbraces : braces t = 0 := if_neg ht
  have hbrackets : brackets t = 0 := if_neg ht
  exact h.tail (by omega) (by omega)

theorem Closes.separator {c : Byte} (h : Closes a b (operatorToken c :: ts))
    (hc : c = ascii ',' ∨ c = ascii ':') : Closes a b ts := by
  have hbraces : braces (operatorToken c) = 0 := by rcases hc with rfl | rfl <;> decide
  have hbrackets : brackets (operatorToken c) = 0 := by rcases hc with rfl | rfl <;> decide
  exact h.tail (by omega) (by omega)

theorem Closes.openBrace (h : Closes a b (operatorToken (ascii '{') :: ts)) :
    Closes (a + 1) b ts := by
  have hbraces : braces (operatorToken (ascii '{')) = 1 := by decide
  have hbrackets : brackets (operatorToken (ascii '{')) = 0 := by decide
  exact h.tail (by omega) (by omega)

theorem Closes.closeBrace (h : Closes (a + 1) b (operatorToken (ascii '}') :: ts)) :
    Closes a b ts := by
  have hbraces : braces (operatorToken (ascii '}')) = -1 := by decide
  have hbrackets : brackets (operatorToken (ascii '}')) = 0 := by decide
  exact h.tail (by omega) (by omega)

theorem Closes.openBracket (h : Closes a b (operatorToken (ascii '[') :: ts)) :
    Closes a (b + 1) ts := by
  have hbraces : braces (operatorToken (ascii '[')) = 0 := by decide
  have hbrackets : brackets (operatorToken (ascii '[')) = 1 := by decide
  exact h.tail (by omega) (by omega)

theorem Closes.closeBracket (h : Closes a (b + 1) (operatorToken (ascii ']') :: ts)) :
    Closes a b ts := by
  have hbraces : braces (operatorToken (ascii ']')) = 0 := by decide
  have hbrackets : brackets (operatorToken (ascii ']')) = -1 := by decide
  exact h.tail (by omega) (by omega)

end

/-! ### One function after the other -/

/-- Nothing is parsed, or so much that fewer than `n` tokens are left, which close the rest. -/
inductive Safe {α : Type} (a b n : Nat) : Parsed α → Prop
  | null : Safe a b n (.ok none)
  | parsed {v : α} {rest : List JSONToken} (hrest : Closes a b rest) (hlen : rest.length < n) :
      Safe a b n (.ok (some (v, rest)))

section

variable {α β : Type} {a b a' b' n n' : Nat} {r : Parsed α} {ts : List JSONToken}

theorem Safe.orElse {r next : Parsed QObject} (hr : Safe a b n r) (hnext : Safe a b n next) :
    Safe a b n (orElse r next) := by
  cases hr with
  | null => exact hnext
  | parsed hrest hlen => exact .parsed hrest hlen

theorem Safe.andThen {next : α → List JSONToken → Parsed β} (hr : Safe a b n r)
    (hnext : ∀ v rest, Closes a b rest → rest.length < n → Safe a' b' n' (next v rest)) :
    Safe a' b' n' (andThen r next) := by
  cases hr with
  | null => exact .null
  | parsed hrest hlen => exact hnext _ _ hrest hlen

theorem Safe.ifOperator {op : Byte} {yes : List JSONToken → Parsed α} {no : Parsed α}
    (hne : ts ≠ []) (hyes : ∀ rest, ts = operatorToken op :: rest → Safe a b n (yes rest))
    (hno : Safe a b n no) : Safe a b n (ifOperator op ts yes no) := by
  cases ts with
  | nil => exact absurd rfl hne
  | cons t rest =>
    unfold Json.ifOperator
    dsimp only
    split_ifs with h
    · obtain ⟨type, token⟩ := t
      obtain ⟨rfl, rfl⟩ := h
      exact hyes rest rfl
    · exact hno

theorem Safe.mono (hr : Safe a b n r) (hn : n ≤ n') : Safe a b n' r := by
  cases hr with
  | null => exact .null
  | parsed hrest hlen => exact .parsed hrest (by omega)

end

/-- A token that stands alone is taken, or nothing is. -/
def Single (leaf : List JSONToken → Parsed QObject) : Prop :=
  ∀ t rest, leaf (t :: rest) = .ok none ∨
    t.type ≠ .operator ∧ ∃ v, leaf (t :: rest) = .ok (some (v, rest))

theorem Single.orElse {leaf leaf' : List JSONToken → Parsed QObject} (h : Single leaf)
    (h' : Single leaf') : Single fun tokens => Json.orElse (leaf tokens) (leaf' tokens) := by
  intro t rest
  rcases h t rest with heq | ⟨ht, v, heq⟩
  · rcases h' t rest with heq' | ⟨ht, v, heq'⟩
    · exact Or.inl (by simp only [heq, heq', Json.orElse])
    · exact Or.inr ⟨ht, v, by simp only [heq, heq', Json.orElse]⟩
  · exact Or.inr ⟨ht, v, by simp only [heq, Json.orElse]⟩

theorem single_escape (ap : Option VaList) : Single (parseEscapeVa ap) := by
  intro t rest
  unfold parseEscapeVa
  cases ap with
  | none => exact Or.inl rfl
  | some arg =>
    dsimp only
    split_ifs with h
    · exact Or.inr ⟨by rw [h.1]; decide, _, rfl⟩
    · exact Or.inl rfl

theorem single_keyword : Single parseKeyword := by
  intro t rest
  unfold parseKeyword
  dsimp only
  have hkeyword : ∀ value, tokenIsKeyword t value = true → t.type ≠ .operator := by
    intro value h
    rw [tokenIsKeyword, Bool.and_eq_true, beq_iff_eq] at h
    rw [h.1]
    decide
  split_ifs with htrue hfalse
  · exact Or.inr ⟨hkeyword _ htrue, _, rfl⟩
  · exact Or.inr ⟨hkeyword _ hfalse, _, rfl⟩
  · exact Or.inl rfl

theorem single_literal (libc : Libc) : Single (parseLiteral libc) := by
  intro t rest
  unfold parseLiteral
  dsimp only
  split
  · next ht =>
    cases qstringFromEscapedStr t.token with
    | none => exact Or.inl rfl
    | some s => exact Or.inr ⟨by rw [ht]; decide, _, rfl⟩
  · next ht => exact Or.inr ⟨by rw [ht]; decide, _, rfl⟩
  · next ht => exact Or.inr ⟨by rw [ht]; decide, _, rfl⟩
  · exact Or.inl rfl

theorem single_leaf (libc : Libc) (ap : Option VaList) : Single (leafVa libc ap) :=
  (single_escape ap).orElse (single_keyword.orElse (single_literal libc))

theorem Single.safe {leaf : List JSONToken → Parsed QObject} (h : Single leaf) {a b : Nat}
    {ts : List JSONToken} (hts : Closes a b ts) (hne : ts ≠ []) :
    Safe a b ts.length (leaf ts) := by
  cases ts with
  | nil => exact absurd rfl hne
  | cons t rest =>
    rcases h t rest with heq | ⟨ht, v, heq⟩
    · rw [heq]
      exact .null
    · rw [heq]
      exact .parsed (hts.word ht) (by simp)

/-! ### All functions of the parser -/

/-- What the functions do with tokens that close what is open, and enough fuel.  Inside an object or
an array a token is left, so none of them looks behind the last one. -/
structure SafeAt (leaf : List JSONToken → Parsed QObject) (fuel : Nat) : Prop where
  value : ∀ {a b : Nat} {ts : List JSONToken}, Closes a b ts → ts ≠ [] → 3 * ts.length ≤ fuel →
    Safe a b ts.length (parseValueWith leaf fuel ts)
  pair : ∀ {a b : Nat} {ts : List JSONToken} (dict : List (List Byte × QObject)),
    Closes (a + 1) b ts → 3 * ts.length + 1 ≤ fuel →
      Safe (a + 1) b ts.length (parsePairWith leaf fuel dict ts)
  pairs : ∀ {a b : Nat} {ts : List JSONToken} (dict : List (List Byte × QObject)),
    Closes (a + 1) b ts → 3 * ts.length ≤ fuel + 1 →
      Safe a b ts.length (parsePairsWith leaf fuel dict ts)
  object : ∀ {a b : Nat} {ts : List JSONToken}, Closes a b ts → ts ≠ [] →
    3 * ts.length ≤ fuel + 1 → Safe a b ts.length (parseObjectWith leaf fuel ts)
  elements : ∀ {a b : Nat} {ts : List JSONToken} (list : List QObject),
    Closes a (b + 1) ts → 3 * ts.length ≤ fuel + 1 →
      Safe a b ts.length (parseElementsWith leaf fuel list ts)
  array : ∀ {a b : Nat} {ts : List JSONToken}, Closes a b ts → ts ≠ [] →
    3 * ts.length ≤ fuel + 1 → Safe a b ts.length (parseArrayWith leaf fuel ts)

section

variable {leaf : List JSONToken → Parsed QObject} {fuel a b : Nat} {ts : List JSONToken}

theorem length_tail {t : JSONToken} {rest : List JSONToken} (h : ts = t :: rest) :
    ts.length = rest.length + 1 := by
  rw [h, List.length_cons]

/-- Without fuel there are no tokens to parse. -/
theorem safeAt_zero : SafeAt leaf 0 where
  value := by
    intro a b ts _ hne hfuel
    exact absurd (List.length_eq_zero_iff.mp (by omega)) hne
  pair := by
    intro a b ts _ _ hfuel
    omega
  pairs := by
    intro a b ts _ hts hfuel
    exact absurd (List.length_eq_zero_iff.mp (by omega)) hts.ne_nil_brace
  object := by
    intro a b ts _ hne hfuel
    exact absurd (List.length_eq_zero_iff.mp (by omega)) hne
  elements := by
    intro a b ts _ hts hfuel
    exact absurd (List.length_eq_zero_iff.mp (by omega)) hts.ne_nil_bracket
  array := by
    intro a b ts _ hne hfuel
    exact absurd (List.length_eq_zero_iff.mp (by omega)) hne

theorem SafeAt.value_succ (hleaf : Single leaf) (ih : SafeAt leaf fuel) (hts : Closes a b ts)
    (hne : ts ≠ []) (hfuel : 3 * ts.length ≤ fuel + 1) :
    Safe a b ts.length (parseValueWith leaf (fuel + 1) ts) := by
  rw [parseValueWith]
  apply Safe.orElse (ih.object hts hne hfuel)
  exact Safe.orElse (ih.array hts hne hfuel) (hleaf.safe hts hne)

/-- `parse_pair`: in front of a brace that is open there is a token to look at. -/
theorem SafeAt.pair_succ (ih : SafeAt leaf fuel) (dict : List (List Byte × QObject))
    (hts : Closes (a + 1) b ts) (hfuel : 3 * ts.length + 1 ≤ fuel + 1) :
    Safe (a + 1) b ts.length (parsePairWith leaf (fuel + 1) dict ts) := by
  rw [parsePairWith]
  apply Safe.andThen (ih.value hts hts.ne_nil_brace (by omega))
  intro key rest hrest hlen
  cases key with
  | qstring key =>
    apply Safe.ifOperator hrest.ne_nil_brace
    · intro behind heq
      have hlength := length_tail heq
      have hbehind : Closes (a + 1) b behind := (heq ▸ hrest).separator (Or.inr rfl)
      apply Safe.andThen (ih.value hbehind hbehind.ne_nil_brace (by omega))
      intro value last hlast hlen'
      exact .parsed hlast (by omega)
    · exact .null
  | _ => exact .null

/-- The loop of `parse_object`, over the pairs that are left. -/
theorem SafeAt.pairs_succ (ih : SafeAt leaf fuel) (dict : List (List Byte × QObject))
    (hts : Closes (a + 1) b ts) (hfuel : 3 * ts.length ≤ fuel + 1 + 1) :
    Safe a b ts.length (parsePairsWith leaf (fuel + 1) dict ts) := by
  rw [parsePairsWith]
  apply Safe.ifOperator hts.ne_nil_brace
  · intro rest heq
    have hlength := length_tail heq
    exact .parsed (heq ▸ hts).closeBrace (by omega)
  apply Safe.ifOperator hts.ne_nil_brace
  · intro rest heq
    have hlength := length_tail heq
    have hrest : Closes (a + 1) b rest := (heq ▸ hts).separator (Or.inl rfl)
    apply Safe.andThen (ih.pair dict hrest (by omega))
    intro dict' last hlast hlen
    exact (ih.pairs dict' hlast (by omega)).mono (by omega)
  · exact .null

/-- `parse_object`, from its loop. -/
theorem SafeAt.object_succ (ih : SafeAt leaf fuel) (hts : Closes a b ts) (hne : ts ≠ [])
    (hfuel : 3 * ts.length ≤ fuel + 1 + 1) :
    Safe a b ts.length (parseObjectWith leaf (fuel + 1) ts) := by
  rw [parseObjectWith]
  apply Safe.ifOperator hne
  · intro rest heq
    have hlength := length_tail heq
    have hrest : Closes (a + 1) b rest := (heq ▸ hts).openBrace
    apply Safe.ifOperator hrest.ne_nil_brace
    · intro last heq'
      have hlength' := length_tail heq'
      exact .parsed (heq' ▸ hrest).closeBrace (by omega)
    · apply Safe.andThen (ih.pair [] hrest (by omega))
      intro dict last hlast hlen
      exact (ih.pairs dict hlast (by omega)).mono (by omega)
  · exact .null

/-- The loop of `parse_array`, over the elements that are left. -/
theorem SafeAt.elements_succ (ih : SafeAt leaf fuel) (list : List QObject)
    (hts : Closes a (b + 1) ts) (hfuel : 3 * ts.length ≤ fuel + 1 + 1) :
    Safe a b ts.length (parseElementsWith leaf (fuel + 1) list ts) := by
  rw [parseElementsWith]
  apply Safe.ifOperator hts.ne_nil_bracket
  · intro rest heq
    have hlength := length_tail heq
    exact .parsed (heq ▸ hts).closeBracket (by omega)
  apply Safe.ifOperator hts.ne_nil_bracket
  · intro rest heq
    have hlength := length_tail heq
    have hrest : Closes a (b + 1) rest := (heq ▸ hts).separator (Or.inl rfl)
    apply Safe.andThen (ih.value hrest hrest.ne_nil_bracket (by omega))
    intro obj last hlast hlen
    exact (ih.elements (list ++ [obj]) hlast (by omega)).mono (by omega)
  · exact .null

/-- `parse_array`, from its loop. -/
theorem SafeAt.array_succ (ih : SafeAt leaf fuel) (hts : Closes a b ts) (hne : ts ≠ [])
    (hfuel : 3 * ts.length ≤ fuel + 1 + 1) :
    Safe a b ts.length (parseArrayWith leaf (fuel + 1) ts) := by
  rw [parseArrayWith]
  apply Safe.ifOperator hne
  · intro rest heq
    have hlength := length_tail heq
    have hrest : Closes a (b + 1) rest := (heq ▸ hts).openBracket
    apply Safe.ifOperator hrest.ne_nil_bracket
    · intro last heq'
      have hlength' := length_tail heq'
      exact .parsed (heq' ▸ hrest).closeBracket (by omega)
    · apply Safe.andThen (ih.value hrest hrest.ne_nil_bracket (by omega))
      intro obj last hlast hlen
      exact (ih.elements [obj] hlast (by omega)).mono (by omega)
  · exact .null

end

/-- All functions are safe with any fuel, by induction on it. -/
theorem safeAt {leaf : List JSONToken → Parsed QObject} (hleaf : Single leaf) (fuel : Nat) :
    SafeAt leaf fuel := by
  induction fuel with
  | zero => exact safeAt_zero
  | succ fuel ih =>
    exact {
      value := fun hts hne hfuel => ih.value_succ hleaf hts hne hfuel
      pair := fun dict hts hfuel => ih.pair_succ dict hts hfuel
      pairs := fun dict hts hfuel => ih.pairs_succ dict hts hfuel
      object := fun hts hne hfuel => ih.object_succ hts hne hfuel
      elements := fun list hts hfuel => ih.elements_succ list hts hfuel
      array := fun hts hne hfuel => ih.array_succ hts hne hfuel }

theorem parse_closes (libc : Libc) (ap : Option VaList) {ts : List JSONToken}
    (hts : Closes 0 0 ts) (hne : ts ≠ []) : ∃ r, jsonParserParseVa libc ap ts = .ok r := by
  have hsafe := (safeAt (single_leaf libc ap) (3 * ts.length + 3)).value hts hne (by omega)
  unfold jsonParserParseVa
  cases hparse : parseValueWith (leafVa libc ap) (3 * ts.length + 3) ts with
  | error e =>
    rw [hparse] at hsafe
    cases hsafe
  | ok r => exact ⟨_, rfl⟩

/-! ### The streamer -/

/-- The counts are those of the tokens that wait, and what was emitted is balanced. -/
structure TokenStream.Sound (s : TokenStream) : Prop where
  brace : s.parser.braceCount = braceSum s.parser.tokens
  bracket : s.parser.bracketCount = bracketSum s.parser.tokens
  emitted : ∀ ts ∈ s.emitted, ts ≠ [] ∧ Closes 0 0 ts

theorem sound_init : TokenStream.Sound ⟨jsonMessageParserInit, []⟩ where
  brace := rfl
  bracket := rfl
  emitted := by simp

/-- A token keeps it sound. -/
theorem sound_streamToken {s : TokenStream} (hs : s.Sound) (type : JSONTokenType)
    (token : List Byte) : (streamToken s type token).Sound := by
  have hbrace : s.parser.braceCount + braces ⟨type, token⟩ =
      braceSum (s.parser.tokens ++ [⟨type, token⟩]) := by
    rw [braceSum_append, hs.brace, braceSum_cons]
    simp [braceSum]
  have hbracket : s.parser.bracketCount + brackets ⟨type, token⟩ =
      bracketSum (s.parser.tokens ++ [⟨type, token⟩]) := by
    rw [bracketSum_append, hs.bracket, bracketSum_cons]
    simp [bracketSum]
  unfold streamToken
  rw [countToken_eq]
  dsimp only
  split_ifs with hbalanced
  · refine ⟨hbalanced.1, hbalanced.2, ?_⟩
    intro ts hts
    rw [List.mem_append, List.mem_singleton] at hts
    rcases hts with hts | rfl
    · exact hs.emitted ts hts
    · exact ⟨by simp, by rw [← hbrace, hbalanced.1]; rfl, by rw [← hbracket, hbalanced.2]; rfl⟩
  · exact ⟨hbrace, hbracket, hs.emitted⟩

section

variable {σ : Type} {emit : σ → JSONTokenType → List Byte → σ} {P : σ → Prop}

theorem feedChar_keeps (hemit : ∀ s type token, P s → P (emit s type token)) (lexer : JSONLexer)
    {s : σ} (hs : P s) (ch : Byte) : P (jsonLexerFeedChar emit lexer s ch).state := by
  unfold jsonLexerFeedChar
  split
  · exact hemit _ _ _ hs
  · exact hs
  · exact hs
  · exact hs

theorem feed_keeps (hemit : ∀ s type token, P s → P (emit s type token)) (lexer : JSONLexer)
    {s : σ} (hs : P s) (buffer : List Byte) : P (jsonLexerFeed emit lexer s buffer).state := by
  induction buffer generalizing lexer s with
  | nil => exact hs
  | cons ch rest ih =>
    have hfed := feedChar_keeps hemit lexer hs ch
    rw [jsonLexerFeed]
    split_ifs
    · exact hfed
    · exact ih _ hfed

end

theorem FeedAction.sound {s : JSONLexer × TokenStream} (hs : s.2.Sound) (a : FeedAction) :
    (a.exec s).2.Sound := by
  have hemit : ∀ (s : TokenStream) type token, s.Sound → (streamToken s type token).Sound :=
    fun _ type token h => sound_streamToken h type token
  cases a with
  | feed buffer => exact feed_keeps hemit s.1 hs buffer
  | flush => exact feedChar_keeps hemit s.1 hs 0

theorem sound_run (as : List FeedAction) {s : JSONLexer × TokenStream} (hs : s.2.Sound) :
    (as.foldl FeedAction.exec s).2.Sound := by
  induction as generalizing s with
  | nil => exact hs
  | cons a as ih => exact ih (a.sound hs)

/-- **Whatever is fed**, the parser is done with all the tokens that are emitted: it has enough fuel
and looks at no token behind the last one. -/
theorem parse_emitted (libc : Libc) (ap : Option VaList) (as : List FeedAction)
    (ts : List JSONToken) (hts : ts ∈ emittedBy as) :
    ∃ r, jsonParserParseVa libc ap ts = .ok r := by
  have hsound := sound_run as (s := (jsonLexerInit, ⟨jsonMessageParserInit, []⟩)) sound_init
  obtain ⟨hne, hcloses⟩ := hsound.emitted ts hts
  exact parse_closes libc ap hcloses hne

/-- A C library for texts without numbers. -/
def noFloats : Libc := ⟨fun _ => 0, fun _ => []⟩

/-- Braces and brackets that are balanced and not nested. -/
theorem parse_emitted_crossed : ∃ r, jsonParserParseVa noFloats none
    (["[", "\x7b", "]", "\x7d"].map fun s => ⟨.operator, s.toList.map ascii⟩) = .ok r :=
  parse_emitted noFloats none [.feed ("[\x7b]\x7d".toList.map ascii), .flush] _ (by decide)

/-! ### Messages -/

section

variable {σ : Type} (emit : σ → JSONTokenType → List Byte → σ)

/-- One byte, as `json_lexer_feed_char` takes it. -/
def feedByte (s : JSONLexer × σ) (ch : Byte) : JSONLexer × σ :=
  let r := jsonLexerFeedChar emit s.1 s.2 ch
  (r.lexer, r.state)

/-- An error stays, so the rest of a buffer, which is not fed then, does not matter. -/
theorem feed_eq_foldl (lexer : JSONLexer) (s : σ) (buffer : List Byte) :
    let r := jsonLexerFeed emit lexer s buffer
    (r.lexer, r.state) = buffer.foldl (feedByte emit) (lexer, s) := by
  induction buffer generalizing lexer s with
  | nil => rfl
  | cons ch rest ih =>
    simp only [jsonLexerFeed, List.foldl_cons]
    split_ifs with hfailed
    · have hfed : feedByte emit (lexer, s) ch = (⟨.error, lexer.token⟩, s) := by
        unfold feedByte
        unfold jsonLexerFeedChar at hfailed ⊢
        split at hfailed <;> simp_all
      rw [hfed, List.foldl_fixed' fun _ => rfl, ← hfed]
      rfl
    · exact ih _ _

end

/-- What a flush feeds is the end of a string. -/
def FeedAction.bytes : FeedAction → List Byte
  | .feed buffer => buffer
  | .flush => [0]

theorem run_eq_foldl (as : List FeedAction) (s : JSONLexer × TokenStream) :
    as.foldl FeedAction.exec s = (as.flatMap FeedAction.bytes).foldl (feedByte streamToken) s := by
  rw [List.foldl_flatMap]
  congr 1
  funext s a
  cases a with
  | feed buffer => exact feed_eq_foldl streamToken s.1 s.2 buffer
  | flush => rfl

/-- A receiver that only collects the tokens. -/
def addToken (ts : List JSONToken) (type : JSONTokenType) (token : List Byte) : List JSONToken :=
  ts ++ [⟨type, token⟩]

/-- The messages and what waits are all of the tokens, and no message could end sooner. -/
structure TokenStream.Divides (s : TokenStream) (ts : List JSONToken) : Prop extends s.Sound where
  all : s.emitted.flatten ++ s.parser.tokens = ts
  first : ∀ m ∈ s.emitted, ∀ p, p <+: m → p ≠ [] → Closes 0 0 p → p = m
  waits : ∀ p, p <+: s.parser.tokens → p ≠ [] → ¬Closes 0 0 p

/-- The streamer divides what the collector collects. -/
theorem divides_streamToken {s : TokenStream} {ts : List JSONToken} (h : s.Divides ts)
    (type : JSONTokenType) (token : List Byte) :
    (streamToken s type token).Divides (addToken ts type token) := by
  have hsound := sound_streamToken h.toSound type token
  obtain rfl := h.all
  unfold streamToken addToken at *
  rw [countToken_eq] at hsound ⊢
  dsimp only at hsound ⊢
  split_ifs at hsound ⊢ with hbalanced
  · refine ⟨hsound, by simp, fun m hm p hp hne hcloses => ?_, fun p hp hne => ?_⟩
    · rcases List.mem_append.mp hm with hm | hm
      · exact h.first m hm p hp hne hcloses
      · obtain rfl := List.mem_singleton.mp hm
        exact (List.prefix_concat_iff.mp hp).resolve_right fun hp => h.waits p hp hne hcloses
    · exact absurd (List.prefix_nil.mp hp) hne
  · refine ⟨hsound, by simp, h.first, fun p hp hne hcloses => ?_⟩
    rcases List.prefix_concat_iff.mp hp with rfl | hp
    · exact hbalanced ⟨hsound.brace.trans hcloses.brace, hsound.bracket.trans hcloses.bracket⟩
    · exact h.waits p hp hne hcloses

theorem divides_feedByte {lexer : JSONLexer} {s : TokenStream} {ts : List JSONToken}
    (h : s.Divides ts) (ch : Byte) :
    (feedByte streamToken (lexer, s) ch).1 = (feedByte addToken (lexer, ts) ch).1 ∧
      (feedByte streamToken (lexer, s) ch).2.Divides (feedByte addToken (lexer, ts) ch).2 := by
  unfold feedByte jsonLexerFeedChar
  dsimp only
  split
  · exact ⟨rfl, divides_streamToken h _ _⟩
  all_goals exact ⟨rfl, h⟩

/-- **However the bytes arrive**, the messages divide the tokens in them, and each message ends at
the first token that balances it. -/
theorem run_divides (as : List FeedAction) :
    (as.foldl FeedAction.exec (jsonLexerInit, ⟨jsonMessageParserInit, []⟩)).2.Divides
      (jsonLexerFeed addToken jsonLexerInit [] (as.flatMap FeedAction.bytes)).state := by
  have htokens := congrArg Prod.snd
    (feed_eq_foldl addToken jsonLexerInit [] (as.flatMap FeedAction.bytes))
  dsimp only at htokens
  rw [run_eq_foldl, htokens]
  refine (List.foldl_rel
    (r := fun (s : _ × TokenStream) (t : JSONLexer × _) => s.1 = t.1 ∧ s.2.Divides t.2)
    ⟨rfl, sound_init, rfl, by simp, fun p hp hne => ?_⟩ fun ch _ s t h => ?_).2
  · exact absurd (List.prefix_nil.mp hp) hne
  · obtain ⟨_, s⟩ := s
    obtain ⟨rfl, h⟩ := h
    exact divides_feedByte h ch

end Qemu.Json
