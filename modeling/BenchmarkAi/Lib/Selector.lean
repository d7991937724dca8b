import Mathlib.Data.List.Basic
/-!
# Label selectors

The selector language of the Kubernetes API: requirements on a label map,
separated by commas. `lex` and `parse` follow `labels.Parse`, with its
validation of keys and values; `selects` is what a request with that selector
is answered with.

The second half is about selectors that are written as a list of equalities
`k=v,k=v,...` from texts nobody has validated: such a text may hold commas and
operators of its own.
-/

open List

namespace Lib.Selector

/-! ## Tokens -/

inductive Token
  | ident (s : String)
  | eq | eqeq | neq | bang | lpar | rpar | comma | gt | lt
deriving DecidableEq, Repr

def special : Char → Option Token
  | '=' => some .eq
  | '!' => some .bang
  | '(' => some .lpar
  | ')' => some .rpar
  | ',' => some .comma
  | '>' => some .gt
  | '<' => some .lt
  | _ => none

def isSpace (c : Char) : Bool := c == ' ' || c == '\t' || c == '\r' || c == '\n'

def flush : List Char → List Token
  | [] => []
  | b => [.ident (String.ofList b)]

def lexFrom (b : List Char) : List Char → List Token
  | [] => flush b
  | '=' :: '=' :: cs => flush b ++ .eqeq :: lexFrom [] cs
  | '!' :: '=' :: cs => flush b ++ .neq :: lexFrom [] cs
  | c :: cs =>
    match special c with
    | some t => flush b ++ t :: lexFrom [] cs
    | none => if isSpace c then flush b ++ lexFrom [] cs else lexFrom (b ++ [c]) cs

def lex (s : List Char) : List Token := lexFrom [] s

/-! ## Validation -/

def nameChar (c : Char) : Bool := c.isAlphanum || c == '-' || c == '_' || c == '.'

def nameOk (s : List Char) : Bool :=
  s.length ≤ 63 && s.all nameChar && s.head?.any (·.isAlphanum) && s.getLast?.any (·.isAlphanum)

def valueOk (s : String) : Bool := s == "" || nameOk s.toList

def lowerAlnum (c : Char) : Bool := c.isLower || c.isDigit

def dnsLabelOk (s : List Char) : Bool :=
  s.all (fun c => lowerAlnum c || c == '-') && s.head?.any lowerAlnum && s.getLast?.any lowerAlnum

def keyOk (s : String) : Bool :=
  match s.toList.splitOn '/' with
  | [name] => nameOk name
  | [dns, name] => dns.length ≤ 253 && (dns.splitOn '.').all dnsLabelOk && nameOk name
  | _ => false

def parseInt (s : String) : Option Int :=
  let (sign, digits) : Int × List Char :=
    match s.toList with
    | '-' :: cs => (-1, cs)
    | '+' :: cs => (1, cs)
    | cs => (1, cs)
  if digits ≠ [] ∧ digits.all (·.isDigit) then
    let n := sign * (Nat.ofDigitChars 10 digits 0 : Int)
    if -9223372036854775808 ≤ n ∧ n ≤ 9223372036854775807 then some n else none
  else none

/-! ## Requirements -/

/-- `=`, `==` and `in` are `isIn`; `!=` and `notin` are `notIn`. -/
inductive Requirement
  | isIn (key : String) (values : List String)
  | notIn (key : String) (values : List String)
  | present (key : String)
  | absent (key : String)
  | greater (key : String) (bound : Int)
  | less (key : String) (bound : Int)
deriving DecidableEq, Repr

abbrev Labels := String → Option String

def Requirement.holds (ls : Labels) : Requirement → Bool
  | .isIn k vs => (ls k).any (vs.contains ·)
  | .notIn k vs => (ls k).all (fun v => !vs.contains v)
  | .present k => (ls k).isSome
  | .absent k => (ls k).isNone
  | .greater k n => ((ls k).bind parseInt).any (n < ·)
  | .less k n => ((ls k).bind parseInt).any (· < n)

/-! ## Parsing -/

def parseExactValue : List Token → Option (List String × List Token)
  | [] => some ([""], [])
  | .comma :: ts => some ([""], .comma :: ts)
  | .ident v :: ts => some ([v], ts)
  | _ => none

inductive ListPos
  | top | afterIdent | afterComma

/-- The values between the parentheses of `in`, through the closing one. A comma
without a value beside it stands for the empty value. -/
def parseIdentifiersList (s : List String) : ListPos → List Token → Option (List String × List Token)
  | .top, .ident v :: ts => parseIdentifiersList (s ++ [v]) .afterIdent ts
  | .top, .comma :: ts => parseIdentifiersList (if s = [] then [""] else s) .afterComma ts
  | .afterIdent, .comma :: ts => parseIdentifiersList s .afterComma ts
  | .afterIdent, .rpar :: ts => some (s, ts)
  | .afterComma, .ident v :: ts => parseIdentifiersList (s ++ [v]) .afterIdent ts
  | .afterComma, .comma :: ts => parseIdentifiersList (s ++ [""]) .top ts
  | .afterComma, .rpar :: ts => some (s ++ [""], ts)
  | _, _ => none

/-- An empty `()` is refused, for want of a value. -/
def parseValues : List Token → Option (List String × List Token)
  | .lpar :: ts => parseIdentifiersList [] .top ts
  | _ => none

def onValues (read : Option (List String × List Token)) (r : List String → Option Requirement) :
    Option (Requirement × List Token) :=
  match read with
  | some (vs, rest) => if vs.all valueOk then (r vs).map (·, rest) else none
  | none => none

def bound : List String → Option Int
  | [v] => parseInt v
  | _ => none

def parseOperator (k : String) : List Token → Option (Requirement × List Token)
  | [] => some (.present k, [])
  | .comma :: ts => some (.present k, .comma :: ts)
  | .eq :: ts | .eqeq :: ts => onValues (parseExactValue ts) fun vs => some (.isIn k vs)
  | .neq :: ts => onValues (parseExactValue ts) fun vs => some (.notIn k vs)
  | .gt :: ts => onValues (parseExactValue ts) fun vs => (bound vs).map (.greater k)
  | .lt :: ts => onValues (parseExactValue ts) fun vs => (bound vs).map (.less k)
  | .ident o :: ts =>
    if o = "in" then onValues (parseValues ts) fun vs => some (.isIn k vs)
    else if o = "notin" then onValues (parseValues ts) fun vs => some (.notIn k vs)
    else none
  | _ => none

def parseRequirement : List Token → Option (Requirement × List Token)
  | .ident k :: ts => if keyOk k then parseOperator k ts else none
  | .bang :: .ident k :: ts => if keyOk k then some (.absent k, ts) else none
  | _ => none

def startsRequirement : List Token → Bool
  | .ident _ :: _ | .bang :: _ => true
  | _ => false

def parseFrom : Nat → List Token → Option (List Requirement)
  | 0, _ => none
  | n + 1, ts =>
    match parseRequirement ts with
    | some (r, []) => some [r]
    | some (r, .comma :: rest) => if startsRequirement rest then (parseFrom n rest).map (r :: ·) else none
    | _ => none

def parseTokens (ts : List Token) : Option (List Requirement) :=
  if ts = [] then some [] else parseFrom ts.length ts

def parse (s : String) : Option (List Requirement) := parseTokens (lex s.toList)

/-- A text that does not parse selects nothing: the request is refused. -/
def selects (s : String) (ls : Labels) : Bool :=
  match parse s with
  | some rs => rs.all (·.holds ls)
  | none => false

/-! ## Reading what was written -/

def isWord (c : Char) : Bool := (special c).isNone && !isSpace c

variable {c : Char} {r : Requirement} {rest ts : List Token} {vs : List String} {k v : String} {ls : Labels}
  {kvs : List (String × String)}

theorem lexFrom_word_cons {b cs} (hc : isWord c = true) : lexFrom b (c :: cs) = lexFrom (b ++ [c]) cs := by
  simp only [isWord, Bool.and_eq_true, Option.isNone_iff_eq_none, Bool.not_eq_true'] at hc
  rw [lexFrom.eq_4]
  · simp [hc.1, hc.2]
  · rintro _ rfl -
    cases hc.1
  · rintro _ rfl -
    cases hc.1

theorem lexFrom_word {b w cs : List Char} (hw : w.all isWord = true) : lexFrom b (w ++ cs) = lexFrom (b ++ w) cs := by
  induction w generalizing b with
  | nil => simp
  | cons c w ih =>
    rw [all_cons, Bool.and_eq_true] at hw
    rw [cons_append, lexFrom_word_cons hw.1, ih hw.2, append_assoc, singleton_append]

/-- A comma after the text makes no operator of two characters. -/
theorem not_pair_append {o cs t} (h : ∀ ds, c = o → cs = '=' :: ds → False) :
    ∀ ds, c = o → cs ++ ',' :: t = '=' :: ds → False := by
  intro ds hc he
  cases cs with
  | nil => cases he
  | cons d cs =>
    rw [cons_append, cons.injEq] at he
    exact h cs hc (by rw [he.1])

/-- A comma is a token of its own, whatever stands before it. -/
theorem lexFrom_append_comma (b u t : List Char) :
    lexFrom b (u ++ ',' :: t) = lexFrom b u ++ .comma :: lexFrom [] t := by
  fun_induction lexFrom b u with
  | case1 b => rfl
  | case2 b cs ih => simp [lexFrom, ih]
  | case3 b cs ih => simp [lexFrom, ih]
  | case4 b c cs h1 h2 tok ht ih =>
    rw [cons_append, lexFrom.eq_4 _ _ _ (not_pair_append h1) (not_pair_append h2)]
    simp [ht, ih]
  | case5 b c cs h1 h2 ht hs ih =>
    rw [cons_append, lexFrom.eq_4 _ _ _ (not_pair_append h1) (not_pair_append h2)]
    simp [ht, hs, ih]
  | case6 b c cs h1 h2 ht hs ih =>
    rw [cons_append, lexFrom.eq_4 _ _ _ (not_pair_append h1) (not_pair_append h2)]
    simp [ht, hs, ih]

/-- What is left of a value that is written after `=`: its own `=` makes the operator `==`. -/
def dropEq : List Char → List Char
  | '=' :: v => v
  | v => v

def eqToken : List Char → Token
  | '=' :: _ => .eqeq
  | _ => .eq

theorem lexFrom_eq (b v : List Char) : lexFrom b ('=' :: v) = flush b ++ eqToken v :: lex (dropEq v) := by
  unfold eqToken dropEq
  split
  · rfl
  · rename_i h
    rw [lexFrom.eq_4]
    · rfl
    · rintro ds - rfl
      exact h ds rfl
    · rintro ds hc
      cases hc

theorem eqToken_append_comma (v t : List Char) : eqToken (v ++ ',' :: t) = eqToken v := by
  cases v with
  | nil => rfl
  | cons c v => unfold eqToken; split <;> simp_all

theorem dropEq_append_comma (v t : List Char) : dropEq (v ++ ',' :: t) = dropEq v ++ ',' :: t := by
  cases v with
  | nil => rfl
  | cons c v => unfold dropEq; split <;> simp_all

/-! ## Every requirement takes a token -/

theorem onValues_some {read f}
    (h : onValues read f = some (r, rest)) : ∃ vs, read = some (vs, rest) ∧ vs.all valueOk = true ∧ f vs = some r := by
  unfold onValues at h
  split at h
  · rename_i vs rest' 
    split at h
    · simp only [Option.map_eq_some_iff, Prod.mk.injEq] at h
      obtain ⟨_, hf, rfl, rfl⟩ := h
      exact ⟨vs, rfl, ‹_›, hf⟩
    · cases h
  · cases h

theorem parseExactValue_length (h : parseExactValue ts = some (vs, rest)) : rest.length ≤ ts.length := by
  unfold parseExactValue at h
  split at h <;> simp at h <;> simp [← h.2]

theorem parseIdentifiersList_length {s p} (h : parseIdentifiersList s p ts = some (vs, rest)) :
    rest.length ≤ ts.length := by
  fun_induction parseIdentifiersList s p ts with
  | case8 => cases h
  | case4 => simp at h; simp [← h.2]
  | case7 => simp at h; simp [← h.2]
  | _ => rename_i ih; exact Nat.le_succ_of_le (ih h)

theorem parseValues_length (h : parseValues ts = some (vs, rest)) : rest.length ≤ ts.length := by
  unfold parseValues at h
  split at h
  · exact Nat.le_succ_of_le (parseIdentifiersList_length h)
  · cases h

theorem parseOperator_length (h : parseOperator k ts = some (r, rest)) : rest.length ≤ ts.length := by
  have one {ts : List Token} {f : List String → Option Requirement}
      (h : onValues (parseExactValue ts) f = some (r, rest)) : rest.length ≤ ts.length + 1 := by
    obtain ⟨vs, hv, -⟩ := onValues_some h
    exact Nat.le_succ_of_le (parseExactValue_length hv)
  have many {ts : List Token} {f : List String → Option Requirement}
      (h : onValues (parseValues ts) f = some (r, rest)) : rest.length ≤ ts.length + 1 := by
    obtain ⟨vs, hv, -⟩ := onValues_some h
    exact Nat.le_succ_of_le (parseValues_length hv)
  unfold parseOperator at h
  split at h
  · simp at h; simp [← h.2]
  · simp at h; simp [← h.2]
  · exact one h
  · exact one h
  · exact one h
  · exact one h
  · exact one h
  · split at h
    · exact many h
    · split at h
      · exact many h
      · cases h
  · cases h

theorem parseRequirement_length (h : parseRequirement ts = some (r, rest)) : rest.length < ts.length := by
  unfold parseRequirement at h
  split at h
  · split at h
    · exact Nat.lt_succ_of_le (parseOperator_length h)
    · cases h
  · split at h
    · cases h
      exact Nat.lt_succ_of_lt (Nat.lt_succ_self _)
    · cases h
  · cases h

/-- As many rounds as there are tokens are enough. -/
theorem parseFrom_fuel {n m} (hn : ts.length ≤ n) (hm : ts.length ≤ m) : parseFrom n ts = parseFrom m ts := by
  induction n generalizing m ts with
  | zero =>
    obtain rfl := length_eq_zero_iff.1 (Nat.le_zero.1 hn)
    cases m <;> rfl
  | succ n ih =>
    cases m with
    | zero =>
      obtain rfl := length_eq_zero_iff.1 (Nat.le_zero.1 hm)
      rfl
    | succ m =>
      unfold parseFrom
      split
      · rfl
      · rename_i r rest hr
        have := parseRequirement_length hr
        rw [length_cons] at this
        rw [ih (m := m) (by omega) (by omega)]
      · rfl

theorem parseTokens_one (h : parseRequirement ts = some (r, [])) : parseTokens ts = some [r] := by
  cases ts with
  | nil => cases h
  | cons t ts => simp [parseTokens, parseFrom, h]

theorem parseTokens_cons (h : parseRequirement ts = some (r, .comma :: rest)) (hs : startsRequirement rest = true) :
    parseTokens ts = (parseTokens rest).map (r :: ·) := by
  have hlt := parseRequirement_length h
  cases ts with
  | nil => cases h
  | cons t ts =>
    simp only [parseTokens, cons_ne_nil, if_false, length_cons, parseFrom, h, hs, if_true]
    simp only [length_cons] at hlt
    rw [parseFrom_fuel (Nat.le_of_lt_succ (by omega)) (Nat.le_refl _), if_neg]
    rintro rfl
    cases hs

/-- The first requirement of a text that parses. -/
theorem parseTokens_head {rs} (hne : ts ≠ []) (h : parseTokens ts = some rs) :
    ∃ r rest, parseRequirement ts = some (r, rest) ∧ r ∈ rs := by
  cases ts with
  | nil => exact absurd rfl hne
  | cons t ts =>
    simp only [parseTokens, cons_ne_nil, if_false, length_cons, parseFrom] at h
    split at h
    · rename_i r hr
      cases h
      exact ⟨r, [], hr, by simp⟩
    · rename_i r rest hr
      split at h
      · simp only [Option.map_eq_some_iff] at h
        obtain ⟨rs', -, rfl⟩ := h
        exact ⟨r, _, hr, by simp⟩
      · cases h
    · cases h

/-! ## Equalities

A selector that is written from keys and values. The keys are the writer's own
and are valid; a value may be any text, and what it is read as is `exactValue`.
-/

def equalities (kvs : List (String × String)) : String :=
  ",".intercalate (kvs.map fun kv => kv.1 ++ "=" ++ kv.2)

def isKey (k : String) : Bool := k != "" && keyOk k && k.toList.all isWord

/-- The value that a text written after `=` is read as; the rest of the text, if
there is any, is read as something else. -/
def exactValue (v : String) : Option String := (parseExactValue (lex (dropEq v.toList))).bind (·.1.head?)

theorem toList_equalities_one (k v : String) : (equalities [(k, v)]).toList = k.toList ++ '=' :: v.toList := by
  simp [equalities]

theorem toList_equalities_cons (k v : String) (kv : String × String) (kvs : List (String × String)) :
    (equalities ((k, v) :: kv :: kvs)).toList =
      k.toList ++ '=' :: (v.toList ++ ',' :: (equalities (kv :: kvs)).toList) := by
  simp [equalities, intercalate]

theorem flush_toList (hk : k ≠ "") : flush k.toList = [.ident k] := by
  unfold flush
  split
  · rename_i h
    exact absurd (String.toList_eq_nil_iff.1 h) hk
  · simp

theorem lex_equality (hk : isKey k = true) (v : List Char) :
    lex (k.toList ++ '=' :: v) = .ident k :: eqToken v :: lex (dropEq v) := by
  simp only [isKey, Bool.and_eq_true, bne_iff_ne] at hk
  rw [lex, lexFrom_word hk.2, nil_append, lexFrom_eq, flush_toList hk.1.1]
  rfl

theorem parseRequirement_equality (hk : isKey k = true) (v : List Char) (ts : List Token) :
    parseRequirement (.ident k :: eqToken v :: ts) = onValues (parseExactValue ts) fun vs => some (.isIn k vs) := by
  simp only [isKey, Bool.and_eq_true] at hk
  have hop : parseOperator k (eqToken v :: ts) = onValues (parseExactValue ts) fun vs => some (.isIn k vs) := by
    unfold eqToken
    split <;> rfl
  rw [parseRequirement, if_pos hk.1.2, hop]

theorem startsRequirement_equalities {kv : String × String} (kvs : List (String × String))
    (hk : isKey kv.1 = true) : startsRequirement (lex (equalities (kv :: kvs)).toList) = true := by
  cases kvs with
  | nil => rw [toList_equalities_one, lex_equality hk]; rfl
  | cons kv' kvs => rw [toList_equalities_cons, lex_equality hk]; rfl

theorem lex_equalities (v : String) (kvs : List (String × String)) (hk : isKey k = true) :
    lex (equalities ((k, v) :: kvs)).toList = .ident k :: eqToken v.toList :: (lex (dropEq v.toList) ++ match kvs with
      | [] => []
      | kv :: kvs => .comma :: lex (equalities (kv :: kvs)).toList) := by
  cases kvs with
  | nil => rw [toList_equalities_one, lex_equality hk, append_nil]
  | cons kv kvs =>
    rw [toList_equalities_cons, lex_equality hk, eqToken_append_comma, dropEq_append_comma, lex, lexFrom_append_comma]
    rfl

theorem selects_iff {s} : selects s ls = true ↔ ∃ rs, parse s = some rs ∧ ∀ r ∈ rs, r.holds ls = true := by
  unfold selects
  split
  · rename_i rs hp
    simp [hp]
  · rename_i hp
    simp [hp]

theorem holds_isIn {x} : (Requirement.isIn k [x]).holds ls = true ↔ ls k = some x := by
  simp [Requirement.holds, Option.any_eq_true]

theorem parseExactValue_some (h : parseExactValue ts = some (vs, rest)) : ∃ v, vs = [v] := by
  unfold parseExactValue at h
  split at h <;> simp at h <;> exact ⟨_, h.1.symm⟩

/-- A label map that is selected has, at the first key, what the first value is read as. -/
theorem head_of_selects (hk : isKey k = true) (h : selects (equalities ((k, v) :: kvs)) ls = true) :
    ∃ x, exactValue v = some x ∧ valueOk x = true ∧ ls k = some x := by
  obtain ⟨rs, hp, hrs⟩ := selects_iff.1 h
  rw [parse, lex_equalities v kvs hk] at hp
  obtain ⟨r, rest, hr, hmem⟩ := parseTokens_head (cons_ne_nil _ _) hp
  rw [parseRequirement_equality hk] at hr
  obtain ⟨vs, hvs, hok, hf⟩ := onValues_some hr
  obtain ⟨x, rfl⟩ := parseExactValue_some hvs
  cases hf
  have hval : exactValue v = some x := by
    -- the value ends before the comma of the next equality
    unfold exactValue
    cases hl : lex (dropEq v.toList) with
    | nil => rw [hl] at hvs; cases kvs <;> simp [parseExactValue] at hvs ⊢ <;> exact hvs.1
    | cons t ts => rw [hl] at hvs; cases t <;> simp [parseExactValue] at hvs ⊢ <;> exact hvs.1
  exact ⟨x, hval, by simpa using hok, holds_isIn.1 (hrs _ hmem)⟩

theorem isWord_of_nameChar (h : nameChar c = true) : isWord c = true := by
  by_contra hw
  have hc : c ∈ ['=', '!', '(', ')', ',', '>', '<', ' ', '\t', '\r', '\n'] := by
    unfold isWord special isSpace at hw
    split at hw <;> simp_all
    tauto
  have hno : (['=', '!', '(', ')', ',', '>', '<', ' ', '\t', '\r', '\n'].all fun c => !nameChar c) = true := by decide
  have hc' := all_eq_true.1 hno c hc
  rw [h] at hc'
  cases hc'

theorem lex_value (hv : valueOk v = true) : lex (dropEq v.toList) = flush v.toList := by
  rw [valueOk, Bool.or_eq_true] at hv
  rcases hv with hv | hv
  · rw [beq_iff_eq.1 hv]
    rfl
  · have hw : v.toList.all isWord = true := by
      simp only [nameOk, Bool.and_eq_true] at hv
      exact all_eq_true.2 fun c hc => isWord_of_nameChar (all_eq_true.1 hv.1.1.2 c hc)
    have hd : dropEq v.toList = v.toList := by
      unfold dropEq
      split
      · rename_i cs he
        rw [he] at hw
        cases hw
      · rfl
    have := @lexFrom_word [] v.toList [] hw
    rw [append_nil, nil_append, lexFrom] at this
    rw [hd, lex, this]

theorem parseExactValue_flush (v : String) {ts : List Token} (hts : ts = [] ∨ ts.head? = some .comma) :
    parseExactValue (flush v.toList ++ ts) = some ([v], ts) := by
  by_cases hv : v = ""
  · subst hv
    cases ts with
    | nil => rfl
    | cons t ts =>
      obtain rfl : t = .comma := by simpa using hts
      rfl
  · rw [flush_toList hv]
    rfl

theorem exactValue_of_valueOk (hv : valueOk v = true) : exactValue v = some v := by
  have hr := @parseExactValue_flush v [] (.inl rfl)
  rw [append_nil, ← lex_value hv] at hr
  rw [exactValue, hr]
  rfl

theorem selects_cons (hk : isKey k = true) (hv : valueOk v = true) (hkvs : ∀ kv ∈ kvs, isKey kv.1 = true) :
    selects (equalities ((k, v) :: kvs)) ls = true ↔
      ls k = some v ∧ (kvs = [] ∨ selects (equalities kvs) ls = true) := by
  have hr (ts : List Token) (hts : ts = [] ∨ ts.head? = some .comma) :
      parseRequirement (.ident k :: eqToken v.toList :: (lex (dropEq v.toList) ++ ts)) = some (.isIn k [v], ts) := by
    rw [parseRequirement_equality hk, lex_value hv, parseExactValue_flush v hts]
    simp [onValues, hv]
  cases kvs with
  | nil =>
    have hp : parse (equalities [(k, v)]) = some [.isIn k [v]] := by
      rw [parse, lex_equalities v [] hk]
      exact parseTokens_one (hr [] (.inl rfl))
    simp [selects, hp, holds_isIn]
  | cons kv kvs =>
    have hp : parse (equalities ((k, v) :: kv :: kvs)) = (parse (equalities (kv :: kvs))).map (.isIn k [v] :: ·) := by
      rw [parse, lex_equalities v (kv :: kvs) hk]
      exact parseTokens_cons (hr _ (.inr rfl)) (startsRequirement_equalities kvs (hkvs kv mem_cons_self))
    simp only [selects, hp]
    cases parse (equalities (kv :: kvs)) with
    | none => simp
    | some rs => simp [holds_isIn]

/-- A list of equalities with valid values selects the label maps that have them all. -/
theorem selects_equalities {kvs ls} (hne : kvs ≠ [])
    (hk : ∀ kv ∈ kvs, isKey kv.1 = true) (hv : ∀ kv ∈ kvs, valueOk kv.2 = true) :
    selects (equalities kvs) ls = true ↔ ∀ kv ∈ kvs, ls kv.1 = some kv.2 := by
  induction kvs with
  | nil => exact absurd rfl hne
  | cons kv kvs ih =>
    rw [forall_mem_cons] at hk hv
    rw [selects_cons hk.1 hv.1 hk.2, forall_mem_cons]
    cases kvs with
    | nil => simp
    | cons kv' kvs => rw [← ih (cons_ne_nil _ _) hk.2 hv.2]; simp

/-- Conversely, a label map that has the values and is selected has only valid values. -/
theorem valueOk_of_selects (hk : ∀ kv ∈ kvs, isKey kv.1 = true) (hls : ∀ kv ∈ kvs, ls kv.1 = some kv.2)
    (h : selects (equalities kvs) ls = true) : ∀ kv ∈ kvs, valueOk kv.2 = true := by
  induction kvs with
  | nil => simp
  | cons kv kvs ih =>
    rw [forall_mem_cons] at hk hls ⊢
    obtain ⟨x, -, hx, hlx⟩ := head_of_selects hk.1 h
    obtain rfl := Option.some.inj (hls.1.symm.trans hlx)
    refine ⟨hx, ?_⟩
    rcases ((selects_cons hk.1 hx hk.2).1 h).2 with rfl | hr
    · simp
    · exact ih hk.2 hls.2 hr

/-! ## Label maps of the API -/

structure LabelMap where
  entries : List (String × String)
  valid : ∀ kv ∈ entries, keyOk kv.1 = true ∧ valueOk kv.2 = true

def LabelMap.get (m : LabelMap) : Labels := fun k => m.entries.lookup k

theorem LabelMap.valueOk_get {m : LabelMap} (h : m.get k = some v) : valueOk v = true := by
  obtain ⟨l₁, l₂, hl, -⟩ := lookup_eq_some_iff.1 h
  exact (m.valid (k, v) (by rw [hl]; simp)).2

def SelectsNone (s : String) : Prop := ∀ m : LabelMap, selects s m.get = false

/-- Equalities select the label maps that have the values, exactly if these are valid, or
nothing is selected at all. -/
theorem selects_exact_iff {kvs} (hne : kvs ≠ []) (hk : ∀ kv ∈ kvs, isKey kv.1 = true) :
    (∀ m : LabelMap, selects (equalities kvs) m.get = true ↔ ∀ kv ∈ kvs, m.get kv.1 = some kv.2) ↔
      (∀ kv ∈ kvs, valueOk kv.2 = true) ∨ SelectsNone (equalities kvs) := by
  constructor
  · intro h
    by_cases hv : ∀ kv ∈ kvs, valueOk kv.2 = true
    · exact .inl hv
    · refine .inr fun m => ?_
      rw [Bool.eq_false_iff]
      intro hs
      exact hv fun kv hkv => LabelMap.valueOk_get ((h m).1 hs kv hkv)
  · rintro (hv | hn) m
    · exact selects_equalities hne hk hv
    · constructor
      · intro hs
        rw [hn m] at hs
        cases hs
      · intro hall
        -- the values of a label map are valid, so the selector would be read as written
        have hs := (selects_equalities hne hk fun kv hkv => LabelMap.valueOk_get (hall kv hkv)).2 hall
        rw [hn m] at hs
        cases hs

end Lib.Selector
