import BenchmarkAi.Lib.Tree
/-!
# JSON texts

Strings, lists and objects as JSON: the texts that Python's `json.dumps` writes for them,
in ASCII, and how `json.loads` reads a text. Texts with numbers, `true`, `false` and `null`
are not read here, nor are halves of a surrogate pair.
-/

open List

namespace Lib

inductive Json
  | str (s : String)
  | arr (items : List Json)
  | obj (fields : List (String × Json))

variable {c : Char}

namespace Json

/-! ## Characters -/

def hexDigit (n : Nat) : Char := "0123456789abcdef".toList[n]?.getD '0'

def hexValue (c : Char) : Option Nat :=
  ("0123456789abcdef".toList.idxOf? c).or ("0123456789ABCDEF".toList.idxOf? c)

def hex4 (n : Nat) : List Char :=
  [hexDigit (n / 4096), hexDigit (n / 256 % 16), hexDigit (n / 16 % 16), hexDigit (n % 16)]

def unhex4 (a b c d : Char) : Option Nat := do
  return (((← hexValue a) * 16 + (← hexValue b)) * 16 + (← hexValue c)) * 16 + (← hexValue d)

def units (c : Char) : List Nat :=
  if c.toNat < 0x10000 then [c.toNat]
  else [0xd800 + (c.toNat - 0x10000) / 0x400, 0xdc00 + (c.toNat - 0x10000) % 0x400]

def isHigh (n : Nat) : Bool := 0xd800 ≤ n && n < 0xdc00
def isLow (n : Nat) : Bool := 0xdc00 ≤ n && n < 0xe000

def ofUnits : List Nat → Option (List Char)
  | [] => some []
  | hi :: lo :: ns =>
    if isHigh hi && isLow lo then
      (ofUnits ns).map (Char.ofNat (0x10000 + (hi - 0xd800) * 0x400 + (lo - 0xdc00)) :: ·)
    else if isHigh hi || isLow hi then none
    else (ofUnits (lo :: ns)).map (Char.ofNat hi :: ·)
  | [n] => if isHigh n || isLow n then none else some [Char.ofNat n]

def shortEscapes : List (Char × Char) :=
  [('"', '"'), ('\\', '\\'), ('\n', 'n'), ('\r', 'r'), ('\t', 't'), ('\x0c', 'f'), ('\x08', 'b')]

def escape (c : Char) : List Char :=
  match shortEscapes.lookup c with
  | some e => ['\\', e]
  | none =>
    if ' ' ≤ c ∧ c ≤ '~' then [c]
    else (units c).flatMap fun n => '\\' :: 'u' :: hex4 n

def unescape (e : Char) : Option Char :=
  if e = '/' then some '/' else (shortEscapes.find? (·.2 = e)).map (·.1)

def scan : List Char → Option (List Nat × List Char)
  | [] => none
  | '"' :: cs => some ([], cs)
  | '\\' :: 'u' :: a :: b :: c :: d :: cs => do
    let n ← unhex4 a b c d
    let (ns, rest) ← scan cs
    return (n :: ns, rest)
  | '\\' :: e :: cs => do
    let c ← unescape e
    let (ns, rest) ← scan cs
    return (c.toNat :: ns, rest)
  | c :: cs => do
    if c.toNat < 0x20 then none
    let (ns, rest) ← scan cs
    return (units c ++ ns, rest)

def scanString (cs : List Char) : Option (String × List Char) := do
  let (ns, rest) ← scan cs
  return (String.ofList (← ofUnits ns), rest)

/-! ## Reading characters back -/

theorem hexValue_hexDigit : ∀ n < 16, hexValue (hexDigit n) = some n := by decide

theorem unhex4_hex4 {n} (h : n < 0x10000) :
    unhex4 (hexDigit (n / 4096)) (hexDigit (n / 256 % 16)) (hexDigit (n / 16 % 16)) (hexDigit (n % 16)) = some n := by
  rw [unhex4, hexValue_hexDigit _ (by omega), hexValue_hexDigit _ (by omega), hexValue_hexDigit _ (by omega),
    hexValue_hexDigit _ (by omega)]
  refine congrArg some ?_
  omega

theorem toNat_lt (c : Char) : c.toNat < 0x110000 := by
  rcases c.valid with h | h
  · exact Nat.lt_trans h (by decide)
  · exact h.2

/-- A character is not a half of a pair. -/
theorem not_surrogate (c : Char) : isHigh c.toNat = false ∧ isLow c.toNat = false := by
  have hv : c.toNat < 0xd800 ∨ 0xdfff < c.toNat ∧ c.toNat < 0x110000 := c.valid
  simp only [isHigh, isLow, Bool.and_eq_false_iff, decide_eq_false_iff_not]
  omega

theorem units_lt {n} (h : n ∈ units c) : n < 0x10000 := by
  have hc := toNat_lt c
  unfold units at h
  split at h
  · rename_i hlt
    exact mem_singleton.1 h ▸ hlt
  · simp only [mem_cons, not_mem_nil, or_false] at h
    omega

theorem ofUnits_units (c : Char) (ns : List Nat) : ofUnits (units c ++ ns) = (ofUnits ns).map (c :: ·) := by
  obtain ⟨hh, hlow⟩ := not_surrogate c
  have hc := toNat_lt c
  unfold units
  split
  · cases ns with
    | nil => simp [ofUnits, hh, hlow]
    | cons n ns => simp [ofUnits, hh, hlow]
  · have hp : isHigh (0xd800 + (c.toNat - 0x10000) / 0x400) = true ∧ isLow (0xdc00 + (c.toNat - 0x10000) % 0x400) = true := by
      simp only [isHigh, isLow, Bool.and_eq_true, decide_eq_true_eq]
      omega
    have hsum : 0x10000 + (0xd800 + (c.toNat - 0x10000) / 0x400 - 0xd800) * 0x400 +
        (0xdc00 + (c.toNat - 0x10000) % 0x400 - 0xdc00) = c.toNat := by omega
    rw [cons_append, cons_append, nil_append, ofUnits, hp.1, hp.2, Bool.and_self, if_pos rfl, hsum, Char.ofNat_toNat]

/-! ## Reading strings back -/

theorem scan_u {n} (h : n < 0x10000) (cs : List Char) :
    scan ('\\' :: 'u' :: hex4 n ++ cs) = (scan cs).map fun r => (n :: r.1, r.2) := by
  rw [hex4, cons_append, cons_append, cons_append, cons_append, cons_append, cons_append,
    nil_append, scan, unhex4_hex4 h]
  cases scan cs <;> rfl

theorem scan_us {ns : List Nat} (h : ∀ n ∈ ns, n < 0x10000) (cs : List Char) :
    scan ((ns.flatMap fun n => '\\' :: 'u' :: hex4 n) ++ cs) = (scan cs).map fun r => (ns ++ r.1, r.2) := by
  induction ns with
  | nil => cases hs : scan cs <;> simp [hs]
  | cons n ns ih =>
    rw [forall_mem_cons] at h
    rw [flatMap_cons, append_assoc, scan_u h.1, ih h.2, Option.map_map]
    rfl

theorem unescape_shortEscapes : ∀ p ∈ shortEscapes, unescape p.2 = some p.1 ∧ p.2 ≠ 'u' ∧ p.1.toNat < 0x10000 := by decide

theorem scan_short {e} (h : (c, e) ∈ shortEscapes) (cs : List Char) :
    scan ('\\' :: e :: cs) = (scan cs).map fun r => (units c ++ r.1, r.2) := by
  obtain ⟨hb, hu, hlt⟩ := unescape_shortEscapes _ h
  rw [scan, hb, units, if_pos hlt]
  · cases scan cs <;> rfl
  · intro a b c d cs h
    exact absurd h hu

theorem scan_plain (hq : c ≠ '"') (hb : c ≠ '\\') (hs : ' ' ≤ c) (cs : List Char) :
    scan (c :: cs) = (scan cs).map fun r => (units c ++ r.1, r.2) := by
  have hge : ¬c.toNat < 0x20 := Nat.not_lt.2 hs
  rw [scan, if_neg hge]
  · cases scan cs <;> rfl
  · exact hq
  · intro a b c d cs h
    exact absurd h hb
  · intro e cs h
    exact absurd h hb

theorem scan_escape (c : Char) (cs : List Char) :
    scan (escape c ++ cs) = (scan cs).map fun r => (units c ++ r.1, r.2) := by
  unfold escape
  split
  · rename_i e he
    exact scan_short (mem_of_lookup he) cs
  · rename_i hno
    split
    · rename_i hp
      refine scan_plain (fun hq => ?_) (fun hb => ?_) hp.1 cs
      · subst hq
        cases hno
      · subst hb
        cases hno
    · exact scan_us (fun n hn => units_lt hn) cs

theorem scan_escapes (s rest : List Char) : scan (s.flatMap escape ++ '"' :: rest) = some (s.flatMap units, rest) := by
  induction s with
  | nil => rfl
  | cons c s ih => rw [flatMap_cons, append_assoc, scan_escape, ih, flatMap_cons, Option.map_some]

theorem ofUnits_flatMap (s : List Char) : ofUnits (s.flatMap units) = some s := by
  induction s with
  | nil => rfl
  | cons c s ih => rw [flatMap_cons, ofUnits_units, ih, Option.map_some]

theorem scanString_escapes (s : String) (rest : List Char) :
    scanString (s.toList.flatMap escape ++ '"' :: rest) = some (s, rest) := by
  simp [scanString, scan_escapes, ofUnits_flatMap]

/-! ## Texts -/

def quote (s : String) : List Char := '"' :: s.toList.flatMap escape ++ ['"']

mutual
def dump : Json → List Char
  | str s => quote s
  | arr ts => '[' :: dumpItems ts ++ [']']
  | obj fs => '\x7b' :: dumpFields fs ++ ['\x7d']

def dumpItems : List Json → List Char
  | [] => []
  | t :: ts => dump t ++ if ts.isEmpty then [] else ',' :: ' ' :: dumpItems ts

def dumpFields : List (String × Json) → List Char
  | [] => []
  | (k, t) :: fs => quote k ++ ':' :: ' ' :: dump t ++ if fs.isEmpty then [] else ',' :: ' ' :: dumpFields fs
end

def skip (cs : List Char) : List Char := cs.dropWhile (" \t\n\r".toList.contains ·)

mutual
def parseValue : Nat → List Char → Option (Json × List Char)
  | _ + 1, '"' :: cs => (scanString cs).map fun r => (str r.1, r.2)
  | n + 1, '[' :: cs =>
    match skip cs with
    | ']' :: cs => some (arr [], cs)
    | cs => (parseItems n cs).map fun r => (arr r.1, r.2)
  | n + 1, '\x7b' :: cs =>
    match skip cs with
    | '\x7d' :: cs => some (obj [], cs)
    | cs => (parseFields n [] cs).map fun r => (obj r.1, r.2)
  | _, _ => none

def parseItems : Nat → List Char → Option (List Json × List Char)
  | n + 1, cs => do
    let (t, cs) ← parseValue n cs
    match skip cs with
    | ']' :: cs => return ([t], cs)
    | ',' :: cs => (parseItems n (skip cs)).map fun r => (t :: r.1, r.2)
    | _ => none
  | 0, _ => none

/-- The fields of an object go into a dict: the last one with a key counts. -/
def parseFields : Nat → List (String × Json) → List Char → Option (List (String × Json) × List Char)
  | n + 1, fs, '"' :: cs => do
    let (k, cs) ← scanString cs
    match skip cs with
    | ':' :: cs =>
      let (t, cs) ← parseValue n (skip cs)
      match skip cs with
      | '\x7d' :: cs => return (assign k t fs, cs)
      | ',' :: cs => parseFields n (assign k t fs) (skip cs)
      | _ => none
    | _ => none
  | _, _, _ => none
end

/-- `json.loads`. A value inside another one has a text at least two characters shorter or stands in
a list, so that the calls go no deeper than this. -/
def loads (s : String) : Option Json := do
  let (t, rest) ← parseValue (2 * s.length + 2) (skip s.toList)
  if (skip rest).isEmpty then some t else none

def dumps (t : Json) : String := String.ofList t.dump

/-! ## Reading texts back -/

mutual
def Distinct : Json → Prop
  | str _ => True
  | arr ts => DistinctItems ts
  | obj fs => (fs.map Prod.fst).Nodup ∧ DistinctFields fs

def DistinctItems : List Json → Prop
  | [] => True
  | t :: ts => Distinct t ∧ DistinctItems ts

def DistinctFields : List (String × Json) → Prop
  | [] => True
  | (_, t) :: fs => Distinct t ∧ DistinctFields fs
end

theorem dump_cons (t : Json) : ∃ c cs, t.dump = c :: cs ∧ (c = '"' ∨ c = '[' ∨ c = '\x7b') := by
  cases t with
  | str s => exact ⟨_, _, rfl, .inl rfl⟩
  | arr ts => exact ⟨_, _, rfl, .inr (.inl rfl)⟩
  | obj fs => exact ⟨_, _, rfl, .inr (.inr rfl)⟩

theorem skip_dump (t : Json) (cs : List Char) : skip (t.dump ++ cs) = t.dump ++ cs := by
  obtain ⟨c, ds, hd, rfl | rfl | rfl⟩ := dump_cons t
  all_goals
    rw [hd]
    rfl

/-! ### One step of the parser -/

section Steps
variable {t : Json} {ts : List Json} {k : String} {fs gs : List (String × Json)} {cs ds rest : List Char} {n : Nat}

theorem parseValue_items (h : parseItems n (t.dump ++ cs) = some (ts, rest)) :
    parseValue (n + 1) ('[' :: (t.dump ++ cs)) = some (arr ts, rest) := by
  obtain ⟨c, ds, hd, hc⟩ := dump_cons t
  rw [hd] at h ⊢
  obtain rfl | rfl | rfl := hc
  all_goals exact congrArg (Option.map fun r => (arr r.1, r.2)) h

theorem parseValue_fields (h : parseFields n [] ('"' :: cs) = some (fs, rest)) :
    parseValue (n + 1) ('\x7b' :: '"' :: cs) = some (obj fs, rest) := by
  exact congrArg (Option.map fun r => (obj r.1, r.2)) h

theorem parseItems_last (h : parseValue n cs = some (t, ']' :: rest)) : parseItems (n + 1) cs = some ([t], rest) := by
  rw [parseItems, h]
  rfl

theorem parseItems_more (h : parseValue n cs = some (t, ',' :: ' ' :: ds))
    (hi : parseItems n (skip ds) = some (ts, rest)) : parseItems (n + 1) cs = some (t :: ts, rest) := by
  rw [parseItems, h]
  exact congrArg (Option.map fun r => (t :: r.1, r.2)) hi

theorem parseFields_last (h : parseValue n (skip cs) = some (t, '\x7d' :: rest)) :
    parseFields (n + 1) gs ('"' :: (k.toList.flatMap escape ++ '"' :: ':' :: ' ' :: cs)) = some (assign k t gs, rest) := by
  have hc : skip (':' :: ' ' :: cs) = ':' :: ' ' :: cs := rfl
  have hv : parseValue n (skip (' ' :: cs)) = some (t, '\x7d' :: rest) := h
  rw [parseFields, scanString_escapes]
  simp only [Option.bind_eq_bind, Option.bind_some, hc, hv]
  rfl

theorem parseFields_more (h : parseValue n (skip cs) = some (t, ',' :: ' ' :: ds))
    (hf : parseFields n (assign k t gs) (skip ds) = some (fs, rest)) :
    parseFields (n + 1) gs ('"' :: (k.toList.flatMap escape ++ '"' :: ':' :: ' ' :: cs)) = some (fs, rest) := by
  have hc : skip (':' :: ' ' :: cs) = ':' :: ' ' :: cs := rfl
  have hv : parseValue n (skip (' ' :: cs)) = some (t, ',' :: ' ' :: ds) := h
  rw [parseFields, scanString_escapes]
  simp only [Option.bind_eq_bind, Option.bind_some, hc, hv]
  exact hf

end Steps

theorem dump_arr (ts : List Json) (rest : List Char) : (arr ts).dump ++ rest = '[' :: (dumpItems ts ++ ']' :: rest) := by
  simp [dump]

theorem dump_obj (fs : List (String × Json)) (rest : List Char) :
    (obj fs).dump ++ rest = '\x7b' :: (dumpFields fs ++ '\x7d' :: rest) := by
  simp [dump]

theorem dumpItems_cons (t : Json) (ts : List Json) (cs : List Char) :
    dumpItems (t :: ts) ++ cs = t.dump ++ ((if ts.isEmpty then [] else ',' :: ' ' :: dumpItems ts) ++ cs) := by
  rw [dumpItems, append_assoc]

theorem dumpFields_cons (k : String) (t : Json) (fs : List (String × Json)) (cs : List Char) :
    dumpFields ((k, t) :: fs) ++ cs = '"' :: (k.toList.flatMap escape ++
        '"' :: ':' :: ' ' :: (t.dump ++ ((if fs.isEmpty then [] else ',' :: ' ' :: dumpFields fs) ++ cs))) := by
  simp [dumpFields, quote]

mutual
theorem parseValue_dump (t : Json) (h : t.Distinct) (rest : List Char) (n : Nat) (hn : 2 * t.dump.length ≤ n) :
    parseValue n (t.dump ++ rest) = some (t, rest) := by
  -- the text is not empty
  obtain ⟨n, rfl⟩ : ∃ m, n = m + 1 := by
    obtain ⟨c, cs, hd, -⟩ := dump_cons t
    rw [hd, length_cons] at hn
    exact ⟨n - 1, by omega⟩
  match t with
  | str s =>
    have ht : (str s).dump ++ rest = '"' :: (s.toList.flatMap escape ++ '"' :: rest) := by simp [dump, quote]
    rw [ht, parseValue, scanString_escapes, Option.map_some]
  | arr [] => rfl
  | arr (t :: ts) =>
    have hl : (arr (t :: ts)).dump.length = (dumpItems (t :: ts)).length + 2 := by simp [dump]
    have hi := parseItems_dump (t :: ts) (cons_ne_nil t ts) h rest n (by omega)
    rw [dump_arr, dumpItems_cons]
    rw [dumpItems_cons] at hi
    exact parseValue_items hi
  | obj [] => rfl
  | obj ((k, t) :: fs) =>
    have hl : (obj ((k, t) :: fs)).dump.length = (dumpFields ((k, t) :: fs)).length + 2 := by simp [dump]
    have hf := parseFields_dump ((k, t) :: fs) (cons_ne_nil _ fs) h.2 [] h.1 rest n (by omega)
    rw [dump_obj, dumpFields_cons]
    rw [dumpFields_cons] at hf
    exact parseValue_fields hf

theorem parseItems_dump (ts : List Json) (hne : ts ≠ []) (h : DistinctItems ts) (rest : List Char) (n : Nat)
    (hn : 2 * (dumpItems ts).length + 1 ≤ n) :
    parseItems n (dumpItems ts ++ ']' :: rest) = some (ts, rest) := by
  obtain ⟨n, rfl⟩ : ∃ m, n = m + 1 := ⟨n - 1, by omega⟩
  match ts with
  | [] => exact absurd rfl hne
  | [t] =>
    rw [dumpItems_cons]
    rw [dumpItems, length_append] at hn
    exact parseItems_last (parseValue_dump t h.1 (']' :: rest) n (by omega))
  | t :: u :: ts =>
    have hl : (dumpItems (t :: u :: ts)).length = t.dump.length + (dumpItems (u :: ts)).length + 2 := by
      simp [dumpItems]
      omega
    have hi := parseItems_dump (u :: ts) (cons_ne_nil u ts) h.2 rest n (by omega)
    rw [dumpItems_cons]
    refine parseItems_more (parseValue_dump t h.1 _ n (by omega)) ?_
    rw [append_eq, dumpItems_cons, skip_dump, ← dumpItems_cons]
    exact hi

theorem parseFields_dump (fs : List (String × Json)) (hne : fs ≠ []) (h : DistinctFields fs) (gs : List (String × Json))
    (hke : ((gs ++ fs).map Prod.fst).Nodup) (rest : List Char) (n : Nat) (hn : 2 * (dumpFields fs).length + 1 ≤ n) :
    parseFields n gs (dumpFields fs ++ '\x7d' :: rest) = some (gs ++ fs, rest) := by
  obtain ⟨n, rfl⟩ : ∃ m, n = m + 1 := ⟨n - 1, by omega⟩
  match fs with
  | [] => exact absurd rfl hne
  | (k, t) :: fs =>
    have hnew : k ∉ gs.map Prod.fst := by
      rw [map_append, nodup_append] at hke
      exact fun hk => hke.2.2 k hk k mem_cons_self rfl
    have hl : (dumpFields ((k, t) :: fs)).length =
        (quote k).length + t.dump.length + (if fs.isEmpty then 0 else (dumpFields fs).length + 2) + 2 := by
      cases fs <;> simp [dumpFields] <;> omega
    have hv := fun cs => parseValue_dump t h.1 cs n (by omega)
    rw [dumpFields_cons]
    cases fs with
    | nil =>
      rw [← assign_new hnew]
      refine parseFields_last ?_
      rw [skip_dump]
      exact hv _
    | cons f fs =>
      have hf := parseFields_dump (f :: fs) (cons_ne_nil f fs) h.2 (gs ++ [(k, t)])
        (by rwa [append_assoc]) rest n (by simp at hl; omega)
      have hm := hv (',' :: ' ' :: (dumpFields (f :: fs) ++ '\x7d' :: rest))
      rw [← skip_dump] at hm
      refine parseFields_more hm ?_
      rw [assign_new hnew, dumpFields_cons]
      rw [dumpFields_cons, append_assoc] at hf
      exact hf
end

theorem loads_dumps {t : Json} (h : t.Distinct) : loads t.dumps = some t := by
  have hv := parseValue_dump t h [] (2 * t.dumps.length + 2) (by simp [dumps])
  have hs := skip_dump t []
  rw [append_nil] at hv hs
  rw [loads, dumps, String.toList_ofList, hs]
  rw [dumps] at hv
  rw [hv]
  rfl

/-! ## Texts that go on -/

theorem skip_append {cs} (h : skip cs ≠ []) (more : List Char) : skip (cs ++ more) = skip cs ++ more := by
  rw [skip, dropWhile_append, if_neg (by simpa [skip] using h), ← skip]

theorem scan_append {cs ns rest} (h : scan cs = some (ns, rest)) (more : List Char) :
    scan (cs ++ more) = some (ns, rest ++ more) := by
  induction cs using scan.induct generalizing ns with
  | case1 => cases h
  | case2 cs =>
    cases h
    rfl
  | case3 a b c d cs ih =>
    simp only [scan, bind, Option.bind_eq_some_iff, pure, Option.some.injEq, Prod.mk.injEq] at h
    obtain ⟨n, hn, ⟨ns', rest'⟩, hs, rfl, rfl⟩ := h
    simp [scan, hn, ih hs]
  | case4 e cs hu ih =>
    rw [scan] at h
    · simp only [bind, Option.bind_eq_some_iff, pure, Option.some.injEq, Prod.mk.injEq] at h
      obtain ⟨c, hc, ⟨ns', rest'⟩, hs, rfl, rfl⟩ := h
      have he : e ≠ 'u' := by
        rintro rfl
        cases hc
      rw [cons_append, cons_append, scan]
      · simp [hc, ih hs]
      · exact fun _ _ _ _ _ heq => absurd heq he
    · exact hu
  | case5 c cs hq hb hb' hlt =>
    rw [scan, if_pos hlt] at h
    · cases h
    · exact hq
    · exact hb
    · exact hb'
  | case6 c cs hq hb hb' hge ih =>
    -- a backslash would have been the start of an escape
    have hne : c ≠ '\\' := by
      rintro rfl
      cases cs with
      | nil => simp [scan] at h
      | cons e cs => exact hb' e cs rfl rfl
    rw [scan, if_neg hge] at h
    · simp only [bind, Option.bind_eq_some_iff, pure, Option.some.injEq, Prod.mk.injEq] at h
      obtain ⟨⟨ns', rest'⟩, hs, rfl, rfl⟩ := h
      rw [cons_append, scan, if_neg hge]
      · simp [ih hs]
      · exact hq
      · exact fun _ _ _ _ _ heq => absurd heq hne
      · exact fun _ _ heq => absurd heq hne
    · exact hq
    · exact hb
    · exact hb'

theorem scanString_append {cs s rest} (h : scanString cs = some (s, rest)) (more : List Char) :
    scanString (cs ++ more) = some (s, rest ++ more) := by
  simp only [scanString, bind, Option.bind_eq_some_iff, pure, Option.some.injEq, Prod.mk.injEq] at h
  obtain ⟨⟨ns, rest'⟩, hs, us, hu, rfl, rfl⟩ := h
  simp [scanString, scan_append hs more, hu]

theorem head_of_append {c : Char} {cs ds more : List Char} (h : cs ≠ []) (heq : cs ++ more = c :: ds) : ∃ es, cs = c :: es := by
  cases cs with
  | nil => exact absurd rfl h
  | cons d cs => exact ⟨cs, by rw [(cons.inj heq).1]⟩

theorem parseValue_nil (n : Nat) : parseValue n [] = none := by simp [parseValue]

theorem parseItems_nil (n : Nat) : parseItems n [] = none := by
  cases n <;> simp [parseItems, parseValue_nil]

theorem parseFields_nil (n : Nat) (gs : List (String × Json)) : parseFields n gs [] = none := by simp [parseFields]

/-- What is read of a text is read of each longer one, and with more fuel. -/
theorem parse_append (n : Nat) :
    (∀ cs t rest, parseValue n cs = some (t, rest) →
      ∀ m more, n ≤ m → parseValue m (cs ++ more) = some (t, rest ++ more)) ∧
    (∀ cs ts rest, parseItems n cs = some (ts, rest) →
      ∀ m more, n ≤ m → parseItems m (cs ++ more) = some (ts, rest ++ more)) ∧
    ∀ cs gs fs rest, parseFields n gs cs = some (fs, rest) →
      ∀ m more, n ≤ m → parseFields m gs (cs ++ more) = some (fs, rest ++ more) := by
  induction n with
  | zero =>
    refine ⟨fun cs t rest h => ?_, fun cs ts rest h => ?_, fun cs gs fs rest h => ?_⟩
    · simp [parseValue] at h
    · simp [parseItems] at h
    · simp [parseFields] at h
  | succ n ih =>
    obtain ⟨ihv, ihi, ihf⟩ := ih
    refine ⟨fun cs t rest h m more hm => ?_, fun cs ts rest h m more hm => ?_, fun cs gs fs rest h m more hm => ?_⟩
    all_goals obtain ⟨m, rfl⟩ : ∃ k, m = k + 1 := ⟨m - 1, by omega⟩
    · unfold parseValue at h
      split at h
      · obtain ⟨⟨s, r⟩, hs, heq⟩ := Option.map_eq_some_iff.1 h
        cases heq
        rw [cons_append, parseValue, scanString_append hs]
        rfl
      · rename_i k cs hk
        obtain rfl := Nat.succ.inj hk
        split at h
        · rename_i ds hs
          cases h
          rw [cons_append, parseValue, skip_append (by simp [hs]), hs]
          rfl
        · rename_i hno
          obtain ⟨⟨ts, r⟩, hi, heq⟩ := Option.map_eq_some_iff.1 h
          cases heq
          have hne : skip cs ≠ [] := fun hs => by simp [hs, parseItems_nil] at hi
          rw [cons_append, parseValue, skip_append hne]
          split
          · rename_i heq
            exact absurd (head_of_append hne heq) fun ⟨ds, hds⟩ => hno ds hds
          · rw [ihi _ _ _ hi m more (by omega)]
            rfl
      · rename_i k cs hk
        obtain rfl := Nat.succ.inj hk
        split at h
        · rename_i ds hs
          cases h
          rw [cons_append, parseValue, skip_append (by simp [hs]), hs]
          rfl
        · rename_i hno
          obtain ⟨⟨fs, r⟩, hi, heq⟩ := Option.map_eq_some_iff.1 h
          cases heq
          have hne : skip cs ≠ [] := fun hs => by simp [hs, parseFields_nil] at hi
          rw [cons_append, parseValue, skip_append hne]
          split
          · rename_i heq
            exact absurd (head_of_append hne heq) fun ⟨ds, hds⟩ => hno ds hds
          · rw [ihf _ _ _ _ hi m more (by omega)]
            rfl
      · cases h
    · simp only [parseItems, bind, Option.bind_eq_some_iff] at h
      obtain ⟨⟨t, ds⟩, hv, h⟩ := h
      have hr := ihv _ _ _ hv m more (by omega)
      simp only [parseItems, hr, bind, Option.bind_some]
      have hne : skip ds ≠ [] := fun hs => by simp [hs] at h
      rw [skip_append hne]
      split at h
      · rename_i hs
        cases h
        rw [hs]
        rfl
      · rename_i rest' hs
        obtain ⟨⟨us, r⟩, hi, heq⟩ := Option.map_eq_some_iff.1 h
        cases heq
        have hne' : skip rest' ≠ [] := fun hs => by simp [hs, parseItems_nil] at hi
        rw [hs]
        change Option.map _ (parseItems m (skip (rest' ++ more))) = _
        rw [skip_append hne', ihi _ _ _ hi m more (by omega)]
        rfl
      · cases h
    · unfold parseFields at h
      split at h
      · rename_i k cs hk
        obtain rfl := Nat.succ.inj hk
        simp only [bind, Option.bind_eq_some_iff] at h
        obtain ⟨⟨k, ds⟩, hk, h⟩ := h
        have hne : skip ds ≠ [] := fun hs => by simp [hs] at h
        rw [cons_append, parseFields, scanString_append hk]
        simp only [bind, Option.bind_some]
        rw [skip_append hne]
        split at h
        · rename_i es hs
          simp only [Option.bind_eq_some_iff] at h
          obtain ⟨⟨t, us⟩, hv, h⟩ := h
          have hne' : skip es ≠ [] := fun hs => by simp [hs, parseValue_nil] at hv
          have hne'' : skip us ≠ [] := fun hs => by simp [hs] at h
          rw [hs]
          change (parseValue m (skip (es ++ more))).bind _ = _
          rw [skip_append hne', ihv _ _ _ hv m more (by omega), Option.bind_some]
          dsimp only
          rw [skip_append hne'']
          split at h
          · rename_i hs'
            cases h
            rw [hs']
            rfl
          · rename_i rest' hs'
            have hne : skip rest' ≠ [] := fun hs => by simp [hs, parseFields_nil] at h
            rw [hs']
            change parseFields m _ (skip (rest' ++ more)) = _
            rw [skip_append hne]
            exact ihf _ _ _ _ h m more (by omega)
          · cases h
        · cases h
      · cases h

/-- No proper beginning of a text can be read. -/
theorem eq_of_loads_of_begins {t u : Json} (hd : u.Distinct) {s : String} (hp : s.toList <+: u.dump) (h : loads s = some t) :
    t = u ∧ s.toList = u.dump := by
  obtain ⟨more, hm⟩ := hp
  simp only [loads, bind, Option.bind_eq_some_iff] at h
  obtain ⟨⟨t', rest⟩, hv, h⟩ := h
  have hne : skip s.toList ≠ [] := fun hs => by simp [hs, parseValue_nil] at hv
  have hlong := (parse_append _).1 _ _ _ hv (2 * s.length + 2 + 2 * u.dump.length) more (by omega)
  have hs := skip_dump u []
  rw [append_nil, ← hm] at hs
  rw [← skip_append hne, hs, hm] at hlong
  have hu := parseValue_dump u hd [] (2 * s.length + 2 + 2 * u.dump.length) (by omega)
  rw [append_nil, hlong] at hu
  obtain ⟨rfl, hr⟩ := Prod.mk.inj (Option.some.inj hu)
  obtain ⟨rfl, rfl⟩ := append_eq_nil_iff.1 hr
  rw [append_nil] at hm
  simp only [skip, dropWhile_nil, isEmpty_nil, if_true, Option.some.injEq] at h
  exact ⟨h.symm, hm⟩

/-! ## The characters of a text -/

def escapeChars : List Char := "\"\\nrtfbu0123456789abcdef".toList

theorem hexDigit_mem (n : Nat) : hexDigit n ∈ escapeChars := by
  have hd : ∀ c ∈ "0123456789abcdef".toList, c ∈ escapeChars := by
    simpa only [all_eq_true, decide_eq_true_eq] using
      (by decide : "0123456789abcdef".toList.all (fun c => decide (c ∈ escapeChars)) = true)
  unfold hexDigit
  cases h : "0123456789abcdef".toList[n]? with
  | some c => exact hd c (mem_of_getElem? h)
  | none => decide

theorem shortEscapes_mem : ∀ p ∈ shortEscapes, p.2 ∈ escapeChars ∧ (p.1 ∈ escapeChars ∨ ¬ (' ' ≤ p.1)) := by decide

/-- Any other character stands only for itself. -/
theorem mem_escape {d} (hc : c ∉ escapeChars) : c ∈ escape d ↔ c = d ∧ ' ' ≤ c ∧ c ≤ '~' := by
  unfold escape
  split
  · rename_i e he
    obtain ⟨hmem, hd⟩ := shortEscapes_mem _ (mem_of_lookup he)
    constructor
    · intro h
      simp only [mem_cons, not_mem_nil, or_false] at h
      rcases h with rfl | rfl
      · exact absurd (by decide) hc
      · exact absurd hmem hc
    · rintro ⟨rfl, hp, -⟩
      rcases hd with hd | hd
      · exact absurd hd hc
      · exact absurd hp hd
  · split
    · rename_i hp
      rw [mem_singleton]
      exact ⟨fun h => ⟨h, h ▸ hp⟩, fun h => h.1⟩
    · rename_i hp
      constructor
      · intro h
        obtain ⟨n, -, h⟩ := mem_flatMap.1 h
        simp only [hex4, mem_cons, not_mem_nil, or_false] at h
        rcases h with rfl | rfl | rfl | rfl | rfl | rfl
        · exact absurd (by decide) hc
        · exact absurd (by decide) hc
        all_goals exact absurd (hexDigit_mem _) hc
      · rintro ⟨rfl, h⟩
        exact absurd h hp

theorem head_escape (c : Char) : (escape c).head? = some c ∨ (escape c).head? = some '\\' := by
  unfold escape
  split
  · exact .inr rfl
  · split
    · exact .inl rfl
    · unfold Json.units
      split
      · exact .inr rfl
      · exact .inr rfl

theorem mem_quote (hc : c ∉ escapeChars) {s : String} : c ∈ quote s ↔ c ∈ s.toList ∧ ' ' ≤ c ∧ c ≤ '~' := by
  have hne : c ≠ '"' := by
    rintro rfl
    exact hc (by decide)
  simp [quote, mem_escape hc, hne]

def marks : List Char := ['[', ']', '\x7b', '\x7d', ':', ',', ' ']

theorem not_mark (hc : c ∉ marks) : c ≠ '[' ∧ c ≠ ']' ∧ c ≠ '\x7b' ∧ c ≠ '\x7d' ∧ c ≠ ':' ∧ c ≠ ',' ∧ c ≠ ' ' := by
  simpa only [marks, mem_cons, not_mem_nil, or_false, not_or] using hc

theorem mem_dump_arr (hc : c ∉ marks) {ts} : c ∈ (arr ts).dump ↔ ∃ t ∈ ts, c ∈ t.dump := by
  obtain ⟨ho, hcl, -, -, -, hco, hb⟩ := not_mark hc
  have hi : c ∈ dumpItems ts ↔ ∃ t ∈ ts, c ∈ t.dump := by
    induction ts with
    | nil => simp [dumpItems]
    | cons t ts ih =>
      rw [dumpItems]
      cases ts with
      | nil => simp
      | cons u ts => simp [ih, hco, hb]
  rw [dump, mem_append, mem_cons, mem_singleton, hi]
  simp only [ho, hcl, false_or, or_false]

theorem mem_dump_obj (hc : c ∉ marks) {fs} : c ∈ (obj fs).dump ↔ ∃ f ∈ fs, c ∈ quote f.1 ∨ c ∈ f.2.dump := by
  obtain ⟨-, -, ho, hcl, hco, hca, hb⟩ := not_mark hc
  have hf : c ∈ dumpFields fs ↔ ∃ f ∈ fs, c ∈ quote f.1 ∨ c ∈ f.2.dump := by
    induction fs with
    | nil => simp [dumpFields]
    | cons f fs ih =>
      rw [dumpFields, mem_append, mem_append]
      cases fs with
      | nil => simp [hco, hb]
      | cons u ts => simp [ih, hco, hca, hb]
  rw [dump, mem_append, mem_cons, mem_singleton, hf]
  simp only [ho, hcl, false_or, or_false]

end Json

end Lib
