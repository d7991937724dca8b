import BenchmarkAi.Lib.Json
/-!
# Scalars of a YAML text

What a YAML 1.2 loader makes of a text that stands alone behind a key, on one line: a plain
scalar or one in double quotes, perhaps with a comment. A plain scalar is a string unless it
looks like something else, and `PlainText` says when a text is read as itself. `single` is for
a text that a template puts between single quotes. Of texts in brackets and the like nothing is
said, and nothing of values that a tree does not have.
-/

open List

namespace Lib.Scalar

/-! ## Patterns

A pattern gives what can be left of a text behind a match of it.
-/

abbrev Pattern := List Char → List (List Char)

def one (p : Char → Bool) : Pattern
  | c :: cs => if p c then [cs] else []
  | [] => []

def many (p : Char → Bool) : Pattern
  | c :: cs => (c :: cs) :: if p c then many p cs else []
  | [] => [[]]

def seq (ps : List Pattern) : Pattern := fun cs => ps.foldl (fun rests p => rests.flatMap p) [cs]

def alt (ps : List Pattern) : Pattern := fun cs => ps.flatMap (· cs)

def opt (p : Pattern) : Pattern := fun cs => cs :: p cs

def char (c : Char) : Pattern := one (· = c)

def among (s : String) : Pattern := one (s.toList.contains ·)

def word (s : String) : Pattern := seq (s.toList.map char)

def Full (p : Pattern) (cs : List Char) : Prop := [] ∈ p cs

instance (p : Pattern) (cs : List Char) : Decidable (Full p cs) := inferInstanceAs (Decidable (_ ∈ _))

def digits : String := "0123456789"

def sign : Pattern := opt (among "-+")

def some1 (s : String) : Pattern := seq [among s, many (s.toList.contains ·)]

def intPattern : Pattern :=
  alt [seq [sign, word "0b", some1 "01_"], seq [sign, char '0', opt (char 'o'), some1 "01234567_"],
    seq [sign, some1 "0123456789_"], seq [sign, word "0x", some1 "0123456789abcdefABCDEF_"]]

def floatPattern : Pattern :=
  let exponent := seq [among "eE", sign, some1 digits]
  let whole := seq [among digits, many ("0123456789_".toList.contains ·)]
  alt [seq [sign, whole, char '.', many ("0123456789_".toList.contains ·), opt exponent], seq [sign, whole, exponent],
    seq [sign, char '.', some1 "0123456789_", opt (seq [among "eE", among "-+", some1 digits])],
    seq [sign, char '.', alt [word "inf", word "Inf", word "INF"]], seq [char '.', alt [word "nan", word "NaN", word "NAN"]]]

def timestampPattern : Pattern :=
  let d := among digits
  let zone := alt [char 'Z', seq [among "-+", d, opt d, opt (seq [char ':', d, d])]]
  alt [seq [d, d, d, d, char '-', d, d, char '-', d, d],
    seq [d, d, d, d, char '-', d, opt d, char '-', d, opt d, alt [among "Tt", some1 " \t"], d, opt d, char ':', d, d,
      char ':', d, d, opt (seq [char '.', many (digits.toList.contains ·)]),
      opt (seq [many (" \t".toList.contains ·), zone])]]

/-! ## What a plain scalar is read as -/

def decimal? : List Char → Option Int
  | '-' :: cs => if cs ≠ [] ∧ cs.all (·.isDigit) then some (-(Nat.ofDigitChars 10 cs 0 : Nat)) else none
  | '+' :: cs => if cs ≠ [] ∧ cs.all (·.isDigit) then some (Nat.ofDigitChars 10 cs 0 : Nat) else none
  | cs => if cs ≠ [] ∧ cs.all (·.isDigit) then some (Nat.ofDigitChars 10 cs 0 : Nat) else none

def trueWords : List String := ["true", "True", "TRUE"]
def falseWords : List String := ["false", "False", "FALSE"]
def nullWords : List String := ["", "~", "null", "Null", "NULL"]

/-- The patterns of numbers and dates are tried for texts that start like one. -/
def Numeric (cs : List Char) : Prop :=
  cs.head?.any ("-+.0123456789".toList.contains ·) = true ∧
    (Full intPattern cs ∨ Full floatPattern cs ∨ Full timestampPattern cs)

instance (cs : List Char) : Decidable (Numeric cs) := inferInstanceAs (Decidable (_ ∧ _))

def Special (s : String) : Prop :=
  s ∈ trueWords ∨ s ∈ falseWords ∨ s ∈ nullWords ∨ s ∈ ["<<", "=", "!", "&", "*"] ∨ Numeric s.toList

instance (s : String) : Decidable (Special s) := inferInstanceAs (Decidable (_ ∨ _))

def resolve (s : String) : Option Tree :=
  if Special s then
    if s ∈ trueWords then some (.bool true)
    else if s ∈ falseWords then some (.bool false)
    else if s ∈ nullWords then some .null
    else (decimal? s.toList).map .num
  else some (.str s)

/-! ## Where a scalar ends -/

/-- Characters that may stand in a line. Tabs and the mark of the byte order are left out. -/
def plainChar (c : Char) : Bool :=
  let n := c.toNat
  (0x20 ≤ n && n ≤ 0x7e) || (0xa0 ≤ n && n != 0x2028 && n != 0x2029 && n != 0xfeff && n != 0xfffe && n != 0xffff)

def indicators : List Char := "-?:,[]\x7b\x7d#&*!|>'\"%@\x60".toList

def plainStart : List Char → Bool
  | [] => false
  | c :: cs => c ≠ ' ' && (!indicators.contains c || "-?:".toList.contains c && cs.head?.any (· ≠ ' '))

/-- A colon ends the text in front of a blank or the end, a comment starts behind a blank.
`blank` says whether there was one. -/
def cut (blank : Bool) : List Char → List Char × List Char
  | [] => ([], [])
  | c :: cs =>
    if c = '#' && blank then ([], c :: cs)
    else if c = ':' && cs.head?.all (· = ' ') then ([], c :: cs)
    else (c :: (cut (c = ' ') cs).1, (cut (c = ' ') cs).2)

def trimEnd (cs : List Char) : List Char := (cs.reverse.dropWhile (· = ' ')).reverse

def onlyComment : List Char → Bool
  | [] => true
  | c :: _ => c = '#'

def double : List Char → Option (List Char × List Char)
  | [] => none
  | '"' :: cs => some ([], cs)
  | '\\' :: e :: cs => do
    let c ← Json.unescape e
    let (s, rest) ← double cs
    return (c :: s, rest)
  | c :: cs => do
    let (s, rest) ← double cs
    return (c :: s, rest)

def read (s : String) : Option Tree :=
  if !s.toList.all plainChar then none
  else
    match s.toList.dropWhile (· = ' ') with
    | [] => some .null
    | '#' :: _ => some .null
    | '"' :: cs => do
      let (t, rest) ← double cs
      if rest = [] ∨ rest.head? = some ' ' ∧ onlyComment (rest.dropWhile (· = ' ')) then some (.str (String.ofList t)) else none
    | cs =>
      if plainStart cs && onlyComment (cut false cs).2 then resolve (String.ofList (trimEnd (cut false cs).1)) else none

/-- What is read of a text between single quotes: two quotes are one, and one quote ends the
scalar, so that there may only be a comment behind it. -/
def unquote : List Char → Option (List Char)
  | [] => some []
  | '\'' :: '\'' :: cs => (unquote cs).map ('\'' :: ·)
  | '\'' :: cs => if cs.head? = some ' ' ∧ (cs.dropWhile (· = ' ')).head? = some '#' then some [] else none
  | c :: cs => (unquote cs).map (c :: ·)

def single (s : String) : Option String :=
  if s.toList.all plainChar then (unquote s.toList).map String.ofList else none

/-! ## Texts that are read as themselves -/

/-- A text that is a plain scalar and a string, without a comment and without blanks around it. -/
structure PlainText (s : String) : Prop where
  chars : s.toList.all plainChar = true
  start : plainStart s.toList = true
  inside : s.toList.IsChain fun a b => (a = ' ' → b ≠ '#') ∧ (a = ':' → b ≠ ' ')
  last : s.toList.getLast? ≠ some ' ' ∧ s.toList.getLast? ≠ some ':'
  string : ¬ Special s

instance (s : String) : Decidable (PlainText s) :=
  decidable_of_iff (s.toList.all plainChar = true ∧ plainStart s.toList = true ∧
      (s.toList.IsChain fun a b => (a = ' ' → b ≠ '#') ∧ (a = ':' → b ≠ ' ')) ∧
      (s.toList.getLast? ≠ some ' ' ∧ s.toList.getLast? ≠ some ':') ∧ ¬ Special s)
    ⟨fun ⟨h₁, h₂, h₃, h₄, h₅⟩ => ⟨h₁, h₂, h₃, h₄, h₅⟩, fun h => ⟨h.chars, h.start, h.inside, h.last, h.string⟩⟩

theorem cut_append (blank : Bool) (cs : List Char) : (cut blank cs).1 ++ (cut blank cs).2 = cs := by
  induction cs generalizing blank with
  | nil => rfl
  | cons c cs ih =>
    rw [cut]
    split
    · rfl
    · split
      · rfl
      · rw [cons_append, ih]

/-- The whole text is taken if there is no place for it to end. -/
theorem cut_all_iff {blank} {cs : List Char} : (cut blank cs).2 = [] ↔ (blank = true → cs.head? ≠ some '#') ∧
      (cs.IsChain fun a b => (a = ' ' → b ≠ '#') ∧ (a = ':' → b ≠ ' ')) ∧ cs.getLast? ≠ some ':' := by
  induction cs generalizing blank with
  | nil => simp [cut]
  | cons c cs ih =>
    rw [cut]
    split
    · simp_all
    · split
      · cases cs with
        | nil => simp_all
        | cons d cs => simp_all
      · rename_i hc hco
        have hh : blank = true → c ≠ '#' := by
          rintro rfl rfl
          exact hc rfl
        rw [ih]
        cases cs with
        | nil => simp_all
        | cons d cs =>
          simp_all [and_assoc]

theorem trimEnd_length (cs : List Char) : (trimEnd cs).length ≤ cs.length := by
  have hle := (dropWhile_sublist (· = ' ') (l := cs.reverse)).length_le
  rwa [length_reverse, ← length_reverse] at hle

theorem trimEnd_eq_self_iff {cs : List Char} : trimEnd cs = cs ↔ cs.getLast? ≠ some ' ' := by
  rw [trimEnd, reverse_eq_iff, getLast?_eq_head?_reverse]
  cases cs.reverse with
  | nil => simp
  | cons c ds =>
    rw [dropWhile_cons]
    split
    · rename_i hb
      have hlt : (ds.dropWhile (· = ' ')).length < (c :: ds).length :=
        Nat.lt_succ_of_le (dropWhile_sublist _).length_le
      refine ⟨fun heq => ?_, fun hne => absurd (by simpa using hb) hne⟩
      rw [heq] at hlt
      exact absurd hlt (Nat.lt_irrefl _)
    · rename_i hb
      exact ⟨fun _ hc => hb (by simpa using hc), fun _ => rfl⟩

/-- The text in the quotes is shorter than the text with its closing quote. -/
theorem double_length {cs t rest : List Char} (h : double cs = some (t, rest)) : t.length + rest.length < cs.length := by
  induction cs using double.induct generalizing t with
  | case1 => cases h
  | case2 cs =>
    cases h
    simp
  | case3 e cs ih =>
    simp only [double, bind, Option.bind_eq_some_iff, pure, Option.some.injEq, Prod.mk.injEq] at h
    obtain ⟨c, -, ⟨t', rest'⟩, ht, rfl, rfl⟩ := h
    have hlt := ih ht
    simp only [length_cons] at hlt ⊢
    omega
  | case4 c cs hq he ih =>
    rw [double] at h
    · simp only [bind, Option.bind_eq_some_iff, pure, Option.some.injEq, Prod.mk.injEq] at h
      obtain ⟨⟨t', rest'⟩, ht, rfl, rfl⟩ := h
      have hlt := ih ht
      simp only [length_cons] at hlt ⊢
      omega
    · exact hq
    · exact he

theorem resolve_eq_str {u s} : resolve u = some (.str s) ↔ u = s ∧ ¬ Special u := by
  unfold resolve
  split
  · rename_i hs
    refine ⟨fun h => ?_, fun h => absurd hs h.2⟩
    split at h
    · cases h
    · split at h
      · cases h
      · split at h
        · cases h
        · obtain ⟨n, -, hn⟩ := Option.map_eq_some_iff.1 h
          cases hn
  · rename_i hs
    exact ⟨fun h => ⟨Tree.str.inj (Option.some.inj h), hs⟩, fun h => by rw [h.1]⟩

/-- A text is read as itself exactly if it is a plain text. -/
theorem read_eq_str_iff {s} : read s = some (.str s) ↔ PlainText s := by
  have hdr := dropWhile_sublist (· = ' ') (l := s.toList)
  constructor
  · intro h
    unfold read at h
    split at h
    · cases h
    · rename_i hc
      split at h
      · cases h
      · cases h
      · -- in quotes there is less than the text with its quotes
        rename_i cs hcs
        simp only [bind, Option.bind_eq_some_iff] at h
        obtain ⟨⟨t, rest⟩, ht, h⟩ := h
        have hlt := double_length ht
        have hle := hdr.length_le
        split at h
        · have hs : t = s.toList := by
            rw [← Tree.str.inj (Option.some.inj h), String.toList_ofList]
          rw [hcs, ← hs, length_cons] at hle
          omega
        · cases h
      · split at h
        · rename_i hp
          obtain ⟨hs, hst⟩ := resolve_eq_str.1 h
          rw [Bool.and_eq_true] at hp
          have htr : trimEnd (cut false (s.toList.dropWhile (· = ' '))).1 = s.toList := by
            rw [← String.toList_ofList (l := trimEnd _), hs]
          -- nothing of the text can have been left out
          have ha := cut_append false (s.toList.dropWhile (· = ' '))
          have hlen := congrArg length ha
          rw [length_append] at hlen
          have hlen' := trimEnd_length (cut false (s.toList.dropWhile (· = ' '))).1
          have hlen'' := congrArg length htr
          have hle := hdr.length_le
          have hall : s.toList.dropWhile (· = ' ') = s.toList := hdr.eq_of_length (by omega)
          rw [hall] at hlen hlen' hlen'' htr ha hp
          have hr : (cut false s.toList).2 = [] := eq_nil_of_length_eq_zero (by omega)
          rw [hr, append_nil] at ha
          rw [ha] at htr
          obtain ⟨-, hi, hco⟩ := cut_all_iff.1 hr
          exact ⟨by simpa using hc, hp.1, hi, ⟨trimEnd_eq_self_iff.1 htr, hco⟩, hs ▸ hst⟩
        · cases h
  · intro h
    have hr : (cut false s.toList).2 = [] := cut_all_iff.2 ⟨nofun, h.inside, h.last.2⟩
    have hcut : (cut false s.toList).1 = s.toList := by
      have ha := cut_append false s.toList
      rwa [hr, append_nil] at ha
    unfold read
    rw [h.chars, if_neg (by simp)]
    have hsta := h.start
    have hd : s.toList.dropWhile (· = ' ') = s.toList := by
      cases hs : s.toList with
      | nil => rfl
      | cons c cs =>
        rw [hs, plainStart, Bool.and_eq_true] at hsta
        rw [dropWhile_cons_of_neg (by simpa using hsta.1)]
    rw [hd]
    split
    · rename_i hnil
      rw [hnil] at hsta
      cases hsta
    · rename_i hh
      rw [hh] at hsta
      cases hsta
    · rename_i hq
      rw [hq] at hsta
      cases hsta
    · rw [hcut, hr, hsta, trimEnd_eq_self_iff.2 h.last.1, String.ofList_toList]
      exact resolve_eq_str.2 ⟨rfl, h.string⟩

/-! ## Texts in single quotes -/

/-- One quote for two, wherever the scalar ends. -/
def joinQuotes : List Char → List Char
  | '\'' :: '\'' :: cs => '\'' :: joinQuotes cs
  | c :: cs => c :: joinQuotes cs
  | [] => []

theorem joinQuotes_append {cs ds : List Char} (h : ds.head? ≠ some '\'') :
    joinQuotes (cs ++ ds) = joinQuotes cs ++ joinQuotes ds := by
  induction cs using joinQuotes.induct with
  | case1 cs ih => simp [joinQuotes, ih]
  | case2 c cs hc ih =>
    rw [cons_append, joinQuotes, joinQuotes, ih, cons_append]
    · exact hc
    · -- the quote at the end of the first text has none behind it
      rintro es rfl heq
      cases cs with
      | nil => exact h (by rw [show ds = '\'' :: es from heq]; rfl)
      | cons d cs => exact hc cs rfl (by rw [(cons.inj heq).1])
  | case3 => rfl

theorem joinQuotes_append_of_not_mem {cs : List Char} (h : '\'' ∉ cs) (ds : List Char) :
    joinQuotes (cs ++ ds) = cs ++ joinQuotes ds := by
  induction cs with
  | nil => rfl
  | cons c cs ih =>
    rw [mem_cons, not_or] at h
    rw [cons_append, joinQuotes, ih h.2, cons_append]
    exact fun _ heq => absurd heq.symm h.1

theorem length_joinQuotes (cs : List Char) : (joinQuotes cs).length ≤ cs.length := by
  induction cs using joinQuotes.induct with
  | case1 cs ih =>
    simp only [joinQuotes, length_cons]
    omega
  | case2 c cs hc ih =>
    rw [joinQuotes, length_cons, length_cons]
    · omega
    · exact hc
  | case3 => exact Nat.le_refl _

theorem unquote_of_not_mem {cs : List Char} (h : '\'' ∉ cs) : unquote cs = some cs := by
  induction cs with
  | nil => rfl
  | cons c cs ih =>
    rw [mem_cons, not_or] at h
    rw [unquote, ih h.2, Option.map_some]
    · exact fun _ heq => absurd heq.symm h.1
    · exact fun heq => absurd heq.symm h.1

/-- The scalar may end before the text does. -/
theorem begins_of_unquote {cs t : List Char} (h : unquote cs = some t) : t <+: joinQuotes cs := by
  induction cs using unquote.induct generalizing t with
  | case1 => exact Option.some.inj h ▸ prefix_refl _
  | case2 cs ih =>
    obtain ⟨u, hu, rfl⟩ := Option.map_eq_some_iff.1 h
    exact (prefix_cons_inj _).2 (ih hu)
  | case3 cs hc hend =>
    rw [unquote, if_pos hend] at h
    · exact Option.some.inj h ▸ nil_prefix
    · exact hc
  | case4 cs hc hend =>
    rw [unquote, if_neg hend] at h
    · cases h
    · exact hc
  | case5 c cs hc hc' ih =>
    rw [unquote] at h
    · obtain ⟨u, hu, rfl⟩ := Option.map_eq_some_iff.1 h
      rw [joinQuotes]
      · exact (prefix_cons_inj c).2 (ih hu)
      · exact hc
    · exact hc
    · exact hc'

theorem not_mem_of_unquote {cs : List Char} (h : unquote cs = some cs) : '\'' ∉ cs := by
  induction cs using unquote.induct with
  | case1 => exact not_mem_nil
  | case2 cs ih =>
    -- a pair becomes one quote, and no text becomes longer
    obtain ⟨u, hu, heq⟩ := Option.map_eq_some_iff.1 h
    have hle := Nat.le_trans (begins_of_unquote hu).length_le (length_joinQuotes cs)
    rw [(cons.inj heq).2, length_cons] at hle
    omega
  | case3 cs hc hend =>
    rw [unquote, if_pos hend] at h
    · cases h
    · exact hc
  | case4 cs hc hend =>
    rw [unquote, if_neg hend] at h
    · cases h
    · exact hc
  | case5 c cs hc hc' ih =>
    rw [unquote] at h
    · obtain ⟨u, hu, heq⟩ := Option.map_eq_some_iff.1 h
      obtain ⟨-, rfl⟩ := cons.inj heq
      rw [mem_cons, not_or]
      exact ⟨fun heq => hc' heq.symm, ih hu⟩
    · exact hc
    · exact hc'

end Lib.Scalar
