import BenchmarkAi.Lib.Dacite
import BenchmarkAi.Lib.Scalar
/-!
# JSON documents

The texts of whole documents, with numbers, truth values and `null` besides what `Json` has:
what Python's `json.dumps` writes in ASCII and what `json.loads` reads. A document is read back
from its text.
-/

namespace Lib.Dacite.Data

open List
open Json (quote skip escape scanString)
open Scalar (Full)

/-! ## Numbers and words -/

def dumpInt : Int → List Char
  | .ofNat n => Nat.toDigits 10 n
  | .negSucc n => '-' :: Nat.toDigits 10 (n + 1)

def numberChar (c : Char) : Bool := c.isDigit || "+-.eE".toList.contains c

def integer? (cs : List Char) : Option Int :=
  (Scalar.decimal? cs).filter fun n => dumpInt n = cs || cs = ['-', '0']

def floatPattern : Scalar.Pattern :=
  let fraction := Scalar.seq [Scalar.char '.', Scalar.some1 Scalar.digits]
  let exponent := Scalar.seq [Scalar.among "eE", Scalar.sign, Scalar.some1 Scalar.digits]
  Scalar.seq [Scalar.opt (Scalar.char '-'),
    Scalar.alt [Scalar.char '0', Scalar.seq [Scalar.among "123456789", Scalar.many (Scalar.digits.toList.contains ·)]],
    Scalar.alt [Scalar.seq [fraction, Scalar.opt exponent], exponent]]

def number? (cs : List Char) : Option Data :=
  match integer? cs with
  | some n => some (.int n)
  | none => if Full floatPattern cs then some (.float (String.ofList cs)) else none

def words : List (String × Data) :=
  [("null", .null), ("true", .bool true), ("false", .bool false), ("NaN", .float "NaN"), ("Infinity", .float "Infinity"),
    ("-Infinity", .float "-Infinity")]

def FloatText (s : String) : Prop :=
  s ∈ ["NaN", "Infinity", "-Infinity"] ∨
    s.toList.all numberChar = true ∧ integer? s.toList = none ∧ Full floatPattern s.toList

instance (s : String) : Decidable (FloatText s) := inferInstanceAs (Decidable (_ ∨ _))

/-! ## Writing -/

def joined : List (List Char) → List Char
  | [] => []
  | [t] => t
  | t :: ts => t ++ ',' :: ' ' :: joined ts

mutual
def dump : Data → List Char
  | .null => "null".toList
  | .bool b => if b then "true".toList else "false".toList
  | .int n => dumpInt n
  | .float s => s.toList
  | .str s => quote s
  | .arr ds => '[' :: joined (dumpItems ds) ++ [']']
  | .obj fs => '\x7b' :: joined (dumpFields fs) ++ ['\x7d']

def dumpItems : List Data → List (List Char)
  | [] => []
  | d :: ds => dump d :: dumpItems ds

def dumpFields : List (String × Data) → List (List Char)
  | [] => []
  | (k, d) :: fs => (quote k ++ ':' :: ' ' :: dump d) :: dumpFields fs
end

def dumpField (f : String × Data) : List Char := quote f.1 ++ ':' :: ' ' :: dump f.2

def dumps (d : Data) : String := String.ofList d.dump

/-! ## Reading -/

section Lists
variable {α : Type} (read : List Char → Option (α × List Char)) (close : Char)

def readJoined : Nat → List Char → Option (List α × List Char)
  | 0, _ => none
  | n + 1, cs => do
    let (a, cs) ← read cs
    match skip cs with
    | [] => none
    | c :: cs =>
      if c = close then return ([a], cs)
      else if c = ',' then (readJoined n (skip cs)).map fun r => (a :: r.1, r.2)
      else none

def readList (cs : List Char) : Option (List α × List Char) :=
  match skip cs with
  | [] => none
  | c :: cs => if c = close then some ([], cs) else readJoined read close (c :: cs).length (c :: cs)

end Lists

def readField (read : List Char → Option (Data × List Char)) : List Char → Option ((String × Data) × List Char)
  | '"' :: cs => do
    let (k, cs) ← scanString cs
    match skip cs with
    | ':' :: cs => (read (skip cs)).map fun r => ((k, r.1), r.2)
    | _ => none
  | _ => none

/-- A number is taken as far as there are characters of numbers. -/
def readAtom (cs : List Char) : Option (Data × List Char) :=
  match number? (cs.takeWhile numberChar) with
  | some d => some (d, cs.dropWhile numberChar)
  | none => (words.find? fun w => w.1.toList.isPrefixOf cs).map fun w => (w.2, cs.drop w.1.length)

/-- One value and the rest of the text, with a bound for the depth. The fields of an object go into
a dict: the last one with a key counts. -/
def readValue : Nat → List Char → Option (Data × List Char)
  | 0, _ => none
  | _ + 1, '"' :: cs => (scanString cs).map fun r => (.str r.1, r.2)
  | n + 1, '[' :: cs => (readList (readValue n) ']' cs).map fun r => (.arr r.1, r.2)
  | n + 1, '\x7b' :: cs =>
    (readList (readField (readValue n)) '\x7d' cs).map fun r => (.obj (Dict.ofFields r.1).entries, r.2)
  | _ + 1, cs => readAtom cs

/-- `json.loads`. A value inside another one has a shorter text. -/
def loads (s : String) : Option Data := do
  let (d, rest) ← readValue s.length (skip s.toList)
  if (skip rest).isEmpty then some d else none

/-! ## Documents -/

mutual
def proper : Data → Bool
  | .float s => FloatText s
  | .arr ds => properItems ds
  | .obj fs => (fs.map Prod.fst).Nodup && properFields fs
  | _ => true

def properItems : List Data → Bool
  | [] => true
  | d :: ds => d.proper && properItems ds

def properFields : List (String × Data) → Bool
  | [] => true
  | (_, d) :: fs => d.proper && properFields fs
end

@[simp] theorem proper_str (s : String) : (str s).proper = true := rfl
@[simp] theorem proper_bool (b : Bool) : (bool b).proper = true := rfl
@[simp] theorem proper_int (n : Int) : (int n).proper = true := rfl

theorem properItems_iff {ds} : properItems ds = true ↔ ∀ d ∈ ds, d.proper = true := by
  induction ds with
  | nil => simp [properItems]
  | cons d ds ih => rw [properItems, Bool.and_eq_true, ih, forall_mem_cons]

theorem properFields_iff {fs} : properFields fs = true ↔ ∀ f ∈ fs, f.2.proper = true := by
  induction fs with
  | nil => simp [properFields]
  | cons f fs ih => rw [properFields, Bool.and_eq_true, ih, forall_mem_cons]

/-- A record, with the names of its fields. -/
theorem proper_obj {fs : List (String × Data)} (names : List String) (hn : fs.map Prod.fst = names) (hno : names.Nodup)
    (h : ∀ f ∈ fs, f.2.proper = true) : (obj fs).proper = true := by
  rw [proper, hn, Bool.and_eq_true, decide_eq_true_eq]
  exact ⟨hno, properFields_iff.2 h⟩

theorem proper_map {α : Type} {data} {as : List α} (h : ∀ a ∈ as, (data a).proper = true) :
    (arr (as.map data)).proper = true := by
  refine properItems_iff.2 fun d hd => ?_
  obtain ⟨a, ha, rfl⟩ := mem_map.1 hd
  exact h a ha

theorem dumpItems_eq (ds : List Data) : dumpItems ds = ds.map dump := by
  induction ds with
  | nil => rfl
  | cons d ds ih => rw [dumpItems, ih, map_cons]

theorem dumpFields_eq (fs : List (String × Data)) : dumpFields fs = fs.map dumpField := by
  induction fs with
  | nil => rfl
  | cons f fs ih => rw [dumpFields, ih, map_cons, dumpField]

theorem joined_cons (t u : List Char) (ts : List (List Char)) : joined (t :: u :: ts) = t ++ ',' :: ' ' :: joined (u :: ts) := rfl

theorem length_le_joined {t : List Char} {ts} (h : t ∈ ts) : t.length ≤ (joined ts).length := by
  induction ts with
  | nil => cases h
  | cons u ts ih =>
    cases ts with
    | nil =>
      rw [mem_singleton.1 h]
      exact Nat.le_refl _
    | cons v ts =>
      rw [joined_cons, length_append, length_cons, length_cons]
      rcases mem_cons.1 h with rfl | h
      · omega
      · have := ih h
        omega

/-! ## Reading numbers back -/

variable {n : Nat} {c : Char} {cs rest : List Char} {d : Data}

theorem isDigit_toDigits (h : c ∈ Nat.toDigits 10 n) : c.isDigit = true :=
  Nat.isDigit_of_mem_toDigits (by decide) (by decide) h

theorem numberChar_dumpInt {n} (h : c ∈ dumpInt n) : numberChar c = true := by
  cases n with
  | ofNat n => rw [numberChar, isDigit_toDigits h, Bool.true_or]
  | negSucc n =>
    rcases mem_cons.1 h with rfl | h
    · decide
    · rw [numberChar, isDigit_toDigits h, Bool.true_or]

theorem decimal?_dumpInt (n : Int) : Scalar.decimal? (dumpInt n) = some n := by
  have hall (n : Nat) : Nat.toDigits 10 n ≠ [] ∧ (Nat.toDigits 10 n).all (·.isDigit) = true :=
    ⟨Nat.toDigits_ne_nil, all_eq_true.2 fun c => isDigit_toDigits⟩
  cases n with
  | ofNat n =>
    have hnat := hall n
    rw [dumpInt]
    unfold Scalar.decimal?
    split
    · rename_i cs hcs
      rw [hcs] at hnat
      exact absurd hnat.2 (by simp [show '-'.isDigit = false from rfl])
    · rename_i cs hcs
      rw [hcs] at hnat
      exact absurd hnat.2 (by simp [show '+'.isDigit = false from rfl])
    · rw [if_pos hnat, Nat.ofDigitChars_ten_toDigits]
      rfl
  | negSucc n =>
    rw [dumpInt, Scalar.decimal?, if_pos (hall (n + 1)), Nat.ofDigitChars_ten_toDigits]
    rfl

theorem number?_dumpInt (n : Int) : number? (dumpInt n) = some (.int n) := by
  have hint : integer? (dumpInt n) = some n := by
    rw [integer?, decimal?_dumpInt]
    simp
  rw [number?, hint]

def Ends (cs : List Char) : Prop := cs.head?.all (!numberChar ·) = true

theorem takeWhile_of_ends (hall : ∀ c ∈ cs, numberChar c = true) (hr : Ends rest) :
    (cs ++ rest).takeWhile numberChar = cs ∧ (cs ++ rest).dropWhile numberChar = rest := by
  have hn : rest.takeWhile numberChar = [] ∧ rest.dropWhile numberChar = rest := by
    cases rest with
    | nil => exact ⟨rfl, rfl⟩
    | cons c rest =>
      have hc : numberChar c = false := by simpa [Ends] using hr
      exact ⟨takeWhile_cons_of_neg (by simp [hc]), dropWhile_cons_of_neg (by simp [hc])⟩
  rw [takeWhile_append_of_pos hall, dropWhile_append_of_pos hall, hn.1, hn.2, append_nil]
  exact ⟨rfl, rfl⟩

theorem readAtom_number (hd : number? cs = some d) (hall : ∀ c ∈ cs, numberChar c = true) (hr : Ends rest) :
    readAtom (cs ++ rest) = some (d, rest) := by
  obtain ⟨ht, hdr⟩ := takeWhile_of_ends hall hr
  rw [readAtom, ht, hd, hdr]

theorem readAtom_float {s : String} (h : FloatText s) (hr : Ends rest) :
    readAtom (s.toList ++ rest) = some (.float s, rest) := by
  rcases h with h | ⟨hall, hint, hf⟩
  · simp only [mem_cons, not_mem_nil, or_false] at h
    rcases h with rfl | rfl | rfl <;> rfl
  · have hn : number? s.toList = some (.float s) := by
      rw [number?, hint]
      simp [hf]
    exact readAtom_number hn (all_eq_true.1 hall) hr

/-! ## Reading lists back -/

def Starts (cs : List Char) : Prop := cs.head?.any (!" \t\n\r]\x7d".toList.contains ·) = true

theorem Starts.cons {cs} (h : Starts cs) : ∃ c ds, cs = c :: ds ∧ " \t\n\r]\x7d".toList.contains c = false := by
  cases cs with
  | nil => cases h
  | cons c ds => exact ⟨c, ds, rfl, by simpa [Starts] using h⟩

theorem Starts.append {cs} (h : Starts cs) (rest : List Char) : Starts (cs ++ rest) := by
  obtain ⟨c, ds, rfl, -⟩ := h.cons
  exact h

theorem skip_of_starts (h : Starts cs) : skip cs = cs := by
  obtain ⟨c, ds, rfl, hc⟩ := h.cons
  refine dropWhile_cons_of_neg fun hb => ?_
  simp only [contains_eq_mem, decide_eq_true_eq, decide_eq_false_iff_not] at hb hc
  refine hc ?_
  change c ∈ " \t\n\r".toList ++ "]\x7d".toList
  exact mem_append_left _ hb

section Lists
variable {α : Type} {read : List Char → Option (α × List Char)} {close : Char} {text : α → List Char} {as : List α}

def Closes (close : Char) : Prop := close = ']' ∨ close = '\x7d'

theorem Closes.ends {close} (h : Closes close) (rest : List Char) : Ends (close :: rest) := by
  rcases h with rfl | rfl <;> rfl

theorem ends_comma (rest : List Char) : Ends (',' :: rest) := rfl

theorem readJoined_joined (hc : Closes close) (hne : as ≠ []) (hs : ∀ a ∈ as, Starts (text a))
    (hr : ∀ a ∈ as, ∀ rest, Ends rest → read (text a ++ rest) = some (a, rest)) (rest : List Char) (hn : as.length ≤ n) :
    readJoined read close n (joined (as.map text) ++ close :: rest) = some (as, rest) := by
  induction as generalizing n with
  | nil => exact absurd rfl hne
  | cons a as ih =>
    rw [forall_mem_cons] at hs hr
    obtain ⟨n, rfl⟩ : ∃ m, n = m + 1 := ⟨n - 1, by simp at hn; omega⟩
    cases as with
    | nil =>
      have hsk : skip (close :: rest) = close :: rest := by
        rcases hc with rfl | rfl <;> rfl
      rw [map_singleton, joined, readJoined, hr.1 _ (hc.ends rest)]
      simp only [Option.bind_eq_bind, Option.bind_some, hsk, if_pos]
      rfl
    | cons b bs =>
      have hco : ',' ≠ close := by
        rcases hc with rfl | rfl <;> decide
      have hm := ih (cons_ne_nil b bs) hs.2 hr.2 (by simpa using hn)
      have hst : Starts (joined ((b :: bs).map text)) := by
        cases bs with
        | nil => exact hs.2 b mem_cons_self
        | cons c cs => exact (hs.2 b mem_cons_self).append _
      have hsk (cs : List Char) : skip (',' :: cs) = ',' :: cs := rfl
      have hb (cs : List Char) : skip (' ' :: cs) = skip cs := rfl
      rw [map_cons, map_cons, joined_cons, append_assoc, cons_append, cons_append, readJoined, hr.1 _ (ends_comma _)]
      simp only [Option.bind_eq_bind, Option.bind_some, hsk, if_neg hco, if_pos, hb]
      rw [map_cons] at hm hst
      rw [skip_of_starts (hst.append _), hm]
      rfl

theorem length_le_length_joined {ts : List (List Char)} (h : ∀ t ∈ ts, t ≠ []) : ts.length ≤ (joined ts).length := by
  induction ts with
  | nil => exact Nat.zero_le _
  | cons t ts ih =>
    rw [forall_mem_cons] at h
    have ht := length_pos_iff.2 h.1
    cases ts with
    | nil => exact ht
    | cons u ts =>
      have hr := ih h.2
      simp only [joined_cons, length_append, length_cons] at hr ⊢
      omega

theorem readList_joined (hcl : Closes close) (hs : ∀ a ∈ as, Starts (text a))
    (hr : ∀ a ∈ as, ∀ rest, Ends rest → read (text a ++ rest) = some (a, rest)) (rest : List Char) :
    readList read close (joined (as.map text) ++ close :: rest) = some (as, rest) := by
  cases as with
  | nil => rcases hcl with rfl | rfl <;> rfl
  | cons a as =>
    have hst : Starts (joined ((a :: as).map text)) := by
      cases as with
      | nil => exact hs a mem_cons_self
      | cons b bs => exact (hs a mem_cons_self).append _
    obtain ⟨c, cs, hcs, hc⟩ := (hst.append (close :: rest)).cons
    have hne : c ≠ close := by
      rintro rfl
      rcases hcl with rfl | rfl <;> cases hc
    have hl := @length_le_length_joined ((a :: as).map text) fun t ht => by
      obtain ⟨b, hb, rfl⟩ := mem_map.1 ht
      obtain ⟨c, cs, hcs, -⟩ := (hs b hb).cons
      rw [hcs]
      exact cons_ne_nil c cs
    rw [readList, skip_of_starts (hst.append _), hcs]
    dsimp only
    rw [if_neg hne, ← hcs]
    refine readJoined_joined hcl (cons_ne_nil a as) hs hr rest ?_
    rw [length_append]
    rw [length_map] at hl
    omega

end Lists

/-! ## Reading values back -/

theorem numberChar_starts (h : numberChar c = true) (cs : List Char) : Starts (c :: cs) := by
  have hno : " \t\n\r]\x7d".toList.all (!numberChar ·) = true := by decide
  simp only [Starts, head?_cons, Option.any_some, Bool.not_eq_true', contains_eq_mem, decide_eq_false_iff_not]
  intro hmem
  rw [all_eq_true] at hno
  exact absurd h (by simpa using hno c hmem)

theorem starts_of_number (hne : cs ≠ []) (hall : ∀ c ∈ cs, numberChar c = true) : Starts cs := by
  cases cs with
  | nil => exact absurd rfl hne
  | cons c cs => exact numberChar_starts (hall c mem_cons_self) cs

theorem dumpInt_ne_nil (n : Int) : dumpInt n ≠ [] := by
  cases n with
  | ofNat n => exact Nat.toDigits_ne_nil
  | negSucc n => exact cons_ne_nil _ _

theorem starts_float {s : String} (h : FloatText s) : Starts s.toList := by
  rcases h with h | ⟨hall, -, hf⟩
  · simp only [mem_cons, not_mem_nil, or_false] at h
    rcases h with rfl | rfl | rfl <;> rfl
  · refine starts_of_number ?_ (all_eq_true.1 hall)
    intro hnil
    rw [hnil] at hf
    exact absurd hf (by decide)

theorem starts_dump (h : d.proper = true) : Starts d.dump := by
  cases d with
  | null => rfl
  | bool b => cases b <;> rfl
  | int n => exact starts_of_number (dumpInt_ne_nil n) fun c hc => numberChar_dumpInt hc
  | float s => exact starts_float (by simpa [proper] using h)
  | str s => rfl
  | arr ds => rfl
  | obj fs => rfl

theorem starts_dumpField (f : String × Data) : Starts (dumpField f) := rfl

theorem readValue_atom (h : numberChar c = true) (n : Nat) (cs : List Char) :
    readValue (n + 1) (c :: cs) = readAtom (c :: cs) := by
  rw [readValue]
  all_goals
    rintro _ ⟨⟩
    cases h

theorem readValue_number (hne : cs ≠ []) (hall : ∀ c ∈ cs, numberChar c = true) (h : readAtom (cs ++ rest) = some (d, rest))
    (n : Nat) : readValue (n + 1) (cs ++ rest) = some (d, rest) := by
  cases cs with
  | nil => exact absurd rfl hne
  | cons c cs => exact (readValue_atom (hall c mem_cons_self) n _).trans h

theorem readField_dumpField {read} {f : String × Data} (hs : Starts f.2.dump)
    (hr : read (f.2.dump ++ rest) = some (f.2, rest)) : readField read (dumpField f ++ rest) = some (f, rest) := by
  have ht : dumpField f ++ rest = '"' :: (f.1.toList.flatMap escape ++ '"' :: ':' :: ' ' :: (f.2.dump ++ rest)) := by
    simp [dumpField, quote]
  have hc (cs : List Char) : skip (':' :: cs) = ':' :: cs := rfl
  have hb : skip (' ' :: (f.2.dump ++ rest)) = f.2.dump ++ rest :=
    (show skip (' ' :: _) = skip _ from rfl).trans (skip_of_starts (hs.append rest))
  rw [ht, readField, Json.scanString_escapes]
  simp only [Option.bind_eq_bind, Option.bind_some, hc, hb, hr, Option.map_some]

/-- The text of a document is read as the document. -/
theorem readValue_dump (h : d.proper = true) (hn : d.dump.length ≤ n) (hr : Ends rest) :
    readValue n (d.dump ++ rest) = some (d, rest) := by
  induction n generalizing d rest with
  | zero =>
    obtain ⟨c, cs, hcs, -⟩ := (starts_dump h).cons
    rw [hcs] at hn
    cases hn
  | succ n ih =>
    cases d with
    | null => rfl
    | bool b => cases b <;> rfl
    | int k =>
      exact readValue_number (dumpInt_ne_nil k) (fun c hc => numberChar_dumpInt hc)
        (readAtom_number (number?_dumpInt k) (fun c hc => numberChar_dumpInt hc) hr) n
    | float s =>
      have hs : FloatText s := by simpa [proper] using h
      have ha := readAtom_float hs hr
      rcases hs with hs | ⟨hall, -, hfu⟩
      · simp only [mem_cons, not_mem_nil, or_false] at hs
        rcases hs with rfl | rfl | rfl <;> exact ha
      · refine readValue_number ?_ (all_eq_true.1 hall) ha n
        intro hnil
        rw [hnil] at hfu
        exact absurd hfu (by decide)
    | str s =>
      have ht : (Data.str s).dump ++ rest = '"' :: (s.toList.flatMap escape ++ '"' :: rest) := by simp [dump, quote]
      rw [ht, readValue, Json.scanString_escapes, Option.map_some]
    | arr ds =>
      have hi := properItems_iff.1 (show properItems ds = true from h)
      have ht : (Data.arr ds).dump ++ rest = '[' :: (joined (ds.map dump) ++ ']' :: rest) := by
        simp [dump, dumpItems_eq]
      have hl : (joined (ds.map dump)).length + 2 = (Data.arr ds).dump.length := by simp [dump, dumpItems_eq]
      rw [ht, readValue, readList_joined (.inl rfl) (fun d hd => starts_dump (hi d hd)) ?_ rest, Option.map_some]
      intro d hd rest hr
      have hle := length_le_joined (mem_map_of_mem (f := dump) hd)
      exact ih (hi d hd) (by omega) hr
    | obj fs =>
      rw [proper, Bool.and_eq_true, decide_eq_true_eq] at h
      have hfi := properFields_iff.1 h.2
      have ht : (Data.obj fs).dump ++ rest = '\x7b' :: (joined (fs.map dumpField) ++ '\x7d' :: rest) := by
        simp [dump, dumpFields_eq]
      have hl : (joined (fs.map dumpField)).length + 2 = (Data.obj fs).dump.length := by simp [dump, dumpFields_eq]
      rw [ht, readValue, readList_joined (.inr rfl) (fun f _ => starts_dumpField f) ?_ rest, Option.map_some]
      · rw [Dict.entries_ofFields h.1]
      · intro f hf rest hr
        have hle := length_le_joined (mem_map_of_mem (f := dumpField) hf)
        have hv : f.2.dump.length ≤ (dumpField f).length := by simp [dumpField]; omega
        exact readField_dumpField (starts_dump (hfi f hf)) (ih (hfi f hf) (by omega) hr)

theorem loads_dumps (h : d.proper = true) : loads d.dumps = some d := by
  have hv := readValue_dump h (Nat.le_refl _) (show Ends [] from rfl)
  rw [append_nil] at hv
  rw [loads, dumps, String.toList_ofList, skip_of_starts (starts_dump h), String.length_ofList, hv]
  rfl

end Lib.Dacite.Data
