import BenchmarkAi.Lib.Scalar
/-!
# Texts of block YAML

A reader of mappings and sequences in block style: one key or one item on a line, with scalars, `[]`
or `\x7b\x7d` behind it, and what is nested is indented further. A sequence may start in the column of its
key. Scalars of several lines, anchors and other flow collections are not read.
-/

open List

namespace Lib.BlockYaml

/-- A line with its indentation, without the blanks in front. -/
structure Line where
  indent : Nat
  text : List Char

def lines (text : List Char) : List Line :=
  ((text.splitOn '\n').map fun l => ⟨(l.takeWhile (· = ' ')).length, l.dropWhile (· = ' ')⟩).filter fun l =>
    !Scalar.onlyComment l.text

def value (text : List Char) : Option Tree :=
  match text.dropWhile (· = ' ') with
  | ['[', ']'] => some (.arr [])
  | ['\x7b', '\x7d'] => some (.obj [])
  | '\'' :: cs => if cs.getLast? = some '\'' then (Scalar.single (String.ofList cs.dropLast)).map .str else none
  | cs => Scalar.read (String.ofList cs)

/-- A key, up to a colon with a blank or nothing behind it. -/
def splitKey : List Char → Option (List Char × List Char)
  | [] => none
  | ':' :: [] => some ([], [])
  | ':' :: ' ' :: cs => some ([], cs)
  | c :: cs => (splitKey cs).map fun p => (c :: p.1, p.2)

/-- What stands behind the dash of an item. -/
def item? : List Char → Option (List Char)
  | ['-'] => some []
  | '-' :: ' ' :: cs => some cs
  | _ => none

mutual
/-- The node that starts in the first line. -/
def readNode : Nat → List Line → Option (Tree × List Line)
  | n + 1, l :: ls =>
    if (item? l.text).isSome then (readItems n l.indent (l :: ls)).map fun r => (.arr r.1, r.2)
    else if (splitKey l.text).isSome then (readFields n l.indent [] (l :: ls)).map fun r => (.obj r.1, r.2)
    else (value l.text).map fun t => (t, ls)
  | _, _ => none

def readItems : Nat → Nat → List Line → Option (List Tree × List Line)
  | n + 1, indent, l :: ls =>
    match if l.indent = indent then item? l.text else none with
    | some [] => do
      let (t, ls) ← readNode n ls
      (readItems n indent ls).map fun r => (t :: r.1, r.2)
    | some text => do
      -- the rest of the line starts two columns further
      let (t, ls) ← readNode n (⟨indent + 2, text⟩ :: ls)
      (readItems n indent ls).map fun r => (t :: r.1, r.2)
    | none => if l.indent ≤ indent then some ([], l :: ls) else none
  | _ + 1, _, [] => some ([], [])
  | 0, _, _ => none

def readFields : Nat → Nat → List (String × Tree) → List Line → Option (List (String × Tree) × List Line)
  | n + 1, indent, fs, l :: ls =>
    match if l.indent = indent ∧ item? l.text = none then splitKey l.text else none with
    | some (key, []) => do
      let (t, ls) ←
        match ls with
        | next :: _ =>
          if indent < next.indent ∨ next.indent = indent ∧ (item? next.text).isSome then readNode n ls
          else some (.null, ls)
        | [] => some (.null, [])
      addField n indent fs key t ls
    | some (key, text) => do addField n indent fs key (← value text) ls
    | none => if l.indent ≤ indent then some (fs, l :: ls) else none
  | _ + 1, _, fs, [] => some (fs, [])
  | 0, _, _, _ => none

/-- No key may come twice. -/
def addField : Nat → Nat → List (String × Tree) → List Char → Tree → List Line →
    Option (List (String × Tree) × List Line)
  | n + 1, indent, fs, key, t, ls =>
    if (fs.lookup (String.ofList key)).isSome then none else readFields n indent (fs ++ [(String.ofList key, t)]) ls
  | 0, _, _, _, _, _ => none
end

/-- The document of a text. Each line takes at most four calls. -/
def read (text : List Char) : Option Tree := do
  let ls := lines text
  let (t, rest) ← readNode (4 * ls.length + 4) ls
  if rest.isEmpty then some t else none

end Lib.BlockYaml
