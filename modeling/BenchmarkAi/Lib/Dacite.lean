import BenchmarkAi.Lib.Except
import BenchmarkAi.Lib.Tree
/-!
# Dataclasses from dicts

How `dacite.from_dict` with `strict` reads a dict as a dataclass: a key that is no field is
an error, then the fields are read in the order of their declarations. The values of a field
are built first, with everything below them, and their type is checked after. Hooks and
constructors can raise errors of their own.
-/

open List

namespace Lib.Dacite

/-- The values of a JSON document; a number with a fraction is kept as its text. -/
inductive Data
  | null
  | bool (b : Bool)
  | int (n : Int)
  | float (text : String)
  | str (s : String)
  | arr (items : List Data)
  | obj (fields : List (String × Data))

abbrev Fields := List (String × Data)

inductive Error (ε : Type)
  | missingValue (path : List String)
  | wrongType (path : List String)
  | unexpectedData (keys : List String)
  | raised (e : ε)

abbrev Build (ε α : Type) := Data → Except (Error ε) (Option α)

section Builds
variable {ε α : Type}

def str : Build ε String
  | .str s => return some s
  | _ => return none

/-- A truth value is an instance of `int`. -/
def int : Build ε Int
  | .int n => return some n
  | .bool b => return some b.toInt
  | _ => return none

def bool : Build ε Bool
  | .bool b => return some b
  | _ => return none

def any : Build ε Data := fun d => return some d

def optional (build : Build ε α) : Build ε (Option α)
  | .null => return some none
  | d => return (← build d).map some

def list (build : Build ε α) : Build ε (List α)
  | .arr ds => return (← ds.mapM build).mapM id
  | _ => return none

def dict (build : Build ε α) : Build ε (List (String × α))
  | .obj fs => return (← fs.mapM fun f => return (← build f.2).map (f.1, ·)).mapM id
  | _ => return none

def hook (f : Data → Except ε α) : Build ε α := fun d =>
  match f d with
  | .ok a => return some a
  | .error e => throw (.raised e)

def dataclass (read : Fields → Except (Error ε) α) : Build ε α
  | .obj fs => return some (← read fs)
  | _ => return none

end Builds

section Reading
variable {ε α : Type}

def Error.below (name : String) : Error ε → Error ε
  | missingValue path => missingValue (name :: path)
  | wrongType path => wrongType (name :: path)
  | e => e

def strict (names : List String) (fs : Fields) : Except (Error ε) Unit :=
  match (fs.map Prod.fst).filter (· ∉ names) with
  | [] => return ()
  | keys => throw (.unexpectedData keys)

def field (name : String) (build : Build ε α) (default : Option α) (fs : Fields) : Except (Error ε) α :=
  match fs.lookup name with
  | some d =>
    match build d with
    | .ok (some a) => return a
    | .ok none => throw (.wrongType [name])
    | .error e => throw (e.below name)
  | none =>
    match default with
    | some a => return a
    | none => throw (.missingValue [name])

def construct {δ : Type} (x : Except ε δ) : Except (Error ε) δ :=
  match x with
  | .ok a => return a
  | .error e => throw (.raised e)

theorem field_ok {name} {build : Build ε α} {default} {fs : Fields} {a : α} (h : field name build default fs = .ok a) :
    (∃ d, fs.lookup name = some d ∧ build d = .ok (some a)) ∨ fs.lookup name = none ∧ default = some a := by
  unfold field at h
  split at h
  · rename_i d hd
    split at h
    · rename_i hb
      cases h
      exact .inl ⟨d, hd, hb⟩
    · cases h
    · cases h
  · rename_i hd
    split at h
    · exact .inr ⟨hd, congrArg some (pure_ok.1 h)⟩
    · cases h

theorem dataclass_ok {read : Fields → Except (Error ε) α} {d} {a : α} (h : dataclass read d = .ok (some a)) :
    ∃ fs, d = .obj fs ∧ read fs = .ok a := by
  cases d with
  | obj fs =>
    obtain ⟨b, hb, h⟩ := bind_ok.1 h
    obtain rfl := Option.some.inj (pure_ok.1 h)
    exact ⟨fs, rfl, hb⟩
  | _ => cases pure_ok.1 h

end Reading

/-! ## Reading back -/

section ReadingBack
variable {ε α : Type} {build : Build ε α}

def Data.ofOption (data : α → Data) : Option α → Data
  | none => .null
  | some a => data a

theorem field_of_lookup {name} {fs : Fields} {d} {a : α} {default} (hd : fs.lookup name = some d)
    (hb : build d = .ok (some a)) : field name build default fs = .ok a := by
  unfold field
  rw [hd]
  dsimp only
  rw [hb]
  rfl

theorem optional_ofOption {data o} (h : ∀ a, o = some a → build (data a) = .ok (some a) ∧ data a ≠ .null) :
    optional build (.ofOption data o) = .ok (some o) := by
  cases o with
  | none => rfl
  | some a =>
    obtain ⟨hb, hne⟩ := h a rfl
    have ho : optional build (data a) = (build (data a) >>= fun b => pure (b.map some)) := by
      cases hd : data a with
      | null => exact absurd hd hne
      | _ => rfl
    rw [Data.ofOption, ho, hb]
    rfl

theorem mapM_map_reads {data} {as : List α} (h : ∀ a ∈ as, build (data a) = .ok (some a)) :
    (as.map data).mapM build = .ok (as.map some) := by
  induction as with
  | nil => rfl
  | cons a as ih =>
    rw [forall_mem_cons] at h
    rw [map_cons, mapM_cons, h.1, ih h.2]
    rfl

theorem mapM_id_map_some (as : List α) : (as.map some).mapM id = some as := by
  induction as with
  | nil => rfl
  | cons a as ih =>
    rw [map_cons, mapM_cons, ih]
    rfl

theorem list_reads {data} {as : List α} (h : ∀ a ∈ as, build (data a) = .ok (some a)) :
    list build (.arr (as.map data)) = .ok (some as) := by
  rw [list, mapM_map_reads h]
  exact congrArg Except.ok (mapM_id_map_some as)

theorem isSome_of_mapM_id {bs : List (Option α)} {as} (h : bs.mapM id = some as) : ∀ b ∈ bs, b.isSome = true := by
  induction bs generalizing as with
  | nil => nofun
  | cons b bs ih =>
    simp only [mapM_cons, bind, Option.bind_eq_some_iff, pure, Option.some.injEq] at h
    obtain ⟨a, ha, as', has', -⟩ := h
    refine forall_mem_cons.2 ⟨?_, ih has'⟩
    rw [show b = some a from ha]
    rfl

theorem list_ok {ds as} (h : list build (.arr ds) = .ok (some as)) : ∀ d ∈ ds, ∃ a, build d = .ok (some a) := by
  obtain ⟨bs, hbs, hs⟩ := bind_ok.1 h
  intro d hd
  obtain ⟨b, hb, hbu⟩ := exists_of_forall₂ (forall₂_of_mapM hbs).flip hd
  obtain ⟨a, rfl⟩ := Option.isSome_iff_exists.1 (isSome_of_mapM_id (pure_ok.1 hs) b hb)
  exact ⟨a, hbu⟩

theorem dict_any (fs : Fields) : (dict any (.obj fs) : Except (Error ε) (Option Fields)) = .ok (some fs) := by
  have hr : ∀ f ∈ fs, (do return (← (any f.2 : Except (Error ε) (Option Data))).map (f.1, ·)) = .ok (some f) :=
    fun f _ => rfl
  rw [dict]
  have hm : (fs.mapM fun f => do return (← (any f.2 : Except (Error ε) (Option Data))).map (f.1, ·)) = .ok (fs.map some) := by
    induction fs with
    | nil => rfl
    | cons f fs ih =>
      rw [forall_mem_cons] at hr
      rw [mapM_cons, ih hr.2]
      rfl
  rw [hm]
  exact congrArg Except.ok (mapM_id_map_some fs)

end ReadingBack

end Lib.Dacite
