import BenchmarkAi.Lib.Except
import BenchmarkAi.Lib.Tree
/-!
# Calls with positional and keyword arguments

The parameters of a function and how the arguments of a call are bound to them, as
Python does it: positional arguments fill the parameters from the left, keyword
arguments fill parameters by name, and what is left has to have a default.
-/

open List

namespace Lib.Call

inductive Kind
  | positionalOnly | positionalOrKeyword
deriving DecidableEq, Repr

structure Param (ν : Type) where
  name : String
  kind : Kind := .positionalOrKeyword
  default : Option ν := none

structure Signature (ν : Type) where
  params : List (Param ν)
  varArgs : Option String := none
  varKwargs : Option String := none

inductive BindError
  | tooManyPositional
  | unexpectedKeyword (name : String)
  | multipleValues (name : String)
  | missing (name : String)
deriving DecidableEq, Repr

variable {ν : Type}

def Signature.names (sig : Signature ν) : List String :=
  sig.params.map (·.name) ++ sig.varArgs.toList ++ sig.varKwargs.toList

def Param.keyword (p : Param ν) (kw : List (String × ν)) : Option ν :=
  match p.kind with
  | .positionalOnly => none
  | .positionalOrKeyword => kw.lookup p.name

def bindParams : List (Param ν) → List ν → List (String × ν) → Except BindError (List (String × ν))
  | [], _, _ => return []
  | p :: ps, v :: pos, kw =>
    if (p.keyword kw).isSome then throw (.multipleValues p.name)
    else return (p.name, v) :: (← bindParams ps pos kw)
  | p :: ps, [], kw =>
    match (p.keyword kw).or p.default with
    | some v => return (p.name, v) :: (← bindParams ps [] kw)
    | none => throw (.missing p.name)

def Signature.accepts (sig : Signature ν) (k : String) : Bool :=
  sig.params.any fun p => p.kind = .positionalOrKeyword && p.name = k

def Signature.bind (sig : Signature ν) (pos : List ν) (kw : List (String × ν)) :
    Except BindError (List (String × ν)) :=
  if sig.varArgs.isNone && sig.params.length < pos.length then throw .tooManyPositional
  else
    match kw.find? fun kv => sig.varKwargs.isNone && !sig.accepts kv.1 with
    | some kv => throw (.unexpectedKeyword kv.1)
    | none => bindParams sig.params pos kw

variable {ps : List (Param ν)} {pos : List ν} {kw vs : List (String × ν)}

theorem accepts_named (h : ∀ p ∈ ps, p.kind = .positionalOrKeyword) (k : String) :
    (Signature.mk ps none none).accepts k = true ↔ k ∈ ps.map (·.name) := by
  rw [Signature.accepts, any_eq_true, mem_map]
  refine exists_congr fun p => and_congr_right fun hp => ?_
  rw [h p hp]
  simp

/-! ## What is bound -/

/-- Without variable parts, a call is bound when no argument is left over and
`bindParams` succeeds. -/
theorem bind_fixed : (Signature.mk ps none none).bind pos kw = .ok vs ↔
      pos.length ≤ ps.length ∧ (∀ kv ∈ kw, (Signature.mk ps none none).accepts kv.1 = true) ∧
        bindParams ps pos kw = .ok vs := by
  unfold Signature.bind
  by_cases hlen : ps.length < pos.length
  · rw [if_pos (by simpa using hlen)]
    exact ⟨fun h => absurd h (by rw [throw_ok]; exact id), fun h => absurd hlen (Nat.not_lt.2 h.1)⟩
  · rw [if_neg (by simpa using hlen)]
    split
    · rename_i kv hkv
      have hno := find?_some hkv
      refine ⟨fun h => (throw_ok.1 h).elim, fun h => ?_⟩
      rw [h.2.1 kv (mem_of_find?_eq_some hkv)] at hno
      cases hno
    · rename_i hn
      rw [find?_eq_none] at hn
      exact ⟨fun h => ⟨Nat.not_lt.1 hlen, fun kv hkv => by simpa using hn kv hkv, h⟩, fun h => h.2.2⟩

theorem bindParams_nil : bindParams [] pos kw = .ok vs ↔ vs = [] := by
  rw [bindParams, pure_ok, eq_comm]

theorem bindParams_cons {p : Param ν} {v : ν} : bindParams (p :: ps) (v :: pos) kw = .ok vs ↔
      p.keyword kw = none ∧ ∃ ws, bindParams ps pos kw = .ok ws ∧ vs = (p.name, v) :: ws := by
  rw [bindParams]
  cases p.keyword kw with
  | some w => exact ⟨fun h => (throw_ok.1 h).elim, fun h => nomatch h.1⟩
  | none =>
    rw [if_neg (by simp), bind_ok]
    simp only [pure_ok, true_and, @eq_comm _ vs]

theorem bindParams_cons_nil {p : Param ν} : bindParams (p :: ps) [] kw = .ok vs ↔
      ∃ v ws, (p.keyword kw).or p.default = some v ∧ bindParams ps [] kw = .ok ws ∧ vs = (p.name, v) :: ws := by
  rw [bindParams]
  cases (p.keyword kw).or p.default with
  | some w =>
    rw [bind_ok]
    simp only [pure_ok, Option.some.injEq, @eq_comm _ vs]
    exact ⟨fun ⟨ws, h⟩ => ⟨w, ws, rfl, h⟩, fun ⟨_, ws, hw, h⟩ => ⟨ws, hw ▸ h⟩⟩
  | none => exact ⟨fun h => (throw_ok.1 h).elim, fun ⟨_, _, h, _⟩ => nomatch h⟩

/-- Parameters that are all given by name take the keyword argument, or else their default. -/
theorem bindParams_named {value : Param ν → Option ν} (h : ∀ p ∈ ps, p.kind = .positionalOrKeyword)
    (hva : ∀ p ∈ ps, (kw.lookup p.name).or p.default = value p) :
    bindParams ps [] kw = .ok vs ↔ Forall₂ (fun p kv => kv.1 = p.name ∧ value p = some kv.2) ps vs := by
  induction ps generalizing vs with
  | nil => rw [bindParams_nil, forall₂_nil_left_iff]
  | cons p ps ih =>
    rw [forall_mem_cons] at h hva
    have hk : p.keyword kw = kw.lookup p.name := by rw [Param.keyword, h.1]
    rw [bindParams_cons_nil, forall₂_cons_left_iff, hk, hva.1]
    constructor
    · rintro ⟨v, ws, hv, hws, rfl⟩
      exact ⟨(p.name, v), ws, ⟨rfl, hv⟩, (ih h.2 hva.2).1 hws, rfl⟩
    · rintro ⟨⟨k, v⟩, ws, ⟨rfl, hv⟩, hws, rfl⟩
      exact ⟨v, ws, hv, (ih h.2 hva.2).2 hws, rfl⟩

/-- Positional-only parameters take as many positional arguments and nothing else. -/
theorem bind_positionalOnly {ns : List String} :
    (Signature.mk (ns.map fun n => ⟨n, .positionalOnly, none⟩) none none).bind pos kw = .ok vs ↔
      pos.length = ns.length ∧ kw = [] ∧ vs = ns.zip pos := by
  have filled : ∀ (ns : List String) (pos : List ν) (vs : List (String × ν)),
      bindParams (ns.map fun n => ⟨n, .positionalOnly, none⟩) pos kw = .ok vs ↔
        ns.length ≤ pos.length ∧ vs = ns.zip pos := by
    intro ns
    induction ns with
    | nil => intro pos vs; simp [bindParams_nil]
    | cons n ns ih =>
      intro pos vs
      cases pos with
      | nil => simp [bindParams_cons_nil, Param.keyword]
      | cons v pos => simp [bindParams_cons, Param.keyword, ih, and_assoc]
  have unnamed : (∀ kv ∈ kw, (Signature.mk (ns.map fun n => (⟨n, .positionalOnly, none⟩ : Param ν)) none none).accepts
      kv.1 = true) ↔ kw = [] := by
    rw [eq_nil_iff_forall_not_mem]
    simp [Signature.accepts]
  rw [bind_fixed, unnamed, filled, length_map]
  constructor
  · exact fun ⟨hle, hkw, hge, hvs⟩ => ⟨Nat.le_antisymm hle hge, hkw, hvs⟩
  · exact fun ⟨heq, hkw, hvs⟩ => ⟨Nat.le_of_eq heq, hkw, Nat.le_of_eq heq.symm, hvs⟩

theorem bind_one {n} : (Signature.mk [⟨n, .positionalOrKeyword, none⟩] none none).bind pos kw = .ok vs ↔
      ∃ v, vs = [(n, v)] ∧ (pos = [v] ∧ kw = [] ∨ pos = [] ∧ kw.lookup n = some v ∧ ∀ kv ∈ kw, kv.1 = n) := by
  have named : (∀ kv ∈ kw, (Signature.mk [(⟨n, .positionalOrKeyword, none⟩ : Param ν)] none none).accepts kv.1 = true) ↔
      ∀ kv ∈ kw, kv.1 = n := by
    simp [Signature.accepts, eq_comm]
  rw [bind_fixed, named]
  cases pos with
  | nil =>
    simp only [bindParams_cons_nil, bindParams_nil, Param.keyword, Option.or_none]
    constructor
    · rintro ⟨-, hk, v, ws, hv, rfl, rfl⟩
      exact ⟨v, rfl, .inr ⟨trivial, hv, hk⟩⟩
    · rintro ⟨v, rfl, ⟨h, -⟩ | ⟨-, hv, hk⟩⟩
      · cases h
      · exact ⟨Nat.zero_le _, hk, v, [], hv, rfl, rfl⟩
  | cons v pos =>
    simp only [bindParams_cons, bindParams_nil, Param.keyword]
    constructor
    · rintro ⟨hlen, hk, hno, ws, rfl, rfl⟩
      obtain rfl : pos = [] := eq_nil_of_length_eq_zero (Nat.le_zero.1 (Nat.le_of_succ_le_succ hlen))
      refine ⟨v, rfl, .inl ⟨rfl, ?_⟩⟩
      -- a keyword would be the name of the parameter, which has its value
      cases kw with
      | nil => rfl
      | cons kv kw =>
        rw [lookup_cons_if, if_pos (hk kv mem_cons_self).symm] at hno
        cases hno
    · rintro ⟨w, rfl, ⟨hpos, rfl⟩ | ⟨h, -⟩⟩
      · obtain ⟨rfl, rfl⟩ := cons.inj hpos
        exact ⟨Nat.le_refl _, by simp, rfl, [], rfl, rfl⟩
      · cases h

end Lib.Call
