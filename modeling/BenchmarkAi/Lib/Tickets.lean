import Mathlib.Logic.Function.Basic
import Mathlib.Logic.Relation
/-!
# Tickets served in order

What a fair lock is for, with no mention of how it is kept. Requests arrive with
increasing tickets. A request is admitted when every conflicting request with a
smaller ticket has left. Then no two conflicting requests are ever in at once.
-/

namespace Lib.Tickets

inductive Phase
  | waiting | holding | gone
deriving DecidableEq, Repr

abbrev State (κ : Type) := Nat → Option (κ × Phase)

variable {κ : Type} (conflict : κ → κ → Prop)

def Served (s : State κ) (r : Nat) (k : κ) : Prop :=
  ∀ r' < r, ∀ k' ph, s r' = some (k', ph) → conflict k k' → ph = .gone

inductive Step : State κ → State κ → Prop
  | arrive {s} (n : Nat) (k : κ) (hn : ∀ r, n ≤ r → s r = none) :
      Step s (Function.update s n (some (k, .waiting)))
  | grant {s} (r : Nat) (k : κ) (hr : s r = some (k, .waiting)) (hs : Served conflict s r k) :
      Step s (Function.update s r (some (k, .holding)))
  | leave {s} (r : Nat) (k : κ) (hr : s r = some (k, .holding)) :
      Step s (Function.update s r (some (k, .gone)))

def InOrder (s : State κ) : Prop :=
  ∀ r k ph, s r = some (k, ph) → ph ≠ .waiting → Served conflict s r k

variable {conflict}

theorem inOrder_init : InOrder conflict (fun _ => none : State κ) := by
  intro r k ph h
  cases h

theorem served_update {s r n} {k : κ} {v : κ × Phase} (h : Served conflict s r k)
    (hv : n < r → ∀ k' ph, s n = some (k', ph) → v.1 = k' ∧ (ph = .gone → v.2 = .gone)) (hn : n < r → s n ≠ none) :
    Served conflict (Function.update s n (some v)) r k := by
  intro r' hlt k' ph hr' hc
  by_cases e : r' = n
  · subst e
    rw [Function.update_self, Option.some.injEq] at hr'
    subst hr'
    cases hs : s r' with
    | none => exact absurd hs (hn hlt)
    | some w =>
      obtain ⟨e1, e2⟩ := hv hlt w.1 w.2 hs
      exact e2 (h r' hlt w.1 w.2 hs (by simpa [← e1] using hc))
  · rw [Function.update_of_ne e] at hr'
    exact h r' hlt k' ph hr' hc

theorem inOrder_step {s t} (hi : InOrder conflict s) (h : Step conflict s t) : InOrder conflict t := by
  cases h with
  | arrive n k hn =>
    intro r kr ph hr hph
    have hne : r ≠ n := fun e => by
      subst e
      rw [Function.update_self, Option.some.injEq, Prod.mk.injEq] at hr
      exact hph hr.2.symm
    rw [Function.update_of_ne hne] at hr
    have hlt : ¬ n < r := fun hlt => by rw [hn r (Nat.le_of_lt hlt)] at hr; cases hr
    exact served_update (hi r kr ph hr hph) (fun h => absurd h hlt) fun h => absurd h hlt
  | grant n k hn hs =>
    intro r kr ph hr hph
    by_cases e : r = n
    · subst e
      rw [Function.update_self, Option.some.injEq] at hr
      obtain ⟨rfl, -⟩ := hr
      exact served_update hs (fun h => absurd h (Nat.lt_irrefl r)) fun h => absurd h (Nat.lt_irrefl r)
    · rw [Function.update_of_ne e] at hr
      refine served_update (hi r kr ph hr hph) (fun _ k' ph' hk' => ?_) fun _ => by simp [hn]
      rw [hn, Option.some.injEq, Prod.mk.injEq] at hk'
      exact ⟨hk'.1, fun hg => by rw [← hk'.2] at hg; cases hg⟩
  | leave n k hn =>
    intro r kr ph hr hph
    have hold : ∃ ph', s r = some (kr, ph') ∧ ph' ≠ .waiting := by
      by_cases e : r = n
      · subst e
        rw [Function.update_self, Option.some.injEq, Prod.mk.injEq] at hr
        exact ⟨.holding, by rw [hn, hr.1], by decide⟩
      · rw [Function.update_of_ne e] at hr
        exact ⟨ph, hr, hph⟩
    obtain ⟨ph', hr', hph'⟩ := hold
    refine served_update (hi r kr ph' hr' hph') (fun _ k' ph'' hk' => ?_) fun _ => by simp [hn]
    rw [hn, Option.some.injEq, Prod.mk.injEq] at hk'
    exact ⟨hk'.1, fun _ => rfl⟩

def Reachable (conflict : κ → κ → Prop) (s : State κ) : Prop :=
  Relation.ReflTransGen (Step conflict) (fun _ => none) s

theorem reachable_inOrder {s} (h : Reachable conflict s) : InOrder conflict s := by
  induction h with
  | refl => exact inOrder_init
  | tail _ hst ih => exact inOrder_step ih hst

/-- Two conflicting requests are never in at once. -/
theorem reachable_exclusive {s} (hs : ∀ k k', conflict k k' → conflict k' k) (h : Reachable conflict s)
    {r r'} {k k' : κ} (hr : s r = some (k, .holding)) (hr' : s r' = some (k', .holding))
    (hc : conflict k k') : r = r' := by
  have hi := reachable_inOrder h
  rcases Nat.lt_trichotomy r r' with hlt | he | hgt
  · have := hi r' k' _ hr' (by decide) r hlt k _ hr (hs _ _ hc)
    cases this
  · exact he
  · have := hi r k _ hr (by decide) r' hgt k' _ hr' hc
    cases this

end Lib.Tickets
