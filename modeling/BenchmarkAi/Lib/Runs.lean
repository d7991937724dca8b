import Mathlib.Data.List.Basic
import Mathlib.Logic.Relation
/-!
# Runs of a partial step function

A component is a state and a step function `step s a` that is `none` when the
label `a` is not enabled in `s`. A run is a list of labels, so a theorem about
every run holds for every interleaving of the parties the labels belong to, and
a concrete run can be evaluated.
-/

open List

namespace Lib

variable {σ α : Type}

/-- The state after the labels, if each was enabled in its turn. -/
def exec (step : σ → α → Option σ) : σ → List α → Option σ
  | s, [] => some s
  | s, a :: as => (step s a).bind fun t => exec step t as

/-- Every step of the run meets `C`, judged in the state before it. -/
def Along (step : σ → α → Option σ) (C : σ → α → Prop) : σ → List α → Prop
  | _, [] => True
  | s, a :: as => C s a ∧ ∀ t, step s a = some t → Along step C t as

variable {step : σ → α → Option σ} {C : σ → α → Prop}

@[simp] theorem exec_nil (s : σ) : exec step s [] = some s := rfl

theorem exec_cons (s : σ) (a : α) (as : List α) : exec step s (a :: as) = (step s a).bind fun t => exec step t as := rfl

variable {s t : σ} {a : α} {as : List α}

theorem exec_cons_some (h : exec step s (a :: as) = some t) : ∃ u, step s a = some u ∧ exec step u as = some t := by
  exact Option.bind_eq_some_iff.1 h

instance decidableAlong [∀ s a, Decidable (C s a)] : ∀ (s : σ) (as : List α), Decidable (Along step C s as)
  | _, [] => isTrue trivial
  | s, a :: as =>
    match h : step s a with
    | none => decidable_of_iff (C s a) ⟨fun hc => ⟨hc, fun t ht => by rw [h] at ht; cases ht⟩, And.left⟩
    | some t =>
      have := decidableAlong t as
      decidable_of_iff (C s a ∧ Along step C t as)
        ⟨fun hc => ⟨hc.1, fun u hu => by rw [h] at hu; cases hu; exact hc.2⟩, fun hc => ⟨hc.1, hc.2 t h⟩⟩

theorem exec_append (s : σ) (as bs : List α) :
    exec step s (as ++ bs) = (exec step s as).bind fun t => exec step t bs := by
  induction as generalizing s with
  | nil => rfl
  | cons a as ih =>
    rw [cons_append, exec_cons, exec_cons, Option.bind_assoc]
    congr 1
    funext u
    exact ih u

theorem exec_concat_some (h : exec step s (as ++ [a]) = some t) : ∃ u, exec step s as = some u ∧ step u a = some t := by
  rw [exec_append] at h
  obtain ⟨u, hu, ha⟩ := Option.bind_eq_some_iff.1 h
  obtain ⟨v, hv, hn⟩ := Option.bind_eq_some_iff.1 ha
  exact ⟨u, hu, by rw [hv]; exact hn⟩

theorem exec_concat {u : σ} (h : exec step s as = some t) (ha : step t a = some u) : exec step s (as ++ [a]) = some u := by
  rw [exec_append, h, Option.bind_some, exec_cons, ha]
  rfl

/-- What every step keeps holds after every run. -/
theorem exec_inv (I : σ → Prop) (hs : ∀ s a t, I s → step s a = some t → I t) (h0 : I s) (h : exec step s as = some t) : I t := by
  induction as generalizing s with
  | nil => simp only [exec_nil, Option.some.injEq] at h; exact h ▸ h0
  | cons a as ih =>
    obtain ⟨u, hu, hr⟩ := exec_cons_some h
    exact ih (hs s a u h0 hu) hr

/-- What every step meeting `C` keeps holds after every run of such steps. -/
theorem exec_inv_along (I : σ → Prop) (hs : ∀ s a t, I s → C s a → step s a = some t → I t) (h0 : I s) (hc : Along step C s as)
    (h : exec step s as = some t) : I t := by
  induction as generalizing s with
  | nil => simp only [exec_nil, Option.some.injEq] at h; exact h ▸ h0
  | cons a as ih =>
    obtain ⟨u, hu, hr⟩ := exec_cons_some h
    exact ih (hs s a u h0 hc.1 hu) (hc.2 u hu) hr

/-- A condition that is read off the end of the run: a step that does not meet `C`
leaves a trace that stays. -/
theorem along_of_trace (P : σ → Prop) (hs : ∀ s a t, step s a = some t → P t → C s a ∧ P s) (h : exec step s as = some t)
    (ht : P t) : Along step C s as ∧ P s := by
  induction as generalizing s with
  | nil => simp only [exec_nil, Option.some.injEq] at h; exact ⟨trivial, h ▸ ht⟩
  | cons a as ih =>
    obtain ⟨u, hu, hr⟩ := exec_cons_some h
    obtain ⟨ha, hpu⟩ := ih hr
    obtain ⟨hc, hp⟩ := hs s a u hu hpu
    refine ⟨⟨hc, fun v hv => ?_⟩, hp⟩
    rw [hu, Option.some.injEq] at hv
    exact hv ▸ ha

/-- If each step is seen from above as a step of `R` or as no change, a run is
seen as a run of `R`. -/
theorem exec_refines {β : Type} (abs : σ → β) (R : β → β → Prop) (I : σ → Prop) (hI : ∀ s a t, I s → step s a = some t → I t)
    (hR : ∀ s a t, I s → step s a = some t → abs t = abs s ∨ R (abs s) (abs t)) (h0 : I s) (h : exec step s as = some t) :
    Relation.ReflTransGen R (abs s) (abs t) := by
  induction as generalizing s with
  | nil => simp only [exec_nil, Option.some.injEq] at h; rw [h]
  | cons a as ih =>
    obtain ⟨u, hu, hr⟩ := exec_cons_some h
    have hre := ih (hI s a u h0 hu) hr
    rcases hR s a u h0 hu with he | hst
    · rwa [← he]
    · exact hre.head hst

/-- A condition on the labels alone holds along any run of such labels. -/
theorem along_of_forall {P : α → Prop} (h : ∀ a ∈ as, P a) (s : σ) : Along step (fun _ a => P a) s as := by
  induction as generalizing s with
  | nil => trivial
  | cons a as ih => exact ⟨h a mem_cons_self, fun t _ => ih (fun b hb => h b (mem_cons_of_mem _ hb)) t⟩

theorem along_and {D} (hc : Along step C s as) (hd : Along step D s as) :
    Along step (fun s a => C s a ∧ D s a) s as := by
  induction as generalizing s with
  | nil => trivial
  | cons a as ih => exact ⟨⟨hc.1, hd.1⟩, fun t ht => ih (hc.2 t ht) (hd.2 t ht)⟩

/-- Where some step of a kind lowers the rank as long as the goal is not met, steps of that
kind meet the goal. -/
theorem exec_reaches {P goal : σ → Prop} {allowed : α → Prop} (rank : σ → Nat)
    (hs : ∀ s, P s → ¬ goal s → ∃ a t, allowed a ∧ step s a = some t ∧ P t ∧ rank t < rank s) (h : P s) :
    ∃ as t, (∀ a ∈ as, allowed a) ∧ exec step s as = some t ∧ P t ∧ goal t := by
  induction hn : rank s using Nat.strongRecOn generalizing s with
  | ind n ih =>
    by_cases hg : goal s
    · exact ⟨[], s, fun _ ha => absurd ha not_mem_nil, rfl, h, hg⟩
    · obtain ⟨a, t, ha, hst, ht, hlt⟩ := hs s h hg
      obtain ⟨as, u, has, he, hu⟩ := ih (rank t) (hn ▸ hlt) ht rfl
      refine ⟨a :: as, u, forall_mem_cons.2 ⟨ha, has⟩, ?_, hu⟩
      rw [exec_cons, hst]
      exact he

/-! ### Total steps -/

/-- Where each step of a total `f` keeps `I` exactly if it meets `C`, all states of a run
have `I` exactly if all its steps meet `C`. -/
theorem forall_prefix_iff_along {f} (I : σ → Prop) (hs : ∀ s a, I s → (I (f s a) ↔ C s a)) (h0 : I s) (as : List α) :
    (∀ pre, pre <+: as → I (pre.foldl f s)) ↔ Along (fun s a => some (f s a)) C s as := by
  induction as generalizing s with
  | nil =>
    refine ⟨fun _ => trivial, fun _ pre hpre => ?_⟩
    rw [prefix_nil.1 hpre]
    exact h0
  | cons a as ih =>
    constructor
    · intro h
      have hf : I (f s a) := h [a] (cons_prefix_cons.2 ⟨rfl, nil_prefix⟩)
      refine ⟨(hs s a h0).1 hf, fun t ht => ?_⟩
      cases ht
      exact (ih hf).1 fun pre hpre => h (a :: pre) (cons_prefix_cons.2 ⟨rfl, hpre⟩)
    · rintro ⟨hc, hr⟩ pre hpre
      have hf : I (f s a) := (hs s a h0).2 hc
      cases pre with
      | nil => exact h0
      | cons b pre =>
        obtain ⟨rfl, hrun⟩ := cons_prefix_cons.1 hpre
        exact (ih hf).2 (hr _ rfl) pre hrun

theorem along_total_iff {f : σ → α → σ} {P : α → Prop} :
    Along (fun s a => some (f s a)) (fun _ a => P a) s as ↔ ∀ a ∈ as, P a := by
  refine ⟨fun h => ?_, fun h => along_of_forall h s⟩
  induction as generalizing s with
  | nil => exact fun _ ha => absurd ha not_mem_nil
  | cons a as ih => exact forall_mem_cons.2 ⟨h.1, ih (h.2 _ rfl)⟩

end Lib
