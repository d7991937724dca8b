import Mathlib.Data.List.Forall2
/-!
# Computations that may fail

What it says about the parts of a computation in `Except` that the whole of it has
succeeded, and lists of results related item by item.
-/

open List

namespace Lib

variable {ε α β γ : Type}

variable {x : Except ε α} {f : α → Except ε β} {b : β} {a : α} {e : ε} {ζ : Type} {as : List α} {bs : List β} {R : α → β → Prop}

theorem bind_ok : (x >>= f) = .ok b ↔ ∃ a, x = .ok a ∧ f a = .ok b := by
  cases x <;> simp [bind, Except.bind]

theorem pure_ok {b : α} : (pure a : Except ε α) = .ok b ↔ a = b := by
  simp [pure, Except.pure]

theorem throw_ok : (throw e : Except ε α) = .ok a ↔ False := by
  simp [throw, throwThe, MonadExceptOf.throw]

theorem map_ok {f} : x.map f = .ok b ↔ ∃ a, x = .ok a ∧ f a = b := by
  cases x <;> simp [Except.map]

theorem mapError_ok {f : ε → ζ} : x.mapError f = .ok a ↔ x = .ok a := by
  cases x <;> simp [Except.mapError]

theorem bind_error : (x >>= f) = .error e ↔ x = .error e ∨ ∃ a, x = .ok a ∧ f a = .error e := by
  cases x <;> simp [bind, Except.bind]

theorem map_of_bind (x : Except ε α) (k : α → Except ε β) (f : β → γ) : (x >>= k).map f = x >>= fun a => (k a).map f := by
  cases x <;> rfl

theorem bind_of_map (x : Except ε α) (f : α → β) (k : β → Except ε γ) : (x.map f >>= k) = x >>= fun a => k (f a) := by
  cases x <;> rfl

theorem kleisli_ok {g} {c : γ} : (f >=> g) a = .ok c ↔ ∃ b, f a = .ok b ∧ g b = .ok c := bind_ok

theorem forM_ok {f : α → Except ε Unit} : as.forM f = .ok () ↔ ∀ a ∈ as, f a = .ok () := by
  induction as with
  | nil => exact ⟨fun _ => nofun, fun _ => rfl⟩
  | cons a as ih =>
    rw [forall_mem_cons, ← ih]
    exact bind_ok.trans ⟨fun ⟨(), h⟩ => h, fun h => ⟨(), h⟩⟩

theorem exists_ok_of_any {p} (h : x.toOption.any p = true) : ∃ a, x = .ok a ∧ p a = true := by
  cases x with
  | error e => cases h
  | ok a => exact ⟨a, rfl, h⟩

theorem forall₂_of_mapM (h : as.mapM f = .ok bs) : Forall₂ (fun a b => f a = .ok b) as bs := by
  induction as generalizing bs with
  | nil =>
    cases h
    exact .nil
  | cons a as ih =>
    rw [mapM_cons] at h
    obtain ⟨b, hb, h⟩ := bind_ok.1 h
    obtain ⟨bs', hbs, h⟩ := bind_ok.1 h
    cases h
    exact .cons hb (ih hbs)

theorem mapM_of_forall₂ (h : Forall₂ (fun a b => f a = .ok b) as bs) : as.mapM f = .ok bs := by
  induction h with
  | nil => rfl
  | cons hb _ ih =>
    rw [mapM_cons, hb, ih]
    rfl

theorem forall₂_comp {S T} (hRS : ∀ a b c, R a b → S b c → T a c) {cs : List γ}
    (h₁ : Forall₂ R as bs) (h₂ : Forall₂ S bs cs) : Forall₂ T as cs := by
  induction h₁ generalizing cs with
  | nil => cases h₂; exact .nil
  | cons hr _ ih =>
    cases h₂ with
    | cons hs hs' => exact .cons (hRS _ _ _ hr hs) (ih hs')

theorem ne_nil_of_forall₂ (h : Forall₂ R as bs) (hne : as ≠ []) : bs ≠ [] := by
  rintro rfl
  cases h
  exact hne rfl

theorem exists_forall₂_iff : (∃ bs, Forall₂ R as bs) ↔ ∀ a ∈ as, ∃ b, R a b := by
  induction as with
  | nil => simp
  | cons a as ih =>
    rw [forall_mem_cons, ← ih]
    constructor
    · rintro ⟨_, hb | ⟨hb, hbs⟩⟩
      exact ⟨⟨_, hb⟩, ⟨_, hbs⟩⟩
    · rintro ⟨⟨b, hb⟩, bs, hbs⟩
      exact ⟨b :: bs, .cons hb hbs⟩

theorem exists_of_forall₂ (h : Forall₂ R as bs) (hb : b ∈ bs) : ∃ a ∈ as, R a b := by
  induction h with
  | nil => cases hb
  | cons hr _ ih =>
    rcases mem_cons.1 hb with rfl | hb
    · exact ⟨_, mem_cons_self, hr⟩
    · obtain ⟨a, ha, hab⟩ := ih hb
      exact ⟨a, mem_cons_of_mem _ ha, hab⟩

/-- A property of all results, told from where they come from. -/
theorem forall_mem_iff_of_forall₂ {P : α → Prop} {Q : β → Prop} (hPQ : ∀ a ∈ as, ∀ b, R a b → (Q b ↔ P a))
    (h : Forall₂ R as bs) : (∀ b ∈ bs, Q b) ↔ ∀ a ∈ as, P a := by
  induction h with
  | nil => simp
  | cons hr _ ih =>
    rw [forall_mem_cons] at hPQ
    rw [forall_mem_cons, forall_mem_cons, hPQ.1 _ hr, ih hPQ.2]

/-! ## Errors -/

def Throws (P : ε → Prop) (x : Except ε α) : Prop := ∀ e, x = .error e → P e

section Throws
variable {P Q : ε → Prop}

theorem throws_pure (a : α) : Throws P (pure a : Except ε α) := by
  intro e h
  cases h

theorem throws_throw (h : P e) : Throws P (throw e : Except ε α) := by
  intro e' he
  cases he
  exact h

theorem Throws.bind (hx : Throws P x) (hf : ∀ a, x = .ok a → Throws P (f a)) : Throws P (x >>= f) := by
  intro e he
  cases x with
  | error e' => exact hx e (congrArg Except.error (Except.error.inj he))
  | ok a => exact hf a rfl e he

theorem Throws.exists_error_iff (hx : Throws P x) : (∃ e, P e ∧ x = .error e) ↔ ∀ a, x ≠ .ok a := by
  cases x with
  | error e => exact ⟨fun _ => nofun, fun _ => ⟨e, hx e rfl, rfl⟩⟩
  | ok a => exact ⟨nofun, fun h => absurd rfl (h a)⟩

theorem Throws.forM {f} (h : ∀ a ∈ as, Throws P (f a)) : Throws P (as.forM f) := by
  induction as with
  | nil => exact throws_pure _
  | cons a as ih =>
    rw [forall_mem_cons] at h
    exact h.1.bind fun _ _ => ih h.2

end Throws

/-! ## Relations between a state and the next -/

/-- What succeeds leads from a state to a related one. -/
def Within (R : α → α → Prop) (f : α → Except ε α) : Prop := ∀ a a', f a = .ok a' → R a a'

section Within
variable {R : α → α → Prop}

theorem within_throw : Within R (fun _ => throw e : α → Except ε α) := fun _ _ h => (throw_ok.1 h).elim

variable [IsPreorder α R]

theorem within_pure : Within R (pure : α → Except ε α) := by
  intro a a' h
  rw [← pure_ok.1 h]
  exact refl_of R a

theorem Within.comp {f g : α → Except ε α} (hf : Within R f) (hg : Within R g) : Within R (f >=> g) := by
  intro a a'' h
  obtain ⟨a', h₁, h₂⟩ := kleisli_ok.1 h
  exact trans_of R (hf a a' h₁) (hg a' a'' h₂)

theorem Within.foldlM {f : β → α → Except ε α} (hf : ∀ b, Within R (f b)) (bs : List β) :
    Within R fun a => bs.foldlM (fun a b => f b a) a := by
  induction bs with
  | nil => exact within_pure
  | cons b bs ih => exact (hf b).comp ih

end Within

end Lib
