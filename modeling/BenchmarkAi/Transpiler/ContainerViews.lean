import BenchmarkAi.Transpiler.PodBuilders
/-!
# The containers with one name

A pod of `PodViews` leaves out the environment and the command of a container and the paths
of its mounts. Here the containers with one name are followed as trees, in the order in which
the builders look for the name: an edit by name is made at the head of that list, and the
lists of the other names stay as they are.
-/

open Lib List

namespace BenchmarkAi.Transpiler

/-! ## Containers by name -/

inductive Place
  | main | init
deriving DecidableEq, Repr

def listed (k name : String) (spec : Tree) : List Tree := (listOf k spec).filter (nameOf · = some name)

def containersNamed (name : String) (spec : Tree) : List (Place × Tree) :=
  (listed "containers" name spec).map (Prod.mk .main) ++ (listed "initContainers" name spec).map (Prod.mk .init)

variable {t' spec' : Tree} {volume : String} {xs : List (Place × Tree)} {place : Place} {S : Tree → Prop}

section Lists
variable {k k' name : String} {spec u v : Tree} {ts : List Tree}

theorem listOf_of_attr (h : attr k spec = .ok (.arr ts)) : listOf k spec = ts := listOf_of_items h rfl

/-- A list that is made where there is none has no items. -/
theorem listOf_orEmptyList {t} (h : orEmptyList k t = .ok t') (k' : String) : listOf k' t' = listOf k' t := by
  obtain ⟨u, hu, h⟩ := bind_ok.1 h
  split at h
  · rw [pure_ok.1 h]
  · rename_i hf
    cases h
    by_cases hk : k' = k
    · subst hk
      rw [listOf_put_self hu]
      cases t with
      | obj fs =>
        rw [attr] at hu
        rw [listOf, Tree.get?]
        cases hl : fs.lookup k' with
        | none => rfl
        | some w =>
          rw [hl] at hu
          cases hu
          cases w with
          | arr ts =>
            cases ts with
            | nil => rfl
            | cons _ _ => exact absurd rfl hf
          | _ => rfl
      | _ => cases hu
    · exact listOf_put_ne hk

theorem get?_orEmptyList {t : Tree} (h : orEmptyList k t = .ok t') (hk : k' ≠ k) : t'.get? k' = t.get? k' := by
  obtain ⟨u, -, h⟩ := bind_ok.1 h
  split at h
  · rw [pure_ok.1 h]
  · rw [← pure_ok.1 h]
    exact Tree.get?_put_ne hk t _

theorem nameOf_put_ne {t : Tree} (h : k ≠ "name") : nameOf (t.put k v) = nameOf t :=
  nameOf_congr (Tree.get?_put_ne (Ne.symm h) t v)

theorem splitNamed_ok {r} (h : splitNamed name ts = .ok r) : (r = none ∧ ts.filter (nameOf · = some name) = []) ∨
    ∃ before c after, r = some (before, c, after) ∧ ts = before ++ c :: after ∧ nameOf c = some name ∧
      before.filter (nameOf · = some name) = [] := by
  induction ts generalizing r with
  | nil =>
    cases h
    exact .inl ⟨rfl, rfl⟩
  | cons t ts ih =>
    obtain ⟨b, hb, h⟩ := bind_ok.1 h
    have hn := named_ok hb
    cases b with
    | true =>
      cases h
      exact .inr ⟨[], t, ts, rfl, rfl, of_decide_eq_true hn.symm, rfl⟩
    | false =>
      obtain ⟨r', hr', h⟩ := bind_ok.1 h
      cases h
      rcases ih hr' with ⟨rfl, hno⟩ | ⟨before, c, after, rfl, rfl, hc, hbe⟩
      · refine .inl ⟨rfl, ?_⟩
        rw [filter_cons_of_neg (by simp [← hn]), hno]
      · refine .inr ⟨t :: before, c, after, rfl, rfl, hc, ?_⟩
        rw [filter_cons_of_neg (by simp [← hn]), hbe]

end Lists

theorem containersNamed_congr {name spec} (hm : listOf "containers" spec' = listOf "containers" spec)
    (hi : listOf "initContainers" spec' = listOf "initContainers" spec) :
    containersNamed name spec' = containersNamed name spec := by
  rw [containersNamed, listed, listed, hm, hi]
  rfl

theorem onContainer_containers {name f spec} (hok : onContainer name f spec = .ok spec') :
    ∃ place c ts rest, f c = .ok ts ∧ nameOf c = some name ∧ containersNamed name spec = (place, c) :: rest ∧
      containersNamed name spec' = (ts.filter (nameOf · = some name)).map (Prod.mk place) ++ rest ∧
      ∀ other, other ≠ name → (∀ t ∈ ts, nameOf t ≠ some other) →
        containersNamed other spec' = containersNamed other spec := by
  obtain ⟨u, hu, hok⟩ := bind_ok.1 hok
  obtain ⟨containers, hc, hok⟩ := bind_ok.1 hok
  have hm := listOf_of_items hu hc
  obtain ⟨r, hr, hok⟩ := bind_ok.1 hok
  -- the parts of a list around the edited container, for another name
  have ho (before after ts : List Tree) (c : Tree) (hn : nameOf c = some name) (other : String)
      (hne : other ≠ name) (hts : ∀ t ∈ ts, nameOf t ≠ some other) :
      (before ++ ts ++ after).filter (nameOf · = some other) = (before ++ c :: after).filter (nameOf · = some other) := by
    have hno : ts.filter (nameOf · = some other) = [] := filter_eq_nil_iff.2 fun t ht => by simpa using hts t ht
    rw [filter_append, filter_append, hno, append_nil, filter_append,
      filter_cons_of_neg (by simpa [hn] using Ne.symm hne)]
  rcases splitNamed_ok hr with ⟨rfl, hno⟩ | ⟨before, c, after, rfl, heq, hn, hb⟩
  · obtain ⟨w, hw, hok⟩ := bind_ok.1 hok
    obtain ⟨initContainers, hi, hok⟩ := bind_ok.1 hok
    have hin := listOf_of_items hw hi
    obtain ⟨r, hr, hok⟩ := bind_ok.1 hok
    rcases splitNamed_ok hr with ⟨rfl, -⟩ | ⟨before, c, after, rfl, heq, hn, hb⟩
    · obtain ⟨names, -, hok⟩ := bind_ok.1 hok
      cases hok
    · obtain ⟨ts, hts, hok⟩ := bind_ok.1 hok
      cases hok
      refine ⟨.init, c, ts, (after.filter (nameOf · = some name)).map (Prod.mk .init), hts, hn, ?_, ?_, ?_⟩
      · simp [containersNamed, listed, hm, hno, hin, heq, hb, hn]
      · rw [containersNamed, listed, listed, listOf_put_ne (by decide), listOf_put_self hw, hm, hno]
        simp [hb]
      · intro other hne ho'
        rw [containersNamed, containersNamed, listed, listed, listed, listed, listOf_put_ne (by decide),
          listOf_put_self hw, ho before after ts c hn other hne ho', hin, heq]
  · obtain ⟨ts, hts, hok⟩ := bind_ok.1 hok
    cases hok
    refine ⟨.main, c, ts, (after.filter (nameOf · = some name)).map (Prod.mk .main) ++
      (listed "initContainers" name spec).map (Prod.mk .init), hts, hn, ?_, ?_, ?_⟩
    · simp [containersNamed, listed, hm, heq, hb, hn]
    · rw [containersNamed, listed, listed, listOf_put_self hu, listOf_put_ne (by decide)]
      simp [hb, listed]
    · intro other hne ho'
      rw [containersNamed, containersNamed, listed, listed, listed, listed, listOf_put_self hu,
        listOf_put_ne (by decide), ho before after ts c hn other hne ho', hm, heq]

/-! ## Volumes that are removed -/

theorem listed_dropVolume {other} (hne : other ≠ volume) {t} (h : dropVolume volume t = .ok t') :
    listed "volumeMounts" other t' = listed "volumeMounts" other t := by
  obtain ⟨ms, hms, hl, -⟩ := dropVolume_ok h
  rw [listed, hl]
  exact filter_dropMounts (fun m hm => by simpa [hm] using Ne.symm hne) hms

/-- Two lists of containers, where each container has become another one with its name. -/
theorem forall₂_containersNamed (R : Tree → Tree → Prop) {spec} (hR : ∀ t t', R t t' → nameOf t' = nameOf t)
    (hm : Forall₂ R (listOf "containers" spec) (listOf "containers" spec'))
    (hi : Forall₂ R (listOf "initContainers" spec) (listOf "initContainers" spec')) (name : String) :
    Forall₂ (fun x y => x.1 = y.1 ∧ R x.2 y.2) (containersNamed name spec) (containersNamed name spec') := by
  have hl (place : Place) {ts us : List Tree} (h : Forall₂ R ts us) :
      Forall₂ (fun x y => x.1 = y.1 ∧ R x.2 y.2) ((ts.filter (nameOf · = some name)).map (Prod.mk place))
        ((us.filter (nameOf · = some name)).map (Prod.mk place)) := by
    induction h with
    | nil => exact .nil
    | @cons t u ts us htu _ ih =>
      rw [filter_cons, filter_cons, hR t u htu]
      split
      · exact .cons ⟨rfl, htu⟩ ih
      · exact ih
  exact rel_append (hl .main hm) (hl .init hi)

/-! ## Rules

`Turns replica name P f Q`: when the edit `f` succeeds and the containers with the name, in the
pod spec of `replica`, satisfy `P`, they satisfy `Q` afterwards. A step of a builder may also
use and change the variables that the builder keeps.
-/

def Finds (replica : Option String) (name : String) (P : List (Place × Tree) → Prop) (root : Tree) : Prop :=
  ∃ spec, root.getPath? (replicaPath replica) = some spec ∧ P (containersNamed name spec)

def Turns (replica : Option String) (name : String) (P : List (Place × Tree) → Prop)
    (f : RootObjectHelper → Py RootObjectHelper) (Q : List (Place × Tree) → Prop) : Prop :=
  ∀ h h', f h = .ok h' → Finds replica name P h.root → Finds replica name Q h'.root

def Tracks (replica : Option String) (name : String) (P : List (String × Tree) → List (Place × Tree) → Prop) (s : Step)
    (Q : List (String × Tree) → List (Place × Tree) → Prop) : Prop :=
  ∀ b b', s b = .ok b' → Finds replica name (P b.internal_env_vars) b.root.root →
    Finds replica name (Q b'.internal_env_vars) b'.root.root

def SameContainers (replica : Option String) (name : String) (h h' : RootObjectHelper) : Prop :=
  ∀ P, Finds replica name P h.root → Finds replica name P h'.root

instance {replica : Option String} {name : String} : IsPreorder _ (SameContainers replica name) where
  refl _ _ := id
  trans _ _ _ h₁ h₂ P := h₂ P ∘ h₁ P

abbrev Keeps (replica : Option String) (name : String) (f : RootObjectHelper → Py RootObjectHelper) : Prop :=
  Within (SameContainers replica name) f

def Elsewhere (r : Option String) (name : String) (r' : Option String) (container : String) : Prop :=
  Akin r r' ∧ (r ≠ r' ∨ name ≠ container)

def Only (places : List Place) (R : Tree → Prop) (xs : List (Place × Tree)) : Prop :=
  Forall₂ (fun place x => x.1 = place ∧ R x.2) places xs

theorem only_nil {R} : Only [] R xs ↔ xs = [] := forall₂_nil_left_iff

theorem only_one {R} : Only [place] R xs ↔ ∃ t, xs = [(place, t)] ∧ R t := by
  constructor
  · intro h
    cases h with
    | @cons _ x _ _ hx hnil =>
      cases hnil
      exact ⟨x.2, by rw [← hx.1], hx.2⟩
  · rintro ⟨t, rfl, ht⟩
    exact .cons ⟨rfl, ht⟩ .nil

/-- The same places, after each container has become another one with its name. -/
theorem Only.of_lists {places R name spec} (T : Tree → Tree → Prop)
    (h : Only places R (containersNamed name spec)) (hn : ∀ t t', T t t' → nameOf t' = nameOf t)
    (hm : Forall₂ T (listOf "containers" spec) (listOf "containers" spec'))
    (hi : Forall₂ T (listOf "initContainers" spec) (listOf "initContainers" spec')) (hT : ∀ t t', T t t' → R t → S t') :
    Only places S (containersNamed name spec') := by
  have hall := forall₂_containersNamed T hn hm hi name
  generalize containersNamed name spec = xs at h hall
  generalize containersNamed name spec' = ys at hall ⊢
  induction h generalizing ys with
  | nil =>
    cases hall
    exact .nil
  | cons hx _ ih =>
    cases hall with
    | cons hy hys => exact .cons ⟨hy.1 ▸ hx.1, hT _ _ hy.2 hx.2⟩ (ih _ hys)

section Rules
variable {r r' : Option String} {name : String} {P Q R : List (Place × Tree) → Prop}
  {f g : RootObjectHelper → Py RootObjectHelper}

theorem Finds.imp {root} (h : Finds r name P root) (hPQ : ∀ xs, P xs → Q xs) : Finds r name Q root := by
  obtain ⟨spec, hp, hP⟩ := h
  exact ⟨spec, hp, hPQ _ hP⟩

theorem Turns.bind (hf : Turns r name P f Q) (hg : Turns r name Q g R) : Turns r name P (fun h => f h >>= g) R := by
  intro h h'' hok hP
  obtain ⟨h', h₁, h₂⟩ := bind_ok.1 hok
  exact hg h' h'' h₂ (hf h h' h₁ hP)

theorem turns_keeps (hf : Keeps r name f) : Turns r name P f P := fun h h' hok => hf h h' hok P

theorem keeps_of_root (hf : ∀ h h', f h = .ok h' → h'.root = h.root) : Keeps r name f := by
  intro h h' hok P hP
  rwa [hf h h' hok]

theorem turns_onPodSpec {f}
    (hf : ∀ spec spec', f spec = .ok spec' → P (containersNamed name spec) → Q (containersNamed name spec')) :
    Turns r name P (onPodSpec r f) Q := by
  intro h h' hok hP
  obtain ⟨spec, hp, hP⟩ := hP
  obtain ⟨spec', hs', hr⟩ := onPodSpec_root hp hok
  exact ⟨spec', hr ▸ Tree.getPath?_set_self hp spec', hf spec spec' hs' hP⟩

theorem keeps_onPodSpec_ne {a b} (h : a ≠ b) (f : Tree → Py Tree) : Keeps (some a) name (onPodSpec (some b) f) := by
  intro h₀ h₁ hok P hP
  obtain ⟨spec, hp, hP⟩ := hP
  exact ⟨spec, getPath?_onPodSpec_ne h hp hok, hP⟩

/-- An edit of a pod spec, of the one that is looked at or of another one. -/
theorem turns_onPodSpec_akin (hr : Akin r r') {f}
    (hf : r = r' → ∀ spec spec', f spec = .ok spec' → P (containersNamed name spec) → P (containersNamed name spec')) :
    Turns r name P (onPodSpec r' f) P := by
  by_cases heq : r = r'
  · subst heq
    exact turns_onPodSpec (hf rfl)
  · cases r with
    | none =>
      cases r' with
      | none => exact absurd rfl heq
      | some b => cases hr
    | some a =>
      cases r' with
      | none => cases hr
      | some b => exact turns_keeps (keeps_onPodSpec_ne (fun h => heq (congrArg some h)) f)

theorem keeps_onPodSpec (hr : Akin r r') {f}
    (hf : ∀ spec spec', f spec = .ok spec' → containersNamed name spec' = containersNamed name spec) :
    Keeps r name (onPodSpec r' f) := by
  intro h h' hok P
  refine turns_onPodSpec_akin hr (fun _ spec spec' hok hP => ?_) h h' hok
  rwa [hf spec spec' hok]

end Rules

section StepRules
variable {replica : Option String} {name : String} {P Q R : List (String × Tree) → List (Place × Tree) → Prop} {s t : Step}

theorem tracks_edit {f} (hf : ∀ env, Turns replica name (P env) f (Q env)) : Tracks replica name P (edit f) Q := by
  intro b b' hok hP
  obtain ⟨h, hh, hok⟩ := bind_ok.1 hok
  cases hok
  exact hf b.internal_env_vars b.root h hh hP

theorem tracks_still (hs : ∀ K, Within (Onward K (SameContainers replica name)) s) : Tracks replica name P s P := by
  intro b b' hok hP
  obtain ⟨hK, hR⟩ := hs (· = b.internal_env_vars) b b' hok
  rw [hK rfl]
  exact hR _ hP

theorem tracks_keeps {f} (hf : Keeps replica name f) : Tracks replica name P (edit f) P :=
  tracks_still fun _ => within_edit hf

theorem tracks_pure : Tracks replica name P pure P := by
  intro b b' hok hP
  rwa [← pure_ok.1 hok]

theorem Tracks.weaken (hs : Tracks replica name P s Q) (hQR : ∀ env xs, Q env xs → R env xs) :
    Tracks replica name P s R := fun b b' hok hP => (hs b b' hok hP).imp (hQR b'.internal_env_vars)

theorem Tracks.comp (hs : Tracks replica name P s Q) (ht : Tracks replica name Q t R) :
    Tracks replica name P (s >=> t) R := by
  intro b b'' hok hP
  obtain ⟨b', h₁, h₂⟩ := kleisli_ok.1 hok
  exact ht b' b'' h₂ (hs b b' h₁ hP)

theorem Tracks.doIf (c : Bool) (hs : Tracks replica name P s P) : Tracks replica name P (Transpiler.doIf c s) P := by
  cases c with
  | true => exact hs
  | false => exact tracks_pure

end StepRules

/-! ## The edits -/

section Edits
variable {r r' : Option String} {name container : String}

theorem allowsPod_containers (hr : Akin r r') {ks} (hk : "containers" ∉ ks ∧ "initContainers" ∉ ks) :
    AllowsPod (SameContainers r name) r' ks := fun _ hf => keeps_onPodSpec hr fun spec spec' hok =>
  containersNamed_congr (listOf_congr (hf spec spec' hok _ hk.1)) (listOf_congr (hf spec spec' hok _ hk.2))

theorem keeps_setServiceAccount (hr : Akin r r') (account : String) : Keeps r name (setServiceAccount account r') :=
  within_setServiceAccount (allowsPod_containers hr (by decide)) account

theorem keeps_removeAffinity (hr : Akin r r') : Keeps r name (removeAffinity r') :=
  within_removeAffinity (allowsPod_containers hr (by decide))

theorem keeps_onContainer (he : Elsewhere r name r' container) {f}
    (hf : ∀ c ts, nameOf c = some container → f c = .ok ts → ∀ t ∈ ts, nameOf t = some container) :
    Keeps r name (onPodSpec r' (onContainer container f)) := by
  obtain ⟨hr, hne⟩ := he
  intro h h' hok P
  refine turns_onPodSpec_akin hr (fun hs spec spec' hok hP => ?_) h h' hok
  have hn : name ≠ container := hne.resolve_left (not_not.2 hs)
  obtain ⟨place, c, ts, rest, hts, hc, -, -, ho⟩ := onContainer_containers hok
  rw [ho name hn]
  · exact hP
  · intro t ht heq
    rw [hf c ts hc hts t ht] at heq
    exact hn (Option.some.inj heq).symm

theorem keeps_editContainer (he : Elsewhere r name r' container) {f}
    (hf : ∀ t t', f t = .ok t' → nameOf t' = nameOf t) : Keeps r name (editContainer container r' f) := by
  apply keeps_onContainer he
  intro c ts hc hts t ht
  obtain ⟨t', ht', hts⟩ := bind_ok.1 hts
  cases hts
  rw [mem_singleton.1 ht, hf c t' ht', hc]

theorem allows_containers (he : Elsewhere r name r' container) {ks} (hk : "name" ∉ ks) :
    Allows (SameContainers r name) container r' ks :=
  fun _ hf => keeps_editContainer he fun t t' hok => nameOf_congr (hf t t' hok _ hk)

theorem keeps_removeContainer (he : Elsewhere r name r' container) : Keeps r name (removeContainer container r') := by
  apply keeps_onContainer he
  intro c ts hc hts t ht
  cases hts
  cases ht

/-- The edit is made at the first container with the name. -/
theorem turns_editFirst {P Q f}
    (hf : ∀ place t t' rest, f t = .ok t' → P ((place, t) :: rest) → Q ((place, t') :: rest) ∧ nameOf t' = nameOf t) :
    Turns r name P (editContainer name r f) Q := by
  refine turns_onPodSpec fun spec spec' hok hP => ?_
  obtain ⟨place, c, ts, rest, hts, hc, hold, hnew, -⟩ := onContainer_containers hok
  obtain ⟨t', ht', hts⟩ := bind_ok.1 hts
  cases hts
  rw [hold] at hP
  obtain ⟨hQ, hn⟩ := hf place c t' rest ht' hP
  rw [hnew, filter_cons_of_pos (by simp [hn, hc])]
  exact hQ

theorem turns_editContainer {R f} (hf : ∀ t t', f t = .ok t' → R t → S t' ∧ nameOf t' = nameOf t) :
    Turns r name (Only [place] R) (editContainer name r f) (Only [place] S) := by
  refine turns_editFirst fun _ t t' rest hok hP => ?_
  cases hP with
  | cons hx hnil =>
    cases hnil
    obtain ⟨hS, hn⟩ := hf t t' hok hx.2
    exact ⟨.cons ⟨hx.1, hS⟩ .nil, hn⟩

theorem turns_editContainer_same {places R f} (hf : ∀ t t', f t = .ok t' → R t → R t' ∧ nameOf t' = nameOf t) :
    Turns r name (Only places R) (editContainer name r f) (Only places R) := by
  refine turns_editFirst fun _ t t' rest hok hP => ?_
  cases hP with
  | cons hx hr =>
    obtain ⟨hR, hn⟩ := hf t t' hok hx.2
    exact ⟨.cons ⟨hx.1, hR⟩ hr, hn⟩

theorem turns_removeContainer {R} : Turns r name (Only [place] R) (removeContainer name r) (Only [] S) := by
  refine turns_onPodSpec fun spec spec' hok hP => ?_
  obtain ⟨place', c, ts, rest, hts, hc, hold, hnew, -⟩ := onContainer_containers hok
  cases hts
  rw [hold] at hP
  cases hP with
  | cons _ hnil =>
    cases hnil
    rw [hnew]
    exact .nil

theorem withoutVolume_ok {spec : Tree} (hok : withoutVolume volume spec = .ok spec') :
    ∃ u before v after mains inits, attr "volumes" spec = .ok u ∧ listOf "volumes" spec = before ++ v :: after ∧
      nameOf v = some volume ∧
      Forall₂ (fun t t' => dropVolume volume t = .ok t') (listOf "containers" spec) mains ∧
      Forall₂ (fun t t' => dropVolume volume t = .ok t') (listOf "initContainers" spec) inits ∧
      spec' = ((spec.put "volumes" (.arr (before ++ after))).put "containers" (.arr mains)).put "initContainers"
        (.arr inits) := by
  obtain ⟨u, hu, hok⟩ := bind_ok.1 hok
  obtain ⟨volumes, hvo, hok⟩ := bind_ok.1 hok
  obtain ⟨r, hr, hok⟩ := bind_ok.1 hok
  rcases splitNamed_ok hr with ⟨rfl, -⟩ | ⟨before, v, after, rfl, rfl, hv, -⟩
  · obtain ⟨names, -, hok⟩ := bind_ok.1 hok
    cases hok
  · obtain ⟨w, hw, hok⟩ := bind_ok.1 hok
    obtain ⟨mains, hm, hok⟩ := bind_ok.1 hok
    obtain ⟨mains', hm', hok⟩ := bind_ok.1 hok
    obtain ⟨w', hw', hok⟩ := bind_ok.1 hok
    obtain ⟨inits, hi, hok⟩ := bind_ok.1 hok
    obtain ⟨inits', hi', hok⟩ := bind_ok.1 hok
    rw [listOf_of_items hw hm, listOf_of_items hw' hi]
    exact ⟨u, before, v, after, mains', inits', hu, listOf_of_items hu hvo, hv, forall₂_of_mapM hm',
      forall₂_of_mapM hi', (pure_ok.1 hok).symm⟩

theorem withoutVolume_lists {spec} (hok : withoutVolume volume spec = .ok spec') :
    Forall₂ (fun t t' => dropVolume volume t = .ok t') (listOf "containers" spec) (listOf "containers" spec') ∧
    Forall₂ (fun t t' => dropVolume volume t = .ok t') (listOf "initContainers" spec) (listOf "initContainers" spec') := by
  obtain ⟨u, before, v, after, mains, inits, hu, -, -, hm, hi, rfl⟩ := withoutVolume_ok hok
  obtain ⟨u₁, hu₁⟩ := attr_put hu "volumes" (.arr (before ++ after))
  obtain ⟨u₂, hu₂⟩ := attr_put hu₁ "containers" (.arr mains)
  rw [listOf_put_ne (by decide), listOf_put_self hu₁, listOf_put_self hu₂]
  exact ⟨hm, hi⟩

theorem turns_removeVolume {places R} (hf : ∀ t t', dropVolume volume t = .ok t' → R t → S t') :
    Turns r name (Only places R) (removeVolume volume r) (Only places S) := by
  refine turns_onPodSpec fun spec spec' hok hP => ?_
  obtain ⟨hm, hi⟩ := withoutVolume_lists hok
  exact hP.of_lists (fun t t' => dropVolume volume t = .ok t') (fun _ _ => nameOf_dropVolume) hm hi hf

/-- Lists that are missing are made: a main container may get an empty list of mounts. -/
theorem turns_createEmptyFields (hr : Akin r r') {places R}
    (hR : ∀ t t', orEmptyList "volumeMounts" t = .ok t' → R t → R t') :
    Turns r name (Only places R) (createEmptyFields r') (Only places R) := by
  refine turns_onPodSpec_akin hr fun _ spec spec' hok hP => ?_
  obtain ⟨spec₁, h₁, hok⟩ := bind_ok.1 hok
  obtain ⟨spec₂, h₂, hok⟩ := bind_ok.1 hok
  obtain ⟨u, hu, hok⟩ := bind_ok.1 hok
  obtain ⟨mains, hm, hok⟩ := bind_ok.1 hok
  obtain ⟨mains', hm', hok⟩ := bind_ok.1 hok
  cases hok
  have hs (k : String) : listOf k spec₂ = listOf k spec := (listOf_orEmptyList h₂ k).trans (listOf_orEmptyList h₁ k)
  refine hP.of_lists (fun t t' => t' = t ∨ orEmptyList "volumeMounts" t = .ok t') (fun t t' h => ?_) ?_ ?_
    fun t t' h hRt => ?_
  · rcases h with rfl | h
    · rfl
    · exact nameOf_congr (get?_orEmptyList h (by decide))
  · rw [listOf_put_self hu, ← hs, listOf_of_items hu hm]
    exact (forall₂_of_mapM hm').imp fun _ _ h => .inr h
  · rw [listOf_put_ne (by decide), hs]
    exact forall₂_same.2 fun _ _ => .inl rfl
  · rcases h with rfl | h
    · exact hRt
    · exact hR t t' h hRt

theorem keeps_addLabel (hr : r ≠ some "metadata") (key : String) (value : Tree) : Keeps r name (addLabel key value) := by
  intro h h' hok P hP
  rw [root_addLabel hok]
  obtain ⟨spec, hp, hP⟩ := hP
  have hl (k : String) (hk : k ≠ "metadata") : listOf k (spec.mapDicts (setLabel key value)) = listOf k spec := by
    rw [listOf, listOf, get?_mapDicts_ne key value spec hk]
    cases spec.get? k with
    | none => rfl
    | some t => cases t <;> rfl
  refine ⟨_, getPath?_mapDicts hp (metadata_not_mem hr), ?_⟩
  rwa [containersNamed_congr (hl _ (by decide)) (hl _ (by decide))]

theorem keeps_editConfigMap (config_map : String) (f : Tree → Py Tree) : Keeps r name (editConfigMap config_map f) := by
  apply keeps_of_root
  intro h h' hok
  obtain ⟨config_maps, -, hok⟩ := bind_ok.1 hok
  split at hok
  · rw [← pure_ok.1 hok]
  · obtain ⟨names, -, hok⟩ := bind_ok.1 hok
    cases hok

theorem keeps_addTcpPorts (service : String) (ports : List Int) : Keeps r name (addTcpPorts service ports) := by
  apply keeps_of_root
  intro h h' hok
  obtain ⟨services, -, hok⟩ := bind_ok.1 hok
  rw [← pure_ok.1 hok]

theorem Commanded.nameOf {o ml c c'} (h : Commanded o ml c c') : nameOf c' = nameOf c := nameOf_congr (h.get? (by decide))

end Edits

end BenchmarkAi.Transpiler
