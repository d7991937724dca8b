import BenchmarkAi.Transpiler.ContainerBuilders
import BenchmarkAi.Transpiler.Puller
/-!
# Where the data is mounted

`add_data_volume_mounts` tells the data puller where to put each source, and mounts that place at
the path of the source. Two loops do this, each with the names that `_get_data_mounts` has given to
the paths: a path has the index of the first source with it in its name.
-/

open Lib List

namespace BenchmarkAi.Transpiler

/-! ## Edits of a pod spec, one after the other -/

variable {spec spec' t' : Tree} {replica : Option String} {f : Tree → Py Tree} {volume : String}

section Paths
variable {t u v w : Tree} {k k' : String} {ks ls : List String}

theorem attrs_cons (k : String) (ks : List String) (t : Tree) : attrs (k :: ks) t = attr k t >>= attrs ks :=
  foldlM_cons

theorem getD_of_attr (h : attr k t = .ok u) : (t.get? k).getD (.obj []) = u := by
  cases t with
  | obj fs => exact Except.ok.inj h
  | _ => cases h

theorem attr_put_self (h : attr k' t = .ok u) (v : Tree) : attr k (t.put k v) = .ok v := by
  cases t with
  | obj fs =>
    show Except.ok (((assign k v fs).lookup k).getD _) = _
    rw [lookup_assign_self]
    rfl
  | _ => cases h

theorem attr_put_ne (h : k' ≠ k) : attr k' (t.put k v) = attr k' t := by
  cases t with
  | obj fs =>
    show Except.ok (((assign k v fs).lookup k').getD _) = Except.ok ((fs.lookup k').getD _)
    rw [lookup_assign_ne h]
  | _ => rfl

theorem truthy_put (h : attr k' t = .ok u) (k : String) (v : Tree) : (t.put k v).truthy = true := by
  cases t with
  | obj fs => cases fs with
    | nil => rfl
    | cons f fs =>
      show (!(assign k v (f :: fs)).isEmpty) = true
      rw [assign]
      split <;> rfl
  | _ => cases h

theorem attrs_set (h : attrs ks t = .ok u) (v : Tree) : attrs ks (t.set ks v) = .ok v := by
  induction ks generalizing t with
  | nil => rfl
  | cons k ks ih =>
    rw [attrs_cons] at h ⊢
    obtain ⟨w, hw, hu⟩ := bind_ok.1 h
    rw [Tree.set, attr_put_self hw, getD_of_attr hw]
    exact ih hu

theorem attrs_set_above (h : attrs (ks ++ k :: ls) t = .ok u) (v : Tree) :
    ∃ w, attrs ks (t.set (ks ++ k :: ls) v) = .ok w ∧ w.truthy = true := by
  induction ks generalizing t with
  | nil =>
    obtain ⟨w, hw, -⟩ := bind_ok.1 h
    exact ⟨_, rfl, truthy_put hw k _⟩
  | cons a ks ih =>
    obtain ⟨w, hw, hu⟩ := bind_ok.1 h
    rw [cons_append, attrs_cons, Tree.set, attr_put_self hw, getD_of_attr hw]
    exact ih hu

theorem attrs_set_ne (hne : k' ≠ k) (h : attrs (ks ++ k :: ls) t = .ok u) (v : Tree) :
    attrs (ks ++ k' :: ls') (t.set (ks ++ k :: ls) v) = attrs (ks ++ k' :: ls') t := by
  induction ks generalizing t with
  | nil =>
    rw [nil_append, nil_append, attrs_cons, attrs_cons, Tree.set, attr_put_ne hne]
  | cons a ks ih =>
    rw [cons_append, attrs_cons] at h
    obtain ⟨w, hw, hu⟩ := bind_ok.1 h
    rw [cons_append, cons_append, attrs_cons, attrs_cons, Tree.set, attr_put_self hw, getD_of_attr hw, hw]
    exact ih hu

theorem attrs_append (ks ls : List String) (t : Tree) : attrs (ks ++ ls) t = attrs ks t >>= attrs ls := foldlM_append

theorem if_true_ok {b} {α : Type} {x y : Py α} {a : α} (h : (if b = true then x else y) = .ok a) :
    (b = true ∧ x = .ok a) ∨ (b = false ∧ y = .ok a) := by
  cases b with
  | true => exact .inl ⟨rfl, h⟩
  | false => exact .inr ⟨rfl, h⟩

theorem podSpecPath_set {root : Tree} {path} (hp : podSpecPath root replica = .ok path)
    (hsp : attrs path root = .ok spec) (htr : spec'.truthy = true)
    (hte : attr "template" spec' = attr "template" spec) : podSpecPath (root.set path spec') replica = .ok path := by
  cases replica with
  | some replica =>
    obtain ⟨s, hs, hif⟩ := bind_ok.1 hp
    rcases if_true_ok hif with ⟨-, h⟩ | ⟨-, h⟩
    · cases h
      exact bind_ok.2 ⟨spec', attrs_set hsp spec', if_pos htr⟩
    · cases h
  | none =>
    obtain ⟨t, ht, hif⟩ := bind_ok.1 hp
    rcases if_true_ok hif with ⟨-, h⟩ | ⟨hf, h⟩
    · cases h
      obtain ⟨w, hw, hwt⟩ := @attrs_set_above _ _ "spec" ["spec", "template"] [] hsp spec'
      exact bind_ok.2 ⟨w, hw, if_pos hwt⟩
    · obtain ⟨j, hj, hif⟩ := bind_ok.1 h
      rcases if_true_ok hif with ⟨-, h⟩ | ⟨-, h⟩
      · obtain ⟨i, hi, hif⟩ := bind_ok.1 h
        have ho (ls : List String) (hls : attrs (["spec"] ++ "jobTemplate" :: ls) root = .ok spec) :
            attrs ["spec", "template"] (root.set (["spec"] ++ "jobTemplate" :: ls) spec') = .ok t :=
          (attrs_set_ne (by decide) hls spec').trans ht
        rcases if_true_ok hif with ⟨-, h⟩ | ⟨hn, h⟩
        · cases h
          obtain ⟨w, hw, hwt⟩ := @attrs_set_above _ _ "spec" ["spec", "jobTemplate"] ["template", "spec"] hsp spec'
          obtain ⟨x, hx, hxt⟩ := @attrs_set_above _ _ "spec" ["spec", "jobTemplate", "spec", "template"] [] hsp spec'
          refine bind_ok.2 ⟨t, ho _ hsp, ?_⟩
          rw [if_neg (by simp [hf])]
          refine bind_ok.2 ⟨w, hw, ?_⟩
          rw [if_pos hwt]
          exact bind_ok.2 ⟨x, hx, if_pos hxt⟩
        · cases h
          obtain ⟨w, hw, hwt⟩ := @attrs_set_above _ _ "spec" ["spec", "jobTemplate"] [] hsp spec'
          have hi' : attrs (["spec", "jobTemplate", "spec"] ++ ["template"])
              (root.set ["spec", "jobTemplate", "spec"] spec') = .ok i := by
            have hold : attrs (["spec", "jobTemplate", "spec"] ++ ["template"]) root = .ok i := hi
            rw [attrs_append, hsp] at hold
            rw [attrs_append, attrs_set hsp spec', ← hold]
            show attrs ["template"] spec' = attrs ["template"] spec
            rw [attrs_cons, attrs_cons, hte]
          refine bind_ok.2 ⟨t, ho _ hsp, ?_⟩
          rw [if_neg (by simp [hf])]
          refine bind_ok.2 ⟨w, hw, ?_⟩
          rw [if_pos hwt]
          exact bind_ok.2 ⟨i, hi', if_neg (by simp [hn])⟩
      · cases h

/-- An edit that keeps the fields of the pod spec apart from its lists is seen by the next one. -/
theorem onPodSpec_getPodSpec {h h'}
    (hf : ∀ spec spec', f spec = .ok spec' → spec'.truthy = true ∧ attr "template" spec' = attr "template" spec)
    (hok : onPodSpec replica f h = .ok h') :
    ∃ spec spec', getPodSpec h replica = .ok spec ∧ f spec = .ok spec' ∧ getPodSpec h' replica = .ok spec' := by
  obtain ⟨path, hp, hok⟩ := bind_ok.1 hok
  obtain ⟨spec, hs, hok⟩ := bind_ok.1 hok
  obtain ⟨spec', hs', hok⟩ := bind_ok.1 hok
  cases hok
  obtain ⟨ht, hte⟩ := hf spec spec' hs'
  exact ⟨spec, spec', bind_ok.2 ⟨path, hp, hs⟩, hs', bind_ok.2 ⟨path, podSpecPath_set hp hs ht hte, attrs_set hs spec'⟩⟩

theorem withoutVolume_spec (hok : withoutVolume volume spec = .ok spec') :
    spec'.truthy = true ∧ attr "template" spec' = attr "template" spec := by
  obtain ⟨u, before, v, after, mains, inits, hu, -, -, -, -, rfl⟩ := withoutVolume_ok hok
  obtain ⟨u₁, hu₁⟩ := attr_put hu "volumes" (.arr (before ++ after))
  obtain ⟨u₂, hu₂⟩ := attr_put hu₁ "containers" (.arr mains)
  refine ⟨truthy_put hu₂ _ _, ?_⟩
  rw [attr_put_ne (by decide), attr_put_ne (by decide), attr_put_ne (by decide)]

end Paths

def found (name : String) (spec : Tree) : Option Tree := (containersNamed name spec).head?.map Prod.snd

section Found
variable {r : Option String} {name other : String} {h h' : RootObjectHelper}

end Found

/-! ## The names of the paths -/

section Names

variable (data_sources : List DownloadableContent)

end Names

/-! ## Sources, entries and mounts -/

section Reached
variable {o : Outside} {config : BaiConfig} {data_sources : List DownloadableContent} {objects : List String} {bucket : String}
  {container : String} {r : Option String} {h h' : RootObjectHelper}

end Reached

end BenchmarkAi.Transpiler
