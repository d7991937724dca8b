import BenchmarkAi.Executor.Engine
import BenchmarkAi.Fetcher.Volume
import BenchmarkAi.Lib.Runs
/-!
# The jobs of the fetcher in the cluster

`KubernetesDispatcher` makes a job for each fetch, with a volume claim if the content is large, and deletes jobs,
pods and claims by their labels. A step is one call of the Kubernetes API, so that a run is an interleaving of any
number of calls of `dispatch_fetch`, `cancel_all` and `cleanup`; meanwhile the cluster starts pods and collects what is
finished. A call of the API that fails ends the method.
-/

open Lib Lib.Selector List
open BenchmarkAi.Executor (createdByLabel clientIdLabel actionIdLabel)

namespace BenchmarkAi.Dispatcher

structure KubernetesDispatcher where
  service_name : String
  /-- `fetcher_job.volume.min_size`. -/
  min_size : Int
  md5sum : String → String

/-- What is read of a content and of its event. -/
structure Task where
  client_id : String
  action_id : String
  src : String
  size_info : Option ContentSizeInfo := none

def dataSetHashLabel : String := "data-set-md5"

def KubernetesDispatcher.getLabels (d : KubernetesDispatcher) (t : Task) : List (String × String) :=
  [(actionIdLabel, t.action_id), (clientIdLabel, t.client_id), (createdByLabel, d.service_name),
    (dataSetHashLabel, d.md5sum t.src)]

def KubernetesDispatcher.getLabelSelector (d : KubernetesDispatcher) (client_id action_id : String)
    (data_set : Option Task) : String :=
  let selector := Executor.getLabelSelector d.service_name client_id (some action_id)
  match data_set with
  | some t => if action_id = "" then selector else selector ++ "," ++ dataSetHashLabel ++ "=" ++ d.md5sum t.src
  | none => selector

/-- A job is `pending` while `dispatch_fetch` is about to create it. -/
inductive Kind
  | pending
  | job
  | pod
  | claim
deriving DecidableEq

structure Obj where
  kind : Kind
  name : String
  labels : List (String × String)
  volume_claim : Option String
deriving DecidableEq

def Obj.selected (selector : String) (o : Obj) : Bool := selects selector fun k => o.labels.lookup k

structure Cluster where
  objects : List Obj := []
  /-- The selectors of `cancel_all` and `cleanup`, with what they still have to delete. -/
  deletions : List (String × List Kind) := []

inductive Label
  /-- `claim` and `job` are the names that `id_generator` makes. -/
  | dispatchFetch (t : Task) (claim job : String) (created : Bool)
  | createJob (job : Obj) (created : Bool)
  /-- `cleanup` of a task, or `cancel_all`. -/
  | cleanup (client_id action_id : String) (data_set : Option Task)
  /-- If the call fails, it has deleted some of the objects. -/
  | delete (i : Nat) (failed : Option (Obj → Bool))
  | startPod (job : Obj) (name : String)
  | collect (gone : Obj → Bool)

def step (d : KubernetesDispatcher) (s : Cluster) : Label → Option Cluster
  | .dispatchFetch t claim job created =>
    match t.size_info with
    | none => some s -- a `ValueError`
    | some size_info =>
      if Fetcher.getVolumeSize size_info < d.min_size then
        some { s with objects := ⟨.pending, job, d.getLabels t, none⟩ :: s.objects }
      else if created then
        some { s with objects :=
          ⟨.pending, job, d.getLabels t, some claim⟩ :: ⟨.claim, claim, d.getLabels t, none⟩ :: s.objects }
      else some s
  | .createJob job created =>
    if job ∈ s.objects ∧ job.kind = .pending then
      let others := s.objects.erase job
      some { s with objects := if created then { job with kind := .job } :: others else others }
    else none
  | .cleanup client_id action_id data_set =>
    some { s with deletions := (d.getLabelSelector client_id action_id data_set, [.job, .pod, .claim]) :: s.deletions }
  | .delete i failed =>
    match s.deletions[i]? with
    | some (selector, kind :: kinds) =>
      let others := s.deletions.eraseIdx i
      some {
        objects := s.objects.filter fun o => !(o.kind = kind && o.selected selector && failed.all (· o))
        deletions := if failed.isNone then (selector, kinds) :: others else others }
    | _ => none
  | .startPod job name =>
    if job ∈ s.objects ∧ job.kind = .job then some { s with objects := { job with kind := .pod, name } :: s.objects }
    else none
  | .collect gone =>
    some { s with objects := s.objects.filter fun o => !((o.kind = .job || o.kind = .pod) && gone o) }

/-! ## No job without its claim -/

def Backed (objects : List Obj) (o : Obj) : Prop :=
  ∀ claim, o.volume_claim = some claim →
    o.kind ≠ .claim ∧ ∃ v ∈ objects, v.kind = .claim ∧ v.name = claim ∧ v.labels = o.labels

/-- A fetch is dispatched before or after a deletion that selects its labels, not meanwhile. -/
def Apart (d : KubernetesDispatcher) (s : Cluster) : Label → Prop
  | .dispatchFetch t _ _ _ =>
    ∀ e ∈ s.deletions, e.2 ≠ [] → selects e.1 (fun k => (d.getLabels t).lookup k) = false
  | .cleanup client_id action_id data_set =>
    ∀ o ∈ s.objects, o.kind = .pending → o.selected (d.getLabelSelector client_id action_id data_set) = false
  | _ => True

instance (d : KubernetesDispatcher) (s : Cluster) : (a : Label) → Decidable (Apart d s a)
  | .dispatchFetch .. => inferInstanceAs (Decidable (∀ e ∈ s.deletions, _ → _))
  | .cleanup .. => inferInstanceAs (Decidable (∀ o ∈ s.objects, _ → _))
  | .createJob .. | .delete .. | .startPod .. | .collect _ => isTrue trivial

structure Inv (s : Cluster) : Prop where
  backed : ∀ o ∈ s.objects, Backed s.objects o
  /-- Jobs are deleted before their pods, and these before the claims. -/
  order : ∀ e ∈ s.deletions, e.2 <:+ [.job, .pod, .claim]
  cleared : ∀ e ∈ s.deletions, ∀ o ∈ s.objects, o.kind ∉ e.2 → e.2 ≠ [] → o.selected e.1 = false

section Steps
variable {d : KubernetesDispatcher} {s t : Cluster}

theorem not_mem_of_suffix {kinds} (h : kinds <:+ [.job, .pod, .claim]) :
    Kind.pending ∉ kinds ∧ (.pod ∉ kinds → .job ∉ kinds) := by
  simp only [suffix_cons_iff, suffix_nil] at h
  rcases h with rfl | rfl | rfl | rfl <;> simp

/-- Each object is one of before, or a copy of it that is deleted later. -/
theorem inv_objects {objects} (hi : Inv s) (hc : ∀ v ∈ s.objects, v.kind = .claim → v ∈ objects)
    (ho : ∀ o ∈ objects, ∃ o' ∈ s.objects, o'.labels = o.labels ∧ o'.volume_claim = o.volume_claim ∧
      (o.kind = .claim → o'.kind = .claim) ∧
      ∀ kinds, kinds <:+ [.job, .pod, .claim] → o.kind ∉ kinds → o'.kind ∉ kinds) : Inv { s with objects } where
  backed o hm claim hcl := by
    obtain ⟨o', ho', hl, hv, hk', -⟩ := ho o hm
    obtain ⟨hne, v, hvm, hk, hn, hlv⟩ := hi.backed o' ho' claim (hv.trans hcl)
    exact ⟨fun hk => hne (hk' hk), v, hc v hvm hk, hk, hn, hlv.trans hl⟩
  order := hi.order
  cleared e he o hm hk hne := by
    obtain ⟨o', ho', hl, -, -, hlater⟩ := ho o hm
    have hs := hi.cleared e he o' ho' (hlater _ (hi.order e he) hk) hne
    rwa [Obj.selected, hl] at hs

theorem inv_dispatchFetch {t claim job created} (hi : Inv s) (ha : Apart d s (.dispatchFetch t claim job created))
    (new : List Obj) (hl : ∀ o ∈ new, o.labels = d.getLabels t) (hb : ∀ o ∈ new, Backed new o) :
    Inv { s with objects := new ++ s.objects } where
  backed o hm claim hcl := by
    rcases mem_append.1 hm with hm | hm
    · obtain ⟨hne, v, hv, hk⟩ := hb o hm claim hcl
      exact ⟨hne, v, mem_append_left _ hv, hk⟩
    · obtain ⟨hne, v, hv, hk⟩ := hi.backed o hm claim hcl
      exact ⟨hne, v, mem_append_right _ hv, hk⟩
  order := hi.order
  cleared e he o hm hk hne := by
    rcases mem_append.1 hm with hm | hm
    · rw [Obj.selected, hl o hm]
      exact ha e he hne
    · exact hi.cleared e he o hm hk hne

/-- A claim has the labels of its job, and when the claims are deleted no job or pod that is left is selected. -/
theorem inv_delete {selector kind kinds} (deletes : Obj → Bool) (hi : Inv s)
    (he : (selector, kind :: kinds) ∈ s.deletions) :
    Inv { s with objects := s.objects.filter fun o => !(o.kind = kind && o.selected selector && deletes o) } where
  backed o ho claim hcl := by
    have hm := (mem_filter.1 ho).1
    obtain ⟨hne, v, hv, hvk, hn, hl⟩ := hi.backed o hm claim hcl
    refine ⟨hne, v, mem_filter.2 ⟨hv, ?_⟩, hvk, hn, hl⟩
    by_cases hc : kind = .claim
    · subst hc
      have hk : kinds = [] := by
        have hs := hi.order _ he
        simp only [suffix_cons_iff, suffix_nil] at hs
        simpa using hs
      subst hk
      have hs := hi.cleared _ he o hm (by simpa using hne) (by simp)
      rw [Obj.selected, ← hl] at hs
      simp [Obj.selected, hs]
    · simp [hvk, Ne.symm hc]
  order := hi.order
  cleared e he o ho := hi.cleared e he o (mem_filter.1 ho).1

theorem inv_deletions {deletions} (hi : Inv s) (ho : ∀ e ∈ deletions, e.2 <:+ [.job, .pod, .claim])
    (hc : ∀ e ∈ deletions, e ∉ s.deletions → ∀ o ∈ s.objects, o.kind ∉ e.2 → e.2 ≠ [] → o.selected e.1 = false) :
    Inv { s with deletions } where
  backed := hi.backed
  order := ho
  cleared e he := by
    by_cases hm : e ∈ s.deletions
    · exact hi.cleared e hm
    · exact hc e he hm

theorem inv_step {a} (hi : Inv s) (ha : Apart d s a) (h : step d s a = some t) : Inv t := by
  unfold step at h
  split at h
  · split at h
    · cases h
      exact hi
    · split at h
      · cases h
        exact inv_dispatchFetch hi ha [_] (by simp) (by simp [Backed])
      · split at h
        · cases h
          exact inv_dispatchFetch hi ha [_, _] (by simp) (by simp [Backed])
        · cases h
          exact hi
  · rename_i job created
    split at h
    · rename_i hj
      cases h
      -- what is taken away is no claim
      have hc : ∀ v ∈ s.objects, v.kind = .claim → v ∈ s.objects.erase job := fun v hv hk => by
        refine (mem_erase_of_ne ?_).2 hv
        rintro rfl
        rw [hj.2] at hk
        cases hk
      have ho : ∀ o ∈ s.objects.erase job, o ∈ s.objects := fun o => mem_of_mem_erase
      cases created with
      | false => exact inv_objects hi hc fun o hm => ⟨o, ho o hm, rfl, rfl, id, fun _ _ => id⟩
      | true =>
        refine inv_objects hi (fun v hv hk => mem_cons_of_mem _ (hc v hv hk)) fun o hm => ?_
        rcases mem_cons.1 hm with rfl | hm
        · exact ⟨job, hj.1, rfl, rfl, nofun, fun kinds hk _ => hj.2 ▸ (not_mem_of_suffix hk).1⟩
        · exact ⟨o, ho o hm, rfl, rfl, id, fun _ _ => id⟩
    · cases h
  · cases h
    refine inv_deletions hi (forall_mem_cons.2 ⟨suffix_refl _, hi.order⟩) fun e he hnew o ho hk _ => ?_
    rcases mem_cons.1 he with rfl | he
    · refine ha o ho ?_
      cases hok : o.kind <;> simp_all
    · exact absurd he hnew
  · rename_i i failed
    split at h
    · rename_i selector kind kinds hd
      cases h
      have he := mem_of_getElem? hd
      have hi' := inv_delete (fun o => failed.all (· o)) hi he
      have hor : ∀ e ∈ s.deletions.eraseIdx i, e.2 <:+ [.job, .pod, .claim] :=
        fun e hm => hi.order e (mem_of_mem_eraseIdx hm)
      cases failed with
      | some deletes => exact inv_deletions hi' hor fun e hm hnew => absurd (mem_of_mem_eraseIdx hm) hnew
      | none =>
        refine inv_deletions hi' (forall_mem_cons.2 ⟨(suffix_cons _ _).trans (hi.order _ he), hor⟩)
          fun e hm hnew o ho hk hne => ?_
        rcases mem_cons.1 hm with rfl | hm
        -- the kind that has just been deleted, or one that was deleted before
        · by_cases hok : o.kind = kind
          · simpa [hok] using (mem_filter.1 ho).2
          · exact hi'.cleared _ he o ho (by simp_all) (by simp)
        · exact absurd (mem_of_mem_eraseIdx hm) hnew
    · cases h
  · rename_i job name
    split at h
    · rename_i hj
      cases h
      refine inv_objects hi (fun v hv _ => mem_cons_of_mem _ hv) fun o ho => ?_
      rcases mem_cons.1 ho with rfl | ho
      · exact ⟨job, hj.1, rfl, rfl, nofun, fun kinds hk hp => hj.2 ▸ (not_mem_of_suffix hk).2 hp⟩
      · exact ⟨o, ho, rfl, rfl, id, fun _ _ => id⟩
    · cases h
  · cases h
    refine inv_objects hi (fun v hv hk => mem_filter.2 ⟨hv, by simp [hk]⟩) fun o ho => ?_
    exact ⟨o, (mem_filter.1 ho).1, rfl, rfl, id, fun _ _ => id⟩

end Steps

/-- Where no fetch is dispatched in the middle of a deletion of its labels, each job and each pod finds its claim at any
time, and a deletion that comes to its end leaves no object that it selects. -/
theorem claims_outlast {d run s} (h : exec (step d) {} run = some s)
    (ha : Along (step d) (Apart d) {} run) :
    (∀ o ∈ s.objects, Backed s.objects o) ∧
      ∀ i selector t, s.deletions[i]? = some (selector, [.claim]) → step d s (.delete i none) = some t →
        ∀ o ∈ t.objects, o.selected selector = false := by
  have hi : Inv s := exec_inv_along Inv (fun _ _ _ hi ha h => inv_step hi ha h) ⟨by simp, by simp, by simp⟩ ha h
  refine ⟨hi.backed, fun i selector t hd ht o ho => ?_⟩
  simp only [step, hd, Option.some.injEq] at ht
  subst ht
  obtain ⟨hm, hk⟩ := mem_filter.1 ho
  by_cases hc : o.kind = .claim
  · simpa [hc] using hk
  · exact hi.cleared _ (mem_of_getElem? hd) o hm (by simpa using hc) (by simp)

def smallDispatcher : KubernetesDispatcher := ⟨"fetcher-dispatcher", 0, fun _ => "0cc175b9"⟩

def smallTask : Task := ⟨"client", "action", "s3://bucket/data", some ⟨0, 0, 0⟩⟩

def smallJob (kind : Kind) : Obj := ⟨kind, "fetcher", smallDispatcher.getLabels smallTask, some "pv"⟩

def fetchedOnce : List Label := [.dispatchFetch smallTask "pv" "fetcher" true, .createJob (smallJob .pending) true,
  .startPod (smallJob .job) "fetcher-0", .cleanup "client" "action" smallTask, .delete 0 none]

theorem claims_outlast_once : ∃ s, exec (step smallDispatcher) {} fetchedOnce = some s ∧
    s.objects.any (·.kind = .pod) = true ∧ ∀ o ∈ s.objects, Backed s.objects o := by
  obtain ⟨s, hs, hp⟩ := (Option.any_eq_true _ _).1 (by decide +kernel :
    (exec (step smallDispatcher) {} fetchedOnce).any (fun s => s.objects.any (·.kind = .pod)) = true)
  exact ⟨s, hs, hp, (claims_outlast hs (by decide +kernel)).1⟩

end BenchmarkAi.Dispatcher
