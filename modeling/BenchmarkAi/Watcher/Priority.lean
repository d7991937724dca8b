import BenchmarkAi.Watcher.Inferrer
/-!
# Which container decides

The documentation of `SingleNodeStrategyKubernetesStatusInferrer` ranks the states of
the containers. The code ranks them by the order in which it meets them: the first key of
a dict decides, and then the first element of a set. `documentedStatus` is what the
documentation asks for, and the theorem says for which pods the two agree in every order of
the lists and of the sets.
-/

open List

namespace BenchmarkAi.Watcher

/-! ## What is documented -/

def V1ContainerStatus.isIn (s : V1ContainerStatus) : ContainerState → Bool
  | .failed => s.state.terminated.any (·.exit_code ≠ 0)
  | .pending => s.state.waiting.isSome
  | .running => s.state.running.isSome

def ranked (ranking : List ContainerState) (statuses : List V1ContainerStatus) : Option ContainerState :=
  ranking.find? fun k => statuses.any (·.isIn k)

def initRanking : List ContainerState := [.failed, .running, .pending]

def mainRanking : List ContainerState := [.failed, .pending]

def initStatus : ContainerState → BenchmarkJobStatus
  | .failed => .failed_at_init_containers
  | .running => .running_at_init_containers
  | .pending => .pending_at_init_containers

/-- The status for a state of main containers, by whether the benchmark container is
reported. Running containers are passed over, so they have none. -/
def mainStatus (benchmark : Bool) : ContainerState → Option BenchmarkJobStatus
  | .failed => some (if benchmark then .failed_at_benchmark_container else .failed_at_sidecar_container)
  | .pending => some (if benchmark then .pending_at_benchmark_container else .pending_at_sidecar_container)
  | .running => none

def isBenchmark (name : String) : Bool := name = benchmarkContainerName

def benchmarkIn (statuses : List V1ContainerStatus) (k : ContainerState) : Bool :=
  statuses.any fun s => s.isIn k && isBenchmark s.name

def V1PodStatus.initContainers (p : V1PodStatus) : List V1ContainerStatus := p.init_container_statuses.getD []

def V1PodStatus.mainContainers (p : V1PodStatus) : List V1ContainerStatus := p.container_statuses.getD []

def documentedInit (statuses : List V1ContainerStatus) : Option BenchmarkJobStatus :=
  (ranked initRanking statuses).map initStatus

def documentedMain (statuses : List V1ContainerStatus) : Option BenchmarkJobStatus :=
  (ranked mainRanking statuses).bind fun k => mainStatus (benchmarkIn statuses k) k

def documentedStatus (k8s_job_status : V1JobStatus) (p : V1PodStatus) : Option BenchmarkJobStatus :=
  (inferStatusFromJob k8s_job_status).or ((documentedInit p.initContainers).or (documentedMain p.mainContainers))

/-! ## Which key comes first -/

def entryOrder : List ContainerState := [.failed, .pending, .running]

theorem keys_stateEntries (s : V1ContainerStatus) : (stateEntries s).map Prod.fst = entryOrder.filter s.isIn := by
  obtain ⟨name, terminated, waiting, running⟩ := s
  unfold stateEntries
  cases terminated with
  | none => cases waiting <;> cases running <;> rfl
  | some t =>
    by_cases ht : t.exit_code = 0 <;> cases waiting <;> cases running <;>
      simp [ht, entryOrder, filter_cons, V1ContainerStatus.isIn]

variable {s : V1ContainerStatus} {k : ContainerState} {statuses : List V1ContainerStatus} {ranking : List ContainerState}

theorem name_of_mem_stateEntries {e : ContainerState × ContainerInfo} (h : e ∈ stateEntries s) : e.2.container_name = s.name := by
  obtain ⟨name, terminated, waiting, running⟩ := s
  unfold stateEntries at h
  cases terminated with
  | none => cases waiting <;> cases running <;> simp at h <;> grind
  | some t => by_cases ht : t.exit_code = 0 <;> cases waiting <;> cases running <;> simp [ht] at h <;> grind

/-- The key that `add` leaves first among those with a property. -/
theorem find_add (p : ContainerState → Bool) (state : ContainerState) (obj : ContainerInfo) (states : ContainerStates) :
    ((states.add state obj).find? (p ·.1)).map Prod.fst =
      ((states.find? (p ·.1)).map Prod.fst).or (if p state then some state else none) := by
  induction states with
  | nil => cases hp : p state <;> simp [ContainerStates.add, hp]
  | cons e rest ih =>
    obtain ⟨k, infos⟩ := e
    rw [ContainerStates.add]
    split
    · rename_i hk
      subst hk
      cases hp : p k <;> simp [hp]
    · cases hp : p k <;> simp [hp, ih]

theorem find_collect (p : ContainerState → Bool) (statuses : List V1ContainerStatus) :
    ((collectContainerStates statuses).find? (p ·.1)).map Prod.fst =
      statuses.findSome? fun s => ((stateEntries s).find? (p ·.1)).map Prod.fst := by
  have folded : ∀ (es : List (ContainerState × ContainerInfo)) (states : ContainerStates),
      ((es.foldl (fun states e => states.add e.1 e.2) states).find? (p ·.1)).map Prod.fst =
        ((states.find? (p ·.1)).map Prod.fst).or ((es.find? (p ·.1)).map Prod.fst) := by
    intro es
    induction es with
    | nil => simp
    | cons e es ih =>
      intro states
      rw [foldl_cons, ih, find_add, find?_cons, Option.or_assoc]
      cases p e.1 <;> rfl
  rw [collectContainerStates, folded, find?_flatMap]
  induction statuses with
  | nil => rfl
  | cons s statuses ih =>
    rw [findSome?_cons, findSome?_cons]
    cases (stateEntries s).find? (p ·.1) with
    | none => exact ih
    | some e => rfl

/-! ## What is in the sets -/

theorem lookup_add (k state : ContainerState) (obj : ContainerInfo) (states : ContainerStates) (info : ContainerInfo) :
    info ∈ ((states.add state obj).lookup k).getD [] ↔ info ∈ (states.lookup k).getD [] ∨ (k = state ∧ info = obj) := by
  induction states with
  | nil =>
    simp only [ContainerStates.add, lookup_cons, lookup_nil, Option.getD_none, not_mem_nil, false_or]
    cases hk : k == state <;> simp_all
  | cons e rest ih =>
    obtain ⟨k', infos⟩ := e
    rw [ContainerStates.add]
    by_cases hs : k' = state
    · subst hs
      rw [if_pos rfl, lookup_cons, lookup_cons]
      cases hk : k == k' with
      | true =>
        obtain rfl := eq_of_beq hk
        by_cases hobj : obj ∈ infos <;> simp [hobj]
        rintro rfl
        exact hobj
      | false =>
        have hne : k ≠ k' := by simpa using hk
        simp [hne]
    · rw [if_neg hs, lookup_cons, lookup_cons]
      cases hk : k == k' with
      | true =>
        obtain rfl := eq_of_beq hk
        simp [hs]
      | false => exact ih

theorem mem_lookup_collect (k : ContainerState) (statuses : List V1ContainerStatus) (info : ContainerInfo) :
    info ∈ ((collectContainerStates statuses).lookup k).getD [] ↔ ∃ s ∈ statuses, (k, info) ∈ stateEntries s := by
  have folded : ∀ (es : List (ContainerState × ContainerInfo)) (states : ContainerStates),
      info ∈ ((es.foldl (fun states e => states.add e.1 e.2) states).lookup k).getD [] ↔
        info ∈ (states.lookup k).getD [] ∨ (k, info) ∈ es := by
    intro es
    induction es with
    | nil => simp
    | cons e es ih =>
      intro states
      rw [foldl_cons, ih, lookup_add, mem_cons, or_assoc]
      exact or_congr_right (or_congr_left (Prod.ext_iff (x := (k, info)) (y := e)).symm)
  rw [collectContainerStates, folded]
  simp

variable {states : ContainerStates} {k' : ContainerState} {p : V1PodStatus} {pods : List V1PodStatus}

/-- The first entry with a property of its key is the one that its key is looked up as. -/
theorem lookup_of_find {p : ContainerState → Bool} {infos} (h : states.find? (p ·.1) = some (k, infos)) :
    states.lookup k = some infos := by
  have hk : p k = true := by simpa using find?_some h
  induction states with
  | nil => cases h
  | cons e rest ih =>
    obtain ⟨k', infos'⟩ := e
    rw [find?_cons] at h
    rw [lookup_cons]
    cases hp : p k' with
    | true =>
      rw [hp] at h
      cases h
      simp
    | false =>
      rw [hp] at h
      have hne : (k == k') = false := by
        rw [beq_eq_false_iff_ne]
        rintro rfl
        rw [hk] at hp
        cases hp
      rw [hne]
      exact ih h

/-! ## What the code decides -/

def V1ContainerStatus.first (ranking : List ContainerState) (s : V1ContainerStatus) : Option ContainerState :=
  entryOrder.find? fun k => s.isIn k && ranking.contains k

theorem find_stateEntries (ranking : List ContainerState) (s : V1ContainerStatus) :
    ((stateEntries s).find? (ranking.contains ·.1)).map Prod.fst = s.first ranking := by
  have hmap := find?_map (f := Prod.fst) (p := ranking.contains) (l := stateEntries s)
  rw [keys_stateEntries, find?_filter] at hmap
  simp only [Bool.decide_and, Bool.decide_eq_true] at hmap
  exact hmap.symm

def SetOrder.picksBenchmark (order : SetOrder) (infos : List ContainerInfo) : Bool :=
  (order.items infos).head?.any (isBenchmark ·.container_name)

def containersIn (statuses : List V1ContainerStatus) (k : ContainerState) : List ContainerInfo :=
  ((collectContainerStates statuses).lookup k).getD []

theorem initContainersStatus_collect (statuses : List V1ContainerStatus) :
    initContainersStatus (collectContainerStates statuses) =
      (statuses.findSome? (·.first initRanking)).map initStatus := by
  have hf := find_collect initRanking.contains statuses
  simp only [find_stateEntries] at hf
  rw [← hf]
  cases hc : collectContainerStates statuses with
  | nil => rfl
  | cons e rest =>
    obtain ⟨k, infos⟩ := e
    cases k <;> rfl

theorem mainContainersStatus_eq (order : SetOrder) (h : ∀ e ∈ states, e.2 ≠ []) : mainContainersStatus order states =
      (states.find? (mainRanking.contains ·.1)).bind fun e => mainStatus (order.picksBenchmark e.2) e.1 := by
  induction states with
  | nil => rfl
  | cons e rest ih =>
    obtain ⟨k, infos⟩ := e
    have hne : order.items infos ≠ [] := by
      intro hnil
      exact h _ mem_cons_self (Perm.eq_nil (hnil ▸ (order.perm infos).symm))
    obtain ⟨info, infos', hi⟩ := exists_cons_of_ne_nil hne
    have hp : order.picksBenchmark infos = isBenchmark info.container_name := by
      rw [SetOrder.picksBenchmark, hi]
      rfl
    cases k with
    | running => exact ih fun e he => h e (mem_cons_of_mem _ he)
    | pending =>
      by_cases hb : info.container_name = benchmarkContainerName <;>
        simp [mainContainersStatus, hi, mainRanking, mainStatus, hp, isBenchmark, hb]
    | failed =>
      by_cases hb : info.container_name = benchmarkContainerName <;>
        simp [mainContainersStatus, hi, mainRanking, mainStatus, hp, isBenchmark, hb]

theorem mainContainersStatus_first (order : SetOrder) (statuses : List V1ContainerStatus) :
    mainContainersStatus order (collectContainerStates statuses) =
      (statuses.findSome? (·.first mainRanking)).bind fun k =>
        mainStatus (order.picksBenchmark (containersIn statuses k)) k := by
  have hfi := find_collect mainRanking.contains statuses
  simp only [find_stateEntries] at hfi
  rw [mainContainersStatus_eq order fun e he => collect_nonempty he, ← hfi]
  cases hf : (collectContainerStates statuses).find? (mainRanking.contains ·.1) with
  | none => rfl
  | some e =>
    rw [Option.map_some, Option.bind_some, Option.bind_some, containersIn, lookup_of_find hf, Option.getD_some]

theorem mem_containersIn (b : Bool) : (∃ info ∈ containersIn statuses k, isBenchmark info.container_name = b) ↔
      ∃ s ∈ statuses, s.isIn k = true ∧ isBenchmark s.name = b := by
  have hmem (s : V1ContainerStatus) : s.isIn k = true ↔ ∃ info, (k, info) ∈ stateEntries s := by
    have hkey : k ∈ (stateEntries s).map Prod.fst ↔ s.isIn k = true := by
      rw [keys_stateEntries, mem_filter]
      refine and_iff_right ?_
      cases k <;> decide
    rw [← hkey, mem_map]
    constructor
    · rintro ⟨⟨k', info⟩, he, rfl⟩
      exact ⟨info, he⟩
    · rintro ⟨info, he⟩
      exact ⟨(k, info), he, rfl⟩
  constructor
  · rintro ⟨info, hi, hb⟩
    obtain ⟨s, hs, he⟩ := (mem_lookup_collect k statuses info).1 hi
    exact ⟨s, hs, (hmem s).2 ⟨info, he⟩, name_of_mem_stateEntries he ▸ hb⟩
  · rintro ⟨s, hs, hk, hb⟩
    obtain ⟨info, he⟩ := (hmem s).1 hk
    exact ⟨info, (mem_lookup_collect k statuses info).2 ⟨s, hs, he⟩, by rw [name_of_mem_stateEntries he, hb]⟩

/-- Python comes to some element of the set first, -/
theorem exists_of_picks (order : SetOrder) (h : ∃ s ∈ statuses, s.isIn k = true) :
    ∃ s ∈ statuses, s.isIn k = true ∧ isBenchmark s.name = order.picksBenchmark (containersIn statuses k) := by
  obtain ⟨s, hs, hk⟩ := h
  obtain ⟨info, hin, -⟩ := (mem_containersIn _).2 ⟨s, hs, hk, rfl⟩
  have hne : order.items (containersIn statuses k) ≠ [] := by
    intro hnil
    have hmem := (order.perm _).mem_iff.2 hin
    rw [hnil] at hmem
    cases hmem
  obtain ⟨first, rest, hi⟩ := exists_cons_of_ne_nil hne
  refine (mem_containersIn _).1 ⟨first, (order.perm _).mem_iff.1 (hi ▸ mem_cons_self), ?_⟩
  rw [SetOrder.picksBenchmark, hi]
  rfl

/-- and it may be any of them. -/
theorem exists_picks (hs : s ∈ statuses) (hk : s.isIn k = true) :
    ∃ order : SetOrder, order.picksBenchmark (containersIn statuses k) = isBenchmark s.name := by
  obtain ⟨info, hi, hb⟩ := (mem_containersIn _).2 ⟨s, hs, hk, rfl⟩
  refine ⟨⟨fun infos => if info ∈ infos then info :: infos.erase info else infos, fun infos => ?_⟩, ?_⟩
  · split
    · exact (perm_cons_erase ‹_›).symm
    · exact Perm.refl _
  · simp only [SetOrder.picksBenchmark, if_pos hi]
    exact hb

/-! ## In every order -/

/-- The first answer over a list is the same in every order, if it is the answer of each
element that has one. -/
theorem findSome_perm_iff {α β : Type} {f l} {v : Option β} (hv : v.isSome = true → ∃ a ∈ l, (f a).isSome = true) :
    (∀ l' : List α, l'.Perm l → l'.findSome? f = v) ↔ ∀ a ∈ l, f a = none ∨ f a = v := by
  constructor
  · intro h a ha
    obtain ⟨pre, post, rfl⟩ := append_of_mem ha
    have hfi := h (a :: (pre ++ post)) perm_middle.symm
    rw [findSome?_cons] at hfi
    cases hfa : f a with
    | none => exact .inl rfl
    | some b =>
      rw [hfa] at hfi
      exact .inr hfi
  · intro h l' hp
    cases hf : l'.findSome? f with
    | none =>
      -- no element has an answer, so there is none to expect
      rw [findSome?_eq_none_iff] at hf
      rw [eq_comm, ← Option.not_isSome_iff_eq_none]
      intro hs
      obtain ⟨a, ha, hfa⟩ := hv hs
      rw [hf a (hp.mem_iff.2 ha)] at hfa
      cases hfa
    | some b =>
      obtain ⟨a, ha, hfa⟩ := exists_of_findSome?_eq_some hf
      rcases h a (hp.mem_iff.1 ha) with hn | heq
      · rw [hfa] at hn
        cases hn
      · rw [← hfa, heq]

/-- Each container that is in a state of the ranking is entered first in the state that
decides. -/
def Clear (ranking : List ContainerState) (statuses : List V1ContainerStatus) : Prop :=
  ∀ s ∈ statuses, s.first ranking = none ∨ s.first ranking = ranked ranking statuses

def Single (statuses : List V1ContainerStatus) : Prop :=
  ∀ k ∈ mainRanking, ranked mainRanking statuses = some k → benchmarkIn statuses k = true →
    ∀ s ∈ statuses, s.isIn k = true → isBenchmark s.name = true

instance (ranking : List ContainerState) (statuses : List V1ContainerStatus) : Decidable (Clear ranking statuses) :=
  decidableBAll _ _

instance (statuses : List V1ContainerStatus) : Decidable (Single statuses) := decidableBAll _ _

theorem exists_first_of_ranked (h : ranked ranking statuses = some k) : k ∈ ranking ∧ ∃ s ∈ statuses, s.isIn k = true := by
  exact ⟨mem_of_find?_eq_some h, by simpa using find?_some h⟩

theorem mem_of_first (h : s.first ranking = some k) : s.isIn k = true ∧ k ∈ ranking := by
  have hk := find?_some h
  rw [Bool.and_eq_true] at hk
  exact ⟨hk.1, contains_iff_mem.1 hk.2⟩

theorem first_isSome (hin : s.isIn k = true) (hk : k ∈ ranking) : (s.first ranking).isSome = true := by
  rw [V1ContainerStatus.first, find?_isSome]
  refine ⟨k, by cases k <;> decide, ?_⟩
  rw [hin, contains_iff_mem.2 hk]
  rfl

theorem first_perm_iff (ranking : List ContainerState) (statuses : List V1ContainerStatus) :
    (∀ l : List V1ContainerStatus, l.Perm statuses → l.findSome? (·.first ranking) = ranked ranking statuses) ↔
      Clear ranking statuses := by
  refine findSome_perm_iff fun hso => ?_
  obtain ⟨k, hk⟩ := Option.isSome_iff_exists.1 hso
  obtain ⟨hmem, s, hs, hin⟩ := exists_first_of_ranked hk
  exact ⟨s, hs, first_isSome hin hmem⟩

theorem ranked_none {l : List V1ContainerStatus} (hl : l.Perm statuses) :
    l.findSome? (·.first ranking) = none ↔ ranked ranking statuses = none := by
  rw [findSome?_eq_none_iff, ranked, find?_eq_none]
  constructor
  · intro h k hk hany
    obtain ⟨s, hs, hin⟩ := any_eq_true.1 hany
    have hso := first_isSome hin hk
    rw [h s (hl.mem_iff.2 hs)] at hso
    cases hso
  · intro h s hs
    rw [← Option.not_isSome_iff_eq_none]
    intro hso
    obtain ⟨k, hk⟩ := Option.isSome_iff_exists.1 hso
    exact h k (mem_of_first hk).2 (any_eq_true.2 ⟨s, hl.mem_iff.1 hs, (mem_of_first hk).1⟩)

theorem initStatus_injective (h : initStatus k = initStatus k') : k = k' := by
  cases k <;> cases k' <;> first | rfl | cases h

theorem mainStatus_injective {b b'} (hk : k ∈ mainRanking) (h : mainStatus b k = mainStatus b' k') : k = k' ∧ b = b' := by
  cases k <;> cases k' <;> cases b <;> cases b' <;> simp_all [mainStatus, mainRanking]

/-- The status tells which state has decided. -/
theorem eq_of_mainStatus {f g : ContainerState → Bool} {o o' : Option ContainerState}
    (ho : ∀ k, o = some k → k ∈ mainRanking) (ho' : ∀ k, o' = some k → k ∈ mainRanking)
    (h : o.bind (fun k => mainStatus (f k) k) = o'.bind (fun k => mainStatus (g k) k)) : o = o' := by
  have hs (b : Bool) (k : ContainerState) (hk : k ∈ mainRanking) : mainStatus b k ≠ none := by
    cases k <;> simp_all [mainStatus, mainRanking]
  cases o with
  | none =>
    cases o' with
    | none => rfl
    | some k' => exact absurd h.symm (hs _ k' (ho' k' rfl))
  | some k =>
    cases o' with
    | none => exact absurd h (hs _ k (ho k rfl))
    | some k' => exact congrArg some (mainStatus_injective (ho k rfl) h).1

theorem init_perm_iff (statuses : List V1ContainerStatus) :
    (∀ l : List V1ContainerStatus, l.Perm statuses → initContainersStatus (collectContainerStates l) = documentedInit statuses) ↔
      Clear initRanking statuses := by
  rw [← first_perm_iff]
  refine forall₂_congr fun l _ => ?_
  rw [initContainersStatus_collect]
  exact (Option.map_injective fun _ _ => initStatus_injective).eq_iff

theorem main_perm_iff (statuses : List V1ContainerStatus) : (∀ l : List V1ContainerStatus, l.Perm statuses → ∀ order,
      mainContainersStatus order (collectContainerStates l) = documentedMain statuses) ↔
      Clear mainRanking statuses ∧ Single statuses := by
  constructor
  · intro h
    have hf : ∀ l : List V1ContainerStatus, l.Perm statuses →
        l.findSome? (·.first mainRanking) = ranked mainRanking statuses := by
      intro l hl
      have hst := h l hl ⟨id, fun _ => Perm.refl _⟩
      rw [mainContainersStatus_first] at hst
      refine eq_of_mainStatus (fun k hk => ?_) (fun k hk => (exists_first_of_ranked hk).1) hst
      obtain ⟨s, -, hs⟩ := exists_of_findSome?_eq_some hk
      exact (mem_of_first hs).2
    refine ⟨(first_perm_iff _ _).1 hf, fun k hk hr hb s hs hin => ?_⟩
    -- Python may come to this container first, and reports the benchmark container
    obtain ⟨order, ho⟩ := exists_picks hs hin
    have hst := h statuses (Perm.refl _) order
    rw [mainContainersStatus_first, documentedMain, hf _ (Perm.refl _), hr, Option.bind_some,
      Option.bind_some, ho] at hst
    rw [(mainStatus_injective hk hst).2, hb]
  · rintro ⟨hc, hsi⟩ l hl order
    rw [mainContainersStatus_first, documentedMain, (first_perm_iff _ _).2 hc l hl]
    cases hr : ranked mainRanking statuses with
    | none => rfl
    | some k =>
      obtain ⟨hk, s, hs, hin⟩ := exists_first_of_ranked hr
      obtain ⟨t, ht, htk, hp⟩ := exists_of_picks order ⟨s, hl.mem_iff.2 hs, hin⟩
      rw [Option.bind_some, ← hp]
      congr 1
      cases hb : benchmarkIn statuses k with
      | true => exact hsi k hk hr hb t (hl.mem_iff.1 ht) htk
      | false =>
        have hno := any_eq_false.1 hb t (hl.mem_iff.1 ht)
        rw [htk, Bool.not_eq_true] at hno
        exact hno

structure Reordered (p p' : V1PodStatus) : Prop where
  phase : p'.phase = p.phase
  conditions : p'.conditions = p.conditions
  init : p'.initContainers.Perm p.initContainers
  main : p'.mainContainers.Perm p.mainContainers

theorem inferStatusFromPod_reordered {p'} (h : Reordered p p') :
    inferStatusFromPod (p' :: pods) = inferStatusFromPod (p :: pods) := by
  have hu : unschedulable p' = unschedulable p := by
    unfold unschedulable
    rw [h.conditions]
  rw [inferStatusFromPod, inferStatusFromPod, h.phase, hu]

theorem inferStatus_iff {order j} (hp : inferStatusFromPod (p :: pods) = none) (status : BenchmarkJobStatus) :
    inferStatus order j (p :: pods) = .ok status ↔
      (inferStatusFromJob j).or ((initContainersStatus (collectContainerStates p.initContainers)).or
        (mainContainersStatus order (collectContainerStates p.mainContainers))) = some status := by
  unfold inferStatus inferStatusFromContainers V1PodStatus.initContainers V1PodStatus.mainContainers
  rw [hp]
  cases inferStatusFromJob j with
  | some s => simp
  | none =>
    dsimp only
    cases initContainersStatus (collectContainerStates (p.init_container_statuses.getD [])) with
    | some s => simp
    | none =>
      cases p.container_statuses with
      | none => simp [collectContainerStates, mainContainersStatus]
      | some statuses =>
        dsimp only [Option.getD_some]
        cases mainContainersStatus order (collectContainerStates statuses) <;> simp

/-- Where the phase of the pod does not decide, the inferrer reports the documented status in
every order of the containers and of the sets, exactly if the job has decided or the states
of the containers leave no choice: every unfinished init container is first entered in the
state that decides, and if there is none, so is every main container that is held, and a
benchmark container in that state is alone in it. -/
theorem documented_priority_iff (j : V1JobStatus) (p : V1PodStatus) (pods : List V1PodStatus)
    (hp : inferStatusFromPod (p :: pods) = none) :
    (∀ p', Reordered p p' → ∀ order status,
      inferStatus order j (p' :: pods) = .ok status ↔ documentedStatus j p = some status) ↔
      inferStatusFromJob j ≠ none ∨ Clear initRanking p.initContainers ∧
        (documentedInit p.initContainers = none → Clear mainRanking p.mainContainers ∧ Single p.mainContainers) := by
  have hst (p' : V1PodStatus) (h : Reordered p p') (order : SetOrder) :
      (∀ status, inferStatus order j (p' :: pods) = .ok status ↔ documentedStatus j p = some status) ↔
        (inferStatusFromJob j).or ((initContainersStatus (collectContainerStates p'.initContainers)).or
          (mainContainersStatus order (collectContainerStates p'.mainContainers))) = documentedStatus j p := by
    rw [← inferStatusFromPod_reordered h] at hp
    rw [Option.ext_iff]
    exact forall_congr' fun status => by rw [inferStatus_iff hp]
  rw [forall₃_congr hst, documentedStatus]
  cases hj : inferStatusFromJob j with
  | some status => simp
  | none =>
    simp only [Option.none_or, ne_eq, not_true_eq_false, false_or]
    rw [← init_perm_iff, ← main_perm_iff]
    have hi (l : List V1ContainerStatus) (hl : l.Perm p.initContainers) :
        initContainersStatus (collectContainerStates l) = none ↔ documentedInit p.initContainers = none := by
      rw [initContainersStatus_collect, documentedInit, Option.map_eq_none_iff, Option.map_eq_none_iff, ranked_none hl]
    constructor
    · intro h
      refine ⟨fun l hl => ?_, fun hn l hl order => ?_⟩
      · have heq := h { p with init_container_statuses := some l } ⟨rfl, rfl, hl, Perm.refl _⟩
          ⟨id, fun _ => Perm.refl _⟩
        change (initContainersStatus (collectContainerStates l)).or _ = _ at heq
        cases hs : initContainersStatus (collectContainerStates l) with
        | none => exact ((hi l hl).1 hs).symm
        | some status =>
          obtain ⟨d, hd⟩ := Option.ne_none_iff_exists'.1 fun hn => by
            rw [(hi l hl).2 hn] at hs
            cases hs
          rw [hs, hd] at heq
          rw [hd]
          exact heq
      · have heq := h { p with container_statuses := some l } ⟨rfl, rfl, Perm.refl _, hl⟩ order
        change (initContainersStatus (collectContainerStates p.initContainers)).or _ = _ at heq
        rw [(hi _ (Perm.refl _)).2 hn, hn] at heq
        exact heq
    · rintro ⟨hi', hm⟩ p' hp' order
      rw [hi' _ hp'.init]
      cases hd : documentedInit p.initContainers with
      | some status => rfl
      | none => exact hm hd _ hp'.main order

def failedBenchmark : V1PodStatus :=
  { phase := some "Failed"
    container_statuses := some
      [⟨"benchmark", { terminated := some ⟨1, some "Error", none⟩ }⟩, ⟨"metrics-pusher", { running := some {} }⟩] }

theorem documented_priority_failed : inferStatusFromPod [failedBenchmark] = none ∧
      ∀ p', Reordered failedBenchmark p' → ∀ order status, inferStatus order {} [p'] = .ok status ↔
        documentedStatus {} failedBenchmark = some status :=
  ⟨rfl, (documented_priority_iff {} failedBenchmark [] rfl).2 (.inr ⟨by decide, fun _ => ⟨by decide, by decide⟩⟩)⟩

def failedSidecar : V1PodStatus :=
  { phase := some "Pending"
    container_statuses := some
      [⟨"benchmark", { waiting := some ⟨some "ContainerCreating", none⟩ }⟩,
       ⟨"metrics-pusher", { terminated := some ⟨1, some "Error", none⟩ }⟩] }

/-- A container that waits hides the failure of one that is listed after it. -/
theorem waiting_hides_failure : inferStatusFromPod [failedSidecar] = none ∧
      (∀ order, inferStatus order {} [failedSidecar] = .ok .pending_at_benchmark_container) ∧
      documentedStatus {} failedSidecar = some .failed_at_sidecar_container := by
  refine ⟨rfl, fun order => (inferStatus_iff rfl _).2 ?_, rfl⟩
  have hw : ∃ s ∈ failedSidecar.mainContainers, s.isIn .pending = true := by decide
  have ha : ∀ s ∈ failedSidecar.mainContainers, s.isIn .pending = true → isBenchmark s.name = true := by decide
  obtain ⟨s, hs, hk, hp⟩ := exists_of_picks order hw
  have hm := mainContainersStatus_first order failedSidecar.mainContainers
  rw [show failedSidecar.mainContainers.findSome? (·.first mainRanking) = some .pending from rfl, Option.bind_some,
    ← hp, ha s hs hk] at hm
  exact hm

end BenchmarkAi.Watcher
