import BenchmarkAi.Fetcher.GateTheorems
/-!
# The join of parallel downloads

`execute_all` of `FetcherEventHandler.handle_event` by itself, with the download manager
taken apart: it changes a content that it works on, sets its final status, and calls `on_done`
later, so that any number of contents are final and have not been reported. `pending` holds
the contents as objects, but `list.remove` compares them by value, and may drop another
content than the one that is reported.

`JoinInv.same_values` is why that does no harm: the contents in `pending` and those that
are still to be reported have the same values.
-/
open Lib List

namespace BenchmarkAi.Gate

structure JoinSt where
  objs : List DownloadableContent
  queue : List Nat
  running : List Nat
  settled : List Nat
  pending : List Nat
  sent : List Call
  completed : Nat
  callbacks : List Nat
  failed : List Nat
deriving DecidableEq, Repr

def JoinSt.start (tasks : List DownloadableContent) : JoinSt :=
  { objs := tasks
    queue := range tasks.length
    running := []
    settled := []
    pending := range tasks.length
    sent := [.sendStatus .pending "Initiating downloads..."]
    completed := 0
    callbacks := []
    failed := [] }

def JoinSt.waiting (s : JoinSt) : List Nat := s.queue ++ s.running ++ s.settled

inductive JoinLabel
  | execute
  | prepare (i : Nat) (size : Option ContentSizeInfo)
  | settle (i : Nat) (result : FetcherResult)
  | onDone (i : Nat)
deriving DecidableEq, Repr

/-- `on_done`. A content that is not in `pending` raises, and the callback is not reached. -/
def joinDone (s : JoinSt) (i : Nat) (c : DownloadableContent) : JoinSt :=
  let s := { s with
    sent := s.sent ++ [doneMessage c], settled := s.settled.erase i, completed := s.completed + 1 }
  match removePending s.objs i s.pending with
  | none => { s with failed := s.failed ++ [i] }
  | some pending =>
    { s with
      pending := pending
      callbacks := if pending = [] then s.callbacks ++ [s.completed] else s.callbacks }

def joinStep (h : Handler) (s : JoinSt) : JoinLabel → Option JoinSt
  | .execute =>
    match s.queue with
    | [] => none
    | i :: queue => do
      let c ← s.objs[i]?
      some { s with
        objs := s.objs.set i { c with dst := some (getContentDst h c) }
        queue := queue
        running := s.running ++ [i]
        sent := s.sent ++ [.sendStatus .pending ("Preparing " ++ c.src ++ " for download...")] }
  | .prepare i size =>
    if i ∈ s.running then do
      let c ← s.objs[i]?
      some { s with objs := s.objs.set i { c with size_info := size } }
    else none
  | .settle i result =>
    if i ∈ s.running ∧ result.status.final then do
      let c ← s.objs[i]?
      some { s with
        objs := s.objs.set i (result.update c), running := s.running.erase i, settled := s.settled ++ [i] }
    else none
  | .onDone i =>
    if i ∈ s.settled then do
      let c ← s.objs[i]?
      some (joinDone s i c)
    else none

/-! ## Values -/

theorem map_perm_of_agree {α β : Type} [DecidableEq α] {f g : α → β} {l m : List α} {i : α} (hl : l.Nodup)
    (hm : m.Nodup) (hil : i ∈ l) (him : i ∈ m) (hfg : ∀ j, j ≠ i → g j = f j) (h : (l.map f).Perm (m.map f)) :
    (l.map g).Perm (m.map g) := by
  have hr {n : List α} (hn : n.Nodup) (v : α → β) (hv : ∀ j, j ≠ i → v j = f j) (hi : i ∈ n) :
      (n.map v).Perm (v i :: (n.erase i).map f) := by
    have heq : (n.erase i).map v = (n.erase i).map f := by
      refine map_congr_left fun j hj => hv j ?_
      rintro rfl
      exact hn.not_mem_erase hj
    rw [← heq]
    exact (perm_cons_erase hi).map v
  have hc : ((l.erase i).map f).Perm ((m.erase i).map f) := by
    refine Perm.cons_inv (a := f i) ?_
    exact ((hr hl f (fun _ _ => rfl) hil).symm.trans h).trans (hr hm f (fun _ _ => rfl) him)
  exact ((hr hl g hfg hil).trans (hc.cons _)).trans (hr hm g hfg him).symm

variable {i : Nat} {c : DownloadableContent}

theorem removePending_of_mem {objs} {l : List Nat} (h : objs[i]? ∈ l.map fun j => objs[j]?) :
    ∃ j ∈ l, objs[j]? = objs[i]? ∧ removePending objs i l = some (l.erase j) := by
  induction l with
  | nil => cases h
  | cons k ks ih =>
    by_cases hk : objs[k]? = objs[i]?
    · exact ⟨k, mem_cons_self, hk, by rw [removePending, if_pos hk, erase_cons_head]⟩
    · rw [map_cons, mem_cons] at h
      obtain ⟨j, hj, hval, hrem⟩ := ih (h.resolve_left (Ne.symm hk))
      have hne : (k == j) = false := by
        rw [beq_eq_false_iff_ne]
        rintro rfl
        exact hk hval
      refine ⟨j, mem_cons_of_mem _ hj, hval, ?_⟩
      rw [removePending, if_neg hk, hrem, erase_cons, hne]
      rfl

/-! ## What holds along a run -/

def JoinSt.unsettled (s : JoinSt) : List Nat := s.queue ++ s.running

structure JoinInv (n : Nat) (s : JoinSt) : Prop where
  nodup : s.waiting.Nodup
  pending_nodup : s.pending.Nodup
  same_values : (s.pending.map fun j => s.objs[j]?).Perm (s.waiting.map fun j => s.objs[j]?)
  unsettled_pending : ∀ i ∈ s.unsettled, i ∈ s.pending
  unsettled_unset : ∀ i ∈ s.unsettled, statusAt s.objs i = none
  settled_set : ∀ i ∈ s.settled, statusAt s.objs i ≠ none
  counted : s.completed + s.waiting.length = n
  callbacks : s.callbacks = if s.waiting = [] ∧ n ≠ 0 then [n] else []
  found : s.failed = []

theorem joinInv_start {tasks : List DownloadableContent} (h : ∀ c ∈ tasks, c.status = none) :
    JoinInv tasks.length (.start tasks) where
  nodup := by simpa [JoinSt.start, JoinSt.waiting] using nodup_range
  pending_nodup := nodup_range
  same_values := by simp [JoinSt.start, JoinSt.waiting]
  unsettled_pending := by simp [JoinSt.start, JoinSt.unsettled]
  unsettled_unset := by
    intro i hi
    have hlt : i < tasks.length := by simpa [JoinSt.start, JoinSt.unsettled] using hi
    have hc := h tasks[i] (getElem_mem hlt)
    simp [JoinSt.start, statusAt, hlt, hc]
  settled_set := by simp [JoinSt.start]
  counted := by simp [JoinSt.start, JoinSt.waiting]
  callbacks := by
    by_cases ht : tasks = [] <;> simp [JoinSt.start, JoinSt.waiting, ht]
  found := rfl

variable {n : Nat} {s : JoinSt}

theorem JoinInv.same_values_set (hi : JoinInv n s) (ho : i ∈ s.unsettled) (c : DownloadableContent) :
    (s.pending.map fun j => (s.objs.set i c)[j]?).Perm (s.waiting.map fun j => (s.objs.set i c)[j]?) := by
  refine map_perm_of_agree hi.pending_nodup hi.nodup (hi.unsettled_pending i ho) (mem_append_left _ ho)
    (fun j hj => ?_) hi.same_values
  rw [getElem?_set_ne (Ne.symm hj)]

/-- The manager or the loop changes a content and leaves its status unset. -/
theorem JoinInv.change (hi : JoinInv n s) (ho : i ∈ s.unsettled) (hc : c.status = none) :
    JoinInv n { s with objs := s.objs.set i c } := by
  have hset (j : Nat) : statusAt (s.objs.set i c) j = if j = i ∧ i < s.objs.length then none else statusAt s.objs j := by
    by_cases hij : i = j
    · subst hij
      by_cases hlt : i < s.objs.length
      · rw [statusAt_set_self hlt, hc, if_pos ⟨rfl, hlt⟩]
      · rw [set_eq_of_length_le (Nat.le_of_not_lt hlt), if_neg fun h => hlt h.2]
    · rw [statusAt_set_ne hij, if_neg fun h => hij h.1.symm]
  refine { hi with same_values := hi.same_values_set ho c, unsettled_unset := ?_, settled_set := ?_ }
  · intro j hj
    rw [hset]
    split
    · rfl
    · exact hi.unsettled_unset j hj
  · intro j hj
    have hne : j ≠ i := by
      rintro rfl
      exact (nodup_append.1 hi.nodup).2.2 j ho j hj rfl
    rw [hset, if_neg fun h => hne h.1]
    exact hi.settled_set j hj

theorem JoinInv.launch (hi : JoinInv n s) {queue sent} (hq : s.queue = i :: queue) :
    JoinInv n { s with queue := queue, running := s.running ++ [i], sent := sent } := by
  have ho : (queue ++ (s.running ++ [i])).Perm s.unsettled := by
    rw [JoinSt.unsettled, hq, ← append_assoc]
    exact perm_append_singleton i (queue ++ s.running)
  have hw : (queue ++ (s.running ++ [i]) ++ s.settled).Perm s.waiting := ho.append_right _
  refine { hi with
    nodup := hw.nodup_iff.2 hi.nodup
    same_values := hi.same_values.trans (hw.map _).symm
    unsettled_pending := fun j hj => hi.unsettled_pending j (ho.mem_iff.1 hj)
    unsettled_unset := fun j hj => hi.unsettled_unset j (ho.mem_iff.1 hj)
    counted := by rw [← hi.counted]; exact congrArg _ hw.length_eq
    callbacks := ?_ }
  have hnil : queue ++ (s.running ++ [i]) ++ s.settled = [] ↔ s.waiting = [] :=
    ⟨fun h => Perm.nil_eq (h ▸ hw) |>.symm, fun h => Perm.eq_nil (h ▸ hw)⟩
  rw [hi.callbacks]
  exact if_congr (and_congr_left fun _ => hnil.symm) rfl rfl

theorem JoinInv.settle (hi : JoinInv n s) (hrun : i ∈ s.running) (hlt : i < s.objs.length) (hc : c.status ≠ none) :
    JoinInv n { s with objs := s.objs.set i c, running := s.running.erase i, settled := s.settled ++ [i] } := by
  have ho : i ∈ s.unsettled := mem_append_right _ hrun
  have hru : (s.running.erase i ++ [i]).Perm s.running :=
    (perm_append_singleton i _).trans (perm_cons_erase hrun).symm
  have hw : (s.queue ++ s.running.erase i ++ (s.settled ++ [i])).Perm s.waiting := by
    have hm : (s.running.erase i ++ (s.settled ++ [i])).Perm (s.running.erase i ++ [i] ++ s.settled) := by
      rw [append_assoc]
      exact perm_append_comm.append_left _
    rw [JoinSt.waiting, append_assoc, append_assoc]
    exact (hm.trans (hru.append_right _)).append_left _
  have hsub : ∀ j ∈ s.queue ++ s.running.erase i, j ∈ s.unsettled ∧ j ≠ i := by
    intro j hj
    have hnd : s.unsettled.Nodup := (nodup_append.1 hi.nodup).1
    rcases mem_append.1 hj with hq | hr
    · refine ⟨mem_append_left _ hq, ?_⟩
      rintro rfl
      exact (nodup_append.1 hnd).2.2 j hq j hrun rfl
    · refine ⟨mem_append_right _ (mem_of_mem_erase hr), ?_⟩
      rintro rfl
      exact (nodup_append.1 hnd).2.1.not_mem_erase hr
  refine ⟨hw.nodup_iff.2 hi.nodup, hi.pending_nodup, ?_, ?_, ?_, ?_, ?_, ?_, hi.found⟩
  · exact (hi.same_values_set ho c).trans (hw.map _).symm
  · exact fun j hj => hi.unsettled_pending j (hsub j hj).1
  · intro j hj
    rw [statusAt_set_ne (Ne.symm (hsub j hj).2)]
    exact hi.unsettled_unset j (hsub j hj).1
  · intro j hj
    by_cases hij : i = j
    · subst hij
      rw [statusAt_set_self hlt]
      exact hc
    · rw [statusAt_set_ne hij]
      refine hi.settled_set j ((mem_append.1 hj).resolve_right fun h => ?_)
      exact hij (mem_singleton.1 h).symm
  · rw [← hi.counted]
    exact congrArg _ hw.length_eq
  · have hne : s.queue ++ s.running.erase i ++ (s.settled ++ [i]) ≠ [] := by simp
    have hne' : s.waiting ≠ [] := ne_nil_of_mem (mem_append_left _ ho)
    rw [hi.callbacks, if_neg fun h => hne' h.1]
    exact (if_neg fun h => hne h.1).symm

/-- A content is reported: one with its value is dropped, and the values stay the same. -/
theorem JoinInv.done (hi : JoinInv n s) (hset : i ∈ s.settled) (c : DownloadableContent) : JoinInv n (joinDone s i c) := by
  have hwa : i ∈ s.waiting := mem_append_right _ hset
  have hv : s.objs[i]? ∈ s.pending.map fun j => s.objs[j]? :=
    hi.same_values.mem_iff.2 (mem_map_of_mem hwa)
  obtain ⟨j, hj, hval, hrem⟩ := removePending_of_mem hv
  have ho : i ∉ s.unsettled := fun h => (nodup_append.1 hi.nodup).2.2 i h i hset rfl
  have hw : s.queue ++ s.running ++ s.settled.erase i = s.waiting.erase i :=
    (erase_append_right _ ho).symm
  -- what is dropped has a final status, so it is no task that is still open
  have hke : ∀ k ∈ s.unsettled, k ∈ s.pending.erase j := by
    intro k hk
    refine (mem_erase_of_ne ?_).2 (hi.unsettled_pending k hk)
    rintro rfl
    refine hi.settled_set i hset ?_
    rw [statusAt, ← hval]
    exact hi.unsettled_unset k hk
  have hva : ((s.pending.erase j).map fun k => s.objs[k]?).Perm ((s.waiting.erase i).map fun k => s.objs[k]?) := by
    refine Perm.cons_inv (a := s.objs[i]?) ?_
    have hp := (perm_cons_erase hj).map fun k => s.objs[k]?
    have hw := (perm_cons_erase hwa).map fun k => s.objs[k]?
    rw [map_cons, hval] at hp
    exact (hp.symm.trans hi.same_values).trans hw
  have hl : (s.pending.erase j).length = (s.waiting.erase i).length := by
    simpa using hva.length_eq
  have hc : s.completed + 1 + (s.waiting.erase i).length = n := by
    have := hi.counted
    have := length_erase_of_mem hwa
    have := length_pos_of_mem hwa
    omega
  have hn : s.callbacks = [] := by
    rw [hi.callbacks, if_neg fun h => ne_nil_of_mem hwa h.1]
  rw [joinDone]
  rw [hrem]
  dsimp only
  refine ⟨?_, hi.pending_nodup.erase j, ?_, hke, hi.unsettled_unset, ?_, ?_, ?_, hi.found⟩
  · rw [JoinSt.waiting, hw]
    exact hi.nodup.erase i
  · rw [JoinSt.waiting, hw]
    exact hva
  · exact fun k hk => hi.settled_set k (mem_of_mem_erase hk)
  · rw [JoinSt.waiting, hw]
    exact hc
  · rw [JoinSt.waiting, hw, hn]
    have hnil : s.pending.erase j = [] ↔ s.waiting.erase i = [] := by
      rw [← length_eq_zero_iff, hl, length_eq_zero_iff]
    by_cases hla : s.waiting.erase i = []
    · rw [hla] at hc
      rw [if_pos (hnil.2 hla), if_pos ⟨hla, by omega⟩]
      exact congrArg (fun k => [k]) hc
    · rw [if_neg fun h => hla (hnil.1 h), if_neg fun h => hla h.1]

theorem joinInv_step {h t a} (hi : JoinInv n s) (hs : joinStep h s a = some t) :
    JoinInv n t := by
  cases a with
  | execute =>
    rw [joinStep] at hs
    split at hs
    · cases hs
    · rename_i i queue hq
      obtain ⟨c, hc, hs⟩ := Option.bind_eq_some_iff.1 hs
      cases hs
      have ho : i ∈ s.unsettled := mem_append_left _ (by rw [hq]; exact mem_cons_self)
      have hu : c.status = none := by simpa [statusAt, hc] using hi.unsettled_unset i ho
      exact (hi.change ho (c := { c with dst := some (getContentDst h c) }) hu).launch hq
  | prepare i size =>
    rw [joinStep] at hs
    split at hs
    · rename_i hrun
      obtain ⟨c, hc, hs⟩ := Option.bind_eq_some_iff.1 hs
      cases hs
      have ho : i ∈ s.unsettled := mem_append_right _ hrun
      have hu : c.status = none := by simpa [statusAt, hc] using hi.unsettled_unset i ho
      exact hi.change ho (c := { c with size_info := size }) hu
    · cases hs
  | settle i result =>
    rw [joinStep] at hs
    split at hs
    · rename_i hrun
      obtain ⟨c, hc, hs⟩ := Option.bind_eq_some_iff.1 hs
      cases hs
      exact hi.settle hrun.1 (List.getElem?_eq_some_iff.1 hc).1 (by simp)
    · cases hs
  | onDone i =>
    rw [joinStep] at hs
    split at hs
    · rename_i hset
      obtain ⟨c, -, hs⟩ := Option.bind_eq_some_iff.1 hs
      cases hs
      exact hi.done hset c
    · cases hs

/-- What `execute_all` should do with its tasks: every completed task is found in `pending`,
and the callback is called when the last one has completed, and not before. -/
structure JoinsOnce (tasks : List DownloadableContent) (s : JoinSt) : Prop where
  found : s.failed = []
  callbacks : s.callbacks = if tasks ≠ [] ∧ s.completed = tasks.length then [tasks.length] else []

/-- In every order in which the tasks are launched, get their final status and are reported,
also with contents of equal value. -/
theorem joins_once (h : Handler) {tasks : List DownloadableContent} (hunset : ∀ c ∈ tasks, c.status = none)
    {as : List JoinLabel} {s : JoinSt} (hrun : exec (joinStep h) (.start tasks) as = some s) : JoinsOnce tasks s := by
  have hi : JoinInv tasks.length s :=
    exec_inv (JoinInv tasks.length) (fun s a t hs ht => joinInv_step hs ht) (joinInv_start hunset) hrun
  have hl : s.waiting = [] ∧ tasks.length ≠ 0 ↔ tasks ≠ [] ∧ s.completed = tasks.length := by
    have hc := hi.counted
    rw [and_comm, ← length_eq_zero_iff, Ne, length_eq_zero_iff]
    refine and_congr_right fun _ => ?_
    omega
  exact ⟨hi.found, by rw [hi.callbacks]; exact if_congr hl rfl rfl⟩

/-- The same dataset twice. The second copy is done first, and is reported after the first
one has its status too. -/
def sameTwice : List DownloadableContent := [⟨"s3://bucket/data", "/data", none, none, none, none, none, none, none⟩,
  ⟨"s3://bucket/data", "/data", none, none, none, none, none, none, none⟩]

theorem joins_once_same_twice : (∀ c ∈ sameTwice, c.status = none) ∧
      ∃ s, exec (joinStep exampleHandler) (.start sameTwice) [.execute, .execute, .settle 1 ⟨.done, none, none⟩,
        .settle 0 ⟨.done, none, none⟩, .onDone 1, .onDone 0] = some s ∧ s.callbacks = [2] ∧ JoinsOnce sameTwice s := by
  have hu : ∀ c ∈ sameTwice, c.status = none := by decide
  have hrun : ∃ s, exec (joinStep exampleHandler) (.start sameTwice) [.execute, .execute, .settle 1 ⟨.done, none, none⟩,
      .settle 0 ⟨.done, none, none⟩, .onDone 1, .onDone 0] = some s ∧ s.callbacks = [2] := ⟨_, rfl, rfl⟩
  obtain ⟨s, hs, hc⟩ := hrun
  exact ⟨hu, s, hs, hc, joins_once exampleHandler hu hs⟩

end BenchmarkAi.Gate
