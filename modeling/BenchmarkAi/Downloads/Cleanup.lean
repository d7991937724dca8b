import BenchmarkAi.Downloads.SystemTheorems
import Mathlib.Algebra.BigOperators.Group.Finset.Piecewise
import Mathlib.Algebra.Order.BigOperators.Group.Finset
import Mathlib.Algebra.Order.Group.Int
import Mathlib.Algebra.Order.Group.Defs
/-!
# What a cleanup may delete

`cleanup` deletes by labels, the nodes are named by contents and the locks by sources.
A call that runs `cleanup` has deleted the node of its path. Nodes are created under the
lock, and who unlocks has deleted a node first; so at each path there are never more
nodes and calls past the deletion than locks held (`Balanced`). Somebody with the node
path of the call then holds the lock of the source, and no other content of that source
is on its way.
-/
open Lib Lib.Znode List

namespace BenchmarkAi.Downloads

/-! ## One fetch -/

def St.pending (s : St) : Prop := s.sect ≠ .waiting ∧ s.done = []

def St.live (s : St) : Prop := s.pending ∧ (s.sect = .dispatch ∨ s.dispatches ≠ [])

def Handler.late (h : Handler) : Bool := !h.early

def Section.beforeNode : Section → Bool
  | .waiting | .estimate | .create => true
  | _ => false

structure Fresh (s : St) : Prop where
  threads : s.threads = []
  watches : s.cell.watches = 0
  fired : s.cell.fired = []
  held : s.sect ≠ .waiting → s.held = true

/-- A change of the node that nobody watches. -/
theorem Fresh.write {s t : St} (h : Fresh s) (hc : t.cell.watches = 0) (hf : t.cell.fired = [])
    (ht : t.threads = s.threads) (hs : t.sect = s.sect) (hh : t.held = s.held) : Fresh t where
  threads := ht.trans h.threads
  watches := hc
  fired := hf
  held hw := hh.trans (h.held (hs ▸ hw))

theorem set_unwatched {c c' : Cell FetcherResult} {d} (h : c.set d = some c') (hw : c.watches = 0) :
    c'.watches = 0 ∧ c'.fired = c.fired := by
  obtain ⟨d₀, v, -, rfl⟩ := set_some h
  simp [Cell.notify, hw]

theorem outside_unwatched {c : Cell FetcherResult} (n : Option (FetcherResult × Nat)) (hw : c.watches = 0) :
    (c.outside n).watches = 0 ∧ (c.outside n).fired = c.fired := by
  unfold Cell.outside
  split <;> simp [Cell.notify, hw]

variable {l : Label} {s' : Shared} {ok : Bool} {x : Handler} {n : Next} {i j : Nat} {f g f' : Fetch} {as : List SysLabel}

theorem fresh_step {s t : St} (hi : s.sect.beforeNode = true → Fresh s) (hm : Moves s l t) (ht : t.sect.beforeNode = true) :
    Fresh t := by
  cases hm with
  | lock h =>
    have hf := hi (by rw [h]; rfl)
    exact ⟨hf.threads, hf.watches, hf.fired, fun _ => rfl⟩
  | estimate h =>
    have hf := hi (by rw [h]; rfl)
    exact ⟨hf.threads, hf.watches, hf.fired, fun _ => hf.held (by simp [h])⟩
  | estimateRaises | estimateAgain | estimateAgainRaises | create | createRaises => cases ht
  | @failReport ok | @failRelease ok | @dispatch ok => cases ok <;> cases ht
  | @handle ok x sh n => cases n <;> cases ht
  | deliver h => rw [(hi ht).fired] at h; cases h
  | thread h => rw [(hi ht).threads] at h; cases h
  | jobWrite h =>
    obtain ⟨hw, hf⟩ := set_unwatched h (hi ht).watches
    exact (hi ht).write hw (hf.trans (hi ht).fired) rfl rfl rfl
  | cancel => exact (hi ht).write (hi ht).watches (hi ht).fired rfl rfl rfl
  | cancelStep h hs =>
    cases hs with
    | missing | final | read | stale => exact (hi ht).write (hi ht).watches (hi ht).fired rfl rfl rfl
    | write hd hc =>
      obtain ⟨hw, hf⟩ := set_unwatched hc (hi ht).watches
      exact (hi ht).write hw (hf.trans (hi ht).fired) rfl rfl rfl
  | @outside n =>
    obtain ⟨hw, hf⟩ := outside_unwatched n (hi ht).watches
    exact (hi ht).write hw (hf.trans (hi ht).fired) rfl rfl rfl

structure Reports (s : St) : Prop where
  unlocked : s.sect ≠ .waiting → s.held = false → s.done ≠ []
  calls : ∀ h ∈ s.handlers, h = .cleanup ∨ h = .release → s.done ≠ []
  failed : s.sect = .failRelease → s.done ≠ []

theorem handles_reports {s : Shared} (hm : Handles s ok x s' n) (hx : x = .cleanup ∨ x = .release → s.done ≠ []) :
    (s.done ≠ [] → s'.done ≠ []) ∧ (∀ h ∈ n.threads, h = .cleanup ∨ h = .release → s'.done ≠ []) ∧
      (s'.held = false → s.held = false ∨ s'.done ≠ []) := by
  cases hm with
  | get | final | delete | notFinal | raises | missing | notHeld => simp [Next.threads]; tauto
  | report | reportRaises => simp [Next.threads]
  | cleanup => exact ⟨id, fun _ _ _ => hx (.inl rfl), .inl⟩
  | release => exact ⟨id, fun _ _ _ => hx (.inr rfl), fun _ => .inr (hx (.inr rfl))⟩

theorem Reports.move {s t : St} (hi : Reports s) (hw : s.sect ≠ .waiting) (hd : t.done = s.done) (hh : t.held = s.held)
    (hs : ∀ h ∈ t.handlers, h ∈ s.handlers ∨ h = .get) (hf : t.sect ≠ .failRelease) : Reports t where
  unlocked _ hu := hd ▸ hi.unlocked hw (hh ▸ hu)
  calls h hm hc := by
    rcases hs h hm with hold | rfl
    · exact hd ▸ hi.calls h hold hc
    · simp at hc
  failed h := absurd h hf

theorem reports_step {s t} (hi : Reports s) (hm : Moves s l t) : Reports t := by
  have ht : ∀ h ∈ s.threads, h ∈ s.handlers ∨ h = .get := fun h hh => .inl (mem_append_right _ hh)
  cases hm with
  | lock h =>
    refine ⟨fun _ hu => (nomatch hu), fun x hx => hi.calls x ?_, (nomatch ·)⟩
    exact mem_append_right _ hx
  | estimate h | estimateRaises h | estimateAgain h | estimateAgainRaises h | createRaises h =>
    exact hi.move (by simp [h]) rfl rfl ht (by simp)
  | create h hc =>
    refine hi.move (by simp [h]) rfl rfl (fun x hx => ?_) (by simp)
    rcases mem_cons.1 hx with rfl | hx
    · exact .inr rfl
    · exact ht x hx
  | @dispatch ok h => cases ok <;> exact hi.move (by simp [h]) rfl rfl ht (by simp)
  | @failReport ok h => cases ok <;> exact ⟨fun _ _ => by simp, fun _ _ _ => by simp, fun _ => by simp⟩
  | @failRelease ok h =>
    have hd : s.done ≠ [] := hi.failed h
    exact ⟨fun _ _ => hd, fun _ _ _ => hd, fun _ => hd⟩
  | @handle ok x sh n hh hs =>
    obtain ⟨hk, hnew, hhe⟩ := handles_reports hs (hi.calls x (by simp [St.handlers, Section.handlers, hh]))
    refine ⟨fun _ hu => ?_, fun h hmem hc => ?_, fun hf => ?_⟩
    · rcases hhe hu with hold | hd
      · exact hk (hi.unlocked (by simp [hh]) hold)
      · exact hd
    · rw [St.handlers, handlers_resume, mem_append] at hmem
      rcases hmem with hmem | hmem
      · exact hnew h hmem hc
      · exact hk (hi.calls h (mem_append_right _ hmem) hc)
    · cases n <;> cases hf
  | @thread ok x sh n hx hs =>
    obtain ⟨hk, hnew, hhe⟩ := handles_reports hs (hi.calls x (mem_append_right _ hx))
    refine ⟨fun hw hu => ?_, fun h hmem hc => ?_, fun hf => hk (hi.failed hf)⟩
    · rcases hhe hu with hold | hd
      · exact hk (hi.unlocked hw hold)
      · exact hd
    · simp only [St.handlers, mem_append] at hmem
      rcases hmem with hmem | hmem | hmem
      · exact hk (hi.calls h (mem_append_left _ hmem) hc)
      · exact hnew h hmem hc
      · exact hk (hi.calls h (mem_append_right _ (mem_of_mem_erase hmem)) hc)
  | deliver h =>
    refine ⟨hi.unlocked, fun x hx hc => ?_, hi.failed⟩
    rcases mem_append.1 hx with hx | hx
    · exact hi.calls x (mem_append_left _ hx) hc
    · split at hx
      · rcases mem_cons.1 hx with rfl | hx
        · simp at hc
        · exact hi.calls x (mem_append_right _ hx) hc
      · exact hi.calls x (mem_append_right _ hx) hc
  | jobWrite | cancel | outside => exact ⟨hi.unlocked, hi.calls, hi.failed⟩
  | cancelStep h hs =>
    cases hs with
    | missing | final | read | stale | write => exact ⟨hi.unlocked, hi.calls, hi.failed⟩

/-- Both hold of a download whatever is done to it. -/
theorem download_locked {c ls} {s : St} (h : exec step (start c) ls = some s) :
    (s.sect.beforeNode = true → Fresh s) ∧ Reports s := by
  refine exec_inv (fun s => (s.sect.beforeNode = true → Fresh s) ∧ Reports s) ?_ ⟨fun _ => ?_, ?_⟩ h
  · intro s l t hi ht
    exact ⟨fresh_step hi.1 (moves_of_step ht), reports_step hi.2 (moves_of_step ht)⟩
  · exact ⟨rfl, rfl, rfl, fun hw => absurd rfl hw⟩
  · refine ⟨fun hw => absurd rfl hw, fun x hx => ?_, (nomatch ·)⟩
    simp [St.handlers, Section.handlers, start] at hx

theorem Reports.holding {s : St} (hi : Reports s) (hp : s.pending) : s.phase = .holding := by
  have hh : s.held = true := by
    by_contra hn
    exact hi.unlocked hp.1 (by simpa using hn) hp.2
  simp [St.phase, hp.1, hh]

/-! ## Locks, nodes and calls -/

/-- One for the lock, if the section has come past creating the node, less the calls that
have deleted a node. -/
def St.credit (s : St) : Int :=
  (if s.held && s.sect.created then 1 else 0) - s.handlers.countP Handler.late

def Shared.node (s : Shared) : Int := if s.cell.data.isSome then 1 else 0

def Shared.lock (s : Shared) : Int := if s.held then 1 else 0

/-- A call that goes past the deletion has deleted a node, and one that unlocks ends. -/
theorem handles_credit {s : Shared} (hm : Handles s ok x s' n) :
    n.threads.countP Handler.late + s'.node + s.lock ≤ [x].countP Handler.late + s.node + s'.lock ∧
      s'.lock ≤ s.lock := by
  cases hm with
  | get hg =>
    obtain ⟨v, hv, rfl⟩ := getWatch_some hg
    simp [Next.threads, Handler.late, Handler.early, Shared.node, Shared.lock]
  | final => simp [Next.threads, Handler.late, Handler.early, Shared.node, Shared.lock]
  | notFinal => simp [Next.threads, Handler.late, Handler.early]
  | delete hd =>
    obtain ⟨⟨d, v, hv⟩, rfl⟩ := delete_some hd
    simp [Next.threads, Handler.late, Handler.early, Shared.node, Shared.lock, hv]
  | report => simp [Next.threads, Handler.late, Handler.early, Shared.node, Shared.lock]
  | cleanup => simp [Next.threads, Handler.late, Handler.early]
  | release hl => simp [Next.threads, Handler.late, Handler.early, Shared.node, Shared.lock, hl, Int.add_comm]
  | reportRaises => simp [Next.threads, Handler.late, Handler.early, Shared.node, Shared.lock]
  | raises | missing | notHeld =>
    refine ⟨?_, le_refl _⟩
    simp only [Next.threads, countP_nil]
    omega

theorem credit_created {s : St} (h : s.sect.created = true) : s.credit = s.lock - s.handlers.countP Handler.late := by
  simp [St.credit, Shared.lock, h]

theorem credit_uncreated {s : St} (h : s.sect.created = false) : s.credit = -s.handlers.countP Handler.late := by
  simp [St.credit, h]

theorem credit_call {s t : St} {r} (hs : Handles s.toShared ok x t.toShared n)
    (hc : t.sect.created = s.sect.created) (hb : s.handlers.Perm ([x] ++ r)) (ha : t.handlers.Perm (n.threads ++ r)) :
    s.credit + t.node ≤ t.credit + s.node := by
  obtain ⟨hle, hl⟩ := handles_credit hs
  have hs' := hb.countP_eq Handler.late
  have ht' := ha.countP_eq Handler.late
  rw [countP_append] at hs' ht'
  cases hcr : s.sect.created with
  | true =>
    rw [credit_created hcr, credit_created (hc.trans hcr)]
    omega
  | false =>
    rw [credit_uncreated hcr, credit_uncreated (hc.trans hcr)]
    omega

theorem credit_le {s t : St} (hh : t.held = s.held) (hc : s.sect.created = true → t.sect.created = true)
    (hs : t.handlers.countP Handler.late = s.handlers.countP Handler.late) : s.credit ≤ t.credit := by
  rw [St.credit, St.credit, hs, hh]
  cases hsc : s.sect.created with
  | false =>
    have hpos : (0 : Int) ≤ if (s.held && t.sect.created) = true then 1 else 0 := by
      split <;> decide
    simpa using hpos
  | true => rw [hc hsc]

theorem set_node {s : Shared} {d} (h : s.cell.set d = some s'.cell) : s'.node = s.node := by
  obtain ⟨d₀, v, hv, he⟩ := set_some h
  simp [Shared.node, hv, he]

/-- Whatever a fetch does to its node, it keeps the balance. -/
theorem moves_credit {s t : St} (hf : s.sect.beforeNode = true → Fresh s) (hex : l.exclusive = true) (hm : Moves s l t) :
    s.credit + t.node ≤ t.credit + s.node := by
  -- most steps leave the node, the lock and the calls past the deletion alone
  have hsa : t.node = s.node → s.credit ≤ t.credit → s.credit + t.node ≤ t.credit + s.node := by
    intro hn hc
    rw [hn]
    exact Int.add_le_add_right hc _
  cases hm with
  | lock h => simp [St.credit, St.handlers, Section.handlers, Section.created, Shared.node, h]
  | estimate h | estimateRaises h | estimateAgain h | estimateAgainRaises h | createRaises h =>
    refine hsa rfl (credit_le rfl (fun hc => ?_) (by simp [St.handlers, Section.handlers, h]))
    first | rfl | (rw [h] at hc; cases hc)
  | @failReport ok h | @dispatch ok h =>
    refine hsa rfl (credit_le rfl (fun hc => ?_) ?_)
    · rw [h] at hc
      cases ok <;> first | rfl | cases hc
    · cases ok <;> simp [St.handlers, Section.handlers, h]
  | @failRelease ok h =>
    cases ok with
    | false => exact hsa rfl (credit_le (by simp) (fun _ => rfl) (by simp [St.handlers, Section.handlers, h]))
    | true => simp [St.credit, St.handlers, Section.handlers, Section.created, Shared.node, h]
  | create h hc =>
    obtain ⟨ht, -, -, hhe⟩ := hf (by rw [h]; rfl)
    obtain ⟨hno, rfl⟩ := create_some hc
    simp [St.credit, St.handlers, Section.handlers, Section.created, Shared.node, h, ht, hhe (by simp [h]), hno,
      Handler.late, Handler.early]
  | @handle ok x sh n hh hs =>
    refine credit_call hs ?_ (by rw [St.handlers, hh]; rfl) (by rw [St.handlers, handlers_resume])
    rw [hh]
    cases n <;> rfl
  | @thread ok x sh n hx hs =>
    refine credit_call (r := s.sect.handlers ++ s.threads.erase x) hs rfl ?_ ?_
    · refine ((perm_cons_erase hx).append_left s.sect.handlers).trans ?_
      exact perm_middle
    · rw [St.handlers, ← append_assoc, ← append_assoc]
      exact perm_append_comm.append_right _
  | deliver h =>
    refine hsa rfl (credit_le rfl id ?_)
    simp only [St.handlers, countP_append]
    split <;> simp [Handler.late, Handler.early]
  | jobWrite h => exact hsa (set_node h) (credit_le rfl id rfl)
  | cancel => exact hsa rfl (le_refl _)
  | cancelStep h hs =>
    cases hs with
    | missing | final | read | stale => exact hsa rfl (le_refl _)
    | write hd hc => exact hsa (set_node hc) (credit_le rfl id rfl)
  | outside => cases hex

/-! ## All fetches of a node path -/

variable {s t : Sys} {a : SysLabel}

def Sys.creditAt (s : Sys) (path : List String) (j : Nat) : Int :=
  match s.fetches[j]? with
  | some f => if f.nodePath = path then f.st.credit else 0
  | none => 0

def Sys.credit (s : Sys) (path : List String) : Int := ∑ j ∈ Finset.range s.fetches.length, s.creditAt path j

/-- Fetches with one path see one node, and its place is paid for. -/
structure Balanced (s : Sys) : Prop where
  shared : ∀ (i j : Nat) (f g : Fetch), s.fetches[i]? = some f → s.fetches[j]? = some g → f.nodePath = g.nodePath →
    f.st.cell.data = g.st.cell.data
  credit : ∀ (i : Nat) (f : Fetch), s.fetches[i]? = some f → f.st.node ≤ s.credit f.nodePath

theorem Shared.node_nonneg (s : Shared) : 0 ≤ s.node := by
  unfold Shared.node
  split <;> decide

theorem outside_data (c : Cell FetcherResult) (n : Option (FetcherResult × Nat)) : (c.outside n).data = n := by
  unfold Cell.outside
  split <;> rfl

theorem settle_ne (h : j ≠ i) : (settle i f j g).nodePath = g.nodePath ∧ (settle i f j g).st.credit = g.st.credit ∧
      (settle i f j g).st.cell.data = if f.nodePath = g.nodePath then f.st.cell.data else g.st.cell.data := by
  unfold settle
  rw [if_neg h]
  split
  · rename_i hc
    refine ⟨rfl, rfl, ?_⟩
    rw [if_pos (samePath_iff.1 hc.1)]
    exact outside_data _ _
  · rename_i hc
    refine ⟨rfl, rfl, ?_⟩
    split
    · rename_i hp
      by_contra hd
      exact hc ⟨samePath_iff.2 hp, hd⟩
    · rfl

theorem put_cases {g' : Fetch} (hf : s.fetches[i]? = some f) (hp : f'.nodePath = f.nodePath)
    (hg' : (s.put i f').fetches[j]? = some g') :
    ∃ g, s.fetches[j]? = some g ∧ g'.nodePath = g.nodePath ∧ (j ≠ i → g'.st.credit = g.st.credit) ∧ (j = i → g' = f') ∧
      g'.st.cell.data = if f.nodePath = g.nodePath then f'.st.cell.data else g.st.cell.data := by
  rw [Sys.put, getElem?_mapIdx, Option.map_eq_some_iff] at hg'
  obtain ⟨g, hg, rfl⟩ := hg'
  refine ⟨g, hg, ?_⟩
  by_cases hj : j = i
  · subst hj
    obtain rfl : f = g := Option.some.inj (hf.symm.trans hg)
    have hs : settle j f' j f = f' := if_pos rfl
    rw [hs, if_pos rfl]
    exact ⟨hp, fun h => absurd rfl h, fun _ => rfl, rfl⟩
  · obtain ⟨h1, h2, h3⟩ := settle_ne (f := f') (g := g) hj
    rw [hp] at h3
    exact ⟨h1, fun _ => h2, fun h => absurd h hj, h3⟩

theorem creditAt_put (hf : s.fetches[i]? = some f) (hp : f'.nodePath = f.nodePath) (path : List String) :
    (s.put i f').creditAt path j - s.creditAt path j =
      if j = i then (if f.nodePath = path then f'.st.credit - f.st.credit else 0) else 0 := by
  cases hg' : (s.put i f').fetches[j]? with
  | none =>
    have hg : s.fetches[j]? = none := by
      rw [List.getElem?_eq_none_iff] at hg' ⊢
      rwa [put_length] at hg'
    have hj : j ≠ i := by
      rintro rfl
      rw [hf] at hg
      cases hg
    simp [Sys.creditAt, hg, hg', hj]
  | some g' =>
    obtain ⟨g, hg, hpa, hc, hs, -⟩ := put_cases hf hp hg'
    by_cases hj : j = i
    · subst hj
      simp only [Sys.creditAt, hg', hf, hs rfl, hp]
      split <;> simp
    · simp [Sys.creditAt, hg, hg', hj, hpa, hc hj]

theorem credit_put (hf : s.fetches[i]? = some f) (hp : f'.nodePath = f.nodePath) (path : List String) :
    (s.put i f').credit path = s.credit path + if f.nodePath = path then f'.st.credit - f.st.credit else 0 := by
  have hi : i ∈ Finset.range s.fetches.length := Finset.mem_range.2 (List.getElem?_eq_some_iff.1 hf).1
  have hd : ∑ j ∈ Finset.range s.fetches.length, ((s.put i f').creditAt path j - s.creditAt path j) =
      if f.nodePath = path then f'.st.credit - f.st.credit else 0 := by
    rw [Finset.sum_congr rfl fun j _ => creditAt_put hf hp path, Finset.sum_ite_eq' _ i, if_pos hi]
  rw [Finset.sum_sub_distrib] at hd
  rw [Sys.credit, Sys.credit, put_length]
  omega

/-- A step of one fetch keeps the balance of all. -/
theorem balanced_put {st : St} (hb : Balanced s) (hf : s.fetches[i]? = some f)
    (hc : f.st.credit + st.node ≤ st.credit + f.st.node) (ht : t.fetches = (s.put i { f with st := st }).fetches) :
    Balanced t := by
  have hcr : ∀ path, t.credit path = (s.put i { f with st := st }).credit path := by
    intro path
    simp only [Sys.credit, Sys.creditAt, ht]
  have hp : ({ f with st := st } : Fetch).nodePath = f.nodePath := rfl
  constructor
  · intro j k g' h' hg' hh' hpa
    rw [ht] at hg' hh'
    obtain ⟨g, hg, hgp, -, -, hgd⟩ := put_cases hf hp hg'
    obtain ⟨h, hh, hhp, -, -, hhd⟩ := put_cases hf hp hh'
    rw [hgp, hhp] at hpa
    rw [hgd, hhd, hpa, hb.shared j k g h hg hh hpa]
  · intro j g' hg'
    rw [ht] at hg'
    obtain ⟨g, hg, hgp, -, -, hgd⟩ := put_cases hf hp hg'
    rw [hcr, hgp, credit_put hf hp]
    split at hgd
    · rename_i hpa
      -- the node of `i`, whose step has paid for it
      have hn : g'.st.node = st.node := by rw [Shared.node, hgd]; rfl
      have hpd := hb.credit i f hf
      rw [if_pos hpa, ← hpa]
      dsimp only
      omega
    · rename_i hpa
      have hn : g'.st.node = g.st.node := by rw [Shared.node, hgd]; rfl
      rw [if_neg hpa, hn, Int.add_zero]
      exact hb.credit j g hg

theorem credit_nonneg (hb : Balanced s) (path : List String) : 0 ≤ s.credit path := by
  by_cases h : ∃ (i : Nat) (f : Fetch), s.fetches[i]? = some f ∧ f.nodePath = path
  · obtain ⟨i, f, hf, rfl⟩ := h
    exact le_trans (Shared.node_nonneg _) (hb.credit i f hf)
  · refine le_of_eq (Finset.sum_eq_zero fun j _ => ?_).symm
    unfold Sys.creditAt
    split
    · rename_i f hf
      rw [if_neg fun hp => h ⟨j, f, hf, hp⟩]
    · rfl

theorem newFetch_spec (s : Sys) (cl ac nm : String) (c : DownloadableContent) : (s.newFetch cl ac nm c).st.credit = 0 ∧
      ((s.newFetch cl ac nm c).st.cell.data = none ∧ (∀ g ∈ s.fetches, g.nodePath ≠ (s.newFetch cl ac nm c).nodePath) ∨
        ∃ g ∈ s.fetches, g.nodePath = (s.newFetch cl ac nm c).nodePath ∧
          (s.newFetch cl ac nm c).st.cell.data = g.st.cell.data) := by
  unfold Sys.newFetch
  dsimp only
  cases hf : s.fetches.find? (Fetch.samePath ⟨cl, ac, nm, start c⟩) with
  | none =>
    refine ⟨rfl, .inl ⟨rfl, fun g hg hp => ?_⟩⟩
    exact find?_eq_none.1 hf g hg (samePath_iff.2 hp.symm)
  | some g =>
    have hg := mem_of_find?_eq_some hf
    have hp := (samePath_iff.1 (find?_some hf)).symm
    rw [Option.bind_some]
    cases hd : g.st.cell.data with
    | none => exact ⟨rfl, .inr ⟨g, hg, hp, hd.symm⟩⟩
    | some d => exact ⟨rfl, .inr ⟨g, hg, hp, hd.symm⟩⟩

theorem balanced_request {cl ac nm c} (hb : Balanced s)
    (ht : t.fetches = s.fetches ++ [s.newFetch cl ac nm c]) : Balanced t := by
  obtain ⟨hz, hda⟩ := newFetch_spec s cl ac nm c
  generalize s.newFetch cl ac nm c = n at ht hz hda
  have hc : ∀ (j : Nat) (g : Fetch), t.fetches[j]? = some g → s.fetches[j]? = some g ∨ g = n := by
    intro j g hg
    rw [ht] at hg
    rcases Nat.lt_or_ge j s.fetches.length with hj | hj
    · rw [getElem?_append_left hj] at hg
      exact .inl hg
    · rw [getElem?_append_right hj] at hg
      exact .inr (mem_singleton.1 (mem_of_getElem? hg))
  have hcr : ∀ path, t.credit path = s.credit path := by
    intro path
    have hl : t.creditAt path s.fetches.length = 0 := by
      simp [Sys.creditAt, ht, hz]
    rw [Sys.credit, ht, length_append, length_singleton, Finset.sum_range_succ, hl, Int.add_zero]
    refine Finset.sum_congr rfl fun j hj => ?_
    simp only [Sys.creditAt, ht, getElem?_append_left (Finset.mem_range.1 hj)]
  -- the node the new fetch sees is the one the others at its path see
  have hs : ∀ (j : Nat) (g : Fetch), s.fetches[j]? = some g → g.nodePath = n.nodePath →
      g.st.cell.data = n.st.cell.data := by
    intro j g hg hp
    rcases hda with ⟨-, hno⟩ | ⟨h, hh, hhp, hd⟩
    · exact absurd hp (hno g (mem_of_getElem? hg))
    · obtain ⟨k, hk⟩ := mem_iff_getElem?.1 hh
      rw [hd, hb.shared j k g h hg hk (hp.trans hhp.symm)]
  constructor
  · intro j k g h hg hh hp
    rcases hc j g hg with hg | rfl <;> rcases hc k h hh with hh | rfl
    · exact hb.shared j k g h hg hh hp
    · exact hs j g hg hp
    · exact (hs k h hh hp.symm).symm
    · rfl
  · intro j g hg
    rw [hcr]
    rcases hc j g hg with hg | rfl
    · exact hb.credit j g hg
    · rcases hda with ⟨hn, -⟩ | ⟨h, hh, hhp, hd⟩
      · rw [Shared.node, hn]
        exact credit_nonneg hb _
      · obtain ⟨k, hk⟩ := mem_iff_getElem?.1 hh
        have hpa := hb.credit k h hk
        rw [Shared.node, ← hd, hhp] at hpa
        exact hpa

theorem balanced_step (hb : Balanced s) (hf : ∀ (i : Nat) (f : Fetch), s.fetches[i]? = some f →
    f.st.sect.beforeNode = true → Fresh f.st) (h : SysMoves s a t) : Balanced t := by
  cases h with
  | request cl ac nm c => exact balanced_request hb rfl
  | @fetch i f l st hi hal hst =>
    exact balanced_put hb hi (moves_credit (hf i f hi) (allows_own hal).2 (moves_of_step hst)) rfl
  | @visits c children i f st hc hi hst =>
    exact balanced_put hb hi (moves_credit (hf i f hi) rfl (moves_of_step hst)) rfl
  | @updates c children i k k' f st hc hi hst =>
    exact balanced_put hb hi (moves_credit (hf i f hi) rfl (moves_of_step hst)) rfl
  | cancel | cancelAll | getChildren | returns | skips | counts => exact ⟨hb.shared, hb.credit⟩

theorem fetch_locked (h : exec sysStep .init as = some s) (hf : s.fetches[i]? = some f) :
    (f.st.sect.beforeNode = true → Fresh f.st) ∧ Reports f.st := by
  obtain ⟨c, ls, hrun⟩ := component_run h hf
  exact download_locked hrun.run

theorem balanced_run (h : exec sysStep .init as = some s) : Balanced s := by
  induction as using reverseRecOn generalizing s with
  | nil =>
    cases h
    exact ⟨fun i j f g hf => (nomatch hf), fun i f hf => (nomatch hf)⟩
  | append_singleton as a ih =>
    obtain ⟨u, hu, ha⟩ := exec_concat_some h
    exact balanced_step (ih hu) (fun i f hf => (fetch_locked hu hf).1) (sysMoves_of_step ha)

/-- While a call is past the deletion of the node, a fetch with its node path holds its lock. -/
theorem holder_of_late (h : exec sysStep .init as = some s) (hf : s.fetches[i]? = some f) (hx : x ∈ f.st.handlers)
    (hl : x.late = true) :
    ∃ (j : Nat) (g : Fetch), s.fetches[j]? = some g ∧ g.nodePath = f.nodePath ∧ g.st.phase = .holding := by
  by_contra hno
  have hle : ∀ (j : Nat) (g : Fetch), s.fetches[j]? = some g → g.nodePath = f.nodePath →
      g.st.credit ≤ -(g.st.handlers.countP Handler.late : Int) := by
    intro j g hg hp
    have hn : (g.st.held && g.st.sect.created) = false := by
      by_contra ht
      obtain ⟨hh, hcr⟩ := Bool.and_eq_true_iff.1 (Bool.not_eq_false _ ▸ ht)
      refine hno ⟨j, g, hg, hp, ?_⟩
      have hw : g.st.sect ≠ .waiting := fun e => by rw [e] at hcr; cases hcr
      simp [St.phase, hw, hh]
    rw [St.credit, hn]
    simp
  have hpos : 0 < f.st.handlers.countP Handler.late := countP_pos_iff.2 ⟨x, hx, hl⟩
  have hneg : s.credit f.nodePath < 0 := by
    refine Finset.sum_neg' (fun j _ => ?_) ⟨i, Finset.mem_range.2 (List.getElem?_eq_some_iff.1 hf).1, ?_⟩
    · unfold Sys.creditAt
      split
      · rename_i g hg
        split
        · rename_i hp
          have := hle j g hg hp
          omega
        · exact le_refl _
      · exact le_refl _
    · rw [Sys.creditAt, hf]
      have := hle i f hf rfl
      simp only [if_pos]
      omega
  exact absurd (credit_nonneg (balanced_run h) f.nodePath) (Int.not_le.2 hneg)

/-! ## Sources and nodes -/

def SysLabel.named (srcOf : String → String) : SysLabel → Prop
  | .request _ _ name content => srcOf name = content.src
  | _ => True

theorem Took.src {g' : Fetch} (h : Took s a j g g') : g'.src = g.src := by
  rcases h.ticket with he | ⟨-, hsrc, -⟩
  · exact congrArg Prod.fst he
  · exact hsrc

theorem newFetch_name (s : Sys) (cl ac nm : String) (c : DownloadableContent) : (s.newFetch cl ac nm c).name = nm := by
  unfold Sys.newFetch
  dsimp only
  split <;> rfl

theorem src_of_name {srcOf} (h : exec sysStep .init as = some s) (hn : ∀ a ∈ as, a.named srcOf)
    (hf : s.fetches[i]? = some f) : srcOf f.name = f.src := by
  induction as using reverseRecOn generalizing s f with
  | nil =>
    cases h
    cases hf
  | append_singleton as a ih =>
    obtain ⟨u, hu, ha⟩ := exec_concat_some h
    rcases step_new (sysMoves_of_step ha) hf with ⟨g, hg, ht⟩ | ⟨-, cl, ac, nm, c, rfl, rfl⟩
    · rw [ht.name, ht.src]
      exact ih hu (fun b hb => hn b (mem_append_left _ hb)) hg
    · have hsrc : (u.newFetch cl ac nm c).src = c.src := congrArg Prod.fst (newFetch_ticket u cl ac nm c)
      rw [newFetch_name, hsrc]
      exact hn (.request cl ac nm c) (mem_append_right _ mem_cons_self)

theorem name_of_nodePath (ha : f.action_id ≠ "") (hp : g.nodePath = f.nodePath) : g.name = f.name := by
  unfold Fetch.nodePath at hp
  split at hp <;> simp_all

/-- At most one fetch of a source has its lock and is not reported. When a fetch of an
action comes to its cleanup, the labels it deletes by select no job of another content
that is dispatched and not reported. -/
theorem one_fetch_and_safe_cleanup {srcOf : String → String} {as : List SysLabel}
    (h : exec sysStep .init as = some s) (hn : ∀ a ∈ as, a.named srcOf) :
    (∀ (i j : Nat) (f g : Fetch), s.fetches[i]? = some f → s.fetches[j]? = some g → f.src = g.src →
      f.st.pending → g.st.pending → i = j) ∧
    (∀ (i j : Nat) (f g : Fetch), s.fetches[i]? = some f → s.fetches[j]? = some g → f.action_id ≠ "" →
      .cleanup ∈ f.st.handlers → f.selects g = true → g.st.live → g.nodePath = f.nodePath) := by
  constructor
  · intro i j f g hf hg hsrc hfp hgp
    exact one_holder h hf hg ((fetch_locked h hf).2.holding hfp) ((fetch_locked h hg).2.holding hgp) hsrc
  · intro i j f g hf hg hact hc hsel hl
    obtain ⟨k, e, he, hp, hh⟩ := holder_of_late h hf hc rfl
    have hes : e.src = f.src := by
      rw [← src_of_name h hn he, ← src_of_name h hn hf, name_of_nodePath hact hp]
    have hgs : g.src = f.src := by
      simp only [Fetch.selects, hact, decide_false, Bool.false_or, Bool.and_eq_true, decide_eq_true_eq] at hsel
      exact hsel.2.2
    -- both hold the lock of the source, so they are the same fetch
    have hgh := (fetch_locked h hg).2.holding hl.1
    obtain rfl := one_holder h hg he hgh hh (hgs.trans hes.symm)
    obtain rfl : g = e := Option.some.inj (hg.symm.trans he)
    exact hp

/-- The job of the first content is done, and the callback comes to the cleanup. -/
def cleaningUp : List SysLabel :=
  dispatchedAndQueued ++
  [.fetch 0 (.jobWrite (.fetched none)), .fetch 0 (.deliver .changed), .fetch 0 (.thread .get true),
    .fetch 0 (.thread (.got (JobOutcome.result (.fetched none))) true), .fetch 0 (.thread .delete true),
    .fetch 0 (.thread .report true)]

theorem one_fetch_and_safe_cleanup_two : ∃ s f, exec sysStep .init cleaningUp = some s ∧ s.fetches[0]? = some f ∧
    .cleanup ∈ f.st.handlers ∧
    ∀ (j : Nat) (g : Fetch), s.fetches[j]? = some g → f.selects g = true → g.st.live → g.nodePath = f.nodePath := by
  refine ⟨_, _, rfl, rfl, by decide, fun j g hg hsel hl => ?_⟩
  refine (@one_fetch_and_safe_cleanup _ (fun _ => "http://host/data.zip") cleaningUp rfl ?_).2 0 j _ g rfl hg ?_ ?_ hsel hl
  · simp [cleaningUp, dispatchedAndQueued, oneRequest, toDispatch, lockedRun, SysLabel.named]
  · decide
  · decide

end BenchmarkAi.Downloads
