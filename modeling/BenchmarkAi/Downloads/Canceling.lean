import BenchmarkAi.Downloads.Completion
/-!
# A canceled download stays canceled

`cancel` writes with the version it has read, so it never replaces a final status.
The fetcher job writes without one. If it never replaces a final status by
another one either, the first final status of the node is the one every call of
`__handle_node_state` finds, and the one `on_done` sees (`Settled`).
-/
open Lib Lib.Znode List

namespace BenchmarkAi.Downloads

def FinalKept (s : St) : Prop := ∀ p ∈ s.replaced, p.1.final = true → p.2 = p.1

/-- If a call of `cancel` has counted the node, `on_done` is told of the cancel. -/
def CancelKept (s : St) : Prop := .finished true ∈ s.cancelers → ∀ c ∈ s.done, c.status = some .canceled

def jobReplaces (s : St) : Label → List (FetcherStatus × FetcherStatus)
  | .jobWrite o => replacing s.toShared o.result.status
  | _ => []

/-- The job does not write over a final status that is not its own. -/
def JobYields (s : St) (a : Label) : Prop := ∀ p ∈ jobReplaces s a, p.1.final = true → p.2 = p.1

instance (s : St) (a : Label) : Decidable (JobYields s a) := inferInstanceAs (Decidable (∀ p ∈ _, _ → _))

/-! ## Before the first final status -/

structure Blank (s : Shared) (hs : List Handler) : Prop where
  data : ∀ r v, s.cell.data = some (r, v) → r.status.final = false
  reads : ∀ h ∈ hs, h = .get ∨ ∃ r, h = .got r ∧ r.status.final = false

variable {s s' : Shared} {hs hs' : List Handler}

theorem Blank.mono (h : Blank s hs) (hsub : hs' ⊆ hs) : Blank s hs' :=
  ⟨h.data, fun x hx => h.reads x (hsub hx)⟩

variable {ok : Bool} {x : Handler} {n : Next} {t : St} {sh : Shared} {a : Label}

theorem blank_handles (hm : Handles s ok x s' n) (h : Blank s (x :: hs)) : Blank s' (n.threads ++ hs) ∧ s'.done = s.done := by
  have hx := h.reads x mem_cons_self
  have hre := h.mono (subset_cons_self x hs)
  cases hm with
  | get hg =>
    obtain ⟨v, hv, rfl⟩ := getWatch_some hg
    refine ⟨⟨h.data, fun y hy => ?_⟩, rfl⟩
    rcases mem_cons.1 hy with rfl | hy
    · exact .inr ⟨_, rfl, h.data _ v hv⟩
    · exact hre.reads y hy
  | final hf =>
    obtain hx | ⟨r, hr, hn⟩ := hx
    · cases hx
    · cases hr; rw [hf] at hn; cases hn
  | notFinal | raises | missing => exact ⟨hre, rfl⟩
  | delete | report | reportRaises | cleanup | release | notHeld =>
    obtain hx | ⟨r, hr, -⟩ := hx
    · cases hx
    · cases hr

/-! ## After it -/

def Handler.acted : Handler → Bool
  | .get | .got _ => false
  | _ => true

structure Settled (st : FetcherStatus) (s : Shared) (hs : List Handler) : Prop where
  data : ∀ r v, s.cell.data = some (r, v) → r.status = st
  reads : ∀ r, .got r ∈ hs → r.status.final = true → r.status = st
  acted : ∀ h ∈ hs, h.acted = true → s.content.status = some st
  done : ∀ c ∈ s.done, c.status = some st

variable {st : FetcherStatus}

theorem Settled.mono (h : Settled st s hs) (hsub : hs' ⊆ hs) : Settled st s hs' :=
  ⟨h.data, fun r hr => h.reads r (hsub hr), fun x hx => h.acted x (hsub hx), h.done⟩

theorem settled_handles (hm : Handles s ok x s' n) (h : Settled st s (x :: hs)) : Settled st s' (n.threads ++ hs) := by
  have hre := h.mono (subset_cons_self x hs)
  have hx := h.acted x mem_cons_self
  -- a call that has acted already goes on with the same content
  have hgo : ∀ y : Handler, x.acted = true → (∀ r, y ≠ .got r) → Settled st s (y :: hs) := fun y hxa hy =>
    ⟨h.data, fun r hr hf => by
      rcases mem_cons.1 hr with e | hr
      · exact absurd e.symm (hy r)
      · exact hre.reads r hr hf, fun _ _ _ => hx hxa, h.done⟩
  cases hm with
  | @get result cell hg =>
    obtain ⟨v, hv, rfl⟩ := getWatch_some hg
    refine ⟨h.data, fun r hr hf => ?_, fun y hy hya => ?_, h.done⟩
    · rcases mem_cons.1 hr with e | hr
      · cases e; exact h.data _ v hv
      · exact hre.reads r hr hf
    · rcases mem_cons.1 hy with rfl | hy
      · cases hya
      · exact hre.acted y hy hya
  | @final _ result hf =>
    have hst : (result.update s.content).status = some st := by
      rw [FetcherResult.update_status, h.reads result mem_cons_self hf]
    refine ⟨h.data, fun r hr hf => ?_, fun _ _ _ => hst, h.done⟩
    rcases mem_cons.1 hr with e | hr
    · cases e
    · exact hre.reads r hr hf
  | notFinal | raises | missing | notHeld => exact hre
  | delete hd =>
    obtain ⟨-, rfl⟩ := delete_some hd
    have hg := hgo .report rfl (by simp)
    exact ⟨fun r v hv => (by cases hv), hg.reads, hg.acted, hg.done⟩
  | report =>
    have hg := hgo .cleanup rfl (by simp)
    refine ⟨hg.data, hg.reads, hg.acted, fun c hc => ?_⟩
    rcases mem_cons.1 hc with rfl | hc
    · exact hx rfl
    · exact h.done c hc
  | reportRaises =>
    refine ⟨h.data, hre.reads, hre.acted, fun c hc => ?_⟩
    rcases mem_cons.1 hc with rfl | hc
    · exact hx rfl
    · exact h.done c hc
  | cleanup => exact hgo .release rfl (by simp)
  | release hl => exact ⟨h.data, hre.reads, hre.acted, h.done⟩

/-! ## Versions -/

def Section.preparing : Section → Bool
  | .waiting | .estimate | .create => true
  | _ => false

structure Versions (s : St) : Prop where
  before : s.sect.created = false → s.cell = .empty ∧ s.threads = [] ∧ ∀ r v, .set r v ∉ s.cancelers
  fresh : s.sect.preparing = true → s.done = []
  /-- What `cancel` has read is still there as long as the version is. -/
  sets : ∀ r v, .set r v ∈ s.cancelers → r.status.final = false ∧
    ∀ r' v', s.cell.data = some (r', v') → v ≤ v' ∧ (v = v' → r' = r)
  kept : FinalKept s

theorem versions_start (content : DownloadableContent) : Versions (start content) where
  before _ := ⟨rfl, rfl, fun r v h => by cases h⟩
  fresh _ := rfl
  sets r v h := by cases h
  kept p h := by cases h

theorem Versions.data_none {s : St} (hv : Versions s) (h : s.sect.created = false) : s.cell.data = none := by
  rw [(hv.before h).1]; rfl

theorem versions_same {s : St} (hv : Versions s) (hc : t.cancelers = s.cancelers) (hr : t.replaced = s.replaced)
    (hd : t.cell.data = s.cell.data ∨ t.cell.data = none)
    (hs : t.sect.created = false → s.sect.created = false ∧ t.cell = s.cell ∧ t.threads = s.threads)
    (hp : t.sect.preparing = true → s.sect.preparing = true ∧ t.done = s.done) : Versions t := by
  refine ⟨fun h => ?_, fun h => ?_, fun r v h => ?_, ?_⟩
  · obtain ⟨hs, h1, h2⟩ := hs h
    rw [hc, h1, h2]
    exact hv.before hs
  · rw [(hp h).2]; exact hv.fresh (hp h).1
  · rw [hc] at h
    obtain ⟨h1, h2⟩ := hv.sets r v h
    refine ⟨h1, fun r' v' h' => ?_⟩
    rcases hd with hd | hd
    · exact h2 r' v' (hd ▸ h')
    · rw [hd] at h'; cases h'
  · unfold FinalKept
    rw [hr]; exact hv.kept

variable {d : FetcherResult} {cell : Cell FetcherResult} {c c' : Canceler}

theorem versions_write {s : St} (hv : Versions s) (hset : s.cell.set d = some cell) (hce : t.cell = cell)
    (hse : t.sect = s.sect) (hd : t.done = s.done) (hc : ∀ r v, .set r v ∈ t.cancelers → .set r v ∈ s.cancelers)
    (hk : FinalKept t) : Versions t := by
  obtain ⟨d₀, v₀, hd₀, rfl⟩ := set_some hset
  refine ⟨fun h => ?_, fun h => ?_, fun r v h => ?_, hk⟩
  · rw [hv.data_none (hse ▸ h)] at hd₀; cases hd₀
  · rw [hd]; exact hv.fresh (hse ▸ h)
  · obtain ⟨h1, h2⟩ := hv.sets r v (hc r v h)
    refine ⟨h1, fun r' v' h' => ?_⟩
    rw [hce] at h'
    cases h'
    have := (h2 d₀ v₀ hd₀).1
    constructor
    · omega
    · intro e; omega

theorem finalKept_append {s : St} {new} (hk : FinalKept s)
    (hnew : ∀ p ∈ replacing s.toShared new, p.1.final = true → p.2 = p.1)
    (hr : t.replaced = replacing s.toShared new ++ s.replaced) : FinalKept t := by
  intro p hp
  rw [hr] at hp
  rcases mem_append.1 hp with hp | hp
  · exact hnew p hp
  · exact hk p hp

theorem versions_cancelStep {s : St} (hv : Versions s) (hm : c ∈ s.cancelers) (hs : Cancels s.toShared c sh c') :
    Versions { s with
      toShared := sh
      cancelers := c' :: s.cancelers.erase c
      replaced := if c' = .finished true then replacing s.toShared .canceled ++ s.replaced else s.replaced } := by
  have hsub : ∀ r v, (∀ r v, c' ≠ .set r v) → .set r v ∈ c' :: s.cancelers.erase c → .set r v ∈ s.cancelers := by
    intro r v hc h
    rcases mem_cons.1 h with h | h
    · exact absurd h.symm (hc r v)
    · exact mem_of_mem_erase h
  have hq : (∀ r v, c' ≠ .set r v) → c' ≠ .finished true → sh = s.toShared → Versions { s with
      toShared := sh
      cancelers := c' :: s.cancelers.erase c
      replaced := if c' = .finished true then replacing s.toShared .canceled ++ s.replaced else s.replaced } := by
    rintro hc hf rfl
    refine ⟨fun h => ?_, hv.fresh, fun r v hr => hv.sets r v (hsub r v hc hr), ?_⟩
    · obtain ⟨h1, h2, h3⟩ := hv.before h
      exact ⟨h1, h2, fun r v hr => h3 r v (hsub r v hc hr)⟩
    simp only [if_neg hf]
    exact hv.kept
  cases hs with
  | missing | final | stale => exact hq (by simp) (by simp) rfl
  | @read result version hd hf =>
    refine ⟨fun h => ?_, hv.fresh, fun r v hr => ?_, ?_⟩
    · have := hv.data_none h
      rw [hd] at this; cases this
    · rcases mem_cons.1 hr with e | hr
      · obtain ⟨rfl, rfl⟩ := Canceler.set.inj e
        refine ⟨hf, fun r' v' h' => ?_⟩
        obtain ⟨rfl, rfl⟩ := Prod.mk.inj (Option.some.inj (hd.symm.trans h'))
        exact ⟨Nat.le_refl _, fun _ => rfl⟩
      · exact hv.sets r v (mem_of_mem_erase hr)
    · exact hv.kept
  | @write result old version cell hd hset =>
    refine versions_write hv hset rfl rfl rfl (fun r v => hsub r v (by simp)) ?_
    refine finalKept_append (s := s) hv.kept (fun p hp hf => ?_) rfl
    -- the version has not moved, so what is replaced is what was read
    obtain ⟨hn, hsa⟩ := hv.sets result version hm
    have hold := (hsa old version hd).2 rfl
    simp only [replacing, hd, mem_singleton] at hp
    rw [hp, hold, hn] at hf
    cases hf

theorem versions_step {s} (hv : Versions s) (hj : JobYields s a) (hex : a.exclusive = true) (hm : Moves s a t) :
    Versions t := by
  cases hm with
  | lock h | estimate h =>
    exact versions_same hv rfl rfl (.inl rfl) (fun _ => ⟨by rw [h]; rfl, rfl, rfl⟩) fun _ => ⟨by rw [h]; rfl, rfl⟩
  | estimateRaises h => exact versions_same hv rfl rfl (.inl rfl) (fun _ => ⟨by rw [h]; rfl, rfl, rfl⟩) fun hp => by cases hp
  | estimateAgain | estimateAgainRaises | createRaises =>
    exact versions_same hv rfl rfl (.inl rfl) (fun hc => by cases hc) fun hp => by cases hp
  | @failReport ok h =>
    cases ok <;> exact versions_same hv rfl rfl (.inl rfl) (fun _ => ⟨by rw [h]; rfl, rfl, rfl⟩) fun hp => by cases hp
  | @failRelease ok h =>
    cases ok <;> exact versions_same hv rfl rfl (.inl rfl) (fun _ => ⟨by rw [h]; rfl, rfl, rfl⟩) fun hp => by cases hp
  | create h hc =>
    obtain ⟨-, -, hno⟩ := hv.before (by rw [h]; rfl)
    exact ⟨fun hc => (by cases hc), fun hp => (by cases hp), fun r v hr => absurd hr (hno r v), hv.kept⟩
  | @handle ok x sh n hh hs =>
    refine versions_same hv rfl rfl (handles_data hs) (fun hc => ?_) fun hp => ?_
    · cases n <;> cases hc
    · cases n <;> cases hp
  | @dispatch ok h =>
    cases ok <;> exact versions_same hv rfl rfl (.inl rfl) (fun hc => by cases hc) fun hp => by cases hp
  | @deliver e h =>
    refine versions_same hv rfl rfl (.inl rfl) (fun hc => ?_) fun hp => ⟨hp, rfl⟩
    rw [(hv.before hc).1] at h; cases h
  | @thread ok x sh n hx hs =>
    have hc : s.sect.created = true := by
      by_contra hn
      rw [(hv.before (by simpa using hn)).2.1] at hx; cases hx
    refine versions_same hv rfl rfl (handles_data hs) (fun hn => ?_) fun hp => ?_
    · rw [hc] at hn; cases hn
    · -- before the node is created there is no thread
      cases hse : s.sect <;> simp_all [Section.preparing, Section.created]
  | jobWrite h => exact versions_write hv h rfl rfl rfl (fun _ _ => id) (finalKept_append hv.kept hj rfl)
  | cancel =>
    refine ⟨fun h => ⟨(hv.before h).1, (hv.before h).2.1, fun r v hr => ?_⟩, hv.fresh, fun r v hr => ?_, hv.kept⟩
    · exact (hv.before h).2.2 r v ((mem_cons.1 hr).resolve_left (by simp))
    · exact hv.sets r v ((mem_cons.1 hr).resolve_left (by simp))
  | cancelStep h hs => exact versions_cancelStep hv h hs
  | outside => cases hex

/-! ## The first final status is the last -/

structure Opened (s : St) : Prop where
  blank : Blank s.toShared s.handlers
  counted : .finished true ∉ s.cancelers
  done : s.cell.data ≠ none → s.done = []

structure Closed (st : FetcherStatus) (s : St) : Prop where
  final : st.final = true
  created : s.sect.created = true
  settled : Settled st s.toShared s.handlers
  counted : .finished true ∈ s.cancelers → st = .canceled

theorem opened_start (content : DownloadableContent) : Opened (start content) where
  blank := ⟨fun r v h => (by cases h), fun h hh => (by cases hh)⟩
  counted h := by cases h
  done _ := rfl

theorem handlers_thread {s : St} (hx : x ∈ s.threads) : x :: (s.sect.handlers ++ s.threads.erase x) ⊆ s.handlers := by
  intro y hy
  rcases mem_cons.1 hy with rfl | hy
  · exact mem_append_right _ hx
  · rcases mem_append.1 hy with hy | hy
    · exact mem_append_left _ hy
    · exact mem_append_right _ (mem_of_mem_erase hy)

theorem handlers_after_thread (l l₁ l₂ : List Handler) : l₁ ++ (l ++ l₂) ⊆ l ++ (l₁ ++ l₂) := by
  intro y hy
  simp only [mem_append] at hy ⊢
  tauto

theorem closed_of_write {s : St} (hv : Versions s) (ho : Opened s) (hset : s.cell.set d = some cell) (hd : d.status.final = true)
    (hce : t.cell = cell) (hse : t.sect = s.sect) (hth : t.threads = s.threads) (hdo : t.done = s.done)
    (hc : .finished true ∈ t.cancelers → d.status = .canceled) : Closed d.status t := by
  obtain ⟨d₀, v₀, hd₀, rfl⟩ := set_some hset
  have hcr : s.sect.created = true := by
    by_contra hn
    rw [hv.data_none (by simpa using hn)] at hd₀; cases hd₀
  have hhs : t.handlers = s.handlers := by rw [St.handlers, hse, hth]; rfl
  refine ⟨hd, hse ▸ hcr, ⟨fun r v h => ?_, fun r hr hf => ?_, fun x hx hxa => ?_, fun c hcd => ?_⟩, hc⟩
  · rw [hce] at h
    cases h
    rfl
  · rw [hhs] at hr
    obtain he | ⟨r', he, hn⟩ := ho.blank.reads _ hr
    · cases he
    · cases he; rw [hn] at hf; cases hf
  · rw [hhs] at hx
    obtain rfl | ⟨r', rfl, -⟩ := ho.blank.reads _ hx <;> cases hxa
  · rw [hdo, ho.done (by simp [hd₀])] at hcd
    cases hcd

theorem opened_cancelStep {s : St} (hv : Versions s) (ho : Opened s) (hs : Cancels s.toShared c sh c') {l} :
    (Opened { s with toShared := sh, cancelers := c' :: s.cancelers.erase c, replaced := l }) ∨
    ∃ st, Closed st { s with toShared := sh, cancelers := c' :: s.cancelers.erase c, replaced := l } := by
  have hst : c' ≠ .finished true → sh = s.toShared →
      Opened { s with toShared := sh, cancelers := c' :: s.cancelers.erase c, replaced := l } := by
    rintro hf rfl
    refine ⟨ho.blank, fun hmem => ?_, ho.done⟩
    rcases mem_cons.1 hmem with e | hmem
    · exact hf e.symm
    · exact ho.counted (mem_of_mem_erase hmem)
  cases hs with
  | missing | final | read | stale => exact .inl (hst (by simp) rfl)
  | write hd hset => exact .inr ⟨.canceled, closed_of_write hv ho hset rfl rfl rfl rfl rfl fun _ => rfl⟩

theorem Opened.done_of_handles {s : St} (ho : Opened s) (hs : Handles s.toShared ok x sh n) (hdo : sh.done = s.done)
    (hd : sh.cell.data ≠ none) : sh.done = [] := by
  rw [hdo]
  rcases handles_data hs with e | e
  · exact ho.done (e ▸ hd)
  · exact absurd e hd

theorem opened_step {s} (hv : Versions s) (ho : Opened s) (hex : a.exclusive = true) (hm : Moves s a t) :
    Opened t ∨ ∃ st, Closed st t := by
  have hth : Blank s.toShared s.threads := ho.blank.mono (subset_append_right _ _)
  cases hm with
  | lock | estimate | estimateRaises | estimateAgain | estimateAgainRaises | createRaises =>
    exact .inl ⟨⟨ho.blank.data, hth.reads⟩, ho.counted, ho.done⟩
  | @failReport ok h =>
    have hn := hv.data_none (by rw [h]; rfl)
    cases ok <;> exact .inl ⟨⟨ho.blank.data, hth.reads⟩, ho.counted, fun hd => absurd hn hd⟩
  | @failRelease ok h => cases ok <;> exact .inl ⟨⟨ho.blank.data, hth.reads⟩, ho.counted, ho.done⟩
  | create h hc =>
    obtain ⟨-, rfl⟩ := create_some hc
    refine .inl ⟨⟨fun r v hd => ?_, fun x hx => ?_⟩, ho.counted, fun _ => hv.fresh (by rw [h]; rfl)⟩
    · cases hd
      rfl
    · rcases mem_append.1 hx with hx | hx
      · exact .inl (mem_singleton.1 hx)
      · exact hth.reads x hx
  | @handle ok x sh n hh hs =>
    have hb := ho.blank
    rw [St.handlers, hh] at hb
    obtain ⟨hb, hdo⟩ := blank_handles hs hb
    refine .inl ⟨⟨hb.data, ?_⟩, ho.counted, ho.done_of_handles hs hdo⟩
    rw [St.handlers, handlers_resume]
    exact hb.reads
  | @dispatch ok h => cases ok <;> exact .inl ⟨⟨ho.blank.data, hth.reads⟩, ho.counted, ho.done⟩
  | @deliver e h =>
    refine .inl ⟨⟨ho.blank.data, fun x hx => ?_⟩, ho.counted, ho.done⟩
    rcases mem_append.1 hx with hx | hx
    · exact ho.blank.reads x (mem_append_left _ hx)
    · split at hx
      · rcases mem_cons.1 hx with rfl | hx
        · exact .inl rfl
        · exact hth.reads x hx
      · exact hth.reads x hx
  | @thread ok x sh n hx hs =>
    obtain ⟨hb, hdo⟩ := blank_handles hs (ho.blank.mono (handlers_thread hx))
    exact .inl ⟨hb.mono (handlers_after_thread _ _ _), ho.counted, ho.done_of_handles hs hdo⟩
  | @jobWrite o cell h =>
    exact .inr ⟨_, closed_of_write hv ho h (by cases o <;> rfl) rfl rfl rfl rfl fun hc => absurd hc ho.counted⟩
  | cancel =>
    refine .inl ⟨ho.blank, fun hmem => ?_, ho.done⟩
    exact ho.counted ((mem_cons.1 hmem).resolve_left (by simp))
  | cancelStep h hs => exact opened_cancelStep hv ho hs
  | outside => cases hex

theorem closed_step {s st} (hv : Versions s) (hc : Closed st s) (hj : JobYields s a)
    (hex : a.exclusive = true) (hm : Moves s a t) : Closed st t := by
  obtain ⟨hfi, hcr, hset, hco⟩ := hc
  have hth : Settled st s.toShared s.threads := hset.mono (subset_append_right _ _)
  cases hm with
  | lock h | estimate h | estimateRaises h | failReport h | failRelease h | create h | createRaises h =>
    rw [h] at hcr; cases hcr
  | estimateAgain | estimateAgainRaises =>
    exact ⟨hfi, rfl, ⟨hset.data, hth.reads, hth.acted, hset.done⟩, hco⟩
  | @dispatch ok h => cases ok <;> exact ⟨hfi, rfl, hth, hco⟩
  | @handle ok x sh n hh hs =>
    rw [St.handlers, hh] at hset
    refine ⟨hfi, by cases n <;> rfl, ?_, hco⟩
    rw [St.handlers, handlers_resume]
    exact settled_handles hs hset
  | @deliver e h =>
    refine ⟨hfi, hcr, ⟨hset.data, fun r hr => hset.reads r ?_, fun x hx hxa => ?_, hset.done⟩, hco⟩
    · simp only [St.handlers, mem_append] at hr ⊢
      refine hr.imp_right fun hr => ?_
      split at hr
      · exact (mem_cons.1 hr).resolve_left (by simp)
      · exact hr
    · refine hset.acted x ?_ hxa
      simp only [St.handlers, mem_append] at hx ⊢
      refine hx.imp_right fun hx => ?_
      split at hx
      · refine (mem_cons.1 hx).resolve_left ?_
        rintro rfl
        cases hxa
      · exact hx
  | @thread ok x sh n hx hs =>
    have hset := settled_handles hs (hset.mono (handlers_thread hx))
    exact ⟨hfi, hcr, hset.mono (handlers_after_thread _ _ _), hco⟩
  | @jobWrite o cell h =>
    obtain ⟨d₀, v₀, hd₀, rfl⟩ := set_some h
    -- the job replaces `st` by its own status, which must then be the same
    have hst : d₀.status = st := hset.data d₀ v₀ hd₀
    have hsa : o.result.status = st := by
      have := hj (d₀.status, o.result.status) (by simp [jobReplaces, replacing, hd₀]) (hst ▸ hfi)
      exact this.trans hst
    refine ⟨hfi, hcr, ⟨fun r v hd => ?_, hset.reads, hset.acted, hset.done⟩, hco⟩
    cases hd
    exact hsa
  | cancel =>
    exact ⟨hfi, hcr, hset, fun hmem => hco ((mem_cons.1 hmem).resolve_left (by simp))⟩
  | @cancelStep c c' sh h hs =>
    have hsy : c' ≠ .finished true → .finished true ∈ c' :: s.cancelers.erase c → st = .canceled :=
      fun hf hmem => hco (mem_of_mem_erase ((mem_cons.1 hmem).resolve_left (Ne.symm hf)))
    cases hs with
    | missing | final | read | stale => exact ⟨hfi, hcr, hset, hsy (by simp)⟩
    | @write result old version cell hd hw =>
      -- `cancel` has read a status that was not final, under this very version
      obtain ⟨hn, hsa⟩ := hv.sets result version h
      have hold := (hsa old version hd).2 rfl
      have hst := hset.data old version hd
      rw [← hst, hold, hn] at hfi
      cases hfi
  | outside => cases hex

def Stage (s : St) : Prop := Versions s ∧ (Opened s ∨ ∃ st, Closed st s)

theorem stage_step {s} (hs : Stage s) (hj : JobYields s a ∧ a.exclusive = true) (hm : Moves s a t) : Stage t := by
  obtain ⟨hv, hs⟩ := hs
  refine ⟨versions_step hv hj.1 hj.2 hm, ?_⟩
  rcases hs with ho | ⟨st, hc⟩
  · exact opened_step hv ho hj.2 hm
  · exact .inr ⟨st, closed_step hv hc hj.1 hj.2 hm⟩

theorem Stage.cancelKept {s} (h : Stage s) : CancelKept s := by
  intro hco c hc
  rcases h.2 with ho | ⟨st, hcl⟩
  · exact absurd hco ho.counted
  · rw [← hcl.counted hco]
    exact hcl.settled.done c hc

/-- The log of the writes only grows, and tells whether the job yielded. -/
theorem finalKept_back {s} (hm : Moves s a t) (ht : FinalKept t) : JobYields s a ∧ FinalKept s := by
  cases hm with
  | jobWrite h =>
    exact ⟨fun p hp => ht p (mem_append_left _ hp), fun p hp => ht p (mem_append_right _ hp)⟩
  | @cancelStep c c' sh h hs =>
    refine ⟨fun p hp => (by cases hp), fun p hp => ht p ?_⟩
    split
    · exact mem_append_right _ hp
    · exact hp
  | lock | estimate | estimateRaises | estimateAgain | estimateAgainRaises | failReport | failRelease | create
  | createRaises | handle | dispatch | deliver | thread | cancel | outside =>
    exact ⟨fun p hp => (by cases hp), ht⟩

/-- In every run, a final status is never replaced by another one and a counted
cancel is what `on_done` sees, exactly if the job never writes over a final status
that is not its own. -/
theorem cancel_final_iff {c : DownloadableContent} {as : List Label} {s : St}
    (h : exec step (start c) as = some s) (hex : ∀ a ∈ as, a.exclusive = true) :
    FinalKept s ∧ CancelKept s ↔ Along step JobYields (start c) as := by
  constructor
  · rintro ⟨hk, -⟩
    exact (along_of_trace FinalKept (fun _ _ _ ht hp => finalKept_back (moves_of_step ht) hp) h hk).1
  · intro hj
    have hs : Stage s := exec_inv_along Stage (fun _ _ _ hs ha ht => stage_step hs ha (moves_of_step ht))
      ⟨versions_start c, .inl (opened_start c)⟩ (along_and hj (along_of_forall hex _)) h
    exact ⟨hs.1.kept, hs.cancelKept⟩

def canceledRun : List Label :=
  lockedRun ++ [.run true, .cancel, .cancelStep .get, .cancelStep (.set initialData 0), .deliver .changed, .thread .get true,
    .thread (.got { initialData with status := .canceled }) true, .thread .delete true, .thread .report true]

theorem cancel_final_canceled :
    ∃ s, exec step (start { src := "http://host/data.zip", path := "/data" }) canceledRun = some s ∧
      .finished true ∈ s.cancelers ∧ s.done ≠ [] ∧ FinalKept s ∧ CancelKept s := by
  have hrun : ∃ s, exec step (start { src := "http://host/data.zip", path := "/data" }) canceledRun = some s ∧
      .finished true ∈ s.cancelers ∧ s.done ≠ [] := ⟨_, rfl, by decide, by decide⟩
  obtain ⟨s, h, hc, hd⟩ := hrun
  exact ⟨s, h, hc, hd, (cancel_final_iff h (by decide)).2 (by decide)⟩

/-- The same, but the job writes its result before the node is read. -/
def lateJob : List Label :=
  let result := JobOutcome.result (.fetched (some .file))
  lockedRun ++ [.run true, .cancel, .cancelStep .get, .cancelStep (.set initialData 0), .jobWrite (.fetched (some .file)),
    .deliver .changed, .thread .get true, .thread (.got result) true, .thread .delete true, .thread .report true]

/-- The node was counted as canceled, and `on_done` is called with `DONE`. -/
theorem counted_cancel_lost :
    ∃ s, exec step (start { src := "http://host/data.zip", path := "/data" }) lateJob = some s ∧
      (∀ a ∈ lateJob, a.calm = true ∧ a.exclusive = true) ∧ ¬ CancelKept s ∧ ¬ FinalKept s := by
  refine ⟨_, rfl, by decide, fun h => ?_, fun h => ?_⟩
  · have := h (by decide) _ mem_cons_self
    cases this
  · have := h _ mem_cons_self rfl
    cases this

end BenchmarkAi.Downloads
