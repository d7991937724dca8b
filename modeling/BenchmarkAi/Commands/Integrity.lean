import BenchmarkAi.Commands.Callback
import BenchmarkAi.Lib.Runs
/-!
# What commands do to their object

Seen from its attributes, a command object knows three operations that an event can ask
for: its constructor, `__setattr__` and `__delattr__`. `effect` says what an event comes to,
and `obj_handleEvent` that the callback does just that. A command object stays intact
as long as no event makes one of these operations hit what `cancel` needs.
-/

open Lib Lib.Call List

namespace BenchmarkAi.Commands

variable {ω ρ : Type}

/-! ## Arguments -/

/-- Where no parameter has a name that the callback knows, the arguments are the client's. -/
theorem callArgs_plain {sig : Signature Value} (e : CommandRequestEvent) (args : CommandArgs)
    (h : ∀ n ∈ sig.names, n ≠ "event" ∧ n ≠ "kafka_service" ∧ n ∉ eventFieldNames) :
    callArgs sig e args = (args.positionals.map .str, args.keywords.map fun kv => (kv.1, .str kv.2)) := by
  have he : sig.names.contains "event" = false := by
    rw [← Bool.not_eq_true, contains_iff_mem]
    exact fun hn => (h _ hn).1 rfl
  have hs : sig.names.contains "kafka_service" = false := by
    rw [← Bool.not_eq_true, contains_iff_mem]
    exact fun hn => (h _ hn).2.1 rfl
  have hf (p : String → Bool) : (eventFields e).filter (fun kv =>
      (((sig.names.drop (args.positionals.map Value.str).length).filter p).contains kv.1)) = [] := by
    rw [filter_eq_nil_iff]
    intro kv hkv hc
    rw [contains_iff_mem, mem_filter] at hc
    refine (h _ (mem_of_mem_drop hc.1)).2.2 ?_
    exact mem_map_of_mem hkv
  unfold callArgs
  dsimp only
  rw [he, hs, if_neg (by decide), if_neg (by decide), hf, append_nil]

/-! ## Attributes -/

variable {o : PyObject} {m : Method} {py : Python ρ} {cls : CmdClass ω ρ} {e : CommandRequestEvent} {s : CmdState ω ρ}
  {args : CommandArgs}

theorem getattr_eq {name} (h : o.attrs.lookup name = none) : o.getattr name = classAttr name := by
  unfold PyObject.getattr
  rw [h]
  split <;> rfl

def Method.writes : Method → Bool
  | init | setattr | delattr => true
  | _ => false

theorem classAttr_writes {name} (h : classAttr name = some (.method m)) (hm : m.writes = true) :
    name = "__init__" ∨ name = "__setattr__" ∨ name = "__delattr__" := by
  unfold classAttr at h
  split at h
  · cases h; cases hm
  · exact .inl rfl
  · cases h; cases hm
  · exact .inr (.inl rfl)
  · exact .inr (.inr rfl)
  · cases h
  · cases h
  · cases h
  · cases h
  · rw [Option.map_eq_some_iff] at h
    obtain ⟨sig, -, h⟩ := h
    cases h
    cases hm

/-! ## The effect of an event -/

def CommandArgs.sole (args : CommandArgs) (n : String) : Option String :=
  match args.positionals, args.keywords with
  | [v], [] => some v
  | [], [(k, v)] => if k = n then some v else .none
  | _, _ => .none

/-- What an event does to the attributes of the command object. An attribute that has been
replaced by a string can not be called. -/
def effect (cls : CmdClass ω ρ) (o : PyObject) (p : CommandRequestPayload) : PyObject :=
  if (o.attrs.lookup p.command).isSome then o
  else if p.command = "__init__" then
    match p.args.sole cls.reference with
    | some v => ⟨assign cls.reference (.str v) o.attrs⟩
    | none => o
  else if p.command = "__setattr__" then
    match p.args.positionals, p.args.keywords with
    | [name, value], [] => (o.setattr name value).toOption.getD o
    | _, _ => o
  else if p.command = "__delattr__" then
    match p.args.positionals, p.args.keywords with
    | [name], [] => (o.delattr name).toOption.getD o
    | _, _ => o
  else o

theorem obj_attrOutcome (py : Python ρ) (command name : String) (s : CmdState ω ρ) (r : Except AttrError PyObject) :
    (attrOutcome py command name s r).2.obj = r.toOption.getD s.obj := by
  match r with
  | .ok _ => rfl
  | .error .typeError => rfl
  | .error .attributeError => rfl

theorem obj_runMethod {command pos kw args} (hm : m.writes = false) :
    (runMethod py cls e command pos kw args s m).2.obj = s.obj := by
  cases m with
  | cancel =>
    rw [runMethod]
    split <;> rfl
  | construct => rfl
  | other name sig => rfl
  | _ => cases hm

theorem obj_callMethod {command sig args}
    (hm : m.writes = false) : (callMethod py cls e command m sig args s).2.obj = s.obj := by
  unfold callMethod
  split
  · rfl
  · exact obj_runMethod hm

/-! ### The three operations -/

theorem CmdClass.initSignature_plain (cls : CmdClass ω ρ) :
    ∀ n ∈ cls.initSignature.names, n ≠ "event" ∧ n ≠ "kafka_service" ∧ n ∉ eventFieldNames := by
  have hr := cls.not_reserved
  simp only [reservedNames, mem_append, mem_cons, not_mem_nil, or_false, not_or] at hr
  intro n hn
  obtain rfl : n = cls.reference := mem_singleton.1 hn
  exact ⟨hr.1.1.1, hr.1.1.2.1, hr.1.2⟩

theorem CommandArgs.keywords_one {n} (hne : args.keywords ≠ []) (h : ∀ kv ∈ args.keywords, kv.1 = n) :
    ∃ v, args.keywords = [(n, v)] := by
  cases args with
  | dict d =>
    obtain ⟨entries, hnd⟩ := d
    simp only [CommandArgs.keywords] at hne h ⊢
    match entries with
    | [] => exact absurd rfl hne
    | [(k, v)] => exact ⟨v, by rw [show k = n from h _ mem_cons_self]⟩
    | (k, v) :: (k', v') :: _ =>
      have hk : k = n := h _ mem_cons_self
      have hk' : k' = n := h _ (mem_cons_of_mem _ mem_cons_self)
      simp [hk, hk'] at hnd
  | none => exact absurd rfl hne
  | list xs => exact absurd rfl hne

theorem bind_init {vs} :
    cls.initSignature.bind (args.positionals.map .str) (args.keywords.map fun kv => (kv.1, .str kv.2)) = .ok vs ↔
      ∃ v, args.sole cls.reference = some v ∧ vs = [(cls.reference, .str v)] := by
  refine bind_one.trans ⟨?_, ?_⟩
  · rintro ⟨w, rfl, ⟨hpos, hkw⟩ | ⟨hpos, hw, hke⟩⟩
    · obtain ⟨v, hv, rfl⟩ := map_eq_singleton_iff.1 hpos
      exact ⟨v, by rw [CommandArgs.sole, hv, map_eq_nil_iff.1 hkw], rfl⟩
    · have hne : args.keywords ≠ [] := fun h => by rw [h] at hw; cases hw
      obtain ⟨v, hv⟩ := CommandArgs.keywords_one hne fun kv hkv => hke _ (mem_map_of_mem hkv)
      rw [hv, map_singleton, lookup_cons_if, if_pos rfl] at hw
      cases hw
      refine ⟨v, ?_, rfl⟩
      rw [CommandArgs.sole, map_eq_nil_iff.1 hpos, hv]
      exact if_pos rfl
  · rintro ⟨v, hv, rfl⟩
    refine ⟨_, rfl, ?_⟩
    unfold CommandArgs.sole at hv
    split at hv
    · rename_i hpos hkw
      cases hv
      exact .inl ⟨by rw [hpos]; rfl, by rw [hkw]; rfl⟩
    · rename_i k w hpos hkw
      split at hv
      · rename_i hk
        cases hv
        rw [hpos, hkw, hk]
        exact .inr ⟨rfl, by simp, by simp⟩
      · cases hv
    · cases hv

theorem obj_init {command} (args : CommandArgs) (s : CmdState ω ρ) :
    (callMethod py cls e command .init cls.initSignature (callArgs cls.initSignature e args) s).2.obj =
      match args.sole cls.reference with
      | some v => ⟨assign cls.reference (.str v) s.obj.attrs⟩
      | none => s.obj := by
  rw [callArgs_plain e args cls.initSignature_plain]
  unfold callMethod
  split
  · rename_i err herr
    split
    · rename_i v hv
      cases herr.symm.trans (bind_init.2 ⟨v, hv, rfl⟩)
    · rfl
  · rename_i values hok
    obtain ⟨v, hv, rfl⟩ := bind_init.1 hok
    rw [hv, runMethod, lookup_cons_if, if_pos rfl]

theorem obj_positional {command} {ns : List String}
    (hns : ∀ n ∈ (positional ns).names, n ≠ "event" ∧ n ≠ "kafka_service" ∧ n ∉ eventFieldNames) (args : CommandArgs)
    (s : CmdState ω ρ) :
    (callMethod py cls e command m (positional ns) (callArgs (positional ns) e args) s).2.obj =
      if args.positionals.length = ns.length ∧ args.keywords = [] then
        (runMethod py cls e command (args.positionals.map .str) [] (ns.zip (args.positionals.map .str)) s m).2.obj
      else s.obj := by
  have hb (vs : List (String × Value)) : (positional ns).bind (args.positionals.map .str)
      (args.keywords.map fun kv => (kv.1, .str kv.2)) = .ok vs ↔
        (args.positionals.length = ns.length ∧ args.keywords = []) ∧ vs = ns.zip (args.positionals.map .str) := by
    rw [positional, bind_positionalOnly, length_map, map_eq_nil_iff, and_assoc]
  rw [callArgs_plain e args hns]
  unfold callMethod
  split
  · rename_i err herr
    rw [if_neg fun h => by cases herr.symm.trans ((hb _).2 ⟨h, rfl⟩)]
  · rename_i values hok
    obtain ⟨h, rfl⟩ := (hb _).1 hok
    rw [if_pos h, h.2]
    rfl

theorem obj_setattr {command} (args : CommandArgs) (s : CmdState ω ρ) :
    (callMethod py cls e command .setattr (positional ["name", "value"])
      (callArgs (positional ["name", "value"]) e args) s).2.obj =
      match args.positionals, args.keywords with
      | [name, value], [] => (s.obj.setattr name value).toOption.getD s.obj
      | _, _ => s.obj := by
  rw [obj_positional (by decide)]
  split
  · rename_i h
    obtain ⟨name, value, hpos⟩ := length_eq_two.1 h.1
    rw [hpos, h.2]
    exact obj_attrOutcome py command name s _
  · rename_i hno
    split
    · rename_i hpos hkw
      exact absurd ⟨by rw [hpos]; rfl, hkw⟩ hno
    · rfl

theorem obj_delattr {command} (args : CommandArgs) (s : CmdState ω ρ) :
    (callMethod py cls e command .delattr (positional ["name"]) (callArgs (positional ["name"]) e args) s).2.obj =
      match args.positionals, args.keywords with
      | [name], [] => (s.obj.delattr name).toOption.getD s.obj
      | _, _ => s.obj := by
  rw [obj_positional (by decide)]
  split
  · rename_i h
    obtain ⟨name, hpos⟩ := length_eq_one_iff.1 h.1
    rw [hpos, h.2]
    exact obj_attrOutcome py command name s _
  · rename_i hno
    split
    · rename_i hpos hkw
      exact absurd ⟨by rw [hpos]; rfl, hkw⟩ hno
    · rfl

theorem effect_eq_self {p : CommandRequestPayload} (h : ∀ m, o.getattr p.command = some (.method m) → m.writes = false) :
    effect cls o p = o := by
  unfold effect
  cases hl : o.attrs.lookup p.command with
  | some v => rfl
  | none =>
    have hne (name : String) (m : Method) (hc : classAttr name = some (.method m)) (hm : m.writes = true) :
        p.command ≠ name := by
      intro hp
      have hw := h m (by rw [getattr_eq hl, hp, hc])
      rw [hm] at hw
      cases hw
    rw [if_neg (by simp), if_neg (hne "__init__" .init rfl rfl), if_neg (hne "__setattr__" .setattr rfl rfl),
      if_neg (hne "__delattr__" .delattr rfl rfl)]

theorem lookup_of_writes {name} (h : o.getattr name = some (.method m)) (hm : m.writes = true) :
    o.attrs.lookup name = none ∧ classAttr name = some (.method m) := by
  unfold PyObject.getattr at h
  split at h
  · rename_i hd
    rcases classAttr_writes h hm with rfl | rfl | rfl <;> exact absurd hd (by decide)
  · split at h
    · cases h
    · exact ⟨‹_›, h⟩

theorem obj_handleEvent (py : Python ρ) (cls : CmdClass ω ρ) (topic : String) (s : CmdState ω ρ)
    (e : CommandRequestEvent) : (handleEvent py cls topic s e).obj = (e.payload.map (effect cls s.obj)).getD s.obj := by
  unfold handleEvent
  cases hp : e.payload with
  | none => rw [handle_other (by simp [hp])]; rfl
  | some p =>
    rw [Option.map_some, Option.getD_some]
    by_cases hno : ∀ m, s.obj.getattr p.command ≠ some (.method m)
    · rw [effect_eq_self fun m hm => absurd hm (hno m)]
      rw [handle_other fun q m hq => by rw [hp] at hq; cases hq; exact hno m]
    · obtain ⟨m, hg⟩ := not_forall_not.1 hno
      have hf (r : Response ρ) (s : CmdState ω ρ) : { s with responses := s.responses ++ [r] }.obj = s.obj := rfl
      refine (handle_keeps hf hp hg).trans ?_
      cases hm : m.writes with
      | false =>
        rw [effect_eq_self fun m' hm' => by rw [hg] at hm'; cases hm'; exact hm]
        cases cls.signature m with
        | none => rfl
        | some sig => exact obj_callMethod hm
      | true =>
        obtain ⟨hl, hc⟩ := lookup_of_writes hg hm
        unfold effect
        rw [hl]
        rcases classAttr_writes hc hm with hp | hp | hp
        · rw [hp] at hc ⊢
          cases hc
          exact obj_init p.args s
        · rw [hp] at hc ⊢
          cases hc
          exact obj_setattr p.args s
        · rw [hp] at hc ⊢
          cases hc
          exact obj_delattr p.args s

/-! ## Intact objects -/

/-- What a cancel needs: the object that the instance was created with, and `cancel` as
the class has it. -/
structure Intact (cls : CmdClass ω ρ) (o : PyObject) : Prop where
  reference : o.attrs.lookup cls.reference = some .reference
  cancel : o.attrs.lookup "cancel" = none

/-- An event that calls the constructor, or sets or deletes what a cancel needs. -/
def Tampers (cls : CmdClass ω ρ) (o : PyObject) (p : CommandRequestPayload) : Prop :=
  o.attrs.lookup p.command = none ∧
    (p.command = "__init__" ∧ (p.args.sole cls.reference).isSome ∨
      p.command = "__setattr__" ∧ p.args.positionals.length = 2 ∧
        p.args.positionals.head? ∈ [some cls.reference, some "cancel"] ∨
      p.command = "__delattr__" ∧ p.args.positionals.length = 1 ∧
        p.args.positionals.head? ∈ [some cls.reference, some "__dict__"])

instance (cls : CmdClass ω ρ) (o : PyObject) (p : CommandRequestPayload) : Decidable (Tampers cls o p) :=
  inferInstanceAs (Decidable (_ ∧ _))

theorem CmdClass.reference_ne (cls : CmdClass ω ρ) : cls.reference ≠ "cancel" ∧ cls.reference ∉ dataDescriptors := by
  have hr := cls.not_reserved
  simp only [reservedNames, mem_append, mem_cons, not_mem_nil, or_false, not_or] at hr
  exact ⟨hr.1.1.2.2, hr.2⟩

theorem intact_create (cls : CmdClass ω ρ) : Intact cls cls.create where
  reference := by rw [CmdClass.create, lookup_cons_if, if_pos rfl]
  cancel := by rw [CmdClass.create, lookup_cons_if, if_neg (Ne.symm cls.reference_ne.1)]; rfl

theorem intact_assign (h : Intact cls o) (name value : String) :
    Intact cls ⟨assign name (.str value) o.attrs⟩ ↔ name ≠ cls.reference ∧ name ≠ "cancel" := by
  constructor
  · intro h'
    constructor
    · rintro rfl
      have href := h'.reference
      rw [lookup_assign_self] at href
      cases href
    · rintro rfl
      have hc := h'.cancel
      rw [lookup_assign_self] at hc
      cases hc
  · rintro ⟨hr, hc⟩
    exact ⟨(lookup_assign_ne (Ne.symm hr) _ _).trans h.reference, (lookup_assign_ne (Ne.symm hc) _ _).trans h.cancel⟩

theorem intact_setattr (h : Intact cls o) (name value : String) :
    Intact cls ((o.setattr name value).toOption.getD o) ↔ name ≠ cls.reference ∧ name ≠ "cancel" := by
  have hr := cls.reference_ne.2
  simp only [dataDescriptors, mem_cons, not_mem_nil, or_false, not_or] at hr
  unfold PyObject.setattr
  split
  · rename_i hn
    refine ⟨fun _ => ?_, fun _ => h⟩
    rcases hn with rfl | rfl
    · exact ⟨Ne.symm hr.1, by decide⟩
    · exact ⟨Ne.symm hr.2.1, by decide⟩
  · split
    · rename_i hn
      subst hn
      exact ⟨fun _ => ⟨Ne.symm hr.2.2, by decide⟩, fun _ => h⟩
    · exact intact_assign h name value

theorem intact_delattr (h : Intact cls o) (name : String) :
    Intact cls ((o.delattr name).toOption.getD o) ↔ name ≠ cls.reference ∧ name ≠ "__dict__" := by
  have hr := cls.reference_ne.2
  simp only [dataDescriptors, mem_cons, not_mem_nil, or_false, not_or] at hr
  unfold PyObject.delattr
  split
  · rename_i hn
    subst hn
    exact ⟨fun _ => ⟨Ne.symm hr.1, by decide⟩, fun _ => h⟩
  · split
    · rename_i hn
      refine ⟨fun h' => ?_, fun h' => absurd hn h'.2⟩
      cases h'.reference
    · rename_i hd
      split
      · rename_i hn
        subst hn
        exact ⟨fun _ => ⟨Ne.symm hr.2.2, by decide⟩, fun _ => h⟩
      · split
        · rename_i hmem
          constructor
          · intro h'
            refine ⟨?_, hd⟩
            rintro rfl
            have href : (remove cls.reference o.attrs).lookup cls.reference = some .reference := h'.reference
            rw [lookup_remove_self] at href
            cases href
          · -- a deleted attribute is not `cancel`, which is none of the instance
            rintro ⟨hne, -⟩
            have hc : name ≠ "cancel" := by
              rintro rfl
              rw [h.cancel] at hmem
              cases hmem
            exact ⟨(lookup_remove_ne (Ne.symm hne) _).trans h.reference, (lookup_remove_ne (Ne.symm hc) _).trans h.cancel⟩
        · rename_i hno
          refine ⟨fun _ => ⟨?_, hd⟩, fun _ => h⟩
          rintro rfl
          rw [h.reference] at hno
          exact hno rfl

theorem CommandArgs.keywords_of_positionals (h : args.positionals ≠ []) : args.keywords = [] := by
  cases args with
  | list xs => rfl
  | none => rfl
  | dict d => exact absurd rfl h

/-- One event keeps an object intact exactly if it does not tamper with it. -/
theorem intact_effect (h : Intact cls o) (p : CommandRequestPayload) : Intact cls (effect cls o p) ↔ ¬ Tampers cls o p := by
  unfold effect Tampers
  cases hl : o.attrs.lookup p.command with
  | some v => simp [h]
  | none =>
    rw [if_neg (by simp)]
    by_cases hi : p.command = "__init__"
    · rw [hi]
      cases hv : p.args.sole cls.reference with
      | some v => simp [intact_assign h]
      | none => simp [h]
    · rw [if_neg hi]
      by_cases hset : p.command = "__setattr__"
      · rw [if_pos hset, hset]
        split
        · rename_i name value hpos hkw
          rw [intact_setattr h, hpos]
          simp
        · rename_i hno
          have hlen : p.args.positionals.length ≠ 2 := by
            intro hlen
            obtain ⟨name, value, hpos⟩ := length_eq_two.1 hlen
            exact hno name value hpos (CommandArgs.keywords_of_positionals (by rw [hpos]; simp))
          simp [h, hlen]
      · rw [if_neg hset]
        by_cases hdel : p.command = "__delattr__"
        · rw [if_pos hdel, hdel]
          split
          · rename_i name hpos hkw
            rw [intact_delattr h, hpos]
            simp
          · rename_i hno
            have hlen : p.args.positionals.length ≠ 1 := by
              intro hlen
              obtain ⟨name, hpos⟩ := length_eq_one_iff.1 hlen
              exact hno name hpos (CommandArgs.keywords_of_positionals (by rw [hpos]; simp))
            simp [h, hlen]
        · simp [h, hi, hset, hdel]

theorem intact_handleEvent {topic} (h : Intact cls s.obj) (e : CommandRequestEvent) :
    Intact cls (handleEvent py cls topic s e).obj ↔ ∀ p, e.payload = some p → ¬ Tampers cls s.obj p := by
  rw [obj_handleEvent]
  cases e.payload with
  | none => simp [h]
  | some p =>
    rw [Option.map_some, Option.getD_some, intact_effect h]
    simp

/-! ## Runs -/

/-- A command object is intact after every sequence of events exactly if no event tampers
with it, in the state that the events before it have left. -/
theorem command_object_intact_iff (py : Python ρ) (cls : CmdClass ω ρ) (topic : String) (w : World ω)
    (events : List CommandRequestEvent) :
    (∀ pre, pre <+: events → Intact cls (handleEvents py cls topic ⟨cls.create, w, []⟩ pre).obj) ↔
      Along (fun s e => some (handleEvent py cls topic s e))
        (fun s e => ∀ p, e.payload = some p → ¬ Tampers cls s.obj p) ⟨cls.create, w, []⟩ events :=
  forall_prefix_iff_along (fun s : CmdState ω ρ => Intact cls s.obj) (fun _ e h => intact_handleEvent h e)
    (intact_create cls) events

/-! ## A constructor as a command -/

def commandRequest (command : String) (args : CommandArgs) : CommandRequestEvent where
  action_id := "ACTION_ID"
  message_id := "MESSAGE_ID"
  client_id := "CLIENT_ID"
  client_version := "DONTCARE"
  client_username := "DONTCARE"
  authenticated := false
  tstamp := 1556814924121
  visited := []
  type := "DONTCARE"
  payload := some ⟨command, args⟩

def examplePython {ρ : Type} : Python ρ where
  capitalize := id
  bindErrorText := fun _ _ => ""
  attrErrorText := fun _ _ _ => ""
  answer := fun _ _ _ => .ok none

def exampleExecutor : CmdClass Unit Unit := executorCommandObject [fun _ _ _ w => (.ok (), w)]

def exampleDownloads : CmdClass Unit (Unit × Nat) := downloadCmdObject fun _ _ w => (.ok ((), 1), w)

def initThenCancel (reference : String) : List CommandRequestEvent :=
  [commandRequest "__init__" (.dict ⟨[(reference, "x")], by simp⟩),
   commandRequest "cancel" (.dict ⟨[("target_action_id", "ACTION")], by simp⟩)]

/-- `__init__` is a command like any other: it replaces the engines, or the download
manager, by a string of the client, and is reported as a success. The cancel after it
fails. -/
theorem init_command_replaces_reference :
    (let s := handleEvents examplePython exampleExecutor "CMD_RETURN" ⟨exampleExecutor.create, ⟨(), []⟩, []⟩
      (initThenCancel "execution_engines")
    s.obj.attrs.lookup "execution_engines" = some (.str "x") ∧
      s.responses.map (·.return_code) = [codeSuccess, codeCommandError]) ∧
    (let s := handleEvents examplePython exampleDownloads "CMD_RETURN" ⟨exampleDownloads.create, ⟨(), []⟩, []⟩
      (initThenCancel "download_mgr")
    s.obj.attrs.lookup "download_mgr" = some (.str "x") ∧
      s.responses.map (·.return_code) = [codeSuccess, codeCommandError]) := by
  decide +kernel

end BenchmarkAi.Commands
