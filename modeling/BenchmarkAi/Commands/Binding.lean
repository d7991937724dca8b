import BenchmarkAi.Commands.Callback
/-!
# Binding the arguments of a command

`handle_event` for every command object whose methods have ordinary named parameters,
not only the two of the repository. The dicts are in memory here, with addresses, since
the callback writes into one that it made from the client's. What the method is called
with comes out as in `callArgs`, where dicts are values.
-/

open Lib Lib.Call List

open Lib.Dacite (Data)

namespace BenchmarkAi.Commands

variable {ν σ ρ : Type}

/-! ## The keyword arguments -/

section Keywords
variable {names : List String} {k n : String} {v : Value} {kw : List (String × Value)}

def giveKnown (names : List String) (k : String) (v : Value) (kw : List (String × Value)) : List (String × Value) :=
  if names.contains k then assign k v kw else kw

theorem lookup_giveKnown (hn : n ∈ names) :
    (giveKnown names k v kw).lookup n = if n = k then some v else kw.lookup n := by
  unfold giveKnown
  by_cases hk : n = k
  · subst hk
    rw [if_pos (contains_iff_mem.2 hn), if_pos rfl, lookup_assign_self]
  · split
    · exact lookup_assign_ne hk v kw
    · rfl

theorem keys_giveKnown :
    (∀ m ∈ (giveKnown names k v kw).map Prod.fst, m ∈ names) ↔ ∀ m ∈ kw.map Prod.fst, m ∈ names := by
  unfold giveKnown
  split
  · rename_i hk
    constructor
    · exact fun h m hm => h m (mem_keys_assign.2 (.inr hm))
    · intro h m hm
      rcases mem_keys_assign.1 hm with rfl | hm
      · exact contains_iff_mem.1 hk
      · exact h m hm
  · rfl

def ownKeywords (names : List String) (args : List (String × String)) : List (String × Value) :=
  giveKnown names "kafka_service" .kafkaService
    (giveKnown names "event" .event (args.map fun kv => (kv.1, .str kv.2)))

theorem lookup_ownKeywords (args : List (String × String)) (hn : n ∈ names) :
    (ownKeywords names args).lookup n = if n = "event" then some .event
      else if n = "kafka_service" then some .kafkaService else (args.lookup n).map .str := by
  rw [ownKeywords, lookup_giveKnown hn, lookup_giveKnown hn, lookup_map_values]
  by_cases he : n = "event"
  · subst he
    rw [if_neg (by decide), if_pos rfl, if_pos rfl]
  · rw [if_neg he, if_neg he]

theorem keys_ownKeywords (args : List (String × String)) :
    (∀ m ∈ (ownKeywords names args).map Prod.fst, m ∈ names) ↔ ∀ m ∈ args.map Prod.fst, m ∈ names := by
  rw [ownKeywords, keys_giveKnown, keys_giveKnown, map_map]
  rfl

end Keywords

section callArgs
variable {sig : Signature Value} {e : CommandRequestEvent} {args : CommandArgs}

theorem callArgs_eq (hpos : args.positionals = []) : callArgs sig e args =
    ([], ownKeywords sig.names args.keywords ++ (eventFields e).filter fun kv =>
      sig.names.contains kv.1 && ((ownKeywords sig.names args.keywords).lookup kv.1).isNone) := by
  have hc (p : String → Bool) (n : String) :
      ((sig.names.drop ([] : List Value).length).filter p).contains n = (sig.names.contains n && p n) := by
    simp
  unfold callArgs ownKeywords giveKnown
  rw [hpos]
  simp only [map_nil, hc]

/-- What a parameter gets by its name: event and service, the argument of the client, the
field of the event, in this order. -/
def keyword (e : CommandRequestEvent) (args : CommandArgs) (n : String) : Option Value :=
  if n = "event" then some .event
  else if n = "kafka_service" then some .kafkaService
  else ((args.keywords.lookup n).map .str).or ((eventFields e).lookup n)

theorem lookup_callArgs (hpos : args.positionals = []) {n} (hn : n ∈ sig.names) :
    (callArgs sig e args).2.lookup n = keyword e args n := by
  rw [callArgs_eq hpos, lookup_append,
    lookup_filter_keys fun k => sig.names.contains k && ((ownKeywords sig.names args.keywords).lookup k).isNone,
    contains_iff_mem.2 hn, lookup_ownKeywords _ hn, keyword]
  split
  · rfl
  · split
    · rfl
    · cases args.keywords.lookup n <;> rfl

/-- Only the client can give an argument that is no parameter. -/
theorem keys_callArgs (hpos : args.positionals = []) :
    (∀ k ∈ (callArgs sig e args).2.map Prod.fst, k ∈ sig.names) ↔ ∀ k ∈ args.keywords.map Prod.fst, k ∈ sig.names := by
  rw [callArgs_eq hpos, map_append, forall_mem_append, keys_ownKeywords, and_iff_left]
  intro k hk
  obtain ⟨kv, hkv, rfl⟩ := mem_map.1 hk
  have hp := (mem_filter.1 hkv).2
  rw [Bool.and_eq_true, contains_iff_mem] at hp
  exact hp.1

end callArgs

/-! ## Dicts in memory -/

abbrev Memory (ν : Type) := List (List (String × ν))

def Memory.read (mem : Memory ν) (a : Nat) : List (String × ν) := mem[a]?.getD []

def Memory.write (mem : Memory ν) (a : Nat) (k : String) (v : ν) : Memory ν := List.modify mem a (assign k v)

section Memory
variable {mem : Memory ν} {d : List (String × ν)}

@[simp] theorem read_new : Memory.read (mem ++ [d]) mem.length = d := by
  simp [Memory.read]

@[simp] theorem write_new (k : String) (v : ν) : Memory.write (mem ++ [d]) mem.length k v = mem ++ [assign k v d] := by
  rw [Memory.write, modify_eq_take_cons_drop (by simp)]
  simp

end Memory

inductive ArgsRef
  | none
  | dict (a : Nat)
  | list (args : List String)

def loadArgs (obj : Value → ν) (mem : Memory ν) : CommandArgs → ArgsRef × Memory ν
  | .none => (.none, mem)
  | .list args => (.list args, mem)
  | .dict args => (.dict mem.length, mem ++ [args.entries.map fun kv => (kv.1, obj (.str kv.2))])

def ArgsRef.positionals (obj : Value → ν) : ArgsRef → List ν
  | list args => args.map fun s => obj (.str s)
  | _ => []

def ArgsRef.keywords (mem : Memory ν) : ArgsRef → List (String × ν)
  | dict a => mem.read a
  | _ => []

def makeArgs (obj : Value → ν) (names : List String) (e : CommandRequestEvent) (args : ArgsRef) (mem : Memory ν) :
    List ν × Nat × Memory ν :=
  let pos_args := args.positionals obj
  -- a new dict
  let kw_args := mem.length
  let mem : Memory ν := mem ++ [args.keywords mem]
  let mem := if names.contains "event" then mem.write kw_args "event" (obj .event) else mem
  let mem := if names.contains "kafka_service" then mem.write kw_args "kafka_service" (obj .kafkaService) else mem
  -- without the positionals and without the named
  let params := (names.drop pos_args.length).filter fun n => ((mem.read kw_args).lookup n).isNone
  let from_event := (eventFields e).filter fun kv => params.contains kv.1
  (pos_args, kw_args, from_event.foldl (fun mem kv => mem.write kw_args kv.1 (obj kv.2)) mem)

section makeArgs
variable (obj : Value → ν) (mem : Memory ν)

def stored (kw : List (String × Value)) : List (String × ν) := kw.map fun kv => (kv.1, obj kv.2)

theorem positionals_loadArgs (args : CommandArgs) :
    (loadArgs obj mem args).1.positionals obj = (args.positionals.map Value.str).map obj := by
  cases args with
  | list args => exact (map_map ..).symm
  | none | dict args => rfl

theorem keywords_loadArgs (args : CommandArgs) : (loadArgs obj mem args).1.keywords (loadArgs obj mem args).2 =
    stored obj (args.keywords.map fun kv => (kv.1, .str kv.2)) := by
  cases args with
  | dict args =>
    rw [stored, map_map]
    exact read_new
  | none | list args => rfl

theorem write_known (names : List String) (k : String) (v : Value) (kw : List (String × Value)) :
    (if names.contains k then Memory.write (mem ++ [stored obj kw]) mem.length k (obj v) else mem ++ [stored obj kw]) =
      mem ++ [stored obj (giveKnown names k v kw)] := by
  unfold giveKnown stored
  split
  · rw [write_new, assign_map_values]
  · rfl

theorem foldl_write {fs kw : List (String × Value)} (hn : (fs.map Prod.fst).Nodup)
    (hnew : ∀ kv ∈ fs, kw.lookup kv.1 = none) :
    fs.foldl (fun mem' kv => Memory.write mem' mem.length kv.1 (obj kv.2)) (mem ++ [stored obj kw]) =
      mem ++ [stored obj (kw ++ fs)] := by
  induction fs generalizing kw with
  | nil => simp
  | cons kv fs ih =>
    rw [map_cons, nodup_cons] at hn
    have ha : assign kv.1 (obj kv.2) (stored obj kw) = stored obj (kw ++ [kv]) := by
      rw [stored, assign_map_values, assign_new (lookup_eq_none.1 (hnew kv mem_cons_self))]
      rfl
    rw [foldl_cons, write_new, ha, ih hn.2, append_assoc, singleton_append]
    intro kv' hkv'
    have hne : kv'.1 ≠ kv.1 := fun h => hn.1 (h ▸ mem_map_of_mem hkv')
    rw [lookup_append, hnew kv' (mem_cons_of_mem kv hkv'), lookup_cons_if, if_neg hne]
    rfl

/-- In memory the arguments are those of `callArgs`. All that is written is written to the new
dict. -/
theorem makeArgs_loadArgs (sig : Signature Value) (e : CommandRequestEvent) (args : CommandArgs) :
    makeArgs obj sig.names e (loadArgs obj mem args).1 (loadArgs obj mem args).2 =
      ((callArgs sig e args).1.map obj, (loadArgs obj mem args).2.length,
        (loadArgs obj mem args).2 ++ [stored obj (callArgs sig e args).2]) := by
  unfold makeArgs
  rw [keywords_loadArgs, positionals_loadArgs]
  generalize (loadArgs obj mem args).2 = mem
  have hl (kw : List (String × Value)) (n : String) : ((stored obj kw).lookup n).isNone = (kw.lookup n).isNone := by
    rw [stored, lookup_map_values, Option.isNone_map]
  dsimp only
  rw [write_known, write_known, read_new, length_map]
  simp only [hl]
  rw [foldl_write]
  · rfl
  · refine Nodup.sublist (filter_sublist.map _) ?_
    rw [keys_eventFields]
    decide
  · intro kv hkv
    have hp := (mem_filter.1 hkv).2
    rw [contains_iff_mem, mem_filter, Option.isNone_iff_eq_none] at hp
    exact hp.2

end makeArgs

/-! ## Handling an event -/

/-- A method with ordinary named parameters. No two of them have one name. Its body gets
their values and returns or raises an `Exception`. -/
structure CommandMethod (ν σ ρ : Type) where
  params : List (Param ν)
  ordinary : ∀ p ∈ params, p.kind = .positionalOrKeyword
  distinct : (params.map (·.name)).Nodup
  body : List (String × ν) → σ → Outcome ρ × σ

def CommandMethod.signature (m : CommandMethod ν σ ρ) : Signature ν := ⟨m.params, none, none⟩

/-- An attribute of a command object; of a callable without a signature there is no method. -/
abbrev Attribute (ν σ ρ : Type) := Member (Option (CommandMethod ν σ ρ))

/-- The callback at work: the dicts, what the methods act on, the calls that came to the body
of a method with the values of its parameters, and the responses that have been sent. -/
structure Serving (ν σ ρ : Type) where
  memory : Memory ν
  world : σ
  calls : List (List (String × ν)) := []
  responses : List (Response ρ) := []

def CommandMethod.call (py : Python ρ) (command : String) (m : CommandMethod ν σ ρ) (pos_args : List ν)
    (kw_args : List (String × ν)) (s : Serving ν σ ρ) : Outcome ρ × Serving ν σ ρ :=
  match m.signature.bind pos_args kw_args with
  | .error err => (.error (.typeError (py.bindErrorText command err)), s)
  | .ok values =>
    let (outcome, world) := m.body values s.world
    (outcome, { s with world, calls := s.calls ++ [values] })

def CommandMethod.serve (py : Python ρ) (obj : Value → ν) (command : String) (m : CommandMethod ν σ ρ)
    (e : CommandRequestEvent) (args : ArgsRef) (s : Serving ν σ ρ) : Outcome ρ × Serving ν σ ρ :=
  let (pos_args, kw_args, memory) := makeArgs obj m.signature.names e args s.memory
  m.call py command pos_args (memory.read kw_args) { s with memory }

/-- `handle_event` with the dicts in memory. -/
def Serving.handleEvent (py : Python ρ) (obj : Value → ν) (cmd_return_topic : String)
    (getattr : String → Option (Attribute ν σ ρ)) (s : Serving ν σ ρ) (e : CommandRequestEvent) : Serving ν σ ρ :=
  let (args, memory) := loadArgs obj s.memory ((e.payload.map (·.args)).getD .none)
  let s := { s with memory }
  handle py cmd_return_topic getattr (fun m p => m.map fun m => m.serve py obj p.command e args s)
    (fun response s => { s with responses := s.responses ++ [response] }) e s

/-! ## What a method is called with -/

section Binding
variable {obj : Value → ν} {e : CommandRequestEvent} {args : Dict String} {m : CommandMethod ν σ ρ}

/-- Each key is a parameter, and each parameter without default has a value from elsewhere. -/
def CommandMethod.Accepts (m : CommandMethod ν σ ρ) (args : Dict String) : Prop :=
  (∀ k ∈ args.entries.map Prod.fst, k ∈ m.params.map (·.name)) ∧
    ∀ p ∈ m.params, p.default = none → p.name = "event" ∨ p.name = "kafka_service" ∨
      p.name ∈ args.entries.map Prod.fst ∨ p.name ∈ eventFieldNames

instance (m : CommandMethod ν σ ρ) (args : Dict String) : Decidable (m.Accepts args) :=
  inferInstanceAs (Decidable ((∀ k ∈ args.entries.map Prod.fst, k ∈ m.params.map (·.name)) ∧
    ∀ p ∈ m.params, p.default = none → p.name = "event" ∨ p.name = "kafka_service" ∨
      p.name ∈ args.entries.map Prod.fst ∨ p.name ∈ eventFieldNames))

def argument (obj : Value → ν) (e : CommandRequestEvent) (args : Dict String) (p : Param ν) : Option ν :=
  ((keyword e (.dict args) p.name).map obj).or p.default

theorem argument_eq_none {p : Param ν} : argument obj e args p = none ↔
    p.default = none ∧ ¬(p.name = "event" ∨ p.name = "kafka_service" ∨
      p.name ∈ args.entries.map Prod.fst ∨ p.name ∈ eventFieldNames) := by
  rw [argument, Option.or_eq_none_iff, Option.map_eq_none_iff, keyword, and_comm]
  refine and_congr_right fun _ => ?_
  split
  · simp [*]
  · split
    · simp [*]
    · rw [Option.or_eq_none_iff, Option.map_eq_none_iff, CommandArgs.keywords, lookup_eq_none, lookup_eq_none,
        keys_eventFields]
      simp [*]

def CommandMethod.bare (m : CommandMethod ν σ ρ) : Signature Value :=
  ⟨m.params.map fun p => ⟨p.name, p.kind, none⟩, none, none⟩

theorem names_signature (m : CommandMethod ν σ ρ) : m.signature.names = m.params.map (·.name) := by
  simp [CommandMethod.signature, Signature.names]

theorem names_bare (m : CommandMethod ν σ ρ) : m.bare.names = m.params.map (·.name) := by
  simp [CommandMethod.bare, Signature.names]

theorem bind_callArgs {values} : m.signature.bind [] (stored obj (callArgs m.bare e (.dict args)).2) = .ok values ↔
      (∀ k ∈ args.entries.map Prod.fst, k ∈ m.params.map (·.name)) ∧
        Forall₂ (fun p kv => kv.1 = p.name ∧ argument obj e args p = some kv.2) m.params values := by
  have hk : (∀ kv ∈ stored obj (callArgs m.bare e (.dict args)).2, m.signature.accepts kv.1 = true) ↔
      ∀ k ∈ args.entries.map Prod.fst, k ∈ m.params.map (·.name) := by
    have := @keys_callArgs m.bare e (.dict args) rfl
    rw [names_bare] at this
    refine Iff.trans ?_ this
    rw [forall_mem_map, stored, forall_mem_map]
    exact forall₂_congr fun kv _ => accepts_named m.ordinary kv.1
  have hv (p : Param ν) (hp : p ∈ m.params) :
      ((stored obj (callArgs m.bare e (.dict args)).2).lookup p.name).or p.default = argument obj e args p := by
    have hn : p.name ∈ m.bare.names := by
      rw [names_bare]
      exact mem_map_of_mem hp
    rw [stored, lookup_map_values, lookup_callArgs rfl hn, argument]
  rw [CommandMethod.signature] at hk ⊢
  rw [bind_fixed, hk, bindParams_named m.ordinary hv, length_nil, and_iff_right (Nat.zero_le _)]

theorem exists_bind_iff : (∃ values, m.signature.bind [] (stored obj (callArgs m.bare e (.dict args)).2) = .ok values) ↔
    m.Accepts args := by
  simp only [bind_callArgs, exists_and_left, exists_forall₂_iff]
  refine and_congr_right fun _ => forall₂_congr fun p _ => ?_
  -- a parameter has a value unless it is without default and without any other
  have hs : (∃ kv : String × ν, kv.1 = p.name ∧ argument obj e args p = some kv.2) ↔ argument obj e args p ≠ none := by
    rw [Option.ne_none_iff_exists']
    exact ⟨fun ⟨kv, _, hv⟩ => ⟨kv.2, hv⟩, fun ⟨v, hv⟩ => ⟨(p.name, v), rfl, hv⟩⟩
  rw [hs, Ne, argument_eq_none, not_and, not_not]

/-- The step from `s` to `s'` is what the event of a command with a dict of arguments has to
come to. -/
structure Binds (py : Python ρ) (obj : Value → ν) (topic : String) (m : CommandMethod ν σ ρ) (e : CommandRequestEvent)
    (command : String) (args : Dict String) (s s' : Serving ν σ ρ) : Prop where
  executed : s'.calls ≠ s.calls ↔ m.Accepts args
  called : m.Accepts args → ∃ values,
    Forall₂ (fun p kv => kv.1 = p.name ∧ argument obj e args p = some kv.2) m.params values ∧
      s'.calls = s.calls ++ [values] ∧ s'.world = (m.body values s.world).2 ∧
      s'.responses = s.responses ++ [respond py e command topic (m.body values s.world).1]
  refused : ¬m.Accepts args → s'.world = s.world
  answered : ∃ r : Response ρ, s'.responses = s.responses ++ [r] ∧ r.cmd_submit = e ∧ r.topic = topic ∧
    (¬m.Accepts args → r.return_code = codeClientError) ∧
    ∀ values result, s'.calls = s.calls ++ [values] → (m.body values s.world).1 = .ok result →
      r.return_code = codeSuccess ∧ r.return_value = result
  unmodified : ∃ kw_args,
    s'.memory = s.memory ++ [args.entries.map fun kv => (kv.1, obj (.str kv.2)), kw_args]

theorem respond_addressed (py : Python ρ) (e : CommandRequestEvent) (command topic : String) (outcome : Outcome ρ) :
    (respond py e command topic outcome).cmd_submit = e ∧ (respond py e command topic outcome).topic = topic := by
  rcases outcome with (msg | msg) | result
  all_goals exact ⟨rfl, rfl⟩

def Serving.prepared (obj : Value → ν) (m : CommandMethod ν σ ρ) (e : CommandRequestEvent) (args : CommandArgs)
    (s : Serving ν σ ρ) : Serving ν σ ρ :=
  { s with memory := (loadArgs obj s.memory args).2 ++ [stored obj (callArgs m.bare e args).2] }

theorem handleEvent_method (py : Python ρ) (obj : Value → ν) (topic : String)
    {getattr} (s : Serving ν σ ρ) {e : CommandRequestEvent} {p : CommandRequestPayload}
    (hp : e.payload = some p) (hm : getattr p.command = some (.method (some m))) :
    let called := m.call py p.command ((callArgs m.bare e p.args).1.map obj) (stored obj (callArgs m.bare e p.args).2)
      (s.prepared obj m e p.args)
    s.handleEvent py obj topic getattr e =
      if ∀ v ∈ e.visited, v.typed = true then
        { called.2 with responses := called.2.responses ++ [respond py e p.command topic called.1] }
      else called.2 := by
  have hma := makeArgs_loadArgs obj s.memory m.bare e p.args
  rw [names_bare, ← names_signature] at hma
  unfold Serving.handleEvent Serving.prepared
  dsimp only
  rw [handle_method hp hm, hp]
  simp only [Option.map_some, Option.getD_some, CommandMethod.serve, hma, read_new]
  split
  · rename_i r hr
    rw [if_pos (createFromObject_iff.1 ⟨r, hr⟩)]
  · rename_i err hr
    rw [if_neg]
    intro hall
    obtain ⟨r, hr'⟩ := createFromObject_iff.2 hall
    cases hr.symm.trans hr'

theorem binds_of_typed (py : Python ρ) (obj : Value → ν) (topic command : String) (args : Dict String)
    (m : CommandMethod ν σ ρ) (s : Serving ν σ ρ) {getattr : String → Option (Attribute ν σ ρ)} {e : CommandRequestEvent}
    (hpayload : e.payload = some ⟨command, .dict args⟩) (hmethod : getattr command = some (.method (some m)))
    (ht : ∀ v ∈ e.visited, v.typed = true) :
    Binds py obj topic m e command args s (s.handleEvent py obj topic getattr e) := by
  have hpos : (callArgs m.bare e (.dict args)).1.map obj = [] := by
    rfl
  have hm : (s.prepared obj m e (.dict args)).memory = s.memory ++
      [args.entries.map fun kv => (kv.1, obj (.str kv.2)), stored obj (callArgs m.bare e (.dict args)).2] :=
    append_assoc ..
  rw [handleEvent_method py obj topic s hpayload hmethod, if_pos ht, hpos, CommandMethod.call]
  cases hb : m.signature.bind [] (stored obj (callArgs m.bare e (.dict args)).2) with
  | ok values =>
    have ha : m.Accepts args := exists_bind_iff.1 ⟨values, hb⟩
    exact {
      executed := iff_of_true (by simp [Serving.prepared]) ha
      called := fun _ => ⟨values, (bind_callArgs.1 hb).2, rfl, rfl, rfl⟩
      refused := fun h => absurd ha h
      answered := by
        refine ⟨_, rfl, (respond_addressed ..).1, (respond_addressed ..).2, fun h => absurd ha h, ?_⟩
        intro values' result hc hr
        obtain rfl : values = values' := by simpa [Serving.prepared] using hc
        rw [Serving.prepared, hr]
        exact ⟨rfl, rfl⟩
      unmodified := ⟨_, hm⟩ }
  | error err =>
    have ha : ¬m.Accepts args := by
      intro h
      obtain ⟨values, hv⟩ := exists_bind_iff.2 h
      rw [hb] at hv
      cases hv
    exact {
      executed := iff_of_false (by simp [Serving.prepared]) ha
      called := fun h => absurd h ha
      refused := fun _ => rfl
      answered := ⟨_, rfl, rfl, rfl, fun _ => rfl, fun values result h => absurd h (by simp [Serving.prepared])⟩
      unmodified := ⟨_, hm⟩ }

theorem call_frame (py : Python ρ) (command : String) (m : CommandMethod ν σ ρ) (pos_args : List ν)
    (kw_args : List (String × ν)) (s : Serving ν σ ρ) :
    (m.call py command pos_args kw_args s).2.memory = s.memory ∧
      (m.call py command pos_args kw_args s).2.responses = s.responses := by
  unfold CommandMethod.call
  split <;> exact ⟨rfl, rfl⟩

/-- The event of a command comes to what it has to exactly if each entry of `visited` is of its
types. -/
theorem handleEvent_binds_iff (py : Python ρ) (obj : Value → ν) (topic command : String) (args : Dict String)
    (m : CommandMethod ν σ ρ) (s : Serving ν σ ρ) {getattr : String → Option (Attribute ν σ ρ)} {e : CommandRequestEvent}
    (hpayload : e.payload = some ⟨command, .dict args⟩) (hmethod : getattr command = some (.method (some m))) :
    Binds py obj topic m e command args s (s.handleEvent py obj topic getattr e) ↔ ∀ v ∈ e.visited, v.typed = true := by
  refine ⟨fun h => ?_, binds_of_typed py obj topic command args m s hpayload hmethod⟩
  by_contra hno
  obtain ⟨r, hr, -⟩ := h.answered
  -- the exception leaves the responses as they were
  rw [handleEvent_method py obj topic s hpayload hmethod, if_neg hno, (call_frame ..).2] at hr
  exact absurd hr (by simp [Serving.prepared])

/-- A method with a parameter of the client, one of the event and one with a default. -/
def exampleMethod : CommandMethod Value Nat String where
  params := [⟨"arg", .positionalOrKeyword, none⟩, ⟨"client_id", .positionalOrKeyword, none⟩,
    ⟨"event", .positionalOrKeyword, none⟩, ⟨"cascade", .positionalOrKeyword, some (.bool false)⟩]
  ordinary := by decide
  distinct := by decide
  body := fun _ n => (.ok none, n + 1)

def exampleAttributes (name : String) : Option (Attribute Value Nat String) :=
  if name = "do_with_client_id" then some (.method (some exampleMethod)) else none

/-- The event of a client that says when it has sent it. -/
def stampedEvent (tstamp : Data) : CommandRequestEvent where
  action_id := "ACTION_ID"
  message_id := "MESSAGE_ID"
  client_id := "CLIENT_ID"
  client_version := "0.1.0"
  client_username := "user"
  authenticated := false
  tstamp := 1556814924121
  visited := [⟨"anubis", tstamp, "0.1.0", .null⟩, ⟨"bai-bff", .int 1556814924121, "0.2.0", .str "bai-bff-1"⟩]
  type := "CMD_SUBMIT"
  payload := some ⟨"do_with_client_id", .dict (Dict.ofFields [("arg", "foo")])⟩

def plainPython : Python String := ⟨id, fun _ _ => "", fun _ _ _ => "", fun _ _ _ => .ok none⟩

theorem handleEvent_binds_client_id : let e := stampedEvent (.int 1556814924)
    let args : Dict String := Dict.ofFields [("arg", "foo")]
    let s : Serving Value Nat String := { memory := [], world := 0 }
    exampleMethod.Accepts args ∧
      exampleMethod.params.map (argument id e args) = [some (.str "foo"), some (.str "CLIENT_ID"), some .event, some (.bool false)] ∧
      Binds plainPython id "CMD_RETURN" exampleMethod e "do_with_client_id" args s
        (s.handleEvent plainPython id "CMD_RETURN" exampleAttributes e) := by
  intro e args s
  refine ⟨by decide, by decide, ?_⟩
  exact (handleEvent_binds_iff plainPython id "CMD_RETURN" "do_with_client_id" args exampleMethod s rfl rfl).2 (by decide)

/-- With a stamp that is not whole the method is called, and no response is sent. -/
theorem fractional_stamp_unanswered :
    let s := Serving.handleEvent plainPython id "CMD_RETURN" exampleAttributes { memory := [], world := 0 }
      (stampedEvent (.float "1572441443.5"))
    s.world = 1 ∧ s.calls.length = 1 ∧ s.responses.length = 0 := by
  decide

end Binding

/-! ## Every sequence of events -/

end BenchmarkAi.Commands
